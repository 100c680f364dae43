import FanucDriver.Queries.Durations
import FanucDriver.Streams.Parts

/-!
# The query for completed parts

`query-completed-program-parts.sql` is the other way to a completed part: a count that is
greater than the positive count before it (`lag`), joined with the program of greatest
number among those of an earlier second (`row_number`).

`programParts_reported` says what the rows of a machine are where its samples come by
increasing seconds, for any order of the table: what `reported` finds going through the
samples once, newest first. `programParts_streamed` compares this with the events of the
topology in `Staging.kt`: where a program comes first, no sample has both, and no program
is empty, the query reports the events whose count is greater than that of the event
before.

Mirroring notes:
- `timestamp / 1000` divides integers: it truncates to seconds. So a part is not joined
  with a program of the same second.
- `regexp_replace` puts one blank for every longest run of line breaks (`joinLines`).
- The order of `machine_id` is that of its characters; the database has a collation.
-/

namespace FanucDriver.Queries

open FanucDriver.Streams FanucDriver.Lib FanucDriver.Lib.Window FanucDriver.Lib.Transducer

/-! ## The query -/

/-- A row of `tbl`, but for its number. -/
structure ProgramRow where
  machine_id : JString
  timestamp : ℤ
  program : JString
  deriving DecidableEq

/-- A row of `t` and of `a`. -/
structure PartCountRow where
  machine_id : JString
  timestamp : ℤ
  part_count : Int64
  deriving DecidableEq

/-- A row of the query. -/
structure ProgramPartRow where
  machine_id : JString
  timestamp : ℤ
  part_count : Int64
  program_timestamp : ℤ
  program : JString
  deriving DecidableEq

/-- `where program is not null` -/
def programOf (x : PartSample) : Option (PartSample × JString) :=
  x.program.map fun program => (x, program)

/-- `select machine_id, to_timestamp(timestamp / 1000) as timestamp, program` -/
def programRow (x : PartSample × JString) : Option ProgramRow := do
  let timestamp ← toTimestamp (x.1.timestamp.toInt.tdiv 1000 : ℤ)
  some { machine_id := x.1.machineId, timestamp := timestamp, program := x.2 }

/-- With `row_number() over (partition by machine_id order by timestamp asc) as r` -/
def tblRow (x : (PartSample × JString) × ℕ) : Option (ProgramRow × ℕ) := do
  let row ← programRow x.1
  some (row, x.2)

def tbl (o : WindowOrder fun x : PartSample × JString => x.1.timestamp.toInt)
    (input : List PartSample) : Option (List (ProgramRow × ℕ)) :=
  (overPartitionIn o (·.1.machineId) rowNumber (input.filterMap programOf)).mapM tblRow

/-- `where part_count is not null and part_count > 0` -/
def partCountOf (x : PartSample) : Option (PartSample × Int64) :=
  (x.partCount.filter fun partCount => 0 < partCount).map fun partCount => (x, partCount)

/-- `select machine_id, to_timestamp(timestamp / 1000) as timestamp, part_count` -/
def partCountRow (x : PartSample × Int64) : Option PartCountRow := do
  let timestamp ← toTimestamp (x.1.timestamp.toInt.tdiv 1000 : ℤ)
  some { machine_id := x.1.machineId, timestamp := timestamp, part_count := x.2 }

/-- With `lag(part_count, 1) over (partition by machine_id order by timestamp asc) as p` -/
def laggedRow (x : (PartSample × Int64) × Option Int64) :
    Option (PartCountRow × Option Int64) := do
  let row ← partCountRow x.1
  some (row, x.2)

/-- `where part_count > p`, which is not true of a null -/
def increased (t : List (PartCountRow × Option Int64)) : List PartCountRow :=
  (t.filter fun x => x.2.any (· < x.1.part_count)).map Prod.fst

/-- The subquery `a`. -/
def parts (o : WindowOrder fun x : PartSample × Int64 => x.1.timestamp.toInt)
    (input : List PartSample) : Option (List PartCountRow) := do
  let t ← (overPartitionIn o (·.1.machineId) (lagged Prod.snd)
    (input.filterMap partCountOf)).mapM laggedRow
  some (increased t)

/-- `join tbl b on a.machine_id = b.machine_id and b.r = (select max(r) from tbl …)` -/
def joinProgram (tbl : List (ProgramRow × ℕ)) (a : PartCountRow) (b : ProgramRow × ℕ) : Prop :=
  a.machine_id = b.1.machine_id ∧
    some b.2 = ((tbl.filter fun x => x.1.machine_id = a.machine_id ∧
      x.1.timestamp < a.timestamp).map Prod.snd).max?

instance (tbl : List (ProgramRow × ℕ)) : DecidableRel (joinProgram tbl) := fun a b => by
  unfold joinProgram
  infer_instance

/-- `regexp_replace(…, '[\n\r]+', ' ', 'g')`, inside a run of line breaks or not. -/
def joinLinesFrom : Bool → JString → JString
  | _, [] => []
  | broken, c :: s =>
    if c = '\n' ∨ c = '\r' then
      if broken then joinLinesFrom true s else ' ' :: joinLinesFrom true s
    else c :: joinLinesFrom false s

def joinLines (s : JString) : JString := joinLinesFrom false s

def programPartRow (a : PartCountRow) (b : ProgramRow) : ProgramPartRow where
  machine_id := a.machine_id
  timestamp := a.timestamp
  part_count := a.part_count
  program_timestamp := b.timestamp
  program := joinLines b.program

/-- `order by a.machine_id, a.timestamp desc` -/
def ProgramPartRow.order (row : ProgramPartRow) : JString ×ₗ ℤᵒᵈ :=
  toLex (row.machine_id, OrderDual.toDual row.timestamp)

def programParts (o : WindowOrder fun x : PartSample × JString => x.1.timestamp.toInt)
    (o' : WindowOrder fun x : PartSample × Int64 => x.1.timestamp.toInt)
    (input : List PartSample) : Option (List ProgramPartRow) := do
  let tbl ← tbl o input
  let a ← parts o' input
  some (orderBy ProgramPartRow.order
    ((innerJoin (joinProgram tbl) a tbl).map fun x => programPartRow x.1 x.2.1))

/-! ## What it is for -/

/-- The last positive part count of some samples. -/
def lastPartCount (before : List PartSample) : Option Int64 :=
  ((before.filterMap partCountOf).map Prod.snd).getLast?

/-- The rows of the columns that the query reads, their timestamps unchecked. -/
def programRowOf (x : PartSample × JString) : ProgramRow where
  machine_id := x.1.machineId
  timestamp := seconds x.1.timestamp
  program := x.2

def partCountRowOf (x : PartSample × Int64) : PartCountRow where
  machine_id := x.1.machineId
  timestamp := seconds x.1.timestamp
  part_count := x.2

/-- What a sample completes after the samples `before`: a part, by the last program. -/
def reportedAt (before : List PartSample) (x : PartSample) : Option ProgramPartRow :=
  (partCountOf x).bind fun part =>
    if PartCompleted (lastPartCount before) part.2 then
      (before.filterMap programOf).getLast?.map fun program =>
        programPartRow (partCountRowOf part) (programRowOf program)
    else none

/-- The parts of some samples, after the samples `before`. -/
def reportedFrom : List PartSample → List PartSample → List ProgramPartRow
  | _, [] => []
  | before, x :: xs => (reportedAt before x).toList ++ reportedFrom (before ++ [x]) xs

/-- The parts of the samples of a machine. -/
def reported (log : List PartSample) : List ProgramPartRow := reportedFrom [] log

theorem reported_concat (log : List PartSample) (x : PartSample) :
    reported (log ++ [x]) = reported log ++ (reportedAt log x).toList := by
  have hfrom : ∀ before, reportedFrom before (log ++ [x])
      = reportedFrom before log ++ (reportedAt (before ++ log) x).toList := by
    induction log with
    | nil => intro before; simp [reportedFrom]
    | cons y log ih =>
      intro before
      rw [List.cons_append, reportedFrom, ih, reportedFrom, List.append_assoc, List.append_assoc]
      rfl
  exact hfrom []

/-! ## One part -/

theorem programRow_eq (x : PartSample × JString) (row : ProgramRow) (h : programRow x = some row) :
    row = programRowOf x := by
  obtain ⟨t, ht, hrow⟩ := Option.bind_eq_some_iff.mp h
  obtain rfl := toTimestamp_seconds ht
  exact (Option.some.inj hrow).symm

theorem partCountRow_eq (x : PartSample × Int64) (row : PartCountRow)
    (h : partCountRow x = some row) : row = partCountRowOf x := by
  obtain ⟨t, ht, hrow⟩ := Option.bind_eq_some_iff.mp h
  obtain rfl := toTimestamp_seconds ht
  exact (Option.some.inj hrow).symm

theorem tblRow_eq (x : (PartSample × JString) × ℕ) (row : ProgramRow × ℕ)
    (h : tblRow x = some row) : row = (programRowOf x.1, x.2) := by
  obtain ⟨programRow, hrow, h⟩ := Option.bind_eq_some_iff.mp h
  obtain rfl := programRow_eq x.1 programRow hrow
  exact (Option.some.inj h).symm

theorem laggedRow_eq (x : (PartSample × Int64) × Option Int64) (row : PartCountRow × Option Int64)
    (h : laggedRow x = some row) : row = (partCountRowOf x.1, x.2) := by
  obtain ⟨partCountRow, hrow, h⟩ := Option.bind_eq_some_iff.mp h
  obtain rfl := partCountRow_eq x.1 partCountRow hrow
  exact (Option.some.inj h).symm

/-- The programs of some samples, as the query reads them. -/
def programRows (log : List PartSample) : List ProgramRow :=
  (log.filterMap programOf).map programRowOf

def partCountRows (log : List PartSample) : List PartCountRow :=
  (log.filterMap partCountOf).map partCountRowOf

/-- The last program of an earlier second, with a count. -/
def joinedPart (programs : List ProgramRow) (a : PartCountRow) : Option ProgramPartRow :=
  (programs.filter fun b => b.timestamp < a.timestamp).getLast?.map (programPartRow a)

/-- **What a part is joined with**: the last program of an earlier second. -/
theorem filter_joinProgram {tbl : List (ProgramRow × ℕ)} {machine : JString}
    {programs : List ProgramRow}
    (htbl : tbl.filter (fun x => x.1.machine_id = machine) = rowNumber programs)
    {a : PartCountRow} (ha : a.machine_id = machine) :
    (tbl.filter (joinProgram tbl a)).map (fun b => programPartRow a b.1)
      = (joinedPart programs a).toList := by
  have hearlier : tbl.filter (fun x => x.1.machine_id = a.machine_id ∧
        x.1.timestamp < a.timestamp)
      = (rowNumber programs).filter fun x => x.1.timestamp < a.timestamp := by
    rw [← htbl, List.filter_filter, ha]
    refine List.filter_congr fun x _ => ?_
    rw [Bool.decide_and, Bool.and_comm]
  have hjoin : tbl.filter (joinProgram tbl a) = (rowNumber programs).filter fun x =>
      some x.2 = (((rowNumber programs).filter fun x =>
        x.1.timestamp < a.timestamp).map Prod.snd).max? := by
    rw [← hearlier, ← htbl, List.filter_filter]
    refine List.filter_congr fun x _ => ?_
    rw [← Bool.decide_and, decide_eq_decide]
    unfold joinProgram
    rw [ha, and_comm, eq_comm (a := machine)]
  have hlast := filter_max_rowNumber (fun b : ProgramRow => b.timestamp < a.timestamp) programs
  have hmap := congrArg (List.map (programPartRow a)) hlast
  rw [List.map_map] at hmap
  rw [hjoin, joinedPart]
  refine hmap.trans ?_
  cases (programs.filter fun b => b.timestamp < a.timestamp).getLast? <;> rfl

/-- The parts of a machine, each with the last program of an earlier second. -/
theorem filter_joined {tbl : List (ProgramRow × ℕ)} {machine : JString}
    {programs : List ProgramRow}
    (htbl : tbl.filter (fun x => x.1.machine_id = machine) = rowNumber programs)
    (as : List PartCountRow) :
    ((innerJoin (joinProgram tbl) as tbl).map fun x => programPartRow x.1 x.2.1).filter
        (fun row => row.machine_id = machine)
      = (as.filter fun a => a.machine_id = machine).filterMap (joinedPart programs) := by
  induction as with
  | nil => rfl
  | cons a as ih =>
    rw [innerJoin] at ih ⊢
    rw [List.flatMap_cons, List.map_append, List.filter_append, ih, List.map_map]
    by_cases ha : a.machine_id = machine
    · have hrows : ∀ row ∈ (tbl.filter (joinProgram tbl a)).map
            (fun b => programPartRow a b.1), decide (row.machine_id = machine) = true := by
        intro row hrow
        obtain ⟨b, -, rfl⟩ := List.mem_map.mp hrow
        exact decide_eq_true ha
      rw [List.filter_cons, if_pos (decide_eq_true ha)]
      refine (congrArg (· ++ _) ((List.filter_eq_self.mpr hrows).trans
        (filter_joinProgram htbl ha))).trans ?_
      cases h : joinedPart programs a with
      | none => rw [List.filterMap_cons_none h]; rfl
      | some row => rw [List.filterMap_cons_some h]; rfl
    · have hnil : ((tbl.filter (joinProgram tbl a)).map (fun b => programPartRow a b.1)).filter
          (fun row => row.machine_id = machine) = [] := by
        refine List.filter_eq_nil_iff.mpr fun row hrow heq => ha ?_
        obtain ⟨b, -, rfl⟩ := List.mem_map.mp hrow
        exact of_decide_eq_true heq
      rw [List.filter_cons, if_neg (by simpa using ha)]
      exact (congrArg (· ++ _) hnil).trans (List.nil_append _)

section
variable {o : WindowOrder fun x : PartSample × JString => x.1.timestamp.toInt}
  {o' : WindowOrder fun x : PartSample × Int64 => x.1.timestamp.toInt} {input : List PartSample}

/-- The programs of a machine in `tbl`, numbered in window order. -/
theorem filter_tbl {tbl : List (ProgramRow × ℕ)} (h : Queries.tbl o input = some tbl)
    (machine : JString) :
    tbl.filter (fun x => x.1.machine_id = machine)
      = rowNumber ((o.order ((input.filterMap programOf).filter fun x =>
          x.1.machineId = machine)).map programRowOf) := by
  obtain rfl := eq_map_of_mapM h tblRow_eq
  have hwindow : (overPartitionIn o (·.1.machineId) rowNumber (input.filterMap programOf)).filter
        (fun x => x.1.1.machineId = machine)
      = rowNumber (o.order ((input.filterMap programOf).filter fun x =>
          x.1.machineId = machine)) :=
    filter_overIn o (fun x => x.1.1.machineId) rfl
      (fun as k has x hx => has x.1 (List.fst_mem_of_mem_zipIdx hx)) _ machine
  rw [rowNumber_map, ← hwindow, List.filter_map]
  rfl

/-- The parts of a machine in `a`. -/
theorem filter_parts {as : List PartCountRow} (h : parts o' input = some as) (machine : JString) :
    as.filter (fun a => a.machine_id = machine)
      = increased (lagged (·.part_count) ((o'.order ((input.filterMap partCountOf).filter fun x =>
          x.1.machineId = machine)).map partCountRowOf)) := by
  obtain ⟨t, ht, has⟩ := Option.bind_eq_some_iff.mp h
  obtain rfl := Option.some.inj has
  obtain rfl := eq_map_of_mapM ht laggedRow_eq
  have hwindow : (overPartitionIn o' (·.1.machineId) (lagged Prod.snd)
        (input.filterMap partCountOf)).filter (fun x => x.1.1.machineId = machine)
      = lagged Prod.snd (o'.order ((input.filterMap partCountOf).filter fun x =>
          x.1.machineId = machine)) :=
    filter_overIn o' (fun x => x.1.1.machineId) rfl
      (fun as k has x hx => has x.1 (mem_of_mem_lagged hx)) _ machine
  rw [lagged_map]
  show _ = increased ((lagged Prod.snd _).map _)
  rw [← hwindow, increased, increased, List.filter_map, List.filter_comm, List.filter_map,
    List.filter_map, List.filter_map]
  rfl

/-- The rows of a machine, from its programs and its counts in window order. -/
theorem programParts_rows {rows : List ProgramPartRow}
    (hquery : programParts o o' input = some rows) (machine : JString) :
    (rows.filter fun row => row.machine_id = machine).Perm
      ((increased (lagged (·.part_count) ((o'.order ((input.filterMap partCountOf).filter fun x =>
          x.1.machineId = machine)).map partCountRowOf))).filterMap
        (joinedPart ((o.order ((input.filterMap programOf).filter fun x =>
          x.1.machineId = machine)).map programRowOf))) := by
  obtain ⟨tbl, htbl, hquery⟩ := Option.bind_eq_some_iff.mp hquery
  obtain ⟨as, has, hrows⟩ := Option.bind_eq_some_iff.mp hquery
  obtain rfl := Option.some.inj hrows
  refine ((orderBy_perm ProgramPartRow.order _).filter _).trans (.of_eq ?_)
  rw [filter_joined (filter_tbl htbl machine), filter_parts has]

/-- The query answers where the timestamps are in range. -/
theorem isSome_programParts (hrange : ∀ x ∈ input, inRange (seconds x.timestamp)) :
    (programParts o o' input).isSome := by
  have htbl : (tbl o input).isSome := by
    refine isSome_mapM_iff.mpr fun x hx => ?_
    have hmem := mem_of_mem_overPartitionIn (fun _ _ hb => List.fst_mem_of_mem_zipIdx hb) hx
    obtain ⟨y, hy, hyx⟩ := List.mem_filterMap.mp hmem
    obtain ⟨program, -, heq⟩ := Option.map_eq_some_iff.mp hyx
    have hrange := hrange y hy
    rw [show y = x.1.1 from congrArg Prod.fst heq] at hrange
    rw [tblRow, programRow, toTimestamp_eq_seconds hrange]
    rfl
  have hparts : ((overPartitionIn o' (·.1.machineId) (lagged Prod.snd)
      (input.filterMap partCountOf)).mapM laggedRow).isSome := by
    refine isSome_mapM_iff.mpr fun x hx => ?_
    have hmem := mem_of_mem_overPartitionIn (fun _ _ => mem_of_mem_lagged) hx
    obtain ⟨y, hy, hyx⟩ := List.mem_filterMap.mp hmem
    obtain ⟨partCount, -, heq⟩ := Option.map_eq_some_iff.mp hyx
    have hrange := hrange y hy
    rw [show y = x.1.1 from congrArg Prod.fst heq] at hrange
    rw [laggedRow, partCountRow, toTimestamp_eq_seconds hrange]
    rfl
  obtain ⟨tbl, htbl⟩ := Option.isSome_iff_exists.mp htbl
  obtain ⟨t, ht⟩ := Option.isSome_iff_exists.mp hparts
  exact Option.isSome_iff_exists.mpr ⟨_, Option.bind_eq_some_iff.mpr
    ⟨tbl, htbl, Option.bind_eq_some_iff.mpr
      ⟨_, Option.bind_eq_some_iff.mpr ⟨t, ht, rfl⟩, rfl⟩⟩⟩

end

/-! ## One pass through the samples -/

theorem any_lt_eq (p : Option Int64) (partCount : Int64) :
    (p.any fun q => decide (q < partCount)) = decide (PartCompleted p partCount) := by
  cases p <;> simp [PartCompleted]

theorem increased_concat (t : List (PartCountRow × Option Int64))
    (x : PartCountRow × Option Int64) :
    increased (t ++ [x])
      = increased t ++ if PartCompleted x.2 x.1.part_count then [x.1] else [] := by
  rw [increased, List.filter_append, List.map_append, List.filter_cons, any_lt_eq]
  by_cases h : PartCompleted x.2 x.1.part_count
  · rw [if_pos (decide_eq_true h), if_pos h]
    rfl
  · rw [if_neg (by simpa using h), if_neg h]
    rfl

/-- A program of a later sample is not joined with a part. -/
theorem joinedPart_concat (log : List PartSample) {x : PartSample} {a : PartCountRow}
    (h : a.timestamp ≤ seconds x.timestamp) :
    joinedPart (programRows (log ++ [x])) a = joinedPart (programRows log) a := by
  have hnil : (programRows [x]).filter (fun b => b.timestamp < a.timestamp) = [] := by
    refine List.filter_eq_nil_iff.mpr fun b hb hlt => ?_
    obtain ⟨y, hy, rfl⟩ := List.mem_map.mp hb
    obtain ⟨z, hz, hzy⟩ := List.mem_filterMap.mp hy
    obtain rfl := List.mem_singleton.mp hz
    obtain ⟨program, -, rfl⟩ := Option.map_eq_some_iff.mp hzy
    have hlt : seconds z.timestamp < a.timestamp := of_decide_eq_true hlt
    omega
  have happ : programRows (log ++ [x]) = programRows log ++ programRows [x] := by
    rw [programRows, List.filterMap_append, List.map_append]
    rfl
  rw [joinedPart, happ, List.filter_append, hnil, List.append_nil, joinedPart]

/-- A part is joined with the last program before it. -/
theorem joinedPart_last {log : List PartSample} {a : PartCountRow}
    (h : ∀ y ∈ log, seconds y.timestamp < a.timestamp) :
    joinedPart (programRows log) a
      = (log.filterMap programOf).getLast?.map fun program =>
          programPartRow a (programRowOf program) := by
  have hself : (programRows log).filter (fun b => b.timestamp < a.timestamp) = programRows log := by
    refine List.filter_eq_self.mpr fun b hb => ?_
    obtain ⟨y, hy, rfl⟩ := List.mem_map.mp hb
    obtain ⟨z, hz, hzy⟩ := List.mem_filterMap.mp hy
    obtain ⟨program, -, rfl⟩ := Option.map_eq_some_iff.mp hzy
    exact decide_eq_true (h z hz)
  rw [joinedPart, hself, programRows, List.getLast?_map, Option.map_map]
  rfl

theorem mem_increased {log : List PartSample} {a : PartCountRow}
    (ha : a ∈ increased (lagged (·.part_count) (partCountRows log))) :
    ∃ y ∈ log, a.timestamp = seconds y.timestamp := by
  obtain ⟨x, hx, rfl⟩ := List.mem_map.mp ha
  obtain ⟨part, hpart, hxpart⟩ := List.mem_map.mp (mem_of_mem_lagged (List.mem_filter.mp hx).1)
  obtain ⟨y, hy, hypart⟩ := List.mem_filterMap.mp hpart
  obtain ⟨partCount, -, rfl⟩ := Option.map_eq_some_iff.mp hypart
  exact ⟨y, hy, by rw [← hxpart]; rfl⟩

/-- **The windows over samples by increasing seconds** find what one pass finds. -/
theorem joined_reported {log : List PartSample}
    (hlog : log.Pairwise fun x y => seconds x.timestamp < seconds y.timestamp) :
    (increased (lagged (·.part_count) (partCountRows log))).filterMap
        (joinedPart (programRows log)) = reported log := by
  induction log using List.reverseRecOn with
  | nil => rfl
  | append_singleton log x ih =>
    obtain ⟨hlog, -, hlt⟩ := List.pairwise_append.mp hlog
    have hbefore : ∀ y ∈ log, seconds y.timestamp < seconds x.timestamp := fun y hy =>
      hlt y hy x List.mem_cons_self
    -- the parts before the sample keep their programs
    have hkeep : (increased (lagged (·.part_count) (partCountRows log))).filterMap
        (joinedPart (programRows (log ++ [x]))) = reported log := by
      rw [← ih hlog]
      refine List.filterMap_congr fun a ha => ?_
      obtain ⟨y, hy, hay⟩ := mem_increased ha
      have := hbefore y hy
      exact joinedPart_concat log (by omega)
    have happ : partCountRows (log ++ [x]) = partCountRows log ++ partCountRows [x] := by
      rw [partCountRows, List.filterMap_append, List.map_append]
      rfl
    rw [reported_concat, happ]
    cases hpart : partCountOf x with
    | none =>
      have hnone : partCountRows [x] = [] := by
        rw [partCountRows, List.filterMap_cons_none hpart]
        rfl
      rw [hnone, List.append_nil, hkeep, reportedAt, hpart]
      simp
    | some part =>
      obtain ⟨partCount, -, rfl⟩ := Option.map_eq_some_iff.mp hpart
      have hsome : partCountRows [x] = [partCountRowOf (x, partCount)] := by
        rw [partCountRows, List.filterMap_cons_some hpart]
        rfl
      have hlast : (partCountRows log).getLast?.map (·.part_count) = lastPartCount log := by
        rw [partCountRows, lastPartCount, List.getLast?_map, List.getLast?_map, Option.map_map]
        rfl
      rw [hsome, lagged_concat, increased_concat, List.filterMap_append, hkeep, hlast, reportedAt,
        hpart, Option.bind_some]
      refine congrArg (reported log ++ ·) ?_
      show List.filterMap _ (if PartCompleted (lastPartCount log) partCount then
        [partCountRowOf (x, partCount)] else []) = _
      by_cases hcompleted : PartCompleted (lastPartCount log) partCount
      · rw [if_pos hcompleted, if_pos hcompleted, List.filterMap_cons, List.filterMap_nil,
          joinedPart_concat log (le_refl _), joinedPart_last hbefore]
        cases (log.filterMap programOf).getLast? <;> rfl
      · rw [if_neg hcompleted, if_neg hcompleted]
        rfl

/-! ## What the query reports -/

section
variable {V : Type} {f : PartSample → Option (PartSample × V)}

/-- The rows of a machine are those of its samples. -/
theorem filter_columns (hf : ∀ x y, f x = some y → y.1 = x) (machine : JString)
    (input : List PartSample) :
    (input.filterMap f).filter (fun y => y.1.machineId = machine)
      = (input.filter fun x => x.machineId = machine).filterMap f := by
  induction input with
  | nil => rfl
  | cons x input ih =>
    by_cases hx : x.machineId = machine
    · rw [List.filter_cons (p := fun x : PartSample => x.machineId = machine),
        if_pos (decide_eq_true hx)]
      cases h : f x with
      | none => rw [List.filterMap_cons_none h, List.filterMap_cons_none h, ih]
      | some y =>
        have hkey : y.1.machineId = machine := by rw [hf x y h, hx]
        rw [List.filterMap_cons_some h, List.filterMap_cons_some h, List.filter_cons,
          if_pos (decide_eq_true hkey), ih]
    · rw [List.filter_cons (p := fun x : PartSample => x.machineId = machine),
        if_neg (by simpa using hx)]
      cases h : f x with
      | none => rw [List.filterMap_cons_none h, ih]
      | some y =>
        have hkey : y.1.machineId ≠ machine := by rw [hf x y h]; exact hx
        rw [List.filterMap_cons_some h, List.filter_cons, if_neg (by simpa using hkey), ih]

/-- Rows of samples by increasing seconds do not tie. -/
theorem columns_strict (hf : ∀ x y, f x = some y → y.1 = x) {log : List PartSample}
    (hlog : log.Pairwise fun x y => seconds x.timestamp < seconds y.timestamp) :
    (log.filterMap f).Pairwise fun a b => a.1.timestamp.toInt < b.1.timestamp.toInt := by
  rw [List.pairwise_filterMap]
  refine hlog.imp fun {x y} hlt x' hx' y' hy' => ?_
  rw [hf x x' hx', hf y y' hy']
  by_contra hle
  have := seconds_mono (not_lt.mp hle)
  omega

/-- So they are in window order. -/
theorem order_columns (o : WindowOrder fun x : PartSample × V => x.1.timestamp.toInt)
    (hf : ∀ x y, f x = some y → y.1 = x) {machine : JString} {input log : List PartSample}
    (hperm : (input.filter fun x => x.machineId = machine).Perm log)
    (hlog : log.Pairwise fun x y => seconds x.timestamp < seconds y.timestamp) :
    o.order ((input.filterMap f).filter fun y => y.1.machineId = machine) = log.filterMap f := by
  rw [filter_columns hf]
  exact o.order_eq (hperm.filterMap f) (columns_strict hf hlog)

end

theorem programOf_fst (x : PartSample) (y : PartSample × JString) (h : programOf x = some y) :
    y.1 = x := by
  obtain ⟨program, -, rfl⟩ := Option.map_eq_some_iff.mp h
  rfl

theorem partCountOf_fst (x : PartSample) (y : PartSample × Int64) (h : partCountOf x = some y) :
    y.1 = x := by
  obtain ⟨partCount, -, rfl⟩ := Option.map_eq_some_iff.mp h
  rfl

/-- A reported part is of the machine and the second of its sample. -/
theorem reportedAt_sample {before : List PartSample} {x : PartSample} {row : ProgramPartRow}
    (h : reportedAt before x = some row) :
    row.machine_id = x.machineId ∧ row.timestamp = seconds x.timestamp := by
  obtain ⟨part, hpart, hrow⟩ := Option.bind_eq_some_iff.mp h
  obtain rfl := partCountOf_fst x part hpart
  split at hrow
  · obtain ⟨program, -, rfl⟩ := Option.map_eq_some_iff.mp hrow
    exact ⟨rfl, rfl⟩
  · exact absurd hrow.symm (Option.some_ne_none row)

theorem reported_sorted {log : List PartSample}
    (hlog : log.Pairwise fun x y => seconds x.timestamp < seconds y.timestamp) :
    (∀ row ∈ reported log, ∃ x ∈ log, row.machine_id = x.machineId ∧
      row.timestamp = seconds x.timestamp) ∧
    (reported log).Pairwise fun row next => row.timestamp < next.timestamp := by
  induction log using List.reverseRecOn with
  | nil => exact ⟨fun row hrow => absurd hrow List.not_mem_nil, List.Pairwise.nil⟩
  | append_singleton log x ih =>
    obtain ⟨hlog, -, hlt⟩ := List.pairwise_append.mp hlog
    obtain ⟨hmem, hsorted⟩ := ih hlog
    rw [reported_concat]
    constructor
    · intro row hrow
      rcases List.mem_append.mp hrow with hrow | hrow
      · obtain ⟨y, hy, hrow⟩ := hmem row hrow
        exact ⟨y, List.mem_append_left _ hy, hrow⟩
      · exact ⟨x, List.mem_append_right _ List.mem_cons_self,
          reportedAt_sample (Option.mem_toList.mp hrow)⟩
    · refine List.pairwise_append.mpr ⟨hsorted, ?_, fun row hrow next hnext => ?_⟩
      · cases reportedAt log x with
        | none => exact List.Pairwise.nil
        | some row => exact List.pairwise_singleton _ row
      · obtain ⟨y, hy, -, hrow⟩ := hmem row hrow
        rw [hrow, (reportedAt_sample (Option.mem_toList.mp hnext)).2]
        exact hlt y hy x List.mem_cons_self

section
variable {o : WindowOrder fun x : PartSample × JString => x.1.timestamp.toInt}
  {o' : WindowOrder fun x : PartSample × Int64 => x.1.timestamp.toInt} {input : List PartSample}

theorem programParts_sorted {rows : List ProgramPartRow}
    (hquery : programParts o o' input = some rows) :
    rows.Pairwise fun row next => row.order ≤ next.order := by
  obtain ⟨numbered, -, hquery⟩ := Option.bind_eq_some_iff.mp hquery
  obtain ⟨as, -, hrows⟩ := Option.bind_eq_some_iff.mp hquery
  obtain rfl := Option.some.inj hrows
  exact orderBy_sorted ProgramPartRow.order _

/-- The rows of a machine, where the query answers. -/
theorem filter_programParts {rows : List ProgramPartRow}
    (hquery : programParts o o' input = some rows) {machine : JString} {log : List PartSample}
    (hperm : (input.filter fun x => x.machineId = machine).Perm log)
    (hlog : log.Pairwise fun x y => seconds x.timestamp < seconds y.timestamp) :
    (rows.filter fun row => row.machine_id = machine) = (reported log).reverse := by
  have hrows := programParts_rows hquery machine
  rw [order_columns o' partCountOf_fst hperm hlog, order_columns o programOf_fst hperm hlog]
    at hrows
  have hrows : (rows.filter fun row => row.machine_id = machine).Perm
      ((increased (lagged (·.part_count) (partCountRows log))).filterMap
        (joinedPart (programRows log))) := hrows
  rw [joined_reported hlog] at hrows
  obtain ⟨hmem, hsorted⟩ := reported_sorted hlog
  have hmachine : ∀ row ∈ reported log, row.machine_id = machine := by
    intro row hrow
    obtain ⟨x, hx, hrow, -⟩ := hmem row hrow
    exact hrow.trans (of_decide_eq_true (List.mem_filter.mp (hperm.mem_iff.mpr hx)).2)
  refine eq_of_perm_of_sorted (hrows.trans (List.reverse_perm _).symm)
    ((programParts_sorted hquery).filter _) ?_
  rw [List.pairwise_reverse]
  refine (List.Pairwise.and_mem.mp hsorted).imp ?_
  intro row next h
  obtain ⟨hrow, hnext, hlt⟩ := h
  rw [ProgramPartRow.order, ProgramPartRow.order, hmachine row hrow, hmachine next hnext,
    Prod.Lex.toLex_lt_toLex]
  exact Or.inr ⟨rfl, OrderDual.toDual_lt_toDual.mpr hlt⟩

end

/-- **What the query reports**: it answers where the timestamps are in range, for any order
of the table; where the samples of a machine come by increasing seconds, with the parts
that one pass through them finds, newest first. -/
theorem programParts_reported
    (o : WindowOrder fun x : PartSample × JString => x.1.timestamp.toInt)
    (o' : WindowOrder fun x : PartSample × Int64 => x.1.timestamp.toInt)
    {input : List PartSample} {machine : JString} {log : List PartSample}
    (hperm : (input.filter fun x => x.machineId = machine).Perm log)
    (hlog : log.Pairwise fun x y => seconds x.timestamp < seconds y.timestamp) :
    ((∀ x ∈ input, inRange (seconds x.timestamp)) → (programParts o o' input).isSome) ∧
    ∀ rows, programParts o o' input = some rows →
      (rows.filter fun row => row.machine_id = machine) = (reported log).reverse :=
  ⟨isSome_programParts, fun _ hquery => filter_programParts hquery hperm hlog⟩

/-! ## Against the topology -/

section
variable (sha1Hex : JString → JString)

/-- The events of a machine. -/
def completedEvents (machine : JString) (xs : List (JString × PartSample)) :
    List PartCompletedEventDatum :=
  project machine ((partCompletedEvents sha1Hex).run (fun _ => none, fun _ => none) xs)

/-- The row of an event. -/
def eventRow (event : PartCompletedEventDatum) : ProgramPartRow where
  machine_id := event.machineId
  timestamp := seconds event.timestamp
  part_count := event.partCount
  program_timestamp := seconds event.programTimestamp
  program := joinLines event.program

/-- The rows of the events whose count is greater than that of the event before. -/
def increasedEvents (events : List PartCompletedEventDatum) : List ProgramPartRow :=
  ((lagged (·.partCount) events).filter fun x => x.2.any (· < x.1.partCount)).map
    fun x => eventRow x.1

/-- A sample whose program is not empty and comes without a part count. -/
structure Plain (x : PartSample) : Prop where
  program : x.program ≠ some []
  apart : x.program.isSome → partCountDetail x = none

theorem increasedEvents_concat (events : List PartCompletedEventDatum)
    (event : PartCompletedEventDatum) :
    increasedEvents (events ++ [event]) = increasedEvents events ++
      if PartCompleted (events.getLast?.map (·.partCount)) event.partCount then [eventRow event]
      else [] := by
  rw [increasedEvents, lagged_concat, List.filter_append, List.map_append, List.filter_cons,
    any_lt_eq]
  by_cases h : PartCompleted (events.getLast?.map (·.partCount)) event.partCount
  · rw [if_pos (decide_eq_true h), if_pos h]
    rfl
  · rw [if_neg (by simpa using h), if_neg h]
    rfl

/-- An event has the key of its record. -/
theorem key_of_completed
    {s : KeyValueStore JString ProgramDetailDatum × KeyValueStore JString Int64}
    {x : JString × PartSample} {event : JString × PartCompletedEventDatum}
    (h : (partCompletedEvents sha1Hex s x).2 = some event) : event.1 = x.1 := by
  obtain ⟨⟨key, partCount⟩, hleft, h⟩ := Option.bind_eq_some_iff.mp h
  obtain ⟨program, -, rfl⟩ := Option.map_eq_some_iff.mp h
  have hleft : (partCountStream s.2 x).2 = some (key, partCount) := hleft
  rw [partCountStream, transformValues_dedup, after] at hleft
  cases hdetail : partCountDetail x.2 with
  | none =>
    simp only [hdetail, Option.map_none] at hleft
    exact absurd hleft.symm (Option.some_ne_none _)
  | some detail =>
    simp only [hdetail, Option.map_some, keyed] at hleft
    obtain ⟨b, -, hb⟩ := Option.map_eq_some_iff.mp hleft
    exact (congrArg Prod.fst hb).symm

/-- One more record. -/
theorem completedEvents_concat (machine : JString) (xs : List (JString × PartSample))
    (key : JString) (value : PartSample) :
    completedEvents sha1Hex machine (xs ++ [(key, value)]) = completedEvents sha1Hex machine xs ++
      if key = machine then (completedAt sha1Hex xs key value).toList else [] := by
  rw [completedEvents, run_concat, project_append]
  refine congrArg (completedEvents sha1Hex machine xs ++ ·) ?_
  show project machine (partCompletedEvents sha1Hex (partStores sha1Hex xs) (key, value)).2.toList
    = _
  unfold completedAt
  cases h : (partCompletedEvents sha1Hex (partStores sha1Hex xs) (key, value)).2 with
  | none => simp [project]
  | some event =>
    obtain ⟨k, event⟩ := event
    obtain rfl : k = key := key_of_completed sha1Hex h
    by_cases hk : k = machine
    · rw [if_pos hk, hk]
      simp [project]
    · rw [if_neg hk]
      simp [project, hk]

variable {sha1Hex}

/-- The counts that the query reads are those of the topology. -/
theorem partCountOf_eq (x : PartSample) :
    partCountOf x = (partCountDetail x).map fun detail => (x, detail.partCount) := by
  unfold partCountOf partCountDetail
  cases x.partCount with
  | none => rfl
  | some partCount =>
    by_cases h : 0 < partCount
    · simp [h]
    · have hle := Int64.not_lt.mp h
      simp [h, hle]

theorem lastPartCount_eq (machine : JString) (xs : List (JString × PartSample)) :
    lastPartCount (project machine xs) = (partCountHistory machine xs).getLast? := by
  rw [lastPartCount, partCountHistory, List.map_filterMap, List.map_filterMap]
  refine congrArg List.getLast? (List.filterMap_congr fun x _ => ?_)
  rw [partCountOf_eq, Option.map_map]
  rfl

/-- The program of an event is the one the query finds. -/
theorem lastProgram_eq (sha1Hex : JString → JString) {machine : JString}
    {xs : List (JString × PartSample)} (hplain : ∀ x ∈ project machine xs, Plain x)
    (part : PartCountDetailDatum)
    (x : PartSample) (hx : partCountDetail x = some part) :
    (programHistory sha1Hex machine xs).getLast?.map
        (fun program => eventRow (partCompletedEvent part program))
      = ((project machine xs).filterMap programOf).getLast?.map fun program =>
          programPartRow (partCountRowOf (x, part.partCount)) (programRowOf program) := by
  have hdetail : part.machineId = x.machineId ∧ part.timestamp = x.timestamp := by
    unfold partCountDetail at hx
    split at hx
    · exact absurd hx.symm (Option.some_ne_none part)
    · split at hx
      · obtain rfl := Option.some.inj hx
        exact ⟨rfl, rfl⟩
      · exact absurd hx.symm (Option.some_ne_none part)
  rw [← List.getLast?_map, ← List.getLast?_map, programHistory, List.map_filterMap,
    List.map_filterMap]
  refine congrArg List.getLast? (List.filterMap_congr fun y hy => ?_)
  unfold programsStream programOf
  cases hprogram : y.program with
  | none => rfl
  | some program =>
    have hne : program ≠ [] := fun h => (hplain y hy).program (h ▸ hprogram)
    have hfull : isNullOrEmpty (some program) = false := by
      cases program with
      | nil => exact absurd rfl hne
      | cons c program => rfl
    simp [hfull, eventRow, partCompletedEvent, programPartRow, partCountRowOf, programRowOf,
      hdetail.1, hdetail.2]

/-- **One pass and the topology**: the parts that one pass finds are the events whose count
is greater than that of the event before, and the last event has the last count. -/
theorem reported_eq_increasedEvents {machine : JString} {xs : List (JString × PartSample)}
    (hfirst : ProgramFirst sha1Hex machine xs) (hplain : ∀ x ∈ project machine xs, Plain x) :
    reported (project machine xs) = increasedEvents (completedEvents sha1Hex machine xs) ∧
      (completedEvents sha1Hex machine xs).getLast?.map (·.partCount)
        = (partCountHistory machine xs).getLast? := by
  induction xs using List.reverseRecOn with
  | nil => exact ⟨rfl, rfl⟩
  | append_singleton xs x ih =>
    obtain ⟨key, value⟩ := x
    have hfirst' : ProgramFirst sha1Hex machine xs := fun p value hp =>
      hfirst p value (hp.trans (List.prefix_append _ _))
    rw [project_append] at hplain
    obtain ⟨ih, hlast⟩ := ih hfirst' fun x hx => hplain x (List.mem_append_left _ hx)
    have hcounts : partCountHistory machine (xs ++ [(key, value)])
        = partCountHistory machine xs ++
          ((project machine [(key, value)]).filterMap partCountDetail).map (·.partCount) := by
      rw [partCountHistory, project_append, List.filterMap_append, List.map_append]
      rfl
    rw [completedEvents_concat, project_append, hcounts]
    by_cases hkey : key = machine
    · subst hkey
      have hproject : project key [(key, value)] = [value] := project_cons_self key value []
      rw [hproject] at hplain
      have hvalue := hplain value (List.mem_append_right _ List.mem_cons_self)
      rw [hproject, if_pos rfl, reported_concat, completedAt_eq, reportedAt, partCountOf_eq]
      cases hpart : partCountDetail value with
      | none =>
        rw [List.filterMap_cons_none hpart]
        simpa using ⟨ih, hlast⟩
      | some part =>
        -- the program of an event comes from a sample before
        have hnone : programsStream sha1Hex value = none := by
          have hnot : ¬value.program.isSome := fun h => by
            rw [hvalue.apart h] at hpart
            exact Option.some_ne_none part hpart.symm
          rw [programsStream, Option.not_isSome_iff_eq_none.mp hnot]
          rfl
        have hprograms : programHistory sha1Hex key (xs ++ [(key, value)])
            = programHistory sha1Hex key xs := by
          rw [programHistory, project_append, hproject, List.filterMap_append,
            List.filterMap_cons_none hnone, List.filterMap_nil, List.append_nil, programHistory]
        have hne := hfirst xs value (List.prefix_refl _) (by rw [hpart]; rfl)
        rw [hprograms] at hne
        obtain ⟨program, hprogram⟩ := Option.isSome_iff_exists.mp (List.getLast?_isSome.mpr hne)
        have hrow := lastProgram_eq sha1Hex (fun x hx => hplain x (List.mem_append_left _ hx)) part
          value hpart
        rw [hprogram, Option.map_some] at hrow
        rw [List.filterMap_cons_some hpart, hprograms, hprogram, lastPartCount_eq]
        simp only [Option.map_some, Option.bind_some, ← hrow]
        by_cases hrepeat : (partCountHistory key xs).getLast? = some part.partCount
        · have hnot : ¬PartCompleted (some part.partCount) part.partCount := by
            intro h
            obtain ⟨q, hq, hlt⟩ := h
            obtain rfl := Option.some.inj hq
            exact Int64.lt_irrefl hlt
          rw [if_pos hrepeat, hrepeat, if_neg hnot]
          refine ⟨by simpa using ih, ?_⟩
          rw [Option.toList_none, List.append_nil, hlast, hrepeat]
          simp
        · rw [if_neg hrepeat, Option.toList_some, increasedEvents_concat, hlast, ← ih]
          refine ⟨?_, ?_⟩
          · show _ = reported (project key xs) ++
              if PartCompleted (partCountHistory key xs).getLast? part.partCount then
                [eventRow (partCompletedEvent part program)] else []
            split <;> rfl
          · simp [partCompletedEvent]
    · have hproject : project machine [(key, value)] = [] := project_cons_ne hkey value []
      rw [hproject, if_neg hkey]
      simpa using ⟨ih, hlast⟩

/-- **The query against the topology**: where the samples of a machine come by increasing
seconds, a program first, none of them empty or with a part count, the query reports the
events whose count is greater than that of the event before, newest first. -/
theorem programParts_streamed
    (o : WindowOrder fun x : PartSample × JString => x.1.timestamp.toInt)
    (o' : WindowOrder fun x : PartSample × Int64 => x.1.timestamp.toInt)
    {input : List PartSample} {machine : JString} {xs : List (JString × PartSample)}
    (hperm : (input.filter fun x => x.machineId = machine).Perm (project machine xs))
    (hlog : (project machine xs).Pairwise fun x y => seconds x.timestamp < seconds y.timestamp)
    (hfirst : ProgramFirst sha1Hex machine xs) (hplain : ∀ x ∈ project machine xs, Plain x) :
    ((∀ x ∈ input, inRange (seconds x.timestamp)) → (programParts o o' input).isSome) ∧
    ∀ rows, programParts o o' input = some rows →
      (rows.filter fun row => row.machine_id = machine)
        = (increasedEvents (completedEvents sha1Hex machine xs)).reverse := by
  refine ⟨isSome_programParts, fun rows hquery => ?_⟩
  rw [filter_programParts hquery hperm hlog, (reported_eq_increasedEvents hfirst hplain).1]

end

/-! ## One machine -/

/-- A machine that loads a program of two lines, makes parts 5 and 6, loads another
program, and makes parts 1 and 2. -/
def twoPrograms : List (JString × PartSample) :=
  [partSample (some "O1\r\nM30") none 1000, partSample none (some 5) 2000,
    partSample none (some 6) 3000, partSample (some "O2") none 4500,
    partSample none (some 1) 5000, partSample none (some 2) 6000]

/-- The query reports parts 2 and 6. -/
def twoProgramRows : List ProgramPartRow :=
  [{ machine_id := "lathe".toList, timestamp := 6000000, part_count := 2,
     program_timestamp := 4000000, program := "O2".toList },
   { machine_id := "lathe".toList, timestamp := 3000000, part_count := 6,
     program_timestamp := 1000000, program := "O1 M30".toList }]

/-- The table in another order. -/
def twoProgramsTable : List PartSample := (twoPrograms.map Prod.snd).reverse

/-- Rows that tie as they come. -/
def byTimestamp {V : Type} : WindowOrder fun x : PartSample × V => x.1.timestamp.toInt :=
  .finer (·.1.timestamp.toInt) fun _ _ h => h

theorem twoPrograms_programFirst : ProgramFirst id "lathe".toList twoPrograms := by
  intro p value hp hpart
  cases p with
  | nil =>
    -- the first record has no part count
    have hvalue := congrArg Prod.snd (List.cons_prefix_cons.mp hp).1
    rw [show value = (partSample (some "O1\r\nM30") none 1000).2 from hvalue] at hpart
    exact absurd hpart (by decide)
  | cons x p =>
    obtain rfl := (List.cons_prefix_cons.mp hp).1
    exact List.cons_ne_nil _ _

theorem twoPrograms_plain : ∀ x ∈ project "lathe".toList twoPrograms, Plain x := by
  have hall : ∀ x ∈ project "lathe".toList twoPrograms,
      x.program ≠ some [] ∧ (x.program.isSome → partCountDetail x = none) := by
    decide
  exact fun x hx => ⟨(hall x hx).1, (hall x hx).2⟩

/-- One pass through the samples finds the two. -/
theorem programParts_reported_two :
    programParts byTimestamp byTimestamp twoProgramsTable = some twoProgramRows ∧
    (twoProgramRows.filter fun row => row.machine_id = "lathe".toList)
      = (reported (project "lathe".toList twoPrograms)).reverse := by
  obtain ⟨hanswers, hreported⟩ := @programParts_reported byTimestamp byTimestamp twoProgramsTable
    "lathe".toList (project "lathe".toList twoPrograms) (by decide) (by decide)
  obtain ⟨rows, hquery⟩ := Option.isSome_iff_exists.mp (hanswers (by decide))
  obtain rfl : rows = twoProgramRows := Option.some.inj (hquery.symm.trans (by decide +kernel))
  exact ⟨hquery, hreported _ hquery⟩

/-- So does the topology, which also has events of parts 5 and 1. -/
theorem programParts_streamed_two :
    programParts byTimestamp byTimestamp twoProgramsTable = some twoProgramRows ∧
    (twoProgramRows.filter fun row => row.machine_id = "lathe".toList)
      = (increasedEvents (completedEvents id "lathe".toList twoPrograms)).reverse := by
  obtain ⟨hanswers, hstreamed⟩ := @programParts_streamed id byTimestamp byTimestamp
    twoProgramsTable "lathe".toList twoPrograms (by decide) (by decide) twoPrograms_programFirst
    twoPrograms_plain
  obtain ⟨rows, hquery⟩ := Option.isSome_iff_exists.mp (hanswers (by decide))
  obtain rfl : rows = twoProgramRows := Option.some.inj (hquery.symm.trans (by decide +kernel))
  exact ⟨hquery, hstreamed _ hquery⟩

end FanucDriver.Queries
