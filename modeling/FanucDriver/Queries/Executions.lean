import FanucDriver.Queries.ActivityPeriods

/-!
# The executions query

`query-executions.sql` cuts each activity period of a machine into its executions: the
samples inside the period, the first one of each run of equal executions (`lag`), each
up to the next one (`lead`), and the last one up to the end of the period.

`executionsQuery_tiles`: for a machine and a period these rows are what the two
transformers of `Staging.kt` put out on the same samples, and one row more.

Mirroring notes:
- `"input-avro"` holds the samples the topology reads. The query drops the samples
  without an execution; it keeps an empty one.
- `lag(execution, 1)` is null only in the first row of a window, as `execution` is not.
-/

namespace FanucDriver.Queries

open FanucDriver.Streams FanucDriver.Lib FanucDriver.Lib.Window FanucDriver.Lib.Transducer

/-! ## The query -/

/-- `executions` -/
structure ExecutionsRow where
  machine_id : JString
  timestamp : ℤ
  execution : JString
  deriving DecidableEq

/-- A period with one of the executions inside it. -/
structure JoinedRow where
  machine_id : JString
  a : ℤ
  b : ℤ
  r : ℕ
  timestamp : ℤ
  execution : JString
  deriving DecidableEq

/-- `partition by machine_id, r` -/
def JoinedRow.key (x : JoinedRow) : JString × ℕ := (x.machine_id, x.r)

/-- A row of the query. -/
structure ExecutionRow where
  machine_id : JString
  start : ℤ
  end_ : ℤ
  duration : ℤ
  execution : JString
  r : ℕ
  deriving DecidableEq

/-- `where execution is not null` -/
def executionOf (x : Sample) : Option ExecutionDatum :=
  x.execution.map fun execution =>
    { machineId := x.machineId
      execution := execution
      timestamp := x.timestamp
      partition := x.partition
      offset := x.offset }

/-- `select machine_id, to_timestamp(timestamp / 1000.0) as timestamp, execution` -/
def executionsRow (x : ExecutionDatum) : Option ExecutionsRow := do
  let timestamp ← toTimestamp ((x.timestamp.toInt : ℚ) / 1000)
  some { machine_id := x.machineId, timestamp := timestamp, execution := x.execution }

def joinedRow (a : ActivityPeriod) (b : ExecutionsRow) : JoinedRow where
  machine_id := a.machine_id
  a := a.a
  b := a.b
  r := a.r
  timestamp := b.timestamp
  execution := b.execution

/-- `activity_periods_alt a inner join executions b on …` -/
def joined (activity_periods_alt : List ActivityPeriod) (executions : List ExecutionsRow) :
    List JoinedRow :=
  activity_periods_alt.flatMap fun a =>
    (executions.filter fun b =>
      b.machine_id = a.machine_id ∧ a.a ≤ b.timestamp ∧ b.timestamp < a.b).map (joinedRow a)

/-- `coalesce("end", "b") - "start" as duration` -/
def executionRow (x : JoinedRow × Option ℤ) : Option ExecutionRow := do
  let duration ← subTimestamp (x.2.getD x.1.b) x.1.timestamp
  some {
    machine_id := x.1.machine_id
    start := x.1.timestamp
    end_ := x.2.getD x.1.b
    duration := duration
    execution := x.1.execution
    r := x.1.r }

def executionsQuery (input : List Sample) (activity_periods_alt : List ActivityPeriod) :
    Option (List ExecutionRow) := do
  let executions ← (input.filterMap executionOf).mapM executionsRow
  let t := joined activity_periods_alt (orderBy (·.timestamp) executions)
  let t := overPartition JoinedRow.key (·.timestamp) (lagged (·.execution)) t
  -- `where p is null or execution != p`
  let t := (t.filter fun x => x.2.all (· ≠ x.1.execution)).map Prod.fst
  let t := overPartition JoinedRow.key (·.timestamp) (led (·.timestamp)) t
  let rows ← t.mapM executionRow
  some (orderBy (·.start) rows)

/-! ## The stream -/

/-- `DedupTransformer` and `ExecutionDurationTransformer` behind it, as `Staging.kt`
puts them together. -/
def dedupDuration :
    Transducer (KeyValueStore JString JString × KeyValueStore JString ExecutionDatum)
      (JString × ExecutionDatum) (JString × ExecutionWithDurationDatum) :=
  (transformValues (DedupTransformer.transform fun _ (v : ExecutionDatum) => some v.execution)).comp
    (transformValues ExecutionDurationTransformer.transform)

/-- What comes out on the executions of one machine. -/
def streamed (machine : JString) (xs : List ExecutionDatum) : List ExecutionWithDurationDatum :=
  project machine (dedupDuration.run (fun _ => none, fun _ => none) (xs.map fun x => (machine, x)))

/-- The executions of a period, in timestamp order. -/
def samplesIn (input : List Sample) (p : ActivityPeriod) : List ExecutionDatum :=
  orderBy (·.timestamp.toInt) ((input.filterMap executionOf).filter fun x =>
    x.machineId = p.machine_id ∧ p.a ≤ millis x.timestamp ∧ millis x.timestamp < p.b)

/-- The row of an interval of the stream. -/
def rowOf (p : ActivityPeriod) (x : ExecutionWithDurationDatum) : ExecutionRow where
  machine_id := p.machine_id
  start := millis x.start
  end_ := millis x.end_
  duration := millis x.duration
  execution := x.execution
  r := p.r

/-- The row of the last run, up to the end of the period. -/
def closingRow (p : ActivityPeriod) (x : ExecutionDatum) : ExecutionRow where
  machine_id := p.machine_id
  start := millis x.timestamp
  end_ := p.b
  duration := p.b - millis x.timestamp
  execution := x.execution
  r := p.r

/-- The rows of a period, from its executions `xs` and their maximal runs. -/
structure TilesPeriod (p : ActivityPeriod) (xs : List ExecutionDatum)
    (runs : List (List ExecutionDatum)) (rows : List ExecutionRow) : Prop where
  /-- What the stream puts out, and one row for the last run. -/
  stream : rows = (streamed p.machine_id xs).map (rowOf p) ++
    ((firsts runs).getLast?.map (closingRow p)).toList
  /-- One row for each run, from its first sample on. -/
  starts : rows.map (fun row => (row.start, row.execution))
    = (firsts runs).map fun x => (millis x.timestamp, x.execution)
  first : ∀ x ∈ xs.head?, ∃ row ∈ rows.head?, row.start = millis x.timestamp
  contiguous : rows.IsChain fun row next => row.end_ = next.start
  last : ∀ row ∈ rows.getLast?, row.end_ = p.b
  proper : ∀ row ∈ rows, row.start < row.end_ ∧ row.duration = row.end_ - row.start
  different : rows.IsChain fun row next => row.execution ≠ next.execution
  total : ∀ x ∈ xs.head?, (rows.map (·.duration)).sum = p.b - millis x.timestamp

theorem streamed_eq {machine : JString} {xs : List ExecutionDatum}
    {runs : List (List ExecutionDatum)} (hruns : MaximalRuns ExecutionDatum.execution xs runs) :
    streamed machine xs = List.zipWith interval (firsts runs) (firsts runs).tail := by
  have hproject : project machine (xs.map fun x => (machine, x)) = xs := by
    unfold project
    rw [List.filterMap_map]
    simp
  rw [streamed, dedupDuration, run_comp, transformValues_dedup, transformValues_duration,
    project_run_keyed, project_run_keyed, hproject, run_dedup hruns, run_lag]

/-- Where no execution is empty, the whole topology puts out the same. -/
theorem intervals_eq_streamed {machine : JString} {xs : List Sample}
    (h : ∀ x ∈ xs, x.execution ≠ some []) :
    project machine (intervals (xs.map fun x => (machine, x)))
      = streamed machine (xs.filterMap executionOf) := by
  have hexecutions : executionHistory machine (xs.map fun x => (machine, x))
      = xs.filterMap executionOf := by
    unfold executionHistory project
    rw [List.filterMap_map, List.filterMap_filterMap]
    refine List.filterMap_congr fun x hx => ?_
    have hne := h x hx
    unfold executionDatum executionOf isNullOrEmpty
    cases hexecution : x.execution with
    | none => simp [hexecution]
    | some execution =>
      have hnonempty : execution ≠ [] := fun he => hne (hexecution.trans (congrArg some he))
      simp [hexecution, hnonempty]
  obtain ⟨runs, hruns⟩ := exists_maximalRuns ExecutionDatum.execution (xs.filterMap executionOf)
  rw [project_intervals, hexecutions, streamed_eq hruns, run_dedup hruns, run_lag]

/-! ## The rows of a period, from the first samples of its runs -/

/-- Each of some samples up to the next one, and the last up to the end of the period. -/
def tiles (p : ActivityPeriod) (xs : List ExecutionDatum) : List ExecutionRow :=
  (List.zipWith interval xs xs.tail).map (rowOf p) ++ (xs.getLast?.map (closingRow p)).toList

theorem tiles_cons_cons (p : ActivityPeriod) (x y : ExecutionDatum) (xs : List ExecutionDatum) :
    tiles p (x :: y :: xs) = rowOf p (interval x y) :: tiles p (y :: xs) := by
  simp [tiles]

/-- The samples of a period are inside it, and its bounds are timestamps. -/
structure Inside (p : ActivityPeriod) (x : ExecutionDatum) : Prop where
  range : inRange (millis x.timestamp)
  before : millis x.timestamp < p.b

/-- The durations of the stream do not wrap. -/
theorem millis_sub {x y : Int64} (hx : inRange (millis x)) (hy : inRange (millis y)) :
    millis (y - x) = millis y - millis x := by
  unfold inRange millis at *
  rw [Int64.toInt_sub, Int.bmod_eq_emod]
  split <;> omega

theorem tiles_starts (p : ActivityPeriod) (xs : List ExecutionDatum) :
    (tiles p xs).map (fun row => (row.start, row.execution))
      = xs.map fun x => (millis x.timestamp, x.execution) := by
  induction xs with
  | nil => rfl
  | cons x xs ih =>
    cases xs with
    | nil => rfl
    | cons y xs =>
      rw [tiles_cons_cons, List.map_cons, ih]
      rfl

/-- What holds between the rows of two successive samples holds between successive
rows. -/
theorem tiles_isChain {p : ActivityPeriod} {R : ExecutionDatum → ExecutionDatum → Prop}
    {Q : ExecutionRow → ExecutionRow → Prop}
    (hQ : ∀ x y, R x y → ∀ row, row.start = millis y.timestamp → row.execution = y.execution →
      Q (rowOf p (interval x y)) row)
    {xs : List ExecutionDatum} (h : xs.IsChain R) : (tiles p xs).IsChain Q := by
  induction xs with
  | nil => exact List.isChain_nil
  | cons x xs ih =>
    cases xs with
    | nil => exact List.isChain_singleton _
    | cons y xs =>
      obtain ⟨hxy, hrest⟩ := List.isChain_cons_cons.mp h
      rw [tiles_cons_cons]
      cases xs with
      | nil => exact List.isChain_cons_cons.mpr ⟨hQ x y hxy _ rfl rfl, List.isChain_singleton _⟩
      | cons z xs =>
        rw [tiles_cons_cons]
        refine List.isChain_cons_cons.mpr ⟨hQ x y hxy _ rfl rfl, ?_⟩
        rw [← tiles_cons_cons]
        exact ih hrest

theorem tiles_last {p : ActivityPeriod} {xs : List ExecutionDatum} :
    ∀ row ∈ (tiles p xs).getLast?, row.end_ = p.b := by
  intro row hrow
  unfold tiles at hrow
  cases h : xs.getLast? with
  | none =>
    obtain rfl := List.getLast?_eq_none_iff.mp h
    exact absurd hrow (by simp)
  | some x =>
    rw [h, Option.map_some, Option.toList_some, List.getLast?_concat] at hrow
    rw [← Option.some.inj hrow]
    rfl

theorem tiles_proper {p : ActivityPeriod} {xs : List ExecutionDatum}
    (hin : ∀ x ∈ xs, Inside p x)
    (hsorted : xs.IsChain fun x y => x.timestamp.toInt < y.timestamp.toInt) :
    ∀ row ∈ tiles p xs, row.start < row.end_ ∧ row.duration = row.end_ - row.start := by
  induction xs with
  | nil => exact fun row hrow => absurd hrow List.not_mem_nil
  | cons x xs ih =>
    cases xs with
    | nil =>
      intro row hrow
      obtain rfl := List.mem_singleton.mp hrow
      exact ⟨(hin x List.mem_cons_self).before, rfl⟩
    | cons y xs =>
      obtain ⟨hxy, hrest⟩ := List.isChain_cons_cons.mp hsorted
      rw [tiles_cons_cons]
      intro row hrow
      rcases List.mem_cons.mp hrow with rfl | hrow
      · have hsub := millis_sub (hin x List.mem_cons_self).range
          (hin y (List.mem_cons_of_mem x List.mem_cons_self)).range
        refine ⟨?_, hsub⟩
        show millis x.timestamp < millis y.timestamp
        unfold millis
        omega
      · exact ih (fun z hz => hin z (List.mem_cons_of_mem x hz)) hrest row hrow

/-- The durations telescope. -/
theorem tiles_total {p : ActivityPeriod} {xs : List ExecutionDatum} (hin : ∀ x ∈ xs, Inside p x) :
    ∀ x ∈ xs.head?, ((tiles p xs).map (·.duration)).sum = p.b - millis x.timestamp := by
  induction xs with
  | nil => exact fun x hx => absurd hx (by simp)
  | cons x xs ih =>
    intro x' hx'
    obtain rfl := Option.some.inj hx'
    cases xs with
    | nil =>
      show p.b - millis x.timestamp + 0 = _
      omega
    | cons y xs =>
      have hrest := ih (fun z hz => hin z (List.mem_cons_of_mem x hz)) y rfl
      have hsub := millis_sub (hin x List.mem_cons_self).range
        (hin y (List.mem_cons_of_mem x List.mem_cons_self)).range
      rw [tiles_cons_cons, List.map_cons, List.sum_cons, hrest]
      show millis (y.timestamp - x.timestamp) + _ = _
      omega

/-- Tiles of the first samples of the runs are the rows of the period. -/
theorem tilesPeriod_tiles {p : ActivityPeriod} {xs : List ExecutionDatum}
    {runs : List (List ExecutionDatum)} (hruns : MaximalRuns ExecutionDatum.execution xs runs)
    (hin : ∀ x ∈ xs, Inside p x)
    (hsorted : xs.Pairwise fun x y => x.timestamp.toInt < y.timestamp.toInt) :
    TilesPeriod p xs runs (tiles p (firsts runs)) := by
  have hsub := hruns.firsts_sublist
  have hin' : ∀ x ∈ firsts runs, Inside p x := fun x hx => hin x (hsub.subset hx)
  have hhead : (firsts runs).head? = xs.head? := by
    have hne := hruns.nonempty
    rw [← hruns.flatten]
    match runs, hne with
    | [], _ => rfl
    | [] :: _, hne => exact absurd List.mem_cons_self hne
    | (x :: r) :: runs, _ => rfl
  refine
    { stream := by rw [streamed_eq hruns, tiles]
      starts := tiles_starts p _
      first := fun x hx => ?_
      contiguous := tiles_isChain (R := fun _ _ => True) (fun x y _ row hrow _ => hrow.symm)
        (isChain_firsts hruns.nonempty (hruns.differ.imp fun _ _ _ _ _ _ _ => trivial))
      last := tiles_last
      proper := tiles_proper hin' (hsorted.sublist hsub).isChain
      different := tiles_isChain (fun x y hxy row _ hrow => hrow ▸ hxy)
        (isChain_firsts hruns.nonempty hruns.differ)
      total := fun x hx => tiles_total hin' x (hhead ▸ hx) }
  have hstarts := congrArg List.head? (tiles_starts p (firsts runs))
  rw [List.head?_map, List.head?_map, hhead, Option.mem_def.mp hx] at hstarts
  obtain ⟨row, hrow, heq⟩ := Option.map_eq_some_iff.mp hstarts
  exact ⟨row, hrow, congrArg Prod.fst heq⟩

/-! ## The query, one partition at a time -/

def stampedRow (x : ExecutionDatum) : ExecutionsRow where
  machine_id := x.machineId
  timestamp := millis x.timestamp
  execution := x.execution

theorem executionsRow_eq {x : ExecutionDatum} {row : ExecutionsRow}
    (h : executionsRow x = some row) :
    row = stampedRow x ∧ inRange (millis x.timestamp) := by
  unfold executionsRow at h
  obtain ⟨t, ht, hrow⟩ := Option.bind_eq_some_iff.mp h
  obtain ⟨rfl, hrange⟩ := toTimestamp_millis ht
  exact ⟨(Option.some.inj hrow).symm, hrange⟩

/-- The row of `executionRow`, its duration unchecked. -/
def finalRow (x : JoinedRow × Option ℤ) : ExecutionRow where
  machine_id := x.1.machine_id
  start := x.1.timestamp
  end_ := x.2.getD x.1.b
  duration := x.2.getD x.1.b - x.1.timestamp
  execution := x.1.execution
  r := x.1.r

theorem executionRow_eq (x : JoinedRow × Option ℤ) (row : ExecutionRow)
    (h : executionRow x = some row) : row = finalRow x :=
  eq_of_subTimestamp h

def ActivityPeriod.key (p : ActivityPeriod) : JString × ℕ := (p.machine_id, p.r)

def ExecutionRow.key (x : ExecutionRow) : JString × ℕ := (x.machine_id, x.r)

/-- The window of a period holds its executions, in timestamp order. -/
theorem partition_joined {xs : List ExecutionDatum} {periods : List ActivityPeriod}
    (hdistinct : xs.Pairwise fun x y => x.machineId = y.machineId → x.timestamp ≠ y.timestamp)
    (hnumbered : periods.Pairwise fun p q => p.key ≠ q.key) {p : ActivityPeriod} (hp : p ∈ periods)
    {ys : List ExecutionDatum}
    (hys : ys = orderBy (·.timestamp.toInt) (xs.filter fun x =>
      x.machineId = p.machine_id ∧ p.a ≤ millis x.timestamp ∧ millis x.timestamp < p.b)) :
    ys.Pairwise (fun x y => x.timestamp.toInt < y.timestamp.toInt) ∧
    partition JoinedRow.key (·.timestamp)
        (joined periods (orderBy (·.timestamp) (xs.map stampedRow))) p.key
      = ys.map fun x => joinedRow p (stampedRow x) := by
  have hties : (xs.filter fun x => x.machineId = p.machine_id ∧ p.a ≤ millis x.timestamp ∧
      millis x.timestamp < p.b).Pairwise fun x y => x.timestamp.toInt ≠ y.timestamp.toInt := by
    refine (List.Pairwise.and_mem.mp (hdistinct.filter _)).imp ?_
    intro x y h heq
    obtain ⟨hx, hy, hne⟩ := h
    have hmx := (of_decide_eq_true (List.mem_filter.mp hx).2).1
    have hmy := (of_decide_eq_true (List.mem_filter.mp hy).2).1
    exact hne (hmx.trans hmy.symm) (Int64.toInt_inj.mp heq)
  have hsorted : ys.Pairwise fun x y => x.timestamp.toInt < y.timestamp.toInt :=
    hys ▸ orderBy_strict hties
  refine ⟨hsorted, ?_⟩
  have hrows : (joined periods (orderBy (·.timestamp) (xs.map stampedRow))).filter
        (fun x => x.key = p.key)
      = ((orderBy (·.timestamp) (xs.map stampedRow)).filter fun b =>
          b.machine_id = p.machine_id ∧ p.a ≤ b.timestamp ∧ b.timestamp < p.b).map
            (joinedRow p) := by
    refine filter_flatMap_of_mem ActivityPeriod.key hnumbered (fun q _ b hb => ?_) hp
    obtain ⟨row, -, rfl⟩ := List.mem_map.mp hb
    rfl
  refine eq_of_perm_of_sorted ?_ (orderBy_sorted _ _) ?_
  · rw [partition, hrows]
    refine (orderBy_perm _ _).trans ?_
    have hstamped : ((xs.map stampedRow).filter fun b =>
          b.machine_id = p.machine_id ∧ p.a ≤ b.timestamp ∧ b.timestamp < p.b)
        = (xs.filter fun x => x.machineId = p.machine_id ∧ p.a ≤ millis x.timestamp ∧
          millis x.timestamp < p.b).map stampedRow := List.filter_map
    have hfilter := ((orderBy_perm (·.timestamp) (xs.map stampedRow)).filter fun b =>
      b.machine_id = p.machine_id ∧ p.a ≤ b.timestamp ∧ b.timestamp < p.b).map (joinedRow p)
    rw [hstamped, List.map_map] at hfilter
    refine hfilter.trans ?_
    rw [hys]
    exact ((orderBy_perm _ _).map _).symm
  · rw [List.pairwise_map]
    refine hsorted.imp fun h => ?_
    show millis _ < millis _
    unfold millis
    omega

/-- The rows of samples paired with the next one. -/
theorem led_tiles {p : ActivityPeriod} {xs : List ExecutionDatum}
    (hrange : ∀ x ∈ xs, inRange (millis x.timestamp)) :
    (led (·.timestamp) (xs.map fun x => joinedRow p (stampedRow x))).map finalRow = tiles p xs := by
  induction xs with
  | nil => rfl
  | cons x xs ih =>
    cases xs with
    | nil => rfl
    | cons y xs =>
      have hsub := millis_sub (hrange x List.mem_cons_self)
        (hrange y (List.mem_cons_of_mem x List.mem_cons_self))
      have hhead : finalRow (joinedRow p (stampedRow x), some (millis y.timestamp))
          = rowOf p (interval x y) := by
        unfold finalRow rowOf interval
        rw [hsub]
        rfl
      rw [tiles_cons_cons, ← ih fun z hz => hrange z (List.mem_cons_of_mem x hz), ← hhead]
      rfl

/-- The windows over a partition that holds the executions `xs`: the rows are the tiles
of the first samples of their runs. -/
theorem filter_windows {p : ActivityPeriod} {xs : List ExecutionDatum} {t : List JoinedRow}
    {runs : List (List ExecutionDatum)} (hruns : MaximalRuns ExecutionDatum.execution xs runs)
    (hsorted : xs.Pairwise fun x y => x.timestamp.toInt < y.timestamp.toInt)
    (hrange : ∀ x ∈ xs, inRange (millis x.timestamp))
    (ht : partition JoinedRow.key (·.timestamp) t p.key
      = xs.map fun x => joinedRow p (stampedRow x)) :
    ((overPartition JoinedRow.key (·.timestamp) (led (·.timestamp))
        (((overPartition JoinedRow.key (·.timestamp) (lagged (·.execution)) t).filter fun x =>
          x.2.all (· ≠ x.1.execution)).map Prod.fst)).map finalRow).filter
        (fun row => row.key = p.key)
      = tiles p (firsts runs) := by
  have hlag : (overPartition JoinedRow.key (·.timestamp) (lagged (·.execution)) t).filter
        (fun x => x.1.key = p.key)
      = lagged (·.execution) (xs.map fun x => joinedRow p (stampedRow x)) := by
    rw [← ht]
    exact filter_over (fun x : JoinedRow × Option JString => x.1.key) rfl
      (fun as k has b hb => has b.1 (mem_of_mem_lagged hb)) t p.key
  have hchanged :
      (((overPartition JoinedRow.key (·.timestamp) (lagged (·.execution)) t).filter fun x =>
        x.2.all (· ≠ x.1.execution)).map Prod.fst).filter (fun x => x.key = p.key)
      = (firsts runs).map fun x => joinedRow p (stampedRow x) := by
    rw [List.filter_map, List.filter_comm]
    show (((overPartition JoinedRow.key (·.timestamp) (lagged (·.execution)) t).filter
      (fun x => x.1.key = p.key)).filter _).map _ = _
    rw [hlag, lagged_filter_ne, run_dedup_map, ← run_dedup hruns]
    rfl
  -- the first samples of the runs are in timestamp order as the samples are
  have hfirsts : ((firsts runs).map fun x => joinedRow p (stampedRow x)).Pairwise
      fun x y => x.timestamp ≤ y.timestamp := by
    rw [List.pairwise_map]
    refine (hsorted.sublist hruns.firsts_sublist).imp fun h => ?_
    show millis _ ≤ millis _
    unfold millis
    omega
  have hled := filter_over (f := led fun x : JoinedRow => x.timestamp) (t := (·.timestamp))
    (·.1.key) rfl (fun as k has b hb => has b.1 (mem_of_mem_led hb))
    (((overPartition JoinedRow.key (·.timestamp) (lagged (·.execution)) t).filter fun x =>
      x.2.all (· ≠ x.1.execution)).map Prod.fst) p.key
  rw [partition_eq hchanged hfirsts] at hled
  rw [List.filter_map]
  show ((overPartition JoinedRow.key (·.timestamp) (led (·.timestamp)) _).filter
    (fun x => x.1.key = p.key)).map finalRow = _
  rw [hled]
  exact led_tiles fun x hx => hrange x (hruns.firsts_sublist.subset hx)

/-- Tiles of samples in timestamp order start one after the other. -/
theorem tiles_strict (p : ActivityPeriod) {xs : List ExecutionDatum}
    (hsorted : xs.Pairwise fun x y => x.timestamp.toInt < y.timestamp.toInt) :
    (tiles p xs).Pairwise fun row next => row.start < next.start := by
  have hstarts := congrArg (List.map Prod.fst) (tiles_starts p xs)
  rw [List.map_map, List.map_map] at hstarts
  have hmap : ((tiles p xs).map (·.start)).Pairwise (· < ·) := by
    refine (show (tiles p xs).map (·.start) = _ from hstarts) ▸ ?_
    rw [List.pairwise_map]
    refine hsorted.imp fun h => ?_
    show millis _ < millis _
    unfold millis
    omega
  exact List.pairwise_map.mp hmap

/-- The rows of the query, their durations unchecked; the timestamps are in range. -/
theorem executionsQuery_rows {input : List Sample} {periods : List ActivityPeriod}
    {rows : List ExecutionRow} (hquery : executionsQuery input periods = some rows) :
    (∀ x ∈ input.filterMap executionOf, inRange (millis x.timestamp)) ∧
    rows = orderBy (·.start) ((overPartition JoinedRow.key (·.timestamp) (led (·.timestamp))
      (((overPartition JoinedRow.key (·.timestamp) (lagged (·.execution))
        (joined periods (orderBy (·.timestamp)
          ((input.filterMap executionOf).map stampedRow)))).filter fun x =>
          x.2.all (· ≠ x.1.execution)).map Prod.fst)).map finalRow) := by
  unfold executionsQuery at hquery
  obtain ⟨executions, hexecutions, hquery⟩ := Option.bind_eq_some_iff.mp hquery
  obtain ⟨finals, hfinals, hrows⟩ := Option.bind_eq_some_iff.mp hquery
  obtain rfl := Option.some.inj hrows
  have hrange : ∀ x ∈ input.filterMap executionOf, inRange (millis x.timestamp) := fun x hx => by
    obtain ⟨row, hrow⟩ := exists_of_mapM hexecutions x hx
    exact (executionsRow_eq hrow).2
  obtain rfl := eq_map_of_mapM hexecutions fun x row h => (executionsRow_eq h).1
  obtain rfl := eq_map_of_mapM hfinals executionRow_eq
  exact ⟨hrange, rfl⟩

/-- A row of the join is of a period, and inside it. -/
theorem exists_of_mem_joined {periods : List ActivityPeriod} {executions : List ExecutionsRow}
    {x : JoinedRow} (hx : x ∈ joined periods executions) :
    ∃ p ∈ periods, x.key = p.key ∧ x.b = p.b ∧ p.a ≤ x.timestamp ∧ x.timestamp < p.b := by
  obtain ⟨p, hp, hx⟩ := List.mem_flatMap.mp hx
  obtain ⟨row, hrow, rfl⟩ := List.mem_map.mp hx
  obtain ⟨-, hin⟩ := of_decide_eq_true (List.mem_filter.mp hrow).2
  exact ⟨p, hp, rfl, rfl, hin⟩

/-- The duration of a row is no longer than its period. -/
theorem isSome_executionRow {periods : List ActivityPeriod} {t : List JoinedRow}
    (hjoined : ∀ x ∈ t, ∃ p ∈ periods,
      x.key = p.key ∧ x.b = p.b ∧ p.a ≤ x.timestamp ∧ x.timestamp < p.b)
    (hnumbered : periods.Pairwise fun p q => p.key ≠ q.key)
    (hintervals : ∀ p ∈ periods, (subTimestamp p.b p.a).isSome) {x : JoinedRow × Option ℤ}
    (hx : x ∈ overPartition JoinedRow.key (·.timestamp) (led (·.timestamp)) t) :
    (executionRow x).isSome := by
  obtain ⟨p, hp, hkey, hb, hap, hpb⟩ := hjoined x.1 (mem_of_mem_over (fun _ _ => mem_of_mem_led) hx)
  refine isSome_row ?_
  obtain ⟨x, n⟩ := x
  cases n with
  | none =>
    have hfits := isSome_subTimestamp_of_le (hintervals p hp) hap hpb.le (le_refl p.b)
    rwa [← hb] at hfits
  | some v =>
    -- the next row is of the same period
    have hx : (x, some v) ∈ overPartitionIn (.finer JoinedRow.timestamp fun _ _ h => h)
      JoinedRow.key (led JoinedRow.timestamp) t := hx
    obtain ⟨-, y, hy, hyx, rfl, hle⟩ := exists_next_of_over (orderBy_sorted JoinedRow.timestamp) hx
    obtain ⟨q, hq, hkey', -, -, hqb⟩ := hjoined y hy
    obtain rfl : p = q := List.inj_on_of_nodup_map (List.pairwise_map.mpr hnumbered) hp hq
      (hkey.symm.trans (hyx.symm.trans hkey'))
    exact isSome_subTimestamp_of_le (hintervals p hp) hap hle hqb.le

/-- The query answers where the timestamps are in range, and the periods are intervals. -/
theorem isSome_executionsQuery {input : List Sample} {periods : List ActivityPeriod}
    (hrange : ∀ x ∈ input.filterMap executionOf, inRange (millis x.timestamp))
    (hnumbered : periods.Pairwise fun p q => p.key ≠ q.key)
    (hintervals : ∀ p ∈ periods, (subTimestamp p.b p.a).isSome) :
    (executionsQuery input periods).isSome := by
  have hexecutions : ((input.filterMap executionOf).mapM executionsRow).isSome :=
    isSome_mapM_iff.mpr fun x hx => isSome_row (isSome_toTimestamp_millis (hrange x hx))
  obtain ⟨executions, hexecutions⟩ := Option.isSome_iff_exists.mp hexecutions
  have hjoined : ∀ x ∈ ((overPartition JoinedRow.key (·.timestamp) (lagged (·.execution))
        (joined periods (orderBy (·.timestamp) executions))).filter fun x =>
          x.2.all (· ≠ x.1.execution)).map Prod.fst, ∃ p ∈ periods,
      x.key = p.key ∧ x.b = p.b ∧ p.a ≤ x.timestamp ∧ x.timestamp < p.b := by
    intro x hx
    obtain ⟨y, hy, rfl⟩ := List.mem_map.mp hx
    exact exists_of_mem_joined
      (mem_of_mem_over (fun _ _ => mem_of_mem_lagged) (List.mem_filter.mp hy).1)
  obtain ⟨rows, hrows⟩ := Option.isSome_iff_exists.mp (isSome_mapM_iff.mpr fun x hx =>
    isSome_executionRow hjoined hnumbered hintervals (x := x) hx)
  unfold executionsQuery
  rw [hexecutions, Option.bind_eq_bind, Option.bind_some]
  exact Option.isSome_iff_exists.mpr ⟨_, Option.bind_eq_some_iff.mpr ⟨rows, hrows, rfl⟩⟩

/-- The rows of the query for a period. -/
theorem tilesPeriod_executionsQuery {input : List Sample} {periods : List ActivityPeriod}
    {rows : List ExecutionRow} (hquery : executionsQuery input periods = some rows)
    (hdistinct : (input.filterMap executionOf).Pairwise fun x y =>
      x.machineId = y.machineId → x.timestamp ≠ y.timestamp)
    (hnumbered : periods.Pairwise fun p q => p.key ≠ q.key) {p : ActivityPeriod}
    (hp : p ∈ periods) :
    ∃ runs, MaximalRuns ExecutionDatum.execution (samplesIn input p) runs ∧
      TilesPeriod p (samplesIn input p) runs (rows.filter fun row => row.key = p.key) := by
  obtain ⟨hrange, rfl⟩ := executionsQuery_rows hquery
  obtain ⟨runs, hruns⟩ := exists_maximalRuns ExecutionDatum.execution (samplesIn input p)
  refine ⟨runs, hruns, ?_⟩
  obtain ⟨hsorted, hpartition⟩ := partition_joined hdistinct hnumbered hp
    (show samplesIn input p = _ from rfl)
  have hmem : ∀ x ∈ samplesIn input p,
      inRange (millis x.timestamp) ∧ millis x.timestamp < p.b := by
    intro x hx
    obtain ⟨hx, hin⟩ := List.mem_filter.mp (mem_orderBy.mp hx)
    exact ⟨hrange x hx, (of_decide_eq_true hin).2.2⟩
  have htiles := tilesPeriod_tiles hruns (fun x hx => ⟨(hmem x hx).1, (hmem x hx).2⟩) hsorted
  have hfilter := filter_windows hruns hsorted (fun x hx => (hmem x hx).1) hpartition
  have hstrict := tiles_strict p (hsorted.sublist hruns.firsts_sublist)
  rw [filter_orderBy (hfilter ▸ hstrict), hfilter]
  exact htiles

/-- Every row is of a period. -/
theorem key_mem_periods {input : List Sample} {periods : List ActivityPeriod}
    {rows : List ExecutionRow} (hquery : executionsQuery input periods = some rows)
    {row : ExecutionRow} (hrow : row ∈ rows) : ∃ p ∈ periods, row.key = p.key := by
  obtain ⟨-, rfl⟩ := executionsQuery_rows hquery
  obtain ⟨x, hx, rfl⟩ := List.mem_map.mp (mem_orderBy.mp hrow)
  obtain ⟨y, hy, hyx⟩ := List.mem_map.mp (mem_of_mem_over (fun _ _ => mem_of_mem_led) hx)
  have hjoined := mem_of_mem_over (fun _ _ => mem_of_mem_lagged) (List.mem_filter.mp hy).1
  obtain ⟨p, hp, hkey, -⟩ := exists_of_mem_joined hjoined
  exact ⟨p, hp, (congrArg JoinedRow.key hyx).symm.trans hkey⟩

/-- **The query tiles every period**: it answers where the timestamps are in range and the
periods are intervals, and the rows of a machine and a period are one for each maximal run
of the executions inside the period, as the stream puts them out, and the last one up to
the end of the period; there are no other rows. -/
theorem executionsQuery_tiles {input : List Sample} {periods : List ActivityPeriod}
    (hdistinct : (input.filterMap executionOf).Pairwise fun x y =>
      x.machineId = y.machineId → x.timestamp ≠ y.timestamp)
    (hnumbered : periods.Pairwise fun p q => p.key ≠ q.key) :
    ((∀ x ∈ input.filterMap executionOf, inRange (millis x.timestamp)) →
      (∀ p ∈ periods, (subTimestamp p.b p.a).isSome) →
      (executionsQuery input periods).isSome) ∧
    ∀ rows, executionsQuery input periods = some rows →
      (∀ p ∈ periods, ∃ runs,
        MaximalRuns ExecutionDatum.execution (samplesIn input p) runs ∧
        TilesPeriod p (samplesIn input p) runs (rows.filter fun row => row.key = p.key)) ∧
      ∀ row ∈ rows, ∃ p ∈ periods, row.key = p.key := by
  refine ⟨fun hrange hintervals => isSome_executionsQuery hrange hnumbered hintervals,
    fun rows hquery => ⟨fun p hp => ?_, fun row hrow => key_mem_periods hquery hrow⟩⟩
  exact tilesPeriod_executionsQuery hquery hdistinct hnumbered hp

/-- The view numbers the periods of a machine. -/
theorem activityPeriodsAlt_numbered {input : List Sample} {periods : List ActivityPeriod}
    (hview : activityPeriodsAlt input = some periods) :
    periods.Pairwise fun p q => p.key ≠ q.key := by
  have hmachine : ∀ machine, (periods.filter fun p => p.machine_id = machine).Pairwise
      fun p q => p.r ≠ q.r := by
    intro machine
    obtain ⟨gs, -, hfilter⟩ := filter_activityPeriodsAlt hview machine
    have hnodup : ((periods.filter fun p => p.machine_id = machine).map (·.r)).Nodup := by
      rw [hfilter, map_r_numbered]
      exact List.nodup_range'
    exact List.pairwise_map.mp hnodup
  clear hview
  induction periods with
  | nil => exact List.Pairwise.nil
  | cons p periods ih =>
    refine List.pairwise_cons.mpr ⟨fun q hq hkey => ?_, ih fun machine => ?_⟩
    · obtain ⟨hm, hr⟩ := Prod.mk.inj hkey
      have hp := hmachine p.machine_id
      rw [List.filter_cons, if_pos (decide_eq_true rfl)] at hp
      exact (List.pairwise_cons.mp hp).1 q
        (List.mem_filter.mpr ⟨hq, decide_eq_true hm.symm⟩) hr
    · exact (hmachine machine).sublist ((List.sublist_cons_self p periods).filter _)

/-- A sample of a machine. -/
def executionSample (execution : Option String) (timestamp : Int64) : Sample where
  machineId := "lathe".toList
  execution := execution.map String.toList
  timestamp := timestamp
  partition := 0
  offset := timestamp

/-- A machine that is active, and stopped from second 2 on. -/
def stoppedSamples : List Sample :=
  [executionSample (some "STOPPED") 2000, executionSample none 500,
    executionSample (some "ACTIVE") 0, executionSample (some "ACTIVE") 1000]

/-- The first five minutes. -/
def firstPeriod : ActivityPeriod where
  machine_id := "lathe".toList
  a := 0
  b := 300000000
  duration := 300000000
  r := 1
  cnt := 4

def stoppedRows : List ExecutionRow :=
  [{ machine_id := "lathe".toList, start := 0, end_ := 2000000, duration := 2000000,
     execution := "ACTIVE".toList, r := 1 },
   { machine_id := "lathe".toList, start := 2000000, end_ := 300000000, duration := 298000000,
     execution := "STOPPED".toList, r := 1 }]

/-- It was active for two seconds, and stopped to the end of the period. -/
theorem executionsQuery_stopped :
    executionsQuery stoppedSamples [firstPeriod] = some stoppedRows ∧
    ∃ runs, MaximalRuns ExecutionDatum.execution (samplesIn stoppedSamples firstPeriod) runs ∧
      TilesPeriod firstPeriod (samplesIn stoppedSamples firstPeriod) runs stoppedRows := by
  obtain ⟨hanswers, htiles⟩ := @executionsQuery_tiles stoppedSamples [firstPeriod]
    (by decide +kernel) (List.pairwise_singleton _ _)
  obtain ⟨rows, hquery⟩ := Option.isSome_iff_exists.mp
    (hanswers (by decide +kernel) (by decide +kernel))
  obtain rfl : rows = stoppedRows := Option.some.inj (hquery.symm.trans (by decide +kernel))
  exact ⟨hquery, (htiles _ hquery).1 firstPeriod List.mem_cons_self⟩

end FanucDriver.Queries
