import FanucDriver.Streams.Staging

/-!
# The completed parts topology

`Staging.kt` reports a completed part with the program that made it: the positive part
counts of a machine without their repeats (`DedupTransformer`), joined with the table of
the last program of each machine.

`partCompletedEvents_eq` says what a record puts out: an event unless its count repeats
the one before. The query in `query-completed-program-parts.sql` reports a count when it
is greater than the one before (`part_count > p`); `partCompleted_iff` says at which
records the two agree.

Mirroring notes:
- The join emits one event for a left record when the table holds an entry, and records
  are processed in stream order. A record with a program and a part count updates the
  table first, as the table stands before the join in the topology.
- `DigestUtils.sha1Hex` is a parameter.
- `programHashTable` is not read.
-/

namespace FanucDriver.Streams

open FanucDriver.Lib FanucDriver.Lib.Transducer

/-! ## Records -/

/-- The columns of `AdapterDatumSer` that the topology reads. -/
structure PartSample where
  machineId : JString
  program : Option JString
  partCount : Option Int64
  timestamp : Int64
  offset : Int64
  deriving DecidableEq

structure ProgramDetailDatum where
  machineId : JString
  timestamp : Int64
  offset : Int64
  hash : JString
  contents : JString
  deriving DecidableEq

structure PartCountDetailDatum where
  machineId : JString
  timestamp : Int64
  offset : Int64
  partCount : Int64
  deriving DecidableEq

structure PartCompletedEventDatum where
  machineId : JString
  timestamp : Int64
  offset : Int64
  partCount : Int64
  partCountTimestamp : Int64
  program : JString
  programHash : JString
  programTimestamp : Int64
  deriving DecidableEq

/-! ## The topology -/

/-- `val programsStream` -/
def programsStream (sha1Hex : JString → JString) (value : PartSample) :
    Option ProgramDetailDatum :=
  if isNullOrEmpty value.program then none
  else value.program.map fun contents =>
    { machineId := value.machineId
      contents := contents
      hash := sha1Hex contents
      timestamp := value.timestamp
      offset := value.offset }

/-- `val machineProgramTable` -/
def machineProgramTable (sha1Hex : JString → JString)
    (table : KeyValueStore JString ProgramDetailDatum) (x : JString × PartSample) :
    KeyValueStore JString ProgramDetailDatum :=
  match programsStream sha1Hex x.2 with
  | none => table
  | some program => table.put x.1 program

/-- `filter { … }.mapValues { … }`: the part count of a sample that has a positive one. -/
def partCountDetail (value : PartSample) : Option PartCountDetailDatum :=
  match value.partCount with
  | none => none
  | some partCount =>
    if 0 < partCount then
      some {
        machineId := value.machineId
        offset := value.offset
        timestamp := value.timestamp
        partCount := partCount }
    else none

/-- `val partCountStream` -/
def partCountStream :
    Transducer (KeyValueStore JString Int64) (JString × PartSample)
      (JString × PartCountDetailDatum) :=
  (transformValues
    (DedupTransformer.transform fun _ (v : PartCountDetailDatum) => some v.partCount)).after
    fun x => (partCountDetail x.2).map fun value => (x.1, value)

/-- The joiner of `partCompletedEvents`. -/
def partCompletedEvent (partCount : PartCountDetailDatum) (program : ProgramDetailDatum) :
    PartCompletedEventDatum where
  machineId := partCount.machineId
  timestamp := partCount.timestamp
  offset := partCount.offset
  partCount := partCount.partCount
  partCountTimestamp := partCount.timestamp
  program := program.contents
  programHash := program.hash
  programTimestamp := program.timestamp

/-- `val partCompletedEvents` -/
def partCompletedEvents (sha1Hex : JString → JString) :
    Transducer (KeyValueStore JString ProgramDetailDatum × KeyValueStore JString Int64)
      (JString × PartSample) (JString × PartCompletedEventDatum) := fun (table, store) x =>
  let table := machineProgramTable sha1Hex table x
  let (store, left) := partCountStream store x
  ((table, store), left.bind fun (key, partCount) =>
    (table key).map fun program => (key, partCompletedEvent partCount program))

/-! ## The stores -/

section
variable (sha1Hex : JString → JString)

/-- The programs of a machine. -/
def programHistory (machine : JString) (xs : List (JString × PartSample)) :
    List ProgramDetailDatum :=
  (project machine xs).filterMap (programsStream sha1Hex)

/-- The positive part counts of a machine. -/
def partCountHistory (machine : JString) (xs : List (JString × PartSample)) : List Int64 :=
  ((project machine xs).filterMap partCountDetail).map (·.partCount)

/-- The topology after some records, from empty stores. -/
def partStores (xs : List (JString × PartSample)) :
    KeyValueStore JString ProgramDetailDatum × KeyValueStore JString Int64 :=
  (partCompletedEvents sha1Hex).final (fun _ => none, fun _ => none) xs

theorem partStores_snoc (xs : List (JString × PartSample)) (x : JString × PartSample) :
    partStores sha1Hex (xs ++ [x])
      = (machineProgramTable sha1Hex (partStores sha1Hex xs).1 x,
          (partCountStream (partStores sha1Hex xs).2 x).1) := by
  simp [partStores, final, partCompletedEvents]

/-- The table holds the last program of each machine. -/
theorem machineProgramTable_eq (xs : List (JString × PartSample)) (machine : JString) :
    (partStores sha1Hex xs).1 machine = (programHistory sha1Hex machine xs).getLast? := by
  induction xs using List.reverseRecOn with
  | nil => rfl
  | append_singleton xs x ih =>
    obtain ⟨key, value⟩ := x
    rw [partStores_snoc]
    unfold programHistory machineProgramTable at *
    rw [project_append, List.filterMap_append]
    by_cases hkey : key = machine
    · subst hkey
      rw [project_cons_self]
      cases hp : programsStream sha1Hex value with
      | none => simp [project, hp, ih]
      | some program => simp [project, hp, KeyValueStore.put]
    · rw [project_cons_ne hkey]
      cases hp : programsStream sha1Hex value with
      | none => simp [project, ih]
      | some program => simp [project, KeyValueStore.put, Function.update_of_ne (Ne.symm hkey), ih]

/-- The store holds the last positive part count of each machine. -/
theorem partCountStore_eq (xs : List (JString × PartSample)) (machine : JString) :
    (partStores sha1Hex xs).2 machine = (partCountHistory machine xs).getLast? := by
  have hstore : (partStores sha1Hex xs).2 = partCountStream.final (fun _ => none) xs := by
    induction xs using List.reverseRecOn with
    | nil => rfl
    | append_singleton xs x ih =>
      rw [partStores_snoc, ih]
      simp [final]
  rw [hstore, partCountStream, final_after, transformValues_dedup, final_keyed,
    project_filterMap, final_dedup, Option.or_none]
  exact congrArg List.getLast? (congrFun List.filterMap_eq_map _)

/-! ## One record -/

/-- The event of a machine's record after the records `xs`. -/
def completedAt (xs : List (JString × PartSample)) (machine : JString) (value : PartSample) :
    Option PartCompletedEventDatum :=
  ((partCompletedEvents sha1Hex (partStores sha1Hex xs) (machine, value)).2).map Prod.snd

/-- **What a record puts out**: a positive part count other than the last one, with the
last program. -/
theorem completedAt_eq (xs : List (JString × PartSample)) (machine : JString)
    (value : PartSample) :
    completedAt sha1Hex xs machine value =
      (partCountDetail value).bind fun partCount =>
        if (partCountHistory machine xs).getLast? = some partCount.partCount then none
        else (programHistory sha1Hex machine (xs ++ [(machine, value)])).getLast?.map
          (partCompletedEvent partCount) := by
  have htable := machineProgramTable_eq sha1Hex (xs ++ [(machine, value)]) machine
  rw [partStores_snoc] at htable
  unfold completedAt partCompletedEvents
  cases hdetail : partCountDetail value with
  | none => simp [partCountStream, after, hdetail]
  | some partCount =>
    have hleft : (partCountStream (partStores sha1Hex xs).2 (machine, value)).2
        = if (partCountHistory machine xs).getLast? = some partCount.partCount then none
          else some (machine, partCount) := by
      rw [partCountStream, transformValues_dedup, after]
      simp only [hdetail, Option.map_some, keyed, dedup, partCountStore_eq]
      split <;> rfl
    rw [← htable]
    simp only [hleft, Option.bind_some]
    split <;> simp [Function.comp_def]

/-! ## Against the rule of the query -/

/-- `part_count > p`, where `p` is the positive count before. -/
def PartCompleted (p : Option Int64) (partCount : Int64) : Prop := ∃ q ∈ p, q < partCount

instance (p : Option Int64) (partCount : Int64) : Decidable (PartCompleted p partCount) :=
  decidable_of_iff (p.any fun q => decide (q < partCount)) <| by
    cases p <;> simp [PartCompleted]

/-- A program comes before the first part count of a machine, or with it: of a record with both
the program is taken first. -/
def ProgramFirst (machine : JString) (xs : List (JString × PartSample)) : Prop :=
  ∀ p value, p ++ [(machine, value)] <+: xs → (partCountDetail value).isSome →
    programHistory sha1Hex machine (p ++ [(machine, value)]) ≠ []

/-- A record with a positive part count puts out an event of that count exactly when
the query would report it. -/
def ReportsPart (p : List (JString × PartSample)) (machine : JString) (value : PartSample)
    (partCount : Int64) : Prop :=
  (∃ event ∈ completedAt sha1Hex p machine value, event.partCount = partCount) ↔
    PartCompleted (partCountHistory machine p).getLast? partCount

variable {sha1Hex}

/-- With a program there, an event comes out unless the count repeats the one before. -/
theorem exists_completedAt_iff {p : List (JString × PartSample)} {machine : JString}
    {value : PartSample} {detail : PartCountDetailDatum}
    (hdetail : partCountDetail value = some detail)
    (hprogram : programHistory sha1Hex machine (p ++ [(machine, value)]) ≠ []) :
    (∃ event ∈ completedAt sha1Hex p machine value, event.partCount = detail.partCount) ↔
      (partCountHistory machine p).getLast? ≠ some detail.partCount := by
  obtain ⟨program, hlast⟩ := Option.isSome_iff_exists.mp (List.getLast?_isSome.mpr hprogram)
  rw [completedAt_eq, hdetail, Option.bind_some, hlast]
  by_cases hrepeat : (partCountHistory machine p).getLast? = some detail.partCount
  · rw [if_pos hrepeat]
    exact iff_of_false (by simp) fun h => h hrepeat
  · rw [if_neg hrepeat]
    exact iff_of_true ⟨_, rfl, rfl⟩ hrepeat

/-- **When a part is reported as the query reports it.** In every stream in which a
program comes first, at every record with a positive part count: the event comes out
exactly when the count is greater than the one before, iff there is a count before and it
is not greater. -/
theorem partCompleted_iff (machine : JString) (xs : List (JString × PartSample))
    (hfirst : ProgramFirst sha1Hex machine xs) :
    ∀ p value detail, p ++ [(machine, value)] <+: xs → partCountDetail value = some detail →
      (ReportsPart sha1Hex p machine value detail.partCount ↔
        ∃ q ∈ (partCountHistory machine p).getLast?, q ≤ detail.partCount) := by
  intro p value detail hp hdetail
  have hprogram := hfirst p value hp (by rw [hdetail]; rfl)
  unfold ReportsPart PartCompleted
  rw [exists_completedAt_iff hdetail hprogram]
  cases (partCountHistory machine p).getLast? with
  | none =>
    -- the first count comes out
    exact iff_of_false (fun h => by simp at h) (by simp)
  | some q =>
    simp only [Option.mem_def, Option.some.injEq, exists_eq_left', ne_eq]
    constructor
    · intro h
      by_cases heq : q = detail.partCount
      · exact heq ▸ Int64.le_refl q
      · exact Int64.le_of_lt (h.mp heq)
    · intro hle
      refine ⟨fun hne => Int64.lt_of_le_of_ne hle hne, fun hlt heq => ?_⟩
      rw [heq] at hlt
      exact Int64.lt_irrefl hlt

end

/-- Some sample of a machine. -/
def partSample (program : Option String) (partCount : Option Int64) (timestamp : Int64) :
    JString × PartSample :=
  ("lathe".toList,
    { machineId := "lathe".toList, program := program.map String.toList, partCount := partCount,
      timestamp := timestamp, offset := timestamp })

/-- A machine that loads a program, makes parts 5 and 6, and starts over at 1. -/
def resetStream : List (JString × PartSample) :=
  [partSample (some "G0") none 1, partSample none (some 5) 2, partSample none (some 6) 3,
    partSample none (some 1) 4]

theorem resetStream_programFirst : ProgramFirst id "lathe".toList resetStream := by
  intro p value hp hpart
  cases p with
  | nil =>
    -- the first record has no part count
    have hvalue := congrArg Prod.snd (List.cons_prefix_cons.mp hp).1
    rw [show value = (partSample (some "G0") none 1).2 from hvalue] at hpart
    exact absurd hpart (by decide)
  | cons x p =>
    obtain rfl := (List.cons_prefix_cons.mp hp).1
    exact List.cons_ne_nil _ _

/-- In the stream above the last count is not greater than the one before. -/
theorem partCompleted_reset :
    ReportsPart id [partSample (some "G0") none 1, partSample none (some 5) 2] "lathe".toList
        (partSample none (some 6) 3).2 6 ↔ ∃ q ∈ some (5 : Int64), q ≤ 6 :=
  partCompleted_iff "lathe".toList resetStream resetStream_programFirst _ _
    { machineId := "lathe".toList, timestamp := 3, offset := 3, partCount := 6 }
    ⟨[partSample none (some 1) 4], rfl⟩ rfl

/-- The first count and the drop to 1 are reported as completed parts. -/
theorem reset_reported :
    ((partCompletedEvents id).run (fun _ => none, fun _ => none) resetStream).map
        (fun event => event.2.partCount) = [5, 6, 1] ∧
    ¬∀ (sha1Hex : JString → JString) (machine : JString) (xs : List (JString × PartSample)),
      ProgramFirst sha1Hex machine xs →
      ∀ p value detail, p ++ [(machine, value)] <+: xs → partCountDetail value = some detail →
        ReportsPart sha1Hex p machine value detail.partCount := by
  refine ⟨by decide +kernel, fun h => ?_⟩
  have hreports := h id "lathe".toList resetStream resetStream_programFirst
    [partSample (some "G0") none 1, partSample none (some 5) 2, partSample none (some 6) 3]
    (partSample none (some 1) 4).2
    { machineId := "lathe".toList, timestamp := 4, offset := 4, partCount := 1 }
    (List.prefix_refl _) rfl
  have hcompleted := hreports.mp ⟨_, rfl, rfl⟩
  exact absurd hcompleted (by decide +kernel)

end FanucDriver.Streams
