import FanucDriver.Lib.Transducer
import FanucDriver.Streams.Convert

/-!
# The executions topology

`Staging.kt` turns the rows of the input stream into the intervals a machine spent
in one execution state: drop the rows without an execution, drop the repeats
(`DedupTransformer`), and close each state when the next one starts
(`ExecutionDurationTransformer`). Both transformers keep one cell for each record
key in a store of their own.

`intervals_segment` says that what comes out for a machine is the segmentation of
its own history into maximal runs of equal executions.

Mirroring notes:
- A record goes through the whole topology before the next one; `filter` and
  `mapValues` keep the key. A transformer's `null` is filtered right after it.
- `Sample` is what the topology reads of an `AdapterDatumSer`. The four columns of
  the position are never null there (`exists_sample`).
- Timestamps are Java longs; `end - start` wraps as theirs does.
-/

namespace FanucDriver.Streams

open FanucDriver.Lib FanucDriver.Lib.Transducer

/-! ## Records -/

/-- The columns of `AdapterDatumSer` that the topology reads. -/
structure Sample where
  machineId : JString
  execution : Option JString
  timestamp : Int64
  partition : Int32
  offset : Int64
  deriving DecidableEq

structure ExecutionDatum where
  machineId : JString
  execution : JString
  timestamp : Int64
  offset : Int64
  partition : Int32
  deriving DecidableEq

structure ExecutionWithDurationDatum where
  machineId : JString
  execution : JString
  start : Int64
  end_ : Int64
  offset : Int64
  partition : Int32
  duration : Int64
  deriving DecidableEq

/-- The sample of a row. -/
def AdapterDatumSer.sample {D : Type} (out : AdapterDatumSer D) : Option Sample := do
  some {
    machineId := ← out .machine_id
    execution := out (.value .execution)
    timestamp := ← out .timestamp
    partition := ← out .partition
    offset := ← out .offset }

section
variable {K V W E S : Type} [DecidableEq K]

abbrev KeyValueStore (K V : Type) := K → Option V

def KeyValueStore.put (store : KeyValueStore K V) (key : K) (value : V) : KeyValueStore K V :=
  Function.update store key (some value)

/-- `transformValues { … }.filter { _, value -> value != null }` -/
def transformValues (transform : S → K → V → S × Option W) : Transducer S (K × V) (K × W) :=
  fun store x =>
    ((transform store x.1 x.2).1, (transform store x.1 x.2).2.map fun value => (x.1, value))

/-- `DedupTransformer.transform` -/
def DedupTransformer.transform [DecidableEq E] (valueExtractor : K → V → Option E)
    (store : KeyValueStore K E) (readOnlyKey : K) (value : V) : KeyValueStore K E × Option V :=
  match valueExtractor readOnlyKey value with
  | none => (store, some value)
  | some v =>
    match store readOnlyKey with
    | some lastVal =>
      if v = lastVal then (store, none) else (store.put readOnlyKey v, some value)
    | none => (store.put readOnlyKey v, some value)

/-- `ExecutionDurationTransformer.transform` -/
def ExecutionDurationTransformer.transform (store : KeyValueStore K ExecutionDatum)
    (readOnlyKey : K) (value : ExecutionDatum) :
    KeyValueStore K ExecutionDatum × Option ExecutionWithDurationDatum :=
  match store readOnlyKey with
  | none => (store.put readOnlyKey value, none)
  | some storeValue =>
    let start := storeValue.timestamp
    let end_ := value.timestamp
    (store.put readOnlyKey value, some {
      start := start
      end_ := end_
      partition := storeValue.partition
      offset := storeValue.offset
      execution := storeValue.execution
      machineId := storeValue.machineId
      duration := end_ - start })

/-- The deduplication is a `dedup` for each key. -/
theorem transformValues_dedup [DecidableEq E] (valueExtractor : K → V → Option E) :
    transformValues (DedupTransformer.transform valueExtractor)
      = keyed fun k => dedup (valueExtractor k) := by
  funext store x
  obtain ⟨key, value⟩ := x
  rw [transformValues, keyed, DedupTransformer.transform, dedup]
  cases valueExtractor key value with
  | none => simp only [Function.update_eq_self]
  | some v =>
    cases hlast : store key with
    | none => simp [KeyValueStore.put]
    | some lastVal =>
      rcases eq_or_ne v lastVal with rfl | hne
      · simp only [if_true, ← hlast, Function.update_eq_self]
      · simp [hne, hne.symm, KeyValueStore.put]

/-- The interval between two successive records. -/
def interval (storeValue value : ExecutionDatum) : ExecutionWithDurationDatum where
  machineId := storeValue.machineId
  execution := storeValue.execution
  start := storeValue.timestamp
  end_ := value.timestamp
  offset := storeValue.offset
  partition := storeValue.partition
  duration := value.timestamp - storeValue.timestamp

/-- The duration of an interval, where no timestamp is negative. -/
theorem toInt_sub_of_nonneg {a b : Int64} (ha : 0 ≤ a) (hb : 0 ≤ b) :
    (a - b).toInt = a.toInt - b.toInt := by
  have ha : 0 ≤ a.toInt := Int64.le_iff_toInt_le.mp ha
  have hb : 0 ≤ b.toInt := Int64.le_iff_toInt_le.mp hb
  have hamax := Int64.toInt_lt a
  have hbmax := Int64.toInt_lt b
  rw [Int64.toInt_sub, Int.bmod_eq_emod]
  split <;> omega

/-- The durations are a `lag` for each key. -/
theorem transformValues_duration :
    transformValues (ExecutionDurationTransformer.transform (K := K)) =
      keyed fun _ => lag interval := by
  funext store x
  obtain ⟨key, value⟩ := x
  rw [transformValues, keyed, ExecutionDurationTransformer.transform]
  cases hlast : store key <;> simp [lag, KeyValueStore.put, interval]

end

/-! ## The topology -/

/-- `String?.isNullOrEmpty` -/
def isNullOrEmpty (s : Option JString) : Bool :=
  s.all List.isEmpty

/-- `filter { … }.mapValues { … }`: the execution of a sample that has one. -/
def executionDatum (value : Sample) : Option ExecutionDatum :=
  if isNullOrEmpty value.execution then none
  else value.execution.map fun execution =>
    { machineId := value.machineId
      execution := execution
      timestamp := value.timestamp
      partition := value.partition
      offset := value.offset }

/-- `val executions` -/
def executions :
    Transducer (KeyValueStore JString JString) (JString × Sample) (JString × ExecutionDatum) :=
  (transformValues
    (DedupTransformer.transform fun _ (v : ExecutionDatum) => some v.execution)).after
    fun x => (executionDatum x.2).map fun value => (x.1, value)

/-- `executions` and the duration transformer behind it. -/
def executionsDuration :
    Transducer (KeyValueStore JString JString × KeyValueStore JString ExecutionDatum)
      (JString × Sample) (JString × ExecutionWithDurationDatum) :=
  executions.comp (transformValues ExecutionDurationTransformer.transform)

/-- The intervals of a stream, from empty stores. -/
def intervals (xs : List (JString × Sample)) : List (JString × ExecutionWithDurationDatum) :=
  executionsDuration.run (fun _ => none, fun _ => none) xs

/-- The execution records of a machine. -/
def executionHistory (machine : JString) (xs : List (JString × Sample)) : List ExecutionDatum :=
  (project machine xs).filterMap executionDatum

/-! ## Segmentation -/

/-- The intervals of one machine, as the segmentation of its history. -/
structure Segments (rs : List (List ExecutionDatum)) (is : List ExecutionWithDurationDatum) :
    Prop where
  /-- One interval for each run but the last. -/
  count : is.length = rs.length - 1
  /-- An interval is read off the first records of its run and of the next one. -/
  each : ∀ i x, is[i]? = some x → ∃ run next first second,
    rs[i]? = some run ∧ rs[i + 1]? = some next ∧ run.head? = some first ∧ next.head? = some second ∧
    x = {
      machineId := first.machineId
      execution := first.execution
      start := first.timestamp
      end_ := second.timestamp
      offset := first.offset
      partition := first.partition
      duration := second.timestamp - first.timestamp }
  contiguous : is.IsChain fun a b => a.end_ = b.start
  different : is.IsChain fun a b => a.execution ≠ b.execution
  /-- The durations add up to the time from the first record to the last run. -/
  telescope : ∀ first lastRun last, (rs.flatten).head? = some first → rs.getLast? = some lastRun →
    lastRun.head? = some last → (is.map (·.duration)).sum = last.timestamp - first.timestamp

theorem isChain_zipWith_tail {A B : Type} {f : A → A → B} {R : A → A → Prop} {Q : B → B → Prop}
    (hQ : ∀ a b c, R a b → R b c → Q (f a b) (f b c)) {as : List A} (h : as.IsChain R) :
    (List.zipWith f as as.tail).IsChain Q := by
  match as with
  | [] => exact List.isChain_nil
  | [_] => exact List.isChain_nil
  | [_, _] => exact List.isChain_singleton _
  | a :: b :: c :: as =>
    obtain ⟨hab, hrest⟩ := List.isChain_cons_cons.mp h
    obtain ⟨hbc, -⟩ := List.isChain_cons_cons.mp hrest
    exact List.isChain_cons_cons.mpr ⟨hQ a b c hab hbc, isChain_zipWith_tail hQ hrest⟩

theorem sum_intervals {first last : ExecutionDatum} {rest : List ExecutionDatum}
    (h : (first :: rest).getLast? = some last) :
    ((List.zipWith interval (first :: rest) rest).map (·.duration)).sum
      = last.timestamp - first.timestamp := by
  induction rest generalizing first with
  | nil =>
    obtain rfl := Option.some.inj h
    show (0 : Int64) = _
    grind
  | cons second rest ih =>
    rw [List.getLast?_cons_cons] at h
    rw [List.zipWith_cons_cons, List.map_cons, List.sum_cons, ih h]
    show second.timestamp - first.timestamp + _ = _
    grind

/-- The intervals between the first records of runs segment them. -/
theorem segments_firsts {h : List ExecutionDatum} {rs : List (List ExecutionDatum)}
    (hr : MaximalRuns ExecutionDatum.execution h rs) :
    Segments rs (List.zipWith interval (firsts rs) (firsts rs).tail) where
  count := by
    rw [List.length_zipWith, List.length_tail, length_firsts hr.nonempty]
    omega
  each := by
    intro i x hx
    obtain ⟨first, second, hfirst, hsecond, rfl⟩ := List.getElem?_zipWith_eq_some.mp hx
    rw [List.getElem?_tail, getElem?_firsts hr.nonempty] at hsecond
    rw [getElem?_firsts hr.nonempty] at hfirst
    obtain ⟨run, hrun, hhead⟩ := Option.bind_eq_some_iff.mp hfirst
    obtain ⟨next, hnext, hhead'⟩ := Option.bind_eq_some_iff.mp hsecond
    exact ⟨run, next, first, second, hrun, hnext, hhead, hhead', rfl⟩
  contiguous := isChain_zipWith_tail (R := fun _ _ => True) (fun _ _ _ _ _ => rfl)
    (isChain_firsts hr.nonempty (hr.differ.imp fun _ _ _ _ _ _ _ => trivial))
  different := isChain_zipWith_tail (f := interval) (fun _ _ _ hab _ => hab)
    (isChain_firsts hr.nonempty hr.differ)
  telescope := by
    intro first lastRun last hfirst hlastRun hlast
    -- the last of the first records is that of the last run
    have hgetLast : (firsts rs).getLast? = some last := by
      rw [List.getLast?_eq_getElem?, length_firsts hr.nonempty, getElem?_firsts hr.nonempty,
        ← List.getLast?_eq_getElem?, hlastRun]
      exact hlast
    match rs, hr.nonempty, hfirst, hgetLast with
    | [] :: _, hne, _, _ => exact absurd List.mem_cons_self hne
    | (a :: r) :: rs, _, hfirst, hgetLast =>
      obtain rfl := Option.some.inj hfirst
      exact sum_intervals hgetLast

/-! ## The topology segments every machine's history -/

theorem project_executions (xs : List (JString × Sample)) (machine : JString) :
    project machine (executions.run (fun _ => none) xs)
      = (dedup fun v : ExecutionDatum => some v.execution).run none
          (executionHistory machine xs) := by
  rw [executions, run_after, transformValues_dedup, project_run_keyed, project_filterMap]
  rfl

/-- What comes out for a machine, from its history alone. -/
theorem project_intervals (xs : List (JString × Sample)) (machine : JString) :
    project machine (intervals xs) = (lag interval).run none
      ((dedup fun v : ExecutionDatum => some v.execution).run none
        (executionHistory machine xs)) := by
  rw [intervals, executionsDuration, run_comp, transformValues_duration, project_run_keyed,
    project_executions]

/-- **Execution intervals are the run-length segmentation of a machine's history**,
and other machines' records have no part in them. -/
theorem intervals_segment (xs : List (JString × Sample)) (machine : JString) :
    (∃ rs, MaximalRuns ExecutionDatum.execution (executionHistory machine xs) rs ∧
      Segments rs (project machine (intervals xs))) ∧
    ∀ ys, executionHistory machine ys = executionHistory machine xs →
      project machine (intervals ys) = project machine (intervals xs) := by
  refine ⟨?_, fun ys h => by rw [project_intervals, project_intervals, h]⟩
  obtain ⟨rs, hrs⟩ := exists_maximalRuns ExecutionDatum.execution (executionHistory machine xs)
  refine ⟨rs, hrs, ?_⟩
  rw [project_intervals, run_dedup hrs, run_lag]
  exact segments_firsts hrs

end FanucDriver.Streams
