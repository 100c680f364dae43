import FanucDriver.Queries.Executions
import Mathlib.Data.Prod.Lex

/-!
# The duration query

`query-execution-duration.sql` reports how long a machine was in each state. It keeps the
samples whose execution is not that of the next sample (`lead`, `where n != execution`),
each up to the next one it keeps, and the last one up to now.

These are the last samples of the runs of equal executions (`durationQuery_lasts`), where
the stream takes the first ones, and without the newest run: its samples have no next
sample of another execution, and `n != execution` is not true of a null. So the run that
is going on has no row at all, on any history (`durationQuery_not_reportsRuns`).

Mirroring notes:
- `timestamp / 1000` divides integers: it truncates to seconds, and samples of one second
  tie. The database puts rows that tie in an order of its own (`WindowOrder`).
- A row keeps its timestamp as a point in time; the query shows it as the local time of
  New York.
-/

namespace FanucDriver.Queries

open FanucDriver.Streams FanucDriver.Lib FanucDriver.Lib.Window FanucDriver.Lib.Transducer

/-! ## The query -/

/-- A row of the query. -/
structure DurationRow where
  machine_id : JString
  timestamp : ℤ
  execution : JString
  duration : ℤ
  deriving DecidableEq

/-- `select machine_id, to_timestamp(timestamp / 1000) as timestamp, execution` -/
def secondsRow (x : ExecutionDatum) : Option ExecutionsRow := do
  let timestamp ← toTimestamp (x.timestamp.toInt.tdiv 1000 : ℤ)
  some { machine_id := x.machineId, timestamp := timestamp, execution := x.execution }

/-- `coalesce(n, CURRENT_TIMESTAMP) - timestamp as duration` -/
def durationRow (now : ℤ) (x : ExecutionsRow × Option ℤ) : Option DurationRow := do
  let duration ← subTimestamp (x.2.getD now) x.1.timestamp
  some {
    machine_id := x.1.machine_id
    timestamp := x.1.timestamp
    execution := x.1.execution
    duration := duration }

def durationQuery (o o' : WindowOrder ExecutionsRow.timestamp) (now : ℤ) (input : List Sample) :
    Option (List DurationRow) := do
  let t ← (input.filterMap executionOf).mapM secondsRow
  let t := overPartitionIn o (·.machine_id) (led (·.execution)) t
  -- `where n != execution`, which is not true of a null
  let t := (t.filter fun x => x.2.any (· ≠ x.1.execution)).map Prod.fst
  let t := overPartitionIn o' (·.machine_id) (led (·.timestamp)) t
  let rows ← t.mapM (durationRow now)
  some (orderBy (·.timestamp) rows).reverse

/-! ## What it is for -/

/-- The samples of a machine, in timestamp order. -/
def historyOf (input : List Sample) (machine : JString) : List ExecutionDatum :=
  orderBy (·.timestamp.toInt) ((input.filterMap executionOf).filter fun x => x.machineId = machine)

/-- The row of a state from `x` on, up to `until_`. -/
def runRow (x : ExecutionDatum) (until_ : ℤ) : DurationRow where
  machine_id := x.machineId
  timestamp := millis x.timestamp
  execution := x.execution
  duration := until_ - millis x.timestamp

/-- Each of some samples up to the next one, and the last one up to now. -/
def runRows (now : ℤ) : List ExecutionDatum → List DurationRow
  | [] => []
  | [x] => [runRow x now]
  | x :: y :: xs => runRow x (millis y.timestamp) :: runRows now (y :: xs)

/-- The row of what the stream puts out. -/
def streamedRow (x : ExecutionWithDurationDatum) : DurationRow where
  machine_id := x.machineId
  timestamp := millis x.start
  execution := x.execution
  duration := millis x.duration

/-- The rows of a machine report the runs of its samples `xs`. -/
structure ReportsRuns (now : ℤ) (machine : JString) (xs : List ExecutionDatum)
    (rows : List DurationRow) : Prop where
  runs : ∃ runs, MaximalRuns ExecutionDatum.execution xs runs ∧
    (rows.filter fun row => row.machine_id = machine).Perm (runRows now (firsts runs))
  /-- All but one are what the stream puts out. -/
  stream : ∃ last, (rows.filter fun row => row.machine_id = machine).Perm
    ((streamed machine xs).map streamedRow ++ [last])

/-- The stream puts out all rows but the last one. -/
theorem runRows_eq (now : ℤ) {xs : List ExecutionDatum} (hne : xs ≠ [])
    (hrange : ∀ x ∈ xs, inRange (millis x.timestamp)) :
    runRows now xs = (List.zipWith interval xs xs.tail).map streamedRow ++
      [runRow (xs.getLast hne) now] := by
  induction xs with
  | nil => exact absurd rfl hne
  | cons x xs ih =>
    cases xs with
    | nil => rfl
    | cons y xs =>
      have hsub := millis_sub (hrange x List.mem_cons_self)
        (hrange y (List.mem_cons_of_mem x List.mem_cons_self))
      have hhead : runRow x (millis y.timestamp) = streamedRow (interval x y) := by
        unfold runRow streamedRow interval
        rw [hsub]
      rw [runRows, ih (List.cons_ne_nil y xs) fun z hz => hrange z (List.mem_cons_of_mem x hz),
        hhead]
      rfl

theorem exists_of_mem_runRows {now : ℤ} {xs : List ExecutionDatum} {row : DurationRow}
    (hrow : row ∈ runRows now xs) : ∃ x ∈ xs, row.machine_id = x.machineId := by
  induction xs with
  | nil => exact absurd hrow List.not_mem_nil
  | cons x xs ih =>
    cases xs with
    | nil =>
      obtain rfl := List.mem_singleton.mp hrow
      exact ⟨x, List.mem_cons_self, rfl⟩
    | cons y xs =>
      rcases List.mem_cons.mp hrow with rfl | hrow
      · exact ⟨x, List.mem_cons_self, rfl⟩
      · obtain ⟨z, hz, hrow⟩ := ih hrow
        exact ⟨z, List.mem_cons_of_mem x hz, hrow⟩

/-- One row for each run reports the runs. -/
theorem reportsRuns_runRows (now : ℤ) {machine : JString} {xs : List ExecutionDatum}
    {runs : List (List ExecutionDatum)} (hruns : MaximalRuns ExecutionDatum.execution xs runs)
    (hne : xs ≠ []) (hmachine : ∀ x ∈ xs, x.machineId = machine)
    (hrange : ∀ x ∈ xs, inRange (millis x.timestamp)) :
    ReportsRuns now machine xs (runRows now (firsts runs)) := by
  have hsub := hruns.firsts_sublist.subset
  have hfilter : (runRows now (firsts runs)).filter (fun row => row.machine_id = machine)
      = runRows now (firsts runs) :=
    List.filter_eq_self.mpr fun row hrow => by
      obtain ⟨x, hx, hrow⟩ := exists_of_mem_runRows hrow
      exact decide_eq_true (hrow.trans (hmachine x (hsub hx)))
  have hstream := runRows_eq now (hruns.firsts_ne_nil hne) fun x hx => hrange x (hsub hx)
  have hstreamed : streamed machine xs = _ := streamed_eq hruns
  rw [← hstreamed] at hstream
  exact ⟨⟨runs, hruns, .of_eq hfilter⟩, ⟨_, .of_eq (hfilter.trans hstream)⟩⟩

/-! ## The last run -/

/-- The samples from the start of the last run on have its execution. -/
theorem execution_of_lastRun {xs : List ExecutionDatum} {runs : List (List ExecutionDatum)}
    (hruns : MaximalRuns ExecutionDatum.execution xs runs)
    (hsorted : xs.Pairwise fun x y => x.timestamp.toInt < y.timestamp.toInt) {f : ExecutionDatum}
    (hf : (firsts runs).getLast? = some f) {d : ExecutionDatum} (hd : d ∈ xs)
    (hle : f.timestamp.toInt ≤ d.timestamp.toInt) : d.execution = f.execution := by
  rcases List.eq_nil_or_concat runs with rfl | ⟨rs, r, rfl⟩
  · exact absurd hf (by simp [firsts])
  obtain ⟨g, r, rfl⟩ := List.exists_cons_of_ne_nil
    (show r ≠ [] from fun h => hruns.nonempty (by simp [h]))
  obtain rfl : g = f := by simpa [firsts] using hf
  have hlast : g :: r ∈ rs.concat (g :: r) := by simp
  have hxs := hruns.flatten
  rw [List.concat_eq_append, List.flatten_append, List.flatten_singleton] at hxs
  subst hxs
  rcases List.mem_append.mp hd with hd | hd
  · -- a sample of an earlier run is before the last run
    have hlt := (List.pairwise_append.mp hsorted).2.2 d hd g List.mem_cons_self
    exact absurd hle (not_le.mpr hlt)
  · exact hruns.same _ hlast d hd g List.mem_cons_self

theorem exists_last_runRow (now : ℤ) {xs : List ExecutionDatum} {f : ExecutionDatum}
    (hf : xs.getLast? = some f) : runRow f now ∈ runRows now xs := by
  induction xs with
  | nil => exact absurd hf (by simp)
  | cons x xs ih =>
    cases xs with
    | nil =>
      obtain rfl : x = f := by simpa using hf
      exact List.mem_cons_self
    | cons y xs =>
      rw [List.getLast?_cons_cons] at hf
      exact List.mem_cons_of_mem _ (ih hf)

/-! ## The samples of a row -/

/-- A column of milliseconds, truncated to seconds. -/
def seconds (t : Int64) : ℤ := t.toInt.tdiv 1000 * 1000000

theorem round_seconds (n : Int64) :
    round ((n.toInt.tdiv 1000 : ℤ) * 1000000 : ℚ) = seconds n := by
  rw [show ((n.toInt.tdiv 1000 : ℤ) * 1000000 : ℚ) = ((seconds n : ℤ) : ℚ) by
    unfold seconds; push_cast; ring, round_intCast]

theorem toTimestamp_seconds {n : Int64} {t : ℤ}
    (h : toTimestamp (n.toInt.tdiv 1000 : ℤ) = some t) : t = seconds n := by
  unfold toTimestamp at h
  rw [round_seconds] at h
  split at h
  · exact (Option.some.inj h).symm
  · exact absurd h.symm (Option.some_ne_none t)

theorem toTimestamp_eq_seconds {n : Int64} (h : inRange (seconds n)) :
    toTimestamp (n.toInt.tdiv 1000 : ℤ) = some (seconds n) := by
  rw [toTimestamp, round_seconds, if_pos h]

theorem seconds_mono {t u : Int64} (h : t.toInt ≤ u.toInt) : seconds t ≤ seconds u := by
  have hdiv := Int.tdiv_le_tdiv (c := 1000) (by decide) h
  unfold seconds
  omega

def secondsRowOf (x : ExecutionDatum) : ExecutionsRow where
  machine_id := x.machineId
  timestamp := seconds x.timestamp
  execution := x.execution

theorem secondsRow_eq (x : ExecutionDatum) (row : ExecutionsRow) (h : secondsRow x = some row) :
    row = secondsRowOf x := by
  obtain ⟨t, ht, hrow⟩ := Option.bind_eq_some_iff.mp h
  obtain rfl := toTimestamp_seconds ht
  exact (Option.some.inj hrow).symm

/-- The row of `durationRow`, its duration unchecked. -/
def durationRowOf (now : ℤ) (x : ExecutionsRow × Option ℤ) : DurationRow where
  machine_id := x.1.machine_id
  timestamp := x.1.timestamp
  execution := x.1.execution
  duration := x.2.getD now - x.1.timestamp

theorem durationRow_eq (now : ℤ) (x : ExecutionsRow × Option ℤ) (row : DurationRow)
    (h : durationRow now x = some row) : row = durationRowOf now x :=
  eq_of_subTimestamp h

/-- Samples at full seconds, paired with the next one. -/
theorem led_runRows (now : ℤ) {xs : List ExecutionDatum}
    (hwhole : ∀ x ∈ xs, seconds x.timestamp = millis x.timestamp) :
    (led (·.timestamp) (xs.map secondsRowOf)).map (durationRowOf now) = runRows now xs := by
  induction xs with
  | nil => rfl
  | cons x xs ih =>
    have hx := hwhole x List.mem_cons_self
    cases xs with
    | nil =>
      show [durationRowOf now (secondsRowOf x, none)] = _
      unfold durationRowOf secondsRowOf
      rw [hx]
      rfl
    | cons y xs =>
      have hy := hwhole y (List.mem_cons_of_mem x List.mem_cons_self)
      rw [runRows, ← ih fun z hz => hwhole z (List.mem_cons_of_mem x hz)]
      show durationRowOf now (secondsRowOf x, some (seconds y.timestamp)) :: _ = _
      unfold durationRowOf secondsRowOf
      rw [hx, hy]
      rfl

/-- The rows of the query, their durations unchecked. -/
theorem durationQuery_rows {o o' : WindowOrder ExecutionsRow.timestamp} {now : ℤ}
    {input : List Sample} {rows : List DurationRow}
    (hquery : durationQuery o o' now input = some rows) :
    rows = (orderBy (·.timestamp)
      ((overPartitionIn o' (·.machine_id) (led (·.timestamp))
        (((overPartitionIn o (·.machine_id) (led (·.execution))
          ((input.filterMap executionOf).map secondsRowOf)).filter fun x =>
            x.2.any (· ≠ x.1.execution)).map Prod.fst)).map (durationRowOf now))).reverse := by
  unfold durationQuery at hquery
  obtain ⟨t, ht, hquery⟩ := Option.bind_eq_some_iff.mp hquery
  obtain ⟨finals, hfinals, hrows⟩ := Option.bind_eq_some_iff.mp hquery
  obtain rfl := Option.some.inj hrows
  obtain rfl := eq_map_of_mapM ht secondsRow_eq
  obtain rfl := eq_map_of_mapM hfinals (durationRow_eq now)
  rfl

/-- **A row comes from a sample that has a next one** of the same machine, with another
execution. -/
theorem exists_next_of_row {o o' : WindowOrder ExecutionsRow.timestamp} {now : ℤ}
    {input : List Sample} {rows : List DurationRow}
    (hquery : durationQuery o o' now input = some rows)
    {R : ExecutionsRow → ExecutionsRow → Prop} (hR : ∀ as, (o.order as).Pairwise R)
    {row : DurationRow} (hrow : row ∈ rows) :
    ∃ x ∈ input.filterMap executionOf, ∃ y ∈ input.filterMap executionOf,
      row.machine_id = x.machineId ∧ row.timestamp = seconds x.timestamp ∧
      row.execution = x.execution ∧ y.machineId = x.machineId ∧ y.execution ≠ x.execution ∧
      R (secondsRowOf x) (secondsRowOf y) := by
  obtain rfl := durationQuery_rows hquery
  obtain ⟨final, hfinal, rfl⟩ := List.mem_map.mp (mem_orderBy.mp (List.mem_reverse.mp hrow))
  have hfinal := mem_of_mem_overPartitionIn (fun _ _ => mem_of_mem_led) hfinal
  obtain ⟨⟨a, n⟩, hz, hfst⟩ := List.mem_map.mp hfinal
  obtain ⟨hz, hchanged⟩ := List.mem_filter.mp hz
  cases n with
  | none => exact absurd hchanged Bool.false_ne_true
  | some n =>
    obtain ⟨ha, b, hb, hkey, hn, hab⟩ := exists_next_of_over hR hz
    obtain ⟨x, hx, rfl⟩ := List.mem_map.mp ha
    obtain ⟨y, hy, rfl⟩ := List.mem_map.mp hb
    have hne : n ≠ x.execution := of_decide_eq_true hchanged
    have hrow : final.1 = secondsRowOf x := hfst.symm
    refine ⟨x, hx, y, hy, ?_, ?_, ?_, hkey, fun h => hne (hn.symm.trans h), hab⟩ <;>
      unfold durationRowOf <;> rw [hrow] <;> rfl

/-! ## What the query reports -/

/-- Rows of samples at full seconds do not tie. -/
theorem secondsRows_strict {xs : List ExecutionDatum}
    (hsorted : xs.Pairwise fun x y => x.timestamp.toInt < y.timestamp.toInt)
    (hwhole : ∀ x ∈ xs, seconds x.timestamp = millis x.timestamp) :
    (xs.map secondsRowOf).Pairwise fun a b => a.timestamp < b.timestamp := by
  rw [List.pairwise_map]
  refine (List.Pairwise.and_mem.mp hsorted).imp ?_
  intro x y h
  obtain ⟨hx, hy, hlt⟩ := h
  show seconds _ < seconds _
  rw [hwhole x hx, hwhole y hy]
  unfold millis
  omega

/-- The rows of a machine that are left after the first window: the last samples of all
runs but the newest. -/
theorem filter_changed {o : WindowOrder ExecutionsRow.timestamp} {t : List ExecutionsRow}
    {machine : JString} {xs : List ExecutionDatum} {runs : List (List ExecutionDatum)}
    (hruns : MaximalRuns ExecutionDatum.execution xs runs)
    (ht : o.order (t.filter fun row => row.machine_id = machine) = xs.map secondsRowOf) :
    (((overPartitionIn o (·.machine_id) (led (·.execution)) t).filter fun x =>
        x.2.any (· ≠ x.1.execution)).map Prod.fst).filter (fun row => row.machine_id = machine)
      = (lasts runs).dropLast.map secondsRowOf := by
  have hlead := filter_overIn o (f := led ExecutionsRow.execution)
    (fun x : ExecutionsRow × Option JString => x.1.machine_id) rfl
    (fun as k has b hb => has b.1 (mem_of_mem_led hb)) t machine
  have hmap : MaximalRuns ExecutionsRow.execution (xs.map secondsRowOf)
      (runs.map (List.map secondsRowOf)) := MaximalRuns.map (f := secondsRowOf) hruns
  rw [List.filter_map, List.filter_comm]
  show (((overPartitionIn o _ (led ExecutionsRow.execution) _).filter
    (fun x => x.1.machine_id = machine)).filter _).map _ = _
  rw [hlead, ht, led_filter_ne hmap, lasts_map, List.map_dropLast]

/-- **What the query reports instead**: where the samples are at full seconds, the last
samples of the runs but the newest, each up to the next one, and the last up to now. -/
theorem durationQuery_lasts {o o' : WindowOrder ExecutionsRow.timestamp} {now : ℤ}
    {input : List Sample} {rows : List DurationRow}
    (hquery : durationQuery o o' now input = some rows) {machine : JString}
    (hsorted : (historyOf input machine).Pairwise fun x y =>
      x.timestamp.toInt < y.timestamp.toInt)
    (hwhole : ∀ x ∈ historyOf input machine, seconds x.timestamp = millis x.timestamp)
    {runs : List (List ExecutionDatum)}
    (hruns : MaximalRuns ExecutionDatum.execution (historyOf input machine) runs) :
    (rows.filter fun row => row.machine_id = machine).Perm
      (runRows now (lasts runs).dropLast) := by
  obtain rfl := durationQuery_rows hquery
  have hpartition : o.order (((input.filterMap executionOf).map secondsRowOf).filter fun row =>
        row.machine_id = machine)
      = (historyOf input machine).map secondsRowOf := by
    refine o.order_eq ?_ (secondsRows_strict hsorted hwhole)
    rw [List.filter_map]
    exact ((orderBy_perm _ _).map _).symm
  -- the last samples are in timestamp order as the samples are
  have hsub : (lasts runs).dropLast.Sublist (historyOf input machine) :=
    (List.dropLast_sublist _).trans (hruns.flatten ▸ lasts_sublist runs)
  have hwhole' := fun x hx => hwhole x (hsub.subset hx)
  have hlead := filter_overIn o' (f := led ExecutionsRow.timestamp)
    (fun x : ExecutionsRow × Option ℤ => x.1.machine_id) rfl
    (fun as k has b hb => has b.1 (mem_of_mem_led hb))
    (((overPartitionIn o (·.machine_id) (led (·.execution))
      ((input.filterMap executionOf).map secondsRowOf)).filter fun x =>
        x.2.any (· ≠ x.1.execution)).map Prod.fst) machine
  rw [filter_changed hruns hpartition,
    o'.order_eq (List.Perm.refl _) (secondsRows_strict (hsorted.sublist hsub) hwhole')] at hlead
  refine (((List.reverse_perm _).trans (orderBy_perm _ _)).filter _).trans ?_
  rw [List.filter_map]
  show (((overPartitionIn o' _ (led ExecutionsRow.timestamp) _).filter
    (fun x => x.1.machine_id = machine)).map _).Perm _
  rw [hlead, led_runRows now hwhole']

/-! ## No row for the last run -/

theorem historyOf_sorted {input : List Sample} {machine : JString}
    (hdistinct : ((input.filterMap executionOf).filter fun x => x.machineId = machine).Pairwise
      fun x y => x.timestamp ≠ y.timestamp) :
    (historyOf input machine).Pairwise fun x y => x.timestamp.toInt < y.timestamp.toInt :=
  orderBy_strict (hdistinct.imp fun hne heq => hne (Int64.toInt_inj.mp heq))

theorem mem_historyOf {input : List Sample} {machine : JString} {x : ExecutionDatum} :
    x ∈ historyOf input machine ↔ x ∈ input.filterMap executionOf ∧ x.machineId = machine := by
  rw [historyOf, mem_orderBy, List.mem_filter, decide_eq_true_iff]

/-- Rows that report the runs have one for the last run. -/
theorem ReportsRuns.exists_last {now : ℤ} {machine : JString} {xs : List ExecutionDatum}
    {rows : List DurationRow} (h : ReportsRuns now machine xs rows) (hne : xs ≠ [])
    (hsorted : xs.Pairwise fun x y => x.timestamp.toInt < y.timestamp.toInt) :
    ∃ f ∈ xs,
      (∃ row ∈ rows, row.machine_id = machine ∧ row.timestamp = millis f.timestamp ∧
        row.execution = f.execution) ∧
      ∀ d ∈ xs, f.timestamp.toInt ≤ d.timestamp.toInt → d.execution = f.execution := by
  obtain ⟨runs, hruns, hrows⟩ := h.runs
  have hfirsts := hruns.firsts_ne_nil hne
  have hf := List.getLast?_eq_some_getLast hfirsts
  have hrow := hrows.mem_iff.mpr (exists_last_runRow now hf)
  obtain ⟨hrow, hmachine⟩ := List.mem_filter.mp hrow
  have hmem := hruns.firsts_sublist.subset (List.getLast_mem hfirsts)
  exact ⟨_, hmem, ⟨_, hrow, of_decide_eq_true hmachine, rfl, rfl⟩,
    fun d hd => execution_of_lastRun hruns hsorted hf hd⟩

theorem seconds_le_millis {t : Int64} (h : 0 ≤ t.toInt) : seconds t ≤ millis t := by
  have hdiv := Int.mul_tdiv_add_tmod t.toInt 1000
  have hmod := Int.tmod_nonneg 1000 h
  unfold seconds millis
  omega

/-- What is of a later second is later, also where truncation goes up. -/
theorem le_of_seconds_lt {t u v : Int64} (htu : seconds t = millis u)
    (htv : seconds t < seconds v) : u.toInt ≤ v.toInt := by
  have hdiv := Int.mul_tdiv_add_tmod v.toInt 1000
  have hmod := Int.lt_tmod_of_pos v.toInt (b := 1000) (by decide)
  unfold seconds millis at *
  omega

/-- Rows that tie as they come. -/
def asTheyCome : WindowOrder ExecutionsRow.timestamp := .finer (·.timestamp) fun _ _ h => h

/-- An order in which the samples of execution `e` are the last ones of their second. -/
def lastOfSecond (e : JString) : WindowOrder ExecutionsRow.timestamp :=
  .finer (fun row => toLex (row.timestamp, decide (row.execution = e))) fun _ _ h =>
    (Prod.Lex.toLex_le_toLex'.mp h).1

/-- A row for the last run would be of a sample whose next one is before the last run. -/
theorem ReportsRuns.exists_next {o o' : WindowOrder ExecutionsRow.timestamp} {now : ℤ}
    {input : List Sample} {machine : JString} {rows : List DurationRow}
    (h : ReportsRuns now machine (historyOf input machine) rows)
    (hquery : durationQuery o o' now input = some rows)
    {R : ExecutionsRow → ExecutionsRow → Prop} (hR : ∀ as, (o.order as).Pairwise R)
    (hne : historyOf input machine ≠ [])
    (hsorted : (historyOf input machine).Pairwise fun x y =>
      x.timestamp.toInt < y.timestamp.toInt) :
    ∃ x, ∃ y ∈ historyOf input machine, ∃ f : ExecutionDatum,
      seconds x.timestamp = millis f.timestamp ∧ y.timestamp.toInt < f.timestamp.toInt ∧
      x.execution = ((historyOf input machine).getLast hne).execution ∧
      y.execution ≠ x.execution ∧ R (secondsRowOf x) (secondsRowOf y) := by
  obtain ⟨f, hf, ⟨row, hrow, hmachine, htimestamp, hexecution⟩, hrun⟩ :=
    h.exists_last hne hsorted
  obtain ⟨x, -, y, hy, hmachine', htimestamp', hexecution', hkey, hchanged, hxy⟩ :=
    exists_next_of_row hquery hR hrow
  have hy : y ∈ historyOf input machine :=
    mem_historyOf.mpr ⟨hy, hkey.trans (hmachine'.symm.trans hmachine)⟩
  have hx : x.execution = f.execution := hexecution'.symm.trans hexecution
  -- the last sample is of the last run
  have hlast : ((historyOf input machine).getLast hne).execution = f.execution :=
    hrun _ (List.getLast_mem hne)
      ((hsorted.imp le_of_lt).rel_getLast_of_rel_getLast_getLast hf le_rfl)
  have hbefore : y.timestamp.toInt < f.timestamp.toInt :=
    not_le.mp fun hle => hchanged ((hrun y hy hle).trans hx.symm)
  exact ⟨x, y, hy, f, htimestamp'.symm.trans htimestamp, hbefore, hx.trans hlast.symm, hchanged,
    hxy⟩

/-- **The query never reports the runs**: on no history does it do so for every order of
the samples of a second, and for none where no timestamp is before 1970. -/
theorem durationQuery_not_reportsRuns (now : ℤ) {input : List Sample} {machine : JString}
    (hne : historyOf input machine ≠ [])
    (hdistinct : ((input.filterMap executionOf).filter fun x => x.machineId = machine).Pairwise
      fun x y => x.timestamp ≠ y.timestamp) :
    (¬∀ o o', ∃ rows, durationQuery o o' now input = some rows ∧
      ReportsRuns now machine (historyOf input machine) rows) ∧
    ((∀ x ∈ historyOf input machine, 0 ≤ x.timestamp.toInt) → ∀ o o' rows,
      durationQuery o o' now input = some rows →
      ¬ReportsRuns now machine (historyOf input machine) rows) := by
  have hsorted := historyOf_sorted hdistinct
  constructor
  · intro hreports
    obtain ⟨rows, hquery, h⟩ :=
      hreports (lastOfSecond ((historyOf input machine).getLast hne).execution) asTheyCome
    obtain ⟨x, y, hy, f, hxf, hbefore, hx, hchanged, hxy⟩ :=
      h.exists_next hquery (fun as => orderBy_sorted _ as) hne hsorted
    -- with this order the next sample is of a later second
    have hlt : seconds x.timestamp < seconds y.timestamp := by
      rcases Prod.Lex.toLex_le_toLex.mp hxy with hlt | ⟨-, htie⟩
      · exact hlt
      · exact absurd ((of_decide_eq_true (htie (decide_eq_true hx))).trans hx.symm) hchanged
    exact absurd (le_of_seconds_lt hxf hlt) (not_le.mpr hbefore)
  · intro hafter o o' rows hquery h
    obtain ⟨x, y, hy, f, hxf, hbefore, -, -, hxy⟩ := h.exists_next hquery o.sorted hne hsorted
    have hle := seconds_le_millis (hafter y hy)
    have hxy : seconds x.timestamp ≤ seconds y.timestamp := hxy
    unfold millis at *
    omega

/-- A machine that has been active from the start on. -/
def activeSamples : List Sample :=
  [executionSample (some "ACTIVE") 1000, executionSample (some "ACTIVE") 0]

/-- The query does not report it. -/
theorem durationQuery_active :
    ¬ReportsRuns 10000000 "lathe".toList (historyOf activeSamples "lathe".toList) [] := by
  have hquery : durationQuery asTheyCome asTheyCome 10000000 activeSamples = some [] := by
    decide +kernel
  exact (durationQuery_not_reportsRuns 10000000 (by decide +kernel) (by decide +kernel)).2
    (by decide +kernel) _ _ _ hquery

/-- It was active for two seconds and is stopped since; the query says that it has been
active from the second sample on. -/
theorem durationQuery_stopped :
    durationQuery asTheyCome asTheyCome 10000000 stoppedSamples = some
      [{ machine_id := "lathe".toList, timestamp := 1000000, execution := "ACTIVE".toList,
         duration := 9000000 }] ∧
    ¬ReportsRuns 10000000 "lathe".toList (historyOf stoppedSamples "lathe".toList)
      [{ machine_id := "lathe".toList, timestamp := 1000000, execution := "ACTIVE".toList,
         duration := 9000000 }] := by
  refine ⟨by decide +kernel, fun h => ?_⟩
  -- there are two runs
  obtain ⟨runs, hruns, hrows⟩ := h.runs
  rw [← run_dedup hruns] at hrows
  exact absurd hrows.length_eq (by decide +kernel)

end FanucDriver.Queries
