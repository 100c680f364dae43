import FanucDriver.Queries.Durations

/-!
# The active time of a day

`query-per-machine-per-day.sql` adds up, for each machine and day, the time from every
active sample to the sample after it (`lead`), where that is more than 20 seconds.
`query.sql` shows the intervals.

The query does not drop repeats. `perMachinePerDay_total` says what the days of a machine
add up to, whatever the calendar: the durations of its active runs as the stream puts them
out, and the time of a last run that is active, but without all intervals of 20 seconds or
less.

Mirroring notes:
- `start / 1000` divides integers: it truncates to seconds.
- The day of a timestamp in New York is a parameter (`localDate`).
- The `order by` of a subquery is not an order of the rows of the query.
- `limit 100` of `query.sql` is not modelled: there is no order that says which rows it
  keeps.
-/

namespace FanucDriver.Queries

open FanucDriver.Streams FanucDriver.Lib FanucDriver.Lib.Window FanucDriver.Lib.Transducer

/-! ## The queries -/

/-- A row of `t`: an execution until the next sample. -/
structure IntervalRow where
  machine_id : JString
  execution : JString
  start : ℤ
  stop : ℤ
  duration : ℤ
  deriving DecidableEq

/-- `to_timestamp(start / 1000) as start, to_timestamp(stop / 1000) as stop`, and
`stop - "start" as duration` -/
def intervalRow (x : ExecutionDatum × Int64) : Option IntervalRow := do
  let start ← toTimestamp (x.1.timestamp.toInt.tdiv 1000 : ℤ)
  let stop ← toTimestamp (x.2.toInt.tdiv 1000 : ℤ)
  let duration ← subTimestamp stop start
  some {
    machine_id := x.1.machineId
    execution := x.1.execution
    start := start
    stop := stop
    duration := duration }

/-- `execution = 'ACTIVE' and duration > interval '20 second'` -/
def IntervalRow.counts (row : IntervalRow) : Bool :=
  row.execution = "ACTIVE".toList ∧ 20000000 < row.duration

/-- The rows of `query.sql`. -/
def activeIntervals (o : WindowOrder fun x : ExecutionDatum => x.timestamp.toInt)
    (input : List Sample) : Option (List IntervalRow) := do
  let t := overPartitionIn o (·.machineId) (led (·.timestamp)) (input.filterMap executionOf)
  -- `where stop is not null`
  let rows ← (t.filterMap fun x => x.2.map fun stop => (x.1, stop)).mapM intervalRow
  some (rows.filter IntervalRow.counts)

/-- A row of the query by machine and day. -/
structure DayRow where
  machine_id : JString
  date : ℤ
  sum : ℤ
  deriving DecidableEq

def dayRow (x : (JString × ℤ) × List IntervalRow) : Option DayRow := do
  let sum ← sumIntervals (x.2.map (·.duration))
  some { machine_id := x.1.1, date := x.1.2, sum := sum }

def perMachinePerDay (o : WindowOrder fun x : ExecutionDatum => x.timestamp.toInt)
    (localDate : ℤ → ℤ) (input : List Sample) : Option (List DayRow) := do
  let t ← activeIntervals o input
  let rows ← (groupBy (fun row => (row.machine_id, localDate row.start)) Prod.mk t).mapM dayRow
  some (orderBy (·.date) rows)

/-! ## What it is for -/

/-- Samples with the time to the next one, in whole seconds. -/
def gaps (xs : List ExecutionDatum) : List (ExecutionDatum × ℤ) :=
  List.zipWith (fun x y => (x, seconds y.timestamp - seconds x.timestamp)) xs xs.tail

/-- The time in an execution, between the samples. -/
def timeIn (e : JString) (xs : List ExecutionDatum) : ℤ :=
  (((gaps xs).filter fun g => g.1.execution = e).map (·.2)).sum

/-- The time of the intervals that are too short to count. -/
def shortTime (xs : List ExecutionDatum) : ℤ :=
  (((gaps xs).filter fun g => g.1.execution = "ACTIVE".toList ∧ g.2 ≤ 20000000).map (·.2)).sum

/-- The time from the first sample of the last run to its last one, where it is of `e`. -/
def openTime (e : JString) (runs : List (List ExecutionDatum)) : ℤ :=
  match (firsts runs).getLast?, (lasts runs).getLast? with
  | some first, some last =>
    if first.execution = e then millis last.timestamp - millis first.timestamp else 0
  | _, _ => 0

/-- The durations of an execution that the stream puts out. -/
def streamedTime (e : JString) (xs : List ExecutionWithDurationDatum) : ℤ :=
  ((xs.filter fun x => x.execution = e).map fun x => millis x.duration).sum

/-! ## The rows of a machine -/

/-- The row of `intervalRow`, its columns unchecked. -/
def intervalRowOf (x : ExecutionDatum × Int64) : IntervalRow where
  machine_id := x.1.machineId
  execution := x.1.execution
  start := seconds x.1.timestamp
  stop := seconds x.2
  duration := seconds x.2 - seconds x.1.timestamp

theorem intervalRow_eq (x : ExecutionDatum × Int64) (row : IntervalRow)
    (h : intervalRow x = some row) : row = intervalRowOf x := by
  obtain ⟨start, hstart, h⟩ := Option.bind_eq_some_iff.mp h
  obtain ⟨stop, hstop, h⟩ := Option.bind_eq_some_iff.mp h
  obtain rfl := toTimestamp_seconds hstart
  obtain rfl := toTimestamp_seconds hstop
  exact eq_of_subTimestamp h

/-- The row of `dayRow`, its sum unchecked. -/
def dayRowOf (x : (JString × ℤ) × List IntervalRow) : DayRow where
  machine_id := x.1.1
  date := x.1.2
  sum := (x.2.map (·.duration)).sum

theorem dayRow_eq (x : (JString × ℤ) × List IntervalRow) (row : DayRow)
    (h : dayRow x = some row) : row = dayRowOf x := by
  obtain ⟨s, hs, hrow⟩ := Option.bind_eq_some_iff.mp h
  obtain rfl := sumIntervals_eq hs
  exact (Option.some.inj hrow).symm

/-- What counts of the gaps between samples. -/
def countsGap (g : ExecutionDatum × ℤ) : Bool :=
  g.1.execution = "ACTIVE".toList ∧ 20000000 < g.2

/-- The intervals of a machine are the gaps that count, in window order. -/
theorem filter_intervals {o : WindowOrder fun x : ExecutionDatum => x.timestamp.toInt}
    {input : List Sample} {rows : List IntervalRow} (hquery : activeIntervals o input = some rows)
    (machine : JString) :
    ((rows.filter fun row => row.machine_id = machine).map (·.duration))
      = ((gaps (o.order ((input.filterMap executionOf).filter fun x =>
          x.machineId = machine))).filter countsGap).map (·.2) := by
  obtain ⟨t, ht, hrows⟩ := Option.bind_eq_some_iff.mp hquery
  obtain rfl := Option.some.inj hrows
  obtain rfl := eq_map_of_mapM ht intervalRow_eq
  have hled := filter_overIn o (f := led ExecutionDatum.timestamp)
    (fun x : ExecutionDatum × Option Int64 => x.1.machineId) rfl
    (fun as k has x hx => has x.1 (mem_of_mem_led hx)) (input.filterMap executionOf) machine
  generalize overPartitionIn o (·.machineId) (led (·.timestamp)) (input.filterMap executionOf) = t
    at hled ⊢
  generalize o.order ((input.filterMap executionOf).filter fun x => x.machineId = machine) = xs
    at hled ⊢
  have hpairs := filter_pairs (fun x : ExecutionDatum => x.machineId) hled
  have hgaps : gaps xs = (List.zipWith (fun x y => (x, y.timestamp)) xs xs.tail).map fun z =>
      (z.1, seconds z.2 - seconds z.1.timestamp) := by
    rw [List.map_zipWith]
    rfl
  rw [hgaps, ← hpairs, List.filter_comm, List.filter_map, List.filter_map, List.map_map,
    List.filter_map, List.map_map]
  rfl

/-- The intervals of a machine are the gaps of its history that count. -/
theorem filter_activeIntervals {o : WindowOrder fun x : ExecutionDatum => x.timestamp.toInt}
    {input : List Sample} {rows : List IntervalRow} (hquery : activeIntervals o input = some rows)
    {machine : JString}
    (hdistinct : ((input.filterMap executionOf).filter fun x => x.machineId = machine).Pairwise
      fun x y => x.timestamp ≠ y.timestamp) :
    ((rows.filter fun row => row.machine_id = machine).map (·.duration))
      = ((gaps (historyOf input machine)).filter countsGap).map (·.2) := by
  have horder : o.order ((input.filterMap executionOf).filter fun x => x.machineId = machine)
      = historyOf input machine :=
    o.order_eq (orderBy_perm _ _).symm (historyOf_sorted hdistinct)
  rw [filter_intervals hquery, horder]

/-! ## The answer -/

/-- Gaps of samples in timestamp order are not negative, and together no longer than the
time from the first sample to the last one. -/
theorem sum_gaps_le {xs : List ExecutionDatum} {a b : ℤ}
    (hsorted : xs.Pairwise fun x y => x.timestamp.toInt ≤ y.timestamp.toInt)
    (hin : ∀ x ∈ xs, a ≤ seconds x.timestamp ∧ seconds x.timestamp ≤ b) (hab : a ≤ b) :
    (∀ d ∈ (gaps xs).map (·.2), 0 ≤ d) ∧ ((gaps xs).map (·.2)).sum ≤ b - a := by
  induction xs generalizing a with
  | nil => exact ⟨fun d hd => absurd hd List.not_mem_nil, Int.sub_nonneg_of_le hab⟩
  | cons x xs ih =>
    cases xs with
    | nil => exact ⟨fun d hd => absurd hd List.not_mem_nil, Int.sub_nonneg_of_le hab⟩
    | cons y xs =>
      obtain ⟨hx, hrest⟩ := List.pairwise_cons.mp hsorted
      have hmono : ∀ z ∈ y :: xs, seconds x.timestamp ≤ seconds z.timestamp := fun z hz =>
        seconds_mono (hx z hz)
      have hxy := hmono y List.mem_cons_self
      obtain ⟨hxa, -⟩ := hin x List.mem_cons_self
      have hy := hin y (List.mem_cons_of_mem x List.mem_cons_self)
      -- the rest is from `y` on
      have hlater : ∀ z ∈ y :: xs, seconds y.timestamp ≤ seconds z.timestamp ∧
          seconds z.timestamp ≤ b := by
        intro z hz
        refine ⟨?_, (hin z (List.mem_cons_of_mem x hz)).2⟩
        rcases List.mem_cons.mp hz with rfl | hz
        · exact le_refl _
        · exact seconds_mono ((List.pairwise_cons.mp hrest).1 z hz)
      obtain ⟨hnonneg, hsum⟩ := ih hrest hlater hy.2
      have hgaps : (gaps (x :: y :: xs)).map (·.2)
          = (seconds y.timestamp - seconds x.timestamp) :: (gaps (y :: xs)).map (·.2) := rfl
      rw [hgaps, List.sum_cons]
      refine ⟨List.forall_mem_cons.mpr ⟨?_, hnonneg⟩, ?_⟩
      · omega
      · omega

theorem isSome_intervalRow {x : ExecutionDatum × Int64} (hstart : inReach (seconds x.1.timestamp))
    (hstop : inReach (seconds x.2)) : (intervalRow x).isSome := by
  rw [intervalRow, toTimestamp_eq_seconds hstart.inRange, toTimestamp_eq_seconds hstop.inRange]
  exact isSome_row (hstop.isSome_subTimestamp hstart)

section
variable {o : WindowOrder fun x : ExecutionDatum => x.timestamp.toInt} {localDate : ℤ → ℤ}
  {input : List Sample}

theorem isSome_activeIntervals
    (hreach : ∀ x ∈ input.filterMap executionOf, inReach (seconds x.timestamp)) :
    (activeIntervals o input).isSome := by
  have hrows : (((overPartitionIn o (·.machineId) (led (·.timestamp))
      (input.filterMap executionOf)).filterMap fun x =>
        x.2.map fun stop => (x.1, stop)).mapM intervalRow).isSome := by
    refine isSome_mapM_iff.mpr fun x hx => ?_
    obtain ⟨⟨y, n⟩, hy, hyx⟩ := List.mem_filterMap.mp hx
    obtain ⟨stop, rfl, rfl⟩ := Option.map_eq_some_iff.mp hyx
    obtain ⟨hmem, z, hz, -, rfl, -⟩ := exists_next_of_over o.sorted hy
    exact isSome_intervalRow (hreach y hmem) (hreach z hz)
  obtain ⟨rows, hrows⟩ := Option.isSome_iff_exists.mp hrows
  exact Option.isSome_iff_exists.mpr ⟨_, Option.bind_eq_some_iff.mpr ⟨rows, hrows, rfl⟩⟩

/-- What counts of the intervals of a machine fits in an interval. -/
theorem sum_intervals_le {rows : List IntervalRow} (hquery : activeIntervals o input = some rows)
    (hreach : ∀ x ∈ input.filterMap executionOf, inReach (seconds x.timestamp))
    (machine : JString) :
    (∀ d ∈ (rows.filter fun row => row.machine_id = machine).map (·.duration), 0 ≤ d) ∧
    ((rows.filter fun row => row.machine_id = machine).map (·.duration)).sum
      ≤ 9223372036854775807 := by
  have hin : ∀ x ∈ o.order ((input.filterMap executionOf).filter fun x => x.machineId = machine),
      -210866803200000000 ≤ seconds x.timestamp ∧ seconds x.timestamp ≤ 9000000000000000000 := by
    intro x hx
    have hx := hreach x (List.mem_filter.mp ((o.perm _).mem_iff.mp hx)).1
    exact ⟨hx.1, le_of_lt hx.2⟩
  obtain ⟨hnonneg, hsum⟩ := sum_gaps_le (o.sorted _) hin (by decide)
  have hsub : (((gaps (o.order ((input.filterMap executionOf).filter fun x =>
      x.machineId = machine))).filter countsGap).map (·.2)).Sublist _ :=
    List.filter_sublist.map _
  rw [filter_intervals hquery]
  refine ⟨fun d hd => hnonneg d (hsub.subset hd), ?_⟩
  have := hsub.sum_le_sum hnonneg
  omega

/-- The query answers where the timestamps are in reach. -/
theorem isSome_perMachinePerDay
    (hreach : ∀ x ∈ input.filterMap executionOf, inReach (seconds x.timestamp)) :
    (perMachinePerDay o localDate input).isSome := by
  obtain ⟨t, ht⟩ := Option.isSome_iff_exists.mp (isSome_activeIntervals (o := o) hreach)
  have hdays : ((groupBy (fun row => (row.machine_id, localDate row.start)) Prod.mk t).mapM
      dayRow).isSome := by
    refine isSome_mapM_iff.mpr fun x hx => isSome_row ?_
    obtain ⟨row, -, rfl⟩ := mem_groupBy.mp hx
    obtain ⟨hnonneg, hsum⟩ := sum_intervals_le ht hreach row.machine_id
    -- a day is a part of the machine's intervals
    have hsub : ((t.filter fun row' => (row'.machine_id, localDate row'.start)
          = (row.machine_id, localDate row.start)).map (·.duration)).Sublist
        ((t.filter fun row' => row'.machine_id = row.machine_id).map (·.duration)) :=
      (List.monotone_filter_right t fun row' h => decide_eq_true
        (Prod.mk.inj (of_decide_eq_true h)).1).map _
    exact isSome_sumIntervals (fun d hd => hnonneg d (hsub.subset hd))
      (le_trans (hsub.sum_le_sum hnonneg) hsum)
  obtain ⟨rows, hrows⟩ := Option.isSome_iff_exists.mp hdays
  exact Option.isSome_iff_exists.mpr ⟨_, Option.bind_eq_some_iff.mpr
    ⟨t, ht, Option.bind_eq_some_iff.mpr ⟨rows, hrows, rfl⟩⟩⟩

end

/-! ## The time of runs -/

theorem timeIn_cons_cons (e : JString) (x y : ExecutionDatum) (xs : List ExecutionDatum) :
    timeIn e (x :: y :: xs)
      = (if x.execution = e then seconds y.timestamp - seconds x.timestamp else 0)
        + timeIn e (y :: xs) := by
  unfold timeIn gaps
  show (((((x, seconds y.timestamp - seconds x.timestamp) ::
    List.zipWith _ (y :: xs) (y :: xs).tail)).filter _).map _).sum = _
  rw [List.filter_cons]
  by_cases h : x.execution = e
  · rw [if_pos (decide_eq_true h), if_pos h]
    rfl
  · rw [if_neg (by simpa using h), if_neg h, zero_add]

/-- A run, up to a sample that comes after it. -/
theorem timeIn_run (e : JString) {a : ExecutionDatum} {r : List ExecutionDatum}
    (hr : ∀ x ∈ r, x.execution = a.execution) (b : ExecutionDatum) (as : List ExecutionDatum) :
    timeIn e (a :: (r ++ b :: as))
      = (if a.execution = e then seconds b.timestamp - seconds a.timestamp else 0)
        + timeIn e (b :: as) := by
  induction r generalizing a with
  | nil => exact timeIn_cons_cons e a b as
  | cons c r ih =>
    have hc := hr c List.mem_cons_self
    rw [List.cons_append, timeIn_cons_cons,
      ih fun x hx => (hr x (List.mem_cons_of_mem c hx)).trans hc.symm, hc]
    split <;> omega

/-- A run, up to its last sample. -/
theorem timeIn_last (e : JString) {a : ExecutionDatum} {r : List ExecutionDatum}
    (hr : ∀ x ∈ r, x.execution = a.execution) :
    timeIn e (a :: r)
      = if a.execution = e then
          seconds (r.getLast?.getD a).timestamp - seconds a.timestamp
        else 0 := by
  induction r generalizing a with
  | nil =>
    show (0 : ℤ) = _
    rw [List.getLast?_nil, Option.getD_none, sub_self, ite_self]
  | cons c r ih =>
    have hc := hr c List.mem_cons_self
    rw [timeIn_cons_cons, ih fun x hx => (hr x (List.mem_cons_of_mem c hx)).trans hc.symm, hc,
      List.getLast?_cons, Option.getD_some]
    split <;> omega

/-- **The time in an execution**: what the stream puts out, and the last run. -/
theorem timeIn_runs (e : JString) {rs : List (List ExecutionDatum)} (hne : [] ∉ rs)
    (hsame : ∀ r ∈ rs, ∀ a ∈ r, ∀ b ∈ r, a.execution = b.execution)
    (hwhole : ∀ r ∈ rs, ∀ a ∈ r, seconds a.timestamp = millis a.timestamp)
    (hfits : rs.flatten.Pairwise fun a b =>
      millis (b.timestamp - a.timestamp) = millis b.timestamp - millis a.timestamp) :
    timeIn e rs.flatten
      = streamedTime e (List.zipWith interval (firsts rs) (firsts rs).tail) + openTime e rs := by
  induction rs with
  | nil => rfl
  | cons r rs ih =>
    obtain ⟨a, r, rfl⟩ := List.exists_cons_of_ne_nil
      (show r ≠ [] from fun h => hne (h ▸ List.mem_cons_self))
    have hrest : ∀ b ∈ r, b.execution = a.execution := fun b hb =>
      hsame _ List.mem_cons_self b (List.mem_cons_of_mem a hb) a List.mem_cons_self
    have ha := hwhole _ List.mem_cons_self a List.mem_cons_self
    cases rs with
    | nil =>
      have hlast := getLast?_getD_mem a r
      have hopen : openTime e [a :: r] = if a.execution = e then
          millis (r.getLast?.getD a).timestamp - millis a.timestamp else 0 := by
        unfold openTime
        rw [lasts_cons]
        rfl
      have hflat : [a :: r].flatten = a :: r := by simp
      rw [hflat, timeIn_last e hrest, hopen, ha, hwhole _ List.mem_cons_self _ hlast]
      exact (zero_add _).symm
    | cons q rs =>
      obtain ⟨b, q, rfl⟩ := List.exists_cons_of_ne_nil
        (show q ≠ [] from fun h => hne (h ▸ List.mem_cons_of_mem _ List.mem_cons_self))
      have ih := ih (fun h => hne (List.mem_cons_of_mem _ h))
        (fun q' hq' => hsame q' (List.mem_cons_of_mem _ hq'))
        (fun q' hq' => hwhole q' (List.mem_cons_of_mem _ hq'))
        (List.pairwise_append.mp (List.flatten_cons ▸ hfits)).2.1
      have hb := hwhole _ (List.mem_cons_of_mem _ List.mem_cons_self) b List.mem_cons_self
      have hflat : ((a :: r) :: (b :: q) :: rs).flatten = a :: (r ++ b :: (q ++ rs.flatten)) := by
        simp
      have hduration : millis (interval a b).duration
          = millis b.timestamp - millis a.timestamp := by
        rw [hflat] at hfits
        exact (List.pairwise_cons.mp hfits).1 b (List.mem_append_right r List.mem_cons_self)
      have hstreamed : streamedTime e (List.zipWith interval (firsts ((a :: r) :: (b :: q) :: rs))
            (firsts ((a :: r) :: (b :: q) :: rs)).tail)
          = (if a.execution = e then millis b.timestamp - millis a.timestamp else 0)
            + streamedTime e (List.zipWith interval (firsts ((b :: q) :: rs))
                (firsts ((b :: q) :: rs)).tail) := by
        show streamedTime e (interval a b :: List.zipWith interval (firsts ((b :: q) :: rs))
          (firsts ((b :: q) :: rs)).tail) = _
        unfold streamedTime
        rw [List.filter_cons]
        by_cases h : a.execution = e
        · rw [if_pos (decide_eq_true (show (interval a b).execution = e from h)), if_pos h,
            List.map_cons, List.sum_cons, hduration]
        · have hie : ¬(interval a b).execution = e := h
          rw [if_neg (by simpa using hie), if_neg h, zero_add]
      have hopen : openTime e ((a :: r) :: (b :: q) :: rs) = openTime e ((b :: q) :: rs) := by
        have hfirst : (firsts ((a :: r) :: (b :: q) :: rs)).getLast?
            = (firsts ((b :: q) :: rs)).getLast? := List.getLast?_cons_cons
        have hlast : (lasts ((a :: r) :: (b :: q) :: rs)).getLast?
            = (lasts ((b :: q) :: rs)).getLast? := by
          rw [lasts_cons, lasts_cons]
          exact List.getLast?_cons_cons
        unfold openTime
        rw [hfirst, hlast]
      have hflat' : ((b :: q) :: rs).flatten = b :: (q ++ rs.flatten) := by simp
      rw [hflat, timeIn_run e hrest, hstreamed, hopen, ← hflat', ih, ha, hb]
      omega

/-! ## What the days add up to -/

/-- The active time is what counts and what is too short. -/
theorem timeIn_active (xs : List ExecutionDatum) :
    (((gaps xs).filter countsGap).map (·.2)).sum + shortTime xs = timeIn "ACTIVE".toList xs := by
  unfold shortTime timeIn
  induction gaps xs with
  | nil => rfl
  | cons g gs ih =>
    rw [List.filter_cons, List.filter_cons, List.filter_cons]
    unfold countsGap at ih ⊢
    by_cases hactive : g.1.execution = "ACTIVE".toList
    · rw [if_pos (decide_eq_true hactive), List.map_cons, List.sum_cons, ← ih]
      by_cases hlong : 20000000 < g.2
      · have hnot : ¬(g.1.execution = "ACTIVE".toList ∧ g.2 ≤ 20000000) := by
          intro h
          omega
        rw [if_pos (decide_eq_true ⟨hactive, hlong⟩), if_neg (fun h => hnot (of_decide_eq_true h)),
          List.map_cons, List.sum_cons]
        omega
      · have hshort : g.2 ≤ 20000000 := by omega
        rw [if_neg (fun h => hlong (of_decide_eq_true h).2),
          if_pos (decide_eq_true ⟨hactive, hshort⟩), List.map_cons, List.sum_cons]
        omega
    · rw [if_neg (fun h => hactive (of_decide_eq_true h).1),
        if_neg (fun h => hactive (of_decide_eq_true h).1),
        if_neg (fun h => hactive (of_decide_eq_true h))]
      exact ih

/-- What holds of each of two neighbours holds of all of more than one. -/
theorem pairwise_of_neighbours {P : ExecutionDatum → Prop} {xs : List ExecutionDatum}
    (h : ∀ p ∈ xs.zip xs.tail, P p.1 ∧ P p.2) : xs.Pairwise fun a b => P a ∧ P b := by
  induction xs with
  | nil => exact List.Pairwise.nil
  | cons x xs ih =>
    cases xs with
    | nil => exact List.pairwise_singleton _ x
    | cons y xs =>
      obtain ⟨⟨hx, hy⟩, hrest⟩ := List.forall_mem_cons.mp
        (show ∀ p ∈ (x, y) :: (y :: xs).zip xs, P p.1 ∧ P p.2 from h)
      refine List.pairwise_cons.mpr ⟨List.forall_mem_cons.mpr ⟨⟨hx, hy⟩, fun z hz => ?_⟩, ih hrest⟩
      exact ⟨hx, ((List.pairwise_cons.mp (ih hrest)).1 z hz).2⟩

/-- The timestamps of the intervals of a machine are in range. -/
theorem inRange_of_activeIntervals {o : WindowOrder fun x : ExecutionDatum => x.timestamp.toInt}
    {input : List Sample} {rows : List IntervalRow} (hquery : activeIntervals o input = some rows)
    (machine : JString) :
    (o.order ((input.filterMap executionOf).filter fun x => x.machineId = machine)).Pairwise
      fun a b => inRange (seconds a.timestamp) ∧ inRange (seconds b.timestamp) := by
  obtain ⟨t, ht, -⟩ := Option.bind_eq_some_iff.mp hquery
  have hled := filter_overIn o (f := led ExecutionDatum.timestamp)
    (fun x : ExecutionDatum × Option Int64 => x.1.machineId) rfl
    (fun as k has x hx => has x.1 (mem_of_mem_led hx)) (input.filterMap executionOf) machine
  have hpairs := filter_pairs (fun x : ExecutionDatum => x.machineId) hled
  refine pairwise_of_neighbours fun p hp => ?_
  have hmem : (p.1, p.2.timestamp) ∈ List.zipWith (fun a b : ExecutionDatum => (a, b.timestamp))
      (o.order ((input.filterMap executionOf).filter fun x => x.machineId = machine))
      (o.order ((input.filterMap executionOf).filter fun x => x.machineId = machine)).tail := by
    rw [← List.map_uncurry_zip_eq_zipWith]
    exact List.mem_map_of_mem hp
  rw [← hpairs] at hmem
  obtain ⟨row, hrow⟩ := exists_of_mapM ht _ (List.mem_filter.mp hmem).1
  obtain ⟨start, hstart, hrow⟩ := Option.bind_eq_some_iff.mp hrow
  obtain ⟨stop, hstop, -⟩ := Option.bind_eq_some_iff.mp hrow
  have hstart' := inRange_of_toTimestamp hstart
  have hstop' := inRange_of_toTimestamp hstop
  rw [toTimestamp_seconds hstart] at hstart'
  rw [toTimestamp_seconds hstop] at hstop'
  exact ⟨hstart', hstop'⟩

/-- The rows of a machine, where the query answers. -/
theorem sum_perMachinePerDay {o : WindowOrder fun x : ExecutionDatum => x.timestamp.toInt}
    {localDate : ℤ → ℤ} {input : List Sample} {rows : List DayRow}
    (hquery : perMachinePerDay o localDate input = some rows) {machine : JString}
    (hdistinct : ((input.filterMap executionOf).filter fun x => x.machineId = machine).Pairwise
      fun x y => x.timestamp ≠ y.timestamp)
    (hwhole : ∀ x ∈ historyOf input machine, seconds x.timestamp = millis x.timestamp)
    {runs : List (List ExecutionDatum)}
    (hruns : MaximalRuns ExecutionDatum.execution (historyOf input machine) runs) :
    (rows.Pairwise fun x y => (x.machine_id, x.date) ≠ (y.machine_id, y.date)) ∧
    ((rows.filter fun row => row.machine_id = machine).map (·.sum)).sum
        + shortTime (historyOf input machine)
      = streamedTime "ACTIVE".toList (streamed machine (historyOf input machine))
        + openTime "ACTIVE".toList runs := by
  obtain ⟨t, ht, hquery⟩ := Option.bind_eq_some_iff.mp hquery
  obtain ⟨days, hdays, hrows⟩ := Option.bind_eq_some_iff.mp hquery
  obtain rfl := Option.some.inj hrows
  obtain rfl := eq_map_of_mapM hdays dayRow_eq
  have hperm : (orderBy DayRow.date ((groupBy (fun row : IntervalRow =>
        (row.machine_id, localDate row.start)) Prod.mk t).map dayRowOf)).Perm
      (groupBy (fun row : IntervalRow => (row.machine_id, localDate row.start))
        (fun k as => dayRowOf (k, as)) t) := by
    refine (orderBy_perm DayRow.date _).trans (.of_eq ?_)
    rw [groupBy, List.map_map]
    rfl
  constructor
  · have hkeys : (groupBy (fun row : IntervalRow => (row.machine_id, localDate row.start))
        (fun k as => dayRowOf (k, as)) t).Pairwise
          fun x y => (x.machine_id, x.date) ≠ (y.machine_id, y.date) :=
      groupBy_pairwise fun _ _ _ _ hne => hne
    exact hperm.symm.pairwise hkeys fun h => Ne.symm h
  · have hsum : (((orderBy DayRow.date ((groupBy (fun row : IntervalRow =>
          (row.machine_id, localDate row.start)) Prod.mk t).map dayRowOf)).filter fun row =>
            row.machine_id = machine).map (·.sum)).sum
        = (((gaps (historyOf input machine)).filter countsGap).map (·.2)).sum := by
      rw [((hperm.filter _).map _).sum_eq, ← filter_activeIntervals ht hdistinct]
      refine sum_groupBy_filter (fun row : DayRow => row.machine_id = machine) _
        (fun k as a ha => ?_) (fun k as => rfl) t
      rw [← ha]
      exact Iff.rfl
    -- the durations of the stream do not wrap
    have hrange := inRange_of_activeIntervals ht machine
    rw [o.order_eq (orderBy_perm _ _).symm (historyOf_sorted hdistinct)] at hrange
    have hfits : (historyOf input machine).Pairwise fun a b =>
        millis (b.timestamp - a.timestamp) = millis b.timestamp - millis a.timestamp := by
      refine (List.Pairwise.and_mem.mp hrange).imp ?_
      intro a b h
      obtain ⟨ha, hb, hina, hinb⟩ := h
      exact millis_sub (hwhole a ha ▸ hina) (hwhole b hb ▸ hinb)
    have hstreamed : streamed machine (historyOf input machine) = _ := streamed_eq hruns
    have hflat := timeIn_runs "ACTIVE".toList hruns.nonempty hruns.same (fun r hr a ha =>
      hwhole a (hruns.flatten ▸ List.mem_flatten.mpr ⟨r, hr, ha⟩)) (hruns.flatten.symm ▸ hfits)
    rw [hsum, timeIn_active, hstreamed, ← hflat, hruns.flatten]

/-- **What the days of a machine add up to**, whatever the calendar: the query answers
where the timestamps are in reach, with the active durations of the stream and the last
run, without the intervals that are too short to count. -/
theorem perMachinePerDay_total (o : WindowOrder fun x : ExecutionDatum => x.timestamp.toInt)
    (localDate : ℤ → ℤ) {input : List Sample} {machine : JString}
    (hdistinct : ((input.filterMap executionOf).filter fun x => x.machineId = machine).Pairwise
      fun x y => x.timestamp ≠ y.timestamp)
    (hwhole : ∀ x ∈ historyOf input machine, seconds x.timestamp = millis x.timestamp)
    {runs : List (List ExecutionDatum)}
    (hruns : MaximalRuns ExecutionDatum.execution (historyOf input machine) runs) :
    ((∀ x ∈ input.filterMap executionOf, inReach (seconds x.timestamp)) →
      (perMachinePerDay o localDate input).isSome) ∧
    ∀ rows, perMachinePerDay o localDate input = some rows →
      (rows.Pairwise fun x y => (x.machine_id, x.date) ≠ (y.machine_id, y.date)) ∧
      ((rows.filter fun row => row.machine_id = machine).map (·.sum)).sum
          + shortTime (historyOf input machine)
        = streamedTime "ACTIVE".toList (streamed machine (historyOf input machine))
          + openTime "ACTIVE".toList runs :=
  ⟨isSome_perMachinePerDay, fun _ hquery => sum_perMachinePerDay hquery hdistinct hwhole hruns⟩

/-! ## One machine -/

/-- A machine that is active for 100 seconds, sampled three times, stopped for 30, and then
active again. -/
def busySamples : List Sample :=
  [executionSample (some "ACTIVE") 0, executionSample (some "ACTIVE") 10000,
    executionSample (some "ACTIVE") 40000, executionSample none 50000,
    executionSample (some "STOPPED") 100000, executionSample (some "ACTIVE") 130000,
    executionSample (some "ACTIVE") 160000]

/-- The day has 120 seconds: the first ten are too short to count. -/
def busyDay : List DayRow := [{ machine_id := "lathe".toList, date := 0, sum := 120000000 }]

/-- The stream has 100 seconds, and the machine is active for another 30. -/
theorem perMachinePerDay_total_busy :
    perMachinePerDay (.finer (·.timestamp.toInt) fun _ _ h => h) (· / 86400000000) busySamples
      = some busyDay ∧
    ∃ runs, MaximalRuns ExecutionDatum.execution (historyOf busySamples "lathe".toList) runs ∧
      ((busyDay.filter fun row => row.machine_id = "lathe".toList).map (·.sum)).sum
          + shortTime (historyOf busySamples "lathe".toList)
        = streamedTime "ACTIVE".toList
            (streamed "lathe".toList (historyOf busySamples "lathe".toList))
          + openTime "ACTIVE".toList runs := by
  obtain ⟨runs, hruns⟩ := exists_maximalRuns ExecutionDatum.execution
    (historyOf busySamples "lathe".toList)
  obtain ⟨hanswers, htotal⟩ := perMachinePerDay_total (.finer (·.timestamp.toInt) fun _ _ h => h)
    (· / 86400000000) (by decide) (by decide) hruns
  obtain ⟨rows, hquery⟩ := Option.isSome_iff_exists.mp (hanswers (by decide))
  obtain rfl : rows = busyDay := Option.some.inj (hquery.symm.trans (by decide +kernel))
  exact ⟨hquery, runs, hruns, (htotal _ hquery).2⟩

end FanucDriver.Queries
