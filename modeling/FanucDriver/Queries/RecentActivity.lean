import FanucDriver.Queries.ActiveTime

/-!
# The most recent activity

`query-most-recent-activity.sql` reads the table `execution`, and shows for each machine
the last time it was active for more than 40 seconds.

It orders the samples of a machine by local time, which New York sets back once a year.
`recentActivity_last`: where the clock is not set between the samples of a machine, the
row is the last gap that counts, with its length, and there is none without such a gap.

Mirroring notes:
- `timestamp / 1000` divides integers: it truncates to seconds.
- The local time in New York is a parameter (`localTime`).
- `select distinct on` keeps the first row of each machine, in the order of the query.
- The order of `machine_id` is that of its characters; the database has a collation.
-/

namespace FanucDriver.Queries

open FanucDriver.Streams FanucDriver.Lib FanucDriver.Lib.Window

/-! ## The query -/

/-- `to_timestamp(timestamp / 1000) at time zone 'America/New_York' as "start"` -/
def localRow (localTime : ℤ → ℤ) (x : ExecutionDatum) : Option ExecutionsRow := do
  let timestamp ← toTimestamp (x.timestamp.toInt.tdiv 1000 : ℤ)
  some { machine_id := x.machineId, timestamp := localTime timestamp, execution := x.execution }

/-- A row of the query. -/
structure ActivityRow where
  machine_id : JString
  start : ℤ
  duration : ℤ
  deriving DecidableEq

/-- `"end" - "start" as duration`, of the rows with an `"end"` -/
def activityRow (x : ExecutionsRow × ℤ) : Option (JString × ActivityRow) := do
  let duration ← subTimestamp x.2 x.1.timestamp
  some (x.1.execution, {
    machine_id := x.1.machine_id
    start := x.1.timestamp
    duration := duration })

/-- `execution = 'ACTIVE' and duration > '40 second'` -/
def countsRecent (x : JString × ActivityRow) : Bool :=
  x.1 = "ACTIVE".toList ∧ 40000000 < x.2.duration

def recentActivity (localTime : ℤ → ℤ) (o : WindowOrder ExecutionsRow.timestamp)
    (o' : WindowOrder fun row : ActivityRow => OrderDual.toDual row.start)
    (execution : List ExecutionDatum) : Option (List ActivityRow) := do
  let t ← execution.mapM (localRow localTime)
  let t := overPartitionIn o (·.machine_id) (led (·.timestamp)) t
  -- `where "end" is not null`
  let t ← (t.filterMap fun x => x.2.map fun end_ => (x.1, end_)).mapM activityRow
  let t := (t.filter countsRecent).map Prod.snd
  some (orderBy (·.machine_id) (overPartitionIn o' (·.machine_id) (List.take 1) t))

/-! ## What it is for -/

/-- The samples of a machine in a table, in timestamp order. -/
def samplesOf (execution : List ExecutionDatum) (machine : JString) : List ExecutionDatum :=
  orderBy (·.timestamp.toInt) (execution.filter fun x => x.machineId = machine)

/-- The last gap of active samples that is longer than 40 seconds. -/
def lastActivity (xs : List ExecutionDatum) : Option (ExecutionDatum × ℤ) :=
  ((gaps xs).filter fun g => g.1.execution = "ACTIVE".toList ∧ 40000000 < g.2).getLast?

/-- The row of a gap, at a local time `offset` after the time. -/
def recentRow (offset : ℤ) (g : ExecutionDatum × ℤ) : ActivityRow where
  machine_id := g.1.machineId
  start := seconds g.1.timestamp + offset
  duration := g.2

/-! ## The rows of a machine -/

/-- The row of `localRow`, its timestamp unchecked. -/
def localRowOf (localTime : ℤ → ℤ) (x : ExecutionDatum) : ExecutionsRow where
  machine_id := x.machineId
  timestamp := localTime (seconds x.timestamp)
  execution := x.execution

theorem localRow_eq (localTime : ℤ → ℤ) (x : ExecutionDatum) (row : ExecutionsRow)
    (h : localRow localTime x = some row) : row = localRowOf localTime x := by
  obtain ⟨t, ht, hrow⟩ := Option.bind_eq_some_iff.mp h
  obtain rfl := toTimestamp_seconds ht
  exact (Option.some.inj hrow).symm

/-- The row of `activityRow`, its duration unchecked. -/
def activityRowOf (x : ExecutionsRow × ℤ) : JString × ActivityRow :=
  (x.1.execution, {
    machine_id := x.1.machine_id
    start := x.1.timestamp
    duration := x.2 - x.1.timestamp })

theorem activityRow_eq (x : ExecutionsRow × ℤ) (row : JString × ActivityRow)
    (h : activityRow x = some row) : row = activityRowOf x :=
  eq_of_subTimestamp h

theorem mem_of_mem_gaps {xs : List ExecutionDatum} {g : ExecutionDatum × ℤ} (hg : g ∈ gaps xs) :
    g.1 ∈ xs := by
  induction xs with
  | nil => exact absurd hg List.not_mem_nil
  | cons x xs ih =>
    cases xs with
    | nil => exact absurd hg List.not_mem_nil
    | cons y xs =>
      rcases List.mem_cons.mp hg with rfl | hg
      · exact List.mem_cons_self
      · exact List.mem_cons_of_mem x (ih hg)

/-- Gaps are in the order of their samples. -/
theorem gaps_pairwise {R : ExecutionDatum → ExecutionDatum → Prop} {xs : List ExecutionDatum}
    (h : xs.Pairwise R) : (gaps xs).Pairwise fun g g' => R g.1 g'.1 := by
  induction xs with
  | nil => exact List.Pairwise.nil
  | cons x xs ih =>
    obtain ⟨hx, hxs⟩ := List.pairwise_cons.mp h
    cases xs with
    | nil => exact List.Pairwise.nil
    | cons y xs =>
      exact List.pairwise_cons.mpr ⟨fun g hg => hx g.1 (mem_of_mem_gaps hg), ih hxs⟩

/-- Samples paired with the next one, where the clock is not set. -/
theorem pairs_gaps {localTime : ℤ → ℤ} {offset : ℤ} {xs : List ExecutionDatum}
    (hlocal : ∀ x ∈ xs, localTime (seconds x.timestamp) = seconds x.timestamp + offset) :
    (List.zipWith (fun a b => (a, b.timestamp)) (xs.map (localRowOf localTime))
        (xs.map (localRowOf localTime)).tail).map activityRowOf
      = (gaps xs).map fun g => (g.1.execution, recentRow offset g) := by
  induction xs with
  | nil => rfl
  | cons x xs ih =>
    cases xs with
    | nil => rfl
    | cons y xs =>
      have hx := hlocal x List.mem_cons_self
      have hy := hlocal y (List.mem_cons_of_mem x List.mem_cons_self)
      have hhead : activityRowOf (localRowOf localTime x, (localRowOf localTime y).timestamp)
          = (x.execution, recentRow offset (x, seconds y.timestamp - seconds x.timestamp)) := by
        unfold activityRowOf localRowOf recentRow
        rw [hx, hy, add_sub_add_right_eq_sub]
      have htail := ih fun z hz => hlocal z (List.mem_cons_of_mem x hz)
      exact congrArg₂ List.cons hhead htail

section
variable {localTime : ℤ → ℤ} {o : WindowOrder ExecutionsRow.timestamp} {machine : JString}
  {execution : List ExecutionDatum} {offset : ℤ}

/-- The intervals of a machine by local time are the gaps between its samples, where the
clock is not set. -/
theorem filter_activity
    (hlocal : ∀ x ∈ samplesOf execution machine,
      localTime (seconds x.timestamp) = seconds x.timestamp + offset)
    (hseconds : (samplesOf execution machine).Pairwise fun x y =>
      seconds x.timestamp < seconds y.timestamp) :
    (((((overPartitionIn o (·.machine_id) (led (·.timestamp))
        (execution.map (localRowOf localTime))).filterMap fun x =>
          x.2.map fun end_ => (x.1, end_)).map activityRowOf).filter countsRecent).map
            Prod.snd).filter (fun row => row.machine_id = machine)
      = ((gaps (samplesOf execution machine)).filter fun g =>
          g.1.execution = "ACTIVE".toList ∧ 40000000 < g.2).map (recentRow offset) := by
  have hled := filter_overIn o (f := led ExecutionsRow.timestamp)
    (fun x : ExecutionsRow × Option ℤ => x.1.machine_id) rfl
    (fun as k has x hx => has x.1 (mem_of_mem_led hx)) (execution.map (localRowOf localTime))
    machine
  have horder : o.order ((execution.map (localRowOf localTime)).filter fun row =>
        row.machine_id = machine)
      = (samplesOf execution machine).map (localRowOf localTime) := by
    refine o.order_eq ?_ ?_
    · rw [List.filter_map]
      exact ((orderBy_perm _ _).symm.map _)
    · rw [List.pairwise_map]
      refine (List.Pairwise.and_mem.mp hseconds).imp ?_
      intro x y h
      obtain ⟨hx, hy, hlt⟩ := h
      show localTime _ < localTime _
      rw [hlocal x hx, hlocal y hy]
      omega
  rw [horder] at hled
  generalize overPartitionIn o (·.machine_id) (led (·.timestamp))
    (execution.map (localRowOf localTime)) = t at hled ⊢
  have hpairs := filter_pairs (fun x : ExecutionsRow => x.machine_id) hled
  rw [List.filter_map, List.filter_comm, List.filter_map]
  show (((((t.filterMap fun x => x.2.map fun end_ => (x.1, end_)).filter
    (fun x => x.1.machine_id = machine)).map activityRowOf).filter countsRecent).map Prod.snd) = _
  rw [hpairs, pairs_gaps hlocal, List.filter_map, List.map_map]
  rfl

/-- The query answers where the timestamps are in range, and the local times in reach. -/
theorem isSome_recentActivity
    {o' : WindowOrder fun row : ActivityRow => OrderDual.toDual row.start}
    (hreach : ∀ x ∈ execution, inRange (seconds x.timestamp) ∧
      inReach (localTime (seconds x.timestamp))) :
    (recentActivity localTime o o' execution).isSome := by
  have hlocals : (execution.mapM (localRow localTime)).isSome := by
    refine isSome_mapM_iff.mpr fun x hx => ?_
    rw [localRow, toTimestamp_eq_seconds (hreach x hx).1]
    rfl
  obtain ⟨t, ht⟩ := Option.isSome_iff_exists.mp hlocals
  have hlocal : ∀ row ∈ t, inReach row.timestamp := by
    rw [eq_map_of_mapM ht (localRow_eq localTime)]
    intro row hrow
    obtain ⟨x, hx, rfl⟩ := List.mem_map.mp hrow
    exact (hreach x hx).2
  have hactivities : (((overPartitionIn o (·.machine_id) (led (·.timestamp)) t).filterMap fun x =>
      x.2.map fun end_ => (x.1, end_)).mapM activityRow).isSome := by
    refine isSome_mapM_iff.mpr fun x hx => ?_
    obtain ⟨⟨row, n⟩, hrow, hx⟩ := List.mem_filterMap.mp hx
    obtain ⟨end_, rfl, rfl⟩ := Option.map_eq_some_iff.mp hx
    obtain ⟨hmem, next, hnext, -, rfl, -⟩ := exists_next_of_over o.sorted hrow
    obtain ⟨duration, hduration⟩ := Option.isSome_iff_exists.mp
      ((hlocal next hnext).isSome_subTimestamp (hlocal row hmem))
    unfold activityRow
    rw [hduration]
    rfl
  obtain ⟨activities, hactivities⟩ := Option.isSome_iff_exists.mp hactivities
  exact Option.isSome_iff_exists.mpr ⟨_, Option.bind_eq_some_iff.mpr
    ⟨t, ht, Option.bind_eq_some_iff.mpr ⟨activities, hactivities, rfl⟩⟩⟩

/-- The rows of a machine, where the query answers. -/
theorem filter_recentActivity
    {o' : WindowOrder fun row : ActivityRow => OrderDual.toDual row.start}
    {rows : List ActivityRow} (hquery : recentActivity localTime o o' execution = some rows)
    (hlocal : ∀ x ∈ samplesOf execution machine,
      localTime (seconds x.timestamp) = seconds x.timestamp + offset)
    (hseconds : (samplesOf execution machine).Pairwise fun x y =>
      seconds x.timestamp < seconds y.timestamp) :
    (rows.filter fun row => row.machine_id = machine)
      = ((lastActivity (samplesOf execution machine)).map (recentRow offset)).toList := by
  obtain ⟨t, ht, hquery⟩ := Option.bind_eq_some_iff.mp hquery
  obtain ⟨activities, hactivities, hrows⟩ := Option.bind_eq_some_iff.mp hquery
  obtain rfl := Option.some.inj hrows
  obtain rfl := eq_map_of_mapM ht (localRow_eq localTime)
  obtain rfl := eq_map_of_mapM hactivities activityRow_eq
  have hmachine := filter_activity (o := o) hlocal hseconds
  generalize (((overPartitionIn o (·.machine_id) (led (·.timestamp))
    (execution.map (localRowOf localTime))).filterMap fun x =>
      x.2.map fun end_ => (x.1, end_)).map activityRowOf) = t at hmachine ⊢
  have hfirst := filter_overIn o' (f := List.take 1) (fun row : ActivityRow => row.machine_id) rfl
    (fun as k has x hx => has x (List.mem_of_mem_take hx)) ((t.filter countsRecent).map Prod.snd)
    machine
  have hone : ((overPartitionIn o' (·.machine_id) (List.take 1)
        ((t.filter countsRecent).map Prod.snd)).filter fun row => row.machine_id = machine)
      = ((lastActivity (samplesOf execution machine)).map (recentRow offset)).toList := by
    have hnewest : o'.order (((t.filter countsRecent).map Prod.snd).filter fun row =>
          row.machine_id = machine)
        = (((gaps (samplesOf execution machine)).filter fun g =>
            g.1.execution = "ACTIVE".toList ∧ 40000000 < g.2).map (recentRow offset)).reverse := by
      rw [hmachine]
      refine o'.order_eq (List.reverse_perm _).symm ?_
      rw [List.pairwise_reverse, List.pairwise_map]
      refine ((gaps_pairwise hseconds).filter _).imp fun {g g'} hlt => ?_
      show OrderDual.toDual (seconds g'.1.timestamp + offset)
        < OrderDual.toDual (seconds g.1.timestamp + offset)
      rw [OrderDual.toDual_lt_toDual]
      omega
    rw [hfirst, hnewest]
    unfold lastActivity
    rcases List.eq_nil_or_concat ((gaps (samplesOf execution machine)).filter fun g =>
      g.1.execution = "ACTIVE".toList ∧ 40000000 < g.2) with hnil | ⟨init, g, hconcat⟩
    · rw [hnil]
      rfl
    · rw [hconcat]
      simp
  rw [← hone]
  refine filter_orderBy ?_
  rw [hone]
  cases lastActivity (samplesOf execution machine) with
  | none => exact List.Pairwise.nil
  | some g => exact List.pairwise_singleton _ _

/-- **The most recent activity** of a machine, where the clock is not set between its
samples: the query answers where the times are in reach, with the last gap of more than 40
seconds from an active sample, and no row without one. -/
theorem recentActivity_last (o : WindowOrder ExecutionsRow.timestamp)
    (o' : WindowOrder fun row : ActivityRow => OrderDual.toDual row.start)
    (hlocal : ∀ x ∈ samplesOf execution machine,
      localTime (seconds x.timestamp) = seconds x.timestamp + offset)
    (hseconds : (samplesOf execution machine).Pairwise fun x y =>
      seconds x.timestamp < seconds y.timestamp) :
    ((∀ x ∈ execution, inRange (seconds x.timestamp) ∧
        inReach (localTime (seconds x.timestamp))) →
      (recentActivity localTime o o' execution).isSome) ∧
    ∀ rows, recentActivity localTime o o' execution = some rows →
      (rows.filter fun row => row.machine_id = machine)
        = ((lastActivity (samplesOf execution machine)).map (recentRow offset)).toList :=
  ⟨isSome_recentActivity, fun _ hquery => filter_recentActivity hquery hlocal hseconds⟩

end

/-- A machine that is active for 60 seconds, stopped, and active for 30. -/
def executionTable : List ExecutionDatum :=
  [executionSample (some "STOPPED") 160000, executionSample (some "ACTIVE") 130000,
    executionSample (some "STOPPED") 100000, executionSample (some "ACTIVE") 40000].filterMap
      executionOf

/-- The row of the 60 seconds, five hours west. -/
def recentRows : List ActivityRow :=
  [{ machine_id := "lathe".toList, start := -17960000000, duration := 60000000 }]

theorem recentActivity_last_table :
    recentActivity (· - 18000000000) (.finer (·.timestamp) fun _ _ h => h)
      (.finer (fun row => OrderDual.toDual row.start) fun _ _ h => h) executionTable
      = some recentRows ∧
    (recentRows.filter fun row => row.machine_id = "lathe".toList)
      = ((lastActivity (samplesOf executionTable "lathe".toList)).map
          (recentRow (-18000000000))).toList := by
  obtain ⟨hanswers, hlast⟩ := @recentActivity_last (· - 18000000000) "lathe".toList executionTable
    (-18000000000) (.finer (·.timestamp) fun _ _ h => h)
    (.finer (fun row => OrderDual.toDual row.start) fun _ _ h => h) (by decide) (by decide)
  obtain ⟨rows, hquery⟩ := Option.isSome_iff_exists.mp (hanswers (by decide))
  obtain rfl : rows = recentRows := Option.some.inj (hquery.symm.trans (by decide +kernel))
  exact ⟨hquery, hlast _ hquery⟩

end FanucDriver.Queries
