import FanucDriver.Queries.Distribution
import FanucDriver.Queries.MachineCounts

/-!
# The half hours of `machine_counts`

The view `machine_counts` has a row for each machine and each half hour, with the number of
samples of the machine in it. The last half hour goes up to the current time.

`machineCounts_successive`: its rows are buckets that follow one another, as the queries
over the view take them to be, if the samples are before the current time. A half hour
without samples counts 1, as one with a single sample (`count_halfHour`).

`activityPeriods_view`: so the activity periods of a machine tile the time from the first
hour to the current time.

Mirroring notes:
- `tbl`, which the file does not define, is a table with a column `ts`.
- `count(*)` counts the row that `left join` gives a half hour without samples.
- The second query has the same levels as the first one; `where cond = false` comes before
  `b - a` is computed.
-/

namespace FanucDriver.Queries

open FanucDriver.Streams FanucDriver.Lib FanucDriver.Lib.Window

/-! ## The view -/

/-- `interval '30 minutes'` -/
def halfHour : ℤ := 1800000000

/-- A half hour of a machine: a row of `series cross join ids`. -/
structure HalfHour where
  machine_id : JString
  a : ℤ
  b : ℤ
  deriving DecidableEq

/-- `coalesce(lead(a, 1) over (order by a), CURRENT_TIMESTAMP) as b` -/
def withNext (now : ℤ) (as : List ℤ) : List (ℤ × ℤ) :=
  (led id (orderBy id as)).map fun x => (x.1, x.2.getD now)

def series (tbl : List ℤ) (now : ℤ) : Option (List (ℤ × ℤ)) :=
  match tbl.min?, tbl.max? with
  | some first, some last => (generateSeries (truncHour first) last halfHour).map (withNext now)
  | _, _ => some []

/-- `select distinct on (machine_id) machine_id from "input-avro"` -/
def ids (input : List Sample) : List JString := (input.map (·.machineId)).dedup

/-- `b.machine_id = a.machine_id and a.a <= b.ts and b.ts < a.b` -/
def inHalfHour (a : HalfHour) (b : StampedRow) : Prop :=
  b.machine_id = a.machine_id ∧ a.a ≤ b.timestamp ∧ b.timestamp < a.b

instance : DecidableRel inHalfHour := fun a b => by
  unfold inHalfHour
  infer_instance

/-- `group by a.a, a.b, a.machine_id` with `count(*)` -/
def halfHourCounts : List (HalfHour × Option StampedRow) → List MachineCount :=
  groupBy (fun x => (x.1.a, x.1.b, x.1.machine_id)) fun k group =>
    { machine_id := k.2.2, a := k.1, b := k.2.1, count := group.length }

/-- `series cross join ids` -/
def halfHours (machines : List JString) (series : List (ℤ × ℤ)) : List HalfHour :=
  machines.flatMap fun machine => series.map fun x => ⟨machine, x.1, x.2⟩

/-- The view `machine_counts`. -/
def machineCounts (input : List Sample) (tbl : List ℤ) (now : ℤ) : Option (List MachineCount) := do
  let samples ← input.mapM stamped
  let series ← series tbl now
  let counts := halfHourCounts (leftJoin inHalfHour (halfHours (ids input) series) samples)
  -- `order by a.a, a.machine_id`
  some (orderBy (fun x => toLex (x.a, x.machine_id)) counts)

/-! ## The series -/

/-- Half hours that follow one another, the last one up to the current time. -/
structure Follow (now : ℤ) (xs : List (ℤ × ℤ)) : Prop where
  proper : ∀ x ∈ xs, x.1 < x.2
  next : xs.IsChain fun x y => x.2 = y.1
  last : ∀ x ∈ xs.getLast?, x.2 = now
  strict : xs.Pairwise fun x y => x.1 < y.1

theorem map_fst_withNext (now : ℤ) (as : List ℤ) :
    (withNext now as).map Prod.fst = orderBy id as := by
  rw [withNext, List.map_map]
  exact map_fst_led id _

theorem Follow.cons {now a c d : ℤ} {xs : List (ℤ × ℤ)} (h : Follow now ((c, d) :: xs))
    (hac : a < c) : Follow now ((a, c) :: (c, d) :: xs) where
  proper := List.forall_mem_cons.mpr ⟨hac, h.proper⟩
  next := List.isChain_cons_cons.mpr ⟨rfl, h.next⟩
  last := h.last
  strict := by
    refine List.pairwise_cons.mpr ⟨List.forall_mem_cons.mpr ⟨hac, fun x hx => ?_⟩, h.strict⟩
    exact lt_trans hac ((List.pairwise_cons.mp h.strict).1 x hx)

/-- The ends of increasing starts before the current time. -/
theorem follow_led {now : ℤ} {as : List ℤ} (has : as.Pairwise fun x y => x < y)
    (hnow : ∀ a ∈ as, a < now) : Follow now ((led id as).map fun x => (x.1, x.2.getD now)) := by
  induction as with
  | nil => exact ⟨by simp [led], List.isChain_nil, by simp [led], List.Pairwise.nil⟩
  | cons a as ih =>
    obtain ⟨ha, has⟩ := List.pairwise_cons.mp has
    have hrest := ih has fun x hx => hnow x (List.mem_cons_of_mem a hx)
    cases as with
    | nil =>
      refine ⟨List.forall_mem_singleton.mpr (hnow a List.mem_cons_self), List.isChain_singleton _,
        fun x hx => ?_, List.pairwise_singleton _ _⟩
      obtain rfl := Option.some.inj hx
      rfl
    | cons c as =>
      obtain ⟨d, xs, hxs⟩ : ∃ d xs,
          (led id (c :: as)).map (fun x => (x.1, x.2.getD now)) = (c, d) :: xs := by
        cases as with
        | nil => exact ⟨_, _, rfl⟩
        | cons e as => exact ⟨_, _, rfl⟩
      have hled : (led id (a :: c :: as)).map (fun x => (x.1, x.2.getD now))
          = (a, c) :: (led id (c :: as)).map fun x => (x.1, x.2.getD now) := rfl
      rw [hled, hxs]
      exact (hxs ▸ hrest).cons (ha c List.mem_cons_self)

/-- The half hours of `series`, where the samples are before the current time. -/
theorem follow_series {tbl : List ℤ} {now : ℤ} {xs : List (ℤ × ℤ)}
    (h : series tbl now = some xs) (hnow : ∀ ts ∈ tbl, ts < now) : Follow now xs := by
  unfold series at h
  split at h
  next first last hfirst hlast =>
    obtain ⟨as, has, rfl⟩ := Option.map_eq_some_iff.mp h
    have hstrict := generateSeries_strict has (by decide)
    unfold withNext
    rw [orderBy_of_sorted (t := id) (hstrict.imp le_of_lt)]
    refine follow_led hstrict fun a ha => ?_
    have hle := (mem_generateSeries has (by decide) ha).2
    have hlt := hnow last (List.max?_eq_some_iff.mp hlast).1
    omega
  next =>
    obtain rfl := Option.some.inj h
    exact ⟨by simp, List.isChain_nil, by simp, List.Pairwise.nil⟩

/-- The series starts with the hour of the first sample. -/
theorem head_series {tbl : List ℤ} {now first : ℤ} {xs : List (ℤ × ℤ)}
    (h : series tbl now = some xs) (hfirst : tbl.min? = some first) :
    xs.head?.map Prod.fst = some (truncHour first) := by
  unfold series at h
  obtain ⟨last, hlast⟩ := Option.isSome_iff_exists.mp
    (List.isSome_max?_of_mem (List.min?_eq_some_iff.mp hfirst).1)
  rw [hfirst, hlast] at h
  obtain ⟨as, has, rfl⟩ := Option.map_eq_some_iff.mp h
  have hle := (List.max?_eq_some_iff.mp hlast).2 first (List.min?_eq_some_iff.mp hfirst).1
  have hhour := truncHour_le first
  have hstrict := generateSeries_strict has (by decide)
  rw [← List.head?_map, map_fst_withNext, orderBy_of_sorted (t := id) (hstrict.imp le_of_lt)]
  exact generateSeries_head has (by decide) (by omega)

/-! ## The rows of the view -/

/-- The row of a half hour. -/
def countOf (samples : List StampedRow) (machine : JString) (x : ℤ × ℤ) : MachineCount where
  machine_id := machine
  a := x.1
  b := x.2
  count := (leftJoined inHalfHour samples ⟨machine, x.1, x.2⟩).length

/-- The half hours of a machine. -/
theorem filter_halfHours {machines : List JString} (hnodup : machines.Nodup)
    (series : List (ℤ × ℤ)) (machine : JString) :
    (halfHours machines series).filter (fun x => x.machine_id = machine)
      = (if machine ∈ machines then series else []).map fun x => ⟨machine, x.1, x.2⟩ := by
  have hmachine : ∀ m ∈ machines, ∀ x ∈ series.map fun x => (⟨m, x.1, x.2⟩ : HalfHour),
      x.machine_id = m := by
    intro m _ x hx
    obtain ⟨y, -, rfl⟩ := List.mem_map.mp hx
    rfl
  unfold halfHours
  split
  next h => exact filter_flatMap_of_mem id hnodup hmachine h
  next h => exact filter_flatMap_of_notMem id hmachine fun m hm heq => h (heq ▸ hm)

/-- The rows of a machine: one for each half hour. -/
theorem filter_halfHourCounts {machines : List JString} (hnodup : machines.Nodup)
    {series : List (ℤ × ℤ)} (hseries : series.Pairwise fun x y => x.1 < y.1)
    (samples : List StampedRow) (machine : JString) :
    ((halfHourCounts (leftJoin inHalfHour (halfHours machines series) samples)).filter
        fun x => x.machine_id = machine).Perm
      ((if machine ∈ machines then series else []).map (countOf samples machine)) := by
  have hown : (if machine ∈ machines then series else []).Pairwise fun x y => x.1 < y.1 := by
    split
    · exact hseries
    · exact List.Pairwise.nil
  have hjoin : (leftJoin inHalfHour (halfHours machines series) samples).filter
        (fun x => x.1.machine_id = machine)
      = (if machine ∈ machines then series else []).flatMap fun x =>
          leftJoined inHalfHour samples ⟨machine, x.1, x.2⟩ := by
    rw [filter_leftJoin (fun x : HalfHour => decide (x.machine_id = machine)),
      filter_halfHours hnodup]
    exact List.flatMap_map ..
  refine filter_groupBy_perm MachineCount.machine_id (fun k => k.2.2) (fun _ _ => rfl)
    (fun x : ℤ × ℤ => (x.1, x.2, machine)) hjoin ?_ ?_ ?_
  · intro x _ y hy
    rw [fst_of_mem_leftJoined hy]
  · refine hown.imp fun hlt heq => ?_
    exact ne_of_lt hlt (Prod.mk.inj heq).1
  · intro x _ hnil
    rw [← List.length_eq_zero_iff, length_leftJoined] at hnil
    omega

/-- The rows of the view, machine by machine. -/
theorem filter_machineCounts {input : List Sample} {tbl : List ℤ} {now : ℤ}
    {rows : List MachineCount} (h : machineCounts input tbl now = some rows)
    (hnow : ∀ ts ∈ tbl, ts < now) (machine : JString) :
    ∃ xs, series tbl now = some xs ∧ Follow now xs ∧
      (rows.filter fun x => x.machine_id = machine).Perm
        ((if machine ∈ ids input then xs else []).map
          (countOf (input.map stampedOf) machine)) := by
  obtain ⟨samples, hsamples, h⟩ := Option.bind_eq_some_iff.mp h
  obtain ⟨xs, hxs, h⟩ := Option.bind_eq_some_iff.mp h
  obtain rfl := Option.some.inj h
  obtain rfl := eq_map_of_mapM hsamples stamped_eq
  have hfollow := follow_series hxs hnow
  refine ⟨xs, hxs, hfollow, ((orderBy_perm _ _).filter _).trans ?_⟩
  exact filter_halfHourCounts (List.nodup_dedup _) hfollow.strict _ machine

theorem Follow.successive {now : ℤ} {xs : List (ℤ × ℤ)} (h : Follow now xs)
    (samples : List StampedRow) (machine : JString) :
    Successive now (xs.map (countOf samples machine)) := by
  refine ⟨List.forall_mem_map.mpr h.proper, List.isChain_map _ |>.mpr h.next, fun x hx => ?_⟩
  rw [List.getLast?_map] at hx
  obtain ⟨y, hy, rfl⟩ := Option.map_eq_some_iff.mp hx
  exact h.last y hy

/-- **The rows of a machine follow one another**, up to the current time. -/
theorem machineCounts_successive {input : List Sample} {tbl : List ℤ} {now : ℤ}
    {rows : List MachineCount} (h : machineCounts input tbl now = some rows)
    (hnow : ∀ ts ∈ tbl, ts < now) (machine : JString) :
    ∃ bs, (rows.filter fun x => x.machine_id = machine).Perm bs ∧ Successive now bs := by
  obtain ⟨xs, -, hxs, hperm⟩ := filter_machineCounts h hnow machine
  have hown : Follow now (if machine ∈ ids input then xs else []) := by
    split
    · exact hxs
    · exact ⟨by simp, List.isChain_nil, by simp, List.Pairwise.nil⟩
  exact ⟨_, hperm, hown.successive _ machine⟩

/-- The view, where the samples are before the current time. -/
def MachineCounts.ofView {input : List Sample} {tbl : List ℤ} {now : ℤ}
    {rows : List MachineCount} (h : machineCounts input tbl now = some rows)
    (hnow : ∀ ts ∈ tbl, ts < now) : MachineCounts now where
  rows := rows
  successive := machineCounts_successive h hnow

/-- **What is counted**: the samples of the machine in the half hour, and 1 where there are
none. -/
theorem count_halfHour {input : List Sample} {tbl : List ℤ} {now : ℤ}
    {rows : List MachineCount} (h : machineCounts input tbl now = some rows)
    (hnow : ∀ ts ∈ tbl, ts < now) {x : MachineCount} (hx : x ∈ rows) :
    x.count = max 1
      ((timestampsOf input x.machine_id).filter fun t => x.a ≤ t ∧ t < x.b).length := by
  obtain ⟨xs, -, -, hperm⟩ := filter_machineCounts h hnow x.machine_id
  have hmem := hperm.mem_iff.mp (List.mem_filter.mpr ⟨hx, decide_eq_true rfl⟩)
  obtain ⟨y, -, hy⟩ := List.mem_map.mp hmem
  have hsamples : ((input.map stampedOf).filter fun s =>
        inHalfHour ⟨x.machine_id, x.a, x.b⟩ s).length
      = ((timestampsOf input x.machine_id).filter fun t => x.a ≤ t ∧ t < x.b).length := by
    rw [← List.countP_eq_length_filter, ← List.countP_eq_length_filter, List.countP_map,
      timestampsOf, List.countP_map, List.countP_filter]
    refine List.countP_congr fun s _ => ?_
    simp only [Function.comp_apply, decide_eq_true_eq, Bool.and_eq_true]
    exact and_comm
  rw [← hsamples, ← length_leftJoined, ← hy]
  rfl

/-- A sample of the lathe at 0:10 and one of the mill at 0:40, at 0:50: a half hour with a
sample counts as much as one without. -/
example : machineCounts [activitySample "lathe" 600000, activitySample "mill" 2400000]
      [600000000, 2400000000] 3000000000
    = some [machineCount "lathe" 0 1800000000 1, machineCount "mill" 0 1800000000 1,
        machineCount "lathe" 1800000000 3000000000 1,
        machineCount "mill" 1800000000 3000000000 1] := by
  decide +kernel

/-- **The activity periods over the view** tile the time from the first hour to the current
time, for every machine that has samples. -/
theorem activityPeriods_view {input : List Sample} {tbl : List ℤ} {now first : ℤ}
    {rows : List MachineCount} {periods : List Period}
    (hview : machineCounts input tbl now = some rows) (hnow : ∀ ts ∈ tbl, ts < now)
    (hquery : activityPeriods rows = some periods) (hfirst : tbl.min? = some first)
    {machine : JString} (hmachine : machine ∈ ids input) :
    TilesAlternating (rows.filter fun x => x.machine_id = machine)
        (periods.filter fun x => x.machine_id = machine) ∧
      (periods.filter fun x => x.machine_id = machine).head?.map (·.a)
        = some (truncHour first) ∧
      (periods.filter fun x => x.machine_id = machine).getLast?.map (·.b) = some now := by
  have htiles := tiles_activityPeriods (.ofView hview hnow) hquery machine
  obtain ⟨xs, hxs, hfollow, hperm⟩ := filter_machineCounts hview hnow machine
  rw [if_pos hmachine] at hperm
  have hhead := head_series hxs hfirst
  have hbs := hfollow.successive (input.map stampedOf) machine
  have hstarts := hbs.increasing.imp fun h => le_of_lt h.1
  refine ⟨htiles, htiles.first.trans ?_, htiles.last.trans ?_⟩
  · refine (min?_of_perm hperm hstarts).trans ?_
    rw [List.head?_map, Option.map_map]
    exact hhead
  · refine (max?_of_perm hperm hbs.ends).trans ?_
    rw [List.getLast?_map, Option.map_map]
    cases hlast : xs.getLast? with
    | none =>
      rw [List.getLast?_eq_none_iff.mp hlast] at hhead
      exact absurd hhead.symm (Option.some_ne_none _)
    | some x => exact congrArg some (hfollow.last x hlast)

/-! ## Periods with sufficient samples -/

/-- The second query over the view. -/
def sufficientPeriods (counts : List MachineCount) : Option (List Period) := do
  let periods ← ((periodRows (summedRows counts)).filter fun x => x.cond = false).mapM withDiff
  -- `order by a asc, machine_id`
  some (orderBy (fun x => toLex (x.a, x.machine_id)) periods)

/-- It has the rows of the first query where `cond` is false. -/
theorem sufficientPeriods_perm {counts : List MachineCount} {rows : List Period}
    (h : activityPeriods counts = some rows) :
    ∃ rows', sufficientPeriods counts = some rows' ∧
      rows'.Perm (rows.filter fun x => x.cond = false) := by
  obtain ⟨periods, hperiods, hrows⟩ := Option.bind_eq_some_iff.mp h
  obtain rfl := Option.some.inj hrows
  have hsome : (((periodRows (summedRows counts)).filter fun x => x.cond = false).mapM
      withDiff).isSome := by
    refine isSome_mapM_iff.mpr fun x hx => ?_
    obtain ⟨row, hrow⟩ := exists_of_mapM hperiods x (List.mem_filter.mp hx).1
    exact Option.isSome_iff_exists.mpr ⟨row, hrow⟩
  obtain ⟨sufficient, hsufficient⟩ := Option.isSome_iff_exists.mp hsome
  refine ⟨_, Option.bind_eq_some_iff.mpr ⟨sufficient, hsufficient, rfl⟩, ?_⟩
  rw [eq_map_of_mapM hsufficient withDiff_eq, eq_map_of_mapM hperiods withDiff_eq]
  refine (orderBy_perm _ _).trans (List.Perm.trans ?_ ((orderBy_perm _ _).filter _).symm)
  rw [List.filter_map]
  exact List.Perm.refl _

/-- **Half hours with sufficient samples**: one with 1000 samples lies in exactly one row of
its machine, the others in none. -/
theorem sufficientPeriods_once {now : ℤ} (counts : MachineCounts now) {rows rows' : List Period}
    (h : activityPeriods counts.rows = some rows)
    (h' : sufficientPeriods counts.rows = some rows') {x : MachineCount} (hx : x ∈ counts.rows) :
    (rows'.filter fun row => row.machine_id = x.machine_id ∧ row.a ≤ x.a ∧ x.b ≤ row.b).length
      = if x.count < 1000 then 0 else 1 := by
  obtain ⟨rows'', hrows'', hperm⟩ := sufficientPeriods_perm h
  obtain rfl := Option.some.inj (h'.symm.trans hrows'')
  have htiles := tiles_activityPeriods counts h x.machine_id
  have hbucket : x ∈ counts.rows.filter fun y => y.machine_id = x.machine_id :=
    List.mem_filter.mpr ⟨hx, decide_eq_true rfl⟩
  -- the row of the first query that has the half hour
  obtain ⟨row, hrow⟩ := List.length_eq_one_iff.mp (htiles.once x hbucket)
  have hmem : row ∈ (rows.filter fun row => row.machine_id = x.machine_id).filter fun row =>
      row.a ≤ x.a ∧ x.b ≤ row.b := hrow ▸ List.mem_singleton_self row
  obtain ⟨hown, hin⟩ := List.mem_filter.mp hmem
  obtain ⟨ha, hb⟩ := of_decide_eq_true hin
  have hcond := htiles.cond x hbucket row hown ha hb
  have hfilter : (rows.filter fun row => row.cond = false).filter (fun row =>
        row.machine_id = x.machine_id ∧ row.a ≤ x.a ∧ x.b ≤ row.b)
      = [row].filter fun row => row.cond = false := by
    rw [← hrow, List.filter_filter, List.filter_filter, List.filter_filter]
    refine List.filter_congr fun y _ => ?_
    by_cases hm : y.machine_id = x.machine_id <;> simp [hm, Bool.and_comm]
  rw [(hperm.filter _).length_eq, hfilter]
  by_cases hcount : x.count < 1000
  · simp [hcond, hcount]
  · simp [hcond, hcount]

end FanucDriver.Queries
