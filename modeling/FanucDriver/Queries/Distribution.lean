import FanucDriver.Lib.Buckets
import FanucDriver.Queries.ActivityPeriods

/-!
# The execution distribution

`query-execution-distribution.sql` and the function `dist` of
`query-execution-distribution-totals.sql` cut the time of executions into buckets: they
join each bucket with the executions that have time in it, and take the part of the
execution inside the bucket.

An execution that starts on the boundary of a bucket is not joined with this bucket
(`joinOn_iff`): each of the three cases of the condition compares the two with `<` or
`>`. So the parts of an execution add up to it if and only if it does not start on a
boundary (`distributed_conserves_iff`).

Mirroring notes:
- `distributed` is the subquery `t`, which both have. It keeps the execution of a row,
  of which the subquery selects the machine and the state.
- `generate_series` steps once past its last value, so the end of every bucket is
  computed.
- An aggregate of no rows is null, and there is no series from null.
-/

namespace FanucDriver.Queries

open FanucDriver.Streams FanucDriver.Lib FanucDriver.Lib.Window

/-! ## The query -/

/-- A row of `executions`. -/
structure Execution where
  machine_id : JString
  execution : JString
  start : ℤ
  end_ : ℤ
  proper : start < end_
  deriving DecidableEq

/-- A row of `t`. -/
structure DistributionRow where
  a : Execution
  b : ℤ
  d : ℤ
  deriving DecidableEq

/-- `inner join executions a on (…)`, for the bucket from `b` to `b'` -/
def joinOn (b : ℤ × ℤ) (a : Execution) : Prop :=
  (a.end_ > b.1 ∧ a.start < b.1) ∨
  (a.start > b.1 ∧ a.end_ < b.2) ∨
  (a.start > b.1 ∧ a.start < b.2)

instance : DecidableRel joinOn := fun b a => by
  unfold joinOn
  infer_instance

/-- `select date_trunc('hour', min("start")) from executions` -/
def firstHour (executions : List Execution) : Option ℤ :=
  (executions.map (·.start)).min?.map truncHour

/-- `generate_series(…) b`, each `b` with `b + dist` -/
def buckets (executions : List Execution) (dist : ℤ) : Option (List (ℤ × ℤ)) :=
  match firstHour executions, (executions.map (·.end_)).max? with
  | some s, some e => do
    let bs ← generateSeries s e dist
    bs.mapM fun b => (addInterval b dist).map fun b' => (b, b')
  | _, _ => some []

/-- `least(b + dist, "end") - greatest(b, "start") as d` -/
def distributionRow (x : (ℤ × ℤ) × Execution) : Option DistributionRow := do
  let d ← subTimestamp (min x.1.2 x.2.end_) (max x.1.1 x.2.start)
  some { a := x.2, b := x.1.1, d := d }

def distributed (executions : List Execution) (dist : ℤ) : Option (List DistributionRow) := do
  let bs ← buckets executions dist
  (innerJoin joinOn bs executions).mapM distributionRow

/-! ## What it is for -/

/-- The rows cut the time of an execution into positive parts. -/
structure ConservesTime (rows : List DistributionRow) (e : Execution) : Prop where
  positive : ∀ row ∈ rows, row.a = e → 0 < row.d
  total : ((rows.filter fun row => row.a = e).map (·.d)).sum = e.end_ - e.start

/-- The rows join an execution with the buckets that overlap it. -/
def JoinsOverlapping (bs : List (ℤ × ℤ)) (rows : List DistributionRow) (e : Execution) : Prop :=
  (rows.filter fun row => row.a = e).map (·.b)
    = (bs.filter fun b => Overlaps e.start e.end_ b.1 b.2).map Prod.fst

/-- The execution starts on the boundary of a bucket. -/
def StartsOnBoundary (executions : List Execution) (dist : ℤ) (e : Execution) : Prop :=
  ∃ s ∈ firstHour executions, dist ∣ e.start - s

/-! ## The buckets -/

/-- The `i`-th boundary. -/
def boundary (s dist : ℤ) (i : ℕ) : ℤ := s + i * dist

theorem boundary_succ (s dist : ℤ) (i : ℕ) :
    boundary s dist i + dist = boundary s dist (i + 1) := by
  unfold boundary
  push_cast
  ring

theorem boundary_lt_succ (s : ℤ) {dist : ℤ} (hdist : 0 < dist) (i : ℕ) :
    boundary s dist i < boundary s dist (i + 1) := by
  rw [← boundary_succ]
  omega

theorem boundary_injective (s : ℤ) {dist : ℤ} (hdist : 0 < dist) :
    Function.Injective (boundary s dist) :=
  (strictMono_nat_of_lt_succ (boundary_lt_succ s hdist)).injective

theorem truncHour_le (t : ℤ) : truncHour t ≤ t := by
  unfold truncHour
  omega

/-- The bucket of an index. -/
def bucketAtIndex (s dist : ℤ) (i : ℕ) : ℤ × ℤ := (boundary s dist i, boundary s dist (i + 1))

theorem mapM_ends {dist : ℤ} {series : List ℤ} {bs : List (ℤ × ℤ)}
    (h : series.mapM (fun b => (addInterval b dist).map fun b' => (b, b')) = some bs) :
    bs = series.map fun b => (b, b + dist) :=
  eq_map_of_mapM h fun b x hx => by
    obtain ⟨b', hb', rfl⟩ := Option.map_eq_some_iff.mp hx
    rw [addInterval_eq hb']

/-- The buckets reach over every execution. -/
theorem exists_buckets {executions : List Execution} {dist : ℤ} {bs : List (ℤ × ℤ)}
    (hbs : buckets executions dist = some bs) (hdist : 0 < dist) {e : Execution}
    (he : e ∈ executions) :
    ∃ s n, firstHour executions = some s ∧ bs = (List.range n).map (bucketAtIndex s dist) ∧
      boundary s dist 0 ≤ e.start ∧ e.end_ ≤ boundary s dist n := by
  obtain ⟨first, hfirst⟩ := Option.isSome_iff_exists.mp
    (List.isSome_min?_of_mem (List.mem_map_of_mem (f := (·.start)) he))
  obtain ⟨last, hlast⟩ := Option.isSome_iff_exists.mp
    (List.isSome_max?_of_mem (List.mem_map_of_mem (f := (·.end_)) he))
  have hfirstHour : firstHour executions = some (truncHour first) := by
    unfold firstHour
    rw [hfirst, Option.map_some]
  have hstart : first ≤ e.start :=
    (List.min?_eq_some_iff.mp hfirst).2 _ (List.mem_map_of_mem (f := (·.start)) he)
  have hend : e.end_ ≤ last :=
    (List.max?_eq_some_iff.mp hlast).2 _ (List.mem_map_of_mem (f := (·.end_)) he)
  unfold buckets at hbs
  rw [hfirstHour, hlast] at hbs
  obtain ⟨series, hseries, hmap⟩ := Option.bind_eq_some_iff.mp hbs
  unfold generateSeries at hseries
  rw [if_neg (ne_of_gt hdist)] at hseries
  obtain rfl := Option.some.inj hseries
  refine ⟨truncHour first, ((last - truncHour first).fdiv dist + 1).toNat, hfirstHour,
    (mapM_ends hmap).trans ?_, ?_, ?_⟩
  · rw [List.map_map]
    refine List.map_congr_left fun i _ => ?_
    exact congrArg (Prod.mk _) (boundary_succ _ dist i)
  · have hle := truncHour_le first
    unfold boundary
    omega
  · have hle := truncHour_le first
    have hproper := e.proper
    have hlt := Int.lt_ediv_add_one_mul_self (last - truncHour first) hdist
    rw [Int.fdiv_eq_ediv_of_nonneg _ (le_of_lt hdist)]
    have hnonneg : 0 ≤ (last - truncHour first) / dist :=
      Int.ediv_nonneg (by omega) (le_of_lt hdist)
    unfold boundary
    rw [Int.toNat_of_nonneg (by omega)]
    omega

/-! ## One execution -/

theorem joinOn_iff {b : ℤ × ℤ} (hb : b.1 < b.2) (a : Execution) :
    joinOn b a ↔ Overlaps a.start a.end_ b.1 b.2 ∧ b.1 ≠ a.start := by
  have hproper := a.proper
  unfold joinOn Overlaps
  omega

/-- The row of a bucket and an execution, its interval unchecked. -/
def rowAt (x : (ℤ × ℤ) × Execution) : DistributionRow where
  a := x.2
  b := x.1.1
  d := part x.2.start x.2.end_ x.1.1 x.1.2

theorem distributionRow_eq (x : (ℤ × ℤ) × Execution) (row : DistributionRow)
    (h : distributionRow x = some row) : row = rowAt x :=
  eq_of_subTimestamp h

section
variable {executions : List Execution} {dist s : ℤ} {n : ℕ} {rows : List DistributionRow}
  {e : Execution}

/-- The rows of an execution, from the buckets it is joined with. -/
theorem filter_rows (hset : executions.Nodup) (he : e ∈ executions)
    (hrows : rows
      = (innerJoin joinOn ((List.range n).map (bucketAtIndex s dist)) executions).map rowAt) :
    rows.filter (fun row => row.a = e)
      = ((List.range n).filter fun i => joinOn (bucketAtIndex s dist i) e).map fun i =>
          rowAt (bucketAtIndex s dist i, e) := by
  rw [hrows, List.filter_map]
  show ((innerJoin joinOn _ executions).filter (fun x => x.2 = e)).map rowAt = _
  rw [filter_innerJoin hset he, List.filter_map, List.map_map, List.map_map]
  rfl

variable (hrows : rows.filter (fun row => row.a = e)
    = ((List.range n).filter fun i => joinOn (bucketAtIndex s dist i) e).map fun i =>
        rowAt (bucketAtIndex s dist i, e))
include hrows

/-- An execution keeps its time where it is joined with the buckets that overlap it. -/
theorem conservesTime_iff_joinOn (hdist : 0 < dist) (hfirst : boundary s dist 0 ≤ e.start)
    (hlast : e.end_ ≤ boundary s dist n) :
    ConservesTime rows e ↔ ∀ i < n, joinOn (bucketAtIndex s dist i) e ↔
      Overlaps e.start e.end_ (boundary s dist i) (boundary s dist (i + 1)) := by
  rw [← sum_selected_eq_iff (boundary_lt_succ s hdist) e.proper hfirst hlast]
  have hsum : ((rows.filter fun row => row.a = e).map (·.d)).sum
      = ∑ i ∈ Finset.range n with joinOn (bucketAtIndex s dist i) e,
          part e.start e.end_ (boundary s dist i) (boundary s dist (i + 1)) := by
    have hselected : ((List.range n).filter fun i => joinOn (bucketAtIndex s dist i) e).toFinset
        = {i ∈ Finset.range n | joinOn (bucketAtIndex s dist i) e} := by
      ext i
      simp
    rw [hrows, List.map_map, ← hselected, List.sum_toFinset _ (List.nodup_range.filter _)]
    rfl
  constructor
  · intro h
    obtain ⟨hpositive, htotal⟩ := h
    refine ⟨fun i hi hjoin => ?_, hsum.symm.trans htotal⟩
    have hmem : rowAt (bucketAtIndex s dist i, e) ∈ rows.filter fun row => row.a = e := by
      rw [hrows]
      exact List.mem_map_of_mem
        (List.mem_filter.mpr ⟨List.mem_range.mpr hi, decide_eq_true hjoin⟩)
    exact hpositive _ (List.mem_filter.mp hmem).1 rfl
  · intro h
    obtain ⟨hpositive, htotal⟩ := h
    refine ⟨fun row hrow hae => ?_, hsum.trans htotal⟩
    have hmem : row ∈ rows.filter fun row => row.a = e :=
      List.mem_filter.mpr ⟨hrow, decide_eq_true hae⟩
    rw [hrows] at hmem
    obtain ⟨i, hi, rfl⟩ := List.mem_map.mp hmem
    obtain ⟨hi, hjoin⟩ := List.mem_filter.mp hi
    exact hpositive i (List.mem_range.mp hi) (of_decide_eq_true hjoin)

theorem joinsOverlapping_iff_joinOn (hdist : 0 < dist) :
    JoinsOverlapping ((List.range n).map (bucketAtIndex s dist)) rows e ↔
      ∀ i < n, joinOn (bucketAtIndex s dist i) e ↔
        Overlaps e.start e.end_ (boundary s dist i) (boundary s dist (i + 1)) := by
  unfold JoinsOverlapping
  rw [hrows, List.filter_map, List.map_map, List.map_map]
  constructor
  · intro heq i hi
    -- a boundary is the first one of a single bucket
    have hmem := Iff.of_eq (congrArg (boundary s dist i ∈ ·) heq)
    have hinj := fun j => (boundary_injective s hdist).eq_iff (a := j) (b := i)
    exact decide_eq_decide.mp (by simpa [bucketAtIndex, rowAt, hinj, hi] using hmem)
  · intro hjoin
    refine congrArg (List.map fun i => boundary s dist i) (List.filter_congr fun i hi => ?_)
    exact decide_eq_decide.mpr (hjoin i (List.mem_range.mp hi))

omit hrows in
/-- The condition of the join misses the bucket on whose boundary an execution starts,
and no other. -/
theorem joinOn_iff_overlaps_iff (hdist : 0 < dist) (hfirst : boundary s dist 0 ≤ e.start)
    (hlast : e.end_ ≤ boundary s dist n) :
    (∀ i < n, joinOn (bucketAtIndex s dist i) e ↔
      Overlaps e.start e.end_ (boundary s dist i) (boundary s dist (i + 1))) ↔
      ¬dist ∣ e.start - s := by
  have hmono := strictMono_nat_of_lt_succ (boundary_lt_succ s hdist)
  have hproper := e.proper
  constructor
  · intro hjoin h
    obtain ⟨k, hk⟩ := h
    have hnonneg : 0 ≤ k := by
      unfold boundary at hfirst
      by_contra hneg
      have := Int.mul_neg_of_pos_of_neg hdist (not_le.mp hneg)
      omega
    obtain ⟨i, rfl⟩ := Int.eq_ofNat_of_zero_le hnonneg
    have hi : boundary s dist i = e.start := by
      unfold boundary
      rw [mul_comm]
      omega
    have hin : i < n := hmono.lt_iff_lt.mp (by omega)
    have hover : Overlaps e.start e.end_ (boundary s dist i) (boundary s dist (i + 1)) :=
      ⟨hi ▸ hmono (Nat.lt_succ_self i), by omega⟩
    exact ((joinOn_iff (hmono (Nat.lt_succ_self i)) e).mp ((hjoin i hin).mpr hover)).2 hi
  · intro hstart i _
    rw [joinOn_iff (hmono (Nat.lt_succ_self i)) e]
    refine and_iff_left fun hi => hstart ⟨i, ?_⟩
    have hi : boundary s dist i = e.start := hi
    unfold boundary at hi
    rw [mul_comm]
    omega

end

/-- **What the distribution conserves**: where the query answers, the parts of an
execution are positive and add up to it, which is to say it is joined with exactly the
buckets it overlaps, if and only if it does not start on the boundary of a bucket. -/
theorem distributed_conserves_iff {executions : List Execution} {dist : ℤ}
    {rows : List DistributionRow} (hquery : distributed executions dist = some rows)
    (hdist : 0 < dist) (hset : executions.Nodup) {e : Execution} (he : e ∈ executions) :
    ∃ bs, buckets executions dist = some bs ∧
      (ConservesTime rows e ↔ ¬StartsOnBoundary executions dist e) ∧
      (JoinsOverlapping bs rows e ↔ ¬StartsOnBoundary executions dist e) := by
  unfold distributed at hquery
  obtain ⟨bs, hbs, hmap⟩ := Option.bind_eq_some_iff.mp hquery
  obtain ⟨s, n, hs, rfl, hfirst, hlast⟩ := exists_buckets hbs hdist he
  have hrows := filter_rows hset he (eq_map_of_mapM hmap distributionRow_eq)
  have hstarts : StartsOnBoundary executions dist e ↔ dist ∣ e.start - s := by
    unfold StartsOnBoundary
    rw [hs]
    simp
  refine ⟨_, hbs, ?_, ?_⟩
  · rw [conservesTime_iff_joinOn hrows hdist hfirst hlast,
      joinOn_iff_overlaps_iff hdist hfirst hlast, hstarts]
  · rw [joinsOverlapping_iff_joinOn hrows hdist,
      joinOn_iff_overlaps_iff hdist hfirst hlast, hstarts]

/-- Active from 0:07 to 0:12. -/
def fromSeven : Execution where
  machine_id := "lathe".toList
  execution := "ACTIVE".toList
  start := 420000000
  end_ := 720000000
  proper := by decide

/-- Its five minutes are in two buckets. -/
theorem distributed_fromSeven :
    ConservesTime [{ a := fromSeven, b := 300000000, d := 180000000 },
      { a := fromSeven, b := 600000000, d := 120000000 }] fromSeven := by
  have hquery : distributed [fromSeven] fiveMinutes = some
      [{ a := fromSeven, b := 300000000, d := 180000000 },
       { a := fromSeven, b := 600000000, d := 120000000 }] := by
    decide +kernel
  obtain ⟨bs, -, hconserves, -⟩ := distributed_conserves_iff hquery (by decide)
    (List.nodup_singleton _) (List.mem_singleton.mpr rfl)
  refine hconserves.mpr ?_
  intro h
  obtain ⟨s, hs, hdvd⟩ := h
  obtain rfl : s = 0 := (Option.mem_unique hs (show firstHour [fromSeven] = some 0 by decide))
  exact absurd hdvd (by decide)

/-- Active from 0:05 to 0:12. -/
def fromFive : Execution := { fromSeven with start := 300000000, proper := by decide }

/-- The five minutes after 0:05 are lost. -/
theorem fromFive_not_conserved :
    distributed [fromFive] fiveMinutes
      = some [{ a := fromFive, b := 600000000, d := 120000000 }] ∧
    ¬ConservesTime [{ a := fromFive, b := 600000000, d := 120000000 }] fromFive := by
  refine ⟨by decide +kernel, fun h => ?_⟩
  exact absurd h.total (by decide)

end FanucDriver.Queries
