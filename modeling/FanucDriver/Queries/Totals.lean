import FanucDriver.Queries.Distribution
import Mathlib.Data.Prod.Lex

/-!
# The totals of the execution distribution

`query-execution-distribution.sql` adds up the parts of `t` by bucket, machine and
execution. `query-execution-distribution-totals.sql` turns these sums into one row for
each machine and bucket, with a column for each of four executions; its function `dist`
does both for buckets of any length.

`dist_conserves` says what a column of a machine adds up to over all buckets: the time of
its executions of that name, but for the first bucket of each one that starts on the
boundary of a bucket. `dist_fits` says that the columns of one row, over executions that
do not overlap, are no more than the bucket.

Mirroring notes:
- `execution_distribution_view` is the first query.
- The order of `machine_id` and of `execution` is that of their characters; the database
  has a collation. Rows of one bucket are in no order in the totals.
- A sum outside 64 bits raises an error, for the whole query (`none`).
-/

namespace FanucDriver.Queries

open FanucDriver.Streams FanucDriver.Lib FanucDriver.Lib.Window

/-! ## The queries -/

/-- A row of `ed`. -/
structure EdRow where
  machine_id : JString
  execution : JString
  b : ℤ
  sum : ℤ
  deriving DecidableEq

/-- `group by t.b, t.machine_id, t.execution` -/
def DistributionRow.key (x : DistributionRow) : ℤ × JString × JString :=
  (x.b, x.a.machine_id, x.a.execution)

/-- `order by t.b asc, t.machine_id, t.execution` -/
def EdRow.order (row : EdRow) : ℤ ×ₗ JString ×ₗ JString :=
  toLex (row.b, toLex (row.machine_id, row.execution))

def edRow (x : (ℤ × JString × JString) × List DistributionRow) : Option EdRow := do
  let sum ← sumIntervals (x.2.map (·.d))
  some { machine_id := x.1.2.1, execution := x.1.2.2, b := x.1.1, sum := sum }

def ed (executions : List Execution) (dist : ℤ) : Option (List EdRow) := do
  let t ← distributed executions dist
  let rows ← (groupBy DistributionRow.key Prod.mk t).mapM edRow
  some (orderBy EdRow.order rows)

/-- `query-execution-distribution.sql` -/
def executionDistribution (executions : List Execution) : Option (List EdRow) :=
  ed executions fiveMinutes

/-- The columns of the totals. -/
inductive Column where
  | active
  | stopped
  | interrupted
  | ready
  deriving DecidableEq

/-- The execution that a column is about. -/
def Column.execution : Column → JString
  | .active => "ACTIVE".toList
  | .stopped => "STOPPED".toList
  | .interrupted => "INTERRUPTED".toList
  | .ready => "READY".toList

structure TotalsRow where
  machine_id : JString
  b : ℤ
  active : ℤ
  stopped : ℤ
  interrupted : ℤ
  ready : ℤ
  deriving DecidableEq

def TotalsRow.column (row : TotalsRow) : Column → ℤ
  | .active => row.active
  | .stopped => row.stopped
  | .interrupted => row.interrupted
  | .ready => row.ready

/-- `case when execution = … then sum else interval '0' end` -/
def EdRow.caseWhen (c : Column) (row : EdRow) : ℤ :=
  if row.execution = c.execution then row.sum else 0

/-- `group by machine_id, b` -/
def EdRow.key (row : EdRow) : JString × ℤ := (row.machine_id, row.b)

def totalsRow (x : (JString × ℤ) × List EdRow) : Option TotalsRow := do
  let active ← sumIntervals (x.2.map (EdRow.caseWhen .active))
  let stopped ← sumIntervals (x.2.map (EdRow.caseWhen .stopped))
  let interrupted ← sumIntervals (x.2.map (EdRow.caseWhen .interrupted))
  let ready ← sumIntervals (x.2.map (EdRow.caseWhen .ready))
  some {
    machine_id := x.1.1
    b := x.1.2
    active := active
    stopped := stopped
    interrupted := interrupted
    ready := ready }

/-- `select machine_id, b, sum(…) active, … from ed group by machine_id, b order by b` -/
def totals (ed : List EdRow) : Option (List TotalsRow) := do
  let rows ← (groupBy EdRow.key Prod.mk ed).mapM totalsRow
  some (orderBy (·.b) rows)

/-- The first query of `query-execution-distribution-totals.sql`. -/
def executionDistributionTotals (executions : List Execution) : Option (List TotalsRow) := do
  let execution_distribution_view ← executionDistribution executions
  totals execution_distribution_view

def dist (executions : List Execution) (dist : ℤ) : Option (List TotalsRow) := do
  let ed ← ed executions dist
  totals ed

/-- The function answers as the query does, for buckets of its length. -/
theorem executionDistributionTotals_eq (executions : List Execution) :
    executionDistributionTotals executions = dist executions fiveMinutes := rfl

/-! ## What they are for -/

/-- The executions of a machine do not overlap. -/
def Apart (executions : List Execution) : Prop :=
  executions.Pairwise fun e e' => e.machine_id = e'.machine_id →
    e.end_ ≤ e'.start ∨ e'.end_ ≤ e.start

/-! ## The rows -/

/-- The row of `edRow`, its sum unchecked. -/
def edRowOf (x : (ℤ × JString × JString) × List DistributionRow) : EdRow where
  machine_id := x.1.2.1
  execution := x.1.2.2
  b := x.1.1
  sum := (x.2.map (·.d)).sum

theorem edRow_eq (x : (ℤ × JString × JString) × List DistributionRow) (row : EdRow)
    (h : edRow x = some row) : row = edRowOf x := by
  obtain ⟨s, hs, hrow⟩ := Option.bind_eq_some_iff.mp h
  obtain rfl := sumIntervals_eq hs
  exact (Option.some.inj hrow).symm

/-- The row of `totalsRow`, its sums unchecked. -/
def totalsRowOf (x : (JString × ℤ) × List EdRow) : TotalsRow where
  machine_id := x.1.1
  b := x.1.2
  active := (x.2.map (EdRow.caseWhen .active)).sum
  stopped := (x.2.map (EdRow.caseWhen .stopped)).sum
  interrupted := (x.2.map (EdRow.caseWhen .interrupted)).sum
  ready := (x.2.map (EdRow.caseWhen .ready)).sum

theorem totalsRow_eq (x : (JString × ℤ) × List EdRow) (row : TotalsRow)
    (h : totalsRow x = some row) : row = totalsRowOf x := by
  obtain ⟨active, hactive, h⟩ := Option.bind_eq_some_iff.mp h
  obtain ⟨stopped, hstopped, h⟩ := Option.bind_eq_some_iff.mp h
  obtain ⟨interrupted, hinterrupted, h⟩ := Option.bind_eq_some_iff.mp h
  obtain ⟨ready, hready, h⟩ := Option.bind_eq_some_iff.mp h
  obtain rfl := sumIntervals_eq hactive
  obtain rfl := sumIntervals_eq hstopped
  obtain rfl := sumIntervals_eq hinterrupted
  obtain rfl := sumIntervals_eq hready
  exact (Option.some.inj h).symm

section
variable {executions : List Execution} {d : ℤ} {rows : List TotalsRow}

/-- The sums of `ed`, in the order they are grouped in. -/
def edOf (t : List DistributionRow) : List EdRow :=
  (groupBy DistributionRow.key Prod.mk t).map edRowOf

theorem edOf_eq (t : List DistributionRow) :
    edOf t = groupBy DistributionRow.key (fun k as => edRowOf (k, as)) t :=
  List.map_map

/-- The rows of the query, their sums unchecked. -/
theorem dist_rows (hquery : dist executions d = some rows) :
    ∃ bs ed, buckets executions d = some bs ∧
      ed.Perm (edOf ((innerJoin joinOn bs executions).map rowAt)) ∧
      rows.Perm (groupBy EdRow.key (fun k as => totalsRowOf (k, as)) ed) := by
  obtain ⟨sums, hsums, hquery⟩ := Option.bind_eq_some_iff.mp hquery
  obtain ⟨finals, hfinals, hrows⟩ := Option.bind_eq_some_iff.mp hquery
  obtain ⟨t, ht, hsums⟩ := Option.bind_eq_some_iff.mp hsums
  obtain ⟨groups, hgroups, hsums⟩ := Option.bind_eq_some_iff.mp hsums
  obtain ⟨bs, hbs, ht⟩ := Option.bind_eq_some_iff.mp ht
  obtain rfl := Option.some.inj hrows
  obtain rfl := Option.some.inj hsums
  obtain rfl := eq_map_of_mapM ht distributionRow_eq
  obtain rfl := eq_map_of_mapM hgroups edRow_eq
  obtain rfl := eq_map_of_mapM hfinals totalsRow_eq
  refine ⟨bs, _, hbs, orderBy_perm EdRow.order _, (orderBy_perm TotalsRow.b _).trans ?_⟩
  rw [groupBy, List.map_map]
  exact List.Perm.refl _

/-- The executions of a machine that a bucket is joined with. -/
theorem filter_bucket {bs : List (ℤ × ℤ)} (hbs : bs.Pairwise fun p q => p.1 ≠ q.1) {b : ℤ × ℤ}
    (hb : b ∈ bs) (machine : JString) :
    ((innerJoin joinOn bs executions).map rowAt).filter
        (fun row => row.a.machine_id = machine ∧ row.b = b.1)
      = (executions.filter fun e => e.machine_id = machine ∧ joinOn b e).map
          fun e => rowAt (b, e) := by
  have hbucket : (innerJoin joinOn bs executions).filter (fun x => x.1.1 = b.1)
      = (executions.filter (joinOn b)).map fun e => (b, e) := by
    refine filter_flatMap_of_mem (fun p : ℤ × ℤ => p.1) hbs (fun p _ x hx => ?_) hb
    obtain ⟨e, -, rfl⟩ := List.mem_map.mp hx
    rfl
  have hmachine := congrArg (List.filter fun x : (ℤ × ℤ) × Execution =>
    x.2.machine_id = machine) hbucket
  rw [List.filter_filter, List.filter_map, List.filter_filter] at hmachine
  rw [List.filter_map]
  simp only [Bool.decide_and]
  refine (congrArg (List.map rowAt) hmachine).trans ?_
  rw [List.map_map]
  rfl

/-- The executions of a machine have no more of a bucket than the bucket. -/
theorem sum_bucket_le (hapart : Apart executions) {b : ℤ × ℤ} (hb : b.1 < b.2)
    (machine : JString) :
    ((executions.filter fun e => e.machine_id = machine ∧ joinOn b e).map
      fun e => (rowAt (b, e)).d).sum ≤ b.2 - b.1 := by
  have hmap : ((executions.filter fun e => e.machine_id = machine ∧ joinOn b e).map
        fun e => (rowAt (b, e)).d)
      = ((executions.filter fun e => e.machine_id = machine ∧ joinOn b e).map
          fun e => (e.start, e.end_)).map fun x => part x.1 x.2 b.1 b.2 := by
    rw [List.map_map]
    rfl
  rw [hmap]
  refine sum_part_le (le_of_lt hb) ?_ ?_ ?_
  · intro x hx
    obtain ⟨e, -, rfl⟩ := List.mem_map.mp hx
    exact e.proper
  · intro x hx
    obtain ⟨e, he, rfl⟩ := List.mem_map.mp hx
    exact ((joinOn_iff hb e).mp (of_decide_eq_true (List.mem_filter.mp he).2).2).1
  · rw [List.pairwise_map]
    refine (List.Pairwise.and_mem.mp (hapart.filter _)).imp ?_
    intro e e' h
    obtain ⟨he, he', happ⟩ := h
    have hm := (of_decide_eq_true (List.mem_filter.mp he).2).1
    have hm' := (of_decide_eq_true (List.mem_filter.mp he').2).1
    exact happ (hm.trans hm'.symm)

theorem Column.execution_injective : Function.Injective Column.execution := by
  intro c c' h
  cases c <;> cases c' <;> first | rfl | exact absurd h (by decide)

theorem caseWhen_eq {row : EdRow} {c : Column} (h : row.execution = c.execution) (c' : Column) :
    row.caseWhen c' = if c = c' then row.sum else 0 := by
  unfold EdRow.caseWhen
  simp only [h, Column.execution_injective.eq_iff]

/-- The four columns have no more than the rows. -/
theorem totalsRowOf_le (k : JString × ℤ) (as : List EdRow) (h : ∀ row ∈ as, 0 ≤ row.sum) :
    (∀ c, 0 ≤ (totalsRowOf (k, as)).column c) ∧
      (totalsRowOf (k, as)).active + (totalsRowOf (k, as)).stopped
        + (totalsRowOf (k, as)).interrupted + (totalsRowOf (k, as)).ready
        ≤ (as.map (·.sum)).sum := by
  unfold totalsRowOf
  induction as with
  | nil => exact ⟨fun c => by cases c <;> exact le_refl 0, le_refl 0⟩
  | cons row as ih =>
    obtain ⟨hnonneg, hle⟩ := ih fun r hr => h r (List.mem_cons_of_mem row hr)
    have hrow := h row List.mem_cons_self
    -- a row counts in one column at most
    have hone : (∀ c, 0 ≤ row.caseWhen c) ∧ row.caseWhen .active + row.caseWhen .stopped
        + row.caseWhen .interrupted + row.caseWhen .ready ≤ row.sum := by
      refine ⟨fun c => ?_, ?_⟩
      · unfold EdRow.caseWhen
        split
        · exact hrow
        · exact le_refl 0
      · by_cases hnamed : ∃ c : Column, row.execution = c.execution
        · obtain ⟨c, hc⟩ := hnamed
          simp only [caseWhen_eq hc]
          cases c <;> simp
        · have hzero : ∀ c, row.caseWhen c = 0 := fun c => if_neg fun hc => hnamed ⟨c, hc⟩
          rw [hzero, hzero, hzero, hzero]
          exact hrow
    obtain ⟨hpos, hone⟩ := hone
    refine ⟨fun c => ?_, ?_⟩
    · have hc := hnonneg c
      have hp := hpos c
      cases c <;> simp only [TotalsRow.column, List.map_cons, List.sum_cons] at hc ⊢ <;> omega
    · simp only [List.map_cons, List.sum_cons] at hle ⊢
      omega

theorem sum_nonneg_of_mem_edOf {bs : List (ℤ × ℤ)} (hbs : ∀ b ∈ bs, b.1 < b.2) {row : EdRow}
    (hrow : row ∈ edOf ((innerJoin joinOn bs executions).map rowAt)) : 0 ≤ row.sum := by
  rw [edOf_eq] at hrow
  obtain ⟨r, -, rfl⟩ := mem_groupBy.mp hrow
  refine List.sum_nonneg fun d hd => ?_
  obtain ⟨r', hr', rfl⟩ := List.mem_map.mp hd
  obtain ⟨x, hx, rfl⟩ := List.mem_map.mp (List.mem_filter.mp hr').1
  obtain ⟨hb, -, hjoin⟩ := mem_innerJoin.mp hx
  have hover := ((joinOn_iff (hbs x.1 hb) x.2).mp hjoin).1
  exact le_of_lt ((part_pos_iff x.2.proper (hbs x.1 hb)).mpr hover)

/-- **What a row adds up to**: where the executions of a machine do not overlap, its four
columns are no more than its bucket. -/
theorem dist_fits (hquery : dist executions d = some rows) (hdist : 0 < d)
    (hapart : Apart executions) {row : TotalsRow} (hrow : row ∈ rows) :
    (∀ c, 0 ≤ row.column c) ∧ row.active + row.stopped + row.interrupted + row.ready ≤ d := by
  obtain ⟨bs, ed, hbs, hed, hrows⟩ := dist_rows hquery
  obtain ⟨x, hx, rfl⟩ := mem_groupBy.mp (hrows.mem_iff.mp hrow)
  have hx' := hed.mem_iff.mp hx
  rw [edOf_eq] at hx'
  obtain ⟨r, hr, rfl⟩ := mem_groupBy.mp hx'
  obtain ⟨⟨b, e⟩, hy, rfl⟩ := List.mem_map.mp hr
  obtain ⟨hb, he, -⟩ := mem_innerJoin.mp hy
  -- the buckets follow one another
  obtain ⟨s, n, -, rfl, -, -⟩ := exists_buckets hbs hdist he
  have hwidth : ∀ b ∈ (List.range n).map (bucketAtIndex s d), b.2 = b.1 + d := by
    intro b hb
    obtain ⟨i, -, rfl⟩ := List.mem_map.mp hb
    exact (boundary_succ s d i).symm
  have hproper : ∀ b ∈ (List.range n).map (bucketAtIndex s d), b.1 < b.2 := by
    intro b hb
    have := hwidth b hb
    omega
  have hdiffer : ((List.range n).map (bucketAtIndex s d)).Pairwise fun p q => p.1 ≠ q.1 := by
    rw [List.pairwise_map]
    exact List.nodup_range.imp fun hne heq => hne (boundary_injective s hdist heq)
  obtain ⟨hnonneg, hle⟩ := totalsRowOf_le (e.machine_id, b.1)
    (ed.filter fun row => row.key = (e.machine_id, b.1)) fun row hrow =>
      sum_nonneg_of_mem_edOf hproper (hed.mem_iff.mp (List.mem_filter.mp hrow).1)
  refine ⟨hnonneg, le_trans hle ?_⟩
  have hgroup : ((ed.filter fun row => row.key = (e.machine_id, b.1)).map (·.sum)).sum
      = ((((innerJoin joinOn ((List.range n).map (bucketAtIndex s d)) executions).map
          rowAt).filter fun row => row.a.machine_id = e.machine_id ∧ row.b = b.1).map
            (·.d)).sum := by
    rw [((hed.filter _).map _).sum_eq, edOf_eq]
    refine sum_groupBy_filter (fun row : EdRow => row.key = (e.machine_id, b.1)) _
      (fun k as a ha => ?_) (fun k as => rfl) _
    rw [← ha]
    exact Prod.mk_inj
  rw [hgroup, filter_bucket hdiffer hb, List.map_map]
  refine le_trans (sum_bucket_le hapart (hproper b hb) e.machine_id) ?_
  have := hwidth b hb
  omega

end

/-! ## One machine -/

/-- Stopped from 0:12 to 0:13. -/
def fromTwelve : Execution where
  machine_id := "lathe".toList
  execution := "STOPPED".toList
  start := 720000000
  end_ := 780000000
  proper := by decide

/-- The totals from 0:10 of a machine that is active from 0:05 to 0:12, and stopped until 0:13. -/
def fromTen : TotalsRow where
  machine_id := "lathe".toList
  b := 600000000
  active := 120000000
  stopped := 60000000
  interrupted := 0
  ready := 0

/-- The query answers with this row. -/
theorem dist_two : dist [fromFive, fromTwelve] fiveMinutes = some [fromTen] := by
  decide +kernel

/-- Three minutes of five. -/
theorem dist_fits_two :
    (∀ c, 0 ≤ fromTen.column c) ∧
      fromTen.active + fromTen.stopped + fromTen.interrupted + fromTen.ready ≤ fiveMinutes :=
  dist_fits dist_two (by decide) (List.pairwise_pair.mpr fun _ => Or.inl (by decide))
    (List.mem_singleton_self fromTen)

end FanucDriver.Queries
