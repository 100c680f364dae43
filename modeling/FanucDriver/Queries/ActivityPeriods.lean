import FanucDriver.Lib.Islands
import FanucDriver.Queries.Timestamps
import FanucDriver.Streams.Staging

/-!
# The view `activity_periods_alt`

`query-activity-periods-faster.sql` finds the periods in which a machine sends samples:
it counts the samples of every five minutes, numbers the runs of successive non-empty
ones with a running sum, and makes one row of each run.

`activityPeriodsAlt_partitions`: the rows of a machine are these runs. The levels below
are taken one at a time; for one machine `bucketsOf_counted` gives the buckets in window
order, `filter_spans` their islands, and `grouped_perm` the rows of the islands.

Mirroring notes:
- The rows of `"input-avro"` are the samples the stream reads; the view looks at the
  machine and the timestamp.
- The arithmetic of a level raises an error for the whole view (`none`).
- In the window of the running sum no two rows tie.
-/

namespace FanucDriver.Queries

open FanucDriver.Streams FanucDriver.Lib FanucDriver.Lib.Window

/-- `interval '5 minute'` -/
def fiveMinutes : ℤ := 300000000

/-- The rows of the view. -/
structure ActivityPeriod where
  machine_id : JString
  a : ℤ
  b : ℤ
  duration : ℤ
  r : ℕ
  cnt : ℕ
  deriving DecidableEq

/-! ## The levels of the view -/

structure StampedRow where
  machine_id : JString
  timestamp : ℤ
  deriving DecidableEq

structure CountedRow where
  machine_id : JString
  t0 : ℤ
  t1 : ℤ
  cnt : ℕ
  deriving DecidableEq

structure BucketRow where
  machine_id : JString
  t : ℤ
  cnt : ℕ
  deriving DecidableEq

structure FlaggedRow where
  machine_id : JString
  t : ℤ
  r : ℤ
  cnt : ℕ
  deriving DecidableEq

structure SpanRow where
  machine_id : JString
  a : ℤ
  b : ℤ
  g : ℤ
  cnt : ℕ
  deriving DecidableEq

structure IslandRow where
  machine_id : JString
  a : ℤ
  b : ℤ
  cnt : ℕ
  deriving DecidableEq

/-- `select machine_id, to_timestamp(timestamp / 1000.0) as timestamp` -/
def stamped (x : Sample) : Option StampedRow := do
  let timestamp ← toTimestamp ((x.timestamp.toInt : ℚ) / 1000)
  some { machine_id := x.machineId, timestamp := timestamp }

/-- `group by machine_id, t0, t1` -/
def counted : List StampedRow → List CountedRow :=
  groupBy (fun x => (x.machine_id, truncHour x.timestamp, minute x.timestamp / 5))
    fun k group => { machine_id := k.1, t0 := k.2.1, t1 := k.2.2, cnt := group.length }

/-- `t0 + interval '5 minute' * t1` -/
def bucket (x : CountedRow) : Option BucketRow := do
  let t ← addInterval x.t0 (fiveMinutes * x.t1)
  some { machine_id := x.machine_id, t := t, cnt := x.cnt }

/-- `case when pt is null or pt + interval '5 minute' < t then 1 else 0 end` -/
def startsPeriod (pt : Option ℤ) (t : ℤ) : Option ℤ :=
  match pt with
  | none => some 1
  | some pt => (addInterval pt fiveMinutes).map fun u => if u < t then 1 else 0

def flagged (x : BucketRow × Option ℤ) : Option FlaggedRow := do
  let r ← startsPeriod x.2 x.1.t
  some { machine_id := x.1.machine_id, t := x.1.t, r := r, cnt := x.1.cnt }

def span (x : FlaggedRow × ℤ) : Option SpanRow := do
  let b ← addInterval x.1.t fiveMinutes
  some { machine_id := x.1.machine_id, a := x.1.t, b := b, g := x.2, cnt := x.1.cnt }

/-- `group by machine_id, g`; a group is not empty. -/
def grouped : List SpanRow → List IslandRow :=
  groupBy (fun x => (x.machine_id, x.g)) fun k group =>
    { machine_id := k.1
      a := (group.map (·.a)).min?.getD 0
      b := (group.map (·.b)).max?.getD 0
      cnt := (group.map (·.cnt)).sum }

def numbered (x : IslandRow × ℕ) : Option ActivityPeriod := do
  let duration ← subTimestamp x.1.b x.1.a
  some { machine_id := x.1.machine_id, a := x.1.a, b := x.1.b, duration := duration, r := x.2,
         cnt := x.1.cnt }

/-- The view over the rows of `"input-avro"`. -/
def activityPeriodsAlt (input : List Sample) : Option (List ActivityPeriod) := do
  let buckets ← (counted (← input.mapM stamped)).mapM bucket
  let flags ← (overPartition (·.machine_id) (·.t) (lagged (·.t)) buckets).mapM flagged
  let spans ← (overPartition (·.machine_id) (·.t) (runningSum (·.r) 0) flags).mapM span
  let periods ← (overPartition (·.machine_id) (·.a) rowNumber (grouped spans)).mapM numbered
  -- `order by a asc, machine_id`
  some (orderBy (·.a) (orderBy (·.machine_id) periods))

/-! ## Buckets -/

/-- The start of the five minutes around a timestamp. -/
def bucketOf (t : ℤ) : ℤ := t / fiveMinutes * fiveMinutes

theorem bucketOf_eq (t : ℤ) : truncHour t + fiveMinutes * (minute t / 5) = bucketOf t := by
  unfold truncHour minute bucketOf fiveMinutes
  omega

/-- Timestamps of one bucket have the same hour and the same five minutes of it. -/
theorem bucketOf_inj {t u : ℤ} (h : bucketOf t = bucketOf u) :
    truncHour t = truncHour u ∧ minute t / 5 = minute u / 5 := by
  unfold truncHour minute bucketOf fiveMinutes at *
  omega

theorem bucketOf_bounds (t : ℤ) : bucketOf t ≤ t ∧ t < bucketOf t + fiveMinutes := by
  unfold bucketOf fiveMinutes
  omega

theorem dvd_bucketOf (t : ℤ) : fiveMinutes ∣ bucketOf t := Dvd.intro_left _ rfl

/-- The timestamps of a machine. -/
def timestampsOf (input : List Sample) (machine : JString) : List ℤ :=
  (input.filter fun x => x.machineId = machine).map fun x => millis x.timestamp

/-- The buckets of a machine, in window order, from its timestamps. -/
structure BucketsOf (machine : JString) (ts : List ℤ) (rows : List BucketRow) : Prop where
  strict : rows.Pairwise fun x y => x.t < y.t
  machine : ∀ x ∈ rows, x.machine_id = machine
  count : ∀ x ∈ rows, x.cnt = ts.countP fun t => bucketOf t = x.t
  nonempty : ∀ x ∈ rows, ∃ t ∈ ts, bucketOf t = x.t
  covers : ∀ t ∈ ts, ∃ x ∈ rows, x.t = bucketOf t

def stampedOf (x : Sample) : StampedRow where
  machine_id := x.machineId
  timestamp := millis x.timestamp

theorem stamped_eq (x : Sample) (row : StampedRow) (h : stamped x = some row) :
    row = stampedOf x := by
  unfold stamped at h
  obtain ⟨t, ht, hrow⟩ := Option.bind_eq_some_iff.mp h
  obtain ⟨rfl, -⟩ := toTimestamp_millis ht
  exact (Option.some.inj hrow).symm

def bucketRow (x : CountedRow) : BucketRow where
  machine_id := x.machine_id
  t := x.t0 + fiveMinutes * x.t1
  cnt := x.cnt

theorem bucket_eq (x : CountedRow) (row : BucketRow) (h : bucket x = some row) :
    row = bucketRow x :=
  eq_of_addInterval h

/-- The bucket of a sample, with the number of samples in it. -/
def bucketAt (input : List Sample) (x : Sample) : BucketRow where
  machine_id := x.machineId
  t := bucketOf (millis x.timestamp)
  cnt := (timestampsOf input x.machineId).countP fun t => bucketOf t = bucketOf (millis x.timestamp)

/-- The row of the grouping that a sample falls into. -/
theorem bucketRow_group (input : List Sample) (x : Sample) :
    bucketRow { machine_id := (stampedOf x).machine_id
                t0 := truncHour (stampedOf x).timestamp
                t1 := minute (stampedOf x).timestamp / 5
                cnt := ((input.map stampedOf).filter fun y =>
                  (y.machine_id, truncHour y.timestamp, minute y.timestamp / 5)
                    = ((stampedOf x).machine_id, truncHour (stampedOf x).timestamp,
                      minute (stampedOf x).timestamp / 5)).length }
      = bucketAt input x := by
  have hcnt : ((input.map stampedOf).filter fun y =>
        (y.machine_id, truncHour y.timestamp, minute y.timestamp / 5)
          = ((stampedOf x).machine_id, truncHour (stampedOf x).timestamp,
            minute (stampedOf x).timestamp / 5)).length
      = (timestampsOf input x.machineId).countP fun t =>
          bucketOf t = bucketOf (millis x.timestamp) := by
    rw [← List.countP_eq_length_filter, List.countP_map, timestampsOf, List.countP_map,
      List.countP_filter]
    refine List.countP_congr fun y _ => ?_
    simp only [Function.comp_apply, decide_eq_true_eq, Bool.and_eq_true, Prod.mk.injEq]
    constructor
    · intro h
      obtain ⟨hmachine, ht0, ht1⟩ := h
      refine ⟨?_, hmachine⟩
      show bucketOf (stampedOf y).timestamp = bucketOf (stampedOf x).timestamp
      rw [← bucketOf_eq, ← bucketOf_eq, ht0, ht1]
    · intro h
      obtain ⟨hbucket, hmachine⟩ := h
      exact ⟨hmachine, bucketOf_inj hbucket⟩
  unfold bucketRow bucketAt
  rw [hcnt]
  exact congrArg (fun t => BucketRow.mk _ t _) (bucketOf_eq _)

theorem mem_buckets {input : List Sample} {row : BucketRow} :
    row ∈ (counted (input.map stampedOf)).map bucketRow ↔ ∃ x ∈ input, row = bucketAt input x := by
  unfold counted
  rw [List.mem_map]
  constructor
  · intro h
    obtain ⟨c, hc, rfl⟩ := h
    obtain ⟨y, hy, rfl⟩ := mem_groupBy.mp hc
    obtain ⟨x, hx, rfl⟩ := List.mem_map.mp hy
    exact ⟨x, hx, bucketRow_group input x⟩
  · intro h
    obtain ⟨x, hx, rfl⟩ := h
    exact ⟨_, mem_groupBy.mpr ⟨stampedOf x, List.mem_map_of_mem hx, rfl⟩, bucketRow_group input x⟩

/-- The first levels put a machine's samples into buckets. -/
theorem bucketsOf_counted (input : List Sample) (machine : JString) :
    BucketsOf machine (timestampsOf input machine)
      (partition (·.machine_id) (·.t) ((counted (input.map stampedOf)).map bucketRow) machine) := by
  have hbucket : ∀ row ∈ partition (·.machine_id) (·.t)
      ((counted (input.map stampedOf)).map bucketRow) machine,
      ∃ x ∈ input, x.machineId = machine ∧ row = bucketAt input x := by
    intro row hrow
    obtain ⟨hrow, hmachine⟩ := mem_partition.mp hrow
    obtain ⟨x, hx, rfl⟩ := mem_buckets.mp hrow
    exact ⟨x, hx, hmachine, rfl⟩
  refine
    { strict := orderBy_strict ?_
      machine := fun row hrow => (mem_partition.mp hrow).2
      count := fun row hrow => ?_
      nonempty := fun row hrow => ?_
      covers := fun t ht => ?_ }
  · -- rows of one machine and one bucket come from one group
    have hties : ((counted (input.map stampedOf)).map bucketRow).Pairwise fun x y =>
        x.machine_id = y.machine_id → x.t ≠ y.t := by
      unfold counted
      rw [List.pairwise_map]
      refine groupBy_pairwise fun x hx y hy hne hmachine ht => hne ?_
      obtain ⟨x, -, rfl⟩ := List.mem_map.mp hx
      obtain ⟨y, -, rfl⟩ := List.mem_map.mp hy
      rw [bucketRow_group, bucketRow_group] at hmachine ht
      obtain ⟨ht0, ht1⟩ := bucketOf_inj (show bucketOf (millis x.timestamp) = _ from ht)
      exact Prod.ext hmachine (Prod.ext ht0 ht1)
    refine (List.Pairwise.and_mem.mp (hties.filter _)).imp ?_
    intro x y h
    obtain ⟨hx, hy, hne⟩ := h
    exact hne ((of_decide_eq_true (List.mem_filter.mp hx).2).trans
      (of_decide_eq_true (List.mem_filter.mp hy).2).symm)
  · obtain ⟨x, -, rfl, rfl⟩ := hbucket row hrow
    rfl
  · obtain ⟨x, hx, rfl, rfl⟩ := hbucket row hrow
    refine ⟨millis x.timestamp, ?_, rfl⟩
    exact List.mem_map_of_mem (List.mem_filter.mpr ⟨hx, decide_eq_true rfl⟩)
  · obtain ⟨x, hx, rfl⟩ := List.mem_map.mp ht
    obtain ⟨hx, hmachine⟩ := List.mem_filter.mp hx
    refine ⟨bucketAt input x, mem_partition.mpr ⟨mem_buckets.mpr ⟨x, hx, rfl⟩, ?_⟩, rfl⟩
    exact of_decide_eq_true hmachine

/-! ## Islands -/

/-- A bucket follows the one before it without a gap. -/
def follows (pt t : ℤ) : Bool := !decide (pt + fiveMinutes < t)

def flaggedRow (x : BucketRow × Option ℤ) : FlaggedRow where
  machine_id := x.1.machine_id
  t := x.1.t
  r := startFlag follows BucketRow.t x
  cnt := x.1.cnt

theorem flagged_eq (x : BucketRow × Option ℤ) (row : FlaggedRow) (h : flagged x = some row) :
    row = flaggedRow x := by
  unfold flagged at h
  obtain ⟨r, hr, hrow⟩ := Option.bind_eq_some_iff.mp h
  have hflag : r = startFlag follows BucketRow.t x := by
    obtain ⟨x, pt⟩ := x
    cases pt with
    | none => exact (Option.some.inj hr).symm
    | some pt =>
      obtain ⟨u, hu, rfl⟩ := Option.map_eq_some_iff.mp hr
      obtain rfl := addInterval_eq hu
      unfold startFlag follows
      by_cases hlt : pt + fiveMinutes < x.t <;> simp [hlt]
  rw [hflag] at hrow
  exact (Option.some.inj hrow).symm

def spanOf (x : BucketRow) (g : ℤ) : SpanRow where
  machine_id := x.machine_id
  a := x.t
  b := x.t + fiveMinutes
  g := g
  cnt := x.cnt

def spanRow (x : FlaggedRow × ℤ) : SpanRow where
  machine_id := x.1.machine_id
  a := x.1.t
  b := x.1.t + fiveMinutes
  g := x.2
  cnt := x.1.cnt

theorem span_eq (x : FlaggedRow × ℤ) (row : SpanRow) (h : span x = some row) : row = spanRow x :=
  eq_of_addInterval h

/-- The islands of a machine's buckets, each bucket with the number of its island. -/
theorem filter_spans {buckets rows : List BucketRow} {machine : JString}
    {gs : List (List BucketRow)}
    (hrows : partition (·.machine_id) (·.t) buckets machine = rows)
    (hislands : Islands follows BucketRow.t rows gs) :
    ((overPartition (·.machine_id) (·.t) (runningSum (·.r) 0)
        ((overPartition (·.machine_id) (·.t) (lagged BucketRow.t) buckets).map flaggedRow)).map
        spanRow).filter (fun x => x.machine_id = machine)
      = (gs.zipIdx 1).flatMap fun x => x.1.map fun y => spanOf y x.2 :=
  filter_numbered flaggedRow spanRow SpanRow.machine_id spanOf (fun _ => rfl) (fun _ => rfl)
    (fun _ => rfl) (fun _ => rfl) (fun _ _ => rfl) (hrows ▸ hislands)

/-- The row of an island. -/
def islandOf (machine : JString) (g : List BucketRow) : IslandRow where
  machine_id := machine
  a := (g.map (·.t)).min?.getD 0
  b := (g.map fun x => x.t + fiveMinutes).max?.getD 0
  cnt := (g.map (·.cnt)).sum

/-- Grouping by the number of the island gives a row for each island. -/
theorem grouped_perm {spans : List SpanRow} {machine : JString} {gs : List (List BucketRow)}
    (hspans : spans.filter (fun x => x.machine_id = machine)
      = (gs.zipIdx 1).flatMap fun x => x.1.map fun y => spanOf y x.2)
    (hne : [] ∉ gs) :
    ((grouped spans).filter fun x => x.machine_id = machine).Perm (gs.map (islandOf machine)) := by
  refine groupBy_numbered IslandRow.machine_id Prod.fst (fun _ _ => rfl) hspans hne
    (fun _ n => (machine, n)) Prod.snd (fun _ _ => rfl) ?_ (islandOf machine) ?_
  · intro g _ x _ n hmachine
    exact Prod.ext hmachine rfl
  · intro g _ n
    simp [islandOf, spanOf, Function.comp_def]

/-! ## One island -/

theorem islandOf_bounds (machine : JString) {g : List BucketRow} (hne : g ≠ [])
    (hstrict : g.Pairwise fun x y => x.t < y.t) :
    (islandOf machine g).a = (g.head hne).t ∧
    (islandOf machine g).b = (g.getLast hne).t + fiveMinutes ∧
    ∀ x ∈ g, (g.head hne).t ≤ x.t ∧ x.t ≤ (g.getLast hne).t := by
  have hmin := min?_of_sorted (f := BucketRow.t) hne (hstrict.imp le_of_lt)
  have hmax := max?_of_sorted (f := BucketRow.t) hne (hstrict.imp le_of_lt)
  have hmax' := max?_of_sorted (f := fun x : BucketRow => x.t + fiveMinutes) hne
    (hstrict.imp fun h => by omega)
  refine ⟨?_, ?_, fun x hx => ?_⟩
  · unfold islandOf
    rw [hmin, Option.getD_some]
  · unfold islandOf
    rw [hmax', Option.getD_some]
  · exact ⟨(List.min?_eq_some_iff.mp hmin).2 _ (List.mem_map_of_mem hx),
      (List.max?_eq_some_iff.mp hmax).2 _ (List.mem_map_of_mem hx)⟩

/-- Along an island there is a bucket every five minutes. -/
theorem mem_of_chain {g : List BucketRow} (hne : g ≠ [])
    (hstep : g.IsChain fun x y => y.t = x.t + fiveMinutes) (hdvd : ∀ x ∈ g, fiveMinutes ∣ x.t)
    {k : ℤ} (hk : fiveMinutes ∣ k) (hfirst : (g.head hne).t ≤ k) (hlast : k ≤ (g.getLast hne).t) :
    ∃ x ∈ g, x.t = k := by
  induction g with
  | nil => exact absurd rfl hne
  | cons x g ih =>
    cases g with
    | nil => exact ⟨x, List.mem_cons_self, le_antisymm hfirst hlast⟩
    | cons y g =>
      obtain ⟨hxy, hrest⟩ := List.isChain_cons_cons.mp hstep
      by_cases heq : x.t = k
      · exact ⟨x, List.mem_cons_self, heq⟩
      · have hnext : y.t ≤ k := by
          obtain ⟨i, hi⟩ := hk
          obtain ⟨j, hj⟩ := hdvd x List.mem_cons_self
          have hle : x.t ≤ k := hfirst
          unfold fiveMinutes at *
          omega
        obtain ⟨z, hz, hzk⟩ := ih (List.cons_ne_nil y g) hrest
          (fun z hz => hdvd z (List.mem_cons_of_mem x hz)) hnext hlast
        exact ⟨z, List.mem_cons_of_mem x hz, hzk⟩

/-- The row of an island of buckets, against the timestamps. -/
structure CoversIsland (ts : List ℤ) (g : List BucketRow) (row : IslandRow) : Prop where
  proper : row.a < row.b
  boundaries : fiveMinutes ∣ row.a ∧ fiveMinutes ∣ row.b
  filled : ∀ k, fiveMinutes ∣ k → row.a ≤ k → k < row.b → ∃ t ∈ ts, k ≤ t ∧ t < k + fiveMinutes
  count : row.cnt = (ts.filter fun t => row.a ≤ t ∧ t < row.b).length
  inside : ∀ x ∈ g, row.a ≤ x.t ∧ x.t + fiveMinutes ≤ row.b

section
variable {machine : JString} {ts : List ℤ} {rows : List BucketRow} {gs : List (List BucketRow)}
  {g : List BucketRow}

theorem BucketsOf.dvd (hrows : BucketsOf machine ts rows) {x : BucketRow} (hx : x ∈ rows) :
    fiveMinutes ∣ x.t := by
  obtain ⟨t, -, ht⟩ := hrows.nonempty x hx
  exact ht ▸ dvd_bucketOf t

/-- Joined buckets are five minutes apart. -/
theorem island_steps (hrows : BucketsOf machine ts rows)
    (hislands : Islands follows BucketRow.t rows gs) (hg : g ∈ gs) :
    g.IsChain fun x y => y.t = x.t + fiveMinutes := by
  have hsub := hislands.sublist hg
  refine List.isChain_iff_getElem.mpr fun i hi => ?_
  have hjoined := List.isChain_iff_getElem.mp (hislands.inside g hg) i hi
  have hlt := List.isChain_iff_getElem.mp (hrows.strict.sublist hsub).isChain i hi
  obtain ⟨j, hj⟩ := hrows.dvd (hsub.subset (List.getElem_mem (l := g) (n := i) (by omega)))
  obtain ⟨k, hk⟩ := hrows.dvd (hsub.subset (List.getElem_mem hi))
  have hle : ¬g[i].t + fiveMinutes < g[i + 1].t := by simpa [follows] using hjoined
  unfold fiveMinutes at *
  omega

/-- An island counts the samples whose bucket is one of its own. -/
theorem islandOf_cnt (hrows : BucketsOf machine ts rows)
    (hislands : Islands follows BucketRow.t rows gs) (hg : g ∈ gs) :
    (islandOf machine g).cnt = ts.countP fun t => bucketOf t ∈ g.map (·.t) := by
  have hsub := hislands.sublist hg
  rw [← sum_countP_fibres bucketOf
    (List.pairwise_map.mpr ((hrows.strict.sublist hsub).imp ne_of_lt)), List.map_map]
  unfold islandOf
  exact congrArg List.sum (List.map_congr_left fun x hx => hrows.count x (hsub.subset hx))

theorem islandOf_covers (hrows : BucketsOf machine ts rows)
    (hislands : Islands follows BucketRow.t rows gs) (hg : g ∈ gs) :
    CoversIsland ts g (islandOf machine g) := by
  have hne := hislands.ne_nil hg
  have hsub := hislands.sublist hg
  have hdvd : ∀ x ∈ g, fiveMinutes ∣ x.t := fun x hx => hrows.dvd (hsub.subset hx)
  have hstep := island_steps hrows hislands hg
  obtain ⟨ha, hb, hbetween⟩ := islandOf_bounds machine hne (hrows.strict.sublist hsub)
  have hbucket : ∀ k, fiveMinutes ∣ k → (islandOf machine g).a ≤ k → k < (islandOf machine g).b →
      ∃ x ∈ g, x.t = k := by
    intro k hk hak hkb
    refine mem_of_chain hne hstep hdvd hk (ha ▸ hak) ?_
    rw [hb] at hkb
    obtain ⟨i, hi⟩ := hk
    obtain ⟨j, hj⟩ := hdvd _ (List.getLast_mem hne)
    unfold fiveMinutes at *
    omega
  have hin : ∀ x ∈ g,
      (islandOf machine g).a ≤ x.t ∧ x.t + fiveMinutes ≤ (islandOf machine g).b := by
    intro x hx
    obtain ⟨hfirst, hlast⟩ := hbetween x hx
    rw [ha, hb]
    exact ⟨hfirst, by omega⟩
  refine
    { proper := ?_
      boundaries := ⟨ha ▸ hdvd _ (List.head_mem hne), ?_⟩
      filled := fun k hk hak hkb => ?_
      count := ?_
      inside := hin }
  · have hhead := hin _ (List.head_mem hne)
    unfold fiveMinutes at hhead
    omega
  · rw [hb]
    exact (hdvd _ (List.getLast_mem hne)).add (dvd_refl _)
  · obtain ⟨x, hx, rfl⟩ := hbucket k hk hak hkb
    obtain ⟨t, ht, htx⟩ := hrows.nonempty x (hsub.subset hx)
    have hbounds := bucketOf_bounds t
    rw [htx] at hbounds
    exact ⟨t, ht, hbounds⟩
  · rw [islandOf_cnt hrows hislands hg, ← List.countP_eq_length_filter]
    refine List.countP_congr fun t _ => ?_
    obtain ⟨hlow, hhigh⟩ := bucketOf_bounds t
    simp only [decide_eq_true_eq, List.mem_map]
    constructor
    · intro h
      obtain ⟨x, hx, hxt⟩ := h
      have hbounds := hin x hx
      rw [hxt] at hbounds
      omega
    · intro h
      obtain ⟨hat, htb⟩ := h
      refine hbucket _ (dvd_bucketOf t) ?_ (lt_of_le_of_lt hlow htb)
      rw [ha] at hat ⊢
      obtain ⟨i, hi⟩ := hdvd _ (List.head_mem hne)
      unfold bucketOf fiveMinutes at *
      omega

/-- Successive islands are apart. -/
theorem islands_apart (hrows : BucketsOf machine ts rows)
    (hislands : Islands follows BucketRow.t rows gs) :
    (gs.map (islandOf machine)).Pairwise fun x y => x.b < y.a ∧ y.a < y.b := by
  have hchain : (gs.map (islandOf machine)).IsChain fun x y => x.b < y.a ∧ y.a < y.b := by
    rw [List.isChain_map]
    refine hislands.apart.imp_of_mem_imp ?_
    intro g g' hg hg' hapart
    have hne := hislands.ne_nil hg
    have hne' := hislands.ne_nil hg'
    obtain ⟨-, hb, -⟩ :=
      islandOf_bounds machine hne (hrows.strict.sublist (hislands.sublist hg))
    obtain ⟨ha', -, -⟩ :=
      islandOf_bounds machine hne' (hrows.strict.sublist (hislands.sublist hg'))
    have hlt := hapart _ (List.getLast?_eq_some_getLast hne) _ (List.head?_eq_some_head hne')
    refine ⟨?_, (islandOf_covers hrows hislands hg').proper⟩
    rw [hb, ha']
    simpa [follows] using hlt
  -- an island between two others keeps them apart
  have htrans : IsTrans IslandRow fun x y => x.b < y.a ∧ y.a < y.b :=
    ⟨fun x y z hxy hyz => ⟨by omega, hyz.2⟩⟩
  exact hchain.pairwise

/-- The islands come by increasing `a`. -/
theorem islands_increasing (hrows : BucketsOf machine ts rows)
    (hislands : Islands follows BucketRow.t rows gs) :
    (gs.map (islandOf machine)).Pairwise fun x y => x.a < y.a := by
  refine (List.Pairwise.and_mem.mp (islands_apart hrows hislands)).imp ?_
  intro x y h
  obtain ⟨hx, -, hlt, -⟩ := h
  obtain ⟨g, hg, rfl⟩ := List.mem_map.mp hx
  have hproper := (islandOf_covers hrows hislands hg).proper
  omega

/-- The islands together count all samples. -/
theorem islands_total (hrows : BucketsOf machine ts rows)
    (hislands : Islands follows BucketRow.t rows gs) :
    ((gs.map (islandOf machine)).map (·.cnt)).sum = ts.length := by
  have hflat : ((gs.map (islandOf machine)).map (·.cnt)).sum = (rows.map (·.cnt)).sum := by
    rw [← hislands.flatten, List.map_flatten, List.sum_flatten, List.map_map, List.map_map]
    rfl
  have hcount : rows.map (·.cnt)
      = (rows.map (·.t)).map fun k => ts.countP fun t => bucketOf t = k := by
    rw [List.map_map]
    exact List.map_congr_left fun x hx => hrows.count x hx
  rw [hflat, hcount,
    sum_countP_fibres bucketOf (List.pairwise_map.mpr (hrows.strict.imp ne_of_lt)),
    List.countP_eq_length]
  intro t ht
  obtain ⟨x, hx, hxt⟩ := hrows.covers t ht
  exact decide_eq_true (List.mem_map.mpr ⟨x, hx, hxt⟩)

end

/-! ## The view -/

def numberedRow (x : IslandRow × ℕ) : ActivityPeriod where
  machine_id := x.1.machine_id
  a := x.1.a
  b := x.1.b
  duration := x.1.b - x.1.a
  r := x.2
  cnt := x.1.cnt

theorem numbered_eq (x : IslandRow × ℕ) (row : ActivityPeriod) (h : numbered x = some row) :
    row = numberedRow x :=
  eq_of_subTimestamp h

/-- The gaps-and-islands partition of the timestamps `ts` of a machine. -/
structure PartitionsActivity (ts : List ℤ) (rows : List ActivityPeriod) : Prop where
  /-- Every sample lies in exactly one row. -/
  once : ∀ t ∈ ts, (rows.filter fun row => row.a ≤ t ∧ t < row.b).length = 1
  boundaries : ∀ row ∈ rows, fiveMinutes ∣ row.a ∧ fiveMinutes ∣ row.b ∧ row.a < row.b
  /-- Every five minutes of a row hold a sample. -/
  filled : ∀ row ∈ rows, ∀ k, fiveMinutes ∣ k → row.a ≤ k → k < row.b →
    ∃ t ∈ ts, k ≤ t ∧ t < k + fiveMinutes
  gaps : rows.IsChain fun row next => row.b < next.a
  count : ∀ row ∈ rows, row.cnt = (ts.filter fun t => row.a ≤ t ∧ t < row.b).length
  total : (rows.map (·.cnt)).sum = ts.length
  /-- The rows come by increasing `a`, and `r` numbers them from 1. -/
  increasing : rows.Pairwise fun row next => row.a < next.a
  numbered : rows.map (·.r) = List.range' 1 rows.length
  duration : ∀ row ∈ rows, row.duration = row.b - row.a

/-- Numbering adds `r` and the duration to the rows, and changes nothing else. -/
theorem map_numbered {K : Type} (f : IslandRow → K) (f' : ActivityPeriod → K)
    (h : ∀ x, f' (numberedRow x) = f x.1) (islands : List IslandRow) :
    ((rowNumber islands).map numberedRow).map f' = islands.map f := by
  conv => rhs; rw [← List.zipIdx_map_fst 1 islands]
  rw [List.map_map, List.map_map]
  exact List.map_congr_left fun x _ => h x

theorem map_r_numbered (islands : List IslandRow) :
    ((rowNumber islands).map numberedRow).map (·.r) = List.range' 1 islands.length := by
  rw [List.map_map]
  exact List.zipIdx_map_snd 1 islands

theorem numbered_increasing {machine : JString} {ts : List ℤ} {rows : List BucketRow}
    (hrows : BucketsOf machine ts rows) {gs : List (List BucketRow)}
    (hislands : Islands follows BucketRow.t rows gs) :
    ((rowNumber (gs.map (islandOf machine))).map numberedRow).Pairwise fun row next =>
      row.a < next.a := by
  have ha := List.pairwise_map.mpr (islands_increasing hrows hislands)
  rw [← map_numbered (·.a) (·.a) fun _ => rfl] at ha
  exact List.pairwise_map.mp ha

theorem partitionsActivity_islands {machine : JString} {ts : List ℤ} {rows : List BucketRow}
    (hrows : BucketsOf machine ts rows) {gs : List (List BucketRow)}
    (hislands : Islands follows BucketRow.t rows gs) :
    PartitionsActivity ts ((rowNumber (gs.map (islandOf machine))).map numberedRow) := by
  have hcovers : ∀ row ∈ (rowNumber (gs.map (islandOf machine))).map numberedRow, ∃ g ∈ gs,
      row.a = (islandOf machine g).a ∧ row.b = (islandOf machine g).b ∧
      row.cnt = (islandOf machine g).cnt ∧ row.duration = row.b - row.a ∧
      CoversIsland ts g (islandOf machine g) := by
    intro row hrow
    obtain ⟨x, hx, rfl⟩ := List.mem_map.mp hrow
    obtain ⟨g, hg, heq⟩ := List.mem_map.mp (List.fst_mem_of_mem_zipIdx hx)
    refine ⟨g, hg, ?_, ?_, ?_, rfl, islandOf_covers hrows hislands hg⟩ <;> rw [heq] <;> rfl
  have hapart : ((rowNumber (gs.map (islandOf machine))).map numberedRow).Pairwise fun x y =>
      x.b < y.a ∧ y.a < y.b := by
    have hfst := islands_apart hrows hislands
    rw [← List.zipIdx_map_fst 1 (gs.map (islandOf machine)), List.pairwise_map] at hfst
    exact List.pairwise_map.mpr hfst
  refine
    { once := fun t ht => ?_
      boundaries := fun row hrow => ?_
      filled := fun row hrow k hk hak hkb => ?_
      gaps := (hapart.imp fun h => h.1).isChain
      count := fun row hrow => ?_
      total := ?_
      increasing := numbered_increasing hrows hislands
      numbered := ?_
      duration := fun row hrow => ?_ }
  · -- the bucket of the sample is in an island
    obtain ⟨x, hx, hxt⟩ := hrows.covers t ht
    obtain ⟨g, hg, hxg⟩ := List.mem_flatten.mp (hislands.flatten ▸ hx)
    obtain ⟨i, hi, rfl⟩ := List.getElem_of_mem hg
    have hrow : numberedRow (islandOf machine gs[i], 1 + i) ∈
        (rowNumber (gs.map (islandOf machine))).map numberedRow := by
      refine List.mem_map_of_mem (List.mem_zipIdx_iff_le_and_getElem?_sub.mpr ⟨by omega, ?_⟩)
      simp [hi]
    have hinside := (islandOf_covers hrows hislands (List.getElem_mem hi)).inside x hxg
    have hbounds := bucketOf_bounds t
    rw [hxt] at hinside
    refine length_filter_eq_one (hapart.imp fun h hboth => ?_) hrow ⟨?_, ?_⟩
    · omega
    · exact le_trans hinside.1 hbounds.1
    · exact lt_of_lt_of_le hbounds.2 hinside.2
  · obtain ⟨g, -, ha, hb, -, -, hcov⟩ := hcovers row hrow
    rw [ha, hb]
    exact ⟨hcov.boundaries.1, hcov.boundaries.2, hcov.proper⟩
  · obtain ⟨g, -, ha, hb, -, -, hcov⟩ := hcovers row hrow
    exact hcov.filled k hk (ha ▸ hak) (hb ▸ hkb)
  · obtain ⟨g, -, ha, hb, hcnt, -, hcov⟩ := hcovers row hrow
    rw [hcnt, ha, hb]
    exact hcov.count
  · rw [map_numbered (·.cnt) (·.cnt) fun _ => rfl]
    exact islands_total hrows hislands
  · rw [map_r_numbered, List.length_map (f := numberedRow), rowNumber, List.length_zipIdx]
  · obtain ⟨g, -, -, -, -, hduration, -⟩ := hcovers row hrow
    exact hduration

/-- The rows of one machine in the result of the view. -/
theorem filter_activityPeriodsAlt {input : List Sample} {rows : List ActivityPeriod}
    (hview : activityPeriodsAlt input = some rows) (machine : JString) :
    ∃ gs, Islands follows BucketRow.t
        (partition (·.machine_id) (·.t) ((counted (input.map stampedOf)).map bucketRow) machine)
        gs ∧
      rows.filter (fun row => row.machine_id = machine)
        = (rowNumber (gs.map (islandOf machine))).map numberedRow := by
  unfold activityPeriodsAlt at hview
  obtain ⟨stampedRows, hstamped, hview⟩ := Option.bind_eq_some_iff.mp hview
  obtain ⟨buckets, hbuckets, hview⟩ := Option.bind_eq_some_iff.mp hview
  obtain ⟨flags, hflags, hview⟩ := Option.bind_eq_some_iff.mp hview
  obtain ⟨spans, hspans, hview⟩ := Option.bind_eq_some_iff.mp hview
  obtain ⟨periods, hperiods, hrows⟩ := Option.bind_eq_some_iff.mp hview
  obtain rfl := Option.some.inj hrows
  have hstamped := eq_map_of_mapM hstamped stamped_eq
  have hbuckets := eq_map_of_mapM hbuckets bucket_eq
  have hflags := eq_map_of_mapM hflags flagged_eq
  have hspans := eq_map_of_mapM hspans span_eq
  have hperiods := eq_map_of_mapM hperiods numbered_eq
  subst hstamped hbuckets hflags
  have hbucketsOf := bucketsOf_counted input machine
  obtain ⟨gs, hislands⟩ := exists_islands follows BucketRow.t
    (partition (·.machine_id) (·.t) ((counted (input.map stampedOf)).map bucketRow) machine)
  have hspans := hspans ▸ filter_spans rfl hislands
  have hgrouped := grouped_perm hspans hislands.nonempty
  have hincreasing := islands_increasing hbucketsOf hislands
  -- the machine's islands, numbered by increasing `a`
  have hpartition : partition (·.machine_id) (·.a) (grouped spans) machine
      = gs.map (islandOf machine) :=
    eq_of_perm_of_sorted ((orderBy_perm _ _).trans hgrouped) (orderBy_sorted _ _) hincreasing
  have hnumbered : periods.filter (fun row => row.machine_id = machine)
      = (rowNumber (gs.map (islandOf machine))).map numberedRow := by
    rw [hperiods, List.filter_map, ← hpartition]
    exact congrArg (List.map numberedRow)
      (filter_over (fun x : IslandRow × ℕ => x.1.machine_id) rfl
        (fun as k has b hb => has b.1 (List.fst_mem_of_mem_zipIdx hb)) (grouped spans) machine)
  refine ⟨gs, hislands, eq_of_perm_of_sorted ?_ ((orderBy_sorted _ _).filter _)
    (numbered_increasing hbucketsOf hislands)⟩
  rw [← hnumbered]
  exact ((orderBy_perm _ _).trans (orderBy_perm _ _)).filter _

/-! ## The answer -/

/-- A bucket that starts and ends in reach. -/
def BucketInReach (t : ℤ) : Prop := inReach t ∧ t + fiveMinutes ≤ 9000000000000000000

theorem bucketInReach_bucketOf {t : ℤ} (h : inReach t) : BucketInReach (bucketOf t) := by
  unfold inReach at h
  unfold BucketInReach inReach bucketOf fiveMinutes
  omega

theorem BucketInReach.next {t : ℤ} (h : BucketInReach t) : inRange (t + fiveMinutes) := by
  obtain ⟨ht, hnext⟩ := h
  unfold inReach at ht
  unfold fiveMinutes at *
  unfold inRange
  omega

theorem isSome_flagged {x : BucketRow × Option ℤ} (h : ∀ pt ∈ x.2, BucketInReach pt) :
    (flagged x).isSome := by
  obtain ⟨x, pt⟩ := x
  cases pt with
  | none => rfl
  | some pt =>
    refine isSome_row ?_
    show ((addInterval pt fiveMinutes).map _).isSome
    rw [Option.isSome_map]
    exact isSome_addInterval (h pt rfl).next

/-- The periods of buckets in reach are intervals. -/
theorem isSome_numbered {spans : List SpanRow}
    (hspans : ∀ x ∈ spans, BucketInReach x.a ∧ x.b = x.a + fiveMinutes) {x : IslandRow × ℕ}
    (hx : x.1 ∈ grouped spans) : (numbered x).isSome := by
  obtain ⟨y, hy, hxy⟩ := mem_groupBy.mp hx
  have hne : y ∈ spans.filter fun z => (z.machine_id, z.g) = (y.machine_id, y.g) :=
    List.mem_filter.mpr ⟨hy, decide_eq_true rfl⟩
  obtain ⟨a, ha⟩ := Option.isSome_iff_exists.mp
    (List.isSome_min?_of_mem (List.mem_map_of_mem (f := SpanRow.a) hne))
  obtain ⟨b, hb⟩ := Option.isSome_iff_exists.mp
    (List.isSome_max?_of_mem (List.mem_map_of_mem (f := SpanRow.b) hne))
  obtain ⟨z, hz, hza⟩ := List.mem_map.mp (List.min?_mem ha)
  obtain ⟨w, hw, hwb⟩ := List.mem_map.mp (List.max?_mem hb)
  obtain ⟨⟨hz, -⟩, -⟩ := hspans z (List.mem_filter.mp hz).1
  obtain ⟨⟨hw, hend⟩, hnext⟩ := hspans w (List.mem_filter.mp hw).1
  have hxa : x.1.a = z.a := by
    rw [hxy, hza]
    exact congrArg (·.getD 0) ha
  have hxb : x.1.b = w.a + fiveMinutes := by
    rw [hxy, ← hnext, hwb]
    exact congrArg (·.getD 0) hb
  refine isSome_row (isSome_subTimestamp ?_)
  rw [hxa, hxb]
  unfold inReach at hz hw
  unfold fiveMinutes at *
  omega

/-- The view answers where the timestamps are in reach. -/
theorem isSome_activityPeriodsAlt {input : List Sample}
    (hreach : ∀ x ∈ input, inReach (millis x.timestamp)) : (activityPeriodsAlt input).isSome := by
  have hstamped : (input.mapM stamped).isSome := isSome_mapM_iff.mpr fun x hx =>
    isSome_row (isSome_toTimestamp_millis (hreach x hx).inRange)
  obtain ⟨stampedRows, hstamped⟩ := Option.isSome_iff_exists.mp hstamped
  obtain rfl := eq_map_of_mapM hstamped stamped_eq
  have hbucket : ∀ row ∈ (counted (input.map stampedOf)).map bucketRow, BucketInReach row.t := by
    intro row hrow
    obtain ⟨x, hx, rfl⟩ := mem_buckets.mp hrow
    exact bucketInReach_bucketOf (hreach x hx)
  have hbuckets : ((counted (input.map stampedOf)).mapM bucket).isSome :=
    isSome_mapM_iff.mpr fun c hc =>
      isSome_row (isSome_addInterval (hbucket _ (List.mem_map_of_mem hc)).1.inRange)
  obtain ⟨buckets, hbuckets⟩ := Option.isSome_iff_exists.mp hbuckets
  obtain rfl := eq_map_of_mapM hbuckets bucket_eq
  have hflags : ((overPartition (·.machine_id) (·.t) (lagged (·.t))
      ((counted (input.map stampedOf)).map bucketRow)).mapM flagged).isSome := by
    refine isSome_mapM_iff.mpr fun x hx => isSome_flagged fun pt hpt => ?_
    obtain ⟨row, pt'⟩ := x
    obtain rfl : pt' = some pt := hpt
    obtain ⟨y, hy, rfl⟩ := exists_of_lagged hx
    exact hbucket y hy
  obtain ⟨flags, hflags⟩ := Option.isSome_iff_exists.mp hflags
  have hflag : ∀ row ∈ flags, BucketInReach row.t := by
    rw [eq_map_of_mapM hflags flagged_eq]
    intro row hrow
    obtain ⟨x, hx, rfl⟩ := List.mem_map.mp hrow
    exact hbucket _ (mem_of_mem_over (fun _ _ => mem_of_mem_lagged) hx)
  have hsummed : ∀ x ∈ overPartition (·.machine_id) (·.t) (runningSum (·.r) 0) flags,
      BucketInReach x.1.t := fun x hx =>
    hflag _ (mem_of_mem_over (fun as b hb => map_fst_runningSum (·.r) 0 as ▸
      List.mem_map_of_mem hb) hx)
  have hspans : ((overPartition (·.machine_id) (·.t) (runningSum (·.r) 0) flags).mapM
      span).isSome :=
    isSome_mapM_iff.mpr fun x hx => isSome_row (isSome_addInterval (hsummed x hx).next)
  obtain ⟨spans, hspans⟩ := Option.isSome_iff_exists.mp hspans
  have hspan : ∀ x ∈ spans, BucketInReach x.a ∧ x.b = x.a + fiveMinutes := by
    rw [eq_map_of_mapM hspans span_eq]
    intro x hx
    obtain ⟨y, hy, rfl⟩ := List.mem_map.mp hx
    exact ⟨hsummed y hy, rfl⟩
  have hperiods : ((overPartition (·.machine_id) (·.a) rowNumber (grouped spans)).mapM
      numbered).isSome :=
    isSome_mapM_iff.mpr fun x hx => isSome_numbered hspan
      (mem_of_mem_over (fun as b hb => List.fst_mem_of_mem_zipIdx hb) hx)
  obtain ⟨periods, hperiods⟩ := Option.isSome_iff_exists.mp hperiods
  unfold activityPeriodsAlt
  rw [hstamped, Option.bind_eq_bind, Option.bind_some, hbuckets, Option.bind_eq_bind,
    Option.bind_some, hflags, Option.bind_eq_bind, Option.bind_some, hspans, Option.bind_eq_bind,
    Option.bind_some, hperiods]
  rfl

/-- Where the view answers, the timestamps are in range. -/
theorem inRange_of_activityPeriodsAlt {input : List Sample} {rows : List ActivityPeriod}
    (hview : activityPeriodsAlt input = some rows) :
    ∀ x ∈ input, inRange (millis x.timestamp) := by
  intro x hx
  obtain ⟨stampedRows, hstamped, -⟩ := Option.bind_eq_some_iff.mp hview
  obtain ⟨row, hrow⟩ := exists_of_mapM hstamped x hx
  obtain ⟨t, ht, -⟩ := Option.bind_eq_some_iff.mp hrow
  exact (toTimestamp_millis ht).2

/-- Where the view answers, its periods are intervals. -/
theorem isSome_duration {input : List Sample} {rows : List ActivityPeriod}
    (hview : activityPeriodsAlt input = some rows) :
    ∀ p ∈ rows, (subTimestamp p.b p.a).isSome := by
  intro p hp
  obtain ⟨stampedRows, -, hview⟩ := Option.bind_eq_some_iff.mp hview
  obtain ⟨buckets, -, hview⟩ := Option.bind_eq_some_iff.mp hview
  obtain ⟨flags, -, hview⟩ := Option.bind_eq_some_iff.mp hview
  obtain ⟨spans, -, hview⟩ := Option.bind_eq_some_iff.mp hview
  obtain ⟨periods, hperiods, hrows⟩ := Option.bind_eq_some_iff.mp hview
  obtain rfl := Option.some.inj hrows
  have hp := mem_orderBy.mp (mem_orderBy.mp hp)
  rw [eq_map_of_mapM hperiods numbered_eq] at hp
  obtain ⟨x, hx, rfl⟩ := List.mem_map.mp hp
  obtain ⟨row, hrow⟩ := exists_of_mapM hperiods x hx
  obtain ⟨duration, hduration, -⟩ := Option.bind_eq_some_iff.mp hrow
  exact Option.isSome_iff_exists.mpr ⟨duration, hduration⟩

/-- The rows of the view for a machine. -/
theorem partitions_activityPeriodsAlt {input : List Sample} {rows : List ActivityPeriod}
    (hview : activityPeriodsAlt input = some rows) (machine : JString) :
    PartitionsActivity (timestampsOf input machine)
      (rows.filter fun row => row.machine_id = machine) := by
  obtain ⟨gs, hislands, hfilter⟩ := filter_activityPeriodsAlt hview machine
  rw [hfilter]
  exact partitionsActivity_islands (bucketsOf_counted input machine) hislands

/-- **The view is the gaps-and-islands partition** of every machine's samples: it answers
where the timestamps are in reach, and its rows for a machine are the maximal runs of
successive five minutes that hold a sample. -/
theorem activityPeriodsAlt_partitions (input : List Sample) :
    ((∀ x ∈ input, inReach (millis x.timestamp)) → (activityPeriodsAlt input).isSome) ∧
    ∀ rows, activityPeriodsAlt input = some rows → ∀ machine,
      PartitionsActivity (timestampsOf input machine)
        (rows.filter fun row => row.machine_id = machine) :=
  ⟨isSome_activityPeriodsAlt, fun _ hview machine => partitions_activityPeriodsAlt hview machine⟩

/-- A sample of a machine. -/
def activitySample (machine : String) (timestamp : Int64) : Sample where
  machineId := machine.toList
  execution := none
  timestamp := timestamp
  partition := 0
  offset := timestamp

/-- Samples at 0:01, 0:06 and 0:11, and at 1:00. -/
def morningSamples : List Sample :=
  [activitySample "lathe" 3600000, activitySample "lathe" 60000, activitySample "mill" 60000,
    activitySample "lathe" 660000, activitySample "lathe" 360000]

def morningPeriods : List ActivityPeriod :=
  [{ machine_id := "lathe".toList, a := 0, b := 900000000, duration := 900000000, r := 1,
     cnt := 3 },
   { machine_id := "mill".toList, a := 0, b := 300000000, duration := 300000000, r := 1,
     cnt := 1 },
   { machine_id := "lathe".toList, a := 3600000000, b := 3900000000, duration := 300000000, r := 2,
     cnt := 1 }]

/-- The lathe was active for the first fifteen minutes, and from one o'clock on. -/
theorem activityPeriodsAlt_morning :
    activityPeriodsAlt morningSamples = some morningPeriods ∧
    PartitionsActivity (timestampsOf morningSamples "lathe".toList)
      (morningPeriods.filter fun row => row.machine_id = "lathe".toList) := by
  obtain ⟨hanswers, hpartitions⟩ := activityPeriodsAlt_partitions morningSamples
  obtain ⟨rows, hview⟩ := Option.isSome_iff_exists.mp (hanswers (by decide))
  obtain rfl : rows = morningPeriods := Option.some.inj (hview.symm.trans (by decide +kernel))
  exact ⟨hview, hpartitions _ hview "lathe".toList⟩

end FanucDriver.Queries
