import FanucDriver.Lib.Islands
import FanucDriver.Queries.Timestamps
import FanucDriver.Streams.Staging
import Mathlib.Data.List.Chain
import Mathlib.Data.Prod.Lex

/-!
# The activity periods of `machine_counts`

`query-activity-periods.sql` looks at the half hours of every machine, with the number of
samples in each, and joins successive half hours that are both busy or both idle: a lag
over the condition, a running sum of the changes, and a grouping by machine, sum and
condition.

`activityPeriods_tiles`: over buckets that follow one another without a gap, the rows of a
machine follow one another without a gap, from the first bucket to the last, and their
conditions alternate.

Mirroring notes:
- The order of `machine_id` is that of its characters; the database has a collation.
- `b - a` raises an error where the interval does not fit, for the whole query (`none`).
- In the windows no two rows tie.
-/

namespace FanucDriver.Queries

open FanucDriver.Streams FanucDriver.Lib FanucDriver.Lib.Window

/-! ## The relation -/

/-- The rows of `machine_counts`. -/
structure MachineCount where
  machine_id : JString
  a : ℤ
  b : ℤ
  count : ℕ
  deriving DecidableEq

/-- Buckets that follow one another, the last one up to the current time. -/
structure Successive (now : ℤ) (bs : List MachineCount) : Prop where
  proper : ∀ x ∈ bs, x.a < x.b
  next : bs.IsChain fun x y => x.b = y.a
  last : ∀ x ∈ bs.getLast?, x.b = now

/-- The view: in any order of the rows, the buckets of a machine follow one another. -/
structure MachineCounts (now : ℤ) where
  rows : List MachineCount
  successive : ∀ machine, ∃ bs,
    (rows.filter fun x => x.machine_id = machine).Perm bs ∧ Successive now bs

/-! ## The levels of the query -/

structure CondRow where
  machine_id : JString
  a : ℤ
  b : ℤ
  count : ℕ
  cond : Bool

structure MarkRow where
  machine_id : JString
  a : ℤ
  b : ℤ
  count : ℕ
  cond : Bool
  r : ℤ

structure PeriodRow where
  machine_id : JString
  a : ℤ
  b : ℤ
  cond : Bool

/-- The rows of the query. -/
structure Period where
  machine_id : JString
  a : ℤ
  b : ℤ
  cond : Bool
  diff : ℤ
  deriving DecidableEq

/-- `count < 1000 as cond` -/
def conditioned (x : MachineCount) : CondRow where
  machine_id := x.machine_id
  a := x.a
  b := x.b
  count := x.count
  cond := x.count < 1000

/-- `case when pcond is null or cond != pcond then 1 else 0 end as r` -/
def marked (x : CondRow × Option Bool) : MarkRow where
  machine_id := x.1.machine_id
  a := x.1.a
  b := x.1.b
  count := x.1.count
  cond := x.1.cond
  r :=
    match x.2 with
    | none => 1
    | some pcond => if x.1.cond ≠ pcond then 1 else 0

/-- `sum(r) over (…) as r` -/
def summed (x : MarkRow × ℤ) : MarkRow := { x.1 with r := x.2 }

/-- `group by machine_id, r, cond`; a group is not empty. -/
def periodRows : List MarkRow → List PeriodRow :=
  groupBy (fun x => (x.machine_id, x.r, x.cond)) fun k group =>
    { machine_id := k.1
      a := (group.map (·.a)).min?.getD 0
      b := (group.map (·.b)).max?.getD 0
      cond := k.2.2 }

/-- `select *, b - a as diff` -/
def withDiff (x : PeriodRow) : Option Period := do
  let diff ← subTimestamp x.b x.a
  some { machine_id := x.machine_id, a := x.a, b := x.b, cond := x.cond, diff := diff }

/-- The levels below the grouping. -/
def summedRows (counts : List MachineCount) : List MarkRow :=
  let marks := (overPartition (·.machine_id) (·.a) (lagged (·.cond)) (counts.map conditioned)).map
    marked
  (overPartition (·.machine_id) (·.a) (runningSum (·.r) 0) marks).map summed

/-- The query over the rows of `machine_counts`. -/
def activityPeriods (counts : List MachineCount) : Option (List Period) := do
  let periods ← (periodRows (summedRows counts)).mapM withDiff
  -- `order by machine_id, a asc`
  some (orderBy (fun x => toLex (x.machine_id, x.a)) periods)

/-! ## The buckets of a machine -/

theorem Successive.increasing {now : ℤ} {bs : List MachineCount} (h : Successive now bs) :
    bs.Pairwise fun x y => x.a < y.a ∧ x.b ≤ y.a := by
  have hchain : bs.IsChain fun x y => x.a < y.a ∧ x.b ≤ y.a := by
    refine h.next.imp_of_mem_imp fun x y hx hy hxy => ?_
    have hproper := h.proper x hx
    omega
  have htrans : IsTrans MachineCount fun x y => x.a < y.a ∧ x.b ≤ y.a :=
    ⟨fun x y z hxy hyz => by omega⟩
  exact hchain.pairwise

theorem Successive.ends {now : ℤ} {bs : List MachineCount} (h : Successive now bs) :
    bs.Pairwise fun x y => x.b ≤ y.b := by
  refine (List.Pairwise.and_mem.mp h.increasing).imp fun hxy => ?_
  have hproper := h.proper _ hxy.2.1
  omega

/-- The buckets of a machine, in window order, with their conditions. -/
theorem partition_conditioned {now : ℤ} {counts bs : List MachineCount} {machine : JString}
    (hperm : (counts.filter fun x => x.machine_id = machine).Perm bs) (hbs : Successive now bs) :
    partition (·.machine_id) (·.a) (counts.map conditioned) machine = bs.map conditioned := by
  unfold partition
  rw [List.filter_map]
  refine eq_of_perm_of_sorted ((orderBy_perm _ _).trans (hperm.map _)) (orderBy_sorted _ _) ?_
  exact List.pairwise_map.mpr (hbs.increasing.imp fun h => h.1)

/-- The machine's buckets, with conditions, that follow one another. -/
structure Buckets (machine : JString) (cs : List CondRow) : Prop where
  machine : ∀ x ∈ cs, x.machine_id = machine
  proper : ∀ x ∈ cs, x.a < x.b
  next : cs.IsChain fun x y => x.b = y.a
  increasing : cs.Pairwise fun x y => x.a < y.a ∧ x.b ≤ y.a
  cond : ∀ x ∈ cs, x.cond = decide (x.count < 1000)

theorem buckets_conditioned {now : ℤ} {counts bs : List MachineCount} {machine : JString}
    (hperm : (counts.filter fun x => x.machine_id = machine).Perm bs) (hbs : Successive now bs) :
    Buckets machine (bs.map conditioned) where
  machine := by
    refine List.forall_mem_map.mpr fun x hx => ?_
    exact of_decide_eq_true (List.mem_filter.mp (hperm.mem_iff.mpr hx)).2
  proper := List.forall_mem_map.mpr hbs.proper
  next := List.isChain_map _ |>.mpr hbs.next
  increasing := List.pairwise_map.mpr hbs.increasing
  cond := List.forall_mem_map.mpr fun _ _ => rfl

/-! ## Islands of one condition -/

/-- Successive buckets of one condition are joined. -/
def sameCond (c d : Bool) : Bool := c == d

/-- The row of an island. -/
def periodOf (machine : JString) (g : List CondRow) : PeriodRow where
  machine_id := machine
  a := (g.map (·.a)).min?.getD 0
  b := (g.map (·.b)).max?.getD 0
  cond := (g.head?.map (·.cond)).getD false

section
variable {machine : JString} {cs : List CondRow} {gs : List (List CondRow)} {g : List CondRow}

/-- An island has the condition of its first bucket. -/
theorem condIsland_cond (hislands : Islands sameCond CondRow.cond cs gs) (hg : g ∈ gs) :
    ∀ x ∈ g, x.cond = (periodOf machine g).cond := by
  have hchain : g.IsChain fun x y => x.cond = y.cond :=
    (hislands.inside g hg).imp fun _ _ h => beq_iff_eq.mp h
  have htrans : IsTrans CondRow fun x y => x.cond = y.cond := ⟨fun _ _ _ => Eq.trans⟩
  intro x hx
  cases g with
  | nil => exact absurd hx List.not_mem_nil
  | cons y g =>
    rcases List.mem_cons.mp hx with rfl | hx
    · rfl
    · exact ((List.pairwise_cons.mp hchain.pairwise).1 x hx).symm

theorem condIsland_bounds (hcs : Buckets machine cs)
    (hislands : Islands sameCond CondRow.cond cs gs) (hg : g ∈ gs) :
    (periodOf machine g).a = (g.head (hislands.ne_nil hg)).a ∧
    (periodOf machine g).b = (g.getLast (hislands.ne_nil hg)).b ∧
    ∀ x ∈ g, (periodOf machine g).a ≤ x.a ∧ x.b ≤ (periodOf machine g).b := by
  have hne := hislands.ne_nil hg
  have hincreasing := hcs.increasing.sublist (hislands.sublist hg)
  have hends : g.Pairwise fun x y => x.b ≤ y.b := by
    refine (List.Pairwise.and_mem.mp hincreasing).imp fun h => ?_
    have hproper := hcs.proper _ ((hislands.sublist hg).subset h.2.1)
    omega
  have hmin := min?_of_sorted (f := CondRow.a) hne (hincreasing.imp fun h => le_of_lt h.1)
  have hmax := max?_of_sorted (f := CondRow.b) hne hends
  have ha : (periodOf machine g).a = (g.head hne).a := by
    unfold periodOf
    rw [hmin, Option.getD_some]
  have hb : (periodOf machine g).b = (g.getLast hne).b := by
    unfold periodOf
    rw [hmax, Option.getD_some]
  refine ⟨ha, hb, fun x hx => ⟨?_, ?_⟩⟩
  · rw [ha]
    exact (List.min?_eq_some_iff.mp hmin).2 _ (List.mem_map_of_mem hx)
  · rw [hb]
    exact (List.max?_eq_some_iff.mp hmax).2 _ (List.mem_map_of_mem hx)

/-- An island starts before it ends. -/
theorem condIsland_proper (hcs : Buckets machine cs)
    (hislands : Islands sameCond CondRow.cond cs gs) (hg : g ∈ gs) :
    (periodOf machine g).a < (periodOf machine g).b := by
  have hne := hislands.ne_nil hg
  obtain ⟨-, -, hinside⟩ := condIsland_bounds hcs hislands hg
  have hhead := hinside _ (List.head_mem hne)
  have hproper := hcs.proper _ ((hislands.sublist hg).subset (List.head_mem hne))
  omega

/-- The next island starts where the one before ends, with the other condition. -/
theorem condIslands_next (hcs : Buckets machine cs)
    (hislands : Islands sameCond CondRow.cond cs gs) :
    (gs.map (periodOf machine)).IsChain fun x y => x.b = y.a ∧ x.cond ≠ y.cond := by
  have hnext := hislands.flatten ▸ hcs.next
  rw [List.isChain_flatten hislands.nonempty] at hnext
  rw [List.isChain_map, List.isChain_iff_getElem]
  intro i hi
  have hmeet := List.isChain_iff_getElem.mp hnext.2 i hi
  have hapart := List.isChain_iff_getElem.mp hislands.apart i hi
  have hg : gs[i] ∈ gs := List.getElem_mem _
  have hg' : gs[i + 1] ∈ gs := List.getElem_mem _
  generalize gs[i] = g at *
  generalize gs[i + 1] = g' at *
  have hne := hislands.ne_nil hg
  have hne' := hislands.ne_nil hg'
  obtain ⟨-, hb, -⟩ := condIsland_bounds hcs hislands hg
  obtain ⟨ha', -, -⟩ := condIsland_bounds hcs hislands hg'
  have hlast := List.getLast?_eq_some_getLast hne
  have hhead := List.head?_eq_some_head hne'
  refine ⟨?_, ?_⟩
  · rw [hb, ha']
    exact hmeet _ hlast _ hhead
  · have hcond := hapart _ hlast _ hhead
    rw [← condIsland_cond hislands hg _ (List.getLast_mem hne),
      ← condIsland_cond hislands hg' _ (List.head_mem hne')]
    exact fun heq => absurd ((beq_iff_eq.mpr heq).symm.trans hcond) (by decide)

/-- The islands come by increasing `a` and do not overlap. -/
theorem condIslands_increasing (hcs : Buckets machine cs)
    (hislands : Islands sameCond CondRow.cond cs gs) :
    (gs.map (periodOf machine)).Pairwise fun x y => x.a < y.a ∧ x.b ≤ y.a := by
  have hproper : ∀ x ∈ gs.map (periodOf machine), x.a < x.b := by
    refine List.forall_mem_map.mpr fun g hg => ?_
    exact condIsland_proper hcs hislands hg
  have hchain : (gs.map (periodOf machine)).IsChain fun x y => x.a < y.a ∧ x.b ≤ y.a := by
    refine (condIslands_next hcs hislands).imp_of_mem_imp fun x y hx hy hxy => ?_
    have hx := hproper x hx
    omega
  have htrans : IsTrans PeriodRow fun x y => x.a < y.a ∧ x.b ≤ y.a :=
    ⟨fun x y z hxy hyz => by omega⟩
  exact hchain.pairwise

/-- The islands start with the first bucket. -/
theorem condIslands_first (hcs : Buckets machine cs)
    (hislands : Islands sameCond CondRow.cond cs gs) :
    (gs.map (periodOf machine)).head?.map (·.a) = cs.head?.map (·.a) := by
  cases gs with
  | nil =>
    rw [← hislands.flatten]
    rfl
  | cons g gs =>
    have hne := hislands.ne_nil List.mem_cons_self
    obtain ⟨ha, -, -⟩ := condIsland_bounds hcs hislands List.mem_cons_self
    rw [← hislands.flatten, List.flatten_cons, List.head?_append_of_ne_nil _ hne,
      List.head?_eq_some_head hne]
    exact congrArg some ha

/-- The islands end with the last bucket. -/
theorem condIslands_last (hcs : Buckets machine cs)
    (hislands : Islands sameCond CondRow.cond cs gs) :
    (gs.map (periodOf machine)).getLast?.map (·.b) = cs.getLast?.map (·.b) := by
  rcases List.eq_nil_or_concat gs with rfl | ⟨init, g, rfl⟩
  · rw [← hislands.flatten]
    rfl
  · rw [List.concat_eq_append] at hislands ⊢
    have hg : g ∈ init ++ [g] := List.mem_append_right _ (List.mem_singleton_self g)
    have hne := hislands.ne_nil hg
    obtain ⟨-, hb, -⟩ := condIsland_bounds hcs hislands hg
    rw [← hislands.flatten, List.flatten_append, List.flatten_singleton,
      List.getLast?_append_of_ne_nil _ hne, List.getLast?_eq_some_getLast hne, List.map_append,
      List.map_singleton, List.getLast?_append_of_ne_nil _ (List.cons_ne_nil _ _)]
    exact congrArg some hb

end

/-! ## The query -/

def markRow (x : CondRow) (r : ℤ) : MarkRow where
  machine_id := x.machine_id
  a := x.a
  b := x.b
  count := x.count
  cond := x.cond
  r := r

/-- A mark is 1 where the condition is not that of the row before. -/
theorem marked_r (x : CondRow × Option Bool) :
    (marked x).r = startFlag sameCond CondRow.cond x := by
  obtain ⟨x, pcond⟩ := x
  cases pcond with
  | none => rfl
  | some pcond =>
    unfold marked startFlag sameCond
    by_cases h : x.cond = pcond
    · simp [h]
    · simp [h, Ne.symm h]

/-- The islands of a machine's buckets, each bucket with the number of its island. -/
theorem filter_summedRows {counts : List MachineCount} {cs : List CondRow} {machine : JString}
    {gs : List (List CondRow)}
    (hcs : partition (·.machine_id) (·.a) (counts.map conditioned) machine = cs)
    (hislands : Islands sameCond CondRow.cond cs gs) :
    (summedRows counts).filter (fun x => x.machine_id = machine)
      = (gs.zipIdx 1).flatMap fun x => x.1.map fun y => markRow y x.2 :=
  filter_numbered marked summed MarkRow.machine_id markRow (fun _ => rfl) (fun _ => rfl)
    marked_r (fun _ => rfl) (fun _ _ => rfl) (hcs ▸ hislands)

/-- Grouping by the sum of the marks gives a row for each island. -/
theorem periodRows_perm {runs : List MarkRow} {machine : JString} {gs : List (List CondRow)}
    (hruns : runs.filter (fun x => x.machine_id = machine)
      = (gs.zipIdx 1).flatMap fun x => x.1.map fun y => markRow y x.2)
    (hne : [] ∉ gs) (hcond : ∀ g ∈ gs, ∀ x ∈ g, x.cond = (periodOf machine g).cond) :
    ((periodRows runs).filter fun x => x.machine_id = machine).Perm
      (gs.map (periodOf machine)) := by
  refine groupBy_numbered PeriodRow.machine_id Prod.fst (fun _ _ => rfl) hruns hne
    (fun g n => (machine, n, (periodOf machine g).cond)) (fun k => k.2.1) (fun _ _ => rfl) ?_
    (periodOf machine) ?_
  · intro g hg x hx n hmachine
    exact Prod.ext hmachine (Prod.ext rfl (hcond g hg x hx))
  · intro g _ n
    simp [periodOf, markRow, Function.comp_def]

def withDiffRow (x : PeriodRow) : Period where
  machine_id := x.machine_id
  a := x.a
  b := x.b
  cond := x.cond
  diff := x.b - x.a

theorem withDiff_eq (x : PeriodRow) (row : Period) (h : withDiff x = some row) :
    row = withDiffRow x :=
  eq_of_subTimestamp h

/-- What the rows of a machine are to say about its buckets. -/
structure TilesAlternating (buckets : List MachineCount) (rows : List Period) : Prop where
  /-- The rows come by increasing `a` and do not overlap. -/
  ordered : rows.Pairwise fun x y => x.a < y.a ∧ x.b ≤ y.a
  proper : ∀ x ∈ rows, x.a < x.b ∧ x.diff = x.b - x.a
  first : rows.head?.map (·.a) = (buckets.map (·.a)).min?
  next : rows.IsChain fun x y => x.b = y.a
  last : rows.getLast?.map (·.b) = (buckets.map (·.b)).max?
  alternates : rows.IsChain fun x y => x.cond ≠ y.cond
  /-- Every bucket lies in exactly one row. -/
  once : ∀ x ∈ buckets, (rows.filter fun row => row.a ≤ x.a ∧ x.b ≤ row.b).length = 1
  cond : ∀ x ∈ buckets, ∀ row ∈ rows, row.a ≤ x.a → x.b ≤ row.b →
    row.cond = decide (x.count < 1000)

/-- The rows of a machine, from its buckets. -/
theorem tiles_islands {now : ℤ} {machine : JString} {buckets bs : List MachineCount}
    {gs : List (List CondRow)} (hperm : buckets.Perm bs) (hbs : Successive now bs)
    (hcs : Buckets machine (bs.map conditioned))
    (hislands : Islands sameCond CondRow.cond (bs.map conditioned) gs) :
    TilesAlternating buckets ((gs.map (periodOf machine)).map withDiffRow) := by
  have hordered : ((gs.map (periodOf machine)).map withDiffRow).Pairwise fun x y =>
      x.a < y.a ∧ x.b ≤ y.a := List.pairwise_map.mpr (condIslands_increasing hcs hislands)
  have hnext := condIslands_next hcs hislands
  -- the row of the island of a bucket
  have hrow : ∀ x ∈ buckets, ∃ g ∈ gs, conditioned x ∈ g ∧
      (periodOf machine g).a ≤ x.a ∧ x.b ≤ (periodOf machine g).b := by
    intro x hx
    have hmem : conditioned x ∈ gs.flatten :=
      hislands.flatten ▸ List.mem_map_of_mem (hperm.mem_iff.mp hx)
    obtain ⟨g, hg, hxg⟩ := List.mem_flatten.mp hmem
    obtain ⟨-, -, hinside⟩ := condIsland_bounds hcs hislands hg
    exact ⟨g, hg, hxg, hinside _ hxg⟩
  -- two rows have no bucket in common
  have hapart : ∀ x ∈ buckets,
      ((gs.map (periodOf machine)).map withDiffRow).Pairwise fun row row' =>
        ¬((row.a ≤ x.a ∧ x.b ≤ row.b) ∧ row'.a ≤ x.a ∧ x.b ≤ row'.b) := by
    intro x hx
    have hproper := hbs.proper x (hperm.mem_iff.mp hx)
    exact hordered.imp fun h hboth => by omega
  refine
    { ordered := hordered
      proper := ?_
      first := ?_
      next := ?_
      last := ?_
      alternates := ?_
      once := fun x hx => ?_
      cond := fun x hx row hmem ha hb => ?_ }
  · rw [List.map_map]
    refine List.forall_mem_map.mpr fun g hg => ⟨condIsland_proper hcs hislands hg, rfl⟩
  · have hstarts : bs.Pairwise fun x y => x.a ≤ y.a := hbs.increasing.imp fun h => le_of_lt h.1
    rw [min?_of_perm hperm hstarts, List.head?_map, Option.map_map]
    refine (condIslands_first hcs hislands).trans ?_
    rw [List.head?_map, Option.map_map]
    rfl
  · rw [List.isChain_map]
    exact hnext.imp fun _ _ h => h.1
  · rw [max?_of_perm hperm hbs.ends, List.getLast?_map, Option.map_map]
    refine (condIslands_last hcs hislands).trans ?_
    rw [List.getLast?_map, Option.map_map]
    rfl
  · rw [List.isChain_map]
    exact hnext.imp fun _ _ h => h.2
  · obtain ⟨g, hg, -, hin⟩ := hrow x hx
    exact length_filter_eq_one (hapart x hx)
      (List.mem_map_of_mem (List.mem_map_of_mem hg)) hin
  · obtain ⟨g, hg, hxg, hin⟩ := hrow x hx
    have heq := eq_of_filter_apart (hapart x hx) hmem ⟨ha, hb⟩
      (List.mem_map_of_mem (List.mem_map_of_mem hg)) hin
    rw [heq]
    show (periodOf machine g).cond = _
    rw [← condIsland_cond hislands hg _ hxg]
    rfl

/-- The rows of one machine in the result of the query. -/
theorem filter_activityPeriods {now : ℤ} {counts bs : List MachineCount} {rows : List Period}
    {machine : JString} {gs : List (List CondRow)}
    (hperm : (counts.filter fun x => x.machine_id = machine).Perm bs) (hbs : Successive now bs)
    (hislands : Islands sameCond CondRow.cond (bs.map conditioned) gs)
    (h : activityPeriods counts = some rows) :
    rows.filter (fun x => x.machine_id = machine)
      = (gs.map (periodOf machine)).map withDiffRow := by
  have hcs := buckets_conditioned hperm hbs
  obtain ⟨periods, hperiods, hrows⟩ := Option.bind_eq_some_iff.mp h
  obtain rfl := Option.some.inj hrows
  have hgroups := periodRows_perm (filter_summedRows (partition_conditioned hperm hbs) hislands)
    hislands.nonempty fun g hg => condIsland_cond hislands hg
  have hfilter : (periods.filter fun x => x.machine_id = machine).Perm
      ((gs.map (periodOf machine)).map withDiffRow) := by
    rw [eq_map_of_mapM hperiods withDiff_eq, List.filter_map]
    exact hgroups.map withDiffRow
  have hsorted := (orderBy_sorted (fun x : Period => toLex (x.machine_id, x.a)) periods).filter
    fun x => x.machine_id = machine
  refine eq_of_perm_of_sorted (t := Period.a) (((orderBy_perm _ _).filter _).trans hfilter) ?_ ?_
  · -- of one machine the later row has the later `a`
    refine (List.Pairwise.and_mem.mp hsorted).imp fun {x y} hxy => ?_
    obtain ⟨hx, hy, hle⟩ := hxy
    have hmx := of_decide_eq_true (List.mem_filter.mp hx).2
    have hmy := of_decide_eq_true (List.mem_filter.mp hy).2
    rcases Prod.Lex.toLex_le_toLex.mp hle with hlt | hle
    · exact absurd (hmx.trans hmy.symm) (ne_of_lt hlt)
    · exact hle.2
  · exact List.pairwise_map.mpr ((condIslands_increasing hcs hislands).imp fun h => h.1)

/-- A row of the grouping goes from a bucket to a bucket of its machine. -/
theorem periodRow_ends {now : ℤ} (counts : MachineCounts now) {row : PeriodRow}
    (hrow : row ∈ periodRows (summedRows counts.rows)) :
    ∃ x ∈ counts.rows, ∃ y ∈ counts.rows, row.a = x.a ∧ row.b = y.b := by
  obtain ⟨bs, hperm, hbs⟩ := counts.successive row.machine_id
  have hcs := buckets_conditioned hperm hbs
  obtain ⟨gs, hislands⟩ := exists_islands sameCond CondRow.cond (bs.map conditioned)
  have hgroups := periodRows_perm (filter_summedRows (partition_conditioned hperm hbs) hislands)
    hislands.nonempty fun g hg => condIsland_cond hislands hg
  have hmem := hgroups.mem_iff.mp (List.mem_filter.mpr ⟨hrow, decide_eq_true rfl⟩)
  obtain ⟨g, hg, heq⟩ := List.mem_map.mp hmem
  have hne := hislands.ne_nil hg
  obtain ⟨ha, hb, -⟩ := condIsland_bounds hcs hislands hg
  have hbucket : ∀ c ∈ g, ∃ x ∈ counts.rows, conditioned x = c := by
    intro c hc
    obtain ⟨x, hx, hxc⟩ := List.mem_map.mp ((hislands.sublist hg).subset hc)
    exact ⟨x, (List.mem_filter.mp (hperm.mem_iff.mpr hx)).1, hxc⟩
  obtain ⟨x, hx, hxc⟩ := hbucket _ (List.head_mem hne)
  obtain ⟨y, hy, hyc⟩ := hbucket _ (List.getLast_mem hne)
  refine ⟨x, hx, y, hy, ?_, ?_⟩
  · rw [← heq, ha, ← hxc]
    rfl
  · rw [← heq, hb, ← hyc]
    rfl

theorem tiles_activityPeriods {now : ℤ} (counts : MachineCounts now) {rows : List Period}
    (h : activityPeriods counts.rows = some rows) (machine : JString) :
    TilesAlternating (counts.rows.filter fun x => x.machine_id = machine)
      (rows.filter fun x => x.machine_id = machine) := by
  obtain ⟨bs, hperm, hbs⟩ := counts.successive machine
  obtain ⟨gs, hislands⟩ := exists_islands sameCond CondRow.cond (bs.map conditioned)
  rw [filter_activityPeriods hperm hbs hislands h]
  exact tiles_islands hperm hbs (buckets_conditioned hperm hbs) hislands

/-- **The rows of a machine alternate and tile its buckets**, and the query answers where
the differences of the buckets' ends are intervals. -/
theorem activityPeriods_tiles {now : ℤ} (counts : MachineCounts now) :
    ((∀ x ∈ counts.rows, ∀ y ∈ counts.rows, (subTimestamp y.b x.a).isSome) →
      (activityPeriods counts.rows).isSome) ∧
    ∀ rows, activityPeriods counts.rows = some rows → ∀ machine,
      TilesAlternating (counts.rows.filter fun x => x.machine_id = machine)
        (rows.filter fun x => x.machine_id = machine) := by
  refine ⟨fun hfits => ?_, fun rows h machine => ?_⟩
  · have hrows : ((periodRows (summedRows counts.rows)).mapM withDiff).isSome := by
      refine isSome_mapM_iff.mpr fun row hrow => ?_
      obtain ⟨x, hx, y, hy, ha, hb⟩ := periodRow_ends counts hrow
      obtain ⟨diff, hdiff⟩ := Option.isSome_iff_exists.mp (hfits x hx y hy)
      unfold withDiff
      rw [ha, hb, hdiff]
      rfl
    obtain ⟨periods, hperiods⟩ := Option.isSome_iff_exists.mp hrows
    unfold activityPeriods
    rw [hperiods]
    rfl
  · exact tiles_activityPeriods counts h machine

def machineCount (machine : String) (a b : ℤ) (count : ℕ) : MachineCount where
  machine_id := machine.toList
  a := a
  b := b
  count := count

/-- Half hours from midnight on, at 1:10. -/
def nightCounts : MachineCounts 4200000000 where
  rows :=
    [machineCount "lathe" 0 1800000000 12, machineCount "mill" 0 1800000000 1500,
     machineCount "lathe" 1800000000 3600000000 999, machineCount "mill" 1800000000 3600000000 1,
     machineCount "lathe" 3600000000 4200000000 1000, machineCount "mill" 3600000000 4200000000 1]
  successive machine := by
    by_cases hlathe : "lathe".toList = machine
    · subst hlathe
      refine ⟨_, List.Perm.refl _, ?_, ?_, ?_⟩ <;> decide
    by_cases hmill : "mill".toList = machine
    · subst hmill
      refine ⟨_, List.Perm.refl _, ?_, ?_, ?_⟩ <;> decide
    · refine ⟨[], List.Perm.of_eq (List.filter_eq_nil_iff.mpr fun x hx heq => ?_), by simp,
        List.isChain_nil, by simp⟩
      have hmachine : x.machine_id = "lathe".toList ∨ x.machine_id = "mill".toList := by
        clear heq
        revert x
        decide
      rw [of_decide_eq_true heq] at hmachine
      rcases hmachine with h | h
      · exact hlathe h.symm
      · exact hmill h.symm

/-- The lathe was idle for the first hour, and the mill from half past twelve on. -/
theorem activityPeriods_night :
    TilesAlternating
      [machineCount "lathe" 0 1800000000 12, machineCount "lathe" 1800000000 3600000000 999,
       machineCount "lathe" 3600000000 4200000000 1000]
      [{ machine_id := "lathe".toList, a := 0, b := 3600000000, cond := true,
         diff := 3600000000 },
       { machine_id := "lathe".toList, a := 3600000000, b := 4200000000, cond := false,
         diff := 600000000 }] := by
  have hquery : activityPeriods nightCounts.rows = some
      [{ machine_id := "lathe".toList, a := 0, b := 3600000000, cond := true,
         diff := 3600000000 },
       { machine_id := "lathe".toList, a := 3600000000, b := 4200000000, cond := false,
         diff := 600000000 },
       { machine_id := "mill".toList, a := 0, b := 1800000000, cond := false,
         diff := 1800000000 },
       { machine_id := "mill".toList, a := 1800000000, b := 4200000000, cond := true,
         diff := 2400000000 }] := by
    decide +kernel
  exact (activityPeriods_tiles nightCounts).2 _ hquery "lathe".toList

end FanucDriver.Queries
