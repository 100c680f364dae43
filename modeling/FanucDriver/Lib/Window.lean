import FanucDriver.Lib.Transducer
import Mathlib.Algebra.BigOperators.Group.Finset.Piecewise
import Mathlib.Algebra.Ring.Nat
import Mathlib.Data.List.Dedup
import Mathlib.Data.List.Sort

/-!
# Window functions

A relation is the list of its rows. `overPartition key t f` is a window function
`over (partition by key order by t)`: `f` reads the rows of one partition in window
order and answers with rows of its own. `groupBy key f` is a grouping with aggregates.

`filter_over` and `filter_groupBy` say what one partition of the result is, and
`partition_eq` that rows which are in window order stay so, so nested windows over one
partition are read from the inside out.

The windows are `lagged` and `led`, each row with the row before and after it, and
`runningSum`. `lagged_filter_ne` says that the rows whose value differs from that of the
row before are what `dedup` lets through.
-/

namespace FanucDriver.Lib.Window

open FanucDriver.Lib.Transducer

variable {A B P E K T : Type} [DecidableEq K] [LinearOrder T]

/-! ## Concatenations by key -/

theorem filter_flatMap_of_notMem {l : List P} {g : P → List B} (keyOf : P → K) {key : B → K}
    (hg : ∀ p ∈ l, ∀ b ∈ g p, key b = keyOf p) {k : K} (hk : ∀ p ∈ l, keyOf p ≠ k) :
    (l.flatMap g).filter (fun b => key b = k) = [] := by
  refine List.filter_eq_nil_iff.mpr fun b hb heq => ?_
  obtain ⟨p, hp, hbp⟩ := List.mem_flatMap.mp hb
  exact hk p hp ((hg p hp b hbp).symm.trans (of_decide_eq_true heq))

/-- The rows of one key in a concatenation of one part for each key. -/
theorem filter_flatMap_of_mem {l : List P} {g : P → List B} (keyOf : P → K) {key : B → K}
    (hl : l.Pairwise fun p q => keyOf p ≠ keyOf q) (hg : ∀ p ∈ l, ∀ b ∈ g p, key b = keyOf p)
    {p : P} (hp : p ∈ l) : (l.flatMap g).filter (fun b => key b = keyOf p) = g p := by
  induction l with
  | nil => exact absurd hp List.not_mem_nil
  | cons q l ih =>
    obtain ⟨hq, hl⟩ := List.pairwise_cons.mp hl
    have hrest : ∀ q ∈ l, ∀ b ∈ g q, key b = keyOf q := fun q hq =>
      hg q (List.mem_cons_of_mem _ hq)
    rw [List.flatMap_cons, List.filter_append]
    rcases List.mem_cons.mp hp with rfl | hp
    · rw [filter_flatMap_of_notMem keyOf hrest fun q hq' => Ne.symm (hq q hq'), List.append_nil]
      refine List.filter_eq_self.mpr fun b hb => ?_
      exact decide_eq_true (hg p List.mem_cons_self b hb)
    · rw [ih hl hrest hp]
      have hnil : (g q).filter (fun b => key b = keyOf p) = [] := by
        refine List.filter_eq_nil_iff.mpr fun b hb heq => hq p hp ?_
        exact (hg q List.mem_cons_self b hb).symm.trans (of_decide_eq_true heq)
      rw [hnil, List.nil_append]

/-! ## Partitions -/

/-- `order by t` -/
def orderBy (t : A → T) (rows : List A) : List A := rows.insertionSort fun a b => t a ≤ t b

/-- The rows of one key in window order. -/
def partition (key : A → K) (t : A → T) (rows : List A) (k : K) : List A :=
  orderBy t (rows.filter fun a => key a = k)

/-- `over (partition by key order by t)` -/
def overPartition (key : A → K) (t : A → T) (f : List A → List B) (rows : List A) : List B :=
  (rows.map key).dedup.flatMap fun k => f (partition key t rows k)

/-- An order of the rows of a window: by `t`, and rows that tie in an order of its own. -/
structure WindowOrder (t : A → T) where
  order : List A → List A
  perm : ∀ as, (order as).Perm as
  sorted : ∀ as, (order as).Pairwise fun a b => t a ≤ t b

/-- `over (partition by key order by t)`, where rows may tie -/
def overPartitionIn {t : A → T} (o : WindowOrder t) (key : A → K) (f : List A → List B)
    (rows : List A) : List B :=
  (rows.map key).dedup.flatMap fun k => f (o.order (rows.filter fun a => key a = k))

/-- `group by key`: one row for each key, from the rows of its group. -/
def groupBy (key : A → K) (f : K → List A → B) (rows : List A) : List B :=
  (rows.map key).dedup.map fun k => f k (rows.filter fun a => key a = k)

theorem orderBy_perm (t : A → T) (rows : List A) : (orderBy t rows).Perm rows :=
  List.perm_insertionSort _ rows

theorem mem_orderBy {t : A → T} {rows : List A} {a : A} : a ∈ orderBy t rows ↔ a ∈ rows :=
  (orderBy_perm t rows).mem_iff

theorem orderBy_sorted (t : A → T) (rows : List A) :
    (orderBy t rows).Pairwise fun a b => t a ≤ t b := by
  have : IsTrans A fun a b => t a ≤ t b := ⟨fun _ _ _ => le_trans⟩
  have : Std.Total fun a b => t a ≤ t b := ⟨fun a b => le_total (t a) (t b)⟩
  exact List.pairwise_insertionSort _ rows

/-- Two lists of the same rows in window order are the same, when no two rows tie. -/
theorem eq_of_perm_of_sorted {t : A → T} {as bs : List A} (hperm : as.Perm bs)
    (ha : as.Pairwise fun a b => t a ≤ t b) (hb : bs.Pairwise fun a b => t a < t b) :
    as = bs := by
  have : Std.Symm fun a b : A => t a ≠ t b := ⟨fun _ _ h => h.symm⟩
  have hne := (hb.imp fun h => ne_of_lt h).forall
  refine List.Perm.eq_of_pairwise (fun a b haa hbb hab hba => ?_) ha (hb.imp le_of_lt) hperm
  by_contra h
  exact hne (hperm.mem_iff.mp haa) hbb h (le_antisymm hab hba)

/-- Rows without ties are strictly ordered. -/
theorem orderBy_strict {t : A → T} {rows : List A} (h : rows.Pairwise fun a b => t a ≠ t b) :
    (orderBy t rows).Pairwise fun a b => t a < t b := by
  have hne : (orderBy t rows).Pairwise fun a b => t a ≠ t b :=
    (orderBy_perm t rows).symm.pairwise h fun hab => hab.symm
  exact (orderBy_sorted t rows).imp₂ (fun _ _ hle hab => lt_of_le_of_ne hle hab) hne

theorem orderBy_of_sorted {t : A → T} {rows : List A} (h : rows.Pairwise fun a b => t a ≤ t b) :
    orderBy t rows = rows := h.insertionSort_eq

/-- Rows that tie, ordered by more than `t`. -/
def WindowOrder.finer {S : Type} [LinearOrder S] {t : A → T} (u : A → S)
    (h : ∀ a b, u a ≤ u b → t a ≤ t b) : WindowOrder t where
  order := orderBy u
  perm := orderBy_perm u
  sorted as := (orderBy_sorted u as).imp (h _ _)

/-- Rows that are in order and do not tie stay as they are. -/
theorem WindowOrder.order_eq {t : A → T} (o : WindowOrder t) {as bs : List A} (hperm : as.Perm bs)
    (hbs : bs.Pairwise fun a b => t a < t b) : o.order as = bs :=
  eq_of_perm_of_sorted ((o.perm as).trans hperm) (o.sorted as) hbs

/-- A selection of ordered rows that are in order before. -/
theorem filter_orderBy {t : A → T} {rows : List A} {q : A → Bool}
    (h : (rows.filter q).Pairwise fun a b => t a < t b) :
    (orderBy t rows).filter q = rows.filter q :=
  eq_of_perm_of_sorted ((orderBy_perm t rows).filter q) ((orderBy_sorted t rows).filter q) h

theorem mem_partition {key : A → K} {t : A → T} {rows : List A} {k : K} {a : A} :
    a ∈ partition key t rows k ↔ a ∈ rows ∧ key a = k := by
  rw [partition, mem_orderBy, List.mem_filter, decide_eq_true_iff]

/-- Rows of a partition that are in window order already. -/
theorem partition_eq {key : A → K} {t : A → T} {rows as : List A} {k : K}
    (h : rows.filter (fun a => key a = k) = as) (has : as.Pairwise fun a b => t a ≤ t b) :
    partition key t rows k = as := by
  rw [partition, h, orderBy_of_sorted has]

theorem filter_key_of_notMem {key : A → K} {rows : List A} {k : K} (h : k ∉ rows.map key) :
    rows.filter (fun a => key a = k) = [] := by
  refine List.filter_eq_nil_iff.mpr fun a ha heq => h ?_
  exact List.mem_map.mpr ⟨a, ha, of_decide_eq_true heq⟩

/-- **One partition of a window function** is the function of that partition. -/
theorem filter_overIn {t : A → T} (o : WindowOrder t) {key : A → K} {f : List A → List B}
    (keyOf : B → K) (hnil : f [] = [])
    (hf : ∀ as k, (∀ a ∈ as, key a = k) → ∀ b ∈ f as, keyOf b = k) (rows : List A) (k : K) :
    (overPartitionIn o key f rows).filter (fun b => keyOf b = k)
      = f (o.order (rows.filter fun a => key a = k)) := by
  have hpart : ∀ k', ∀ a ∈ o.order (rows.filter fun a => key a = k'), key a = k' := fun k' a ha =>
    of_decide_eq_true (List.mem_filter.mp ((o.perm _).mem_iff.mp ha)).2
  have hg : ∀ k' ∈ (rows.map key).dedup,
      ∀ b ∈ f (o.order (rows.filter fun a => key a = k')), keyOf b = k' :=
    fun k' _ => hf _ k' (hpart k')
  by_cases hk : k ∈ rows.map key
  · exact filter_flatMap_of_mem id (List.nodup_dedup _) hg (List.mem_dedup.mpr hk)
  · rw [filter_key_of_notMem hk, (o.perm []).eq_nil, hnil]
    refine filter_flatMap_of_notMem id hg fun k' hk' heq => hk ?_
    obtain rfl : k' = k := heq
    exact List.mem_dedup.mp hk'

theorem filter_over {key : A → K} {t : A → T} {f : List A → List B} (keyOf : B → K)
    (hnil : f [] = []) (hf : ∀ as k, (∀ a ∈ as, key a = k) → ∀ b ∈ f as, keyOf b = k)
    (rows : List A) (k : K) :
    (overPartition key t f rows).filter (fun b => keyOf b = k) = f (partition key t rows k) :=
  filter_overIn (.finer t fun _ _ h => h) keyOf hnil hf rows k

theorem mem_groupBy {key : A → K} {f : K → List A → B} {rows : List A} {b : B} :
    b ∈ groupBy key f rows ↔ ∃ a ∈ rows, b = f (key a) (rows.filter fun a' => key a' = key a) := by
  simp only [groupBy, List.mem_map, List.mem_dedup]
  constructor
  · intro h
    obtain ⟨k, ⟨a, ha, rfl⟩, rfl⟩ := h
    exact ⟨a, ha, rfl⟩
  · intro h
    obtain ⟨a, ha, rfl⟩ := h
    exact ⟨key a, ⟨a, ha, rfl⟩, rfl⟩

/-- Two rows of a grouping come from different keys. -/
theorem groupBy_pairwise {key : A → K} {f : K → List A → B} {rows : List A} {R : B → B → Prop}
    (h : ∀ a ∈ rows, ∀ a' ∈ rows, key a ≠ key a' →
      R (f (key a) (rows.filter fun x => key x = key a))
        (f (key a') (rows.filter fun x => key x = key a'))) :
    (groupBy key f rows).Pairwise R := by
  rw [groupBy, List.pairwise_map]
  refine (List.Pairwise.and_mem.mp (List.nodup_dedup (rows.map key))).imp ?_
  intro k k' h
  obtain ⟨hk, hk', hne⟩ := h
  obtain ⟨a, ha, rfl⟩ := List.mem_map.mp (List.mem_dedup.mp hk)
  obtain ⟨a', ha', rfl⟩ := List.mem_map.mp (List.mem_dedup.mp hk')
  exact h a ha a' ha' hne

/-- The rows of a grouping whose keys have something in common. -/
theorem filter_groupBy {C : Type} [DecidableEq C] {key : A → K} {f : K → List A → B} (keyOf : B → C)
    (of : K → C) (h : ∀ k as, keyOf (f k as) = of k) (rows : List A) (c : C) :
    (groupBy key f rows).filter (fun b => keyOf b = c)
      = ((rows.map key).dedup.filter fun k => of k = c).map fun k =>
          f k (rows.filter fun a => key a = k) := by
  rw [groupBy, List.filter_map]
  congr 1
  exact List.filter_congr fun k _ => by simp [h]

/-- The rows of one partition of a grouping, where that partition is cut into parts with
one key each. -/
theorem filter_groupBy_perm {C D : Type} [DecidableEq C] {key : A → K} {f : K → List A → D}
    (keyOf : D → C) (of : K → C) (hof : ∀ k as, keyOf (f k as) = of k) {rows : List A} {c : C}
    {l : List P} {part : P → List A} (label : P → K)
    (hrows : rows.filter (fun a => of (key a) = c) = l.flatMap part)
    (hlabel : ∀ p ∈ l, ∀ a ∈ part p, key a = label p)
    (hne : l.Pairwise fun p q => label p ≠ label q) (hpart : ∀ p ∈ l, part p ≠ []) :
    ((groupBy key f rows).filter fun b => keyOf b = c).Perm
      (l.map fun p => f (label p) (part p)) := by
  have hof' : ∀ p ∈ l, of (label p) = c := by
    intro p hp
    obtain ⟨a, r, har⟩ := List.exists_cons_of_ne_nil (hpart p hp)
    have ha : a ∈ part p := har ▸ List.mem_cons_self
    have hmem : a ∈ rows.filter fun a => of (key a) = c :=
      hrows ▸ List.mem_flatMap.mpr ⟨p, hp, ha⟩
    rw [← hlabel p hp a ha]
    exact of_decide_eq_true (List.mem_filter.mp hmem).2
  -- the group of a label is its part
  have hgroup : ∀ p ∈ l, (rows.filter fun a => key a = label p) = part p := by
    intro p hp
    have hfilter := filter_flatMap_of_mem label hne hlabel hp
    rw [← hrows, List.filter_filter] at hfilter
    rw [← hfilter]
    refine List.filter_congr fun a _ => ?_
    by_cases h : key a = label p
    · simp [h, hof' p hp]
    · simp [h]
  have hkeys : ((rows.map key).dedup.filter fun k => of k = c).Perm (l.map label) := by
    refine (List.perm_ext_iff_of_nodup ((List.nodup_dedup _).filter _)
      (List.pairwise_map.mpr hne)).mpr fun k => ?_
    simp only [List.mem_filter, List.mem_dedup, List.mem_map, decide_eq_true_eq]
    constructor
    · intro h
      obtain ⟨⟨a, ha, rfl⟩, hk⟩ := h
      have hmem : a ∈ rows.filter fun a => of (key a) = c :=
        List.mem_filter.mpr ⟨ha, decide_eq_true hk⟩
      rw [hrows] at hmem
      obtain ⟨p, hp, hap⟩ := List.mem_flatMap.mp hmem
      exact ⟨p, hp, (hlabel p hp a hap).symm⟩
    · intro h
      obtain ⟨p, hp, rfl⟩ := h
      obtain ⟨a, r, har⟩ := List.exists_cons_of_ne_nil (hpart p hp)
      have ha : a ∈ part p := har ▸ List.mem_cons_self
      have hmem : a ∈ rows.filter fun a => key a = label p := (hgroup p hp).symm ▸ ha
      exact ⟨⟨a, (List.mem_filter.mp hmem).1, hlabel p hp a ha⟩, hof' p hp⟩
  rw [filter_groupBy keyOf of hof]
  refine (hkeys.map _).trans ?_
  rw [List.map_map]
  refine List.Perm.of_eq (List.map_congr_left fun p hp => ?_)
  rw [Function.comp_apply, hgroup p hp]

/-- `min(f)` of rows that come by increasing `f`. -/
theorem min?_of_sorted {f : A → ℤ} {as : List A} (hne : as ≠ [])
    (h : as.Pairwise fun x y => f x ≤ f y) : (as.map f).min? = some (f (as.head hne)) := by
  refine List.min?_eq_some_iff.mpr ⟨List.mem_map_of_mem (List.head_mem hne), fun b hb => ?_⟩
  obtain ⟨x, hx, rfl⟩ := List.mem_map.mp hb
  cases as with
  | nil => exact absurd rfl hne
  | cons y as =>
    rcases List.mem_cons.mp hx with rfl | hx
    · exact le_refl _
    · exact (List.pairwise_cons.mp h).1 x hx

/-- `max(f)` of rows that come by increasing `f`. -/
theorem max?_of_sorted {f : A → ℤ} {as : List A} (hne : as ≠ [])
    (h : as.Pairwise fun x y => f x ≤ f y) : (as.map f).max? = some (f (as.getLast hne)) := by
  refine List.max?_eq_some_iff.mpr ⟨List.mem_map_of_mem (List.getLast_mem hne), fun b hb => ?_⟩
  obtain ⟨x, hx, rfl⟩ := List.mem_map.mp hb
  rw [← List.dropLast_append_getLast hne] at h hx
  rcases List.mem_append.mp hx with hx | hx
  · exact (List.pairwise_append.mp h).2.2 x hx _ (List.mem_singleton.mpr rfl)
  · rw [List.mem_singleton.mp hx]

/-- `min(f)` of rows that have an order by increasing `f`. -/
theorem min?_of_perm {f : A → ℤ} {as bs : List A} (hperm : as.Perm bs)
    (h : bs.Pairwise fun x y => f x ≤ f y) : (as.map f).min? = bs.head?.map f := by
  cases bs with
  | nil => rw [hperm.eq_nil]; rfl
  | cons b bs =>
    have hmin := List.min?_eq_some_iff.mp (min?_of_sorted (List.cons_ne_nil b bs) h)
    refine List.min?_eq_some_iff.mpr ⟨(hperm.map f).mem_iff.mpr hmin.1, fun c hc => ?_⟩
    exact hmin.2 c ((hperm.map f).mem_iff.mp hc)

/-- `max(f)` of rows that have an order by increasing `f`. -/
theorem max?_of_perm {f : A → ℤ} {as bs : List A} (hperm : as.Perm bs)
    (h : bs.Pairwise fun x y => f x ≤ f y) : (as.map f).max? = bs.getLast?.map f := by
  rcases List.eq_nil_or_concat bs with rfl | ⟨init, b, rfl⟩
  · rw [hperm.eq_nil]; rfl
  · rw [List.concat_eq_append] at hperm h ⊢
    have hne : init ++ [b] ≠ [] := List.append_ne_nil_of_right_ne_nil _ (List.cons_ne_nil _ _)
    have hmax := List.max?_eq_some_iff.mp (max?_of_sorted hne h)
    rw [List.getLast?_eq_some_getLast hne]
    refine List.max?_eq_some_iff.mpr ⟨(hperm.map f).mem_iff.mpr hmax.1, fun c hc => ?_⟩
    exact hmax.2 c ((hperm.map f).mem_iff.mp hc)

/-- A window that adds columns only has rows of the relation. -/
theorem mem_of_mem_over {key : A → K} {t : A → T} {f : List A → List (A × E)}
    (hf : ∀ as, ∀ b ∈ f as, b.1 ∈ as) {rows : List A} {b : A × E}
    (hb : b ∈ overPartition key t f rows) : b.1 ∈ rows := by
  obtain ⟨k, -, hb⟩ := List.mem_flatMap.mp hb
  exact (mem_partition.mp (hf _ b hb)).1

theorem mem_of_mem_overPartitionIn {t : A → T} {o : WindowOrder t} {key : A → K}
    {f : List A → List (A × E)} (hf : ∀ as, ∀ b ∈ f as, b.1 ∈ as) {rows : List A} {b : A × E}
    (hb : b ∈ overPartitionIn o key f rows) : b.1 ∈ rows := by
  obtain ⟨k, -, hb⟩ := List.mem_flatMap.mp hb
  exact (List.mem_filter.mp ((o.perm _).mem_iff.mp (hf _ b hb))).1

/-! ## Joins -/

/-- `bs inner join as on (…)` -/
def innerJoin (on : B → A → Prop) [DecidableRel on] (bs : List B) (as : List A) : List (B × A) :=
  bs.flatMap fun b => (as.filter (on b)).map fun a => (b, a)

theorem mem_innerJoin {on : B → A → Prop} [DecidableRel on] {bs : List B} {as : List A}
    {x : B × A} : x ∈ innerJoin on bs as ↔ x.1 ∈ bs ∧ x.2 ∈ as ∧ on x.1 x.2 := by
  simp only [innerJoin, List.mem_flatMap, List.mem_map, List.mem_filter, decide_eq_true_eq]
  constructor
  · intro h
    obtain ⟨b, hb, a, ⟨ha, hon⟩, rfl⟩ := h
    exact ⟨hb, ha, hon⟩
  · intro h
    obtain ⟨hb, ha, hon⟩ := h
    exact ⟨x.1, hb, x.2, ⟨ha, hon⟩, rfl⟩

/-- The rows of a join with one row of the table on the right. -/
theorem filter_innerJoin [DecidableEq A] {on : B → A → Prop} [DecidableRel on] {as : List A}
    (has : as.Nodup) {a : A} (ha : a ∈ as) (bs : List B) :
    (innerJoin on bs as).filter (fun x => x.2 = a)
      = (bs.filter fun b => on b a).map fun b => (b, a) := by
  unfold innerJoin
  induction bs with
  | nil => rfl
  | cons b bs ih =>
    -- the row is in the table once
    have hone : ((as.filter (on b)).map fun a => (b, a)).filter (fun x => x.2 = a)
        = (if on b a then [(b, a)] else []) := by
      rw [List.filter_map]
      show ((as.filter (on b)).filter (· = a)).map _ = _
      rw [List.filter_comm, List.filter_eq, List.count_eq_one_of_mem has ha, List.replicate_one]
      by_cases h : on b a <;> simp [h]
    rw [List.flatMap_cons, List.filter_append, ih, hone]
    by_cases h : on b a <;> simp [h]

/-- The rows of `b` in a left join: one with a null where nothing is joined. -/
def leftJoined (on : B → A → Prop) [DecidableRel on] (as : List A) (b : B) : List (B × Option A) :=
  match as.filter (on b) with
  | [] => [(b, none)]
  | joined => joined.map fun a => (b, some a)

/-- `bs left join as on (…)` -/
def leftJoin (on : B → A → Prop) [DecidableRel on] (bs : List B) (as : List A) :
    List (B × Option A) :=
  bs.flatMap (leftJoined on as)

section
variable {on : B → A → Prop} [DecidableRel on] {as : List A}

theorem fst_of_mem_leftJoined {b : B} {x : B × Option A} (h : x ∈ leftJoined on as b) :
    x.1 = b := by
  unfold leftJoined at h
  split at h
  next => rw [List.mem_singleton.mp h]
  next =>
    obtain ⟨a, -, rfl⟩ := List.mem_map.mp h
    rfl

/-- `count(*)` counts the row with a null. -/
theorem length_leftJoined (b : B) :
    (leftJoined on as b).length = max 1 (as.filter (on b)).length := by
  unfold leftJoined
  split
  next h =>
    rw [h]
    rfl
  next h =>
    have hpos : 0 < (as.filter (on b)).length := List.length_pos_iff.mpr h
    rw [List.length_map]
    omega

/-- A condition on the table on the left. -/
theorem filter_leftJoin (q : B → Bool) (bs : List B) :
    (leftJoin on bs as).filter (fun x => q x.1) = leftJoin on (bs.filter q) as := by
  induction bs with
  | nil => rfl
  | cons b bs ih =>
    have hfirst : ∀ x ∈ leftJoined on as b, q x.1 = q b := fun x hx =>
      congrArg q (fst_of_mem_leftJoined hx)
    rw [leftJoin, List.flatMap_cons, List.filter_append]
    rw [leftJoin] at ih
    cases hb : q b with
    | true =>
      rw [ih, List.filter_cons_of_pos hb, leftJoin, leftJoin, List.flatMap_cons,
        List.filter_eq_self.mpr fun x hx => (hfirst x hx).trans hb]
    | false =>
      have hnil : (leftJoined on as b).filter (fun x => q x.1) = [] :=
        List.filter_eq_nil_iff.mpr fun x hx h => by
          rw [hfirst x hx, hb] at h
          exact Bool.false_ne_true h
      rw [ih, hnil, List.nil_append, List.filter_cons_of_neg (by rw [hb]; exact Bool.false_ne_true)]

end

/-! ## Computed columns -/

/-- A column that is computed for every row, or raises an error for the relation. -/
theorem eq_map_of_mapM {f : A → Option B} {g : A → B} {as : List A} {bs : List B}
    (h : as.mapM f = some bs) (hg : ∀ a b, f a = some b → b = g a) : bs = as.map g := by
  induction as generalizing bs with
  | nil =>
    obtain rfl := Option.some.inj h
    rfl
  | cons a as ih =>
    rw [List.mapM_cons] at h
    obtain ⟨b, hb, hrest⟩ := Option.bind_eq_some_iff.mp h
    obtain ⟨bs', hbs', heq⟩ := Option.bind_eq_some_iff.mp hrest
    obtain rfl := Option.some.inj heq
    rw [List.map_cons, hg a b hb, ih hbs']

theorem exists_of_mapM {f : A → Option B} {as : List A} {bs : List B} (h : as.mapM f = some bs) :
    ∀ a ∈ as, ∃ b, f a = some b := by
  induction as generalizing bs with
  | nil => exact fun a ha => absurd ha List.not_mem_nil
  | cons a as ih =>
    rw [List.mapM_cons] at h
    obtain ⟨b, hb, hrest⟩ := Option.bind_eq_some_iff.mp h
    obtain ⟨bs', hbs', -⟩ := Option.bind_eq_some_iff.mp hrest
    intro a' ha'
    rcases List.mem_cons.mp ha' with rfl | ha'
    · exact ⟨b, hb⟩
    · exact ih hbs' a' ha'

/-! ## Windows -/

/-- Each row with a column of the row before it: `lag(c, 1)`. -/
def lagged (c : A → E) (as : List A) : List (A × Option E) :=
  as.zip (none :: as.map fun a => some (c a))

/-- Each row with a column of the row after it: `lead(c, 1)`. -/
def led (c : A → E) (as : List A) : List (A × Option E) :=
  as.zip ((as.tail.map fun a => some (c a)) ++ [none])

theorem map_fst_lagged (c : A → E) (as : List A) : (lagged c as).map Prod.fst = as :=
  List.map_fst_zip (by simp)

theorem map_fst_led (c : A → E) (as : List A) : (led c as).map Prod.fst = as :=
  List.map_fst_zip (by simp; omega)

theorem mem_of_mem_lagged {c : A → E} {as : List A} {x : A × Option E} (h : x ∈ lagged c as) :
    x.1 ∈ as :=
  map_fst_lagged c as ▸ List.mem_map_of_mem h

theorem mem_of_mem_led {c : A → E} {as : List A} {x : A × Option E} (h : x ∈ led c as) :
    x.1 ∈ as :=
  map_fst_led c as ▸ List.mem_map_of_mem h

/-- The columns of a window may be computed after it. -/
theorem lagged_map (f : A → B) (c : B → E) (as : List A) :
    lagged c (as.map f) = (lagged (fun a => c (f a)) as).map fun x => (f x.1, x.2) := by
  unfold lagged
  rw [List.map_map, List.zip_map_left]
  rfl

/-- A row that a window gives a value has it from a row of the relation. -/
theorem exists_of_lagged {key : A → K} {t : A → T} {c : A → E} {rows : List A} {x : A} {v : E}
    (h : (x, some v) ∈ overPartition key t (lagged c) rows) : ∃ y ∈ rows, c y = v := by
  obtain ⟨k, -, h⟩ := List.mem_flatMap.mp h
  rcases List.mem_cons.mp (List.of_mem_zip h).2 with h | h
  · exact absurd h (Option.some_ne_none v)
  · obtain ⟨y, hy, hyv⟩ := List.mem_map.mp h
    exact ⟨y, (mem_partition.mp hy).1, Option.some.inj hyv⟩

theorem lagged_concat (c : A → E) (as : List A) (a : A) :
    lagged c (as ++ [a]) = lagged c as ++ [(a, as.getLast?.map c)] := by
  have hzip : ∀ last : Option E, (as ++ [a]).zip (last :: (as ++ [a]).map fun a => some (c a))
      = as.zip (last :: as.map fun a => some (c a)) ++ [(a, (as.getLast?.map c).or last)] := by
    induction as with
    | nil => exact fun last => rfl
    | cons b as ih =>
      intro last
      rw [List.cons_append, List.map_cons, List.zip_cons_cons, ih (some (c b)), List.map_cons,
        List.zip_cons_cons, List.cons_append]
      cases as with
      | nil => rfl
      | cons b' as => rw [List.getLast?_cons_cons, List.getLast?_cons]; rfl
  rw [lagged, hzip none, Option.or_none, lagged]

/-- The rows with a next one, each with a column of it. -/
theorem filterMap_led (c : A → E) (as : List A) :
    (led c as).filterMap (fun x => x.2.map fun v => (x.1, v))
      = List.zipWith (fun a b => (a, c b)) as as.tail := by
  induction as with
  | nil => rfl
  | cons a as ih =>
    cases as with
    | nil => rfl
    | cons b as =>
      exact congrArg ((a, c b) :: ·) ih

/-- The rows of a partition with a next one. -/
theorem filter_pairs {c : A → E} (key : A → K) {k : K} {t : List (A × Option E)} {as : List A}
    (h : t.filter (fun x => key x.1 = k) = led c as) :
    (t.filterMap fun x => x.2.map fun v => (x.1, v)).filter (fun x => key x.1 = k)
      = List.zipWith (fun a b => (a, c b)) as as.tail := by
  rw [← filterMap_led, ← h, List.filterMap_filter, List.filter_filterMap]
  refine List.filterMap_congr fun x _ => ?_
  cases x.2 with
  | none => simp
  | some v => by_cases hk : key x.1 = k <;> simp [hk]

/-- A row that is given a value has it from a row after it. -/
theorem exists_next_of_led {R : A → A → Prop} {c : A → E} {as : List A} (h : as.Pairwise R)
    {x : A} {v : E} (hx : (x, some v) ∈ led c as) : ∃ y ∈ as, c y = v ∧ R x y := by
  induction as with
  | nil => exact absurd hx List.not_mem_nil
  | cons a as ih =>
    obtain ⟨ha, has⟩ := List.pairwise_cons.mp h
    cases as with
    | nil =>
      have heq := List.mem_singleton.mp hx
      exact absurd (congrArg Prod.snd heq) (Option.some_ne_none v)
    | cons b as =>
      rcases List.mem_cons.mp (show (x, some v) ∈ (a, some (c b)) :: led c (b :: as) from hx) with
        heq | hx
      · obtain ⟨rfl, hv⟩ := Prod.mk.inj heq
        exact ⟨b, List.mem_cons_of_mem x List.mem_cons_self, (Option.some.inj hv).symm,
          ha b List.mem_cons_self⟩
      · obtain ⟨y, hy, hcy, hxy⟩ := ih has hx
        exact ⟨y, List.mem_cons_of_mem a hy, hcy, hxy⟩

/-- A row that a window gives a value has it from a row of its partition after it. -/
theorem exists_next_of_over {t : A → T} {o : WindowOrder t} {key : A → K} {R : A → A → Prop}
    {c : A → E} {rows : List A} (hR : ∀ as, (o.order as).Pairwise R) {x : A} {v : E}
    (hx : (x, some v) ∈ overPartitionIn o key (led c) rows) :
    x ∈ rows ∧ ∃ y ∈ rows, key y = key x ∧ c y = v ∧ R x y := by
  obtain ⟨k, -, hx⟩ := List.mem_flatMap.mp hx
  have hmem : ∀ a ∈ o.order (rows.filter fun a => key a = k), a ∈ rows ∧ key a = k := by
    intro a ha
    obtain ⟨ha, hk⟩ := List.mem_filter.mp ((o.perm _).mem_iff.mp ha)
    exact ⟨ha, of_decide_eq_true hk⟩
  obtain ⟨hxrows, hkx⟩ := hmem x (mem_of_mem_led hx)
  obtain ⟨y, hy, hcy, hxy⟩ := exists_next_of_led (hR _) hx
  obtain ⟨hyrows, hky⟩ := hmem y hy
  exact ⟨hxrows, y, hyrows, hky.trans hkx.symm, hcy, hxy⟩

/-- The rows whose value is not that of the row before. -/
theorem lagged_filter_ne [DecidableEq E] (c : A → E) (as : List A) :
    ((lagged c as).filter fun x => x.2.all (· ≠ c x.1)).map Prod.fst
      = (dedup fun a => some (c a)).run none as := by
  -- the state of `dedup` is the value of the row before
  have hfrom : ∀ last : Option E,
      ((as.zip (last :: as.map fun a => some (c a))).filter fun x => x.2.all (· ≠ c x.1)).map
          Prod.fst
        = (dedup fun a => some (c a)).run last as := by
    induction as with
    | nil => exact fun last => rfl
    | cons a as ih =>
      intro last
      rw [List.map_cons, List.zip_cons_cons, run_cons, dedup]
      by_cases h : last = some (c a)
      · subst h
        simpa using ih (some (c a))
      · have hall : last.all (· ≠ c a) = true := by
          cases last with
          | none => rfl
          | some v => simpa using h
        rw [List.filter_cons_of_pos (a := (a, last)) hall, List.map_cons, ih (some (c a))]
        simp [h]
  exact hfrom none

/-- The rows that have a row after them with another value. -/
theorem led_filter_ne [DecidableEq E] {c : A → E} {as : List A} {rs : List (List A)}
    (h : MaximalRuns c as rs) :
    ((led c as).filter fun x => x.2.any (· ≠ c x.1)).map Prod.fst = (lasts rs).dropLast := by
  induction as generalizing rs with
  | nil =>
    obtain rfl := h.eq_nil
    rfl
  | cons a as ih =>
    rcases h.of_cons with ⟨rs, rfl, h, hhead⟩ | ⟨b, r, rs, rfl, hab, h⟩
    · cases as with
      | nil =>
        obtain rfl := h.eq_nil
        rfl
      | cons b as =>
        -- the run is over, and the next one has a last row
        have hne : c b ≠ c a := Ne.symm (hhead b rfl)
        have hmore := lasts_ne_nil h (List.cons_ne_nil b as)
        obtain ⟨d, ds, hlasts⟩ := List.exists_cons_of_ne_nil hmore
        have hdrop : (lasts ([a] :: rs)).dropLast = a :: (lasts rs).dropLast := by
          show (a :: lasts rs).dropLast = _
          rw [hlasts, List.dropLast_cons_cons]
        rw [hdrop, ← ih h]
        show (((a, some (c b)) :: led c (b :: as)).filter _).map _ = _
        rw [List.filter_cons_of_pos (by simpa using hne), List.map_cons]
    · obtain rfl := h.flatten
      have hlasts : lasts ((a :: b :: r) :: rs) = lasts ((b :: r) :: rs) := by
        unfold lasts
        rw [List.filterMap_cons, List.filterMap_cons, List.getLast?_cons_cons]
      rw [hlasts, ← ih h]
      show (((a, some (c b)) :: led c (b :: (r ++ rs.flatten))).filter _).map _ = _
      rw [List.filter_cons_of_neg (by simpa using hab.symm)]
      rfl

/-- The running total of a column, when no two rows tie: `sum(c)`. -/
def runningSum (c : A → ℤ) : ℤ → List A → List (A × ℤ)
  | _, [] => []
  | s, a :: as => (a, s + c a) :: runningSum c (s + c a) as

/-- `row_number()` -/
def rowNumber (as : List A) : List (A × ℕ) := as.zipIdx 1

theorem rowNumber_map (f : A → B) (as : List A) :
    rowNumber (as.map f) = (rowNumber as).map fun x => (f x.1, x.2) :=
  List.zipIdx_map ..

/-- **A join on the greatest number** of some rows finds the last one of them. -/
theorem filter_max_rowNumber (q : A → Prop) [DecidablePred q] (as : List A) :
    (((rowNumber as).filter fun x =>
        some x.2 = (((rowNumber as).filter fun x => q x.1).map Prod.snd).max?).map Prod.fst)
      = (as.filter fun a => q a).getLast?.toList := by
  have hnumbers : (rowNumber as).Pairwise fun x y => x.2 < y.2 := by
    refine List.pairwise_map.mp ?_
    rw [rowNumber, List.zipIdx_map_snd]
    exact List.pairwise_lt_range'
  have hfirst : ((rowNumber as).filter fun x => q x.1).map Prod.fst = as.filter fun a => q a := by
    have hmap : ((rowNumber as).map Prod.fst).filter (fun a => q a)
        = ((rowNumber as).filter fun x => q x.1).map Prod.fst := List.filter_map
    rw [← hmap, rowNumber, List.zipIdx_map_fst]
  rw [← hfirst]
  rcases List.eq_nil_or_concat ((rowNumber as).filter fun x => q x.1) with hnil | ⟨init, x, hx⟩
  · rw [hnil]
    simp
  · rw [List.concat_eq_append] at hx
    have hsorted := hnumbers.filter fun x => q x.1
    rw [hx] at hsorted
    have hmax : (((rowNumber as).filter fun x => q x.1).map Prod.snd).max? = some x.2 := by
      refine List.max?_eq_some_iff.mpr ⟨?_, fun n hn => ?_⟩
      · rw [hx]
        simp
      · obtain ⟨y, hy, rfl⟩ := List.mem_map.mp hn
        rw [hx] at hy
        rcases List.mem_append.mp hy with hy | hy
        · exact le_of_lt ((List.pairwise_append.mp hsorted).2.2 y hy x (List.mem_singleton.mpr rfl))
        · rw [List.mem_singleton.mp hy]
    have hmem : x ∈ rowNumber as :=
      (List.mem_filter.mp (hx ▸ List.mem_append_right init List.mem_cons_self)).1
    -- no two rows have one number
    have hone : ((rowNumber as).filter fun y => some y.2 = some x.2) = [x] := by
      obtain ⟨before, after, hsplit⟩ := List.append_of_mem hmem
      rw [hsplit] at hnumbers ⊢
      obtain ⟨-, hafter, hbefore⟩ := List.pairwise_append.mp hnumbers
      have hnil : before.filter (fun y => some y.2 = some x.2) = [] :=
        List.filter_eq_nil_iff.mpr fun y hy heq => by
          have hlt := hbefore y hy x List.mem_cons_self
          have heq := Option.some.inj (of_decide_eq_true heq)
          omega
      have hnil' : after.filter (fun y => some y.2 = some x.2) = [] :=
        List.filter_eq_nil_iff.mpr fun y hy heq => by
          have hlt := (List.pairwise_cons.mp hafter).1 y hy
          have heq := Option.some.inj (of_decide_eq_true heq)
          omega
      rw [List.filter_append, hnil, List.filter_cons, hnil', if_pos (decide_eq_true rfl),
        List.nil_append]
    rw [hmax, hone, hx]
    simp

theorem map_fst_runningSum (c : A → ℤ) (s : ℤ) (as : List A) :
    (runningSum c s as).map Prod.fst = as := by
  induction as generalizing s with
  | nil => rfl
  | cons a as ih => rw [runningSum, List.map_cons, ih]

/-! ## Counting -/

/-- Counting by value and adding up counts all of the values. -/
theorem sum_countP_fibres (f : A → K) {ks : List K} (hks : ks.Nodup) (as : List A) :
    (ks.map fun k => as.countP fun a => f a = k).sum = as.countP fun a => f a ∈ ks := by
  induction ks with
  | nil => simp
  | cons k ks ih =>
    obtain ⟨hk, hks⟩ := List.nodup_cons.mp hks
    rw [List.map_cons, List.sum_cons, ih hks]
    clear ih
    induction as with
    | nil => rfl
    | cons a as ih =>
      rw [List.countP_cons, List.countP_cons, List.countP_cons]
      by_cases ha : f a = k
      · have hmem : f a ∉ ks := ha ▸ hk
        simp only [ha, hk, List.mem_cons, true_or, decide_true, if_true, decide_false] at ih ⊢
        simp only [Bool.false_eq_true, if_false]
        omega
      · simp only [List.mem_cons, ha, false_or, decide_false, Bool.false_eq_true, if_false] at ih ⊢
        omega

/-- Adding up the groups of a column adds up the column. -/
theorem sum_fibres {M : Type} [AddCommMonoid M] (f : A → K) (g : A → M) {ks : List K}
    (hks : ks.Nodup) {as : List A} (hmem : ∀ a ∈ as, f a ∈ ks) :
    (ks.map fun k => ((as.filter fun a => f a = k).map g).sum).sum = (as.map g).sum := by
  rw [← List.sum_toFinset _ hks]
  induction as with
  | nil => exact Finset.sum_const_zero
  | cons a as ih =>
    have hcons : ∀ k ∈ ks.toFinset, (((a :: as).filter fun a => f a = k).map g).sum
        = (if f a = k then g a else 0) + ((as.filter fun a => f a = k).map g).sum := by
      intro k _
      by_cases h : f a = k
      · rw [List.filter_cons, if_pos (decide_eq_true h), List.map_cons, List.sum_cons, if_pos h]
      · rw [List.filter_cons, if_neg (by simpa using h), if_neg h, zero_add]
    have hmem' : f a ∈ ks.toFinset := List.mem_toFinset.mpr (hmem a List.mem_cons_self)
    rw [Finset.sum_congr rfl hcons, Finset.sum_add_distrib, Finset.sum_ite_eq, if_pos hmem',
      ih fun b hb => hmem b (List.mem_cons_of_mem a hb), List.map_cons, List.sum_cons]

/-- The totals of a grouping add up to the column they are totals of. -/
theorem sum_groupBy {M : Type} [AddCommMonoid M] {key : A → K} {f : K → List A → B} {F : B → M}
    (g : A → M) (h : ∀ k as, (∀ a ∈ as, key a = k) → F (f k as) = (as.map g).sum)
    (rows : List A) : ((groupBy key f rows).map F).sum = (rows.map g).sum := by
  rw [← sum_fibres key g (List.nodup_dedup (rows.map key))
    fun a ha => List.mem_dedup.mpr (List.mem_map_of_mem ha), groupBy, List.map_map]
  refine congrArg List.sum (List.map_congr_left fun k _ => ?_)
  exact h k _ fun a ha => of_decide_eq_true (List.mem_filter.mp ha).2

/-- A total of a selection, as the total of a `case`. -/
theorem sum_map_filter {M : Type} [AddCommMonoid M] (q : A → Prop) [DecidablePred q] (g : A → M)
    (as : List A) : ((as.filter fun a => q a).map g).sum
      = (as.map fun a => if q a then g a else 0).sum := by
  rw [List.sum_map_ite, List.map_const', List.sum_replicate, nsmul_zero, add_zero]

/-- A column of a grouping by `key` that only counts the groups with `q` adds up to what
the rows with `q` have. -/
theorem sum_groupBy_filter {M : Type} [AddCommMonoid M] {key : A → K} {f : K → List A → B}
    {F : B → M} {g : A → M} (q : B → Prop) [DecidablePred q] (q' : A → Prop) [DecidablePred q']
    (hq : ∀ k as, ∀ a, key a = k → (q (f k as) ↔ q' a))
    (hF : ∀ k as, F (f k as) = (as.map g).sum) (rows : List A) :
    (((groupBy key f rows).filter fun b => q b).map F).sum
      = ((rows.filter fun a => q' a).map g).sum := by
  rw [sum_map_filter, sum_map_filter]
  refine sum_groupBy _ (fun k as has => ?_) rows
  by_cases h : q (f k as)
  · rw [if_pos h, hF]
    refine congrArg List.sum (List.map_congr_left fun a ha => ?_)
    rw [if_pos ((hq k as a (has a ha)).mp h)]
  · rw [if_neg h, List.map_congr_left fun a ha =>
      if_neg (fun hq' => h ((hq k as a (has a ha)).mpr hq'))]
    simp

/-- One of some rows has what no two of them have. -/
theorem length_filter_eq_one {q : A → Prop} [DecidablePred q] {as : List A}
    (hone : as.Pairwise fun a b => ¬(q a ∧ q b)) {a : A} (ha : a ∈ as) (hq : q a) :
    (as.filter fun a => q a).length = 1 := by
  induction as with
  | nil => exact absurd ha List.not_mem_nil
  | cons b as ih =>
    obtain ⟨hb, hone⟩ := List.pairwise_cons.mp hone
    rcases List.mem_cons.mp ha with rfl | ha
    · have hnil : as.filter (fun a => q a) = [] := List.filter_eq_nil_iff.mpr fun c hc hqc =>
        hb c hc ⟨hq, of_decide_eq_true hqc⟩
      rw [List.filter_cons, if_pos (decide_eq_true hq), hnil]
      rfl
    · rw [List.filter_cons, if_neg fun hqb => hb a ha ⟨of_decide_eq_true hqb, hq⟩]
      exact ih hone ha

/-- What no two of some rows have, only one row has. -/
theorem eq_of_filter_apart {q : A → Prop} {as : List A}
    (hone : as.Pairwise fun a b => ¬(q a ∧ q b)) {a b : A} (ha : a ∈ as) (hqa : q a) (hb : b ∈ as)
    (hqb : q b) : a = b := by
  have : Std.Symm fun a b : A => ¬(q a ∧ q b) := ⟨fun _ _ h hba => h hba.symm⟩
  by_contra hne
  exact hone.forall ha hb hne ⟨hqa, hqb⟩

end FanucDriver.Lib.Window
