import FanucDriver.Lib.Window
import Mathlib.Data.List.SplitBy

/-!
# Gaps and islands

A relation on successive rows cuts an ordered list into islands: in an island each row is
joined to the next one, and the last row of an island is not joined to the first of the
next (`Islands`).

Queries number the islands with a running sum: a row gets 1 where it is not joined to the
row before it and 0 elsewhere, and the sum up to a row is the number of its island
(`runningSum_islands`).
-/

namespace FanucDriver.Lib.Window

variable {A B T : Type}

/-- `gs` cuts `as` where a row is not joined to the row before it. -/
structure Islands (joined : T → T → Bool) (t : A → T) (as : List A) (gs : List (List A)) :
    Prop where
  flatten : gs.flatten = as
  nonempty : [] ∉ gs
  inside : ∀ g ∈ gs, g.IsChain fun a b => joined (t a) (t b) = true
  apart : gs.IsChain fun g g' => ∀ a ∈ g.getLast?, ∀ b ∈ g'.head?, joined (t a) (t b) = false

theorem exists_islands (joined : T → T → Bool) (t : A → T) (as : List A) :
    ∃ gs, Islands joined t as gs := by
  refine ⟨as.splitBy fun a b => joined (t a) (t b), List.flatten_splitBy _ as,
    List.nil_notMem_splitBy _ as, fun g hg => List.isChain_of_mem_splitBy hg, ?_⟩
  refine (List.isChain_getLast_head_splitBy _ as).imp ?_
  intro g g' h a ha b hb
  obtain ⟨hlast, hhead, hapart⟩ := h
  rw [List.getLast?_eq_some_getLast hlast, Option.mem_some_iff] at ha
  rw [List.head?_eq_some_head hhead, Option.mem_some_iff] at hb
  rw [← ha, ← hb]
  exact hapart

namespace Islands

variable {joined : T → T → Bool} {t : A → T} {as : List A} {gs : List (List A)} {g : List A}

theorem sublist (h : Islands joined t as gs) (hg : g ∈ gs) : g.Sublist as :=
  h.flatten ▸ List.sublist_flatten_of_mem hg

theorem ne_nil (h : Islands joined t as gs) (hg : g ∈ gs) : g ≠ [] := by
  intro hnil
  exact h.nonempty (hnil ▸ hg)

end Islands

/-- `case when pt is null or … then 1 else 0 end` -/
def startFlag (joined : T → T → Bool) (t : A → T) (x : A × Option T) : ℤ :=
  if x.2.any fun pt => joined pt (t x.1) then 0 else 1

theorem runningSum_map (c : B → ℤ) (f : A → B) (s : ℤ) (as : List A) :
    runningSum c s (as.map f) = (runningSum (fun a => c (f a)) s as).map fun x => (f x.1, x.2) := by
  induction as generalizing s with
  | nil => rfl
  | cons a as ih => rw [List.map_cons, runningSum, ih, runningSum, List.map_cons]

section
variable {joined : T → T → Bool} {t : A → T}

/-- Rows with the row before them, the first one with `last`. -/
def laggedFrom (t : A → T) (last : Option T) (as : List A) : List (A × Option T) :=
  as.zip (last :: as.map fun a => some (t a))

/-- Each row with the sum up to it. -/
def sums (joined : T → T → Bool) (t : A → T) (s : ℤ) (rows : List (A × Option T)) :
    List (A × ℤ) :=
  (runningSum (startFlag joined t) s rows).map fun x => (x.1.1, x.2)

theorem sums_cons (s : ℤ) (last : Option T) (a : A) (as : List A) :
    sums joined t s (laggedFrom t last (a :: as))
      = (a, s + startFlag joined t (a, last)) ::
        sums joined t (s + startFlag joined t (a, last)) (laggedFrom t (some (t a)) as) := rfl

/-- Along joined rows the sum stays. -/
theorem sums_joined {a : A} {r : List A} (h : (a :: r).IsChain fun a b => joined (t a) (t b) = true)
    (s : ℤ) (rest : List A) :
    sums joined t s (laggedFrom t (some (t a)) (r ++ rest))
      = r.map (fun b => (b, s)) ++
        sums joined t s
          (laggedFrom t (some (t ((a :: r).getLast (List.cons_ne_nil a r)))) rest) := by
  induction r generalizing a with
  | nil => rfl
  | cons b r ih =>
    obtain ⟨hab, hrest⟩ := List.isChain_cons_cons.mp h
    have hflag : startFlag joined t (b, some (t a)) = 0 := if_pos hab
    rw [List.cons_append, sums_cons, hflag, Int.add_zero, ih hrest, List.getLast_cons_cons]
    rfl

/-- **The running sum numbers the islands.** -/
theorem sums_islands {as : List A} {gs : List (List A)} (h : Islands joined t as gs) {s : ℤ}
    {last : Option T}
    (hlast : ∀ p ∈ last, ∀ g ∈ gs.head?, ∀ b ∈ g.head?, joined p (t b) = false) (i : ℕ)
    (hi : s + 1 = i) :
    sums joined t s (laggedFrom t last as)
      = (gs.zipIdx i).flatMap fun x => x.1.map fun a => (a, (x.2 : ℤ)) := by
  obtain ⟨rfl, hne, hinside, hapart⟩ := h
  induction gs generalizing s last i with
  | nil => rfl
  | cons g gs ih =>
    cases g with
    | nil => exact absurd List.mem_cons_self hne
    | cons a r =>
      have hflag : startFlag joined t (a, last) = 1 := by
        cases last with
        | none => rfl
        | some p =>
          refine if_neg ?_
          rw [Option.any_some, hlast p rfl _ rfl a rfl]
          exact Bool.false_ne_true
      have hnext : ∀ p ∈ some (t ((a :: r).getLast (List.cons_ne_nil a r))), ∀ g ∈ gs.head?,
          ∀ b ∈ g.head?, joined p (t b) = false := by
        intro p hp g hg b hb
        obtain rfl := Option.some.inj hp
        cases gs with
        | nil => exact absurd hg (by simp)
        | cons g₂ gs =>
          obtain rfl := Option.some.inj hg
          refine (List.isChain_cons_cons.mp hapart).1 _ ?_ b hb
          exact List.getLast?_eq_some_getLast _
      have hrest := ih hnext (i + 1) (s := s + 1) (by push_cast; omega)
        (fun hnil => hne (List.mem_cons_of_mem _ hnil))
        (fun g hg => hinside g (List.mem_cons_of_mem _ hg)) hapart.tail
      rw [List.flatten_cons, List.cons_append, sums_cons, hflag,
        sums_joined (hinside _ List.mem_cons_self), hrest, List.zipIdx_cons, List.flatMap_cons, hi]
      rfl

/-- The sums of a window, from its islands. -/
theorem runningSum_islands {as : List A} {gs : List (List A)} (h : Islands joined t as gs) :
    (runningSum (startFlag joined t) 0 (lagged t as)).map (fun x => (x.1.1, x.2))
      = (gs.zipIdx 1).flatMap fun x => x.1.map fun a => (a, (x.2 : ℤ)) :=
  sums_islands h (fun p hp => absurd hp (by simp)) 1 rfl

end

/-! ## Islands of a partition -/

section
variable {K F C S : Type} [DecidableEq K] [LinearOrder C] {joined : T → T → Bool} {u : A → T}

/-- **Rows numbered by a query**: in a partition, a lag, a flag where a row is not joined to
the one before, and the running sum of the flags give each row the number of its island. -/
theorem filter_numbered {key : A → K} {t : A → C} (flag : A × Option T → F) {keyF : F → K}
    {tF : F → C} {c : F → ℤ} (span : F × ℤ → S) (keyS : S → K) (row : A → ℤ → S)
    (hkeyF : ∀ x, keyF (flag x) = key x.1) (htF : ∀ x, tF (flag x) = t x.1)
    (hc : ∀ x, c (flag x) = startFlag joined u x) (hkeyS : ∀ x, keyS (span x) = keyF x.1)
    (hrow : ∀ x n, span (flag x, n) = row x.1 n) {rows : List A} {k : K} {gs : List (List A)}
    (hislands : Islands joined u (partition key t rows k) gs) :
    ((overPartition keyF tF (runningSum c 0)
        ((overPartition key t (lagged u) rows).map flag)).map span).filter (fun x => keyS x = k)
      = (gs.zipIdx 1).flatMap fun x => x.1.map fun a => row a x.2 := by
  have hflags : ((overPartition key t (lagged u) rows).map flag).filter (fun x => keyF x = k)
      = (lagged u (partition key t rows k)).map flag := by
    have hlagged := filter_over (f := lagged u) (t := t) (fun x : A × Option T => key x.1) rfl
      (fun as k has b hb => has b.1 (mem_of_mem_lagged hb)) rows k
    rw [List.filter_map, ← hlagged]
    refine congrArg (List.map flag) (List.filter_congr fun x _ => ?_)
    rw [Function.comp_apply, hkeyF]
  have hsorted : ((lagged u (partition key t rows k)).map flag).Pairwise fun x y =>
      tF x ≤ tF y := by
    have hfst : ((lagged u (partition key t rows k)).map Prod.fst).Pairwise fun x y =>
        t x ≤ t y := by
      rw [map_fst_lagged]
      exact orderBy_sorted _ _
    rw [List.pairwise_map] at hfst ⊢
    refine hfst.imp fun h => ?_
    rw [htF, htF]
    exact h
  have hsums := filter_over (f := runningSum c 0) (t := tF) (fun x : F × ℤ => keyF x.1) rfl
    (fun as k has b hb => has b.1 (map_fst_runningSum c 0 as ▸ List.mem_map_of_mem hb))
    ((overPartition key t (lagged u) rows).map flag) k
  rw [partition_eq hflags hsorted, runningSum_map] at hsums
  have hspans : ((overPartition keyF tF (runningSum c 0)
        ((overPartition key t (lagged u) rows).map flag)).map span).filter (fun x => keyS x = k)
      = ((overPartition keyF tF (runningSum c 0)
        ((overPartition key t (lagged u) rows).map flag)).filter fun x => keyF x.1 = k).map
          span := by
    rw [List.filter_map]
    refine congrArg (List.map span) (List.filter_congr fun x _ => ?_)
    rw [Function.comp_apply, hkeyS]
  have hnumbers := congrArg (List.map fun x => row x.1 x.2) (runningSum_islands hislands)
  rw [List.map_map, List.map_flatMap] at hnumbers
  simp only [List.map_map] at hnumbers
  rw [hspans, hsums, List.map_map]
  simp only [hc]
  exact Eq.trans (List.map_congr_left fun x _ => hrow x.1 x.2) hnumbers

/-- The numbers of the islands differ. -/
theorem islandNumbers_ne (gs : List (List A)) :
    (gs.zipIdx 1).Pairwise fun x y => (x.2 : ℤ) ≠ (y.2 : ℤ) := by
  have hnodup : ((gs.zipIdx 1).map Prod.snd).Nodup := by
    rw [List.zipIdx_map_snd]
    exact List.nodup_range'
  exact (List.pairwise_map.mp hnodup).imp fun h he => h (Int.ofNat_inj.mp he)

/-- **Grouping by the number of the island** gives the row of each island, where the rows of
an island have one key, with its number in it. -/
theorem groupBy_numbered {L D : Type} [DecidableEq L] {key : S → L} {f : L → List S → D}
    (keyOf : D → K) (of : L → K) (hof : ∀ l as, keyOf (f l as) = of l) {rows : List S} {k : K}
    {gs : List (List A)} {row : A → ℤ → S}
    (hrows : rows.filter (fun x => of (key x) = k)
      = (gs.zipIdx 1).flatMap fun x => x.1.map fun a => row a x.2)
    (hne : [] ∉ gs) (label : List A → ℤ → L) (number : L → ℤ)
    (hnumber : ∀ g n, number (label g n) = n)
    (hlabel : ∀ g ∈ gs, ∀ a ∈ g, ∀ n, of (key (row a n)) = k → key (row a n) = label g n)
    (island : List A → D)
    (hisland : ∀ g ∈ gs, ∀ n, f (label g n) (g.map fun a => row a n) = island g) :
    ((groupBy key f rows).filter fun b => keyOf b = k).Perm (gs.map island) := by
  have hnumbers : (gs.zipIdx 1).Pairwise fun x y => label x.1 x.2 ≠ label y.1 y.2 := by
    refine (islandNumbers_ne gs).imp fun {x y} h he => h ?_
    exact (hnumber x.1 x.2).symm.trans ((congrArg number he).trans (hnumber y.1 y.2))
  have hlabels : ∀ x ∈ gs.zipIdx 1, ∀ y ∈ x.1.map fun a => row a x.2,
      key y = label x.1 x.2 := by
    intro x hx y hy
    have hmem : y ∈ rows.filter fun x => of (key x) = k :=
      hrows ▸ List.mem_flatMap.mpr ⟨x, hx, hy⟩
    have hkey := of_decide_eq_true (List.mem_filter.mp hmem).2
    obtain ⟨a, ha, rfl⟩ := List.mem_map.mp hy
    exact hlabel x.1 (List.fst_mem_of_mem_zipIdx hx) a ha x.2 hkey
  have hparts : ∀ x ∈ gs.zipIdx 1, (x.1.map fun a => row a x.2) ≠ [] := by
    intro x hx h
    exact hne (List.map_eq_nil_iff.mp h ▸ List.fst_mem_of_mem_zipIdx hx)
  have hperm := filter_groupBy_perm keyOf of hof (fun x : List A × ℕ => label x.1 x.2) hrows
    hlabels hnumbers hparts
  refine hperm.trans (List.Perm.of_eq ?_)
  conv => rhs; rw [← List.zipIdx_map_fst 1 gs, List.map_map]
  exact List.map_congr_left fun x hx => hisland x.1 (List.fst_mem_of_mem_zipIdx hx) x.2

end

end FanucDriver.Lib.Window
