import Mathlib.Data.Finset.Card
import Mathlib.Data.Finset.Range
import Mathlib.Logic.Function.Basic

/-!
# A heap and who holds its blocks

A `Heap` hands out blocks and takes them back. No address is handed out twice; to read, write
or free what is not live has no defined behaviour, which is `none` here.

`Ledger h vars rest` is the discipline of a program that frees what it allocates: every live
block is held by exactly one of the pointer variables `vars`, or stands once in `rest`. What
a call is working on comes first in `rest`; what is left there when no call is under way can
no longer be freed by anyone (`Ledger.card_leaked`).

- `Ledger.malloc`, `Ledger.free`, `Ledger.freeVar`, `Ledger.assign`: an entry for each
  operation.
- `Ledger.store`: writing a block moves nothing.
-/

namespace FanucDriver.Lib

/-- What each address holds. The addresses from `next` on were not handed out yet. -/
structure Heap (B : Type) where
  cells : ℕ → Option B
  next : ℕ
  fresh : ∀ p, next ≤ p → cells p = none

namespace Heap

variable {B : Type}

def empty : Heap B where
  cells _ := none
  next := 0
  fresh _ _ := rfl

/-- `*p` -/
def load (h : Heap B) (p : ℕ) : Option B := h.cells p

/-- A block that holds `b`. -/
def malloc (h : Heap B) (b : B) : ℕ × Heap B :=
  (h.next,
    { cells := Function.update h.cells h.next (some b)
      next := h.next + 1
      fresh := fun p hp => by
        rw [Function.update_of_ne (by omega)]
        exact h.fresh p (by omega) })

/-- A live address with another content, or with none. -/
def set (h : Heap B) (p : ℕ) (hp : (h.load p).isSome) (b : Option B) : Heap B where
  cells := Function.update h.cells p b
  next := h.next
  fresh q hq := by
    have hne : q ≠ p := by
      rintro rfl
      rw [load, h.fresh q hq] at hp
      exact absurd hp Bool.false_ne_true
    rw [Function.update_of_ne hne]
    exact h.fresh q hq

/-- `*p = b` -/
def store (h : Heap B) (p : ℕ) (b : B) : Option (Heap B) :=
  if hp : (h.load p).isSome then some (h.set p hp (some b)) else none

/-- `free(p)` -/
def free (h : Heap B) (p : ℕ) : Option (Heap B) :=
  if hp : (h.load p).isSome then some (h.set p hp none) else none

/-- `free(NULL)` does nothing. -/
def freeNullable (h : Heap B) : Option ℕ → Option (Heap B)
  | none => some h
  | some p => h.free p

/-- The blocks that are live. -/
def live (h : Heap B) : Finset ℕ := (Finset.range h.next).filter fun p => (h.load p).isSome

theorem mem_live {h : Heap B} {p : ℕ} : p ∈ h.live ↔ (h.load p).isSome := by
  refine ⟨fun hp => (Finset.mem_filter.mp hp).2, fun hp => Finset.mem_filter.mpr ⟨?_, hp⟩⟩
  rw [Finset.mem_range]
  by_contra hlt
  rw [load, h.fresh p (not_lt.mp hlt)] at hp
  exact absurd hp Bool.false_ne_true

/-! ## What each operation reads back -/

theorem load_next (h : Heap B) : h.load h.next = none := h.fresh _ (le_refl _)

theorem ne_next {h : Heap B} {p : ℕ} (hp : (h.load p).isSome) : p ≠ h.next := by
  rintro rfl
  rw [load_next] at hp
  exact absurd hp Bool.false_ne_true

@[simp] theorem load_malloc_self (h : Heap B) (b : B) :
    (h.malloc b).2.load (h.malloc b).1 = some b := Function.update_self ..

theorem load_malloc (h : Heap B) (b : B) {p : ℕ} (hp : p ≠ (h.malloc b).1) :
    (h.malloc b).2.load p = h.load p := Function.update_of_ne hp _ _

theorem store_live {h : Heap B} {p : ℕ} (hp : (h.load p).isSome) (b : B) :
    ∃ h', h.store p b = some h' ∧ h'.load p = some b ∧ ∀ q, q ≠ p → h'.load q = h.load q :=
  ⟨h.set p hp (some b), dif_pos hp, Function.update_self .., fun _ hq =>
    Function.update_of_ne hq _ _⟩

theorem free_live {h : Heap B} {p : ℕ} (hp : (h.load p).isSome) :
    ∃ h', h.free p = some h' ∧ h'.load p = none ∧ ∀ q, q ≠ p → h'.load q = h.load q :=
  ⟨h.set p hp none, dif_pos hp, Function.update_self .., fun _ hq => Function.update_of_ne hq _ _⟩

/-! ## The ledger -/

section
variable {X : Type}

/-- Every live block is held by one variable, or stands in `rest`. -/
structure Ledger (h : Heap B) (vars : X → Option ℕ) (rest : List ℕ) : Prop where
  live : ∀ p, (h.load p).isSome ↔ (∃ x, vars x = some p) ∨ p ∈ rest
  unique : ∀ {x y p}, vars x = some p → vars y = some p → x = y
  apart : ∀ {x p}, vars x = some p → p ∉ rest
  nodup : rest.Nodup

/-- The live blocks no variable points to. -/
def leaked [Fintype X] (h : Heap B) (vars : X → Option ℕ) : Finset ℕ :=
  h.live.filter fun p => ∀ x, vars x ≠ some p

namespace Ledger

variable {h : Heap B} {vars : X → Option ℕ} {rest : List ℕ}

theorem empty : Ledger (B := B) Heap.empty (fun _ : X => none) [] where
  live p := by simp [Heap.empty, load]
  unique hx := absurd hx.symm (Option.some_ne_none _)
  apart hx := absurd hx.symm (Option.some_ne_none _)
  nodup := List.nodup_nil

theorem live_var (hl : Ledger h vars rest) {x : X} {p : ℕ} (hx : vars x = some p) :
    (h.load p).isSome := (hl.live p).mpr (.inl ⟨x, hx⟩)

theorem live_rest (hl : Ledger h vars rest) {p : ℕ} (hp : p ∈ rest) : (h.load p).isSome :=
  (hl.live p).mpr (.inr hp)

/-- **Allocating**: the new block comes first. -/
theorem malloc (hl : Ledger h vars rest) (b : B) :
    Ledger (h.malloc b).2 vars ((h.malloc b).1 :: rest) where
  live p := by
    by_cases hp : p = (h.malloc b).1
    · subst hp
      simp
    · rw [load_malloc h b hp, hl.live p, List.mem_cons, or_iff_right hp]
  unique hx hy := hl.unique hx hy
  apart hx hmem := by
    rcases List.mem_cons.mp hmem with rfl | hmem
    · exact ne_next (hl.live_var hx) rfl
    · exact hl.apart hx hmem
  nodup := List.nodup_cons.mpr ⟨fun hmem => ne_next (hl.live_rest hmem) rfl, hl.nodup⟩

/-- **Freeing** a block of the rest. -/
theorem free {p : ℕ} (hl : Ledger h vars (p :: rest)) :
    ∃ h', h.free p = some h' ∧ Ledger h' vars rest ∧ ∀ q, q ≠ p → h'.load q = h.load q := by
  obtain ⟨h', hfree, hp, hothers⟩ := free_live (hl.live_rest List.mem_cons_self)
  obtain ⟨hnot, hnodup⟩ := List.nodup_cons.mp hl.nodup
  refine ⟨h', hfree, ⟨fun q => ?_, hl.unique, fun hx hmem => ?_, hnodup⟩, hothers⟩
  · by_cases hq : q = p
    · subst hq
      rw [hp]
      refine iff_of_false Bool.false_ne_true ?_
      rintro (⟨x, hx⟩ | hmem)
      · exact hl.apart hx List.mem_cons_self
      · exact hnot hmem
    · rw [hothers q hq, hl.live q, List.mem_cons, or_iff_right hq]
  · exact hl.apart hx (List.mem_cons_of_mem _ hmem)

/-- **Writing** a live block. -/
theorem store (hl : Ledger h vars rest) {p : ℕ} (hp : (h.load p).isSome) (b : B) :
    ∃ h', h.store p b = some h' ∧ Ledger h' vars rest ∧ h'.load p = some b ∧
      ∀ q, q ≠ p → h'.load q = h.load q := by
  obtain ⟨h', hstore, hself, hothers⟩ := store_live hp b
  refine ⟨h', hstore, ⟨fun q => ?_, hl.unique, hl.apart, hl.nodup⟩, hself, hothers⟩
  by_cases hq : q = p
  · subst hq
    rw [← hl.live q, hself]
    exact iff_of_true rfl hp
  · rw [hothers q hq, hl.live q]

theorem swap {p q : ℕ} (hl : Ledger h vars (p :: q :: rest)) : Ledger h vars (q :: p :: rest) where
  live r := by rw [hl.live r, List.mem_cons, List.mem_cons, List.mem_cons, List.mem_cons,
    or_left_comm (a := r = p)]
  unique := hl.unique
  apart hx hmem := hl.apart hx ((List.Perm.swap p q rest).symm.mem_iff.mpr hmem)
  nodup := (List.Perm.swap q p rest).nodup_iff.mp hl.nodup

variable [DecidableEq X]

/-- **Freeing** what a variable holds: the variable is dangling, and holds nothing more. -/
theorem freeVar (hl : Ledger h vars rest) {x : X} {p : ℕ} (hx : vars x = some p) :
    ∃ h', h.free p = some h' ∧ Ledger h' (Function.update vars x none) rest ∧
      ∀ q, q ≠ p → h'.load q = h.load q := by
  obtain ⟨h', hfree, hp, hothers⟩ := free_live (hl.live_var hx)
  have hupdate : ∀ {y q}, Function.update vars x none y = some q → y ≠ x ∧ vars y = some q := by
    intro y q hy
    by_cases hyx : y = x
    · rw [hyx, Function.update_self] at hy
      exact absurd hy.symm (Option.some_ne_none q)
    · exact ⟨hyx, by rwa [Function.update_of_ne hyx] at hy⟩
  refine ⟨h', hfree, ⟨fun q => ?_, fun hy hz => ?_, fun hy => ?_, hl.nodup⟩, hothers⟩
  · by_cases hq : q = p
    · subst hq
      rw [hp]
      refine iff_of_false Bool.false_ne_true ?_
      rintro (⟨y, hy⟩ | hmem)
      · obtain ⟨hne, hy⟩ := hupdate hy
        exact hne (hl.unique hy hx)
      · exact hl.apart hx hmem
    · rw [hothers q hq, hl.live q]
      refine or_congr_left ⟨?_, ?_⟩
      · rintro ⟨y, hy⟩
        have hne : y ≠ x := by
          rintro rfl
          exact hq (Option.some.inj (hy.symm.trans hx))
        exact ⟨y, by rw [Function.update_of_ne hne, hy]⟩
      · rintro ⟨y, hy⟩
        exact ⟨y, (hupdate hy).2⟩
  · exact hl.unique (hupdate hy).2 (hupdate hz).2
  · exact hl.apart (hupdate hy).2

/-- **Keeping** a block in a variable that holds nothing. -/
theorem assign {p : ℕ} (hl : Ledger h vars (p :: rest)) {x : X} (hx : vars x = none) :
    Ledger h (Function.update vars x (some p)) rest := by
  obtain ⟨hnot, hnodup⟩ := List.nodup_cons.mp hl.nodup
  have hupdate : ∀ {y q}, Function.update vars x (some p) y = some q →
      y = x ∧ q = p ∨ y ≠ x ∧ vars y = some q := by
    intro y q hy
    by_cases hyx : y = x
    · rw [hyx, Function.update_self] at hy
      exact .inl ⟨hyx, (Option.some.inj hy).symm⟩
    · exact .inr ⟨hyx, by rwa [Function.update_of_ne hyx] at hy⟩
  refine ⟨fun q => ?_, fun {y z q} hy hz => ?_, fun {y q} hy hmem => ?_, hnodup⟩
  · rw [hl.live q, List.mem_cons, or_left_comm, ← or_assoc]
    refine or_congr_left ⟨?_, ?_⟩
    · rintro (rfl | ⟨y, hy⟩)
      · exact ⟨x, Function.update_self ..⟩
      · have hne : y ≠ x := by
          rintro rfl
          exact absurd (hy.symm.trans hx) (Option.some_ne_none q)
        exact ⟨y, by rw [Function.update_of_ne hne, hy]⟩
    · rintro ⟨y, hy⟩
      rcases hupdate hy with ⟨-, rfl⟩ | ⟨-, hy⟩
      · exact .inl rfl
      · exact .inr ⟨y, hy⟩
  · rcases hupdate hy with ⟨hyx, hqp⟩ | ⟨-, hy'⟩ <;>
      rcases hupdate hz with ⟨hzx, hqp'⟩ | ⟨-, hz'⟩
    · exact hyx.trans hzx.symm
    · exact absurd (hqp ▸ List.mem_cons_self) (hl.apart hz')
    · exact absurd (hqp' ▸ List.mem_cons_self) (hl.apart hy')
    · exact hl.unique hy' hz'
  · rcases hupdate hy with ⟨-, hqp⟩ | ⟨-, hy'⟩
    · exact hnot (hqp ▸ hmem)
    · exact hl.apart hy' (List.mem_cons_of_mem _ hmem)

omit [DecidableEq X] in
/-- **What stands in the rest is leaked**, when no call is under way. -/
theorem card_leaked [Fintype X] (hl : Ledger h vars rest) :
    (h.leaked vars).card = rest.length := by
  have hset : h.leaked vars = rest.toFinset := by
    ext p
    rw [leaked, Finset.mem_filter, mem_live, hl.live p, List.mem_toFinset]
    constructor
    · rintro ⟨⟨x, hx⟩ | hmem, hnone⟩
      · exact absurd hx (hnone x)
      · exact hmem
    · exact fun hmem => ⟨.inr hmem, fun x hx => hl.apart hx hmem⟩
  rw [hset, List.toFinset_card_of_nodup hl.nodup]

end Ledger

end

end Heap

end FanucDriver.Lib
