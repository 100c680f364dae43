import Mathlib.Data.List.Basic
import Mathlib.Data.List.TakeWhile
import Mathlib.Tactic.Cases

/-!
# C buffers

A `Buffer` is one object of C's memory: its cells, each of which holds a value or is
indeterminate, as in an uninitialised array or a fresh block of `malloc`. A program
that reads or writes outside an object, reads an indeterminate cell, uses a null pointer
or writes a constant has no defined behaviour from there on, which is a `Fault` here.

Buffers are written as concatenations, and each operation has a lemma for the part it
touches: what stands before and after that part stays.

- `readString_cells`: what a terminated string reads as, whatever stands behind it.
- `writeString_cells`: writing one, with room for its terminator.
-/

namespace FanucDriver.Lib

/-- Why a program has no defined behaviour. -/
inductive Fault where
  | bounds
  | indeterminate
  | null
  | constant
  deriving DecidableEq

/-- The cells of an object. -/
abbrev Buffer (A : Type) := List (Option A)

namespace Buffer

variable {A : Type}

/-- An object of `n` indeterminate cells. -/
def fresh (n : ℕ) : Buffer A := List.replicate n none

/-- Cells that hold values. -/
def cells (as : List A) : Buffer A := as.map some

/-- `realloc`: the old cells as far as they fit, the others indeterminate. -/
def resize (b : Buffer A) (n : ℕ) : Buffer A := b.take n ++ fresh (n - b.length)

/-- `b[i]` -/
def load (b : Buffer A) (i : ℕ) : Except Fault A :=
  match b[i]? with
  | none => .error .bounds
  | some none => .error .indeterminate
  | some (some a) => .ok a

/-- `b[i] = a` -/
def store (b : Buffer A) (i : ℕ) (a : A) : Except Fault (Buffer A) :=
  if i < b.length then .ok (b.set i (some a)) else .error .bounds

/-- `memcpy(&b[i], …)` of the values `as`. -/
def copyTo (b : Buffer A) (i : ℕ) (as : List A) : Except Fault (Buffer A) :=
  if i + as.length ≤ b.length then .ok (b.take i ++ cells as ++ b.drop (i + as.length))
  else .error .bounds

/-- The first `n` cells of a buffer, read one after the other. -/
def loadMany : ℕ → Buffer A → Except Fault (List A)
  | 0, _ => .ok []
  | _ + 1, [] => .error .bounds
  | _ + 1, none :: _ => .error .indeterminate
  | n + 1, some a :: b => (loadMany n b).map (a :: ·)

/-- `"%s"`: the values before the terminator. -/
def readString [DecidableEq A] (nul : A) : Buffer A → Except Fault (List A)
  | [] => .error .bounds
  | none :: _ => .error .indeterminate
  | some a :: b => if a = nul then .ok [] else (readString nul b).map (a :: ·)

/-- `sprintf(b, "%s", …)`: a string and its terminator from the start of the buffer. -/
def writeString (nul : A) (b : Buffer A) (as : List A) : Except Fault (Buffer A) :=
  b.copyTo 0 (as ++ [nul])

/-! ## What each operation touches -/

@[simp] theorem length_fresh (n : ℕ) : (fresh n : Buffer A).length = n := List.length_replicate

@[simp] theorem length_cells (as : List A) : (cells as).length = as.length := List.length_map _

@[simp] theorem cells_nil : cells ([] : List A) = [] := rfl

@[simp] theorem cells_cons (a : A) (as : List A) : cells (a :: as) = some a :: cells as := rfl

@[simp] theorem cells_append (as bs : List A) : cells (as ++ bs) = cells as ++ cells bs :=
  List.map_append

theorem load_append (pre : Buffer A) (c : Option A) (post : Buffer A) :
    load (pre ++ c :: post) pre.length = load [c] 0 := by
  unfold load
  rw [List.getElem?_append_right (Nat.le_refl _), Nat.sub_self]
  rfl

theorem load_value (pre : Buffer A) (a : A) (post : Buffer A) :
    load (pre ++ some a :: post) pre.length = .ok a := load_append pre (some a) post

theorem store_append (pre : Buffer A) (c : Option A) (post : Buffer A) (a : A) :
    store (pre ++ c :: post) pre.length a = .ok (pre ++ some a :: post) := by
  unfold store
  rw [if_pos (by simp), List.set_append_right _ _ (Nat.le_refl _), Nat.sub_self, List.set_cons_zero]

theorem copyTo_append (pre mid post : Buffer A) {as : List A} (h : mid.length = as.length) :
    copyTo (pre ++ mid ++ post) pre.length as = .ok (pre ++ cells as ++ post) := by
  unfold copyTo
  rw [if_pos (by simp [← h]), ← h, ← List.length_append, List.drop_left, List.append_assoc pre mid,
    List.take_left]

/-- Growing a block leaves what it held. -/
theorem resize_of_le {b : Buffer A} {n : ℕ} (h : b.length ≤ n) :
    resize b n = b ++ fresh (n - b.length) := by
  rw [resize, List.take_of_length_le h]

theorem loadMany_cells (as : List A) (rest : Buffer A) :
    loadMany as.length (cells as ++ rest) = .ok as := by
  induction as with
  | nil => rfl
  | cons a as ih =>
    rw [List.length_cons, cells_cons, List.cons_append, loadMany, ih]
    rfl

section
variable [DecidableEq A] {nul : A}

/-- **A terminated string is read** up to its terminator. -/
theorem readString_cells {as : List A} (h : nul ∉ as) (rest : Buffer A) :
    readString nul (cells as ++ some nul :: rest) = .ok as := by
  induction as with
  | nil => exact if_pos rfl
  | cons a as ih =>
    have hne : a ≠ nul := fun he => h (he ▸ List.mem_cons_self)
    rw [cells_cons, List.cons_append, readString, if_neg hne,
      ih fun hmem => h (List.mem_cons_of_mem a hmem)]
    rfl

/-- The first terminator ends a string, be it among the values or behind them. -/
theorem cells_takeWhile (nul : A) (as : List A) (rest : Buffer A) :
    ∃ rest', cells as ++ some nul :: rest
      = cells (as.takeWhile (· ≠ nul)) ++ some nul :: rest' := by
  induction as with
  | nil => exact ⟨rest, rfl⟩
  | cons a as ih =>
    by_cases ha : a = nul
    · subst ha
      rw [List.takeWhile_cons_of_neg (by simp)]
      exact ⟨cells as ++ some a :: rest, rfl⟩
    · obtain ⟨rest', hrest'⟩ := ih
      have hkeep : (a :: as).takeWhile (· ≠ nul) = a :: as.takeWhile (· ≠ nul) :=
        List.takeWhile_cons_of_pos (decide_eq_true ha)
      rw [hkeep]
      exact ⟨rest', by rw [cells_cons, List.cons_append, hrest', cells_cons, List.cons_append]⟩

theorem readString_takeWhile (as : List A) (rest : Buffer A) :
    readString nul (cells as ++ some nul :: rest) = .ok (as.takeWhile (· ≠ nul)) := by
  have hnul : nul ∉ as.takeWhile (· ≠ nul) := by
    intro hmem
    have hne := List.mem_takeWhile_imp hmem
    simp at hne
  obtain ⟨rest', hrest'⟩ := cells_takeWhile nul as rest
  rw [hrest', readString_cells hnul]

/-- A buffer that holds nothing reads as nothing. -/
theorem readString_fresh (n : ℕ) :
    readString nul (fresh (n + 1)) = .error .indeterminate := rfl

end

/-- **A string is written** where there is room for it and its terminator. -/
theorem writeString_cells (nul : A) {b : Buffer A} {as : List A} (h : as.length < b.length) :
    writeString nul b as = .ok (cells as ++ some nul :: b.drop (as.length + 1)) := by
  unfold writeString copyTo
  rw [List.length_append, List.length_singleton, Nat.zero_add, if_pos (Nat.succ_le_of_lt h)]
  simp

end Buffer

end FanucDriver.Lib
