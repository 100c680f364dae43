import Mathlib.Data.List.Basic
import Mathlib.Tactic.Cases

/-!
# Queues and tasks of an event loop

`Queue` is an unbounded `asyncio.Queue`, kept as everything ever put on it with the
number of items taken and the number reported done: what is in it, what was taken
and whether `join` returns are all read off that.

`Pointwise` relates two lists of tasks place by place. `Outcome` is how a task ended.
A cancelled task ends as its coroutine makes it end: one that catches the
`CancelledError` ends `returned`.
-/

namespace FanucDriver.Lib

variable {A : Type}

/-- `asyncio.Queue`, unbounded. -/
structure Queue (A : Type) where
  puts : List A
  taken : ℕ
  finished : ℕ
  bound : taken ≤ puts.length

namespace Queue

def empty : Queue A := ⟨[], 0, 0, Nat.le_refl 0⟩

/-- What is in the queue. -/
def items (q : Queue A) : List A := q.puts.drop q.taken

/-- What was taken from the queue. -/
def got (q : Queue A) : List A := q.puts.take q.taken

/-- `put_nowait`, of several items in order. -/
def put (q : Queue A) (as : List A) : Queue A where
  puts := q.puts ++ as
  taken := q.taken
  finished := q.finished
  bound := List.length_append ▸ Nat.le_add_right_of_le q.bound

/-- `get_nowait`, or nothing where the queue is empty. -/
def get? (q : Queue A) : Option (A × Queue A) :=
  if h : q.taken < q.puts.length then
    some (q.puts[q.taken], { q with taken := q.taken + 1, bound := h })
  else none

/-- `task_done` -/
def taskDone (q : Queue A) : Queue A := { q with finished := q.finished + 1 }

/-- `join` returns. -/
def joined (q : Queue A) : Bool := q.finished == q.puts.length

@[simp] theorem put_nil (q : Queue A) : q.put [] = q := by
  cases q
  simp only [put, List.append_nil]

theorem put_put (q : Queue A) (as bs : List A) : (q.put as).put bs = q.put (as ++ bs) := by
  simp only [put, List.append_assoc]

/-- Putting does not change what was taken. -/
@[simp] theorem put_got (q : Queue A) (as : List A) : (q.put as).got = q.got :=
  List.take_append_of_le_length q.bound

/-- It comes after what is in the queue. -/
theorem put_items (q : Queue A) (as : List A) : (q.put as).items = q.items ++ as :=
  List.drop_append_of_le_length q.bound

/-- Taking an item moves it from what is in the queue to what was taken. -/
theorem get?_eq_some {q q' : Queue A} {a : A} (h : q.get? = some (a, q')) :
    q'.puts = q.puts ∧ q'.got = q.got ++ [a] := by
  rw [get?] at h
  split at h
  next hlt =>
    obtain ⟨rfl, rfl⟩ := Prod.mk.inj (Option.some.inj h)
    refine ⟨rfl, ?_⟩
    rw [got, got, List.take_add_one, List.getElem?_eq_getElem hlt]
    rfl
  next => exact absurd h.symm (Option.some_ne_none _)

/-- What was taken and what is there is all that was put. -/
theorem got_append_items (q : Queue A) : q.got ++ q.items = q.puts :=
  List.take_append_drop q.taken q.puts

/-- An item is taken from the front. -/
theorem get?_items {q q' : Queue A} {a : A} (h : q.get? = some (a, q')) :
    q.items = a :: q'.items := by
  obtain ⟨hputs, hgot⟩ := get?_eq_some h
  have hsplit := got_append_items q'
  rw [hputs, hgot, ← got_append_items q, List.append_assoc] at hsplit
  exact (List.append_cancel_left hsplit).symm

theorem get?_eq_none {q : Queue A} (h : q.get? = none) : q.items = [] := by
  unfold get? at h
  split at h
  next => exact absurd h (Option.some_ne_none _)
  next hlt => exact List.drop_eq_nil_iff.mpr (Nat.le_of_not_lt hlt)

theorem joined_iff {q : Queue A} : q.joined = true ↔ q.finished = q.puts.length := beq_iff_eq

/-- Taking an item counts it as taken, and not yet as reported done. -/
theorem get?_counts {q q' : Queue A} {a : A} (h : q.get? = some (a, q')) :
    q'.taken = q.taken + 1 ∧ q'.finished = q.finished := by
  rw [get?] at h
  split at h
  · obtain ⟨-, rfl⟩ := Prod.mk.inj (Option.some.inj h)
    exact ⟨rfl, rfl⟩
  · exact absurd h.symm (Option.some_ne_none _)

/-- Nothing is left to take from a queue where everything was reported done. -/
theorem get?_of_joined {q : Queue A} (hf : q.finished ≤ q.taken) (h : q.joined = true) :
    q.get? = none := by
  have hlength := joined_iff.mp h
  rw [get?, dif_neg]
  omega

/-- Where every item taken was reported done, `join` waits for the queue to be empty. -/
theorem joined_iff_items_nil {q : Queue A} (h : q.finished = q.taken) :
    q.joined = true ↔ q.items = [] := by
  have hbound := q.bound
  rw [joined_iff, items, List.drop_eq_nil_iff]
  omega

/-- Where the queue is empty, everything was taken. -/
theorem got_of_items_nil {q : Queue A} (h : q.items = []) : q.got = q.puts :=
  List.take_of_length_le (List.drop_eq_nil_iff.mp h)

end Queue

/-- How a task ended. -/
inductive Outcome where
  | returned
  | raised
  | cancelled
  deriving DecidableEq

/-- `gather` comes back: with the failure of a child that failed, or when all
children returned. -/
def gathered (children : List (Option Outcome)) : Outcome → Bool
  | .returned => children.all (· == some .returned)
  | o => children.contains (some o)

/-! ## Lists of tasks -/

/-- As many elements, and `R` from each to the one in its place. -/
def Pointwise (R : A → A → Prop) (as bs : List A) : Prop := ∀ t : ℕ, Option.Rel R as[t]? bs[t]?

namespace Pointwise

variable {R Q : A → A → Prop} {as bs cs : List A}

theorem refl (hR : ∀ a, R a a) (as : List A) : Pointwise R as as := fun t => by
  cases as[t]? with
  | none => exact .none
  | some a => exact .some (hR a)

theorem trans (hR : ∀ {a b c}, R a b → R b c → R a c) (h : Pointwise R as bs)
    (h' : Pointwise R bs cs) : Pointwise R as cs := by
  intro t
  have ht := h t
  have ht' := h' t
  generalize as[t]? = a, bs[t]? = b, cs[t]? = c at ht ht'
  cases ht with
  | none =>
    cases ht'
    exact .none
  | some hab =>
    obtain ⟨hbc⟩ := ht'
    exact .some (hR hab hbc)

theorem mono (hRQ : ∀ {a b}, R a b → Q a b) (h : Pointwise R as bs) : Pointwise Q as bs := by
  intro t
  have ht := h t
  generalize as[t]? = a, bs[t]? = b at ht
  cases ht with
  | none => exact .none
  | some hab => exact .some (hRQ hab)

/-- An element of the later list comes from one of the list before. -/
theorem before (h : Pointwise R as bs) {t : ℕ} {b : A} (hb : bs[t]? = some b) :
    ∃ a, as[t]? = some a ∧ R a b := by
  have ht := h t
  rw [hb] at ht
  generalize as[t]? = a at ht
  obtain ⟨hab⟩ := ht
  exact ⟨_, rfl, hab⟩

theorem after (h : Pointwise R as bs) {t : ℕ} {a : A} (ha : as[t]? = some a) :
    ∃ b, bs[t]? = some b ∧ R a b := by
  have ht := h t
  rw [ha] at ht
  generalize bs[t]? = b at ht
  obtain ⟨hab⟩ := ht
  exact ⟨_, rfl, hab⟩

/-- What `R` keeps of an element is the same in both lists. -/
theorem map_eq {B : Type} {f : A → B} (hf : ∀ {a b}, R a b → f b = f a) (h : Pointwise R as bs)
    (t : ℕ) : bs[t]?.map f = as[t]?.map f := by
  have ht := h t
  generalize as[t]? = a, bs[t]? = b at ht
  cases ht with
  | none => rfl
  | some hab => exact congrArg some (hf hab)

theorem set (hR : ∀ a, R a a) {t : ℕ} {a b : A} (ha : as[t]? = some a) (hab : R a b) :
    Pointwise R as (as.set t b) := by
  intro u
  rw [List.getElem?_set]
  split
  next heq =>
    obtain rfl := heq
    rw [ha, if_pos (List.getElem?_eq_some_iff.mp ha).1]
    exact .some hab
  next => exact refl hR as u

theorem modify (hR : ∀ a, R a a) {f : A → A} (hf : ∀ a, R a (f a)) (as : List A) (t : ℕ) :
    Pointwise R as (as.modify t f) := by
  intro u
  rw [List.getElem?_modify]
  cases as[u]? with
  | none => exact .none
  | some a =>
    rw [Option.map_eq_map, Option.map_some]
    split
    · exact .some (hf a)
    · exact .some (hR a)

end Pointwise

end FanucDriver.Lib
