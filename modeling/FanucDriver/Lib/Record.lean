import FanucDriver.Lib.Json
import FanucDriver.Lib.Overlay
import Mathlib.Data.List.Forall2
import Mathlib.Data.List.Nodup
import Mathlib.Logic.Function.Basic

/-!
# Records read from JSON objects

A reader with a record type in hand goes through the members of an object in the
order of the text: a member no field is named after is skipped, any other is read
as its field's type and assigned, so the last of several members wins, and one
that cannot be read refuses the whole object. `readMembers` is that reader, for
a record type given as a `Schema`: its fields with their names.

> an object is read iff every member under a field's name is; each field then
> holds what its last member reads as (`readMembers_eq_some_iff`).

`full` asks for every field. `writeMembers` is the writer of a full record, and
reads back.
-/

namespace FanucDriver.Lib

/-! ## Arrays -/

/-- An array is read element by element. -/
theorem mapM_eq_some_iff {A B : Type} {f : A → Option B} {l : List A} {l' : List B} :
    l.mapM f = some l' ↔ List.Forall₂ (fun a b => f a = some b) l l' := by
  induction l generalizing l' with
  | nil => simp [eq_comm]
  | cons a l ih =>
    simp only [List.mapM_cons, Option.bind_eq_bind, Option.bind_eq_some_iff, Option.pure_def,
      Option.some.injEq, List.forall₂_cons_left_iff, ih]
    constructor
    · intro h
      obtain ⟨b, hb, bs, hbs, rfl⟩ := h
      exact ⟨b, bs, hb, hbs, rfl⟩
    · intro h
      obtain ⟨b, bs, hb, hbs, rfl⟩ := h
      exact ⟨b, hb, bs, hbs, rfl⟩

theorem isSome_mapM_iff {A B : Type} {f : A → Option B} {l : List A} :
    (l.mapM f).isSome ↔ ∀ a ∈ l, (f a).isSome := by
  induction l with
  | nil => simp
  | cons a l ih =>
    simp only [List.mapM_cons, Option.bind_eq_bind, List.forall_mem_cons, ← ih]
    cases f a with
    | none => simp
    | some b => cases l.mapM f <;> simp

/-! ## Objects -/

/-- The fields of a record type, in declared order, with their names. -/
structure Schema (F : Type) where
  fields : List F
  name : F → List Char
  mem_fields : ∀ f, f ∈ fields
  names_nodup : (fields.map name).Nodup

namespace Schema

variable {F : Type} (sch : Schema F)

theorem name_injective : Function.Injective sch.name := fun f g h =>
  List.inj_on_of_nodup_map sch.names_nodup (sch.mem_fields f) (sch.mem_fields g) h

/-- The field of a name. -/
def find (k : List Char) : Option F := sch.fields.find? fun f => sch.name f = k

@[simp] theorem find_name (f : F) : sch.find (sch.name f) = some f := by
  cases h : sch.find (sch.name f) with
  | none =>
    exact absurd (List.find?_eq_none.mp h f (sch.mem_fields f)) (by simp)
  | some g =>
    have hg := List.find?_some h
    rw [decide_eq_true_eq] at hg
    rw [sch.name_injective hg]

theorem find_eq_some_iff {k : List Char} {f : F} : sch.find k = some f ↔ sch.name f = k := by
  constructor
  · intro h
    have hf := List.find?_some h
    rwa [decide_eq_true_eq] at hf
  · rintro rfl
    exact sch.find_name f

/-- No field is named `k`. -/
theorem find_eq_none_iff {k : List Char} : sch.find k = none ↔ ∀ f, sch.name f ≠ k := by
  constructor
  · rintro h f rfl
    rw [find_name] at h
    exact absurd h (by simp)
  · intro h
    cases hk : sch.find k with
    | none => rfl
    | some f => exact absurd (sch.find_eq_some_iff.mp hk) (h f)

variable [DecidableEq F] {N : Type} {V : F → Type}

/-- Read the members of an object into a record. -/
def readMembers (read : (f : F) → Json N → Option (V f)) :
    List (List Char × Json N) → ((f : F) → Option (V f)) → Option ((f : F) → Option (V f))
  | [], r => some r
  | (k, j) :: ms, r =>
    match sch.find k with
    | none => readMembers read ms r
    | some f => do
      let v ← read f j
      readMembers read ms (Function.update r f (some v))

/-- The members of a record, in declared order. -/
def writeMembers (write : (f : F) → V f → Json N) (r : (f : F) → V f) :
    List (List Char × Json N) :=
  sch.fields.map fun f => (sch.name f, write f (r f))

/-- **What an object is read as.** -/
theorem readMembers_eq_some_iff (read : (f : F) → Json N → Option (V f))
    (ms : List (List Char × Json N)) (r r' : (f : F) → Option (V f)) :
    sch.readMembers read ms r = some r' ↔
      (∀ m ∈ ms, ∀ f, sch.name f = m.1 → (read f m.2).isSome) ∧
      ∀ f, r' f = ((overlay ms (sch.name f)).bind (read f)).or (r f) := by
  induction ms generalizing r with
  | nil =>
    simp only [readMembers, Option.some.injEq, List.not_mem_nil, false_implies, implies_true,
      true_and, overlay_nil, Option.bind_none, Option.none_or]
    exact ⟨fun h f => by rw [h], fun h => (funext h).symm⟩
  | cons m ms ih =>
    obtain ⟨k, j⟩ := m
    have hsplit : ∀ f, overlay ((k, j) :: ms) (sch.name f)
        = (overlay ms (sch.name f)).or (if sch.name f = k then some j else none) := by
      intro f
      rw [← List.singleton_append, overlay_append, overlay_singleton]
    rw [readMembers, List.forall_mem_cons]
    cases hk : sch.find k with
    | none =>
      -- a member that no field is named after is skipped
      have hne := sch.find_eq_none_iff.mp hk
      rw [ih, and_iff_right (fun f h => absurd h (hne f))]
      refine and_congr_right fun _ => forall_congr' fun f => ?_
      rw [hsplit, if_neg (hne f), Option.or_none]
    | some f =>
      obtain rfl := sch.find_eq_some_iff.mp hk
      -- the member is of one field
      have hthis : (∀ g, sch.name g = sch.name f → (read g j).isSome) ↔ (read f j).isSome :=
        ⟨fun h => h f rfl, fun h g hg => by rwa [sch.name_injective hg]⟩
      rw [hthis]
      show ((read f j).bind fun v => sch.readMembers read ms (Function.update r f (some v)))
        = some r' ↔ _
      cases hv : read f j with
      | none => exact ⟨fun h => absurd h (by simp), fun h => absurd h.1.1 (by simp)⟩
      | some v =>
        rw [Option.bind_some, ih, and_iff_right (a := Option.isSome _) rfl]
        refine and_congr_right fun hreads => forall_congr' fun g => ?_
        rw [hsplit]
        by_cases hg : g = f
        · subst hg
          rw [Function.update_self, if_pos rfl]
          cases hj : overlay ms (sch.name g) with
          | none => rw [Option.bind_none, Option.none_or, Option.none_or, Option.bind_some, hv]; rfl
          | some j' =>
            -- a later member wins, and it can be read
            obtain ⟨w, hw⟩ := Option.isSome_iff_exists.mp (hreads _ (overlay_mem hj) g rfl)
            rw [Option.bind_some, Option.some_or, Option.bind_some, hw, Option.some_or,
              Option.some_or]
        · rw [Function.update_of_ne hg, if_neg (fun h => hg (sch.name_injective h)),
            Option.or_none]

omit [DecidableEq F] in
/-- A written record holds each field under its name. -/
theorem overlay_writeMembers (write : (f : F) → V f → Json N) (r : (f : F) → V f) (f : F) :
    overlay (sch.writeMembers write r) (sch.name f) = some (write f (r f)) := by
  cases h : overlay (sch.writeMembers write r) (sch.name f) with
  | none =>
    exact absurd rfl (overlay_eq_none_iff.mp h _ (List.mem_map_of_mem (sch.mem_fields f)))
  | some j =>
    obtain ⟨g, -, hg⟩ := List.mem_map.mp (overlay_mem h)
    obtain ⟨hname, rfl⟩ := Prod.mk.inj hg
    rw [sch.name_injective hname]

/-- A written record reads back. -/
theorem readMembers_writeMembers {read : (f : F) → Json N → Option (V f)}
    {write : (f : F) → V f → Json N} (h : ∀ f v, read f (write f v) = some v)
    (r : (f : F) → V f) (init : (f : F) → Option (V f)) :
    sch.readMembers read (sch.writeMembers write r) init = some fun f => some (r f) := by
  refine (sch.readMembers_eq_some_iff read _ _ _).mpr ⟨fun m hm f hf => ?_, fun f => ?_⟩
  · obtain ⟨g, -, rfl⟩ := List.mem_map.mp hm
    obtain rfl := sch.name_injective hf
    rw [h]
    rfl
  · rw [overlay_writeMembers, Option.bind_some, h, Option.some_or]

/-- A record in which no field is missing. -/
def full (r : (f : F) → Option (V f)) : Option ((f : F) → V f) :=
  if h : ∀ f ∈ sch.fields, (r f).isSome then some fun f => (r f).get (h f (sch.mem_fields f))
  else none

omit [DecidableEq F] in
theorem full_eq_some_iff {r : (f : F) → Option (V f)} {v : (f : F) → V f} :
    sch.full r = some v ↔ ∀ f, r f = some (v f) := by
  unfold full
  split
  next h =>
    rw [Option.some.injEq]
    constructor
    · rintro rfl f
      rw [Option.some_get]
    · intro hv
      funext f
      rw [← Option.some.injEq, Option.some_get, hv f]
  next h =>
    refine ⟨fun hv => absurd hv (by simp), fun hv => absurd (fun f _ => ?_) h⟩
    rw [hv f]
    rfl

/-- **When a full record is read**: every member under a field's name can be, and each field
has one. -/
theorem readFull_isSome_iff (read : (f : F) → Json N → Option (V f))
    (ms : List (List Char × Json N)) :
    ((sch.readMembers read ms fun _ => none).bind sch.full).isSome ↔
      (∀ m ∈ ms, ∀ f, sch.name f = m.1 → (read f m.2).isSome) ∧
      ∀ f, (overlay ms (sch.name f)).isSome := by
  rw [Option.isSome_iff_exists]
  simp only [Option.bind_eq_some_iff, sch.readMembers_eq_some_iff, Option.or_none,
    sch.full_eq_some_iff]
  constructor
  · intro h
    obtain ⟨v, r, ⟨hreads, hr⟩, hv⟩ := h
    refine ⟨hreads, fun f => ?_⟩
    obtain ⟨j, hj, -⟩ := Option.bind_eq_some_iff.mp ((hr f).symm.trans (hv f))
    rw [hj]
    rfl
  · intro h
    obtain ⟨hreads, hall⟩ := h
    have hread : ∀ f, ((overlay ms (sch.name f)).bind (read f)).isSome := by
      intro f
      obtain ⟨j, hj⟩ := Option.isSome_iff_exists.mp (hall f)
      rw [hj, Option.bind_some]
      exact hreads _ (overlay_mem hj) f rfl
    exact ⟨fun f => ((overlay ms (sch.name f)).bind (read f)).get (hread f), _,
      ⟨hreads, fun f => rfl⟩, fun f => (Option.some_get _).symm⟩

end Schema

end FanucDriver.Lib
