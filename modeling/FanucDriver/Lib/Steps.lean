import Mathlib.Data.Option.Basic

/-!
# Runs of a partial step function

A system is a function `step : S → E → Option S`: the state after an event, or
nothing where the event cannot happen. `exec` is the state after a list of events.
`Along step ok s es` says that every event of the run was taken in a state where
`ok` allowed it, so that a property can be claimed of the runs that keep to a
condition.

- `exec_induct_mem`, `exec_invariant_mem`, `exec_invariant`: what one step preserves,
  a run preserves.

`syncStep` puts two systems side by side, where some events are of both at once, and
`syncExec_induct` is the invariant rule for them.
-/

namespace FanucDriver.Lib

variable {S E : Type} {step : S → E → Option S} {ok : S → E → Prop}

/-- The state after a list of events. -/
def exec (step : S → E → Option S) : S → List E → Option S
  | s, [] => some s
  | s, e :: es => (step s e).bind fun t => exec step t es

theorem exec_cons_eq_some_iff {s u : S} {e : E} {es : List E} :
    exec step s (e :: es) = some u ↔ ∃ t, step s e = some t ∧ exec step t es = some u :=
  Option.bind_eq_some_iff

/-- Every event was allowed where it was taken. -/
def Along (step : S → E → Option S) (ok : S → E → Prop) : S → List E → Prop
  | _, [] => True
  | s, e :: es => ok s e ∧ ∀ t, step s e = some t → Along step ok t es

/-- A decidable condition is decidable along a run. -/
instance Along.decidable [∀ s e, Decidable (ok s e)] :
    (s : S) → (es : List E) → Decidable (Along step ok s es)
  | _, [] => isTrue trivial
  | s, e :: es =>
    match h : step s e with
    | none => decidable_of_iff (ok s e)
      ⟨fun hok => ⟨hok, fun _ ht => absurd (h.symm.trans ht).symm (Option.some_ne_none _)⟩,
        And.left⟩
    | some t =>
      have := Along.decidable t es
      decidable_of_iff (ok s e ∧ Along step ok t es)
        ⟨fun hok => ⟨hok.1, fun _ ht => Option.some.inj (h.symm.trans ht) ▸ hok.2⟩,
          fun hok => ⟨hok.1, hok.2 t h⟩⟩

theorem Along.of_all (h : ∀ s e, ok s e) (s : S) (es : List E) : Along step ok s es := by
  induction es generalizing s with
  | nil => trivial
  | cons e es ih => exact ⟨h s e, fun t _ => ih t⟩

/-- What is left of a run keeps to the condition. -/
theorem Along.drop {s t : S} {es fs : List E} (h : Along step ok s (es ++ fs))
    (hes : exec step s es = some t) : Along step ok t fs := by
  induction es generalizing s with
  | nil => exact Option.some.inj hes ▸ h
  | cons e es ih =>
    obtain ⟨u, hu, hrest⟩ := exec_cons_eq_some_iff.mp hes
    exact ih (h.2 u hu) hrest

/-- **The invariant rule** for the runs that keep to a condition, with the events
restricted too. -/
theorem exec_induct_mem {P : S → Prop} {Q : E → Prop}
    (hstep : ∀ s e t, P s → Q e → ok s e → step s e = some t → P t) {s u : S} {es : List E}
    (h : exec step s es = some u) (hes : ∀ e ∈ es, Q e) (hok : Along step ok s es) (hs : P s) :
    P u := by
  induction es generalizing s with
  | nil => exact Option.some.inj h ▸ hs
  | cons e es ih =>
    obtain ⟨t, ht, hrest⟩ := exec_cons_eq_some_iff.mp h
    exact ih hrest (fun f hf => hes f (List.mem_cons_of_mem e hf)) (hok.2 t ht)
      (hstep s e t hs (hes e List.mem_cons_self) hok.1 ht)

/-- A condition on the events alone is one along the run. -/
theorem Along.and_mem {Q : E → Prop} {s : S} {es : List E} (h : Along step ok s es)
    (hes : ∀ e ∈ es, Q e) : Along step (fun s e => ok s e ∧ Q e) s es := by
  induction es generalizing s with
  | nil => trivial
  | cons e es ih =>
    obtain ⟨hok, hrest⟩ := h
    obtain ⟨he, hes⟩ := List.forall_mem_cons.mp hes
    exact ⟨⟨hok, he⟩, fun t ht => ih (hrest t ht) hes⟩

/-- Two conditions that agree in the states an invariant allows, agree along a run. -/
theorem along_congr {P : S → Prop} {ok' : S → E → Prop} (hiff : ∀ s e, P s → (ok s e ↔ ok' s e))
    (hstep : ∀ s e t, P s → ok s e → step s e = some t → P t) {s : S} (hs : P s) (es : List E) :
    Along step ok s es ↔ Along step ok' s es := by
  induction es generalizing s with
  | nil => exact Iff.rfl
  | cons e es ih =>
    constructor
    · intro h
      obtain ⟨he, hes⟩ := h
      exact ⟨(hiff s e hs).mp he, fun t ht => (ih (hstep s e t hs he ht)).mp (hes t ht)⟩
    · intro h
      obtain ⟨he', hes⟩ := h
      have he := (hiff s e hs).mpr he'
      exact ⟨he, fun t ht => (ih (hstep s e t hs he ht)).mpr (hes t ht)⟩

/-- The invariant rule for the runs of some events. -/
theorem exec_invariant_mem {P : S → Prop} {Q : E → Prop}
    (hstep : ∀ s e t, P s → Q e → step s e = some t → P t) {s u : S} {es : List E}
    (h : exec step s es = some u) (hes : ∀ e ∈ es, Q e) (hs : P s) : P u := by
  induction es generalizing s with
  | nil => exact Option.some.inj h ▸ hs
  | cons e es ih =>
    obtain ⟨t, ht, hrest⟩ := exec_cons_eq_some_iff.mp h
    exact ih hrest (fun f hf => hes f (List.mem_cons_of_mem e hf))
      (hstep s e t hs (hes e List.mem_cons_self) ht)

/-- The invariant rule for all runs. -/
theorem exec_invariant {P : S → Prop} (hstep : ∀ s e t, P s → step s e = some t → P t)
    {s u : S} {es : List E} (h : exec step s es = some u) (hs : P s) : P u :=
  exec_invariant_mem (Q := fun _ => True) (fun s e t hs _ => hstep s e t hs) h
    (fun _ _ => trivial) hs

/-! ## Two systems -/

section
variable {T F : Type} {step' : T → F → Option T}

/-- An event of one of two systems, or of both at once. -/
inductive Sync (E F : Type) where
  | left (e : E)
  | right (f : F)
  | both (e : E) (f : F)
  deriving DecidableEq

namespace Sync

def left? : Sync E F → Option E
  | left e => some e
  | right _ => none
  | both e _ => some e

def right? : Sync E F → Option F
  | left _ => none
  | right f => some f
  | both _ f => some f

end Sync

/-- Two systems side by side, with the events that `meets` allows. -/
def syncStep (step : S → E → Option S) (step' : T → F → Option T)
    (meets : S × T → Sync E F → Prop) [∀ s e, Decidable (meets s e)] (s : S × T) (e : Sync E F) :
    Option (S × T) :=
  if meets s e then
    match e with
    | .left e => (step s.1 e).map fun a => (a, s.2)
    | .right f => (step' s.2 f).map fun b => (s.1, b)
    | .both e f => (step s.1 e).bind fun a => (step' s.2 f).map fun b => (a, b)
  else none

variable {meets : S × T → Sync E F → Prop} [∀ s e, Decidable (meets s e)]

/-- What each of them does in a step of both. -/
theorem syncStep_cases {s t : S × T} {e : Sync E F}
    (h : syncStep step step' meets s e = some t) : meets s e ∧
      (e.left?.elim (t.1 = s.1) fun e => step s.1 e = some t.1) ∧
      e.right?.elim (t.2 = s.2) fun f => step' s.2 f = some t.2 := by
  unfold syncStep at h
  split at h
  next hmeets =>
    refine ⟨hmeets, ?_⟩
    cases e with
    | left e =>
      obtain ⟨a, ha, rfl⟩ := Option.map_eq_some_iff.mp h
      exact ⟨ha, rfl⟩
    | right f =>
      obtain ⟨b, hb, rfl⟩ := Option.map_eq_some_iff.mp h
      exact ⟨rfl, hb⟩
    | both e f =>
      obtain ⟨a, ha, hrest⟩ := Option.bind_eq_some_iff.mp h
      obtain ⟨b, hb, rfl⟩ := Option.map_eq_some_iff.mp hrest
      exact ⟨ha, hb⟩
  next => exact absurd h.symm (Option.some_ne_none t)

/-- **The invariant rule for two systems**: an invariant of both may use the conditions that
the runs of each keep to. -/
theorem syncExec_induct {ok : S → E → Prop} {ok' : T → F → Prop} {P : S × T → Prop}
    (hstep : ∀ s e t, P s → (∀ a ∈ e.left?, ok s.1 a) → (∀ b ∈ e.right?, ok' s.2 b) →
      syncStep step step' meets s e = some t → P t)
    {s u : S × T} {es : List (Sync E F)} (h : exec (syncStep step step' meets) s es = some u)
    (hleft : Along step ok s.1 (es.filterMap Sync.left?))
    (hright : Along step' ok' s.2 (es.filterMap Sync.right?)) (hs : P s) : P u := by
  induction es generalizing s with
  | nil => exact Option.some.inj h ▸ hs
  | cons e es ih =>
    obtain ⟨t, ht, hrest⟩ := exec_cons_eq_some_iff.mp h
    obtain ⟨-, hl, hr⟩ := syncStep_cases ht
    have hleft' : (∀ a ∈ e.left?, ok s.1 a) ∧ Along step ok t.1 (es.filterMap Sync.left?) := by
      cases hel : e.left? with
      | none =>
        rw [hel] at hl
        rw [List.filterMap_cons_none hel, ← (show t.1 = s.1 from hl)] at hleft
        exact ⟨nofun, hleft⟩
      | some a =>
        rw [hel] at hl
        rw [List.filterMap_cons_some hel] at hleft
        exact ⟨fun b hb => Option.some.inj hb ▸ hleft.1, hleft.2 t.1 hl⟩
    have hright' : (∀ b ∈ e.right?, ok' s.2 b) ∧
        Along step' ok' t.2 (es.filterMap Sync.right?) := by
      cases her : e.right? with
      | none =>
        rw [her] at hr
        rw [List.filterMap_cons_none her, ← (show t.2 = s.2 from hr)] at hright
        exact ⟨nofun, hright⟩
      | some b =>
        rw [her] at hr
        rw [List.filterMap_cons_some her] at hright
        exact ⟨fun c hc => Option.some.inj hc ▸ hright.1, hright.2 t.2 hr⟩
    exact ih hrest hleft'.2 hright'.2 (hstep s e t hs hleft'.1 hright'.1 ht)

end

end FanucDriver.Lib
