import Mathlib.Data.List.Basic

/-!
# Histories that keep to a rule

A rule says which element may come next after a history. `Admitted` is a history that
kept to it all along, and grows by the elements the rule allows (`admitted_concat`).

What holds of every element after the ones before it holds of the first and of every next
one (`forall_prefix_iff`), and is carried over to the image of a list.
-/

namespace FanucDriver.Lib

variable {A : Type} {allowed : List A → A → Prop}

/-- Every element was allowed by the elements before it. -/
def Admitted (allowed : List A → A → Prop) (as : List A) : Prop :=
  ∀ p a, p ++ [a] <+: as → allowed p a

theorem admitted_nil : Admitted allowed [] := by
  intro p a h
  exact absurd (List.prefix_nil.mp h) (List.append_ne_nil_of_right_ne_nil p nofun)

/-- A history grows by an element that is allowed. -/
theorem admitted_concat {as : List A} {a : A} :
    Admitted allowed (as ++ [a]) ↔ Admitted allowed as ∧ allowed as a := by
  constructor
  · intro h
    exact ⟨fun p b hp => h p b (hp.trans (List.prefix_append as [a])), h as a (List.prefix_refl _)⟩
  · intro h p b hp
    obtain ⟨h, ha⟩ := h
    rcases List.prefix_concat_iff.mp hp with heq | hp
    · obtain ⟨rfl, hb⟩ := List.append_inj' heq rfl
      obtain rfl := List.singleton_inj.mp hb
      exact ha
    · exact h p b hp

/-! ## Every element after the ones before it -/

section
variable {B : Type} {P : List A → A → Prop}

/-- The first element, and every element that comes after another one. -/
theorem forall_prefix_iff {as : List A} :
    (∀ p a, p ++ [a] <+: as → P p a) ↔
      (∀ a ∈ as.head?, P [] a) ∧ ∀ p a b, p ++ [a, b] <+: as → P (p ++ [a]) b := by
  constructor
  · intro h
    refine ⟨fun a ha => h [] a ?_, fun p a b hp => h (p ++ [a]) b (by simpa using hp)⟩
    obtain ⟨l, rfl⟩ := List.head?_eq_some_iff.mp ha
    exact List.prefix_append [a] l
  · intro h p a hp
    obtain ⟨hfirst, hnext⟩ := h
    rcases List.eq_nil_or_concat p with rfl | ⟨q, c, rfl⟩
    · obtain ⟨l, rfl⟩ := hp
      exact hfirst a rfl
    · rw [List.concat_eq_append] at hp ⊢
      exact hnext q c a (by simpa using hp)

/-- The prefixes of a list one longer. -/
theorem forall_prefix_cons {a : A} {as : List A} :
    (∀ p x, p ++ [x] <+: a :: as → P p x) ↔ P [] a ∧ ∀ p x, p ++ [x] <+: as → P (a :: p) x := by
  constructor
  · intro h
    exact ⟨h [] a (List.cons_prefix_cons.mpr ⟨rfl, List.nil_prefix⟩),
      fun p x hp => h (a :: p) x (List.cons_prefix_cons.mpr ⟨rfl, hp⟩)⟩
  · intro h p x hp
    obtain ⟨hhead, htail⟩ := h
    cases p with
    | nil =>
      obtain rfl := (List.cons_prefix_cons.mp hp).1
      exact hhead
    | cons b p =>
      obtain ⟨rfl, hp'⟩ := List.cons_prefix_cons.mp hp
      exact htail p x hp'

theorem forall_prefix_map {f : B → A} {bs : List B} :
    (∀ p a, p ++ [a] <+: bs.map f → P p a) ↔ ∀ p b, p ++ [b] <+: bs → P (p.map f) (f b) := by
  constructor
  · intro h p b hp
    have hmap := hp.map f
    rw [List.map_append, List.map_singleton] at hmap
    exact h _ _ hmap
  · intro h q a hq
    obtain ⟨q', hq', hmap⟩ := List.prefix_map_iff.mp hq
    obtain ⟨p, last, rfl, rfl, hlast⟩ := List.map_eq_append_iff.mp hmap.symm
    obtain ⟨b, rfl, rfl⟩ := List.map_eq_singleton_iff.mp hlast
    exact h p b hq'

/-- Successive elements come from successive ones. -/
theorem forall_successive_map {Q : A → A → Prop} {f : B → A} {bs : List B} :
    (∀ p a b, p ++ [a, b] <+: bs.map f → Q a b) ↔
      ∀ p a b, p ++ [a, b] <+: bs → Q (f a) (f b) := by
  constructor
  · intro h p a b hp
    have hmap := hp.map f
    rw [List.map_append] at hmap
    exact h _ _ _ hmap
  · intro h q v w hq
    obtain ⟨q', hq', hmap⟩ := List.prefix_map_iff.mp hq
    obtain ⟨p, pair, rfl, -, hpair⟩ := List.map_eq_append_iff.mp hmap.symm
    obtain ⟨a, last, rfl, rfl, hlast⟩ := List.map_eq_cons_iff.mp hpair
    obtain ⟨b, rfl, rfl⟩ := List.map_eq_singleton_iff.mp hlast
    exact h p a b hq'

end

end FanucDriver.Lib
