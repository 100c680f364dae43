import Mathlib.Data.List.SplitBy
import Mathlib.Data.List.Induction
import Mathlib.Logic.Function.Basic

/-!
# Keyed transducers

A `Transducer` reads inputs one at a time and answers each with at most one
output, keeping a state. `run` is its output on a list of inputs, `comp` feeds the
outputs of one to another, and `keyed` runs one copy per key on interleaved
inputs, each with its own cell of the state.

- `run_comp`: a composition runs the second on what the first puts out.
- `project_run_keyed`: seen from one key, a keyed transducer is its copy for that
  key on that key's inputs, whatever the other keys do.

Two transducers are common enough to have names: `dedup` drops an input whose
extracted value is the last one it let through, `lag` pairs each input with the
one before it. `run_dedup` says that what `dedup` lets through are the first
elements of the maximal runs of equal values, `run_dedup_eq_dropRepeats` the same where
an input may have no value, and `run_lag` that `lag` goes through consecutive pairs.
`Thinned` inputs, which leave repeats out beforehand, are the same to `dedup`.
-/

namespace FanucDriver.Lib

variable {A B C E K S S' : Type}

/-- From a state and an input, the next state and at most one output. -/
abbrev Transducer (S A B : Type) := S → A → S × Option B

namespace Transducer

/-- The outputs on a list of inputs. -/
def run (t : Transducer S A B) : S → List A → List B
  | _, [] => []
  | s, a :: as => (t s a).2.toList ++ run t (t s a).1 as

theorem run_cons (t : Transducer S A B) (s : S) (a : A) (as : List A) :
    t.run s (a :: as) = (t s a).2.toList ++ t.run (t s a).1 as := rfl

/-- The state after a list. -/
def final (t : Transducer S A B) (s : S) (as : List A) : S :=
  as.foldl (fun s a => (t s a).1) s

theorem final_cons (t : Transducer S A B) (s : S) (a : A) (as : List A) :
    t.final s (a :: as) = t.final (t s a).1 as := rfl

/-- One more input is answered from the state before it. -/
theorem run_concat (t : Transducer S A B) (s : S) (as : List A) (a : A) :
    t.run s (as ++ [a]) = t.run s as ++ (t (t.final s as) a).2.toList := by
  induction as generalizing s with
  | nil => exact List.append_nil _
  | cons b as ih => rw [List.cons_append, run_cons, run_cons, ih, List.append_assoc, final_cons]

/-- Feed the outputs of `t` to `u`. -/
def comp (t : Transducer S A B) (u : Transducer S' B C) : Transducer (S × S') A C := fun s a =>
  match t s.1 a with
  | (s₁, none) => ((s₁, s.2), none)
  | (s₁, some b) => ((s₁, (u s.2 b).1), (u s.2 b).2)

theorem run_comp (t : Transducer S A B) (u : Transducer S' B C) (s : S × S') (as : List A) :
    (t.comp u).run s as = u.run s.2 (t.run s.1 as) := by
  induction as generalizing s with
  | nil => rfl
  | cons a as ih =>
    rw [run_cons, run_cons, ih, comp]
    match h : t s.1 a with
    | (s₁, none) => simp
    | (s₁, some b) => simp [run_cons]

/-- Read the inputs through a partial function. -/
def after (f : A → Option B) (t : Transducer S B C) : Transducer S A C := fun s a =>
  match f a with
  | none => (s, none)
  | some b => t s b

theorem run_after (f : A → Option B) (t : Transducer S B C) (s : S) (as : List A) :
    (t.after f).run s as = t.run s (as.filterMap f) := by
  induction as generalizing s with
  | nil => rfl
  | cons a as ih =>
    rw [run_cons, ih, after, List.filterMap_cons]
    cases f a <;> rfl

theorem final_after (f : A → Option B) (t : Transducer S B C) (s : S) (as : List A) :
    (t.after f).final s as = t.final s (as.filterMap f) := by
  induction as generalizing s with
  | nil => rfl
  | cons a as ih =>
    rw [final_cons, ih, after, List.filterMap_cons]
    cases f a <;> rfl

/-! ## Keys -/

section
variable [DecidableEq K]

/-- The values of one key, in order. -/
def project (k : K) (xs : List (K × A)) : List A :=
  xs.filterMap fun x => if x.1 = k then some x.2 else none

theorem project_cons_self (k : K) (a : A) (xs : List (K × A)) :
    project k ((k, a) :: xs) = a :: project k xs := by
  simp [project]

theorem project_cons_ne {k k' : K} (h : k' ≠ k) (a : A) (xs : List (K × A)) :
    project k ((k', a) :: xs) = project k xs := by
  simp [project, h]

theorem mem_project {k : K} {a : A} {xs : List (K × A)} : a ∈ project k xs ↔ (k, a) ∈ xs := by
  simp only [project, List.mem_filterMap]
  constructor
  · intro h
    obtain ⟨⟨k', a'⟩, hx, heq⟩ := h
    split at heq
    next hk =>
      obtain rfl : k' = k := hk
      rwa [← Option.some.inj heq]
    next => exact absurd heq.symm (Option.some_ne_none a)
  · intro h
    exact ⟨(k, a), h, if_pos rfl⟩

theorem project_append (k : K) (xs ys : List (K × A)) :
    project k (xs ++ ys) = project k xs ++ project k ys := List.filterMap_append

/-- A partial function on the values commutes with projecting. -/
theorem project_filterMap (f : A → Option B) (k : K) (xs : List (K × A)) :
    project k (xs.filterMap fun x => (f x.2).map fun b => (x.1, b))
      = (project k xs).filterMap f := by
  simp only [project, List.filterMap_filterMap]
  refine List.filterMap_congr fun x _ => ?_
  by_cases h : x.1 = k <;> cases hf : f x.2 <;> simp [h, hf]

/-- One copy of a transducer for each key. -/
def keyed (t : K → Transducer S A B) : Transducer (K → S) (K × A) (K × B) := fun m x =>
  (Function.update m x.1 (t x.1 (m x.1) x.2).1, (t x.1 (m x.1) x.2).2.map fun b => (x.1, b))

theorem keyed_self (t : K → Transducer S A B) (m : K → S) (k : K) (a : A) :
    (keyed t m (k, a)).1 k = (t k (m k) a).1 := Function.update_self k _ m

theorem keyed_ne {k k' : K} (h : k' ≠ k) (t : K → Transducer S A B) (m : K → S) (a : A) :
    (keyed t m (k', a)).1 k = m k := Function.update_of_ne (Ne.symm h) _ m

/-- **Keys do not see each other.** -/
theorem project_run_keyed (t : K → Transducer S A B) (m : K → S) (xs : List (K × A)) (k : K) :
    project k ((keyed t).run m xs) = (t k).run (m k) (project k xs) := by
  induction xs generalizing m with
  | nil => rfl
  | cons x xs ih =>
    obtain ⟨k', a⟩ := x
    rw [run_cons, project, List.filterMap_append, ← project, ← project, ih]
    have hout : (keyed t m (k', a)).2 = (t k' (m k') a).2.map fun b => (k', b) := rfl
    rw [hout]
    by_cases h : k' = k
    · subst h
      rw [project_cons_self, run_cons, keyed_self]
      cases (t k' (m k') a).2 <;> simp [project]
    -- an input of another key leaves this key's cell alone
    · rw [project_cons_ne h, keyed_ne h]
      cases (t k' (m k') a).2 <;> simp [project, h]

theorem final_keyed (t : K → Transducer S A B) (m : K → S) (xs : List (K × A)) (k : K) :
    (keyed t).final m xs k = (t k).final (m k) (project k xs) := by
  induction xs generalizing m with
  | nil => rfl
  | cons x xs ih =>
    obtain ⟨k', a⟩ := x
    rw [final_cons, ih]
    by_cases h : k' = k
    · subst h
      rw [project_cons_self, final_cons, keyed_self]
    · rw [project_cons_ne h, keyed_ne h]

end

/-! ## Pairing with the input before -/

/-- Pair each input with the one before it. -/
def lag (f : A → A → B) : Transducer (Option A) A B := fun last a =>
  (some a, last.map fun l => f l a)

theorem run_lag_some (f : A → A → B) (l : A) (as : List A) :
    (lag f).run (some l) as = List.zipWith f (l :: as) as := by
  induction as generalizing l with
  | nil => rfl
  | cons a as ih => rw [run_cons, lag, ih]; rfl

theorem run_lag (f : A → A → B) (as : List A) :
    (lag f).run none as = List.zipWith f as as.tail := by
  cases as with
  | nil => rfl
  | cons a as => rw [run_cons, lag, run_lag_some]; rfl

/-! ## Dropping repeats -/

section
variable [DecidableEq E]

/-- Drop an input whose extracted value is the last one let through; an input
without a value passes. -/
def dedup (f : A → Option E) : Transducer (Option E) A A := fun last a =>
  match f a with
  | none => (last, some a)
  | some v => if last = some v then (last, none) else (some v, some a)

/-- The state is the last value. -/
theorem final_dedup (f : A → Option E) (s : Option E) (as : List A) :
    (dedup f).final s as = (as.filterMap f).getLast?.or s := by
  induction as using List.reverseRecOn with
  | nil => rfl
  | append_singleton as a ih =>
    have hsnoc : (dedup f).final s (as ++ [a]) = (dedup f ((dedup f).final s as) a).1 := by
      simp [final]
    rw [hsnoc, ih, List.filterMap_append, dedup]
    cases hf : f a with
    | none => simp [hf]
    | some v =>
      rw [List.filterMap_cons_some hf, List.filterMap_nil, List.getLast?_concat]
      by_cases hlast : (as.filterMap f).getLast?.or s = some v
      · simp only [if_pos hlast, Option.some_or]
        exact hlast
      · simp only [if_neg hlast, Option.some_or]

/-- The element has a value, and it is the last one before it. -/
def Repeats (f : A → Option E) (before : List A) (a : A) : Prop :=
  ∃ v, f a = some v ∧ (before.filterMap f).getLast? = some v

instance (f : A → Option E) (before : List A) (a : A) : Decidable (Repeats f before a) :=
  decidable_of_iff ((f a).isSome ∧ (before.filterMap f).getLast? = f a) <| by
    unfold Repeats
    cases f a <;> simp

/-- The elements that do not repeat the last value before them. -/
def dropRepeats (f : A → Option E) (as : List A) : List A :=
  (as.zipIdx.filter fun x => ¬Repeats f (as.take x.2) x.1).map Prod.fst

theorem dropRepeats_concat (f : A → Option E) (as : List A) (a : A) :
    dropRepeats f (as ++ [a]) = dropRepeats f as ++ if Repeats f as a then [] else [a] := by
  have hbefore : (as.zipIdx.filter fun x => ¬Repeats f ((as ++ [a]).take x.2) x.1)
      = as.zipIdx.filter fun x => ¬Repeats f (as.take x.2) x.1 := by
    refine List.filter_congr fun x hx => ?_
    have hlt : x.2 < as.length := List.snd_lt_of_mem_zipIdx hx
    rw [List.take_append_of_le_length (Nat.le_of_lt hlt)]
  have hlast : (as ++ [a]).take as.length = as := List.take_left
  rw [dropRepeats, List.zipIdx_append, List.filter_append, hbefore, List.map_append, ← dropRepeats]
  simp only [List.zipIdx_cons, List.zipIdx_nil, Nat.zero_add, List.filter_cons, hlast]
  by_cases hrep : Repeats f as a
  · simp [hrep]
  · simp [hrep]

/-- **What `dedup` lets through**, for any values: all but the repeats. -/
theorem run_dedup_eq_dropRepeats (f : A → Option E) (as : List A) :
    (dedup f).run none as = dropRepeats f as := by
  induction as using List.reverseRecOn with
  | nil => rfl
  | append_singleton as a ih =>
    rw [run_concat, ih, dropRepeats_concat, final_dedup, Option.or_none, dedup]
    congr 1
    by_cases hrep : Repeats f as a
    · obtain ⟨v, hv, hlast⟩ := hrep
      rw [if_pos ⟨v, hv, hlast⟩, hv]
      simp only [if_pos hlast, Option.toList_none]
    · rw [if_neg hrep]
      cases hf : f a with
      | none => rfl
      | some v =>
        have hnew : ¬(as.filterMap f).getLast? = some v := fun hlast => hrep ⟨v, hf, hlast⟩
        simp only [if_neg hnew, Option.toList_some]

/-- Renaming the inputs renames what is let through. -/
theorem run_dedup_map (f : B → Option E) (g : A → B) (s : Option E) (as : List A) :
    (dedup f).run s (as.map g) = ((dedup fun a => f (g a)).run s as).map g := by
  induction as generalizing s with
  | nil => rfl
  | cons a as ih =>
    rw [List.map_cons, run_cons, run_cons, ih, List.map_append, dedup, dedup]
    cases f (g a) with
    | none => rfl
    | some v => by_cases h : s = some v <;> simp [h]

theorem run_dedup_sublist (f : A → Option E) (s : Option E) (as : List A) :
    ((dedup f).run s as).Sublist as := by
  induction as generalizing s with
  | nil => exact List.Sublist.slnil
  | cons a as ih =>
    rw [run_cons]
    cases h : (dedup f s a).2 with
    | none => exact (ih _).cons a
    | some b =>
      have hb : b = a := by
        unfold dedup at h
        cases hf : f a <;> simp only [hf] at h
        · exact (Option.some.inj h).symm
        · split at h
          · exact absurd h.symm (Option.some_ne_none b)
          · exact (Option.some.inj h).symm
      rw [hb]
      exact (ih _).cons_cons a

/-- `rs` cuts `as` into its maximal runs of equal values. -/
structure MaximalRuns (e : A → E) (as : List A) (rs : List (List A)) : Prop where
  flatten : rs.flatten = as
  nonempty : [] ∉ rs
  same : ∀ r ∈ rs, ∀ a ∈ r, ∀ b ∈ r, e a = e b
  differ : rs.IsChain fun r r' => ∀ a ∈ r, ∀ b ∈ r', e a ≠ e b

/-- The values along a chain of equal ones are the value of its first element. -/
theorem eq_of_isChain {e : A → E} {a : A} {g : List A}
    (h : (a :: g).IsChain fun x y => (decide (e x = e y)) = true) : ∀ b ∈ a :: g, e b = e a := by
  induction g generalizing a with
  | nil => exact fun b hb => by rw [List.mem_singleton.mp hb]
  | cons c g ih =>
    obtain ⟨hac, hrest⟩ := List.isChain_cons_cons.mp h
    intro b hb
    rcases List.mem_cons.mp hb with rfl | hb
    · rfl
    · exact (ih hrest b hb).trans (of_decide_eq_true hac).symm

/-- Every list has maximal runs. -/
theorem exists_maximalRuns (e : A → E) (as : List A) : ∃ rs, MaximalRuns e as rs := by
  have hsame : ∀ r ∈ as.splitBy fun a b => decide (e a = e b), ∀ a ∈ r, ∀ b ∈ r, e a = e b := by
    intro r hr a ha b hb
    cases r with
    | nil => exact absurd ha List.not_mem_nil
    | cons c r =>
      have hall := eq_of_isChain (List.isChain_of_mem_splitBy hr)
      exact (hall a ha).trans (hall b hb).symm
  refine ⟨_, List.flatten_splitBy (fun a b => decide (e a = e b)) as,
    List.nil_notMem_splitBy _ as, hsame, ?_⟩
  refine (List.isChain_getLast_head_splitBy (fun a b => decide (e a = e b)) as).imp_of_mem_imp ?_
  intro r r' hr hr' h a ha b hb hab
  obtain ⟨hlast, hhead, hne⟩ := h
  refine of_decide_eq_false hne ?_
  calc e (r.getLast hlast) = e a := hsame r hr _ (List.getLast_mem hlast) a ha
    _ = e b := hab
    _ = e (r'.head hhead) := hsame r' hr' b hb _ (List.head_mem hhead)

omit [DecidableEq E] in
theorem MaximalRuns.eq_nil {e : A → E} {rs : List (List A)} (h : MaximalRuns e [] rs) :
    rs = [] := by
  cases rs with
  | nil => rfl
  | cons r rs =>
    obtain rfl := (List.append_eq_nil_iff.mp h.flatten).1
    exact absurd List.mem_cons_self h.nonempty

omit [DecidableEq E] in
/-- The runs from the second element on. -/
theorem MaximalRuns.of_cons {e : A → E} {a : A} {as : List A} {rs : List (List A)}
    (h : MaximalRuns e (a :: as) rs) :
    (∃ rs', rs = [a] :: rs' ∧ MaximalRuns e as rs' ∧ ∀ b ∈ as.head?, e a ≠ e b) ∨
    ∃ b r rs', rs = (a :: b :: r) :: rs' ∧ e a = e b ∧ MaximalRuns e as ((b :: r) :: rs') := by
  obtain ⟨hflatten, hne, hsame, hdiffer⟩ := h
  cases rs with
  | nil => exact absurd hflatten.symm (List.cons_ne_nil a as)
  | cons r rs =>
    obtain ⟨a', r, rfl⟩ := List.exists_cons_of_ne_nil
      (show r ≠ [] from fun h => hne (h ▸ List.mem_cons_self))
    obtain ⟨rfl, rfl⟩ := List.cons.inj hflatten
    have hrest : ∀ r ∈ rs, ∀ b ∈ r, ∀ c ∈ r, e b = e c := fun r hr =>
      hsame r (List.mem_cons_of_mem _ hr)
    cases r with
    | nil =>
      refine .inl ⟨rs, rfl, ⟨rfl, fun h => hne (List.mem_cons_of_mem _ h), hrest, hdiffer.tail⟩, ?_⟩
      intro b hb
      cases rs with
      | nil => exact absurd hb (by simp)
      | cons r rs =>
        obtain ⟨c, r, rfl⟩ := List.exists_cons_of_ne_nil
          (show r ≠ [] from fun h => hne (h ▸ List.mem_cons_of_mem _ List.mem_cons_self))
        obtain rfl := Option.some.inj hb
        exact (List.isChain_cons_cons.mp hdiffer).1 a' List.mem_cons_self c List.mem_cons_self
    | cons b r =>
      have hab := hsame _ List.mem_cons_self a' List.mem_cons_self b
        (List.mem_cons_of_mem a' List.mem_cons_self)
      refine .inr ⟨b, r, rs, rfl, hab, ⟨rfl, ?_, ?_, ?_⟩⟩
      · intro hmem
        rcases List.mem_cons.mp hmem with h | h
        · exact List.cons_ne_nil b r h.symm
        · exact hne (List.mem_cons_of_mem _ h)
      · refine List.forall_mem_cons.mpr ⟨fun c hc d hd => ?_, hrest⟩
        exact hsame _ List.mem_cons_self c (List.mem_cons_of_mem a' hc) d
          (List.mem_cons_of_mem a' hd)
      · cases rs with
        | nil => exact List.isChain_singleton _
        | cons r' rs =>
          obtain ⟨hhead, hrest⟩ := List.isChain_cons_cons.mp hdiffer
          exact List.isChain_cons_cons.mpr
            ⟨fun c hc => hhead c (List.mem_cons_of_mem a' hc), hrest⟩

/-- The first elements of runs. -/
def firsts (rs : List (List A)) : List A := rs.filterMap List.head?

theorem getElem?_firsts {rs : List (List A)} (hne : [] ∉ rs) (i : ℕ) :
    (firsts rs)[i]? = rs[i]?.bind List.head? := by
  induction rs generalizing i with
  | nil => rfl
  | cons r rs ih =>
    cases r with
    | nil => exact absurd List.mem_cons_self hne
    | cons a r =>
      cases i with
      | zero => rfl
      | succ i => exact ih (fun h => hne (List.mem_cons_of_mem _ h)) i

theorem length_firsts {rs : List (List A)} (hne : [] ∉ rs) : (firsts rs).length = rs.length := by
  induction rs with
  | nil => rfl
  | cons r rs ih =>
    cases r with
    | nil => exact absurd List.mem_cons_self hne
    | cons a r =>
      exact congrArg (· + 1) (ih fun h => hne (List.mem_cons_of_mem _ h))

/-- What holds between the elements of neighbouring runs holds between their first. -/
theorem isChain_firsts {R : A → A → Prop} {rs : List (List A)} (hne : [] ∉ rs)
    (h : rs.IsChain fun r r' => ∀ a ∈ r, ∀ b ∈ r', R a b) : (firsts rs).IsChain R := by
  refine List.isChain_iff_getElem.mpr fun i hi => ?_
  have hlen := length_firsts hne
  -- the first element of a run is in it
  have helem (j : ℕ) (hj : j < (firsts rs).length) : (firsts rs)[j] ∈ rs[j] := by
    have hget := getElem?_firsts hne j
    rw [List.getElem?_eq_getElem hj, List.getElem?_eq_getElem (hlen ▸ hj)] at hget
    exact List.mem_of_mem_head? hget.symm
  exact List.isChain_iff_getElem.mp h i (hlen ▸ hi) _ (helem i _) _ (helem (i + 1) hi)

/-- The last elements of runs. -/
def lasts (rs : List (List A)) : List A := rs.filterMap List.getLast?

theorem lasts_cons (a : A) (r : List A) (rs : List (List A)) :
    lasts ((a :: r) :: rs) = r.getLast?.getD a :: lasts rs := by
  unfold lasts
  rw [List.filterMap_cons, List.getLast?_cons]

theorem getLast?_getD_mem (a : A) (r : List A) : r.getLast?.getD a ∈ a :: r := by
  cases h : r.getLast? with
  | none => exact List.mem_cons_self
  | some b => exact List.mem_cons_of_mem a (List.mem_of_getLast? h)

theorem lasts_sublist (rs : List (List A)) : (lasts rs).Sublist rs.flatten := by
  induction rs with
  | nil => exact List.Sublist.refl _
  | cons r rs ih =>
    rcases List.eq_nil_or_concat r with rfl | ⟨r, a, rfl⟩
    · exact ih
    · have hlasts : lasts (r.concat a :: rs) = [a] ++ lasts rs := by simp [lasts]
      rw [hlasts, List.flatten_cons, List.concat_eq_append]
      exact (List.sublist_append_right r [a]).append ih

theorem lasts_map {B : Type} (f : A → B) (rs : List (List A)) :
    lasts (rs.map (List.map f)) = (lasts rs).map f := by
  unfold lasts
  rw [List.filterMap_map, List.map_filterMap]
  exact List.filterMap_congr fun r _ => List.getLast?_map

omit [DecidableEq E] in
theorem MaximalRuns.map {B : Type} {e : B → E} {f : A → B} {as : List A} {rs : List (List A)}
    (h : MaximalRuns (fun a => e (f a)) as rs) :
    MaximalRuns e (as.map f) (rs.map (List.map f)) where
  flatten := by rw [← h.flatten, List.map_flatten]
  nonempty hmem := by
    obtain ⟨r, hr, hnil⟩ := List.mem_map.mp hmem
    exact h.nonempty (List.map_eq_nil_iff.mp hnil ▸ hr)
  same r' hr' b hb c hc := by
    obtain ⟨r, hr, rfl⟩ := List.mem_map.mp hr'
    obtain ⟨a, ha, rfl⟩ := List.mem_map.mp hb
    obtain ⟨a', ha', rfl⟩ := List.mem_map.mp hc
    exact h.same r hr a ha a' ha'
  differ := by
    refine (List.isChain_map _).mpr (h.differ.imp fun r r' hrr' b hb c hc => ?_)
    obtain ⟨a, ha, rfl⟩ := List.mem_map.mp hb
    obtain ⟨a', ha', rfl⟩ := List.mem_map.mp hc
    exact hrr' a ha a' ha'

omit [DecidableEq E] in
theorem lasts_ne_nil {e : A → E} {as : List A} {rs : List (List A)} (h : MaximalRuns e as rs)
    (hne : as ≠ []) : lasts rs ≠ [] := by
  cases rs with
  | nil => exact absurd h.flatten.symm hne
  | cons r rs =>
    have hr : r ≠ [] := fun hr => h.nonempty (hr ▸ List.mem_cons_self)
    unfold lasts
    rw [List.filterMap_cons, List.getLast?_eq_some_getLast hr]
    exact List.cons_ne_nil _ _

theorem run_dedup_same {e : A → E} {v : E} {r : List A} (hr : ∀ b ∈ r, e b = v) (as : List A) :
    (dedup fun a => some (e a)).run (some v) (r ++ as)
      = (dedup fun a => some (e a)).run (some v) as := by
  induction r with
  | nil => rfl
  | cons b r ih =>
    have hb := hr b List.mem_cons_self
    rw [List.cons_append, run_cons, dedup]
    simp only [hb, if_true, Option.toList_none, List.nil_append]
    exact ih fun c hc => hr c (List.mem_cons_of_mem b hc)

/-- Runs pass as their first elements, from a state other than the value of the
first of them. -/
theorem run_dedup_flatten {e : A → E} {rs : List (List A)} (hne : [] ∉ rs)
    (hsame : ∀ r ∈ rs, ∀ a ∈ r, ∀ b ∈ r, e a = e b)
    (hdiff : rs.IsChain fun r r' => ∀ a ∈ r, ∀ b ∈ r', e a ≠ e b)
    {s : Option E} (hs : ∀ r ∈ rs.head?, ∀ a ∈ r, s ≠ some (e a)) :
    (dedup fun a => some (e a)).run s rs.flatten = firsts rs := by
  induction rs generalizing s with
  | nil => rfl
  | cons r rs ih =>
    obtain ⟨a, r, rfl⟩ := List.exists_cons_of_ne_nil
      (show r ≠ [] from fun h => hne (h ▸ List.mem_cons_self))
    have hfirst : s ≠ some (e a) := hs _ rfl a List.mem_cons_self
    have hrest : ∀ b ∈ r, e b = e a := fun b hb =>
      hsame _ List.mem_cons_self b (List.mem_cons_of_mem a hb) a List.mem_cons_self
    rw [List.flatten_cons, List.cons_append, run_cons, dedup]
    simp only [if_neg hfirst, Option.toList_some, List.cons_append, List.nil_append]
    rw [run_dedup_same hrest, ih (fun h => hne (List.mem_cons_of_mem _ h))
      (fun r' hr' => hsame r' (List.mem_cons_of_mem _ hr')) hdiff.tail]
    · rfl
    · -- the state is now the value of this run, and the next run has another
      intro r' hr' b hb h
      cases rs with
      | nil => exact absurd hr' (by simp)
      | cons r₂ rs =>
        obtain rfl : r₂ = r' := Option.some.inj hr'
        exact (List.isChain_cons_cons.mp hdiff).1 a List.mem_cons_self b hb (Option.some.inj h)

/-- **What `dedup` lets through**: the first element of each maximal run. -/
theorem run_dedup {e : A → E} {as : List A} {rs : List (List A)} (h : MaximalRuns e as rs) :
    (dedup fun a => some (e a)).run none as = firsts rs := by
  rw [← h.flatten]
  exact run_dedup_flatten h.nonempty h.same h.differ fun _ _ _ _ => Option.some_ne_none _ |>.symm

theorem MaximalRuns.firsts_sublist {e : A → E} {as : List A} {rs : List (List A)}
    (h : MaximalRuns e as rs) : (firsts rs).Sublist as := by
  rw [← run_dedup h]
  exact run_dedup_sublist _ _ _

omit [DecidableEq E] in
theorem MaximalRuns.firsts_ne_nil {e : A → E} {as : List A} {rs : List (List A)}
    (h : MaximalRuns e as rs) (hne : as ≠ []) : firsts rs ≠ [] := by
  intro hnil
  have hlen := length_firsts h.nonempty
  rw [hnil] at hlen
  obtain rfl := List.length_eq_zero_iff.mp hlen.symm
  exact hne h.flatten.symm

/-! ## Thinned inputs -/

/-- Some of the elements that repeat the value before them are left out. The state is the
last value, if there is one. -/
inductive Thinned (e : A → E) : Option E → List A → List A → Prop
  | nil (s : Option E) : Thinned e s [] []
  | keep {s : Option E} {a : A} {as bs : List A} (h : Thinned e (some (e a)) as bs) :
    Thinned e s (a :: as) (a :: bs)
  | drop {a : A} {as bs : List A} (h : Thinned e (some (e a)) as bs) :
    Thinned e (some (e a)) (a :: as) bs

omit [DecidableEq E] in
/-- What is left of a list with no value before it is one way to thin it after any value. -/
theorem Thinned.of_none {e : A → E} {as bs : List A} (h : Thinned e none as bs) (s : Option E) :
    Thinned e s as bs := by
  cases h with
  | nil => exact .nil s
  | keep h => exact .keep h

omit [DecidableEq E] in
theorem Thinned.append {e : A → E} {s : Option E} {as bs as' bs' : List A}
    (h : Thinned e s as bs) (h' : Thinned e none as' bs') :
    Thinned e s (as ++ as') (bs ++ bs') := by
  induction h with
  | nil s => exact h'.of_none s
  | keep _ ih => exact .keep ih
  | drop _ ih => exact .drop ih

/-- `dedup` does not notice. -/
theorem Thinned.run_dedup {e : A → E} {s : Option E} {as bs : List A} (h : Thinned e s as bs) :
    (dedup fun a => some (e a)).run s bs = (dedup fun a => some (e a)).run s as := by
  induction h with
  | nil => rfl
  | @keep s a as bs _ ih =>
    rw [run_cons, run_cons, dedup]
    by_cases hs : s = some (e a)
    · simp only [if_pos hs]
      rw [hs, ih]
    · simp only [if_neg hs]
      rw [ih]
  | @drop a as bs _ ih =>
    rw [run_cons, dedup]
    simp only [if_true, Option.toList_none, List.nil_append]
    exact ih

end

end Transducer

end FanucDriver.Lib
