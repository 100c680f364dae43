import FanucDriver.Lib.Histories
import Mathlib.Data.List.Basic
import Mathlib.Data.List.Nodup
import Mathlib.Data.List.Induction

/-!
# Last-writer-wins overlays and change-only streams

A producer that publishes key/value updates, and a reader that keeps the last
value it saw under every key: `overlay` is what the reader holds.

A *change-only* producer keeps the previous snapshot and publishes, per key,
only when a guard says the snapshot moved. `Guard` is one such key, `emit` the
updates of one snapshot, `history` everything published over a sequence of
snapshots. The question every such producer raises is whether the reader's
overlay is the latest snapshot; `tracks_iff` answers it exactly:

> the overlay at a key is the latest snapshot's value after every snapshot, iff
> the key fires on the first snapshot and, wherever its guard stays silent
> between two successive snapshots, the published value did not move.

A guard that fires exactly when its published value is new (`Guard.Exact`) meets
the condition, and one that watches what it publishes (`Guard.onChange_exact`) is
of that kind.
-/

namespace FanucDriver.Lib

variable {K V S : Type}

section
variable [DecidableEq K]

/-- The value the last pair under `k` carries. -/
def overlay (us : List (K × V)) (k : K) : Option V := us.reverse.lookup k

@[simp] theorem overlay_nil (k : K) : overlay ([] : List (K × V)) k = none := rfl

@[simp] theorem overlay_append (us ws : List (K × V)) (k : K) :
    overlay (us ++ ws) k = (overlay ws k).or (overlay us k) := by
  simp [overlay, List.lookup_append]

theorem overlay_singleton (k' k : K) (x : V) :
    overlay [(k', x)] k = if k = k' then some x else none := by
  simp only [overlay, List.reverse_singleton, List.lookup_cons, List.lookup_nil]
  by_cases h : k = k'
  · simp [h]
  · rw [if_neg h, beq_false_of_ne h]

@[simp] theorem overlay_singleton_self (k : K) (x : V) : overlay [(k, x)] k = some x := by
  rw [overlay_singleton, if_pos rfl]

/-- Nothing is held under a key no pair carries. -/
theorem overlay_eq_none_iff {us : List (K × V)} {k : K} :
    overlay us k = none ↔ ∀ u ∈ us, u.1 ≠ k := by
  simp only [overlay, List.lookup_eq_none_iff, List.mem_reverse, bne_iff_ne, ne_eq]
  exact ⟨fun h u hu e => h u hu e.symm, fun h u hu e => h u hu e.symm⟩

/-- A selection of keys keeps what is held under a selected one. -/
theorem overlay_filter {p : K → Bool} {k : K} (hk : p k = true) (us : List (K × V)) :
    overlay (us.filter fun u => p u.1) k = overlay us k := by
  induction us using List.reverseRecOn with
  | nil => rfl
  | append_singleton us u ih =>
    rw [List.filter_append, overlay_append, overlay_append, ih]
    obtain ⟨k', x⟩ := u
    cases hk' : p k' with
    | true =>
      rw [List.filter_singleton, hk']
      rfl
    | false =>
      have hne : k ≠ k' := by
        intro h
        rw [← h, hk] at hk'
        exact absurd hk' (by decide)
      rw [List.filter_singleton, hk', overlay_singleton, if_neg hne]
      rfl

/-- A held value was published. -/
theorem overlay_mem {us : List (K × V)} {k : K} {x : V} (h : overlay us k = some x) :
    (k, x) ∈ us := by
  induction us using List.reverseRecOn with
  | nil => simp at h
  | append_singleton us u ih =>
    rw [overlay_append] at h
    -- the last update decides, unless it is for another key
    by_cases hk : k = u.1
    · obtain ⟨k', y⟩ := u
      obtain rfl : k = k' := hk
      rw [overlay_singleton_self, Option.some_or, Option.some.injEq] at h
      subst h
      exact List.mem_append_right _ (List.mem_singleton.mpr rfl)
    · rw [show overlay [u] k = none from overlay_eq_none_iff.mpr (by
        intro w hw
        rw [List.mem_singleton.mp hw]
        exact fun e => hk e.symm), Option.none_or] at h
      exact List.mem_append_left _ (ih h)

/-- Where no key comes twice, every pair is held. -/
theorem overlay_of_mem {us : List (K × V)} (hnodup : (us.map Prod.fst).Nodup) {k : K} {x : V}
    (h : (k, x) ∈ us) : overlay us k = some x := by
  cases hy : overlay us k with
  | none => exact absurd rfl (overlay_eq_none_iff.mp hy _ h)
  | some y =>
    have hpair := List.inj_on_of_nodup_map hnodup (overlay_mem hy) h rfl
    exact congrArg some (Prod.mk.inj hpair).2

/-- Renaming keys injectively and rewriting values does not move the holdings. -/
theorem overlay_map {K' V' : Type} [DecidableEq K'] {g : K → K'} (hg : Function.Injective g)
    (h : K → V → V') (us : List (K × V)) (k : K) :
    overlay (us.map fun u => (g u.1, h u.1 u.2)) (g k) = (overlay us k).map (h k) := by
  induction us using List.reverseRecOn with
  | nil => rfl
  | append_singleton us u ih =>
    rw [List.map_append, List.map_singleton, overlay_append, overlay_append, ih,
      show [u] = [(u.1, u.2)] from rfl, overlay_singleton, overlay_singleton]
    by_cases hk : k = u.1
    · simp [hk]
    · rw [if_neg hk, if_neg (fun e => hk (hg e)), Option.none_or, Option.none_or]

end

/-! ## Guarded keys -/

/-- One key of a change-only producer: when it fires, given the previous
snapshot (if there is one) and the new one, and what it then publishes. -/
structure Guard (S K V : Type) where
  key : K
  fires : Option S → S → Bool
  value : S → V

/-- The usual guard: fires on the first snapshot, and later whenever what it
watches differs from the previous snapshot. -/
def Guard.onChange {A : Type} [DecidableEq A] (key : K) (watch : S → A) (value : S → V) :
    Guard S K V where
  key := key
  fires lv v := lv.all fun l => decide (watch l ≠ watch v)
  value := value

@[simp] theorem Guard.onChange_value {A : Type} [DecidableEq A] (key : K) (watch : S → A)
    (value : S → V) : (Guard.onChange key watch value).value = value := rfl

@[simp] theorem Guard.onChange_fires_none {A : Type} [DecidableEq A] (key : K) (watch : S → A)
    (value : S → V) (v : S) : (Guard.onChange key watch value).fires none v = true := rfl

@[simp] theorem Guard.onChange_fires_some {A : Type} [DecidableEq A] (key : K) (watch : S → A)
    (value : S → V) (l v : S) :
    (Guard.onChange key watch value).fires (some l) v = decide (watch l ≠ watch v) := rfl

/-- A variable refreshed where the guard fires follows what the guard watches. -/
theorem Guard.onChange_refreshed {A : Type} [DecidableEq A] {key : K} {watch : S → A}
    {value : S → V} {lv : Option S} {shared : A} (h : ∀ l ∈ lv, shared = watch l) (v : S) :
    (if (Guard.onChange key watch value).fires lv v then watch v else shared) = watch v := by
  cases lv with
  | none => rfl
  | some l =>
    by_cases hw : watch l = watch v
    · simp [h l rfl, hw]
    · simp [hw]

/-- The updates one snapshot publishes, in the order of the guards. -/
def emit (gs : List (Guard S K V)) (lv : Option S) (v : S) : List (K × V) :=
  gs.flatMap fun g => if g.fires lv v then [(g.key, g.value v)] else []

/-- Everything published is some guard's key and value, and that guard fired. -/
theorem mem_emit {gs : List (Guard S K V)} {lv : Option S} {v : S} {u : K × V} :
    u ∈ emit gs lv v ↔ ∃ g ∈ gs, g.fires lv v = true ∧ u = (g.key, g.value v) := by
  simp only [emit, List.mem_flatMap]
  constructor
  · intro h
    obtain ⟨g, hg, hu⟩ := h
    split at hu
    next hf => exact ⟨g, hg, hf, List.mem_singleton.mp hu⟩
    next => exact absurd hu (List.not_mem_nil)
  · intro h
    obtain ⟨g, hg, hf, rfl⟩ := h
    exact ⟨g, hg, by rw [if_pos hf]; exact List.mem_singleton.mpr rfl⟩

/-- The keys published are those of the guards, in their order. -/
theorem emit_keys_sublist (gs : List (Guard S K V)) (lv : Option S) (v : S) :
    ((emit gs lv v).map Prod.fst).Sublist (gs.map Guard.key) := by
  induction gs with
  | nil => exact List.Sublist.refl _
  | cons g gs ih =>
    have hsplit : emit (g :: gs) lv v
        = (if g.fires lv v then [(g.key, g.value v)] else []) ++ emit gs lv v := rfl
    rw [hsplit, List.map_append, List.map_cons]
    split
    · exact ih.cons_cons g.key
    · exact ih.cons g.key

section
variable [DecidableEq K]

/-- With distinct keys, a key is held by one snapshot's updates exactly when its
guard fired, and then with that snapshot's value. -/
theorem overlay_emit {gs : List (Guard S K V)} (hk : (gs.map Guard.key).Nodup)
    {g : Guard S K V} (hg : g ∈ gs) (lv : Option S) (v : S) :
    overlay (emit gs lv v) g.key = if g.fires lv v then some (g.value v) else none := by
  induction gs with
  | nil => exact absurd hg List.not_mem_nil
  | cons g' gs ih =>
    obtain ⟨hnew, hrest⟩ := List.nodup_cons.mp hk
    have hsplit : emit (g' :: gs) lv v
        = (if g'.fires lv v then [(g'.key, g'.value v)] else []) ++ emit gs lv v := rfl
    rw [hsplit, overlay_append]
    rcases List.mem_cons.mp hg with rfl | hmem
    · have htail : overlay (emit gs lv v) g.key = none := by
        refine overlay_eq_none_iff.mpr fun u hu he => hnew ?_
        obtain ⟨g₂, hg₂, -, rfl⟩ := mem_emit.mp hu
        exact List.mem_map.mpr ⟨g₂, hg₂, he⟩
      rw [htail, Option.none_or]
      split <;> simp
    · have hne : g.key ≠ g'.key := fun he => hnew (he ▸ List.mem_map_of_mem hmem)
      have hhead : overlay (if g'.fires lv v then [(g'.key, g'.value v)] else []) g.key
          = none := by
        split
        · rw [overlay_singleton, if_neg hne]
        · rfl
      rw [ih hrest hmem, hhead, Option.or_none]

/-- A key is among one snapshot's updates exactly when its guard fired. -/
theorem key_mem_emit_iff {gs : List (Guard S K V)} (hk : (gs.map Guard.key).Nodup)
    {g : Guard S K V} (hg : g ∈ gs) (lv : Option S) (v : S) :
    g.key ∈ (emit gs lv v).map Prod.fst ↔ g.fires lv v = true := by
  constructor
  · intro h
    obtain ⟨u, hu, he⟩ := List.mem_map.mp h
    by_contra hf
    have hnone := overlay_emit hk hg lv v
    rw [if_neg hf] at hnone
    exact overlay_eq_none_iff.mp hnone u hu he
  · intro h
    exact List.mem_map.mpr ⟨_, mem_emit.mpr ⟨g, hg, h, rfl⟩, rfl⟩

end

/-! ## A sequence of snapshots -/

/-- Everything published over a sequence of snapshots, oldest first. -/
def history (gs : List (Guard S K V)) (vs : List S) : List (K × V) :=
  (vs.foldl (fun st v => (some v, st.2 ++ emit gs st.1 v)) ((none, []) : Option S × _)).2

private theorem foldl_fst (gs : List (Guard S K V)) (vs : List S) :
    (vs.foldl (fun st v => (some v, st.2 ++ emit gs st.1 v))
      ((none, []) : Option S × List (K × V))).1 = vs.getLast? := by
  induction vs using List.reverseRecOn with
  | nil => rfl
  | append_singleton vs v _ => simp

@[simp] theorem history_nil (gs : List (Guard S K V)) : history gs [] = [] := rfl

/-- One more snapshot publishes against the last one seen. -/
theorem history_snoc (gs : List (Guard S K V)) (vs : List S) (v : S) :
    history gs (vs ++ [v]) = history gs vs ++ emit gs vs.getLast? v := by
  simp only [history, List.foldl_append, List.foldl_cons, List.foldl_nil, foldl_fst]

/-- Everything published over a sequence of snapshots, after the snapshot `lv`. -/
def historyFrom (gs : List (Guard S K V)) : Option S → List S → List (K × V)
  | _, [] => []
  | lv, v :: vs => emit gs lv v ++ historyFrom gs (some v) vs

theorem historyFrom_none (gs : List (Guard S K V)) (vs : List S) :
    historyFrom gs none vs = history gs vs := by
  have hfold (lv : Option S) (us : List (K × V)) :
      (vs.foldl (fun st v => (some v, st.2 ++ emit gs st.1 v)) (lv, us)).2
        = us ++ historyFrom gs lv vs := by
    induction vs generalizing lv us with
    | nil => rw [List.foldl_nil, historyFrom, List.append_nil]
    | cons v vs ih => rw [List.foldl_cons, ih, historyFrom, List.append_assoc]
  exact (hfold none []).symm

section
variable [DecidableEq K]

/-- After every snapshot of the sequence, what is held under the guard's key is
that snapshot's value. -/
def Tracks (gs : List (Guard S K V)) (g : Guard S K V) (vs : List S) : Prop :=
  ∀ p v, p ++ [v] <+: vs → overlay (history gs (p ++ [v])) g.key = some (g.value v)

/-- What is held after one more snapshot: the new value if the guard fired, the
old holding otherwise. -/
theorem overlay_history_snoc {gs : List (Guard S K V)} (hk : (gs.map Guard.key).Nodup)
    {g : Guard S K V} (hg : g ∈ gs) (vs : List S) (v : S) :
    overlay (history gs (vs ++ [v])) g.key
      = if g.fires vs.getLast? v then some (g.value v) else overlay (history gs vs) g.key := by
  rw [history_snoc, overlay_append, overlay_emit hk hg]
  split <;> simp

/-- **When a change-only stream reconstructs the snapshot**: the key fires first,
and a silent guard means an unmoved value. -/
theorem tracks_iff {gs : List (Guard S K V)} (hk : (gs.map Guard.key).Nodup)
    {g : Guard S K V} (hg : g ∈ gs) (vs : List S) :
    Tracks gs g vs ↔
      (∀ v, [v] <+: vs → g.fires none v = true) ∧
      ∀ p a b, p ++ [a, b] <+: vs → g.fires (some a) b = false → g.value a = g.value b := by
  constructor
  · intro ht
    constructor
    · intro v hv
      have h := ht [] v hv
      rw [overlay_history_snoc hk hg] at h
      by_contra hf
      rw [List.getLast?_nil, if_neg hf] at h
      simp at h
    · intro p a b hp hsilent
      have hpre : p ++ [a] <+: vs :=
        (List.prefix_append (p ++ [a]) [b]).trans (by simpa using hp)
      have hb := ht (p ++ [a]) b (by simpa using hp)
      rw [overlay_history_snoc hk hg, List.getLast?_concat, hsilent] at hb
      rw [if_neg (by simp), ht p a hpre] at hb
      exact Option.some.inj hb
  · intro h p
    obtain ⟨hfirst, hsilent⟩ := h
    -- the holding before the last snapshot is the previous snapshot's value
    induction p using List.reverseRecOn with
    | nil =>
      intro v hv
      rw [overlay_history_snoc hk hg, List.getLast?_nil, if_pos (hfirst v hv)]
    | append_singleton p a ih =>
      intro b hp
      rw [overlay_history_snoc hk hg, List.getLast?_concat]
      split
      · rfl
      next hf =>
        have hpre : p ++ [a] <+: vs := (List.prefix_append (p ++ [a]) [b]).trans hp
        rw [ih a hpre, hsilent p a b (by simpa using hp) (by simpa using hf)]

/-! ### A key that some snapshots do not have -/

/-- Restrict a guard to the snapshots that have its key. -/
def Guard.within (scope : S → Bool) (g : Guard S K V) : Guard S K V where
  key := g.key
  fires lv v := scope v && g.fires lv v
  value := g.value

omit [DecidableEq K] in
/-- A snapshot that does not have the keys publishes none of them. -/
theorem emit_within (scope : S → Bool) (gs : List (Guard S K V)) (lv : Option S) (v : S) :
    emit (gs.map (Guard.within scope)) lv v = if scope v then emit gs lv v else [] := by
  unfold emit
  rw [List.flatMap_map]
  by_cases h : scope v = true
  · simp [Guard.within, h]
  · simp [Guard.within, h]

/-- After every snapshot that has the key, what is held under it is that snapshot's
value. -/
def TracksWithin (scope : S → Bool) (gs : List (Guard S K V)) (g : Guard S K V) (vs : List S) :
    Prop :=
  ∀ p v, p ++ [v] <+: vs → scope v = true →
    overlay (history gs (p ++ [v])) g.key = some (g.value v)

/-- The last snapshot that has the key. -/
def lastWithin (scope : S → Bool) (vs : List S) : Option S := (vs.filter scope).getLast?

theorem lastWithin_snoc (scope : S → Bool) (vs : List S) (v : S) :
    lastWithin scope (vs ++ [v]) = if scope v then some v else lastWithin scope vs := by
  unfold lastWithin
  rw [List.filter_append]
  cases h : scope v with
  | true => simp [h]
  | false => simp [h]

section
variable {scope : S → Bool} {gs : List (Guard S K V)} {g : Guard S K V} {vs : List S}

/-- Where every snapshot that has the key is tracked, what is held is the value of the last
one that had it: out of its scope the key is silent. -/
theorem held_of_step (hk : (gs.map Guard.key).Nodup) (hg : g ∈ gs)
    (hscope : ∀ lv v, g.fires lv v = true → scope v = true)
    (hstep : ∀ p v, p ++ [v] <+: vs → scope v = true →
      overlay (history gs p) g.key = (lastWithin scope p).map g.value →
        overlay (history gs (p ++ [v])) g.key = some (g.value v)) {p : List S} (hp : p <+: vs) :
    overlay (history gs p) g.key = (lastWithin scope p).map g.value := by
  induction p using List.reverseRecOn with
  | nil => rfl
  | append_singleton p v ih =>
    have hpre := ih ((List.prefix_append p [v]).trans hp)
    rw [lastWithin_snoc]
    by_cases hv : scope v = true
    · rw [if_pos hv, Option.map_some, hstep p v hp hv hpre]
    · rw [if_neg hv, overlay_history_snoc hk hg, if_neg fun hf => hv (hscope _ _ hf), hpre]

/-- **When a key that comes and goes is tracked**: wherever its guard stays silent, the last
snapshot before that has the key has the same value. -/
theorem tracksWithin_iff (hk : (gs.map Guard.key).Nodup) (hg : g ∈ gs)
    (hscope : ∀ lv v, g.fires lv v = true → scope v = true) :
    TracksWithin scope gs g vs ↔
      ∀ p v, p ++ [v] <+: vs → scope v = true → g.fires p.getLast? v = false →
        ∃ w, lastWithin scope p = some w ∧ g.value w = g.value v := by
  constructor
  · intro ht p v hp hv hsilent
    have hheld := held_of_step hk hg hscope (fun p v hp hv _ => ht p v hp hv)
      ((List.prefix_append p [v]).trans hp)
    have hnow := ht p v hp hv
    rw [overlay_history_snoc hk hg, if_neg (by rw [hsilent]; exact Bool.false_ne_true),
      hheld] at hnow
    exact Option.map_eq_some_iff.mp hnow
  · intro h
    have hstep : ∀ p v, p ++ [v] <+: vs → scope v = true →
        overlay (history gs p) g.key = (lastWithin scope p).map g.value →
          overlay (history gs (p ++ [v])) g.key = some (g.value v) := by
      intro p v hp hv hpre
      rw [overlay_history_snoc hk hg]
      split
      · rfl
      next hf =>
        obtain ⟨w, hw, hvalue⟩ := h p v hp hv (by simpa using hf)
        rw [hpre, hw, Option.map_some, hvalue]
    intro p v hp hv
    rw [held_of_step hk hg hscope hstep hp, lastWithin_snoc, if_pos hv, Option.map_some]

end

/-! ### Snapshots read from a log -/

theorem tracks_map_iff {R : Type} {f : R → S} {gs : List (Guard S K V)} {g : Guard S K V}
    {rs : List R} :
    Tracks gs g (rs.map f) ↔
      ∀ p r, p ++ [r] <+: rs →
        overlay (history gs ((p ++ [r]).map f)) g.key = some (g.value (f r)) := by
  unfold Tracks
  rw [forall_prefix_map]
  simp only [List.map_append, List.map_cons, List.map_nil]

/-! ### Exact guards -/

/-- On snapshots in `P` the guard fires exactly when what it publishes is new. -/
def Guard.Exact (g : Guard S K V) (P : S → Prop) : Prop :=
  ∀ lv v, (∀ l ∈ lv, P l) → P v →
    (g.fires lv v = true ↔ ∀ l ∈ lv, g.value l ≠ g.value v)

/-- An exact guard tracks every sequence of snapshots in `P`. -/
theorem Guard.Exact.tracks {gs : List (Guard S K V)} (hk : (gs.map Guard.key).Nodup)
    {g : Guard S K V} (hg : g ∈ gs) {P : S → Prop} (he : g.Exact P) {vs : List S}
    (hP : ∀ v ∈ vs, P v) : Tracks gs g vs := by
  refine (tracks_iff hk hg vs).mpr ⟨fun v hv => ?_, fun p a b hp hsilent => ?_⟩
  · have hmem : v ∈ vs := hv.subset (List.mem_singleton.mpr rfl)
    exact (he none v (by simp) (hP v hmem)).mpr (by simp)
  · have ha : a ∈ vs := hp.subset (by simp)
    have hb : b ∈ vs := hp.subset (by simp)
    by_contra hne
    have hfire := (he (some a) b (by simpa using hP a ha) (hP b hb)).mpr (by simpa using hne)
    rw [hfire] at hsilent
    exact absurd hsilent (by simp)

omit [DecidableEq K] in
/-- A guard that watches exactly what it publishes is exact. -/
theorem Guard.onChange_exact {A : Type} [DecidableEq A] {key : K} {watch : S → A}
    {value : S → V} (hw : ∀ a b, watch a = watch b ↔ value a = value b) (P : S → Prop) :
    (Guard.onChange key watch value).Exact P := by
  intro lv v _ _
  cases lv with
  | none => simp
  | some l => simp [hw]

end

end FanucDriver.Lib
