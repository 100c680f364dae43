import Mathlib.Data.List.Basic
import Mathlib.Data.List.Nodup
import Mathlib.Logic.Function.Basic

/-!
# Logs that are read again

A reader of several logs inserts the rows of what it reads into a table that keeps the
first row of every key. When it starts again it starts at the beginning of every log.
`HoldsUpTo log n t` says that the table holds the rows of every log up to a place in it,
each once and in order. Another reading keeps that (`HoldsUpTo.read`): what was read
before is in conflict with itself, and beyond that place the table grows by the row.

A record may give no row.
-/

namespace FanucDriver.Lib

variable {A R K P : Type}

/-! ## Inserts -/

section
variable [DecidableEq K] {key : R → K} {t : List R} {r : R}

/-- An insert that does nothing on a conflict. -/
def insertNew (key : R → K) (t : List R) (r : R) : List R :=
  if key r ∈ t.map key then t else t ++ [r]

theorem insertNew_of_mem (h : r ∈ t) : insertNew key t r = t :=
  if_pos (List.mem_map_of_mem h)

theorem insertNew_of_notMem (h : key r ∉ t.map key) : insertNew key t r = t ++ [r] := if_neg h

/-- Rows with distinct keys are all kept, in order. -/
theorem foldl_insertNew (rs : List R) (h : ((t ++ rs).map key).Nodup) :
    rs.foldl (insertNew key) t = t ++ rs := by
  induction rs generalizing t with
  | nil => exact (List.append_nil t).symm
  | cons r rs ih =>
    have hnew : key r ∉ t.map key := by
      intro hmem
      rw [List.map_append, List.nodup_append] at h
      exact h.2.2 _ hmem _ (List.mem_map_of_mem List.mem_cons_self) rfl
    rw [List.foldl_cons, insertNew_of_notMem hnew, ih, List.append_assoc]
    · rfl
    · rwa [List.append_assoc]

end

/-! ## The rows of a log -/

section
variable {row : A → Option R} {log : List A} {n : ℕ} {a : A} {r : R}

/-- The rows of a log up to a place in it. -/
def rowsUpTo (row : A → Option R) (log : List A) (n : ℕ) : List R := (log.take n).filterMap row

theorem rowsUpTo_succ (ha : log[n]? = some a) :
    rowsUpTo row log (n + 1) = rowsUpTo row log n ++ (row a).toList := by
  rw [rowsUpTo, List.take_add_one, ha, List.filterMap_append]
  refine congrArg (_ ++ ·) ?_
  cases h : row a with
  | none => exact List.filterMap_cons_none h
  | some r => exact List.filterMap_cons_some h

/-- What lies before the place is among the rows. -/
theorem mem_rowsUpTo {i : ℕ} (hi : i < n) (ha : log[i]? = some a) (hr : row a = some r) :
    r ∈ rowsUpTo row log n := by
  have htake : (log.take n)[i]? = some a := by rw [List.getElem?_take_of_lt hi, ha]
  exact List.mem_filterMap.mpr ⟨a, List.mem_of_getElem? htake, hr⟩

/-- A log that grows keeps what lies before its end. -/
theorem take_grow (hn : n ≤ log.length) (as : List A) : (log ++ as).take n = log.take n :=
  List.take_append_of_le_length hn

end

/-! ## The table -/

section
variable [DecidableEq P] {key : R → K} {part : K → Option P} {row : A → Option R}
  {log : P → List A} {n pos : P → ℕ} {t : List R} {p : P} {a : A} {r : R}

/-- The key of a row names its log, and there is one row for a key. -/
structure Keyed (key : R → K) (part : K → Option P) (row : A → Option R) (log : P → List A) :
    Prop where
  nodup : ∀ p, (((log p).filterMap row).map key).Nodup
  source : ∀ p, ∀ a ∈ log p, ∀ r, row a = some r → part (key r) = some p

/-- The table holds the rows of every log up to a place in it, and no others. -/
structure HoldsUpTo (key : R → K) (part : K → Option P) (row : A → Option R) (log : P → List A)
    (n : P → ℕ) (t : List R) : Prop where
  source : ∀ r ∈ t, ∃ p, part (key r) = some p
  rows : ∀ p, (t.filter fun r => part (key r) = some p) = rowsUpTo row (log p) (n p)

/-- One step further in one log. -/
def advance (pos : P → ℕ) (p : P) : P → ℕ := Function.update pos p (pos p + 1)

@[simp] theorem advance_self (pos : P → ℕ) (p : P) : advance pos p p = pos p + 1 :=
  Function.update_self ..

theorem advance_of_ne {q : P} (h : q ≠ p) (pos : P → ℕ) : advance pos p q = pos q :=
  Function.update_of_ne h ..

/-- A place that was reached before stays. -/
theorem max_advance_of_lt (h : pos p < n p) :
    (fun q => max (n q) (advance pos p q)) = fun q => max (n q) (pos q) := by
  funext q
  by_cases hq : q = p
  · subst hq
    rw [advance_self]
    omega
  · rw [advance_of_ne hq]

/-- The empty table. -/
theorem HoldsUpTo.nil : HoldsUpTo key part row log (fun _ => 0) [] where
  source _ h := absurd h List.not_mem_nil
  rows _ := rfl

theorem HoldsUpTo.mem (h : HoldsUpTo key part row log n t) (hr : r ∈ rowsUpTo row (log p) (n p)) :
    r ∈ t := by
  rw [← h.rows p] at hr
  exact (List.mem_filter.mp hr).1

/-- A record that gives no row. -/
theorem HoldsUpTo.pass (h : HoldsUpTo key part row log (fun q => max (n q) (pos q)) t)
    (ha : (log p)[pos p]? = some a) (hr : row a = none) :
    HoldsUpTo key part row log (fun q => max (n q) (advance pos p q)) t := by
  by_cases hpos : pos p < n p
  · rw [max_advance_of_lt hpos]
    exact h
  · refine ⟨h.source, fun q => (h.rows q).trans ?_⟩
    by_cases hq : q = p
    · subst hq
      have hold : max (n q) (pos q) = pos q := by omega
      have hnew : max (n q) (advance pos q q) = pos q + 1 := by
        rw [advance_self]
        omega
      rw [hold, hnew, rowsUpTo_succ ha, hr]
      exact (List.append_nil _).symm
    · rw [advance_of_ne hq]

/-- **A record that gives a row**, read for the first time or once more. -/
theorem HoldsUpTo.read [DecidableEq K] (hkeyed : Keyed key part row log)
    (h : HoldsUpTo key part row log (fun q => max (n q) (pos q)) t)
    (ha : (log p)[pos p]? = some a) (hr : row a = some r) :
    HoldsUpTo key part row log (fun q => max (n q) (advance pos p q)) (insertNew key t r) := by
  have hlog : part (key r) = some p := hkeyed.source p a (List.mem_of_getElem? ha) r hr
  by_cases hpos : pos p < n p
  · have hmem : r ∈ t := h.mem (p := p) (mem_rowsUpTo (by omega) ha hr)
    rw [max_advance_of_lt hpos, insertNew_of_mem hmem]
    exact h
  · have hold : max (n p) (pos p) = pos p := by omega
    have hnew : max (n p) (advance pos p p) = pos p + 1 := by
      rw [advance_self]
      omega
    have hrows : (t.filter fun x => part (key x) = some p) = rowsUpTo row (log p) (pos p) :=
      (h.rows p).trans (congrArg (rowsUpTo row (log p)) hold)
    -- the rows before this one have other keys
    have hfresh : key r ∉ t.map key := by
      intro hmem
      obtain ⟨x, hx, hkey⟩ := List.mem_map.mp hmem
      have hxrows : x ∈ rowsUpTo row (log p) (pos p) := by
        rw [← hrows]
        exact List.mem_filter.mpr ⟨hx, decide_eq_true ((congrArg part hkey).trans hlog)⟩
      have hnodup : ((rowsUpTo row (log p) (pos p + 1)).map key).Nodup :=
        (hkeyed.nodup p).sublist (((List.take_sublist _ _).filterMap row).map key)
      rw [rowsUpTo_succ ha, hr, List.map_append] at hnodup
      exact (List.nodup_append.mp hnodup).2.2 _ (List.mem_map_of_mem hxrows) _
        (List.mem_singleton_self _) hkey
    rw [insertNew_of_notMem hfresh]
    refine ⟨fun x hx => ?_, fun q => ?_⟩
    · rcases List.mem_append.mp hx with hx | hx
      · exact h.source x hx
      · exact ⟨p, List.mem_singleton.mp hx ▸ hlog⟩
    · rw [List.filter_append]
      by_cases hq : q = p
      · subst hq
        rw [hnew, rowsUpTo_succ ha, hr, hrows]
        refine congrArg (_ ++ ·) ?_
        exact List.filter_eq_self.mpr fun x hx => List.mem_singleton.mp hx ▸ decide_eq_true hlog
      · have hother : ([r].filter fun x => part (key x) = some q) = [] := by
          refine List.filter_eq_nil_iff.mpr fun x hx => ?_
          rw [List.mem_singleton.mp hx, hlog, decide_eq_true_eq]
          exact fun heq => hq (Option.some.inj heq).symm
        rw [hother, List.append_nil, h.rows q, advance_of_ne hq]

/-- Logs that only grow. -/
theorem HoldsUpTo.grow {log' : P → List A} (h : HoldsUpTo key part row log n t)
    (hlog : ∀ p, (log' p).take (n p) = (log p).take (n p)) :
    HoldsUpTo key part row log' n t :=
  ⟨h.source, fun p => (h.rows p).trans (congrArg (List.filterMap row) (hlog p).symm)⟩

/-- A table that reaches further has all the rows. -/
theorem HoldsUpTo.subset {m : P → ℕ} {u : List R} (h : HoldsUpTo key part row log n t)
    (h' : HoldsUpTo key part row log m u) (hle : ∀ p, n p ≤ m p) : t ⊆ u := by
  intro r hr
  obtain ⟨p, hp⟩ := h.source r hr
  have hmem : r ∈ rowsUpTo row (log p) (n p) := by
    rw [← h.rows p]
    exact List.mem_filter.mpr ⟨hr, decide_eq_true hp⟩
  exact h'.mem (((List.take_sublist_take_left (hle p)).filterMap row).subset hmem)

end

end FanucDriver.Lib
