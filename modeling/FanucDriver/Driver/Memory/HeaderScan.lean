import FanucDriver.Lib.Buffer
import FanucDriver.Driver.Data

/-!
# The header scan in memory

The loop of `getMachineProgramHeader` (`data.c`) that rewrites the uploaded text in place,
down to its buffer, and what it means in terms of lines.

- `scanHeader_lines`: the text it leaves is the first lines, joined by spaces, up to the
  line where the header ends.
- `scan_eq`: in memory it leaves that text, terminated, and nothing behind the old
  terminator is read or written.

Mirroring notes:
- `scanLoop` counts the cells from `cp` on. Where none is left `*cp` is outside of the
  buffer.
-/

namespace FanucDriver.Driver.Memory

open FanucDriver.Lib FanucDriver.Lib.Buffer

/-! ## The scan -/

/-- `f` begins a line that is not part of the header. -/
def EndsHeader (f : Char) : Prop := f ≠ '(' ∧ f ≠ '\n' ∧ f ≠ ' ' ∧ f ≠ '#'

instance (f : Char) : Decidable (EndsHeader f) := by unfold EndsHeader; infer_instance

/-- `for (char *cp = program; *cp != '\0'; ++cp)` -/
def scanLoop : ℕ → Buffer Char → ℕ → ℕ → Except Fault (Buffer Char)
  | 0, _, _, _ => .error .bounds
  | remaining + 1, program, cp, lineCount => do
    let c ← program.load cp
    if c = '\x00' then
      return program
    else if c = '\n' then
      let f ← program.load (cp + 1)
      if 0 < lineCount ∧ EndsHeader f then
        program.store cp '\x00'
      else
        scanLoop remaining (← program.store cp ' ') (cp + 1) (lineCount + 1)
    else
      scanLoop remaining program (cp + 1) lineCount

/-- The scan of a whole buffer. -/
def scan (program : Buffer Char) : Except Fault (Buffer Char) :=
  scanLoop program.length program 0 0

/-! ## The lines of a header -/

/-- The header ends before line `i`. -/
def Ends (lines : List CStr) (i : ℕ) : Prop :=
  2 ≤ i ∧ ∃ line, lines[i]? = some line ∧
    ((∃ c, line.head? = some c ∧ c ≠ '(' ∧ c ≠ ' ' ∧ c ≠ '#')
      ∨ (line = [] ∧ i + 1 = lines.length))

/-- The first line that is not part of the header, or the number of lines. -/
structure HeaderEnd (lines : List CStr) (k : ℕ) : Prop where
  ends : Ends lines k ∨ k = lines.length
  least : ∀ i < k, ¬Ends lines i

/-- The first `k` lines, joined by spaces. -/
def joined (lines : List CStr) (k : ℕ) : CStr := [' '].intercalate (lines.take k)

/-- The first two lines are part of the header. -/
theorem HeaderEnd.take_two {lines : List CStr} {k : ℕ} (h : HeaderEnd lines k) :
    lines.take 2 <+: lines.take k := by
  rcases h.ends with hends | rfl
  · exact List.take_prefix_take_left hends.1
  · rw [List.take_length]
    exact List.take_prefix 2 lines

/-- The first character of a text, given by its lines. The text behind the last line is
the terminator. -/
def firstChar : List CStr → Char
  | [] => '\x00'
  | [line] => line.headD '\x00'
  | line :: _ :: _ => line.headD '\n'

/-- The lines that the scan keeps, `lineCount` newlines after the start. -/
def keptLines : ℕ → List CStr → List CStr
  | _, [] => []
  | lineCount, line :: lines =>
    if lines = [] ∨ (0 < lineCount ∧ EndsHeader (firstChar lines)) then [line]
    else line :: keptLines (lineCount + 1) lines

/-! ## `scanHeader` on lines -/

theorem firstChar_splitOn (p : CStr) : firstChar (p.splitOn '\n') = p.headD '\x00' := by
  cases p with
  | nil => rfl
  | cons c p =>
    obtain ⟨line, lines, hlines⟩ := List.exists_cons_of_ne_nil (List.splitOn_ne_nil '\n' p)
    rw [List.splitOn_cons_eq_if_modifyHead, hlines, List.headD_cons]
    split
    next hc => exact (beq_iff_eq.mp hc).symm
    next => cases lines <;> rfl

theorem keptLines_ne_nil (lineCount : ℕ) {lines : List CStr} (h : lines ≠ []) :
    keptLines lineCount lines ≠ [] := by
  cases lines with
  | nil => exact absurd rfl h
  | cons line lines =>
    unfold keptLines
    split <;> exact List.cons_ne_nil _ _

/-- The scan is the lines it keeps, joined by spaces. -/
theorem scanHeader_eq_keptLines (lineCount : ℕ) (p : CStr) :
    scanHeader lineCount p = [' '].intercalate (keptLines lineCount (p.splitOn '\n')) := by
  induction p generalizing lineCount with
  | nil => rfl
  | cons c p ih =>
    have hne := List.splitOn_ne_nil '\n' p
    rw [List.splitOn_cons_eq_if_modifyHead, scanHeader]
    by_cases hc : c = '\n'
    · rw [if_pos hc, if_pos (beq_iff_eq.mpr hc), keptLines, firstChar_splitOn]
      by_cases hends : 0 < lineCount ∧ EndsHeader (p.headD '\x00')
      · rw [if_pos (Or.inr hends)]
        exact if_pos hends
      · rw [if_neg (not_or.mpr ⟨hne, hends⟩)]
        obtain ⟨line, lines, hkept⟩ :=
          List.exists_cons_of_ne_nil (keptLines_ne_nil (lineCount + 1) hne)
        rw [ih, hkept, List.intercalate_cons_cons]
        exact if_neg hends
    · rw [if_neg hc, if_neg (fun h => hc (beq_iff_eq.mp h)), ih]
      obtain ⟨line, lines, hlines⟩ := List.exists_cons_of_ne_nil hne
      rw [hlines, List.modifyHead_cons, keptLines, keptLines]
      split
      next => rw [List.intercalate_singleton, List.intercalate_singleton]
      next h =>
        obtain ⟨line', lines', hkept⟩ :=
          List.exists_cons_of_ne_nil (keptLines_ne_nil (lineCount + 1) (not_or.mp h).1)
        rw [hkept, List.intercalate_cons_cons, List.intercalate_cons_cons]
        rfl

/-- No line contains a newline. -/
theorem newline_not_mem_lines (p : CStr) : ∀ line ∈ p.splitOn '\n', '\n' ∉ line := by
  induction p with
  | nil => exact fun line hline => List.mem_singleton.mp hline ▸ List.not_mem_nil
  | cons c p ih =>
    obtain ⟨line, lines, hlines⟩ := List.exists_cons_of_ne_nil (List.splitOn_ne_nil '\n' p)
    rw [hlines] at ih
    rw [List.splitOn_cons_eq_if_modifyHead, hlines]
    split
    next =>
      intro l hl
      rcases List.mem_cons.mp hl with rfl | hl
      · exact List.not_mem_nil
      · exact ih l hl
    next hc =>
      rw [List.modifyHead_cons]
      intro l hl
      rcases List.mem_cons.mp hl with rfl | hl
      · intro hmem
        rcases List.mem_cons.mp hmem with rfl | hmem
        · exact hc (beq_self_eq_true _)
        · exact ih line List.mem_cons_self hmem
      · exact ih l (List.mem_cons_of_mem _ hl)

/-- From its second line on, the first character of the lines that follow decides. -/
theorem ends_iff {lines : List CStr} (hnl : ∀ line ∈ lines, '\n' ∉ line) {i : ℕ}
    (hi : i < lines.length) :
    Ends lines i ↔ 2 ≤ i ∧ EndsHeader (firstChar (lines.drop i)) := by
  have hnot : '\n' ∉ lines[i] := hnl _ (List.getElem_mem hi)
  have hdrop := List.drop_eq_getElem_cons hi
  have hget := List.getElem?_eq_getElem hi
  refine and_congr_right fun _ => ?_
  rw [hdrop, hget]
  generalize lines[i] = line at hnot ⊢
  cases line with
  | cons c line =>
    have hfirst : firstChar ((c :: line) :: lines.drop (i + 1)) = c := by
      cases lines.drop (i + 1) <;> rfl
    have hc : c ≠ '\n' := fun h => hnot (h ▸ List.mem_cons_self)
    rw [hfirst]
    constructor
    · rintro ⟨_, ⟨rfl⟩, ⟨_, ⟨rfl⟩, hparen, hspace, hhash⟩ | ⟨h, -⟩⟩
      · exact ⟨hparen, hc, hspace, hhash⟩
      · exact absurd h (List.cons_ne_nil _ _)
    · intro h
      obtain ⟨hparen, -, hspace, hhash⟩ := h
      exact ⟨_, rfl, Or.inl ⟨c, rfl, hparen, hspace, hhash⟩⟩
  | nil =>
    constructor
    · rintro ⟨_, ⟨rfl⟩, ⟨_, h, -⟩ | ⟨-, hlast⟩⟩
      · exact absurd h nofun
      · rw [List.drop_eq_nil_of_le (Nat.le_of_eq hlast.symm)]
        exact ⟨by decide, by decide, by decide, by decide⟩
    · intro hends
      refine ⟨_, rfl, Or.inr ⟨rfl, ?_⟩⟩
      cases hrest : lines.drop (i + 1) with
      | nil => exact Nat.le_antisymm hi (List.drop_eq_nil_iff.mp hrest)
      | cons line' rest =>
        rw [hrest] at hends
        exact absurd rfl hends.2.1

/-- The lines kept are the first ones, up to where the header ends. The newlines so far
count as lines. -/
theorem keptLines_eq_take (lineCount : ℕ) {lines : List CStr} (hne : lines ≠ []) :
    ∃ k, keptLines lineCount lines = lines.take k ∧ k ≤ lines.length ∧ 0 < k ∧
      (k < lines.length → 1 < lineCount + k ∧ EndsHeader (firstChar (lines.drop k))) ∧
      ∀ i < k, 0 < i → 1 < lineCount + i → ¬EndsHeader (firstChar (lines.drop i)) := by
  induction lines generalizing lineCount with
  | nil => exact absurd rfl hne
  | cons line lines ih =>
    unfold keptLines
    split
    next h =>
      refine ⟨1, rfl, Nat.succ_le_of_lt (List.length_pos_of_ne_nil hne), Nat.one_pos, ?_, ?_⟩
      · intro hlt
        rcases h with rfl | ⟨hcount, hends⟩
        · exact absurd hlt (Nat.lt_irrefl 1)
        · exact ⟨by omega, hends⟩
      · intro i hi hpos
        omega
    next h =>
      obtain ⟨hrest, hnot⟩ := not_or.mp h
      obtain ⟨k, hk, hle, hpos, hend, hleast⟩ := ih (lineCount + 1) hrest
      refine ⟨k + 1, by rw [hk, List.take_succ_cons], Nat.succ_le_succ hle, Nat.succ_pos k, ?_, ?_⟩
      · intro hlt
        rw [List.drop_succ_cons]
        have := hend (Nat.lt_of_succ_lt_succ hlt)
        exact ⟨by omega, this.2⟩
      · intro i hi hipos hcount
        obtain ⟨i, rfl⟩ := Nat.exists_eq_succ_of_ne_zero (Nat.ne_of_gt hipos)
        rw [List.drop_succ_cons]
        rcases Nat.eq_zero_or_pos i with rfl | hipos
        · exact fun hends => hnot ⟨by omega, hends⟩
        · exact hleast i (by omega) hipos (by omega)

/-- **The scanned text in terms of lines.** -/
theorem scanHeader_lines (p : CStr) :
    ∃ k, HeaderEnd (p.splitOn '\n') k ∧
      scanHeader 0 p = joined (p.splitOn '\n') k := by
  obtain ⟨k, hk, hle, -, hend, hleast⟩ := keptLines_eq_take 0 (List.splitOn_ne_nil '\n' p)
  have hnl := newline_not_mem_lines p
  refine ⟨k, ⟨?_, ?_⟩, by rw [scanHeader_eq_keptLines, hk, joined]⟩
  · rcases Nat.lt_or_ge k (p.splitOn '\n').length with hlt | hge
    · obtain ⟨hcount, hends⟩ := hend hlt
      exact Or.inl ((ends_iff hnl hlt).mpr ⟨by omega, hends⟩)
    · exact Or.inr (Nat.le_antisymm hle hge)
  · intro i hi hends
    obtain ⟨htwo, hfirst⟩ := (ends_iff hnl (Nat.lt_of_lt_of_le hi hle)).mp hends
    exact hleast i hi (by omega) (by omega) hfirst

/-- The header has the characters of the program, with spaces for newlines. -/
theorem mem_scanHeader {lineCount : ℕ} {p : CStr} {c : Char} (h : c ∈ scanHeader lineCount p) :
    c = ' ' ∨ (c ≠ '\n' ∧ c ∈ p) := by
  induction p generalizing lineCount with
  | nil => exact absurd h List.not_mem_nil
  | cons d p ih =>
    have htail : ∀ {n}, c ∈ scanHeader n p → c = ' ' ∨ (c ≠ '\n' ∧ c ∈ d :: p) := fun hc =>
      (ih hc).imp id fun hmem => ⟨hmem.1, List.mem_cons_of_mem d hmem.2⟩
    unfold scanHeader at h
    split at h
    next =>
      dsimp only at h
      split at h
      next => exact absurd h List.not_mem_nil
      next => exact (List.mem_cons.mp h).elim .inl htail
    next hd =>
      rcases List.mem_cons.mp h with rfl | h
      · exact .inr ⟨hd, List.mem_cons_self⟩
      · exact htail h

theorem newline_not_mem_scanHeader (lineCount : ℕ) (p : CStr) :
    '\n' ∉ scanHeader lineCount p := fun h =>
  (mem_scanHeader h).elim (by decide) fun hmem => hmem.1 rfl

theorem nul_not_mem_scanHeader (lineCount : ℕ) {p : CStr} (h : '\x00' ∉ p) :
    '\x00' ∉ scanHeader lineCount p := fun hc =>
  (mem_scanHeader hc).elim (by decide) fun hmem => h hmem.2

/-! ## The scan in place -/

/-- The terminator ends the loop. -/
theorem scanLoop_nul (n : ℕ) (pre rest : Buffer Char) (lineCount : ℕ) :
    scanLoop (n + 1) (pre ++ some '\x00' :: rest) pre.length lineCount
      = .ok (pre ++ some '\x00' :: rest) := by
  simp only [scanLoop, load_value, bind, Except.bind]
  rfl

/-- A character other than a newline is passed. -/
theorem scanLoop_other (n : ℕ) (pre : Buffer Char) {c : Char} (hnul : c ≠ '\x00')
    (hnl : c ≠ '\n') (post : Buffer Char) (lineCount : ℕ) :
    scanLoop (n + 1) (pre ++ some c :: post) pre.length lineCount
      = scanLoop n ((pre ++ [some c]) ++ post) (pre ++ [some c]).length lineCount := by
  rw [List.append_assoc, List.length_append]
  simp only [scanLoop, load_value, bind, Except.bind]
  rw [if_neg hnul, if_neg hnl]
  rfl

/-- A newline ends the text or becomes a space. -/
theorem scanLoop_newline (n : ℕ) (pre : Buffer Char) (f : Char) (post : Buffer Char)
    (lineCount : ℕ) :
    scanLoop (n + 1) (pre ++ some '\n' :: some f :: post) pre.length lineCount
      = if 0 < lineCount ∧ EndsHeader f then .ok (pre ++ some '\x00' :: some f :: post)
        else scanLoop n ((pre ++ [some ' ']) ++ some f :: post) (pre ++ [some ' ']).length
          (lineCount + 1) := by
  have hnext : Buffer.load (pre ++ some '\n' :: some f :: post) (pre.length + 1) = .ok f := by
    have h := load_value (pre ++ [some '\n']) f post
    rwa [List.append_assoc, List.length_append] at h
  rw [List.append_assoc, List.length_append]
  simp only [scanLoop, load_value, hnext, store_append, bind, Except.bind]
  rfl

/-- The loop leaves `text` of `p`, terminated, and then `tail` and what followed `p`. It
reads and writes nothing behind the terminator. -/
structure Leaves (lineCount : ℕ) (p text : CStr) (tail : Buffer Char) : Prop where
  length : text.length + tail.length = p.length
  loop : ∀ (n : ℕ) (pre rest : Buffer Char),
    scanLoop (n + p.length + 1) (pre ++ (cells p ++ some '\x00' :: rest)) pre.length lineCount
      = .ok (pre ++ (cells text ++ some '\x00' :: (tail ++ rest)))

/-- A character is passed, whatever it becomes. -/
theorem Leaves.cons {lineCount lineCount' : ℕ} {p text : CStr} {tail : Buffer Char}
    (h : Leaves lineCount' p text tail) {c d : Char}
    (hstep : ∀ (n : ℕ) (pre rest : Buffer Char),
      scanLoop (n + 1) (pre ++ some c :: (cells p ++ some '\x00' :: rest)) pre.length lineCount
        = scanLoop n ((pre ++ [some d]) ++ (cells p ++ some '\x00' :: rest))
          (pre ++ [some d]).length lineCount') :
    Leaves lineCount (c :: p) (d :: text) tail where
  length := by
    rw [List.length_cons, List.length_cons, ← h.length]
    omega
  loop n pre rest := by
    rw [List.length_cons, cells_cons, cells_cons, List.cons_append, List.cons_append, hstep,
      ← Nat.add_assoc, h.loop, List.append_assoc]
    rfl

/-- What stands after a newline: its first character is that of the text, or the
terminator. -/
theorem cells_terminated (p : CStr) :
    ∃ post : Buffer Char, ∀ rest,
      cells p ++ some '\x00' :: rest = some (p.headD '\x00') :: (post ++ rest) := by
  cases p with
  | nil => exact ⟨[], fun rest => rfl⟩
  | cons f p => exact ⟨cells p ++ [some '\x00'], fun rest => by simp⟩

/-- **The loop** leaves the scanned text. -/
theorem leaves_scanHeader {p : CStr} (h : '\x00' ∉ p) (lineCount : ℕ) :
    ∃ tail, Leaves lineCount p (scanHeader lineCount p) tail := by
  induction p generalizing lineCount with
  | nil => exact ⟨[], rfl, fun n pre rest => scanLoop_nul n pre rest lineCount⟩
  | cons c p ih =>
    obtain ⟨hnul, hp⟩ := not_or.mp fun hmem => h (List.mem_cons.mpr hmem)
    by_cases hnl : c = '\n'
    · subst hnl
      obtain ⟨post, hpost⟩ := cells_terminated p
      by_cases hends : 0 < lineCount ∧ EndsHeader (p.headD '\x00')
      · have hcut : scanHeader lineCount ('\n' :: p) = [] := if_pos hends
        rw [hcut]
        refine ⟨cells p ++ [some '\x00'], by simp, fun n pre rest => ?_⟩
        rw [cells_cons, List.cons_append, hpost, scanLoop_newline, if_pos hends, ← hpost]
        simp
      · have hspace : scanHeader lineCount ('\n' :: p) = ' ' :: scanHeader (lineCount + 1) p :=
          if_neg hends
        rw [hspace]
        obtain ⟨tail, htail⟩ := ih hp (lineCount + 1)
        refine ⟨tail, htail.cons fun n pre rest => ?_⟩
        rw [hpost, scanLoop_newline, if_neg hends]
    · have hpass : scanHeader lineCount (c :: p) = c :: scanHeader lineCount p := if_neg hnl
      rw [hpass]
      obtain ⟨tail, htail⟩ := ih hp lineCount
      exact ⟨tail, htail.cons fun n pre rest => scanLoop_other n pre (Ne.symm hnul) hnl _ _⟩

theorem scan_eq {p : CStr} (h : '\x00' ∉ p) :
    ∃ tail, (scanHeader 0 p).length + tail.length = p.length ∧
      ∀ rest : Buffer Char, scan (cells p ++ some '\x00' :: rest)
        = .ok (cells (scanHeader 0 p) ++ some '\x00' :: (tail ++ rest)) := by
  obtain ⟨tail, htail⟩ := leaves_scanHeader h 0
  refine ⟨tail, htail.length, fun rest => ?_⟩
  have hlen : (cells p ++ some '\x00' :: rest).length = rest.length + p.length + 1 := by
    rw [List.length_append, length_cells, List.length_cons]
    omega
  unfold scan
  rw [hlen]
  exact htail.loop rest.length [] rest

end FanucDriver.Driver.Memory
