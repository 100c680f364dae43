import FanucDriver.Lib.Json

/-!
# UTF-8 with replacement

Every text has an encoding (`encode`), but not all bytes are one. `decode` reads any bytes:
it takes the longest beginning of a sequence that it can, and puts U+FFFD where a sequence
is broken off, a byte starts none or a sequence stands for a surrogate.

> `decode (encode s) = s`

`WellFormed` bytes are those of a text. A byte below 0x80 belongs to no other sequence, so a
text can be cut there and decoded in pieces. In particular a JSON text can: its strings are
decoded one by one.

> `decode (bytes (print st j)) = print st (j.mapText read)`
-/

namespace FanucDriver.Lib.Utf8

/-- U+FFFD -/
def replacement : Char := Char.ofNat 0xfffd

/-- A sequence that has begun: the bits read, the number of bytes to come, and the bounds of
the next one. -/
structure Pending where
  bits : ℕ
  missing : ℕ
  low : ℕ
  high : ℕ

/-- What a byte begins: no sequence is longer than it has to be or goes past U+10FFFF. -/
def lead? (b : ℕ) : Option Pending :=
  if 0xc2 ≤ b ∧ b ≤ 0xdf then some ⟨b - 0xc0, 1, 0x80, 0xbf⟩
  else if b = 0xe0 then some ⟨0, 2, 0xa0, 0xbf⟩
  else if 0xe1 ≤ b ∧ b ≤ 0xef then some ⟨b - 0xe0, 2, 0x80, 0xbf⟩
  else if b = 0xf0 then some ⟨0, 3, 0x90, 0xbf⟩
  else if 0xf1 ≤ b ∧ b ≤ 0xf3 then some ⟨b - 0xf0, 3, 0x80, 0xbf⟩
  else if b = 0xf4 then some ⟨4, 3, 0x80, 0x8f⟩
  else none

/-- The character of a complete sequence. A surrogate is none. -/
def charOf (n : ℕ) : Char := if n.isValidChar then Char.ofNat n else replacement

/-- A byte between two sequences: the characters it completes, and the sequence it begins. -/
def first (b : UInt8) : List Char × Option Pending :=
  if b.toNat < 0x80 then ([charOf b.toNat], none)
  else
    match lead? b.toNat with
    | some p => ([], some p)
    | none => ([replacement], none)

/-- A byte that does not continue the sequence breaks it off and is read anew. -/
def step : Option Pending → UInt8 → List Char × Option Pending
  | none, b => first b
  | some p, b =>
    if p.low ≤ b.toNat ∧ b.toNat ≤ p.high then
      let bits := p.bits * 64 + (b.toNat - 0x80)
      if p.missing = 1 then ([charOf bits], none)
      else ([], some ⟨bits, p.missing - 1, 0x80, 0xbf⟩)
    else (replacement :: (first b).1, (first b).2)

/-- The end of the bytes. -/
def flush : Option Pending → List Char
  | none => []
  | some _ => [replacement]

def decodeFrom : Option Pending → List UInt8 → List Char
  | q, [] => flush q
  | q, b :: bs => (step q b).1 ++ decodeFrom (step q b).2 bs

def decode (bs : List UInt8) : List Char := decodeFrom none bs

theorem decodeFrom_cons (q : Option Pending) (b : UInt8) (bs : List UInt8) :
    decodeFrom q (b :: bs) = (step q b).1 ++ decodeFrom (step q b).2 bs := rfl

def encode (s : List Char) : List UInt8 := s.flatMap String.utf8EncodeChar

/-- The bytes are those of a text. -/
def WellFormed (bs : List UInt8) : Prop := ∃ s, encode s = bs

/-! ## Texts in pieces -/

/-- A sequence does not continue with a byte below 0x80, nor end as a character below it. -/
structure Pending.Wide (p : Pending) : Prop where
  low : 0x80 ≤ p.low
  bits : 2 ≤ p.bits * 64 + (p.low - 0x80)
  last : p.missing = 1 → 0x80 ≤ p.bits * 64 + (p.low - 0x80)

theorem lead?_wide {b : ℕ} {p : Pending} (h : lead? b = some p) : p.Wide := by
  unfold lead? at h
  split_ifs at h <;> simp only [Option.some.injEq] at h <;> subst h <;>
    refine ⟨?_, ?_, fun hlast => ?_⟩ <;> dsimp only at * <;> omega

theorem first_wide (b : UInt8) : ∀ p ∈ (first b).2, p.Wide := by
  intro p hp
  unfold first at hp
  split at hp
  · exact absurd hp (by simp)
  · split at hp
    next p' hlead =>
      obtain rfl := Option.some.inj hp
      exact lead?_wide hlead
    next => exact absurd hp (by simp)

theorem step_wide {q : Option Pending} (hq : ∀ p ∈ q, p.Wide) (b : UInt8) :
    ∀ p ∈ (step q b).2, p.Wide := by
  intro p hp
  cases q with
  | none => exact first_wide b p hp
  | some r =>
    obtain ⟨hlow, hbits, -⟩ := hq r rfl
    simp only [step] at hp
    split at hp
    next hb =>
      split at hp
      · exact absurd hp (by simp)
      · obtain rfl := Option.some.inj hp
        refine ⟨Nat.le_refl _, ?_, fun _ => ?_⟩ <;> dsimp only <;> omega
    next => exact first_wide b p hp

/-- A byte below 0x80 breaks off what came before it. -/
theorem step_ascii {q : Option Pending} (hq : ∀ p ∈ q, p.Wide) {b : UInt8}
    (h : b.toNat < 0x80) : step q b = (flush q ++ [charOf b.toNat], none) := by
  have hfirst : first b = ([charOf b.toNat], none) := if_pos h
  cases q with
  | none => exact hfirst
  | some p =>
    have hlow := (hq p rfl).low
    refine (if_neg (by omega)).trans ?_
    rw [hfirst]
    rfl

/-- So it is read by itself. -/
theorem decodeFrom_ascii {q : Option Pending} (hq : ∀ p ∈ q, p.Wide) {b : UInt8}
    (h : b.toNat < 0x80) (bs : List UInt8) :
    decodeFrom q (b :: bs) = flush q ++ charOf b.toNat :: decode bs := by
  rw [decodeFrom_cons, step_ascii hq h, List.append_assoc]
  rfl

theorem decode_ascii {b : UInt8} (h : b.toNat < 0x80) (bs : List UInt8) :
    decode (b :: bs) = charOf b.toNat :: decode bs :=
  decodeFrom_ascii (q := none) (fun _ hp => absurd hp (by simp)) h bs

/-- Nor is one made of other bytes. -/
theorem charOf_wide {n : ℕ} (h : 0x80 ≤ n) : 0x80 ≤ (charOf n).toNat := by
  unfold charOf
  split
  next hvalid =>
    rw [Char.ofNat, dif_pos hvalid]
    exact h
  next => decide

theorem first_other {b : UInt8} (h : 0x80 ≤ b.toNat) : ∀ c ∈ (first b).1, 0x80 ≤ c.toNat := by
  intro c hc
  unfold first at hc
  rw [if_neg (by omega)] at hc
  split at hc
  · exact absurd hc List.not_mem_nil
  · rw [List.mem_singleton.mp hc]
    decide

theorem step_other {q : Option Pending} (hq : ∀ p ∈ q, p.Wide) {b : UInt8}
    (h : 0x80 ≤ b.toNat) : ∀ c ∈ (step q b).1, 0x80 ≤ c.toNat := by
  intro c hc
  cases q with
  | none => exact first_other h c hc
  | some p =>
    obtain ⟨hlow, -, hlast⟩ := hq p rfl
    simp only [step] at hc
    split at hc
    next hb =>
      split at hc
      next hmissing =>
        have hbits := hlast hmissing
        rw [List.mem_singleton.mp hc]
        exact charOf_wide (by omega)
      next => exact absurd hc List.not_mem_nil
    next =>
      rcases List.mem_cons.mp hc with rfl | hc
      · decide
      · exact first_other h c hc

theorem flush_other (q : Option Pending) : ∀ c ∈ flush q, 0x80 ≤ c.toNat := by
  intro c hc
  cases q with
  | none => exact absurd hc List.not_mem_nil
  | some p =>
    rw [List.mem_singleton.mp hc]
    decide

/-! ## Encoding and decoding -/

@[simp] theorem charOf_toNat (c : Char) : charOf c.toNat = c := by
  unfold charOf
  rw [if_pos (show c.toNat.isValidChar from c.valid), Char.ofNat_toNat]

/-- The byte of a number below 256. -/
theorem toNat_ofNat {n : ℕ} (h : n < 256) : (UInt8.ofNat n).toNat = n :=
  UInt8.toNat_ofNat_of_lt' h

/-- A byte that begins a sequence. -/
theorem decode_lead {b : ℕ} {p : Pending} (hb : 0x80 ≤ b) (hlt : b < 256)
    (hp : lead? b = some p) (bs : List UInt8) :
    decode (UInt8.ofNat b :: bs) = decodeFrom (some p) bs := by
  have hfirst : first (UInt8.ofNat b) = ([], some p) := by
    unfold first
    rw [toNat_ofNat hlt, if_neg (by omega), hp]
  rw [decode, decodeFrom_cons, show step none (UInt8.ofNat b) = _ from hfirst]
  rfl

/-- A byte that continues one. -/
theorem decodeFrom_next {p : Pending} {x : ℕ} (hx : x < 64) (hlow : p.low ≤ x + 0x80)
    (hhigh : x + 0x80 ≤ p.high) (hmissing : p.missing ≠ 1) (bs : List UInt8) :
    decodeFrom (some p) (UInt8.ofNat (x + 0x80) :: bs)
      = decodeFrom (some ⟨p.bits * 64 + x, p.missing - 1, 0x80, 0xbf⟩) bs := by
  have hstep : step (some p) (UInt8.ofNat (x + 0x80))
      = ([], some ⟨p.bits * 64 + x, p.missing - 1, 0x80, 0xbf⟩) := by
    simp only [step]
    rw [toNat_ofNat (by omega), if_pos ⟨hlow, hhigh⟩, if_neg hmissing, Nat.add_sub_cancel]
  rw [decodeFrom_cons, hstep]
  rfl

/-- The last byte of a sequence. -/
theorem decodeFrom_last {p : Pending} {x : ℕ} (hx : x < 64) (hlow : p.low ≤ x + 0x80)
    (hhigh : x + 0x80 ≤ p.high) (hmissing : p.missing = 1) (bs : List UInt8) :
    decodeFrom (some p) (UInt8.ofNat (x + 0x80) :: bs)
      = charOf (p.bits * 64 + x) :: decode bs := by
  have hstep : step (some p) (UInt8.ofNat (x + 0x80)) = ([charOf (p.bits * 64 + x)], none) := by
    simp only [step]
    rw [toNat_ofNat (by omega), if_pos ⟨hlow, hhigh⟩, if_pos hmissing, Nat.add_sub_cancel]
  rw [decodeFrom_cons, hstep]
  rfl

/-- The code of a character lies below 0x110000. -/
theorem toNat_lt (c : Char) : c.val.toNat < 0x110000 := by
  rcases c.valid with h | h <;> omega

/-- One character: a byte that leads and the ones that follow. -/
theorem decode_encodeChar (c : Char) (bs : List UInt8) :
    decode (String.utf8EncodeChar c ++ bs) = c :: decode bs := by
  have hlt := toNat_lt c
  have hchar : ∀ n, n = c.val.toNat → charOf n = c := fun n hn => hn ▸ charOf_toNat c
  unfold String.utf8EncodeChar
  generalize c.val.toNat = v at hlt hchar
  dsimp only
  split_ifs with h1 h2 h3
  · rw [List.singleton_append, decode_ascii (by rw [toNat_ofNat (by omega)]; omega),
      toNat_ofNat (by omega), hchar _ rfl]
  · -- two bytes
    rw [Nat.mod_eq_of_lt (show v / 64 < 32 by omega), List.cons_append, List.singleton_append,
      decode_lead (p := ⟨v / 64, 1, 0x80, 0xbf⟩) (by omega) (by omega) ?lead2,
      decodeFrom_last (by omega) (by dsimp only; omega) (by dsimp only; omega) rfl, hchar _ ?_]
    case lead2 =>
      unfold lead?
      rw [if_pos (by omega), Nat.add_sub_cancel]
    dsimp only
    omega
  · -- three bytes: a leading zero asks for more bits in the second
    have hlead : ∃ low, lead? (v / 4096 % 16 + 0xe0) = some ⟨v / 4096, 2, low, 0xbf⟩ ∧
        low ≤ v / 64 % 64 + 0x80 := by
      unfold lead?
      by_cases h0 : v / 4096 = 0
      · exact ⟨0xa0, by rw [if_neg (by omega), if_pos (by omega), h0], by omega⟩
      · refine ⟨0x80, ?_, by omega⟩
        rw [if_neg (by omega), if_neg (by omega), if_pos (by omega), Nat.add_sub_cancel,
          Nat.mod_eq_of_lt (by omega)]
    obtain ⟨low, hlead, hlow⟩ := hlead
    simp only [List.cons_append, List.nil_append]
    rw [decode_lead (by omega) (by omega) hlead,
      decodeFrom_next (by omega) hlow (by dsimp only; omega) (by simp),
      decodeFrom_last (by omega) (by dsimp only; omega) (by dsimp only; omega) rfl, hchar _ ?_]
    dsimp only
    omega
  · -- four bytes: so does a leading zero, and a leading four for fewer
    have hlead : ∃ low high, lead? (v / 262144 % 8 + 0xf0) = some ⟨v / 262144, 3, low, high⟩ ∧
        low ≤ v / 4096 % 64 + 0x80 ∧ v / 4096 % 64 + 0x80 ≤ high := by
      unfold lead?
      by_cases h0 : v / 262144 = 0
      · refine ⟨0x90, 0xbf, ?_, by omega, by omega⟩
        rw [if_neg (by omega), if_neg (by omega), if_neg (by omega), if_pos (by omega), h0]
      · by_cases h4 : v / 262144 = 4
        · refine ⟨0x80, 0x8f, ?_, by omega, by omega⟩
          rw [if_neg (by omega), if_neg (by omega), if_neg (by omega), if_neg (by omega),
            if_neg (by omega), if_pos (by omega), h4]
        · refine ⟨0x80, 0xbf, ?_, by omega, by omega⟩
          rw [if_neg (by omega), if_neg (by omega), if_neg (by omega), if_neg (by omega),
            if_pos (by omega), Nat.add_sub_cancel, Nat.mod_eq_of_lt (by omega)]
    obtain ⟨low, high, hlead, hlow, hhigh⟩ := hlead
    simp only [List.cons_append, List.nil_append]
    rw [decode_lead (by omega) (by omega) hlead, decodeFrom_next (by omega) hlow hhigh (by simp),
      decodeFrom_next (by omega) (by dsimp only; omega) (by dsimp only; omega) (by simp),
      decodeFrom_last (by omega) (by dsimp only; omega) (by dsimp only; omega) rfl, hchar _ ?_]
    dsimp only
    omega

/-- **Every text reads back.** -/
theorem decode_encode (s : List Char) : decode (encode s) = s := by
  induction s with
  | nil => rfl
  | cons c s ih =>
    rw [encode, List.flatMap_cons, decode_encodeChar, ← encode, ih]

/-- So bytes are well formed iff what they are read as is written with them. -/
theorem wellFormed_iff {bs : List UInt8} : WellFormed bs ↔ encode (decode bs) = bs := by
  constructor
  · intro h
    obtain ⟨s, rfl⟩ := h
    rw [decode_encode]
  · exact fun h => ⟨_, h⟩

/-! ## Bytes as characters -/

/-- The byte that a character below 256 stands for; no other character occurs. -/
def byte (c : Char) : UInt8 := UInt8.ofNat (min c.toNat 255)

def bytes (s : List Char) : List UInt8 := s.map byte

/-- What bytes, held as characters, are read as. -/
def read (s : List Char) : List Char := decode (bytes s)

/-- Every character is below 0x80. -/
def Ascii (s : List Char) : Prop := ∀ c ∈ s, c.toNat < 0x80

instance (s : List Char) : Decidable (Ascii s) :=
  decidable_of_iff (s.all fun c => decide (c.toNat < 0x80)) <| by simp [Ascii]

theorem byte_toNat (c : Char) : (byte c).toNat = min c.toNat 255 := toNat_ofNat (by omega)

theorem read_ascii {c : Char} (h : c.toNat < 0x80) (s : List Char) :
    read (c :: s) = c :: read s := by
  have hbyte : (byte c).toNat = c.toNat := by
    rw [byte_toNat]
    omega
  rw [read, bytes, List.map_cons, decode_ascii (by omega), hbyte, charOf_toNat]
  rfl

/-- ASCII is read as it is. -/
theorem read_append {s : List Char} (h : Ascii s) (t : List Char) :
    read (s ++ t) = s ++ read t := by
  induction s with
  | nil => rfl
  | cons c s ih =>
    obtain ⟨hc, hs⟩ := List.forall_mem_cons.mp h
    rw [List.cons_append, read_ascii hc, ih hs, List.cons_append]

theorem read_eq {s : List Char} (h : Ascii s) : read s = s := by
  have happend := read_append h []
  rwa [List.append_nil, show read [] = [] from rfl, List.append_nil] at happend

theorem wellFormed_ascii {s : List Char} (h : Ascii s) : WellFormed (bytes s) := by
  refine ⟨s, ?_⟩
  induction s with
  | nil => rfl
  | cons c s ih =>
    obtain ⟨hc, hs⟩ := List.forall_mem_cons.mp h
    have hchar : String.utf8EncodeChar c = [byte c] := by
      rw [String.utf8EncodeChar, if_pos (show c.val.toNat ≤ 0x7f from Nat.le_of_lt_succ hc), byte,
        Nat.min_eq_left (by omega)]
      rfl
    rw [encode, List.flatMap_cons, hchar, ← encode, ih hs]
    rfl

/-! ## JSON texts -/

open Json

/-- A style of bytes: it escapes characters below 0x80 with such characters, and no others. -/
structure Bytewise (st : Style) : Prop where
  escape_ascii : ∀ c, c.toNat < 0x80 → Ascii (st.escape c)
  escape_other : ∀ c, 0x80 ≤ c.toNat → st.escape c = [c]

theorem ascii_of_isBlank {c : Char} (h : isBlank c = true) : c.toNat < 0x80 := by
  simp only [isBlank, Bool.or_eq_true, decide_eq_true_eq] at h
  rcases h with ((rfl | rfl) | rfl) | rfl <;> decide

theorem ascii_of_isWordChar {c : Char} (h : isWordChar c = true) : c.toNat < 0x80 := by
  change ((decide ('A'.val ≤ c.val ∧ c.val ≤ 'Z'.val) ||
      (decide ('a'.val ≤ c.val) && decide (c.val ≤ 'z'.val)) ||
      (decide ('0'.val ≤ c.val) && decide (c.val ≤ '9'.val))) ||
    decide (c = '+') || decide (c = '-') || decide (c = '.')) = true at h
  simp only [Bool.or_eq_true, Bool.and_eq_true, decide_eq_true_eq, UInt32.le_iff_toNat_le] at h
  rcases h with ((((⟨-, h⟩ | ⟨-, h⟩) | ⟨-, h⟩) | rfl) | rfl) | rfl
  · exact Nat.lt_of_le_of_lt h (by decide)
  · exact Nat.lt_of_le_of_lt h (by decide)
  · exact Nat.lt_of_le_of_lt h (by decide)
  · decide
  · decide
  · decide

theorem read_blanks {b : List Char} (h : b.all isBlank = true) (t : List Char) :
    read (b ++ t) = b ++ read t :=
  read_append (fun _ hc => ascii_of_isBlank (List.all_eq_true.mp h _ hc)) t

section
variable {st : Style} (hst : Bytewise st)
include hst

/-- Characters that are not escaped. -/
theorem Bytewise.flatMap_escape {s : List Char} (h : ∀ c ∈ s, 0x80 ≤ c.toNat) :
    s.flatMap st.escape = s := by
  induction s with
  | nil => rfl
  | cons c s ih =>
    obtain ⟨hc, hs⟩ := List.forall_mem_cons.mp h
    rw [List.flatMap_cons, hst.escape_other c hc, ih hs, List.singleton_append]

/-- The body of a string, whatever sequence is open before it. -/
theorem Bytewise.decodeFrom_body {q : Option Pending} (hq : ∀ p ∈ q, p.Wide) (s t : List Char) :
    decodeFrom q (bytes (st.body s ++ t))
      = (decodeFrom q (bytes s)).flatMap st.escape ++ '"' :: read t := by
  have hnone : ∀ p ∈ (none : Option Pending), p.Wide := fun _ hp => absurd hp (by simp)
  induction s generalizing q with
  | nil =>
    have hquote : (byte '"').toNat < 0x80 := by decide
    have hflush := hst.flatMap_escape (flush_other q)
    show decodeFrom q (byte '"' :: bytes t) = (flush q).flatMap st.escape ++ '"' :: read t
    rw [decodeFrom_ascii hq hquote, hflush]
    rfl
  | cons c s ih =>
    have hbody : st.body (c :: s) ++ t = st.escape c ++ (st.body s ++ t) := by
      rw [Style.body, List.flatMap_cons, Style.body]
      simp only [List.append_assoc]
    have hbytes : bytes (c :: s) = byte c :: bytes s := rfl
    rw [hbody, hbytes]
    by_cases hc : c.toNat < 0x80
    · -- the escape is read by itself, and breaks off what is open
      have hescape := hst.escape_ascii c hc
      have hbyte : (byte c).toNat = c.toNat := by
        rw [byte_toNat]
        omega
      rw [decodeFrom_ascii hq (by omega), hbyte, charOf_toNat, List.flatMap_append,
        hst.flatMap_escape (flush_other q), List.flatMap_cons, List.append_assoc]
      cases hhead : st.escape c with
      | nil => exact absurd hhead (st.escape_ne_nil c)
      | cons d ds =>
        rw [hhead] at hescape
        obtain ⟨hd, hds⟩ := List.forall_mem_cons.mp hescape
        have hdbyte : (byte d).toNat = d.toNat := by
          rw [byte_toNat]
          omega
        have hrest := read_append hds (st.body s ++ t)
        show decodeFrom q (byte d :: bytes (ds ++ (st.body s ++ t))) = _
        rw [decodeFrom_ascii hq (by omega), hdbyte, charOf_toNat]
        show flush q ++ d :: read (ds ++ (st.body s ++ t)) = _
        rw [hrest, read, decode, ih hnone]
        simp only [List.cons_append, List.append_assoc]
        rfl
    · have hother : 0x80 ≤ (byte c).toNat := by
        rw [byte_toNat]
        omega
      have hchars := step_other hq hother
      rw [hst.escape_other c (by omega)]
      show decodeFrom q (byte c :: bytes (st.body s ++ t)) = _
      rw [decodeFrom_cons, decodeFrom_cons, ih (step_wide hq (byte c)), List.flatMap_append,
        hst.flatMap_escape hchars, List.append_assoc]

theorem Bytewise.read_body (s t : List Char) :
    read (st.body s ++ t) = st.body (read s) ++ read t := by
  rw [read, decode, hst.decodeFrom_body (fun _ hp => absurd hp (by simp)), Style.body,
    List.append_assoc]
  rfl

end

mutual

/-- **The text of a value is read as the text of what its strings are read as.** -/
theorem Bytewise.read_print {st : Style} (hst : Bytewise st) :
    ∀ (j : Json Token) (t : List Char),
    read (print st j ++ t) = print st (j.mapText read) ++ read t
  | .null, t => read_append (s := "null".toList) (by decide) t
  | .bool true, t => read_append (s := "true".toList) (by decide) t
  | .bool false, t => read_append (s := "false".toList) (by decide) t
  | .number x, t => read_append (fun _ hc =>
      ascii_of_isWordChar (List.all_eq_true.mp (isNumber_words x.valid) _ hc)) t
  | .string s, t => by
    rw [print, List.cons_append, read_ascii (by decide), hst.read_body, mapText, print,
      List.cons_append]
  | .array [], t => read_append (s := "[]".toList) (by decide) t
  | .array (x :: xs), t => by
    rw [print, List.cons_append, read_ascii (by decide), List.append_assoc, hst.read_print x,
      hst.read_elems xs, mapText, mapElems, print, List.cons_append, List.append_assoc]
  | .object [], t => read_append (s := ['{', '}']) (by decide) t
  | .object (m :: ms), t => by
    rw [print, List.cons_append, read_ascii (by decide), List.append_assoc, hst.read_member m,
      hst.read_members ms, mapText, mapMembers, print, List.cons_append, List.append_assoc]

theorem Bytewise.read_elems {st : Style} (hst : Bytewise st) :
    ∀ (xs : List (Json Token)) (t : List Char),
    read (printElems st xs ++ t) = printElems st (mapElems read xs) ++ read t
  | [], t => read_append (s := [']']) (by decide) t
  | x :: xs, t => by
    rw [printElems, List.cons_append, read_ascii (by decide), List.append_assoc,
      read_blanks st.comma_blank, List.append_assoc, hst.read_print x, hst.read_elems xs,
      mapElems, printElems, List.cons_append, List.append_assoc, List.append_assoc]

theorem Bytewise.read_member {st : Style} (hst : Bytewise st) :
    ∀ (m : List Char × Json Token) (t : List Char),
    read (printMember st m ++ t) = printMember st (mapMember read m) ++ read t
  | (k, x), t => by
    rw [printMember, List.cons_append, read_ascii (by decide), List.append_assoc, hst.read_body,
      List.cons_append, read_ascii (by decide), List.append_assoc, read_blanks st.colon_blank,
      hst.read_print x, mapMember, printMember, List.cons_append, List.append_assoc,
      List.cons_append, List.append_assoc]

theorem Bytewise.read_members {st : Style} (hst : Bytewise st) :
    ∀ (ms : List (List Char × Json Token)) (t : List Char),
    read (printMembers st ms ++ t) = printMembers st (mapMembers read ms) ++ read t
  | [], t => read_append (s := ['}']) (by decide) t
  | m :: ms, t => by
    rw [printMembers, List.cons_append, read_ascii (by decide), List.append_assoc,
      read_blanks st.comma_blank, List.append_assoc, hst.read_member m, hst.read_members ms,
      mapMembers, printMembers, List.cons_append, List.append_assoc, List.append_assoc]

end

/-- So decoding the bytes of a text and parsing them rewrites its strings. -/
theorem Bytewise.parse_read {st : Style} (hst : Bytewise st) (j : Json Token) :
    parse (read (print st j)) = some (j.mapText read) := by
  have hread := hst.read_print j []
  rw [List.append_nil, show read [] = [] from rfl, List.append_nil] at hread
  rw [hread, parse_print]

end FanucDriver.Lib.Utf8
