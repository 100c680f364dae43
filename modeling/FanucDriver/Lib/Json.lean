import Mathlib.Data.List.Basic
import Mathlib.Data.List.TakeWhile
import Mathlib.Data.Char

/-!
# JSON values and texts

`Json N` is the tree of a JSON value over a type `N` of numbers. A text carries
its numbers as `Token`s, the character sequences of the JSON number grammar, so
`Json Token` is what a text says before anybody decides how numbers are read.

`print` writes a tree in a given `Style` (how characters are escaped, what blanks
follow a comma and a colon), `parse` reads any JSON text. A `Style` carries the
proof that its escapes read back, so there is one round trip for all of them:

> `parse (print st j) = some j`

An object may also be laid out with other blanks than its values (`Layout`), which reads back
too.

Notes:
- `parse` recurses on fuel, and takes the length of the text, which always
  suffices for a printed text (`readsBack`).
- Strings are sequences of characters; an escaped surrogate pair is one character
  and a lone surrogate is refused.
-/

namespace FanucDriver.Lib

inductive Json (N : Type) where
  | null
  | bool (b : Bool)
  | number (x : N)
  | string (s : List Char)
  | array (xs : List (Json N))
  | object (ms : List (List Char × Json N))

namespace Json

/-! ## Numbers -/

def isDigits (s : List Char) : Bool := !s.isEmpty && s.all Char.isDigit

/-- An integer part has no leading zero. -/
def isIntPart (s : List Char) : Bool := isDigits s && (s.length = 1 || s.head? ≠ some '0')

/-- An exponent, or nothing. -/
def isExponent : List Char → Bool
  | [] => true
  | e :: s =>
    (e = 'e' || e = 'E') &&
      match s with
      | '+' :: ds => isDigits ds
      | '-' :: ds => isDigits ds
      | ds => isDigits ds

/-- A fraction and an exponent, each of which may be missing. -/
def isFraction : List Char → Bool
  | '.' :: s => isDigits (s.takeWhile Char.isDigit) && isExponent (s.dropWhile Char.isDigit)
  | s => isExponent s

def isUnsigned (s : List Char) : Bool :=
  isIntPart (s.takeWhile Char.isDigit) && isFraction (s.dropWhile Char.isDigit)

/-- The number grammar. -/
def isNumber : List Char → Bool
  | '-' :: s => isUnsigned s
  | s => isUnsigned s

/-- The text of a number. -/
structure Token where
  text : List Char
  valid : isNumber text = true
  deriving DecidableEq

/-- The characters of numbers and of `null`, `true` and `false`. -/
def isWordChar (c : Char) : Bool := c.isAlphanum || c = '+' || c = '-' || c = '.'

theorem isWordChar_of_isDigit {c : Char} (h : c.isDigit = true) : isWordChar c = true := by
  simp [isWordChar, Char.isAlphanum, h]

theorem isDigits_words {s : List Char} (h : isDigits s = true) : s.all isWordChar = true := by
  simp only [isDigits, Bool.and_eq_true] at h
  exact List.all_eq_true.mpr fun c hc => isWordChar_of_isDigit (List.all_eq_true.mp h.2 c hc)

theorem isExponent_words {s : List Char} (h : isExponent s = true) : s.all isWordChar = true := by
  cases s with
  | nil => rfl
  | cons e s =>
    simp only [isExponent, Bool.and_eq_true, Bool.or_eq_true, decide_eq_true_eq] at h
    have he : isWordChar e = true := by
      rcases h.1 with rfl | rfl <;> decide
    have hs : s.all isWordChar = true := by
      split at h
      next ds => exact by simpa [isWordChar] using isDigits_words h.2
      next ds => exact by simpa [isWordChar] using isDigits_words h.2
      next => exact isDigits_words h.2
    rw [List.all_cons, he, hs]
    rfl

/-- A text whose two halves are words is a word. -/
theorem words_of_span {s : List Char} (h₁ : isDigits (s.takeWhile Char.isDigit) = true)
    (h₂ : (s.dropWhile Char.isDigit).all isWordChar = true) : s.all isWordChar = true := by
  rw [← List.takeWhile_append_dropWhile (p := Char.isDigit) (l := s), List.all_append,
    isDigits_words h₁, h₂]
  rfl

theorem isFraction_words {s : List Char} (h : isFraction s = true) : s.all isWordChar = true := by
  unfold isFraction at h
  split at h
  next s =>
    rw [Bool.and_eq_true] at h
    rw [List.all_cons, words_of_span h.1 (isExponent_words h.2)]
    rfl
  next => exact isExponent_words h

theorem isUnsigned_words {s : List Char} (h : isUnsigned s = true) : s.all isWordChar = true := by
  simp only [isUnsigned, isIntPart, Bool.and_eq_true] at h
  exact words_of_span h.1.1 (isFraction_words h.2)

/-- A number is a word that starts with a digit or a minus sign. -/
theorem isUnsigned_head {s : List Char} (h : isUnsigned s = true) :
    ∃ c t, s = c :: t ∧ c.isDigit = true := by
  simp only [isUnsigned, isIntPart, isDigits, Bool.and_eq_true] at h
  cases s with
  | nil => simp at h
  | cons c t =>
    refine ⟨c, t, rfl, ?_⟩
    by_contra hc
    simp [hc] at h

theorem isNumber_words {s : List Char} (h : isNumber s = true) : s.all isWordChar = true := by
  unfold isNumber at h
  split at h
  next s =>
    rw [List.all_cons, isUnsigned_words h]
    rfl
  next => exact isUnsigned_words h

theorem isNumber_head {s : List Char} (h : isNumber s = true) :
    ∃ c t, s = c :: t ∧ (c = '-' ∨ c.isDigit = true) := by
  unfold isNumber at h
  split at h
  next s => exact ⟨'-', s, rfl, Or.inl rfl⟩
  next =>
    obtain ⟨c, t, rfl, hc⟩ := isUnsigned_head h
    exact ⟨c, t, rfl, Or.inr hc⟩

/-! ## Integers -/

/-- The text of an integer. -/
def intText : Int → List Char
  | .ofNat n => Nat.toDigits 10 n
  | .negSucc n => '-' :: Nat.toDigits 10 (n + 1)

/-- The integer a text of digits with an optional minus sign stands for. -/
def intOf? : List Char → Option Int
  | '-' :: s => if isDigits s then some (-(Nat.ofDigitChars 10 s 0 : Int)) else none
  | s => if isDigits s then some (Nat.ofDigitChars 10 s 0) else none

theorem isDigits_toDigits (n : Nat) : isDigits (Nat.toDigits 10 n) = true := by
  simp only [isDigits, Bool.and_eq_true, Bool.not_eq_true', List.isEmpty_eq_false_iff]
  exact ⟨Nat.toDigits_ne_nil, List.all_eq_true.mpr fun c hc =>
    Nat.isDigit_of_mem_toDigits (by decide) (by decide) hc⟩

theorem toDigits_ne_minus (n : Nat) (s : List Char) : Nat.toDigits 10 n ≠ '-' :: s := by
  intro h
  have : ('-' : Char).isDigit = true :=
    Nat.isDigit_of_mem_toDigits (n := n) (b := 10) (by decide) (by decide) (by rw [h]; simp)
  exact absurd this (by decide)

/-- Integers read back. -/
@[simp] theorem intOf?_intText (n : Int) : intOf? (intText n) = some n := by
  cases n with
  | ofNat n =>
    unfold intText intOf?
    split
    next h => exact absurd h (toDigits_ne_minus n _)
    next => rw [if_pos (isDigits_toDigits n), Nat.ofDigitChars_ten_toDigits]; rfl
  | negSucc n =>
    simp only [intText, intOf?]
    rw [if_pos (isDigits_toDigits _), Nat.ofDigitChars_ten_toDigits]
    rfl

/-- Only zero is written with a leading zero. -/
theorem isIntPart_toDigits (n : Nat) : isIntPart (Nat.toDigits 10 n) = true := by
  rw [isIntPart, isDigits_toDigits, Bool.true_and, Bool.or_eq_true, decide_eq_true_eq,
    decide_eq_true_eq]
  -- the head of a longer text is the head of the text without its last digit
  induction n using Nat.strongRecOn with
  | ind n ih =>
    by_cases hn : n < 10
    · exact Or.inl (by rw [Nat.toDigits_of_lt_base hn]; rfl)
    · refine Or.inr ?_
      rw [Nat.toDigits_of_base_le (by decide) (by omega),
        List.head?_append_of_ne_nil _ Nat.toDigits_ne_nil]
      rcases ih (n / 10) (by omega) with hlen | hhead
      · -- one digit left, which is not zero
        have hlt : n / 10 < 10 := by
          have := (Nat.length_toDigits_le_iff (n := n / 10) (b := 10) (k := 1) (by decide)
            (by decide)).mp (by omega)
          simpa using this
        rw [Nat.toDigits_of_lt_base hlt, List.head?_cons, ne_eq, Option.some.injEq]
        have hpos : n / 10 ≠ 0 := by omega
        generalize n / 10 = d at hlt hpos
        revert hlt hpos
        revert d
        decide
      · exact hhead

theorem isUnsigned_toDigits (n : Nat) : isUnsigned (Nat.toDigits 10 n) = true := by
  have hall : ∀ c ∈ Nat.toDigits 10 n, c.isDigit = true := fun c hc =>
    Nat.isDigit_of_mem_toDigits (by decide) (by decide) hc
  have htake : (Nat.toDigits 10 n).takeWhile Char.isDigit = Nat.toDigits 10 n :=
    List.takeWhile_eq_self_iff.mpr hall
  have hdrop : (Nat.toDigits 10 n).dropWhile Char.isDigit = [] :=
    List.dropWhile_eq_nil_iff.mpr hall
  rw [isUnsigned, htake, hdrop, isIntPart_toDigits]
  rfl

theorem isNumber_intText (n : Int) : isNumber (intText n) = true := by
  cases n with
  | ofNat n =>
    unfold intText isNumber
    split
    next h => exact absurd h (toDigits_ne_minus n _)
    next => exact isUnsigned_toDigits n
  | negSucc n => exact isUnsigned_toDigits (n + 1)

/-- An integer as a number token. -/
def Token.ofInt (n : Int) : Token := ⟨intText n, isNumber_intText n⟩

/-! ## Strings -/

def hexVal (c : Char) : Option Nat :=
  if c.isDigit then some (c.toNat - '0'.toNat)
  else if 'a' ≤ c ∧ c ≤ 'f' then some (c.toNat - 'a'.toNat + 10)
  else if 'A' ≤ c ∧ c ≤ 'F' then some (c.toNat - 'A'.toNat + 10)
  else none

/-- Four hexadecimal digits. -/
def readHex4 : List Char → Option (Nat × List Char)
  | a :: b :: c :: d :: s => do
    let a ← hexVal a
    let b ← hexVal b
    let c ← hexVal c
    let d ← hexVal d
    some (a * 4096 + b * 256 + c * 16 + d, s)
  | _ => none

/-- What follows `\u`: one code unit, or the two of a surrogate pair. -/
def readUnicode (s : List Char) : Option (Char × List Char) := do
  let (u, s) ← readHex4 s
  if 0xD800 ≤ u ∧ u < 0xDC00 then
    match s with
    | '\\' :: 'u' :: s => do
      let (v, s) ← readHex4 s
      if 0xDC00 ≤ v ∧ v < 0xE000 then
        some (Char.ofNat (0x10000 + (u - 0xD800) * 0x400 + (v - 0xDC00)), s)
      else none
    | _ => none
  else if 0xDC00 ≤ u ∧ u < 0xE000 then none
  else some (Char.ofNat u, s)

/-- What follows a backslash. -/
def readEscape : List Char → Option (Char × List Char)
  | '"' :: s => some ('"', s)
  | '\\' :: s => some ('\\', s)
  | '/' :: s => some ('/', s)
  | 'b' :: s => some ('\x08', s)
  | 'f' :: s => some ('\x0c', s)
  | 'n' :: s => some ('\n', s)
  | 'r' :: s => some ('\r', s)
  | 't' :: s => some ('\t', s)
  | 'u' :: s => readUnicode s
  | _ => none

/-- One character of a string, which is not its closing quote. -/
def readChar : List Char → Option (Char × List Char)
  | '\\' :: s => readEscape s
  | c :: s => if c = '"' ∨ c.toNat < 0x20 then none else some (c, s)
  | [] => none

/-- A character written as `\\u` and its code, which has four digits. -/
def unicodeEscape (c : Char) : List Char :=
  ['\\', 'u', Nat.digitChar (c.toNat / 4096), Nat.digitChar (c.toNat / 256 % 16),
    Nat.digitChar (c.toNat / 16 % 16), Nat.digitChar (c.toNat % 16)]

theorem hexVal_digitChar {d : Nat} (h : d < 16) : hexVal (Nat.digitChar d) = some d := by
  revert h
  revert d
  decide

/-- A code unit, written as `\\u` and four digits. -/
def codeUnit (u : Nat) : List Char :=
  ['\\', 'u', Nat.digitChar (u / 4096), Nat.digitChar (u / 256 % 16),
    Nat.digitChar (u / 16 % 16), Nat.digitChar (u % 16)]

/-- A character outside the basic plane, written as its two surrogates. -/
def surrogatePair (c : Char) : List Char :=
  codeUnit (0xD800 + (c.toNat - 0x10000) / 0x400) ++
    codeUnit (0xDC00 + (c.toNat - 0x10000) % 0x400)

/-- The digits of a code unit read back. -/
theorem readHex4_codeUnit {u : Nat} (h : u < 0x10000) (s : List Char) :
    readHex4 ((codeUnit u ++ s).drop 2) = some (u, s) := by
  simp only [codeUnit, List.cons_append, List.nil_append, List.drop_succ_cons, List.drop_zero,
    readHex4, hexVal_digitChar (show u / 4096 < 16 by omega),
    hexVal_digitChar (show u / 256 % 16 < 16 by omega),
    hexVal_digitChar (show u / 16 % 16 < 16 by omega),
    hexVal_digitChar (show u % 16 < 16 by omega), Option.bind_eq_bind, Option.bind_some]
  rw [show u / 4096 * 4096 + u / 256 % 16 * 256 + u / 16 % 16 * 16 + u % 16 = u by omega]

/-- It reads back: no character is a surrogate. -/
theorem readChar_unicodeEscape {c : Char} (h : c.toNat < 0x10000) (s : List Char) :
    readChar (unicodeEscape c ++ s) = some (c, s) := by
  have hvalid : c.toNat < 0xD800 ∨ 0xDFFF < c.toNat ∧ c.toNat < 0x110000 := c.valid
  show readUnicode ((codeUnit c.toNat ++ s).drop 2) = _
  rw [readUnicode, readHex4_codeUnit h, Option.bind_eq_bind, Option.bind_some]
  simp only
  rw [if_neg (by omega), if_neg (by omega), Char.ofNat_toNat]

theorem readChar_surrogatePair {c : Char} (h : 0x10000 ≤ c.toNat) (s : List Char) :
    readChar (surrogatePair c ++ s) = some (c, s) := by
  have hvalid : c.toNat < 0xD800 ∨ 0xDFFF < c.toNat ∧ c.toNat < 0x110000 := c.valid
  obtain ⟨u, hu⟩ : ∃ u, u = 0xD800 + (c.toNat - 0x10000) / 0x400 := ⟨_, rfl⟩
  obtain ⟨v, hv⟩ : ∃ v, v = 0xDC00 + (c.toNat - 0x10000) % 0x400 := ⟨_, rfl⟩
  have hcode : 0x10000 + (u - 0xD800) * 0x400 + (v - 0xDC00) = c.toNat := by omega
  have hsecond : readHex4 ((codeUnit v ++ s).drop 2) = some (v, s) :=
    readHex4_codeUnit (by omega) s
  rw [surrogatePair, ← hu, ← hv, List.append_assoc]
  show readUnicode ((codeUnit u ++ (codeUnit v ++ s)).drop 2) = _
  rw [readUnicode, readHex4_codeUnit (by omega), Option.bind_eq_bind, Option.bind_some]
  simp only
  rw [if_pos (by omega)]
  show (readHex4 ((codeUnit v ++ s).drop 2)).bind _ = _
  rw [hsecond, Option.bind_some]
  simp only
  rw [if_pos (by omega), hcode, Char.ofNat_toNat]

theorem readChar_plain {c : Char} (hquote : c ≠ '"') (hslash : c ≠ '\\') (hcode : 0x20 ≤ c.toNat)
    (s : List Char) : readChar (c :: s) = some (c, s) := by
  rw [readChar, if_neg (by rintro (rfl | h) <;> [exact hquote rfl; omega])]
  exact hslash

/-- The rest of a string, up to its closing quote. -/
def readString : Nat → List Char → Option (List Char × List Char)
  | 0, _ => none
  | _ + 1, '"' :: s => some ([], s)
  | n + 1, s => do
    let (c, s) ← readChar s
    let (cs, s) ← readString n s
    some (c :: cs, s)

def isBlank (c : Char) : Bool := c = ' ' || c = '\t' || c = '\n' || c = '\r'

theorem nil_all_isBlank : ([] : List Char).all isBlank = true := rfl

theorem space_all_isBlank : [' '].all isBlank = true := rfl

/-- How a writer spells strings and separators. -/
structure Style where
  escape : Char → List Char
  /-- The blanks after a comma. -/
  comma : List Char
  /-- The blanks after a colon. -/
  colon : List Char
  escape_reads : ∀ c s, readChar (escape c ++ s) = some (c, s)
  comma_blank : comma.all isBlank = true
  colon_blank : colon.all isBlank = true

/-- The characters of a string with its closing quote. -/
def Style.body (st : Style) (s : List Char) : List Char := s.flatMap st.escape ++ ['"']

theorem Style.escape_ne_nil (st : Style) (c : Char) : st.escape c ≠ [] := by
  intro h
  have hread := st.escape_reads c []
  rw [h] at hread
  exact absurd hread (by simp [readChar])

/-- An escaped character does not start with the closing quote. -/
theorem Style.escape_ne_quote (st : Style) (c : Char) (s t : List Char) :
    st.escape c ++ s ≠ '"' :: t := by
  intro h
  have hread := st.escape_reads c s
  rw [h] at hread
  exact absurd hread (by simp [readChar])

/-- Strings read back. -/
theorem readString_body (st : Style) (s rest : List Char) {n : Nat}
    (hn : (st.body s).length ≤ n) : readString n (st.body s ++ rest) = some (s, rest) := by
  induction s generalizing n with
  | nil =>
    cases n with
    | zero => exact absurd hn (by simp [Style.body])
    | succ n => rfl
  | cons c s ih =>
    have hsplit : st.body (c :: s) = st.escape c ++ st.body s := by
      simp [Style.body, List.append_assoc]
    rw [hsplit, List.length_append] at hn
    -- a character takes one unit of fuel and at least one of the text
    have hpos : 0 < (st.escape c).length := List.length_pos_iff.mpr (st.escape_ne_nil c)
    obtain ⟨n, rfl⟩ : ∃ m, n = m + 1 := ⟨n - 1, by omega⟩
    rw [hsplit, List.append_assoc, readString]
    · have htail := ih (n := n) (by omega)
      simp only [st.escape_reads, Option.bind_eq_bind, Option.bind_some, htail]
    · exact fun t => st.escape_ne_quote c _ t

/-! ## Writing -/

mutual

/-- The text of a value. -/
def print (st : Style) : Json Token → List Char
  | .null => "null".toList
  | .bool true => "true".toList
  | .bool false => "false".toList
  | .number x => x.text
  | .string s => '"' :: st.body s
  | .array [] => "[]".toList
  | .array (x :: xs) => '[' :: (print st x ++ printElems st xs)
  | .object [] => ['{', '}']
  | .object (m :: ms) => '{' :: (printMember st m ++ printMembers st ms)

/-- The elements after the first, and the bracket. -/
def printElems (st : Style) : List (Json Token) → List Char
  | [] => [']']
  | x :: xs => ',' :: (st.comma ++ (print st x ++ printElems st xs))

def printMember (st : Style) : List Char × Json Token → List Char
  | (k, x) => '"' :: (st.body k ++ ':' :: (st.colon ++ print st x))

/-- The members after the first, and the brace. -/
def printMembers (st : Style) : List (List Char × Json Token) → List Char
  | [] => ['}']
  | m :: ms => ',' :: (st.comma ++ (printMember st m ++ printMembers st ms))

end

/-! ## Reading -/

def skipBlanks (s : List Char) : List Char := s.dropWhile isBlank

/-- A literal or a number. -/
def wordValue (w : List Char) : Option (Json Token) :=
  if w = "null".toList then some .null
  else if w = "true".toList then some (.bool true)
  else if w = "false".toList then some (.bool false)
  else if h : isNumber w = true then some (.number ⟨w, h⟩)
  else none

/-- The word a text starts with. -/
def readWord (s : List Char) : Option (Json Token × List Char) :=
  (wordValue (s.takeWhile isWordChar)).map fun j => (j, s.dropWhile isWordChar)

mutual

/-- One value, and the text after it. -/
def parseValue : Nat → List Char → Option (Json Token × List Char)
  | 0, _ => none
  | n + 1, s =>
    match skipBlanks s with
    | '"' :: s => do
      let (cs, s) ← readString n s
      some (.string cs, s)
    | '[' :: s =>
      match skipBlanks s with
      | ']' :: s => some (.array [], s)
      | s => do
        let (xs, s) ← parseElems n s
        some (.array xs, s)
    | '{' :: s =>
      match skipBlanks s with
      | '}' :: s => some (.object [], s)
      | s => do
        let (ms, s) ← parseMembers n s
        some (.object ms, s)
    | s => readWord s

/-- At least one element, and the closing bracket. -/
def parseElems : Nat → List Char → Option (List (Json Token) × List Char)
  | 0, _ => none
  | n + 1, s => do
    let (x, s) ← parseValue n s
    match skipBlanks s with
    | ']' :: s => some ([x], s)
    | ',' :: s => do
      let (xs, s) ← parseElems n s
      some (x :: xs, s)
    | _ => none

/-- At least one member, and the closing brace. -/
def parseMembers : Nat → List Char → Option (List (List Char × Json Token) × List Char)
  | 0, _ => none
  | n + 1, s =>
    match skipBlanks s with
    | '"' :: s => do
      let (k, s) ← readString n s
      match skipBlanks s with
      | ':' :: s => do
        let (x, s) ← parseValue n s
        match skipBlanks s with
        | '}' :: s => some ([(k, x)], s)
        | ',' :: s => do
          let (ms, s) ← parseMembers n s
          some ((k, x) :: ms, s)
        | _ => none
      | _ => none
    | _ => none

end

/-- The value a whole text stands for. -/
def parse (s : List Char) : Option (Json Token) := do
  let (j, rest) ← parseValue (s.length + 1) s
  if skipBlanks rest = [] then some j else none

/-! ## The round trip -/

theorem skipBlanks_cons {c : Char} (h : isBlank c = false) (s : List Char) :
    skipBlanks (c :: s) = c :: s := by
  simp [skipBlanks, h]

theorem skipBlanks_append {b : List Char} (h : b.all isBlank = true) (s : List Char) :
    skipBlanks (b ++ s) = skipBlanks s :=
  List.dropWhile_append_of_pos (List.all_eq_true.mp h)

theorem skipBlanks_skipBlanks (s : List Char) : skipBlanks (skipBlanks s) = skipBlanks s := by
  induction s with
  | nil => rfl
  | cons c s ih =>
    cases hc : isBlank c with
    | true => rwa [show skipBlanks (c :: s) = skipBlanks s by simp [skipBlanks, hc]]
    | false => rw [skipBlanks_cons hc, skipBlanks_cons hc]

/-- Blanks before a value do not matter. -/
theorem parseValue_skip (n : Nat) (s : List Char) :
    parseValue n (skipBlanks s) = parseValue n s := by
  cases n with
  | zero => rfl
  | succ n => rw [parseValue, parseValue, skipBlanks_skipBlanks]

theorem parseValue_blanks {b : List Char} (h : b.all isBlank = true) (n : Nat) (s : List Char) :
    parseValue n (b ++ s) = parseValue n s := by
  rw [← parseValue_skip, skipBlanks_append h, parseValue_skip]

theorem parseElems_blanks {b : List Char} (h : b.all isBlank = true) (n : Nat) (s : List Char) :
    parseElems n (b ++ s) = parseElems n s := by
  cases n with
  | zero => rfl
  | succ n => rw [parseElems, parseElems, parseValue_blanks h]

theorem parseMembers_blanks {b : List Char} (h : b.all isBlank = true) (n : Nat)
    (s : List Char) : parseMembers n (b ++ s) = parseMembers n s := by
  cases n with
  | zero => rfl
  | succ n => rw [parseMembers, parseMembers, skipBlanks_append h]

/-- What follows a value does not continue its last word. -/
def Ends (s : List Char) : Prop := ∀ c ∈ s.head?, isWordChar c = false

theorem readWord_append {w rest : List Char} (hw : w.all isWordChar = true) (hr : Ends rest) :
    readWord (w ++ rest) = (wordValue w).map fun j => (j, rest) := by
  have htake : (w ++ rest).takeWhile isWordChar = w := by
    rw [List.takeWhile_append_of_pos (List.all_eq_true.mp hw)]
    cases rest with
    | nil => simp
    | cons c rest => simp [hr c rfl]
  have hdrop : (w ++ rest).dropWhile isWordChar = rest := by
    rw [List.dropWhile_append_of_pos (List.all_eq_true.mp hw)]
    cases rest with
    | nil => simp
    | cons c rest => simp [hr c rfl]
  rw [readWord, htake, hdrop]

/-- A word is read as such. -/
theorem parseValue_word {w : List Char} (hw : w.all isWordChar = true) (hne : w ≠ [])
    {rest : List Char} (hr : Ends rest) {n : Nat} (hn : w.length < n) :
    parseValue n (w ++ rest) = (wordValue w).map fun j => (j, rest) := by
  obtain ⟨c, t, rfl⟩ := List.exists_cons_of_ne_nil hne
  obtain ⟨n, rfl⟩ : ∃ m, n = m + 1 := ⟨n - 1, by omega⟩
  have hc : isWordChar c = true := List.all_eq_true.mp hw c List.mem_cons_self
  have hblank : isBlank c = false := by
    by_contra h
    simp only [isBlank, Bool.not_eq_false, Bool.or_eq_true, decide_eq_true_eq] at h
    rcases h with ((rfl | rfl) | rfl) | rfl <;> exact absurd hc (by decide)
  rw [← readWord_append hw hr, List.cons_append, parseValue, skipBlanks_cons hblank]
  -- a word is not mistaken for a string, an array or an object
  split
  next h => exact absurd hc (by rw [(List.cons.inj h).1]; decide)
  next h => exact absurd hc (by rw [(List.cons.inj h).1]; decide)
  next h => exact absurd hc (by rw [(List.cons.inj h).1]; decide)
  next => rfl

theorem wordValue_number (x : Token) : wordValue x.text = some (.number x) := by
  obtain ⟨c, t, htext, hc⟩ := isNumber_head x.valid
  -- the literals start with a letter
  have hliteral : ∀ a : Char, a ≠ '-' → a.isDigit = false → ∀ l, x.text ≠ a :: l := by
    intro a hminus hdigit l h
    obtain rfl : c = a := (List.cons.inj (htext.symm.trans h)).1
    rcases hc with rfl | hc
    · exact hminus rfl
    · rw [hdigit] at hc
      exact absurd hc (by decide)
  rw [wordValue, if_neg (by simpa using hliteral 'n' (by decide) (by decide) _),
    if_neg (by simpa using hliteral 't' (by decide) (by decide) _),
    if_neg (by simpa using hliteral 'f' (by decide) (by decide) _), dif_pos x.valid]

/-- A printed value starts with a character that no blank, bracket or brace is. -/
theorem print_head (st : Style) (j : Json Token) :
    ∃ c t, print st j = c :: t ∧ isBlank c = false ∧ c ≠ ']' ∧ c ≠ '}' := by
  cases j with
  | null => exact ⟨'n', _, rfl, by decide⟩
  | bool b => cases b <;> exact ⟨_, _, rfl, by decide⟩
  | string s => exact ⟨'"', _, rfl, by decide⟩
  | array xs => cases xs <;> exact ⟨'[', _, rfl, by decide⟩
  | object ms => cases ms <;> exact ⟨'{', _, rfl, by decide⟩
  | number x =>
    obtain ⟨c, t, htext, hc⟩ := isNumber_head x.valid
    refine ⟨c, t, htext, ?_⟩
    rcases hc with rfl | hc
    · decide
    · refine ⟨?_, ?_, ?_⟩
      · by_contra h
        simp only [isBlank, Bool.not_eq_false, Bool.or_eq_true, decide_eq_true_eq] at h
        rcases h with ((rfl | rfl) | rfl) | rfl <;> exact absurd hc (by decide)
      · rintro rfl; exact absurd hc (by decide)
      · rintro rfl; exact absurd hc (by decide)

theorem ends_cons {c : Char} (h : isWordChar c = false) (s : List Char) : Ends (c :: s) := by
  intro d hd
  obtain rfl : c = d := Option.some.inj hd
  exact h

theorem ends_printElems (st : Style) (xs : List (Json Token)) (rest : List Char) :
    Ends (printElems st xs ++ rest) := by
  cases xs <;> exact ends_cons (by decide) _

theorem ends_printMembers (st : Style) (ms : List (List Char × Json Token)) (rest : List Char) :
    Ends (printMembers st ms ++ rest) := by
  cases ms with
  | nil => exact ends_cons (by decide) _
  | cons m ms => exact ends_cons (by decide) _

/-- What reading with fuel `n` makes of printed values, elements and members. -/
structure ReadsBack (st : Style) (n : Nat) : Prop where
  value : ∀ (j : Json Token) (rest : List Char), (print st j).length < n → Ends rest →
    parseValue n (print st j ++ rest) = some (j, rest)
  elems : ∀ (x : Json Token) (xs : List (Json Token)) (rest : List Char),
    (print st x ++ printElems st xs).length < n →
    parseElems n (print st x ++ printElems st xs ++ rest) = some (x :: xs, rest)
  members : ∀ (m : List Char × Json Token) (ms : List (List Char × Json Token))
    (rest : List Char), (printMember st m ++ printMembers st ms).length < n →
    parseMembers n (printMember st m ++ printMembers st ms ++ rest) = some (m :: ms, rest)

/-- A printed value reads back when its elements and members do. -/
theorem ReadsBack.value_succ {st : Style} {n : Nat} (h : ReadsBack st n) (j : Json Token)
    (rest : List Char) (hn : (print st j).length < n + 1) (hr : Ends rest) :
    parseValue (n + 1) (print st j ++ rest) = some (j, rest) := by
  match j with
  | .null => exact parseValue_word (w := "null".toList) (by decide) (by decide) hr hn
  | .bool true => exact parseValue_word (w := "true".toList) (by decide) (by decide) hr hn
  | .bool false => exact parseValue_word (w := "false".toList) (by decide) (by decide) hr hn
  | .number x =>
    obtain ⟨c, t, htext, -⟩ := isNumber_head x.valid
    rw [print, parseValue_word (isNumber_words x.valid) (by rw [htext]; simp) hr hn,
      wordValue_number, Option.map_some]
  | .string s =>
    rw [print, List.length_cons] at hn
    rw [print, List.cons_append, parseValue, skipBlanks_cons (by decide)]
    simp only [readString_body st s rest (n := n) (by omega), Option.bind_eq_bind,
      Option.bind_some]
  | .array [] => rfl
  | .array (x :: xs) =>
    rw [print, List.length_cons] at hn
    have helems := h.elems x xs rest (by omega)
    -- the first element does not close the array
    obtain ⟨c, t, hhead, hblank, hbracket, -⟩ := print_head st x
    rw [hhead, List.cons_append, List.cons_append] at helems
    rw [print, List.cons_append, parseValue, skipBlanks_cons (by decide)]
    simp only
    rw [hhead, List.cons_append, List.cons_append, skipBlanks_cons hblank]
    split
    next heq => exact absurd (List.cons.inj heq).1 hbracket
    next => simp only [helems, Option.bind_eq_bind, Option.bind_some]
  | .object [] => rfl
  | .object (m :: ms) =>
    rw [print, List.length_cons] at hn
    have hmembers := h.members m ms rest (by omega)
    -- a member starts with its quoted name
    obtain ⟨t, hhead⟩ : ∃ t, printMember st m ++ printMembers st ms ++ rest = '"' :: t := by
      obtain ⟨k, x⟩ := m
      exact ⟨_, rfl⟩
    rw [hhead] at hmembers
    rw [print, List.cons_append, parseValue, skipBlanks_cons (by decide)]
    simp only
    rw [hhead, skipBlanks_cons (by decide)]
    split
    next heq => exact absurd (List.cons.inj heq).1 (by decide)
    next => simp only [hmembers, Option.bind_eq_bind, Option.bind_some]

theorem ReadsBack.elems_succ {st : Style} {n : Nat} (h : ReadsBack st n) (x : Json Token)
    (xs : List (Json Token)) (rest : List Char)
    (hn : (print st x ++ printElems st xs).length < n + 1) :
    parseElems (n + 1) (print st x ++ printElems st xs ++ rest) = some (x :: xs, rest) := by
  rw [List.length_append] at hn
  have hpos : 0 < (printElems st xs).length := by cases xs <;> simp [printElems]
  have hvalue := h.value x (printElems st xs ++ rest) (by omega) (ends_printElems st xs rest)
  rw [parseElems, List.append_assoc]
  simp only [hvalue, Option.bind_eq_bind, Option.bind_some]
  match xs with
  | [] => rfl
  | y :: ys =>
    simp only [printElems, List.length_cons, List.length_append] at hn
    have hrest := h.elems y ys rest (by rw [List.length_append]; omega)
    rw [printElems, List.cons_append, skipBlanks_cons (by decide)]
    simp only [List.append_assoc, parseElems_blanks st.comma_blank] at hrest ⊢
    simp only [hrest, Option.bind_some]

theorem ReadsBack.members_succ {st : Style} {n : Nat} (h : ReadsBack st n)
    (m : List Char × Json Token) (ms : List (List Char × Json Token)) (rest : List Char)
    (hn : (printMember st m ++ printMembers st ms).length < n + 1) :
    parseMembers (n + 1) (printMember st m ++ printMembers st ms ++ rest)
      = some (m :: ms, rest) := by
  obtain ⟨k, x⟩ := m
  simp only [printMember, List.length_append, List.length_cons] at hn
  have hvalue := h.value x (printMembers st ms ++ rest) (by omega) (ends_printMembers st ms rest)
  have hkey := readString_body st k (':' :: (st.colon ++ (print st x ++
    (printMembers st ms ++ rest)))) (n := n) (by omega)
  rw [parseMembers, printMember, List.cons_append, List.cons_append, skipBlanks_cons (by decide)]
  simp only [List.append_assoc, List.cons_append, hkey, Option.bind_eq_bind, Option.bind_some,
    skipBlanks_cons (show isBlank ':' = false by decide), parseValue_blanks st.colon_blank, hvalue]
  match ms with
  | [] => rfl
  | m' :: ms =>
    simp only [printMembers, List.length_cons, List.length_append] at hn
    have hrest := h.members m' ms rest (by rw [List.length_append]; omega)
    rw [printMembers, List.cons_append, skipBlanks_cons (by decide)]
    simp only [List.append_assoc, parseMembers_blanks st.comma_blank] at hrest ⊢
    simp only [hrest, Option.bind_some]

/-- The text of a string is longer than the string. -/
theorem length_lt_print_string (st : Style) (s : List Char) :
    s.length < (print st (.string s)).length := by
  have hbody : s.length ≤ (s.flatMap st.escape).length := by
    induction s with
    | nil => exact Nat.le_refl _
    | cons c s ih =>
      have hpos : 0 < (st.escape c).length := List.length_pos_iff.mpr (st.escape_ne_nil c)
      rw [List.flatMap_cons, List.length_append, List.length_cons]
      omega
  rw [print, Style.body, List.length_cons, List.length_append]
  omega

theorem readsBack (st : Style) (n : Nat) : ReadsBack st n := by
  -- on the fuel: what is inside a value is read with one unit less
  induction n with
  | zero => exact ⟨fun _ _ hn => absurd hn (Nat.not_lt_zero _),
      fun _ _ _ hn => absurd hn (Nat.not_lt_zero _), fun _ _ _ hn => absurd hn (Nat.not_lt_zero _)⟩
  | succ n ih => exact ⟨ih.value_succ, ih.elems_succ, ih.members_succ⟩

/-- **The round trip**: a printed text stands for the value it was printed from. -/
theorem parse_print (st : Style) (j : Json Token) : parse (print st j) = some j := by
  have hvalue := (readsBack st _).value j [] (Nat.lt_succ_self _) (by intro c hc; simp at hc)
  rw [List.append_nil] at hvalue
  simp only [parse, hvalue, Option.bind_eq_bind, Option.bind_some]
  rfl

/-! ## Objects in another layout -/

/-- The blanks around the parts of an object. -/
structure Layout where
  /-- Before a colon. -/
  before : List Char
  /-- After a colon. -/
  after : List Char
  /-- After a comma. -/
  comma : List Char
  before_blank : before.all isBlank = true
  after_blank : after.all isBlank = true
  comma_blank : comma.all isBlank = true

namespace Layout

def member (l : Layout) (st : Style) (m : List Char × Json Token) : List Char :=
  '"' :: (st.body m.1 ++ (l.before ++ ':' :: (l.after ++ print st m.2)))

/-- The members after the first, and the brace. -/
def members (l : Layout) (st : Style) : List (List Char × Json Token) → List Char
  | [] => ['}']
  | m :: ms => ',' :: (l.comma ++ (l.member st m ++ l.members st ms))

/-- An object in a layout of its own; the values of its members are in the style. -/
def object (l : Layout) (st : Style) : List (List Char × Json Token) → List Char
  | [] => ['{', '}']
  | m :: ms => '{' :: (l.member st m ++ l.members st ms)

theorem ends_members (l : Layout) (st : Style) (ms : List (List Char × Json Token))
    (rest : List Char) : Ends (l.members st ms ++ rest) := by
  cases ms with
  | nil => exact ends_cons (by decide) _
  | cons m ms => exact ends_cons (by decide) _

/-- The first member, with what follows it. -/
theorem parseMembers_member (l : Layout) (st : Style) (k : List Char) (x : Json Token)
    {rest : List Char} {n : Nat} (hn : (l.member st (k, x)).length ≤ n) (hr : Ends rest) :
    parseMembers (n + 1) (l.member st (k, x) ++ rest) =
      match skipBlanks rest with
      | '}' :: s => some ([(k, x)], s)
      | ',' :: s => do
        let (ms, s) ← parseMembers n s
        some ((k, x) :: ms, s)
      | _ => none := by
  simp only [member, List.length_append, List.length_cons] at hn
  have hvalue := (readsBack st n).value x rest (by omega) hr
  have hkey := readString_body st k (l.before ++ ':' :: (l.after ++ (print st x ++ rest)))
    (n := n) (by omega)
  rw [parseMembers, member, List.cons_append, skipBlanks_cons (by decide)]
  simp only [List.append_assoc, List.cons_append, hkey, Option.bind_eq_bind, Option.bind_some,
    skipBlanks_append l.before_blank, skipBlanks_cons (show isBlank ':' = false by decide),
    parseValue_blanks l.after_blank, hvalue]

theorem parseMembers_members (l : Layout) (st : Style) (m : List Char × Json Token)
    (ms : List (List Char × Json Token)) (rest : List Char) {n : Nat}
    (hn : (l.member st m ++ l.members st ms).length < n) :
    parseMembers n (l.member st m ++ l.members st ms ++ rest) = some (m :: ms, rest) := by
  induction ms generalizing m n with
  | nil =>
    obtain ⟨k, x⟩ := m
    obtain ⟨n, rfl⟩ : ∃ i, n = i + 1 := ⟨n - 1, by omega⟩
    rw [List.length_append] at hn
    rw [List.append_assoc, l.parseMembers_member st k x (by omega) (l.ends_members st [] rest)]
    rfl
  | cons m' ms ih =>
    obtain ⟨k, x⟩ := m
    obtain ⟨n, rfl⟩ : ∃ i, n = i + 1 := ⟨n - 1, by omega⟩
    rw [List.length_append] at hn
    rw [List.append_assoc,
      l.parseMembers_member st k x (by omega) (l.ends_members st (m' :: ms) rest)]
    simp only [members, List.length_append, List.length_cons] at hn
    have hrest := ih m' (n := n) (by rw [List.length_append]; omega)
    rw [members, List.cons_append, skipBlanks_cons (by decide)]
    simp only [List.append_assoc, parseMembers_blanks l.comma_blank] at hrest ⊢
    simp only [hrest, Option.bind_eq_bind, Option.bind_some]

/-- **The round trip** of an object in a layout. -/
theorem parse_object (l : Layout) (st : Style) (ms : List (List Char × Json Token)) :
    parse (l.object st ms) = some (.object ms) := by
  cases ms with
  | nil => rfl
  | cons m ms =>
    have hmembers := l.parseMembers_members st m ms [] (Nat.lt_succ_self _)
    obtain ⟨t, hhead⟩ : ∃ t, l.member st m ++ l.members st ms = '"' :: t := ⟨_, rfl⟩
    rw [List.append_nil, hhead] at hmembers
    rw [parse, object, hhead, List.length_cons, parseValue, skipBlanks_cons (by decide)]
    simp only [skipBlanks_cons (show isBlank '"' = false by decide)]
    split
    next heq => exact absurd (List.cons.inj heq).1 (by decide)
    next =>
      simp only [hmembers, Option.bind_eq_bind, Option.bind_some]
      rfl

end Layout

/-! ## Rewriting the texts of a value -/

variable {N : Type}

mutual

/-- Every string and every name of a value, rewritten. -/
def mapText (f : List Char → List Char) : Json N → Json N
  | .null => .null
  | .bool b => .bool b
  | .number x => .number x
  | .string s => .string (f s)
  | .array xs => .array (mapElems f xs)
  | .object ms => .object (mapMembers f ms)

def mapElems (f : List Char → List Char) : List (Json N) → List (Json N)
  | [] => []
  | x :: xs => mapText f x :: mapElems f xs

def mapMember (f : List Char → List Char) : List Char × Json N → List Char × Json N
  | (k, x) => (f k, mapText f x)

def mapMembers (f : List Char → List Char) :
    List (List Char × Json N) → List (List Char × Json N)
  | [] => []
  | m :: ms => mapMember f m :: mapMembers f ms

end

theorem mapElems_eq (f : List Char → List Char) (xs : List (Json N)) :
    mapElems f xs = xs.map (mapText f) := by
  induction xs with
  | nil => rfl
  | cons x xs ih => rw [mapElems, ih, List.map_cons]

theorem mapMembers_eq (f : List Char → List Char) (ms : List (List Char × Json N)) :
    mapMembers f ms = ms.map fun m => (f m.1, mapText f m.2) := by
  induction ms with
  | nil => rfl
  | cons m ms ih =>
    obtain ⟨k, x⟩ := m
    rw [mapMembers, ih, List.map_cons, mapMember]

end Json

end FanucDriver.Lib
