import FanucDriver.Lib.Buffer
import FanucDriver.Driver.Data

/-!
# The executing block in memory

`getMachineBlock` of `data.c` down to its buffers: `buf`, which is initialised with NULs,
and `v->block`, which is not. The block is printed with the in/out length of
`cnc_rdexecprog` as the bound, so that its last character is lost where nothing cuts it.
`copies_iff` says when it is copied whole.

`getMachineBlock_refines` ties the getter to the one on texts.
-/

namespace FanucDriver.Driver.Memory

open FanucDriver.Lib FanucDriver.Lib.Buffer

/-- The record in memory. -/
structure MachineBlock where
  executionDuration : Option ULong
  block : Buffer Char
  prgNum : Option Long
  blkNum : Option Long

/-- `malloc(sizeof *v)` -/
def MachineBlock.malloc : MachineBlock where
  executionDuration := none
  block := fresh 2048
  prgNum := none
  blkNum := none

structure BlockReply where
  clock : Clock
  /-- What `cnc_rdexecprog` delivers. `len` is its length. -/
  rdexecprog : Option { data : List Char // data.length ≤ 2047 }
  /-- `prog_no` and `blk_no` -/
  rdactpt : Except EW (Long × Long)

/-- `for (int i = 0; i < len; i++)`, with the rounds that are left. -/
def cutLoop : ℕ → Buffer Char → ℕ → Except Fault (Buffer Char)
  | 0, buf, _ => .ok buf
  | rounds + 1, buf, i => do
    let c ← buf.load i
    if c = '\n' then buf.store i '\x00' else cutLoop rounds buf (i + 1)

/-- `snprintf(dst, len, "%s", buf)` -/
def snprintf (dst : Buffer Char) (len : ℕ) (buf : Buffer Char) : Except Fault (Buffer Char) := do
  let text ← buf.readString '\x00'
  if len = 0 then return dst else dst.writeString '\x00' (text.take (len - 1))

/-- `char buf[2048] = ""` -/
def initialised : Buffer Char := cells (List.replicate 2048 '\x00')

/-- The return value, and the record it leaves of `v`. -/
def getMachineBlock (r : BlockReply) (v : MachineBlock) : Except Fault (Bool × MachineBlock) :=
  match r.rdexecprog with
  | none => return (true, v)
  | some data => do
    let buf ← initialised.copyTo 0 data.val
    let len := data.val.length
    match r.rdactpt with
    | .error .mode => store buf len { v with blkNum := some (-1), prgNum := some (-1) }
    | .ok (progNo, blkNo) => store buf len { v with blkNum := some blkNo, prgNum := some progNo }
    | .error _ => return (true, v)
where
  /-- The newline is cut, and the block is printed. -/
  store (buf : Buffer Char) (len : ℕ) (v : MachineBlock) : Except Fault (Bool × MachineBlock) := do
    let buf ← cutLoop len buf 0
    let block ← snprintf v.block len buf
    return (false, { v with block := block, executionDuration := some r.clock.tt })

/-! ## The copy -/

/-- The characters before the first newline or NUL. -/
def blockText (data : List Char) : CStr := data.takeWhile fun c => c ≠ '\n' ∧ c ≠ '\x00'

/-- What the call comes to. Where it returns 0 the block is a text, and all of it. -/
def Copies (r : BlockReply) (result : Except Fault (Bool × MachineBlock)) : Prop :=
  ∀ data, r.rdexecprog = some data → ∃ failed v, result = .ok (failed, v) ∧
    (failed = false → v.block.readString '\x00' = .ok (blockText data.val))

/-- The getter returns 0. -/
def Answers (r : BlockReply) : Prop :=
  match r.rdactpt with
  | .error .mode => True
  | .ok _ => True
  | .error _ => False

/-- The loop cuts the first newline among the characters delivered. -/
theorem cutLoop_eq (data : List Char) (pre rest : Buffer Char) :
    cutLoop data.length (pre ++ (cells data ++ rest)) pre.length
      = .ok (pre ++ (cells (cutNewline data.length data) ++ rest)) := by
  induction data generalizing pre with
  | nil => rfl
  | cons c data ih =>
    rw [List.length_cons, cutLoop, cells_cons, List.cons_append, load_value, cutNewline]
    by_cases hc : c = '\n'
    · rw [if_pos hc]
      simp only [bind, Except.bind, if_pos hc, store_append]
      rfl
    · rw [if_neg hc]
      simp only [bind, Except.bind, if_neg hc]
      have h := ih (pre ++ [some c])
      rw [List.append_assoc, List.append_assoc, List.length_append] at h
      exact h

/-- What is left of the text after the cut. -/
theorem cString_cutNewline (data : List Char) :
    cString (cutNewline data.length data) = blockText data := by
  induction data with
  | nil => rfl
  | cons c data ih =>
    rw [List.length_cons, cutNewline]
    by_cases hnl : c = '\n'
    · subst hnl
      rfl
    · rw [if_neg hnl]
      by_cases hnul : c = '\x00'
      · subst hnul
        rfl
      · have hleft : cString (c :: cutNewline data.length data)
            = c :: cString (cutNewline data.length data) :=
          List.takeWhile_cons_of_pos (decide_eq_true hnul)
        have hright : blockText (c :: data) = c :: blockText data :=
          List.takeWhile_cons_of_pos (decide_eq_true ⟨hnl, hnul⟩)
        rw [hleft, hright, ih]

/-- The text is shorter than what was delivered exactly where something cuts it. -/
theorem length_blockText (data : List Char) :
    (blockText data).length < data.length ↔ ∃ c ∈ data, c = '\n' ∨ c = '\x00' := by
  have hprefix : blockText data <+: data := List.takeWhile_prefix _
  constructor
  · intro hlt
    by_contra hnone
    have hall : blockText data = data := by
      refine List.takeWhile_eq_self_iff.mpr fun c hc => decide_eq_true ?_
      exact ⟨fun h => hnone ⟨c, hc, Or.inl h⟩, fun h => hnone ⟨c, hc, Or.inr h⟩⟩
    rw [hall] at hlt
    exact Nat.lt_irrefl _ hlt
  · intro h
    obtain ⟨c, hc, hcut⟩ := h
    refine Nat.lt_of_le_of_ne hprefix.length_le fun hlen => ?_
    have hall : blockText data = data := hprefix.eq_of_length hlen
    have hkept := List.takeWhile_eq_self_iff.mp hall c hc
    obtain ⟨hnl, hnul⟩ := of_decide_eq_true hkept
    exact hcut.elim hnl hnul

theorem nul_not_mem_blockText (data : List Char) : '\x00' ∉ blockText data := by
  intro hmem
  have hkept := List.mem_takeWhile_imp hmem
  exact absurd hkept (by decide)

/-- **What is printed**: one character less than was delivered, at most, and nothing where
nothing was delivered. -/
theorem store_eq (r : BlockReply) {data : List Char} (hlen : data.length ≤ 2047)
    {v : MachineBlock} (hv : v.block = fresh 2048) :
    ∃ v', getMachineBlock.store r
        (cells data ++ cells (List.replicate (2048 - data.length) '\x00')) data.length v
          = .ok (false, v') ∧
      v'.block.readString '\x00' = if data.length = 0 then .error .indeterminate
        else .ok ((blockText data).take (data.length - 1)) := by
  obtain ⟨n, hn⟩ : ∃ n, 2048 - data.length = n + 1 := ⟨2047 - data.length, by omega⟩
  rw [hn]
  have hcut : cutLoop data.length (cells data ++ cells (List.replicate (n + 1) '\x00')) 0
      = .ok (cells (cutNewline data.length data) ++ cells (List.replicate (n + 1) '\x00')) :=
    cutLoop_eq data [] _
  have hread : (cells (cutNewline data.length data) ++
      cells (List.replicate (n + 1) '\x00')).readString '\x00' = .ok (blockText data) := by
    rw [← cString_cutNewline]
    exact readString_takeWhile _ _
  simp only [getMachineBlock.store, snprintf, hcut, hread, hv, bind, Except.bind]
  by_cases hzero : data.length = 0
  · rw [if_pos hzero, if_pos hzero]
    exact ⟨_, rfl, readString_fresh 2047⟩
  · have hnul : '\x00' ∉ (blockText data).take (data.length - 1) :=
      fun hmem => nul_not_mem_blockText data (List.mem_of_mem_take hmem)
    have hroom : ((blockText data).take (data.length - 1)).length
        < (fresh 2048 : Buffer Char).length := by
      rw [length_fresh, List.length_take]
      omega
    rw [if_neg hzero, if_neg hzero, writeString_cells '\x00' hroom]
    exact ⟨_, rfl, readString_cells hnul _⟩

section
variable {r : BlockReply} {data : { data : List Char // data.length ≤ 2047 }}

/-- The characters delivered, in `buf`. -/
theorem copyTo_initialised (data : { data : List Char // data.length ≤ 2047 }) :
    initialised.copyTo 0 data.val
      = .ok (cells data.val ++ cells (List.replicate (2048 - data.val.length) '\x00')) := by
  obtain ⟨data, hlen⟩ := data
  have hsplit : initialised = [] ++ cells (List.replicate data.length '\x00') ++
      cells (List.replicate (2048 - data.length) '\x00') := by
    have hlen' : data.length + (2048 - data.length) = 2048 := by omega
    rw [List.nil_append, ← cells_append, List.replicate_append_replicate, hlen', initialised]
  rw [hsplit]
  exact copyTo_append [] _ _ ((length_cells _).trans List.length_replicate)

theorem getMachineBlock_answers (h : Answers r) (hdata : r.rdexecprog = some data) :
    ∃ v, getMachineBlock r .malloc = .ok (false, v) ∧
      v.block.readString '\x00' = if data.val.length = 0 then .error .indeterminate
        else .ok ((blockText data.val).take (data.val.length - 1)) := by
  simp only [getMachineBlock, hdata, copyTo_initialised, bind, Except.bind]
  unfold Answers at h
  split at h
  next hact =>
    rw [hact]
    exact store_eq r data.property rfl
  next hact =>
    rw [hact]
    exact store_eq r data.property rfl
  next => exact h.elim

theorem getMachineBlock_fails (h : ¬Answers r) (hdata : r.rdexecprog = some data) :
    getMachineBlock r .malloc = .ok (true, .malloc) := by
  simp only [getMachineBlock, hdata, copyTo_initialised, bind, Except.bind]
  unfold Answers at h
  cases hact : r.rdactpt with
  | ok pointers =>
    rw [hact] at h
    exact absurd trivial h
  | error code =>
    rw [hact] at h
    cases code with
    | mode => exact absurd trivial h
    | busy => rfl
    | data => rfl
    | other code => rfl

end

/-- **When the block is copied whole**: exactly where a newline or a NUL cuts it. -/
theorem copies_iff (r : BlockReply) :
    Copies r (getMachineBlock r .malloc) ↔
      (Answers r → ∀ data, r.rdexecprog = some data →
        ∃ c ∈ data.val, c = '\n' ∨ c = '\x00') := by
  constructor
  · intro h hanswers data hdata
    obtain ⟨v, hrun, hread⟩ := getMachineBlock_answers hanswers hdata
    obtain ⟨failed, v', hrun', hcopied⟩ := h data hdata
    rw [hrun] at hrun'
    obtain ⟨rfl, rfl⟩ := Prod.mk.inj (Except.ok.inj hrun')
    have hsame := hread.symm.trans (hcopied rfl)
    rw [← length_blockText]
    split at hsame
    next => exact nomatch hsame
    next hpos =>
      have hlen := congrArg List.length (Except.ok.inj hsame)
      rw [List.length_take] at hlen
      omega
  · intro h data hdata
    by_cases hanswers : Answers r
    · obtain ⟨v, hrun, hread⟩ := getMachineBlock_answers hanswers hdata
      refine ⟨false, v, hrun, fun _ => ?_⟩
      have hlt := (length_blockText data.val).mpr (h hanswers data hdata)
      rw [hread, if_neg (by omega), List.take_of_length_le (by omega)]
    · exact ⟨true, _, getMachineBlock_fails hanswers hdata, fun hfalse => nomatch hfalse⟩

/-- A last block without a newline. -/
def lastBlock : BlockReply where
  clock := ⟨⟨0, 0⟩, ⟨0, 0⟩⟩
  rdexecprog := some ⟨"G0X1".toList, by decide⟩
  rdactpt := .ok (1, 1)

/-- `G0X` is stored of `G0X1`. -/
theorem lastBlock_not_copied : ¬Copies lastBlock (getMachineBlock lastBlock .malloc) := by
  rw [Copies]
  intro h
  obtain ⟨v, hrun, hread⟩ := getMachineBlock_answers (r := lastBlock) trivial rfl
  obtain ⟨failed, v', hrun', hcopied⟩ := h _ rfl
  rw [hrun] at hrun'
  obtain ⟨rfl, rfl⟩ := Prod.mk.inj (Except.ok.inj hrun')
  have hsame := hread.symm.trans (hcopied rfl)
  exact absurd hsame (by decide)

/-! ## The getter on texts -/

/-- The answers, with what `v->block` held before. -/
def BlockReply.values (r : BlockReply) (mem : CStr) : Driver.BlockReply where
  clock := r.clock
  rdexecprog := r.rdexecprog.map fun data =>
    (UInt16.ofNat data.val.length,
      ⟨data.val ++ List.replicate (2048 - data.val.length) '\x00', by
        rw [List.length_append, List.length_replicate]
        have hlen := data.property
        omega⟩)
  rdactpt := r.rdactpt.map (·.2)
  mem := mem

theorem cutNewline_append (data rest : List Char) :
    cutNewline data.length (data ++ rest) = cutNewline data.length data ++ rest := by
  induction data with
  | nil => rfl
  | cons c data ih =>
    rw [List.length_cons, List.cons_append, cutNewline, cutNewline, ih]
    split <;> rfl

theorem cString_append_nul (text rest : List Char) :
    cString (text ++ '\x00' :: rest) = cString text := by
  unfold cString
  rw [List.takeWhile_append]
  split
  next h =>
    rw [List.takeWhile_cons_of_neg (by decide), List.append_nil]
    exact ((List.takeWhile_prefix _).eq_of_length h).symm
  next => rfl

/-- **Where the block is a text**, it is the one the getter on texts delivers. -/
theorem getMachineBlock_refines {r : BlockReply} {v : MachineBlock} {text : CStr}
    (hrun : getMachineBlock r .malloc = .ok (false, v))
    (hread : v.block.readString '\x00' = .ok text) (mem : CStr) :
    (Driver.getMachineBlock (r.values mem)).map (·.block) = some text := by
  cases hdata : r.rdexecprog with
  | none =>
    simp only [getMachineBlock, hdata] at hrun
    exact nomatch hrun
  | some data =>
    by_cases hanswers : Answers r
    · obtain ⟨v', hrun', hread'⟩ := getMachineBlock_answers hanswers hdata
      rw [hrun] at hrun'
      obtain ⟨-, rfl⟩ := Prod.mk.inj (Except.ok.inj hrun')
      rw [hread] at hread'
      have hlen := data.property
      have hsize : (UInt16.ofNat data.val.length).toNat = data.val.length :=
        UInt16.toNat_ofNat_of_lt' (Nat.lt_of_le_of_lt hlen (by decide))
      have hblock : Driver.snprintf mem data.val.length (cutNewline data.val.length
          (data.val ++ List.replicate (2048 - data.val.length) '\x00')) = text := by
        obtain ⟨n, hn⟩ : ∃ n, 2048 - data.val.length = n + 1 := ⟨2047 - data.val.length, by omega⟩
        unfold Driver.snprintf
        rw [cutNewline_append, hn, List.replicate_succ, cString_append_nul, cString_cutNewline]
        split at hread'
        next => exact nomatch hread'
        next hpos => rw [if_neg hpos, Except.ok.inj hread']
      unfold Answers at hanswers
      cases hact : r.rdactpt with
      | ok pointers =>
        simp [Driver.getMachineBlock, BlockReply.values, hdata, hact, hsize, hblock, Except.map]
      | error code =>
        rw [hact] at hanswers
        cases code with
        | mode =>
          simp [Driver.getMachineBlock, BlockReply.values, hdata, hact, hsize, hblock, Except.map]
        | busy => exact hanswers.elim
        | data => exact hanswers.elim
        | other code => exact hanswers.elim
    · rw [getMachineBlock_fails hanswers hdata] at hrun
      exact nomatch hrun

end FanucDriver.Driver.Memory
