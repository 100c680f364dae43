import FanucDriver.Lib.Buffer
import FanucDriver.Driver.Uploads

/-!
# The upload loop in memory

`getMachineProgramContents` of `data.c` once more, down to its buffers: the local
`buf`, the in/out length of `cnc_upload4`, and the block that `malloc` and `realloc`
grow by each chunk. `assembles_iff` says exactly when the program is assembled: where
every block asked for is granted. A refused block is a null pointer, and the loop
writes through it.

`getMachineProgramContents_refines` ties the loop to the one on byte lists.

Mirroring notes:
- `offset`, `len` and `s` are natural numbers: a block that was granted is smaller than
  2^31, and `offset` is smaller than the block.
- The answers of `malloc` and `realloc` are read off the size, as no two requests of a
  call are of one size.
- The terminator is written before the chunk, as in the source.
-/

namespace FanucDriver.Driver.Memory

open FanucDriver.Lib FanucDriver.Lib.Buffer

/-! ## The heap -/

/-- The sizes `malloc` and `realloc` grant. -/
structure Allocator where
  grants : ℕ → Bool
  /-- No object is larger than `PTRDIFF_MAX`. -/
  bounded : ∀ n, grants n = true → n < 2 ^ 31

/-- A block, or a null pointer. -/
abbrev Pointer := Option (Buffer Char)

def Allocator.malloc (alloc : Allocator) (n : ℕ) : Pointer :=
  if alloc.grants n then some (fresh n) else none

def Allocator.realloc (alloc : Allocator) (block : Buffer Char) (n : ℕ) : Pointer :=
  if alloc.grants n then some (block.resize n) else none

/-- The block a pointer refers to. -/
def Pointer.deref (p : Pointer) : Except Fault (Buffer Char) :=
  match p with
  | none => .error .null
  | some block => .ok block

/-! ## `cnc_upload4` -/

/-- An answer: `EW_BUFFER`, with what it leaves in the length, or `EW_OK` with the
characters at hand. -/
inductive Upload4 where
  | buffer (len : ℕ)
  | ok (data : List Char)

/-- The length and the buffer it leaves. It delivers no more than it was asked for. -/
def cnc_upload4 (reply : Upload4) (len : ℕ) (buf : Buffer Char) :
    Except Fault (ℕ × Buffer Char) :=
  match reply with
  | .buffer len => .ok (len, buf)
  | .ok data => (buf.copyTo 0 (data.take len)).map fun buf => ((data.take len).length, buf)

/-! ## `getMachineProgramContents` -/

/-- `long chunk = 1280` -/
def chunk : ℕ := 1280

/-- The locals of the loop. -/
structure Locals where
  prog : Pointer
  offset : ℕ
  buf : Buffer Char
  len : ℕ

/-- `char buf[2048] = ""` -/
def Locals.init : Locals where
  prog := none
  offset := 0
  buf := cells (List.replicate 2048 '\x00')
  len := 0

/-- The body of `if (len > 0)`. -/
def appendChunk (alloc : Allocator) (v : Locals) : Except Fault Locals := do
  let s := v.offset + v.len
  let prog := match v.prog with
    | none => alloc.malloc (s + 1)
    | some prog => alloc.realloc prog (s + 1)
  let prog ← (← Pointer.deref prog).store s '\x00'
  let prog ← prog.copyTo v.offset (← v.buf.loadMany v.len)
  return { v with prog := some prog, offset := v.offset + v.len }

/-- One round of the `do … while`. -/
def upload4Round (alloc : Allocator) (reply : Upload4) (v : Locals) : Except Fault Locals := do
  let (len, buf) ← cnc_upload4 reply chunk v.buf
  let v := { v with len := len, buf := buf }
  match reply with
  | .buffer _ => return v
  | .ok _ => if 0 < v.len then appendChunk alloc v else return v

/-- The `do … while`, up to the answer that ends it. -/
def upload4Loop (alloc : Allocator) : List Upload4 → Locals → Except Fault Locals
  | [], v => .ok v
  | reply :: replies, v => do upload4Loop alloc replies (← upload4Round alloc reply v)

structure ContentsReply where
  clock : Clock
  upstart4 : Except EW Unit
  upload4 : List Upload4
  upload4End : EW
  upend4 : Except EW Unit

structure MachineProgramContents where
  executionDuration : ULong
  size : Long
  contents : Pointer

/-- The return value, and the record it leaves of `v`. -/
def getMachineProgramContents (alloc : Allocator) (r : ContentsReply)
    (v : MachineProgramContents) : Except Fault (Bool × MachineProgramContents) := do
  let l ← upload4Loop alloc r.upload4 .init
  match r.upend4 with
  | .error _ => return (true, v)
  | .ok () =>
    return (false,
      { executionDuration := r.clock.tt
        size := Int32.ofNat (l.offset + 1)
        contents := l.prog })

/-! ## What was received -/

/-- What one answer delivers. -/
def Upload4.bytes : Upload4 → List Char
  | .buffer _ => []
  | .ok data => data.take chunk

/-- The chunks in order. -/
def received (replies : List Upload4) : List Char := replies.flatMap Upload4.bytes

/-- The sizes the loop asks for, after `offset` bytes. -/
def requests : ℕ → List Upload4 → List ℕ
  | _, [] => []
  | offset, reply :: replies =>
    if reply.bytes = [] then requests offset replies
    else (offset + reply.bytes.length + 1) :: requests (offset + reply.bytes.length) replies

/-- The block after some bytes: these and the terminator, in as many cells. -/
def heldBlock (bytes : List Char) : Pointer :=
  if bytes = [] then none else some (cells (bytes ++ ['\x00']))

/-- What the call comes to. -/
def Assembles (r : ContentsReply) (v : MachineProgramContents)
    (result : Except Fault (Bool × MachineProgramContents)) : Prop :=
  match r.upend4 with
  | .error _ => result = .ok (true, v)
  | .ok () => ∃ v', result = .ok (false, v') ∧
    v'.size.toInt = (received r.upload4).length + 1 ∧
    v'.contents = heldBlock (received r.upload4)

/-! ## The invariant -/

/-- The locals after some bytes. -/
structure Holds (v : Locals) (bytes : List Char) : Prop where
  prog : v.prog = heldBlock bytes
  offset : v.offset = bytes.length
  buf : v.buf.length = 2048

theorem holds_init : Holds .init [] where
  prog := rfl
  offset := rfl
  buf := (length_cells _).trans List.length_replicate

/-- The answer in `buf`. -/
theorem cnc_upload4_ok {data : List Char} {buf : Buffer Char} (hbuf : buf.length = 2048) :
    cnc_upload4 (.ok data) chunk buf
      = .ok ((data.take chunk).length,
          cells (data.take chunk) ++ buf.drop (data.take chunk).length) := by
  have hlen : (data.take chunk).length ≤ 1280 := List.length_take_le _ _
  have hroom : 0 + (data.take chunk).length ≤ buf.length := by omega
  unfold cnc_upload4 copyTo
  dsimp only
  rw [if_pos hroom, Nat.zero_add]
  rfl

/-- The block that was granted: the old bytes, as many cells as the chunk needs, and one
for the terminator. -/
theorem granted_block {alloc : Allocator} {bytes : List Char} {n : ℕ}
    (h : alloc.grants (bytes.length + (n + 1) + 1) = true) :
    ∃ mid : Buffer Char, mid.length = n + 1 ∧
      (match heldBlock bytes with
        | none => alloc.malloc (bytes.length + (n + 1) + 1)
        | some prog => alloc.realloc prog (bytes.length + (n + 1) + 1))
      = some (cells bytes ++ mid ++ [none]) := by
  unfold heldBlock
  split
  next hprog =>
    split at hprog
    next hnil =>
      subst hnil
      refine ⟨fresh (n + 1), length_fresh _, ?_⟩
      rw [Allocator.malloc, if_pos h]
      simp [fresh, List.replicate_succ']
    next => exact absurd hprog (Option.some_ne_none _)
  next prog hprog =>
    split at hprog
    next => exact absurd hprog.symm (Option.some_ne_none _)
    next =>
      obtain rfl := Option.some.inj hprog
      refine ⟨some '\x00' :: fresh n, by simp, ?_⟩
      rw [Allocator.realloc, if_pos h, resize_of_le (by simp)]
      have hrest : bytes.length + (n + 1) + 1 - (cells (bytes ++ ['\x00'])).length = n + 1 := by
        simp
      rw [hrest, fresh, List.replicate_succ']
      simp [fresh]

/-- Writing the chunk behind the old bytes, where the block was granted. -/
theorem appendChunk_granted {alloc : Allocator} (v : Locals) {bytes data : List Char}
    {rest : Buffer Char} (hprog : v.prog = heldBlock bytes) (hoffset : v.offset = bytes.length)
    (hlen : v.len = data.length) (hbuf : v.buf = cells data ++ rest) (hne : data ≠ [])
    (h : alloc.grants (bytes.length + data.length + 1) = true) :
    appendChunk alloc v = .ok { v with
      prog := heldBlock (bytes ++ data), offset := (bytes ++ data).length } := by
  obtain ⟨c, data, rfl⟩ := List.exists_cons_of_ne_nil hne
  rw [List.length_cons] at h hlen
  obtain ⟨mid, hmid, hblock⟩ := granted_block h
  have hheld : heldBlock (bytes ++ c :: data)
      = some (cells bytes ++ cells (c :: data) ++ [some '\x00']) := by
    unfold heldBlock
    rw [if_neg (by simp)]
    simp
  have hstore : Buffer.store (cells bytes ++ mid ++ [none]) (bytes.length + (data.length + 1))
      '\x00' = .ok (cells bytes ++ mid ++ [some '\x00']) := by
    have hat : bytes.length + (data.length + 1) = (cells bytes ++ mid).length := by simp [hmid]
    rw [hat]
    exact store_append _ none [] _
  have hload : v.buf.loadMany v.len = .ok (c :: data) := by
    rw [hbuf, hlen]
    exact loadMany_cells (c :: data) rest
  have hcopy : Buffer.copyTo (cells bytes ++ mid ++ [some '\x00']) bytes.length (c :: data)
      = .ok (cells bytes ++ cells (c :: data) ++ [some '\x00']) := by
    rw [← length_cells bytes]
    exact copyTo_append _ mid _ (hmid.trans (List.length_cons).symm)
  unfold appendChunk
  rw [hprog, hoffset, hlen] at *
  simp only [hblock, Pointer.deref, bind, Except.bind, hstore, hload, hcopy]
  rw [hheld, List.length_append, List.length_cons]
  rfl

/-- A refused block is written through. -/
theorem appendChunk_refused {alloc : Allocator} {v : Locals}
    (h : ¬alloc.grants (v.offset + v.len + 1) = true) : appendChunk alloc v = .error .null := by
  unfold appendChunk
  cases v.prog with
  | none =>
    simp only [Allocator.malloc, if_neg h]
    rfl
  | some prog =>
    simp only [Allocator.realloc, if_neg h]
    rfl

/-- **One round** appends what the answer delivers, where the block it takes is granted. -/
theorem Holds.round {alloc : Allocator} {v : Locals} {bytes : List Char} (h : Holds v bytes)
    {reply : Upload4}
    (hgrants : reply.bytes ≠ [] → alloc.grants (bytes.length + reply.bytes.length + 1) = true) :
    ∃ v', upload4Round alloc reply v = .ok v' ∧ Holds v' (bytes ++ reply.bytes) := by
  cases reply with
  | buffer len =>
    refine ⟨{ v with len := len }, rfl, ?_⟩
    rw [show (Upload4.buffer len).bytes = [] from rfl, List.append_nil]
    exact ⟨h.prog, h.offset, h.buf⟩
  | ok data =>
    have hbytes : (Upload4.ok data).bytes = data.take chunk := rfl
    rw [hbytes] at hgrants ⊢
    have hroom : (data.take chunk).length ≤ 1280 := List.length_take_le _ _
    have hbuf : (cells (data.take chunk) ++ v.buf.drop (data.take chunk).length).length = 2048 := by
      rw [List.length_append, length_cells, List.length_drop, h.buf]
      omega
    simp only [upload4Round, cnc_upload4_ok h.buf, bind, Except.bind]
    by_cases hnil : data.take chunk = []
    · rw [hnil, List.append_nil]
      exact ⟨_, if_neg (Nat.lt_irrefl 0), h.prog, h.offset, hnil ▸ hbuf⟩
    · have happend := appendChunk_granted
        { v with
          len := (data.take chunk).length
          buf := cells (data.take chunk) ++ v.buf.drop (data.take chunk).length }
        h.prog h.offset rfl rfl hnil (hgrants hnil)
      rw [if_pos (List.length_pos_of_ne_nil hnil), happend]
      exact ⟨_, rfl, rfl, rfl, hbuf⟩

theorem Holds.round_refused {alloc : Allocator} {v : Locals} {bytes : List Char}
    (h : Holds v bytes) {reply : Upload4} (hne : reply.bytes ≠ [])
    (hgrants : ¬alloc.grants (bytes.length + reply.bytes.length + 1) = true) :
    upload4Round alloc reply v = .error .null := by
  cases reply with
  | buffer len => exact absurd rfl hne
  | ok data =>
    have hpos : 0 < (data.take chunk).length := List.length_pos_of_ne_nil hne
    simp only [upload4Round, cnc_upload4_ok h.buf, bind, Except.bind]
    rw [if_pos hpos]
    refine appendChunk_refused ?_
    dsimp only
    rw [h.offset]
    exact hgrants

/-- **The loop** holds the chunks in order, where every block is granted. -/
theorem Holds.loop {alloc : Allocator} {v : Locals} {bytes : List Char} (h : Holds v bytes)
    {replies : List Upload4}
    (hgrants : ∀ n ∈ requests bytes.length replies, alloc.grants n = true) :
    ∃ v', upload4Loop alloc replies v = .ok v' ∧ Holds v' (bytes ++ received replies) := by
  induction replies generalizing v bytes with
  | nil => exact ⟨v, rfl, (List.append_nil bytes).symm ▸ h⟩
  | cons reply replies ih =>
    rw [requests] at hgrants
    have hfirst : reply.bytes ≠ [] →
        alloc.grants (bytes.length + reply.bytes.length + 1) = true := by
      intro hne
      rw [if_neg hne] at hgrants
      exact hgrants _ List.mem_cons_self
    obtain ⟨v₁, hround, hholds⟩ := h.round hfirst
    have hrest : ∀ n ∈ requests (bytes ++ reply.bytes).length replies, alloc.grants n = true := by
      intro n hn
      rw [List.length_append] at hn
      split at hgrants
      next hnil =>
        rw [hnil] at hn
        exact hgrants n hn
      next => exact hgrants n (List.mem_cons_of_mem _ hn)
    obtain ⟨v₂, hloop, hholds₂⟩ := ih hholds hrest
    refine ⟨v₂, ?_, ?_⟩
    · simp only [upload4Loop, hround, bind, Except.bind]
      exact hloop
    · rw [received, List.flatMap_cons, ← List.append_assoc]
      exact hholds₂

/-- The first block that is refused ends the loop. -/
theorem Holds.loop_refused {alloc : Allocator} {v : Locals} {bytes : List Char} (h : Holds v bytes)
    {replies : List Upload4} {n : ℕ} (hn : n ∈ requests bytes.length replies)
    (hgrants : ¬alloc.grants n = true) : upload4Loop alloc replies v = .error .null := by
  induction replies generalizing v bytes with
  | nil => exact absurd hn List.not_mem_nil
  | cons reply replies ih =>
    by_cases hfirst : reply.bytes ≠ [] →
        alloc.grants (bytes.length + reply.bytes.length + 1) = true
    · obtain ⟨v₁, hround, hholds⟩ := h.round hfirst
      simp only [upload4Loop, hround, bind, Except.bind]
      refine ih hholds ?_
      rw [List.length_append]
      rw [requests] at hn
      split at hn
      next hnil => rwa [hnil, List.length_nil, Nat.add_zero]
      next hne =>
        rcases List.mem_cons.mp hn with rfl | hn
        · exact absurd (hfirst hne) hgrants
        · exact hn
    · obtain ⟨hne, hrefused⟩ := Classical.not_imp.mp hfirst
      simp only [upload4Loop, h.round_refused hne hrefused, bind, Except.bind]

/-- The last block is as large as what was received, and the terminator. -/
theorem mem_requests {replies : List Upload4} (hne : received replies ≠ []) (offset : ℕ) :
    offset + (received replies).length + 1 ∈ requests offset replies := by
  induction replies generalizing offset with
  | nil => exact absurd rfl hne
  | cons reply replies ih =>
    have hcons : received (reply :: replies) = reply.bytes ++ received replies := List.flatMap_cons
    rw [hcons, List.length_append, requests]
    by_cases hrest : received replies = []
    · have hfirst : reply.bytes ≠ [] := by
        intro h
        rw [hcons, h, hrest] at hne
        exact hne rfl
      rw [if_neg hfirst, hrest, List.length_nil, Nat.add_zero]
      exact List.mem_cons_self
    · have hmem := ih hrest (offset + reply.bytes.length)
      rw [Nat.add_assoc offset] at hmem
      split
      next hnil =>
        rw [hnil, List.length_nil, Nat.zero_add] at hmem ⊢
        exact hmem
      next => exact List.mem_cons_of_mem _ hmem

/-- A block that was granted has fewer than 2^31 cells, so its size is a `long`. -/
theorem size_of_granted {alloc : Allocator} {replies : List Upload4}
    (h : ∀ n ∈ requests 0 replies, alloc.grants n = true) :
    (Int32.ofNat ((received replies).length + 1)).toInt = (received replies).length + 1 := by
  have hlt : (received replies).length + 1 < 2 ^ 31 := by
    by_cases hne : received replies = []
    · rw [hne]
      decide
    · have hmem := mem_requests hne 0
      rw [Nat.zero_add] at hmem
      exact alloc.bounded _ (h _ hmem)
  rw [Int32.toInt_ofNat_of_lt hlt]
  push_cast
  rfl

/-- What the call comes to where every block is granted. -/
theorem getMachineProgramContents_granted {alloc : Allocator} {r : ContentsReply}
    (h : ∀ n ∈ requests 0 r.upload4, alloc.grants n = true) (v : MachineProgramContents) :
    getMachineProgramContents alloc r v = match r.upend4 with
      | .error _ => .ok (true, v)
      | .ok () => .ok (false,
        { executionDuration := r.clock.tt
          size := Int32.ofNat ((received r.upload4).length + 1)
          contents := heldBlock (received r.upload4) }) := by
  obtain ⟨l, hloop, hholds⟩ := holds_init.loop h
  rw [List.nil_append] at hholds
  simp only [getMachineProgramContents, hloop, bind, Except.bind, hholds.prog, hholds.offset]
  split <;> rfl

/-- Where a block is refused the call has no defined behaviour. -/
theorem not_assembles {alloc : Allocator} {r : ContentsReply} {n : ℕ}
    (hn : n ∈ requests 0 r.upload4) (hgrants : ¬alloc.grants n = true)
    (v : MachineProgramContents) : ¬Assembles r v (getMachineProgramContents alloc r v) := by
  have hfault : getMachineProgramContents alloc r v = .error .null := by
    simp only [getMachineProgramContents, holds_init.loop_refused hn hgrants, bind, Except.bind]
  rw [hfault]
  unfold Assembles
  split
  next => exact nofun
  next => exact fun ⟨_, hv', _⟩ => absurd hv' nofun

/-- **When the program is assembled**: exactly where every block the loop asks for is
granted. -/
theorem assembles_iff (alloc : Allocator) (r : ContentsReply) (v : MachineProgramContents) :
    Assembles r v (getMachineProgramContents alloc r v) ↔
      ∀ n ∈ requests 0 r.upload4, alloc.grants n = true := by
  constructor
  · intro h n hn
    by_contra hgrants
    exact not_assembles hn hgrants v h
  · intro hgrants
    rw [getMachineProgramContents_granted hgrants]
    unfold Assembles
    split
    next => rfl
    next => exact ⟨_, rfl, size_of_granted hgrants, rfl⟩

theorem length_received_replicate (n : ℕ) (reply : Upload4) :
    (received (List.replicate n reply)).length = n * reply.bytes.length := by
  induction n with
  | zero => rw [List.replicate_zero, received, List.flatMap_nil, List.length_nil, Nat.zero_mul]
  | succ n ih =>
    rw [List.replicate_succ, received, List.flatMap_cons, List.length_append, ← received, ih,
      Nat.succ_mul, Nat.add_comm]

/-- Grants what can be granted. -/
def Allocator.largest : Allocator where
  grants n := decide (n < 2 ^ 31)
  bounded _ h := of_decide_eq_true h

/-- An upload of 2^31 bytes and some more, in full chunks. -/
def hugeUpload : ContentsReply where
  clock := ⟨⟨0, 0⟩, ⟨0, 0⟩⟩
  upstart4 := .ok ()
  upload4 := List.replicate 1677722 (.ok (List.replicate 1280 'G'))
  upload4End := .other 2
  upend4 := .ok ()

/-- Before all of it was received a block is refused, and the loop writes through the
null pointer. -/
theorem hugeUpload_not_assembled :
    ¬Assembles hugeUpload { executionDuration := 0, size := 0, contents := none }
      (getMachineProgramContents .largest hugeUpload
        { executionDuration := 0, size := 0, contents := none }) := by
  have hchunk : (Upload4.ok (List.replicate 1280 'G')).bytes.length = 1280 := by
    rw [Upload4.bytes, List.length_take, List.length_replicate]
    rfl
  have hreceived : (received hugeUpload.upload4).length = 1677722 * 1280 := by
    show (received (List.replicate 1677722 _)).length = _
    rw [length_received_replicate, hchunk]
  have hne : received hugeUpload.upload4 ≠ [] := by
    rw [← List.length_pos_iff, hreceived]
    decide
  refine not_assembles (mem_requests hne 0) ?_ _
  rw [hreceived]
  decide

/-! ## The loop on byte lists -/

def Upload4.reply : Upload4 → Option { buf : List Char // buf.length ≤ 1280 }
  | .buffer _ => none
  | .ok data => some ⟨data.take chunk, List.length_take_le chunk data⟩

/-- The answers without the lengths that `EW_BUFFER` leaves. -/
def ContentsReply.values (r : ContentsReply) : Driver.ContentsReply where
  clock := r.clock
  upstart4 := r.upstart4
  upload4 := r.upload4.map Upload4.reply
  upload4End := r.upload4End
  upend4 := r.upend4

theorem bytes_values (r : ContentsReply) : r.values.bytes = received r.upload4 := by
  show (r.upload4.map Upload4.reply).flatMap _ = _
  rw [List.flatMap_map, received]
  congr 1
  funext reply
  cases reply <;> rfl

/-- **Where its blocks are granted**, the call leaves what the getter on byte lists
delivers. -/
theorem getMachineProgramContents_refines {alloc : Allocator} {r : ContentsReply}
    (h : ∀ n ∈ requests 0 r.upload4, alloc.grants n = true) (v : MachineProgramContents) :
    getMachineProgramContents alloc r v = .ok
      ((Driver.getMachineProgramContents r.values).elim (true, v) fun c =>
        (false,
          { executionDuration := c.executionDuration
            size := c.size
            contents := c.contents.map cells })) := by
  have hblock : heldBlock (received r.upload4) = (block (received r.upload4)).map cells := by
    unfold heldBlock block
    split <;> rfl
  have hloop := Driver.upload4Loop_eq r.values.upload4 []
  rw [List.nil_append, show r.values.upload4.flatMap _ = _ from bytes_values r] at hloop
  rw [getMachineProgramContents_granted h, Driver.getMachineProgramContents]
  rw [show Driver.upload4Loop r.values.upload4 none 0 = _ from hloop]
  rw [hblock, show r.values.upend4 = r.upend4 from rfl]
  cases r.upend4 <;> rfl

end FanucDriver.Driver.Memory
