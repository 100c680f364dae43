import FanucDriver.Lib.Heap
import FanucDriver.Driver.Ticks
import FanucDriver.Driver.Delivery
import FanucDriver.Driver.DeltaStreams
import Mathlib.Data.Fintype.Basic

/-!
# The records of the checks in memory

`check.c` and the loop of `main.c` once more, down to `malloc` and `free`: every check asks
for the memory of its record, most keep the record behind a static pointer and free the one
before it, and the objects of a message are built, printed and deleted in every round.

`main_memory` says what becomes of the memory:

> no run frees a block twice or reads one that was freed; it sends the messages of the model
> without memory; and in a run that has not exited one block is lost for every
> `program_size` sent, one for the axes of a machine that has none, and no other.

The record of `checkMachineProgramContents` is the one that is lost: its text is freed and
the record is not.

Mirroring notes:
- A cJSON tree is one block, held by its root. An item that is created and added at once is
  not spelled out; `cJSON_AddItemToObject` of an item with a pointer of its own makes it a part
  of the other's block.
- `realloc` moves the block.
- `malloc` does not fail here.
- A record is written once, by its getter.
- After a check that failed the process exits.
-/

namespace FanucDriver.Driver.Records

open FanucDriver.Lib

/-! ## Blocks and pointers -/

/-- The static pointers `lv` of `check.c`. -/
inductive Static where
  | info
  | partCount
  | cycleTime
  | message
  | status
  | dynamic
  | toolInfo
  | block
  deriving DecidableEq

instance : Fintype Static where
  elems := {.info, .partCount, .cycleTime, .message, .status, .dynamic, .toolInfo, .block}
  complete c := by cases c <;> decide

abbrev Static.Record : Static → Type
  | info => MachineInfo
  | partCount => MachinePartCount
  | cycleTime => MachineCycleTime
  | message => MachineMessage
  | status => MachineStatus
  | dynamic => MachineDynamic
  | toolInfo => MachineToolInfo
  | block => MachineBlock

/-- The pointers that outlive a check: the static ones, and the two objects of `main`. -/
inductive Var where
  | lv (c : Static)
  | updates
  | metaMap
  deriving DecidableEq

instance : Fintype Var where
  elems := {.updates, .metaMap} ∪ Finset.univ.image .lv
  complete x := by cases x <;> simp

inductive Block where
  /-- As `malloc` delivers it. -/
  | fresh
  | record (c : Static) (v : c.Record)
  | programName (v : MachineProgramName)
  | program (v : MachineProgram)
  | contents (size : Long) (contents : Option ℕ)
  | text (chars : List Char)
  | array
  | values (us : Updates)
  | metaMap (ms : Meta)
  /-- `obj` -/
  | message (v : Message)

/-- The memory of the process. `globals` holds the globals and the static numbers and flags;
the records and the two objects stand in the heap. -/
structure Mem where
  heap : Heap Block
  vars : Var → Option ℕ
  globals : State

/-- The record behind a static pointer. -/
def recordAt (h : Heap Block) (c : Static) (p : ℕ) : Option c.Record :=
  match h.load p with
  | some (.record d v) => if hd : d = c then some (hd ▸ v) else none
  | _ => none

def valuesAt (h : Heap Block) (p : ℕ) : Option Updates :=
  match h.load p with
  | some (.values us) => some us
  | _ => none

def metaAt (h : Heap Block) (p : ℕ) : Option Meta :=
  match h.load p with
  | some (.metaMap ms) => some ms
  | _ => none

def textAt (h : Heap Block) (p : ℕ) : Option (List Char) :=
  match h.load p with
  | some (.text chars) => some chars
  | _ => none

/-! ## The checks -/

/-- `cJSON_AddItemToObject(updates, …)` of the members, and of the duration to `meta`. -/
def publish (us : Updates) (k : MetaKey) (tt : ULong) (m : Mem) : Option Mem := do
  let updates ← m.vars .updates
  let old ← valuesAt m.heap updates
  let heap ← m.heap.store updates (.values (old ++ us))
  let metaMap ← m.vars .metaMap
  let old ← metaAt heap metaMap
  let heap ← heap.store metaMap (.metaMap (old ++ [(k, tt)]))
  return { m with heap }

/-- A cJSON item that was added to another is a part of it. -/
def adopt (h : Heap Block) (item : ℕ) : Option (Heap Block) := h.free item

/-- `if (atLeastOneAxesChanged)` the array is added; nobody else holds it. -/
def adoptAxes (h : Heap Block) (axes : ℕ) (us : Updates) : Option (Heap Block) :=
  if us = [] then some h else adopt h axes

/-- A check that keeps its record: what it adds, and what it does to the globals. -/
structure Keeps (c : Static) where
  /-- `free(v)` when the getter fails. -/
  freesOnFailure : Bool
  adds : Option c.Record → c.Record → Updates
  metaKey : MetaKey
  duration : c.Record → ULong
  globals : Option c.Record → c.Record → State → State

/-- What `lv` points to, or a null pointer. -/
def readLv (m : Mem) (c : Static) : Option (Option c.Record) :=
  match m.vars (.lv c) with
  | none => some none
  | some p => (recordAt m.heap c p).map some

/-- From `if (lv != NULL) free(lv)` to `lv = v`. -/
def replaceLv (c : Static) (v : ℕ) (m : Mem) : Option Mem := do
  let heap ← m.heap.freeNullable (m.vars (.lv c))
  return { m with heap, vars := Function.update m.vars (.lv c) (some v) }

def Keeps.check {c : Static} (k : Keeps c) (r : Option c.Record) (m : Mem) :
    Option (Bool × Mem) := do
  let (v, heap) := m.heap.malloc .fresh
  match r with
  | none =>
    let heap ← if k.freesOnFailure then heap.free v else some heap
    return (true, { m with heap })
  | some record =>
    let heap ← heap.store v (.record c record)
    let lv ← readLv { m with heap } c
    let m ← publish (k.adds lv record) k.metaKey (k.duration record) { m with heap }
    let m ← replaceLv c v m
    return (false, { m with globals := k.globals lv record m.globals })

def checkMachineInfo (r : Option (MachineInfo × (Nat → ℚ))) (m : Mem) : Option (Bool × Mem) := do
  let (v, heap) := m.heap.malloc .fresh
  match r with
  | none =>
    let heap ← heap.free v
    return (true, { m with heap })
  | some (record, divisors) =>
    let heap ← heap.store v (.record .info record)
    let lv ← readLv { m with heap } .info
    let (axes, heap) := heap.malloc .array
    let heap ← adoptAxes heap axes (axesUpdate lv record)
    let m ← publish (emit infoGuards lv record ++ axesUpdate lv record) .info
      record.executionDuration { m with heap }
    let m ← replaceLv .info v m
    return (false,
      { m with
        globals :=
          { m.globals with
            deviceID := record.id.take 127
            axisCount := record.axes_count
            divisors := divisors } })

def partCountKeeps : Keeps .partCount where
  freesOnFailure := false
  adds := emit [partCountGuard]
  metaKey := .part_count
  duration := (·.executionDuration)
  globals lv v s :=
    { s with partCount := if partCountGuard.fires lv v then v.count else s.partCount }

def cycleTimeKeeps : Keeps .cycleTime where
  freesOnFailure := false
  adds _ v := [(.cycle_time, .number v.time.toInt)]
  metaKey := .cycle_time
  duration := (·.executionDuration)
  globals _ _ s := { s with lastPartCount := s.partCount }

def statusKeeps : Keeps .status where
  freesOnFailure := true
  adds := emit statusGuards
  metaKey := .status
  duration := (·.executionDuration)
  globals _ _ s := s

def toolInfoKeeps (flags : ToolFlags) : Keeps .toolInfo where
  freesOnFailure := false
  adds := emit toolInfoGuards
  metaKey := .tool
  duration := (·.executionDuration)
  globals _ _ s := { s with toolFlags := flags }

def dynamicKeeps : Keeps .dynamic where
  freesOnFailure := true
  adds := emit dynamicGuards
  metaKey := .dynamic
  duration := (·.executionDuration)
  globals lv v s :=
    { s with
      cProgramNum := if cprogramGuard.fires lv v then v.cprogram else s.cProgramNum
      mProgramNum := if mprogramGuard.fires lv v then v.mprogram else s.mProgramNum }

def messageKeeps : Keeps .message where
  freesOnFailure := true
  adds := emit messageGuards
  metaKey := .message
  duration := (·.executionDuration)
  globals _ _ s := s

def blockKeeps : Keeps .block where
  freesOnFailure := false
  adds := emit blockGuards
  metaKey := .block
  duration := (·.executionDuration)
  globals _ _ s := s

def checkMachineCycleTime (r : Option MachineCycleTime) (m : Mem) : Option (Bool × Mem) :=
  if m.globals.lastPartCount ≠ m.globals.partCount then cycleTimeKeeps.check r m
  else some (false, m)

def checkMachineProgramName (r : Option MachineProgramName) (m : Mem) : Option (Bool × Mem) :=
  if m.globals.nameCProgramNum ≠ m.globals.cProgramNum then do
    let (v, heap) := m.heap.malloc .fresh
    match r with
    | none =>
      let heap ← heap.free v
      return (true, { m with heap })
    | some name =>
      let heap ← heap.store v (.programName name)
      let m ← publish [(.program_name, .string name.name), (.program_path, .string name.path)]
        .program_name name.executionDuration { m with heap }
      let heap ← m.heap.free v
      return (false,
        { m with
          heap
          globals :=
            { m.globals with
              mProgramPath := name.path
              nameCProgramNum := m.globals.cProgramNum
              calls := m.globals.calls ++ [.exeprgname2 name.path] } })
  else some (false, m)

def checkMachineProgramHeader (get : Short → Option MachineProgram) (m : Mem) :
    Option (Bool × Mem) :=
  if m.globals.headerCProgramNum ≠ m.globals.cProgramNum then do
    let (v, heap) := m.heap.malloc .fresh
    match get m.globals.cProgramNum with
    | none =>
      let heap ← heap.free v
      return (true, { m with heap })
    | some program =>
      let heap ← heap.store v (.program program)
      let m ← publish [(.program_header, .string program.header)] .program_header
        program.executionDuration { m with heap }
      let heap ← m.heap.free v
      return (false,
        { m with
          heap
          globals := { m.globals with headerCProgramNum := m.globals.cProgramNum } })
  else some (false, m)

/-- The upload loop: the block that is grown, and how many bytes it holds. -/
def upload4Loop : List (Option { buf : List Char // buf.length ≤ 1280 }) → Option ℕ → ℕ →
    Heap Block → Option ((Option ℕ × ℕ) × Heap Block)
  | [], prog, offset, heap => some ((prog, offset), heap)
  | none :: replies, prog, offset, heap => upload4Loop replies prog offset heap
  | some buf :: replies, prog, offset, heap =>
    if 0 < buf.val.length then
      match prog with
      | none =>
        let (prog, heap) := heap.malloc (.text (growProgram none offset buf.val))
        upload4Loop replies (some prog) (offset + buf.val.length) heap
      | some old => do
        -- `realloc`
        let chars ← textAt heap old
        let heap ← heap.free old
        let (prog, heap) := heap.malloc (.text (growProgram (some chars) offset buf.val))
        upload4Loop replies (some prog) (offset + buf.val.length) heap
    else upload4Loop replies prog offset heap

/-- The text behind a pointer, or a null pointer. -/
def readText (heap : Heap Block) : Option ℕ → Option (Option (List Char))
  | none => some none
  | some p => (textAt heap p).map some

def checkMachineProgramContents (r : ContentsReply) (m : Mem) : Option (Bool × Mem) :=
  if m.globals.lastProgramNum ≠ m.globals.mProgramNum then do
    let called :=
      { m.globals with calls := m.globals.calls ++ [.upload m.globals.mProgramPath] }
    let (v, heap) := m.heap.malloc .fresh
    let ((prog, offset), heap) ← upload4Loop r.upload4 none 0 heap
    match r.upend4 with
    | .error _ =>
      let heap ← heap.freeNullable prog
      let heap ← heap.free v
      return (true, { m with heap, globals := called })
    | .ok () =>
      let size := Int32.ofNat (offset + 1)
      let heap ← heap.store v (.contents size prog)
      let contents ← readText heap prog
      let m ← publish (contentsUpdates ⟨r.clock.tt, size, contents⟩) .program r.clock.tt
        { m with heap }
      -- `free(v->contents)`, and `v` is left
      let heap ← m.heap.freeNullable prog
      return (false,
        { m with heap, globals := { called with lastProgramNum := called.mProgramNum } })
  else some (false, m)

/-! ## `main` -/

/-- The check in a tick in which the library answers `lib`. -/
def check (lib : Library) : CheckName → Mem → Option (Bool × Mem)
  | .partCount, m => partCountKeeps.check (getMachinePartCount lib.partCount) m
  | .cycleTime, m => checkMachineCycleTime (getMachineCycleTime lib.cycleTime) m
  | .status, m => statusKeeps.check (getMachineStatus lib.status) m
  | .toolInfo, m =>
    let (v, flags) := getMachineToolInfo lib.toolInfo m.globals.toolFlags
    (toolInfoKeeps flags).check (some v) m
  | .dynamic, m =>
    dynamicKeeps.check (getMachineDynamic lib.dynamic m.globals.axisCount m.globals.divisors) m
  | .message, m => messageKeeps.check (getMachineMessage lib.message) m
  | .programName, m => checkMachineProgramName (getMachineProgramName lib.programName) m
  | .programHeader, m => checkMachineProgramHeader (getMachineProgramHeader lib.header) m
  | .programContents, m => checkMachineProgramContents lib.contents m
  | .block, m => blockKeeps.check (getMachineBlock lib.block) m

/-- C's `||`. -/
def runChecks : List (Mem → Option (Bool × Mem)) → Mem → Option (Bool × Mem)
  | [], m => some (false, m)
  | check :: checks, m => do
    let (failed, m) ← check m
    if failed then return (true, m) else runChecks checks m

def loopTick (lib : Library) (m : Mem) : Option (Bool × Mem) :=
  runChecks (CheckName.all.map (check lib)) m

/-- Both objects are added to `obj`, which is printed and deleted. -/
def printMessage (t : Tick) (m : Mem) : Option (Message × Heap Block) := do
  let metaMap ← m.vars .metaMap
  let ms ← metaAt m.heap metaMap
  let heap ← m.heap.store metaMap (.metaMap (ms ++ [(.total, t.clock.tt)]))
  let (obj, heap) := heap.malloc .fresh
  let updates ← m.vars .updates
  let us ← valuesAt heap updates
  let heap ← adopt heap updates
  let ms ← metaAt heap metaMap
  let heap ← adopt heap metaMap
  let heap ← heap.store obj (.message ⟨us, ms⟩)
  let (serialized, heap) := heap.malloc .fresh
  let heap ← heap.free serialized
  -- `cJSON_Delete(obj)`
  let heap ← heap.free obj
  return (⟨us, ms⟩, heap)

/-- `cJSON_CreateObject` twice. -/
def newPair (heap : Heap Block) (m : Mem) : Mem :=
  let (updates, heap) := heap.malloc (.values [])
  let (metaMap, heap) := heap.malloc (.metaMap [])
  { heap
    vars := Function.update (Function.update m.vars .updates (some updates)) .metaMap (some metaMap)
    globals := { m.globals with calls := [] } }

/-- The message of a round, and the memory for the next. -/
def sendMessage (t : Tick) (m : Mem) : Option (Message × Mem) := do
  let (message, heap) ← printMessage t m
  return (message, newPair heap m)

/-- The messages of a run, whether a failed check ended it, and the memory it leaves. -/
def rounds : List Tick → Mem → Option (List Message × Bool × Mem)
  | [], m => some ([], false, m)
  | t :: ts, m => do
    let (failed, m) ← loopTick t.lib m
    if failed then return ([], true, m)
    else
      let (message, m) ← sendMessage t m
      let (messages, exited, m) ← rounds ts m
      return (message :: messages, exited, m)

/-- Program start. -/
def Mem.init (maxAxis : Short) : Mem :=
  newPair Heap.empty { heap := Heap.empty, vars := fun _ => none, globals := State.init maxAxis }

def main (maxAxis : Short) (info : InfoReply) (ts : List Tick) :
    Option (List Message × Bool × Mem) := do
  let (failed, m) ← checkMachineInfo (getMachineInfo info fun _ => 0) (Mem.init maxAxis)
  if failed then return ([], true, m) else rounds ts m

/-! ## What the memory shows -/

/-- The record a static pointer shows. -/
def Mem.look (m : Mem) (c : Static) : Option c.Record :=
  (m.vars (.lv c)).bind (recordAt m.heap c)

/-- The state of the model without memory. -/
def Mem.view (m : Mem) : State :=
  { m.globals with
    infoLv := m.look .info
    partCountLv := m.look .partCount
    messageLv := m.look .message
    statusLv := m.look .status
    dynamicLv := m.look .dynamic
    toolInfoLv := m.look .toolInfo
    blockLv := m.look .block
    updates := ((m.vars .updates).bind (valuesAt m.heap)).getD []
    metaMap := ((m.vars .metaMap).bind (metaAt m.heap)).getD [] }

/-- The second memory shows what the first does. -/
structure Shows (m m' : Mem) : Prop where
  view : m'.view = m.view
  look : ∀ c, m'.look c = m.look c

/-- Every pointer shows what it is for, and what is in no variable stands in `rest`. -/
structure Tidy (m : Mem) (rest : List ℕ) : Prop where
  ledger : Heap.Ledger m.heap m.vars rest
  record : ∀ {c p}, m.vars (.lv c) = some p → ∃ v, m.heap.load p = some (.record c v)
  updates : ∃ p us, m.vars .updates = some p ∧ m.heap.load p = some (.values us)
  metaMap : ∃ p ms, m.vars .metaMap = some p ∧ m.heap.load p = some (.metaMap ms)

theorem recordAt_of_load {h : Heap Block} {c : Static} {p : ℕ} {v : c.Record}
    (hp : h.load p = some (.record c v)) : recordAt h c p = some v := by
  simp [recordAt, hp]

theorem valuesAt_of_load {h : Heap Block} {p : ℕ} {us : Updates}
    (hp : h.load p = some (.values us)) : valuesAt h p = some us := by
  simp [valuesAt, hp]

theorem metaAt_of_load {h : Heap Block} {p : ℕ} {ms : Meta}
    (hp : h.load p = some (.metaMap ms)) : metaAt h p = some ms := by
  simp [metaAt, hp]

theorem textAt_of_load {h : Heap Block} {p : ℕ} {chars : List Char}
    (hp : h.load p = some (.text chars)) : textAt h p = some chars := by
  simp [textAt, hp]

/-- What the variables show depends on their blocks only. -/
theorem Mem.look_congr {m m' : Mem} {c : Static} (hvars : m'.vars (.lv c) = m.vars (.lv c))
    (hload : ∀ p, m.vars (.lv c) = some p → m'.heap.load p = m.heap.load p) :
    m'.look c = m.look c := by
  unfold look
  rw [hvars]
  refine Option.bind_congr fun p hp => ?_
  simp only [recordAt, hload p hp]

theorem readLv_eq {m : Mem} {rest : List ℕ} (h : Tidy m rest) (c : Static) :
    readLv m c = some (m.look c) := by
  unfold readLv Mem.look
  cases hc : m.vars (.lv c) with
  | none => rfl
  | some p =>
    obtain ⟨v, hv⟩ := h.record hc
    show (recordAt m.heap c p).map some = some (recordAt m.heap c p)
    rw [recordAt_of_load hv]
    rfl

namespace Tidy

variable {m : Mem} {rest : List ℕ}

/-- Another heap in which the variables' blocks are the same. -/
theorem heap {heap' : Heap Block} {rest' : List ℕ} (h : Tidy m rest)
    (hl : Heap.Ledger heap' m.vars rest')
    (hsame : ∀ {x p}, m.vars x = some p → heap'.load p = m.heap.load p) :
    Tidy { m with heap := heap' } rest' ∧ Shows m { m with heap := heap' } := by
  obtain ⟨pu, us, hpu, hus⟩ := h.updates
  obtain ⟨pm, ms, hpm, hms⟩ := h.metaMap
  have hlook : ∀ c, ({ m with heap := heap' } : Mem).look c = m.look c := fun c =>
    Mem.look_congr rfl fun p hp => hsame hp
  refine ⟨⟨hl, fun hp => ?_, ⟨pu, us, hpu, (hsame hpu).trans hus⟩,
    ⟨pm, ms, hpm, (hsame hpm).trans hms⟩⟩, ?_, hlook⟩
  · obtain ⟨v, hv⟩ := h.record hp
    exact ⟨v, (hsame hp).trans hv⟩
  · simp only [Mem.view, hlook, hpu, hpm, Option.bind_some, valuesAt, metaAt, hsame hpu, hsame hpm]

theorem malloc (h : Tidy m rest) (b : Block) :
    Tidy { m with heap := (m.heap.malloc b).2 } ((m.heap.malloc b).1 :: rest) ∧
      Shows m { m with heap := (m.heap.malloc b).2 } :=
  h.heap (h.ledger.malloc b) fun hx =>
    Heap.load_malloc _ _ (Heap.ne_next (h.ledger.live_var hx))

/-- Writing a block no variable holds. -/
theorem store (h : Tidy m rest) {p : ℕ} (hp : p ∈ rest) (b : Block) :
    ∃ heap', m.heap.store p b = some heap' ∧ Tidy { m with heap := heap' } rest ∧
      Shows m { m with heap := heap' } ∧ heap'.load p = some b ∧
      ∀ q, q ≠ p → heap'.load q = m.heap.load q := by
  obtain ⟨heap', hstore, hl, hself, hothers⟩ := h.ledger.store (h.ledger.live_rest hp) b
  obtain ⟨htidy, hshows⟩ := h.heap hl fun hx =>
    hothers _ fun heq => h.ledger.apart hx (heq ▸ hp)
  exact ⟨heap', hstore, htidy, hshows, hself, hothers⟩

theorem free {p : ℕ} (h : Tidy m (p :: rest)) :
    ∃ heap', m.heap.free p = some heap' ∧ Tidy { m with heap := heap' } rest ∧
      Shows m { m with heap := heap' } ∧
      ∀ q, q ≠ p → heap'.load q = m.heap.load q := by
  obtain ⟨heap', hfree, hl, hothers⟩ := h.ledger.free
  obtain ⟨htidy, hshows⟩ := h.heap hl fun hx =>
    hothers _ fun heq => h.ledger.apart hx (heq ▸ List.mem_cons_self)
  exact ⟨heap', hfree, htidy, hshows, hothers⟩

/-- **Publishing** writes the two objects. -/
theorem publish (h : Tidy m rest) (us : Updates) (k : MetaKey) (tt : ULong) :
    ∃ heap', publish us k tt m = some { m with heap := heap' } ∧
      Tidy { m with heap := heap' } rest ∧
      ({ m with heap := heap' } : Mem).view = m.view.publish us k tt ∧
      ∀ q ∈ rest, heap'.load q = m.heap.load q := by
  obtain ⟨pu, old, hpu, hus⟩ := h.updates
  obtain ⟨pm, ms, hpm, hms⟩ := h.metaMap
  have hne : pm ≠ pu := fun heq => absurd (h.ledger.unique (heq ▸ hpm) hpu) (by decide)
  obtain ⟨heap₁, hstore₁, hl₁, hself₁, hothers₁⟩ :=
    h.ledger.store (h.ledger.live_var hpu) (.values (old ++ us))
  obtain ⟨heap₂, hstore₂, hl₂, hself₂, hothers₂⟩ :=
    hl₁.store (hl₁.live_var hpm) (.metaMap (ms ++ [(k, tt)]))
  have hmeta₁ : metaAt heap₁ pm = some ms := metaAt_of_load ((hothers₁ pm hne).trans hms)
  have hvalues₂ : heap₂.load pu = some (.values (old ++ us)) :=
    (hothers₂ pu hne.symm).trans hself₁
  have hothers : ∀ q, q ≠ pu → q ≠ pm → heap₂.load q = m.heap.load q := fun q hu hm =>
    (hothers₂ q hm).trans (hothers₁ q hu)
  have hlv : ∀ {c p}, m.vars (.lv c) = some p → heap₂.load p = m.heap.load p := fun hp =>
    hothers _ (fun heq => Var.noConfusion (h.ledger.unique hp (heq.symm ▸ hpu)))
      (fun heq => Var.noConfusion (h.ledger.unique hp (heq.symm ▸ hpm)))
  refine ⟨heap₂, ?_, ⟨hl₂, fun hp => ?_, ⟨pu, _, hpu, hvalues₂⟩, ⟨pm, _, hpm, hself₂⟩⟩, ?_,
    fun q hq => hothers q (fun heq => h.ledger.apart hpu (heq ▸ hq))
      fun heq => h.ledger.apart hpm (heq ▸ hq)⟩
  · simp only [Records.publish, hpu, hpm, valuesAt_of_load hus, hstore₁, hmeta₁, hstore₂,
      Option.bind_eq_bind, Option.bind_some, Option.pure_def]
  · obtain ⟨v, hv⟩ := h.record hp
    exact ⟨v, (hlv hp).trans hv⟩
  · have hlook : ∀ c, ({ m with heap := heap₂ } : Mem).look c = m.look c := fun c =>
      Mem.look_congr rfl fun p hp => hlv hp
    simp only [Mem.view, State.publish, hlook, hpu, hpm, Option.bind_some, valuesAt, metaAt,
      hvalues₂, hself₂, hus, hms, Option.getD_some]

end Tidy

/-! ## A check that keeps its record -/

/-- `lv = v` in the model without memory, which has no record for the cycle time. -/
def setLv (s : State) : (c : Static) → c.Record → State
  | .info, v => { s with infoLv := some v }
  | .partCount, v => { s with partCountLv := some v }
  | .cycleTime, _ => s
  | .message, v => { s with messageLv := some v }
  | .status, v => { s with statusLv := some v }
  | .dynamic, v => { s with dynamicLv := some v }
  | .toolInfo, v => { s with toolInfoLv := some v }
  | .block, v => { s with blockLv := some v }

/-- The record before it is freed, and the new one is held by the static pointer. -/
theorem Tidy.replaceLv {m : Mem} {rest : List ℕ} {c : Static} {v : ℕ} {record : c.Record}
    (h : Tidy m (v :: rest)) (hv : m.heap.load v = some (.record c record)) :
    ∃ m', replaceLv c v m = some m' ∧ m'.globals = m.globals ∧ Tidy m' rest ∧
      m'.view = setLv m.view c record := by
  obtain ⟨heap', vars', hfree, hl, hvars, hloads⟩ : ∃ heap' vars',
      m.heap.freeNullable (m.vars (.lv c)) = some heap' ∧
      Heap.Ledger heap' (Function.update vars' (.lv c) (some v)) rest ∧
      Function.update vars' (.lv c) (some v) = Function.update m.vars (.lv c) (some v) ∧
      ∀ q, m.vars (.lv c) ≠ some q → heap'.load q = m.heap.load q := by
    cases hc : m.vars (.lv c) with
    | none => exact ⟨m.heap, m.vars, rfl, h.ledger.assign hc, rfl, fun _ _ => rfl⟩
    | some p =>
      obtain ⟨heap', hfree, hl, hothers⟩ := h.ledger.freeVar hc
      exact ⟨heap', _, hfree, hl.assign (Function.update_self ..), Function.update_idem ..,
        fun q hq => hothers q fun heq => hq (heq ▸ rfl)⟩
  rw [hvars] at hl
  have hvars_self : Function.update m.vars (.lv c) (some v) (.lv c) = some v :=
    Function.update_self ..
  have hvars_ne : ∀ x, x ≠ .lv c → Function.update m.vars (.lv c) (some v) x = m.vars x :=
    fun x hx => Function.update_of_ne hx _ _
  have hsame : ∀ {x p}, x ≠ .lv c → m.vars x = some p → heap'.load p = m.heap.load p :=
    fun hx hp => hloads _ fun hlv => hx (h.ledger.unique hp hlv)
  have hself : heap'.load v = some (.record c record) :=
    (hloads v fun hlv => h.ledger.apart hlv List.mem_cons_self).trans hv
  obtain ⟨pu, us, hpu, hus⟩ := h.updates
  obtain ⟨pm, ms, hpm, hms⟩ := h.metaMap
  have hupdates : heap'.load pu = some (.values us) := (hsame Var.noConfusion hpu).trans hus
  have hmetaMap : heap'.load pm = some (.metaMap ms) := (hsame Var.noConfusion hpm).trans hms
  refine ⟨{ m with heap := heap', vars := Function.update m.vars (.lv c) (some v) }, ?_, rfl,
    ⟨hl, fun {d p} hp => ?_, ⟨pu, us, ?_, hupdates⟩, ⟨pm, ms, ?_, hmetaMap⟩⟩, ?_⟩
  · simp only [Records.replaceLv, hfree, Option.bind_eq_bind, Option.bind_some, Option.pure_def]
  · by_cases hd : d = c
    · subst hd
      obtain rfl := Option.some.inj (hvars_self.symm.trans hp)
      exact ⟨record, hself⟩
    · have hne : Var.lv d ≠ .lv c := fun heq => hd (Var.lv.inj heq)
      have hp' : m.vars (.lv d) = some p := (hvars_ne _ hne).symm.trans hp
      obtain ⟨w, hw⟩ := h.record hp'
      exact ⟨w, (hsame hne hp').trans hw⟩
  · exact (hvars_ne _ Var.noConfusion).trans hpu
  · exact (hvars_ne _ Var.noConfusion).trans hpm
  · -- what the new memory shows, pointer by pointer
    have hnew : Mem.look ⟨heap', Function.update m.vars (.lv c) (some v), m.globals⟩ c
        = some record := by
      show (Function.update m.vars (.lv c) (some v) (.lv c)).bind (recordAt heap' c) = _
      rw [hvars_self]
      exact recordAt_of_load hself
    have hold : ∀ d, d ≠ c →
        Mem.look ⟨heap', Function.update m.vars (.lv c) (some v), m.globals⟩ d = m.look d := by
      intro d hd
      have hne : Var.lv d ≠ .lv c := fun heq => hd (Var.lv.inj heq)
      exact Mem.look_congr (hvars_ne _ hne) fun p hp => hsame hne hp
    cases c <;> simp [Mem.view, setLv, hnew, hold, hpu, hpm, valuesAt_of_load hupdates,
      valuesAt_of_load hus, metaAt_of_load hmetaMap, metaAt_of_load hms]

theorem Tidy.malloc_free {m : Mem} {rest : List ℕ} (h : Tidy m rest) :
    ∃ heap', (m.heap.malloc Block.fresh).2.free (m.heap.malloc Block.fresh).1 = some heap' := by
  obtain ⟨heap', hfree, -⟩ := (h.malloc .fresh).1.free
  exact ⟨heap', hfree⟩

theorem Keeps.check_none {c : Static} (k : Keeps c) {m : Mem} {rest : List ℕ} (h : Tidy m rest) :
    ∃ m', k.check none m = some (true, m') := by
  obtain ⟨heap', hfree⟩ := h.malloc_free
  cases hk : k.freesOnFailure with
  | false => exact ⟨_, by simp only [check, hk]; rfl⟩
  | true =>
    refine ⟨{ m with heap := heap' }, ?_⟩
    simp only [check, hk, if_true, hfree, Option.bind_eq_bind, Option.bind_some, Option.pure_def]

/-- A check that has read its record. -/
theorem Keeps.check_some {c : Static} (k : Keeps c) {m : Mem} {rest : List ℕ} (h : Tidy m rest)
    (record : c.Record) :
    ∃ m', k.check (some record) m
        = some (false, { m' with globals := k.globals (m.look c) record m'.globals }) ∧
      Tidy m' rest ∧
      m'.view = setLv (m.view.publish (k.adds (m.look c) record) k.metaKey (k.duration record)) c
        record := by
  obtain ⟨htidy₁, hshows₁⟩ := h.malloc .fresh
  obtain ⟨heap₂, hstore, htidy₂, hshows₂, hload₂, -⟩ :=
    htidy₁.store List.mem_cons_self (.record c record)
  have hlook : ({ m with heap := heap₂ } : Mem).look c = m.look c :=
    (hshows₂.look c).trans (hshows₁.look c)
  have hview : ({ m with heap := heap₂ } : Mem).view = m.view := hshows₂.view.trans hshows₁.view
  have hread : readLv { m with heap := heap₂ } c = some (m.look c) :=
    (readLv_eq htidy₂ c).trans (congrArg some hlook)
  obtain ⟨heap₃, hpublish, htidy₃, hview₃, hloads₃⟩ :=
    htidy₂.publish (k.adds (m.look c) record) k.metaKey (k.duration record)
  obtain ⟨m₄, hreplace, hglobals, htidy₄, hview₄⟩ :=
    htidy₃.replaceLv ((hloads₃ _ List.mem_cons_self).trans hload₂)
  refine ⟨m₄, ?_, htidy₄, ?_⟩
  · have hstore' : (m.heap.malloc Block.fresh).2.store (m.heap.malloc .fresh).1 (.record c record)
        = some heap₂ := hstore
    simp only [check, hstore', hread, hpublish, hreplace, hglobals, Option.bind_eq_bind,
      Option.bind_some, Option.pure_def]
  · rw [hview₄, hview₃, hview]

/-! ## A check that frees its record -/

/-- A record that is filled, published and freed again. -/
theorem Tidy.borrow {m : Mem} {rest : List ℕ} (h : Tidy m rest) (b : Block) (us : Updates)
    (k : MetaKey) (tt : ULong) :
    ∃ heap₂ heap₃ heap₄,
      (m.heap.malloc Block.fresh).2.store (m.heap.malloc Block.fresh).1 b = some heap₂ ∧
      Records.publish us k tt { m with heap := heap₂ } = some { m with heap := heap₃ } ∧
      heap₃.free (m.heap.malloc Block.fresh).1 = some heap₄ ∧
      Tidy { m with heap := heap₄ } rest ∧
      ({ m with heap := heap₄ } : Mem).view = m.view.publish us k tt := by
  obtain ⟨htidy₁, hshows₁⟩ := h.malloc .fresh
  obtain ⟨heap₂, hstore, htidy₂, hshows₂, -, -⟩ := htidy₁.store List.mem_cons_self b
  obtain ⟨heap₃, hpublish, htidy₃, hview₃, -⟩ := htidy₂.publish us k tt
  obtain ⟨heap₄, hfree, htidy₄, hshows₄, -⟩ := htidy₃.free
  refine ⟨heap₂, heap₃, heap₄, hstore, hpublish, hfree, htidy₄, ?_⟩
  rw [← hshows₁.view, ← hshows₂.view]
  exact hshows₄.view.trans hview₃

/-! ## The upload -/

theorem readText_some {heap : Heap Block} {prog : Option ℕ} {chars : Option (List Char)}
    (h : readText heap prog = some chars) :
    (prog = none ∧ chars = none) ∨
      ∃ p cs, prog = some p ∧ chars = some cs ∧ textAt heap p = some cs := by
  cases prog with
  | none => exact .inl ⟨rfl, (Option.some.inj h).symm⟩
  | some p =>
    obtain ⟨cs, hcs, rfl⟩ := Option.map_eq_some_iff.mp h
    exact .inr ⟨p, cs, rfl, rfl, hcs⟩

theorem Tidy.freeNullable {m : Mem} {rest : List ℕ} {prog : Option ℕ}
    (h : Tidy m (prog.toList ++ rest)) :
    ∃ heap', m.heap.freeNullable prog = some heap' ∧ Tidy { m with heap := heap' } rest ∧
      Shows m { m with heap := heap' } := by
  cases prog with
  | none => exact ⟨m.heap, rfl, h, rfl, fun _ => rfl⟩
  | some p =>
    have hcons : Tidy m (p :: rest) := h
    obtain ⟨heap', hfree, htidy, hshows, -⟩ := hcons.free
    exact ⟨heap', hfree, htidy, hshows⟩

theorem Shows.trans {m m' m'' : Mem} (h : Shows m m') (h' : Shows m' m'') : Shows m m'' :=
  ⟨h'.view.trans h.view, fun c => (h'.look c).trans (h.look c)⟩

/-- **The upload loop** holds one block, with the text of the loop on byte lists. -/
theorem upload4Loop_spec (replies : List (Option { buf : List Char // buf.length ≤ 1280 }))
    (offset : ℕ) {m : Mem} {rest : List ℕ} {prog : Option ℕ} {chars : Option (List Char)}
    (h : Tidy m (prog.toList ++ rest)) (hchars : readText m.heap prog = some chars) :
    ∃ prog' heap',
      upload4Loop replies prog offset m.heap
        = some ((prog', (Driver.upload4Loop replies chars offset).2), heap') ∧
      Tidy { m with heap := heap' } (prog'.toList ++ rest) ∧ Shows m { m with heap := heap' } ∧
      readText heap' prog' = some (Driver.upload4Loop replies chars offset).1 := by
  induction replies generalizing m prog chars offset with
  | nil => exact ⟨prog, m.heap, rfl, h, ⟨rfl, fun _ => rfl⟩, hchars⟩
  | cons reply replies ih =>
    cases reply with
    | none => exact ih offset h hchars
    | some buf =>
      simp only [upload4Loop, Driver.upload4Loop]
      split
      next hpos =>
        rcases readText_some hchars with ⟨rfl, rfl⟩ | ⟨p, cs, rfl, rfl, hcs⟩
        · -- `malloc`
          have hnil : Tidy m rest := h
          obtain ⟨htidy, hshows⟩ := hnil.malloc (.text (growProgram none offset buf.val))
          have hnext : Tidy _ ((some (m.heap.malloc (.text (growProgram none offset
              buf.val))).1).toList ++ rest) := htidy
          have hread : readText (m.heap.malloc (.text (growProgram none offset buf.val))).2
              (some (m.heap.malloc (.text (growProgram none offset buf.val))).1)
              = some (some (growProgram none offset buf.val)) := by
            simp only [readText, textAt_of_load (Heap.load_malloc_self _ _), Option.map_some]
          obtain ⟨prog', heap', hloop, htidy', hshows', hread'⟩ :=
            ih (offset + buf.val.length) hnext hread
          exact ⟨prog', heap', hloop, htidy', hshows.trans hshows', hread'⟩
        · -- `realloc`
          have hcons : Tidy m (p :: rest) := h
          obtain ⟨heap₁, hfree, htidy₁, hshows₁, -⟩ := hcons.free
          obtain ⟨htidy₂, hshows₂⟩ := htidy₁.malloc (.text (growProgram (some cs) offset buf.val))
          have hnext : Tidy _ ((some (heap₁.malloc (.text (growProgram (some cs) offset
              buf.val))).1).toList ++ rest) := htidy₂
          have hread : readText (heap₁.malloc (.text (growProgram (some cs) offset buf.val))).2
              (some (heap₁.malloc (.text (growProgram (some cs) offset buf.val))).1)
              = some (some (growProgram (some cs) offset buf.val)) := by
            simp only [readText, textAt_of_load (Heap.load_malloc_self _ _), Option.map_some]
          obtain ⟨prog', heap', hloop, htidy', hshows', hread'⟩ :=
            ih (offset + buf.val.length) hnext hread
          refine ⟨prog', heap', ?_, htidy', (hshows₁.trans hshows₂).trans hshows', hread'⟩
          simp only [hcs, hfree, Option.bind_eq_bind, Option.bind_some]
          exact hloop
      next => exact ih offset h hchars

/-! ## The checks refine those without memory -/

/-- The globals are not in the heap. -/
theorem Tidy.globals {m : Mem} {rest : List ℕ} (h : Tidy m rest) (g : State) :
    Tidy { m with globals := g } rest :=
  ⟨h.ledger, h.record, h.updates, h.metaMap⟩

/-- The `program_size` members: one for each upload that was published. -/
def uploads (us : Updates) : ℕ := us.countP fun u => u.1 = .program_size

/-- The memory after a check or a tick that came to `result` without memory: it shows the same,
and one block more stands in the rest for each upload. -/
def Follows (m : Mem) (rest : List ℕ) (result : Bool × State) (m' : Mem) : Prop :=
  result.1 = false → m'.view = result.2 ∧ ∃ rest', Tidy m' rest' ∧
    rest'.length + uploads m.view.updates = rest.length + uploads result.2.updates

/-- Nothing was lost, and no upload was published. -/
theorem Follows.same {m m' : Mem} {rest : List ℕ} {result : Bool × State}
    (hview : m'.view = result.2) (htidy : Tidy m' rest)
    (huploads : uploads result.2.updates = uploads m.view.updates) : Follows m rest result m' :=
  fun _ => ⟨hview, rest, htidy, by rw [huploads]⟩

theorem Follows.failed {m m' : Mem} {rest : List ℕ} {result : Bool × State}
    (h : result.1 = true) : Follows m rest result m' :=
  fun hfalse => absurd (h.symm.trans hfalse) (by decide)

/-- The other checks add no `program_size`. -/
theorem uploads_call {c : CheckName} (hc : c ≠ .programContents) (lib : Library) (s : State) :
    uploads (c.call lib s).2.updates = uploads s.updates := by
  have hkeys : Key.program_size ∉ c.keys := by cases c <;> first | decide | exact absurd rfl hc
  have hadds : uploads (c.adds lib s) = 0 :=
    List.countP_eq_zero.mpr fun u hu hsize =>
      hkeys (of_decide_eq_true hsize ▸ CheckName.adds_keys hu)
  rw [CheckName.call_updates, uploads, List.countP_append, ← uploads, ← uploads, hadds,
    Nat.add_zero]

/-- A check that keeps its record, against what it does without memory. -/
theorem Keeps.refines {c : Static} (k : Keeps c) {m : Mem} {rest : List ℕ} (h : Tidy m rest)
    {r : Option c.Record} {result : Bool × State} (hnone : r = none → result.1 = true)
    (hsome : ∀ record, r = some record → ∀ m' : Mem,
      m'.view = setLv (m.view.publish (k.adds (m.look c) record) k.metaKey (k.duration record)) c
        record →
      result = (false, ({ m' with globals := k.globals (m.look c) record m'.globals } : Mem).view))
    (huploads : uploads result.2.updates = uploads m.view.updates) :
    ∃ m', k.check r m = some (result.1, m') ∧ Follows m rest result m' := by
  cases r with
  | none =>
    obtain ⟨m', hcheck⟩ := k.check_none h
    exact ⟨m', hnone rfl ▸ hcheck, .failed (hnone rfl)⟩
  | some record =>
    obtain ⟨m', hcheck, htidy, hview⟩ := k.check_some h record
    have hresult := hsome record rfl m' hview
    exact ⟨_, by rw [hcheck, hresult], .same (congrArg Prod.snd hresult).symm (htidy.globals _)
      huploads⟩

/-- A check that frees its record, when it is due. -/
theorem Tidy.borrow_follows {m : Mem} {rest : List ℕ} (h : Tidy m rest) (b : Block) (us : Updates)
    (k : MetaKey) (tt : ULong) {g : State → State} {result : Bool × State}
    (hresult : ∀ m' : Mem, m'.view = m.view.publish us k tt →
      result = (false, ({ m' with globals := g m'.globals } : Mem).view))
    (huploads : uploads result.2.updates = uploads m.view.updates) :
    ∃ heap₂ heap₃ heap₄,
      (m.heap.malloc Block.fresh).2.store (m.heap.malloc Block.fresh).1 b = some heap₂ ∧
      Records.publish us k tt { m with heap := heap₂ } = some { m with heap := heap₃ } ∧
      heap₃.free (m.heap.malloc Block.fresh).1 = some heap₄ ∧
      result.1 = false ∧ Follows m rest result ⟨heap₄, m.vars, g m.globals⟩ := by
  obtain ⟨heap₂, heap₃, heap₄, hstore, hpublish, hfree, htidy, hview⟩ := h.borrow b us k tt
  have hres := hresult { m with heap := heap₄ } hview
  exact ⟨heap₂, heap₃, heap₄, hstore, hpublish, hfree, congrArg Prod.fst hres,
    .same (congrArg Prod.snd hres).symm (htidy.globals _) huploads⟩

theorem programName_refines (lib : Library) {m : Mem} {rest : List ℕ} (h : Tidy m rest) :
    ∃ m', checkMachineProgramName (getMachineProgramName lib.programName) m
        = some ((CheckName.programName.call lib m.view).1, m') ∧
      Follows m rest (CheckName.programName.call lib m.view) m' := by
  have huploads := uploads_call (c := .programName) (by decide) lib m.view
  have hcall : CheckName.programName.call lib m.view
      = Driver.checkMachineProgramName (getMachineProgramName lib.programName) m.view := rfl
  rw [hcall] at huploads ⊢
  unfold checkMachineProgramName Driver.checkMachineProgramName at *
  by_cases hdue : m.globals.nameCProgramNum ≠ m.globals.cProgramNum
  · have hdue' : m.view.nameCProgramNum ≠ m.view.cProgramNum := hdue
    rw [if_pos hdue'] at huploads
    rw [if_pos hdue, if_pos hdue']
    cases hr : getMachineProgramName lib.programName with
    | none =>
      obtain ⟨heap', hfree⟩ := h.malloc_free
      refine ⟨{ m with heap := heap' }, ?_, .failed rfl⟩
      simp only [hfree, Option.bind_eq_bind, Option.bind_some, Option.pure_def]
    | some name =>
      rw [hr] at huploads
      obtain ⟨heap₂, heap₃, heap₄, hstore, hpublish, hfree, -, hfollows⟩ :=
        h.borrow_follows (.programName name)
          [(.program_name, .string name.name), (.program_path, .string name.path)] .program_name
          name.executionDuration
          (g := fun s => { s with
            mProgramPath := name.path
            nameCProgramNum := s.cProgramNum
            calls := s.calls ++ [LibCall.exeprgname2 name.path] })
          (fun m' hview => by
            show _ = (false, { m'.view with
              mProgramPath := name.path
              nameCProgramNum := m'.view.cProgramNum
              calls := m'.view.calls ++ [LibCall.exeprgname2 name.path] })
            rw [hview]
            rfl)
          huploads
      refine ⟨_, ?_, hfollows⟩
      simp only [hstore, hpublish, hfree, Option.bind_eq_bind, Option.bind_some, Option.pure_def]
  · have hdue' : ¬m.view.nameCProgramNum ≠ m.view.cProgramNum := hdue
    rw [if_neg hdue, if_neg hdue']
    exact ⟨m, rfl, .same rfl h rfl⟩

theorem programHeader_refines (lib : Library) {m : Mem} {rest : List ℕ} (h : Tidy m rest) :
    ∃ m', checkMachineProgramHeader (getMachineProgramHeader lib.header) m
        = some ((CheckName.programHeader.call lib m.view).1, m') ∧
      Follows m rest (CheckName.programHeader.call lib m.view) m' := by
  have huploads := uploads_call (c := .programHeader) (by decide) lib m.view
  have hcall : CheckName.programHeader.call lib m.view
      = Driver.checkMachineProgramHeader (getMachineProgramHeader lib.header) m.view := rfl
  rw [hcall] at huploads ⊢
  unfold checkMachineProgramHeader Driver.checkMachineProgramHeader at *
  by_cases hdue : m.globals.headerCProgramNum ≠ m.globals.cProgramNum
  · have hdue' : m.view.headerCProgramNum ≠ m.view.cProgramNum := hdue
    have hnum : m.view.cProgramNum = m.globals.cProgramNum := rfl
    rw [if_pos hdue', hnum] at huploads
    rw [if_pos hdue, if_pos hdue', hnum]
    cases hr : getMachineProgramHeader lib.header m.globals.cProgramNum with
    | none =>
      obtain ⟨heap', hfree⟩ := h.malloc_free
      refine ⟨{ m with heap := heap' }, ?_, .failed rfl⟩
      simp only [hfree, Option.bind_eq_bind, Option.bind_some, Option.pure_def]
    | some program =>
      rw [hr] at huploads
      obtain ⟨heap₂, heap₃, heap₄, hstore, hpublish, hfree, -, hfollows⟩ :=
        h.borrow_follows (.program program) [(.program_header, .string program.header)]
          .program_header program.executionDuration
          (g := fun s => { s with headerCProgramNum := s.cProgramNum })
          (fun m' hview => by
            show _ = (false, { m'.view with headerCProgramNum := m'.view.cProgramNum })
            rw [hview]
            rfl)
          huploads
      refine ⟨_, ?_, hfollows⟩
      simp only [hstore, hpublish, hfree, Option.bind_eq_bind, Option.bind_some, Option.pure_def]
  · have hdue' : ¬m.view.headerCProgramNum ≠ m.view.cProgramNum := hdue
    rw [if_neg hdue, if_neg hdue']
    exact ⟨m, rfl, .same rfl h rfl⟩

/-- Every upload that can be closed has a `program_size`. -/
theorem uploads_contentsUpdates (v : MachineProgramContents) :
    uploads (contentsUpdates v) = 1 := by
  unfold contentsUpdates uploads
  cases v.contents <;> rfl

/-- **The record of an upload is lost.** -/
theorem programContents_refines (lib : Library) {m : Mem} {rest : List ℕ} (h : Tidy m rest) :
    ∃ m', checkMachineProgramContents lib.contents m
        = some ((CheckName.programContents.call lib m.view).1, m') ∧
      Follows m rest (CheckName.programContents.call lib m.view) m' := by
  have hcall : CheckName.programContents.call lib m.view
      = Driver.checkMachineProgramContents (fun _ => getMachineProgramContents lib.contents)
          m.view := rfl
  rw [hcall]
  unfold checkMachineProgramContents Driver.checkMachineProgramContents getMachineProgramContents
  by_cases hdue : m.globals.lastProgramNum ≠ m.globals.mProgramNum
  · have hdue' : m.view.lastProgramNum ≠ m.view.mProgramNum := hdue
    rw [if_pos hdue, if_pos hdue']
    obtain ⟨htidy₁, hshows₁⟩ := h.malloc .fresh
    have hnull : readText (m.heap.malloc Block.fresh).2 none = some none := rfl
    have htidy₀ : Tidy { m with heap := (m.heap.malloc Block.fresh).2 }
        ((none : Option ℕ).toList ++ (m.heap.malloc Block.fresh).1 :: rest) := htidy₁
    obtain ⟨prog, heap₂, hloop, htidy₂, hshows₂, htext⟩ :=
      upload4Loop_spec lib.contents.upload4 0 htidy₀ hnull
    replace hloop : upload4Loop lib.contents.upload4 none 0 (m.heap.malloc Block.fresh).2
        = some ((prog, (Driver.upload4Loop lib.contents.upload4 none 0).2), heap₂) := hloop
    generalize Driver.upload4Loop lib.contents.upload4 none 0 = result at hloop htext ⊢
    obtain ⟨chars, offset⟩ := result
    cases hend : lib.contents.upend4 with
    | error ret =>
      obtain ⟨heap₃, hfree₃, htidy₃, -⟩ := htidy₂.freeNullable
      obtain ⟨heap₄, hfree₄, -⟩ := htidy₃.free
      refine ⟨⟨heap₄, m.vars, { m.globals with
        calls := m.globals.calls ++ [LibCall.upload m.globals.mProgramPath] }⟩, ?_, .failed rfl⟩
      simp only [hloop, hfree₃, hfree₄, Option.bind_eq_bind, Option.bind_some, Option.pure_def]
    | ok =>
      have hmem : (m.heap.malloc Block.fresh).1
          ∈ prog.toList ++ (m.heap.malloc Block.fresh).1 :: rest :=
        List.mem_append_right _ List.mem_cons_self
      obtain ⟨heap₃, hstore, htidy₃, hshows₃, -, hothers⟩ :=
        htidy₂.store hmem (.contents (Int32.ofNat (offset + 1)) prog)
      have htext₃ : readText heap₃ prog = some chars := by
        rw [← htext]
        cases prog with
        | none => rfl
        | some p =>
          have hne : p ≠ (m.heap.malloc Block.fresh).1 := by
            rintro rfl
            exact (List.nodup_cons.mp htidy₂.ledger.nodup).1 List.mem_cons_self
          have hload : heap₃.load p = heap₂.load p := hothers p hne
          simp only [readText, textAt, hload]
      obtain ⟨heap₄, hpublish, htidy₄, hview₄, -⟩ := htidy₃.publish
        (contentsUpdates ⟨lib.contents.clock.tt, Int32.ofNat (offset + 1), chars⟩) .program
        lib.contents.clock.tt
      obtain ⟨heap₅, hfree, htidy₅, hshows₅⟩ := htidy₄.freeNullable
      have hview : Mem.view ⟨heap₅, m.vars, m.globals⟩ = m.view.publish
          (contentsUpdates ⟨lib.contents.clock.tt, Int32.ofNat (offset + 1), chars⟩) .program
          lib.contents.clock.tt := by
        rw [← hshows₁.view, ← hshows₂.view, ← hshows₃.view]
        exact hshows₅.view.trans hview₄
      refine ⟨⟨heap₅, m.vars, { m.globals with
        calls := m.globals.calls ++ [LibCall.upload m.globals.mProgramPath]
        lastProgramNum := m.globals.mProgramNum }⟩, ?_, fun _ => ⟨?_, _, htidy₅.globals _, ?_⟩⟩
      · simp only [hloop, hstore, htext₃, hpublish, hfree, Option.bind_eq_bind, Option.bind_some,
          Option.pure_def]
      · show { Mem.view ⟨heap₅, m.vars, m.globals⟩ with
          calls := m.view.calls ++ [LibCall.upload m.view.mProgramPath]
          lastProgramNum := m.view.mProgramNum } = _
        rw [hview]
        rfl
      · show _ = _ + uploads (m.view.updates ++ contentsUpdates _)
        rw [uploads, uploads, List.countP_append, ← uploads, ← uploads, uploads_contentsUpdates,
          List.length_cons]
        omega
  · have hdue' : ¬m.view.lastProgramNum ≠ m.view.mProgramNum := hdue
    rw [if_neg hdue, if_neg hdue']
    exact ⟨m, rfl, .same rfl h rfl⟩

theorem check_refines (lib : Library) (c : CheckName) {m : Mem} {rest : List ℕ} (h : Tidy m rest) :
    ∃ m', check lib c m = some ((c.call lib m.view).1, m') ∧
      Follows m rest (c.call lib m.view) m' := by
  cases c with
  | partCount =>
    refine partCountKeeps.refines h (fun hr => ?_) (fun record hr m' hview => ?_)
      (uploads_call (by decide) lib m.view)
    · simp only [CheckName.call, hr, Driver.checkMachinePartCount]
    · show Driver.checkMachinePartCount (getMachinePartCount lib.partCount) m.view
        = (false, { m'.view with
            partCount := if partCountGuard.fires (m.look .partCount) record then record.count
              else m'.view.partCount })
      rw [hr, hview]
      rfl
  | cycleTime =>
    have huploads := uploads_call (c := .cycleTime) (by decide) lib m.view
    have hcall : CheckName.cycleTime.call lib m.view
        = Driver.checkMachineCycleTime (getMachineCycleTime lib.cycleTime) m.view := rfl
    show ∃ m', checkMachineCycleTime (getMachineCycleTime lib.cycleTime) m = _ ∧ _
    rw [hcall] at huploads ⊢
    unfold checkMachineCycleTime Driver.checkMachineCycleTime at *
    by_cases hdue : m.globals.lastPartCount ≠ m.globals.partCount
    · have hdue' : m.view.lastPartCount ≠ m.view.partCount := hdue
      rw [if_pos hdue'] at huploads
      rw [if_pos hdue, if_pos hdue']
      refine cycleTimeKeeps.refines h (fun hr => ?_) (fun record hr m' hview => ?_) huploads
      · rw [hr]
      · show _ = (false, { m'.view with lastPartCount := m'.view.partCount })
        rw [hr, hview]
        rfl
    · have hdue' : ¬m.view.lastPartCount ≠ m.view.partCount := hdue
      rw [if_neg hdue, if_neg hdue']
      exact ⟨m, rfl, .same rfl h rfl⟩
  | status =>
    refine statusKeeps.refines h (fun hr => ?_) (fun record hr m' hview => ?_)
      (uploads_call (by decide) lib m.view)
    · simp only [CheckName.call, hr, Driver.checkMachineStatus]
    · show Driver.checkMachineStatus (getMachineStatus lib.status) m.view = (false, m'.view)
      rw [hr, hview]
      rfl
  | toolInfo =>
    refine (toolInfoKeeps (getMachineToolInfo lib.toolInfo m.globals.toolFlags).2).refines h
      (fun hr => absurd hr (Option.some_ne_none _)) (fun record hr m' hview => ?_)
      (uploads_call (c := .toolInfo) (by decide) lib m.view)
    obtain rfl := Option.some.inj hr
    show _ = (false, { m'.view with
      toolFlags := (getMachineToolInfo lib.toolInfo m.globals.toolFlags).2 })
    rw [hview]
    rfl
  | dynamic =>
    refine dynamicKeeps.refines h (fun hr => ?_) (fun record hr m' hview => ?_)
      (uploads_call (by decide) lib m.view)
    · show (Driver.checkMachineDynamic
        (getMachineDynamic lib.dynamic m.globals.axisCount m.globals.divisors) m.view).1 = true
      rw [hr]
      rfl
    · show Driver.checkMachineDynamic
        (getMachineDynamic lib.dynamic m.globals.axisCount m.globals.divisors) m.view
        = (false, { m'.view with
            cProgramNum := if cprogramGuard.fires (m.look .dynamic) record then record.cprogram
              else m'.view.cProgramNum
            mProgramNum := if mprogramGuard.fires (m.look .dynamic) record then record.mprogram
              else m'.view.mProgramNum })
      rw [hr, hview]
      rfl
  | message =>
    refine messageKeeps.refines h (fun hr => ?_) (fun record hr m' hview => ?_)
      (uploads_call (by decide) lib m.view)
    · simp only [CheckName.call, hr, Driver.checkMachineMessage]
    · show Driver.checkMachineMessage (getMachineMessage lib.message) m.view = (false, m'.view)
      rw [hr, hview]
      rfl
  | programName => exact programName_refines lib h
  | programHeader => exact programHeader_refines lib h
  | programContents => exact programContents_refines lib h
  | block =>
    refine blockKeeps.refines h (fun hr => ?_) (fun record hr m' hview => ?_)
      (uploads_call (by decide) lib m.view)
    · simp only [CheckName.call, hr, Driver.checkMachineBlock]
    · show Driver.checkMachineBlock (getMachineBlock lib.block) m.view = (false, m'.view)
      rw [hr, hview]
      rfl

/-- **A tick** in memory does what it does without. -/
theorem loopTick_refines (lib : Library) {m : Mem} {rest : List ℕ} (h : Tidy m rest) :
    ∃ m', loopTick lib m = some ((Driver.loopTick lib m.view).1, m') ∧
      Follows m rest (Driver.loopTick lib m.view) m' := by
  rw [CheckName.loopTick_eq]
  unfold loopTick
  generalize CheckName.all = cs
  induction cs generalizing m rest with
  | nil => exact ⟨m, rfl, .same rfl h rfl⟩
  | cons c cs ih =>
    obtain ⟨m₁, hcheck, hfollows⟩ := check_refines lib c h
    simp only [List.map_cons, runChecks, Driver.runChecks, hcheck, Option.bind_eq_bind,
      Option.bind_some]
    rcases hcall : c.call lib m.view with ⟨failed, s₁⟩
    rw [hcall] at hfollows
    cases failed with
    | true => exact ⟨m₁, rfl, .failed rfl⟩
    | false =>
      obtain ⟨hview, rest₁, htidy, hcount⟩ := hfollows rfl
      obtain ⟨m₂, hrun, hfollows₂⟩ := ih htidy
      rw [hview] at hrun hfollows₂
      refine ⟨m₂, hrun, fun hok => ?_⟩
      obtain ⟨hview₂, rest₂, htidy₂, hcount₂⟩ := hfollows₂ hok
      refine ⟨hview₂, rest₂, htidy₂, ?_⟩
      rw [hview] at hcount₂
      have htotal : ∀ {a b c r₀ r₁ r₂ : ℕ},
          r₁ + a = r₀ + b → r₂ + b = r₁ + c → r₂ + a = r₀ + c := by
        omega
      exact htotal hcount hcount₂

/-! ## A message -/

/-- The two objects are deleted with the message; the records stay. -/
theorem printMessage_spec (t : Tick) {m : Mem} {rest : List ℕ} (h : Tidy m rest) :
    ∃ heap',
      printMessage t m = some (⟨m.view.updates, m.view.metaMap ++ [(.total, t.clock.tt)]⟩, heap') ∧
      Heap.Ledger heap' (Function.update (Function.update m.vars .updates none) .metaMap none)
        rest ∧
      ∀ {c p}, m.vars (.lv c) = some p → heap'.load p = m.heap.load p := by
  obtain ⟨pu, us, hpu, hus⟩ := h.updates
  obtain ⟨pm, ms, hpm, hms⟩ := h.metaMap
  have hne : pm ≠ pu := fun heq => absurd (h.ledger.unique (heq ▸ hpm) hpu) (by decide)
  have hviewu : m.view.updates = us := by
    show ((m.vars .updates).bind (valuesAt m.heap)).getD [] = us
    rw [hpu, Option.bind_some, valuesAt_of_load hus, Option.getD_some]
  have hviewm : m.view.metaMap = ms := by
    show ((m.vars .metaMap).bind (metaAt m.heap)).getD [] = ms
    rw [hpm, Option.bind_some, metaAt_of_load hms, Option.getD_some]
  -- the total, and the object
  obtain ⟨h₁, hstore₁, hl₁, hself₁, hothers₁⟩ :=
    h.ledger.store (h.ledger.live_var hpm) (.metaMap (ms ++ [(.total, t.clock.tt)]))
  have hl₂ := hl₁.malloc .fresh
  have hne_obj : ∀ {x p}, m.vars x = some p → p ≠ (h₁.malloc Block.fresh).1 := fun hx =>
    Heap.ne_next (hl₁.live_var hx)
  have hload₂ : ∀ {x p}, m.vars x = some p → (h₁.malloc Block.fresh).2.load p = h₁.load p :=
    fun hx => Heap.load_malloc _ _ (hne_obj hx)
  -- both objects become a part of it
  obtain ⟨h₃, hfree₃, hl₃, hothers₃⟩ := hl₂.freeVar hpu
  have hpm₃ : Function.update m.vars .updates none .metaMap = some pm :=
    (Function.update_of_ne Var.noConfusion _ _).trans hpm
  obtain ⟨h₄, hfree₄, hl₄, hothers₄⟩ := hl₃.freeVar hpm₃
  obtain ⟨h₅, hstore₅, hl₅, -, hothers₅⟩ := hl₄.store (hl₄.live_rest List.mem_cons_self)
    (.message ⟨us, ms ++ [(.total, t.clock.tt)]⟩)
  -- the text, printed and freed
  obtain ⟨h₇, hfree₇, hl₇, hothers₇⟩ := (hl₅.malloc .fresh).free
  obtain ⟨h₈, hfree₈, hl₈, hothers₈⟩ := hl₇.free
  refine ⟨h₈, ?_, hl₈, fun {c p} hp => ?_⟩
  · have hvalues₂ : valuesAt (h₁.malloc Block.fresh).2 pu = some us :=
      valuesAt_of_load ((hload₂ hpu).trans ((hothers₁ pu hne.symm).trans hus))
    have hmeta₃ : metaAt h₃ pm = some (ms ++ [(.total, t.clock.tt)]) :=
      metaAt_of_load ((hothers₃ pm hne).trans ((hload₂ hpm).trans hself₁))
    simp only [printMessage, hpm, metaAt_of_load hms, hstore₁, hpu, hvalues₂, adopt, hfree₃, hmeta₃,
      hfree₄, hstore₅, hfree₇, hfree₈, hviewu, hviewm, Option.bind_eq_bind, Option.bind_some,
      Option.pure_def]
  · have hp₂ : Function.update (Function.update m.vars .updates none) .metaMap none (.lv c)
        = some p :=
      (Function.update_of_ne Var.noConfusion _ _).trans
        ((Function.update_of_ne Var.noConfusion _ _).trans hp)
    have hpu' : p ≠ pu := fun heq => Var.noConfusion (h.ledger.unique hp (heq.symm ▸ hpu))
    have hpm' : p ≠ pm := fun heq => Var.noConfusion (h.ledger.unique hp (heq.symm ▸ hpm))
    calc h₈.load p
        = h₇.load p := hothers₈ p (hne_obj hp)
      _ = (h₅.malloc Block.fresh).2.load p := hothers₇ p (Heap.ne_next (hl₅.live_var hp₂))
      _ = h₅.load p := Heap.load_malloc _ _ (Heap.ne_next (hl₅.live_var hp₂))
      _ = h₄.load p := hothers₅ p (hne_obj hp)
      _ = h₃.load p := hothers₄ p hpm'
      _ = (h₁.malloc Block.fresh).2.load p := hothers₃ p hpu'
      _ = h₁.load p := hload₂ hp
      _ = m.heap.load p := hothers₁ p hpm'

theorem newPair_lv (heap : Heap Block) (m : Mem) (c : Static) :
    (newPair heap m).vars (.lv c) = m.vars (.lv c) := by
  simp [newPair]

/-- Two new objects, in a heap in which the records stand as before. -/
theorem newPair_spec {heap : Heap Block} {m : Mem} {rest : List ℕ}
    (hl : Heap.Ledger heap (Function.update (Function.update m.vars .updates none) .metaMap none)
      rest)
    (hrecord : ∀ {c p}, m.vars (.lv c) = some p → ∃ v, m.heap.load p = some (.record c v))
    (hloads : ∀ {c p}, m.vars (.lv c) = some p → heap.load p = m.heap.load p) :
    Tidy (newPair heap m) rest ∧ (newPair heap m).view = m.view.fresh := by
  have hl₁ := (hl.malloc (.values [])).assign (x := .updates)
    ((Function.update_of_ne (by decide) _ _).trans (Function.update_self ..))
  have hl₂ := (hl₁.malloc (.metaMap [])).assign (x := .metaMap)
    ((Function.update_of_ne (by decide) _ _).trans (Function.update_self ..))
  generalize hu : (heap.malloc (.values [])).1 = pu at hl₁ hl₂
  generalize hm : ((heap.malloc (.values [])).2.malloc (.metaMap [])).1 = pm at hl₂
  have hnew : newPair heap m = ⟨((heap.malloc (.values [])).2.malloc (.metaMap [])).2,
      Function.update (Function.update m.vars .updates (some pu)) .metaMap (some pm),
      { m.globals with calls := [] }⟩ := by
    rw [← hm, ← hu]
    rfl
  have hvars : Function.update (Function.update (Function.update (Function.update m.vars
        .updates none) .metaMap none) .updates (some pu)) .metaMap (some pm)
      = (newPair heap m).vars := by
    rw [hnew]
    funext x
    cases x <;> simp
  rw [hvars] at hl₂
  have hheap : (newPair heap m).heap = ((heap.malloc (.values [])).2.malloc (.metaMap [])).2 := by
    rw [hnew]
  rw [← hheap] at hl₂
  have hpu : (newPair heap m).vars .updates = some pu := by
    simp [hnew]
  have hpm : (newPair heap m).vars .metaMap = some pm := by
    simp [hnew]
  have hmetas : (newPair heap m).heap.load pm = some (.metaMap []) := by
    rw [hheap, ← hm]
    exact Heap.load_malloc_self _ _
  have hvalues : (newPair heap m).heap.load pu = some (.values []) := by
    rw [hheap, ← hu]
    exact (Heap.load_malloc _ _ (Heap.ne_next (by rw [Heap.load_malloc_self]; rfl))).trans
      (Heap.load_malloc_self _ _)
  have hlv : ∀ {c p}, m.vars (.lv c) = some p →
      (newPair heap m).heap.load p = m.heap.load p := by
    intro c p hp
    have hp₁ : Function.update (Function.update m.vars .updates none) .metaMap none (.lv c)
        = some p :=
      (Function.update_of_ne Var.noConfusion _ _).trans
        ((Function.update_of_ne Var.noConfusion _ _).trans hp)
    have hp₂ : Function.update (Function.update (Function.update m.vars .updates none) .metaMap
        none) .updates (some pu) (.lv c) = some p :=
      (Function.update_of_ne Var.noConfusion _ _).trans hp₁
    rw [hheap, Heap.load_malloc _ _ (Heap.ne_next (hl₁.live_var hp₂)),
      Heap.load_malloc _ _ (Heap.ne_next (hl.live_var hp₁)), hloads hp]
  refine ⟨⟨hl₂, fun {c p} hp => ?_, ⟨pu, [], hpu, hvalues⟩, ⟨pm, [], hpm, hmetas⟩⟩, ?_⟩
  · rw [newPair_lv] at hp
    obtain ⟨v, hv⟩ := hrecord hp
    exact ⟨v, (hlv hp).trans hv⟩
  · have hlook : ∀ c, (newPair heap m).look c = m.look c := fun c =>
      Mem.look_congr (newPair_lv heap m c) fun p hp => hlv hp
    simp only [Mem.view, State.fresh, hlook, hpu, hpm, Option.bind_some, valuesAt_of_load hvalues,
      metaAt_of_load hmetas, Option.getD_some]
    rfl

/-- **A message** is what the model without memory sends, and its objects are deleted. -/
theorem sendMessage_refines (t : Tick) {m : Mem} {rest : List ℕ} (h : Tidy m rest) :
    ∃ m', sendMessage t m
        = some (⟨m.view.updates, m.view.metaMap ++ [(.total, t.clock.tt)]⟩, m') ∧
      Tidy m' rest ∧ m'.view = m.view.fresh := by
  obtain ⟨heap', hprint, hl, hloads⟩ := printMessage_spec t h
  obtain ⟨htidy, hview⟩ := newPair_spec hl h.record hloads
  refine ⟨newPair heap' m, ?_, htidy, hview⟩
  simp only [sendMessage, hprint, Option.bind_eq_bind, Option.bind_some, Option.pure_def]

/-! ## Runs -/

/-- **The rounds of a run**: its messages, and one block more for each upload. -/
theorem rounds_refines (ts : List Tick) {m : Mem} {rest : List ℕ} (h : Tidy m rest)
    (hnone : uploads m.view.updates = 0) :
    ∃ exited m', rounds ts m = some ((Driver.rounds m.view ts).map Round.message, exited, m') ∧
      (exited = true ↔ (Driver.rounds m.view ts).length < ts.length) ∧
      (exited = false → ∃ rest', Tidy m' rest' ∧
        rest'.length = rest.length + uploads (builtValues (Driver.rounds m.view ts))) := by
  induction ts generalizing m rest with
  | nil =>
    exact ⟨false, m, rfl, iff_of_false Bool.false_ne_true (lt_irrefl 0), fun _ => ⟨rest, h, rfl⟩⟩
  | cons t ts ih =>
    obtain ⟨m₁, htick, hfollows⟩ := loopTick_refines t.lib h
    rcases hcall : Driver.loopTick t.lib m.view with ⟨failed, s₁⟩
    rw [hcall] at htick hfollows
    cases failed with
    | true =>
      refine ⟨true, m₁, ?_, iff_of_true rfl ?_, fun hfalse => Bool.noConfusion hfalse⟩
      · simp only [rounds, htick, rounds_cons_failed hcall, Option.bind_eq_bind, Option.bind_some,
          if_true, Option.pure_def, List.map_nil]
      · rw [rounds_cons_failed hcall]
        exact Nat.succ_pos _
    | false =>
      obtain ⟨hview₁, rest₁, htidy₁, hcount₁⟩ := hfollows rfl
      dsimp only at hview₁ hcount₁
      obtain ⟨m₂, hsend, htidy₂, hview₂⟩ := sendMessage_refines t htidy₁
      rw [hview₁] at hsend hview₂
      have hfresh : uploads m₂.view.updates = 0 := by
        rw [hview₂]
        rfl
      obtain ⟨exited, m', hrounds, hexited, hrest⟩ := ih htidy₂ hfresh
      rw [hview₂] at hrounds hexited hrest
      rw [rounds_cons hcall]
      refine ⟨exited, m', ?_, ?_, fun hok => ?_⟩
      · simp only [rounds, htick, hsend, hrounds, Option.bind_eq_bind, Option.bind_some,
          Option.pure_def, List.map_cons, Round.message, Bool.false_eq_true, if_false]
      · rw [hexited, List.length_cons, List.length_cons, Nat.succ_lt_succ_iff]
      · obtain ⟨rest', htidy', hcount'⟩ := hrest hok
        refine ⟨rest', htidy', ?_⟩
        have hbuilt : uploads (builtValues (⟨t, m.view, s₁⟩ :: Driver.rounds s₁.fresh ts))
            = uploads s₁.updates + uploads (builtValues (Driver.rounds s₁.fresh ts)) := by
          rw [builtValues, List.flatMap_cons, ← builtValues, uploads, List.countP_append]
          rfl
        rw [hbuilt, hcount']
        omega

/-- Whether `axes` is added: not for a machine without axes. -/
theorem axesUpdate_none_eq_nil {v : MachineInfo} : axesUpdate none v = [] ↔ v.axes_count ≤ 0 := by
  have hemit : ∀ a : MachineAxisInfo, (!(emit axisGuards none a).isEmpty) = true := fun _ => rfl
  have hdatum : axesDatum none v
      = (List.range v.axes_count.toNatClampNeg).map fun i => emit axisGuards none (v.axes i) := rfl
  rw [axesUpdate, hdatum, List.any_map]
  constructor
  · intro h
    by_contra hpos
    have hmem : 0 ∈ List.range v.axes_count.toNatClampNeg :=
      List.mem_range.mpr (RecordCheck.toNatClampNeg_pos.mpr (Int16.not_le.mp hpos))
    rw [if_pos (List.any_eq_true.mpr ⟨0, hmem, hemit (v.axes 0)⟩)] at h
    exact absurd h (List.cons_ne_nil _ _)
  · intro h
    have hzero : v.axes_count.toNatClampNeg = 0 :=
      Nat.eq_zero_of_not_pos fun hpos =>
        absurd (RecordCheck.toNatClampNeg_pos.mp hpos) (Int16.not_lt.mpr h)
    rw [hzero]
    rfl

/-- **The machine information**: the array of the axes is lost where it is not added. -/
theorem checkMachineInfo_refines {m : Mem} {rest : List ℕ} (h : Tidy m rest) (v : MachineInfo)
    (divisors : Nat → ℚ) :
    ∃ m' rest', checkMachineInfo (some (v, divisors)) m = some (false, m') ∧
      m'.view = (Driver.checkMachineInfo (some (v, divisors)) m.view).2 ∧ Tidy m' rest' ∧
      rest'.length = rest.length + if axesUpdate (m.look .info) v = [] then 1 else 0 := by
  obtain ⟨htidy₁, hshows₁⟩ := h.malloc .fresh
  obtain ⟨heap₂, hstore, htidy₂, hshows₂, hload₂, -⟩ :=
    htidy₁.store List.mem_cons_self (.record .info v)
  have hread : readLv { m with heap := heap₂ } .info = some (m.look .info) :=
    (readLv_eq htidy₂ .info).trans
      (congrArg some ((hshows₂.look .info).trans (hshows₁.look .info)))
  obtain ⟨htidy₃, hshows₃⟩ := htidy₂.malloc .array
  have hne : (m.heap.malloc Block.fresh).1 ≠ (heap₂.malloc .array).1 :=
    Heap.ne_next (htidy₂.ledger.live_rest List.mem_cons_self)
  have hload₃ : (heap₂.malloc .array).2.load (m.heap.malloc Block.fresh).1
      = some (.record .info v) := (Heap.load_malloc _ _ hne).trans hload₂
  obtain ⟨heap₄, rest', hadopt, htidy₄, hshows₄, hload₄, hlength⟩ : ∃ heap₄ rest',
      adoptAxes (heap₂.malloc .array).2 (heap₂.malloc .array).1 (axesUpdate (m.look .info) v)
        = some heap₄ ∧
      Tidy { m with heap := heap₄ } ((m.heap.malloc Block.fresh).1 :: rest') ∧
      Shows { m with heap := (heap₂.malloc .array).2 } { m with heap := heap₄ } ∧
      heap₄.load (m.heap.malloc Block.fresh).1 = some (.record .info v) ∧
      rest'.length = rest.length + if axesUpdate (m.look .info) v = [] then 1 else 0 := by
    unfold adoptAxes
    split
    next =>
      exact ⟨_, (heap₂.malloc .array).1 :: rest, rfl,
        ⟨htidy₃.ledger.swap, htidy₃.record, htidy₃.updates, htidy₃.metaMap⟩,
        ⟨rfl, fun _ => rfl⟩, hload₃, rfl⟩
    next =>
      obtain ⟨heap₄, hfree, htidy₄, hshows₄, hothers₄⟩ := htidy₃.free
      exact ⟨heap₄, rest, hfree, htidy₄, hshows₄, (hothers₄ _ hne).trans hload₃, rfl⟩
  obtain ⟨heap₅, hpublish, htidy₅, hview₅, hloads₅⟩ :=
    htidy₄.publish (emit infoGuards (m.look .info) v ++ axesUpdate (m.look .info) v) .info
      v.executionDuration
  obtain ⟨m₆, hreplace, hglobals, htidy₆, hview₆⟩ :=
    htidy₅.replaceLv ((hloads₅ _ List.mem_cons_self).trans hload₄)
  have hview : ({ m with heap := heap₄ } : Mem).view = m.view :=
    hshows₄.view.trans (hshows₃.view.trans (hshows₂.view.trans hshows₁.view))
  have hstore' : (m.heap.malloc Block.fresh).2.store (m.heap.malloc .fresh).1 (.record .info v)
      = some heap₂ := hstore
  refine ⟨_, rest', ?_, ?_, htidy₆.globals { m₆.globals with
    deviceID := v.id.take 127, axisCount := v.axes_count, divisors := divisors }, hlength⟩
  · simp only [checkMachineInfo, hstore', hread, hadopt, hpublish, hreplace, Option.bind_eq_bind,
      Option.bind_some, Option.pure_def]
  · show { m₆.view with
      deviceID := v.id.take 127, axisCount := v.axes_count, divisors := divisors } = _
    rw [hview₆, hview₅, hview]
    rfl

/-- `checkMachineInfo` uploads nothing. -/
theorem uploads_checkMachineInfo (maxAxis : Short) (v : MachineInfo) (divisors : Nat → ℚ) :
    uploads (Driver.checkMachineInfo (some (v, divisors)) (State.init maxAxis)).2.updates = 0 := by
  show List.countP _ ([] ++ (emit infoGuards none v ++ axesUpdate none v)) = 0
  rw [List.nil_append, List.countP_append, Nat.add_eq_zero_iff]
  constructor
  · refine List.countP_eq_zero.mpr fun u hu hsize => ?_
    obtain ⟨g, hg, -, rfl⟩ := mem_emit.mp hu
    have hkeys : Key.program_size ∉ infoGuards.map Guard.key := by decide
    exact hkeys (of_decide_eq_true hsize ▸ List.mem_map_of_mem hg)
  · unfold axesUpdate
    split <;> rfl

/-- Nothing is allocated but the two objects. -/
theorem init_tidy (maxAxis : Short) :
    Tidy (Mem.init maxAxis) [] ∧ (Mem.init maxAxis).view = State.init maxAxis := by
  refine newPair_spec ?_ (fun hp => absurd hp.symm (Option.some_ne_none _))
    fun hp => absurd hp.symm (Option.some_ne_none _)
  have hvars : Function.update (Function.update (fun _ => none) Var.updates none) Var.metaMap none
      = (fun _ => none : Var → Option ℕ) := by
    rw [Function.update_eq_self_iff.mpr rfl]
    exact Function.update_eq_self_iff.mpr rfl
  show Heap.Ledger Heap.empty (Function.update (Function.update (fun _ => none) Var.updates none)
    Var.metaMap none) []
  rw [hvars]
  exact Heap.Ledger.empty

/-- **What becomes of the memory.** No run frees a block twice or reads one that was freed, and
its messages are those of the model without memory. As long as it has not exited, every
pointer it keeps points to a live block of its own, and the blocks nobody points to are one for
each `program_size` sent and one for the axes of a machine without axes. -/
theorem main_memory (maxAxis : Short) (info : InfoReply) (ts : List Tick) :
    ∃ exited m,
      main maxAxis info ts = some ((mainRounds maxAxis info ts).map Round.message, exited, m) ∧
      (exited = true ↔ getMachineInfo info (fun _ => 0) = none ∨
        (mainRounds maxAxis info ts).length < ts.length) ∧
      (exited = false →
        (∀ x p, m.vars x = some p → p ∈ m.heap.live) ∧
        (∀ x y p, m.vars x = some p → m.vars y = some p → x = y) ∧
        ∃ v divisors, getMachineInfo info (fun _ => 0) = some (v, divisors) ∧
          (m.heap.leaked m.vars).card = uploads (builtValues (mainRounds maxAxis info ts))
            + if v.axes_count ≤ 0 then 1 else 0) := by
  obtain ⟨htidy, hview⟩ := init_tidy maxAxis
  unfold main mainRounds start
  cases hinfo : getMachineInfo info fun _ => 0 with
  | none =>
    obtain ⟨heap', hfree⟩ := htidy.malloc_free
    refine ⟨true, { Mem.init maxAxis with heap := heap' }, ?_, iff_of_true rfl (.inl rfl),
      fun hfalse => Bool.noConfusion hfalse⟩
    simp only [checkMachineInfo, hfree, Option.bind_eq_bind, Option.bind_some, Option.pure_def,
      if_true]
    rfl
  | some r =>
    obtain ⟨v, divisors⟩ := r
    obtain ⟨m₁, rest₁, hcheck, hview₁, htidy₁, hlength⟩ := checkMachineInfo_refines htidy v divisors
    rw [hview] at hview₁
    have hlook : (Mem.init maxAxis).look .info = none := congrArg State.infoLv hview
    rw [hlook] at hlength
    have hnone : uploads m₁.view.updates = 0 := by
      rw [hview₁]
      exact uploads_checkMachineInfo maxAxis v divisors
    obtain ⟨exited, m', hrounds, hexited, hrest⟩ := rounds_refines ts htidy₁ hnone
    rw [hview₁] at hrounds hexited hrest
    refine ⟨exited, m', ?_, ?_, fun hok => ?_⟩
    · simp only [hcheck, Option.bind_eq_bind, Option.bind_some, Bool.false_eq_true, if_false]
      exact hrounds
    · rw [hexited]
      exact (or_iff_right (Option.some_ne_none _)).symm
    · obtain ⟨rest', htidy', hcount⟩ := hrest hok
      refine ⟨fun x p hx => Heap.mem_live.mpr (htidy'.ledger.live_var hx),
        fun x y p hx hy => htidy'.ledger.unique hx hy, v, divisors, rfl, ?_⟩
      rw [htidy'.ledger.card_leaked, hcount, hlength, List.length_nil, Nat.zero_add, Nat.add_comm]
      simp only [axesUpdate_none_eq_nil]
      rfl

/-- A program change in the second round: two uploads. -/
def uploadTicks : List Tick :=
  [sampleTick .noError sampleReadings, sampleTick .noError { sampleReadings with mprogram := 200 }]

theorem main_memory_two_uploads :
    ∃ messages m, main 32 sampleInfo uploadTicks = some (messages, false, m) ∧
      (m.heap.leaked m.vars).card = 2 := by
  obtain ⟨exited, m, hmain, hexited, hleaked⟩ := main_memory 32 sampleInfo uploadTicks
  have hlength : (mainRounds 32 sampleInfo uploadTicks).length = 2 := by decide +kernel
  have hinfo : (getMachineInfo sampleInfo fun _ => 0).map (·.1.axes_count) = some 1 := rfl
  have hok : exited = false := by
    refine Bool.eq_false_iff.mpr fun h => ?_
    rcases hexited.mp h with hnone | hlt
    · rw [hnone] at hinfo
      exact Option.some_ne_none _ hinfo.symm
    · rw [hlength] at hlt
      exact lt_irrefl 2 hlt
  subst hok
  obtain ⟨-, -, v, divisors, hv, hcard⟩ := hleaked rfl
  rw [hv] at hinfo
  have haxes : v.axes_count = 1 := Option.some.inj hinfo
  have huploads : uploads (builtValues (mainRounds 32 sampleInfo uploadTicks)) = 2 := by
    decide +kernel
  rw [haxes, huploads] at hcard
  exact ⟨_, m, hmain, hcard⟩

end FanucDriver.Driver.Records
