import FanucDriver.Driver.Check

/-!
# `main.c`: the tick and the polling loop

`loopTick` is the `||` chain of ten checks; `rounds` are the rounds of `main`'s
do-while: tick, build the message, hand it to `rd_kafka_producev`, start a new
pair of objects. A tick that fails exits the process.

Mirroring notes:
- `updates` and `meta` first hold what `checkMachineInfo` added before the loop,
  so the first message carries it.
- The printed object is never empty, so the `vlen == 0` branch is dead.
- The result of `rd_kafka_producev` is logged and not otherwise used, so it is
  part of a round's input and of nothing else.
- `runningCondition` only decides how long the run is.
-/

namespace FanucDriver.Driver

/-- What the library answers during one tick. -/
structure Library where
  partCount : PartCountReply
  cycleTime : CycleTimeReply
  status : StatusReply
  toolInfo : ToolInfoReply
  dynamic : DynamicReply
  message : MessageReply
  programName : ProgramNameReply
  header : HeaderReply
  contents : ContentsReply
  block : BlockReply

/-- The checks of a tick, in the order of the `||` chain. -/
def tickChecks (lib : Library) : List (State → Bool × State) :=
  [fun s => checkMachinePartCount (getMachinePartCount lib.partCount) s,
   fun s => checkMachineCycleTime (getMachineCycleTime lib.cycleTime) s,
   fun s => checkMachineStatus (getMachineStatus lib.status) s,
   fun s => checkMachineToolInfo (getMachineToolInfo lib.toolInfo s.toolFlags) s,
   fun s => checkMachineDynamic (getMachineDynamic lib.dynamic s.axisCount s.divisors) s,
   fun s => checkMachineMessage (getMachineMessage lib.message) s,
   fun s => checkMachineProgramName (getMachineProgramName lib.programName) s,
   fun s => checkMachineProgramHeader (getMachineProgramHeader lib.header) s,
   fun s => checkMachineProgramContents (fun _ => getMachineProgramContents lib.contents) s,
   fun s => checkMachineBlock (getMachineBlock lib.block) s]

/-- C's `||`: the first check that fails ends the chain. -/
def runChecks : List (State → Bool × State) → State → Bool × State
  | [], s => (false, s)
  | check :: checks, s =>
    match check s with
    | (true, s') => (true, s')
    | (false, s') => runChecks checks s'

/-- `loop_tick` -/
def loopTick (lib : Library) (s : State) : Bool × State :=
  runChecks (tickChecks lib) s

/-- `rd_kafka_resp_err_t`, as far as `main` looks at it. -/
inductive Produced where
  | noError
  | queueFull
  | failed
  deriving DecidableEq

/-- The input of one round of the loop. -/
structure Tick where
  lib : Library
  clock : Clock
  produced : Produced

/-- The printed object. -/
structure Message where
  values : Updates
  metaMap : Meta

/-- A new pair of cJSON objects. -/
def State.fresh (s : State) : State :=
  { s with updates := [], metaMap := [], calls := [] }

/-- A round of the loop whose tick succeeded: the state it started from and the
state `loop_tick` left. -/
structure Round where
  tick : Tick
  before : State
  after : State

/-- The message a round builds and hands to `rd_kafka_producev`. -/
def Round.message (r : Round) : Message where
  values := r.after.updates
  metaMap := r.after.metaMap ++ [(.total, r.tick.clock.tt)]

/-- `rd_kafka_producev` accepted the message of this round. -/
def Round.accepted (r : Round) : Bool := r.tick.produced = .noError

/-- The rounds of a run, up to the first tick that fails: the process then exits
without a message. -/
def rounds : State → List Tick → List Round
  | _, [] => []
  | s, t :: ts =>
    match loopTick t.lib s with
    | (true, _) => []
    | (false, s') => { tick := t, before := s, after := s' } :: rounds s'.fresh ts

/-- `main` up to the loop: `none` when the machine information cannot be read. -/
def start (maxAxis : Short) (info : InfoReply) : Option State :=
  match checkMachineInfo (getMachineInfo info fun _ => 0) (State.init maxAxis) with
  -- the process exits
  | (true, _) => none
  | (false, s) => some s

/-- Every round of a run of the program. -/
def mainRounds (maxAxis : Short) (info : InfoReply) (ts : List Tick) : List Round :=
  match start maxAxis info with
  | none => []
  | some s => rounds s ts

/-! ## What a tick does -/

/-- A run that starts has read the machine information. -/
theorem exists_of_start {maxAxis : Short} {info : InfoReply} {s : State}
    (h : start maxAxis info = some s) :
    ∃ r, getMachineInfo info (fun _ => 0) = some r ∧
      (checkMachineInfo (some r) (State.init maxAxis)).2 = s := by
  unfold start at h
  cases hinfo : getMachineInfo info fun _ => 0 with
  | none => rw [hinfo] at h; exact absurd h.symm (Option.some_ne_none s)
  | some r => rw [hinfo] at h; exact ⟨r, rfl, Option.some.inj h⟩

/-- The chain succeeds exactly when every check does, each from the state the one
before it left. -/
theorem runChecks_success {check : State → Bool × State} {checks : List (State → Bool × State)}
    {s s' : State} :
    runChecks (check :: checks) s = (false, s') ↔
      ∃ s₁, check s = (false, s₁) ∧ runChecks checks s₁ = (false, s') := by
  simp only [runChecks]
  split
  next s₁ h => simp [h]
  next s₁ h => simp [h]

theorem runChecks_append {checks checks' : List (State → Bool × State)} {s s' : State} :
    runChecks (checks ++ checks') s = (false, s') ↔
      ∃ s₁, runChecks checks s = (false, s₁) ∧ runChecks checks' s₁ = (false, s') := by
  induction checks generalizing s with
  | nil => simp [runChecks]
  | cons check checks ih =>
    simp only [List.cons_append, runChecks_success, ih]
    constructor
    · intro h
      obtain ⟨s₁, h₁, s₂, h₂, h₃⟩ := h
      exact ⟨s₂, ⟨s₁, h₁, h₂⟩, h₃⟩
    · intro h
      obtain ⟨s₂, ⟨s₁, h₁, h₂⟩, h₃⟩ := h
      exact ⟨s₁, h₁, s₂, h₂, h₃⟩

/-- What every check of a chain preserves, the chain preserves. -/
theorem runChecks_preserves {checks : List (State → Bool × State)} {P : State → Prop}
    (hstep : ∀ check ∈ checks, ∀ s s', check s = (false, s') → P s → P s') {s s' : State}
    (h : runChecks checks s = (false, s')) (hs : P s) : P s' := by
  induction checks generalizing s with
  | nil =>
    obtain rfl : s = s' := congrArg Prod.snd h
    exact hs
  | cons check checks ih =>
    obtain ⟨s₁, h₁, hrest⟩ := runChecks_success.mp h
    exact ih (fun c hc => hstep c (List.mem_cons_of_mem _ hc)) hrest
      (hstep check List.mem_cons_self s s₁ h₁ hs)

/-- The rounds of a run start where the one before ended, on a new message. -/
theorem rounds_cons {s : State} {t : Tick} {ts : List Tick} {s' : State}
    (h : loopTick t.lib s = (false, s')) :
    rounds s (t :: ts) = { tick := t, before := s, after := s' } :: rounds s'.fresh ts := by
  simp only [rounds, h]

theorem rounds_cons_failed {s : State} {t : Tick} {ts : List Tick} {s' : State}
    (h : loopTick t.lib s = (true, s')) : rounds s (t :: ts) = [] := by
  simp only [rounds, h]

/-- What a successful tick keeps holds at the start of every round. -/
theorem rounds_invariant {P : State → Prop}
    (hstep : ∀ lib s s', P s → loopTick lib s = (false, s') → P s'.fresh) {s : State} (hs : P s)
    (ts : List Tick) : ∀ r ∈ rounds s ts, P r.before := by
  induction ts generalizing s with
  | nil => exact fun r hr => absurd hr List.not_mem_nil
  | cons t ts ih =>
    rcases ht : loopTick t.lib s with ⟨failed, s'⟩
    cases failed with
    | true => rw [rounds_cons_failed ht]; exact fun r hr => absurd hr List.not_mem_nil
    | false =>
      rw [rounds_cons ht]
      intro r hr
      rcases List.mem_cons.mp hr with rfl | hr
      · exact hs
      · exact ih (hstep t.lib s s' hs ht) r hr

theorem loopTick_of_mem {s : State} {ts : List Tick} {r : Round} (h : r ∈ rounds s ts) :
    loopTick r.tick.lib r.before = (false, r.after) := by
  induction ts generalizing s with
  | nil => exact absurd h List.not_mem_nil
  | cons t ts ih =>
    rcases ht : loopTick t.lib s with ⟨failed, s'⟩
    cases failed with
    | true => rw [rounds_cons_failed ht] at h; exact absurd h List.not_mem_nil
    | false =>
      rw [rounds_cons ht] at h
      rcases List.mem_cons.mp h with rfl | h
      · exact ht
      · exact ih h

theorem tick_of_mem {s : State} {ts : List Tick} {r : Round} (h : r ∈ rounds s ts) :
    r.tick ∈ ts := by
  induction ts generalizing s with
  | nil => exact absurd h List.not_mem_nil
  | cons t ts ih =>
    rcases ht : loopTick t.lib s with ⟨failed, s'⟩
    cases failed with
    | true => rw [rounds_cons_failed ht] at h; exact absurd h List.not_mem_nil
    | false =>
      rw [rounds_cons ht] at h
      rcases List.mem_cons.mp h with rfl | h
      · exact List.mem_cons_self
      · exact List.mem_cons_of_mem t (ih h)

/-- A run with a first round: it starts in the state of the run, and the others are the run
from the state after it. -/
theorem rounds_cons_inv {s : State} {ts : List Tick} {r : Round} {rs : List Round}
    (h : rounds s ts = r :: rs) : ∃ ts', r.before = s ∧ rs = rounds r.after.fresh ts' := by
  cases ts with
  | nil => exact absurd h.symm (List.cons_ne_nil r rs)
  | cons t ts =>
    rcases ht : loopTick t.lib s with ⟨failed, s'⟩
    cases failed with
    | true =>
      rw [rounds_cons_failed ht] at h
      exact absurd h.symm (List.cons_ne_nil r rs)
    | false =>
      rw [rounds_cons ht] at h
      obtain ⟨rfl, rfl⟩ := List.cons.inj h
      exact ⟨ts, rfl, rfl⟩

/-- The first round starts in the state of the run. -/
theorem rounds_first {s : State} {ts : List Tick} {r : Round} (h : r ∈ (rounds s ts).head?) :
    r.before = s := by
  obtain ⟨rs, hrs⟩ := List.head?_eq_some_iff.mp h
  obtain ⟨-, hbefore, -⟩ := rounds_cons_inv hrs
  exact hbefore

/-- A round starts where the one before ended. -/
theorem rounds_successive {s : State} {ts : List Tick} {p : List Round} {a b : Round}
    (h : p ++ [a, b] <+: rounds s ts) : b.before = a.after.fresh := by
  obtain ⟨rest, hrest⟩ := h
  induction p generalizing s ts with
  | nil =>
    obtain ⟨ts', -, hnext⟩ := rounds_cons_inv hrest.symm
    have hhead : b ∈ (rounds a.after.fresh ts').head? :=
      Option.mem_def.mpr (congrArg List.head? hnext.symm)
    exact rounds_first hhead
  | cons c p ih =>
    obtain ⟨ts', -, hnext⟩ := rounds_cons_inv hrest.symm
    exact ih hnext

/-! ## A sample control -/

/-- The readings the concrete runs of this development vary; everything else a
control reports stays put. -/
structure SampleReadings where
  partCount : Long
  cprogram : Long
  mprogram : Long
  path : CStr
  loadData : Long
  loadDec : Short

def sampleReadings : SampleReadings where
  partCount := 5
  cprogram := 100
  mprogram := 100
  path := "//CNC_MEM/A".toList
  loadData := 50
  loadDec := 0

def sampleClock : Clock := ⟨⟨0, 0⟩, ⟨0, 0⟩⟩

/-- A control with one axis and three decimals that answers every call. -/
def sampleLibrary (v : SampleReadings) : Library where
  partCount := { clock := sampleClock, rdparam := some v.partCount }
  cycleTime := { clock := sampleClock, rdtimer := some { minute := 1, msec := 500 } }
  status :=
    { clock := sampleClock
      statinfo := some { alarm := 0, aut := 1, edit := 0, emergency := 0, hdck := 0, motion := 0,
                         mstb := 0, run := 3 } }
  toolInfo :=
    { clock := sampleClock
      rdntool := some { datano := 1, data := 2 }
      modal := none
      mem := { executionDuration := 0, id := 0, group := 0 } }
  dynamic :=
    { clock := sampleClock
      rddynamic2 := some
        { alarm := 0, prgnum := v.cprogram, prgmnum := v.mprogram, seqnum := 10, actf := 0,
          acts := 0, absolute := fun _ => 1000, machine := fun _ => 1000,
          relative := fun _ => 1000 }
      rdsvmeter := some (1, fun _ => { data := v.loadData, dec := v.loadDec })
      mem := { absolute := fun _ => 0, relative := fun _ => 0, actual := fun _ => 0,
               load := fun _ => 0 } }
  message := { clock := sampleClock, rdopmsg := some { datano := -1, data := [] } }
  programName :=
    { clock := sampleClock
      exeprgname := some "O100".toList
      exeprgname2 := if h : v.path.length < 256 then some ⟨v.path, h⟩ else none }
  header :=
    { clock := sampleClock, upstart := .ok (), retries := 0
      upload3 := .ok ⟨"%\nO100\nG0".toList, by decide⟩, upend3 := .ok (), garbage := [] }
  contents :=
    { clock := sampleClock, upstart4 := .ok (), upload4 := [some ⟨"G0".toList, by decide⟩]
      upload4End := .other 2, upend4 := .ok () }
  block :=
    { clock := sampleClock
      rdexecprog := some (2, ⟨List.replicate 2048 '\x00', List.length_replicate⟩)
      rdactpt := .ok 1
      mem := [] }

def sampleTick (produced : Produced) (v : SampleReadings) : Tick where
  lib := sampleLibrary v
  clock := sampleClock
  produced := produced

def sampleInfo : InfoReply where
  clock := sampleClock
  sysinfo := some { addinfo := 0, max_axis := 32, cnc_type := "30".toList, mt_type := " M".toList,
                    series := "G301".toList, version := "01.0".toList, axes := "01".toList }
  rdcncid := some (1, 2, 3, 4)
  rdetherinfo := some (1, 2)
  rdaxisdata := some fun _ => { name := "X".toList, data := 0, dec := 3, unit := 0, flag := 1 }
  getfigure := some fun _ => 3
  rdaxisname := some (1, fun _ => { name := 'X', suff := '\x00' })
  mem := fun _ =>
    { id := [], index := 0, suffix := [], divisor := 0, name := [], flag := 0, unit := 0,
      unith := [], decimal := 0 }

end FanucDriver.Driver
