import FanucDriver.Driver.Ticks

/-!
# A check that fails

A check of `check.c` that returns 1 has read and compared, and then given up. Here is said
what such a call leaves behind, and what the tick it fails leaves on the topic.

- `call_failed`: the state is as before, whichever check it is and wherever it stood.
- `failure_traceless`: so are the caches, the shared variables and the two objects; and
  a run in which a tick fails has produced one message for each tick before.

Earlier checks of the failing tick have replaced their caches by then. No message tells:
the process exits, and with it the caches.

Mirroring notes:
- The record that `checkMachineCycleTime` keeps is replaced on its successful path only and
  never read, and the state does without it.
- The globals of `data.c` (`axisCount`, `divisors`) belong to the getters. A library call
  that fails may have written to them.
-/

namespace FanucDriver.Driver

open CheckName

/-- A call of one of the eleven checks. -/
inductive CheckCall where
  | info (r : InfoReply)
  | tick (c : CheckName) (lib : Library)

def CheckCall.run : CheckCall → State → Bool × State
  | info r, s => checkMachineInfo (getMachineInfo r s.divisors) s
  | tick c lib, s => c.call lib s

/-- The static caches of the checks, the variables they share, and the two objects of the
message are the same. -/
structure Untouched (s s' : State) : Prop where
  deviceID : s'.deviceID = s.deviceID
  cProgramNum : s'.cProgramNum = s.cProgramNum
  mProgramNum : s'.mProgramNum = s.mProgramNum
  mProgramPath : s'.mProgramPath = s.mProgramPath
  partCount : s'.partCount = s.partCount
  infoLv : s'.infoLv = s.infoLv
  partCountLv : s'.partCountLv = s.partCountLv
  lastPartCount : s'.lastPartCount = s.lastPartCount
  nameCProgramNum : s'.nameCProgramNum = s.nameCProgramNum
  messageLv : s'.messageLv = s.messageLv
  statusLv : s'.statusLv = s.statusLv
  dynamicLv : s'.dynamicLv = s.dynamicLv
  toolInfoLv : s'.toolInfoLv = s.toolInfoLv
  headerCProgramNum : s'.headerCProgramNum = s.headerCProgramNum
  lastProgramNum : s'.lastProgramNum = s.lastProgramNum
  blockLv : s'.blockLv = s.blockLv
  updates : s'.updates = s.updates
  metaMap : s'.metaMap = s.metaMap

/-! ## One call -/

/-- A check that only fails where its getter does. -/
theorem failed_eq {V : Type} (check : Option V → State → Bool × State) {s called : State}
    {r : Option V} (hnone : (check none s).1 = true → (check none s).2 = called)
    (hsome : ∀ v, (check (some v) s).1 = false) (h : (check r s).1 = true) :
    (check r s).2 = called := by
  cases r with
  | none => exact hnone h
  | some v => exact absurd ((hsome v).symm.trans h) Bool.false_ne_true

/-- **A check that fails has changed nothing**: only the ghost list of library calls grows,
by the upload that failed. -/
theorem call_failed (call : CheckCall) (s : State) (h : (call.run s).1 = true) :
    ∃ calls, (call.run s).2 = { s with calls := calls } := by
  cases call with
  | info r => exact ⟨s.calls, failed_eq checkMachineInfo (fun _ => rfl) (fun _ => rfl) h⟩
  | tick c lib =>
    cases c with
    | partCount =>
      exact ⟨s.calls, failed_eq checkMachinePartCount (fun _ => rfl) (fun _ => rfl) h⟩
    | cycleTime =>
      refine ⟨s.calls, failed_eq checkMachineCycleTime (fun _ => ?_) (fun v => ?_) h⟩ <;>
        unfold checkMachineCycleTime <;> split <;> rfl
    | status => exact ⟨s.calls, failed_eq checkMachineStatus (fun _ => rfl) (fun _ => rfl) h⟩
    | toolInfo => exact absurd h Bool.false_ne_true
    | dynamic => exact ⟨s.calls, failed_eq checkMachineDynamic (fun _ => rfl) (fun _ => rfl) h⟩
    | message => exact ⟨s.calls, failed_eq checkMachineMessage (fun _ => rfl) (fun _ => rfl) h⟩
    | programName =>
      refine ⟨s.calls, failed_eq checkMachineProgramName (fun _ => ?_) (fun v => ?_) h⟩ <;>
        unfold checkMachineProgramName <;> split <;> rfl
    | programHeader =>
      refine ⟨s.calls, failed_eq (r := getMachineProgramHeader lib.header s.cProgramNum)
        (fun r => checkMachineProgramHeader fun _ => r) (fun _ => ?_) (fun v => ?_) h⟩ <;>
        unfold checkMachineProgramHeader <;> split <;> rfl
    | programContents =>
      -- the upload was asked for before it failed
      refine ⟨s.calls ++ [.upload s.mProgramPath],
        failed_eq (fun r => checkMachineProgramContents fun _ => r) (fun hfail => ?_)
          (fun v => ?_) h⟩
      · unfold checkMachineProgramContents at hfail ⊢
        split at hfail
        next hp => rw [if_pos hp]
        next => exact absurd hfail Bool.false_ne_true
      · unfold checkMachineProgramContents
        split <;> rfl
    | block => exact ⟨s.calls, failed_eq checkMachineBlock (fun _ => rfl) (fun _ => rfl) h⟩

theorem untouched_of_failed (call : CheckCall) (s : State) (h : (call.run s).1 = true) :
    Untouched s (call.run s).2 := by
  obtain ⟨calls, heq⟩ := call_failed call s h
  rw [heq]
  exact ⟨rfl, rfl, rfl, rfl, rfl, rfl, rfl, rfl, rfl, rfl, rfl, rfl, rfl, rfl, rfl, rfl, rfl, rfl⟩

/-! ## The run -/

/-- The state in which the next tick starts, when no tick failed. -/
def stateAfter : State → List Tick → Option State
  | s, [] => some s
  | s, t :: ts =>
    match loopTick t.lib s with
    | (true, _) => none
    | (false, s') => stateAfter s'.fresh ts

/-- Up to a tick that fails there is one round for each tick, and none from there on. -/
theorem rounds_failed {s s' : State} {pre : List Tick} {t : Tick} (post : List Tick)
    (hs : stateAfter s pre = some s') (h : (loopTick t.lib s').1 = true) :
    rounds s (pre ++ t :: post) = rounds s pre ∧ (rounds s pre).map Round.tick = pre := by
  induction pre generalizing s with
  | nil =>
    obtain rfl := Option.some.inj hs
    exact ⟨rounds_cons_failed (Prod.ext h rfl), rfl⟩
  | cons u pre ih =>
    rw [stateAfter] at hs
    rcases hu : loopTick u.lib s with ⟨failed, s₁⟩
    rw [hu] at hs
    cases failed with
    | true => exact absurd hs.symm (Option.some_ne_none s')
    | false =>
      obtain ⟨hrounds, hticks⟩ := ih hs
      rw [List.cons_append, rounds_cons hu, rounds_cons hu, hrounds, List.map_cons, hticks]
      exact ⟨rfl, rfl⟩

/-- **A failing check leaves no trace.** Whichever check it is, in whatever state it is
called and whatever the library answers: where it returns 1, the caches, the shared
variables and the two objects are as before the call. And in every run, when a tick fails
the messages produced are those of the ticks before it, one for each. -/
theorem failure_traceless :
    (∀ (call : CheckCall) (s : State), (call.run s).1 = true → Untouched s (call.run s).2) ∧
    ∀ (maxAxis : Short) (info : InfoReply) (pre : List Tick) (t : Tick) (post : List Tick)
      (s s' : State), start maxAxis info = some s → stateAfter s pre = some s' →
        (loopTick t.lib s').1 = true →
        (mainRounds maxAxis info (pre ++ t :: post)).map Round.message
            = (mainRounds maxAxis info pre).map Round.message ∧
          (mainRounds maxAxis info pre).map Round.tick = pre := by
  refine ⟨untouched_of_failed, ?_⟩
  intro maxAxis info pre t post s s' hstart hs hfail
  obtain ⟨hrounds, hticks⟩ := rounds_failed post hs hfail
  unfold mainRounds
  rw [hstart]
  exact ⟨congrArg (List.map Round.message) hrounds, hticks⟩

/-- A control that answers every call but the last of a tick. -/
def sampleBlockFailed : Tick :=
  { sampleTick .noError sampleReadings with
    lib := { sampleLibrary sampleReadings with
      block := { clock := sampleClock, rdexecprog := none, rdactpt := .ok 1, mem := [] } } }

/-- The second of three ticks fails in its last check: one message was produced. -/
theorem failure_traceless_block :
    (mainRounds 32 sampleInfo [sampleTick .noError sampleReadings, sampleBlockFailed,
      sampleTick .noError sampleReadings]).length = 1 := by
  have h := (failure_traceless.2 32 sampleInfo [sampleTick .noError sampleReadings]
    sampleBlockFailed [sampleTick .noError sampleReadings] _ _ rfl rfl rfl).1
  have hlength := congrArg List.length h
  rw [List.length_map, List.length_map] at hlength
  exact hlength

end FanucDriver.Driver
