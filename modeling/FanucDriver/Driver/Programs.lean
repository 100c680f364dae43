import FanucDriver.Driver.Main

/-!
# Program numbers, path and upload

Three checks hand the executing programs on inside one tick: the dynamic check
writes the shared `cProgramNum` and `mProgramNum`, the program name check reads
the path when the current program (`cProgramNum`) moved, and the contents check
uploads from that path when the main program (`mProgramNum`) moved. The README
asks for the path on either change.

`ProgramView` is what the three share. The other seven checks leave it alone, so
one lemma per check and `loopTick_programs` describe a whole tick:

> after a successful tick the shared numbers and both private copies are the
> numbers read in it, the path was read exactly on a change of the current
> program, and the upload ran exactly on a change of the main program, from the
> path of that moment.

`upload_path_current_iff` follows: an upload uses a path read in its own tick iff
the main program never moves alone.
-/

namespace FanucDriver.Driver

open FanucDriver.Lib

/-- What the dynamic, program name and contents checks hand on. -/
structure ProgramView where
  cProgramNum : Short
  mProgramNum : Short
  mProgramPath : CStr
  nameCProgramNum : Short
  lastProgramNum : Short
  /-- The program numbers of the dynamic check's static record. -/
  numbers : Option (Short × Short)
  calls : List LibCall

def State.programs (s : State) : ProgramView where
  cProgramNum := s.cProgramNum
  mProgramNum := s.mProgramNum
  mProgramPath := s.mProgramPath
  nameCProgramNum := s.nameCProgramNum
  lastProgramNum := s.lastProgramNum
  numbers := s.dynamicLv.map fun v => (v.cprogram, v.mprogram)
  calls := s.calls

/-- The shared numbers are those of the static record, once there is one. -/
def ProgramView.Follows (p : ProgramView) : Prop :=
  ∀ n ∈ p.numbers, (p.cProgramNum, p.mProgramNum) = n

/-- After the dynamic check, which read `now`. -/
def ProgramView.read (p : ProgramView) (now : Short × Short) : ProgramView :=
  { p with cProgramNum := now.1, mProgramNum := now.2, numbers := some now }

/-- After the program name check, to which the control reports `path`. -/
def ProgramView.named (p : ProgramView) (path : CStr) : ProgramView :=
  if p.nameCProgramNum ≠ p.cProgramNum then
    { p with
      mProgramPath := path
      nameCProgramNum := p.cProgramNum
      calls := p.calls ++ [.exeprgname2 path] }
  else p

/-- After the contents check. -/
def ProgramView.uploaded (p : ProgramView) : ProgramView :=
  if p.lastProgramNum ≠ p.mProgramNum then
    { p with
      lastProgramNum := p.mProgramNum
      calls := p.calls ++ [.upload p.mProgramPath] }
  else p

/-! ## Frames -/

theorem checkMachinePartCount_programs (r : Option MachinePartCount) (s : State) :
    (checkMachinePartCount r s).2.programs = s.programs := by
  cases r <;> rfl

theorem checkMachineCycleTime_programs (r : Option MachineCycleTime) (s : State) :
    (checkMachineCycleTime r s).2.programs = s.programs := by
  unfold checkMachineCycleTime
  split
  · cases r <;> rfl
  · rfl

theorem checkMachineStatus_programs (r : Option MachineStatus) (s : State) :
    (checkMachineStatus r s).2.programs = s.programs := by
  cases r <;> rfl

theorem checkMachineToolInfo_programs (r : MachineToolInfo × ToolFlags) (s : State) :
    (checkMachineToolInfo r s).2.programs = s.programs := rfl

theorem checkMachineMessage_programs (r : Option MachineMessage) (s : State) :
    (checkMachineMessage r s).2.programs = s.programs := by
  cases r <;> rfl

theorem checkMachineProgramHeader_programs (get : Short → Option MachineProgram) (s : State) :
    (checkMachineProgramHeader get s).2.programs = s.programs := by
  unfold checkMachineProgramHeader
  split
  · split <;> rfl
  · rfl

theorem checkMachineBlock_programs (r : Option MachineBlock) (s : State) :
    (checkMachineBlock r s).2.programs = s.programs := by
  cases r <;> rfl

theorem checkMachineInfo_programs (r : Option (MachineInfo × (Nat → ℚ))) (s : State) :
    (checkMachineInfo r s).2.programs = s.programs := by
  cases r <;> rfl

/-! ## The three checks that write -/

/-- The dynamic check publishes its numbers, whether or not they moved. -/
theorem checkMachineDynamic_programs {r : Option MachineDynamic} {s s' : State}
    (hf : s.programs.Follows) (h : checkMachineDynamic r s = (false, s')) :
    ∃ v, r = some v ∧ s'.programs = s.programs.read (v.cprogram, v.mprogram) := by
  cases r with
  | none => exact absurd (congrArg Prod.fst h) (by simp [checkMachineDynamic])
  | some v =>
    obtain rfl := (congrArg Prod.snd h).symm
    have hnums : ∀ l ∈ s.dynamicLv, s.cProgramNum = l.cprogram ∧ s.mProgramNum = l.mprogram := by
      intro l hl
      have hfollows := hf (l.cprogram, l.mprogram) (by simp [State.programs, Option.mem_def.mp hl])
      exact Prod.mk.inj hfollows
    have hc : (if cprogramGuard.fires s.dynamicLv v then v.cprogram else s.cProgramNum)
        = v.cprogram := Guard.onChange_refreshed (fun l hl => (hnums l hl).1) v
    have hm : (if mprogramGuard.fires s.dynamicLv v then v.mprogram else s.mProgramNum)
        = v.mprogram := Guard.onChange_refreshed (fun l hl => (hnums l hl).2) v
    refine ⟨v, rfl, ?_⟩
    show ProgramView.mk
        (if cprogramGuard.fires s.dynamicLv v then v.cprogram else s.cProgramNum)
        (if mprogramGuard.fires s.dynamicLv v then v.mprogram else s.mProgramNum) _ _ _ _ _ = _
    rw [hc, hm]
    rfl

/-- The name check reads the path exactly when the current program moved. -/
theorem checkMachineProgramName_programs {r : Option MachineProgramName} {s s' : State}
    (h : checkMachineProgramName r s = (false, s')) :
    ∃ path, (s.nameCProgramNum ≠ s.cProgramNum → r.map (·.path) = some path) ∧
      s'.programs = s.programs.named path := by
  unfold checkMachineProgramName at h
  split at h
  next hne =>
    cases r with
    | none => exact absurd (congrArg Prod.fst h) (by simp)
    | some v =>
      obtain rfl := (congrArg Prod.snd h).symm
      exact ⟨v.path, fun _ => rfl, (if_pos hne).symm⟩
  next heq =>
    obtain rfl : s = s' := congrArg Prod.snd h
    exact ⟨[], fun hne => absurd hne heq, (if_neg heq).symm⟩

/-- The contents check uploads exactly when the main program moved. -/
theorem checkMachineProgramContents_programs {get : CStr → Option MachineProgramContents}
    {s s' : State} (h : checkMachineProgramContents get s = (false, s')) :
    s'.programs = s.programs.uploaded := by
  unfold checkMachineProgramContents at h
  split at h
  next hne =>
    cases hg : get s.mProgramPath with
    | none => rw [hg] at h; exact absurd (congrArg Prod.fst h) (by simp)
    | some v =>
      rw [hg] at h
      obtain rfl := (congrArg Prod.snd h).symm
      exact (if_pos hne).symm
  next heq =>
    obtain rfl : s = s' := congrArg Prod.snd h
    exact (if_neg heq).symm

/-! ## A whole tick -/

/-- The program numbers the control reports in a tick, as the driver keeps them:
narrowed to `short`. -/
def Library.numbers (lib : Library) : Option (Short × Short) :=
  lib.dynamic.rddynamic2.map fun dyn => (dyn.prgnum.toInt16, dyn.prgmnum.toInt16)

/-- The path the control reports in a tick when it is asked. -/
def Library.path (lib : Library) : Option CStr := lib.programName.exeprgname2.map (·.val)

theorem getMachineDynamic_numbers {lib : Library} {axisCount : Short} {divisors : Nat → ℚ}
    {v : MachineDynamic} (h : getMachineDynamic lib.dynamic axisCount divisors = some v) :
    lib.numbers = some (v.cprogram, v.mprogram) := by
  cases hdyn : lib.dynamic.rddynamic2 with
  | none => simp [getMachineDynamic, hdyn] at h
  | some dyn =>
    simp only [getMachineDynamic, hdyn, Option.bind_eq_bind, Option.bind_some,
      Option.bind_eq_some_iff] at h
    obtain ⟨_, -, hv⟩ := h
    obtain rfl := (Option.some.inj hv).symm
    simp [Library.numbers, hdyn]

theorem getMachineProgramName_path {lib : Library} {path : CStr}
    (h : (getMachineProgramName lib.programName).map (·.path) = some path) :
    lib.path = some path := by
  obtain ⟨w, hw, rfl⟩ := Option.map_eq_some_iff.mp h
  simp only [getMachineProgramName, Option.bind_eq_bind, Option.bind_eq_some_iff] at hw
  obtain ⟨_, -, path, hpath, hw⟩ := hw
  obtain rfl := (Option.some.inj hw).symm
  have hlen : path.val.length ≤ 255 := by have := path.property; omega
  simp [Library.path, hpath, List.take_of_length_le hlen]

/-- The calls of a tick that moves the numbers from `prev` to `now`, where the
control reports `path` and the last path read is `old`. -/
def programCalls (prev now : Short × Short) (path old : CStr) : List LibCall :=
  (if prev.1 ≠ now.1 then [.exeprgname2 path] else []) ++
  (if prev.2 ≠ now.2 then [.upload (if prev.1 ≠ now.1 then path else old)] else [])

/-- The shared numbers and the private copies end at the numbers of the tick, and the
calls are those of the move. -/
theorem ProgramView.tick_eq (p : ProgramView) (now : Short × Short) (path : CStr) :
    ((p.read now).named path).uploaded = {
      cProgramNum := now.1
      mProgramNum := now.2
      mProgramPath := if p.nameCProgramNum ≠ now.1 then path else p.mProgramPath
      nameCProgramNum := now.1
      lastProgramNum := now.2
      numbers := some now
      calls := p.calls ++
        programCalls (p.nameCProgramNum, p.lastProgramNum) now path p.mProgramPath } := by
  simp only [ProgramView.read, ProgramView.named, ProgramView.uploaded, programCalls]
  by_cases hc : p.nameCProgramNum = now.1 <;> by_cases hm : p.lastProgramNum = now.2 <;>
    simp [hc, hm]

/-- **One tick**: the dynamic, the name and the contents check, one after the other. -/
theorem loopTick_programs {lib : Library} {s s' : State} (hf : s.programs.Follows)
    (h : loopTick lib s = (false, s')) :
    ∃ now path,
      lib.numbers = some now ∧
      (s.nameCProgramNum ≠ now.1 → lib.path = some path) ∧
      s'.programs = ((s.programs.read now).named path).uploaded := by
  simp only [loopTick, tickChecks, runChecks_success] at h
  obtain ⟨s₁, h₁, s₂, h₂, s₃, h₃, s₄, h₄, s₅, h₅, s₆, h₆, s₇, h₇, s₈, h₈, s₉, h₉, s₁₀, h₁₀, hend⟩
    := h
  obtain rfl : s₁₀ = s' := congrArg Prod.snd hend
  -- up to the dynamic check nothing is touched
  have e₄ : s₄.programs = s.programs := by
    rw [← show _ = s₄ from congrArg Prod.snd h₄, checkMachineToolInfo_programs,
      ← show _ = s₃ from congrArg Prod.snd h₃, checkMachineStatus_programs,
      ← show _ = s₂ from congrArg Prod.snd h₂, checkMachineCycleTime_programs,
      ← show _ = s₁ from congrArg Prod.snd h₁, checkMachinePartCount_programs]
  obtain ⟨v, hv, e₅⟩ := checkMachineDynamic_programs (e₄ ▸ hf) h₅
  have e₆ : s₆.programs = s₅.programs := by
    rw [← show _ = s₆ from congrArg Prod.snd h₆, checkMachineMessage_programs]
  obtain ⟨path, hpath, e₇⟩ := checkMachineProgramName_programs h₇
  have e₈ : s₈.programs = s₇.programs := by
    rw [← show _ = s₈ from congrArg Prod.snd h₈, checkMachineProgramHeader_programs]
  have e₉ := checkMachineProgramContents_programs h₉
  have e₁₀ : s₁₀.programs = s₉.programs := by
    rw [← show _ = s₁₀ from congrArg Prod.snd h₁₀, checkMachineBlock_programs]
  rw [e₅, e₄] at e₆
  have hname : s₆.nameCProgramNum = s.nameCProgramNum := congrArg ProgramView.nameCProgramNum e₆
  have hnum : s₆.cProgramNum = v.cprogram := congrArg ProgramView.cProgramNum e₆
  rw [hname, hnum] at hpath
  exact ⟨(v.cprogram, v.mprogram), path, getMachineDynamic_numbers hv,
    fun hne => getMachineProgramName_path (hpath hne), by rw [e₁₀, e₉, e₈, e₇, e₆]⟩

/-! ## Runs -/

/-- The program numbers reported in the round's tick. -/
def Round.numbers (r : Round) : Option (Short × Short) := r.tick.lib.numbers

/-- Every upload of the round used a path that the control reported in the same
tick. -/
def PathIsCurrent (r : Round) : Prop :=
  ∀ p, .upload p ∈ r.after.calls →
    .exeprgname2 p ∈ r.after.calls ∧ r.tick.lib.path = some p

/-- The main program moves only together with the current program. -/
def MovesTogether (prev now : Short × Short) : Prop := prev.2 ≠ now.2 → prev.1 ≠ now.1

theorem upload_mem_programCalls {prev now : Short × Short} {path old p : CStr} :
    .upload p ∈ programCalls prev now path old ↔
      prev.2 ≠ now.2 ∧ p = if prev.1 ≠ now.1 then path else old := by
  unfold programCalls
  by_cases h₁ : prev.1 = now.1 <;> by_cases h₂ : prev.2 = now.2 <;> simp [h₁, h₂]

theorem exeprgname2_mem_programCalls {prev now : Short × Short} {path old p : CStr} :
    .exeprgname2 p ∈ programCalls prev now path old ↔ prev.1 ≠ now.1 ∧ p = path := by
  unfold programCalls
  by_cases h₁ : prev.1 = now.1 <;> by_cases h₂ : prev.2 = now.2 <;> simp [h₁, h₂]

/-- One round uploads from a current path iff the main program did not move
alone. -/
theorem pathIsCurrent_iff {r : Round} {prev now : Short × Short} {path old : CStr}
    (hcalls : r.after.calls = programCalls prev now path old)
    (hpath : prev.1 ≠ now.1 → r.tick.lib.path = some path) :
    PathIsCurrent r ↔ MovesTogether prev now := by
  unfold PathIsCurrent MovesTogether
  rw [hcalls]
  constructor
  · intro h hmain
    exact (exeprgname2_mem_programCalls.mp
      (h _ (upload_mem_programCalls.mpr ⟨hmain, rfl⟩)).1).1
  · intro h p hp
    obtain ⟨hmain, rfl⟩ := upload_mem_programCalls.mp hp
    have hcur := h hmain
    -- the current program moved too, so the path was read in this tick
    rw [if_pos hcur]
    exact ⟨exeprgname2_mem_programCalls.mpr ⟨hcur, rfl⟩, hpath hcur⟩

/-- The rounds of a run from a state whose private copies are at `prev`. -/
theorem rounds_pathIsCurrent_iff (ts : List Tick) {s : State} (hf : s.programs.Follows)
    (hcalls : s.calls = []) :
    (∀ r ∈ rounds s ts, PathIsCurrent r) ↔
      List.IsChain MovesTogether
        ((s.nameCProgramNum, s.lastProgramNum) ::
          (rounds s ts).filterMap Round.numbers) := by
  induction ts generalizing s with
  | nil => simp [rounds]
  | cons t ts ih =>
    rcases h : loopTick t.lib s with ⟨failed, s'⟩
    cases failed with
    | true => simp [rounds_cons_failed h]
    | false =>
      obtain ⟨now, path, hnow, hpath, hs'⟩ := loopTick_programs hf h
      rw [ProgramView.tick_eq] at hs'
      have hname : s'.nameCProgramNum = now.1 := congrArg ProgramView.nameCProgramNum hs'
      have hlast : s'.lastProgramNum = now.2 := congrArg ProgramView.lastProgramNum hs'
      have hnums : s'.programs.numbers = some now := congrArg ProgramView.numbers hs'
      have hk : s'.calls = programCalls (s.nameCProgramNum, s.lastProgramNum) now path
          s.mProgramPath := by
        have hk : s'.calls = s.calls ++ _ := congrArg ProgramView.calls hs'
        rwa [hcalls, List.nil_append] at hk
      have hround := pathIsCurrent_iff (r := { tick := t, before := s, after := s' }) hk hpath
      -- the next round starts from the numbers of this one
      have hf' : s'.fresh.programs.Follows := by
        intro n hn
        obtain rfl : now = n := Option.some.inj (hnums.symm.trans hn)
        exact Prod.ext (congrArg ProgramView.cProgramNum hs' : s'.cProgramNum = now.1)
          (congrArg ProgramView.mProgramNum hs' : s'.mProgramNum = now.2)
      have hrest := ih hf' rfl
      have hnow' : Round.numbers { tick := t, before := s, after := s' } = some now := hnow
      rw [rounds_cons h, List.forall_mem_cons, hround, List.filterMap_cons_some hnow',
        List.isChain_cons_cons, hrest]
      show _ ∧ List.IsChain MovesTogether ((s'.nameCProgramNum, s'.lastProgramNum) :: _) ↔ _
      rw [hname, hlast]

/-- **When an upload belongs to the main program**: in a run of the program, every
upload uses a path reported in its own tick, iff the main program number, as the
driver keeps it, never moves in a tick in which the current program number stays.
Both numbers start at -1. -/
theorem upload_path_current_iff (maxAxis : Short) (info : InfoReply) (ts : List Tick) :
    (∀ r ∈ mainRounds maxAxis info ts, PathIsCurrent r) ↔
      List.IsChain MovesTogether
        ((-1, -1) :: (mainRounds maxAxis info ts).filterMap Round.numbers) := by
  unfold mainRounds start
  have hprog := checkMachineInfo_programs (getMachineInfo info fun _ => 0) (State.init maxAxis)
  match h : checkMachineInfo (getMachineInfo info fun _ => 0) (State.init maxAxis) with
  | (true, _) => simp
  | (false, s) =>
    rw [h] at hprog
    have hname : s.nameCProgramNum = -1 := congrArg ProgramView.nameCProgramNum hprog
    have hlast : s.lastProgramNum = -1 := congrArg ProgramView.lastProgramNum hprog
    have hrounds := rounds_pathIsCurrent_iff ts (s := s)
      (fun n hn => absurd (hprog ▸ hn) (by simp [State.programs, State.init]))
      (congrArg ProgramView.calls hprog)
    rwa [hname, hlast] at hrounds

/-- The main program moves from 100 to 200 while the executing program stays: the
second round uploads from the path of the first, without asking for a path. -/
theorem upload_path_stale :
    (mainRounds 32 sampleInfo
        [sampleTick .noError { sampleReadings with mprogram := 100, path := "//CNC_MEM/A".toList },
         sampleTick .noError { sampleReadings with mprogram := 200, path := "//CNC_MEM/B".toList }]).map
      (·.after.calls)
      = [[.exeprgname2 "//CNC_MEM/A".toList, .upload "//CNC_MEM/A".toList],
         [.upload "//CNC_MEM/A".toList]] ∧
    ¬∀ r ∈ mainRounds 32 sampleInfo
        [sampleTick .noError { sampleReadings with mprogram := 100, path := "//CNC_MEM/A".toList },
         sampleTick .noError { sampleReadings with mprogram := 200, path := "//CNC_MEM/B".toList }],
      PathIsCurrent r := by
  have hcalls : (mainRounds 32 sampleInfo
        [sampleTick .noError { sampleReadings with mprogram := 100, path := "//CNC_MEM/A".toList },
         sampleTick .noError { sampleReadings with mprogram := 200, path := "//CNC_MEM/B".toList }]).map
      (·.after.calls)
      = [[.exeprgname2 "//CNC_MEM/A".toList, .upload "//CNC_MEM/A".toList],
         [.upload "//CNC_MEM/A".toList]] := by decide +kernel
  refine ⟨hcalls, fun h => ?_⟩
  have hmem : [LibCall.upload "//CNC_MEM/A".toList] ∈ (mainRounds 32 sampleInfo
        [sampleTick .noError { sampleReadings with mprogram := 100, path := "//CNC_MEM/A".toList },
         sampleTick .noError { sampleReadings with mprogram := 200, path := "//CNC_MEM/B".toList }]).map
      (·.after.calls) := by
    rw [hcalls]
    simp
  obtain ⟨r, hr, hrcalls⟩ := List.mem_map.mp hmem
  have hcur := (h r hr "//CNC_MEM/A".toList (by simp [hrcalls])).1
  simp [hrcalls] at hcur

end FanucDriver.Driver
