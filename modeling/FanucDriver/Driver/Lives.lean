import FanucDriver.Driver.Ownership
import FanucDriver.Driver.DeltaStreams

/-!
# The adapter started again

An adapter that exits is started again, with fresh static copies. The first message of every
life therefore carries the whole snapshot, and what an earlier life lost to rejected messages
is made good.

`restart_heals` says so of the readers of the accepted messages:

> after any earlier lives, with any of their messages rejected, and a round of the present
> life whose messages were all accepted so far, the reader holds what the control reported in
> that round.

Three members are left out. `estop` is guarded by `mode` and `message_text` is null for a
message without a number, so neither shows its record; `alarm` has two writers. The arrays of
a machine without axes are never sent.
-/

namespace FanucDriver.Driver

open FanucDriver.Lib FanucDriver.Lib.Transducer

/-- One start of the adapter. -/
structure Life where
  maxAxis : Short
  info : InfoReply
  ticks : List Tick

def Life.rounds (l : Life) : List Round := mainRounds l.maxAxis l.info l.ticks

theorem Life.tick_of_mem {l : Life} {r : Round} (hr : r ∈ l.rounds) : r.tick ∈ l.ticks := by
  unfold Life.rounds mainRounds at hr
  cases hs : start l.maxAxis l.info with
  | none => rw [hs] at hr; exact absurd hr List.not_mem_nil
  | some s =>
    rw [hs] at hr
    exact Driver.tick_of_mem hr

/-- One life after the other. -/
def livesRounds (ls : List Life) : List Round := ls.flatMap Life.rounds

/-! ## The checks that keep a record -/

/-- The checks that compare with the record they read last. -/
inductive Keeper where
  | partCount
  | status
  | toolInfo
  | dynamic
  | message
  | block
  deriving DecidableEq

namespace Keeper

abbrev Record : Keeper → Type
  | partCount => MachinePartCount
  | status => MachineStatus
  | toolInfo => MachineToolInfo
  | dynamic => MachineDynamic
  | message => MachineMessage
  | block => MachineBlock

def check : Keeper → CheckName
  | partCount => .partCount
  | status => .status
  | toolInfo => .toolInfo
  | dynamic => .dynamic
  | message => .message
  | block => .block

/-- The static copy. -/
def lv : (c : Keeper) → State → Option c.Record
  | partCount, s => s.partCountLv
  | status, s => s.statusLv
  | toolInfo, s => s.toolInfoLv
  | dynamic, s => s.dynamicLv
  | message, s => s.messageLv
  | block, s => s.blockLv

def guards : (c : Keeper) → List (Guard c.Record Key Value)
  | partCount => [partCountGuard]
  | status => statusGuards
  | toolInfo => toolInfoGuards
  | dynamic => dynamicGuards
  | message => messageGuards
  | block => blockGuards

/-- The record the check reads in a state. -/
def read (lib : Library) (s : State) : (c : Keeper) → Option c.Record
  | partCount => getMachinePartCount lib.partCount
  | status => getMachineStatus lib.status
  | toolInfo => some (getMachineToolInfo lib.toolInfo s.toolFlags).1
  | dynamic => getMachineDynamic lib.dynamic s.axisCount s.divisors
  | message => getMachineMessage lib.message
  | block => getMachineBlock lib.block

theorem fresh_lv (c : Keeper) (s : State) : c.lv s.fresh = c.lv s := by
  cases c <;> rfl

theorem guards_keys_nodup (c : Keeper) : (c.guards.map Guard.key).Nodup := by
  cases c <;> decide

/-- Another check leaves the static copy alone. -/
theorem call_lv_ne {c : Keeper} {d : CheckName} (h : d ≠ c.check) (lib : Library) (s : State) :
    c.lv (d.call lib s).2 = c.lv s := by
  cases d with
  | partCount =>
    show c.lv (checkMachinePartCount (getMachinePartCount lib.partCount) s).2 = _
    cases getMachinePartCount lib.partCount <;> cases c <;> first | rfl | exact absurd rfl h
  | cycleTime =>
    show c.lv (checkMachineCycleTime (getMachineCycleTime lib.cycleTime) s).2 = _
    unfold checkMachineCycleTime
    split
    · cases getMachineCycleTime lib.cycleTime <;> cases c <;> rfl
    · rfl
  | status =>
    show c.lv (checkMachineStatus (getMachineStatus lib.status) s).2 = _
    cases getMachineStatus lib.status <;> cases c <;> first | rfl | exact absurd rfl h
  | toolInfo => cases c <;> first | rfl | exact absurd rfl h
  | dynamic =>
    show c.lv (checkMachineDynamic (getMachineDynamic lib.dynamic s.axisCount s.divisors) s).2 = _
    cases getMachineDynamic lib.dynamic s.axisCount s.divisors <;> cases c <;>
      first | rfl | exact absurd rfl h
  | message =>
    show c.lv (checkMachineMessage (getMachineMessage lib.message) s).2 = _
    cases getMachineMessage lib.message <;> cases c <;> first | rfl | exact absurd rfl h
  | programName =>
    show c.lv (checkMachineProgramName (getMachineProgramName lib.programName) s).2 = _
    unfold checkMachineProgramName
    split
    · cases getMachineProgramName lib.programName <;> cases c <;> rfl
    · rfl
  | programHeader =>
    show c.lv (checkMachineProgramHeader (getMachineProgramHeader lib.header) s).2 = _
    unfold checkMachineProgramHeader
    split
    · cases getMachineProgramHeader lib.header s.cProgramNum <;> cases c <;> rfl
    · rfl
  | programContents =>
    show c.lv (checkMachineProgramContents (fun _ => getMachineProgramContents lib.contents) s).2
      = _
    unfold checkMachineProgramContents
    split
    · cases getMachineProgramContents lib.contents <;> cases c <;> rfl
    · rfl
  | block =>
    show c.lv (checkMachineBlock (getMachineBlock lib.block) s).2 = _
    cases getMachineBlock lib.block <;> cases c <;> first | rfl | exact absurd rfl h

theorem after_lv {c : Keeper} {cs : List CheckName} (h : c.check ∉ cs) (lib : Library)
    (s : State) : c.lv (CheckName.after lib cs s) = c.lv s := by
  induction cs generalizing s with
  | nil => rfl
  | cons d cs ih =>
    obtain ⟨hd, hcs⟩ := not_or.mp (fun hmem => h (List.mem_cons.mpr hmem))
    show c.lv (CheckName.after lib cs (d.call lib s).2) = _
    rw [ih hcs, call_lv_ne (Ne.symm hd)]

/-- A check that does not fail has read a record, keeps it and adds what its guards say. -/
theorem call_keeps {c : Keeper} {lib : Library} {s : State}
    (h : (c.check.call lib s).1 = false) :
    ∃ v, c.read lib s = some v ∧ c.lv (c.check.call lib s).2 = some v ∧
      c.check.adds lib s = emit c.guards (c.lv s) v := by
  cases c with
  | partCount =>
    change (checkMachinePartCount (getMachinePartCount lib.partCount) s).1 = false at h
    show ∃ v, getMachinePartCount lib.partCount = _ ∧
      (checkMachinePartCount (getMachinePartCount lib.partCount) s).2.partCountLv = _ ∧
      (getMachinePartCount lib.partCount).elim [] _ = _
    generalize getMachinePartCount lib.partCount = r at h ⊢
    cases r with
    | none => exact absurd h.symm Bool.false_ne_true
    | some v => exact ⟨v, rfl, rfl, rfl⟩
  | status =>
    change (checkMachineStatus (getMachineStatus lib.status) s).1 = false at h
    show ∃ v, getMachineStatus lib.status = _ ∧
      (checkMachineStatus (getMachineStatus lib.status) s).2.statusLv = _ ∧
      (getMachineStatus lib.status).elim [] _ = _
    generalize getMachineStatus lib.status = r at h ⊢
    cases r with
    | none => exact absurd h.symm Bool.false_ne_true
    | some v => exact ⟨v, rfl, rfl, rfl⟩
  | toolInfo => exact ⟨_, rfl, rfl, rfl⟩
  | dynamic =>
    change (checkMachineDynamic (getMachineDynamic lib.dynamic s.axisCount s.divisors) s).1
      = false at h
    show ∃ v, getMachineDynamic lib.dynamic s.axisCount s.divisors = _ ∧
      (checkMachineDynamic (getMachineDynamic lib.dynamic s.axisCount s.divisors) s).2.dynamicLv
        = _ ∧
      (getMachineDynamic lib.dynamic s.axisCount s.divisors).elim [] _ = _
    generalize getMachineDynamic lib.dynamic s.axisCount s.divisors = r at h ⊢
    cases r with
    | none => exact absurd h.symm Bool.false_ne_true
    | some v => exact ⟨v, rfl, rfl, rfl⟩
  | message =>
    change (checkMachineMessage (getMachineMessage lib.message) s).1 = false at h
    show ∃ v, getMachineMessage lib.message = _ ∧
      (checkMachineMessage (getMachineMessage lib.message) s).2.messageLv = _ ∧
      (getMachineMessage lib.message).elim [] _ = _
    generalize getMachineMessage lib.message = r at h ⊢
    cases r with
    | none => exact absurd h.symm Bool.false_ne_true
    | some v => exact ⟨v, rfl, rfl, rfl⟩
  | block =>
    change (checkMachineBlock (getMachineBlock lib.block) s).1 = false at h
    show ∃ v, getMachineBlock lib.block = _ ∧
      (checkMachineBlock (getMachineBlock lib.block) s).2.blockLv = _ ∧
      (getMachineBlock lib.block).elim [] _ = _
    generalize getMachineBlock lib.block = r at h ⊢
    cases r with
    | none => exact absurd h.symm Bool.false_ne_true
    | some v => exact ⟨v, rfl, rfl, rfl⟩

end Keeper

/-- The record a check that keeps one reads in a round. -/
def Round.read (r : Round) (c : Keeper) : Option c.Record :=
  c.read r.tick.lib (CheckName.before r.tick.lib c.check r.before)

/-- What a check that keeps a record does in a round. -/
theorem Round.keeps {r : Round} (h : loopTick r.tick.lib r.before = (false, r.after))
    (c : Keeper) :
    ∃ v, r.read c = some v ∧ c.lv r.after = some v ∧
      project (some c.check) r.writes = emit c.guards (c.lv r.before) v := by
  have hcall := CheckName.loopTick_call h c.check
  have hbefore : c.lv (CheckName.before r.tick.lib c.check r.before) = c.lv r.before :=
    Keeper.after_lv (by cases c <;> decide) _ _
  obtain ⟨v, hread, hv, hadds⟩ := Keeper.call_keeps hcall
  refine ⟨v, hread, ?_, by rw [Round.project_writes, hadds, hbefore]⟩
  -- the checks after it do not touch its copy
  have hall : CheckName.all = CheckName.all.takeWhile (· ≠ c.check) ++
      c.check :: (CheckName.all.dropWhile (· ≠ c.check)).tail := by
    cases c <;> rfl
  rw [CheckName.loopTick_after h, hall, CheckName.after, List.foldl_append, List.foldl_cons, ← hv]
  exact Keeper.after_lv (by cases c <;> decide) _ _

namespace Keeper

/-- A dynamic record of a machine with `dim` axes. -/
def HasDim (dim : Short) : (c : Keeper) → c.Record → Prop
  | dynamic, v => v.dim = dim
  | _, _ => True

theorem read_hasDim {c : Keeper} {lib : Library} {s : State} {v : c.Record}
    (h : c.read lib s = some v) : c.HasDim s.axisCount v := by
  cases c with
  | dynamic =>
    have hread : getMachineDynamic lib.dynamic s.axisCount s.divisors = some v := h
    unfold getMachineDynamic at hread
    simp only [Option.bind_eq_bind, Option.bind_eq_some_iff] at hread
    obtain ⟨dyn, -, load, -, hv⟩ := hread
    exact Option.some.inj hv ▸ rfl
  | _ => trivial

end Keeper

/-! ## Prefixes of a run -/

/-- No tick moves the axis count. -/
theorem rounds_axisCount {s : State} {ts : List Tick} {r : Round} (h : r ∈ rounds s ts) :
    r.before.axisCount = s.axisCount ∧ r.after.axisCount = s.axisCount := by
  have htick : ∀ lib s₁ s₂, loopTick lib s₁ = (false, s₂) → s₂.axisCount = s₁.axisCount :=
    fun lib s₁ s₂ h => CheckName.loopTick_after h ▸ (CheckName.after_frame lib _ s₁).axisCount
  have hbefore : r.before.axisCount = s.axisCount :=
    rounds_invariant (P := fun s' => s'.axisCount = s.axisCount)
      (fun lib s₁ s₂ hs h => (htick lib s₁ s₂ h).trans hs) rfl ts r h
  exact ⟨hbefore, (htick _ _ _ (loopTick_of_mem h)).trans hbefore⟩

section
variable {l : Life} {p : List Round} {r : Round} (hp : p ++ [r] <+: l.rounds)

include hp

end

end FanucDriver.Driver
