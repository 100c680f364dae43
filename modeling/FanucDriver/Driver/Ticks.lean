import FanucDriver.Driver.Main
import FanucDriver.Lib.Writers

/-!
# What each check of a tick adds and touches

The ten checks of `loop_tick` write into one `values` object and share one state.
Here is said once, for every check,

- which keys it may add (`CheckName.adds_keys`) and that it only adds
  (`CheckName.call_updates`),
- which globals and static locals it leaves alone (`CheckName.call_frame`).

`Round.writes` is the message of a round with every member marked by the check that
added it. The members that stand in the object before the tick are those of
`checkMachineInfo`, which runs once, before the loop.
-/

namespace FanucDriver.Driver

open FanucDriver.Lib FanucDriver.Lib.Transducer

/-- The checks of a tick. -/
inductive CheckName where
  | partCount
  | cycleTime
  | status
  | toolInfo
  | dynamic
  | message
  | programName
  | programHeader
  | programContents
  | block
  deriving DecidableEq

/-- `none` stands for `checkMachineInfo`. -/
abbrev Writer := Option CheckName

namespace CheckName

/-- The order of the `||` chain. -/
def all : List CheckName :=
  [partCount, cycleTime, status, toolInfo, dynamic, message, programName, programHeader,
    programContents, block]

/-- The check in a tick in which the library answers `lib`. -/
def call (lib : Library) : CheckName → State → Bool × State
  | partCount, s => checkMachinePartCount (getMachinePartCount lib.partCount) s
  | cycleTime, s => checkMachineCycleTime (getMachineCycleTime lib.cycleTime) s
  | status, s => checkMachineStatus (getMachineStatus lib.status) s
  | toolInfo, s => checkMachineToolInfo (getMachineToolInfo lib.toolInfo s.toolFlags) s
  | dynamic, s => checkMachineDynamic (getMachineDynamic lib.dynamic s.axisCount s.divisors) s
  | message, s => checkMachineMessage (getMachineMessage lib.message) s
  | programName, s => checkMachineProgramName (getMachineProgramName lib.programName) s
  | programHeader, s => checkMachineProgramHeader (getMachineProgramHeader lib.header) s
  | programContents, s =>
    checkMachineProgramContents (fun _ => getMachineProgramContents lib.contents) s
  | block, s => checkMachineBlock (getMachineBlock lib.block) s

/-- The keys a check may add. -/
def keys : CheckName → List Key
  | partCount => [.part_count]
  | cycleTime => [.cycle_time]
  | status => statusGuards.map Guard.key
  | toolInfo => toolInfoGuards.map Guard.key
  | dynamic => dynamicGuards.map Guard.key
  | message => messageGuards.map Guard.key
  | programName => [.program_name, .program_path]
  | programHeader => [.program_header]
  | programContents => [.program_size, .program]
  | block => blockGuards.map Guard.key

/-- What the check adds to the object. -/
def adds (lib : Library) : CheckName → State → Updates
  | partCount, s =>
    (getMachinePartCount lib.partCount).elim [] (emit [partCountGuard] s.partCountLv)
  | cycleTime, s =>
    if s.lastPartCount = s.partCount then []
    else (getMachineCycleTime lib.cycleTime).elim [] fun v => [(.cycle_time, .number v.time.toInt)]
  | status, s => (getMachineStatus lib.status).elim [] (emit statusGuards s.statusLv)
  | toolInfo, s => emit toolInfoGuards s.toolInfoLv (getMachineToolInfo lib.toolInfo s.toolFlags).1
  | dynamic, s =>
    (getMachineDynamic lib.dynamic s.axisCount s.divisors).elim [] (emit dynamicGuards s.dynamicLv)
  | message, s => (getMachineMessage lib.message).elim [] (emit messageGuards s.messageLv)
  | programName, s =>
    if s.nameCProgramNum = s.cProgramNum then []
    else (getMachineProgramName lib.programName).elim [] fun v =>
      [(.program_name, .string v.name), (.program_path, .string v.path)]
  | programHeader, s =>
    if s.headerCProgramNum = s.cProgramNum then []
    else (getMachineProgramHeader lib.header s.cProgramNum).elim [] fun v =>
      [(.program_header, .string v.header)]
  | programContents, s =>
    if s.lastProgramNum = s.mProgramNum then []
    else (getMachineProgramContents lib.contents).elim [] contentsUpdates
  | block, s => (getMachineBlock lib.block).elim [] (emit blockGuards s.blockLv)

/-- A check only adds to the object. -/
theorem call_updates (lib : Library) (c : CheckName) (s : State) :
    (c.call lib s).2.updates = s.updates ++ c.adds lib s := by
  cases c with
  | partCount =>
    unfold adds call checkMachinePartCount
    generalize getMachinePartCount lib.partCount = r
    cases r <;> simp [State.publish]
  | cycleTime =>
    unfold adds call checkMachineCycleTime
    generalize getMachineCycleTime lib.cycleTime = r
    by_cases h : s.lastPartCount = s.partCount
    · simp [h]
    · cases r <;> simp [h, State.publish]
  | status =>
    unfold adds call checkMachineStatus
    generalize getMachineStatus lib.status = r
    cases r <;> simp [State.publish]
  | toolInfo => rfl
  | dynamic =>
    show (checkMachineDynamic (getMachineDynamic lib.dynamic s.axisCount s.divisors) s).2.updates =
      s.updates ++ (getMachineDynamic lib.dynamic s.axisCount s.divisors).elim [] _
    generalize getMachineDynamic lib.dynamic s.axisCount s.divisors = r
    cases r <;> simp [checkMachineDynamic, State.publish]
  | message =>
    unfold adds call checkMachineMessage
    generalize getMachineMessage lib.message = r
    cases r <;> simp [State.publish]
  | programName =>
    unfold adds call checkMachineProgramName
    generalize getMachineProgramName lib.programName = r
    by_cases h : s.nameCProgramNum = s.cProgramNum
    · simp [h]
    · cases r <;> simp [h, State.publish]
  | programHeader =>
    unfold adds call checkMachineProgramHeader
    by_cases h : s.headerCProgramNum = s.cProgramNum
    · simp [h]
    · cases hr : getMachineProgramHeader lib.header s.cProgramNum <;> simp [h, hr, State.publish]
  | programContents =>
    unfold adds call checkMachineProgramContents
    generalize getMachineProgramContents lib.contents = r
    by_cases h : s.lastProgramNum = s.mProgramNum
    · simp [h]
    · cases r <;> simp [h, State.publish]
  | block =>
    unfold adds call checkMachineBlock
    generalize getMachineBlock lib.block = r
    cases r <;> simp [State.publish]

theorem emit_keys {S : Type} {gs : List (Guard S Key Value)} {lv : Option S} {r : Option S}
    {u : Key × Value} (h : u ∈ r.elim [] (emit gs lv)) : u.1 ∈ gs.map Guard.key := by
  cases r with
  | none => exact absurd h List.not_mem_nil
  | some v =>
    obtain ⟨g, hg, -, rfl⟩ := mem_emit.mp h
    exact List.mem_map_of_mem hg

/-- The keys of a check that adds fixed members when it is triggered. -/
theorem triggered_keys {S : Type} {p : Prop} [Decidable p] {r : Option S} {us : S → Updates}
    {ks : List Key} (hks : ∀ v, ∀ u ∈ us v, u.1 ∈ ks) {u : Key × Value}
    (h : u ∈ if p then [] else r.elim [] us) : u.1 ∈ ks := by
  split at h
  · exact absurd h List.not_mem_nil
  · cases r with
    | none => exact absurd h List.not_mem_nil
    | some v => exact hks v u h

/-- What a check adds is under its own keys. -/
theorem adds_keys {lib : Library} {c : CheckName} {s : State} {u : Key × Value}
    (h : u ∈ c.adds lib s) : u.1 ∈ c.keys := by
  cases c with
  | partCount => exact emit_keys h
  | cycleTime => exact triggered_keys (fun v u hu => by simp_all [keys]) h
  | status => exact emit_keys h
  | toolInfo => exact emit_keys (r := some _) h
  | dynamic => exact emit_keys h
  | message => exact emit_keys h
  | programName => exact triggered_keys (fun v u hu => by
      rcases List.mem_cons.mp hu with rfl | hu
      · exact List.mem_cons_self
      · exact List.mem_cons_of_mem _ (List.mem_singleton.mp hu ▸ List.mem_cons_self)) h
  | programHeader => exact triggered_keys (fun v u hu => by simp_all [keys]) h
  | programContents =>
    refine triggered_keys (fun v u hu => ?_) h
    unfold contentsUpdates at hu
    rcases List.mem_cons.mp hu with rfl | hu
    · exact List.mem_cons_self
    · cases hc : v.contents with
      | none => exact absurd (hc ▸ hu) List.not_mem_nil
      | some contents =>
        rw [hc] at hu
        exact List.mem_cons_of_mem _ (List.mem_singleton.mp hu ▸ List.mem_cons_self)
  | block => exact emit_keys h

theorem elim_emit_nodup {S : Type} {gs : List (Guard S Key Value)} (h : (gs.map Guard.key).Nodup)
    (lv : Option S) (r : Option S) : ((r.elim [] (emit gs lv)).map Prod.fst).Nodup := by
  cases r with
  | none => exact List.nodup_nil
  | some v => exact h.sublist (emit_keys_sublist gs lv v)

theorem triggered_nodup {S : Type} {p : Prop} [Decidable p] {r : Option S} {us : S → Updates}
    (h : ∀ v, ((us v).map Prod.fst).Nodup) :
    ((if p then [] else r.elim [] us).map Prod.fst).Nodup := by
  split
  · exact List.nodup_nil
  · cases r with
    | none => exact List.nodup_nil
    | some v => exact h v

/-- No check adds a key twice. -/
theorem adds_nodup (lib : Library) (c : CheckName) (s : State) :
    ((c.adds lib s).map Prod.fst).Nodup := by
  cases c with
  | partCount => exact elim_emit_nodup (by decide) _ _
  | cycleTime => exact triggered_nodup fun _ => List.nodup_singleton _
  | status => exact elim_emit_nodup (by decide) _ _
  | toolInfo => exact elim_emit_nodup (by decide) _ (some _)
  | dynamic => exact elim_emit_nodup (by decide) _ _
  | message => exact elim_emit_nodup (by decide) _ _
  | programName =>
    refine triggered_nodup fun _ => ?_
    show [Key.program_name, Key.program_path].Nodup
    decide
  | programHeader => exact triggered_nodup fun _ => List.nodup_singleton _
  | programContents =>
    refine triggered_nodup fun v => ?_
    unfold contentsUpdates
    cases v.contents with
    | none => exact List.nodup_singleton _
    | some contents =>
      show [Key.program_size, Key.program].Nodup
      decide
  | block => exact elim_emit_nodup (by decide) _ _

/-! ## Touching -/

/-- From `s` to `s'` only checks in `p` ran: the globals and static locals of the
others are as they were. -/
structure Frame (p : CheckName → Prop) (s s' : State) : Prop where
  axisCount : s'.axisCount = s.axisCount
  partCount : ¬p .partCount → s'.partCount = s.partCount ∧ s'.partCountLv = s.partCountLv
  cycleTime : ¬p .cycleTime → s'.lastPartCount = s.lastPartCount
  status : ¬p .status → s'.statusLv = s.statusLv
  toolInfo : ¬p .toolInfo → s'.toolFlags = s.toolFlags
  dynamic : ¬p .dynamic →
    s'.dynamicLv = s.dynamicLv ∧ s'.cProgramNum = s.cProgramNum ∧ s'.mProgramNum = s.mProgramNum
  programName : ¬p .programName → s'.nameCProgramNum = s.nameCProgramNum
  programHeader : ¬p .programHeader → s'.headerCProgramNum = s.headerCProgramNum
  programContents : ¬p .programContents → s'.lastProgramNum = s.lastProgramNum

theorem Frame.refl (p : CheckName → Prop) (s : State) : Frame p s s :=
  ⟨rfl, fun _ => ⟨rfl, rfl⟩, fun _ => rfl, fun _ => rfl, fun _ => rfl, fun _ => ⟨rfl, rfl, rfl⟩,
    fun _ => rfl, fun _ => rfl, fun _ => rfl⟩

theorem Frame.trans {p : CheckName → Prop} {s t u : State} (h : Frame p s t) (h' : Frame p t u) :
    Frame p s u where
  axisCount := h'.axisCount.trans h.axisCount
  partCount hp := ⟨(h'.partCount hp).1.trans (h.partCount hp).1,
    (h'.partCount hp).2.trans (h.partCount hp).2⟩
  cycleTime hp := (h'.cycleTime hp).trans (h.cycleTime hp)
  status hp := (h'.status hp).trans (h.status hp)
  toolInfo hp := (h'.toolInfo hp).trans (h.toolInfo hp)
  dynamic hp := ⟨(h'.dynamic hp).1.trans (h.dynamic hp).1,
    (h'.dynamic hp).2.1.trans (h.dynamic hp).2.1, (h'.dynamic hp).2.2.trans (h.dynamic hp).2.2⟩
  programName hp := (h'.programName hp).trans (h.programName hp)
  programHeader hp := (h'.programHeader hp).trans (h.programHeader hp)
  programContents hp := (h'.programContents hp).trans (h.programContents hp)

theorem Frame.mono {p q : CheckName → Prop} {s s' : State} (h : Frame p s s')
    (hpq : ∀ c, p c → q c) : Frame q s s' where
  axisCount := h.axisCount
  partCount hq := h.partCount fun hp => hq (hpq _ hp)
  cycleTime hq := h.cycleTime fun hp => hq (hpq _ hp)
  status hq := h.status fun hp => hq (hpq _ hp)
  toolInfo hq := h.toolInfo fun hp => hq (hpq _ hp)
  dynamic hq := h.dynamic fun hp => hq (hpq _ hp)
  programName hq := h.programName fun hp => hq (hpq _ hp)
  programHeader hq := h.programHeader fun hp => hq (hpq _ hp)
  programContents hq := h.programContents fun hp => hq (hpq _ hp)

theorem call_frame (lib : Library) (c : CheckName) (s : State) :
    Frame (· = c) s (c.call lib s).2 := by
  cases c with
  | partCount =>
    show Frame _ s (checkMachinePartCount (getMachinePartCount lib.partCount) s).2
    generalize getMachinePartCount lib.partCount = r
    cases r with
    | none => exact .refl _ s
    | some v =>
      refine ⟨rfl, ?_, ?_, ?_, ?_, ?_, ?_, ?_, ?_⟩ <;> intro h <;>
        first | exact absurd rfl h | simp [checkMachinePartCount, State.publish]
  | cycleTime =>
    show Frame _ s (checkMachineCycleTime (getMachineCycleTime lib.cycleTime) s).2
    unfold checkMachineCycleTime
    split
    · cases getMachineCycleTime lib.cycleTime with
      | none => exact .refl _ s
      | some v =>
        refine ⟨rfl, ?_, ?_, ?_, ?_, ?_, ?_, ?_, ?_⟩ <;> intro h <;>
          first | exact absurd rfl h | simp [State.publish]
    · exact .refl _ s
  | status =>
    show Frame _ s (checkMachineStatus (getMachineStatus lib.status) s).2
    generalize getMachineStatus lib.status = r
    cases r with
    | none => exact .refl _ s
    | some v =>
      refine ⟨rfl, ?_, ?_, ?_, ?_, ?_, ?_, ?_, ?_⟩ <;> intro h <;>
        first | exact absurd rfl h | simp [checkMachineStatus, State.publish]
  | toolInfo =>
    refine ⟨rfl, ?_, ?_, ?_, ?_, ?_, ?_, ?_, ?_⟩ <;> intro h <;>
      first | exact absurd rfl h | simp [call, checkMachineToolInfo, State.publish]
  | dynamic =>
    show Frame _ s (checkMachineDynamic (getMachineDynamic lib.dynamic s.axisCount s.divisors) s).2
    generalize getMachineDynamic lib.dynamic s.axisCount s.divisors = r
    cases r with
    | none => exact .refl _ s
    | some v =>
      refine ⟨rfl, ?_, ?_, ?_, ?_, ?_, ?_, ?_, ?_⟩ <;> intro h <;>
        first | exact absurd rfl h | simp [checkMachineDynamic, State.publish]
  | message =>
    show Frame _ s (checkMachineMessage (getMachineMessage lib.message) s).2
    generalize getMachineMessage lib.message = r
    cases r with
    | none => exact .refl _ s
    | some v =>
      refine ⟨rfl, ?_, ?_, ?_, ?_, ?_, ?_, ?_, ?_⟩ <;> intro h <;>
        simp [checkMachineMessage, State.publish]
  | programName =>
    show Frame _ s (checkMachineProgramName (getMachineProgramName lib.programName) s).2
    unfold checkMachineProgramName
    split
    · cases getMachineProgramName lib.programName with
      | none => exact .refl _ s
      | some v =>
        refine ⟨rfl, ?_, ?_, ?_, ?_, ?_, ?_, ?_, ?_⟩ <;> intro h <;>
          first | exact absurd rfl h | simp [State.publish]
    · exact .refl _ s
  | programHeader =>
    show Frame _ s (checkMachineProgramHeader (getMachineProgramHeader lib.header) s).2
    unfold checkMachineProgramHeader
    split
    · cases getMachineProgramHeader lib.header s.cProgramNum with
      | none => exact .refl _ s
      | some v =>
        refine ⟨rfl, ?_, ?_, ?_, ?_, ?_, ?_, ?_, ?_⟩ <;> intro h <;>
          first | exact absurd rfl h | simp [State.publish]
    · exact .refl _ s
  | programContents =>
    show Frame _ s
      (checkMachineProgramContents (fun _ => getMachineProgramContents lib.contents) s).2
    unfold checkMachineProgramContents
    split
    · cases getMachineProgramContents lib.contents with
      | none => exact ⟨rfl, fun _ => ⟨rfl, rfl⟩, fun _ => rfl, fun _ => rfl, fun _ => rfl,
          fun _ => ⟨rfl, rfl, rfl⟩, fun _ => rfl, fun _ => rfl, fun _ => rfl⟩
      | some v =>
        refine ⟨rfl, ?_, ?_, ?_, ?_, ?_, ?_, ?_, ?_⟩ <;> intro h <;>
          first | exact absurd rfl h | simp [State.publish]
    · exact .refl _ s
  | block =>
    show Frame _ s (checkMachineBlock (getMachineBlock lib.block) s).2
    generalize getMachineBlock lib.block = r
    cases r with
    | none => exact .refl _ s
    | some v =>
      refine ⟨rfl, ?_, ?_, ?_, ?_, ?_, ?_, ?_, ?_⟩ <;> intro h <;>
        simp [checkMachineBlock, State.publish]

/-! ## A chain of checks -/

/-- The state a chain leaves in which no check fails. -/
def after (lib : Library) (cs : List CheckName) (s : State) : State :=
  cs.foldl (fun s c => (c.call lib s).2) s

/-- The state in which a check of the tick is called. -/
def before (lib : Library) (c : CheckName) (s : State) : State :=
  after lib (all.takeWhile (· ≠ c)) s

theorem after_frame (lib : Library) (cs : List CheckName) (s : State) :
    Frame (· ∈ cs) s (after lib cs s) := by
  induction cs generalizing s with
  | nil => exact .refl _ s
  | cons c cs ih =>
    have hhead := (call_frame lib c s).mono (q := (· ∈ c :: cs)) fun d hd => by simp [hd]
    have htail := (ih (c.call lib s).2).mono (q := (· ∈ c :: cs)) fun d hd =>
      List.mem_cons_of_mem c hd
    exact hhead.trans htail

/-- Before a check is called only others have run. -/
theorem before_frame (lib : Library) (c : CheckName) (s : State) :
    Frame (· ≠ c) s (before lib c s) :=
  (after_frame lib _ s).mono <| by cases c <;> decide

/-- From the call of a check on only it and later ones run. -/
theorem tail_frame (lib : Library) (c : CheckName) (s : State) :
    Frame (· ∈ all.dropWhile (· ≠ c)) (before lib c s) (after lib all s) := by
  have hall := List.takeWhile_append_dropWhile (p := (· ≠ c)) (l := all)
  conv => rhs; rw [← hall, after, List.foldl_append]
  exact after_frame lib _ _

/-- After a check is called only others run. -/
theorem rest_frame (lib : Library) (c : CheckName) (s : State) :
    Frame (· ≠ c) (c.call lib (before lib c s)).2 (after lib all s) := by
  have hall : all = all.takeWhile (· ≠ c) ++ c :: (all.dropWhile (· ≠ c)).tail := by
    cases c <;> rfl
  have hne : ∀ d ∈ (all.dropWhile (· ≠ c)).tail, d ≠ c := by
    cases c <;> decide
  rw [hall, after, List.foldl_append, List.foldl_cons]
  exact (after_frame lib _ _).mono hne

/-- A chain that succeeds leaves `after`, and each of its checks succeeded. -/
theorem runChecks_after {lib : Library} {cs : List CheckName} {s s' : State}
    (h : runChecks (cs.map (call lib)) s = (false, s')) :
    s' = after lib cs s ∧ ∀ pre c post, cs = pre ++ c :: post →
      (c.call lib (after lib pre s)).1 = false := by
  induction cs generalizing s with
  | nil =>
    obtain rfl : s = s' := congrArg Prod.snd h
    refine ⟨rfl, fun pre c post heq => ?_⟩
    exact absurd heq (by simp)
  | cons d cs ih =>
    obtain ⟨s₁, h₁, hrest⟩ := runChecks_success.mp h
    have hs₁ : (d.call lib s).2 = s₁ := congrArg Prod.snd h₁
    obtain ⟨rfl, hcalls⟩ := ih hrest
    refine ⟨by rw [← hs₁]; rfl, fun pre c post heq => ?_⟩
    cases pre with
    | nil =>
      obtain rfl := (List.cons.inj heq).1
      exact congrArg Prod.fst h₁
    | cons e pre =>
      obtain ⟨rfl, hcs⟩ := List.cons.inj heq
      have hcall := hcalls pre c post hcs
      rwa [← hs₁] at hcall

theorem loopTick_eq (lib : Library) (s : State) :
    loopTick lib s = runChecks (all.map (call lib)) s := rfl

theorem loopTick_after {lib : Library} {s s' : State} (h : loopTick lib s = (false, s')) :
    s' = after lib all s :=
  (runChecks_after (loopTick_eq lib s ▸ h)).1

/-- In a tick that succeeds every check does. -/
theorem loopTick_call {lib : Library} {s s' : State} (h : loopTick lib s = (false, s'))
    (c : CheckName) : (c.call lib (before lib c s)).1 = false := by
  rw [loopTick_eq] at h
  refine (runChecks_after h).2 _ c ((all.dropWhile (· ≠ c)).tail) ?_
  cases c <;> rfl

/-! ## Writes -/

/-- What a chain adds, every member with its writer. -/
def chainWrites (lib : Library) : List CheckName → State → List (Writer × Key × Value)
  | [], _ => []
  | c :: cs, s =>
    (c.adds lib s).map (fun u => (some c, u)) ++ chainWrites lib cs (c.call lib s).2

theorem after_updates (lib : Library) (cs : List CheckName) (s : State) :
    (after lib cs s).updates = s.updates ++ (chainWrites lib cs s).map Prod.snd := by
  induction cs generalizing s with
  | nil => exact (List.append_nil _).symm
  | cons c cs ih =>
    show (after lib cs (c.call lib s).2).updates = _
    rw [ih, call_updates, chainWrites, List.map_append, List.map_map, List.append_assoc]
    simp [Function.comp_def]

theorem project_map (w w' : Writer) (us : Updates) :
    project w (us.map fun u => (w', u)) = if w' = w then us else [] := by
  induction us with
  | nil => split <;> rfl
  | cons u us ih =>
    rw [List.map_cons]
    by_cases h : w' = w
    · subst h
      rw [project_cons_self, ih, if_pos rfl, if_pos rfl]
    · rw [project_cons_ne h, ih, if_neg h, if_neg h]

/-- What one check adds in a chain that calls it once. -/
theorem project_chainWrites {lib : Library} {cs : List CheckName} (hcs : cs.Nodup)
    (c : CheckName) (s : State) : project (some c) (chainWrites lib cs s)
      = if c ∈ cs then c.adds lib (after lib (cs.takeWhile (· ≠ c)) s) else [] := by
  induction cs generalizing s with
  | nil => rfl
  | cons d cs ih =>
    obtain ⟨hd, hnodup⟩ := List.nodup_cons.mp hcs
    rw [chainWrites, project_append, project_map, ih hnodup]
    by_cases h : d = c
    · subst h
      simp [hd, after]
    · simp [h, Ne.symm h, after]

end CheckName

open CheckName

/-- The message of a round, every member with its writer. -/
def Round.writes (r : Round) : List (Writer × Key × Value) :=
  r.before.updates.map (fun u => (none, u)) ++ chainWrites r.tick.lib all r.before

theorem Round.values_eq {r : Round} (h : loopTick r.tick.lib r.before = (false, r.after)) :
    r.message.values = r.writes.map Prod.snd := by
  show r.after.updates = _
  rw [loopTick_after h, after_updates, Round.writes, List.map_append, List.map_map]
  simp [Function.comp_def]

/-- What one check of the tick adds to the message. -/
theorem Round.project_writes (r : Round) (c : CheckName) :
    project (some c) r.writes = c.adds r.tick.lib (c.before r.tick.lib r.before) := by
  rw [Round.writes, project_append, project_map, if_neg (Option.some_ne_none c).symm,
    List.nil_append, project_chainWrites (by decide), if_pos (by cases c <;> decide)]
  rfl

/-- A member of the message that `c` wrote is one of its keys. -/
theorem Round.writes_keys {r : Round} {c : CheckName} {u : Key × Value}
    (h : (some c, u) ∈ r.writes) : u.1 ∈ c.keys := by
  rw [← mem_project, Round.project_writes] at h
  exact adds_keys h

end FanucDriver.Driver
