import FanucDriver.Streams.Texts

/-!
# Which messages the input stream accepts

Every check but the dynamic one, and `checkMachineInfo` but for its divisors, adds
readable members only. So over a whole run every message is preserved iff

- every load the control reports is a whole `int`,
- the input decimals of every axis lie between 0 and 18, and
- every text that is sent is UTF-8

(`messages_preserved_iff`). A load that is not sent again was whole when it was
sent, which is the invariant of the run.
-/

namespace FanucDriver.Streams

open FanucDriver.Lib FanucDriver.Driver

/-! ## What a check adds -/

/-- A step that adds readable members only, and leaves alone what the dynamic
check reads. -/
structure AddsReadable (s s' : State) : Prop where
  dynamicLv : s'.dynamicLv = s.dynamicLv
  axisCount : s'.axisCount = s.axisCount
  divisors : s'.divisors = s.divisors
  updates : ∃ us, s'.updates = s.updates ++ us ∧ ∀ u ∈ us, Readable u

theorem AddsReadable.refl (s : State) : AddsReadable s s where
  dynamicLv := rfl
  axisCount := rfl
  divisors := rfl
  updates := ⟨[], (List.append_nil _).symm, fun _ h => absurd h List.not_mem_nil⟩

theorem AddsReadable.trans {s₁ s₂ s₃ : State} (h : AddsReadable s₁ s₂) (h' : AddsReadable s₂ s₃) :
    AddsReadable s₁ s₃ where
  dynamicLv := h'.dynamicLv.trans h.dynamicLv
  axisCount := h'.axisCount.trans h.axisCount
  divisors := h'.divisors.trans h.divisors
  updates := by
    obtain ⟨us, hus, hread⟩ := h.updates
    obtain ⟨us', hus', hread'⟩ := h'.updates
    refine ⟨us ++ us', by rw [hus', hus, List.append_assoc], fun u hu => ?_⟩
    rcases List.mem_append.mp hu with hu | hu
    · exact hread u hu
    · exact hread' u hu

theorem checkMachinePartCount_readable (r : Option MachinePartCount) (s : State) :
    AddsReadable s (checkMachinePartCount r s).2 := by
  cases r with
  | none => exact .refl s
  | some v => exact ⟨rfl, rfl, rfl, _, rfl, emit_readable partCountGuard_readable _ _⟩

theorem checkMachineCycleTime_readable (r : Option MachineCycleTime) (s : State) :
    AddsReadable s (checkMachineCycleTime r s).2 := by
  unfold checkMachineCycleTime
  split
  · cases r with
    | none => exact .refl s
    | some v =>
      refine ⟨rfl, rfl, rfl, _, rfl, fun u hu => ?_⟩
      obtain rfl := List.mem_singleton.mp hu
      exact readable_long rfl (.inr rfl) _
  · exact .refl s

theorem checkMachineStatus_readable (r : Option MachineStatus) (s : State) :
    AddsReadable s (checkMachineStatus r s).2 := by
  cases r with
  | none => exact .refl s
  | some v => exact ⟨rfl, rfl, rfl, _, rfl, emit_readable statusGuards_readable _ _⟩

theorem checkMachineToolInfo_readable (r : MachineToolInfo × ToolFlags) (s : State) :
    AddsReadable s (checkMachineToolInfo r s).2 :=
  ⟨rfl, rfl, rfl, _, rfl, emit_readable toolInfoGuards_readable _ _⟩

theorem checkMachineMessage_readable (r : Option MachineMessage) (s : State) :
    AddsReadable s (checkMachineMessage r s).2 := by
  cases r with
  | none => exact .refl s
  | some v => exact ⟨rfl, rfl, rfl, _, rfl, emit_readable messageGuards_readable _ _⟩

theorem checkMachineProgramName_readable (r : Option MachineProgramName) (s : State) :
    AddsReadable s (checkMachineProgramName r s).2 := by
  unfold checkMachineProgramName
  split
  · cases r with
    | none => exact .refl s
    | some v =>
      refine ⟨rfl, rfl, rfl, _, rfl, fun u hu => ?_⟩
      rcases List.mem_cons.mp hu with rfl | hu
      · exact readable_string rfl rfl _
      · obtain rfl := List.mem_singleton.mp hu
        exact readable_string rfl rfl _
  · exact .refl s

theorem checkMachineProgramHeader_readable (get : Short → Option MachineProgram) (s : State) :
    AddsReadable s (checkMachineProgramHeader get s).2 := by
  unfold checkMachineProgramHeader
  split
  · split
    · exact .refl s
    next v _ =>
      refine ⟨rfl, rfl, rfl, _, rfl, fun u hu => ?_⟩
      obtain rfl := List.mem_singleton.mp hu
      exact readable_string rfl rfl _
  · exact .refl s

theorem contentsUpdates_readable (v : MachineProgramContents) :
    ∀ u ∈ contentsUpdates v, Readable u := by
  intro u hu
  rcases List.mem_cons.mp hu with rfl | hu
  · exact readable_long rfl (.inr rfl) _
  · split at hu
    · exact absurd hu List.not_mem_nil
    · obtain rfl := List.mem_singleton.mp hu
      exact readable_string rfl rfl _

theorem checkMachineProgramContents_readable (get : CStr → Option MachineProgramContents)
    (s : State) : AddsReadable s (checkMachineProgramContents get s).2 := by
  unfold checkMachineProgramContents
  split
  · simp only
    split
    · exact ⟨rfl, rfl, rfl, (AddsReadable.refl s).updates⟩
    next v _ => exact ⟨rfl, rfl, rfl, _, rfl, contentsUpdates_readable v⟩
  · exact .refl s

theorem checkMachineBlock_readable (r : Option MachineBlock) (s : State) :
    AddsReadable s (checkMachineBlock r s).2 := by
  cases r with
  | none => exact .refl s
  | some v => exact ⟨rfl, rfl, rfl, _, rfl, emit_readable blockGuards_readable _ _⟩

/-! ## A tick -/

/-- The checks around the dynamic one. -/
theorem runChecks_readable {checks : List (State → Bool × State)}
    (hall : ∀ check ∈ checks, ∀ s, AddsReadable s (check s).2) {s s' : State}
    (h : runChecks checks s = (false, s')) : AddsReadable s s' := by
  refine runChecks_preserves (P := AddsReadable s) (fun check hc s₁ s₂ h₁₂ hs₁ => ?_) h (.refl s)
  obtain rfl : (check s₁).2 = s₂ := congrArg Prod.snd h₁₂
  exact hs₁.trans (hall check hc s₁)

/-- A tick publishes the loads of the record it read, and otherwise adds readable
members only. -/
theorem loopTick_readable {lib : Library} {s s' : State} (h : loopTick lib s = (false, s')) :
    ∃ v, getMachineDynamic lib.dynamic s.axisCount s.divisors = some v ∧
      s'.dynamicLv = some v ∧ s'.axisCount = s.axisCount ∧
      ((∀ u ∈ s'.updates, Readable u) ↔
        (∀ u ∈ s.updates, Readable u) ∧ ∀ u ∈ emit [loadGuard] s.dynamicLv v, Readable u) := by
  -- four checks, the dynamic check, five checks
  obtain ⟨s₁, hbefore, hrest⟩ := runChecks_append.mp
    (show runChecks ((tickChecks lib).take 4 ++ (tickChecks lib).drop 4) s = _ from h)
  obtain ⟨s₂, hdyn, hafter⟩ := runChecks_success.mp hrest
  have h₁ : AddsReadable s s₁ := by
    refine runChecks_readable ?_ hbefore
    simp only [tickChecks, List.take_succ_cons, List.take_zero, List.forall_mem_cons]
    exact ⟨fun s => checkMachinePartCount_readable _ s, fun s => checkMachineCycleTime_readable _ s,
      fun s => checkMachineStatus_readable _ s, fun s => checkMachineToolInfo_readable _ s,
      fun _ h => absurd h List.not_mem_nil⟩
  have h₃ : AddsReadable s₂ s' := by
    refine runChecks_readable ?_ hafter
    simp only [List.forall_mem_cons]
    exact ⟨fun s => checkMachineMessage_readable _ s, fun s => checkMachineProgramName_readable _ s,
      fun s => checkMachineProgramHeader_readable _ s,
      fun s => checkMachineProgramContents_readable _ s, fun s => checkMachineBlock_readable _ s,
      fun _ h => absurd h List.not_mem_nil⟩
  rw [h₁.axisCount, h₁.divisors] at hdyn
  cases hv : getMachineDynamic lib.dynamic s.axisCount s.divisors with
  | none => rw [hv] at hdyn; exact absurd (congrArg Prod.fst hdyn) (by simp [checkMachineDynamic])
  | some v =>
    rw [hv] at hdyn
    obtain rfl := (congrArg Prod.snd hdyn).symm
    obtain ⟨us, hus, husr⟩ := h₁.updates
    obtain ⟨ws, hws, hwsr⟩ := h₃.updates
    refine ⟨v, rfl, h₃.dynamicLv, h₃.axisCount.trans h₁.axisCount, ?_⟩
    have hupdates : s'.updates = s.updates ++ us ++ emit dynamicGuards s.dynamicLv v ++ ws := by
      rw [hws, ← h₁.dynamicLv, ← hus]
      rfl
    rw [hupdates, ← dynamic_readable_iff]
    simp only [List.forall_mem_append]
    exact ⟨fun h => ⟨h.1.1.1, h.1.2⟩, fun h => ⟨⟨⟨h.1, husr⟩, h.2⟩, hwsr⟩⟩

/-! ## The machine information -/

/-- The `axes` member, if there is one, is readable exactly when every divisor is a
whole `long`. -/
theorem axesUpdate_readable_iff (v : MachineInfo) :
    (∀ u ∈ axesUpdate none v, Readable u) ↔
      ∀ i < v.axes_count.toNatClampNeg, ∃ n : Int64, (v.axes i).divisor = n.toInt := by
  have hvalue : Readable (.axes, .axes (axesDatum none v)) ↔
      ∀ i < v.axes_count.toNatClampNeg, ∃ n : Int64, (v.axes i).divisor = n.toInt := by
    rw [readable_iff (f := .axes) rfl]
    refine Iff.trans (Eq.to_iff (congrArg (· = true) Option.isSome_map)) ?_
    refine isSome_mapM_iff.trans ?_
    rw [axesDatum, List.map_map, List.forall_mem_map]
    refine forall_congr' fun i => ?_
    rw [List.mem_range]
    exact imp_congr_right fun _ => readAxesDef_isSome_iff (v.axes i)
  unfold axesUpdate
  split
  · rw [List.forall_mem_singleton, hvalue]
  next hempty =>
    -- without a member there is no axis
    refine iff_of_true (fun _ h => absurd h List.not_mem_nil) (fun i hi => absurd ?_ hempty)
    exact List.any_eq_true.mpr
      ⟨_, List.mem_map_of_mem (List.mem_range.mpr hi), rfl⟩

/-- The axis count `getMachineInfo` reads. -/
def reportedAxes (r : InfoReply) : Short := (r.rdaxisname.map Prod.fst).getD 0

theorem machineAxis_divisor (r : InfoReply) (inprec : Nat → Short) (names : Nat → ODBAXISNAME)
    (i : Nat) : (machineAxis r inprec names i).divisor = (10 : ℚ) ^ (inprec i).toInt := by
  unfold machineAxis
  cases r.rdaxisdata <;> rfl

/-- The divisors of a machine record are whole exactly when the decimals it was
read with are in range. -/
theorem divisorsWhole_iff {info : InfoReply} {divisors divisors' : Nat → ℚ} {v : MachineInfo}
    (h : getMachineInfo info divisors = some (v, divisors')) :
    v.axes_count = reportedAxes info ∧
      ((∀ i < v.axes_count.toNatClampNeg, ∃ n : Int64, (v.axes i).divisor = n.toInt) ↔
        DivisorsWhole info) := by
  simp only [getMachineInfo, Option.bind_eq_bind, Option.bind_eq_some_iff] at h
  obtain ⟨sysinfo, -, ids, -, ether, -, inprec, hfigure, ⟨axisCount, names⟩, hname, h⟩ := h
  obtain ⟨rfl, -⟩ := Prod.mk.inj (Option.some.inj h)
  refine ⟨by simp [reportedAxes, hname], ?_⟩
  have hpoint : ∀ i < axisCount.toNatClampNeg,
      ((∃ n : Int64, (if i < axisCount.toNatClampNeg then machineAxis info inprec names i
        else info.mem i).divisor = n.toInt) ↔ 0 ≤ (inprec i).toInt ∧ (inprec i).toInt ≤ 18) := by
    intro i hi
    rw [if_pos hi, machineAxis_divisor]
    exact pow_ten_long_iff _
  constructor
  · intro hwhole inprec' axisCount' names' hfigure' hname' i hi
    obtain rfl := Option.some.inj (hfigure.symm.trans hfigure')
    obtain ⟨rfl, rfl⟩ := Prod.mk.inj (Option.some.inj (hname.symm.trans hname'))
    exact (hpoint i hi).mp (hwhole i hi)
  · intro hwhole i hi
    exact (hpoint i hi).mpr (hwhole inprec axisCount names hfigure hname i hi)

/-- What the loop starts from. -/
theorem start_readable {maxAxis : Short} {info : InfoReply} {s : State}
    (h : start maxAxis info = some s) :
    s.dynamicLv = none ∧ s.axisCount = reportedAxes info ∧ s.metaKeys = [.info] ∧
      ((∀ u ∈ s.updates, Readable u) ↔ DivisorsWhole info) := by
  obtain ⟨⟨v, divisors⟩, hinfo, rfl⟩ := exists_of_start h
  obtain ⟨hcount, hwhole⟩ := divisorsWhole_iff hinfo
  refine ⟨rfl, hcount, rfl, ?_⟩
  show (∀ u ∈ emit infoGuards none v ++ axesUpdate none v, Readable u) ↔ _
  rw [List.forall_mem_append, axesUpdate_readable_iff, hwhole]
  exact and_iff_right (emit_readable infoGuards_readable none v)

/-! ## Runs -/

/-- The rounds of a run from a state whose last record had whole loads. -/
theorem rounds_readable_iff (ts : List Tick) {s : State}
    (hlv : ∀ l ∈ s.dynamicLv, l.dim = s.axisCount ∧ WholeLoads l) :
    (∀ r ∈ rounds s ts, ∀ u ∈ r.message.values, Readable u) ↔
      (rounds s ts ≠ [] → ∀ u ∈ s.updates, Readable u) ∧
      ∀ r ∈ rounds s ts, ∀ v ∈ r.after.dynamicLv, WholeLoads v := by
  induction ts generalizing s with
  | nil => simp [rounds]
  | cons t ts ih =>
    rcases h : loopTick t.lib s with ⟨failed, s'⟩
    cases failed with
    | true => simp [rounds_cons_failed h]
    | false =>
      obtain ⟨v, hv, hlv', hcount, hupdates⟩ := loopTick_readable h
      have hdim : v.dim = s.axisCount := Keeper.read_hasDim (c := .dynamic) hv
      have hload : (∀ u ∈ emit [loadGuard] s.dynamicLv v, Readable u) ↔ WholeLoads v :=
        load_readable_iff (by rwa [hdim])
      have hfirst : (∀ u ∈ s'.updates, Readable u) ↔
          (∀ u ∈ s.updates, Readable u) ∧ ∀ w ∈ s'.dynamicLv, WholeLoads w := by
        rw [hupdates, hload, hlv']
        exact and_congr_right' ⟨fun h w hw => Option.some.inj hw ▸ h, fun h => h v rfl⟩
      rw [rounds_cons h, List.forall_mem_cons, List.forall_mem_cons]
      refine (and_congr_left' hfirst).trans ?_
      -- the rest of the run starts from whole loads once this round's are
      have hrest : (∀ w ∈ s'.dynamicLv, WholeLoads w) →
          ((∀ r ∈ rounds s'.fresh ts, ∀ u ∈ r.message.values, Readable u) ↔
            ∀ r ∈ rounds s'.fresh ts, ∀ w ∈ r.after.dynamicLv, WholeLoads w) := by
        intro hthis
        have hfresh := ih (s := s'.fresh) (by
          intro l hl
          obtain rfl : v = l := Option.some.inj (hlv'.symm.trans hl)
          exact ⟨hdim.trans hcount.symm, hthis v hl⟩)
        rw [hfresh]
        exact and_iff_right fun _ u hu => absurd hu List.not_mem_nil
      constructor
      · intro h
        obtain ⟨⟨hbefore, hthis⟩, hmore⟩ := h
        exact ⟨fun _ => hbefore, hthis, (hrest hthis).mp hmore⟩
      · intro h
        obtain ⟨hbefore, hthis, hmore⟩ := h
        exact ⟨⟨hbefore (List.cons_ne_nil _ _), hthis⟩, (hrest hthis).mpr hmore⟩

/-- No message has a duration of one name twice. -/
theorem rounds_meta_nodup {l : Life} {r : Round} (hr : r ∈ l.rounds) :
    (r.message.metaMap.map Prod.fst).Nodup := by
  unfold Life.rounds mainRounds at hr
  cases hs : start l.maxAxis l.info with
  | none =>
    rw [hs] at hr
    exact absurd hr List.not_mem_nil
  | some s =>
    rw [hs] at hr
    have hbefore : r.before.metaKeys = [] ∨ r.before.metaKeys = [.info] :=
      rounds_invariant (P := fun s => s.metaKeys = [] ∨ s.metaKeys = [.info])
        (fun _ _ _ _ _ => .inl rfl) (.inr (start_readable hs).2.2.1) l.ticks r hr
    have hnodup := loopTick_metaKeys_nodup (loopTick_of_mem hr) hbefore
    simpa [Round.message, State.metaKeys] using hnodup

/-! ## Lives -/

/-- The decimals a control reports keep the driver's powers of ten within the doubles. Beyond
them a double is another number, or none, and the exact one says nothing about it. -/
structure DecimalsInRange (l : Life) : Prop where
  divisors : l.rounds ≠ [] → DivisorsInRange l.info
  loads : ∀ r ∈ l.rounds, LoadsInRange r.tick.lib.dynamic (reportedAxes l.info)

/-- The numbers a control reports are of the types the schema gives them. -/
structure NumbersFit (l : Life) : Prop where
  divisors : l.rounds ≠ [] → DivisorsWhole l.info
  loads : ∀ r ∈ l.rounds, LoadsWhole r.tick.lib.dynamic (reportedAxes l.info)

/-- The texts of a control that are sent are UTF-8. -/
structure TextsFit (l : Life) : Prop where
  info : l.rounds ≠ [] → InfoTexts l.info
  rounds : ∀ r ∈ l.rounds, SendsUtf8 r

/-- The messages of a life are read iff its divisors and the loads it publishes are whole. -/
theorem life_readable_iff (l : Life) :
    (∀ r ∈ l.rounds, ∀ u ∈ r.message.values, Readable u) ↔
      (l.rounds ≠ [] → DivisorsWhole l.info) ∧
      ∀ r ∈ l.rounds, ∀ v ∈ r.after.dynamicLv, WholeLoads v := by
  unfold Life.rounds mainRounds
  cases h : start l.maxAxis l.info with
  | none => simp
  | some s =>
    obtain ⟨hlv, -, -, hupdates⟩ := start_readable h
    rw [← hupdates]
    exact rounds_readable_iff l.ticks fun v hv => absurd (hlv.symm.trans hv) (by simp)

/-- Whether the loads of a round are whole shows in what the control reported. -/
theorem round_wholeLoads_iff {l : Life} {r : Round} (hr : r ∈ l.rounds)
    (hdec : LoadsInRange r.tick.lib.dynamic (reportedAxes l.info)) :
    (∀ v ∈ r.after.dynamicLv, WholeLoads v) ↔
      LoadsWhole r.tick.lib.dynamic (reportedAxes l.info) := by
  obtain ⟨v, hv, hlv, -, -⟩ := loopTick_readable (mainRounds_success r hr)
  have hcount : r.before.axisCount = reportedAxes l.info := by
    unfold Life.rounds mainRounds at hr
    cases hs : start l.maxAxis l.info with
    | none => rw [hs] at hr; exact absurd hr List.not_mem_nil
    | some s =>
      rw [hs] at hr
      exact (rounds_axisCount hr).1.trans (start_readable hs).2.1
  rw [hcount] at hv
  rw [hlv, ← wholeLoads_iff hv hdec]
  exact ⟨fun h => h v rfl, fun h w hw => Option.some.inj hw ▸ h⟩

theorem NumbersFit.readable {l : Life} (h : NumbersFit l) :
    ∀ r ∈ l.rounds, ∀ u ∈ r.message.values, Readable u :=
  (life_readable_iff l).mpr ⟨h.divisors, fun r hr =>
    (round_wholeLoads_iff hr (h.loads r hr).inRange).mpr (h.loads r hr)⟩

theorem numbersFit_of_readable {l : Life} (hdec : DecimalsInRange l)
    (h : ∀ r ∈ l.rounds, ∀ u ∈ r.message.values, Readable u) : NumbersFit l := by
  obtain ⟨hdivisors, hloads⟩ := (life_readable_iff l).mp h
  exact ⟨hdivisors, fun r hr => (round_wholeLoads_iff hr (hdec.loads r hr)).mp (hloads r hr)⟩

/-- **When the input stream preserves what the driver writes**: every message of a life is
read without change as soon as every load that a tick reads is a whole `int`, the input decimals
of every axis lie between 0 and 18 once there is a message, and every text sent is UTF-8. For
decimals within the doubles this is also necessary. No other member can be refused or changed. -/
theorem messages_preserved_iff (l : Life) :
    (NumbersFit l ∧ TextsFit l → ∀ r ∈ l.rounds, Preserved r.message) ∧
    (DecimalsInRange l → (∀ r ∈ l.rounds, Preserved r.message) → NumbersFit l ∧ TextsFit l) := by
  have hpreserved : (∀ r ∈ l.rounds, Preserved r.message) ↔
      (∀ r ∈ l.rounds, ∀ u ∈ r.message.values, Readable u) ∧
      ∀ r ∈ l.rounds, TextsUtf8 r.message := by
    rw [← forall₂_and]
    exact forall₂_congr fun r hr => preserved_iff (rounds_meta_nodup hr)
  rw [hpreserved, texts_iff]
  constructor
  · intro h
    obtain ⟨hnumbers, htexts⟩ := h
    exact ⟨hnumbers.readable, htexts.info, htexts.rounds⟩
  · intro hdec h
    obtain ⟨hreadable, hinfo, hrounds⟩ := h
    exact ⟨numbersFit_of_readable hdec hreadable, hinfo, hrounds⟩

/-! ## A control with one axis -/

/-- A life of one tick. -/
def sampleLife (v : SampleReadings) : Life := ⟨32, sampleInfo, [sampleTick .noError v]⟩

/-- A load of 5 with one decimal is half a percent. -/
def fractionalLife : Life := sampleLife { sampleReadings with loadData := 5, loadDec := 1 }

theorem sampleLife_tick {v : SampleReadings} {r : Round} (hr : r ∈ (sampleLife v).rounds) :
    r.tick = sampleTick .noError v := List.mem_singleton.mp (Life.tick_of_mem hr)

theorem sampleLife_divisors : DivisorsWhole sampleInfo ∧ DivisorsInRange sampleInfo := by
  constructor
  · intro inprec axisCount names hinprec hnames i hi
    obtain rfl := Option.some.inj hinprec
    exact show 0 ≤ (3 : Short).toInt ∧ (3 : Short).toInt ≤ 18 by decide
  · intro inprec axisCount names hinprec hnames i hi
    obtain rfl := Option.some.inj hinprec
    exact show -323 ≤ (3 : Short).toInt ∧ (3 : Short).toInt ≤ 308 by decide

/-- A life with such an axis whose loads have so many decimals. -/
theorem decimalsInRange_of_ticks {l : Life} (hinfo : l.info = sampleInfo)
    (h : ∀ t ∈ l.ticks, LoadsInRange t.lib.dynamic 1) : DecimalsInRange l := by
  refine ⟨fun _ => hinfo ▸ sampleLife_divisors.2, fun r hr => ?_⟩
  rw [hinfo]
  exact h r.tick (Life.tick_of_mem hr)

theorem sampleReadings_inRange {v : SampleReadings}
    (h : 0 ≤ v.loadDec.toInt ∧ v.loadDec.toInt ≤ 308) :
    LoadsInRange (sampleLibrary v).dynamic 1 := by
  intro num axLoad hload i hi hnum
  obtain ⟨-, rfl⟩ := Prod.mk.inj (Option.some.inj hload)
  exact h

theorem fractionalLife_decimals : DecimalsInRange fractionalLife :=
  decimalsInRange_of_ticks rfl fun t ht => by
    obtain rfl := List.mem_singleton.mp ht
    exact sampleReadings_inRange (by decide)

theorem sampleLife_numbers : NumbersFit (sampleLife sampleReadings) := by
  refine ⟨fun _ => sampleLife_divisors.1, fun r hr num axLoad hload i hi => ?_⟩
  rw [sampleLife_tick hr] at hload
  obtain ⟨rfl, rfl⟩ := Prod.mk.inj (Option.some.inj hload)
  rw [if_pos (show i < (1 : Short).toNatClampNeg from hi)]
  have hwhole : WholeReading { data := 50, dec := 0 } :=
    ⟨⟨by decide, by decide⟩, 50, by decide⟩
  exact hwhole

theorem sampleLife_texts : TextsFit (sampleLife sampleReadings) := by
  refine ⟨fun _ v divisors hv => ?_, fun r hr => ?_⟩
  · obtain ⟨rfl, -⟩ := Prod.mk.inj (Option.some.inj hv)
    refine ⟨isUtf8_ascii _ (by decide), isUtf8_ascii _ (by decide), isUtf8_ascii _ (by decide),
      isUtf8_ascii _ (by decide), isUtf8_ascii _ (by decide), fun i hi => ?_⟩
    obtain rfl : i = 0 := Nat.lt_one_iff.mp hi
    exact ⟨isUtf8_ascii _ (by decide), isUtf8_ascii _ (by decide), isUtf8_ascii _ (by decide),
      isUtf8_ascii _ (by decide)⟩
  · have htick := sampleLife_tick hr
    constructor
    · intro v hv hnumber
      rw [htick] at hv
      obtain rfl := Option.some.inj hv
      exact absurd rfl hnumber
    · intro now hnow hne v hv
      rw [htick] at hv
      obtain rfl := Option.some.inj hv
      exact ⟨isUtf8_ascii _ (by decide), isUtf8_ascii _ (by decide)⟩
    · intro now hnow hne v hv
      rw [htick] at hv
      obtain rfl := Option.some.inj hv
      exact isUtf8_ascii _ (by decide)
    · intro now hnow hne v hv contents hcontents
      rw [htick] at hv
      obtain rfl := Option.some.inj hv
      obtain rfl := Option.some.inj hcontents
      exact isUtf8_ascii _ (by decide)
    · intro v hv hne
      rw [htick] at hv
      obtain rfl := Option.some.inj hv
      exact isUtf8_ascii _ (by decide)

/-- A load of 50 without decimals is read, half a percent is not. -/
theorem messages_preserved_samples :
    (∀ r ∈ (sampleLife sampleReadings).rounds, Preserved r.message) ∧
    ¬∀ r ∈ fractionalLife.rounds, Preserved r.message := by
  refine ⟨(messages_preserved_iff _).1 ⟨sampleLife_numbers, sampleLife_texts⟩, fun h => ?_⟩
  obtain ⟨⟨-, hloads⟩, -⟩ :=
    (messages_preserved_iff fractionalLife).2 fractionalLife_decimals h
  have hlength : fractionalLife.rounds.length = 1 := by decide +kernel
  obtain ⟨r, hr⟩ := List.length_eq_one_iff.mp hlength
  have hmem : r ∈ fractionalLife.rounds := by rw [hr]; exact List.mem_singleton.mpr rfl
  have hwhole := hloads r hmem
  rw [sampleLife_tick hmem] at hwhole
  have hreading := hwhole 1 _ rfl 0 (by decide)
  rw [if_pos (by decide)] at hreading
  exact absurd hreading.2 (by decide)

/-- Half a percent is refused. -/
theorem fractional_load_refused :
    fractionalLife.rounds.map
      (fun r => (fromJson rationals (r.message.json.mapText received)).isSome) = [false] ∧
    ¬∀ l : Life, ∀ r ∈ l.rounds, Preserved r.message := by
  have hread : fractionalLife.rounds.map
      (fun r => (fromJson rationals (r.message.json.mapText received)).isSome) = [false] := by
    decide +kernel
  refine ⟨hread, fun h => ?_⟩
  obtain ⟨r, l, hr, hnone, -⟩ := List.map_eq_cons_iff.mp hread
  obtain ⟨d, hd, -⟩ := h fractionalLife r (by rw [hr]; exact List.mem_cons_self)
  rw [hd] at hnone
  exact absurd hnone (by simp)

end FanucDriver.Streams
