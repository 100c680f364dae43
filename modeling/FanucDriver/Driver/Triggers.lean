import FanucDriver.Driver.Ownership
import FanucDriver.Driver.Programs

/-!
# Reads that a change triggers

Cycle time, program name, program header and the program itself are only read when the
part count or a program number moved. Each of the four guards compares a private copy
with a global that another check has set earlier in the tick; `Round.fires` says that
after a tick the private copies are the readings of that tick.

So a guard fires when the reading differs from the one before, as the driver keeps it:

- before the first tick the private copies are -1, and 0 for the header, so a first
  reading of that value is not read;
- the program numbers are kept as `short`, so two numbers that agree in their low 16
  bits are one.

`firesOnce_iff` says that nothing else goes wrong.
-/

namespace FanucDriver.Driver

open FanucDriver.Lib CheckName

/-! ## Readings -/

/-- The part count the control reports in the tick. -/
def Round.partCount (r : Round) : Option Long := r.tick.lib.partCount.rdparam

/-- The number of the current program. -/
def Round.cprogram (r : Round) : Option Long :=
  r.tick.lib.dynamic.rddynamic2.map (·.prgnum)

/-- The number of the main program. -/
def Round.mprogram (r : Round) : Option Long :=
  r.tick.lib.dynamic.rddynamic2.map (·.prgmnum)

/-- A whole program is uploaded in the tick. -/
def Round.Uploads (r : Round) : Prop := ∃ path, LibCall.upload path ∈ r.after.calls

/-- `r` is the first round, or reads another value than the round before it. -/
def Moved {A : Type} (read : Round → A) (p : List Round) (r : Round) : Prop :=
  ∀ q ∈ p.getLast?, read q ≠ read r

/-- Round `r`, after the rounds `p`, reads what a change calls for. -/
structure FiresOnce (p : List Round) (r : Round) : Prop where
  cycleTime : r.Carries .cycle_time ↔ Moved Round.partCount p r
  programName : r.Carries .program_name ↔ Moved Round.cprogram p r
  programPath : r.Carries .program_path ↔ Moved Round.cprogram p r
  programHeader : r.Carries .program_header ↔ Moved Round.cprogram p r
  upload : r.Uploads ↔ Moved Round.mprogram p r

/-! ## One tick -/

/-- The globals are those of the static records, once there are some. -/
structure Settled (s : State) : Prop where
  partCount : ∀ v ∈ s.partCountLv, s.partCount = v.count
  programs : s.programs.Follows

/-- A tick whose control reports these three numbers: which of its guards fire, and
the private copies it leaves. -/
structure Fires (r : Round) (count c m : Long) : Prop where
  readings : r.partCount = some count ∧ r.cprogram = some c ∧ r.mprogram = some m
  cycleTime : r.Carries .cycle_time ↔ r.before.lastPartCount ≠ count
  programName : r.Carries .program_name ↔ r.before.nameCProgramNum ≠ c.toInt16
  programPath : r.Carries .program_path ↔ r.before.nameCProgramNum ≠ c.toInt16
  programHeader : r.Carries .program_header ↔ r.before.headerCProgramNum ≠ c.toInt16
  upload : r.Uploads ↔ r.before.lastProgramNum ≠ m.toInt16
  lastPartCount : r.after.lastPartCount = count
  nameCProgramNum : r.after.nameCProgramNum = c.toInt16
  headerCProgramNum : r.after.headerCProgramNum = c.toInt16
  lastProgramNum : r.after.lastProgramNum = m.toInt16

/-- After the part count check the global is the reading. -/
theorem partCount_read {lib : Library} {s : State} (hs : ∀ v ∈ s.partCountLv, s.partCount = v.count)
    (h : (call lib .partCount s).1 = false) :
    ∃ v, lib.partCount.rdparam = some v.count ∧ (call lib .partCount s).2.partCount = v.count ∧
      (call lib .partCount s).2.partCountLv = some v := by
  unfold call checkMachinePartCount getMachinePartCount at h ⊢
  cases hr : lib.partCount.rdparam with
  | none => rw [hr] at h; exact absurd h (by simp)
  | some count => exact ⟨_, rfl, Guard.onChange_refreshed hs _, rfl⟩

/-- The cycle time is read exactly when the part count moved. -/
theorem cycleTime_read {lib : Library} {s : State} (h : (call lib .cycleTime s).1 = false) :
    (.cycle_time ∈ (adds lib .cycleTime s).map Prod.fst ↔ s.lastPartCount ≠ s.partCount) ∧
    (call lib .cycleTime s).2.lastPartCount = s.partCount := by
  unfold call checkMachineCycleTime at h ⊢
  unfold adds
  by_cases hw : s.lastPartCount = s.partCount
  · simp [hw]
  · cases hr : getMachineCycleTime lib.cycleTime with
    | none => simp [hw, hr] at h
    | some v => simp [hw, State.publish]

/-- Name and path are read exactly when the current program moved. -/
theorem programName_read {lib : Library} {s : State} (h : (call lib .programName s).1 = false) :
    (.program_name ∈ (adds lib .programName s).map Prod.fst ↔
      s.nameCProgramNum ≠ s.cProgramNum) ∧
    (.program_path ∈ (adds lib .programName s).map Prod.fst ↔
      s.nameCProgramNum ≠ s.cProgramNum) := by
  unfold call checkMachineProgramName at h
  unfold adds
  by_cases hw : s.nameCProgramNum = s.cProgramNum
  · simp [hw]
  · cases hr : getMachineProgramName lib.programName with
    | none => simp [hw, hr] at h
    | some v => simp [hw]

/-- The header is read exactly when the current program moved. -/
theorem programHeader_read {lib : Library} {s : State}
    (h : (call lib .programHeader s).1 = false) :
    (.program_header ∈ (adds lib .programHeader s).map Prod.fst ↔
      s.headerCProgramNum ≠ s.cProgramNum) ∧
    (call lib .programHeader s).2.headerCProgramNum = s.cProgramNum := by
  unfold call checkMachineProgramHeader at h ⊢
  unfold adds
  by_cases hw : s.headerCProgramNum = s.cProgramNum
  · simp [hw]
  · cases hr : getMachineProgramHeader lib.header s.cProgramNum with
    | none => simp [hw, hr] at h
    | some v => simp [hw, hr, State.publish]

/-- A tick leaves its globals settled. -/
theorem Settled.tick {lib : Library} {s s' : State} (hs : Settled s)
    (h : loopTick lib s = (false, s')) : Settled s'.fresh := by
  obtain ⟨v, -, hcount, hlv⟩ := partCount_read hs.partCount (loopTick_call h .partCount)
  obtain ⟨hpc, hpclv⟩ := (rest_frame lib .partCount s).partCount fun hne => hne rfl
  rw [← loopTick_after h] at hpc hpclv
  obtain ⟨now, path, -, -, hprog⟩ := loopTick_programs hs.programs h
  rw [ProgramView.tick_eq] at hprog
  refine ⟨fun w hw => ?_, fun n hn => ?_⟩
  · obtain rfl : v = w := Option.some.inj ((hpclv.trans hlv).symm.trans hw)
    exact hpc.trans hcount
  · have hnums : s'.programs.numbers = some now := congrArg ProgramView.numbers hprog
    obtain rfl : now = n := Option.some.inj (hnums.symm.trans hn)
    exact Prod.ext (congrArg ProgramView.cProgramNum hprog : s'.cProgramNum = now.1)
      (congrArg ProgramView.mProgramNum hprog : s'.mProgramNum = now.2)

/-- The state in which the rounds of a run start. -/
theorem start_eq {maxAxis : Short} {info : InfoReply} {s : State}
    (h : start maxAxis info = some s) :
    Settled s ∧ s.calls = [] ∧ s.lastPartCount = -1 ∧ s.nameCProgramNum = -1 ∧
      s.headerCProgramNum = 0 ∧ s.lastProgramNum = -1 := by
  obtain ⟨_, -, rfl⟩ := exists_of_start h
  refine ⟨⟨fun v hv => ?_, fun n hn => ?_⟩, rfl, rfl, rfl, rfl, rfl⟩
  · exact absurd hv.symm (Option.some_ne_none v)
  · exact absurd hn.symm (Option.some_ne_none n)

/-- The rounds of a run start settled, with no calls made. -/
theorem mainRounds_settled {maxAxis : Short} {info : InfoReply} {ts : List Tick} {r : Round}
    (hr : r ∈ mainRounds maxAxis info ts) : Settled r.before ∧ r.before.calls = [] := by
  unfold mainRounds at hr
  cases hs : start maxAxis info with
  | none => rw [hs] at hr; exact absurd hr List.not_mem_nil
  | some s =>
    rw [hs] at hr
    obtain ⟨hsettled, hcalls, -⟩ := start_eq hs
    exact rounds_invariant (P := fun s => Settled s ∧ s.calls = [])
      (fun _ _ _ hs h => ⟨hs.1.tick h, rfl⟩) ⟨hsettled, hcalls⟩ ts r hr

/-- After the dynamic check nobody moves the shared numbers. -/
theorem before_numbers {lib : Library} {s s' : State} (hf : s.programs.Follows)
    (h : loopTick lib s = (false, s')) {now : Short × Short} (hnow : lib.numbers = some now)
    {c : CheckName} (hc : .dynamic ∉ all.dropWhile (· ≠ c)) :
    (before lib c s).cProgramNum = now.1 ∧ (before lib c s).mProgramNum = now.2 := by
  obtain ⟨now', path, hnow', -, hprog⟩ := loopTick_programs hf h
  obtain rfl := Option.some.inj (hnow.symm.trans hnow')
  rw [ProgramView.tick_eq] at hprog
  have hcnum : s'.cProgramNum = now.1 := congrArg ProgramView.cProgramNum hprog
  have hmnum : s'.mProgramNum = now.2 := congrArg ProgramView.mProgramNum hprog
  obtain ⟨-, hc', hm'⟩ := (tail_frame lib c s).dynamic hc
  rw [← loopTick_after h] at hc' hm'
  exact ⟨hc'.symm.trans hcnum, hm'.symm.trans hmnum⟩

/-- **What one tick reads.** -/
theorem exists_fires {maxAxis : Short} {info : InfoReply} {ts : List Tick} {r : Round}
    (hr : r ∈ mainRounds maxAxis info ts) : ∃ count c m, Fires r count c m := by
  have h := mainRounds_success r hr
  obtain ⟨hs, hcalls⟩ := mainRounds_settled hr
  obtain ⟨now, path, hnow, -, hprog⟩ := loopTick_programs hs.programs h
  rw [ProgramView.tick_eq] at hprog
  obtain ⟨dyn, hdyn, rfl⟩ := Option.map_eq_some_iff.mp hnow
  obtain ⟨v, hcount, hpart, -⟩ :=
    partCount_read hs.partCount (loopTick_call h .partCount)
  have hnum (c : CheckName) (hc : .dynamic ∉ all.dropWhile (· ≠ c)) :
      (before r.tick.lib c r.before).cProgramNum = dyn.prgnum.toInt16 :=
    (before_numbers hs.programs h hnow hc).1
  have hname := programName_read (loopTick_call h .programName)
  rw [hnum .programName (by decide),
    (before_frame r.tick.lib .programName r.before).programName fun hne => hne rfl] at hname
  have hheader := programHeader_read (loopTick_call h .programHeader)
  rw [hnum .programHeader (by decide),
    (before_frame r.tick.lib .programHeader r.before).programHeader fun hne => hne rfl] at hheader
  have hcycle := cycleTime_read (loopTick_call h .cycleTime)
  -- the cycle time check comes right after the part count check
  rw [show (before r.tick.lib .cycleTime r.before).partCount = v.count from hpart,
    (before_frame r.tick.lib .cycleTime r.before).cycleTime fun hne => hne rfl] at hcycle
  exact ⟨v.count, dyn.prgnum, dyn.prgmnum, {
    readings := ⟨hcount, by rw [Round.cprogram, hdyn]; rfl, by rw [Round.mprogram, hdyn]; rfl⟩
    cycleTime := (Round.carries_iff hr (by decide) (by decide)).trans hcycle.1
    programName := (Round.carries_iff hr (by decide) (by decide)).trans hname.1
    programPath := (Round.carries_iff hr (by decide) (by decide)).trans hname.2
    programHeader := (Round.carries_iff hr (by decide) (by decide)).trans hheader.1
    upload := by
      have hk : r.after.calls = r.before.calls ++ _ := congrArg ProgramView.calls hprog
      rw [hcalls, List.nil_append] at hk
      unfold Round.Uploads
      rw [hk]
      constructor
      · intro h
        obtain ⟨path, hpath⟩ := h
        exact (upload_mem_programCalls.mp hpath).1
      · intro hne
        exact ⟨_, upload_mem_programCalls.mpr ⟨hne, rfl⟩⟩
    lastPartCount := by
      rw [loopTick_after h,
        (rest_frame r.tick.lib .cycleTime r.before).cycleTime fun hne => hne rfl, hcycle.2]
    nameCProgramNum := congrArg ProgramView.nameCProgramNum hprog
    headerCProgramNum := by
      rw [loopTick_after h,
        (rest_frame r.tick.lib .programHeader r.before).programHeader fun hne => hne rfl, hheader.2]
    lastProgramNum := congrArg ProgramView.lastProgramNum hprog }⟩

/-! ## Runs -/

/-- A first reading that the private copies do not already hold. -/
structure Unseen (r : Round) : Prop where
  partCount : r.partCount ≠ some (-1)
  cprogram : ∀ c ∈ r.cprogram, c.toInt16 ≠ -1 ∧ c.toInt16 ≠ 0
  mprogram : ∀ m ∈ r.mprogram, m.toInt16 ≠ -1

/-- Program numbers that differ still differ as the driver keeps them. -/
structure Distinct (a b : Round) : Prop where
  cprogram : ∀ c ∈ a.cprogram, ∀ c' ∈ b.cprogram, c.toInt16 = c'.toInt16 → c = c'
  mprogram : ∀ m ∈ a.mprogram, ∀ m' ∈ b.mprogram, m.toInt16 = m'.toInt16 → m = m'

/-- The first tick reads everything iff no private copy is at its reading. -/
theorem firesOnce_first {r : Round} {count c m : Long} (h : Fires r count c m)
    (hcount : r.before.lastPartCount = -1) (hname : r.before.nameCProgramNum = -1)
    (hheader : r.before.headerCProgramNum = 0) (hlast : r.before.lastProgramNum = -1) :
    FiresOnce [] r ↔ Unseen r := by
  have hmoved {A : Type} (read : Round → A) : Moved read [] r :=
    fun q hq => absurd hq.symm (Option.some_ne_none q)
  obtain ⟨hpc, hc, hm⟩ := h.readings
  have hcycle := h.cycleTime
  have hn := h.programName
  have hp := h.programPath
  have hh := h.programHeader
  have hu := h.upload
  rw [hcount] at hcycle
  rw [hname] at hn hp
  rw [hheader] at hh
  rw [hlast] at hu
  constructor
  · intro hf
    refine ⟨fun he => ?_, fun c' hc' => ?_, fun m' hm' => ?_⟩
    · rw [hpc, Option.some.injEq] at he
      exact hcycle.mp (hf.cycleTime.mpr (hmoved _)) he.symm
    · obtain rfl : c = c' := Option.some.inj (hc.symm.trans hc')
      exact ⟨fun he => hn.mp (hf.programName.mpr (hmoved _)) he.symm,
        fun he => hh.mp (hf.programHeader.mpr (hmoved _)) he.symm⟩
    · obtain rfl : m = m' := Option.some.inj (hm.symm.trans hm')
      exact fun he => hu.mp (hf.upload.mpr (hmoved _)) he.symm
  · intro hunseen
    have hcount : (-1 : Long) ≠ count := fun he => hunseen.partCount (by rw [hpc, he])
    have hnum := hunseen.cprogram c hc
    have hmain := hunseen.mprogram m hm
    exact ⟨iff_of_true (hcycle.mpr hcount) (hmoved _), iff_of_true (hn.mpr hnum.1.symm) (hmoved _),
      iff_of_true (hp.mpr hnum.1.symm) (hmoved _), iff_of_true (hh.mpr hnum.2.symm) (hmoved _),
      iff_of_true (hu.mpr hmain.symm) (hmoved _)⟩

/-- A later tick reads what changed iff no change is lost in the narrowing. -/
theorem firesOnce_next {p : List Round} {a b : Round} {count c m count' c' m' : Long}
    (ha : Fires a count c m) (hb : Fires b count' c' m') (hab : b.before = a.after.fresh) :
    FiresOnce (p ++ [a]) b ↔ Distinct a b := by
  have hmoved {A : Type} (read : Round → A) : Moved read (p ++ [a]) b ↔ read a ≠ read b := by
    simp [Moved]
  obtain ⟨hpc, hc, hm⟩ := ha.readings
  obtain ⟨hpc', hc', hm'⟩ := hb.readings
  have hcycle := hb.cycleTime
  have hn := hb.programName
  have hp := hb.programPath
  have hh := hb.programHeader
  have hu := hb.upload
  -- the private copies are the readings of the tick before
  rw [hab] at hcycle hn hp hh hu
  change b.Carries .cycle_time ↔ a.after.lastPartCount ≠ count' at hcycle
  change b.Carries .program_name ↔ a.after.nameCProgramNum ≠ c'.toInt16 at hn
  change b.Carries .program_path ↔ a.after.nameCProgramNum ≠ c'.toInt16 at hp
  change b.Carries .program_header ↔ a.after.headerCProgramNum ≠ c'.toInt16 at hh
  change b.Uploads ↔ a.after.lastProgramNum ≠ m'.toInt16 at hu
  rw [ha.lastPartCount] at hcycle
  rw [ha.nameCProgramNum] at hn hp
  rw [ha.headerCProgramNum] at hh
  rw [ha.lastProgramNum] at hu
  have hmc : Moved Round.cprogram (p ++ [a]) b ↔ c ≠ c' := by
    rw [hmoved, hc, hc', ne_eq, Option.some.injEq]
  have hmm : Moved Round.mprogram (p ++ [a]) b ↔ m ≠ m' := by
    rw [hmoved, hm, hm', ne_eq, Option.some.injEq]
  have hmp : Moved Round.partCount (p ++ [a]) b ↔ count ≠ count' := by
    rw [hmoved, hpc, hpc', ne_eq, Option.some.injEq]
  constructor
  · intro hf
    refine ⟨fun x hx y hy he => ?_, fun x hx y hy he => ?_⟩
    · obtain rfl : c = x := Option.some.inj (hc.symm.trans hx)
      obtain rfl : c' = y := Option.some.inj (hc'.symm.trans hy)
      by_contra hne
      exact hn.mp (hf.programName.mpr (hmc.mpr hne)) he
    · obtain rfl : m = x := Option.some.inj (hm.symm.trans hx)
      obtain rfl : m' = y := Option.some.inj (hm'.symm.trans hy)
      by_contra hne
      exact hu.mp (hf.upload.mpr (hmm.mpr hne)) he
  · intro hd
    have hcne : c.toInt16 ≠ c'.toInt16 ↔ c ≠ c' :=
      ⟨fun h he => h (by rw [he]), fun h he => h (hd.cprogram c hc c' hc' he)⟩
    have hmne : m.toInt16 ≠ m'.toInt16 ↔ m ≠ m' :=
      ⟨fun h he => h (by rw [he]), fun h he => h (hd.mprogram m hm m' hm' he)⟩
    exact ⟨hcycle.trans hmp.symm, (hn.trans hcne).trans hmc.symm, (hp.trans hcne).trans hmc.symm,
      (hh.trans hcne).trans hmc.symm, (hu.trans hmne).trans hmm.symm⟩

/-- **When every change is read exactly once.** In every round of a run cycle time,
name, path, header and program are read iff the round is the first or its part count,
current program or main program differs from the round before; this holds iff the
first round reads a part count other than -1, a current program that is neither -1 nor
0 as a `short` and a main program that is not -1 as a `short`, and no two successive
program numbers differ only above their low 16 bits. -/
theorem firesOnce_iff (maxAxis : Short) (info : InfoReply) (ts : List Tick) :
    (∀ p r, p ++ [r] <+: mainRounds maxAxis info ts → FiresOnce p r) ↔
      (∀ r ∈ (mainRounds maxAxis info ts).head?, Unseen r) ∧
      ∀ p a b, p ++ [a, b] <+: mainRounds maxAxis info ts → Distinct a b := by
  cases hs : start maxAxis info with
  | none => simp [mainRounds, hs]
  | some s =>
    obtain ⟨-, -, hcount, hname, hheader, hlast⟩ := start_eq hs
    have hrounds : mainRounds maxAxis info ts = rounds s ts := by rw [mainRounds, hs]
    have hfires (r : Round) (hr : r ∈ rounds s ts) : ∃ count c m, Fires r count c m :=
      exists_fires (hrounds ▸ hr)
    have hfirst (r : Round) (hr : r ∈ (rounds s ts).head?) : FiresOnce [] r ↔ Unseen r := by
      obtain ⟨count, c, m, hf⟩ := hfires r (List.mem_of_mem_head? hr)
      obtain rfl := rounds_first hr
      exact firesOnce_first hf hcount hname hheader hlast
    have hnext (p : List Round) (a b : Round) (h : p ++ [a, b] <+: rounds s ts) :
        FiresOnce (p ++ [a]) b ↔ Distinct a b := by
      obtain ⟨_, _, _, ha⟩ := hfires a (h.subset (by simp))
      obtain ⟨_, _, _, hb⟩ := hfires b (h.subset (by simp))
      exact firesOnce_next ha hb (rounds_successive h)
    rw [hrounds, forall_prefix_iff]
    exact and_congr (forall₂_congr hfirst) (forall₄_congr hnext)

/-- A control that starts with program 0: the name is read, the header is not. -/
theorem header_not_read :
    (mainRounds 32 sampleInfo [sampleTick .noError { sampleReadings with cprogram := 0 }]).map
        (fun r => (decide (r.Carries .program_name), decide (r.Carries .program_header)))
      = [(true, false)] ∧
    ¬∀ (maxAxis : Short) (info : InfoReply) (ts : List Tick) (p : List Round) (r : Round),
      p ++ [r] <+: mainRounds maxAxis info ts → FiresOnce p r := by
  have hrounds : (mainRounds 32 sampleInfo
        [sampleTick .noError { sampleReadings with cprogram := 0 }]).map
        (fun r => (decide (r.Carries .program_name), decide (r.Carries .program_header)))
      = [(true, false)] := by decide +kernel
  refine ⟨hrounds, fun h => ?_⟩
  obtain ⟨r, l, hl, hr, hnil⟩ := List.map_eq_cons_iff.mp hrounds
  obtain rfl := List.map_eq_nil_iff.mp hnil
  have hheader : ¬r.Carries .program_header := by simpa using congrArg Prod.snd hr
  have hfires := h 32 sampleInfo _ [] r (by rw [hl]; exact List.prefix_refl _)
  exact hheader (hfires.programHeader.mpr fun q hq => absurd hq.symm (Option.some_ne_none q))

end FanucDriver.Driver
