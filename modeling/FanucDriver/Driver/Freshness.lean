import FanucDriver.Driver.Ticks

/-!
# Which published values are fresh

Every read goes into a record in fresh `malloc` memory. Here a getter is run once more on
a record of which it is known what has been assigned: `none` is a field that still holds
what the memory held. `getMachineInfo_over`, `getMachineDynamic_over` and
`getMachineToolInfo_over` say that laid over that memory the assigned record is the
one the check publishes.

A record is `Complete` when everything its check compares and publishes is assigned.
Three things keep one from being complete:

- without axis data `getMachineInfo` leaves five fields of every axis,
- `getMachineDynamic` fills the arrays to the count `cnc_rdsvmeter` reported, and
  its check reads them to the axis count of `getMachineInfo`,
- once `cnc_rdntool` and then `cnc_modal` have failed, `getMachineToolInfo` assigns
  neither the tool nor its group.

The two flags of the last one outlive the call. `toolFlags_of_known` is their
invariant: as long as every tool was known they say which of the two functions is asked.
-/

namespace FanucDriver.Driver

open FanucDriver.Lib CheckName

/-! ## Assigned fields -/

/-- `MachineAxisInfo`, as far as it is assigned. -/
structure AssignedAxisInfo where
  id : Option CStr := none
  index : Option Short := none
  suffix : Option CStr := none
  divisor : Option ℚ := none
  name : Option CStr := none
  flag : Option Short := none
  unit : Option Short := none
  unith : Option CStr := none
  decimal : Option Short := none

/-- `MachineInfo`, as far as it is assigned. -/
structure AssignedInfo where
  executionDuration : Option ULong := none
  id : Option CStr := none
  max_axis : Option Short := none
  addinfo : Option Short := none
  cnc_type : Option CStr := none
  mt_type : Option CStr := none
  series : Option CStr := none
  version : Option CStr := none
  axes_count_chk : Option CStr := none
  axes_count : Option Short := none
  etherType : Option Short := none
  etherDevice : Option Short := none
  axes : Nat → AssignedAxisInfo := fun _ => {}

/-- `MachineDynamic`, as far as it is assigned. -/
structure AssignedDynamic where
  executionDuration : Option ULong := none
  cprogram : Option Short := none
  mprogram : Option Short := none
  sequence : Option Short := none
  actf : Option Short := none
  acts : Option Short := none
  alarm : Option Short := none
  dim : Option Short := none
  absolute : Nat → Option ℚ := fun _ => none
  relative : Nat → Option ℚ := fun _ => none
  actual : Nat → Option ℚ := fun _ => none
  load : Nat → Option ℚ := fun _ => none

/-- `MachineToolInfo`, as far as it is assigned. -/
structure AssignedToolInfo where
  executionDuration : Option ULong := none
  id : Option Long := none
  group : Option Long := none

/-! ## The assignments of a getter -/

/-- One round of the axis loop of `getMachineInfo`. -/
def assignMachineAxis (r : InfoReply) (inprec : Nat → Short) (names : Nat → ODBAXISNAME)
    (i : Nat) : AssignedAxisInfo :=
  let v : AssignedAxisInfo :=
    { id := some (cChar (names i).name)
      index := some (Int16.ofNat i)
      suffix := some (cChar (names i).suff)
      divisor := some ((10 : ℚ) ^ (inprec i).toInt) }
  match r.rdaxisdata with
  | none => v
  | some axisData =>
    { v with
      name := some (axisData i).name
      flag := some (axisData i).flag
      unit := some (axisData i).unit
      unith := some (axisUnith.getD (axisData i).unit.toNatClampNeg "").toList
      decimal := some (axisData i).dec }

def assignMachineInfo (r : InfoReply) : Option AssignedInfo := do
  let sysinfo ← r.sysinfo
  let (id0, id1, id2, id3) ← r.rdcncid
  let (etherType, etherDevice) ← r.rdetherinfo
  let inprec ← r.getfigure
  let (axisCount, names) ← r.rdaxisname
  some
    { executionDuration := some r.clock.tt
      id := some (hex8 id0 ++ '-' :: hex8 id1 ++ '-' :: hex8 id2 ++ '-' :: hex8 id3)
      max_axis := some sysinfo.max_axis
      addinfo := some sysinfo.addinfo
      cnc_type := some ((cString sysinfo.cnc_type).take 2)
      mt_type := some ((cString sysinfo.mt_type).take 2)
      series := some ((cString sysinfo.series).take 4)
      version := some ((cString sysinfo.version).take 4)
      axes_count_chk := some ((cString sysinfo.axes).take 2)
      axes_count := some axisCount
      etherType := some etherType
      etherDevice := some etherDevice
      axes := fun i =>
        if i < axisCount.toNatClampNeg then assignMachineAxis r inprec names i else {} }

/-- The fill loop of `getMachineDynamic`. -/
def assignAxes (num : Short) (value : Nat → ℚ) (i : Nat) : Option ℚ :=
  if i < num.toNatClampNeg then some (value i) else none

def assignMachineDynamic (r : DynamicReply) (axisCount : Short) (divisors : Nat → ℚ) :
    Option AssignedDynamic := do
  let dyn ← r.rddynamic2
  let (num, axLoad) ← r.rdsvmeter
  some
    { executionDuration := some r.clock.tt
      absolute := assignAxes num fun i => (dyn.absolute i).toInt / divisors i
      relative := assignAxes num fun i => (dyn.relative i).toInt / divisors i
      actual := assignAxes num fun i => (dyn.machine i).toInt / divisors i
      load := assignAxes num fun i => (axLoad i).value
      dim := some axisCount
      cprogram := some dyn.prgnum.toInt16
      mprogram := some dyn.prgmnum.toInt16
      sequence := some dyn.seqnum.toInt16
      actf := some dyn.actf.toInt16
      acts := some dyn.acts.toInt16
      alarm := some dyn.alarm.toInt16 }

/-- The first half of `getMachineToolInfo`. -/
def assignToolManagement (r : ToolInfoReply) (f : ToolFlags) : AssignedToolInfo × ToolFlags :=
  if f.toolManagementEnabled then
    match r.rdntool with
    | some toolId =>
      if toolId.data ≠ 0 then ({ id := some toolId.data, group := some toolId.datano }, f)
      else ({}, { toolManagementEnabled := false, useModalToolData := true })
    | none => ({}, { toolManagementEnabled := false, useModalToolData := true })
  else ({}, f)

/-- The second half. -/
def assignModalTool (r : ToolInfoReply) (v : AssignedToolInfo) (f : ToolFlags) :
    AssignedToolInfo × ToolFlags :=
  if f.useModalToolData then
    match r.modal with
    | some auxData => ({ v with id := some auxData, group := some 0 }, f)
    | none => (v, { f with useModalToolData := false })
  else (v, f)

def assignMachineToolInfo (r : ToolInfoReply) (f : ToolFlags) : AssignedToolInfo × ToolFlags :=
  let (v, f) := assignToolManagement r f
  let (v, f) := assignModalTool r v f
  ({ v with executionDuration := some r.clock.tt }, f)

/-! ## Assigned records over memory -/

/-- The record in memory: what is not assigned is what the memory held. -/
def AssignedAxisInfo.over (v : AssignedAxisInfo) (mem : MachineAxisInfo) : MachineAxisInfo where
  id := v.id.getD mem.id
  index := v.index.getD mem.index
  suffix := v.suffix.getD mem.suffix
  divisor := v.divisor.getD mem.divisor
  name := v.name.getD mem.name
  flag := v.flag.getD mem.flag
  unit := v.unit.getD mem.unit
  unith := v.unith.getD mem.unith
  decimal := v.decimal.getD mem.decimal

def AssignedInfo.over (v : AssignedInfo) (mem : MachineInfo) : MachineInfo where
  executionDuration := v.executionDuration.getD mem.executionDuration
  id := v.id.getD mem.id
  max_axis := v.max_axis.getD mem.max_axis
  addinfo := v.addinfo.getD mem.addinfo
  cnc_type := v.cnc_type.getD mem.cnc_type
  mt_type := v.mt_type.getD mem.mt_type
  series := v.series.getD mem.series
  version := v.version.getD mem.version
  axes_count_chk := v.axes_count_chk.getD mem.axes_count_chk
  axes_count := v.axes_count.getD mem.axes_count
  etherType := v.etherType.getD mem.etherType
  etherDevice := v.etherDevice.getD mem.etherDevice
  axes := fun i => (v.axes i).over (mem.axes i)

def AssignedDynamic.over (v : AssignedDynamic) (mem : MachineDynamic) : MachineDynamic where
  executionDuration := v.executionDuration.getD mem.executionDuration
  cprogram := v.cprogram.getD mem.cprogram
  mprogram := v.mprogram.getD mem.mprogram
  sequence := v.sequence.getD mem.sequence
  actf := v.actf.getD mem.actf
  acts := v.acts.getD mem.acts
  alarm := v.alarm.getD mem.alarm
  dim := v.dim.getD mem.dim
  absolute := fun i => (v.absolute i).getD (mem.absolute i)
  relative := fun i => (v.relative i).getD (mem.relative i)
  actual := fun i => (v.actual i).getD (mem.actual i)
  load := fun i => (v.load i).getD (mem.load i)

def AssignedToolInfo.over (v : AssignedToolInfo) (mem : MachineToolInfo) : MachineToolInfo where
  executionDuration := v.executionDuration.getD mem.executionDuration
  id := v.id.getD mem.id
  group := v.group.getD mem.group

theorem machineAxis_over (r : InfoReply) (inprec : Nat → Short) (names : Nat → ODBAXISNAME)
    (i : Nat) :
    machineAxis r inprec names i = (assignMachineAxis r inprec names i).over (r.mem i) := by
  unfold machineAxis assignMachineAxis
  cases r.rdaxisdata <;> rfl

theorem fillAxes_over (num : Short) (value mem : Nat → ℚ) :
    fillAxes num value mem = fun i => (assignAxes num value i).getD (mem i) := by
  funext i
  unfold fillAxes assignAxes
  split <;> rfl

/-- The record of `getMachineInfo` is its assignments over what the memory held. -/
theorem getMachineInfo_over (r : InfoReply) (divisors : Nat → ℚ) (mem : MachineInfo)
    (hmem : mem.axes = r.mem) :
    (getMachineInfo r divisors).map Prod.fst = (assignMachineInfo r).map (·.over mem) := by
  unfold getMachineInfo assignMachineInfo
  cases r.sysinfo with
  | none => rfl
  | some sysinfo =>
  cases r.rdcncid with
  | none => rfl
  | some ids =>
  cases r.rdetherinfo with
  | none => rfl
  | some ether =>
  cases r.getfigure with
  | none => rfl
  | some inprec =>
  cases r.rdaxisname with
  | none => rfl
  | some axisNames =>
    have haxes : (fun i => if i < axisNames.1.toNatClampNeg then
          machineAxis r inprec axisNames.2 i else r.mem i)
        = fun i => (if i < axisNames.1.toNatClampNeg then
          assignMachineAxis r inprec axisNames.2 i else {}).over (mem.axes i) := by
      funext i
      rw [hmem]
      split
      · exact machineAxis_over r inprec axisNames.2 i
      · rfl
    simp [AssignedInfo.over, haxes]

/-- The record of `getMachineDynamic` is its assignments over what the memory held. -/
theorem getMachineDynamic_over (r : DynamicReply) (axisCount : Short) (divisors : Nat → ℚ)
    (mem : MachineDynamic)
    (hmem : r.mem = ⟨mem.absolute, mem.relative, mem.actual, mem.load⟩) :
    getMachineDynamic r axisCount divisors
      = (assignMachineDynamic r axisCount divisors).map (·.over mem) := by
  unfold getMachineDynamic assignMachineDynamic
  cases r.rddynamic2 with
  | none => rfl
  | some dyn =>
    cases r.rdsvmeter with
    | none => rfl
    | some load => simp [AssignedDynamic.over, hmem, fillAxes_over]

/-- The record of `getMachineToolInfo` is its assignments over what the memory held. -/
theorem getMachineToolInfo_over (r : ToolInfoReply) (f : ToolFlags) :
    getMachineToolInfo r f
      = ((assignMachineToolInfo r f).1.over r.mem, (assignMachineToolInfo r f).2) := by
  have hfirst : toolManagement r f
      = ((assignToolManagement r f).1.over r.mem, (assignToolManagement r f).2) := by
    unfold toolManagement assignToolManagement
    split
    · cases r.rdntool with
      | none => rfl
      | some toolId =>
        by_cases hdata : toolId.data ≠ 0
        · simp only [if_pos hdata]
          rfl
        · simp only [if_neg hdata]
          rfl
    · rfl
  have hsecond : ∀ (v : AssignedToolInfo) (f : ToolFlags), modalTool r (v.over r.mem) f
      = ((assignModalTool r v f).1.over r.mem, (assignModalTool r v f).2) := by
    intro v f
    unfold modalTool assignModalTool
    split
    · cases r.modal <;> rfl
    · rfl
  unfold getMachineToolInfo assignMachineToolInfo
  simp only [hfirst, hsecond]
  rfl

/-! ## Complete records -/

structure AssignedAxisInfo.Complete (v : AssignedAxisInfo) : Prop where
  id : v.id.isSome
  index : v.index.isSome
  suffix : v.suffix.isSome
  divisor : v.divisor.isSome
  name : v.name.isSome
  flag : v.flag.isSome
  unit : v.unit.isSome
  unith : v.unith.isSome
  decimal : v.decimal.isSome

/-- Everything `checkMachineInfo` publishes is assigned. -/
structure AssignedInfo.Complete (v : AssignedInfo) : Prop where
  id : v.id.isSome
  max_axis : v.max_axis.isSome
  addinfo : v.addinfo.isSome
  cnc_type : v.cnc_type.isSome
  mt_type : v.mt_type.isSome
  series : v.series.isSome
  version : v.version.isSome
  axes_count_chk : v.axes_count_chk.isSome
  axes_count : v.axes_count.isSome
  etherType : v.etherType.isSome
  etherDevice : v.etherDevice.isSome
  axes : ∀ n ∈ v.axes_count, ∀ i < n.toNatClampNeg, (v.axes i).Complete

/-- Everything `checkMachineDynamic` publishes is assigned. -/
structure AssignedDynamic.Complete (v : AssignedDynamic) : Prop where
  cprogram : v.cprogram.isSome
  mprogram : v.mprogram.isSome
  sequence : v.sequence.isSome
  actf : v.actf.isSome
  acts : v.acts.isSome
  alarm : v.alarm.isSome
  dim : v.dim.isSome
  axes : ∀ n ∈ v.dim, ∀ i < n.toNatClampNeg,
    (v.absolute i).isSome ∧ (v.relative i).isSome ∧ (v.actual i).isSome ∧ (v.load i).isSome

/-- Everything `checkMachineToolInfo` publishes is assigned. -/
structure AssignedToolInfo.Complete (v : AssignedToolInfo) : Prop where
  id : v.id.isSome
  group : v.group.isSome

/-! ## One call -/

/-- `getMachineInfo` returns 0. -/
def InfoReply.Read (r : InfoReply) : Prop :=
  r.sysinfo.isSome ∧ r.rdcncid.isSome ∧ r.rdetherinfo.isSome ∧ r.getfigure.isSome ∧
    r.rdaxisname.isSome

/-- The axis count `cnc_rdaxisname` reported. -/
def InfoReply.axisCount (r : InfoReply) : Option Short := r.rdaxisname.map Prod.fst

theorem assignMachineAxis_complete_iff (r : InfoReply) (inprec : Nat → Short)
    (names : Nat → ODBAXISNAME) (i : Nat) :
    (assignMachineAxis r inprec names i).Complete ↔ r.rdaxisdata.isSome := by
  unfold assignMachineAxis
  cases r.rdaxisdata with
  | none => exact iff_of_false (fun h => Bool.false_ne_true h.name) (by simp)
  | some axisData => exact iff_of_true ⟨rfl, rfl, rfl, rfl, rfl, rfl, rfl, rfl, rfl⟩ rfl

/-- Machine information is complete when there is axis data, or no axis. -/
theorem assignMachineInfo_complete_iff (r : InfoReply) :
    (∀ v ∈ assignMachineInfo r, v.Complete) ↔
      (r.Read → r.rdaxisdata.isSome ∨ ∀ n ∈ r.axisCount, n.toNatClampNeg = 0) := by
  by_cases hread : r.Read
  · obtain ⟨hsys, hid, hether, hfigure, hname⟩ := hread
    obtain ⟨sysinfo, hsys⟩ := Option.isSome_iff_exists.mp hsys
    obtain ⟨⟨id0, id1, id2, id3⟩, hid⟩ := Option.isSome_iff_exists.mp hid
    obtain ⟨⟨etherType, etherDevice⟩, hether⟩ := Option.isSome_iff_exists.mp hether
    obtain ⟨inprec, hfigure⟩ := Option.isSome_iff_exists.mp hfigure
    obtain ⟨⟨axisCount, names⟩, hname⟩ := Option.isSome_iff_exists.mp hname
    have hcount : r.axisCount = some axisCount := congrArg (Option.map Prod.fst) hname
    have hassign : ∃ v, assignMachineInfo r = some v ∧ v.axes_count = some axisCount ∧
        (v.Complete ↔ ∀ i < axisCount.toNatClampNeg, (v.axes i).Complete) ∧
        ∀ i < axisCount.toNatClampNeg, v.axes i = assignMachineAxis r inprec names i := by
      unfold assignMachineInfo
      rw [hsys, hid, hether, hfigure, hname]
      refine ⟨_, rfl, rfl, ⟨fun h => h.axes _ rfl, fun h => ?_⟩, fun i hi => if_pos hi⟩
      refine ⟨rfl, rfl, rfl, rfl, rfl, rfl, rfl, rfl, rfl, rfl, rfl, fun n hn => ?_⟩
      rwa [← Option.some.inj hn]
    obtain ⟨v, hv, -, hcomplete, haxes⟩ := hassign
    have hone : v.Complete ↔ ∀ i < axisCount.toNatClampNeg, r.rdaxisdata.isSome := by
      refine hcomplete.trans (forall_congr' fun i => forall_congr' fun hi => ?_)
      rw [haxes i hi, assignMachineAxis_complete_iff]
    rw [hv, hcount]
    constructor
    · intro h _
      rcases Nat.eq_zero_or_pos axisCount.toNatClampNeg with hzero | hpos
      · exact .inr fun n hn => by rwa [← Option.some.inj hn]
      · exact .inl (hone.mp (h v rfl) 0 hpos)
    · intro h w hw
      rw [← Option.some.inj hw, hone]
      intro i hi
      rcases h ⟨by simp [hsys], by simp [hid], by simp [hether], by simp [hfigure],
        by simp [hname]⟩ with hdata | hzero
      · exact hdata
      · rw [hzero axisCount rfl] at hi
        exact absurd hi (Nat.not_lt_zero i)
  · refine iff_of_true (fun v hv => absurd ?_ hread) fun h => absurd h hread
    unfold assignMachineInfo at hv
    simp only [Option.bind_eq_bind, Option.mem_def, Option.bind_eq_some_iff] at hv
    obtain ⟨sysinfo, hsys, ids, hid, ether, hether, inprec, hfigure, names, hname, -⟩ := hv
    exact ⟨by simp [hsys], by simp [hid], by simp [hether], by simp [hfigure], by simp [hname]⟩

/-- Every index below `dim` is assigned when the fill loop ran that far. -/
theorem assignMachineDynamic_complete_iff (r : DynamicReply) (axisCount : Short)
    (divisors : Nat → ℚ) :
    (∀ v ∈ assignMachineDynamic r axisCount divisors, v.Complete) ↔
      (r.rddynamic2.isSome → ∀ num ∈ r.rdsvmeter.map Prod.fst,
        axisCount.toNatClampNeg ≤ num.toNatClampNeg) := by
  unfold assignMachineDynamic
  cases r.rddynamic2 with
  | none => exact iff_of_true (fun v hv => by simp at hv) fun h => absurd h (by simp)
  | some dyn =>
  cases r.rdsvmeter with
  | none => exact iff_of_true (fun v hv => by simp at hv) fun _ num hnum => by simp at hnum
  | some svload =>
  obtain ⟨num, axLoad⟩ := svload
  have hfilled : ∀ (value : Nat → ℚ) (i : Nat),
      (assignAxes num value i).isSome ↔ i < num.toNatClampNeg := by
    intro value i
    unfold assignAxes
    split <;> simp [*]
  constructor
  · intro h _ num' hnum
    obtain rfl : num = num' := Option.some.inj hnum
    have hcomplete := h _ rfl
    by_contra hlt
    have habsolute := (hcomplete.axes axisCount rfl num.toNatClampNeg (by omega)).1
    rw [hfilled] at habsolute
    exact Nat.lt_irrefl _ habsolute
  · intro h v hv
    have hle := h rfl num rfl
    rw [← Option.some.inj hv]
    refine ⟨rfl, rfl, rfl, rfl, rfl, rfl, rfl, fun n hn i hi => ?_⟩
    rw [← Option.some.inj hn] at hi
    have hlt : i < num.toNatClampNeg := by omega
    simp only [hfilled]
    exact ⟨hlt, hlt, hlt, hlt⟩

/-! ## The flags of the tool -/

/-- `cnc_rdntool` reported a tool. -/
def ToolInfoReply.Managed (r : ToolInfoReply) : Prop := ∃ toolId ∈ r.rdntool, toolId.data ≠ 0

/-- The flags after some calls. -/
def toolFlagsAfter (rs : List ToolInfoReply) : ToolFlags :=
  rs.foldl (fun f r => (getMachineToolInfo r f).2)
    { toolManagementEnabled := true, useModalToolData := false }

theorem toolFlagsAfter_snoc (p : List ToolInfoReply) (r : ToolInfoReply) :
    toolFlagsAfter (p ++ [r]) = (getMachineToolInfo r (toolFlagsAfter p)).2 := by
  simp [toolFlagsAfter]

/-- The tool is known in the last of some calls: tool management answered in all of
them, or the modal T command in the last one. -/
def ToolKnown (p : List ToolInfoReply) (r : ToolInfoReply) : Prop :=
  (∀ q ∈ p ++ [r], q.Managed) ∨ r.modal.isSome

/-- A call under tool management. -/
theorem assignMachineToolInfo_managing {r : ToolInfoReply} {f : ToolFlags}
    (hf : f = { toolManagementEnabled := true, useModalToolData := false }) :
    ((assignMachineToolInfo r f).1.Complete ↔ r.Managed ∨ r.modal.isSome) ∧
    (r.Managed → (assignMachineToolInfo r f).2 = f) ∧
    (¬r.Managed → r.modal.isSome → (assignMachineToolInfo r f).2 =
      { toolManagementEnabled := false, useModalToolData := true }) := by
  subst hf
  unfold assignMachineToolInfo assignToolManagement
  by_cases hmanaged : r.Managed
  · obtain ⟨toolId, htool, hdata⟩ := hmanaged
    rw [Option.mem_def] at htool
    simp only [htool, if_pos hdata]
    exact ⟨iff_of_true ⟨rfl, rfl⟩ (.inl ⟨toolId, htool, hdata⟩), fun _ => rfl,
      fun h => absurd ⟨toolId, htool, hdata⟩ h⟩
  · -- the modal T command is asked in the same call
    have hfirst : (match r.rdntool with
        | some toolId =>
          if toolId.data ≠ 0 then
            (({ id := some toolId.data, group := some toolId.datano } : AssignedToolInfo),
              ({ toolManagementEnabled := true, useModalToolData := false } : ToolFlags))
          else ({}, { toolManagementEnabled := false, useModalToolData := true })
        | none => ({}, { toolManagementEnabled := false, useModalToolData := true }))
        = ({}, { toolManagementEnabled := false, useModalToolData := true }) := by
      split
      next toolId htool => exact if_neg fun hdata => hmanaged ⟨toolId, htool, hdata⟩
      next => rfl
    simp only [hfirst, assignModalTool]
    cases hmodal : r.modal with
    | none => exact ⟨iff_of_false (fun h => Bool.false_ne_true h.id) (by simp [hmanaged]),
        fun h => absurd h hmanaged, fun _ h => absurd h (by simp)⟩
    | some auxData => exact ⟨iff_of_true ⟨rfl, rfl⟩ (.inr rfl), fun h => absurd h hmanaged,
        fun _ _ => rfl⟩

/-- A call with the modal T command. -/
theorem assignMachineToolInfo_modal {r : ToolInfoReply} {f : ToolFlags}
    (hf : f = { toolManagementEnabled := false, useModalToolData := true }) :
    ((assignMachineToolInfo r f).1.Complete ↔ r.modal.isSome) ∧
    (r.modal.isSome → (assignMachineToolInfo r f).2 = f) := by
  subst hf
  unfold assignMachineToolInfo assignToolManagement assignModalTool
  cases r.modal with
  | none => exact ⟨iff_of_false (fun h => Bool.false_ne_true h.id) (by simp),
      fun h => absurd h (by simp)⟩
  | some auxData => exact ⟨iff_of_true ⟨rfl, rfl⟩ rfl, fun _ => rfl⟩

/-- While every tool was known the flags say which function is asked: tool
management as long as it always answered, the modal T command from then on. -/
theorem toolFlags_of_known {rs : List ToolInfoReply}
    (h : ∀ p r, p ++ [r] <+: rs → ToolKnown p r) :
    ((∀ q ∈ rs, q.Managed) ∧
      toolFlagsAfter rs = { toolManagementEnabled := true, useModalToolData := false }) ∨
    ((¬∀ q ∈ rs, q.Managed) ∧
      toolFlagsAfter rs = { toolManagementEnabled := false, useModalToolData := true }) := by
  induction rs using List.reverseRecOn with
  | nil => exact .inl ⟨fun q hq => absurd hq List.not_mem_nil, rfl⟩
  | append_singleton p r ih =>
    have hknown := h p r (List.prefix_refl _)
    have hall : (∀ q ∈ p ++ [r], q.Managed) ↔ (∀ q ∈ p, q.Managed) ∧ r.Managed := by
      simp [or_imp, forall_and]
    rw [toolFlagsAfter_snoc, getMachineToolInfo_over]
    unfold ToolKnown at hknown
    rw [hall] at hknown ⊢
    rcases ih fun p' r' hp => h p' r' (hp.trans (List.prefix_append p [r])) with
      ⟨hmanaged, hflags⟩ | ⟨hmodal, hflags⟩
    · obtain ⟨-, hstay, hswitch⟩ := assignMachineToolInfo_managing (r := r) hflags
      by_cases hr : r.Managed
      · exact .inl ⟨⟨hmanaged, hr⟩, (hstay hr).trans hflags⟩
      · exact .inr ⟨fun hc => hr hc.2,
          hswitch hr (hknown.resolve_left fun hc => hr hc.2)⟩
    · have hstay := (assignMachineToolInfo_modal (r := r) hflags).2
      exact .inr ⟨fun hc => hmodal hc.1,
        (hstay (hknown.resolve_left fun hc => hmodal hc.1)).trans hflags⟩

/-- Over any sequence of calls, the tool and its group are assigned in each iff they are
known in each. -/
theorem toolInfo_complete_iff (rs : List ToolInfoReply) :
    (∀ p r, p ++ [r] <+: rs → (assignMachineToolInfo r (toolFlagsAfter p)).1.Complete) ↔
      ∀ p r, p ++ [r] <+: rs → ToolKnown p r := by
  induction rs using List.reverseRecOn with
  | nil =>
    refine iff_of_true (fun p r h => ?_) fun p r h => ?_ <;>
      exact absurd (List.prefix_nil.mp h) (by simp)
  | append_singleton rs last ih =>
    have hsplit : ∀ P : List ToolInfoReply → ToolInfoReply → Prop,
        (∀ p r, p ++ [r] <+: rs ++ [last] → P p r) ↔
          (∀ p r, p ++ [r] <+: rs → P p r) ∧ P rs last := by
      intro P
      constructor
      · intro h
        exact ⟨fun p r hp => h p r (hp.trans (List.prefix_append _ _)),
          h rs last (List.prefix_refl _)⟩
      · intro h p r hp
        obtain ⟨hrs, hlast⟩ := h
        rcases List.prefix_concat_iff.mp hp with heq | hp
        · obtain ⟨rfl, hr⟩ := List.append_inj' heq rfl
          obtain rfl := (List.cons.inj hr).1
          exact hlast
        · exact hrs p r hp
    rw [hsplit, hsplit, ih]
    refine and_congr_right fun hknown => ?_
    have hall : (∀ q ∈ rs ++ [last], q.Managed) ↔ (∀ q ∈ rs, q.Managed) ∧ last.Managed := by
      simp [or_imp, forall_and]
    unfold ToolKnown
    rw [hall]
    rcases toolFlags_of_known hknown with ⟨hmanaged, hflags⟩ | ⟨hmodal, hflags⟩
    · rw [(assignMachineToolInfo_managing hflags).1, and_iff_right hmanaged]
    · rw [(assignMachineToolInfo_modal hflags).1, or_iff_right fun hc => hmodal hc.1]

/-! ## Runs -/

inductive GetterCall where
  | info (r : InfoReply)
  | toolInfo (r : ToolInfoReply)
  | dynamic (r : DynamicReply)

namespace GetterCall

/-- If the getter returns 0 in this state, its record is complete. -/
def Fresh (s : State) : GetterCall → Prop
  | info r => ∀ v ∈ assignMachineInfo r, v.Complete
  | toolInfo r => (assignMachineToolInfo r s.toolFlags).1.Complete
  | dynamic r => ∀ v ∈ assignMachineDynamic r s.axisCount s.divisors, v.Complete

def tool? : GetterCall → Option ToolInfoReply
  | toolInfo r => some r
  | _ => none

end GetterCall

/-- The calls a tick gets to, whether or not it succeeds in the end; the check of the
tool never fails. -/
def tickGetterCalls (lib : Library) (s : State) : List (GetterCall × State) :=
  match runChecks ((all.takeWhile (· ≠ .toolInfo)).map (call lib)) s with
  | (true, _) => []
  | (false, s₁) =>
    [(.toolInfo lib.toolInfo, s₁), (.dynamic lib.dynamic, (CheckName.toolInfo.call lib s₁).2)]

def getterCalls : State → List Tick → List (GetterCall × State)
  | _, [] => []
  | s, t :: ts =>
    tickGetterCalls t.lib s ++
    match loopTick t.lib s with
      | (true, _) => []
      | (false, s') => getterCalls s'.fresh ts

/-- The calls of the three getters in a run of the program, each with the state it is
made in. -/
def mainGetterCalls (maxAxis : Short) (info : InfoReply) (ts : List Tick) :
    List (GetterCall × State) :=
  (.info info, State.init maxAxis) ::
    match start maxAxis info with
    | none => []
    | some s => getterCalls s ts

/-- The load meter reported all of the axes. -/
def DynamicReply.Covers (r : DynamicReply) (axisCount : Short) : Prop :=
  r.rddynamic2.isSome →
    ∀ num ∈ r.rdsvmeter.map Prod.fst, axisCount.toNatClampNeg ≤ num.toNatClampNeg

/-- What the control has to answer in a run: axis data for the axes there are, a load
for every axis, and the tool. -/
structure ReadsCover (info : InfoReply) (calls : List GetterCall) : Prop where
  axisData : info.Read → info.rdaxisdata.isSome ∨ ∀ n ∈ info.axisCount, n.toNatClampNeg = 0
  load : ∀ r, .dynamic r ∈ calls → ∀ n ∈ info.axisCount, r.Covers n
  tool : ∀ p r, p ++ [r] <+: calls.filterMap GetterCall.tool? → ToolKnown p r

/-- What a tick does to the flags, and that it gets to the tool. -/
theorem loopTick_tool {lib : Library} {s s' : State} (h : loopTick lib s = (false, s')) :
    s'.axisCount = s.axisCount ∧ s'.toolFlags = (getMachineToolInfo lib.toolInfo s.toolFlags).2 ∧
    ∃ s₁, runChecks ((all.takeWhile (· ≠ .toolInfo)).map (call lib)) s = (false, s₁) := by
  refine ⟨?_, ?_, ?_⟩
  · rw [loopTick_after h]
    exact (after_frame lib all s).axisCount
  · rw [loopTick_after h, (rest_frame lib .toolInfo s).toolInfo fun hne => hne rfl]
    show (getMachineToolInfo lib.toolInfo (CheckName.before lib .toolInfo s).toolFlags).2 = _
    rw [(before_frame lib .toolInfo s).toolInfo fun hne => hne rfl]
  · rw [loopTick_eq, ← List.takeWhile_append_dropWhile (p := (· ≠ CheckName.toolInfo)) (l := all),
      List.map_append, runChecks_append] at h
    obtain ⟨s₁, hs₁, -⟩ := h
    exact ⟨s₁, hs₁⟩

/-- In some calls of the loop, made with an axis count and from some flags, everything
is fresh iff the loads cover the axes and the tool is always assigned. -/
def FreshIff (calls : List (GetterCall × State)) (axisCount : Short) (f : ToolFlags) : Prop :=
  (∀ c ∈ calls, c.1.Fresh c.2) ↔
    (∀ r, .dynamic r ∈ calls.map Prod.fst → r.Covers axisCount) ∧
    ∀ p r, p ++ [r] <+: (calls.map Prod.fst).filterMap GetterCall.tool? →
      (assignMachineToolInfo r (p.foldl (fun f r => (getMachineToolInfo r f).2) f)).1.Complete

theorem freshIff_nil (axisCount : Short) (f : ToolFlags) : FreshIff [] axisCount f := by
  refine iff_of_true (fun c hc => absurd hc List.not_mem_nil)
    ⟨fun r hr => absurd hr List.not_mem_nil, fun p r hp => ?_⟩
  exact absurd (List.prefix_nil.mp hp) (by simp)

/-- The calls of one more tick in front. -/
theorem FreshIff.tick {rest : List (GetterCall × State)} {tool : ToolInfoReply}
    {dyn : DynamicReply} {s₁ s₂ : State} {f : ToolFlags}
    (h : FreshIff rest s₂.axisCount (getMachineToolInfo tool f).2) (hf : s₁.toolFlags = f) :
    FreshIff ((.toolInfo tool, s₁) :: (.dynamic dyn, s₂) :: rest) s₂.axisCount f := by
  have hdyn : GetterCall.Fresh s₂ (.dynamic dyn) ↔ dyn.Covers s₂.axisCount :=
    assignMachineDynamic_complete_iff dyn s₂.axisCount s₂.divisors
  have htool : GetterCall.Fresh s₁ (.toolInfo tool) ↔
      (assignMachineToolInfo tool f).1.Complete := by
    rw [← hf]
    rfl
  have htools : ((((.toolInfo tool, s₁) :: (.dynamic dyn, s₂) :: rest).map Prod.fst).filterMap
      GetterCall.tool?) = tool :: (rest.map Prod.fst).filterMap GetterCall.tool? := rfl
  unfold FreshIff at h ⊢
  rw [htools, forall_prefix_cons, List.forall_mem_cons, List.forall_mem_cons, h, htool, hdyn]
  simp only [List.map_cons, List.mem_cons, reduceCtorEq, false_or, GetterCall.dynamic.injEq,
    forall_eq_or_imp, List.foldl_nil, List.foldl_cons]
  constructor
  · intro h
    obtain ⟨ht, hd, hds, hts⟩ := h
    exact ⟨⟨hd, hds⟩, ht, hts⟩
  · intro h
    obtain ⟨⟨hd, hds⟩, ht, hts⟩ := h
    exact ⟨ht, hd, hds, hts⟩

/-- The calls of the loop: the axis count stays, and the flags are those the calls before
left. -/
theorem getterCalls_fresh_iff (s : State) (ts : List Tick) :
    FreshIff (getterCalls s ts) s.axisCount s.toolFlags := by
  induction ts generalizing s with
  | nil => exact freshIff_nil _ _
  | cons t ts ih =>
    rcases htick : loopTick t.lib s with ⟨failed, s'⟩
    rcases hpre : runChecks ((all.takeWhile (· ≠ .toolInfo)).map (call t.lib)) s
      with ⟨early, s₁⟩
    have hframe : early = false → s₁.toolFlags = s.toolFlags ∧
        (CheckName.toolInfo.call t.lib s₁).2.axisCount = s.axisCount := by
      rintro rfl
      have hpreFrame := after_frame t.lib (all.takeWhile (· ≠ .toolInfo)) s
      rw [← (runChecks_after hpre).1] at hpreFrame
      exact ⟨hpreFrame.toolInfo (by decide),
        (call_frame t.lib .toolInfo s₁).axisCount.trans hpreFrame.axisCount⟩
    unfold getterCalls tickGetterCalls
    rw [htick, hpre]
    cases early with
    | true =>
      cases failed with
      | true => exact freshIff_nil _ _
      | false =>
        -- a tick that succeeds gets to the tool
        obtain ⟨-, -, s₂, hs₂⟩ := loopTick_tool htick
        exact absurd (hs₂.symm.trans hpre) (by simp)
    | false =>
      obtain ⟨htool, haxes⟩ := hframe rfl
      rw [← haxes]
      cases failed with
      | true => exact (freshIff_nil _ _).tick htool
      | false =>
        obtain ⟨hcount, hflags, -⟩ := loopTick_tool htick
        have hrest : FreshIff (getterCalls s'.fresh ts) s'.axisCount s'.toolFlags := ih s'.fresh
        rw [hcount, hflags, ← haxes] at hrest
        exact hrest.tick htool

/-- The loop starts with the axis count of the machine information, and with tool
management. -/
theorem start_getters {maxAxis : Short} {info : InfoReply} {s : State}
    (h : start maxAxis info = some s) : info.axisCount = some s.axisCount ∧
      s.toolFlags = { toolManagementEnabled := true, useModalToolData := false } := by
  obtain ⟨v, hinfo, rfl⟩ := exists_of_start h
  refine ⟨?_, rfl⟩
  unfold getMachineInfo at hinfo
  simp only [Option.bind_eq_bind, Option.bind_eq_some_iff] at hinfo
  obtain ⟨_, -, _, -, _, -, _, -, names, hnames, hv⟩ := hinfo
  obtain rfl := (Option.some.inj hv).symm
  exact congrArg (Option.map Prod.fst) hnames

/-- **When only fresh values are published.** In a run of the program every record whose
getter returned 0 was assigned in that call as far as its check publishes it, iff the
control answered enough: axis data with the machine information, a load for every axis,
and the tool either from tool management, always so far, or from the modal T command. -/
theorem fresh_iff (maxAxis : Short) (info : InfoReply) (ts : List Tick) :
    (∀ c ∈ mainGetterCalls maxAxis info ts, c.1.Fresh c.2) ↔
      ReadsCover info ((mainGetterCalls maxAxis info ts).map Prod.fst) := by
  unfold mainGetterCalls
  have hinfo : GetterCall.Fresh (State.init maxAxis) (.info info) ↔
      (info.Read → info.rdaxisdata.isSome ∨ ∀ n ∈ info.axisCount, n.toNatClampNeg = 0) :=
    assignMachineInfo_complete_iff info
  cases hs : start maxAxis info with
  | none =>
    rw [List.forall_mem_singleton, hinfo]
    refine ⟨fun h => ⟨h, fun r hr => ?_, fun p r hp => ?_⟩, fun h => h.axisData⟩
    · exact absurd hr (by simp)
    · exact absurd (List.prefix_nil.mp hp) (by simp)
  | some s =>
    obtain ⟨haxes, hflags⟩ := start_getters hs
    have hloop := getterCalls_fresh_iff s ts
    unfold FreshIff at hloop
    rw [hflags] at hloop
    rw [List.forall_mem_cons, hinfo, hloop]
    have htool := toolInfo_complete_iff
      (((getterCalls s ts).map Prod.fst).filterMap GetterCall.tool?)
    unfold toolFlagsAfter at htool
    rw [htool]
    constructor
    · intro h
      obtain ⟨hdata, hload, hknown⟩ := h
      refine ⟨hdata, fun r hr n hn => ?_, hknown⟩
      rw [haxes] at hn
      rw [← Option.some.inj hn]
      exact hload r (by simpa using hr)
    · intro h
      obtain ⟨hdata, hload, hknown⟩ := h
      refine ⟨hdata, fun r hr => ?_, hknown⟩
      exact hload r (List.mem_cons_of_mem _ hr) _ haxes

/-- A tick in which no function knows the tool; the memory of the record holds 77. -/
def unknownToolTick : Tick where
  lib :=
    { sampleLibrary sampleReadings with
      toolInfo :=
        { clock := sampleClock, rdntool := none, modal := none,
          mem := { executionDuration := 0, id := 77, group := 78 } } }
  clock := sampleClock
  produced := .noError

/-- What the memory held is published as the tool. -/
theorem stale_tool_published :
    (mainRounds 32 sampleInfo [unknownToolTick]).map
        (fun r => r.message.values.filter fun u => u.1 = .tool_id)
      = [[(.tool_id, .number 77)]] ∧
    ¬∀ (maxAxis : Short) (info : InfoReply) (ts : List Tick),
      ∀ c ∈ mainGetterCalls maxAxis info ts, c.1.Fresh c.2 := by
  refine ⟨by decide +kernel, fun h => ?_⟩
  have hcalls : ((mainGetterCalls 32 sampleInfo [unknownToolTick]).filterMap fun c =>
      match c.1 with
      | .toolInfo r => some (assignMachineToolInfo r c.2.toolFlags).1.id
      | _ => none) = [none] := by
    decide +kernel
  obtain ⟨c, hc, hid⟩ := List.mem_filterMap.mp (hcalls ▸ List.mem_singleton.mpr rfl)
  have hfresh := h 32 sampleInfo [unknownToolTick] c hc
  obtain ⟨g, s⟩ := c
  cases g with
  | info r => exact absurd hid.symm (by simp)
  | dynamic r => exact absurd hid.symm (by simp)
  | toolInfo r =>
    have hcomplete : (assignMachineToolInfo r s.toolFlags).1.id.isSome := hfresh.id
    rw [Option.some.inj hid] at hcomplete
    exact absurd hcomplete Bool.false_ne_true

end FanucDriver.Driver
