import FanucDriver.Lib.Overlay
import FanucDriver.Driver.Data

/-!
# `check.c`: from machine records to updates

The eleven checks of `driver/src/check.c`. A check asks its getter for a record,
adds to the `updates` object what changed against its static copy of the last
record, adds the duration of the read to `meta`, and keeps the record.

`State` is everything the checks share and keep: the globals of `main.c` and
`data.c`, the static locals of the checks, and the two objects of the message
being built. A check takes what its getter delivered and returns the C truth
value of its result (`true` is the failure return 1) with the state it leaves.

Mirroring notes:
- A cJSON object is the list of its members in the order they were added; adding
  a key twice keeps both members, as `cJSON_AddItemToObject` does.
- The `if (lv == NULL || …)` blocks of a check are its list of guards, in source
  order, each with the field it compares and the value it adds.
- `lv->id != v->id` on array members compares addresses of two live records, so
  it always holds (`always`).
- `cJSON_CreateString(NULL)` yields no item, and adding no item adds nothing.
- `calls` is a ghost field: the program path reads and program uploads of the
  tick, with their paths.
-/

namespace FanucDriver.Driver

open FanucDriver.Lib

/-! ## Messages -/

/-- The members of the `values` object. -/
inductive Key where
  | id | max_axis | addinfo | cnc_type | mt_type | series | version | axes_count_chk
  | axes_count | ether_type | ether_device | axes
  | part_count | cycle_time
  | execution | mode | estop | alarm | aut | edit | emergency | hdck | motion | mstb | run
  | tool_id | tool_group
  | absolute | relative | actual | load | cprogram | mprogram | sequence | actf | acts
  | message_number | message_text
  | program_name | program_path | program_header | program_size | program
  | block | block_num
  deriving DecidableEq

/-- The members of an element of `axes`. -/
inductive AxisKey where
  | id | index | suffix | divisor | name | flag | unit | unith | decimal
  deriving DecidableEq

/-- The members of the `meta` object. -/
inductive MetaKey where
  | info | part_count | cycle_time | status | tool | dynamic | message | program_name
  | program_header | program | block | total
  deriving DecidableEq

inductive Scalar where
  | null
  | number (x : ℚ)
  | string (s : CStr)
  deriving DecidableEq

/-- The shapes of value a check adds. -/
inductive Value where
  | scalar (x : Scalar)
  | numbers (xs : List ℚ)
  | axes (axes : List (List (AxisKey × Scalar)))
  deriving DecidableEq

abbrev Value.null : Value := .scalar .null
abbrev Value.number (x : ℚ) : Value := .scalar (.number x)
abbrev Value.string (s : CStr) : Value := .scalar (.string s)

abbrev Updates := List (Key × Value)
abbrev Meta := List (MetaKey × ULong)

/-! ## State -/

inductive LibCall where
  /-- `cnc_exeprgname2` reported this path. -/
  | exeprgname2 (path : CStr)
  /-- `getMachineProgramContents` was called with this path. -/
  | upload (path : CStr)
  deriving DecidableEq

structure State where
  -- globals
  deviceID : CStr
  cProgramNum : Short
  mProgramNum : Short
  mProgramPath : CStr
  partCount : Long
  axisCount : Short
  divisors : Nat → ℚ
  -- static locals
  toolFlags : ToolFlags
  infoLv : Option MachineInfo
  partCountLv : Option MachinePartCount
  /-- `lastPartCount` of `checkMachineCycleTime` -/
  lastPartCount : Long
  /-- `lastCProgramNum` of `checkMachineProgramName` -/
  nameCProgramNum : Short
  messageLv : Option MachineMessage
  statusLv : Option MachineStatus
  dynamicLv : Option MachineDynamic
  toolInfoLv : Option MachineToolInfo
  /-- `lastCProgramNum` of `checkMachineProgramHeader` -/
  headerCProgramNum : Short
  /-- `lastProgramNum` of `checkMachineProgramContents` -/
  lastProgramNum : Short
  blockLv : Option MachineBlock
  -- the message being built
  updates : Updates
  metaMap : Meta
  calls : List LibCall

/-- Program start, before `checkMachineInfo`. -/
def State.init (maxAxis : Short) : State where
  deviceID := []
  cProgramNum := -1
  mProgramNum := -1
  mProgramPath := []
  partCount := -1
  axisCount := maxAxis
  divisors := fun _ => 0
  toolFlags := { toolManagementEnabled := true, useModalToolData := false }
  infoLv := none
  partCountLv := none
  lastPartCount := -1
  nameCProgramNum := -1
  messageLv := none
  statusLv := none
  dynamicLv := none
  toolInfoLv := none
  headerCProgramNum := 0
  lastProgramNum := -1
  blockLv := none
  updates := []
  metaMap := []
  calls := []

/-- Add updates to `values` and one read duration to `meta`. -/
def State.publish (s : State) (us : Updates) (k : MetaKey) (tt : ULong) : State :=
  { s with updates := s.updates ++ us, metaMap := s.metaMap ++ [(k, tt)] }

/-! ## `checkMachineInfo` -/

/-- A guard on the addresses of two live records. -/
def always {S K V : Type} (key : K) (value : S → V) : Guard S K V where
  key := key
  fires _ _ := true
  value := value

def infoGuards : List (Guard MachineInfo Key Value) :=
  [always .id fun v => .string v.id,
   .onChange .max_axis (·.max_axis) fun v => .number v.max_axis.toInt,
   .onChange .addinfo (·.addinfo) fun v => .number v.addinfo.toInt,
   always .cnc_type fun v => .string v.cnc_type,
   always .mt_type fun v => .string v.mt_type,
   always .series fun v => .string v.series,
   always .version fun v => .string v.version,
   always .axes_count_chk fun v => .string v.axes_count_chk,
   .onChange .axes_count (·.axes_count) fun v => .number v.axes_count.toInt,
   .onChange .ether_type (·.etherType) fun v => .number v.etherType.toInt,
   .onChange .ether_device (·.etherDevice) fun v => .number v.etherDevice.toInt]

/-- `strncmp` looks at the first `n` characters. -/
def axisGuards : List (Guard MachineAxisInfo AxisKey Scalar) :=
  [always .id fun a => .string a.id,
   .onChange .index (·.index) fun a => .number a.index.toInt,
   .onChange .suffix (·.suffix.take 2) fun a => .string a.suffix,
   .onChange .divisor (·.divisor) fun a => .number a.divisor,
   .onChange .name (·.name.take 5) fun a => .string a.name,
   .onChange .flag (·.flag) fun a => .number a.flag.toInt,
   .onChange .unit (·.unit) fun a => .number a.unit.toInt,
   -- one block adds `unit` and `unith`
   .onChange .unith (·.unit) fun a => .string a.unith,
   .onChange .decimal (·.decimal) fun a => .number a.decimal.toInt]

/-- `axes_datum`: one object for each axis, with the members that changed. -/
def axesDatum (lv : Option MachineInfo) (v : MachineInfo) : List (List (AxisKey × Scalar)) :=
  (List.range v.axes_count.toNatClampNeg).map fun i =>
    emit axisGuards (lv.map (·.axes i)) (v.axes i)

/-- `axes_datum` is added when at least one axis added a member. -/
def axesUpdate (lv : Option MachineInfo) (v : MachineInfo) : Updates :=
  if (axesDatum lv v).any fun datum => !datum.isEmpty then [(.axes, .axes (axesDatum lv v))] else []

def checkMachineInfo (r : Option (MachineInfo × (Nat → ℚ))) (s : State) : Bool × State :=
  match r with
  | none => (true, s)
  | some (v, divisors) =>
    (false,
      { s.publish (emit infoGuards s.infoLv v ++ axesUpdate s.infoLv v) .info
          v.executionDuration with
        deviceID := v.id.take 127
        axisCount := v.axes_count
        divisors := divisors
        infoLv := some v })

/-! ## Part count and cycle time -/

def partCountGuard : Guard MachinePartCount Key Value :=
  .onChange .part_count (·.count) fun v => .number v.count.toInt

def checkMachinePartCount (r : Option MachinePartCount) (s : State) : Bool × State :=
  match r with
  | none => (true, s)
  | some v =>
    (false,
      { s.publish (emit [partCountGuard] s.partCountLv v) .part_count v.executionDuration with
        partCount := if partCountGuard.fires s.partCountLv v then v.count else s.partCount
        partCountLv := some v })

def checkMachineCycleTime (r : Option MachineCycleTime) (s : State) : Bool × State :=
  if s.lastPartCount ≠ s.partCount then
    match r with
    | none => (true, s)
    | some v =>
      (false,
        { s.publish [(.cycle_time, .number v.time.toInt)] .cycle_time v.executionDuration with
          lastPartCount := s.partCount })
  else (false, s)

/-! ## Program name -/

def checkMachineProgramName (r : Option MachineProgramName) (s : State) : Bool × State :=
  if s.nameCProgramNum ≠ s.cProgramNum then
    match r with
    | none => (true, s)
    | some v =>
      (false,
        { s.publish [(.program_name, .string v.name), (.program_path, .string v.path)]
            .program_name v.executionDuration with
          mProgramPath := v.path
          nameCProgramNum := s.cProgramNum
          calls := s.calls ++ [.exeprgname2 v.path] })
  else (false, s)

/-! ## Operator message -/

def messageGuards : List (Guard MachineMessage Key Value) :=
  [.onChange .message_number (·.number) fun v => .number v.number.toInt,
   .onChange .message_text (·.text.take 256) fun v =>
     if v.number ≠ -1 then .string v.text else .null]

def checkMachineMessage (r : Option MachineMessage) (s : State) : Bool × State :=
  match r with
  | none => (true, s)
  | some v =>
    (false,
      { s.publish (emit messageGuards s.messageLv v) .message v.executionDuration with
        messageLv := some v })

/-! ## Status -/

/-- The guard of `estop` compares the mode. -/
def statusGuards : List (Guard MachineStatus Key Value) :=
  [.onChange .execution (·.execution) fun v => .string v.execution,
   .onChange .mode (·.mode) fun v => .string v.mode,
   .onChange .estop (·.mode) fun v => .string v.estop,
   .onChange .alarm (·.raw.alarm) fun v => .number v.raw.alarm.toInt,
   .onChange .aut (·.raw.aut) fun v => .number v.raw.aut.toInt,
   .onChange .edit (·.raw.edit) fun v => .number v.raw.edit.toInt,
   .onChange .emergency (·.raw.emergency) fun v => .number v.raw.emergency.toInt,
   .onChange .hdck (·.raw.hdck) fun v => .number v.raw.hdck.toInt,
   .onChange .motion (·.raw.motion) fun v => .number v.raw.motion.toInt,
   .onChange .mstb (·.raw.mstb) fun v => .number v.raw.mstb.toInt,
   .onChange .run (·.raw.run) fun v => .number v.raw.run.toInt]

def checkMachineStatus (r : Option MachineStatus) (s : State) : Bool × State :=
  match r with
  | none => (true, s)
  | some v =>
    (false,
      { s.publish (emit statusGuards s.statusLv v) .status v.executionDuration with
        statusLv := some v })

/-! ## Dynamic data -/

/-- The change flag and the array of one axis quantity: the flag is raised by any
axis below `v->dim` that is new or differs, and raises the whole array. -/
def axisArrayGuard (key : Key) (read : MachineDynamic → Nat → ℚ) :
    Guard MachineDynamic Key Value where
  key := key
  fires lv v :=
    (List.range v.dim.toNatClampNeg).any fun i => lv.all fun l => decide (read l i ≠ read v i)
  value v := .numbers ((List.range v.dim.toNatClampNeg).map (read v))

def cprogramGuard : Guard MachineDynamic Key Value :=
  .onChange .cprogram (·.cprogram) fun v => .number v.cprogram.toInt

def mprogramGuard : Guard MachineDynamic Key Value :=
  .onChange .mprogram (·.mprogram) fun v => .number v.mprogram.toInt

def dynamicGuards : List (Guard MachineDynamic Key Value) :=
  [axisArrayGuard .absolute (·.absolute),
   axisArrayGuard .relative (·.relative),
   axisArrayGuard .actual (·.actual),
   axisArrayGuard .load (·.load),
   cprogramGuard,
   mprogramGuard,
   .onChange .sequence (·.sequence) fun v => .number v.sequence.toInt,
   .onChange .actf (·.actf) fun v => .number v.actf.toInt,
   .onChange .acts (·.acts) fun v => .number v.acts.toInt,
   .onChange .alarm (·.alarm) fun v => .number v.alarm.toInt]

def checkMachineDynamic (r : Option MachineDynamic) (s : State) : Bool × State :=
  match r with
  | none => (true, s)
  | some v =>
    (false,
      { s.publish (emit dynamicGuards s.dynamicLv v) .dynamic v.executionDuration with
        cProgramNum := if cprogramGuard.fires s.dynamicLv v then v.cprogram else s.cProgramNum
        mProgramNum := if mprogramGuard.fires s.dynamicLv v then v.mprogram else s.mProgramNum
        dynamicLv := some v })

/-! ## Tool -/

def toolInfoGuards : List (Guard MachineToolInfo Key Value) :=
  [.onChange .tool_id (·.id) fun v => .number v.id.toInt,
   .onChange .tool_group (·.group) fun v => .number v.group.toInt]

/-- The getter returns 0 whatever the library answers, so there is no failure. -/
def checkMachineToolInfo (r : MachineToolInfo × ToolFlags) (s : State) : Bool × State :=
  (false,
    { s.publish (emit toolInfoGuards s.toolInfoLv r.1) .tool r.1.executionDuration with
      toolFlags := r.2
      toolInfoLv := some r.1 })

/-! ## Program header and contents -/

def checkMachineProgramHeader (get : Short → Option MachineProgram) (s : State) :
    Bool × State :=
  if s.headerCProgramNum ≠ s.cProgramNum then
    match get s.cProgramNum with
    | none => (true, s)
    | some v =>
      (false,
        { s.publish [(.program_header, .string v.header)] .program_header
            v.executionDuration with
          headerCProgramNum := s.cProgramNum })
  else (false, s)

/-- The two members an upload adds; without text there is no `program`. -/
def contentsUpdates (v : MachineProgramContents) : Updates :=
  (.program_size, .number v.size.toInt) ::
    match v.contents with
    | none => []
    | some contents => [(.program, .string (cString contents))]

def checkMachineProgramContents (get : CStr → Option MachineProgramContents) (s : State) :
    Bool × State :=
  if s.lastProgramNum ≠ s.mProgramNum then
    -- the path is the one the name check read last
    let called := { s with calls := s.calls ++ [.upload s.mProgramPath] }
    match get s.mProgramPath with
    | none => (true, called)
    | some v =>
      (false,
        { called.publish (contentsUpdates v) .program v.executionDuration with
          lastProgramNum := s.mProgramNum })
  else (false, s)

/-! ## Executing block -/

def blockGuards : List (Guard MachineBlock Key Value) :=
  [.onChange .block (·.block) fun v => .string v.block,
   .onChange .block_num (·.blkNum) fun v => .number v.blkNum.toInt]

def checkMachineBlock (r : Option MachineBlock) (s : State) : Bool × State :=
  match r with
  | none => (true, s)
  | some v =>
    (false,
      { s.publish (emit blockGuards s.blockLv v) .block v.executionDuration with
        blockLv := some v })

end FanucDriver.Driver
