import Mathlib.Data.Rat.Defs
import Mathlib.Algebra.Order.Field.Rat

/-!
# `data.c`: from library replies to machine records

The getters of `driver/src/data.c`. Each one calls a few functions of the
control's library, and either fails (`return 1`, here `none`) or fills the
record of `data.h` that its check publishes.

What the library answers is the input of the model: one structure of replies
per getter, with `none` for a return code other than `EW_OK` where the code only
asks for `EW_OK`, and an `Except` over the codes it tells apart where it asks for
more. The clocks of a getter are part of its replies.

Mirroring notes:
- `short` is `Int16`, `long` is `Int32` and `unsigned long` is `UInt32` (the
  `-m32` build); a narrowing assignment is `Int32.toInt16`.
- A `double` is an exact rational. The doubles of the driver are integers, and
  integers scaled by a power of ten; rounding, underflow and overflow are not modelled, nor
  are memory cells that hold no finite number.
- A C string is the list of its bytes before the terminator, each the character of its number.
- A record is `malloc` memory. Where a getter leaves a field unassigned the
  record keeps what the memory held, which is the `mem` argument.
- Record fields and reply fields that nothing reads (`MachineProgram.number`,
  `MachineProgramName.number`, the raw cycle time) are left out, and so are the counts
  that `cnc_rdaxisdata` and `cnc_getfigure` take and give back: the entries past them are
  whatever the arrays held, and the driver reads those below `axisCount`.
-/

namespace FanucDriver.Driver

abbrev Short := Int16
abbrev Long := Int32
abbrev ULong := UInt32

/-- A C string: its bytes before the terminating NUL. -/
abbrev CStr := List Char

/-- The C string a character buffer holds: everything before the first NUL. -/
def cString (buf : List Char) : CStr := buf.takeWhile (· ≠ '\x00')

/-! ## Clocks -/

structure Timespec where
  tv_sec : Long
  tv_nsec : Long

/-- `tt = (t1.tv_sec - t0.tv_sec) * 1000000 + (t1.tv_nsec - t0.tv_nsec) / 1000`,
in `long` arithmetic, converted to `unsigned long`. -/
def elapsed (t0 t1 : Timespec) : ULong :=
  ((t1.tv_sec - t0.tv_sec) * 1000000 + (t1.tv_nsec - t0.tv_nsec) / 1000).toUInt32

/-- The two `clock_gettime` readings around the calls of one getter. -/
structure Clock where
  t0 : Timespec
  t1 : Timespec

def Clock.tt (c : Clock) : ULong := elapsed c.t0 c.t1

/-- The return codes the driver tells apart besides `EW_OK` and, in an upload,
`EW_BUFFER`. -/
inductive EW where
  | busy
  | data
  | mode
  | other (code : Short)
  deriving DecidableEq

/-! ## Machine information -/

structure MachineAxisInfo where
  id : CStr
  index : Short
  suffix : CStr
  divisor : ℚ
  name : CStr
  flag : Short
  unit : Short
  unith : CStr
  decimal : Short
  deriving DecidableEq

structure MachineInfo where
  executionDuration : ULong
  id : CStr
  max_axis : Short
  addinfo : Short
  cnc_type : CStr
  mt_type : CStr
  series : CStr
  version : CStr
  axes_count_chk : CStr
  axes_count : Short
  etherType : Short
  etherDevice : Short
  axes : Nat → MachineAxisInfo

structure ODBSYS where
  addinfo : Short
  max_axis : Short
  cnc_type : List Char
  mt_type : List Char
  series : List Char
  version : List Char
  axes : List Char

structure ODBAXDT where
  name : CStr
  data : Long
  dec : Short
  unit : Short
  flag : Short

structure ODBAXISNAME where
  name : Char
  suff : Char

structure InfoReply where
  clock : Clock
  sysinfo : Option ODBSYS
  rdcncid : Option (ULong × ULong × ULong × ULong)
  rdetherinfo : Option (Short × Short)
  rdaxisdata : Option (Nat → ODBAXDT)
  getfigure : Option (Nat → Short)
  rdaxisname : Option (Short × (Nat → ODBAXISNAME))
  /-- What the `malloc`ed axis array holds before the call. -/
  mem : Nat → MachineAxisInfo

/-- `AXIS_UNITH` -/
def axisUnith : List String :=
  ["mm", "inch", "degree", "mm/minute", "inch/minute", "rpm", "mm/round", "inch/round",
    "%", "Ampere", "Second"]

def hexDigit (n : Nat) : Char := "0123456789abcdef".toList.getD n '0'

/-- `%08lx` -/
def hex8 (x : ULong) : CStr :=
  (List.range 8).reverse.map fun i => hexDigit (x.toNat / 16 ^ i % 16)

/-- `%c` of a single character; a NUL prints an empty string. -/
def cChar (c : Char) : CStr := cString [c]

/-- `divisors[i] = pow(10.0, inprec[i])` for the axes below `axisCount`; the
others keep what the global array held. -/
def axisDivisors (axisCount : Short) (inprec : Nat → Short) (old : Nat → ℚ) (i : Nat) : ℚ :=
  if i < axisCount.toNatClampNeg then (10 : ℚ) ^ (inprec i).toInt else old i

/-- One round of the axis loop of `getMachineInfo`: without axis data the name,
flag, unit and decimal fields are not assigned. An index outside `AXIS_UNITH`
is undefined in C; the model reads an empty string. -/
def machineAxis (r : InfoReply) (inprec : Nat → Short) (names : Nat → ODBAXISNAME) (i : Nat) :
    MachineAxisInfo :=
  let v : MachineAxisInfo :=
    { r.mem i with
      id := cChar (names i).name
      index := Int16.ofNat i
      suffix := cChar (names i).suff
      divisor := (10 : ℚ) ^ (inprec i).toInt }
  match r.rdaxisdata with
  | none => v
  | some axisData =>
    { v with
      name := (axisData i).name
      flag := (axisData i).flag
      unit := (axisData i).unit
      unith := (axisUnith.getD (axisData i).unit.toNatClampNeg "").toList
      decimal := (axisData i).dec }

/-- `getMachineInfo`: the record, and the global `divisors` it leaves. The global
`axisCount` is the record's `axes_count`. -/
def getMachineInfo (r : InfoReply) (divisors : Nat → ℚ) : Option (MachineInfo × (Nat → ℚ)) := do
  let sysinfo ← r.sysinfo
  let (id0, id1, id2, id3) ← r.rdcncid
  let (etherType, etherDevice) ← r.rdetherinfo
  let inprec ← r.getfigure
  let (axisCount, names) ← r.rdaxisname
  some
    ({ executionDuration := r.clock.tt
       id := hex8 id0 ++ '-' :: hex8 id1 ++ '-' :: hex8 id2 ++ '-' :: hex8 id3
       max_axis := sysinfo.max_axis
       addinfo := sysinfo.addinfo
       cnc_type := (cString sysinfo.cnc_type).take 2
       mt_type := (cString sysinfo.mt_type).take 2
       series := (cString sysinfo.series).take 4
       version := (cString sysinfo.version).take 4
       axes_count_chk := (cString sysinfo.axes).take 2
       axes_count := axisCount
       etherType := etherType
       etherDevice := etherDevice
       axes := fun i =>
         if i < axisCount.toNatClampNeg then machineAxis r inprec names i else r.mem i },
     axisDivisors axisCount inprec divisors)

/-! ## Part count and cycle time -/

structure MachinePartCount where
  executionDuration : ULong
  count : Long

structure PartCountReply where
  clock : Clock
  rdparam : Option Long

def getMachinePartCount (r : PartCountReply) : Option MachinePartCount := do
  let ldata ← r.rdparam
  some { executionDuration := r.clock.tt, count := ldata }

structure IODBTIME where
  minute : Long
  msec : Long

structure MachineCycleTime where
  executionDuration : ULong
  time : Long

structure CycleTimeReply where
  clock : Clock
  rdtimer : Option IODBTIME

def getMachineCycleTime (r : CycleTimeReply) : Option MachineCycleTime := do
  let time ← r.rdtimer
  some { executionDuration := r.clock.tt, time := time.minute * 60 * 1000 + time.msec }

/-! ## Status -/

structure MachineRawStatus where
  alarm : Short
  aut : Short
  edit : Short
  emergency : Short
  hdck : Short
  motion : Short
  mstb : Short
  run : Short
  deriving DecidableEq

structure MachineStatus where
  executionDuration : ULong
  execution : CStr
  mode : CStr
  estop : CStr
  raw : MachineRawStatus

/-- `cnc_statinfo`'s record; the driver reads the fields it keeps raw. -/
abbrev ODBST := MachineRawStatus

structure StatusReply where
  clock : Clock
  statinfo : Option ODBST

/-- `MACHINE_EXECUTION` at the index the conditional expression computes. -/
def machineExecution (status : ODBST) : CStr :=
  (if status.run = 3 ∨ status.run = 4 then "ACTIVE"
    else if status.run = 2 ∨ status.motion = 2 ∨ status.mstb ≠ 0 then "INTERRUPTED"
    else if status.run = 0 then "STOPPED"
    else "READY").toList

/-- `MACHINE_MODE` at the index the conditional expression computes. -/
def machineMode (status : ODBST) : CStr :=
  (if status.aut = 5 ∨ status.aut = 6 then "MANUAL"
    else if status.aut = 0 ∨ status.aut = 3 then "MANUAL_DATA_INPUT"
    else "AUTOMATIC").toList

/-- `MACHINE_ESTOP` at the index the conditional expression computes. -/
def machineEstop (status : ODBST) : CStr :=
  (if status.emergency = 1 then "TRIGGERED" else "ARMED").toList

/-- The record `getMachineStatus` fills from one status reading. -/
def machineStatus (tt : ULong) (status : ODBST) : MachineStatus where
  executionDuration := tt
  execution := machineExecution status
  mode := machineMode status
  estop := machineEstop status
  raw := status

def getMachineStatus (r : StatusReply) : Option MachineStatus :=
  r.statinfo.map (machineStatus r.clock.tt)

/-! ## Dynamic data -/

structure MachineDynamic where
  executionDuration : ULong
  cprogram : Short
  mprogram : Short
  sequence : Short
  actf : Short
  acts : Short
  alarm : Short
  dim : Short
  absolute : Nat → ℚ
  relative : Nat → ℚ
  actual : Nat → ℚ
  load : Nat → ℚ

structure ODBDY2 where
  alarm : Long
  prgnum : Long
  prgmnum : Long
  seqnum : Long
  actf : Long
  acts : Long
  absolute : Nat → Long
  machine : Nat → Long
  relative : Nat → Long

/-- A servo load meter reading: `svload.data` with `svload.dec` decimals. -/
structure LOADELM where
  data : Long
  dec : Short

/-- `axLoad[i].svload.data / pow(10.0, axLoad[i].svload.dec)` -/
def LOADELM.value (l : LOADELM) : ℚ := (l.data.toInt : ℚ) / (10 : ℚ) ^ l.dec.toInt

/-- What the four `malloc`ed axis arrays hold before the call. -/
structure AxisMemory where
  absolute : Nat → ℚ
  relative : Nat → ℚ
  actual : Nat → ℚ
  load : Nat → ℚ

structure DynamicReply where
  clock : Clock
  rddynamic2 : Option ODBDY2
  rdsvmeter : Option (Short × (Nat → LOADELM))
  mem : AxisMemory

/-- The fill loop of `getMachineDynamic`: it runs to the axis count `num` that
`cnc_rdsvmeter` reported, and leaves the rest of the array alone. -/
def fillAxes (num : Short) (value mem : Nat → ℚ) (i : Nat) : ℚ :=
  if i < num.toNatClampNeg then value i else mem i

def getMachineDynamic (r : DynamicReply) (axisCount : Short) (divisors : Nat → ℚ) :
    Option MachineDynamic := do
  let dyn ← r.rddynamic2
  let (num, axLoad) ← r.rdsvmeter
  some
    { executionDuration := r.clock.tt
      absolute := fillAxes num (fun i => (dyn.absolute i).toInt / divisors i) r.mem.absolute
      relative := fillAxes num (fun i => (dyn.relative i).toInt / divisors i) r.mem.relative
      actual := fillAxes num (fun i => (dyn.machine i).toInt / divisors i) r.mem.actual
      load := fillAxes num (fun i => (axLoad i).value) r.mem.load
      dim := axisCount
      cprogram := dyn.prgnum.toInt16
      mprogram := dyn.prgmnum.toInt16
      sequence := dyn.seqnum.toInt16
      actf := dyn.actf.toInt16
      acts := dyn.acts.toInt16
      alarm := dyn.alarm.toInt16 }

/-! ## Tool -/

structure MachineToolInfo where
  executionDuration : ULong
  id : Long
  group : Long

structure ODBTLIFE3 where
  datano : Long
  data : Long

/-- The two static flags of `getMachineToolInfo`. -/
structure ToolFlags where
  toolManagementEnabled : Bool
  useModalToolData : Bool
  deriving DecidableEq

structure ToolInfoReply where
  clock : Clock
  rdntool : Option ODBTLIFE3
  modal : Option Long
  /-- What the `malloc`ed record holds before the call. -/
  mem : MachineToolInfo

/-- The first half of `getMachineToolInfo`: tool management, while it works. -/
def toolManagement (r : ToolInfoReply) (f : ToolFlags) : MachineToolInfo × ToolFlags :=
  if f.toolManagementEnabled then
    match r.rdntool with
    | some toolId =>
      if toolId.data ≠ 0 then ({ r.mem with id := toolId.data, group := toolId.datano }, f)
      else (r.mem, { toolManagementEnabled := false, useModalToolData := true })
    | none => (r.mem, { toolManagementEnabled := false, useModalToolData := true })
  else (r.mem, f)

/-- The second half: the modal T command, until it fails once. -/
def modalTool (r : ToolInfoReply) (v : MachineToolInfo) (f : ToolFlags) :
    MachineToolInfo × ToolFlags :=
  if f.useModalToolData then
    match r.modal with
    | some auxData => ({ v with id := auxData, group := 0 }, f)
    | none => (v, { f with useModalToolData := false })
  else (v, f)

/-- `getMachineToolInfo` always returns 0. -/
def getMachineToolInfo (r : ToolInfoReply) (f : ToolFlags) : MachineToolInfo × ToolFlags :=
  let (v, f) := toolManagement r f
  let (v, f) := modalTool r v f
  ({ v with executionDuration := r.clock.tt }, f)

/-! ## Operator message -/

structure MachineMessage where
  executionDuration : ULong
  number : Short
  text : CStr

structure OPMSG where
  datano : Short
  data : CStr

structure MessageReply where
  clock : Clock
  rdopmsg : Option OPMSG

def getMachineMessage (r : MessageReply) : Option MachineMessage := do
  let message ← r.rdopmsg
  some { executionDuration := r.clock.tt, number := message.datano, text := message.data }

/-! ## Program name, header and contents -/

structure MachineProgramName where
  executionDuration : ULong
  name : CStr
  path : CStr

structure ProgramNameReply where
  clock : Clock
  exeprgname : Option CStr
  /-- `cnc_exeprgname2` writes a string into `char path[256]`. -/
  exeprgname2 : Option { path : CStr // path.length < 256 }

/-- `strncpy` of at most 35 and 255 characters into zeroed arrays. -/
def getMachineProgramName (r : ProgramNameReply) : Option MachineProgramName := do
  let name ← r.exeprgname
  let path ← r.exeprgname2
  some { executionDuration := r.clock.tt, name := name.take 35, path := path.val.take 255 }

structure MachineProgram where
  executionDuration : ULong
  header : CStr

structure HeaderReply where
  clock : Clock
  upstart : Except EW Unit
  /-- How many `EW_BUFFER` answers come before the deciding one. -/
  retries : Nat
  /-- The deciding answer of `cnc_upload3`, with the bytes it delivered. -/
  upload3 : Except EW { data : List Char // data.length ≤ 2047 }
  upend3 : Except EW Unit
  /-- What the local buffer `program` holds when nothing was delivered. -/
  garbage : CStr

/-- The in-place scan of the uploaded text. The text is cut at the first newline
past the first line whose next character starts neither a comment, a macro, an
indented line nor an empty one; the other newlines become spaces. The character
after the last one is the terminator. -/
def scanHeader : Nat → CStr → CStr
  | _, [] => []
  | lineCount, c :: cp =>
    if c = '\n' then
      let f := cp.headD '\x00'
      if 0 < lineCount ∧ f ≠ '(' ∧ f ≠ '\n' ∧ f ≠ ' ' ∧ f ≠ '#' then []
      else ' ' :: scanHeader (lineCount + 1) cp
    else c :: scanHeader lineCount cp

/-- The do-while around `cnc_upload3`: it only repeats on `EW_BUFFER`. -/
def upload3Loop (r : HeaderReply) : Nat → Except EW Unit × CStr
  | 0 =>
    match r.upload3 with
    | .ok data => (.ok (), scanHeader 0 (cString data.val))
    | .error ret => (.error ret, r.garbage)
  | retries + 1 => upload3Loop r retries

/-- `%d` -/
def decimal (n : Short) : CStr := (toString n.toInt).toList

def headerNotFound (programNum : Short) : CStr :=
  "(ERR: program ".toList ++ decimal programNum ++ " not found on cnc)".toList

def headerUnreadable (programNum : Short) : CStr :=
  "(ERR: program ".toList ++ decimal programNum ++ " cannot be read from cnc)".toList

/-- `getMachineProgramHeader` never fails: a failed read is only logged. -/
def getMachineProgramHeader (r : HeaderReply) (programNum : Short) : Option MachineProgram :=
  let (ret, program) :=
    match r.upstart with
    | .ok () => upload3Loop r r.retries
    | .error .busy => upload3Loop r r.retries
    | .error ret => (.error ret, r.garbage)
  match ret with
  | .error .data =>
    some { executionDuration := r.clock.tt, header := headerNotFound programNum }
  | _ =>
    match r.upend3 with
    | .error _ => some { executionDuration := r.clock.tt, header := headerUnreadable programNum }
    | .ok () => some { executionDuration := r.clock.tt, header := program }

structure MachineProgramContents where
  executionDuration : ULong
  size : Long
  /-- The allocated block, `none` for a null pointer. -/
  contents : Option (List Char)

structure ContentsReply where
  clock : Clock
  upstart4 : Except EW Unit
  /-- The answers of `cnc_upload4` before the one that ends the loop: `none` for
  `EW_BUFFER`, the delivered bytes for `EW_OK`. -/
  upload4 : List (Option { buf : List Char // buf.length ≤ 1280 })
  /-- The code that ends the loop. -/
  upload4End : EW
  upend4 : Except EW Unit

/-- Grow the block to hold `buf` at `offset`: allocate, terminate, copy. -/
def growProgram (prog : Option (List Char)) (offset : Nat) (buf : List Char) : List Char :=
  (prog.getD []).take offset ++ buf ++ ['\x00']

/-- The upload loop, carrying the block and the number of bytes in it. -/
def upload4Loop : List (Option { buf : List Char // buf.length ≤ 1280 }) →
    Option (List Char) → Nat → Option (List Char) × Nat
  | [], prog, offset => (prog, offset)
  | none :: replies, prog, offset => upload4Loop replies prog offset
  | some buf :: replies, prog, offset =>
    if 0 < buf.val.length then
      upload4Loop replies (some (growProgram prog offset buf.val)) (offset + buf.val.length)
    else upload4Loop replies prog offset

/-- `getMachineProgramContents`: a failed `cnc_upstart4` is only logged. -/
def getMachineProgramContents (r : ContentsReply) : Option MachineProgramContents :=
  let (prog, offset) := upload4Loop r.upload4 none 0
  match r.upend4 with
  | .error _ => none
  | .ok () =>
    some { executionDuration := r.clock.tt, size := Int32.ofNat (offset + 1), contents := prog }

/-! ## Executing block -/

structure MachineBlock where
  executionDuration : ULong
  block : CStr
  blkNum : Long

structure BlockReply where
  clock : Clock
  /-- `len` and the 2048 bytes of `buf`. -/
  rdexecprog : Option (UInt16 × { buf : List Char // buf.length = 2048 })
  /-- The block number of `cnc_rdactpt`. -/
  rdactpt : Except EW Long
  /-- What `v->block` holds before the call. -/
  mem : CStr

/-- Replace the first newline among the first `len` characters by a NUL. -/
def cutNewline : Nat → List Char → List Char
  | 0, buf => buf
  | _, [] => []
  | len + 1, c :: buf => if c = '\n' then '\x00' :: buf else c :: cutNewline len buf

/-- `snprintf(dst, len, "%s", buf)`: at most `len - 1` characters and the
terminator; a zero bound writes nothing. -/
def snprintf (mem : CStr) (len : Nat) (buf : List Char) : CStr :=
  if len = 0 then mem else (cString buf).take (len - 1)

def getMachineBlock (r : BlockReply) : Option MachineBlock := do
  let (len, buf) ← r.rdexecprog
  let blkNum ← match r.rdactpt with
    | .error .mode => some (-1)
    | .ok blkNo => some blkNo
    | .error _ => none
  some
    { executionDuration := r.clock.tt
      block := snprintf r.mem len.toNat (cutNewline len.toNat buf.val)
      blkNum := blkNum }

end FanucDriver.Driver
