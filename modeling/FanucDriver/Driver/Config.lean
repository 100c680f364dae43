import FanucDriver.Lib.Buffer
import Mathlib.Data.Rat.Defs

/-!
# The configuration of the driver

`read_config` sets the address and the port of the machine from the environment, else from
the configuration file, else it leaves the defaults. Then it looks up the keys that the
file has to have, and one of these lookups writes `devicePort` again.

`precedence_iff`: the settings follow this precedence, and the answer says whether the
required keys were found, in exactly those cases where nothing of the following shows:
`ret` is not set when all keys are found, `machine_port` replaces the port, the address
in the file is written as a pointer over the text of `deviceIP`, and the last lookup
writes to `minimum_interval`, which `main.c` declares as a constant.

Mirroring notes:
- What libconfig reads and answers is a parameter, and so are the settings it leaves
  behind when it cannot read the file. A lookup writes nothing where it finds nothing.
- `config.c` declares neither `deviceHost` nor `minimum_interval`. `minimum_interval` is
  the `const long` of `main.c` or the `double` that the lookup needs: both are modelled.
  `deviceHost` is the four bytes that the lookup writes; `main.c` keeps a pointer there,
  which nothing reads. `D` is `double`.
- The indeterminate value of `ret` is a parameter.
- `atoi` is `strtol`, which stops at the bounds of a 32-bit `long`.
-/

namespace FanucDriver.Driver

open FanucDriver.Lib FanucDriver.Lib.Buffer

/-! ## What is read -/

/-- `getenv`; a value is a C string. -/
structure Environment where
  getenv : String → Option (List Char)
  string : ∀ name value, getenv name = some value → '\x00' ∉ value

/-- A string of libconfig: its text, and the bytes of the pointer to it. -/
structure ConfigString where
  text : List Char
  pointer : List Char
  size : pointer.length ≤ 8

/-- `config_read_file` and the lookups after it. -/
structure ConfigFile (D : Type) where
  readable : Bool
  lookupInt : String → Option Int32
  lookupString : String → Option ConfigString
  lookupFloat : String → Option D

/-- The object under the name `minimum_interval`. -/
inductive Interval (D : Type) where
  /-- `const long minimum_interval`, as in `main.c` -/
  | const (microseconds : Int32)
  /-- a `double` -/
  | var (seconds : D)

/-- `*value = …`, by `config_lookup_float` -/
def Interval.store {D : Type} : Interval D → D → Except Fault (Interval D)
  | .const _, _ => .error .constant
  | .var _, seconds => .ok (.var seconds)

/-- The globals that `read_config` writes. -/
structure Globals (D : Type) where
  deviceIP : Buffer Char
  devicePort : Int32
  deviceHost : Int32
  minimum_interval : Interval D

/-- `return ret`, with the globals and the lines on `stderr`. -/
structure ReadConfig (D : Type) where
  ret : Int32
  globals : Globals D
  stderr : List (List Char)

def isSpace (c : Char) : Bool := c = ' ' || ('\x09' ≤ c && c ≤ '\x0d')

/-- The digits that a string starts with. -/
def leadingNat (s : List Char) : ℕ :=
  (s.takeWhile Char.isDigit).foldl (fun n c => 10 * n + (c.toNat - '0'.toNat)) 0

def atoi (s : List Char) : Int32 :=
  let n : ℤ :=
    match s.dropWhile isSpace with
    | '-' :: s => -leadingNat s
    | '+' :: s => leadingNat s
    | s => leadingNat s
  Int32.ofInt (max (-2147483648) (min n 2147483647))

/-! ## `read_config` -/

variable {D : Type}

/-- `char deviceIP[MAXPATH] = "127.0.0.1"` -/
def defaultIP : List Char := "127.0.0.1".toList

/-- The globals before the call. -/
def initialGlobals (deviceHost : Int32) (minimum_interval : Interval D) : Globals D where
  deviceIP := cells defaultIP ++ some '\x00' :: cells (List.replicate 1014 '\x00')
  devicePort := 8193
  deviceHost := deviceHost
  minimum_interval := minimum_interval

def readDeviceIP (env : Environment) (file : ConfigFile D) (deviceIP : Buffer Char) :
    Except Fault (Buffer Char) :=
  match env.getenv "DEVICE_IP" with
  | some pTmp => deviceIP.writeString '\x00' pTmp
  | none =>
    match if file.readable then file.lookupString "ip" else none with
    -- `&deviceIP` is the address of the text, where libconfig stores its pointer
    | some ip => deviceIP.copyTo 0 ip.pointer
    | none => .ok deviceIP

def readDevicePort (env : Environment) (file : ConfigFile D) (devicePort : Int32) : Int32 :=
  match (env.getenv "DEVICE_PORT").map atoi with
  | some iTmp => if 0 < iTmp then iTmp else fromFile
  | none => fromFile
where
  fromFile : Int32 := (if file.readable then file.lookupInt "port" else none).getD devicePort

/-- The lookups of the required keys, up to the first that is not found. -/
def readRequired (file : ConfigFile D) (ret : Int32) (globals : Globals D) :
    Except Fault (ReadConfig D) :=
  match file.lookupInt "machine_host" with
  | none =>
    .ok ⟨1, globals, ["'machine_port' definition required in configuration file.\n".toList]⟩
  | some deviceHost =>
    let globals := { globals with deviceHost := deviceHost }
    match file.lookupInt "machine_port" with
    | none =>
      .ok ⟨1, globals, ["'machine_port' definition required in configuration file.\n".toList]⟩
    | some devicePort =>
      let globals := { globals with devicePort := devicePort }
      match file.lookupFloat "minimum_polling_interval" with
      | none =>
        .ok ⟨1, globals,
          ["'minimum_polling_interval' definition required in configuration file.\n".toList]⟩
      | some interval => do
        let minimum_interval ← globals.minimum_interval.store interval
        return ⟨ret, { globals with minimum_interval := minimum_interval }, []⟩

/-- The line about a file that cannot be read. -/
def unread (cfg_file : List Char) (file : ConfigFile D) : List (List Char) :=
  if file.readable then []
  else ["unable to read config file \"".toList ++ cfg_file ++ "\"\n".toList]

def readConfig (env : Environment) (cfg_file : List Char) (file : ConfigFile D) (ret : Int32)
    (globals : Globals D) : Except Fault (ReadConfig D) := do
  let deviceIP ← readDeviceIP env file globals.deviceIP
  let devicePort := readDevicePort env file globals.devicePort
  let result ← readRequired file ret
    { globals with deviceIP := deviceIP, devicePort := devicePort }
  return { result with stderr := unread cfg_file file ++ result.stderr }

/-! ## The precedence -/

/-- `DEVICE_IP`, else the address in the file, else the default. -/
def expectedIP (env : Environment) (file : ConfigFile D) : List Char :=
  (env.getenv "DEVICE_IP" <|>
    (if file.readable then (file.lookupString "ip").map (·.text) else none)).getD defaultIP

/-- `DEVICE_PORT` where it is positive, else the port in the file, else the default. -/
def expectedPort (env : Environment) (file : ConfigFile D) : Int32 :=
  (((env.getenv "DEVICE_PORT").map atoi).filter (0 < ·) <|>
    (if file.readable then file.lookupInt "port" else none)).getD 8193

/-- Every required key was found. -/
structure ConfigFile.Complete (file : ConfigFile D) : Prop where
  host : (file.lookupInt "machine_host").isSome
  port : (file.lookupInt "machine_port").isSome
  interval : (file.lookupFloat "minimum_polling_interval").isSome

/-- What `read_config` is to answer. -/
structure Precedence (env : Environment) (file : ConfigFile D) (result : ReadConfig D) :
    Prop where
  port : result.ret = 0 → result.globals.devicePort = expectedPort env file
  address : result.ret = 0 →
    result.globals.deviceIP.readString '\x00' = .ok (expectedIP env file)
  found : result.ret = 0 ↔ file.Complete

/-- The text of `deviceIP` with a pointer over the default. -/
def overwritten (ip : ConfigString) : List Char :=
  (ip.pointer ++ defaultIP.drop ip.pointer.length).takeWhile (· ≠ '\x00')

/-- `DEVICE_IP` has room in `deviceIP`. -/
def Environment.Fits (env : Environment) : Prop :=
  ∀ value, env.getenv "DEVICE_IP" = some value → value.length < 1024

/-- The object is one that can be written. -/
def Interval.Writable : Interval D → Prop
  | .const _ => False
  | .var _ => True

/-- The cases where a complete file is read as the precedence says. -/
structure Agrees (env : Environment) (file : ConfigFile D) (ret : Int32)
    (minimum_interval : Interval D) : Prop where
  /-- `minimum_interval` is not the constant of `main.c`. -/
  writable : minimum_interval.Writable
  /-- The indeterminate value is that of success. -/
  ret : ret = 0
  /-- `machine_port` is the port that it replaces. -/
  port : file.lookupInt "machine_port" = some (expectedPort env file)
  /-- The pointer to the address spells the address. -/
  address : env.getenv "DEVICE_IP" = none → file.readable → ∀ ip, file.lookupString "ip" = some ip →
    overwritten ip = ip.text

/-! ## The address -/

section
variable {env : Environment} {file : ConfigFile D} {deviceHost : Int32}
  {minimum_interval : Interval D}

/-- The text of `deviceIP` afterwards. -/
def actualIP (env : Environment) (file : ConfigFile D) : List Char :=
  match env.getenv "DEVICE_IP" with
  | some value => value
  | none =>
    match if file.readable then file.lookupString "ip" else none with
    | some ip => overwritten ip
    | none => defaultIP

/-- The default, its terminator and what is left of the buffer. -/
theorem exists_deviceIP (deviceHost : Int32) (minimum_interval : Interval D) :
    ∃ rest : Buffer Char, rest.length = 1014 ∧
    (initialGlobals deviceHost minimum_interval).deviceIP
      = cells defaultIP ++ some '\x00' :: rest :=
  ⟨cells (List.replicate 1014 '\x00'), (length_cells _).trans List.length_replicate, rfl⟩

/-- A pointer over the start of the default. -/
theorem copyTo_pointer (ip : ConfigString) (rest : Buffer Char) :
    (cells defaultIP ++ some '\x00' :: rest).copyTo 0 ip.pointer
      = .ok (cells (ip.pointer ++ defaultIP.drop ip.pointer.length) ++ some '\x00' :: rest) := by
  have hsize : ip.pointer.length ≤ defaultIP.length := Nat.le_trans ip.size (by decide)
  have hroom : 0 + ip.pointer.length ≤ (cells defaultIP ++ some '\x00' :: rest).length := by
    rw [List.length_append, length_cells]
    omega
  have hdrop : (cells defaultIP ++ some '\x00' :: rest).drop ip.pointer.length
      = cells (defaultIP.drop ip.pointer.length) ++ some '\x00' :: rest := by
    rw [List.drop_append_of_le_length ((length_cells _).symm ▸ hsize), cells, ← List.map_drop]
    rfl
  rw [copyTo, if_pos hroom, Nat.zero_add, hdrop, List.take_zero, List.nil_append, cells_append,
    List.append_assoc]

theorem readDeviceIP_eq (hfits : env.Fits) (file : ConfigFile D) (deviceHost : Int32)
    (minimum_interval : Interval D) : ∃ deviceIP,
      readDeviceIP env file (initialGlobals deviceHost minimum_interval).deviceIP = .ok deviceIP ∧
      deviceIP.readString '\x00' = .ok (actualIP env file) := by
  have hdefault : '\x00' ∉ defaultIP := by decide
  obtain ⟨rest, hrest, hinitial⟩ := exists_deviceIP deviceHost minimum_interval
  rw [hinitial]
  unfold readDeviceIP actualIP
  cases hip : env.getenv "DEVICE_IP" with
  | some value =>
    have hroom : value.length < (cells defaultIP ++ some '\x00' :: rest).length := by
      have hlen := hfits value hip
      have hten : defaultIP.length = 9 := by decide
      rw [List.length_append, length_cells, List.length_cons, hrest, hten]
      omega
    exact ⟨_, writeString_cells '\x00' hroom, readString_cells (env.string _ value hip) _⟩
  | none =>
    cases if file.readable then file.lookupString "ip" else none with
    | some ip => exact ⟨_, copyTo_pointer ip rest, readString_takeWhile _ _⟩
    | none => exact ⟨_, rfl, readString_cells hdefault _⟩

/-- Without room for `DEVICE_IP` the program writes past the end of `deviceIP`. -/
theorem readDeviceIP_overflow (hfits : ¬env.Fits) :
    readDeviceIP env file (initialGlobals deviceHost minimum_interval).deviceIP
      = .error .bounds := by
  unfold Environment.Fits at hfits
  push Not at hfits
  obtain ⟨value, hip, hlong⟩ := hfits
  obtain ⟨rest, hrest, hinitial⟩ := exists_deviceIP deviceHost minimum_interval
  have hten : defaultIP.length = 9 := by decide
  rw [hinitial]
  unfold readDeviceIP writeString copyTo
  rw [hip]
  refine if_neg ?_
  have hroom : List.length (cells defaultIP ++ some '\x00' :: rest) = 1024 := by
    rw [List.length_append, length_cells, List.length_cons, hrest, hten]
  have hlength : (value ++ ['\x00']).length = value.length + 1 := List.length_append
  omega

/-- The text is the expected one, but for a pointer that does not spell the address. -/
theorem actualIP_eq_iff :
    actualIP env file = expectedIP env file ↔
      (env.getenv "DEVICE_IP" = none → file.readable → ∀ ip, file.lookupString "ip" = some ip →
        overwritten ip = ip.text) := by
  unfold actualIP expectedIP
  cases env.getenv "DEVICE_IP" with
  | some value => simp
  | none =>
    cases hreadable : file.readable with
    | false => simp
    | true =>
      cases file.lookupString "ip" with
      | none => simp
      | some ip => simp

end

/-! ## The port and the answer -/

/-- The port of the precedence, before the required keys are looked up. -/
theorem readDevicePort_eq (env : Environment) (file : ConfigFile D) :
    readDevicePort env file 8193 = expectedPort env file := by
  unfold readDevicePort expectedPort readDevicePort.fromFile
  cases (env.getenv "DEVICE_PORT").map atoi with
  | none => rfl
  | some iTmp =>
    by_cases h : 0 < iTmp
    · simp [Option.filter, h]
    · simp [Option.filter, h]

/-- A missing key is answered by 1. -/
theorem readRequired_incomplete {file : ConfigFile D} (h : ¬file.Complete) (ret : Int32)
    (globals : Globals D) : ∃ result, readRequired file ret globals = .ok result ∧
      result.ret = 1 := by
  unfold readRequired
  cases hhost : file.lookupInt "machine_host" with
  | none => exact ⟨_, rfl, rfl⟩
  | some deviceHost =>
    cases hport : file.lookupInt "machine_port" with
    | none => exact ⟨_, rfl, rfl⟩
    | some devicePort =>
      cases hinterval : file.lookupFloat "minimum_polling_interval" with
      | none => exact ⟨_, rfl, rfl⟩
      | some interval =>
        refine absurd ⟨?_, ?_, ?_⟩ h
        · rw [hhost]; rfl
        · rw [hport]; rfl
        · rw [hinterval]; rfl

/-- With all keys the last lookup writes to `minimum_interval`. -/
theorem readRequired_found {file : ConfigFile D} (h : file.Complete) (ret : Int32)
    (globals : Globals D) : ∃ deviceHost devicePort interval,
      file.lookupInt "machine_port" = some devicePort ∧
      readRequired file ret globals = (globals.minimum_interval.store interval).map fun i =>
        ⟨ret, { globals with
          deviceHost := deviceHost, devicePort := devicePort, minimum_interval := i }, []⟩ := by
  obtain ⟨deviceHost, hhost⟩ := Option.isSome_iff_exists.mp h.host
  obtain ⟨devicePort, hport⟩ := Option.isSome_iff_exists.mp h.port
  obtain ⟨interval, hinterval⟩ := Option.isSome_iff_exists.mp h.interval
  refine ⟨deviceHost, devicePort, interval, hport, ?_⟩
  unfold readRequired
  rw [hhost, hport, hinterval]
  cases globals.minimum_interval with
  | const microseconds => rfl
  | var seconds => rfl

/-- Where it can, `ret` is returned as it was, and `machine_port` is the port. -/
theorem readRequired_complete {file : ConfigFile D} (h : file.Complete) (ret : Int32)
    (globals : Globals D) (hwritable : globals.minimum_interval.Writable) :
    ∃ result, readRequired file ret globals = .ok result ∧ result.ret = ret ∧
      result.globals.deviceIP = globals.deviceIP ∧
      file.lookupInt "machine_port" = some result.globals.devicePort := by
  obtain ⟨deviceHost, devicePort, interval, hport, hresult⟩ := readRequired_found h ret globals
  cases hkind : globals.minimum_interval with
  | const microseconds =>
    rw [hkind] at hwritable
    exact absurd hwritable id
  | var seconds =>
    rw [hkind] at hresult
    exact ⟨_, hresult, rfl, rfl, hport⟩

/-- A constant cannot be written. -/
theorem readRequired_constant {file : ConfigFile D} (h : file.Complete) (ret : Int32)
    (globals : Globals D) (hconst : ¬globals.minimum_interval.Writable) :
    readRequired file ret globals = .error .constant := by
  obtain ⟨deviceHost, devicePort, interval, -, hresult⟩ := readRequired_found h ret globals
  rw [hresult]
  cases hkind : globals.minimum_interval with
  | const microseconds => rfl
  | var seconds =>
    rw [hkind] at hconst
    exact absurd trivial hconst

/-! ## What is answered -/

section
variable {env : Environment} (cfg_file : List Char) (file : ConfigFile D) (ret deviceHost : Int32)
  (minimum_interval : Interval D)

/-- `readConfig` where `DEVICE_IP` has room: what the required keys leave of the settings. -/
theorem readConfig_eq (hfits : env.Fits) :
    ∃ globals : Globals D, globals.minimum_interval = minimum_interval ∧
      globals.deviceIP.readString '\x00' = .ok (actualIP env file) ∧
      readConfig env cfg_file file ret (initialGlobals deviceHost minimum_interval)
        = (readRequired file ret globals).map fun result =>
            { result with stderr := unread cfg_file file ++ result.stderr } := by
  obtain ⟨deviceIP, hwrite, hread⟩ := readDeviceIP_eq hfits file deviceHost minimum_interval
  refine ⟨{ initialGlobals deviceHost minimum_interval with
    deviceIP := deviceIP, devicePort := readDevicePort env file 8193 }, rfl, hread, ?_⟩
  unfold readConfig
  rw [hwrite]
  rfl

/-- An answer that follows the precedence, where the required keys are all found. -/
theorem agrees_of_precedence {result : ReadConfig D} (hfits : env.Fits)
    (hresult : readConfig env cfg_file file ret (initialGlobals deviceHost minimum_interval)
      = .ok result) (hprecedence : Precedence env file result) (hcomplete : file.Complete) :
    Agrees env file ret minimum_interval := by
  obtain ⟨globals, hinterval, hread, heq⟩ :=
    readConfig_eq cfg_file file ret deviceHost minimum_interval hfits
  rw [heq] at hresult
  by_cases hwritable : minimum_interval.Writable
  · obtain ⟨left, hleft, hret, hdeviceIP, hport⟩ :=
      readRequired_complete hcomplete ret globals (hinterval ▸ hwritable)
    rw [hleft] at hresult
    obtain rfl := Except.ok.inj hresult
    have hzero := hprecedence.found.mpr hcomplete
    have haddress := hprecedence.address hzero
    have hexpected := hprecedence.port hzero
    dsimp only at hzero haddress hexpected
    rw [hdeviceIP, hread] at haddress
    refine ⟨hwritable, hret.symm.trans hzero, ?_, actualIP_eq_iff.mp (Except.ok.inj haddress)⟩
    rw [hport, hexpected]
  · rw [readRequired_constant hcomplete ret globals (hinterval ▸ hwritable)] at hresult
    exact absurd hresult (by simp [Except.map])

theorem precedence_of_agrees (hfits : env.Fits)
    (hagrees : file.Complete → Agrees env file ret minimum_interval) :
    ∃ result,
      readConfig env cfg_file file ret (initialGlobals deviceHost minimum_interval) = .ok result ∧
      Precedence env file result := by
  obtain ⟨globals, hinterval, hread, heq⟩ :=
    readConfig_eq cfg_file file ret deviceHost minimum_interval hfits
  rw [heq]
  by_cases hcomplete : file.Complete
  · obtain ⟨hwritable, hzero, hmachine, haddress⟩ := hagrees hcomplete
    obtain ⟨left, hleft, hret, hdeviceIP, hport⟩ :=
      readRequired_complete hcomplete ret globals (hinterval ▸ hwritable)
    rw [hleft]
    refine ⟨_, rfl, fun _ => ?_, fun _ => ?_, ?_⟩
    · exact Option.some.inj (hport.symm.trans hmachine)
    · dsimp only
      rw [hdeviceIP, hread, actualIP_eq_iff.mpr haddress]
    · exact iff_of_true (hret.trans hzero) hcomplete
  · obtain ⟨left, hleft, hone⟩ := readRequired_incomplete hcomplete ret globals
    have hne : left.ret ≠ 0 := by
      rw [hone]
      decide
    rw [hleft]
    exact ⟨_, rfl, fun h => absurd h hne, fun h => absurd h hne, iff_of_false hne hcomplete⟩

/-- **The precedence holds exactly** where `DEVICE_IP` has room and, if all required keys
are found, `minimum_interval` can be written, `ret` happens to be 0, `machine_port` is the
port of the precedence and the pointer to the file's address, if it is stored, spells that
address. -/
theorem precedence_iff (env : Environment) :
    (∃ result,
      readConfig env cfg_file file ret (initialGlobals deviceHost minimum_interval) = .ok result ∧
      Precedence env file result) ↔
    env.Fits ∧ (file.Complete → Agrees env file ret minimum_interval) := by
  constructor
  · intro h
    obtain ⟨result, hresult, hprecedence⟩ := h
    by_cases hfits : env.Fits
    · exact ⟨hfits, agrees_of_precedence cfg_file file ret deviceHost minimum_interval hfits
        hresult hprecedence⟩
    · unfold readConfig at hresult
      rw [readDeviceIP_overflow hfits] at hresult
      exact absurd hresult (by simp [bind, Except.bind])
  · intro h
    obtain ⟨hfits, hagrees⟩ := h
    exact precedence_of_agrees cfg_file file ret deviceHost minimum_interval hfits hagrees

end

/-- `DEVICE_PORT` and nothing else. -/
def portEnvironment (value : String) (h : '\x00' ∉ value.toList) : Environment where
  getenv name := if name = "DEVICE_PORT" then some value.toList else none
  string name v hv := by
    split at hv
    · exact Option.some.inj hv ▸ h
    · exact absurd hv.symm (Option.some_ne_none v)

/-- A file with the required keys. -/
def completeFile : ConfigFile ℚ where
  readable := true
  lookupInt path :=
    if path = "machine_host" then some 1 else if path = "machine_port" then some 8193 else none
  lookupString _ := none
  lookupFloat path := if path = "minimum_polling_interval" then some (3 / 2) else none

/-- `machine_port` replaces the port of the environment; and with the constant of `main.c`
nothing is answered. -/
theorem precedence_replaced :
    (¬∃ result,
      readConfig (portEnvironment "9000" (by decide)) "default.cfg".toList completeFile 0
        (initialGlobals 0 (.var (3 / 2))) = .ok result ∧
      Precedence (portEnvironment "9000" (by decide)) completeFile result) ∧
    readConfig (portEnvironment "9000" (by decide)) "default.cfg".toList completeFile 0
        (initialGlobals 0 (.const 1500000)) = .error .constant := by
  refine ⟨?_, rfl⟩
  intro h
  obtain ⟨result, hresult, hprecedence⟩ := h
  have hret : result.ret = 0 := by
    rw [← Except.ok.inj hresult]
  have hport : result.globals.devicePort = 8193 := by
    rw [← Except.ok.inj hresult]
  exact absurd (hport.symm.trans (hprecedence.port hret)) (by decide)

/-- The port of the environment is read where it is `machine_port`. -/
theorem precedence_agreeing :
    ∃ result,
      readConfig (portEnvironment "8193" (by decide)) "default.cfg".toList completeFile 0
        (initialGlobals 0 (.var (3 / 2))) = .ok result ∧
      Precedence (portEnvironment "8193" (by decide)) completeFile result := by
  refine (precedence_iff "default.cfg".toList completeFile 0 0 (.var (3 / 2)) _).mpr
    ⟨?_, fun _ => ?_⟩
  · intro value hvalue
    exact absurd hvalue.symm (Option.some_ne_none value)
  · exact ⟨trivial, rfl, rfl, fun _ _ ip hip => absurd hip.symm (Option.some_ne_none ip)⟩

end FanucDriver.Driver
