import FanucDriver.Streams.AdapterDatum
import Mathlib.Tactic.SplitIfs

/-!
# `convertAdapterDatum`: one row for each message

The transformer turns an `AdapterDatum` into an `AdapterDatumSer`: the scalars of
`values` one by one, its arrays as JSON texts (`gson.toJson`), the durations of
`meta` as columns of their own, and the position of the record.

`Converts` says in closed form what the assignments come to. One of them is
wrong: the last but one reads `cyle_time` from `meta` and assigns it to the column
of `cycle_time`, so that column is overwritten and `meta_cycle_time` stays null.
`convert_lossless_iff` says exactly which data come through all the same.

Mirroring notes:
- The builder is a record of nullable fields, all null at first; an assignment
  replaces one field. The setters of the four first fields are never given null.
- A Java `double` is a finite double or one of the three values JSON has no number
  for, on which `gson.toJson` throws; an exception is `none`.
- `Double.toString` is not part of the repository. `DoubleFormat` is what the model
  assumes of it: the text of a finite double is a JSON number and parses back.
-/

namespace FanucDriver.Streams

open FanucDriver.Lib

/-! ## Writing -/

/-- A Java `double` over a type of finite doubles. -/
inductive Double (D : Type) where
  | finite (d : D)
  | nan
  | positiveInfinity
  | negativeInfinity
  deriving DecidableEq

/-- `Double.toString` and `Double.parseDouble` on finite doubles. -/
structure DoubleFormat (D : Type) where
  toText : D → Json.Token
  parse : Json.Token → Option D
  parse_toText : ∀ d, parse (toText d) = some d

/-- How numbers are read from a text. -/
def DoubleFormat.numbers {D : Type} (fmt : DoubleFormat D) : Numbers Json.Token (Double D) where
  int? x := Json.intOf? x.text
  double? x := (fmt.parse x).map .finite

/-- The replacements of Gson's writer. -/
def gsonEscape (c : Char) : List Char :=
  if c = '"' then ['\\', '"']
  else if c = '\\' then ['\\', '\\']
  else if c = '\t' then ['\\', 't']
  else if c = '\x08' then ['\\', 'b']
  else if c = '\n' then ['\\', 'n']
  else if c = '\r' then ['\\', 'r']
  else if c = '\x0c' then ['\\', 'f']
  else if c.toNat < 0x20 ∨ c.toNat = 0x2028 ∨ c.toNat = 0x2029 ∨ c ∈ ['<', '>', '&', '=', '\''] then
    Json.unicodeEscape c
  else [c]

theorem gsonEscape_reads (c : Char) (s : List Char) :
    Json.readChar (gsonEscape c ++ s) = some (c, s) := by
  unfold gsonEscape
  split_ifs with hquote hslash htab hback hnewline hreturn hfeed hcode
  · subst hquote; rfl
  · subst hslash; rfl
  · subst htab; rfl
  · subst hback; rfl
  · subst hnewline; rfl
  · subst hreturn; rfl
  · subst hfeed; rfl
  · refine Json.readChar_unicodeEscape ?_ s
    rcases hcode with h | h | h | h
    · omega
    · omega
    · omega
    · simp only [List.mem_cons, List.not_mem_nil, or_false] at h
      rcases h with rfl | rfl | rfl | rfl | rfl <;> decide
  · exact Json.readChar_plain hquote hslash (by omega) s

/-- The writer of `Gson()`: no blanks. -/
def gsonStyle : Json.Style where
  escape := gsonEscape
  comma := []
  colon := []
  escape_reads := gsonEscape_reads
  comma_blank := rfl
  colon_blank := rfl

section
variable {D : Type} (fmt : DoubleFormat D)

/-- Gson writes every value but the doubles that are no numbers. -/
def ScalarType.writable : (t : ScalarType) → t.Value (Double D) → Bool
  | double, .finite _ => true
  | double, _ => false
  | _, _ => true

def ScalarType.write : (t : ScalarType) → t.Value (Double D) → Json Json.Token
  | int, n => .number (.ofInt n.toInt)
  | long, n => .number (.ofInt n.toInt)
  | double, .finite d => .number (fmt.toText d)
  | double, _ => .null
  | string, s => .string s

/-- An element of `axes`; none of its fields is a double. -/
def writeAxesDef (v : AdapterDatumAxesDef (Double D)) : Json Json.Token :=
  .object (axesSchema.writeMembers (fun f => f.type.write fmt) v)

/-- The elements of an array, or an exception. -/
def AvroType.writeElems : (t : AvroType) → t.Value (Double D) → Option (List (Json Json.Token))
  | scalar _, _ => none
  | array t, vs => if vs.all t.writable then some (vs.map (t.write fmt)) else none
  | axes, vs => some (vs.map (writeAxesDef fmt))

/-- `if (!xs.isNullOrEmpty()) … gson.toJson(xs)`: nothing for a missing or empty
array, an exception for one that cannot be written. -/
def AvroType.arrayText (t : AvroType) (v : Option (t.Value (Double D))) :
    Option (Option JString) :=
  match v with
  | none => some none
  | some vs =>
    match t.writeElems fmt vs with
    | none => none
    | some [] => some none
    | some js => some (some (Json.print gsonStyle (.array js)))

/-! ## The row -/

/-- The durations with a column: `meta_` and the name of the duration. -/
inductive MetaColumn where
  | info | part_count | cycle_time | status | tool | dynamic | message | program_name | program
  | program_header | block | total
  deriving DecidableEq

def MetaColumn.name : MetaColumn → String
  | info => "info"
  | part_count => "part_count"
  | cycle_time => "cycle_time"
  | status => "status"
  | tool => "tool"
  | dynamic => "dynamic"
  | message => "message"
  | program_name => "program_name"
  | program => "program"
  | program_header => "program_header"
  | block => "block"
  | total => "total"

/-- The column type of a field: a scalar as it is, an array as a string. -/
abbrev AvroType.column : AvroType → ScalarType
  | scalar t => t
  | array _ => .string
  | axes => .string

/-- The fields of `AdapterDatumSer`: the position, one column under the name of each
field of `AdapterDatumValues`, and the durations. -/
inductive SerField where
  | machine_id
  | offset
  | timestamp
  | partition
  | value (f : ValuesField)
  | duration (k : MetaColumn)
  deriving DecidableEq

abbrev SerField.type : SerField → ScalarType
  | machine_id => .string
  | offset => .long
  | timestamp => .long
  | partition => .int
  | value f => f.type.column
  | duration _ => .long

abbrev AdapterDatumSer (D : Type) := (c : SerField) → Option (c.type.Value (Double D))

/-- Assign one field of the builder. -/
def AdapterDatumSer.put (out : AdapterDatumSer D) (c : SerField)
    (v : Option (c.type.Value (Double D))) : AdapterDatumSer D :=
  Function.update out c v

/-- Assign one field when there is a value for it. -/
def AdapterDatumSer.putPresent (out : AdapterDatumSer D) (c : SerField)
    (v : Option (c.type.Value (Double D))) : AdapterDatumSer D :=
  out.put c (v.or (out c))

/-- A record of the input stream: its key, the decoded datum and its position. -/
structure Input (D : Type) where
  machineID : JString
  datum : AdapterDatum (Double D)
  offset : Int64
  timestamp : Int64
  partition : Int32

/-- `convertAdapterDatum` -/
def convertAdapterDatum (x : Input D) : Option (AdapterDatumSer D) := do
  let out : AdapterDatumSer D := fun _ => none
  let out := out.put .machine_id (some x.machineID)
  let out := out.put .offset (some x.offset)
  let out := out.put .timestamp (some x.timestamp)
  let out := out.put .partition (some x.partition)
  let _meta (k : String) := x.datum.metaMap k.toList
  let _in := x.datum.values
  let out := out.put (.value .max_axis) (_in .max_axis)
  let out := out.put (.value .addinfo) (_in .addinfo)
  let out := out.put (.value .cnc_type) (_in .cnc_type)
  let out := out.put (.value .mt_type) (_in .mt_type)
  let out := out.put (.value .series) (_in .series)
  let out := out.put (.value .version) (_in .version)
  let out := out.put (.value .axes_count_chk) (_in .axes_count_chk)
  let out := out.put (.value .axes_count) (_in .axes_count)
  let out := out.put (.value .ether_type) (_in .ether_type)
  let out := out.put (.value .ether_device) (_in .ether_device)
  let out := out.putPresent (.value .axes) (← AvroType.arrayText fmt _ (_in .axes))
  let out := out.put (.value .alarm) (_in .alarm)
  let out := out.put (.value .hdck) (_in .hdck)
  let out := out.put (.value .tool_group) (_in .tool_group)
  let out := out.put (.value .message_number) (_in .message_number)
  let out := out.put (.value .message_text) (_in .message_text)
  let out := out.put (.value .mprogram) (_in .mprogram)
  let out := out.put (.value .part_count) (_in .part_count)
  let out := out.put (.value .mode) (_in .mode)
  let out := out.put (.value .estop) (_in .estop)
  let out := out.put (.value .aut) (_in .aut)
  let out := out.put (.value .emergency) (_in .emergency)
  let out := out.put (.value .run) (_in .run)
  let out := out.put (.value .execution) (_in .execution)
  let out := out.put (.value .tool_id) (_in .tool_id)
  let out := out.put (.value .sequence) (_in .sequence)
  let out := out.put (.value .cprogram) (_in .cprogram)
  let out := out.put (.value .program_number) (_in .program_number)
  let out := out.put (.value .program_header) (_in .program_header)
  let out := out.put (.value .mstb) (_in .mstb)
  let out := out.put (.value .edit) (_in .edit)
  let out := out.put (.value .block) (_in .block)
  let out := out.put (.value .motion) (_in .motion)
  let out := out.put (.value .actf) (_in .actf)
  let out := out.put (.value .acts) (_in .acts)
  let out := out.putPresent (.value .actual) (← AvroType.arrayText fmt _ (_in .actual))
  let out := out.putPresent (.value .relative) (← AvroType.arrayText fmt _ (_in .relative))
  let out := out.putPresent (.value .absolute) (← AvroType.arrayText fmt _ (_in .absolute))
  let out := out.putPresent (.value .load) (← AvroType.arrayText fmt _ (_in .load))
  let out := out.put (.value .block_num) (_in .block_num)
  let out := out.put (.value .cycle_time) (_in .cycle_time)
  let out := out.put (.value .program_name) (_in .program_name)
  let out := out.put (.value .program_path) (_in .program_path)
  let out := out.put (.value .program) (_in .program)
  let out := out.put (.value .program_size) (_in .program_size)
  let out := out.put (.duration .info) (_meta "info")
  let out := out.put (.duration .part_count) (_meta "part_count")
  let out := out.put (.duration .status) (_meta "status")
  let out := out.put (.duration .tool) (_meta "tool")
  let out := out.put (.duration .dynamic) (_meta "dynamic")
  let out := out.put (.duration .message) (_meta "message")
  let out := out.put (.duration .program_name) (_meta "program_name")
  let out := out.put (.duration .program_header) (_meta "program_header")
  let out := out.put (.duration .program) (_meta "program")
  let out := out.put (.duration .block) (_meta "block")
  -- the misspelt key, and the column assigned above
  let out := out.put (.value .cycle_time) (_meta "cyle_time")
  let out := out.put (.duration .total) (_meta "total")
  some out

/-- `AdapterDatumTransformer.transform`: the record's key is the machine id, and
stays its key. -/
def transform (x : Input D) : Option (JString × AdapterDatumSer D) :=
  (convertAdapterDatum fmt x).map fun out => (x.machineID, out)

/-! ## What the assignments come to -/

/-- What a column is given of a field: a scalar itself, an array as its text. -/
def AvroType.keep : (t : AvroType) → Option (t.Value (Double D)) →
    Option (Option (t.column.Value (Double D)))
  | scalar _, v => some v
  | array t, v => AvroType.arrayText fmt (.array t) v
  | axes, v => AvroType.arrayText fmt .axes v

/-- **The row in closed form.** -/
structure Converts (x : Input D) (out : AdapterDatumSer D) : Prop where
  machine_id : out .machine_id = some x.machineID
  offset : out .offset = some x.offset
  timestamp : out .timestamp = some x.timestamp
  partition : out .partition = some x.partition
  value : ∀ f, f ≠ .cycle_time → f.type.keep fmt (x.datum.values f) = some (out (.value f))
  cycle_time : out (.value .cycle_time) = x.datum.metaMap "cyle_time".toList
  duration : ∀ k, k ≠ .cycle_time → out (.duration k) = x.datum.metaMap k.name.toList
  meta_cycle_time : out (.duration .cycle_time) = none

theorem convert_converts {x : Input D} {out : AdapterDatumSer D}
    (h : convertAdapterDatum fmt x = some out) : Converts fmt x out := by
  simp only [convertAdapterDatum, Option.bind_eq_bind, Option.bind_eq_some_iff] at h
  -- the five arrays are the assignments that can throw
  obtain ⟨axes, haxes, actual, hactual, relative, hrelative, absolute, habsolute, load, hload, h⟩
    := h
  obtain rfl := (Option.some.inj h).symm
  refine ⟨rfl, rfl, rfl, rfl, fun f hf => ?_, rfl, fun k hk => ?_, rfl⟩
  · cases f
    case cycle_time => exact absurd rfl hf
    case axes => exact haxes.trans (congrArg some (Option.or_none).symm)
    case actual => exact hactual.trans (congrArg some (Option.or_none).symm)
    case relative => exact hrelative.trans (congrArg some (Option.or_none).symm)
    case absolute => exact habsolute.trans (congrArg some (Option.or_none).symm)
    case load => exact hload.trans (congrArg some (Option.or_none).symm)
    all_goals rfl
  · cases k
    case cycle_time => exact absurd rfl hk
    all_goals rfl

/-- The field can be written: an array of doubles holds numbers only. -/
def AvroType.Writable : (t : AvroType) → Option (t.Value (Double D)) → Prop
  | array t, some vs => vs.all t.writable = true
  | _, _ => True

/-- No array of the datum holds a double that is no number. -/
def FiniteArrays (d : AdapterDatum (Double D)) : Prop :=
  ∀ f : ValuesField, f.type.Writable (d.values f)

theorem arrayText_isSome_iff (t : ScalarType) (v : Option (List (t.Value (Double D)))) :
    (AvroType.arrayText fmt (.array t) v).isSome ↔ (AvroType.array t).Writable v := by
  cases v with
  | none => simp [AvroType.arrayText, AvroType.Writable]
  | some vs =>
    simp only [AvroType.arrayText, AvroType.writeElems, AvroType.Writable]
    split
    next h =>
      split at h
      next => exact absurd h (by simp)
      next hall => exact iff_of_false (by simp) hall
    next h =>
      split at h
      next hall => exact iff_of_true rfl hall
      next => exact absurd h (by simp)
    next h =>
      split at h
      next hall => exact iff_of_true rfl hall
      next => exact absurd h (by simp)

theorem arrayText_axes_isSome (v : Option (List (AdapterDatumAxesDef (Double D)))) :
    (AvroType.arrayText fmt .axes v).isSome := by
  cases v with
  | none => rfl
  | some vs => cases vs <;> rfl

theorem keep_isSome_iff (t : AvroType) (v : Option (t.Value (Double D))) :
    (t.keep fmt v).isSome ↔ t.Writable v := by
  cases t with
  | scalar t => exact iff_of_true rfl (by simp [AvroType.Writable])
  | array t => exact arrayText_isSome_iff fmt t v
  | axes => exact iff_of_true (arrayText_axes_isSome fmt v) (by simp [AvroType.Writable])

/-- The conversion throws exactly on a double that is no number. -/
theorem convert_isSome_iff (x : Input D) :
    (convertAdapterDatum fmt x).isSome ↔ FiniteArrays x.datum := by
  constructor
  · intro h f
    obtain ⟨out, hout⟩ := Option.isSome_iff_exists.mp h
    by_cases hf : f = .cycle_time
    · subst hf
      trivial
    · rw [← keep_isSome_iff fmt, (convert_converts fmt hout).value f hf]
      rfl
  · intro h
    have htext : ∀ f : ValuesField, ∃ w, f.type.keep fmt (x.datum.values f) = some w := fun f =>
      Option.isSome_iff_exists.mp ((keep_isSome_iff fmt _ _).mpr (h f))
    obtain ⟨axes, haxes⟩ := htext .axes
    obtain ⟨actual, hactual⟩ := htext .actual
    obtain ⟨relative, hrelative⟩ := htext .relative
    obtain ⟨absolute, habsolute⟩ := htext .absolute
    obtain ⟨load, hload⟩ := htext .load
    rw [Option.isSome_iff_exists]
    simp only [convertAdapterDatum, Option.bind_eq_bind, Option.bind_eq_some_iff]
    exact ⟨_, axes, haxes, actual, hactual, relative, hrelative, absolute, habsolute, load, hload,
      rfl⟩

/-! ## Reading the row back -/

/-- The text parses to the array. -/
def ParsesTo (t : AvroType) (vs : t.Value (Double D)) (text : JString) : Prop :=
  (Json.parse text).bind (t.read fmt.numbers) = some vs

/-- A column keeps a field: a scalar is the same, an array is null when it is missing
or empty, and otherwise a text that parses to it. -/
def AvroType.Kept : (t : AvroType) → Option (t.Value (Double D)) →
    Option (t.column.Value (Double D)) → Prop
  | scalar _, v, w => w = v
  | array _, none, w => w = none
  | array _, some [], w => w = none
  | array t, some (v :: vs), w => ∃ text, w = some text ∧ ParsesTo fmt (.array t) (v :: vs) text
  | axes, none, w => w = none
  | axes, some [], w => w = none
  | axes, some (v :: vs), w => ∃ text, w = some text ∧ ParsesTo fmt .axes (v :: vs) text

theorem ScalarType.read_write (t : ScalarType) (v : t.Value (Double D)) (h : t.writable v = true) :
    t.read fmt.numbers (t.write fmt v) = some v := by
  cases t with
  | int =>
    simp only [ScalarType.read, ScalarType.write, DoubleFormat.numbers, Json.Token.ofInt,
      Json.intOf?_intText, Option.bind_some]
    exact int32?_eq_some_iff.mpr rfl
  | long =>
    simp only [ScalarType.read, ScalarType.write, DoubleFormat.numbers, Json.Token.ofInt,
      Json.intOf?_intText, Option.bind_some]
    exact int64?_eq_some_iff.mpr rfl
  | double =>
    cases v with
    | finite d =>
      simp only [ScalarType.read, ScalarType.write, DoubleFormat.numbers, fmt.parse_toText,
        Option.map_some]
    | nan => exact absurd h (by simp [ScalarType.writable])
    | positiveInfinity => exact absurd h (by simp [ScalarType.writable])
    | negativeInfinity => exact absurd h (by simp [ScalarType.writable])
  | string => rfl

theorem readAxesDef_write (v : AdapterDatumAxesDef (Double D)) :
    readAxesDef fmt.numbers (writeAxesDef fmt v) = some v := by
  have hfields : ∀ (f : AxesField) (v : f.type.Value (Double D)),
      f.type.read fmt.numbers (f.type.write fmt v) = some v := by
    intro f v
    refine f.type.read_write fmt v ?_
    cases f <;> rfl
  show (axesSchema.readMembers _ (axesSchema.writeMembers _ v) fun _ => none).bind axesSchema.full
    = some v
  rw [axesSchema.readMembers_writeMembers hfields, Option.bind_some]
  exact axesSchema.full_eq_some_iff.mpr fun f => rfl

/-- An array written element by element is read back. -/
theorem mapM_map_of_inverse {A B : Type} {write : A → B} {read : B → Option A} {vs : List A}
    (h : ∀ v ∈ vs, read (write v) = some v) : (vs.map write).mapM read = some vs := by
  refine mapM_eq_some_iff.mpr ?_
  induction vs with
  | nil => exact .nil
  | cons v vs ih =>
    exact .cons (h v List.mem_cons_self) (ih fun w hw => h w (List.mem_cons_of_mem v hw))

theorem kept_of_keep {t : AvroType} {v : Option (t.Value (Double D))}
    {w : Option (t.column.Value (Double D))} (h : t.keep fmt v = some w) : t.Kept fmt v w := by
  match t, v with
  | .scalar t, v => exact (Option.some.inj h).symm
  | .array t, none => exact (Option.some.inj h).symm
  | .array t, some [] => exact (Option.some.inj h).symm
  | .array t, some (v :: vs) =>
    have hall : (v :: vs).all t.writable = true :=
      (arrayText_isSome_iff fmt t (some (v :: vs))).mp (Option.isSome_iff_exists.mpr ⟨w, h⟩)
    simp only [AvroType.keep, AvroType.arrayText, AvroType.writeElems, if_pos hall, List.map_cons]
      at h
    refine ⟨_, (Option.some.inj h).symm, ?_⟩
    rw [ParsesTo, Json.parse_print, Option.bind_some]
    exact @mapM_map_of_inverse _ _ _ _ (v :: vs) fun v hv =>
      t.read_write fmt v (List.all_eq_true.mp hall v hv)
  | .axes, none => exact (Option.some.inj h).symm
  | .axes, some [] => exact (Option.some.inj h).symm
  | .axes, some (v :: vs) =>
    refine ⟨_, (Option.some.inj h).symm, ?_⟩
    rw [ParsesTo, Json.parse_print, Option.bind_some]
    exact @mapM_map_of_inverse _ _ _ _ (v :: vs) fun v _ => readAxesDef_write fmt v

/-! ## What is lost -/

/-- Every column is its field, every duration column its duration. -/
def Lossless (x : Input D) : Prop :=
  ∃ out, transform fmt x = some (x.machineID, out) ∧
    (out .machine_id = some x.machineID ∧ out .offset = some x.offset ∧
      out .timestamp = some x.timestamp ∧ out .partition = some x.partition) ∧
    (∀ f : ValuesField, f.type.Kept fmt (x.datum.values f) (out (.value f))) ∧
    ∀ k : MetaColumn, out (.duration k) = x.datum.metaMap k.name.toList

/-- The inputs agree on the field a column is for. -/
def SameSource (x y : Input D) : SerField → Prop
  | .machine_id => x.machineID = y.machineID
  | .offset => x.offset = y.offset
  | .timestamp => x.timestamp = y.timestamp
  | .partition => x.partition = y.partition
  | .value f => x.datum.values f = y.datum.values f
  | .duration k => x.datum.metaMap k.name.toList = y.datum.metaMap k.name.toList

/-- No column depends on anything but the field it is for. -/
def Independent (x y : Input D) : Prop :=
  ∀ c, SameSource x y c →
    (transform fmt x).map (fun row => row.2 c) = (transform fmt y).map fun row => row.2 c

/-- The two fields the slip mixes up agree, and the arrays can be written. -/
structure Survives (d : AdapterDatum (Double D)) : Prop where
  finite : FiniteArrays d
  cycle_time : d.values .cycle_time = d.metaMap "cyle_time".toList
  no_duration : d.metaMap "cycle_time".toList = none

theorem transform_eq_some_iff {x : Input D} {out : AdapterDatumSer D} :
    transform fmt x = some (x.machineID, out) ↔ convertAdapterDatum fmt x = some out := by
  simp [transform]

/-- One datum comes through whole exactly then. -/
theorem lossless_iff (x : Input D) : Lossless fmt x ↔ Survives x.datum := by
  constructor
  · intro h
    obtain ⟨out, hout, -, hvalues, hdurations⟩ := h
    rw [transform_eq_some_iff] at hout
    have hconv := convert_converts fmt hout
    have hcycle : out (.value .cycle_time) = x.datum.values .cycle_time := hvalues .cycle_time
    refine ⟨(convert_isSome_iff fmt x).mp (by rw [hout]; rfl), ?_, ?_⟩
    · rw [← hcycle, hconv.cycle_time]
    · rw [← hconv.meta_cycle_time]
      exact (hdurations .cycle_time).symm
  · intro h
    obtain ⟨out, hout⟩ := Option.isSome_iff_exists.mp ((convert_isSome_iff fmt x).mpr h.finite)
    have hconv := convert_converts fmt hout
    refine ⟨out, (transform_eq_some_iff fmt).mpr hout,
      ⟨hconv.machine_id, hconv.offset, hconv.timestamp, hconv.partition⟩,
      fun f => ?_, fun k => ?_⟩
    · by_cases hf : f = .cycle_time
      · subst hf
        exact hconv.cycle_time.trans h.cycle_time.symm
      · exact kept_of_keep fmt (hconv.value f hf)
    · by_cases hk : k = .cycle_time
      · subst hk
        exact hconv.meta_cycle_time.trans h.no_duration.symm
      · exact hconv.duration k hk

/-- Of data that come through, no column depends on another field. -/
theorem independent_of_survives {x y : Input D} (hx : Survives x.datum) (hy : Survives y.datum) :
    Independent fmt x y := by
  intro c hc
  obtain ⟨out, hout⟩ := Option.isSome_iff_exists.mp ((convert_isSome_iff fmt x).mpr hx.finite)
  obtain ⟨out', hout'⟩ := Option.isSome_iff_exists.mp ((convert_isSome_iff fmt y).mpr hy.finite)
  have hconv := convert_converts fmt hout
  have hconv' := convert_converts fmt hout'
  rw [(transform_eq_some_iff fmt).mpr hout, (transform_eq_some_iff fmt).mpr hout',
    Option.map_some, Option.map_some, Option.some.injEq]
  show out c = out' c
  cases c with
  | machine_id => rw [hconv.machine_id, hconv'.machine_id, show x.machineID = _ from hc]
  | offset => rw [hconv.offset, hconv'.offset, show x.offset = _ from hc]
  | timestamp => rw [hconv.timestamp, hconv'.timestamp, show x.timestamp = _ from hc]
  | partition => rw [hconv.partition, hconv'.partition, show x.partition = _ from hc]
  | value f =>
    by_cases hf : f = .cycle_time
    · subst hf
      rw [hconv.cycle_time, hconv'.cycle_time, ← hx.cycle_time, ← hy.cycle_time]
      exact hc
    · have hkeep := hconv.value f hf
      rw [show x.datum.values f = _ from hc, hconv'.value f hf] at hkeep
      exact (Option.some.inj hkeep).symm
  | duration k =>
    by_cases hk : k = .cycle_time
    · subst hk
      rw [hconv.meta_cycle_time, hconv'.meta_cycle_time]
    · rw [hconv.duration k hk, hconv'.duration k hk]
      exact hc

/-- **When `convertAdapterDatum` loses nothing**: two data come through whole, and
without a column of one depending on another field, iff in both the arrays hold
numbers only, `values.cycle_time` is what `meta` has under `cyle_time`, and `meta`
has nothing under `cycle_time`. -/
theorem convert_lossless_iff (x y : Input D) :
    (Lossless fmt x ∧ Lossless fmt y ∧ Independent fmt x y) ↔
      Survives x.datum ∧ Survives y.datum := by
  rw [lossless_iff, lossless_iff]
  exact ⟨fun h => ⟨h.1, h.2.1⟩, fun h => ⟨h.1, h.2, independent_of_survives fmt h.1 h.2⟩⟩

end

/-! ## A sample row -/

/-- The doubles 0.0 to 0.9, as Java prints them. -/
def tenths : DoubleFormat (Fin 10) where
  toText n := ⟨['0', '.', Nat.digitChar n], by revert n; decide⟩
  parse x := (List.finRange 10).find? fun n => ['0', '.', Nat.digitChar n] = x.text
  parse_toText := by decide

/-- A cycle of one minute, read in 12 microseconds. -/
def sampleCycle : Input (Fin 10) where
  machineID := "M1".toList
  datum :=
    { values := fun
        | .cycle_time => some (60000 : Int64)
        | .load => some ([20] : List Int32)
        | .actual => some ([.finite 5] : List (Double (Fin 10)))
        | _ => none
      metaMap := fun k => if k = "cycle_time".toList then some 12 else none }
  offset := 7
  timestamp := 1000
  partition := 0

/-- Both columns of the cycle time are null. -/
theorem convert_loses_cycle_time :
    (convertAdapterDatum tenths sampleCycle).map
        (fun out => ((out (.value .cycle_time) : Option Int64),
          (out (.duration .cycle_time) : Option Int64)))
      = some (none, none) ∧
    ¬Lossless tenths sampleCycle := by
  refine ⟨by decide +kernel, fun h => ?_⟩
  have hsurvives := (lossless_iff tenths sampleCycle).mp h
  exact absurd hsurvives.no_duration (by decide)

/-- A record without a cycle time, read before the part count moved. -/
def sampleIdle : Input (Fin 10) :=
  { sampleCycle with
    datum :=
      { values := fun
          | .load => some ([20] : List Int32)
          | .actual => some ([.finite 5] : List (Double (Fin 10)))
          | _ => none
        metaMap := fun k => if k = "total".toList then some 900 else none } }

theorem convert_keeps_idle : Lossless tenths sampleIdle := by
  have hsurvives : Survives sampleIdle.datum :=
    { finite := fun f => by cases f <;> trivial
      cycle_time := rfl
      no_duration := rfl }
  exact ((convert_lossless_iff tenths sampleIdle sampleIdle).mpr ⟨hsurvives, hsurvives⟩).1

end FanucDriver.Streams
