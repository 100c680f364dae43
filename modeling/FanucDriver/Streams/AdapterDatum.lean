import FanucDriver.Lib.Record

/-!
# `AdapterDatum`: the record type of the input stream

`AdapterDatum.avsc` gives every member of the driver's message a type;
`gson.fromJson(str, AdapterDatum::class.java)` reads a message into the record.

`ValuesField` and `AxesField` are the fields of `AdapterDatumValues` and
`AdapterDatumAxesDef` in the order of the schema, `decl` their names and types.
The records are functions from fields, so that one statement covers them all.

Mirroring notes:
- A record arrives as bytes. `Serdes.String` decodes them as UTF-8 and puts U+FFFD where they are
  not (`Lib.Utf8`); what is read here are the strings it makes of them.
- A Java `double` is a type parameter `D`, and `Numbers` says how a JSON number
  is read as an integer and as a double. A number with a fractional part, or one
  out of range, is refused where the schema has `int` or `long`.
- The numbers of the driver's text are the exact ones. They stand for the doubles it prints
  where those are finite and the numbers whole together: `LoadDecimals`, `DivisorsInRange`.
- Gson also converts between quoted and plain numbers; the driver's strings and
  numbers never stand for each other, and the model refuses both ways.
- A nullable field is `none` when its member is missing or `null`. A map with two
  members of one name is refused.
- An element of `axes` has no nullable field: without one of the nine members it
  is not a value of its record type.
-/

namespace FanucDriver.Streams

open FanucDriver.Lib

/-! ## Types -/

/-- A Java string. -/
abbrev JString := List Char

inductive ScalarType where
  | int
  | long
  | double
  | string
  deriving DecidableEq

abbrev ScalarType.Value (D : Type) : ScalarType → Type
  | int => Int32
  | long => Int64
  | double => D
  | string => JString

/-- The fields of `AdapterDatumAxesDef`. -/
inductive AxesField where
  | id | name | index | suffix | divisor | flag | unit | unith | decimal
  deriving DecidableEq

def AxesField.decl : AxesField → String × ScalarType
  | id => ("id", .string)
  | name => ("name", .string)
  | index => ("index", .int)
  | suffix => ("suffix", .string)
  | divisor => ("divisor", .long)
  | flag => ("flag", .int)
  | unit => ("unit", .int)
  | unith => ("unith", .string)
  | decimal => ("decimal", .int)

abbrev AxesField.type (f : AxesField) : ScalarType := f.decl.2

/-- `AdapterDatumAxesDef` -/
abbrev AdapterDatumAxesDef (D : Type) := (f : AxesField) → f.type.Value D

inductive AvroType where
  | scalar (t : ScalarType)
  | array (items : ScalarType)
  | axes
  deriving DecidableEq

abbrev AvroType.Value (D : Type) : AvroType → Type
  | scalar t => t.Value D
  | array t => List (t.Value D)
  | axes => List (AdapterDatumAxesDef D)

/-- The fields of `AdapterDatumValues`. -/
inductive ValuesField where
  | max_axis | addinfo | cnc_type | mt_type | series | version | axes_count_chk | axes_count
  | ether_type | ether_device | axes | alarm | hdck | tool_group | message_number
  | message_text | mprogram | part_count | mode | estop | aut | emergency | run | execution
  | tool_id | sequence | cprogram | program_number | program_header | mstb | edit | block
  | motion | actf | acts | actual | relative | absolute | load | block_num | cycle_time
  | program_name | program_path | program | program_size
  deriving DecidableEq

def ValuesField.decl : ValuesField → String × AvroType
  | max_axis => ("max_axis", .scalar .int)
  | addinfo => ("addinfo", .scalar .int)
  | cnc_type => ("cnc_type", .scalar .string)
  | mt_type => ("mt_type", .scalar .string)
  | series => ("series", .scalar .string)
  | version => ("version", .scalar .string)
  | axes_count_chk => ("axes_count_chk", .scalar .string)
  | axes_count => ("axes_count", .scalar .int)
  | ether_type => ("ether_type", .scalar .int)
  | ether_device => ("ether_device", .scalar .int)
  | axes => ("axes", .axes)
  | alarm => ("alarm", .scalar .int)
  | hdck => ("hdck", .scalar .int)
  | tool_group => ("tool_group", .scalar .int)
  | message_number => ("message_number", .scalar .int)
  | message_text => ("message_text", .scalar .string)
  | mprogram => ("mprogram", .scalar .int)
  | part_count => ("part_count", .scalar .long)
  | mode => ("mode", .scalar .string)
  | estop => ("estop", .scalar .string)
  | aut => ("aut", .scalar .int)
  | emergency => ("emergency", .scalar .int)
  | run => ("run", .scalar .int)
  | execution => ("execution", .scalar .string)
  | tool_id => ("tool_id", .scalar .int)
  | sequence => ("sequence", .scalar .int)
  | cprogram => ("cprogram", .scalar .int)
  | program_number => ("program_number", .scalar .int)
  | program_header => ("program_header", .scalar .string)
  | mstb => ("mstb", .scalar .int)
  | edit => ("edit", .scalar .int)
  | block => ("block", .scalar .string)
  | motion => ("motion", .scalar .int)
  | actf => ("actf", .scalar .long)
  | acts => ("acts", .scalar .long)
  | actual => ("actual", .array .double)
  | relative => ("relative", .array .double)
  | absolute => ("absolute", .array .double)
  | load => ("load", .array .int)
  | block_num => ("block_num", .scalar .long)
  | cycle_time => ("cycle_time", .scalar .long)
  | program_name => ("program_name", .scalar .string)
  | program_path => ("program_path", .scalar .string)
  | program => ("program", .scalar .string)
  | program_size => ("program_size", .scalar .long)

abbrev ValuesField.type (f : ValuesField) : AvroType := f.decl.2

/-- `AdapterDatumValues`: every field is nullable. -/
abbrev AdapterDatumValues (D : Type) := (f : ValuesField) → Option (f.type.Value D)

structure AdapterDatum (D : Type) where
  values : AdapterDatumValues D
  metaMap : JString → Option Int64

def axesSchema : Schema AxesField where
  fields := [.id, .name, .index, .suffix, .divisor, .flag, .unit, .unith, .decimal]
  name f := f.decl.1.toList
  mem_fields f := by cases f <;> decide
  names_nodup := by decide +kernel

def valuesSchema : Schema ValuesField where
  fields :=
    [.max_axis, .addinfo, .cnc_type, .mt_type, .series, .version, .axes_count_chk, .axes_count,
     .ether_type, .ether_device, .axes, .alarm, .hdck, .tool_group, .message_number,
     .message_text, .mprogram, .part_count, .mode, .estop, .aut, .emergency, .run, .execution,
     .tool_id, .sequence, .cprogram, .program_number, .program_header, .mstb, .edit, .block,
     .motion, .actf, .acts, .actual, .relative, .absolute, .load, .block_num, .cycle_time,
     .program_name, .program_path, .program, .program_size]
  name f := f.decl.1.toList
  mem_fields f := by cases f <;> decide
  names_nodup := by decide +kernel

/-! ## Reading -/

/-- How a JSON number is read. -/
structure Numbers (N D : Type) where
  int? : N → Option Int
  double? : N → Option D

def int32? (n : Int) : Option Int32 :=
  if (Int32.ofInt n).toInt = n then some (Int32.ofInt n) else none

def int64? (n : Int) : Option Int64 :=
  if (Int64.ofInt n).toInt = n then some (Int64.ofInt n) else none

theorem int32?_eq_some_iff {n : Int} {v : Int32} : int32? n = some v ↔ v.toInt = n := by
  unfold int32?
  split
  next h =>
    exact ⟨fun hv => by rw [← Option.some.inj hv, h], fun hv => by rw [← hv, Int32.ofInt_toInt]⟩
  next h =>
    refine ⟨fun hv => absurd hv (by simp), fun hv => absurd ?_ h⟩
    rw [← hv, Int32.ofInt_toInt]

theorem int64?_eq_some_iff {n : Int} {v : Int64} : int64? n = some v ↔ v.toInt = n := by
  unfold int64?
  split
  next h =>
    exact ⟨fun hv => by rw [← Option.some.inj hv, h], fun hv => by rw [← hv, Int64.ofInt_toInt]⟩
  next h =>
    refine ⟨fun hv => absurd hv (by simp), fun hv => absurd ?_ h⟩
    rw [← hv, Int64.ofInt_toInt]

section
variable {N D : Type} (num : Numbers N D)

def ScalarType.read : (t : ScalarType) → Json N → Option (t.Value D)
  | int, .number x => (num.int? x).bind int32?
  | long, .number x => (num.int? x).bind int64?
  | double, .number x => num.double? x
  | string, .string s => some s
  | _, _ => none

/-- An element of `axes`. -/
def readAxesDef : Json N → Option (AdapterDatumAxesDef D)
  | .object ms =>
    (axesSchema.readMembers (fun f => f.type.read num) ms fun _ => none).bind axesSchema.full
  | _ => none

def AvroType.read : (t : AvroType) → Json N → Option (t.Value D)
  | scalar t, j => t.read num j
  | array t, .array js => js.mapM (t.read num)
  | axes, .array js => js.mapM (readAxesDef num)
  | _, _ => none

/-- A nullable field. -/
def AvroType.readNullable (t : AvroType) : Json N → Option (Option (t.Value D))
  | .null => some none
  | j => (t.read num j).map some

def readValues : Json N → Option (AdapterDatumValues D)
  | .object ms =>
    (valuesSchema.readMembers (fun f => f.type.readNullable num) ms fun _ => none).map
      fun r f => (r f).join
  | _ => none

/-- `Map<String, Long>` -/
def readMap : Json N → Option (JString → Option Int64)
  | .object ms =>
    if (ms.map Prod.fst).Nodup ∧ ∀ m ∈ ms, (ScalarType.long.read num m.2).isSome then
      some fun k => (overlay ms k).bind (ScalarType.long.read num)
    else none
  | _ => none

/-- The two fields of `AdapterDatum`. -/
inductive DatumField where
  | values
  | metaMap
  deriving DecidableEq

abbrev DatumField.Value (D : Type) : DatumField → Type
  | values => AdapterDatumValues D
  | metaMap => JString → Option Int64

def AdapterDatum.field {D : Type} (d : AdapterDatum D) : (f : DatumField) → f.Value D
  | .values => d.values
  | .metaMap => d.metaMap

def DatumField.read : (f : DatumField) → Json N → Option (f.Value D)
  | values, j => readValues num j
  | metaMap, j => readMap num j

def datumSchema : Schema DatumField where
  fields := [.values, .metaMap]
  name
    | .values => "values".toList
    | .metaMap => "meta".toList
  mem_fields f := by cases f <;> decide
  names_nodup := by decide

/-- `gson.fromJson(str, AdapterDatum::class.java)` -/
def fromJson : Json N → Option (AdapterDatum D)
  | .object ms => do
    let r ← datumSchema.readMembers (fun f => f.read num) ms fun _ => none
    let v ← datumSchema.full r
    some { values := v .values, metaMap := v .metaMap }
  | _ => none

end

end FanucDriver.Streams
