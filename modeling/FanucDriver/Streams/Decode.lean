import FanucDriver.Driver.Serialize
import FanucDriver.Streams.AdapterDatum
import Mathlib.Tactic.Linarith

/-!
# Does the input stream read what the driver writes?

`Serdes.String` decodes the bytes of a record as UTF-8, and puts U+FFFD where they are not.
Then `AdapterDatum.avsc` types every member the driver writes, except `id`, which no field
is named after. A message is preserved when it is read, and every field and every duration
is the last value the driver wrote under its name; a text is when it encodes as the bytes
that were written.

`preserved_iff`: whether a message is read depends on its numbers alone (`Readable`), and
then it is preserved iff its texts are UTF-8.
-/

namespace FanucDriver.Streams

open FanucDriver.Lib FanucDriver.Driver

/-! ## `Serdes.String` -/

/-- The characters that the bytes of a text arrive as. -/
def received (s : CStr) : JString := Utf8.read s

/-- The bytes are those of a text. -/
def IsUtf8 (s : CStr) : Prop := Utf8.WellFormed (Utf8.bytes s)

theorem received_ascii (s : CStr) (h : Utf8.Ascii s) : received s = s := Utf8.read_eq h

theorem isUtf8_ascii (s : CStr) (h : Utf8.Ascii s) : IsUtf8 s := Utf8.wellFormed_ascii h

/-- **A record arrives with its strings decoded one by one**: decoding the text of an object
and parsing it comes to that, whatever its numbers are written like. -/
theorem parse_received (j : Json Json.Token) :
    Json.parse (received (Json.print cJsonStyle j)) = some (j.mapText received) :=
  cJsonStyle_bytewise.parse_read j

/-! ## Reading exact numbers -/

/-- The numbers of the driver's objects. -/
def rationals : Numbers ℚ ℚ where
  int? x := if x.den = 1 then some x.num else none
  double? := some

theorem rationals_int?_eq_some_iff {x : ℚ} {n : Int} : rationals.int? x = some n ↔ x = n := by
  simp only [rationals]
  split
  next h =>
    rw [Option.some.injEq]
    exact ⟨fun hn => by rw [← hn, Rat.coe_int_num_of_den_eq_one h],
      fun hx => by rw [hx, Rat.num_intCast]⟩
  next h =>
    refine ⟨fun hn => absurd hn (by simp), fun hx => absurd ?_ h⟩
    rw [hx, Rat.den_intCast]

/-! ## What is preserved -/

/-- The value of a field and the JSON value it was written as are the same. -/
def ScalarType.Same : (t : ScalarType) → t.Value ℚ → Json ℚ → Prop
  | int, n, j => j = .number n.toInt
  | long, n, j => j = .number n.toInt
  | double, x, j => j = .number x
  | string, s, j => ∃ written, j = .string written ∧ Utf8.encode s = Utf8.bytes written

/-- An element of `axes` holds each of its members. -/
def AxesDefSame (v : AdapterDatumAxesDef ℚ) (j : Json ℚ) : Prop :=
  ∃ ms, j = .object ms ∧ ∀ f, ∃ x, overlay ms (axesSchema.name f) = some x ∧ f.type.Same (v f) x

def AvroType.Same : (t : AvroType) → t.Value ℚ → Json ℚ → Prop
  | scalar t, v, j => t.Same v j
  | array t, vs, j => ∃ js, j = .array js ∧ List.Forall₂ t.Same vs js
  | axes, vs, j => ∃ js, j = .array js ∧ List.Forall₂ AxesDefSame vs js

/-- A number is read exactly as what was written. -/
theorem ScalarType.read_eq_some_iff {t : ScalarType} (ht : t ≠ .string) (j : Json ℚ)
    (v : t.Value ℚ) : t.read rationals j = some v ↔ t.Same v j := by
  cases t with
  | int =>
    cases j <;> simp only [ScalarType.read, ScalarType.Same, Option.bind_eq_some_iff,
      rationals_int?_eq_some_iff, int32?_eq_some_iff, reduceCtorEq]
    next x =>
      rw [Json.number.injEq]
      exact ⟨fun ⟨n, hx, hn⟩ => by rw [hx, hn], fun hx => ⟨_, hx, rfl⟩⟩
  | long =>
    cases j <;> simp only [ScalarType.read, ScalarType.Same, Option.bind_eq_some_iff,
      rationals_int?_eq_some_iff, int64?_eq_some_iff, reduceCtorEq]
    next x =>
      rw [Json.number.injEq]
      exact ⟨fun ⟨n, hx, hn⟩ => by rw [hx, hn], fun hx => ⟨_, hx, rfl⟩⟩
  | double => cases j <;> simp [ScalarType.read, ScalarType.Same, rationals]
  | string => exact absurd rfl ht

def ScalarUtf8 : Scalar → Prop
  | .string s => IsUtf8 s
  | _ => True

/-- The texts of a value, of an axis the last under each name. -/
def ValueUtf8 : Value → Prop
  | .scalar x => ScalarUtf8 x
  | .numbers _ => True
  | .axes data => ∀ datum ∈ data, ∀ k, ∀ x ∈ overlay datum k, ScalarUtf8 x

/-- What is read of a scalar is what was written, unless its bytes are of no text. -/
theorem ScalarType.same_iff_of_read {t : ScalarType} {x : Scalar} {v : t.Value ℚ}
    (h : t.read rationals (x.mapText received).json = some v) :
    t.Same v x.json ↔ ScalarUtf8 x := by
  cases x with
  | null => exact absurd h (by cases t <;> simp [Scalar.mapText, Scalar.json, ScalarType.read])
  | number q =>
    have ht : t ≠ .string := by
      rintro rfl
      exact absurd h (by simp [Scalar.mapText, Scalar.json, ScalarType.read])
    exact iff_of_true ((t.read_eq_some_iff ht _ _).mp h) trivial
  | string s =>
    cases t with
    | string =>
      obtain rfl : received s = v := Option.some.inj h
      refine Iff.trans ?_ Utf8.wellFormed_iff.symm
      exact ⟨fun ⟨written, hs, hv⟩ => by rwa [← Json.string.inj hs] at hv, fun hs => ⟨s, rfl, hs⟩⟩
    | _ => exact absurd h (by simp [Scalar.mapText, Scalar.json, ScalarType.read])

/-! ### The members of an axis -/

/-- The member named after a field. -/
def axesFieldKey : AxesField → AxisKey
  | .id => .id
  | .name => .name
  | .index => .index
  | .suffix => .suffix
  | .divisor => .divisor
  | .flag => .flag
  | .unit => .unit
  | .unith => .unith
  | .decimal => .decimal

theorem name_axesField (f : AxesField) : axesSchema.name f = (axesFieldKey f).text.toList := by
  cases f <;> rfl

theorem exists_axesField (k : AxisKey) : ∃ f, axesFieldKey f = k := by
  cases k with
  | id => exact ⟨.id, rfl⟩
  | name => exact ⟨.name, rfl⟩
  | index => exact ⟨.index, rfl⟩
  | suffix => exact ⟨.suffix, rfl⟩
  | divisor => exact ⟨.divisor, rfl⟩
  | flag => exact ⟨.flag, rfl⟩
  | unit => exact ⟨.unit, rfl⟩
  | unith => exact ⟨.unith, rfl⟩
  | decimal => exact ⟨.decimal, rfl⟩

theorem overlay_axisField (datum : List (AxisKey × Scalar)) (f : AxesField) :
    overlay (axisMembers datum) (axesSchema.name f)
      = (overlay datum (axesFieldKey f)).map Scalar.json := by
  rw [name_axesField]
  exact overlay_map AxisKey.text_injective (fun _ => Scalar.json) datum _

/-- Rewritten texts are under the same names. -/
theorem overlay_mapText (g : CStr → CStr) (datum : List (AxisKey × Scalar)) (k : AxisKey) :
    overlay (datum.map fun u => (u.1, u.2.mapText g)) k
      = (overlay datum k).map (Scalar.mapText g) :=
  overlay_map Function.injective_id (fun _ => Scalar.mapText g) datum k

/-- What is read of an axis. -/
theorem axesDefSame_iff_of_read {datum : List (AxisKey × Scalar)} {v : AdapterDatumAxesDef ℚ}
    (h : readAxesDef rationals
      (.object (axisMembers (datum.map fun u => (u.1, u.2.mapText received)))) = some v) :
    AxesDefSame v (.object (axisMembers datum)) ↔
      ∀ k, ∀ x ∈ overlay datum k, ScalarUtf8 x := by
  -- every member is there and was read
  have hread : ∀ f, ∃ x, overlay datum (axesFieldKey f) = some x ∧
      f.type.read rationals (x.mapText received).json = some (v f) := by
    intro f
    obtain ⟨r, hr, hfull⟩ := Option.bind_eq_some_iff.mp h
    have hf := ((axesSchema.readMembers_eq_some_iff _ _ _ _).mp hr).2 f
    rw [axesSchema.full_eq_some_iff.mp hfull f, Option.or_none, eq_comm, overlay_axisField,
      overlay_mapText, Option.map_map, Option.bind_eq_some_iff] at hf
    obtain ⟨j, hj, hv⟩ := hf
    obtain ⟨x, hx, rfl⟩ := Option.map_eq_some_iff.mp hj
    exact ⟨x, hx, hv⟩
  constructor
  · intro hsame k x hx
    obtain ⟨f, rfl⟩ := exists_axesField k
    obtain ⟨y, hy, hv⟩ := hread f
    obtain rfl := Option.some.inj (hy.symm.trans hx)
    obtain ⟨ms, hms, hfields⟩ := hsame
    obtain ⟨j, hj, hjs⟩ := hfields f
    rw [← Json.object.inj hms, overlay_axisField, hy] at hj
    obtain rfl := Option.some.inj hj
    exact (ScalarType.same_iff_of_read hv).mp hjs
  · intro hutf8
    refine ⟨_, rfl, fun f => ?_⟩
    obtain ⟨x, hx, hv⟩ := hread f
    exact ⟨x.json, by rw [overlay_axisField, hx]; rfl,
      (ScalarType.same_iff_of_read hv).mpr (hutf8 _ x hx)⟩

/-- Axis by axis. -/
theorem axesSame_iff {data : List (List (AxisKey × Scalar))} {vs : List (AdapterDatumAxesDef ℚ)}
    (h : List.Forall₂ (fun datum v => readAxesDef rationals
      (.object (axisMembers (datum.map fun u => (u.1, u.2.mapText received)))) = some v) data vs) :
    AvroType.axes.Same vs (Value.axes data).json ↔ ValueUtf8 (.axes data) := by
  have hsame : AvroType.axes.Same vs (Value.axes data).json ↔
      List.Forall₂ (fun datum v => AxesDefSame v (.object (axisMembers datum))) data vs := by
    constructor
    · intro hs
      obtain ⟨js, hjs, hall⟩ := hs
      rw [← Json.array.inj hjs, List.forall₂_map_right_iff] at hall
      exact hall.flip
    · intro hall
      exact ⟨_, rfl, List.forall₂_map_right_iff.mpr hall.flip⟩
  rw [hsame]
  clear hsame
  induction h with
  | nil => exact iff_of_true .nil fun _ hd => absurd hd List.not_mem_nil
  | cons hread _ ih =>
    refine List.forall₂_cons.trans ((and_congr (axesDefSame_iff_of_read hread) ih).trans ?_)
    exact (List.forall_mem_cons
      (p := fun datum => ∀ k, ∀ x ∈ overlay datum k, ScalarUtf8 x)).symm

/-- What is read of a value is what was written, where its texts are UTF-8. -/
theorem AvroType.same_iff_of_read {t : AvroType} {x : Driver.Value} {v : t.Value ℚ}
    (h : t.read rationals (x.mapText received).json = some v) :
    t.Same v x.json ↔ ValueUtf8 x := by
  cases t with
  | scalar t =>
    cases x with
    | scalar x => exact ScalarType.same_iff_of_read h
    | numbers xs => exact absurd h (by cases t <;> simp [Value.mapText, Value.json, AvroType.read,
        ScalarType.read])
    | axes data => exact absurd h (by cases t <;> simp [Value.mapText, Value.json, AvroType.read,
        ScalarType.read])
  | array t =>
    cases x with
    | scalar x => exact absurd h (by cases x <;> simp [Value.mapText, Scalar.mapText, Value.json,
        Scalar.json, AvroType.read])
    | numbers xs =>
      refine iff_of_true ⟨_, rfl, ?_⟩ trivial
      have hall := (List.forall₂_map_left_iff.mp (mapM_eq_some_iff.mp h)).imp fun q w hq =>
        (ScalarType.same_iff_of_read (x := .number q) hq).mpr trivial
      exact (List.forall₂_map_left_iff.mpr hall).flip
    | axes data =>
      -- no axis is a number
      cases data with
      | nil =>
        obtain rfl := (Option.some.inj h).symm
        exact iff_of_true ⟨[], rfl, .nil⟩ fun _ hd => absurd hd List.not_mem_nil
      | cons datum data =>
        obtain ⟨w, ws, hw, -, -⟩ := List.forall₂_cons_left_iff.mp (mapM_eq_some_iff.mp h)
        exact absurd hw (by cases t <;> simp [ScalarType.read])
  | axes =>
    cases x with
    | scalar x => exact absurd h (by cases x <;> simp [Value.mapText, Scalar.mapText, Value.json,
        Scalar.json, AvroType.read])
    | numbers xs =>
      cases xs with
      | nil =>
        obtain rfl := (Option.some.inj h).symm
        exact iff_of_true ⟨[], rfl, .nil⟩ trivial
      | cons q xs =>
        obtain ⟨w, ws, hw, -, -⟩ := List.forall₂_cons_left_iff.mp (mapM_eq_some_iff.mp h)
        exact absurd hw (by simp [readAxesDef])
    | axes data =>
      have hall : List.Forall₂ (fun datum w => readAxesDef rationals (.object (axisMembers
          (datum.map fun u => (u.1, u.2.mapText received)))) = some w) data v := by
        have hread := mapM_eq_some_iff.mp h
        rw [List.map_map, List.forall₂_map_left_iff] at hread
        exact hread
      exact axesSame_iff hall

/-! ## Messages -/

/-- What a field shows of the last value written under its name: nothing of a
missing or null member, otherwise the same value. -/
def FieldShows (f : ValuesField) (v : Option (f.type.Value ℚ)) : Option (Json ℚ) → Prop
  | none => v = none
  | some .null => v = none
  | some j => ∃ x, v = some x ∧ f.type.Same x j

/-- The message is read, and nothing the schema names is changed. -/
def Preserved (m : Message) : Prop :=
  ∃ d : AdapterDatum ℚ, fromJson rationals (m.json.mapText received) = some d ∧
    (∀ f, FieldShows f (d.values f) (overlay (valuesMembers m.values) (valuesSchema.name f))) ∧
    ∀ k, (d.metaMap k).map (fun n => (.number n.toInt : Json ℚ)) = overlay (metaMembers m.metaMap) k

/-- A member is readable when no field is named after it, or its value is of the
field's type. -/
def Readable (u : Key × Value) : Prop :=
  ∀ f : ValuesField, valuesSchema.name f = u.1.text.toList →
    (f.type.readNullable rationals u.2.json).isSome

/-- The texts of the last value of each member that a field is named after. -/
def TextsUtf8 (m : Message) : Prop :=
  ∀ f : ValuesField, ∀ k : Key, valuesSchema.name f = k.text.toList →
    ∀ x ∈ overlay m.values k, ValueUtf8 x

/-- The driver's object is read as its two parts. -/
theorem fromJson_message {D : Type} (num : Numbers ℚ D) (m : Message) :
    fromJson num m.json =
      (readValues num (.object (valuesMembers m.values))).bind fun values =>
      (readMap num (.object (metaMembers m.metaMap))).map fun metaMap =>
        { values := values, metaMap := metaMap } := by
  have hvalues : datumSchema.find "values".toList = some .values := datumSchema.find_name .values
  have hmeta : datumSchema.find "meta".toList = some .metaMap := datumSchema.find_name .metaMap
  simp only [Message.json, fromJson, Schema.readMembers, hvalues, hmeta, DatumField.read]
  cases readValues num (.object (valuesMembers m.values)) with
  | none => rfl
  | some values =>
    cases readMap num (.object (metaMembers m.metaMap)) with
    | none => rfl
    | some metaMap =>
      -- both fields are there
      have hfull := (datumSchema.full_eq_some_iff (r := Function.update (Function.update
        (fun _ => none) .values (some values)) .metaMap (some metaMap))
        (v := AdapterDatum.field ⟨values, metaMap⟩)).mpr fun f => by cases f <;> rfl
      simp only [Option.bind_eq_bind, Option.bind_some, hfull, Option.map_some]
      rfl

/-- The object `values` is read iff each member under a field's name is; a field is then what
its last member reads as. -/
theorem readValues_members_iff {D : Type} (num : Numbers ℚ D) (us : Updates)
    (v : AdapterDatumValues D) :
    readValues num (.object (valuesMembers us)) = some v ↔
      (∀ u ∈ us, ∀ f, valuesSchema.name f = u.1.text.toList →
        (f.type.readNullable num u.2.json).isSome) ∧
      ∀ f, v f = ((overlay (valuesMembers us) (valuesSchema.name f)).bind
        (f.type.readNullable num)).join := by
  rw [readValues, Option.map_eq_some_iff]
  simp only [valuesSchema.readMembers_eq_some_iff, Option.or_none]
  constructor
  · intro h
    obtain ⟨r, ⟨hreads, hr⟩, rfl⟩ := h
    exact ⟨fun u hu f hf => hreads _ (List.mem_map_of_mem hu) f hf, fun f => by simp only [hr]⟩
  · intro h
    obtain ⟨hreads, hv⟩ := h
    refine ⟨_, ⟨fun x hx f hf => ?_, fun f => rfl⟩, (funext hv).symm⟩
    obtain ⟨u, hu, rfl⟩ := List.mem_map.mp hx
    exact hreads u hu f hf

theorem readValues_eq_some_iff (us : Updates) (v : AdapterDatumValues ℚ) :
    readValues rationals (.object (valuesMembers us)) = some v ↔
      (∀ u ∈ us, Readable u) ∧
      ∀ f, v f = ((overlay (valuesMembers us) (valuesSchema.name f)).bind
        (f.type.readNullable rationals)).join :=
  readValues_members_iff rationals us v

/-! ### Rewritten texts -/

section
variable {D : Type} (num : Numbers ℚ D) (g : CStr → CStr)

theorem scalar_read_mapText_isSome_iff (t : ScalarType) (x : Scalar) :
    (t.read num (x.mapText g).json).isSome ↔ (t.read num x.json).isSome := by
  cases t <;> cases x <;> exact Iff.rfl

theorem readAxesDef_mapText_isSome_iff (datum : List (AxisKey × Scalar)) :
    (readAxesDef num (.object (axisMembers (datum.map fun u => (u.1, u.2.mapText g))))).isSome ↔
      (readAxesDef num (.object (axisMembers datum))).isSome := by
  refine (axesSchema.readFull_isSome_iff _ _).trans
    (Iff.trans ?_ (axesSchema.readFull_isSome_iff _ _).symm)
  refine and_congr ?_ (forall_congr' fun f => ?_)
  · unfold axisMembers
    rw [List.map_map, List.forall_mem_map, List.forall_mem_map]
    refine forall₂_congr fun u _ => forall₂_congr fun f _ => ?_
    exact scalar_read_mapText_isSome_iff num g f.type u.2
  · rw [overlay_axisField, overlay_axisField, overlay_mapText, Option.isSome_map,
      Option.isSome_map, Option.isSome_map]

theorem read_mapText_isSome_iff (t : AvroType) (x : Value) :
    (t.read num (x.mapText g).json).isSome ↔ (t.read num x.json).isSome := by
  cases x with
  | scalar x =>
    cases t with
    | scalar t => exact scalar_read_mapText_isSome_iff num g t x
    | array t => cases x <;> exact Iff.rfl
    | axes => cases x <;> exact Iff.rfl
  | numbers xs => exact Iff.rfl
  | axes data =>
    cases t with
    | scalar t => cases t <;> exact Iff.rfl
    | array t =>
      refine isSome_mapM_iff.trans (Iff.trans ?_ isSome_mapM_iff.symm)
      rw [List.map_map, List.forall_mem_map, List.forall_mem_map]
      refine forall₂_congr fun datum _ => ?_
      cases t <;> exact Iff.rfl
    | axes =>
      refine isSome_mapM_iff.trans (Iff.trans ?_ isSome_mapM_iff.symm)
      rw [List.map_map, List.forall_mem_map, List.forall_mem_map]
      exact forall₂_congr fun datum _ => readAxesDef_mapText_isSome_iff num g datum

/-- Whether a member is read does not depend on its texts. -/
theorem readNullable_mapText_isSome_iff (t : AvroType) (x : Value) :
    (t.readNullable num (x.mapText g).json).isSome ↔ (t.readNullable num x.json).isSome := by
  have hread := read_mapText_isSome_iff num g t x
  cases x with
  | scalar x =>
    cases x with
    | null => exact Iff.rfl
    | _ =>
      refine Iff.trans (Eq.to_iff (congrArg (· = true) Option.isSome_map)) (hread.trans ?_)
      exact (Eq.to_iff (congrArg (· = true) Option.isSome_map)).symm
  | _ =>
    refine Iff.trans (Eq.to_iff (congrArg (· = true) Option.isSome_map)) (hread.trans ?_)
    exact (Eq.to_iff (congrArg (· = true) Option.isSome_map)).symm

end

/-- The message that arrives. -/
theorem received_json (m : Message) : m.json.mapText received = (m.mapText received).json :=
  (Message.json_mapText received_ascii m).symm

theorem overlay_received (m : Message) (k : Key) :
    overlay (m.mapText received).values k = (overlay m.values k).map (Value.mapText received) :=
  overlay_map Function.injective_id (fun _ => Value.mapText received) m.values k

theorem received_readable_iff (m : Message) :
    (∀ u ∈ (m.mapText received).values, Readable u) ↔ ∀ u ∈ m.values, Readable u := by
  unfold Message.mapText
  rw [List.forall_mem_map]
  refine forall₂_congr fun u _ => forall₂_congr fun f _ => ?_
  exact readNullable_mapText_isSome_iff rationals received f.type u.2

/-- What a field shows of a value that arrives and can be read. -/
theorem fieldShows_iff (f : ValuesField) {x : Value}
    (h : (f.type.readNullable rationals (x.mapText received).json).isSome) :
    FieldShows f (f.type.readNullable rationals (x.mapText received).json).join (some x.json) ↔
      ValueUtf8 x := by
  obtain ⟨v, hv⟩ := Option.isSome_iff_exists.mp h
  rw [hv]
  cases x with
  | scalar x =>
    cases x with
    | null =>
      obtain rfl := (Option.some.inj hv).symm
      exact iff_of_true rfl trivial
    | _ =>
      obtain ⟨y, hy, rfl⟩ := Option.map_eq_some_iff.mp hv
      refine Iff.trans ?_ (AvroType.same_iff_of_read hy)
      exact ⟨fun ⟨z, hz, hs⟩ => Option.some.inj hz ▸ hs, fun hs => ⟨y, rfl, hs⟩⟩
  | _ =>
    obtain ⟨y, hy, rfl⟩ := Option.map_eq_some_iff.mp hv
    refine Iff.trans ?_ (AvroType.same_iff_of_read hy)
    exact ⟨fun ⟨z, hz, hs⟩ => Option.some.inj hz ▸ hs, fun hs => ⟨y, rfl, hs⟩⟩

/-! ### Durations -/

/-- A duration is a `long`. -/
theorem read_duration (tt : ULong) :
    ScalarType.long.read rationals (.number tt.toNat) = some (Int64.ofInt tt.toNat) := by
  refine (ScalarType.read_eq_some_iff (t := .long) (by decide) _ _).mpr ?_
  have hlt : tt.toNat < 2 ^ 32 := tt.toNat_lt
  show Json.number _ = Json.number _
  rw [Int64.toInt_ofInt_of_le (by omega) (by omega)]
  norm_cast

theorem readMap_metaMembers {us : Meta} (h : (us.map Prod.fst).Nodup) :
    ∃ r, readMap rationals (.object (metaMembers us)) = some r ∧
      ∀ k, (r k).map (fun n => (.number n.toInt : Json ℚ)) = overlay (metaMembers us) k := by
  have hkeys : ((metaMembers us).map Prod.fst).Nodup := by
    have := h.map MetaKey.text_injective
    simpa [metaMembers, Function.comp_def] using this
  have hreads : ∀ m ∈ metaMembers us, ∃ tt : ULong, m.2 = .number tt.toNat := by
    intro m hm
    obtain ⟨u, -, rfl⟩ := List.mem_map.mp hm
    exact ⟨u.2, rfl⟩
  have hsome : ∀ m ∈ metaMembers us, (ScalarType.long.read rationals m.2).isSome := by
    intro m hm
    obtain ⟨tt, htt⟩ := hreads m hm
    rw [htt, read_duration]
    rfl
  refine ⟨_, if_pos ⟨hkeys, hsome⟩, fun k => ?_⟩
  cases hk : overlay (metaMembers us) k with
  | none => rfl
  | some j =>
    obtain ⟨tt, rfl⟩ : ∃ tt : ULong, j = .number tt.toNat := hreads _ (overlay_mem hk)
    have hsame := (ScalarType.read_eq_some_iff (t := .long) (by decide) _ _).mp (read_duration tt)
    rw [Option.bind_some, read_duration, Option.map_some, hsame]

/-- **When a message is preserved**: without a duration of the same name twice, as
soon as every member is readable and the texts are UTF-8. -/
theorem preserved_iff {m : Message} (h : (m.metaMap.map Prod.fst).Nodup) :
    Preserved m ↔ (∀ u ∈ m.values, Readable u) ∧ TextsUtf8 m := by
  obtain ⟨metaMap, hread, hshows⟩ := readMap_metaMembers h
  -- what the fields hold, once the members are readable
  have hvalues : ∀ values : AdapterDatumValues ℚ,
      readValues rationals (.object (valuesMembers (m.mapText received).values)) = some values →
        ((∀ f, FieldShows f (values f) (overlay (valuesMembers m.values) (valuesSchema.name f))) ↔
          TextsUtf8 m) := by
    intro values hvalues
    obtain ⟨hreadable, hfields⟩ := (readValues_eq_some_iff _ _).mp hvalues
    have hkey : ∀ f : ValuesField, ∀ k : Key, valuesSchema.name f = k.text.toList →
        ∀ x ∈ overlay m.values k,
          (FieldShows f (values f) (overlay (valuesMembers m.values) (valuesSchema.name f)) ↔
            ValueUtf8 x) := by
      intro f k hk x hx
      have hx' : overlay (m.mapText received).values k = some (x.mapText received) := by
        rw [overlay_received, Option.mem_def.mp hx, Option.map_some]
      rw [hfields f, hk, overlay_valuesMembers, overlay_valuesMembers, hx', Option.mem_def.mp hx,
        Option.map_some, Option.map_some, Option.bind_some]
      exact fieldShows_iff f (hreadable _ (overlay_mem hx') f hk)
    constructor
    · intro hall f k hk x hx
      exact (hkey f k hk x hx).mp (hall f)
    · intro htexts f
      cases hj : overlay (valuesMembers m.values) (valuesSchema.name f) with
      | some j =>
        -- the member is one of the driver's keys
        obtain ⟨u, -, he⟩ := List.mem_map.mp (overlay_mem hj)
        have hname := (congrArg Prod.fst he).symm
        have hmember := hj
        rw [show valuesSchema.name f = u.1.text.toList from hname, overlay_valuesMembers] at hmember
        obtain ⟨x, hx, -⟩ := Option.map_eq_some_iff.mp hmember
        rw [← hj]
        exact (hkey f u.1 hname x hx).mpr (htexts f u.1 hname x hx)
      | none =>
        have hnone : overlay (valuesMembers (m.mapText received).values) (valuesSchema.name f)
            = none := by
          refine overlay_eq_none_iff.mpr fun w hw => ?_
          obtain ⟨u, hu, rfl⟩ := List.mem_map.mp hw
          obtain ⟨u', hu', rfl⟩ := List.mem_map.mp hu
          have hmem : (u'.1.text.toList, u'.2.json) ∈ valuesMembers m.values :=
            List.mem_map_of_mem hu'
          have hne := overlay_eq_none_iff.mp hj (u'.1.text.toList, u'.2.json) hmem
          exact hne
        rw [hfields f, hnone]
        rfl
  unfold Preserved
  rw [received_json, fromJson_message]
  constructor
  · intro hpreserved
    obtain ⟨d, hd, hfields, -⟩ := hpreserved
    obtain ⟨values, hv, hrest⟩ := Option.bind_eq_some_iff.mp hd
    obtain ⟨map, -, rfl⟩ := Option.map_eq_some_iff.mp hrest
    exact ⟨(received_readable_iff m).mp ((readValues_eq_some_iff _ _).mp hv).1,
      (hvalues values hv).mp hfields⟩
  · intro hboth
    obtain ⟨hall, htexts⟩ := hboth
    have hv := (readValues_eq_some_iff (m.mapText received).values _).mpr
      ⟨(received_readable_iff m).mpr hall, fun f => rfl⟩
    refine ⟨{ values := _, metaMap := metaMap }, ?_, (hvalues _ hv).mpr htexts, hshows⟩
    rw [hv, show (m.mapText received).metaMap = m.metaMap from rfl, hread]
    rfl

end FanucDriver.Streams
