import FanucDriver.Streams.Decode
import Mathlib.Tactic.Positivity
import Mathlib.Tactic.Ring
import Mathlib.Tactic.FieldSimp

/-!
# Which members of a message the input stream can read

Almost every value the driver writes is of the type the schema gives its member
whatever the control reports: shorts and longs under `int` and `long`, strings
under `string`. Two members are typed narrower than what `data.c` computes:

- `load` has `int` items, but a load is `data / 10^dec`;
- `divisor` in `axes` is a `long`, but a divisor is `10^inprec`.

This file says, guard by guard, which members are always readable, and for the two
others on which readings they are: `wholeReading_iff` for one load and
`pow_ten_long_iff` for one divisor.

Mirroring notes:
- Both are doubles. With `LoadDecimals` and `DivisorsInRange` the double is a whole `int` or
  `long` exactly when the number is. Beyond, `pow` rounds (a negative `dec`), underflows to a
  zero that is whole, or overflows: a load is then zero, and an infinite divisor is printed as
  `null`, which Gson leaves out of a `long`.
-/

namespace FanucDriver.Streams

open FanucDriver.Lib FanucDriver.Driver

/-! ## The type of each member -/

/-- The field named after a member. -/
def keyField : Key → Option ValuesField
  | .id => none
  | .max_axis => some .max_axis
  | .addinfo => some .addinfo
  | .cnc_type => some .cnc_type
  | .mt_type => some .mt_type
  | .series => some .series
  | .version => some .version
  | .axes_count_chk => some .axes_count_chk
  | .axes_count => some .axes_count
  | .ether_type => some .ether_type
  | .ether_device => some .ether_device
  | .axes => some .axes
  | .part_count => some .part_count
  | .cycle_time => some .cycle_time
  | .execution => some .execution
  | .mode => some .mode
  | .estop => some .estop
  | .alarm => some .alarm
  | .aut => some .aut
  | .edit => some .edit
  | .emergency => some .emergency
  | .hdck => some .hdck
  | .motion => some .motion
  | .mstb => some .mstb
  | .run => some .run
  | .tool_id => some .tool_id
  | .tool_group => some .tool_group
  | .absolute => some .absolute
  | .relative => some .relative
  | .actual => some .actual
  | .load => some .load
  | .cprogram => some .cprogram
  | .mprogram => some .mprogram
  | .sequence => some .sequence
  | .actf => some .actf
  | .acts => some .acts
  | .message_number => some .message_number
  | .message_text => some .message_text
  | .program_name => some .program_name
  | .program_path => some .program_path
  | .program_header => some .program_header
  | .program_size => some .program_size
  | .program => some .program
  | .block => some .block
  | .block_num => some .block_num

/-- Only `id` is unknown to the schema. -/
theorem find_key (k : Key) : valuesSchema.find k.text.toList = keyField k := by
  cases k <;> first | exact valuesSchema.find_eq_some_iff.mpr rfl | decide +kernel

theorem readable_unknown {k : Key} (hk : keyField k = none) (v : Value) : Readable (k, v) := by
  intro f hf
  rw [← find_key, valuesSchema.find_eq_none_iff] at hk
  exact absurd hf (hk f)

theorem readable_iff {k : Key} {f : ValuesField} (hk : keyField k = some f) (v : Value) :
    Readable (k, v) ↔ (f.type.readNullable rationals v.json).isSome := by
  rw [← find_key, valuesSchema.find_eq_some_iff] at hk
  constructor
  · exact fun h => h f hk
  · intro h g hg
    rwa [valuesSchema.name_injective (hg.trans hk.symm)]

/-- A number under an integer type is readable when the type holds it. -/
theorem readable_integer {k : Key} {f : ValuesField} (hk : keyField k = some f) {t : ScalarType}
    (ht : f.type = .scalar t) {x : ℚ} (h : (t.read rationals (.number x)).isSome) :
    Readable (k, .number x) := by
  rw [readable_iff hk, ht]
  exact (Option.isSome_map).trans h

theorem read_int (x : Long) : ScalarType.int.read rationals (.number x.toInt) = some x :=
  (ScalarType.read_eq_some_iff (t := .int) (by decide) _ _).mpr rfl

theorem read_long (x : Long) :
    ScalarType.long.read rationals (.number x.toInt) = some (Int64.ofInt x.toInt) := by
  refine (ScalarType.read_eq_some_iff (t := .long) (by decide) _ _).mpr ?_
  have hle := x.le_toInt
  have hlt := x.toInt_lt
  show Json.number _ = Json.number _
  rw [Int64.toInt_ofInt_of_le (by omega) (by omega)]

/-- A `long` of the driver fits both integer types. -/
theorem readable_long {k : Key} {f : ValuesField} (hk : keyField k = some f)
    (ht : f.type = .scalar .int ∨ f.type = .scalar .long) (x : Long) :
    Readable (k, .number x.toInt) := by
  rcases ht with ht | ht
  · exact readable_integer hk ht (by rw [read_int]; rfl)
  · exact readable_integer hk ht (by rw [read_long]; rfl)

/-- So does a `short`. -/
theorem readable_short {k : Key} {f : ValuesField} (hk : keyField k = some f)
    (ht : f.type = .scalar .int ∨ f.type = .scalar .long) (x : Short) :
    Readable (k, .number x.toInt) := by
  have h := readable_long hk ht x.toInt32
  rwa [Int16.toInt_toInt32] at h

theorem readable_string {k : Key} {f : ValuesField} (hk : keyField k = some f)
    (ht : f.type = .scalar .string) (s : CStr) : Readable (k, .string s) := by
  rw [readable_iff hk, ht]
  rfl

theorem readable_null {k : Key} {f : ValuesField} (hk : keyField k = some f) :
    Readable (k, .null) := by
  rw [readable_iff hk]
  rfl

theorem readable_doubles {k : Key} {f : ValuesField} (hk : keyField k = some f)
    (ht : f.type = .array .double) (xs : List ℚ) : Readable (k, .numbers xs) := by
  rw [readable_iff hk, ht]
  refine (Option.isSome_map).trans (isSome_mapM_iff.mpr fun j hj => ?_)
  obtain ⟨x, -, rfl⟩ := List.mem_map.mp hj
  rfl

/-- An array of loads is readable exactly when every load is a whole `int`. -/
theorem readable_loads_iff (xs : List ℚ) :
    Readable (.load, .numbers xs) ↔ ∀ x ∈ xs, ∃ n : Int32, x = n.toInt := by
  rw [readable_iff (f := .load) rfl]
  refine Iff.trans (Eq.to_iff (congrArg (· = true) Option.isSome_map)) ?_
  refine isSome_mapM_iff.trans ?_
  rw [List.forall_mem_map]
  refine forall₂_congr fun x _ => ?_
  rw [Option.isSome_iff_exists]
  refine exists_congr fun n => ?_
  rw [ScalarType.read_eq_some_iff (by decide)]
  exact ⟨fun h => Json.number.inj h, fun h => congrArg Json.number h⟩

/-! ## The guards -/

theorem emit_readable {S : Type} {gs : List (Guard S Key Value)}
    (h : ∀ g ∈ gs, ∀ v, Readable (g.key, g.value v)) (lv : Option S) (v : S) :
    ∀ u ∈ emit gs lv v, Readable u := by
  intro u hu
  obtain ⟨g, hg, -, rfl⟩ := mem_emit.mp hu
  exact h g hg v

theorem infoGuards_readable : ∀ g ∈ infoGuards, ∀ v, Readable (g.key, g.value v) := by
  simp only [infoGuards, List.forall_mem_cons]
  exact ⟨fun v => readable_unknown rfl _, fun v => readable_short rfl (.inl rfl) _,
    fun v => readable_short rfl (.inl rfl) _, fun v => readable_string rfl rfl _,
    fun v => readable_string rfl rfl _, fun v => readable_string rfl rfl _,
    fun v => readable_string rfl rfl _, fun v => readable_string rfl rfl _,
    fun v => readable_short rfl (.inl rfl) _, fun v => readable_short rfl (.inl rfl) _,
    fun v => readable_short rfl (.inl rfl) _, fun _ h => absurd h List.not_mem_nil⟩

theorem statusGuards_readable : ∀ g ∈ statusGuards, ∀ v, Readable (g.key, g.value v) := by
  simp only [statusGuards, List.forall_mem_cons]
  exact ⟨fun v => readable_string rfl rfl _, fun v => readable_string rfl rfl _,
    fun v => readable_string rfl rfl _, fun v => readable_short rfl (.inl rfl) _,
    fun v => readable_short rfl (.inl rfl) _, fun v => readable_short rfl (.inl rfl) _,
    fun v => readable_short rfl (.inl rfl) _, fun v => readable_short rfl (.inl rfl) _,
    fun v => readable_short rfl (.inl rfl) _, fun v => readable_short rfl (.inl rfl) _,
    fun v => readable_short rfl (.inl rfl) _, fun _ h => absurd h List.not_mem_nil⟩

theorem partCountGuard_readable :
    ∀ g ∈ [partCountGuard], ∀ v, Readable (g.key, g.value v) := by
  simp only [List.forall_mem_cons]
  exact ⟨fun v => readable_long rfl (.inr rfl) _, fun _ h => absurd h List.not_mem_nil⟩

theorem toolInfoGuards_readable : ∀ g ∈ toolInfoGuards, ∀ v, Readable (g.key, g.value v) := by
  simp only [toolInfoGuards, List.forall_mem_cons]
  exact ⟨fun v => readable_long rfl (.inl rfl) _, fun v => readable_long rfl (.inl rfl) _,
    fun _ h => absurd h List.not_mem_nil⟩

theorem blockGuards_readable : ∀ g ∈ blockGuards, ∀ v, Readable (g.key, g.value v) := by
  simp only [blockGuards, List.forall_mem_cons]
  exact ⟨fun v => readable_string rfl rfl _, fun v => readable_long rfl (.inr rfl) _,
    fun _ h => absurd h List.not_mem_nil⟩

theorem messageGuards_readable : ∀ g ∈ messageGuards, ∀ v, Readable (g.key, g.value v) := by
  simp only [messageGuards, List.forall_mem_cons]
  refine ⟨fun v => readable_short rfl (.inl rfl) _, fun v => ?_,
    fun _ h => absurd h List.not_mem_nil⟩
  show Readable (.message_text, if v.number ≠ -1 then .string v.text else .null)
  split
  · exact readable_string rfl rfl _
  · exact readable_null rfl

/-- The guard of the one member the schema types too narrowly. -/
def loadGuard : Guard MachineDynamic Key Value := axisArrayGuard .load (·.load)

theorem dynamicGuards_readable :
    ∀ g ∈ dynamicGuards, g = loadGuard ∨ ∀ v, Readable (g.key, g.value v) := by
  simp only [dynamicGuards, List.forall_mem_cons]
  exact ⟨.inr fun v => readable_doubles rfl rfl _, .inr fun v => readable_doubles rfl rfl _,
    .inr fun v => readable_doubles rfl rfl _, .inl rfl,
    .inr fun v => readable_short rfl (.inl rfl) _, .inr fun v => readable_short rfl (.inl rfl) _,
    .inr fun v => readable_short rfl (.inl rfl) _, .inr fun v => readable_short rfl (.inr rfl) _,
    .inr fun v => readable_short rfl (.inr rfl) _, .inr fun v => readable_short rfl (.inl rfl) _,
    fun _ h => absurd h List.not_mem_nil⟩

/-- The dynamic record adds readable members exactly when its loads are. -/
theorem dynamic_readable_iff (lv : Option MachineDynamic) (v : MachineDynamic) :
    (∀ u ∈ emit dynamicGuards lv v, Readable u) ↔ ∀ u ∈ emit [loadGuard] lv v, Readable u := by
  constructor
  · intro h u hu
    obtain ⟨g, hg, hf, rfl⟩ := mem_emit.mp hu
    obtain rfl := List.mem_singleton.mp hg
    exact h _ (mem_emit.mpr ⟨loadGuard, by simp [dynamicGuards, loadGuard], hf, rfl⟩)
  · intro h u hu
    obtain ⟨g, hg, hf, rfl⟩ := mem_emit.mp hu
    rcases dynamicGuards_readable g hg with rfl | hread
    · exact h _ (mem_emit.mpr ⟨loadGuard, List.mem_singleton.mpr rfl, hf, rfl⟩)
    · exact hread v

/-! ## Loads -/

/-- The loads of the axes below `dim` are of type `int`. -/
def WholeLoads (v : MachineDynamic) : Prop :=
  ∀ i < v.dim.toNatClampNeg, ∃ n : Int32, v.load i = n.toInt

/-- After a record with whole loads, the next one's loads are readable exactly
when they are whole: what is not sent again is what was whole before. -/
theorem load_readable_iff {lv : Option MachineDynamic} {v : MachineDynamic}
    (hlv : ∀ l ∈ lv, l.dim = v.dim ∧ WholeLoads l) :
    (∀ u ∈ emit [loadGuard] lv v, Readable u) ↔ WholeLoads v := by
  have hvalue : Readable (loadGuard.key, loadGuard.value v) ↔ WholeLoads v := by
    refine (readable_loads_iff _).trans ?_
    rw [List.forall_mem_map]
    exact forall_congr' fun i => by rw [List.mem_range]
  by_cases hf : loadGuard.fires lv v = true
  · refine Iff.trans ⟨fun h => ?_, fun h u hu => ?_⟩ hvalue
    · exact h _ (mem_emit.mpr ⟨loadGuard, List.mem_singleton.mpr rfl, hf, rfl⟩)
    · obtain ⟨g, hg, -, rfl⟩ := mem_emit.mp hu
      obtain rfl := List.mem_singleton.mp hg
      exact h
  · refine iff_of_true (fun u hu => ?_) (fun i hi => ?_)
    · obtain ⟨g, hg, hg', -⟩ := mem_emit.mp hu
      obtain rfl := List.mem_singleton.mp hg
      exact absurd hg' hf
    -- no flag was raised, so every load is the one before
    · have hsame : ¬(lv.all fun l => decide (l.load i ≠ v.load i)) = true := fun h =>
        hf (List.any_eq_true.mpr ⟨i, List.mem_range.mpr hi, h⟩)
      cases lv with
      | none => exact absurd rfl hsame
      | some l =>
        obtain ⟨hdim, hwhole⟩ := hlv l rfl
        have heq : l.load i = v.load i := by simpa using hsame
        rw [← heq]
        exact hwhole i (hdim ▸ hi)

/-- Decimals for which the double `getMachineDynamic` computes is whole exactly when the
quotient is: `pow` gives neither a fraction nor infinity. -/
def LoadDecimals (l : LOADELM) : Prop := 0 ≤ l.dec.toInt ∧ l.dec.toInt ≤ 308

/-- A load meter reading that is a whole number: without fraction digits other than zeros. -/
def WholeReading (l : LOADELM) : Prop :=
  LoadDecimals l ∧ (10 : Int) ^ l.dec.toInt.toNat ∣ l.data.toInt

/-- The quotient `getMachineDynamic` computes is a whole `int` exactly then. -/
theorem wholeReading_iff {l : LOADELM} (h : LoadDecimals l) :
    WholeReading l ↔ ∃ n : Int32, l.value = n.toInt := by
  obtain ⟨k, hk⟩ := Int.eq_ofNat_of_zero_le h.1
  have hpow : (10 : ℚ) ^ k ≠ 0 := by positivity
  refine (and_iff_right h).trans ?_
  unfold LOADELM.value
  rw [hk, Int.toNat_natCast, zpow_natCast]
  constructor
  · intro h
    obtain ⟨q, hq⟩ := h
    -- the quotient is no larger than the reading
    have hpos : (1 : Int) ≤ 10 ^ k := one_le_pow₀ (by decide)
    have hrange : -2 ^ 31 ≤ q ∧ q < 2 ^ 31 := by
      have hle := l.data.le_toInt
      have hlt := l.data.toInt_lt
      rw [hq] at hle hlt
      constructor <;> nlinarith
    refine ⟨Int32.ofInt q, ?_⟩
    rw [Int32.toInt_ofInt_of_le hrange.1 hrange.2, hq]
    push_cast
    field_simp
  · intro h
    obtain ⟨n, hn⟩ := h
    refine ⟨n.toInt, ?_⟩
    rw [div_eq_iff hpow] at hn
    have hcast : (l.data.toInt : ℚ) = ((10 ^ k * n.toInt : Int) : ℚ) := by
      rw [hn]
      push_cast
      ring
    exact_mod_cast hcast

/-- Every load published of this reply is a whole `int`: the readings of the axes
the control reports, and beyond them what the array held. -/
def LoadsWhole (r : DynamicReply) (axisCount : Short) : Prop :=
  ∀ num axLoad, r.rdsvmeter = some (num, axLoad) → ∀ i < axisCount.toNatClampNeg,
    if i < num.toNatClampNeg then WholeReading (axLoad i) else ∃ n : Int32, r.mem.load i = n.toInt

/-- The load meters of the axes reported have such decimals. -/
def LoadsInRange (r : DynamicReply) (axisCount : Short) : Prop :=
  ∀ num axLoad, r.rdsvmeter = some (num, axLoad) → ∀ i < axisCount.toNatClampNeg,
    i < num.toNatClampNeg → LoadDecimals (axLoad i)

theorem LoadsWhole.inRange {r : DynamicReply} {axisCount : Short} (h : LoadsWhole r axisCount) :
    LoadsInRange r axisCount := by
  intro num axLoad hload i hi hnum
  have hwhole := h num axLoad hload i hi
  rw [if_pos hnum] at hwhole
  exact hwhole.1

theorem wholeLoads_iff {r : DynamicReply} {axisCount : Short} {divisors : Nat → ℚ}
    {v : MachineDynamic} (h : getMachineDynamic r axisCount divisors = some v)
    (hdec : LoadsInRange r axisCount) : WholeLoads v ↔ LoadsWhole r axisCount := by
  simp only [getMachineDynamic, Option.bind_eq_bind, Option.bind_eq_some_iff] at h
  obtain ⟨dyn, -, ⟨num, axLoad⟩, hload, h⟩ := h
  obtain rfl := (Option.some.inj h).symm
  have hpoint : ∀ i < axisCount.toNatClampNeg,
      ((∃ n : Int32, fillAxes num (fun i => (axLoad i).value) r.mem.load i = n.toInt) ↔
        if i < num.toNatClampNeg then WholeReading (axLoad i)
        else ∃ n : Int32, r.mem.load i = n.toInt) := by
    intro i hi
    unfold fillAxes
    split
    next hnum => rw [wholeReading_iff (hdec num axLoad hload i hi hnum)]
    next => rfl
  constructor
  · intro hwhole num' axLoad' heq i hi
    obtain ⟨rfl, rfl⟩ := Prod.mk.inj (Option.some.inj (hload.symm.trans heq))
    exact (hpoint i hi).mp (hwhole i hi)
  · intro hwhole i hi
    exact (hpoint i hi).mpr (hwhole num axLoad hload i hi)

/-! ## Divisors -/

/-- The value a first reading adds under each member of an axis. -/
def axisScalar (a : MachineAxisInfo) : AxisKey → Scalar
  | .id => .string a.id
  | .index => .number a.index.toInt
  | .suffix => .string a.suffix
  | .divisor => .number a.divisor
  | .name => .string a.name
  | .flag => .number a.flag.toInt
  | .unit => .number a.unit.toInt
  | .unith => .string a.unith
  | .decimal => .number a.decimal.toInt

theorem overlay_axis (a : MachineAxisInfo) (k : AxisKey) :
    overlay (emit axisGuards none a) k = some (axisScalar a k) := by
  cases k <;> rfl

theorem overlay_axisMembers (a : MachineAxisInfo) (f : AxesField) :
    overlay (axisMembers (emit axisGuards none a)) (axesSchema.name f)
      = some (axisScalar a (axesFieldKey f)).json := by
  rw [overlay_axisField, overlay_axis, Option.map_some]

/-- Every member but the divisor is of its field's type. -/
theorem read_axisScalar (a : MachineAxisInfo) {f : AxesField} (hf : f ≠ .divisor) :
    (f.type.read rationals (axisScalar a (axesFieldKey f)).json).isSome := by
  have hshort : ∀ x : Short, (ScalarType.int.read rationals (.number x.toInt)).isSome := by
    intro x
    rw [← Int16.toInt_toInt32, read_int]
    rfl
  cases f
  case divisor => exact absurd rfl hf
  case index => exact hshort a.index
  case flag => exact hshort a.flag
  case unit => exact hshort a.unit
  case decimal => exact hshort a.decimal
  all_goals rfl

theorem read_long_isSome_iff (x : ℚ) :
    (ScalarType.long.read rationals (.number x)).isSome ↔ ∃ n : Int64, x = n.toInt := by
  rw [Option.isSome_iff_exists]
  refine exists_congr fun n =>
    (ScalarType.read_eq_some_iff (t := .long) (by decide) (.number x) n).trans ?_
  exact ⟨fun h => Json.number.inj h, fun h => congrArg Json.number h⟩

/-- The members of an axis are its scalars. -/
theorem mem_axisMembers {a : MachineAxisInfo} {m : CStr × Json ℚ}
    (h : m ∈ axisMembers (emit axisGuards none a)) :
    ∃ k : AxisKey, m = (k.text.toList, (axisScalar a k).json) := by
  obtain ⟨u, hu, rfl⟩ := List.mem_map.mp h
  obtain ⟨g, hg, hfires, rfl⟩ := mem_emit.mp hu
  have hvalue := overlay_emit (by decide) hg none a
  rw [overlay_axis, if_pos hfires, Option.some.injEq] at hvalue
  exact ⟨g.key, by rw [hvalue]⟩

/-- An axis is read exactly when its divisor is a whole `long`. -/
theorem readAxesDef_isSome_iff (a : MachineAxisInfo) :
    (readAxesDef rationals (.object (axisMembers (emit axisGuards none a)))).isSome ↔
      ∃ n : Int64, a.divisor = n.toInt := by
  have hmembers : ∀ f,
      (overlay (axisMembers (emit axisGuards none a)) (axesSchema.name f)).isSome := by
    intro f
    rw [overlay_axisMembers]
    rfl
  rw [← read_long_isSome_iff]
  refine (axesSchema.readFull_isSome_iff _ _).trans ((and_iff_left hmembers).trans ?_)
  constructor
  · intro h
    exact h _ (overlay_mem (overlay_axisMembers a .divisor)) .divisor rfl
  · intro h m hm f hf
    obtain ⟨k, rfl⟩ := mem_axisMembers hm
    obtain rfl : axesFieldKey f = k := AxisKey.text_injective ((name_axesField f).symm.trans hf)
    by_cases hdivisor : f = .divisor
    · subst hdivisor
      exact h
    · exact read_axisScalar a hdivisor

/-- Every input decimal of the control's axes lies between 0 and 18. -/
def DivisorsWhole (r : InfoReply) : Prop :=
  ∀ inprec axisCount names, r.getfigure = some inprec → r.rdaxisname = some (axisCount, names) →
    ∀ i < axisCount.toNatClampNeg, 0 ≤ (inprec i).toInt ∧ (inprec i).toInt ≤ 18

/-- Input decimals for which a power of ten is a double other than zero and infinity. -/
def DivisorsInRange (r : InfoReply) : Prop :=
  ∀ inprec axisCount names, r.getfigure = some inprec → r.rdaxisname = some (axisCount, names) →
    ∀ i < axisCount.toNatClampNeg, -323 ≤ (inprec i).toInt ∧ (inprec i).toInt ≤ 308

/-- A power of ten is a whole `long` exactly for these exponents. -/
theorem pow_ten_long_iff (k : Int) :
    (∃ n : Int64, (10 : ℚ) ^ k = n.toInt) ↔ 0 ≤ k ∧ k ≤ 18 := by
  constructor
  · intro h
    obtain ⟨n, hn⟩ := h
    have hpos : (0 : ℚ) < 10 ^ k := zpow_pos (by norm_num) k
    have hone : 1 ≤ n.toInt := by
      rw [hn] at hpos
      exact_mod_cast hpos
    constructor
    · -- a negative power is below one
      by_contra hneg
      have hlt : (10 : ℚ) ^ k < 1 := zpow_lt_one_of_neg₀ (by norm_num) (by omega)
      rw [hn] at hlt
      have : n.toInt < 1 := by exact_mod_cast hlt
      omega
    · by_contra hbig
      have hle : (10 : ℚ) ^ (19 : Int) ≤ 10 ^ k := zpow_le_zpow_right₀ (by norm_num) (by omega)
      rw [hn, show (10 : ℚ) ^ (19 : Int) = ((10 ^ 19 : Int) : ℚ) by norm_num, Int.cast_le] at hle
      have hmax := n.toInt_lt
      omega
  · intro h
    obtain ⟨h0, h18⟩ := h
    obtain ⟨m, rfl⟩ := Int.eq_ofNat_of_zero_le h0
    have hle : (10 : Int) ^ m ≤ 10 ^ 18 := pow_le_pow_right₀ (by norm_num) (by omega)
    have hpos : (0 : Int) < 10 ^ m := by positivity
    refine ⟨Int64.ofInt (10 ^ m), ?_⟩
    rw [Int64.toInt_ofInt_of_le (by omega) (by omega)]
    push_cast
    rfl

end FanucDriver.Streams
