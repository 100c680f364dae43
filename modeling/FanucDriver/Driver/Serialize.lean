import FanucDriver.Driver.Main
import FanucDriver.Lib.Utf8

/-!
# The message as a JSON object

The names `check.c` adds its members under, and the object `main` prints:
`{"values": …, "meta": …}`. Numbers stay exact; `cJSON_PrintUnformatted` prints a
double with as many digits as it takes to read it back. The characters of a string are
bytes: those from 128 on are printed as they are.
-/

namespace FanucDriver.Driver

open FanucDriver.Lib

def Key.text : Key → String
  | id => "id"
  | max_axis => "max_axis"
  | addinfo => "addinfo"
  | cnc_type => "cnc_type"
  | mt_type => "mt_type"
  | series => "series"
  | version => "version"
  | axes_count_chk => "axes_count_chk"
  | axes_count => "axes_count"
  | ether_type => "ether_type"
  | ether_device => "ether_device"
  | axes => "axes"
  | part_count => "part_count"
  | cycle_time => "cycle_time"
  | execution => "execution"
  | mode => "mode"
  | estop => "estop"
  | alarm => "alarm"
  | aut => "aut"
  | edit => "edit"
  | emergency => "emergency"
  | hdck => "hdck"
  | motion => "motion"
  | mstb => "mstb"
  | run => "run"
  | tool_id => "tool_id"
  | tool_group => "tool_group"
  | absolute => "absolute"
  | relative => "relative"
  | actual => "actual"
  | load => "load"
  | cprogram => "cprogram"
  | mprogram => "mprogram"
  | sequence => "sequence"
  | actf => "actf"
  | acts => "acts"
  | message_number => "message_number"
  | message_text => "message_text"
  | program_name => "program_name"
  | program_path => "program_path"
  | program_header => "program_header"
  | program_size => "program_size"
  | program => "program"
  | block => "block"
  | block_num => "block_num"

def AxisKey.text : AxisKey → String
  | id => "id"
  | index => "index"
  | suffix => "suffix"
  | divisor => "divisor"
  | name => "name"
  | flag => "flag"
  | unit => "unit"
  | unith => "unith"
  | decimal => "decimal"

def MetaKey.text : MetaKey → String
  | info => "info"
  | part_count => "part_count"
  | cycle_time => "cycle_time"
  | status => "status"
  | tool => "tool"
  | dynamic => "dynamic"
  | message => "message"
  | program_name => "program_name"
  | program_header => "program_header"
  | program => "program"
  | block => "block"
  | total => "total"

def Scalar.json : Scalar → Json ℚ
  | null => .null
  | number x => .number x
  | string s => .string s

/-- One object of `axes`. -/
def axisMembers (datum : List (AxisKey × Scalar)) : List (CStr × Json ℚ) :=
  datum.map fun u => (u.1.text.toList, u.2.json)

def Value.json : Value → Json ℚ
  | scalar x => x.json
  | numbers xs => .array (xs.map .number)
  | axes data => .array (data.map fun datum => .object (axisMembers datum))

/-- The members of the `values` object. -/
def valuesMembers (us : Updates) : List (CStr × Json ℚ) :=
  us.map fun u => (u.1.text.toList, u.2.json)

/-- The members of the `meta` object. -/
def metaMembers (us : Meta) : List (CStr × Json ℚ) :=
  us.map fun u => (u.1.text.toList, .number u.2.toNat)

/-- The object `main` prints. -/
def Message.json (m : Message) : Json ℚ :=
  .object
    [("values".toList, .object (valuesMembers m.values)),
     ("meta".toList, .object (metaMembers m.metaMap))]

/-! ## The text of the object -/

/-- A byte of a string, in `cJSON_PrintUnformatted`. -/
def cJsonEscape (c : Char) : List Char :=
  if c = '"' then ['\\', '"']
  else if c = '\\' then ['\\', '\\']
  else if c = '\x08' then ['\\', 'b']
  else if c = '\x0c' then ['\\', 'f']
  else if c = '\n' then ['\\', 'n']
  else if c = '\r' then ['\\', 'r']
  else if c = '\t' then ['\\', 't']
  else if c.toNat < 0x20 then Json.unicodeEscape c
  else [c]

theorem cJsonEscape_reads (c : Char) (s : List Char) :
    Json.readChar (cJsonEscape c ++ s) = some (c, s) := by
  unfold cJsonEscape
  split_ifs with hquote hslash hback hfeed hnewline hreturn htab hcontrol
  · subst hquote; rfl
  · subst hslash; rfl
  · subst hback; rfl
  · subst hfeed; rfl
  · subst hnewline; rfl
  · subst hreturn; rfl
  · subst htab; rfl
  · exact Json.readChar_unicodeEscape (by omega) s
  · exact Json.readChar_plain hquote hslash (by omega) s

def cJsonStyle : Json.Style where
  escape := cJsonEscape
  comma := []
  colon := []
  escape_reads := cJsonEscape_reads
  comma_blank := Json.nil_all_isBlank
  colon_blank := Json.nil_all_isBlank

theorem digitChar_ascii {d : ℕ} (h : d < 16) : (Nat.digitChar d).toNat < 0x80 := by
  revert h
  revert d
  decide

/-- Only bytes below 128 are escaped. -/
theorem cJsonStyle_bytewise : Utf8.Bytewise cJsonStyle where
  escape_ascii c hc d hd := by
    have hpair (x : Char) (hx : x.toNat < 0x80) (h : d ∈ ['\\', x]) : d.toNat < 0x80 := by
      simp only [List.mem_cons, List.not_mem_nil, or_false] at h
      rcases h with rfl | rfl
      · decide
      · exact hx
    change d ∈ cJsonEscape c at hd
    unfold cJsonEscape at hd
    split_ifs at hd
    · exact hpair '"' (by decide) hd
    · exact hpair '\\' (by decide) hd
    · exact hpair 'b' (by decide) hd
    · exact hpair 'f' (by decide) hd
    · exact hpair 'n' (by decide) hd
    · exact hpair 'r' (by decide) hd
    · exact hpair 't' (by decide) hd
    · simp only [Json.unicodeEscape, List.mem_cons, List.not_mem_nil, or_false] at hd
      rcases hd with rfl | rfl | rfl | rfl | rfl | rfl
      · decide
      · decide
      all_goals exact digitChar_ascii (by omega)
    · rwa [List.mem_singleton.mp hd]
  escape_other c hc := by
    show cJsonEscape c = [c]
    unfold cJsonEscape
    rw [if_neg, if_neg, if_neg, if_neg, if_neg, if_neg, if_neg, if_neg (by omega)]
    all_goals
      rintro rfl
      exact absurd hc (by decide)

/-! ## Rewriting the strings of a message -/

def Scalar.mapText (f : CStr → CStr) : Scalar → Scalar
  | null => null
  | number x => number x
  | string s => string (f s)

def Value.mapText (f : CStr → CStr) : Value → Value
  | scalar x => scalar (x.mapText f)
  | numbers xs => numbers xs
  | axes data => axes (data.map fun datum => datum.map fun u => (u.1, u.2.mapText f))

def Message.mapText (f : CStr → CStr) (m : Message) : Message :=
  { m with values := m.values.map fun u => (u.1, u.2.mapText f) }

theorem Key.text_ascii (k : Key) : Utf8.Ascii k.text.toList := by
  cases k <;> decide

theorem AxisKey.text_ascii (k : AxisKey) : Utf8.Ascii k.text.toList := by
  cases k <;> decide

theorem MetaKey.text_ascii (k : MetaKey) : Utf8.Ascii k.text.toList := by
  cases k <;> decide

section
variable {f : CStr → CStr} (hf : ∀ s, Utf8.Ascii s → f s = s)

theorem Scalar.json_mapText (f : CStr → CStr) (x : Scalar) :
    (x.mapText f).json = x.json.mapText f := by
  cases x <;> rfl

include hf

theorem Value.json_mapText (v : Value) : (v.mapText f).json = v.json.mapText f := by
  cases v with
  | scalar x => exact x.json_mapText f
  | numbers xs =>
    have hnumbers : xs.map (Json.mapText f ∘ Json.number) = xs.map Json.number := rfl
    rw [mapText, json, Json.mapText, Json.mapElems_eq, List.map_map, hnumbers]
  | axes data =>
    rw [mapText, json, json, Json.mapText, Json.mapElems_eq, List.map_map, List.map_map]
    congr 1
    refine List.map_congr_left fun datum _ => ?_
    simp only [Function.comp_apply, axisMembers, Json.mapText, Json.mapMembers_eq, List.map_map]
    congr 1
    refine List.map_congr_left fun u _ => ?_
    simp only [Function.comp_apply, hf _ u.1.text_ascii, Scalar.json_mapText]

/-- Names are not touched. -/
theorem Message.json_mapText (m : Message) : (m.mapText f).json = m.json.mapText f := by
  have hvalues : valuesMembers (m.mapText f).values
      = (valuesMembers m.values).map fun u => (f u.1, u.2.mapText f) := by
    rw [valuesMembers, valuesMembers, mapText, List.map_map, List.map_map]
    refine List.map_congr_left fun u _ => ?_
    simp only [Function.comp_apply, hf _ u.1.text_ascii, Value.json_mapText hf]
  have hmeta : metaMembers m.metaMap
      = (metaMembers m.metaMap).map fun u => (f u.1, u.2.mapText f) := by
    rw [metaMembers, List.map_map]
    refine List.map_congr_left fun u _ => ?_
    simp only [Function.comp_apply, hf _ u.1.text_ascii, Json.mapText]
  have hnames : f "values".toList = "values".toList ∧ f "meta".toList = "meta".toList :=
    ⟨hf _ (by decide), hf _ (by decide)⟩
  rw [json, json, hvalues]
  conv_lhs => rw [show (m.mapText f).metaMap = m.metaMap from rfl, hmeta]
  simp only [Json.mapText, Json.mapMembers_eq, List.map_cons, List.map_nil, hnames]

end

def Key.all : List Key :=
  [.id, .max_axis, .addinfo, .cnc_type, .mt_type, .series, .version, .axes_count_chk, .axes_count,
   .ether_type, .ether_device, .axes, .part_count, .cycle_time, .execution, .mode, .estop, .alarm,
   .aut, .edit, .emergency, .hdck, .motion, .mstb, .run, .tool_id, .tool_group, .absolute,
   .relative, .actual, .load, .cprogram, .mprogram, .sequence, .actf, .acts, .message_number,
   .message_text, .program_name, .program_path, .program_header, .program_size, .program, .block,
   .block_num]

/-- No two members of `values` have one name. -/
theorem Key.text_injective : Function.Injective fun k : Key => k.text.toList := by
  have hnodup : (Key.all.map fun k => k.text.toList).Nodup := by decide +kernel
  have hall : ∀ k, k ∈ Key.all := fun k => by cases k <;> decide
  exact fun a b h => List.inj_on_of_nodup_map hnodup (hall a) (hall b) h

theorem AxisKey.text_injective : Function.Injective fun k : AxisKey => k.text.toList := by
  intro a b
  cases a <;> cases b <;> decide

/-- The member of a key. -/
theorem overlay_valuesMembers (us : Updates) (k : Key) :
    overlay (valuesMembers us) k.text.toList = (overlay us k).map Value.json :=
  overlay_map Key.text_injective (fun _ => Value.json) us k

theorem MetaKey.text_injective : Function.Injective fun k : MetaKey => k.text.toList := by
  intro a b
  cases a <;> cases b <;> decide

/-! ## No name twice in `meta` -/

/-- The duration each check of a tick may add. -/
def tickMetaKeys : List MetaKey :=
  [.part_count, .cycle_time, .status, .tool, .dynamic, .message, .program_name, .program_header,
   .program, .block]

def State.metaKeys (s : State) : List MetaKey := s.metaMap.map Prod.fst

/-- A successful call adds at most the duration `k`. -/
def AddsMeta (check : State → Bool × State) (k : MetaKey) : Prop :=
  ∀ s s', check s = (false, s') → s'.metaKeys = s.metaKeys ∨ s'.metaKeys = s.metaKeys ++ [k]

theorem metaKeys_append {s s' : State} {k : MetaKey} {tt : ULong}
    (h : s'.metaMap = s.metaMap ++ [(k, tt)]) : s'.metaKeys = s.metaKeys ++ [k] := by
  rw [State.metaKeys, h, List.map_append]
  rfl

/-- A check that, unless it fails, publishes under its own duration. -/
theorem AddsMeta.publishes {check : State → Bool × State} {k : MetaKey}
    (h : ∀ s, (check s).1 = true ∨ (check s).2.metaKeys = s.metaKeys ++ [k]) :
    AddsMeta check k := by
  intro s s' hs
  rcases h s with hfail | hkeys
  · rw [hs] at hfail
    exact absurd hfail (by simp)
  · rw [hs] at hkeys
    exact Or.inr hkeys

/-- A check that does nothing unless its guard holds. -/
theorem AddsMeta.guarded {c : State → Prop} [DecidablePred c] {check : State → Bool × State}
    {k : MetaKey} (h : AddsMeta check k) :
    AddsMeta (fun s => if c s then check s else (false, s)) k := by
  intro s s' hs
  simp only at hs
  split at hs
  next => exact h s s' hs
  next =>
    obtain rfl : s = s' := congrArg Prod.snd hs
    exact Or.inl rfl

/-- Each check adds its own duration. -/
theorem tickChecks_addsMeta (lib : Library) :
    List.Forall₂ AddsMeta (tickChecks lib) tickMetaKeys := by
  refine .cons (.publishes fun s => ?_) <| .cons (.guarded <| .publishes fun s => ?_) <|
    .cons (.publishes fun s => ?_) <| .cons (.publishes fun s => ?_) <|
    .cons (.publishes fun s => ?_) <| .cons (.publishes fun s => ?_) <|
    .cons (.guarded <| .publishes fun s => ?_) <| .cons (.guarded <| .publishes fun s => ?_) <|
    .cons (.guarded <| .publishes fun s => ?_) <| .cons (.publishes fun s => ?_) .nil
  -- one case for each check, in the order of the chain
  · cases getMachinePartCount lib.partCount with
    | none => exact Or.inl rfl
    | some v => exact Or.inr (metaKeys_append rfl)
  · cases getMachineCycleTime lib.cycleTime with
    | none => exact Or.inl rfl
    | some v => exact Or.inr (metaKeys_append rfl)
  · cases getMachineStatus lib.status with
    | none => exact Or.inl rfl
    | some v => exact Or.inr (metaKeys_append rfl)
  · exact Or.inr (metaKeys_append rfl)
  · cases getMachineDynamic lib.dynamic s.axisCount s.divisors with
    | none => exact Or.inl rfl
    | some v => exact Or.inr (metaKeys_append rfl)
  · cases getMachineMessage lib.message with
    | none => exact Or.inl rfl
    | some v => exact Or.inr (metaKeys_append rfl)
  · cases getMachineProgramName lib.programName with
    | none => exact Or.inl rfl
    | some v => exact Or.inr (metaKeys_append rfl)
  · cases getMachineProgramHeader lib.header s.cProgramNum with
    | none => exact Or.inl rfl
    | some v => exact Or.inr (metaKeys_append rfl)
  · cases getMachineProgramContents lib.contents with
    | none => exact Or.inl rfl
    | some v => exact Or.inr (metaKeys_append rfl)
  · cases getMachineBlock lib.block with
    | none => exact Or.inl rfl
    | some v => exact Or.inr (metaKeys_append rfl)

/-- What a chain of checks adds to `meta`. -/
theorem runChecks_metaKeys {checks : List (State → Bool × State)} {ks : List MetaKey}
    (h : List.Forall₂ AddsMeta checks ks) {s s' : State} (hs : runChecks checks s = (false, s')) :
    ∃ l, l.Sublist ks ∧ s'.metaKeys = s.metaKeys ++ l := by
  induction h generalizing s with
  | nil =>
    obtain rfl : s = s' := congrArg Prod.snd hs
    exact ⟨[], .slnil, (List.append_nil _).symm⟩
  | cons hcheck _ ih =>
    obtain ⟨s₁, h₁, hrest⟩ := runChecks_success.mp hs
    obtain ⟨l, hl, heq⟩ := ih hrest
    rcases hcheck s s₁ h₁ with hsame | hadded
    · exact ⟨l, hl.cons _, by rw [heq, hsame]⟩
    · exact ⟨_ :: l, hl.cons_cons _, by rw [heq, hadded, List.append_assoc]; rfl⟩

/-- A tick that starts from an empty `meta`, or from the one `checkMachineInfo`
left, uses no name twice; `total` is still free. -/
theorem loopTick_metaKeys_nodup {lib : Library} {s s' : State} (h : loopTick lib s = (false, s'))
    (hs : s.metaKeys = [] ∨ s.metaKeys = [.info]) :
    (s'.metaKeys ++ [MetaKey.total]).Nodup := by
  obtain ⟨l, hl, heq⟩ := runChecks_metaKeys (tickChecks_addsMeta lib) h
  -- the names of a tick are some of these, in this order
  have hall : ([MetaKey.info] ++ tickMetaKeys ++ [MetaKey.total]).Nodup := by decide
  rw [heq]
  refine hall.sublist (List.Sublist.append (List.Sublist.append ?_ hl) (List.Sublist.refl _))
  rcases hs with hs | hs <;> rw [hs]
  exact List.nil_sublist _

end FanucDriver.Driver
