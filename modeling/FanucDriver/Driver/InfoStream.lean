import FanucDriver.Driver.DeltaStreams

/-!
# The machine information: what a reader of the updates holds

`checkMachineInfo` compares numbers by value, the axis names by their characters, and the
other strings by the addresses of two live arrays. Its axis loop runs to the new
`axes_count` and compares with the cached record, whose array may have been filled to
fewer axes.

A reader merges the updates: the last value of every member, and the elements of `axes`
one by one, member by member (`axisUpdates`).

`info_mergeable_iff` says when a run of calls is change-only and mergeable. Two things
stand in the way. An equal string is added again. And a member of an axis is left out where
the reader holds something else: `strncmp` looks at the first characters of `suffix` and
`name`, `unith` goes with `unit` (`AxisStays`), and an axis that comes with a larger
`axes_count` is compared with what was in the cached array (`AxisComes`).
-/

namespace FanucDriver.Driver

open FanucDriver.Lib

/-! ## Runs of the check -/

/-- A successful reading: the record, and the global `divisors` its getter left. -/
abbrev InfoReading := MachineInfo × (Nat → ℚ)

/-- One call of the check. -/
def infoCall (s : State) (r : InfoReading) : State := (checkMachineInfo (some r) s).2

/-- A run of calls from the check's first, on an empty `values` object. -/
def infoCalls (s : State) (rs : List InfoReading) : State :=
  rs.foldl infoCall { s with infoLv := none, updates := [] }

/-- What one more call adds to an empty object. -/
def infoAdded (s : State) (rs : List InfoReading) (r : InfoReading) : Updates :=
  (infoCall { infoCalls s rs with updates := [] } r).updates

/-- The members of element `i` of the `axes` arrays, in the order they were added. -/
def axisUpdates (us : Updates) (i : ℕ) : List (AxisKey × Scalar) :=
  us.flatMap fun u =>
    match u.2 with
    | .axes datum => (datum[i]?).getD []
    | _ => []

/-! ## What a reader is to hold -/

/-- The top-level members a record stands for. -/
def MachineInfo.fields (v : MachineInfo) : Updates :=
  [(.id, .string v.id), (.max_axis, .number v.max_axis.toInt), (.addinfo, .number v.addinfo.toInt),
   (.cnc_type, .string v.cnc_type), (.mt_type, .string v.mt_type), (.series, .string v.series),
   (.version, .string v.version), (.axes_count_chk, .string v.axes_count_chk),
   (.axes_count, .number v.axes_count.toInt), (.ether_type, .number v.etherType.toInt),
   (.ether_device, .number v.etherDevice.toInt)]

/-- The members of one axis. -/
def MachineAxisInfo.fields (a : MachineAxisInfo) : List (AxisKey × Scalar) :=
  [(.id, .string a.id), (.index, .number a.index.toInt), (.suffix, .string a.suffix),
   (.divisor, .number a.divisor), (.name, .string a.name), (.flag, .number a.flag.toInt),
   (.unit, .number a.unit.toInt), (.unith, .string a.unith), (.decimal, .number a.decimal.toInt)]

/-- The axes below the count. -/
def MachineInfo.hasAxis (i : ℕ) (v : MachineInfo) : Bool :=
  decide (i < v.axes_count.toNatClampNeg)

/-- The call after `rs` adds a top-level member iff it is the first or the member differs
from that of the record before, and the merged updates show the record. -/
structure InfoMergeable (s : State) (rs : List InfoReading) (r : InfoReading) : Prop where
  changeOnly : ∀ kx ∈ r.1.fields,
    kx.1 ∈ (infoAdded s rs r).map Prod.fst ↔ ∀ l ∈ rs.getLast?, kx ∉ l.1.fields
  topLevel : Shows (infoCalls s (rs ++ [r])).updates r.1.fields
  axes : ∀ i, r.1.hasAxis i = true → ∀ kx ∈ (r.1.axes i).fields,
    overlay (axisUpdates (infoCalls s (rs ++ [r])).updates i) kx.1 = some kx.2

/-- Each of the strings that the check compares by address differs. -/
def StringsMove (a b : MachineInfo) : Prop :=
  a.id ≠ b.id ∧ a.cnc_type ≠ b.cnc_type ∧ a.mt_type ≠ b.mt_type ∧ a.series ≠ b.series ∧
    a.version ≠ b.version ∧ a.axes_count_chk ≠ b.axes_count_chk

/-- An axis that both records have: what is left out is as it was. -/
structure AxisStays (a b : MachineAxisInfo) : Prop where
  suffix : a.suffix.take 2 = b.suffix.take 2 → a.suffix = b.suffix
  name : a.name.take 5 = b.name.take 5 → a.name = b.name
  /-- `unith` has no guard of its own. -/
  unith : a.unit = b.unit → a.unith = b.unith

/-- An axis that the record before does not have. `cell` is what its array held there, and
`told` the axis as it was published last: the members that agree with the cell are left
out. -/
structure AxisComes (cell : MachineAxisInfo) (told : Option MachineAxisInfo)
    (b : MachineAxisInfo) : Prop where
  index : cell.index = b.index → ∃ w ∈ told, w.index = b.index
  suffix : cell.suffix.take 2 = b.suffix.take 2 → ∃ w ∈ told, w.suffix = b.suffix
  divisor : cell.divisor = b.divisor → ∃ w ∈ told, w.divisor = b.divisor
  name : cell.name.take 5 = b.name.take 5 → ∃ w ∈ told, w.name = b.name
  flag : cell.flag = b.flag → ∃ w ∈ told, w.flag = b.flag
  unit : cell.unit = b.unit → ∃ w ∈ told, w.unit = b.unit
  unith : cell.unit = b.unit → ∃ w ∈ told, w.unith = b.unith
  decimal : cell.decimal = b.decimal → ∃ w ∈ told, w.decimal = b.decimal

/-- Every axis of every record after the first. -/
def AxesKept (vs : List MachineInfo) : Prop :=
  ∀ p a b, p ++ [a, b] <+: vs → ∀ i, b.hasAxis i = true →
    if a.hasAxis i = true then AxisStays (a.axes i) (b.axes i)
    else AxisComes (a.axes i) ((lastWithin (MachineInfo.hasAxis i) p).map (·.axes i)) (b.axes i)

/-! ## The streams of a run -/

theorem infoGuards_keys_nodup : (infoGuards.map Guard.key).Nodup := by decide

theorem axisGuards_keys_nodup : (axisGuards.map Guard.key).Nodup := by decide

theorem infoFields_eq (v : MachineInfo) :
    v.fields = infoGuards.map fun g => (g.key, g.value v) := rfl

theorem axisFields_eq (a : MachineAxisInfo) :
    a.fields = axisGuards.map fun g => (g.key, g.value a) := rfl

/-- A guard of axis `i`, on the whole record. -/
def axisGuardAt (i : ℕ) (g : Guard MachineAxisInfo AxisKey Scalar) :
    Guard MachineInfo AxisKey Scalar where
  key := g.key
  fires lv v := g.fires (lv.map (·.axes i)) (v.axes i)
  value v := g.value (v.axes i)

/-- The guards of axis `i`: none fires on a record without the axis. -/
def axisGuardsAt (i : ℕ) : List (Guard MachineInfo AxisKey Scalar) :=
  (axisGuards.map (axisGuardAt i)).map (Guard.within (MachineInfo.hasAxis i))

theorem axisGuardsAt_keys_nodup (i : ℕ) : ((axisGuardsAt i).map Guard.key).Nodup := by
  have hkeys : (axisGuardsAt i).map Guard.key = axisGuards.map Guard.key := rfl
  rw [hkeys]
  exact axisGuards_keys_nodup

theorem axisUpdates_append (us ws : Updates) (i : ℕ) :
    axisUpdates (us ++ ws) i = axisUpdates us i ++ axisUpdates ws i := List.flatMap_append

theorem axisUpdates_infoGuards (lv : Option MachineInfo) (v : MachineInfo) (i : ℕ) :
    axisUpdates (emit infoGuards lv v) i = [] := by
  refine List.flatMap_eq_nil_iff.mpr fun u hu => ?_
  obtain ⟨g, hg, -, rfl⟩ := mem_emit.mp hu
  simp only [infoGuards, List.mem_cons, List.not_mem_nil, or_false] at hg
  rcases hg with rfl | rfl | rfl | rfl | rfl | rfl | rfl | rfl | rfl | rfl | rfl <;> rfl

theorem axesDatum_getElem? (lv : Option MachineInfo) (v : MachineInfo) (i : ℕ) :
    ((axesDatum lv v)[i]?).getD []
      = if v.hasAxis i then emit axisGuards (lv.map (·.axes i)) (v.axes i) else [] := by
  unfold axesDatum MachineInfo.hasAxis
  rw [List.getElem?_map]
  by_cases h : i < v.axes_count.toNatClampNeg
  · rw [List.getElem?_range h]
    simp [h]
  · rw [List.getElem?_eq_none (by rw [List.length_range]; omega)]
    simp [h]

/-- One call tells of axis `i` what its guards let through. -/
theorem axisUpdates_axesUpdate (lv : Option MachineInfo) (v : MachineInfo) (i : ℕ) :
    axisUpdates (axesUpdate lv v) i = emit (axisGuardsAt i) lv v := by
  unfold axisGuardsAt
  rw [emit_within]
  have hemit : emit (axisGuards.map (axisGuardAt i)) lv v
      = emit axisGuards (lv.map (·.axes i)) (v.axes i) := List.flatMap_map ..
  rw [hemit, ← axesDatum_getElem?]
  unfold axesUpdate
  split
  · exact List.append_nil _
  next h =>
    -- no axis has a member
    cases hdatum : (axesDatum lv v)[i]? with
    | none => rfl
    | some members =>
      have hempty : ¬(axesDatum lv v).any (fun datum => !datum.isEmpty) = true := h
      rw [List.any_eq_true] at hempty
      have hmem := List.mem_of_getElem? hdatum
      cases members with
      | nil => rfl
      | cons m members => exact absurd ⟨_, hmem, rfl⟩ hempty

theorem infoCalls_snoc (s : State) (rs : List InfoReading) (r : InfoReading) :
    infoCalls s (rs ++ [r]) = infoCall (infoCalls s rs) r := by
  simp [infoCalls]

theorem infoCalls_lv (s : State) (rs : List InfoReading) :
    (infoCalls s rs).infoLv = (rs.map Prod.fst).getLast? := by
  induction rs using List.reverseRecOn with
  | nil => rfl
  | append_singleton rs r _ =>
    rw [infoCalls_snoc, List.map_append, List.map_singleton, List.getLast?_concat]
    rfl

/-- A call adds the members whose guards fire, and then `axes`. -/
theorem infoCall_updates (s : State) (r : InfoReading) :
    (infoCall s r).updates
      = s.updates ++ (emit infoGuards s.infoLv r.1 ++ axesUpdate s.infoLv r.1) := rfl

theorem axesUpdate_key {lv : Option MachineInfo} {v : MachineInfo} {u : Key × Value}
    (h : u ∈ axesUpdate lv v) : u.1 = .axes := by
  unfold axesUpdate at h
  split at h
  · rw [List.mem_singleton.mp h]
  · exact absurd h List.not_mem_nil

/-- The top-level members of a run. -/
theorem overlay_infoCalls (s : State) (rs : List InfoReading) {k : Key} (hk : k ≠ .axes) :
    overlay (infoCalls s rs).updates k = overlay (history infoGuards (rs.map Prod.fst)) k := by
  induction rs using List.reverseRecOn with
  | nil => rfl
  | append_singleton rs r ih =>
    have haxes : overlay (axesUpdate (infoCalls s rs).infoLv r.1) k = none :=
      overlay_eq_none_iff.mpr fun u hu heq => hk (heq.symm.trans (axesUpdate_key hu))
    rw [infoCalls_snoc, infoCall_updates, overlay_append, overlay_append, haxes, Option.none_or,
      ih, infoCalls_lv, List.map_append, List.map_singleton, history_snoc, overlay_append]

/-- The members of one axis in a run. -/
theorem axisUpdates_infoCalls (s : State) (rs : List InfoReading) (i : ℕ) :
    axisUpdates (infoCalls s rs).updates i = history (axisGuardsAt i) (rs.map Prod.fst) := by
  induction rs using List.reverseRecOn with
  | nil => rfl
  | append_singleton rs r ih =>
    rw [infoCalls_snoc, infoCall_updates, axisUpdates_append, axisUpdates_append,
      axisUpdates_infoGuards, List.nil_append, axisUpdates_axesUpdate, ih, infoCalls_lv,
      List.map_append, List.map_singleton, history_snoc]

theorem infoGuards_key_ne {g : Guard MachineInfo Key Value} (hg : g ∈ infoGuards) :
    g.key ≠ .axes := by
  have hkeys : Key.axes ∉ infoGuards.map Guard.key := by decide
  exact fun h => hkeys (h ▸ List.mem_map_of_mem hg)

theorem key_mem_infoAdded_iff (s : State) (rs : List InfoReading) (r : InfoReading)
    {g : Guard MachineInfo Key Value} (hg : g ∈ infoGuards) :
    g.key ∈ (infoAdded s rs r).map Prod.fst ↔ g.fires (rs.map Prod.fst).getLast? r.1 = true := by
  have hadded : infoAdded s rs r = emit infoGuards (rs.map Prod.fst).getLast? r.1 ++
      axesUpdate (rs.map Prod.fst).getLast? r.1 := by
    rw [← infoCalls_lv s rs]
    rfl
  rw [hadded, List.map_append, List.mem_append, key_mem_emit_iff infoGuards_keys_nodup hg]
  refine or_iff_left fun h => ?_
  obtain ⟨u, hu, hkey⟩ := List.mem_map.mp h
  exact infoGuards_key_ne hg (hkey.symm.trans (axesUpdate_key hu))

/-! ## Which guards are exact -/

/-- The guards on addresses fire always, the others on a change of value. -/
theorem infoGuards_exact_iff (a b : MachineInfo) :
    (∀ g ∈ infoGuards, g.fires (some a) b = true ↔ g.value a ≠ g.value b) ↔ StringsMove a b := by
  have hnumber (key : Key) (watch : MachineInfo → Short) :
      (Guard.onChange key watch fun v => Value.number (watch v).toInt).fires (some a) b = true ↔
        Value.number (watch a).toInt ≠ Value.number (watch b).toInt := by
    have hexact := RecordCheck.onChange_short_exact key watch (fun _ => True) (some a) b
      (fun _ _ => trivial) trivial
    simpa using hexact
  have hstring (key : Key) (read : MachineInfo → CStr) :
      ((always key fun v => Value.string (read v)).fires (some a) b = true ↔
        Value.string (read a) ≠ Value.string (read b)) ↔ read a ≠ read b := by
    simp [always]
  unfold infoGuards StringsMove
  simp only [List.forall_mem_cons, List.not_mem_nil, false_implies, implies_true, and_true]
  constructor
  · intro h
    obtain ⟨hid, -, -, hcnc, hmt, hseries, hversion, hchk, -, -, -⟩ := h
    exact ⟨(hstring .id (·.id)).mp hid, (hstring .cnc_type (·.cnc_type)).mp hcnc,
      (hstring .mt_type (·.mt_type)).mp hmt, (hstring .series (·.series)).mp hseries,
      (hstring .version (·.version)).mp hversion,
      (hstring .axes_count_chk (·.axes_count_chk)).mp hchk⟩
  · intro h
    obtain ⟨hid, hcnc, hmt, hseries, hversion, hchk⟩ := h
    exact ⟨(hstring .id (·.id)).mpr hid, hnumber .max_axis (·.max_axis),
      hnumber .addinfo (·.addinfo), (hstring .cnc_type (·.cnc_type)).mpr hcnc,
      (hstring .mt_type (·.mt_type)).mpr hmt, (hstring .series (·.series)).mpr hseries,
      (hstring .version (·.version)).mpr hversion,
      (hstring .axes_count_chk (·.axes_count_chk)).mpr hchk,
      hnumber .axes_count (·.axes_count), hnumber .ether_type (·.etherType),
      hnumber .ether_device (·.etherDevice)⟩

/-- A guard fires on every call, or exactly on a change. -/
theorem infoGuards_kind {g : Guard MachineInfo Key Value} (hg : g ∈ infoGuards) :
    (∀ lv v, g.fires lv v = true) ∨ g.Exact fun _ => True := by
  simp only [infoGuards, List.mem_cons, List.not_mem_nil, or_false] at hg
  rcases hg with rfl | rfl | rfl | rfl | rfl | rfl | rfl | rfl | rfl | rfl | rfl <;>
    first
      | exact Or.inl fun _ _ => rfl
      | exact Or.inr (RecordCheck.onChange_short_exact _ _ _)

theorem infoGuards_fires_none {g : Guard MachineInfo Key Value} (hg : g ∈ infoGuards)
    (v : MachineInfo) : g.fires none v = true := by
  rcases infoGuards_kind hg with halways | hexact
  · exact halways none v
  · exact (hexact none v (fun _ _ => trivial) trivial).mpr fun l hl => absurd hl (by simp)

theorem axisGuards_fires_none {g : Guard MachineAxisInfo AxisKey Scalar} (hg : g ∈ axisGuards)
    (a : MachineAxisInfo) : g.fires none a = true := by
  simp only [axisGuards, List.mem_cons, List.not_mem_nil, or_false] at hg
  rcases hg with rfl | rfl | rfl | rfl | rfl | rfl | rfl | rfl | rfl <;> rfl

/-- The top-level members are change-only iff every string moves. -/
theorem changeOnly_iff (vs : List MachineInfo) :
    (∀ p v, p ++ [v] <+: vs → ∀ g ∈ infoGuards,
        (g.fires p.getLast? v = true ↔ ∀ l ∈ p.getLast?, g.value l ≠ g.value v)) ↔
      ∀ p a b, p ++ [a, b] <+: vs → StringsMove a b := by
  refine forall_prefix_iff.trans ((and_iff_right fun v _ g hg => ?_).trans ?_)
  · exact iff_of_true (infoGuards_fires_none hg v) fun l hl => absurd hl (by simp)
  · refine forall₄_congr fun p a b _ => ?_
    rw [List.getLast?_concat, ← infoGuards_exact_iff a b]
    simp only [Option.mem_some_iff, forall_eq']

/-- Adding too often does no harm: every top-level member is tracked. -/
theorem infoGuards_track {g : Guard MachineInfo Key Value} (hg : g ∈ infoGuards)
    (vs : List MachineInfo) : Tracks infoGuards g vs := by
  rcases infoGuards_kind hg with halways | hexact
  · refine (tracks_iff infoGuards_keys_nodup hg vs).mpr
      ⟨fun v _ => halways none v, fun p a b _ hsilent => ?_⟩
    exact absurd ((halways _ _).symm.trans hsilent).symm Bool.false_ne_true
  · exact hexact.tracks infoGuards_keys_nodup hg fun _ _ => trivial

/-! ## The claim of the reader -/

theorem mem_axisGuardsAt {i : ℕ} {g : Guard MachineAxisInfo AxisKey Scalar}
    (hg : g ∈ axisGuards) :
    (axisGuardAt i g).within (MachineInfo.hasAxis i) ∈ axisGuardsAt i :=
  List.mem_map_of_mem (List.mem_map_of_mem hg)

/-- A member of a record differs from that of another record under its key. -/
theorem notMem_infoFields_iff {g : Guard MachineInfo Key Value} (hg : g ∈ infoGuards)
    (l v : MachineInfo) : (g.key, g.value v) ∉ l.fields ↔ g.value l ≠ g.value v := by
  rw [infoFields_eq, not_iff_not, List.mem_map]
  constructor
  · intro h
    obtain ⟨g', hg', heq⟩ := h
    obtain ⟨hkey, hvalue⟩ := Prod.mk.inj heq
    obtain rfl := List.inj_on_of_nodup_map infoGuards_keys_nodup hg' hg hkey
    exact hvalue
  · intro h
    exact ⟨g, hg, by rw [h]⟩

theorem changeOnly_fields_iff (s : State) (rs : List InfoReading) (r : InfoReading) :
    (∀ kx ∈ r.1.fields,
        kx.1 ∈ (infoAdded s rs r).map Prod.fst ↔ ∀ l ∈ rs.getLast?, kx ∉ l.1.fields) ↔
      ∀ g ∈ infoGuards, (g.fires (rs.map Prod.fst).getLast? r.1 = true ↔
        ∀ l ∈ (rs.map Prod.fst).getLast?, g.value l ≠ g.value r.1) := by
  rw [infoFields_eq, List.forall_mem_map]
  refine forall_congr' fun g => forall_congr' fun hg => ?_
  rw [key_mem_infoAdded_iff s rs r hg]
  refine iff_congr Iff.rfl ?_
  rw [List.getLast?_map]
  cases rs.getLast? with
  | none => exact iff_of_true (fun _ h => absurd h (by simp)) fun _ h => absurd h (by simp)
  | some l =>
    simp only [Option.map_some, Option.mem_some_iff, forall_eq']
    exact notMem_infoFields_iff hg l.1 r.1

/-! ## The axes, member by member -/

/-- What the guards of an axis leave out. `id` is not among it: its guard compares
addresses. -/
theorem axisGuards_silent_iff (cell b : MachineAxisInfo) (told : Option MachineAxisInfo) :
    (∀ g ∈ axisGuards, g.fires (some cell) b = false → ∃ w ∈ told, g.value w = g.value b) ↔
      AxisComes cell told b := by
  have hnumber (key : AxisKey) (read : MachineAxisInfo → Short) :
      ((Guard.onChange key read fun a => Scalar.number (read a).toInt).fires (some cell) b = false →
        ∃ w ∈ told, Scalar.number (read w).toInt = Scalar.number (read b).toInt) ↔
      (read cell = read b → ∃ w ∈ told, read w = read b) := by
    simp [Int16.toInt_inj]
  have hstring {A : Type} [DecidableEq A] (key : AxisKey) (watch : MachineAxisInfo → A)
      (read : MachineAxisInfo → CStr) :
      ((Guard.onChange key watch fun a => Scalar.string (read a)).fires (some cell) b = false →
        ∃ w ∈ told, Scalar.string (read w) = Scalar.string (read b)) ↔
      (watch cell = watch b → ∃ w ∈ told, read w = read b) := by
    simp
  have hdivisor :
      ((Guard.onChange AxisKey.divisor (·.divisor) fun a => Scalar.number a.divisor).fires
          (some cell) b = false →
        ∃ w ∈ told, Scalar.number w.divisor = Scalar.number b.divisor) ↔
      (cell.divisor = b.divisor → ∃ w ∈ told, w.divisor = b.divisor) := by
    simp
  unfold axisGuards
  simp only [List.forall_mem_cons, List.not_mem_nil, false_implies, implies_true, and_true]
  constructor
  · intro h
    obtain ⟨-, hindex, hsuffix, hdiv, hname, hflag, hunit, hunith, hdecimal⟩ := h
    exact ⟨(hnumber .index (·.index)).mp hindex,
      (hstring .suffix (·.suffix.take 2) (·.suffix)).mp hsuffix, hdivisor.mp hdiv,
      (hstring .name (·.name.take 5) (·.name)).mp hname, (hnumber .flag (·.flag)).mp hflag,
      (hnumber .unit (·.unit)).mp hunit, (hstring .unith (·.unit) (·.unith)).mp hunith,
      (hnumber .decimal (·.decimal)).mp hdecimal⟩
  · intro h
    have hid : (always AxisKey.id fun a : MachineAxisInfo => Scalar.string a.id).fires (some cell) b
        = false → ∃ w ∈ told, Scalar.string w.id = Scalar.string b.id :=
      fun hsilent => absurd hsilent.symm Bool.false_ne_true
    exact ⟨hid, (hnumber .index (·.index)).mpr h.index,
      (hstring .suffix (·.suffix.take 2) (·.suffix)).mpr h.suffix, hdivisor.mpr h.divisor,
      (hstring .name (·.name.take 5) (·.name)).mpr h.name, (hnumber .flag (·.flag)).mpr h.flag,
      (hnumber .unit (·.unit)).mpr h.unit, (hstring .unith (·.unit) (·.unith)).mpr h.unith,
      (hnumber .decimal (·.decimal)).mpr h.decimal⟩

/-- Of an axis that stays the reader was told what the cell holds. -/
theorem axisComes_self (a b : MachineAxisInfo) : AxisComes a (some a) b ↔ AxisStays a b := by
  constructor
  · intro h
    exact ⟨fun hsame => by simpa using h.suffix hsame, fun hsame => by simpa using h.name hsame,
      fun hsame => by simpa using h.unith hsame⟩
  · intro h
    exact ⟨fun hsame => ⟨a, rfl, hsame⟩, fun hsame => ⟨a, rfl, h.suffix hsame⟩,
      fun hsame => ⟨a, rfl, hsame⟩, fun hsame => ⟨a, rfl, h.name hsame⟩,
      fun hsame => ⟨a, rfl, hsame⟩, fun hsame => ⟨a, rfl, hsame⟩,
      fun hsame => ⟨a, rfl, h.unith hsame⟩, fun hsame => ⟨a, rfl, hsame⟩⟩

/-- The guards of one axis after the record `a`. -/
theorem axis_silent_iff (p : List MachineInfo) (a b : MachineInfo) (i : ℕ) :
    (∀ g ∈ axisGuards, g.fires (some (a.axes i)) (b.axes i) = false →
        ∃ w, lastWithin (MachineInfo.hasAxis i) (p ++ [a]) = some w ∧
          g.value (w.axes i) = g.value (b.axes i)) ↔
      if a.hasAxis i = true then AxisStays (a.axes i) (b.axes i)
      else AxisComes (a.axes i) ((lastWithin (MachineInfo.hasAxis i) p).map (·.axes i))
        (b.axes i) := by
  have htold (g : Guard MachineAxisInfo AxisKey Scalar) :
      (∃ w, lastWithin (MachineInfo.hasAxis i) (p ++ [a]) = some w ∧
        g.value (w.axes i) = g.value (b.axes i)) ↔
      ∃ w ∈ (lastWithin (MachineInfo.hasAxis i) (p ++ [a])).map (·.axes i),
        g.value w = g.value (b.axes i) := by
    simp
  simp only [htold]
  rw [axisGuards_silent_iff, lastWithin_snoc]
  by_cases ha : a.hasAxis i = true
  · rw [if_pos ha, if_pos ha, Option.map_some, axisComes_self]
  · rw [if_neg ha, if_neg ha]

/-- One member of one axis. -/
theorem axisGuard_tracks_iff {i : ℕ} {g : Guard MachineAxisInfo AxisKey Scalar}
    (hg : g ∈ axisGuards) (vs : List MachineInfo) :
    TracksWithin (MachineInfo.hasAxis i) (axisGuardsAt i)
        ((axisGuardAt i g).within (MachineInfo.hasAxis i)) vs ↔
      ∀ p a b, p ++ [a, b] <+: vs → b.hasAxis i = true →
        g.fires (some (a.axes i)) (b.axes i) = false →
          ∃ w, lastWithin (MachineInfo.hasAxis i) (p ++ [a]) = some w ∧
            g.value (w.axes i) = g.value (b.axes i) := by
  have hfires (lv : Option MachineInfo) {b : MachineInfo} (hb : b.hasAxis i = true) :
      ((axisGuardAt i g).within (MachineInfo.hasAxis i)).fires lv b
        = g.fires (lv.map (·.axes i)) (b.axes i) := by
    show (b.hasAxis i && g.fires (lv.map (·.axes i)) (b.axes i)) = _
    rw [hb, Bool.true_and]
  rw [tracksWithin_iff (axisGuardsAt_keys_nodup i) (mem_axisGuardsAt hg)
    fun lv v h => (Bool.and_eq_true _ _ ▸ h : _ ∧ _).1]
  -- the first call leaves nothing out
  refine forall_prefix_iff.trans ((and_iff_right fun b _ hb hsilent => ?_).trans ?_)
  · rw [hfires _ hb] at hsilent
    exact absurd ((axisGuards_fires_none hg _).symm.trans hsilent).symm Bool.false_ne_true
  · refine forall₄_congr fun p a b _ => forall_congr' fun hb => ?_
    rw [List.getLast?_concat, hfires _ hb]
    rfl

/-- What the axes of a record show, for all calls of a run. -/
theorem axes_shown_iff (s : State) (rs : List InfoReading) :
    (∀ p r, p ++ [r] <+: rs → ∀ i, r.1.hasAxis i = true → ∀ kx ∈ (r.1.axes i).fields,
        overlay (axisUpdates (infoCalls s (p ++ [r])).updates i) kx.1 = some kx.2) ↔
      AxesKept (rs.map Prod.fst) := by
  have htracks : AxesKept (rs.map Prod.fst) ↔ ∀ i, ∀ g ∈ axisGuards,
      TracksWithin (MachineInfo.hasAxis i) (axisGuardsAt i)
        ((axisGuardAt i g).within (MachineInfo.hasAxis i)) (rs.map Prod.fst) := by
    constructor
    · intro h i g hg
      exact (axisGuard_tracks_iff hg _).mpr fun p a b hp hb =>
        (axis_silent_iff p a b i).mpr (h p a b hp i hb) g hg
    · intro h p a b hp i hb
      exact (axis_silent_iff p a b i).mp fun g hg =>
        (axisGuard_tracks_iff hg _).mp (h i g hg) p a b hp hb
  have hshown (p : List InfoReading) (r : InfoReading) (i : ℕ)
      (g : Guard MachineAxisInfo AxisKey Scalar) :
      overlay (axisUpdates (infoCalls s (p ++ [r])).updates i) g.key
        = overlay (history (axisGuardsAt i) (p.map Prod.fst ++ [r.1])) g.key := by
    rw [axisUpdates_infoCalls, List.map_append, List.map_singleton]
  rw [htracks]
  constructor
  · intro h i g hg
    refine forall_prefix_map.mpr fun p r hp hr => ?_
    have hr' := h p r hp i hr (g.key, g.value (r.1.axes i))
      (axisFields_eq _ ▸ List.mem_map_of_mem hg)
    exact (hshown p r i g).symm.trans hr'
  · intro h p r hp i hr kx hkx
    rw [axisFields_eq] at hkx
    obtain ⟨g, hg, rfl⟩ := List.mem_map.mp hkx
    exact (hshown p r i g).trans (forall_prefix_map.mp (h i g hg) p r hp hr)

/-- **When the machine information is change-only and mergeable**: after every call of a
run, iff between any two successive calls each string compared by address moves, the axes
that stay keep their `unith` with their `unit` and differ in the characters compared if at
all, and those that come differ from the cell in every member that the reader does not
hold. -/
theorem info_mergeable_iff (s : State) (rs : List InfoReading) :
    (∀ p r, p ++ [r] <+: rs → InfoMergeable s p r) ↔
      (∀ p a b, p ++ [a, b] <+: rs → StringsMove a.1 b.1) ∧ AxesKept (rs.map Prod.fst) := by
  have hstrings := (forall_prefix_map (f := Prod.fst)).symm.trans (changeOnly_iff (rs.map Prod.fst))
  rw [forall_successive_map] at hstrings
  rw [← hstrings, ← axes_shown_iff s]
  constructor
  · intro h
    exact ⟨fun p r hp => (changeOnly_fields_iff s p r).mp (h p r hp).changeOnly,
      fun p r hp => (h p r hp).axes⟩
  · intro h p r hp
    obtain ⟨hchange, haxes⟩ := h
    refine ⟨(changeOnly_fields_iff s p r).mpr (hchange p r hp), ?_, haxes p r hp⟩
    intro kx hkx
    rw [infoFields_eq] at hkx
    obtain ⟨g, hg, rfl⟩ := List.mem_map.mp hkx
    rw [overlay_infoCalls s _ (infoGuards_key_ne hg)]
    exact tracks_map_iff.mp (infoGuards_track hg (rs.map Prod.fst)) p r hp

/-- A control with one axis, read twice without a change. -/
def sampleInfoReading : InfoReading :=
  ({ executionDuration := 0, id := "00000001".toList, max_axis := 32, addinfo := 0
     cnc_type := "30".toList, mt_type := " M".toList, series := "G301".toList
     version := "01.0".toList, axes_count_chk := "01".toList, axes_count := 1, etherType := 1
     etherDevice := 2
     axes := fun i =>
       { id := "X".toList, index := Int16.ofNat i, suffix := [], divisor := 1000
         name := "X".toList, flag := 1, unit := 0, unith := "mm".toList, decimal := 3 } },
    fun _ => 1000)

/-- The second call adds the id again, which did not change. -/
theorem info_string_repeated :
    .id ∈ (infoAdded (State.init 32) [sampleInfoReading] sampleInfoReading).map Prod.fst ∧
      ¬∀ p r, p ++ [r] <+: [sampleInfoReading, sampleInfoReading] →
        InfoMergeable (State.init 32) p r := by
  have hadded : .id ∈ (infoAdded (State.init 32) [sampleInfoReading] sampleInfoReading).map
      Prod.fst := by decide +kernel
  refine ⟨hadded, fun h => ?_⟩
  have hchange := (h [sampleInfoReading] sampleInfoReading (List.prefix_refl _)).changeOnly
    (.id, .string "00000001".toList) (by decide +kernel)
  exact hchange.mp hadded sampleInfoReading rfl (by decide +kernel)

end FanucDriver.Driver
