import FanucDriver.Driver.Lives
import FanucDriver.Driver.Triggers
import FanucDriver.Streams.Members

/-!
# Which texts a message holds

The driver hands the bytes of the control's texts through: program names and paths, headers and
programs, operator messages, executing blocks, and what `getMachineInfo` reads. Nothing makes
sure that they are UTF-8, so a program written in another code page arrives changed.

`texts_iff` says which texts have to be UTF-8 over the life of an adapter: those of the machine
information, once there is a message, and in each round those that its checks send
(`SendsUtf8`).
-/

namespace FanucDriver.Streams

open FanucDriver.Lib FanucDriver.Driver FanucDriver.Lib.Transducer CheckName

/-! ## Members -/

/-- The texts of the members that a field is named after. -/
def UpdatesUtf8 (us : Updates) : Prop := ∀ u ∈ us, keyField u.1 ≠ none → ValueUtf8 u.2

theorem updatesUtf8_nil : UpdatesUtf8 [] := fun _ h => absurd h List.not_mem_nil

theorem updatesUtf8_cons_iff {k : Key} {x : Value} {us : Updates} (hk : keyField k ≠ none) :
    UpdatesUtf8 ((k, x) :: us) ↔ ValueUtf8 x ∧ UpdatesUtf8 us :=
  List.forall_mem_cons.trans (and_congr_left' ⟨fun h => h hk, fun h _ => h⟩)

theorem updatesUtf8_emit_iff {S : Type} (gs : List (Guard S Key Value)) (lv : Option S) (v : S) :
    UpdatesUtf8 (emit gs lv v) ↔
      ∀ g ∈ gs, g.fires lv v = true → keyField g.key ≠ none → ValueUtf8 (g.value v) := by
  constructor
  · intro h g hg hfires
    exact h _ (mem_emit.mpr ⟨g, hg, hfires, rfl⟩)
  · intro h u hu
    obtain ⟨g, hg, hfires, rfl⟩ := mem_emit.mp hu
    exact h g hg hfires

theorem updatesUtf8_emit {S : Type} {gs : List (Guard S Key Value)} {v : S}
    (h : ∀ g ∈ gs, ValueUtf8 (g.value v)) (lv : Option S) : UpdatesUtf8 (emit gs lv v) :=
  (updatesUtf8_emit_iff gs lv v).mpr fun g hg _ _ => h g hg

theorem updatesUtf8_elim_iff {S : Type} {r : Option S} {us : S → Updates} :
    UpdatesUtf8 (r.elim [] us) ↔ ∀ v ∈ r, UpdatesUtf8 (us v) := by
  cases r with
  | none => exact iff_of_true updatesUtf8_nil fun _ hv => absurd hv (by simp)
  | some v => exact ⟨fun h w hw => Option.some.inj hw ▸ h, fun h => h v rfl⟩

/-- Members that a check sends when it is triggered. -/
theorem updatesUtf8_triggered_iff {S : Type} {p : Prop} [Decidable p] {r : Option S}
    {us : S → Updates} : UpdatesUtf8 (if p then [] else r.elim [] us) ↔
      (¬p → ∀ v ∈ r, UpdatesUtf8 (us v)) := by
  split
  next h => exact iff_of_true updatesUtf8_nil fun hp => absurd h hp
  next h => exact updatesUtf8_elim_iff.trans ⟨fun hr _ => hr, fun hr => hr h⟩

/-- A text that is sent when what its guard watches changes. -/
theorem onChange_text_iff {S A : Type} [DecidableEq A] {key : Key} {watch : S → A}
    {value : S → Value} (hkey : keyField key ≠ none) (lv : Option S) (v : S) :
    ((Guard.onChange key watch value).fires lv v = true →
        keyField (Guard.onChange key watch value).key ≠ none →
        ValueUtf8 ((Guard.onChange key watch value).value v)) ↔
      (lv.map watch ≠ some (watch v) → ValueUtf8 (value v)) := by
  have hfires : (Guard.onChange key watch value).fires lv v = true ↔
      lv.map watch ≠ some (watch v) := by
    cases lv <;> simp
  exact ⟨fun h hne => h (hfires.mpr hne) hkey, fun h hf _ => h (hfires.mp hf)⟩

/-! ## The machine information -/

structure AxisUtf8 (a : MachineAxisInfo) : Prop where
  id : IsUtf8 a.id
  suffix : IsUtf8 a.suffix
  name : IsUtf8 a.name
  unith : IsUtf8 a.unith

structure InfoUtf8 (v : MachineInfo) : Prop where
  cnc_type : IsUtf8 v.cnc_type
  mt_type : IsUtf8 v.mt_type
  series : IsUtf8 v.series
  version : IsUtf8 v.version
  axes_count_chk : IsUtf8 v.axes_count_chk
  axes : ∀ i < v.axes_count.toNatClampNeg, AxisUtf8 (v.axes i)

/-- The machine information that is read before the loop. -/
def InfoTexts (r : InfoReply) : Prop :=
  ∀ v divisors, getMachineInfo r (fun _ => 0) = some (v, divisors) → InfoUtf8 v

theorem axisUtf8_iff (a : MachineAxisInfo) :
    AxisUtf8 a ↔ ∀ k, ∀ x ∈ overlay (emit axisGuards none a) k, ScalarUtf8 x := by
  constructor
  · intro h k x hx
    obtain rfl := Option.some.inj ((overlay_axis a k).symm.trans hx)
    cases k with
    | id => exact h.id
    | suffix => exact h.suffix
    | name => exact h.name
    | unith => exact h.unith
    | _ => trivial
  · intro h
    exact ⟨h .id _ (overlay_axis a .id), h .suffix _ (overlay_axis a .suffix),
      h .name _ (overlay_axis a .name), h .unith _ (overlay_axis a .unith)⟩

/-- What `checkMachineInfo` adds before the loop. -/
theorem infoUpdates_utf8_iff (v : MachineInfo) :
    UpdatesUtf8 (emit infoGuards none v ++ axesUpdate none v) ↔ InfoUtf8 v := by
  have haxes : UpdatesUtf8 (axesUpdate none v) ↔
      ∀ i < v.axes_count.toNatClampNeg, AxisUtf8 (v.axes i) := by
    have hdata : ValueUtf8 (.axes (axesDatum none v)) ↔
        ∀ i < v.axes_count.toNatClampNeg, AxisUtf8 (v.axes i) := by
      simp only [ValueUtf8, axesDatum, List.forall_mem_map, List.mem_range, axisUtf8_iff,
        Option.map_none]
    unfold axesUpdate
    split
    · refine (updatesUtf8_cons_iff (by decide)).trans ?_
      exact (and_iff_left updatesUtf8_nil).trans hdata
    next hempty =>
      -- without a member there is no axis
      refine iff_of_true updatesUtf8_nil fun i hi => absurd ?_ hempty
      exact List.any_eq_true.mpr
        ⟨_, List.mem_map_of_mem (List.mem_range.mpr hi), rfl⟩
  have hguards : UpdatesUtf8 (emit infoGuards none v) ↔
      IsUtf8 v.cnc_type ∧ IsUtf8 v.mt_type ∧ IsUtf8 v.series ∧ IsUtf8 v.version ∧
        IsUtf8 v.axes_count_chk := by
    rw [updatesUtf8_emit_iff]
    constructor
    · intro h
      have htext : ∀ key (text : MachineInfo → CStr),
          always key (fun v => .string (text v)) ∈ infoGuards → keyField key ≠ none →
            IsUtf8 (text v) := fun key text hg hk => h _ hg rfl hk
      exact ⟨htext .cnc_type (·.cnc_type) (by simp [infoGuards]) (by decide),
        htext .mt_type (·.mt_type) (by simp [infoGuards]) (by decide),
        htext .series (·.series) (by simp [infoGuards]) (by decide),
        htext .version (·.version) (by simp [infoGuards]) (by decide),
        htext .axes_count_chk (·.axes_count_chk) (by simp [infoGuards]) (by decide)⟩
    · intro h
      obtain ⟨hcnc, hmt, hseries, hversion, hcount⟩ := h
      simp only [infoGuards, List.forall_mem_cons]
      exact ⟨fun _ hk => absurd rfl hk, fun _ _ => trivial, fun _ _ => trivial, fun _ _ => hcnc,
        fun _ _ => hmt, fun _ _ => hseries, fun _ _ => hversion, fun _ _ => hcount,
        fun _ _ => trivial, fun _ _ => trivial, fun _ _ => trivial,
        fun _ hg => absurd hg List.not_mem_nil⟩
  refine List.forall_mem_append.trans ((and_congr hguards haxes).trans ?_)
  constructor
  · intro h
    obtain ⟨⟨hcnc, hmt, hseries, hversion, hcount⟩, haxes⟩ := h
    exact ⟨hcnc, hmt, hseries, hversion, hcount, haxes⟩
  · intro h
    exact ⟨⟨h.cnc_type, h.mt_type, h.series, h.version, h.axes_count_chk⟩, h.axes⟩

/-! ## The checks of a tick -/

theorem machineStatus_ascii (status : ODBST) :
    Utf8.Ascii (machineExecution status) ∧ Utf8.Ascii (machineMode status) ∧
      Utf8.Ascii (machineEstop status) := by
  refine ⟨?_, ?_, ?_⟩
  · unfold machineExecution
    split_ifs <;> decide
  · unfold machineMode
    split_ifs <;> decide
  · unfold machineEstop
    split_ifs <;> decide

/-- The texts of a status are the driver's own. -/
theorem statusGuards_utf8 (tt : ULong) (status : ODBST) :
    ∀ g ∈ statusGuards, ValueUtf8 (g.value (machineStatus tt status)) := by
  obtain ⟨hexecution, hmode, hestop⟩ := machineStatus_ascii status
  simp only [statusGuards, List.forall_mem_cons]
  exact ⟨isUtf8_ascii _ hexecution, isUtf8_ascii _ hmode, isUtf8_ascii _ hestop, trivial, trivial,
    trivial, trivial, trivial, trivial, trivial, trivial, fun _ hg => absurd hg List.not_mem_nil⟩

theorem dynamicGuards_utf8 (v : MachineDynamic) : ∀ g ∈ dynamicGuards, ValueUtf8 (g.value v) := by
  simp only [dynamicGuards, List.forall_mem_cons]
  exact ⟨trivial, trivial, trivial, trivial, trivial, trivial, trivial, trivial, trivial, trivial,
    fun _ hg => absurd hg List.not_mem_nil⟩

/-- The checks that send the control's texts. -/
def textChecks : List CheckName :=
  [.message, .programName, .programHeader, .programContents, .block]

/-- The others send numbers, and texts of their own. -/
theorem adds_utf8 {c : CheckName} (hc : c ∉ textChecks) (lib : Library) (s : State) :
    UpdatesUtf8 (c.adds lib s) := by
  cases c with
  | partCount =>
    refine updatesUtf8_elim_iff.mpr fun v _ => updatesUtf8_emit (fun g hg => ?_) _
    obtain rfl := List.mem_singleton.mp hg
    trivial
  | cycleTime =>
    exact updatesUtf8_triggered_iff.mpr fun _ v _ =>
      (updatesUtf8_cons_iff (by decide)).mpr ⟨trivial, updatesUtf8_nil⟩
  | status =>
    refine updatesUtf8_elim_iff.mpr fun v hv => ?_
    obtain ⟨status, -, rfl⟩ := Option.map_eq_some_iff.mp hv
    exact updatesUtf8_emit (statusGuards_utf8 _ status) _
  | toolInfo =>
    refine updatesUtf8_emit ?_ _
    simp only [toolInfoGuards, List.forall_mem_cons]
    exact ⟨trivial, trivial, fun _ hg => absurd hg List.not_mem_nil⟩
  | dynamic =>
    exact updatesUtf8_elim_iff.mpr fun v _ => updatesUtf8_emit (dynamicGuards_utf8 v) _
  | _ => exact absurd (by decide) hc

/-- The texts of the control that a round sends: an operator message and a block when they
changed, name, path and header of a program when the current program moved, and a program when
the main program did. -/
structure SendsUtf8 (r : Round) : Prop where
  message_text : ∀ v ∈ getMachineMessage r.tick.lib.message, v.number ≠ -1 →
    r.before.messageLv.map (·.text.take 256) ≠ some (v.text.take 256) → IsUtf8 v.text
  program_name : ∀ now ∈ r.numbers, r.before.nameCProgramNum ≠ now.1 →
    ∀ v ∈ getMachineProgramName r.tick.lib.programName, IsUtf8 v.name ∧ IsUtf8 v.path
  program_header : ∀ now ∈ r.numbers, r.before.headerCProgramNum ≠ now.1 →
    ∀ v ∈ getMachineProgramHeader r.tick.lib.header now.1, IsUtf8 v.header
  program : ∀ now ∈ r.numbers, r.before.lastProgramNum ≠ now.2 →
    ∀ v ∈ getMachineProgramContents r.tick.lib.contents, ∀ contents ∈ v.contents,
      IsUtf8 (cString contents)
  block : ∀ v ∈ getMachineBlock r.tick.lib.block,
    r.before.blockLv.map (·.block) ≠ some v.block → IsUtf8 v.block

theorem messageGuards_utf8_iff (lv : Option MachineMessage) (v : MachineMessage) :
    UpdatesUtf8 (emit messageGuards lv v) ↔ (v.number ≠ -1 →
      lv.map (·.text.take 256) ≠ some (v.text.take 256) → IsUtf8 v.text) := by
  have hvalue : ValueUtf8 (if v.number ≠ -1 then .string v.text else .null) ↔
      (v.number ≠ -1 → IsUtf8 v.text) := by
    split
    next h => exact ⟨fun ht _ => ht, fun ht => ht h⟩
    next h => exact iff_of_true trivial fun hne => absurd hne h
  rw [updatesUtf8_emit_iff, messageGuards, List.forall_mem_cons, List.forall_mem_singleton,
    onChange_text_iff (by decide), onChange_text_iff (by decide), hvalue]
  exact (and_iff_right fun _ => trivial).trans ⟨fun h hn hne => h hne hn, fun h hne hn => h hn hne⟩

theorem blockGuards_utf8_iff (lv : Option MachineBlock) (v : MachineBlock) :
    UpdatesUtf8 (emit blockGuards lv v) ↔
      (lv.map (·.block) ≠ some v.block → IsUtf8 v.block) := by
  rw [updatesUtf8_emit_iff, blockGuards, List.forall_mem_cons, List.forall_mem_singleton,
    onChange_text_iff (by decide), onChange_text_iff (by decide)]
  exact and_iff_left fun _ => trivial

theorem contentsUpdates_utf8_iff (v : MachineProgramContents) :
    UpdatesUtf8 (contentsUpdates v) ↔ ∀ contents ∈ v.contents, IsUtf8 (cString contents) := by
  refine (updatesUtf8_cons_iff (by decide)).trans ((and_iff_right trivial).trans ?_)
  cases v.contents with
  | none => exact iff_of_true updatesUtf8_nil fun _ h => absurd h (by simp)
  | some contents =>
    refine (updatesUtf8_cons_iff (by decide)).trans ((and_iff_left updatesUtf8_nil).trans ?_)
    exact ⟨fun h x hx => Option.some.inj hx ▸ h, fun h => h contents rfl⟩

/-! ## A round -/

section
variable {l : Life} {r : Round} (hr : r ∈ l.rounds)
include hr

/-- A round's message is what stood in the object and what each check added. -/
theorem message_utf8_iff : UpdatesUtf8 r.message.values ↔
    UpdatesUtf8 r.before.updates ∧ ∀ c, UpdatesUtf8 (project (some c) r.writes) := by
  rw [← Round.project_none, Round.values_eq (mainRounds_success r hr)]
  constructor
  · intro h
    have hproject : ∀ w, UpdatesUtf8 (project w r.writes) := fun w u hu =>
      h u (List.mem_map_of_mem (mem_project.mp hu))
    exact ⟨hproject none, fun c => hproject (some c)⟩
  · intro h u hu
    obtain ⟨⟨w, u⟩, hw, rfl⟩ := List.mem_map.mp hu
    cases w with
    | none => exact h.1 u (mem_project.mpr hw)
    | some c => exact h.2 c u (mem_project.mpr hw)

/-- The last texts of a message are all of its texts. -/
theorem textsUtf8_iff : TextsUtf8 r.message ↔ UpdatesUtf8 r.message.values := by
  constructor
  · intro h u hu hk
    by_cases halarm : u.1 = .alarm
    · -- the two checks that write it send numbers
      rw [Round.values_eq (mainRounds_success r hr)] at hu
      obtain ⟨⟨w, u⟩, hw, rfl⟩ := List.mem_map.mp hu
      have hwriter : ∀ w, .alarm ∈ writerKeys w → w = some .status ∨ w = some .dynamic := by
        rintro (_ | c)
        · decide
        · cases c <;> decide
      have hkey : u.1 ∈ writerKeys w := Round.mem_writerKeys hr hw
      rw [show u.1 = .alarm from halarm] at hkey
      have hadds : ∀ c, c ∉ textChecks → w = some c → ValueUtf8 u.2 := by
        rintro c hc rfl
        refine adds_utf8 hc r.tick.lib (before r.tick.lib c r.before) u ?_ hk
        rw [← Round.project_writes]
        exact mem_project.mpr hw
      rcases hwriter w hkey with hw' | hw'
      · exact hadds .status (by decide) hw'
      · exact hadds .dynamic (by decide) hw'
    · obtain ⟨f, hf⟩ := Option.ne_none_iff_exists'.mp hk
      rw [← find_key, valuesSchema.find_eq_some_iff] at hf
      exact h f u.1 hf u.2 (Round.overlay_of_mem hr hu halarm)
  · intro h f k hf x hx
    rw [← valuesSchema.find_eq_some_iff, find_key] at hf
    exact h (k, x) (overlay_mem hx) (by rw [hf]; exact Option.some_ne_none f)

/-- What the current and the main program number are when a check asks. -/
theorem exists_numbers : ∃ now, r.numbers = some now ∧ ∀ c, .dynamic ∉ all.dropWhile (· ≠ c) →
    (before r.tick.lib c r.before).cProgramNum = now.1 ∧
      (before r.tick.lib c r.before).mProgramNum = now.2 := by
  have hsuccess := mainRounds_success r hr
  have hfollows := (mainRounds_settled hr).1.programs
  obtain ⟨now, -, hnow, -⟩ := loopTick_programs hfollows hsuccess
  exact ⟨now, hnow, fun c hc => before_numbers hfollows hsuccess hnow hc⟩

theorem message_text_iff : UpdatesUtf8 (project (some .message) r.writes) ↔
    ∀ v ∈ getMachineMessage r.tick.lib.message, v.number ≠ -1 →
      r.before.messageLv.map (·.text.take 256) ≠ some (v.text.take 256) → IsUtf8 v.text := by
  obtain ⟨v, hv, -, hwrites⟩ := Round.keeps (mainRounds_success r hr) .message
  change getMachineMessage r.tick.lib.message = some v at hv
  change project (some .message) r.writes = emit messageGuards r.before.messageLv v at hwrites
  rw [hwrites, messageGuards_utf8_iff, hv]
  exact ⟨fun h w hw => Option.some.inj hw ▸ h, fun h => h v rfl⟩

theorem block_iff : UpdatesUtf8 (project (some .block) r.writes) ↔
    ∀ v ∈ getMachineBlock r.tick.lib.block,
      r.before.blockLv.map (·.block) ≠ some v.block → IsUtf8 v.block := by
  obtain ⟨v, hv, -, hwrites⟩ := Round.keeps (mainRounds_success r hr) .block
  change getMachineBlock r.tick.lib.block = some v at hv
  change project (some .block) r.writes = emit blockGuards r.before.blockLv v at hwrites
  rw [hwrites, blockGuards_utf8_iff, hv]
  exact ⟨fun h w hw => Option.some.inj hw ▸ h, fun h => h v rfl⟩

theorem program_name_iff : UpdatesUtf8 (project (some .programName) r.writes) ↔
    ∀ now ∈ r.numbers, r.before.nameCProgramNum ≠ now.1 →
      ∀ v ∈ getMachineProgramName r.tick.lib.programName, IsUtf8 v.name ∧ IsUtf8 v.path := by
  obtain ⟨now, hnow, hnum⟩ := exists_numbers hr
  rw [Round.project_writes, adds, (hnum _ (by decide)).1,
    (before_frame r.tick.lib .programName r.before).programName fun hne => hne rfl,
    updatesUtf8_triggered_iff, hnow]
  refine Iff.trans ?_ ⟨fun h n hn => Option.some.inj hn ▸ h, fun h => h now rfl⟩
  refine imp_congr_right fun _ => forall₂_congr fun v _ => ?_
  rw [updatesUtf8_cons_iff (by decide), updatesUtf8_cons_iff (by decide)]
  exact and_congr_right' (and_iff_left updatesUtf8_nil)

theorem program_header_iff : UpdatesUtf8 (project (some .programHeader) r.writes) ↔
    ∀ now ∈ r.numbers, r.before.headerCProgramNum ≠ now.1 →
      ∀ v ∈ getMachineProgramHeader r.tick.lib.header now.1, IsUtf8 v.header := by
  obtain ⟨now, hnow, hnum⟩ := exists_numbers hr
  rw [Round.project_writes, adds, (hnum _ (by decide)).1,
    (before_frame r.tick.lib .programHeader r.before).programHeader fun hne => hne rfl,
    updatesUtf8_triggered_iff, hnow]
  refine Iff.trans ?_ ⟨fun h n hn => Option.some.inj hn ▸ h, fun h => h now rfl⟩
  refine imp_congr_right fun _ => forall₂_congr fun v _ => ?_
  rw [updatesUtf8_cons_iff (by decide)]
  exact and_iff_left updatesUtf8_nil

theorem program_iff : UpdatesUtf8 (project (some .programContents) r.writes) ↔
    ∀ now ∈ r.numbers, r.before.lastProgramNum ≠ now.2 →
      ∀ v ∈ getMachineProgramContents r.tick.lib.contents, ∀ contents ∈ v.contents,
        IsUtf8 (cString contents) := by
  obtain ⟨now, hnow, hnum⟩ := exists_numbers hr
  rw [Round.project_writes, adds, (hnum _ (by decide)).2,
    (before_frame r.tick.lib .programContents r.before).programContents fun hne => hne rfl,
    updatesUtf8_triggered_iff, hnow]
  refine Iff.trans ?_ ⟨fun h n hn => Option.some.inj hn ▸ h, fun h => h now rfl⟩
  exact imp_congr_right fun _ => forall₂_congr fun v _ => contentsUpdates_utf8_iff v

/-- What the checks of a round add. -/
theorem sendsUtf8_iff : SendsUtf8 r ↔ ∀ c, UpdatesUtf8 (project (some c) r.writes) := by
  constructor
  · intro h c
    by_cases hc : c ∈ textChecks
    · simp only [textChecks, List.mem_cons, List.not_mem_nil, or_false] at hc
      rcases hc with rfl | rfl | rfl | rfl | rfl
      · exact (message_text_iff hr).mpr h.message_text
      · exact (program_name_iff hr).mpr h.program_name
      · exact (program_header_iff hr).mpr h.program_header
      · exact (program_iff hr).mpr h.program
      · exact (block_iff hr).mpr h.block
    · rw [Round.project_writes]
      exact adds_utf8 hc _ _
  · intro h
    exact ⟨(message_text_iff hr).mp (h _), (program_name_iff hr).mp (h _),
      (program_header_iff hr).mp (h _), (program_iff hr).mp (h _), (block_iff hr).mp (h _)⟩

end

/-! ## A life -/

/-- What stands in the objects before the ticks of a run. -/
theorem rounds_before_utf8_iff (s : State) (ts : List Tick) :
    (∀ r ∈ rounds s ts, UpdatesUtf8 r.before.updates) ↔
      (rounds s ts ≠ [] → UpdatesUtf8 s.updates) := by
  cases h : rounds s ts with
  | nil => exact iff_of_true (fun _ hr => absurd hr List.not_mem_nil) fun hne => absurd rfl hne
  | cons r rs =>
    obtain ⟨ts', hbefore, rfl⟩ := rounds_cons_inv h
    have hrest : ∀ x ∈ rounds r.after.fresh ts', UpdatesUtf8 x.before.updates :=
      rounds_invariant (P := fun s => UpdatesUtf8 s.updates) (fun _ _ _ _ _ => updatesUtf8_nil)
        updatesUtf8_nil ts'
    rw [List.forall_mem_cons, hbefore]
    exact ⟨fun hall _ => hall.1, fun hs => ⟨hs (List.cons_ne_nil _ _), hrest⟩⟩

/-- **Which texts have to be UTF-8**: all that the messages of a life hold are iff those of the
machine information are, once there is a message, and in each round those its checks send. -/
theorem texts_iff (l : Life) :
    (∀ r ∈ l.rounds, TextsUtf8 r.message) ↔
      (l.rounds ≠ [] → InfoTexts l.info) ∧ ∀ r ∈ l.rounds, SendsUtf8 r := by
  have hround : ∀ r ∈ l.rounds,
      (TextsUtf8 r.message ↔ UpdatesUtf8 r.before.updates ∧ SendsUtf8 r) := fun r hr =>
    (textsUtf8_iff hr).trans ((message_utf8_iff hr).trans
      (and_congr_right' (sendsUtf8_iff hr).symm))
  refine (forall₂_congr hround).trans ?_
  simp only [forall_and]
  refine and_congr_left' ?_
  unfold Life.rounds mainRounds
  cases hs : start l.maxAxis l.info with
  | none => exact iff_of_true (fun _ hr => absurd hr List.not_mem_nil) fun hne => absurd rfl hne
  | some s =>
    refine (rounds_before_utf8_iff s l.ticks).trans (imp_congr_right fun _ => ?_)
    obtain ⟨⟨v, divisors⟩, hv, rfl⟩ := exists_of_start hs
    refine (infoUpdates_utf8_iff v).trans ⟨fun h w d hw => ?_, fun h => h v divisors hv⟩
    obtain rfl := (Prod.mk.inj (Option.some.inj (hv.symm.trans hw))).1
    exact h

end FanucDriver.Streams
