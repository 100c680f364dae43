import FanucDriver.Driver.Main
import Mathlib.Tactic.NormNum
import Mathlib.Data.Rat.Cast.Defs

/-!
# Delta streams: what a reader of the updates holds

The checks publish a field only when it changed against their static copy of the
last record, so a reader has to overlay the updates to see the machine. This
file asks, check by check, whether that overlay is the latest record.

- `deltaStreams_reconstruct`: for part count, dynamic data, tool and block it is,
  for calls of the four checks in any order. A member is added exactly on the
  first call and on a change, and the shared program numbers and part count are
  those of the latest records. The four axis arrays are the one exception: with
  no axis the loops that raise their flags do not run, so they are never added.
- `status_reconstructs_iff`: for the status it is not. The guard of `estop`
  compares the mode, so the emergency stop is stale exactly when it moved while
  the mode did not.

Both are instances of `Lib.tracks_iff`: what is left to show is which guards
fire exactly on a change.
-/

namespace FanucDriver.Driver

open FanucDriver.Lib

/-- A `values` object shows a snapshot when every member of the snapshot is the
last value held under its key. -/
def Shows (us snapshot : Updates) : Prop := ∀ kx ∈ snapshot, overlay us kx.1 = some kx.2

/-! ## The four record checks -/

inductive RecordCheck where
  | partCount
  | dynamic
  | toolInfo
  | block
  deriving DecidableEq

namespace RecordCheck

/-- The record of `data.h` the check keeps. -/
abbrev Record : RecordCheck → Type
  | partCount => MachinePartCount
  | dynamic => MachineDynamic
  | toolInfo => MachineToolInfo
  | block => MachineBlock

/-- The check's static `lv`. -/
def lv : (c : RecordCheck) → State → Option c.Record
  | partCount, s => s.partCountLv
  | dynamic, s => s.dynamicLv
  | toolInfo, s => s.toolInfoLv
  | block, s => s.blockLv

/-- A successful call: the getter delivered `v`. -/
def call : (c : RecordCheck) → c.Record → State → State
  | partCount, v, s => (checkMachinePartCount (some v) s).2
  | dynamic, v, s => (checkMachineDynamic (some v) s).2
  | toolInfo, v, s => (checkMachineToolInfo (v, s.toolFlags) s).2
  | block, v, s => (checkMachineBlock (some v) s).2

def guards : (c : RecordCheck) → List (Guard c.Record Key Value)
  | partCount => [partCountGuard]
  | dynamic => dynamicGuards
  | toolInfo => toolInfoGuards
  | block => blockGuards

/-- The first `dim` entries of an axis array, as published. -/
def axisArray (v : MachineDynamic) (read : MachineDynamic → Nat → ℚ) : Value :=
  .numbers ((List.range v.dim.toNatClampNeg).map (read v))

/-- The four arrays of a machine with at least one axis. -/
def axisFields (v : MachineDynamic) : Updates :=
  if 0 < v.dim then
    [(.absolute, axisArray v (·.absolute)), (.relative, axisArray v (·.relative)),
     (.actual, axisArray v (·.actual)), (.load, axisArray v (·.load))]
  else []

/-- The members a record stands for: the keys the check owns, with their values. -/
def fields : (c : RecordCheck) → c.Record → Updates
  | partCount, v => [(.part_count, .number v.count.toInt)]
  | dynamic, v =>
    axisFields v ++
      [(.cprogram, .number v.cprogram.toInt), (.mprogram, .number v.mprogram.toInt),
       (.sequence, .number v.sequence.toInt), (.actf, .number v.actf.toInt),
       (.acts, .number v.acts.toInt), (.alarm, .number v.alarm.toInt)]
  | toolInfo, v => [(.tool_id, .number v.id.toInt), (.tool_group, .number v.group.toInt)]
  | block, v => [(.block, .string v.block), (.block_num, .number v.blkNum.toInt)]

/-! ### What one call does -/

theorem call_updates (c : RecordCheck) (v : c.Record) (s : State) :
    (c.call v s).updates = s.updates ++ emit c.guards (c.lv s) v := by
  cases c <;> rfl

theorem call_lv (c : RecordCheck) (v : c.Record) (s : State) : c.lv (c.call v s) = some v := by
  cases c <;> rfl

theorem call_lv_ne {c d : RecordCheck} (h : d ≠ c) (v : c.Record) (s : State) :
    d.lv (c.call v s) = d.lv s := by
  cases c <;> cases d <;> first | exact absurd rfl h | rfl

theorem fresh_lv (c : RecordCheck) (s : State) : c.lv s.fresh = c.lv s := by
  cases c <;> rfl

theorem guards_keys_nodup (c : RecordCheck) : (c.guards.map Guard.key).Nodup := by
  cases c <;> decide

/-! ### Which guards are exact -/

/-- The guards that can fire on records with `dim` axes: without axes the four
array guards come to nothing. -/
def liveGuards (dim : Short) : (c : RecordCheck) → List (Guard c.Record Key Value)
  | dynamic => if 0 < dim then dynamicGuards else dynamicGuards.drop 4
  | partCount => guards partCount
  | toolInfo => guards toolInfo
  | block => guards block

/-- The record was read with `dim` axes; only the dynamic record says how many. -/
def HasDim (dim : Short) : (c : RecordCheck) → c.Record → Prop
  | dynamic, v => v.dim = dim
  | _, _ => True

theorem liveGuards_subset (dim : Short) (c : RecordCheck) : c.liveGuards dim ⊆ c.guards := by
  cases c with
  | dynamic =>
    simp only [liveGuards]
    split
    · exact List.Subset.refl _
    · exact List.drop_subset 4 _
  | partCount => exact List.Subset.refl _
  | toolInfo => exact List.Subset.refl _
  | block => exact List.Subset.refl _

theorem fields_eq (dim : Short) (c : RecordCheck) {v : c.Record} (hv : c.HasDim dim v) :
    c.fields v = (c.liveGuards dim).map fun g => (g.key, g.value v) := by
  cases c with
  | dynamic =>
    obtain rfl : v.dim = dim := hv
    simp only [fields, axisFields, liveGuards]
    split <;> rfl
  | partCount => rfl
  | toolInfo => rfl
  | block => rfl

theorem toNatClampNeg_pos {dim : Short} : 0 < dim.toNatClampNeg ↔ 0 < dim := by
  rw [Int16.lt_iff_toInt_lt, ← Int16.toNat_toInt]
  exact Int.pos_iff_toNat_pos.symm

/-- With at least one axis the flag of an array is raised by exactly the arrays
that differ below `dim`. -/
theorem axisArrayGuard_exact {dim : Short} (hd : 0 < dim) (key : Key)
    (read : MachineDynamic → Nat → ℚ) : (axisArrayGuard key read).Exact (HasDim dim dynamic) := by
  intro lv v hlv hv
  obtain rfl : v.dim = dim := hv
  cases lv with
  | none =>
    -- on the first call axis 0 raises the flag
    have h0 : 0 ∈ List.range v.dim.toNatClampNeg := List.mem_range.mpr (toNatClampNeg_pos.mpr hd)
    simp only [axisArrayGuard, Option.all_none, List.any_eq_true]
    exact ⟨fun _ => by simp, fun _ => ⟨0, h0, trivial⟩⟩
  | some l =>
    have hl : l.dim = v.dim := hlv l rfl
    have hval : (axisArrayGuard key read).value l = (axisArrayGuard key read).value v ↔
        ∀ i ∈ List.range v.dim.toNatClampNeg, read l i = read v i := by
      simp only [axisArrayGuard, hl, Value.numbers.injEq]
      exact List.map_inj_left
    simp only [Option.mem_def, Option.some.injEq, forall_eq', ne_eq, hval]
    simp [axisArrayGuard]

/-- Without axes the loop that raises the flag does not run. -/
theorem axisArrayGuard_silent {v : MachineDynamic} (hd : ¬0 < v.dim) (key : Key)
    (read : MachineDynamic → Nat → ℚ) (lv : Option MachineDynamic) :
    (axisArrayGuard key read).fires lv v = false := by
  have h0 : v.dim.toNatClampNeg = 0 :=
    Nat.eq_zero_of_not_pos fun h => hd (toNatClampNeg_pos.mp h)
  simp [axisArrayGuard, h0]

theorem onChange_short_exact {S : Type} (key : Key) (watch : S → Short) (P : S → Prop) :
    (Guard.onChange key watch fun v => Value.number (watch v).toInt).Exact P :=
  Guard.onChange_exact (fun a b => by
    simp only [Value.scalar.injEq, Scalar.number.injEq, Int.cast_inj, Int16.toInt_inj]) P

theorem onChange_long_exact {S : Type} (key : Key) (watch : S → Long) (P : S → Prop) :
    (Guard.onChange key watch fun v => Value.number (watch v).toInt).Exact P :=
  Guard.onChange_exact (fun a b => by
    simp only [Value.scalar.injEq, Scalar.number.injEq, Int.cast_inj, Int32.toInt_inj]) P

theorem onChange_string_exact {S : Type} (key : Key) (watch : S → CStr) (P : S → Prop) :
    (Guard.onChange key watch fun v => Value.string (watch v)).Exact P :=
  Guard.onChange_exact (fun a b => by
    simp only [Value.scalar.injEq, Scalar.string.injEq]) P

/-- Every live guard fires exactly on a change. -/
theorem liveGuards_exact (dim : Short) (c : RecordCheck) :
    ∀ g ∈ c.liveGuards dim, g.Exact (c.HasDim dim) := by
  intro g hg
  cases c with
  | partCount =>
    obtain rfl := List.mem_singleton.mp hg
    exact onChange_long_exact _ _ _
  | toolInfo =>
    simp only [liveGuards, guards, toolInfoGuards, List.mem_cons, List.not_mem_nil,
      or_false] at hg
    rcases hg with rfl | rfl
    · exact onChange_long_exact _ _ _
    · exact onChange_long_exact _ _ _
  | block =>
    simp only [liveGuards, guards, blockGuards, List.mem_cons, List.not_mem_nil, or_false] at hg
    rcases hg with rfl | rfl
    · exact onChange_string_exact _ _ _
    · exact onChange_long_exact _ _ _
  | dynamic =>
    -- the guards after the four arrays watch what they publish
    have hscalar : ∀ g ∈ dynamicGuards.drop 4, g.Exact (HasDim dim dynamic) := by
      intro g hg
      simp only [dynamicGuards, List.drop_succ_cons, List.drop_zero, List.mem_cons,
        List.not_mem_nil, or_false] at hg
      rcases hg with rfl | rfl | rfl | rfl | rfl | rfl <;> exact onChange_short_exact _ _ _
    by_cases hd : 0 < dim
    · rw [liveGuards, if_pos hd, ← List.take_append_drop 4 dynamicGuards] at hg
      rcases List.mem_append.mp hg with harray | hrest
      · simp only [dynamicGuards, List.take_succ_cons, List.take_zero, List.mem_cons,
          List.not_mem_nil, or_false] at harray
        rcases harray with rfl | rfl | rfl | rfl <;> exact axisArrayGuard_exact hd _ _
      · exact hscalar g hrest
    · rw [liveGuards, if_neg hd] at hg
      exact hscalar g hg

/-- A guard that fires is live. -/
theorem live_of_fires {dim : Short} {c : RecordCheck} {g : Guard c.Record Key Value}
    (hg : g ∈ c.guards) {lv : Option c.Record} {v : c.Record} (hv : c.HasDim dim v)
    (hf : g.fires lv v = true) : g ∈ c.liveGuards dim := by
  cases c with
  | dynamic =>
    obtain rfl : v.dim = dim := hv
    by_cases hd : 0 < v.dim
    · rw [liveGuards, if_pos hd]; exact hg
    · rw [liveGuards, if_neg hd]
      rw [guards, ← List.take_append_drop 4 dynamicGuards] at hg
      rcases List.mem_append.mp hg with harray | hrest
      · simp only [dynamicGuards, List.take_succ_cons, List.take_zero, List.mem_cons,
          List.not_mem_nil, or_false] at harray
        rcases harray with rfl | rfl | rfl | rfl <;>
          exact absurd hf (by rw [axisArrayGuard_silent hd]; simp)
      · exact hrest
  | partCount => exact hg
  | toolInfo => exact hg
  | block => exact hg

end RecordCheck

/-! ## Runs of the four checks -/

/-- One successful call of one of the four checks, with the record its getter
delivered. -/
abbrev Call := (c : RecordCheck) × c.Record

/-- A call on a new message, so that `updates` is what this call adds. -/
def Call.run (c : Call) (s : State) : State := c.1.call c.2 s.fresh

def runCalls (s : State) (cs : List Call) : State := cs.foldl (fun s c => c.run s) s

/-- The updates a check's own calls of a run add, oldest first. -/
def ownUpdates (k : RecordCheck) : State → List Call → Updates
  | _, [] => []
  | s, c :: cs => (if c.1 = k then (c.run s).updates else []) ++ ownUpdates k (c.run s) cs

/-- The records a check saw in a run, oldest first. -/
def records (k : RecordCheck) (cs : List Call) : List k.Record :=
  cs.filterMap fun c => if h : c.1 = k then some (h ▸ c.2) else none

/-- Program start: the four static copies are null pointers. -/
def State.unread (s : State) : State :=
  { s with partCountLv := none, dynamicLv := none, toolInfoLv := none, blockLv := none }

theorem runCalls_snoc (s : State) (cs : List Call) (c : Call) :
    runCalls s (cs ++ [c]) = c.run (runCalls s cs) := by
  simp [runCalls]

theorem ownUpdates_snoc (k : RecordCheck) (s : State) (cs : List Call) (c : Call) :
    ownUpdates k s (cs ++ [c])
      = ownUpdates k s cs ++ (if c.1 = k then (c.run (runCalls s cs)).updates else []) := by
  induction cs generalizing s with
  | nil => simp [ownUpdates, runCalls]
  | cons d cs ih =>
    simp only [List.cons_append, ownUpdates, ih, List.append_assoc]
    rfl

theorem records_snoc_same (cs : List Call) (c : Call) :
    records c.1 (cs ++ [c]) = records c.1 cs ++ [c.2] := by
  simp [records]

theorem records_snoc_ne {k : RecordCheck} {c : Call} (h : c.1 ≠ k) (cs : List Call) :
    records k (cs ++ [c]) = records k cs := by
  simp [records, h]

theorem mem_records {k : RecordCheck} {cs : List Call} {v : k.Record} :
    v ∈ records k cs ↔ ⟨k, v⟩ ∈ cs := by
  simp only [records, List.mem_filterMap]
  constructor
  · intro h
    obtain ⟨⟨k', v'⟩, hc, hv⟩ := h
    by_cases h : k' = k
    · subst h
      simp only [dite_true, Option.some.injEq] at hv
      exact hv ▸ hc
    · simp [h] at hv
  · intro h
    exact ⟨⟨k, v⟩, h, by simp⟩

/-- A check's static copy is the last record it saw. -/
theorem lv_runCalls (k : RecordCheck) (s : State) (cs : List Call) :
    k.lv (runCalls s.unread cs) = (records k cs).getLast? := by
  induction cs using List.reverseRecOn with
  | nil => cases k <;> rfl
  | append_singleton cs c ih =>
    rw [runCalls_snoc, Call.run]
    by_cases h : c.1 = k
    · subst h
      rw [RecordCheck.call_lv, records_snoc_same, List.getLast?_concat]
    · rw [RecordCheck.call_lv_ne (Ne.symm h), RecordCheck.fresh_lv, ih, records_snoc_ne h]

/-- What one call adds, given the calls before it. -/
theorem run_updates (s : State) (cs : List Call) (c : Call) :
    (c.run (runCalls s.unread cs)).updates
      = emit c.1.guards (records c.1 cs).getLast? c.2 := by
  rw [Call.run, RecordCheck.call_updates, RecordCheck.fresh_lv, lv_runCalls]
  rfl

/-- A check's own updates are the change-only stream of its own records: the
calls of the other checks in between do not show. -/
theorem ownUpdates_eq_history (k : RecordCheck) (s : State) (cs : List Call) :
    ownUpdates k s.unread cs = history k.guards (records k cs) := by
  induction cs using List.reverseRecOn with
  | nil => rfl
  | append_singleton cs c ih =>
    rw [ownUpdates_snoc, ih]
    by_cases h : c.1 = k
    · subst h
      rw [if_pos rfl, run_updates, records_snoc_same, history_snoc]
    · rw [if_neg h, List.append_nil, records_snoc_ne h]

/-- The shared globals follow the static copies. -/
theorem shared_runCalls (s : State) (cs : List Call) :
    (∀ v ∈ (runCalls s.unread cs).partCountLv, (runCalls s.unread cs).partCount = v.count) ∧
    (∀ v ∈ (runCalls s.unread cs).dynamicLv,
      (runCalls s.unread cs).cProgramNum = v.cprogram ∧
      (runCalls s.unread cs).mProgramNum = v.mprogram) := by
  induction cs using List.reverseRecOn with
  | nil => exact ⟨fun _ hv => absurd hv (by simp [runCalls, State.unread]),
      fun _ hv => absurd hv (by simp [runCalls, State.unread])⟩
  | append_singleton cs c ih =>
    rw [runCalls_snoc]
    generalize hst : runCalls s.unread cs = st at ih ⊢
    obtain ⟨hpart, hdyn⟩ := ih
    obtain ⟨k, v⟩ := c
    cases k with
    | partCount =>
      refine ⟨fun w hw => ?_, hdyn⟩
      obtain rfl : v = w := Option.some.inj hw
      show (if partCountGuard.fires st.partCountLv v then v.count else st.partCount) = v.count
      exact Guard.onChange_refreshed hpart v
    | dynamic =>
      refine ⟨hpart, fun w hw => ?_⟩
      obtain rfl : v = w := Option.some.inj hw
      constructor
      · show (if cprogramGuard.fires st.dynamicLv v then v.cprogram else st.cProgramNum)
          = v.cprogram
        exact Guard.onChange_refreshed (fun l hl => (hdyn l hl).1) v
      · show (if mprogramGuard.fires st.dynamicLv v then v.mprogram else st.mProgramNum)
          = v.mprogram
        exact Guard.onChange_refreshed (fun l hl => (hdyn l hl).2) v
    -- neither of them writes a global
    | toolInfo => exact ⟨hpart, hdyn⟩
    | block => exact ⟨hpart, hdyn⟩

/-- A member is in a record's fields exactly when a live guard publishes it. -/
theorem mem_fields_iff {dim : Short} {c : RecordCheck} {v : c.Record} (hv : c.HasDim dim v)
    {g : Guard c.Record Key Value} (hg : g ∈ c.liveGuards dim) (x : Value) :
    (g.key, x) ∈ c.fields v ↔ g.value v = x := by
  rw [RecordCheck.fields_eq dim c hv, List.mem_map]
  constructor
  · intro h
    obtain ⟨g', hg', he⟩ := h
    obtain ⟨hkey, hval⟩ := Prod.mk.inj he
    -- one guard for each key
    have hsame : g' = g :=
      List.inj_on_of_nodup_map c.guards_keys_nodup (c.liveGuards_subset dim hg')
        (c.liveGuards_subset dim hg) hkey
    exact hsame ▸ hval
  · rintro rfl
    exact ⟨g, hg, rfl⟩

/-! ### One call of a run -/

section
variable {dim : Short} {p : List Call} {c : Call}

theorem records_hasDim (hdim : ∀ v, ⟨.dynamic, v⟩ ∈ p → v.dim = dim) (k : RecordCheck) :
    ∀ v ∈ records k p, k.HasDim dim v := by
  intro v hv
  have hmem := mem_records.mp hv
  cases k with
  | dynamic => exact hdim v hmem
  | partCount => trivial
  | toolInfo => trivial
  | block => trivial

variable (hdim : ∀ v, ⟨.dynamic, v⟩ ∈ p ++ [c] → v.dim = dim)
include hdim

theorem call_hasDim : c.1.HasDim dim c.2 := by
  refine records_hasDim hdim c.1 c.2 ?_
  rw [records_snoc_same]
  exact List.mem_append_right _ (List.mem_singleton.mpr rfl)

theorem last_hasDim : ∀ r ∈ (records c.1 p).getLast?, c.1.HasDim dim r := by
  intro r hr
  refine records_hasDim hdim c.1 r ?_
  rw [records_snoc_same]
  exact List.mem_append_left _ (List.mem_of_getLast? hr)

/-- The check's own updates show its record. -/
theorem ownUpdates_shows (s : State) :
    Shows (ownUpdates c.1 s.unread (p ++ [c])) (c.1.fields c.2) := by
  intro kx hkx
  rw [RecordCheck.fields_eq dim c.1 (call_hasDim hdim), List.mem_map] at hkx
  obtain ⟨g, hg, rfl⟩ := hkx
  rw [ownUpdates_eq_history]
  have htracks := (RecordCheck.liveGuards_exact dim c.1 g hg).tracks c.1.guards_keys_nodup
    (c.1.liveGuards_subset dim hg) (records_hasDim hdim c.1)
  rw [records_snoc_same] at htracks ⊢
  exact htracks _ _ (List.prefix_refl _)

/-- A member is added exactly when the check's previous record had another. -/
theorem run_adds_iff (s : State) {kx : Key × Value} (hkx : kx ∈ c.1.fields c.2) :
    kx.1 ∈ (c.run (runCalls s.unread p)).updates.map Prod.fst ↔
      ∀ r ∈ (records c.1 p).getLast?, kx ∉ c.1.fields r := by
  have hc := call_hasDim hdim
  have hlast := last_hasDim hdim
  rw [RecordCheck.fields_eq dim c.1 hc, List.mem_map] at hkx
  obtain ⟨g, hg, rfl⟩ := hkx
  rw [run_updates, key_mem_emit_iff c.1.guards_keys_nodup (c.1.liveGuards_subset dim hg),
    RecordCheck.liveGuards_exact dim c.1 g hg _ _ hlast hc]
  refine forall_congr' fun r => forall_congr' fun hr => ?_
  rw [mem_fields_iff (hlast r hr) hg]

/-- A call adds members of its own record only. -/
theorem run_adds_fields (s : State) :
    ∀ k ∈ (c.run (runCalls s.unread p)).updates.map Prod.fst,
      k ∈ (c.1.fields c.2).map Prod.fst := by
  intro k hk
  have hc := call_hasDim hdim
  obtain ⟨kx, hkx, rfl⟩ := List.mem_map.mp hk
  rw [run_updates] at hkx
  obtain ⟨g, hg, hf, rfl⟩ := mem_emit.mp hkx
  have hlive := RecordCheck.live_of_fires hg hc hf
  exact List.mem_map.mpr ⟨(g.key, g.value c.2), (mem_fields_iff hc hlive _).mpr rfl, rfl⟩

end

/-- **Delta streams reconstruct the snapshot.** After every call of a run, with
`dim` axes throughout: the check's own updates show its record, a member is added
exactly when it is not what the check's previous record had, nothing else is
added, and the shared numbers are those of the last records. -/
theorem deltaStreams_reconstruct (s : State) (dim : Short) (calls : List Call)
    (hdim : ∀ v, ⟨.dynamic, v⟩ ∈ calls → v.dim = dim) :
    ∀ p c, p ++ [c] <+: calls →
      Shows (ownUpdates c.1 s.unread (p ++ [c])) (c.1.fields c.2) ∧
      (∀ kx ∈ c.1.fields c.2,
        kx.1 ∈ (c.run (runCalls s.unread p)).updates.map Prod.fst ↔
          ∀ r ∈ (records c.1 p).getLast?, kx ∉ c.1.fields r) ∧
      (∀ k ∈ (c.run (runCalls s.unread p)).updates.map Prod.fst,
        k ∈ (c.1.fields c.2).map Prod.fst) ∧
      (∀ v ∈ (records .partCount (p ++ [c])).getLast?,
        (runCalls s.unread (p ++ [c])).partCount = v.count) ∧
      (∀ v ∈ (records .dynamic (p ++ [c])).getLast?,
        (runCalls s.unread (p ++ [c])).cProgramNum = v.cprogram ∧
        (runCalls s.unread (p ++ [c])).mProgramNum = v.mprogram) := by
  intro p c hp
  have hdim' : ∀ v, ⟨.dynamic, v⟩ ∈ p ++ [c] → v.dim = dim :=
    fun v hv => hdim v (hp.subset hv)
  refine ⟨ownUpdates_shows hdim' s, fun kx hkx => run_adds_iff hdim' s hkx,
    run_adds_fields hdim' s, ?_, ?_⟩
  · rw [← lv_runCalls .partCount s]
    exact (shared_runCalls s (p ++ [c])).1
  · rw [← lv_runCalls .dynamic s]
    exact (shared_runCalls s (p ++ [c])).2

/-- A dynamic record that differs from others in its axis count and line number. -/
def sampleDynamic (dim sequence : Short) : MachineDynamic where
  executionDuration := 0
  cprogram := 100
  mprogram := 100
  sequence := sequence
  actf := 0
  acts := 0
  alarm := 0
  dim := dim
  absolute := fun _ => 0
  relative := fun _ => 0
  actual := fun _ => 0
  load := fun _ => 0

theorem deltaStreams_reconstruct_lines :
    Shows
      (ownUpdates .dynamic (State.init 32).unread
        [⟨.dynamic, sampleDynamic 3 10⟩, ⟨.partCount, ⟨0, 7⟩⟩, ⟨.dynamic, sampleDynamic 3 20⟩])
      (RecordCheck.fields .dynamic (sampleDynamic 3 20)) :=
  (deltaStreams_reconstruct (State.init 32) 3
    [⟨.dynamic, sampleDynamic 3 10⟩, ⟨.partCount, ⟨0, 7⟩⟩, ⟨.dynamic, sampleDynamic 3 20⟩]
    (by
      intro v hv
      simp only [List.mem_cons, Sigma.mk.injEq, reduceCtorEq, false_and, heq_eq_eq, true_and,
        List.not_mem_nil, or_false, false_or] at hv
      rcases hv with rfl | rfl <;> rfl)
    [⟨.dynamic, sampleDynamic 3 10⟩, ⟨.partCount, ⟨0, 7⟩⟩] ⟨.dynamic, sampleDynamic 3 20⟩
    (List.prefix_refl _)).1

/-- Without axes the first call adds no axis array, so a reader holds none. -/
theorem deltaStreams_no_axes :
    Key.absolute ∉
      (Call.run ⟨.dynamic, sampleDynamic 0 10⟩ (runCalls (State.init 32).unread [])).updates.map
        Prod.fst ∧
    overlay (ownUpdates .dynamic (State.init 32).unread [⟨.dynamic, sampleDynamic 0 10⟩])
      .absolute = none := by
  refine ⟨by decide, ?_⟩
  rw [ownUpdates_eq_history]
  rfl

/-! ## The status check -/

/-- The eleven members of a status record. -/
def statusFields (v : MachineStatus) : Updates :=
  [(.execution, .string v.execution), (.mode, .string v.mode), (.estop, .string v.estop),
   (.alarm, .number v.raw.alarm.toInt), (.aut, .number v.raw.aut.toInt),
   (.edit, .number v.raw.edit.toInt), (.emergency, .number v.raw.emergency.toInt),
   (.hdck, .number v.raw.hdck.toInt), (.motion, .number v.raw.motion.toInt),
   (.mstb, .number v.raw.mstb.toInt), (.run, .number v.raw.run.toInt)]

/-- A successful status reading. -/
structure StatusReading where
  clock : Clock
  status : ODBST

def StatusReading.record (r : StatusReading) : MachineStatus := machineStatus r.clock.tt r.status

/-- One call of the check. -/
def StatusReading.run (r : StatusReading) (s : State) : State :=
  (checkMachineStatus (getMachineStatus ⟨r.clock, some r.status⟩) s).2

/-- A run of calls from the check's first, on an empty `values` object. -/
def statusCalls (s : State) (rs : List StatusReading) : State :=
  rs.foldl (fun s r => StatusReading.run r s) { s with statusLv := none, updates := [] }

/-- The updates the check adds over the run. -/
def statusUpdates (s : State) (rs : List StatusReading) : Updates := (statusCalls s rs).updates

theorem statusGuards_keys_nodup : (statusGuards.map Guard.key).Nodup := by decide

theorem statusFields_eq (v : MachineStatus) :
    statusFields v = statusGuards.map fun g => (g.key, g.value v) := rfl

theorem statusCalls_snoc (s : State) (rs : List StatusReading) (r : StatusReading) :
    statusCalls s (rs ++ [r]) = r.run (statusCalls s rs) := by
  simp [statusCalls]

theorem statusCalls_lv (s : State) (rs : List StatusReading) :
    (statusCalls s rs).statusLv = (rs.map StatusReading.record).getLast? := by
  induction rs using List.reverseRecOn with
  | nil => rfl
  | append_singleton rs r _ =>
    rw [statusCalls_snoc, List.map_append, List.map_singleton, List.getLast?_concat]
    rfl

theorem statusUpdates_eq_history (s : State) (rs : List StatusReading) :
    statusUpdates s rs = history statusGuards (rs.map StatusReading.record) := by
  induction rs using List.reverseRecOn with
  | nil => rfl
  | append_singleton rs r ih =>
    rw [List.map_append, List.map_singleton, history_snoc, ← ih, ← statusCalls_lv s rs,
      statusUpdates, statusCalls_snoc]
    rfl

/-- The guard of the emergency stop; every other status guard watches its own
field. -/
abbrev estopGuard : Guard MachineStatus Key Value :=
  .onChange .estop (·.mode) fun v => .string v.estop

theorem statusGuards_exact :
    ∀ g ∈ statusGuards, g = estopGuard ∨ g.Exact fun _ => True := by
  intro g hg
  simp only [statusGuards, List.mem_cons, List.not_mem_nil, or_false] at hg
  rcases hg with rfl | rfl | rfl | rfl | rfl | rfl | rfl | rfl | rfl | rfl | rfl
  · exact Or.inr (RecordCheck.onChange_string_exact _ _ _)
  · exact Or.inr (RecordCheck.onChange_string_exact _ _ _)
  · exact Or.inl rfl
  all_goals exact Or.inr (RecordCheck.onChange_short_exact _ _ _)

/-- The two readings are in the same group of modes: manual, manual data input or
any other. -/
def SameMode (a b : ODBST) : Prop :=
  (a.aut = 5 ∨ a.aut = 6 ↔ b.aut = 5 ∨ b.aut = 6) ∧
  (a.aut = 0 ∨ a.aut = 3 ↔ b.aut = 0 ∨ b.aut = 3)

theorem machineMode_eq_iff (a b : ODBST) : machineMode a = machineMode b ↔ SameMode a b := by
  have hdisjoint : ∀ st : ODBST, (st.aut = 5 ∨ st.aut = 6) → ¬(st.aut = 0 ∨ st.aut = 3) := by
    rintro st (h | h) <;> rw [h] <;> decide
  unfold machineMode SameMode
  by_cases ha : a.aut = 5 ∨ a.aut = 6
  · have ha' := hdisjoint a ha
    by_cases hb : b.aut = 5 ∨ b.aut = 6
    · simp [ha, ha', hb, hdisjoint b hb]
    · by_cases hb' : b.aut = 0 ∨ b.aut = 3 <;> simp [ha, hb, hb']
  · by_cases hb : b.aut = 5 ∨ b.aut = 6
    · by_cases ha' : a.aut = 0 ∨ a.aut = 3 <;> simp [ha, ha', hb]
    · by_cases ha' : a.aut = 0 ∨ a.aut = 3 <;> by_cases hb' : b.aut = 0 ∨ b.aut = 3 <;>
        simp [ha, ha', hb, hb']

theorem machineEstop_eq_iff (a b : ODBST) :
    machineEstop a = machineEstop b ↔ (a.emergency = 1 ↔ b.emergency = 1) := by
  unfold machineEstop
  by_cases ha : a.emergency = 1 <;> by_cases hb : b.emergency = 1 <;> simp [ha, hb]

/-- What holds when the reconstructed status is right: the eleven members, and
with them that `TRIGGERED` is held exactly while `emergency` 1 is. -/
def ShowsStatus (us : Updates) (v : MachineStatus) : Prop :=
  Shows us (statusFields v) ∧
  (overlay us .estop = some (.string "TRIGGERED".toList) ↔
    overlay us .emergency = some (.number 1))

theorem showsStatus_iff (us : Updates) (tt : ULong) (st : ODBST) :
    ShowsStatus us (machineStatus tt st) ↔ Shows us (statusFields (machineStatus tt st)) := by
  refine ⟨And.left, fun h => ⟨h, ?_⟩⟩
  -- both members are of one reading
  have hestop : overlay us .estop = some (.string (machineEstop st)) :=
    h (.estop, .string (machineEstop st)) (by simp [statusFields, machineStatus])
  have hemergency : overlay us .emergency = some (.number st.emergency.toInt) :=
    h (.emergency, .number st.emergency.toInt) (by simp [statusFields, machineStatus])
  have hnum : ((st.emergency.toInt : ℚ) = 1) ↔ st.emergency = 1 := by
    rw [← Int16.toInt_inj]
    exact_mod_cast Iff.rfl
  rw [hestop, hemergency]
  simp only [Option.some.injEq, Value.scalar.injEq, Scalar.string.injEq, Scalar.number.injEq,
    hnum, machineEstop]
  by_cases he : st.emergency = 1 <;> simp [he]

/-- The stream of `estop` goes stale exactly where the emergency stop moves in one group
of modes: there its guard is silent. -/
theorem estop_tracks_iff (rs : List StatusReading) :
    Tracks statusGuards estopGuard (rs.map StatusReading.record) ↔
      ∀ p a b, p ++ [a, b] <+: rs → SameMode a.status b.status →
        (a.status.emergency = 1 ↔ b.status.emergency = 1) := by
  have hmem : estopGuard ∈ statusGuards := by simp [statusGuards]
  have hsilent (a b : StatusReading) :
      estopGuard.fires (some a.record) b.record = false ↔ SameMode a.status b.status := by
    rw [← machineMode_eq_iff]
    simp [StatusReading.record, machineStatus]
  have hvalue (a b : StatusReading) : estopGuard.value a.record = estopGuard.value b.record ↔
      (a.status.emergency = 1 ↔ b.status.emergency = 1) := by
    rw [← machineEstop_eq_iff]
    simp [StatusReading.record, machineStatus]
  have hfirst : ∀ v, [v] <+: rs.map StatusReading.record → estopGuard.fires none v = true :=
    fun _ _ => rfl
  rw [tracks_iff statusGuards_keys_nodup hmem, and_iff_right hfirst, forall_successive_map]
  simp only [hsilent, hvalue]

/-- **When the status stream reconstructs the status**: after every call of a run,
iff the emergency stop never moves between two successive calls in one group of
modes. -/
theorem status_reconstructs_iff (s : State) (rs : List StatusReading) :
    (∀ p r, p ++ [r] <+: rs → ShowsStatus (statusUpdates s (p ++ [r])) r.record) ↔
      ∀ p a b, p ++ [a, b] <+: rs → SameMode a.status b.status →
        (a.status.emergency = 1 ↔ b.status.emergency = 1) := by
  rw [← estop_tracks_iff]
  constructor
  · intro h
    refine tracks_map_iff.mpr fun p r hp => ?_
    rw [← statusUpdates_eq_history s]
    exact (h p r hp).1 (.estop, _) (by simp [statusFields, StatusReading.record, machineStatus])
  · intro h p r hp
    refine (showsStatus_iff _ _ _).mpr fun kx hkx => ?_
    rw [statusFields_eq, List.mem_map] at hkx
    obtain ⟨g, hg, rfl⟩ := hkx
    have htracks : Tracks statusGuards g (rs.map StatusReading.record) := by
      rcases statusGuards_exact g hg with rfl | hexact
      · exact h
      · exact hexact.tracks statusGuards_keys_nodup hg fun _ _ => trivial
    rw [statusUpdates_eq_history]
    exact tracks_map_iff.mp htracks p r hp

/-- The same automatic mode, with the emergency stop pressed in between. -/
def sampleStatus (emergency : Short) : StatusReading where
  clock := ⟨⟨0, 0⟩, ⟨0, 0⟩⟩
  status := { alarm := 0, aut := 1, edit := 0, emergency := emergency, hdck := 0, motion := 0,
              mstb := 0, run := 0 }

/-- The reader still sees `ARMED` after the emergency stop was pressed. -/
theorem status_estop_stale :
    overlay (statusUpdates (State.init 32) [sampleStatus 0, sampleStatus 1]) .emergency
      = some (.number 1) ∧
    overlay (statusUpdates (State.init 32) [sampleStatus 0, sampleStatus 1]) .estop
      = some (.string "ARMED".toList) ∧
    ¬ShowsStatus (statusUpdates (State.init 32) [sampleStatus 0, sampleStatus 1])
      (sampleStatus 1).record := by
  have hestop : overlay (statusUpdates (State.init 32) [sampleStatus 0, sampleStatus 1]) .estop
      = some (.string "ARMED".toList) := by decide +kernel
  refine ⟨by decide +kernel, hestop, fun h => ?_⟩
  have hshow := h.1 (.estop, .string "TRIGGERED".toList) (by decide +kernel)
  rw [hestop] at hshow
  exact absurd hshow (by decide)

end FanucDriver.Driver
