import FanucDriver.Driver.Ticks
import FanucDriver.Driver.Delivery
import FanucDriver.Driver.DeltaStreams

/-!
# Who owns a key

Ten checks, and `checkMachineInfo` before them, add to one `values` object without
looking for a key that is already there. A reader of the stream holds the last value
under a key, whoever wrote it, so a check is right about its own fields only as far as
nobody else writes them.

All keys but one have a single writer (`writerKeys_shared`). Both the status and the
dynamic check add `alarm`: the alarm field of `cnc_statinfo` and that of
`cnc_rddynamic2`. Each adds it on its own changes, so the reader holds whichever moved
last:

> `one_owner_iff`: every writer's last value under each of its keys is what the reader
> holds, exactly when the last tick read the same number in both places.
-/

namespace FanucDriver.Driver

open FanucDriver.Lib FanucDriver.Lib.Transducer CheckName

/-! ## Writers and their keys -/

/-- The keys of `checkMachineInfo`. -/
def infoKeys : List Key := infoGuards.map Guard.key ++ [.axes]

def writerKeys : Writer → List Key
  | none => infoKeys
  | some c => c.keys

/-- Only `alarm` is a key of two writers. -/
theorem writerKeys_shared {w w' : Writer} {k : Key} (h : k ∈ writerKeys w)
    (h' : k ∈ writerKeys w') (hne : w ≠ w') :
    k = .alarm ∧
      (w = some .status ∧ w' = some .dynamic ∨ w = some .dynamic ∧ w' = some .status) := by
  have hdisjoint : ∀ w w' : Writer, w ≠ w' → ∀ k ∈ writerKeys w, k ∈ writerKeys w' →
      k = .alarm ∧
        (w = some .status ∧ w' = some .dynamic ∨ w = some .dynamic ∧ w' = some .status) := by
    rintro (_ | c) (_ | c')
    · exact fun hne => absurd rfl hne
    · cases c' <;> decide
    · cases c <;> decide
    · cases c <;> cases c' <;> decide
  exact hdisjoint w w' hne k h h'

/-! ## The stream of a run -/

/-- The members of all messages in the order they were added, with their writers. -/
def written (rs : List Round) : List (Writer × Key × Value) := rs.flatMap Round.writes

/-- Under every key it writes, a writer's last value is what the reader of the whole
stream holds. -/
def EachKeyOwned (rs : List Round) : Prop :=
  ∀ w k x, (w, k, x) ∈ written rs →
    overlay (builtValues rs) k = overlay (project w (written rs)) k

/-- No two writers share a key, and no message holds a key twice. -/
def SingleWriter (rs : List Round) : Prop :=
  (∀ w w' k x x', (w, k, x) ∈ written rs → (w', k, x') ∈ written rs → w = w') ∧
  ∀ r ∈ rs, (r.message.values.map Prod.fst).Nodup

/-- What `cnc_statinfo` reports as alarm. -/
def Round.statusAlarm (r : Round) : Option Short :=
  r.tick.lib.status.statinfo.map (·.alarm)

/-- What `cnc_rddynamic2` reports as alarm, as the driver keeps it. -/
def Round.dynamicAlarm (r : Round) : Option Short :=
  r.tick.lib.dynamic.rddynamic2.map fun dyn => dyn.alarm.toInt16

theorem builtValues_eq {rs : List Round}
    (h : ∀ r ∈ rs, loopTick r.tick.lib r.before = (false, r.after)) :
    builtValues rs = (written rs).map Prod.snd := by
  rw [builtValues, written, List.map_flatMap]
  exact List.flatMap_congr fun r hr => Round.values_eq (h r hr)

theorem project_flatMap (w : Writer) (rs : List Round) :
    project w (written rs) = rs.flatMap fun r => project w r.writes := by
  induction rs with
  | nil => rfl
  | cons r rs ih =>
    rw [written, List.flatMap_cons, project_append, List.flatMap_cons, ← ih]
    rfl

/-- A check that emits what its guards say against its static record writes the
change-only stream of its records. -/
theorem project_written {S : Type} {c : CheckName} {gs : List (Guard S Key Value)}
    {lv : State → Option S} (hfresh : ∀ s : State, lv s.fresh = lv s)
    (hround : ∀ r : Round, loopTick r.tick.lib r.before = (false, r.after) →
      ∃ v, lv r.after = some v ∧ project (some c) r.writes = emit gs (lv r.before) v)
    (s : State) (ts : List Tick) : project (some c) (written (rounds s ts))
      = historyFrom gs (lv s) ((rounds s ts).filterMap fun r => lv r.after) := by
  induction ts generalizing s with
  | nil => rfl
  | cons t ts ih =>
    rcases ht : loopTick t.lib s with ⟨failed, s'⟩
    cases failed with
    | true => rw [rounds_cons_failed ht]; rfl
    | false =>
      obtain ⟨v, hv, hwrites⟩ := hround { tick := t, before := s, after := s' } ht
      rw [rounds_cons ht, project_flatMap, List.flatMap_cons, ← project_flatMap, ih, hwrites,
        hfresh, List.filterMap_cons]
      change lv s' = some v at hv
      simp only [hv]
      rfl

/-! ## The two writers of `alarm` -/

/-- What the status check reads in a tick, keeps and writes. -/
theorem Round.status {r : Round} (h : loopTick r.tick.lib r.before = (false, r.after)) :
    ∃ v, r.after.statusLv = some v ∧ r.statusAlarm = some v.raw.alarm ∧
      project (some .status) r.writes = emit statusGuards r.before.statusLv v := by
  have hcall := loopTick_call h .status
  have hbefore := (before_frame r.tick.lib .status r.before).status fun hne => hne rfl
  have hafter := (rest_frame r.tick.lib .status r.before).status fun hne => hne rfl
  rw [← loopTick_after h] at hafter
  rw [Round.project_writes]
  generalize CheckName.before r.tick.lib .status r.before = s at hcall hbefore hafter
  unfold call checkMachineStatus getMachineStatus at hcall hafter
  unfold adds getMachineStatus
  cases hr : r.tick.lib.status.statinfo with
  | none => rw [hr] at hcall; exact absurd hcall (by simp)
  | some raw =>
    rw [hr] at hafter
    refine ⟨_, hafter, ?_, ?_⟩
    · rw [Round.statusAlarm, hr]; rfl
    · rw [← hbefore]; rfl

/-- What the dynamic check reads in a tick, keeps and writes. -/
theorem Round.dynamic {r : Round} (h : loopTick r.tick.lib r.before = (false, r.after)) :
    ∃ v, r.after.dynamicLv = some v ∧ r.dynamicAlarm = some v.alarm ∧
      project (some .dynamic) r.writes = emit dynamicGuards r.before.dynamicLv v := by
  have hcall := loopTick_call h .dynamic
  have hbefore := ((before_frame r.tick.lib .dynamic r.before).dynamic fun hne => hne rfl).1
  have hafter := ((rest_frame r.tick.lib .dynamic r.before).dynamic fun hne => hne rfl).1
  rw [← loopTick_after h] at hafter
  rw [Round.project_writes]
  generalize CheckName.before r.tick.lib .dynamic r.before = s at hcall hbefore hafter
  change (checkMachineDynamic (getMachineDynamic r.tick.lib.dynamic s.axisCount s.divisors) s).1
    = false at hcall
  change r.after.dynamicLv
    = (checkMachineDynamic
        (getMachineDynamic r.tick.lib.dynamic s.axisCount s.divisors) s).2.dynamicLv
    at hafter
  show ∃ v, _ ∧ _ ∧ (getMachineDynamic r.tick.lib.dynamic s.axisCount s.divisors).elim []
    (emit dynamicGuards s.dynamicLv) = _
  cases hr : getMachineDynamic r.tick.lib.dynamic s.axisCount s.divisors with
  | none => rw [hr] at hcall; exact absurd hcall (by simp [checkMachineDynamic])
  | some v =>
    rw [hr] at hafter
    refine ⟨v, hafter, ?_, by rw [← hbefore]; rfl⟩
    -- the record keeps the low bits of the reading
    unfold getMachineDynamic at hr
    simp only [Option.bind_eq_bind, Option.bind_eq_some_iff] at hr
    obtain ⟨dyn, hdyn, _, -, hv⟩ := hr
    obtain rfl := (Option.some.inj hv).symm
    rw [Round.dynamicAlarm, hdyn]
    rfl

/-! ## Who is right about what -/

theorem mainRounds_success {maxAxis : Short} {info : InfoReply} {ts : List Tick} :
    ∀ r ∈ mainRounds maxAxis info ts, loopTick r.tick.lib r.before = (false, r.after) := by
  unfold mainRounds
  intro r hr
  split at hr
  · exact absurd hr List.not_mem_nil
  · exact loopTick_of_mem hr

/-- A tick starts on an object that holds nothing, or what `checkMachineInfo` added. -/
theorem mainRounds_before_keys {maxAxis : Short} {info : InfoReply} {ts : List Tick} {r : Round}
    (hr : r ∈ mainRounds maxAxis info ts) :
    (r.before.updates.map Prod.fst).Sublist infoKeys := by
  unfold mainRounds at hr
  cases hs : start maxAxis info with
  | none => rw [hs] at hr; exact absurd hr List.not_mem_nil
  | some s =>
    rw [hs] at hr
    obtain ⟨v, -, rfl⟩ := exists_of_start hs
    refine rounds_invariant (P := fun s => (s.updates.map Prod.fst).Sublist infoKeys)
      (fun _ _ _ _ _ => List.nil_sublist _) ?_ ts r hr
    show (([] ++ (emit infoGuards none v.1 ++ axesUpdate none v.1)).map Prod.fst).Sublist infoKeys
    rw [List.nil_append, List.map_append]
    refine (emit_keys_sublist _ _ _).append ?_
    unfold axesUpdate
    split
    · exact List.Sublist.refl _
    · exact List.nil_sublist _

theorem Round.project_none (r : Round) : project none r.writes = r.before.updates := by
  have hnone (cs : List CheckName) (s : State) :
      project none (chainWrites r.tick.lib cs s) = [] := by
    induction cs generalizing s with
    | nil => rfl
    | cons c cs ih =>
      rw [chainWrites, project_append, project_map, if_neg (Option.some_ne_none c), ih]
      rfl
  rw [Round.writes, project_append, hnone, project_map, if_pos rfl, List.append_nil]

theorem Round.mem_writerKeys {maxAxis : Short} {info : InfoReply} {ts : List Tick} {r : Round}
    (hr : r ∈ mainRounds maxAxis info ts) {w : Writer} {u : Key × Value} (h : (w, u) ∈ r.writes) :
    u.1 ∈ writerKeys w := by
  cases w with
  | none =>
    rw [← mem_project, Round.project_none] at h
    exact (mainRounds_before_keys hr).subset (List.mem_map_of_mem h)
  | some c => exact Round.writes_keys h

/-- No writer adds a key twice. -/
theorem Round.project_nodup {maxAxis : Short} {info : InfoReply} {ts : List Tick} {r : Round}
    (hr : r ∈ mainRounds maxAxis info ts) (w : Writer) :
    ((project w r.writes).map Prod.fst).Nodup := by
  cases w with
  | none =>
    rw [Round.project_none]
    exact (mainRounds_before_keys hr).nodup (by decide)
  | some c =>
    rw [Round.project_writes]
    exact adds_nodup _ c _

/-- A member of a message that only one check can write is the last under its name. -/
theorem Round.overlay_of_mem {maxAxis : Short} {info : InfoReply} {ts : List Tick} {r : Round}
    (hr : r ∈ mainRounds maxAxis info ts) {u : Key × Value} (hu : u ∈ r.message.values)
    (hne : u.1 ≠ .alarm) : overlay r.message.values u.1 = some u.2 := by
  rw [Round.values_eq (mainRounds_success r hr)] at hu ⊢
  obtain ⟨⟨w, u⟩, hw, rfl⟩ := List.mem_map.mp hu
  have hkey : u.1 ∈ writerKeys w := Round.mem_writerKeys hr hw
  rw [overlay_project_of_single fun w' x hx => ?single]
  · exact Lib.overlay_of_mem (Round.project_nodup hr w) (mem_project.mpr hw)
  case single =>
    by_contra hw'
    exact hne (writerKeys_shared (Round.mem_writerKeys hr hx) hkey hw').1

/-- A key other than `alarm` is in a message when its one check added it. -/
theorem Round.carries_iff {maxAxis : Short} {info : InfoReply} {ts : List Tick} {r : Round}
    (hr : r ∈ mainRounds maxAxis info ts) {c : CheckName} {k : Key} (hk : k ∈ c.keys)
    (hne : k ≠ .alarm) :
    r.Carries k ↔ k ∈ (c.adds r.tick.lib (c.before r.tick.lib r.before)).map Prod.fst := by
  unfold Round.Carries
  rw [Round.values_eq (mainRounds_success r hr), ← Round.project_writes, List.map_map]
  simp only [List.mem_map, mem_project, Function.comp_apply]
  constructor
  · intro h
    obtain ⟨⟨w, u⟩, hu, rfl⟩ := h
    by_cases hw : w = some c
    · exact ⟨u, hw ▸ hu, rfl⟩
    · have hshared : u.1 ∈ writerKeys (some c) := hk
      exact absurd (writerKeys_shared (Round.mem_writerKeys hr hu) hshared hw).1 hne
  · intro h
    obtain ⟨u, hu, rfl⟩ := h
    exact ⟨(some c, u), hu, rfl⟩

theorem written_keys {maxAxis : Short} {info : InfoReply} {ts : List Tick} {w : Writer}
    {u : Key × Value} (h : (w, u) ∈ written (mainRounds maxAxis info ts)) :
    u.1 ∈ writerKeys w := by
  obtain ⟨r, hr, hu⟩ := List.mem_flatMap.mp h
  exact Round.mem_writerKeys hr hu

/-- The last value of an exact guard of a check is that of its last record. -/
theorem overlay_written {S : Type} {c : CheckName} (lv : State → Option S)
    (gs : List (Guard S Key Value)) (hfresh : ∀ s : State, lv s.fresh = lv s)
    (hround : ∀ r : Round, loopTick r.tick.lib r.before = (false, r.after) →
      ∃ v, lv r.after = some v ∧ project (some c) r.writes = emit gs (lv r.before) v)
    (hnodup : (gs.map Guard.key).Nodup) {g : Guard S Key Value} (hg : g ∈ gs)
    (hexact : g.Exact fun _ => True) {s : State} (hs : lv s = none) {ts : List Tick}
    {rs : List Round} {r : Round} (hr : rounds s ts = rs ++ [r]) {v : S}
    (hv : lv r.after = some v) :
    overlay (project (some c) (written (rounds s ts))) g.key = some (g.value v) := by
  rw [project_written hfresh hround, hs, historyFrom_none, hr, List.filterMap_append,
    List.filterMap_cons_some (f := fun r : Round => lv r.after) hv, List.filterMap_nil]
  exact hexact.tracks hnodup hg (fun _ _ => trivial) _ v (List.prefix_refl _)

/-- Program start: no record has been read. -/
theorem start_unread {maxAxis : Short} {info : InfoReply} {s : State}
    (h : start maxAxis info = some s) : s.statusLv = none ∧ s.dynamicLv = none := by
  obtain ⟨_, -, rfl⟩ := exists_of_start h
  exact ⟨rfl, rfl⟩

/-- What the two checks wrote last under `alarm`. -/
theorem overlay_alarm {maxAxis : Short} {info : InfoReply} {ts : List Tick} {rs : List Round}
    {r : Round} (h : mainRounds maxAxis info ts = rs ++ [r]) :
    overlay (project (some .status) (written (mainRounds maxAxis info ts))) .alarm
        = r.statusAlarm.map (fun a => .number a.toInt) ∧
    overlay (project (some .dynamic) (written (mainRounds maxAxis info ts))) .alarm
        = r.dynamicAlarm.map (fun a => .number a.toInt) := by
  have htick := mainRounds_success r (h ▸ List.mem_append_right rs (List.mem_singleton.mpr rfl))
  obtain ⟨v, hv, halarm, -⟩ := Round.status htick
  obtain ⟨w, hw, halarm', -⟩ := Round.dynamic htick
  rw [halarm, halarm']
  unfold mainRounds at h ⊢
  cases hs : start maxAxis info with
  | none => rw [hs] at h; exact absurd h.symm (by simp)
  | some s =>
    rw [hs] at h
    obtain ⟨hstatus, hdynamic⟩ := start_unread hs
    constructor
    · refine overlay_written State.statusLv statusGuards (fun _ => rfl)
        (fun r hr => ?_) (by decide) (g := .onChange .alarm (·.raw.alarm) fun v =>
          .number v.raw.alarm.toInt) (by simp [statusGuards])
        (RecordCheck.onChange_short_exact _ _ _) hstatus h hv
      obtain ⟨v, hv, -, hwrites⟩ := Round.status hr
      exact ⟨v, hv, hwrites⟩
    · refine overlay_written State.dynamicLv dynamicGuards (fun _ => rfl)
        (fun r hr => ?_) (by decide) (g := .onChange .alarm (·.alarm) fun v =>
          .number v.alarm.toInt) (by simp [dynamicGuards])
        (RecordCheck.onChange_short_exact _ _ _) hdynamic h hw
      obtain ⟨v, hv, -, hwrites⟩ := Round.dynamic hr
      exact ⟨v, hv, hwrites⟩

theorem eachKeyOwned_iff (maxAxis : Short) (info : InfoReply) (ts : List Tick) :
    EachKeyOwned (mainRounds maxAxis info ts) ↔
      ∀ r ∈ (mainRounds maxAxis info ts).getLast?, r.statusAlarm = r.dynamicAlarm := by
  have hagree : EachKeyOwned (mainRounds maxAxis info ts) ↔
      ∀ k w w' x x', (w, k, x) ∈ written (mainRounds maxAxis info ts) →
        (w', k, x') ∈ written (mainRounds maxAxis info ts) →
        overlay (project w (written (mainRounds maxAxis info ts))) k
          = overlay (project w' (written (mainRounds maxAxis info ts))) k := by
    unfold EachKeyOwned
    rw [builtValues_eq mainRounds_success]
    constructor
    · intro h k
      exact (overlay_project_iff _ k).mp fun w x hx => h w k x hx
    · intro h w k x hx
      exact (overlay_project_iff _ k).mpr (h k) w x hx
  rw [hagree]
  constructor
  · intro h r hr
    obtain ⟨rs, hrs⟩ := List.getLast?_eq_some_iff.mp hr
    obtain ⟨hstatus, hdynamic⟩ := overlay_alarm hrs
    have htick := mainRounds_success r (List.mem_of_mem_getLast? hr)
    obtain ⟨v, -, hv, -⟩ := Round.status htick
    obtain ⟨v', -, hv', -⟩ := Round.dynamic htick
    rw [hv] at hstatus ⊢
    rw [hv'] at hdynamic ⊢
    have heq := h .alarm _ _ _ _ (mem_of_overlay_project hstatus) (mem_of_overlay_project hdynamic)
    rw [hstatus, hdynamic] at heq
    simpa [Int16.toInt_inj] using heq
  · intro h k w w' x x' hx hx'
    by_cases hw : w = w'
    · rw [hw]
    · have hk : k ∈ writerKeys w := written_keys hx
      have hk' : k ∈ writerKeys w' := written_keys hx'
      obtain ⟨rfl, hpair⟩ := writerKeys_shared hk hk' hw
      -- somebody wrote, so there was a last tick
      obtain ⟨r, hr⟩ : ∃ r, (mainRounds maxAxis info ts).getLast? = some r := by
        obtain ⟨r, hr, -⟩ := List.mem_flatMap.mp hx
        exact ⟨_, List.getLast?_eq_some_getLast (List.ne_nil_of_mem hr)⟩
      obtain ⟨rs, hrs⟩ := List.getLast?_eq_some_iff.mp hr
      obtain ⟨hstatus, hdynamic⟩ := overlay_alarm hrs
      rw [h r hr] at hstatus
      rcases hpair with ⟨rfl, rfl⟩ | ⟨rfl, rfl⟩
      · rw [hstatus, hdynamic]
      · rw [hstatus, hdynamic]

/-- In every run with a tick both checks write `alarm`. -/
theorem singleWriter_iff (maxAxis : Short) (info : InfoReply) (ts : List Tick) :
    SingleWriter (mainRounds maxAxis info ts) ↔ mainRounds maxAxis info ts = [] := by
  constructor
  · intro h
    by_contra hne
    obtain ⟨rs, r, hrs⟩ := (List.eq_nil_or_concat _).resolve_left hne
    rw [List.concat_eq_append] at hrs
    obtain ⟨hstatus, hdynamic⟩ := overlay_alarm hrs
    have htick := mainRounds_success r (hrs ▸ List.mem_append_right rs (List.mem_singleton.mpr rfl))
    obtain ⟨v, -, hv, -⟩ := Round.status htick
    obtain ⟨v', -, hv', -⟩ := Round.dynamic htick
    rw [hv] at hstatus
    rw [hv'] at hdynamic
    exact absurd (h.1 _ _ _ _ _ (mem_of_overlay_project hstatus)
      (mem_of_overlay_project hdynamic)) (by decide)
  · intro h
    rw [h]
    exact ⟨fun _ _ _ _ _ hx => absurd hx List.not_mem_nil, fun _ hr => absurd hr List.not_mem_nil⟩

/-- **When each key has one owner.** After the successful ticks of a run every writer
is right about its keys iff the last tick read the same alarm number from
`cnc_statinfo` and, as the driver keeps it, from `cnc_rddynamic2`. That nobody else
writes a key and no message holds one twice is true of no run with a tick. -/
theorem one_owner_iff (maxAxis : Short) (info : InfoReply) (ts : List Tick) :
    (EachKeyOwned (mainRounds maxAxis info ts) ↔
      ∀ r ∈ (mainRounds maxAxis info ts).getLast?, r.statusAlarm = r.dynamicAlarm) ∧
    (SingleWriter (mainRounds maxAxis info ts) ↔ mainRounds maxAxis info ts = []) :=
  ⟨eachKeyOwned_iff maxAxis info ts, singleWriter_iff maxAxis info ts⟩

/-- A tick in which only the status reports an alarm. -/
def alarmTick : Tick where
  lib :=
    { sampleLibrary sampleReadings with
      status :=
        { clock := sampleClock
          statinfo := some { alarm := 1, aut := 1, edit := 0, emergency := 0, hdck := 0,
                             motion := 0, mstb := 0, run := 3 } } }
  clock := sampleClock
  produced := .noError

/-- The dynamic check comes later in the tick and hides the alarm of the status. -/
theorem alarm_two_writers :
    overlay (builtValues (mainRounds 32 sampleInfo [alarmTick])) .alarm = some (.number 0) ∧
    overlay (project (some .status) (written (mainRounds 32 sampleInfo [alarmTick]))) .alarm
      = some (.number 1) ∧
    ¬∀ (maxAxis : Short) (info : InfoReply) (ts : List Tick),
      EachKeyOwned (mainRounds maxAxis info ts) := by
  have hheld : overlay (builtValues (mainRounds 32 sampleInfo [alarmTick])) .alarm
      = some (.number 0) := by decide +kernel
  have hwritten : overlay (project (some .status) (written (mainRounds 32 sampleInfo [alarmTick])))
      .alarm = some (.number 1) := by decide +kernel
  refine ⟨hheld, hwritten, fun h => ?_⟩
  have howned := h 32 sampleInfo [alarmTick] _ _ _ (mem_of_overlay_project hwritten)
  rw [hheld, hwritten] at howned
  exact absurd howned (by decide)

end FanucDriver.Driver
