import FanucDriver.Driver.DeltaStreams

/-!
# The numbers of the dynamic record

`cnc_rddynamic2` reports six numbers as C longs of 32 bits; `MachineDynamic` keeps them
as `short`, and compares and publishes what it kept. A number outside the range of a
`short` is published as another one, and a change by a multiple of 65536 is not seen.

`numbers_exact_iff`: over any sequence of reads, the published numbers are those of
the control and a number is published exactly when it changed, iff every number read
fits a `short`. One read out of range is enough: the first one that does not repeat the
number before it is published wrongly.
-/

namespace FanucDriver.Driver

open FanucDriver.Lib

/-- The numbers of the dynamic record. -/
inductive DynamicNumber where
  | alarm
  | cprogram
  | mprogram
  | sequence
  | actf
  | acts
  deriving DecidableEq

namespace DynamicNumber

/-- What the control reports. -/
def read (dyn : ODBDY2) : DynamicNumber → Long
  | alarm => dyn.alarm
  | cprogram => dyn.prgnum
  | mprogram => dyn.prgmnum
  | sequence => dyn.seqnum
  | actf => dyn.actf
  | acts => dyn.acts

/-- What the record keeps. -/
def kept (v : MachineDynamic) : DynamicNumber → Short
  | alarm => v.alarm
  | cprogram => v.cprogram
  | mprogram => v.mprogram
  | sequence => v.sequence
  | actf => v.actf
  | acts => v.acts

/-- The key it is published under. -/
def key : DynamicNumber → Key
  | alarm => .alarm
  | cprogram => .cprogram
  | mprogram => .mprogram
  | sequence => .sequence
  | actf => .actf
  | acts => .acts

def guard (n : DynamicNumber) : Guard MachineDynamic Key Value :=
  .onChange n.key (kept · n) fun v => .number (kept v n).toInt

theorem guard_mem (n : DynamicNumber) : n.guard ∈ dynamicGuards := by
  cases n <;> simp [guard, kept, key, dynamicGuards, cprogramGuard, mprogramGuard]

end DynamicNumber

/-! ## Narrowing -/

/-- The range of a `short`. -/
def FitsShort (x : Long) : Prop := -32768 ≤ x.toInt ∧ x.toInt ≤ 32767

theorem toInt_toInt16_iff {x : Long} : x.toInt16.toInt = x.toInt ↔ FitsShort x := by
  unfold FitsShort
  rw [Int32.toInt_toInt16, Int.bmod_eq_emod]
  split <;> omega

/-- Numbers that fit are kept apart. -/
theorem FitsShort.toInt16_inj {x y : Long} (hx : FitsShort x) (hy : FitsShort y)
    (h : x.toInt16 = y.toInt16) : x = y := by
  have hint : x.toInt = y.toInt := by
    rw [← toInt_toInt16_iff.mpr hx, ← toInt_toInt16_iff.mpr hy, h]
  exact Int32.toInt_inj.mp hint

/-! ## A run of reads -/

/-- The numbers of a read that succeeds. -/
def DynamicReply.reading (r : DynamicReply) : Option ODBDY2 :=
  if r.rdsvmeter.isSome then r.rddynamic2 else none

/-- A call of the check on a new message. -/
def DynamicReply.run (r : DynamicReply) (s : State) : State :=
  (checkMachineDynamic (getMachineDynamic r s.axisCount s.divisors) s.fresh).2

/-- The calls of a run, from the check's first. -/
def dynamicReads (s : State) (rs : List DynamicReply) : State :=
  rs.foldl (fun s r => r.run s) s.unread

/-- The read `r`, which reports `dyn` after the reads `p`, publishes the number as the
control reports it, and exactly when it is new. -/
structure Publishes (s : State) (p : List DynamicReply) (r : DynamicReply) (dyn : ODBDY2)
    (n : DynamicNumber) : Prop where
  value : ∀ x, (n.key, x) ∈ (r.run (dynamicReads s p)).updates → x = .number (n.read dyn).toInt
  onChange : n.key ∈ (r.run (dynamicReads s p)).updates.map Prod.fst ↔
    ∀ d ∈ (p.filterMap DynamicReply.reading).getLast?, n.read d ≠ n.read dyn

/-- A successful read keeps its numbers narrowed. -/
theorem getMachineDynamic_kept {r : DynamicReply} {dyn : ODBDY2} (h : r.reading = some dyn)
    (axisCount : Short) (divisors : Nat → ℚ) :
    ∃ v, getMachineDynamic r axisCount divisors = some v ∧
      ∀ n : DynamicNumber, n.kept v = (n.read dyn).toInt16 := by
  unfold DynamicReply.reading at h
  split at h
  next hload =>
    obtain ⟨load, hload⟩ := Option.isSome_iff_exists.mp hload
    unfold getMachineDynamic
    rw [h, hload]
    exact ⟨_, rfl, fun n => by cases n <;> rfl⟩
  next => exact absurd h.symm (Option.some_ne_none dyn)

theorem getMachineDynamic_failed {r : DynamicReply} (h : r.reading = none) (axisCount : Short)
    (divisors : Nat → ℚ) : getMachineDynamic r axisCount divisors = none := by
  unfold DynamicReply.reading at h
  unfold getMachineDynamic
  cases hdyn : r.rddynamic2 with
  | none => rfl
  | some dyn =>
    cases hload : r.rdsvmeter with
    | none => rfl
    | some load => simp [hload, hdyn] at h

theorem dynamicReads_snoc (s : State) (p : List DynamicReply) (r : DynamicReply) :
    dynamicReads s (p ++ [r]) = r.run (dynamicReads s p) := by
  simp [dynamicReads]

/-- The static record holds the numbers of the last successful read, narrowed. -/
theorem dynamicReads_kept (s : State) (p : List DynamicReply) (n : DynamicNumber) :
    (dynamicReads s p).dynamicLv.map n.kept
      = (p.filterMap DynamicReply.reading).getLast?.map fun dyn => (n.read dyn).toInt16 := by
  induction p using List.reverseRecOn with
  | nil => rfl
  | append_singleton p r ih =>
    rw [dynamicReads_snoc, List.filterMap_append]
    unfold DynamicReply.run
    cases hr : r.reading with
    | none =>
      rw [getMachineDynamic_failed hr, List.filterMap_cons_none hr, List.filterMap_nil,
        List.append_nil, ← ih]
      rfl
    | some dyn =>
      obtain ⟨v, hv, hkept⟩ := getMachineDynamic_kept hr (dynamicReads s p).axisCount
        (dynamicReads s p).divisors
      rw [hv, List.filterMap_cons_some hr, List.filterMap_nil, List.getLast?_concat]
      show some (n.kept v) = some _
      rw [hkept]

/-- What one read publishes of a number. -/
theorem run_number {r : DynamicReply} {dyn : ODBDY2} (h : r.reading = some dyn) (s : State)
    (p : List DynamicReply) (n : DynamicNumber) :
    (∀ x, (n.key, x) ∈ (r.run (dynamicReads s p)).updates →
      x = .number (n.read dyn).toInt16.toInt) ∧
    (n.key ∈ (r.run (dynamicReads s p)).updates.map Prod.fst ↔
      ∀ d ∈ (p.filterMap DynamicReply.reading).getLast?,
        (n.read d).toInt16 ≠ (n.read dyn).toInt16) := by
  have hlv := dynamicReads_kept s p n
  obtain ⟨v, hv, hkept⟩ := getMachineDynamic_kept h (dynamicReads s p).axisCount
    (dynamicReads s p).divisors
  generalize dynamicReads s p = st at hlv hv ⊢
  have hus : (r.run st).updates = emit dynamicGuards st.dynamicLv v := by
    unfold DynamicReply.run
    rw [hv]
    show [] ++ emit dynamicGuards st.dynamicLv v = _
    rw [List.nil_append]
  have hnodup : (dynamicGuards.map Guard.key).Nodup := RecordCheck.guards_keys_nodup .dynamic
  rw [hus]
  constructor
  · intro x hx
    have hheld := overlay_emit hnodup n.guard_mem st.dynamicLv v
    obtain ⟨g, hg, hf, heq⟩ := mem_emit.mp hx
    obtain ⟨hkey, rfl⟩ := Prod.mk.inj heq
    -- the keys of the guards are distinct
    have hg' := overlay_emit hnodup hg st.dynamicLv v
    rw [if_pos hf, ← hkey] at hg'
    rw [show n.guard.key = n.key from rfl, hg'] at hheld
    split at hheld
    next =>
      rw [Option.some.inj hheld]
      show Value.number (n.kept v).toInt = _
      rw [hkept]
    next => exact absurd hheld (Option.some_ne_none _)
  · rw [show n.key = n.guard.key from rfl, key_mem_emit_iff hnodup n.guard_mem]
    have hfires : n.guard.fires st.dynamicLv v = true ↔
        ∀ a ∈ st.dynamicLv.map n.kept, a ≠ n.kept v := by
      cases st.dynamicLv <;> simp [DynamicNumber.guard]
    rw [hfires, hlv, hkept]
    cases (p.filterMap DynamicReply.reading).getLast? <;> simp

section
variable {s : State} {p : List DynamicReply} {r : DynamicReply} {dyn : ODBDY2} {n : DynamicNumber}

/-- A number that is published as it was read fits; one that is not published repeats the one
before. -/
theorem fits_of_publishes (hdyn : r.reading = some dyn) (hpub : Publishes s p r dyn n)
    (hp : ∀ q ∈ p, ∀ d ∈ q.reading, FitsShort (n.read d)) : FitsShort (n.read dyn) := by
  obtain ⟨hvalue, hchange⟩ := run_number hdyn s p n
  by_cases hmem : n.key ∈ (r.run (dynamicReads s p)).updates.map Prod.fst
  · obtain ⟨⟨k, x⟩, hx, rfl⟩ := List.mem_map.mp hmem
    have heq := (hvalue x hx).symm.trans (hpub.value x hx)
    rw [← toInt_toInt16_iff]
    simpa using heq
  · have hsame := mt hpub.onChange.mpr hmem
    simp only [not_forall, not_not] at hsame
    obtain ⟨d, hd, heq⟩ := hsame
    obtain ⟨q, hq, hread⟩ := List.mem_filterMap.mp (List.mem_of_mem_getLast? hd)
    rw [← heq]
    exact hp q hq d hread

theorem publishes_of_fits (hdyn : r.reading = some dyn)
    (hp : ∀ q ∈ p, ∀ d ∈ q.reading, FitsShort (n.read d)) (hfits : FitsShort (n.read dyn)) :
    Publishes s p r dyn n := by
  obtain ⟨hvalue, hchange⟩ := run_number hdyn s p n
  refine ⟨fun x hx => ?_, hchange.trans ?_⟩
  · rw [hvalue x hx, toInt_toInt16_iff.mpr hfits]
  · refine forall_congr' fun d => forall_congr' fun hd => not_congr ?_
    obtain ⟨q, hq, hread⟩ := List.mem_filterMap.mp (List.mem_of_mem_getLast? hd)
    exact ⟨(hp q hq d hread).toInt16_inj hfits, congrArg _⟩

end

/-- **When the published numbers are exact**: over any sequence of reads, those that
fail left out, every number is published as the control reports it and exactly when it
changed, iff every number read fits a `short`. -/
theorem numbers_exact_iff (s : State) (rs : List DynamicReply) :
    (∀ p r dyn, p ++ [r] <+: rs → r.reading = some dyn → ∀ n, Publishes s p r dyn n) ↔
      ∀ r ∈ rs, ∀ dyn ∈ r.reading, ∀ n : DynamicNumber, FitsShort (n.read dyn) := by
  constructor
  · intro h
    induction rs using List.reverseRecOn with
    | nil => exact fun r hr => absurd hr List.not_mem_nil
    | append_singleton p r ih =>
      have hp := ih fun p' r' dyn hpre => h p' r' dyn (hpre.trans (List.prefix_append p [r]))
      intro r' hr'
      rcases List.mem_append.mp hr' with hr' | hr'
      · exact hp r' hr'
      · obtain rfl := List.mem_singleton.mp hr'
        intro dyn hdyn n
        exact fits_of_publishes hdyn (h p r' dyn (List.prefix_refl _) hdyn n)
          fun q hq d hd => hp q hq d hd n
  · intro h p r dyn hpre hdyn n
    refine publishes_of_fits hdyn (fun q hq d hd => ?_) (h r (hpre.subset (by simp)) dyn hdyn n)
    exact h q (hpre.subset (List.mem_append_left _ hq)) d hd n

/-- A read of a spindle that turns at the given speed. -/
def sampleSpeed (acts : Long) : DynamicReply where
  clock := sampleClock
  rddynamic2 := some
    { alarm := 0, prgnum := 100, prgmnum := 100, seqnum := 10, actf := 0, acts := acts,
      absolute := fun _ => 0, machine := fun _ => 0, relative := fun _ => 0 }
  rdsvmeter := some (1, fun _ => { data := 0, dec := 0 })
  mem := { absolute := fun _ => 0, relative := fun _ => 0, actual := fun _ => 0,
           load := fun _ => 0 }

/-- 40000 revolutions per minute are published as -25536. -/
theorem speed_wraps :
    (Key.acts, Value.number (-25536)) ∈
      ((sampleSpeed 40000).run (dynamicReads (State.init 32) [])).updates ∧
    ¬∀ (s : State) (rs : List DynamicReply) (p : List DynamicReply) (r : DynamicReply)
      (dyn : ODBDY2), p ++ [r] <+: rs → r.reading = some dyn → ∀ n, Publishes s p r dyn n := by
  have hmem : (Key.acts, Value.number (-25536)) ∈
      ((sampleSpeed 40000).run (dynamicReads (State.init 32) [])).updates := by decide +kernel
  refine ⟨hmem, fun h => ?_⟩
  have hpub := h (State.init 32) [sampleSpeed 40000] [] _ _ (List.prefix_refl _) rfl .acts
  exact absurd (hpub.value _ hmem) (by decide +kernel)

end FanucDriver.Driver
