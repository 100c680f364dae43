import FanucDriver.Driver.Ticks

/-!
# Which uploads are recorded

`checkMachineProgramContents` uploads the main program when its number is not the one
it recorded, and records the number when `getMachineProgramContents` comes back with 0.
Only `cnc_upend4` decides that: a failed `cnc_upstart4` is logged, and any code of
`cnc_upload4` but `EW_OK` and `EW_BUFFER` ends the loop as the end of the text does. So
an upload that delivered nothing is recorded as soon as it can be closed, and not tried
again.

`upload4Loop_eq` is the loop invariant: the block holds the bytes delivered so far and
the terminator, and there is no block before the first byte.
-/

namespace FanucDriver.Driver

open FanucDriver.Lib CheckName

/-! ## The upload loop -/

/-- The bytes `cnc_upload4` delivered. -/
def ContentsReply.bytes (r : ContentsReply) : List Char :=
  r.upload4.flatMap fun reply => (reply.map (·.val)).getD []

/-- The allocated block after some bytes. -/
def block (bytes : List Char) : Option (List Char) :=
  if bytes = [] then none else some (bytes ++ ['\x00'])

/-- Growing the block appends the bytes before the terminator. -/
theorem growProgram_block (bytes buf : List Char) :
    growProgram (block bytes) bytes.length buf = bytes ++ buf ++ ['\x00'] := by
  unfold growProgram block
  split
  next h => rw [h]; rfl
  next => rw [Option.getD_some, List.take_left]

/-- The loop invariant. -/
theorem upload4Loop_eq (replies : List (Option { buf : List Char // buf.length ≤ 1280 }))
    (bytes : List Char) :
    upload4Loop replies (block bytes) bytes.length =
      (block (bytes ++ replies.flatMap fun reply => (reply.map (·.val)).getD []),
        (bytes ++ replies.flatMap fun reply => (reply.map (·.val)).getD []).length) := by
  induction replies generalizing bytes with
  | nil => simp [upload4Loop]
  | cons reply replies ih =>
    cases reply with
    | none =>
      rw [upload4Loop, ih]
      rfl
    | some buf =>
      rw [upload4Loop, List.flatMap_cons]
      split
      next hpos =>
        have hne : bytes ++ buf.val ≠ [] := fun h => by
          rw [List.append_eq_nil_iff] at h
          rw [h.2] at hpos
          exact absurd hpos (by simp)
        rw [growProgram_block, ← List.length_append,
          show some (bytes ++ buf.val ++ ['\x00']) = block (bytes ++ buf.val) from
            (if_neg hne).symm, ih, List.append_assoc]
        rfl
      next hzero =>
        have hnil : buf.val = [] := List.length_eq_zero_iff.mp (by omega)
        rw [ih, Option.map_some, Option.getD_some, hnil, List.nil_append]

/-- A terminator ends the C string of a block. -/
theorem cString_terminated (bytes : List Char) : cString (bytes ++ ['\x00']) = cString bytes := by
  unfold cString
  induction bytes with
  | nil => rfl
  | cons c bytes ih =>
    rw [List.cons_append, List.takeWhile_cons, List.takeWhile_cons, ih]

/-- What the getter delivers, when the upload can be closed. -/
theorem getMachineProgramContents_eq {r : ContentsReply} (h : r.upend4 = .ok ()) :
    ∃ v, getMachineProgramContents r = some v ∧ v.contents = block r.bytes := by
  unfold getMachineProgramContents
  rw [show upload4Loop r.upload4 none 0 = _ from upload4Loop_eq r.upload4 [], h]
  exact ⟨_, rfl, rfl⟩

/-! ## One call -/

/-- The call of the check in a state in which the control answers `r`. -/
def contentsCall (r : ContentsReply) (s : State) : Bool × State :=
  checkMachineProgramContents (fun _ => getMachineProgramContents r) s

/-- A call that records the main program put the text it uploaded into `updates`;
one that does not leaves the upload due. -/
structure RecordsPublished (r : ContentsReply) (s : State) : Prop where
  recorded : (contentsCall r s).2.lastProgramNum ≠ s.lastProgramNum →
    (contentsCall r s).2.lastProgramNum = s.mProgramNum ∧
    r.upstart4 = .ok () ∧ r.bytes ≠ [] ∧
    ∃ us, (contentsCall r s).2.updates = s.updates ++ us ∧
      (.program, .string (cString r.bytes)) ∈ us
  due : (contentsCall r s).2.lastProgramNum = s.lastProgramNum →
    s.lastProgramNum ≠ s.mProgramNum →
    (contentsCall r s).2.lastProgramNum ≠ (contentsCall r s).2.mProgramNum

/-- The upload is due. -/
def State.UploadDue (s : State) : Prop := s.lastProgramNum ≠ s.mProgramNum

instance (s : State) : Decidable s.UploadDue :=
  inferInstanceAs (Decidable (s.lastProgramNum ≠ s.mProgramNum))

/-- An upload that can be closed was started and delivered something. -/
def ContentsReply.Sound (r : ContentsReply) : Prop :=
  r.upend4 = .ok () → r.upstart4 = .ok () ∧ r.bytes ≠ []

theorem recordsPublished_iff (r : ContentsReply) (s : State) :
    RecordsPublished r s ↔ (s.UploadDue → r.Sound) := by
  unfold State.UploadDue ContentsReply.Sound
  by_cases hdue : s.lastProgramNum = s.mProgramNum
  · -- nothing is done
    have hcall : contentsCall r s = (false, s) := by
      unfold contentsCall checkMachineProgramContents
      rw [if_neg (not_not.mpr hdue)]
    refine iff_of_true ⟨fun h => ?_, fun _ h => absurd hdue h⟩ fun h => absurd hdue h
    rw [hcall] at h
    exact absurd rfl h
  cases hend : r.upend4 with
  | error ret =>
    have hget : getMachineProgramContents r = none := by
      unfold getMachineProgramContents
      rw [hend]
    have hcall : contentsCall r s
        = (true, { s with calls := s.calls ++ [.upload s.mProgramPath] }) := by
      unfold contentsCall checkMachineProgramContents
      rw [if_pos hdue, hget]
    refine iff_of_true ⟨fun h => ?_, fun _ h => ?_⟩ fun _ h => absurd h (by simp)
    · rw [hcall] at h
      exact absurd rfl h
    · rw [hcall]
      exact h
  | ok =>
    obtain ⟨v, hget, hcontents⟩ := getMachineProgramContents_eq hend
    have hlast : (contentsCall r s).2.lastProgramNum = s.mProgramNum := by
      unfold contentsCall checkMachineProgramContents
      rw [if_pos hdue, hget]
    have hupdates : (contentsCall r s).2.updates = s.updates ++ contentsUpdates v := by
      unfold contentsCall checkMachineProgramContents
      rw [if_pos hdue, hget]
      rfl
    constructor
    · intro h _ _
      obtain ⟨-, hstart, hbytes, -⟩ := h.recorded (by rw [hlast]; exact Ne.symm hdue)
      exact ⟨hstart, hbytes⟩
    · intro h
      obtain ⟨hstart, hbytes⟩ := h hdue rfl
      refine ⟨fun _ => ⟨hlast, hstart, hbytes, _, hupdates, ?_⟩, fun he _ => ?_⟩
      · unfold contentsUpdates
        rw [hcontents, block, if_neg hbytes, ← cString_terminated r.bytes]
        exact List.mem_cons_of_mem _ List.mem_cons_self
      · exact absurd (he.symm.trans hlast) hdue

/-! ## Runs -/

/-- The calls of the check in a run, with the control's answers and the state each is
made in. A tick gets to its call when the checks before it succeed, whether or not the
tick does. -/
def contentsCalls : State → List Tick → List (ContentsReply × State)
  | _, [] => []
  | s, t :: ts =>
    (match runChecks ((all.takeWhile (· ≠ .programContents)).map (call t.lib)) s with
      | (true, _) => []
      | (false, s₁) => [(t.lib.contents, s₁)]) ++
    match loopTick t.lib s with
      | (true, _) => []
      | (false, s') => contentsCalls s'.fresh ts

/-- The calls of a run of the program. -/
def mainContentsCalls (maxAxis : Short) (info : InfoReply) (ts : List Tick) :
    List (ContentsReply × State) :=
  match start maxAxis info with
  | none => []
  | some s => contentsCalls s ts

/-- **When every recorded upload was published.** In a run of the program every call
that records the main program published text it uploaded, iff in every call with an
upload due, where `cnc_upend4` succeeds, `cnc_upstart4` succeeded and `cnc_upload4`
delivered at least one byte. -/
theorem uploads_recorded_iff (maxAxis : Short) (info : InfoReply) (ts : List Tick) :
    (∀ c ∈ mainContentsCalls maxAxis info ts, RecordsPublished c.1 c.2) ↔
      ∀ c ∈ mainContentsCalls maxAxis info ts, c.2.UploadDue → c.1.Sound := by
  refine forall_congr' fun c => forall_congr' fun _ => ?_
  exact recordsPublished_iff c.1 c.2

/-- A tick in which `cnc_upstart4` fails and nothing is delivered. -/
def failedStartTick : Tick where
  lib :=
    { sampleLibrary sampleReadings with
      contents :=
        { clock := sampleClock, upstart4 := .error .busy, upload4 := [], upload4End := .other 2,
          upend4 := .ok () } }
  clock := sampleClock
  produced := .noError

/-- Program 100 is recorded although no program is in the message. -/
theorem failed_upload_recorded :
    (mainRounds 32 sampleInfo [failedStartTick]).map
        (fun r => (r.after.lastProgramNum, r.message.values.map Prod.fst |>.contains .program))
      = [(100, false)] ∧
    ¬∀ (maxAxis : Short) (info : InfoReply) (ts : List Tick),
      ∀ c ∈ mainContentsCalls maxAxis info ts, RecordsPublished c.1 c.2 := by
  refine ⟨by decide +kernel, fun h => ?_⟩
  have hcalls : (mainContentsCalls 32 sampleInfo [failedStartTick]).map
      (fun c => (decide c.2.UploadDue, c.1.bytes, c.1.upend4.isOk)) = [(true, [], true)] := by
    decide +kernel
  obtain ⟨c, l, hl, hc, -⟩ := List.map_eq_cons_iff.mp hcalls
  obtain ⟨hdue, hrest⟩ := Prod.mk.inj hc
  obtain ⟨hbytes, hend⟩ := Prod.mk.inj hrest
  have hrecords := h 32 sampleInfo [failedStartTick] c (hl ▸ List.mem_cons_self)
  have hok : c.1.upend4 = .ok () := by
    cases hr : c.1.upend4 with
    | ok => rfl
    | error ret => rw [hr] at hend; exact absurd hend Bool.false_ne_true
  exact ((recordsPublished_iff c.1 c.2).mp hrecords (of_decide_eq_true hdue) hok).2 hbytes

end FanucDriver.Driver
