import FanucDriver.Driver.DeltaStreams

/-!
# The operator message: what a reader of the updates holds

`checkMachineMessage` publishes the text where the text changed, and null in its place
while the number is -1. What is published depends on both fields, and the guard on one of
them. `message_reconstructs_iff`: a reader holds the message after every call, iff the
number never comes to -1, or from it, while the text stays.

`Lib.tracks_iff` leaves to show where the guard of the text is silent.
-/

namespace FanucDriver.Driver

open FanucDriver.Lib

/-- A successful message reading. The text and its terminator fit `char text[256]`. -/
structure MessageReading where
  clock : Clock
  number : Short
  text : { text : CStr // text.length < 256 }

def MessageReading.record (r : MessageReading) : MachineMessage where
  executionDuration := r.clock.tt
  number := r.number
  text := r.text

/-- One call of the check. -/
def MessageReading.run (r : MessageReading) (s : State) : State :=
  (checkMachineMessage (getMachineMessage ⟨r.clock, some ⟨r.number, r.text⟩⟩) s).2

/-- A run of calls from the check's first, on an empty `values` object. -/
def messageCalls (s : State) (rs : List MessageReading) : State :=
  rs.foldl (fun s r => MessageReading.run r s) { s with messageLv := none, updates := [] }

/-- The updates the check adds over the run. -/
def messageUpdates (s : State) (rs : List MessageReading) : Updates := (messageCalls s rs).updates

/-- What a reader of the updates is to hold after a reading. -/
def ShowsMessage (us : Updates) (r : MessageReading) : Prop :=
  overlay us .message_number = some (.number r.number.toInt) ∧
    overlay us .message_text = some (if r.number = -1 then .null else .string r.text)

theorem messageGuards_keys_nodup : (messageGuards.map Guard.key).Nodup := by decide

theorem messageCalls_snoc (s : State) (rs : List MessageReading) (r : MessageReading) :
    messageCalls s (rs ++ [r]) = r.run (messageCalls s rs) := by
  simp [messageCalls]

theorem messageCalls_lv (s : State) (rs : List MessageReading) :
    (messageCalls s rs).messageLv = (rs.map MessageReading.record).getLast? := by
  induction rs using List.reverseRecOn with
  | nil => rfl
  | append_singleton rs r _ =>
    rw [messageCalls_snoc, List.map_append, List.map_singleton, List.getLast?_concat]
    rfl

theorem messageUpdates_eq_history (s : State) (rs : List MessageReading) :
    messageUpdates s rs = history messageGuards (rs.map MessageReading.record) := by
  induction rs using List.reverseRecOn with
  | nil => rfl
  | append_singleton rs r ih =>
    rw [List.map_append, List.map_singleton, history_snoc, ← ih, ← messageCalls_lv s rs,
      messageUpdates, messageCalls_snoc]
    rfl

abbrev numberGuard : Guard MachineMessage Key Value :=
  .onChange .message_number (·.number) fun v => .number v.number.toInt

/-- The guard of the text watches the text, and publishes null where the number is -1. -/
abbrev textGuard : Guard MachineMessage Key Value :=
  .onChange .message_text (·.text.take 256) fun v => if v.number ≠ -1 then .string v.text else .null

/-- The number is published on every change. -/
theorem number_tracks (rs : List MessageReading) :
    Tracks messageGuards numberGuard (rs.map MessageReading.record) := by
  have hexact : numberGuard.Exact fun _ => True := RecordCheck.onChange_short_exact _ _ _
  exact hexact.tracks messageGuards_keys_nodup List.mem_cons_self fun _ _ => trivial

/-- `strncmp` of two texts that fit says whether they are the same. -/
theorem textGuard_silent (a b : MessageReading) :
    textGuard.fires (some a.record) b.record = false ↔ a.text = b.text := by
  have hfits (r : MessageReading) : r.record.text.take 256 = r.text :=
    List.take_of_length_le (Nat.le_of_lt r.text.property)
  rw [Guard.onChange_fires_some, hfits, hfits, Subtype.ext_iff]
  simp

/-- One text published, or none: the number decides. -/
theorem textGuard_value {a b : MessageReading} (h : a.text = b.text) :
    textGuard.value a.record = textGuard.value b.record ↔ (a.number = -1 ↔ b.number = -1) := by
  have hvalue (r : MessageReading) : textGuard.value r.record
      = if r.number ≠ -1 then .string r.text else .null := rfl
  rw [hvalue, hvalue, h]
  by_cases ha : a.number = -1 <;> by_cases hb : b.number = -1 <;> simp [ha, hb]

/-- The stream of the text goes stale exactly where the number comes to -1, or from it,
and the text stays. -/
theorem text_tracks_iff (rs : List MessageReading) :
    Tracks messageGuards textGuard (rs.map MessageReading.record) ↔
      ∀ p a b, p ++ [a, b] <+: rs → a.text = b.text → (a.number = -1 ↔ b.number = -1) := by
  have hfirst : ∀ v, [v] <+: rs.map MessageReading.record → textGuard.fires none v = true :=
    fun _ _ => rfl
  have hmem : textGuard ∈ messageGuards := List.mem_cons_of_mem _ List.mem_cons_self
  rw [tracks_iff messageGuards_keys_nodup hmem, and_iff_right hfirst, forall_successive_map]
  simp only [textGuard_silent]
  refine forall_congr' fun p => forall_congr' fun a => forall_congr' fun b => ?_
  exact forall_congr' fun _ => forall_congr' fun htext => textGuard_value htext

/-- **When the message stream reconstructs the message**: after every call of a run, iff
the number does not come to -1, or from it, between two successive calls with one
text. -/
theorem message_reconstructs_iff (s : State) (rs : List MessageReading) :
    (∀ p r, p ++ [r] <+: rs → ShowsMessage (messageUpdates s (p ++ [r])) r) ↔
      ∀ p a b, p ++ [a, b] <+: rs → a.text = b.text → (a.number = -1 ↔ b.number = -1) := by
  have htext (r : MessageReading) : textGuard.value r.record
      = if r.number = -1 then .null else .string r.text := ite_not _ _ _
  rw [← text_tracks_iff, tracks_map_iff]
  constructor
  · intro h p r hp
    rw [← messageUpdates_eq_history s, htext]
    exact (h p r hp).2
  · intro h p r hp
    have hnumber := tracks_map_iff.mp (number_tracks rs) p r hp
    have hshow := h p r hp
    rw [← messageUpdates_eq_history s] at hnumber hshow
    rw [htext] at hshow
    exact ⟨hnumber, hshow⟩

/-- The message is cleared by its number alone. -/
def sampleMessage (number : Short) : MessageReading where
  clock := ⟨⟨0, 0⟩, ⟨0, 0⟩⟩
  number := number
  text := ⟨"OIL LOW".toList, by decide⟩

/-- The reader still sees the text after the number went to -1. -/
theorem message_text_stale :
    ¬ShowsMessage (messageUpdates (State.init 32) [sampleMessage 2000, sampleMessage (-1)])
      (sampleMessage (-1)) := by
  have htext : overlay (messageUpdates (State.init 32) [sampleMessage 2000, sampleMessage (-1)])
      .message_text = some (.string "OIL LOW".toList) := by decide +kernel
  intro h
  have hshow := h.2
  rw [htext] at hshow
  exact absurd hshow (by decide)

end FanucDriver.Driver
