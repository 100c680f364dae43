import FanucDriver.Driver.Main

/-!
# Delivery: rejected messages

Every message carries only what changed since the message before it, and the
static copies advance while it is built. `main` logs a result other than
`RD_KAFKA_RESP_ERR_NO_ERROR` and goes on with a new pair of objects, so what a
rejected message carried is not sent again.

`accepted_overlay` says what a consumer of the accepted messages then holds,
against the overlay of all messages built:

> the messages built do not depend on the produce results; a key whose latest
> carrying message was accepted is held as in all messages; a key whose latest
> carrying message was rejected is held as before that message.
-/

namespace FanucDriver.Driver

open FanucDriver.Lib

/-- The `values` of all messages built over some rounds. -/
def builtValues (rs : List Round) : Updates := rs.flatMap (·.message.values)

/-- The `values` of the messages `rd_kafka_producev` accepted. -/
def acceptedValues (rs : List Round) : Updates := builtValues (rs.filter (·.accepted))

/-- The message of the round holds the key. -/
def Round.Carries (r : Round) (k : Key) : Prop := k ∈ r.message.values.map Prod.fst

instance (r : Round) (k : Key) : Decidable (r.Carries k) :=
  inferInstanceAs (Decidable (k ∈ r.message.values.map Prod.fst))

theorem builtValues_append (rs rs' : List Round) :
    builtValues (rs ++ rs') = builtValues rs ++ builtValues rs' := List.flatMap_append

theorem acceptedValues_append (rs rs' : List Round) :
    acceptedValues (rs ++ rs') = acceptedValues rs ++ acceptedValues rs' := by
  rw [acceptedValues, List.filter_append, builtValues_append, acceptedValues, acceptedValues]

/-- Rounds that do not carry a key do not move its holding. -/
theorem overlay_builtValues_silent {rs : List Round} {k : Key} (h : ∀ r ∈ rs, ¬r.Carries k) :
    overlay (builtValues rs) k = none := by
  refine overlay_eq_none_iff.mpr fun u hu he => ?_
  obtain ⟨r, hr, hur⟩ := List.mem_flatMap.mp hu
  exact h r hr (List.mem_map.mpr ⟨u, hur, he⟩)

theorem overlay_acceptedValues_silent {rs : List Round} {k : Key}
    (h : ∀ r ∈ rs, ¬r.Carries k) : overlay (acceptedValues rs) k = none :=
  overlay_builtValues_silent fun r hr => h r (List.mem_filter.mp hr).1

/-- A key some round carries is held. -/
theorem overlay_carried {r : Round} {k : Key} (h : r.Carries k) :
    ∃ x, overlay r.message.values k = some x := by
  obtain ⟨u, hu, he⟩ := List.mem_map.mp h
  cases hx : overlay r.message.values k with
  | none => exact absurd he (overlay_eq_none_iff.mp hx u hu)
  | some x => exact ⟨x, rfl⟩

/-- The holding under a key in all messages is that of the latest message that
carries it. -/
theorem overlay_built_latest (p₁ : List Round) {p₂ : List Round} {r : Round} {k : Key}
    (hr : r.Carries k) (h : ∀ r ∈ p₂, ¬r.Carries k) :
    overlay (builtValues (p₁ ++ r :: p₂)) k = overlay r.message.values k := by
  obtain ⟨x, hx⟩ := overlay_carried hr
  have hsplit : builtValues (r :: p₂) = r.message.values ++ builtValues p₂ := rfl
  rw [builtValues_append, hsplit, overlay_append, overlay_append, overlay_builtValues_silent h,
    hx]
  rfl

/-- In the accepted messages it is that of the same message when this was
accepted, and the earlier holding otherwise. -/
theorem overlay_accepted_latest (p₁ : List Round) {p₂ : List Round} {r : Round} {k : Key}
    (hr : r.Carries k) (h : ∀ r ∈ p₂, ¬r.Carries k) :
    overlay (acceptedValues (p₁ ++ r :: p₂)) k
      = if r.accepted then overlay r.message.values k else overlay (acceptedValues p₁) k := by
  obtain ⟨x, hx⟩ := overlay_carried hr
  -- a rejected message leaves nothing
  have hsplit : acceptedValues (r :: p₂)
      = (if r.accepted then r.message.values else []) ++ acceptedValues p₂ := by
    unfold acceptedValues
    rw [List.filter_cons]
    split <;> rfl
  rw [acceptedValues_append, hsplit, overlay_append, overlay_append,
    overlay_acceptedValues_silent h, Option.none_or]
  split
  · rw [hx]; rfl
  · rw [overlay_nil, Option.none_or]

/-! ## Runs -/

/-- The part of a round's input that the control and the clock give. -/
def Tick.readings (t : Tick) : Library × Clock := (t.lib, t.clock)

/-- The messages a run builds do not depend on what became of the earlier ones. -/
theorem rounds_message_congr (ts ts' : List Tick) (h : ts.map Tick.readings = ts'.map Tick.readings)
    (s : State) : (rounds s ts).map Round.message = (rounds s ts').map Round.message := by
  induction ts generalizing ts' s with
  | nil =>
    rw [List.map_nil, eq_comm, List.map_eq_nil_iff] at h
    rw [h]
  | cons t ts ih =>
    cases ts' with
    | nil => exact absurd h (by simp)
    | cons t' ts' =>
      rw [List.map_cons, List.map_cons, List.cons.injEq] at h
      obtain ⟨hlib, hclock⟩ := Prod.mk.inj h.1
      -- a tick does not see the produce results
      match hs : loopTick t.lib s with
      | (true, s') =>
        rw [rounds_cons_failed hs, rounds_cons_failed (hlib ▸ hs)]
      | (false, s') =>
        rw [rounds_cons hs, rounds_cons (hlib ▸ hs), List.map_cons, List.map_cons,
          ih ts' h.2 s'.fresh]
        simp only [Round.message, hclock]

/-- **What the accepted messages hold.** The messages built do not depend on the
produce results. After an accepted message, a key whose latest carrying message
was accepted, or that no message carries, is held as in all messages; a key whose
latest carrying message was rejected is held as before that message, so the two
agree only if the rejected value was already there. -/
theorem accepted_overlay (maxAxis : Short) (info : InfoReply) (ts : List Tick) :
    (∀ ts', ts.map Tick.readings = ts'.map Tick.readings →
      (mainRounds maxAxis info ts).map Round.message
        = (mainRounds maxAxis info ts').map Round.message) ∧
    ∀ p r, p ++ [r] <+: mainRounds maxAxis info ts → r.accepted = true → ∀ k,
      ((∀ r' ∈ p ++ [r], ¬r'.Carries k) →
        overlay (acceptedValues (p ++ [r])) k = overlay (builtValues (p ++ [r])) k) ∧
      ∀ p₁ r₀ p₂, p ++ [r] = p₁ ++ r₀ :: p₂ → r₀.Carries k → (∀ r' ∈ p₂, ¬r'.Carries k) →
        if r₀.accepted then
          overlay (acceptedValues (p ++ [r])) k = overlay (builtValues (p ++ [r])) k
        else
          overlay (acceptedValues (p ++ [r])) k = overlay (acceptedValues p₁) k ∧
          (overlay (acceptedValues (p ++ [r])) k = overlay (builtValues (p ++ [r])) k ↔
            overlay (acceptedValues p₁) k = overlay r₀.message.values k) := by
  constructor
  · intro ts' h
    unfold mainRounds
    split
    · rfl
    · exact rounds_message_congr ts ts' h _
  · intro p r _ _ k
    constructor
    · intro hsilent
      rw [overlay_acceptedValues_silent hsilent, overlay_builtValues_silent hsilent]
    · intro p₁ r₀ p₂ hsplit hr₀ hsilent
      have hacc := overlay_accepted_latest p₁ hr₀ hsilent
      have hall := overlay_built_latest p₁ hr₀ hsilent
      rw [hsplit]
      split
      next h => rw [hacc, if_pos h, hall]
      next h =>
        rw [if_neg h] at hacc
        exact ⟨hacc, by rw [hacc, hall]⟩

/-- After every accepted message the accepted messages hold what all messages
hold. -/
def NoUpdateLost (rs : List Round) : Prop :=
  ∀ p r, p ++ [r] <+: rs → r.accepted = true → ∀ k,
    overlay (acceptedValues (p ++ [r])) k = overlay (builtValues (p ++ [r])) k

/-- The part count moves from 5 to 6 in the round whose message is rejected, and
stays at 6. -/
def rejectedTicks : List Tick :=
  [sampleTick .noError { sampleReadings with partCount := 5 },
   sampleTick .queueFull { sampleReadings with partCount := 6 },
   sampleTick .noError { sampleReadings with partCount := 6 }]

/-- What the rounds of that run do about the part count: accepted, carried. -/
theorem rejectedTicks_rounds :
    (mainRounds 32 sampleInfo rejectedTicks).map
        (fun r => (r.accepted, decide (r.Carries .part_count)))
      = [(true, true), (false, true), (true, false)] := by
  decide +kernel

theorem accepted_overlay_rejected :
    ∃ r₁ r₂ r₃, mainRounds 32 sampleInfo rejectedTicks = [r₁, r₂, r₃] ∧
      overlay (acceptedValues [r₁, r₂, r₃]) .part_count
        = overlay (acceptedValues [r₁]) .part_count := by
  have hrounds := rejectedTicks_rounds
  obtain ⟨r₁, l, hl, h₁, htail⟩ := List.map_eq_cons_iff.mp hrounds
  obtain ⟨r₂, l₂, rfl, h₂, htail⟩ := List.map_eq_cons_iff.mp htail
  obtain ⟨r₃, l₃, rfl, h₃, hnil⟩ := List.map_eq_cons_iff.mp htail
  obtain rfl := List.map_eq_nil_iff.mp hnil
  simp only [Prod.mk.injEq, decide_eq_true_eq, decide_eq_false_iff_not] at h₁ h₂ h₃
  refine ⟨r₁, r₂, r₃, hl, ?_⟩
  -- the latest message with a part count is the second
  have hlast := (accepted_overlay 32 sampleInfo rejectedTicks).2 [r₁, r₂] r₃
    (by rw [hl]; exact List.prefix_refl _) h₃.1 .part_count
  have hrejected := hlast.2 [r₁] r₂ [r₃] rfl h₂.2 (by simpa using h₃.2)
  rw [h₂.1] at hrejected
  exact hrejected.1

/-- The readers of the accepted messages still hold 5 parts. -/
theorem rejected_part_count_lost :
    overlay (acceptedValues (mainRounds 32 sampleInfo rejectedTicks)) .part_count
      = some (.number 5) ∧
    overlay (builtValues (mainRounds 32 sampleInfo rejectedTicks)) .part_count
      = some (.number 6) ∧
    ¬NoUpdateLost (mainRounds 32 sampleInfo rejectedTicks) := by
  have hacc : overlay (acceptedValues (mainRounds 32 sampleInfo rejectedTicks)) .part_count
      = some (.number 5) := by decide +kernel
  have hall : overlay (builtValues (mainRounds 32 sampleInfo rejectedTicks)) .part_count
      = some (.number 6) := by decide +kernel
  refine ⟨hacc, hall, fun h => ?_⟩
  have hlast : ((mainRounds 32 sampleInfo rejectedTicks).getLast?.map (·.accepted))
      = some true := by decide +kernel
  obtain ⟨r, hr, haccepted⟩ := Option.map_eq_some_iff.mp hlast
  obtain ⟨p, hp⟩ := List.getLast?_eq_some_iff.mp hr
  have hlost := h p r ⟨[], by rw [hp, List.append_nil]⟩ haccepted .part_count
  rw [← hp, hacc, hall] at hlost
  exact absurd hlost (by decide)

end FanucDriver.Driver
