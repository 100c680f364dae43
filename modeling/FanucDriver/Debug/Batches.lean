import FanucDriver.Lib.Asyncio
import FanucDriver.Lib.Steps
import Mathlib.Tactic.SplitIfs

/-!
# Batches of rows

`main` of `consumer.py` runs two coroutines on a queue of 1000 rows. `a` puts the rows of
the messages on it, and when it is full waits until all of them are done. `b` takes rows
until the queue is empty, inserts them in one call, and waits for the next row.

`batches_in_order`: no row is lost, repeated or out of order, and `b` holds rows only while
it inserts them. The two coroutines do not block each other (`join_progress`).

Mirroring notes:
- A step is what a coroutine does from one suspension to the next. `a` may be suspended
  before every message.
- `executemany` returns; a message that is no row is passed over and left out.
- The state keeps the rows that were produced and the batches of the calls that returned.
-/

namespace FanucDriver.Debug

open FanucDriver.Lib

variable {A : Type}

/-- Where `a` is suspended. -/
inductive Producer (A : Type) where
  /-- `async for msg in consumer` -/
  | reading
  /-- `await q.join()` -/
  | joining (vv : A)
  /-- `await q.put(vv)` -/
  | putting (vv : A)

/-- The row that `a` has not put yet. -/
def Producer.held : Producer A → List A
  | reading => []
  | joining vv => [vv]
  | putting vv => [vv]

/-- Where `b` is suspended. -/
inductive Inserter where
  | starting
  /-- `await conn.executemany(query, to_insert)` -/
  | inserting
  /-- `await q.get()` -/
  | getting
  deriving DecidableEq

structure Loader (A : Type) where
  q : Queue A
  a : Producer A
  b : Inserter
  to_insert : List A
  produced : List A
  returned : List (List A)

namespace Loader

def start : Loader A where
  q := .empty
  a := .reading
  b := .starting
  to_insert := []
  produced := []
  returned := []

/-- The batches of all calls of `executemany`. -/
def passed (s : Loader A) : List (List A) :=
  if s.b = .inserting then s.returned ++ [s.to_insert] else s.returned

end Loader

/-- `asyncio.Queue(1000)` -/
def full (q : Queue A) : Bool := 1000 ≤ q.items.length

/-- `q.get_nowait()` with `to_insert.append` and `q.task_done()` until the queue is empty; as
many times as it has rows. -/
def drain : ℕ → Queue A → List A → Queue A × List A
  | 0, q, to_insert => (q, to_insert)
  | n + 1, q, to_insert =>
    match q.get? with
    | none => (q, to_insert)
    | some (vv, q) => drain n q.taskDone (to_insert ++ [vv])

inductive Event (A : Type) where
  /-- The next message gives a row. -/
  | row (vv : A)
  /-- `q.join()` comes back. -/
  | joined
  /-- `q.put(vv)` finds a place. -/
  | slot
  | start
  /-- `executemany` returns. -/
  | inserted
  /-- `q.get()` finds a row. -/
  | woken

namespace Loader

/-- `await q.put(vv)` -/
def put (s : Loader A) (vv : A) : Loader A :=
  if full s.q then { s with a := .putting vv }
  else { s with a := .reading, q := s.q.put [vv] }

/-- The loop of `b` from its start to the next suspension. -/
def loop (s : Loader A) (q : Queue A) (to_insert : List A) : Loader A :=
  let drained := drain q.items.length q to_insert
  let b := if drained.2.isEmpty then .getting else .inserting
  { s with q := drained.1, b := b, to_insert := drained.2 }

def step (s : Loader A) : Event A → Option (Loader A)
  | .row vv =>
    match s.a with
    | .reading =>
      let s := { s with produced := s.produced ++ [vv] }
      if full s.q then
        if s.q.joined then some (s.put vv) else some { s with a := .joining vv }
      else some { s with q := s.q.put [vv] }
    | _ => none
  | .joined =>
    match s.a with
    | .joining vv => if s.q.joined then some (s.put vv) else none
    | _ => none
  | .slot =>
    match s.a with
    | .putting vv => if full s.q then none else some (s.put vv)
    | _ => none
  | .start => if s.b = .starting then some (s.loop s.q s.to_insert) else none
  | .inserted =>
    if s.b = .inserting then
      let s := { s with returned := s.returned ++ [s.to_insert], to_insert := [] }
      match s.q.get? with
      | none => some { s with b := .getting }
      | some (vv, q) => some (s.loop q.taskDone (s.to_insert ++ [vv]))
    else none
  | .woken =>
    match s.b, s.q.get? with
    | .getting, some (vv, q) => some (s.loop q.taskDone (s.to_insert ++ [vv]))
    | _, _ => none

end Loader

/-! ## What a step does -/

/-- What a step does to the queue and the two coroutines. -/
inductive Loader.Moves (s : Loader A) : Loader A → Prop where
  /-- `a` puts the row it holds, or one it has just produced. -/
  | put {vv : A} (xs : List A) (hheld : s.a.held ++ xs = [vv])
      (hroom : full s.q = true → s.q.joined = true) :
      Moves s (Loader.put { s with produced := s.produced ++ xs } vv)
  | join (vv : A) (ha : s.a = .reading) :
      Moves s { s with produced := s.produced ++ [vv], a := .joining vv }
  | start : Moves s (s.loop s.q s.to_insert)
  | woken {vv : A} {q : Queue A} (hget : s.q.get? = some (vv, q)) :
      Moves s (s.loop q.taskDone (s.to_insert ++ [vv]))
  | inserted : Moves s
      { s with b := .getting, returned := s.returned ++ [s.to_insert], to_insert := [] }
  | insertedNext {vv : A} {q : Queue A} (hget : s.q.get? = some (vv, q)) :
      Moves s (Loader.loop { s with returned := s.returned ++ [s.to_insert], to_insert := [] }
        q.taskDone [vv])

theorem Loader.step_cases {s t : Loader A} {e : Event A} (h : s.step e = some t) : s.Moves t := by
  have hwaiting : ∀ {vv}, s.a.held = [vv] → (full s.q = true → s.q.joined = true) →
      s.Moves (s.put vv) := by
    intro vv hheld hroom
    have hmove := Moves.put (s := s) [] ((List.append_nil _).trans hheld) hroom
    rwa [List.append_nil] at hmove
  cases e with
  | row vv =>
    simp only [Loader.step] at h
    split at h
    next ha =>
      have hheld : s.a.held ++ [vv] = [vv] := by rw [ha]; rfl
      split_ifs at h with hfull hjoined
      · exact Option.some.inj h ▸ .put [vv] hheld fun _ => hjoined
      · exact Option.some.inj h ▸ .join vv ha
      · have hmove := Moves.put (s := s) [vv] hheld fun hfull' => absurd hfull' hfull
        rw [Loader.put, if_neg hfull, ← ha] at hmove
        exact Option.some.inj h ▸ hmove
    next => exact absurd h.symm (Option.some_ne_none t)
  | joined =>
    simp only [Loader.step] at h
    split at h
    next vv ha =>
      split_ifs at h with hjoined
      exact Option.some.inj h ▸ hwaiting (congrArg Producer.held ha) fun _ => hjoined
    next => exact absurd h.symm (Option.some_ne_none t)
  | slot =>
    simp only [Loader.step] at h
    split at h
    next vv ha =>
      split_ifs at h with hfull
      exact Option.some.inj h ▸ hwaiting (congrArg Producer.held ha) fun h => absurd h hfull
    next => exact absurd h.symm (Option.some_ne_none t)
  | start =>
    simp only [Loader.step] at h
    split_ifs at h
    exact Option.some.inj h ▸ .start
  | inserted =>
    simp only [Loader.step] at h
    split_ifs at h
    cases hget : s.q.get? with
    | none =>
      rw [hget] at h
      exact Option.some.inj h ▸ .inserted
    | some x =>
      rw [hget] at h
      exact Option.some.inj h ▸ .insertedNext hget
  | woken =>
    simp only [Loader.step] at h
    split at h
    next vv q hb hget => exact Option.some.inj h ▸ .woken hget
    next => exact absurd h.symm (Option.some_ne_none t)

/-! ## Draining -/

/-- Draining takes all rows, in order. -/
theorem drain_eq (n : ℕ) (q : Queue A) (to_insert : List A) (hn : q.items.length ≤ n) :
    (drain n q to_insert).1.puts = q.puts ∧ (drain n q to_insert).1.items = [] ∧
    (drain n q to_insert).2 = to_insert ++ q.items := by
  induction n generalizing q to_insert with
  | zero =>
    have hnil : q.items = [] := List.length_eq_zero_iff.mp (Nat.le_zero.mp hn)
    exact ⟨rfl, hnil, by rw [drain, hnil, List.append_nil]⟩
  | succ n ih =>
    rw [drain]
    cases hget : q.get? with
    | none =>
      have hnil := Queue.get?_eq_none hget
      exact ⟨rfl, hnil, by rw [hnil, List.append_nil]⟩
    | some x =>
      obtain ⟨vv, q'⟩ := x
      have hitems := Queue.get?_items hget
      obtain ⟨hputs, -⟩ := Queue.get?_eq_some hget
      rw [hitems, List.length_cons] at hn
      obtain ⟨hputs', hnil, hrows⟩ := ih q'.taskDone (to_insert ++ [vv]) (Nat.le_of_succ_le_succ hn)
      refine ⟨hputs'.trans hputs, hnil, ?_⟩
      rw [hrows, hitems, List.append_assoc]
      rfl

/-! ## Runs -/

/-- The rows are in their order, and `b` holds some only while it inserts them. -/
structure Loader.InOrder (s : Loader A) : Prop where
  produced : s.q.puts ++ s.a.held = s.produced
  got : s.returned.flatten ++ s.to_insert = s.q.got
  idle : s.b ≠ .inserting → s.to_insert = []

namespace Loader.InOrder

variable {s t : Loader A}

theorem put {vv : A} (hproduced : s.q.puts ++ [vv] = s.produced)
    (hgot : s.returned.flatten ++ s.to_insert = s.q.got)
    (hidle : s.b ≠ .inserting → s.to_insert = []) : (s.put vv).InOrder := by
  unfold Loader.put
  split
  · exact ⟨hproduced, hgot, hidle⟩
  · refine ⟨?_, ?_, hidle⟩
    · show s.q.puts ++ [vv] ++ [] = s.produced
      rw [List.append_nil, hproduced]
    · exact hgot.trans (Queue.put_got s.q [vv]).symm

/-- The loop takes over what was taken and not inserted. -/
theorem loop {q : Queue A} {to_insert : List A} (hproduced : q.puts ++ s.a.held = s.produced)
    (hgot : s.returned.flatten ++ to_insert = q.got) : (s.loop q to_insert).InOrder := by
  obtain ⟨hputs, hnil, hrows⟩ := drain_eq q.items.length q to_insert (Nat.le_refl _)
  refine ⟨?_, ?_, fun hb => ?_⟩
  · show (drain q.items.length q to_insert).1.puts ++ s.a.held = s.produced
    rw [hputs, hproduced]
  · show s.returned.flatten ++ (drain q.items.length q to_insert).2 = _
    rw [hrows, ← List.append_assoc, hgot, Queue.got_append_items]
    exact hputs.symm.trans (Queue.got_of_items_nil hnil).symm
  · unfold Loader.loop at hb ⊢
    by_cases hempty : (drain q.items.length q to_insert).2.isEmpty = true
    · exact List.isEmpty_iff.mp hempty
    · exact absurd (if_neg hempty) hb

theorem step (h : s.InOrder) {e : Event A} (hstep : s.step e = some t) : t.InOrder := by
  obtain ⟨hproduced, hgot, hidle⟩ := h
  -- what was inserted is among the batches now
  have hreturned : (s.returned ++ [s.to_insert]).flatten = s.q.got := by
    rw [List.flatten_append, List.flatten_singleton, hgot]
  cases Loader.step_cases hstep with
  | @put vv xs hheld _ =>
    refine put ?_ hgot hidle
    show s.q.puts ++ [vv] = s.produced ++ xs
    rw [← hheld, ← List.append_assoc, hproduced]
  | join vv ha =>
    rw [ha, Producer.held, List.append_nil] at hproduced
    exact ⟨congrArg (· ++ [vv]) hproduced, hgot, hidle⟩
  | start => exact loop hproduced hgot
  | woken hget =>
    obtain ⟨hputs, htaken⟩ := Queue.get?_eq_some hget
    refine loop (hputs ▸ hproduced) ?_
    rw [← List.append_assoc, hgot]
    exact htaken.symm
  | inserted => exact ⟨hproduced, (List.append_nil _).trans hreturned, fun _ => rfl⟩
  | @insertedNext vv _ hget =>
    obtain ⟨hputs, htaken⟩ := Queue.get?_eq_some hget
    exact loop (s := { s with returned := _, to_insert := _ }) (hputs ▸ hproduced)
      ((congrArg (· ++ [vv]) hreturned).trans htaken.symm)

end Loader.InOrder

/-- The rows passed to `executemany`, followed by `to_insert`, the queue and the row that `a`
holds, are the rows produced so far. -/
def Loader.Conserves (s : Loader A) : Prop :=
  s.passed.flatten ++ s.to_insert ++ s.q.items ++ s.a.held = s.produced

/-- **No row is lost, repeated or out of order.** `to_insert` comes after the rows that were
passed, except while `executemany` runs, when it is the batch that was passed last. -/
theorem batches_in_order {s : Loader A} {es : List (Event A)}
    (hrun : exec Loader.step .start es = some s) :
    (s.b ≠ .inserting → s.Conserves) ∧
    (s.b = .inserting → s.passed.getLast? = some s.to_insert ∧
      s.passed.flatten ++ s.q.items ++ s.a.held = s.produced) ∧
    (s.b = .getting → s.to_insert = []) := by
  have hstart : (Loader.start : Loader A).InOrder := ⟨rfl, rfl, fun _ => rfl⟩
  obtain ⟨hproduced, hgot, hidle⟩ : s.InOrder :=
    exec_invariant (fun _ _ _ h hstep => h.step hstep) hrun hstart
  have hrows : s.returned.flatten ++ s.to_insert ++ s.q.items ++ s.a.held = s.produced := by
    rw [hgot, Queue.got_append_items, hproduced]
  refine ⟨fun hb => ?_, fun hb => ?_, fun hb => hidle ?_⟩
  · unfold Loader.Conserves Loader.passed
    rw [if_neg hb]
    exact hrows
  · unfold Loader.passed
    rw [if_pos hb, List.flatten_append, List.flatten_singleton, hrows]
    exact ⟨List.getLast?_concat, rfl⟩
  · rw [hb]
    decide

/-- While a row is inserted it is still in `to_insert`. -/
theorem inserting_not_conserves :
    ∃ s : Loader ℕ, exec Loader.step .start [.row 1, .start] = some s ∧ ¬s.Conserves := by
  refine ⟨_, rfl, ?_⟩
  unfold Loader.Conserves
  decide

/-- A second row, during the insert of the first. -/
def insertingLoader : Loader ℕ where
  q := ⟨[1, 2], 1, 1, by decide⟩
  a := .reading
  b := .inserting
  to_insert := [1]
  produced := [1, 2]
  returned := []

/-- It waits in the queue. -/
theorem insertingLoader_rows :
    insertingLoader.passed.flatten ++ insertingLoader.q.items ++ insertingLoader.a.held
      = [1, 2] := by
  have hrun : exec Loader.step .start [.row 1, .start, .row 2] = some insertingLoader := rfl
  exact ((batches_in_order hrun).2.1 rfl).2

/-! ## The waiting of `a` -/

/-- Every row taken was reported done, the queue keeps to its size, and `a` waits for rows to
be done and never for a place. -/
structure Loader.Settled (s : Loader A) : Prop where
  reported : s.q.finished = s.q.taken
  bounded : s.q.items.length ≤ 1000
  place : ∀ vv, s.a ≠ .putting vv

theorem finished_taskDone {q q' : Queue A} {vv : A} (h : q.finished = q.taken)
    (hget : q.get? = some (vv, q')) : q'.taskDone.finished = q'.taskDone.taken := by
  obtain ⟨htaken, hfinished⟩ := Queue.get?_counts hget
  show q'.finished + 1 = q'.taken
  omega

/-- Draining reports every row it takes. -/
theorem drain_finished (n : ℕ) (q : Queue A) (to_insert : List A) (h : q.finished = q.taken) :
    (drain n q to_insert).1.finished = (drain n q to_insert).1.taken := by
  induction n generalizing q to_insert with
  | zero => exact h
  | succ n ih =>
    rw [drain]
    cases hget : q.get? with
    | none => exact h
    | some x =>
      obtain ⟨vv, q'⟩ := x
      exact ih _ _ (finished_taskDone h hget)

namespace Loader.Settled

variable {s t : Loader A}

theorem put {vv : A} (h : s.Settled) (hroom : full s.q = true → s.q.joined = true) :
    (s.put vv).Settled := by
  -- a queue whose rows are all done is empty
  have hfull : ¬full s.q = true := by
    intro hfull
    have hnil := (Queue.joined_iff_items_nil h.reported).mp (hroom hfull)
    simp [full, hnil] at hfull
  have hlt : s.q.items.length < 1000 := by simpa [full] using hfull
  rw [Loader.put, if_neg hfull]
  refine ⟨h.reported, ?_, fun _ => nofun⟩
  show (s.q.put [vv]).items.length ≤ 1000
  rw [Queue.put_items, List.length_append]
  exact hlt

theorem loop {q : Queue A} (hreported : q.finished = q.taken) (hplace : ∀ vv, s.a ≠ .putting vv)
    (to_insert : List A) : (s.loop q to_insert).Settled := by
  obtain ⟨-, hnil, -⟩ := drain_eq q.items.length q to_insert (Nat.le_refl _)
  refine ⟨drain_finished _ _ _ hreported, ?_, hplace⟩
  show (drain q.items.length q to_insert).1.items.length ≤ 1000
  rw [hnil]
  exact Nat.zero_le _

theorem step (h : s.Settled) {e : Event A} (hstep : s.step e = some t) : t.Settled := by
  have hsettled : ∀ produced : List A, Settled { s with produced := produced } :=
    fun _ => ⟨h.reported, h.bounded, h.place⟩
  cases Loader.step_cases hstep with
  | put xs _ hroom => exact put (hsettled _) hroom
  | join vv _ => exact ⟨h.reported, h.bounded, fun _ => nofun⟩
  | start => exact loop h.reported h.place _
  | woken hget => exact loop (finished_taskDone h.reported hget) h.place _
  | inserted => exact ⟨h.reported, h.bounded, h.place⟩
  | insertedNext hget =>
    exact loop (s := { s with returned := s.returned ++ [s.to_insert], to_insert := [] })
      (finished_taskDone h.reported hget) h.place _

end Loader.Settled

theorem loader_settled {s : Loader A} {es : List (Event A)}
    (hrun : exec Loader.step .start es = some s) : s.Settled := by
  refine exec_invariant (fun _ _ _ h hstep => h.step hstep) hrun ?_
  exact ⟨rfl, Nat.zero_le _, fun _ => nofun⟩

/-- **The loader does not block**: while `a` waits in `q.join()`, that returns or `b` can go
on. -/
theorem join_progress {s : Loader A} {es : List (Event A)} {vv : A}
    (hrun : exec Loader.step .start es = some s) (ha : s.a = .joining vv) :
    (s.step .joined).isSome ∨ (s.step .start).isSome ∨ (s.step .inserted).isSome ∨
      (s.step .woken).isSome := by
  cases hb : s.b with
  | starting => exact .inr (.inl (by simp [Loader.step, hb]))
  | inserting =>
    refine .inr (.inr (.inl ?_))
    simp only [Loader.step, hb, if_true]
    cases s.q.get? <;> rfl
  | getting =>
    cases hget : s.q.get? with
    | none =>
      have hnil := Queue.get?_eq_none hget
      have hjoined := (Queue.joined_iff_items_nil (loader_settled hrun).reported).mpr hnil
      exact .inl (by simp [Loader.step, ha, hjoined])
    | some x => exact .inr (.inr (.inr (by simp [Loader.step, hb, hget])))

end FanucDriver.Debug
