import FanucDriver.Monitor.Shutdown
import FanucDriver.Monitor.Table
import Mathlib.Algebra.Ring.Nat

/-!
# The status log and the status table

The status worker writes every status in one transaction: a row of
`machine_monitor_status_updates`, and the row of the machine in
`machine_monitor_status`, if there is one. Nothing that the daemon executes puts one there.
`Monitored` is the daemon with its database, while others write `machine_monitor`.

`statusTable_projects_iff`: in every run the log is the processed statuses in order, and
the status table shows the last one of each machine exactly for the machines that had a
row when the daemon started.

Mirroring notes:
- `Database` is the three tables with the keys that `init_db` declares; where they exist
  `init_db` leaves them. A `serial` ends at 2^31 - 1. A transaction that is rolled back
  may have drawn its id, which is then not used.
- A statement on `machine_monitor` that takes the id of a status row away is refused.
- The times of the rows, which nothing reads, are left out.
- What the updates worker hears of the table is not tied to it here (`Feed` does that).
-/

namespace FanucDriver.Monitor

open FanucDriver.Lib

variable {M : Type}

/-! ## The database -/

/-- A row of `machine_monitor_status_updates`. -/
structure StatusUpdate (M : Type) where
  id : ℕ
  machineId : M
  status : Status
  statusMessage : Option String
  deriving DecidableEq

/-- The status that the row logs. -/
def StatusUpdate.item (u : StatusUpdate M) : StatusItem M :=
  ⟨u.machineId, u.status, u.statusMessage⟩

/-- A row of `machine_monitor_status`, besides its key. -/
structure StatusRow where
  statusText : Option Status
  statusId : Option ℕ
  deriving DecidableEq

def Table.ids (t : Table M) : List M := t.rows.map Prod.fst

structure Database (M : Type) where
  updates : List (StatusUpdate M)
  /-- The next id of the `serial`. -/
  nextId : ℕ
  machines : Table M
  /-- `machine_monitor_status`, by its key. -/
  statuses : M → Option StatusRow
  increasing : (updates.map (·.id)).Pairwise (· < ·)
  drawn : ∀ u ∈ updates, u.id < nextId
  machineReferenced : ∀ m, (statuses m).isSome → m ∈ machines.ids
  statusReferenced : ∀ m row id, statuses m = some row → row.statusId = some id →
    ∃ u ∈ updates, u.id = id

section
variable [DecidableEq M]

namespace Database

/-- `update machine_monitor_status set … where machine_id=$1` -/
def setStatus (statuses : M → Option StatusRow) (item : StatusItem M) (statusId : ℕ) :
    M → Option StatusRow :=
  Function.update statuses item.machineId
    ((statuses item.machineId).map fun _ => ⟨some item.status, some statusId⟩)

theorem isSome_setStatus (statuses : M → Option StatusRow) (item : StatusItem M) (statusId : ℕ)
    (m : M) : (setStatus statuses item statusId m).isSome = (statuses m).isSome := by
  unfold setStatus
  by_cases h : m = item.machineId
  · subst h
    rw [Function.update_self, Option.isSome_map]
  · rw [Function.update_of_ne h]

theorem setStatus_self {statuses : M → Option StatusRow} {item : StatusItem M} {statusId : ℕ}
    {row : StatusRow} (h : setStatus statuses item statusId item.machineId = some row) :
    row = ⟨some item.status, some statusId⟩ := by
  rw [setStatus, Function.update_self] at h
  obtain ⟨_, _, rfl⟩ := Option.map_eq_some_iff.mp h
  rfl

theorem setStatus_ne {statuses : M → Option StatusRow} {item : StatusItem M} {statusId : ℕ} {m : M}
    (h : m ≠ item.machineId) : setStatus statuses item statusId m = statuses m :=
  Function.update_of_ne h _ _

/-- The row that an item is logged as. -/
def logged (db : Database M) (item : StatusItem M) : StatusUpdate M :=
  ⟨db.nextId, item.machineId, item.status, item.statusMsg⟩

/-- The transaction for an item commits. -/
def record (db : Database M) (item : StatusItem M) : Option (Database M) :=
  if db.nextId < 2 ^ 31 then
    some {
      updates := db.updates ++ [db.logged item]
      nextId := db.nextId + 1
      machines := db.machines
      statuses := setStatus db.statuses item db.nextId
      increasing := by
        rw [List.map_append, List.pairwise_append]
        refine ⟨db.increasing, List.pairwise_singleton _ _, fun i hi j hj => ?_⟩
        obtain ⟨u, hu, rfl⟩ := List.mem_map.mp hi
        obtain rfl := List.mem_singleton.mp hj
        exact db.drawn u hu
      drawn := by
        intro u hu
        rcases List.mem_append.mp hu with hu | hu
        · exact Nat.lt_succ_of_lt (db.drawn u hu)
        · exact List.mem_singleton.mp hu ▸ Nat.lt_succ_self _
      machineReferenced := fun m hm => db.machineReferenced m (isSome_setStatus _ _ _ m ▸ hm)
      statusReferenced := by
        intro m row id hrow hid
        by_cases hm : m = item.machineId
        · obtain rfl := setStatus_self (hm ▸ hrow)
          exact ⟨db.logged item, List.mem_append_right _ List.mem_cons_self, Option.some.inj hid⟩
        · rw [setStatus_ne hm] at hrow
          obtain ⟨u, hu, hid⟩ := db.statusReferenced m row id hrow hid
          exact ⟨u, List.mem_append_left _ hu, hid⟩ }
  else none

/-- A transaction is rolled back that has drawn its id. -/
def draw (db : Database M) : Database M :=
  if db.nextId < 2 ^ 31 then
    { db with
      nextId := db.nextId + 1
      drawn := fun u hu => Nat.lt_succ_of_lt (db.drawn u hu) }
  else db

/-- A statement on `machine_monitor` commits: it leaves every id that a status row
refers to. -/
def commit (db : Database M) (st : Statement M) : Option (Database M) :=
  match st.execute db.machines with
  | none => none
  | some machines =>
    if h : ∀ m ∈ db.machines.ids, (db.statuses m).isSome → m ∈ machines.ids then
      some { db with
        machines := machines
        machineReferenced := fun m hm => h m (db.machineReferenced m hm) hm }
    else none

/-! ### What each transaction leaves -/

omit [DecidableEq M] in
theorem draw_eq (db : Database M) :
    db.draw.updates = db.updates ∧ db.draw.statuses = db.statuses := by
  unfold draw
  split <;> exact ⟨rfl, rfl⟩

theorem commit_eq {db db' : Database M} {st : Statement M} (h : db.commit st = some db') :
    db'.updates = db.updates ∧ db'.statuses = db.statuses := by
  unfold commit at h
  split at h
  next => exact nomatch h
  next =>
    split at h
    next => exact Option.some.inj h ▸ ⟨rfl, rfl⟩
    next => exact nomatch h

theorem record_eq {db db' : Database M} {item : StatusItem M} (h : db.record item = some db') :
    db'.updates = db.updates ++ [db.logged item] ∧
      db'.statuses = setStatus db.statuses item db.nextId := by
  unfold record at h
  split at h
  next => exact Option.some.inj h ▸ ⟨rfl, rfl⟩
  next => exact nomatch h

end Database

/-! ## The daemon and its database -/

/-- The transaction that an event ends: its item, and whether it commits. -/
def AdapterMonitor.transaction (s : AdapterMonitor M) :
    AdapterMonitor.Event M → Option (StatusItem M × Bool)
  | .status committed =>
    match s.statusWorker with
    | .writing item => some (item, committed && !s.statusCancelling)
    | _ => none
  | _ => none

/-- The statuses that were processed. -/
def AdapterMonitor.processed (s : AdapterMonitor M) : List (StatusItem M) :=
  s.statusQueue.puts.take s.statusQueue.finished

structure Monitored (M : Type) where
  daemon : AdapterMonitor M
  db : Database M

inductive MonitoredEvent (M : Type) where
  /-- An event of the daemon. Where it rolls a transaction back, the id was drawn or
  not. -/
  | daemon (e : AdapterMonitor.Event M) (drawn : Bool)
  | commit (st : Statement M)

namespace Monitored

/-- What an event of the daemon does to the database. -/
def write (x : Monitored M) (e : AdapterMonitor.Event M) (drawn : Bool) : Option (Database M) :=
  match x.daemon.transaction e with
  | none => some x.db
  | some (item, true) => x.db.record item
  | some (_, false) => some (if drawn then x.db.draw else x.db)

def step (x : Monitored M) : MonitoredEvent M → Option (Monitored M)
  | .daemon e drawn => do
    let daemon ← x.daemon.step e
    let db ← x.write e drawn
    some ⟨daemon, db⟩
  | .commit st => (x.db.commit st).map fun db => { x with db := db }

/-- The daemon starts on a database. -/
def start (db : Database M) : Monitored M := ⟨.init, db⟩

end Monitored

/-! ## What is processed -/

namespace AdapterMonitor

/-- The status worker is on the first item that is not processed. -/
structure InStep (s : AdapterMonitor M) : Prop where
  fresh : s.run = .initialising → s.statusWorker = .uncreated
  finished : s.statusQueue.finished ≤ s.statusQueue.taken
  idle : s.statusWorker = .uncreated ∨ s.statusWorker = .start ∨ s.statusWorker = .getting →
    s.statusQueue.finished = s.statusQueue.taken
  writing : ∀ item, s.statusWorker = .writing item →
    s.statusQueue.got = s.processed ++ [item] ∧
      s.statusQueue.taken = s.statusQueue.finished + 1

omit [DecidableEq M] in
theorem inStep_init : InStep (init : AdapterMonitor M) :=
  ⟨fun _ => rfl, Nat.le_refl 0, fun _ => rfl, nofun⟩

/-- What an event adds to the processed statuses. -/
def processes (s : AdapterMonitor M) (e : Event M) : List (StatusItem M) :=
  match s.transaction e with
  | some (item, true) => [item]
  | _ => []

omit [DecidableEq M] in
/-- The head of the loop, where everything taken is processed. -/
theorem inStep_statusNext {s : AdapterMonitor M} (hrun : s.run ≠ .initialising)
    (hall : s.statusQueue.finished = s.statusQueue.taken) :
    s.statusNext.InStep ∧ s.statusNext.processed = s.processed := by
  have hgot : s.processed = s.statusQueue.got := congrArg (s.statusQueue.puts.take ·) hall
  unfold statusNext
  split
  next => exact ⟨⟨fun hr => absurd hr hrun, Nat.le_of_eq hall, fun _ => hall, nofun⟩, rfl⟩
  next item queue hget =>
    obtain ⟨hputs, hitem⟩ := Queue.get?_eq_some hget
    obtain ⟨htaken, hfinished⟩ := Queue.get?_counts hget
    have hprocessed : queue.puts.take queue.finished = s.processed := by
      rw [hputs, hfinished]
      rfl
    refine ⟨⟨fun hr => absurd hr hrun, ?_, nofun, fun item' hw => ?_⟩, hprocessed⟩
    · show queue.finished ≤ queue.taken
      omega
    · obtain rfl := StatusWorker.writing.inj hw
      refine ⟨?_, ?_⟩
      · show queue.got = queue.puts.take queue.finished ++ [item]
        rw [hitem, hprocessed, hgot]
      · show queue.taken = queue.finished + 1
        omega

omit [DecidableEq M] in
/-- An item that is put does not change what is processed. -/
theorem processed_put {s : AdapterMonitor M}
    (h : s.statusQueue.finished ≤ s.statusQueue.taken) (items : List (StatusItem M)) :
    (s.statusQueue.put items).puts.take (s.statusQueue.put items).finished = s.processed :=
  List.take_append_of_le_length (Nat.le_trans h s.statusQueue.bound)

omit [DecidableEq M] in
theorem processes_idle {s : AdapterMonitor M} (h : ∀ item, s.statusWorker ≠ .writing item)
    (committed : Bool) : s.processes (.status committed) = [] := by
  unfold processes transaction
  cases hw : s.statusWorker with
  | writing item => exact absurd hw (h item)
  | _ => rfl

omit [DecidableEq M] in
theorem processes_writing {s : AdapterMonitor M} {item : StatusItem M}
    (h : s.statusWorker = .writing item) (committed : Bool) :
    s.processes (.status committed)
      = if (committed && !s.statusCancelling) = true then [item] else [] := by
  unfold processes transaction
  simp only [h]
  cases committed && !s.statusCancelling <;> rfl

omit [DecidableEq M] in
/-- The status worker's own step. -/
theorem InStep.status {s s' : AdapterMonitor M} {committed : Bool} (h : s.InStep)
    (hs : s.statusWorkerStep committed = some s') :
    s'.InStep ∧ s'.processed = s.processed ++ s.processes (.status committed) := by
  have hleft {o : Outcome} {b : Bool} (hw : s.statusWorker ≠ .uncreated) :
      InStep { s with statusCancelling := b, statusWorker := .done o } :=
    ⟨fun hr => absurd (h.fresh hr) hw, h.finished, fun hi => by simp at hi, nofun⟩
  have hrun (hw : s.statusWorker ≠ .uncreated) : s.run ≠ .initialising := fun hr => hw (h.fresh hr)
  unfold statusWorkerStep at hs
  split at hs
  case h_1 hw hc =>
    rw [← Option.some.inj hs, processes_idle (hw ▸ nofun)]
    exact ⟨hleft (hw ▸ nofun), (List.append_nil _).symm⟩
  case h_2 hw hc =>
    rw [← Option.some.inj hs, processes_idle (hw ▸ nofun)]
    exact ⟨hleft (hw ▸ nofun), (List.append_nil _).symm⟩
  case h_3 item hw hc =>
    rw [← Option.some.inj hs, processes_writing hw, hc, if_neg (by simp)]
    exact ⟨hleft (hw ▸ nofun), (List.append_nil _).symm⟩
  case h_4 hw hc =>
    rw [← Option.some.inj hs, processes_idle (hw ▸ nofun)]
    have hnext := inStep_statusNext (hrun (hw ▸ nofun)) (h.idle (Or.inr (Or.inl hw)))
    exact ⟨hnext.1, hnext.2.trans (List.append_nil _).symm⟩
  case h_5 hw hc =>
    split at hs
    · exact absurd hs.symm (Option.some_ne_none _)
    · rw [← Option.some.inj hs, processes_idle (hw ▸ nofun)]
      have hnext := inStep_statusNext (hrun (hw ▸ nofun)) (h.idle (Or.inr (Or.inr hw)))
      exact ⟨hnext.1, hnext.2.trans (List.append_nil _).symm⟩
  case h_6 item hw hc =>
    cases committed with
    | false =>
      rw [← Option.some.inj hs, processes_writing hw, hc, if_neg (by simp)]
      exact ⟨hleft (hw ▸ nofun), (List.append_nil _).symm⟩
    | true =>
      -- the item is reported done, and with it everything taken is processed
      obtain ⟨hgot, htaken⟩ := h.writing item hw
      have hdone :
          s.statusQueue.puts.take (s.statusQueue.finished + 1) = s.processed ++ [item] := by
        rw [← htaken]
        exact hgot
      have hnext := inStep_statusNext (s := { s with statusQueue := s.statusQueue.taskDone })
        (hrun (hw ▸ nofun)) htaken.symm
      rw [processes_writing hw, hc, if_pos (by simp), ← Option.some.inj hs]
      exact ⟨hnext.1, hnext.2.trans hdone⟩
  all_goals exact absurd hs.symm (Option.some_ne_none _)

theorem InStep.step {s s' : AdapterMonitor M} {e : Event M} (h : s.InStep) (howned : s.Owned)
    (hs : s.step e = some s') : s'.InStep ∧ s'.processed = s.processed ++ s.processes e := by
  obtain hrun | ⟨he, hquiet⟩ | hstatus := statusStep_of_step howned hs
  · exact ⟨⟨nofun, h.finished, fun _ => h.idle (Or.inl (h.fresh hrun)), nofun⟩,
      (List.append_nil _).symm⟩
  · obtain ⟨items, hitems⟩ := hquiet.queue
    have hnone : s.processes e = [] := by
      cases e with
      | status committed => exact absurd rfl (he committed)
      | _ => rfl
    have hprocessed : s'.processed = s.processed := by
      rw [processed, hitems]
      exact processed_put h.finished items
    rw [hnone, List.append_nil]
    refine ⟨⟨fun hr => ?_, ?_, fun hi => ?_, fun item hw => ?_⟩, hprocessed⟩
    · rw [hquiet.statusWorker]
      exact h.fresh (hquiet.initialising hr).1
    · rw [hitems]
      exact h.finished
    · rw [hitems]
      exact h.idle (hquiet.statusWorker ▸ hi)
    · rw [hprocessed, hitems, Queue.put_got]
      exact h.writing item (hquiet.statusWorker ▸ hw)
  · exact h.status hstatus

end AdapterMonitor

/-! ## What the tables show -/

namespace Database

/-- The rows that log a machine. -/
def updatesOf (rows : List (StatusUpdate M)) (m : M) : List (StatusUpdate M) :=
  rows.filter (·.machineId = m)

theorem updatesOf_append (rows rows' : List (StatusUpdate M)) (m : M) :
    updatesOf (rows ++ rows') m = updatesOf rows m ++ updatesOf rows' m := List.filter_append _ _

theorem updatesOf_self {u : StatusUpdate M} : updatesOf [u] u.machineId = [u] := by
  simp [updatesOf]

theorem updatesOf_ne {u : StatusUpdate M} {m : M} (h : u.machineId ≠ m) : updatesOf [u] m = [] := by
  simp [updatesOf, h]

/-- The statuses that the rows of a machine log. -/
theorem map_item_updatesOf (rows : List (StatusUpdate M)) (m : M) :
    (updatesOf rows m).map StatusUpdate.item
      = (rows.map StatusUpdate.item).filter (·.machineId = m) := by
  rw [List.filter_map]
  rfl

/-- The log: after the rows it had, one row for each processed status, with increasing
ids. -/
structure LogProjects (db start : Database M) (processed : List (StatusItem M)) : Prop where
  rows : ∃ rows, db.updates = start.updates ++ rows ∧ rows.map StatusUpdate.item = processed
  increasing : (db.updates.map (·.id)).Pairwise (· < ·)

/-- The status table: the last processed status of each machine, with the id of its row
in the log. -/
def StatusProjects (db : Database M) (processed : List (StatusItem M)) : Prop :=
  ∀ m ∈ db.machines.ids, ∀ item, (processed.filter (·.machineId = m)).getLast? = some item →
    ∃ u, (updatesOf db.updates m).getLast? = some u ∧ u.item = item ∧
      db.statuses m = some ⟨some item.status, some u.id⟩

end Database

namespace Monitored

/-- What was logged since the start, and what the status table made of it. -/
structure Recorded (start : Database M) (x : Monitored M) : Prop where
  owned : x.daemon.Owned
  inStep : x.daemon.InStep
  rows : ∃ rows, x.db.updates = start.updates ++ rows ∧
    rows.map StatusUpdate.item = x.daemon.processed ∧
    ∀ m row u, x.db.statuses m = some row → (Database.updatesOf rows m).getLast? = some u →
      row = ⟨some u.status, some u.id⟩
  kept : ∀ m, (x.db.statuses m).isSome = (start.statuses m).isSome

theorem recorded_start (db : Database M) : Recorded db (Monitored.start db) where
  owned := AdapterMonitor.owned_init
  inStep := AdapterMonitor.inStep_init
  rows := ⟨[], (List.append_nil _).symm, rfl,
    fun _ _ u _ hu => absurd hu.symm (Option.some_ne_none u)⟩
  kept _ := rfl

/-- A step that logs nothing. -/
theorem Recorded.unlogged {start : Database M} {x x' : Monitored M} (h : Recorded start x)
    (howned : x'.daemon.Owned) (hin : x'.daemon.InStep)
    (hprocessed : x'.daemon.processed = x.daemon.processed)
    (hdb : x'.db.updates = x.db.updates ∧ x'.db.statuses = x.db.statuses) : Recorded start x' := by
  obtain ⟨rows, hrows, hitems, hlast⟩ := h.rows
  refine ⟨howned, hin, ⟨rows, hdb.1.trans hrows, hitems.trans hprocessed.symm, ?_⟩, fun m => ?_⟩
  · rw [hdb.2]
    exact hlast
  · rw [hdb.2]
    exact h.kept m

/-- A step that logs an item. -/
theorem Recorded.logged {start : Database M} {x x' : Monitored M} (h : Recorded start x)
    {item : StatusItem M} (howned : x'.daemon.Owned) (hin : x'.daemon.InStep)
    (hprocessed : x'.daemon.processed = x.daemon.processed ++ [item])
    (hrecord : x.db.record item = some x'.db) : Recorded start x' := by
  obtain ⟨hupdates, hstatuses⟩ := Database.record_eq hrecord
  obtain ⟨rows, hrows, hitems, hlast⟩ := h.rows
  refine ⟨howned, hin, ⟨rows ++ [x.db.logged item], ?_, ?_, ?_⟩, fun m => ?_⟩
  · rw [hupdates, hrows, List.append_assoc]
  · rw [List.map_append, hitems, hprocessed]
    rfl
  · intro m row u hrow hu
    rw [hstatuses] at hrow
    rw [Database.updatesOf_append] at hu
    by_cases hm : m = item.machineId
    · subst hm
      have hself : Database.updatesOf [x.db.logged item] item.machineId = [x.db.logged item] :=
        Database.updatesOf_self
      rw [hself, List.getLast?_concat] at hu
      obtain rfl := Option.some.inj hu
      exact Database.setStatus_self hrow
    · have hne : (x.db.logged item).machineId ≠ m := Ne.symm hm
      rw [Database.updatesOf_ne hne, List.append_nil] at hu
      rw [Database.setStatus_ne hm] at hrow
      exact hlast m row u hrow hu
  · rw [hstatuses, Database.isSome_setStatus]
    exact h.kept m

theorem Recorded.step {start : Database M} {x x' : Monitored M} {e : MonitoredEvent M}
    (h : Recorded start x) (hs : x.step e = some x') : Recorded start x' := by
  cases e with
  | commit st =>
    obtain ⟨db, hcommit, rfl⟩ := Option.map_eq_some_iff.mp hs
    exact h.unlogged h.owned h.inStep rfl (Database.commit_eq hcommit)
  | daemon e drawn =>
    obtain ⟨daemon, hdaemon, hs⟩ := Option.bind_eq_some_iff.mp hs
    obtain ⟨db, hwrite, hs⟩ := Option.bind_eq_some_iff.mp hs
    obtain rfl := Option.some.inj hs
    obtain ⟨hin, hprocessed⟩ := h.inStep.step h.owned hdaemon
    have howned := h.owned.step hdaemon
    unfold write at hwrite
    unfold AdapterMonitor.processes at hprocessed
    split at hwrite
    next htransaction =>
      rw [htransaction, List.append_nil] at hprocessed
      obtain rfl := Option.some.inj hwrite
      exact h.unlogged howned hin hprocessed ⟨rfl, rfl⟩
    next item htransaction =>
      rw [htransaction] at hprocessed
      exact h.logged howned hin hprocessed hwrite
    next item htransaction =>
      rw [htransaction, List.append_nil] at hprocessed
      obtain rfl := Option.some.inj hwrite
      refine h.unlogged howned hin hprocessed ?_
      split
      · exact x.db.draw_eq
      · exact ⟨rfl, rfl⟩

/-- The log projects the processed statuses. -/
theorem Recorded.logProjects {start : Database M} {x : Monitored M} (h : Recorded start x) :
    x.db.LogProjects start x.daemon.processed := by
  obtain ⟨rows, hrows, hitems, -⟩ := h.rows
  exact ⟨⟨rows, hrows, hitems⟩, x.db.increasing⟩

/-- A machine with a row shows its last status. -/
theorem Recorded.shows {start : Database M} {x : Monitored M} (h : Recorded start x) {m : M}
    (hm : (start.statuses m).isSome) {item : StatusItem M}
    (hitem : (x.daemon.processed.filter (·.machineId = m)).getLast? = some item) :
    ∃ u, (Database.updatesOf x.db.updates m).getLast? = some u ∧ u.item = item ∧
      x.db.statuses m = some ⟨some item.status, some u.id⟩ := by
  obtain ⟨rows, hrows, hitems, hlast⟩ := h.rows
  rw [← hitems, ← Database.map_item_updatesOf, List.getLast?_map] at hitem
  obtain ⟨u, hu, rfl⟩ := Option.map_eq_some_iff.mp hitem
  obtain ⟨row, hrow⟩ := Option.isSome_iff_exists.mp ((h.kept m).trans hm)
  refine ⟨u, ?_, rfl, ?_⟩
  · rw [hrows, Database.updatesOf_append, List.getLast?_append, hu]
    rfl
  · rw [hrow, hlast m row u hrow hu]
    rfl

/-- **When the status table shows the log.** In every run the log is the processed
statuses. The status table shows the last one of every machine exactly where all of them
had a row when the daemon started. -/
theorem statusTable_projects_iff (db : Database M) (es : List (MonitoredEvent M)) (x : Monitored M)
    (h : exec step (start db) es = some x) :
    x.db.LogProjects db x.daemon.processed ∧
      (x.db.StatusProjects x.daemon.processed ↔
        ∀ m ∈ x.db.machines.ids, (∃ item ∈ x.daemon.processed, item.machineId = m) →
          (db.statuses m).isSome) := by
  have hrecorded : Recorded db x :=
    exec_invariant (fun _ _ _ => Recorded.step) h (recorded_start db)
  refine ⟨hrecorded.logProjects, ?_⟩
  constructor
  · intro hshows m hm h
    obtain ⟨item, hitem, rfl⟩ := h
    have hne : (x.daemon.processed.filter (·.machineId = item.machineId)) ≠ [] :=
      List.ne_nil_of_mem (List.mem_filter.mpr ⟨hitem, decide_eq_true rfl⟩)
    obtain ⟨u, -, -, hrow⟩ := hshows _ hm _ (List.getLast?_eq_getLast_of_ne_nil hne)
    rw [← hrecorded.kept, hrow]
    rfl
  · intro hrows m hm item hitem
    have hmem := List.mem_filter.mp (List.mem_of_getLast? hitem)
    exact hrecorded.shows (hrows m hm ⟨item, hmem.1, of_decide_eq_true hmem.2⟩) hitem

end Monitored

end

/-! ## Machines with a row and without -/

namespace Monitored

open Feed (lathe)

/-- The tables that the daemon's test starts with. -/
def testDatabase : Database String where
  updates := []
  nextId := 1
  machines := ⟨[("test", ⟨some "localhost", some 8193⟩)], by decide⟩
  statuses := fun m => if m = "test" then some ⟨none, none⟩ else none
  increasing := List.Pairwise.nil
  drawn := nofun
  machineReferenced := by
    intro m hm
    split at hm
    next h => exact h ▸ List.mem_cons_self
    next => exact nomatch hm
  statusReferenced := by
    intro m row id hrow hid
    split at hrow
    next => exact nomatch Option.some.inj hrow ▸ hid
    next => exact nomatch hrow

/-- The tables that `init_db` creates. -/
def emptyDatabase : Database String where
  updates := []
  nextId := 1
  machines := ⟨[], List.nodup_nil⟩
  statuses := fun _ => none
  increasing := List.Pairwise.nil
  drawn := nofun
  machineReferenced := nofun
  statusReferenced := nofun

/-- The daemon starts an adapter for the machine of the table, and processes the first
status. -/
def firstStatus (machine : String × Config) : List (MonitoredEvent String) :=
  [.run .returned, .updates .ok, .updates .ok, .updates (.rows [machine]), .updates .ok,
    .updates .ok, .updates .ok, .monitor 0 .ok, .status true, .status true].map (.daemon · false)

/-- The first status of the test's machine is shown. -/
theorem statusTable_projects_test : ∃ x,
    exec step (start testDatabase) (firstStatus ("test", ⟨some "localhost", some 8193⟩)) = some x ∧
    x.daemon.processed.map (·.status) = [.STARTING] ∧
    x.db.LogProjects testDatabase x.daemon.processed ∧
    x.db.StatusProjects x.daemon.processed := by
  obtain ⟨x, hx, hstarting, hids⟩ : ∃ x,
      exec step (start testDatabase) (firstStatus ("test", ⟨some "localhost", some 8193⟩))
        = some x ∧
      x.daemon.processed.map (·.status) = [.STARTING] ∧ x.db.machines.ids = ["test"] :=
    ⟨_, rfl, rfl, rfl⟩
  obtain ⟨hlog, hstatus⟩ := statusTable_projects_iff testDatabase
    (firstStatus ("test", ⟨some "localhost", some 8193⟩)) x hx
  refine ⟨x, hx, hstarting, hlog, hstatus.mpr fun m hm _ => ?_⟩
  rw [hids] at hm
  obtain rfl := List.mem_singleton.mp hm
  rfl

/-- A machine is inserted into the tables that `init_db` creates, and its first status is
processed: there is no row to show it. -/
theorem status_not_shown : ∃ x,
    exec step (start emptyDatabase)
      (.commit (.insert [("lathe", lathe)]) :: firstStatus ("lathe", lathe)) = some x ∧
    x.db.updates.map (·.status) = [.STARTING] ∧ x.db.statuses "lathe" = none ∧
    ¬x.db.StatusProjects x.daemon.processed := by
  refine ⟨_, rfl, rfl, rfl, fun h => ?_⟩
  obtain ⟨u, -, -, hrow⟩ := h "lathe" List.mem_cons_self ⟨"lathe", .STARTING, none⟩ rfl
  exact nomatch hrow

end Monitored

end FanucDriver.Monitor
