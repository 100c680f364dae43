import FanucDriver.Lib.Asyncio
import FanucDriver.Lib.Overlay
import FanucDriver.Lib.Steps
import Mathlib.Logic.Function.Basic

/-!
# `AdapterMonitor`: the coroutines of the supervisor

`daemon.py` runs one adapter process for each machine. Four kinds of coroutine
share an event loop: `run`, the updates worker, the status worker, and one
`monitor_machine` for each machine. `AdapterMonitor` is the state they share
together with where each of them is suspended, and `step` lets one of them run from
its suspension to its next one, or something outside the loop happen.

Mirroring notes:
- `get` on a queue with items and `put` do not suspend. While the updates worker
  goes round its loop without suspending (`looping`) nothing else happens.
- `cancel()` on an unfinished task is a request: the `CancelledError` is thrown
  where the task is suspended when it runs next, in place of what it awaited, and
  requests made before that are one. Before its first step a task has no handler.
- A task that awaits another task or a `gather` hands the request on to what it
  awaits. `gather` passes on the failure of a child without waiting for the others.
- A process is seen to have exited when its return code is set; `communicate` and
  `wait` come back only then. A `create_subprocess_exec` that is cancelled or fails
  leaves no process. What it forks may run before it comes back.
- The reply of an awaited operation is part of the event: database calls and spawns
  may fail, and what an adapter wrote to stderr may not decode.
- Row contents and payloads are the pair `(machine_ip, machine_port)`, which is
  true in a condition whatever its parts; `json.loads` of a notification succeeds.
-/

namespace FanucDriver.Monitor

open FanucDriver.Lib

variable {M : Type}

/-! ## Data -/

/-- The columns of `machine_monitor` besides its key. -/
structure Config where
  machineIp : Option String
  machinePort : Option Int32
  deriving DecidableEq

/-- What the last item for each machine says; an item without a configuration takes
the machine away. -/
def lastConfig [DecidableEq M] (items : List (M × Option Config)) (m : M) : Option Config :=
  (overlay items m).join

theorem lastConfig_append [DecidableEq M] (items items' : List (M × Option Config)) (m : M) :
    lastConfig (items ++ items') m = (overlay items' m).getD (lastConfig items m) := by
  rw [lastConfig, overlay_append, lastConfig]
  cases overlay items' m <;> rfl

theorem lastConfig_concat_self [DecidableEq M] (items : List (M × Option Config)) (m : M)
    (config : Option Config) : lastConfig (items ++ [(m, config)]) m = config := by
  rw [lastConfig_append, overlay_singleton_self]
  rfl

theorem lastConfig_concat_ne [DecidableEq M] (items : List (M × Option Config)) {m m' : M}
    (h : m' ≠ m) (config : Option Config) :
    lastConfig (items ++ [(m, config)]) m' = lastConfig items m' := by
  rw [lastConfig_append, overlay_singleton, if_neg h]
  rfl

inductive Status where
  | STARTING | RESTARTING | STARTED | FAILED | STOPPED | SHUTDOWN | RELOADING | DESTROYING
  | DESTROYED
  deriving DecidableEq

/-- An item of `status_queue`. -/
structure StatusItem (M : Type) where
  machineId : M
  status : Status
  statusMsg : Option String
  deriving DecidableEq

/-- An adapter process. -/
inductive Process where
  | running
  | exited (returncode : Int)
  deriving DecidableEq

/-- Where a call of `monitor_machine` is suspended, with what its variable `proc`
refers to there. -/
inductive Monitoring where
  | start
  /-- In `create_subprocess_exec`, with the process it has forked. `proc` is the
  process of the round before, or unbound in the first round. -/
  | spawning (i : ℕ) (proc : Option Int) (child : Option Process)
  /-- In `communicate`. -/
  | communicating (i : ℕ) (proc : Process)
  | sleeping (i : ℕ) (returncode : Int)
  /-- In the `wait` of the handler. -/
  | terminating (proc : Process)
  | done (outcome : Outcome)
  /-- Ended by a second cancellation, in the `wait` of the handler. -/
  | abandoned (proc : Process)
  deriving DecidableEq

/-- One call of `monitor_machine` and the task around it. -/
structure MonitorTask (M : Type) where
  machineId : M
  config : Config
  at_ : Monitoring
  /-- Asked to cancel, and not run since. -/
  cancelling : Bool
  deriving DecidableEq

inductive UpdatesWorker (M : Type) where
  | uncreated
  | start
  /-- In `pool.acquire`. -/
  | acquiring
  /-- In `con.fetch`. -/
  | fetching
  /-- In `con.add_listener`. -/
  | listening
  /-- Going round `while True` without being suspended. -/
  | looping
  /-- In `updates_queue.get`. -/
  | getting
  /-- In `await task`. -/
  | reloading (task : ℕ) (machineId : M) (config : Option Config)
  /-- In `con.remove_listener`. -/
  | removing
  /-- Giving the connection back, after which the task ends. -/
  | releasing (outcome : Outcome)
  | done (outcome : Outcome)
  deriving DecidableEq

inductive StatusWorker (M : Type) where
  | uncreated
  | start
  /-- In `status_queue.get`. -/
  | getting
  /-- In the transaction for an item. -/
  | writing (item : StatusItem M)
  | done (outcome : Outcome)
  deriving DecidableEq

inductive Run where
  /-- In `pool.acquire` or `init_db`. -/
  | initialising
  /-- In the shielded `gather` of the workers. -/
  | supervising
  /-- In the `gather` of the machines' tasks and the updates worker, which was asked
  to cancel or not. -/
  | stopping (children : List ℕ) (cancelRequested : Bool)
  /-- In `status_queue.join`. -/
  | joining
  /-- In `await status_task`. -/
  | closing
  | done (outcome : Outcome)
  deriving DecidableEq

structure AdapterMonitor (M : Type) where
  tasks : M → Option ℕ
  /-- Every task of a machine, in the order of their creation. -/
  monitors : List (MonitorTask M)
  updatesQueue : Queue (M × Option Config)
  statusQueue : Queue (StatusItem M)
  updatesWorker : UpdatesWorker M
  updatesCancelling : Bool
  statusWorker : StatusWorker M
  statusCancelling : Bool
  run : Run
  runCancelling : Bool

namespace AdapterMonitor

def init : AdapterMonitor M where
  tasks := fun _ => none
  monitors := []
  updatesQueue := .empty
  statusQueue := .empty
  updatesWorker := .uncreated
  updatesCancelling := false
  statusWorker := .uncreated
  statusCancelling := false
  run := .initialising
  runCancelling := false

end AdapterMonitor

/-! ## How the tasks ended -/

def Monitoring.outcome : Monitoring → Option Outcome
  | done o => some o
  | abandoned _ => some .cancelled
  | _ => none

def UpdatesWorker.outcome : UpdatesWorker M → Option Outcome
  | done o => some o
  | _ => none

def StatusWorker.outcome : StatusWorker M → Option Outcome
  | done o => some o
  | _ => none

/-- The outcome of the task with a number. -/
def AdapterMonitor.outcome (s : AdapterMonitor M) (task : ℕ) : Option Outcome :=
  s.monitors[task]?.bind fun x => x.at_.outcome

/-! ## `monitor_machine` -/

/-- What an awaited operation of `monitor_machine` comes back with. -/
inductive Reply where
  | ok
  /-- The output of `communicate`, decoded. -/
  | stderr (msg : Option String)
  | error
  deriving DecidableEq

namespace MonitorTask

def new (machineId : M) (config : Config) : MonitorTask M where
  machineId := machineId
  config := config
  at_ := .start
  cancelling := false

/-- `task.cancel()` -/
def cancel (x : MonitorTask M) : MonitorTask M :=
  if x.at_.outcome.isSome then x else { x with cancelling := true }

/-- From the head of the loop to `create_subprocess_exec`. -/
def spawn (x : MonitorTask M) (i : ℕ) (proc : Option Int) : MonitorTask M × List (StatusItem M) :=
  ({ x with at_ := .spawning i proc none },
    [⟨x.machineId, if i > 0 then .RESTARTING else .STARTING, none⟩])

/-- The end of the handler. -/
def shutdown (x : MonitorTask M) : MonitorTask M × List (StatusItem M) :=
  ({ x with at_ := .done .returned }, [⟨x.machineId, .SHUTDOWN, none⟩])

/-- A `CancelledError` where the task is suspended. -/
def cancelled (x : MonitorTask M) : Option (MonitorTask M × List (StatusItem M)) :=
  match x.at_ with
  | .start => some ({ x with at_ := .done .cancelled }, [])
  -- `proc.returncode` on an unbound `proc`
  | .spawning _ none _ => some ({ x with at_ := .done .raised }, [])
  | .spawning _ (some _) _ => some x.shutdown
  | .communicating _ .running => some ({ x with at_ := .terminating .running }, [])
  | .communicating _ (.exited _) => some x.shutdown
  | .sleeping _ _ => some x.shutdown
  | .terminating proc => some ({ x with at_ := .abandoned proc }, [])
  | .done _ => none
  | .abandoned _ => none

/-- What the task awaited comes back. -/
def resumed (x : MonitorTask M) (r : Reply) : Option (MonitorTask M × List (StatusItem M)) :=
  match x.at_, r with
  | .start, .ok => some (x.spawn 0 none)
  | .spawning i _ (some proc), .ok =>
    some ({ x with at_ := .communicating i proc }, [⟨x.machineId, .STARTED, none⟩])
  | .spawning _ _ _, .error => some ({ x with at_ := .done .raised }, [])
  | .communicating i (.exited returncode), .stderr msg =>
    some ({ x with at_ := .sleeping i returncode },
      [⟨x.machineId, if returncode ≠ 0 then .FAILED else .STOPPED, msg⟩])
  | .communicating _ (.exited _), .error => some ({ x with at_ := .done .raised }, [])
  | .sleeping i returncode, .ok => some (x.spawn (i + 1) (some returncode))
  | .terminating (.exited _), .ok => some x.shutdown
  | _, _ => none

/-- `monitor_machine`, from one suspension to the next: the task and what it puts on
`status_queue`. -/
def monitorMachine (x : MonitorTask M) (r : Reply) :
    Option (MonitorTask M × List (StatusItem M)) :=
  if x.cancelling then { x with cancelling := false }.cancelled else x.resumed r

/-- `create_subprocess_exec` forks the process. -/
def fork (x : MonitorTask M) : Option (MonitorTask M) :=
  match x.at_ with
  | .spawning i proc none => some { x with at_ := .spawning i proc (some .running) }
  | _ => none

/-- The adapter process exits. -/
def exit (x : MonitorTask M) (returncode : Int) : Option (MonitorTask M) :=
  match x.at_ with
  | .spawning i proc (some .running) =>
    some { x with at_ := .spawning i proc (some (.exited returncode)) }
  | .communicating i .running => some { x with at_ := .communicating i (.exited returncode) }
  | .terminating .running => some { x with at_ := .terminating (.exited returncode) }
  | .abandoned .running => some { x with at_ := .abandoned (.exited returncode) }
  | _ => none

end MonitorTask

/-! ## `__updates_worker` -/

namespace AdapterMonitor

def putStatus (s : AdapterMonitor M) (items : List (StatusItem M)) : AdapterMonitor M :=
  { s with statusQueue := s.statusQueue.put items }

def putUpdates (s : AdapterMonitor M) (items : List (M × Option Config)) : AdapterMonitor M :=
  { s with updatesQueue := s.updatesQueue.put items }

def setTask (s : AdapterMonitor M) (task : ℕ) (x : MonitorTask M) : AdapterMonitor M :=
  { s with monitors := s.monitors.set task x }

/-- `cancel()` on the task with a number. -/
def cancelTask (s : AdapterMonitor M) (task : ℕ) : AdapterMonitor M :=
  { s with monitors := s.monitors.modify task MonitorTask.cancel }

section
variable [DecidableEq M]

/-- `self.tasks[machine_id] = asyncio.create_task(coro)` -/
def createTask (s : AdapterMonitor M) (machineId : M) (config : Config) : AdapterMonitor M :=
  { s with
    monitors := s.monitors ++ [MonitorTask.new machineId config]
    tasks := Function.update s.tasks machineId (some s.monitors.length) }

/-- `self.tasks.pop(machine_id)` -/
def popTask (s : AdapterMonitor M) (machineId : M) : AdapterMonitor M :=
  { s with tasks := Function.update s.tasks machineId none }

/-- From `if config:` to the end of the loop's body. -/
def applyConfig (s : AdapterMonitor M) (machineId : M) (config : Option Config) :
    AdapterMonitor M :=
  let s := match config with
    | some config => s.createTask machineId config
    | none => s
  { s with updatesQueue := s.updatesQueue.taskDone, updatesWorker := .looping }

/-- `await task` comes back. -/
def taskEnded (s : AdapterMonitor M) (machineId : M) (config : Option Config) :
    Outcome → AdapterMonitor M
  | .returned =>
    let s := if config.isSome then s else s.putStatus [⟨machineId, .DESTROYED, none⟩]
    s.applyConfig machineId config
  -- caught by the handler around the loop
  | .cancelled => { s with updatesWorker := .removing }
  | .raised => { s with updatesWorker := .releasing .raised }

/-- The branch of a machine that has a task, up to its `await`. -/
def awaitTask (s : AdapterMonitor M) (task : ℕ) (machineId : M) (config : Option Config) :
    AdapterMonitor M :=
  let s := s.putStatus [⟨machineId, if config.isSome then .RELOADING else .DESTROYING, none⟩]
  { (s.popTask machineId).cancelTask task with
    updatesWorker := .reloading task machineId config }

/-- The branch of a machine that has a task: `await` on a task that has ended does
not suspend. -/
def reload (s : AdapterMonitor M) (task : ℕ) (machineId : M) (config : Option Config) :
    AdapterMonitor M :=
  let s := s.awaitTask task machineId config
  match s.outcome task with
  | none => s
  | some o => s.taskEnded machineId config o

/-- One turn of the loop. -/
def turn (s : AdapterMonitor M) : AdapterMonitor M :=
  match s.updatesQueue.get? with
  | none => { s with updatesWorker := .getting }
  | some ((machineId, config), queue) =>
    let s := { s with updatesQueue := queue }
    match s.tasks machineId with
    | some task => s.reload task machineId config
    | none =>
      -- `continue` skips `task_done`
      if config.isNone then s else s.applyConfig machineId config

/-- What an awaited operation of the updates worker comes back with. -/
inductive WorkerReply (M : Type) where
  | ok
  | rows (rows : List (M × Config))
  | error
  deriving DecidableEq

/-- A `CancelledError` where the updates worker is suspended. -/
def updatesCancelled (s : AdapterMonitor M) : Option (AdapterMonitor M) :=
  match s.updatesWorker with
  | .start | .acquiring => some { s with updatesWorker := .done .cancelled }
  | .fetching => some { s with updatesWorker := .releasing .cancelled }
  | .listening | .getting | .reloading .. => some { s with updatesWorker := .removing }
  | .removing => some { s with updatesWorker := .releasing .cancelled }
  | .releasing _ => some { s with updatesWorker := .done .cancelled }
  | .uncreated | .looping | .done _ => none

/-- What the updates worker awaited comes back. -/
def updatesResumed (s : AdapterMonitor M) (r : WorkerReply M) : Option (AdapterMonitor M) :=
  match s.updatesWorker, r with
  | .start, .ok => some { s with updatesWorker := .acquiring }
  | .acquiring, .ok => some { s with updatesWorker := .fetching }
  | .acquiring, .error => some { s with updatesWorker := .done .raised }
  | .fetching, .rows rows =>
    some { s.putUpdates (rows.map fun row => (row.1, some row.2)) with updatesWorker := .listening }
  | .fetching, .error => some { s with updatesWorker := .releasing .raised }
  | .listening, .ok => some { s with updatesWorker := .looping }
  | .listening, .error => some { s with updatesWorker := .releasing .raised }
  | .looping, .ok => some s.turn
  | .getting, .ok =>
    if s.updatesQueue.items.isEmpty then none else some { s with updatesWorker := .looping }
  | .reloading task machineId config, .ok =>
    (s.outcome task).map fun o => s.taskEnded machineId config o
  | .removing, .ok => some { s with updatesWorker := .releasing .returned }
  | .removing, .error => some { s with updatesWorker := .releasing .raised }
  | .releasing o, .ok => some { s with updatesWorker := .done o }
  | .releasing _, .error => some { s with updatesWorker := .done .raised }
  | _, _ => none

/-- `__updates_worker`, from one suspension to the next or once round its loop. -/
def updatesWorkerStep (s : AdapterMonitor M) (r : WorkerReply M) : Option (AdapterMonitor M) :=
  if s.updatesCancelling then { s with updatesCancelling := false }.updatesCancelled
  else s.updatesResumed r

end

/-! ## `__status_worker` -/

/-- The head of the loop: take an item, or wait for one. -/
def statusNext (s : AdapterMonitor M) : AdapterMonitor M :=
  match s.statusQueue.get? with
  | none => { s with statusWorker := .getting }
  | some (item, queue) => { s with statusQueue := queue, statusWorker := .writing item }

/-- `__status_worker`, from one suspension to the next; a transaction may fail. -/
def statusWorkerStep (s : AdapterMonitor M) (committed : Bool) : Option (AdapterMonitor M) :=
  match s.statusWorker, s.statusCancelling with
  | .start, true =>
    some { s with statusCancelling := false, statusWorker := .done .cancelled }
  | .getting, true | .writing _, true =>
    some { s with statusCancelling := false, statusWorker := .done .returned }
  | .start, false => some s.statusNext
  | .getting, false => if s.statusQueue.items.isEmpty then none else some s.statusNext
  | .writing _, false =>
    if committed then some { s with statusQueue := s.statusQueue.taskDone }.statusNext
    else some { s with statusWorker := .done .raised }
  | .uncreated, _ | .done _, _ => none

/-- `status_task.cancel()` -/
def cancelStatus (s : AdapterMonitor M) : AdapterMonitor M :=
  if s.statusWorker.outcome.isSome then s else { s with statusCancelling := true }

/-! ## `run` -/

/-- `worker_task.cancel()`: while it awaits a task, that task is cancelled instead. -/
def cancelUpdates (s : AdapterMonitor M) : AdapterMonitor M :=
  match s.updatesWorker with
  | .done _ => s
  | .reloading task _ _ =>
    if (s.outcome task).isSome then { s with updatesCancelling := true } else s.cancelTask task
  | _ => { s with updatesCancelling := true }

/-- `cancel()` on tasks, one after the other. -/
def cancelTasks (s : AdapterMonitor M) (ts : List ℕ) : AdapterMonitor M :=
  ts.foldl cancelTask s

/-- How the children of the second `gather` ended. -/
def childOutcomes (s : AdapterMonitor M) (children : List ℕ) : List (Option Outcome) :=
  children.map s.outcome ++ [s.updatesWorker.outcome]

/-- `status_task.cancel()` and `await status_task`. -/
def closeStatus (s : AdapterMonitor M) : AdapterMonitor M :=
  match s.statusWorker.outcome with
  | some o => { s with run := .done o }
  | none => { s.cancelStatus with run := .closing }

/-- From `await status_queue.join()`. -/
def joinStatus (s : AdapterMonitor M) : AdapterMonitor M :=
  if s.statusQueue.joined then s.closeStatus else { s with run := .joining }

/-- `self.tasks.values()` -/
def taskValues (s : AdapterMonitor M) : List ℕ :=
  (List.range s.monitors.length).filter fun t =>
    s.monitors[t]?.any fun x => s.tasks x.machineId == some t

/-- The handler of `run`, up to its `gather`. -/
def stopChildren (s : AdapterMonitor M) : AdapterMonitor M :=
  { s.cancelUpdates.cancelTasks s.taskValues with run := .stopping s.taskValues false }

/-- `run`, from one suspension to the next. The outcome is that of what it awaited. -/
def runStep (s : AdapterMonitor M) (o : Outcome) : Option (AdapterMonitor M) :=
  match s.run, s.runCancelling with
  | .supervising, true => some { s with runCancelling := false }.stopChildren
  | .done _, _ => none
  | _, true => some { s with runCancelling := false, run := .done .cancelled }
  | .initialising, false =>
    match o with
    | .returned => some { s with
        statusWorker := .start, updatesWorker := .start, run := .supervising }
    | o => some { s with run := .done o }
  | .supervising, false =>
    if gathered [s.updatesWorker.outcome, s.statusWorker.outcome] o then
      match o with
      | .cancelled => some s.stopChildren
      | o => some { s with run := .done o }
    else none
  | .stopping children cancelRequested, false =>
    if gathered (s.childOutcomes children) o then
      match o, cancelRequested with
      | .returned, false => some s.joinStatus
      | .returned, true => some { s with run := .done .cancelled }
      | o, _ => some { s with run := .done o }
    else none
  | .joining, false => if s.statusQueue.joined then some s.closeStatus else none
  | .closing, false => s.statusWorker.outcome.map fun o => { s with run := .done o }

/-- `cancel()` on the task of `run`. -/
def cancelRun (s : AdapterMonitor M) : AdapterMonitor M :=
  match s.run with
  | .done _ => s
  | .stopping children _ =>
    if (s.childOutcomes children).all Option.isSome ||
        (s.childOutcomes children).any fun o => o == some .raised || o == some .cancelled then
      { s with runCancelling := true }
    else { (s.cancelTasks children).cancelUpdates with run := .stopping children true }
  | .closing =>
    if s.statusWorker.outcome.isSome then { s with runCancelling := true } else s.cancelStatus
  | _ => { s with runCancelling := true }

/-! ## Events -/

/-- One thing that happens. -/
inductive Event (M : Type) where
  /-- The listener's callback puts an item on `updates_queue`. -/
  | notify (machineId : M) (payload : Option Config)
  /-- The task of a machine runs. -/
  | monitor (task : ℕ) (r : Reply)
  /-- The process that a task is spawning is forked. -/
  | fork (task : ℕ)
  /-- The adapter process of a task exits. -/
  | exit (task : ℕ) (returncode : Int)
  | updates (r : WorkerReply M)
  | status (committed : Bool)
  | run (o : Outcome)
  /-- `run` is cancelled from outside. -/
  | cancel
  deriving DecidableEq

/-- The task with a number goes on to another state. -/
def advance (s : AdapterMonitor M) (task : ℕ)
    (f : MonitorTask M → Option (MonitorTask M × List (StatusItem M))) :
    Option (AdapterMonitor M) := do
  let x ← s.monitors[task]?
  let (x, out) ← f x
  some ((s.setTask task x).putStatus out)

section
variable [DecidableEq M]

/-- An event between two suspensions of the updates worker. -/
def stepSuspended (s : AdapterMonitor M) : Event M → Option (AdapterMonitor M)
  | .notify machineId payload => some (s.putUpdates [(machineId, payload)])
  | .monitor task r => s.advance task fun x => x.monitorMachine r
  | .fork task => s.advance task fun x => x.fork.map fun x => (x, [])
  | .exit task returncode => s.advance task fun x => (x.exit returncode).map fun x => (x, [])
  | .updates r => s.updatesWorkerStep r
  | .status committed => s.statusWorkerStep committed
  | .run o => s.runStep o
  | .cancel => some s.cancelRun

/-- **One event.** -/
def step (s : AdapterMonitor M) (e : Event M) : Option (AdapterMonitor M) :=
  match s.updatesWorker, e with
  | .looping, .updates r => s.updatesWorkerStep r
  | .looping, _ => none
  | _, e => s.stepSuspended e

end

end AdapterMonitor

end FanucDriver.Monitor
