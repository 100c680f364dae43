import FanucDriver.Monitor.Daemon
import Mathlib.Data.Option.Basic
import Mathlib.Tactic.SplitIfs

/-!
# What a step can do

The invariants of the supervisor are about the tasks it has created and the map
`self.tasks`. Here is said once what each coroutine can do to them: a task only
gets older (`Aged`), only the updates worker changes the map, and it does so in one
turn of its loop or when a task it awaited has ended (`step_effect`).
-/

namespace FanucDriver.Monitor

open FanucDriver.Lib

variable {M : Type}

/-! ## The life of a task -/

/-- The adapter process that a task has running. -/
def Monitoring.live : Monitoring → Bool
  | .spawning _ _ (some .running) => true
  | .communicating _ .running => true
  | .terminating .running => true
  | .abandoned .running => true
  | _ => false

/-- A task that has not ended or has left its process running. -/
def Monitoring.Active (a : Monitoring) : Prop := a.outcome = none ∨ a.live = true

namespace MonitorTask

/-- A task that ended on its own or in its handler has left no process. -/
theorem not_active_of_done {a : Monitoring} {o : Outcome} (h : a.outcome = some o)
    (ho : o ≠ .cancelled) : ¬ a.Active := by
  rintro (hnone | hlive)
  · exact absurd (h.symm.trans hnone) (Option.some_ne_none o)
  · cases a with
    -- ended by a second cancellation
    | abandoned proc => exact ho (Option.some.inj h).symm
    | _ => simp_all [Monitoring.outcome, Monitoring.live]

/-- `y` is the same task as `x`, as it was or later. -/
structure Later (x y : MonitorTask M) : Prop where
  machineId : y.machineId = x.machineId
  config : y.config = x.config
  outcome : ∀ o, x.at_.outcome = some o → y.at_.outcome = some o
  live : x.at_.outcome.isSome → y.at_.live = true → x.at_.live = true

theorem Later.refl (x : MonitorTask M) : x.Later x := ⟨rfl, rfl, fun _ h => h, fun _ h => h⟩

theorem Later.trans {x y z : MonitorTask M} (h : x.Later y) (h' : y.Later z) : x.Later z where
  machineId := h'.machineId.trans h.machineId
  config := h'.config.trans h.config
  outcome o ho := h'.outcome o (h.outcome o ho)
  live hx hz := by
    obtain ⟨o, ho⟩ := Option.isSome_iff_exists.mp hx
    exact h.live hx (h'.live (Option.isSome_iff_exists.mpr ⟨o, h.outcome o ho⟩) hz)

theorem Later.active {x y : MonitorTask M} (h : x.Later y) (hy : y.at_.Active) : x.at_.Active := by
  cases hx : x.at_.outcome with
  | none => exact Or.inl hx
  | some o =>
    rcases hy with hnone | hlive
    · exact absurd ((h.outcome o hx).symm.trans hnone) (Option.some_ne_none o)
    · exact Or.inr (h.live (hx ▸ rfl) hlive)

/-- A task that has not ended may become anything of the same machine. -/
theorem later_of_unfinished {x y : MonitorTask M} (hm : y.machineId = x.machineId)
    (hc : y.config = x.config) (hx : x.at_.outcome = none) : x.Later y :=
  ⟨hm, hc, fun _ h => absurd (hx.symm.trans h) (Option.some_ne_none _).symm,
    fun h => absurd h (by rw [hx]; exact Bool.false_ne_true)⟩

theorem cancel_later (x : MonitorTask M) : x.Later x.cancel := by
  rw [cancel]
  split
  · exact Later.refl x
  · exact ⟨rfl, rfl, fun _ h => h, fun _ h => h⟩

theorem cancelled_later {x y : MonitorTask M} {out : List (StatusItem M)}
    (h : x.cancelled = some (y, out)) : x.Later y := by
  unfold cancelled at h
  split at h
  all_goals first
    | exact absurd h.symm (Option.some_ne_none _)
    | next hat =>
      obtain ⟨rfl, -⟩ := Prod.mk.inj (Option.some.inj h)
      exact later_of_unfinished rfl rfl (by rw [hat]; rfl)

theorem resumed_later {x y : MonitorTask M} {r : Reply} {out : List (StatusItem M)}
    (h : x.resumed r = some (y, out)) : x.Later y := by
  unfold resumed at h
  split at h
  all_goals first
    | exact absurd h.symm (Option.some_ne_none _)
    | next hat =>
      obtain ⟨rfl, -⟩ := Prod.mk.inj (Option.some.inj h)
      exact later_of_unfinished rfl rfl (by rw [hat]; rfl)

theorem monitorMachine_later {x y : MonitorTask M} {r : Reply} {out : List (StatusItem M)}
    (h : x.monitorMachine r = some (y, out)) : x.Later y := by
  rw [monitorMachine] at h
  split at h
  · have hc := cancelled_later h
    exact ⟨hc.machineId, hc.config, hc.outcome, hc.live⟩
  · exact resumed_later h

/-- What the fork or the exit of its process makes of where a task is. -/
inductive ProcessStep : Monitoring → Monitoring → Prop
  | forks {i : ℕ} {proc : Option Int} :
    ProcessStep (.spawning i proc none) (.spawning i proc (some .running))
  | spawning {i : ℕ} {proc : Option Int} {returncode : Int} :
    ProcessStep (.spawning i proc (some .running)) (.spawning i proc (some (.exited returncode)))
  | communicating {i : ℕ} {returncode : Int} :
    ProcessStep (.communicating i .running) (.communicating i (.exited returncode))
  | terminating {returncode : Int} :
    ProcessStep (.terminating .running) (.terminating (.exited returncode))
  | abandoned {returncode : Int} :
    ProcessStep (.abandoned .running) (.abandoned (.exited returncode))

theorem fork_step {x y : MonitorTask M} (h : x.fork = some y) :
    ∃ a, ProcessStep x.at_ a ∧ y = { x with at_ := a } := by
  unfold fork at h
  split at h
  next hat =>
    obtain rfl := Option.some.inj h
    exact ⟨_, hat ▸ .forks, rfl⟩
  next => exact absurd h.symm (Option.some_ne_none _)

theorem exit_step {x y : MonitorTask M} {returncode : Int} (h : x.exit returncode = some y) :
    ∃ a, ProcessStep x.at_ a ∧ y = { x with at_ := a } := by
  unfold exit at h
  split at h
  case h_1 hat =>
    obtain rfl := Option.some.inj h
    exact ⟨_, hat ▸ .spawning, rfl⟩
  case h_2 hat =>
    obtain rfl := Option.some.inj h
    exact ⟨_, hat ▸ .communicating, rfl⟩
  case h_3 hat =>
    obtain rfl := Option.some.inj h
    exact ⟨_, hat ▸ .terminating, rfl⟩
  case h_4 hat =>
    obtain rfl := Option.some.inj h
    exact ⟨_, hat ▸ .abandoned, rfl⟩
  case h_5 => exact absurd h.symm (Option.some_ne_none _)

/-- A process moves on under a task that has not ended, or was left behind by one. -/
theorem ProcessStep.later {x : MonitorTask M} {a : Monitoring} (h : ProcessStep x.at_ a) :
    x.Later { x with at_ := a } := by
  obtain ⟨m, config, b, c⟩ := x
  cases h with
  | abandoned => exact ⟨rfl, rfl, fun _ ho => ho, fun _ hlive => absurd hlive Bool.false_ne_true⟩
  | _ => exact later_of_unfinished rfl rfl rfl

theorem fork_later {x y : MonitorTask M} (h : x.fork = some y) : x.Later y := by
  obtain ⟨a, hstep, rfl⟩ := fork_step h
  exact hstep.later

theorem exit_later {x y : MonitorTask M} {returncode : Int} (h : x.exit returncode = some y) :
    x.Later y := by
  obtain ⟨a, hstep, rfl⟩ := exit_step h
  exact hstep.later

theorem later_of_map {f : MonitorTask M → Option (MonitorTask M)}
    (hf : ∀ x y : MonitorTask M, f x = some y → x.Later y) (x y : MonitorTask M)
    (out : List (StatusItem M)) (h : (f x).map (fun x => (x, [])) = some (y, out)) :
    x.Later y := by
  obtain ⟨z, hz, heq⟩ := Option.map_eq_some_iff.mp h
  obtain rfl := (Prod.mk.inj heq).1
  exact hf x z hz

end MonitorTask

/-- An element of a list with one place set. -/
theorem getElem?_set_cases {A : Type} {as : List A} {t u : ℕ} {a b : A}
    (h : (as.set t a)[u]? = some b) : (u = t ∧ b = a) ∨ (u ≠ t ∧ as[u]? = some b) := by
  rw [List.getElem?_set] at h
  split at h
  next heq =>
    split at h
    · exact Or.inl ⟨heq.symm, (Option.some.inj h).symm⟩
    · exact absurd h.symm (Option.some_ne_none _)
  next hne => exact Or.inr ⟨Ne.symm hne, h⟩

/-- The same tasks, each as it was or later. -/
def Aged (xs ys : List (MonitorTask M)) : Prop :=
  ∀ t : ℕ, Option.Rel MonitorTask.Later xs[t]? ys[t]?

namespace Aged

theorem refl (xs : List (MonitorTask M)) : Aged xs xs := Pointwise.refl .refl xs

theorem trans {xs ys zs : List (MonitorTask M)} (h : Aged xs ys) (h' : Aged ys zs) :
    Aged xs zs :=
  Pointwise.trans .trans h h'

/-- A task of the later list is a task of the list before. -/
theorem before {xs ys : List (MonitorTask M)} (h : Aged xs ys) {t : ℕ} {y : MonitorTask M}
    (hy : ys[t]? = some y) : ∃ x, xs[t]? = some x ∧ x.Later y :=
  Pointwise.before h hy

/-- A task keeps its configuration. -/
theorem config {xs ys : List (MonitorTask M)} (h : Aged xs ys) (t : ℕ) :
    ys[t]?.map (·.config) = xs[t]?.map (·.config) :=
  Pointwise.map_eq (R := MonitorTask.Later) MonitorTask.Later.config h t

/-- A task is still there later. -/
theorem after {xs ys : List (MonitorTask M)} (h : Aged xs ys) {t : ℕ} {x : MonitorTask M}
    (hx : xs[t]? = some x) : ∃ y, ys[t]? = some y ∧ x.Later y :=
  Pointwise.after h hx

theorem set {xs : List (MonitorTask M)} {t : ℕ} {x y : MonitorTask M} (hx : xs[t]? = some x)
    (h : x.Later y) : Aged xs (xs.set t y) :=
  Pointwise.set .refl hx h

theorem modify (xs : List (MonitorTask M)) (t : ℕ) : Aged xs (xs.modify t MonitorTask.cancel) :=
  Pointwise.modify .refl MonitorTask.cancel_later xs t

end Aged

/-! ## Everything but the updates worker -/

namespace AdapterMonitor

/-- Tasks only get older, and what the updates worker owns stays. -/
structure Kept (s s' : AdapterMonitor M) : Prop where
  tasks : s'.tasks = s.tasks
  monitors : Aged s.monitors s'.monitors
  updatesWorker : s'.updatesWorker = s.updatesWorker
  run : s'.run = .initialising → s.run = .initialising

namespace Kept

theorem refl (s : AdapterMonitor M) : Kept s s := ⟨rfl, .refl _, rfl, id⟩

theorem trans {s t u : AdapterMonitor M} (h : Kept s t) (h' : Kept t u) : Kept s u :=
  ⟨h'.tasks.trans h.tasks, h.monitors.trans h'.monitors,
    h'.updatesWorker.trans h.updatesWorker, h.run ∘ h'.run⟩

/-- Only the other fields changed. -/
theorem of_eq {s s' : AdapterMonitor M} (ht : s'.tasks = s.tasks) (hm : s'.monitors = s.monitors)
    (hw : s'.updatesWorker = s.updatesWorker)
    (hr : s'.run = .initialising → s.run = .initialising) : Kept s s' :=
  ⟨ht, hm ▸ .refl _, hw, hr⟩

end Kept

theorem kept_cancelTask (s : AdapterMonitor M) (t : ℕ) : Kept s (s.cancelTask t) :=
  ⟨rfl, .modify s.monitors t, rfl, id⟩

theorem kept_cancelTasks (s : AdapterMonitor M) (ts : List ℕ) : Kept s (s.cancelTasks ts) := by
  induction ts generalizing s with
  | nil => exact .refl s
  | cons t ts ih => exact (kept_cancelTask s t).trans (ih _)

theorem kept_cancelUpdates (s : AdapterMonitor M) : Kept s s.cancelUpdates := by
  rw [cancelUpdates]
  split
  · exact .refl s
  · split
    · exact .of_eq rfl rfl rfl id
    · exact kept_cancelTask s _
  · exact .of_eq rfl rfl rfl id

theorem cancelStatus_eq (s : AdapterMonitor M) :
    ∃ b, s.cancelStatus = { s with statusCancelling := b } := by
  rw [cancelStatus]
  split
  · exact ⟨s.statusCancelling, rfl⟩
  · exact ⟨true, rfl⟩

theorem kept_cancelStatus (s : AdapterMonitor M) : Kept s s.cancelStatus := by
  obtain ⟨b, heq⟩ := cancelStatus_eq s
  rw [heq]
  exact .of_eq rfl rfl rfl id

/-- What the status worker can do in one step: take the next item, finish the one it
has and take the next, or leave. -/
inductive StatusEffect (s : AdapterMonitor M) : AdapterMonitor M → Prop
  | next : StatusEffect s s.statusNext
  | finish {item : StatusItem M} (hs : s.statusWorker = .writing item) :
    StatusEffect s { s with statusQueue := s.statusQueue.taskDone }.statusNext
  | leave {o : Outcome} {b : Bool} (ho : o = .returned → s.statusCancelling = true)
    (hb : b = true → s.statusCancelling = true) :
    StatusEffect s { s with statusCancelling := b, statusWorker := .done o }

theorem statusWorkerStep_effect {s s' : AdapterMonitor M} {committed : Bool}
    (h : s.statusWorkerStep committed = some s') : StatusEffect s s' := by
  unfold statusWorkerStep at h
  split at h
  case h_1 hc => exact Option.some.inj h ▸ .leave (fun _ => hc) (fun _ => hc)
  case h_2 hc => exact Option.some.inj h ▸ .leave (fun _ => hc) (fun _ => hc)
  case h_3 hc => exact Option.some.inj h ▸ .leave (fun _ => hc) (fun _ => hc)
  case h_4 => exact Option.some.inj h ▸ .next
  case h_5 =>
    split at h
    · exact absurd h.symm (Option.some_ne_none _)
    · exact Option.some.inj h ▸ .next
  case h_6 hs _ =>
    split at h
    · exact Option.some.inj h ▸ .finish hs
    · exact Option.some.inj h ▸ .leave (b := s.statusCancelling) nofun id
  all_goals exact absurd h.symm (Option.some_ne_none _)

/-- The head of the loop changes the status worker and takes from its queue. -/
theorem statusNext_eq (s : AdapterMonitor M) : ∃ queue w,
    s.statusNext = { s with statusQueue := queue, statusWorker := w } := by
  rw [statusNext]
  split
  · exact ⟨_, _, rfl⟩
  · exact ⟨_, _, rfl⟩

/-- The status worker changes its own fields and takes from its queue. -/
theorem statusWorkerStep_eq {s s' : AdapterMonitor M} {committed : Bool}
    (h : s.statusWorkerStep committed = some s') : ∃ queue w b,
      s' = { s with statusQueue := queue, statusWorker := w, statusCancelling := b } := by
  obtain _ | _ | _ := statusWorkerStep_effect h
  · obtain ⟨queue, w, heq⟩ := statusNext_eq s
    exact ⟨queue, w, s.statusCancelling, heq⟩
  · obtain ⟨queue, w, heq⟩ := statusNext_eq { s with statusQueue := s.statusQueue.taskDone }
    exact ⟨queue, w, s.statusCancelling, heq⟩
  · exact ⟨_, _, _, rfl⟩

theorem kept_closeStatus (s : AdapterMonitor M) : Kept s s.closeStatus := by
  rw [closeStatus]
  split
  · exact .of_eq rfl rfl rfl nofun
  · exact (kept_cancelStatus s).trans (.of_eq rfl rfl rfl nofun)

theorem kept_joinStatus (s : AdapterMonitor M) : Kept s s.joinStatus := by
  rw [joinStatus]
  split
  · exact kept_closeStatus s
  · exact .of_eq rfl rfl rfl nofun

/-- The task that goes on, and what it puts. -/
theorem exists_of_advance {s s' : AdapterMonitor M} {t : ℕ}
    {f : MonitorTask M → Option (MonitorTask M × List (StatusItem M))}
    (h : s.advance t f = some s') : ∃ x y out, s.monitors[t]? = some x ∧ f x = some (y, out) ∧
      s' = (s.setTask t y).putStatus out := by
  simp only [advance, Option.bind_eq_bind, Option.bind_eq_some_iff] at h
  obtain ⟨x, hx, ⟨y, out⟩, hy, heq⟩ := h
  exact ⟨x, y, out, hx, hy, (Option.some.inj heq).symm⟩

theorem kept_advance {s s' : AdapterMonitor M} {t : ℕ}
    {f : MonitorTask M → Option (MonitorTask M × List (StatusItem M))}
    (hf : ∀ x y out, f x = some (y, out) → x.Later y) (h : s.advance t f = some s') :
    Kept s s' := by
  obtain ⟨x, y, out, hx, hy, rfl⟩ := exists_of_advance h
  exact ⟨rfl, .set hx (hf x y out hy), rfl, id⟩

theorem kept_stopChildren (s : AdapterMonitor M) : Kept s s.stopChildren :=
  ((kept_cancelUpdates s).trans (kept_cancelTasks _ _)).trans (.of_eq rfl rfl rfl nofun)

theorem kept_cancelRun (s : AdapterMonitor M) : Kept s s.cancelRun := by
  rw [cancelRun]
  split
  · exact .refl s
  · split
    · exact .of_eq rfl rfl rfl id
    · exact ((kept_cancelTasks s _).trans (kept_cancelUpdates _)).trans (.of_eq rfl rfl rfl nofun)
  · split
    · exact .of_eq rfl rfl rfl id
    · exact kept_cancelStatus s
  · exact .of_eq rfl rfl rfl id

/-- Where `run` ends when what it awaits comes back with an outcome. -/
def Ends (s : AdapterMonitor M) (o : Outcome) : Prop :=
  match s.run with
  | .initialising | .closing => True
  | .supervising => s.runCancelling = false ∧ o ≠ .cancelled ∧
      gathered [s.updatesWorker.outcome, s.statusWorker.outcome] o = true
  | .stopping _ cancelRequested =>
    s.runCancelling = true ∨ o ≠ .returned ∨ cancelRequested = true
  | .joining => s.runCancelling = true
  | .done _ => False

/-- What `run` can do in one step: create the workers, enter its handler, get on in
it, or end. -/
inductive RunEffect (s : AdapterMonitor M) (o : Outcome) : AdapterMonitor M → Prop
  | created (hrun : s.run = .initialising) : RunEffect s o { s with
      statusWorker := .start, updatesWorker := .start, run := .supervising }
  | stops {b : Bool} (hrun : s.run = .supervising) :
    RunEffect s o { s with runCancelling := b }.stopChildren
  | joins {children : List ℕ} (hrun : s.run = .stopping children false)
    (hgathered : gathered (s.childOutcomes children) .returned = true) :
    RunEffect s o s.joinStatus
  | closes (hrun : s.run = .joining) (hjoined : s.statusQueue.joined = true) :
    RunEffect s o s.closeStatus
  | ends {b : Bool} {o' : Outcome} (hends : s.Ends o) :
    RunEffect s o { s with runCancelling := b, run := .done o' }

theorem runStep_effect {s s' : AdapterMonitor M} {o : Outcome} (h : s.runStep o = some s') :
    RunEffect s o s' := by
  have ends {o' : Outcome} (hends : s.Ends o) : RunEffect s o { s with run := .done o' } :=
    .ends hends
  unfold runStep at h
  split at h
  · next hrun _ => exact Option.some.inj h ▸ .stops hrun
  · exact absurd h.symm (Option.some_ne_none _)
  · next hsup hdone hc =>
    obtain rfl := Option.some.inj h
    refine .ends ?_
    unfold Ends
    split <;> simp_all
  · next hrun _ =>
    have hends : s.Ends o := by rw [Ends, hrun]; trivial
    split at h
    · exact Option.some.inj h ▸ .created hrun
    · exact Option.some.inj h ▸ ends hends
  · next hrun hc =>
    split at h
    next hgathered =>
      split at h
      · exact Option.some.inj h ▸ .stops hrun
      · next hne =>
        have hends : s.Ends o := by rw [Ends, hrun]; exact ⟨hc, hne, hgathered⟩
        exact Option.some.inj h ▸ ends hends
    next => exact absurd h.symm (Option.some_ne_none _)
  · next children cancelRequested hrun hc =>
    split at h
    next hgathered =>
      split at h
      · exact Option.some.inj h ▸ .joins hrun hgathered
      · have hends : s.Ends .returned := by rw [Ends, hrun]; exact Or.inr (Or.inr rfl)
        exact Option.some.inj h ▸ .ends hends
      · next hnot _ =>
        have hends : s.Ends o := by
          rw [Ends, hrun]
          cases cancelRequested with
          | false => exact Or.inr (Or.inl fun ho => hnot ho rfl)
          | true => exact Or.inr (Or.inr rfl)
        exact Option.some.inj h ▸ ends hends
    next => exact absurd h.symm (Option.some_ne_none _)
  · next hrun _ =>
    split at h
    next hjoined => exact Option.some.inj h ▸ .closes hrun hjoined
    next => exact absurd h.symm (Option.some_ne_none _)
  · next hrun _ =>
    have hends : s.Ends o := by rw [Ends, hrun]; trivial
    obtain ⟨o', -, rfl⟩ := Option.map_eq_some_iff.mp h
    exact ends hends

/-- A step of `run` that does not create the workers. -/
theorem kept_runStep {s s' : AdapterMonitor M} {o : Outcome} (h : s.runStep o = some s') :
    (s.run = .initialising ∧ s' = { s with
      statusWorker := .start, updatesWorker := .start, run := .supervising }) ∨
    Kept s s' := by
  obtain hrun | @⟨b, -⟩ | - | - | - := runStep_effect h
  · exact Or.inl ⟨hrun, rfl⟩
  · exact Or.inr (Kept.trans (t := { s with runCancelling := b })
      (.of_eq rfl rfl rfl id) (kept_stopChildren _))
  · exact Or.inr (kept_joinStatus s)
  · exact Or.inr (kept_closeStatus s)
  · exact Or.inr (.of_eq rfl rfl rfl nofun)

end AdapterMonitor

/-! ## The updates worker -/

namespace UpdatesWorker

/-- On its way out. -/
def Stopping : UpdatesWorker M → Prop
  | removing | releasing _ | done _ => True
  | _ => False

/-- Before its loop or going round it, and awaiting no task. -/
def Calm : UpdatesWorker M → Prop
  | start | acquiring | fetching | listening | looping | getting => True
  | _ => False

/-- In `await task`. -/
def Awaits (w : UpdatesWorker M) (task : ℕ) : Prop :=
  ∃ machineId config, w = .reloading task machineId config

theorem Stopping.not_awaits {w : UpdatesWorker M} (h : w.Stopping) (t : ℕ) : ¬ w.Awaits t := by
  intro h
  obtain ⟨m, c, rfl⟩ := h
  exact h

theorem Calm.not_awaits {w : UpdatesWorker M} (h : w.Calm) (t : ℕ) : ¬ w.Awaits t := by
  intro h
  obtain ⟨m, c, rfl⟩ := h
  exact h

theorem Calm.not_stopping {w : UpdatesWorker M} (h : w.Calm) : ¬ w.Stopping := by
  cases w <;> first | exact h.elim | exact id

end UpdatesWorker

namespace AdapterMonitor

/-- Why the updates worker would leave its loop, other than a task it awaited. -/
def Interrupted (s : AdapterMonitor M) (r : WorkerReply M) : Prop :=
  s.updatesCancelling = true ∨ r = .error ∨ s.updatesWorker.Stopping

theorem updatesCancelled_cases {s s' : AdapterMonitor M} (h : s.updatesCancelled = some s') :
    ∃ w, s' = { s with updatesWorker := w } ∧ w.Stopping ∧ s.updatesWorker ≠ .uncreated := by
  unfold updatesCancelled at h
  split at h
  all_goals first
    | exact absurd h.symm (Option.some_ne_none _)
    | next hs => exact ⟨_, (Option.some.inj h).symm, trivial, by rw [hs]; nofun⟩

section
variable [DecidableEq M]

/-- What the updates worker can do in one step: leave, get on before its loop or in
`get`, go round its loop, or go on after a task has ended. -/
inductive UpdatesEffect (s : AdapterMonitor M) (r : WorkerReply M) : AdapterMonitor M → Prop
  | leave {w : UpdatesWorker M} {b : Bool} (hs : s.updatesWorker ≠ .uncreated) (hw : w.Stopping)
    (why : s.Interrupted r) :
    UpdatesEffect s r { s with updatesWorker := w, updatesCancelling := b }
  | goOn {w : UpdatesWorker M} {queue : Queue (M × Option Config)}
    (hcancel : s.updatesCancelling = false) (hs : s.updatesWorker.Calm) (hw : w.Calm)
    (hq : queue.got = s.updatesQueue.got) :
    UpdatesEffect s r { s with updatesWorker := w, updatesQueue := queue }
  | turn (hcancel : s.updatesCancelling = false) (hs : s.updatesWorker = .looping) :
    UpdatesEffect s r s.turn
  | ended {t : ℕ} {m : M} {config : Option Config} {o : Outcome}
    (hcancel : s.updatesCancelling = false) (hs : s.updatesWorker = .reloading t m config)
    (ho : s.outcome t = some o) : UpdatesEffect s r (s.taskEnded m config o)

theorem updatesResumed_effect {s s' : AdapterMonitor M} {r : WorkerReply M}
    (hcancel : s.updatesCancelling = false) (h : s.updatesResumed r = some s') :
    UpdatesEffect s r s' := by
  have leave {w : UpdatesWorker M} (hs : s.updatesWorker ≠ .uncreated) (hw : w.Stopping)
      (why : s.Interrupted r) : UpdatesEffect s r { s with updatesWorker := w } :=
    .leave hs hw why
  have goOn {w : UpdatesWorker M} (hs : s.updatesWorker.Calm) (hw : w.Calm) :
      UpdatesEffect s r { s with updatesWorker := w } := .goOn hcancel hs hw rfl
  unfold updatesResumed at h
  split at h
  -- once round the loop
  case h_8 hs => exact Option.some.inj h ▸ .turn hcancel hs
  case h_9 hs =>
    split at h
    · exact absurd h.symm (Option.some_ne_none _)
    · exact Option.some.inj h ▸ goOn (hs ▸ trivial) trivial
  -- `await task` comes back
  case h_10 hs =>
    obtain ⟨o, ho, rfl⟩ := Option.map_eq_some_iff.mp h
    exact .ended hcancel hs ho
  case h_4 hs => exact Option.some.inj h ▸ .goOn hcancel (hs ▸ trivial) trivial (Queue.put_got _ _)
  all_goals first
    | exact absurd h.symm (Option.some_ne_none _)
    | next hs => exact Option.some.inj h ▸ goOn (hs ▸ trivial) trivial
    | next hs =>
      exact Option.some.inj h ▸ leave (by rw [hs]; nofun) trivial (Or.inr (Or.inl rfl))
    | next hs =>
      exact Option.some.inj h ▸ leave (by rw [hs]; nofun) trivial (Or.inr (Or.inr (hs ▸ trivial)))

theorem updatesWorkerStep_effect {s s' : AdapterMonitor M} {r : WorkerReply M}
    (h : s.updatesWorkerStep r = some s') : UpdatesEffect s r s' := by
  unfold updatesWorkerStep at h
  split at h
  next hcancel =>
    obtain ⟨w, rfl, hw, hs⟩ := updatesCancelled_cases h
    exact .leave hs hw (Or.inl hcancel)
  next hcancel => exact updatesResumed_effect (Bool.eq_false_iff.mpr hcancel) h

theorem taskEnded_run (s : AdapterMonitor M) (m : M) (config : Option Config) (o : Outcome) :
    (s.taskEnded m config o).run = s.run := by
  cases o with
  | returned => cases config <;> rfl
  | cancelled => rfl
  | raised => rfl

theorem turn_run (s : AdapterMonitor M) : s.turn.run = s.run := by
  dsimp only [turn]
  split
  next => rfl
  next m config queue _ =>
    split
    · dsimp only [reload]
      split
      · rfl
      · exact taskEnded_run _ m config _
    · split
      · rfl
      · cases config <;> rfl

/-- The updates worker does not touch `run`. -/
theorem updatesWorkerStep_run {s s' : AdapterMonitor M} {r : WorkerReply M}
    (h : s.updatesWorkerStep r = some s') : s'.run = s.run := by
  obtain - | - | - | - := updatesWorkerStep_effect h
  · rfl
  · rfl
  · exact turn_run s
  · exact taskEnded_run s _ _ _

/-- What the system can do in one step. -/
inductive Effect (s : AdapterMonitor M) : Event M → AdapterMonitor M → Prop
  | created {o : Outcome} (hrun : s.run = .initialising) :
    Effect s (.run o) { s with
      statusWorker := .start, updatesWorker := .start, run := .supervising }
  | kept {e : Event M} {s' : AdapterMonitor M} (h : Kept s s') : Effect s e s'
  | updates {r : WorkerReply M} {s' : AdapterMonitor M} (h : UpdatesEffect s r s') :
    Effect s (.updates r) s'

theorem stepSuspended_effect {s s' : AdapterMonitor M} {e : Event M}
    (h : s.stepSuspended e = some s') : Effect s e s' := by
  cases e with
  | notify m payload => exact Option.some.inj h ▸ .kept (.of_eq rfl rfl rfl id)
  | monitor t r => exact .kept (kept_advance (fun _ _ _ => MonitorTask.monitorMachine_later) h)
  | fork t =>
    exact .kept (kept_advance (MonitorTask.later_of_map fun _ _ => MonitorTask.fork_later) h)
  | exit t returncode =>
    exact .kept (kept_advance (MonitorTask.later_of_map fun _ _ => MonitorTask.exit_later) h)
  | updates r => exact .updates (updatesWorkerStep_effect h)
  | status committed =>
    obtain ⟨queue, w, b, rfl⟩ := statusWorkerStep_eq h
    exact .kept (.of_eq rfl rfl rfl id)
  | run o =>
    rcases kept_runStep h with ⟨hrun, rfl⟩ | hkept
    · exact .created hrun
    · exact .kept hkept
  | cancel => exact Option.some.inj h ▸ .kept (kept_cancelRun s)

/-- A step of the updates worker, or one of the others while it is suspended. -/
theorem step_cases {s s' : AdapterMonitor M} {e : Event M} (h : s.step e = some s') :
    (∃ r, e = .updates r ∧ s.updatesWorkerStep r = some s') ∨
    ((∀ r, e ≠ .updates r) ∧ s.updatesWorker ≠ .looping ∧ s.stepSuspended e = some s') := by
  by_cases hw : s.updatesWorker = .looping
  · simp only [step, hw] at h
    cases e with
    | updates r => exact Or.inl ⟨r, rfl, h⟩
    | _ => exact absurd h.symm (Option.some_ne_none _)
  · have hsusp : s.stepSuspended e = some s' := by
      unfold step at h
      split at h
      next hlooping => exact absurd hlooping hw
      next => exact absurd ‹s.updatesWorker = .looping› hw
      next => exact h
    cases e with
    | updates r => exact Or.inl ⟨r, rfl, hsusp⟩
    | _ => exact Or.inr ⟨nofun, hw, hsusp⟩

/-- **What one event can do** to the tasks and the updates worker. -/
theorem step_effect {s s' : AdapterMonitor M} {e : Event M} (h : s.step e = some s') :
    Effect s e s' := by
  obtain ⟨r, rfl, hupd⟩ | ⟨-, -, hsusp⟩ := step_cases h
  · exact .updates (updatesWorkerStep_effect hupd)
  · exact stepSuspended_effect hsusp

end

end AdapterMonitor

end FanucDriver.Monitor
