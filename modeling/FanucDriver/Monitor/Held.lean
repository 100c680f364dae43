import FanucDriver.Monitor.Processes

/-!
# Who holds an unfinished task

Ownership leaves one case open: when the updates worker has left its loop, an active
task may be in no one's hands. Here it is closed for the tasks that have not ended.
The updates worker is asked to cancel itself only where it awaits nothing unfinished
(`cancelUpdates` hands the request on to the awaited task), so it never leaves an
unfinished task behind, and every one of them is in `self.tasks` or awaited
(`unfinished_held`).

`Change` says what one event can do, finer than `Effect`: who was asked to cancel, and
what was put on `status_queue`.
-/

namespace FanucDriver.Monitor

open FanucDriver.Lib

variable {M : Type}

/-! ## Requests to cancel -/

namespace MonitorTask

/-- `y` is `x`, or `x` asked to cancel. -/
def Asked (x y : MonitorTask M) : Prop := y = x ∨ y = x.cancel

theorem cancel_at (x : MonitorTask M) : x.cancel.at_ = x.at_ := by
  rw [cancel]
  split <;> rfl

theorem cancel_cancel (x : MonitorTask M) : x.cancel.cancel = x.cancel := by
  rw [cancel, cancel_at]
  split
  · rfl
  · next h => rw [cancel, if_neg h]

theorem Asked.at_ {x y : MonitorTask M} (h : x.Asked y) : y.at_ = x.at_ := by
  rcases h with rfl | rfl
  · rfl
  · exact x.cancel_at

theorem Asked.later {x y : MonitorTask M} (h : x.Asked y) : x.Later y := by
  rcases h with rfl | rfl
  · exact .refl _
  · exact x.cancel_later

theorem Asked.trans {x y z : MonitorTask M} (h : x.Asked y) (h' : y.Asked z) : x.Asked z := by
  rcases h with rfl | rfl
  · exact h'
  · rcases h' with rfl | rfl
    · exact Or.inr rfl
    · exact Or.inr x.cancel_cancel

/-- A task that has ended does not run. -/
theorem monitorMachine_unfinished {x y : MonitorTask M} {r : Reply} {out : List (StatusItem M)}
    (h : x.monitorMachine r = some (y, out)) : x.at_.outcome = none := by
  rw [monitorMachine] at h
  split at h
  · unfold cancelled at h
    split at h
    all_goals first
      | exact absurd h.symm (Option.some_ne_none _)
      | next hat => exact (congrArg Monitoring.outcome hat).trans rfl
  · unfold resumed at h
    split at h
    all_goals first
      | exact absurd h.symm (Option.some_ne_none _)
      | next hat => exact (congrArg Monitoring.outcome hat).trans rfl

/-- The process of a task is forked, or exits. -/
inductive Moves (x y : MonitorTask M) : Prop
  | forks (h : x.fork = some y)
  | exits {returncode : Int} (h : x.exit returncode = some y)

theorem Moves.step {x y : MonitorTask M} :
    x.Moves y → ∃ a, ProcessStep x.at_ a ∧ y = { x with at_ := a }
  | .forks h => fork_step h
  | .exits h => exit_step h

theorem Moves.later {x y : MonitorTask M} : x.Moves y → x.Later y
  | .forks h => fork_later h
  | .exits h => exit_later h

end MonitorTask

/-- The same tasks, some of them asked to cancel. -/
def AllAsked (xs ys : List (MonitorTask M)) : Prop :=
  ∀ t : ℕ, Option.Rel MonitorTask.Asked xs[t]? ys[t]?

namespace AllAsked

theorem refl (xs : List (MonitorTask M)) : AllAsked xs xs :=
  Pointwise.refl (R := MonitorTask.Asked) (fun _ => Or.inl rfl) xs

theorem trans {xs ys zs : List (MonitorTask M)} (h : AllAsked xs ys) (h' : AllAsked ys zs) :
    AllAsked xs zs :=
  Pointwise.trans .trans h h'

theorem modify (xs : List (MonitorTask M)) (t : ℕ) :
    AllAsked xs (xs.modify t MonitorTask.cancel) :=
  Pointwise.modify (R := MonitorTask.Asked) (fun _ => Or.inl rfl) (fun _ => Or.inr rfl) xs t

theorem aged {xs ys : List (MonitorTask M)} (h : AllAsked xs ys) : Aged xs ys :=
  Pointwise.mono MonitorTask.Asked.later h

theorem before {xs ys : List (MonitorTask M)} (h : AllAsked xs ys) {t : ℕ} {y : MonitorTask M}
    (hy : ys[t]? = some y) : ∃ x, xs[t]? = some x ∧ x.Asked y :=
  Pointwise.before h hy

theorem outcome {xs ys : List (MonitorTask M)} (h : AllAsked xs ys) (t : ℕ) :
    (ys[t]?.bind fun y => y.at_.outcome) = xs[t]?.bind fun x => x.at_.outcome := by
  have hat := Pointwise.map_eq (f := fun x => x.at_) MonitorTask.Asked.at_ h t
  have hbind := congrArg (Option.bind · Monitoring.outcome) hat
  rwa [Option.bind_map, Option.bind_map] at hbind

theorem nil_iff {xs ys : List (MonitorTask M)} (h : AllAsked xs ys) : ys = [] ↔ xs = [] := by
  have h0 := h 0
  cases xs with
  | nil =>
    cases ys with
    | nil => exact Iff.rfl
    | cons y ys => cases h0
  | cons x xs =>
    cases ys with
    | nil => cases h0
    | cons y ys => exact iff_of_false nofun nofun

end AllAsked

namespace AdapterMonitor

theorem outcome_of_get {s : AdapterMonitor M} {t : ℕ} {x : MonitorTask M}
    (hx : s.monitors[t]? = some x) : s.outcome t = x.at_.outcome := by
  rw [outcome, hx]
  rfl

/-- A request to cancel the updates worker would reach the worker itself. -/
def Reached (s : AdapterMonitor M) : Prop :=
  s.updatesWorker ≠ .looping ∧ ∀ t, s.updatesWorker.Awaits t → (s.outcome t).isSome

/-- Nothing but requests to cancel tasks and the updates worker. -/
inductive Asks (s : AdapterMonitor M) : AdapterMonitor M → Prop
  | mk {ms : List (MonitorTask M)} {b : Bool} (hms : AllAsked s.monitors ms)
    (hb : b = true → s.updatesCancelling = true ∨ s.Reached) :
    Asks s { s with monitors := ms, updatesCancelling := b }

namespace Asks

theorem trans {s t u : AdapterMonitor M} (h : Asks s t) (h' : Asks t u) : Asks s u := by
  obtain @⟨ms, b, hms, hb⟩ := h
  obtain ⟨hms', hb'⟩ := h'
  refine .mk (hms.trans hms') fun hc => ?_
  rcases hb' hc with hc | hreached
  · exact hb hc
  · refine Or.inr ⟨hreached.1, fun v hawait => ?_⟩
    have hsome : (ms[v]?.bind fun x => x.at_.outcome).isSome := hreached.2 v hawait
    rwa [hms.outcome v] at hsome

theorem cancelTask (s : AdapterMonitor M) (t : ℕ) : Asks s (s.cancelTask t) :=
  .mk (.modify s.monitors t) Or.inl

theorem cancelTasks (s : AdapterMonitor M) (ts : List ℕ) : Asks s (s.cancelTasks ts) := by
  induction ts generalizing s with
  | nil => exact .mk (.refl _) Or.inl
  | cons t ts ih => exact (Asks.cancelTask s t).trans (ih _)

/-- `worker_task.cancel()` asks the worker itself only where it awaits nothing unfinished. -/
theorem cancelUpdates {s : AdapterMonitor M} (hw : s.updatesWorker ≠ .looping) :
    Asks s s.cancelUpdates := by
  unfold AdapterMonitor.cancelUpdates
  split
  next => exact .mk (.refl _) Or.inl
  next t m config hwt =>
    split
    next hended =>
      refine .mk (.refl _) fun _ => Or.inr ⟨hw, fun u hawait => ?_⟩
      obtain ⟨m', config', hw'⟩ := hawait
      obtain ⟨rfl, -, -⟩ := UpdatesWorker.reloading.inj (hwt.symm.trans hw')
      exact hended
    next => exact .cancelTask s t
  next hnot =>
    exact .mk (.refl _) fun _ => Or.inr ⟨hw, fun t ⟨m, config, hwt⟩ => absurd hwt (hnot t m config)⟩

end Asks

/-! ## What one event can do -/

/-- No task went on and nothing was put on `status_queue`. -/
structure Still (s s' : AdapterMonitor M) : Prop where
  tasks : s'.tasks = s.tasks
  monitors : AllAsked s.monitors s'.monitors
  updatesWorker : s'.updatesWorker = s.updatesWorker
  puts : s'.statusQueue.puts = s.statusQueue.puts
  run : s'.run = .initialising → s.run = .initialising
  asks : s'.updatesCancelling = true → s.updatesCancelling = true ∨ s.Reached

namespace Still

theorem of_eq {s s' : AdapterMonitor M} (ht : s'.tasks = s.tasks) (hm : s'.monitors = s.monitors)
    (hw : s'.updatesWorker = s.updatesWorker) (hq : s'.statusQueue.puts = s.statusQueue.puts)
    (hr : s'.run = .initialising → s.run = .initialising)
    (hc : s'.updatesCancelling = s.updatesCancelling) : Still s s' :=
  ⟨ht, hm ▸ .refl _, hw, hq, hr, fun h => Or.inl (hc ▸ h)⟩

theorem of_asks {s s' : AdapterMonitor M} (h : Asks s s') {r : Run}
    (hr : r = .initialising → s.run = .initialising) : Still s { s' with run := r } := by
  obtain ⟨hms, hb⟩ := h
  exact ⟨rfl, hms, rfl, rfl, hr, hb⟩

theorem kept {s s' : AdapterMonitor M} (h : Still s s') : Kept s s' :=
  ⟨h.tasks, h.monitors.aged, h.updatesWorker, h.run⟩

theorem cancelStatus (s : AdapterMonitor M) : Still s s.cancelStatus := by
  obtain ⟨b, heq⟩ := cancelStatus_eq s
  rw [heq]
  exact .of_eq rfl rfl rfl rfl id rfl

theorem closeStatus (s : AdapterMonitor M) : Still s s.closeStatus := by
  unfold AdapterMonitor.closeStatus
  split
  · exact .of_eq rfl rfl rfl rfl nofun rfl
  · have h := Still.cancelStatus s
    exact ⟨h.tasks, h.monitors, h.updatesWorker, h.puts, nofun, h.asks⟩

theorem joinStatus (s : AdapterMonitor M) : Still s s.joinStatus := by
  unfold AdapterMonitor.joinStatus
  split
  · exact .closeStatus s
  · exact .of_eq rfl rfl rfl rfl nofun rfl

theorem stopChildren {s : AdapterMonitor M} (hw : s.updatesWorker ≠ .looping) :
    Still s s.stopChildren :=
  .of_asks ((Asks.cancelUpdates hw).trans (.cancelTasks _ _)) nofun

theorem cancelRun {s : AdapterMonitor M} (hw : s.updatesWorker ≠ .looping) :
    Still s s.cancelRun := by
  unfold AdapterMonitor.cancelRun
  split
  · exact .of_eq rfl rfl rfl rfl id rfl
  · next children _ _ =>
    split
    · exact .of_eq rfl rfl rfl rfl id rfl
    · have hw' : (s.cancelTasks children).updatesWorker ≠ .looping :=
        (kept_cancelTasks s children).updatesWorker.symm ▸ hw
      exact .of_asks ((Asks.cancelTasks s children).trans (.cancelUpdates hw')) nofun
  · split
    · exact .of_eq rfl rfl rfl rfl id rfl
    · exact .cancelStatus s
  · exact .of_eq rfl rfl rfl rfl id rfl

theorem statusNext (s : AdapterMonitor M) : Still s s.statusNext := by
  rw [AdapterMonitor.statusNext]
  split
  · exact .of_eq rfl rfl rfl rfl id rfl
  · next hget => exact .of_eq rfl rfl rfl (Queue.get?_eq_some hget).1 id rfl

theorem statusWorkerStep {s s' : AdapterMonitor M} {committed : Bool}
    (h : s.statusWorkerStep committed = some s') : Still s s' := by
  obtain _ | _ | _ := statusWorkerStep_effect h
  · exact .statusNext s
  · have hnext := Still.statusNext { s with statusQueue := s.statusQueue.taskDone }
    exact ⟨hnext.tasks, hnext.monitors, hnext.updatesWorker, hnext.puts, hnext.run, hnext.asks⟩
  · exact .of_eq rfl rfl rfl rfl id rfl

end Still

/-- What one event can do: create the workers, let one task or its process go on, let
the updates worker go on, or none of these. -/
inductive Change [DecidableEq M] (s : AdapterMonitor M) : Event M → AdapterMonitor M → Prop
  | created {o : Outcome} (hrun : s.run = .initialising) : Change s (.run o) { s with
      statusWorker := .start, updatesWorker := .start, run := .supervising }
  | still {e : Event M} {s' : AdapterMonitor M} (h : Still s s') : Change s e s'
  | runs {t : ℕ} {r : Reply} {x y : MonitorTask M} {out : List (StatusItem M)}
    (hx : s.monitors[t]? = some x) (h : x.monitorMachine r = some (y, out)) :
    Change s (.monitor t r) ((s.setTask t y).putStatus out)
  | moves {e : Event M} {t : ℕ} {x y : MonitorTask M} (hx : s.monitors[t]? = some x)
    (h : x.Moves y) : Change s e (s.setTask t y)
  | updates {r : WorkerReply M} {s' : AdapterMonitor M} (h : s.updatesWorkerStep r = some s') :
    Change s (.updates r) s'

/-- The process of a task is forked or exits, and nothing is put. -/
theorem moves_of_advance {s s' : AdapterMonitor M} {t : ℕ}
    {f : MonitorTask M → Option (MonitorTask M)}
    (hf : ∀ x y : MonitorTask M, f x = some y → x.Moves y)
    (h : s.advance t (fun x => (f x).map fun x => (x, [])) = some s') :
    ∃ x y, s.monitors[t]? = some x ∧ x.Moves y ∧ s' = s.setTask t y := by
  obtain ⟨x, y, out, hx, hy, rfl⟩ := exists_of_advance h
  obtain ⟨z, hz, heq⟩ := Option.map_eq_some_iff.mp hy
  obtain ⟨rfl, rfl⟩ := Prod.mk.inj heq
  exact ⟨x, z, hx, hf x z hz, by rw [putStatus, Queue.put_nil]⟩

section
variable [DecidableEq M]

theorem step_change {s s' : AdapterMonitor M} {e : Event M} (h : s.step e = some s') :
    Change s e s' := by
  obtain ⟨r, rfl, hupd⟩ | ⟨-, hw, hsusp⟩ := step_cases h
  · exact .updates hupd
  cases e with
  | notify m payload => exact Option.some.inj hsusp ▸ .still (.of_eq rfl rfl rfl rfl id rfl)
  | monitor t r =>
    obtain ⟨x, y, out, hx, hy, rfl⟩ := exists_of_advance hsusp
    exact .runs hx hy
  | fork t =>
    obtain ⟨x, y, hx, hxy, rfl⟩ := moves_of_advance (fun _ _ => .forks) hsusp
    exact .moves hx hxy
  | exit t returncode =>
    obtain ⟨x, y, hx, hxy, rfl⟩ := moves_of_advance (fun _ _ => .exits) hsusp
    exact .moves hx hxy
  | updates r => exact .updates hsusp
  | status committed => exact .still (.statusWorkerStep hsusp)
  | run o =>
    obtain hrun | @⟨b, -⟩ | - | - | - := runStep_effect hsusp
    · exact .created hrun
    · have hstop := Still.stopChildren (s := { s with runCancelling := b }) hw
      exact .still ⟨hstop.tasks, hstop.monitors, hstop.updatesWorker, hstop.puts, nofun,
        hstop.asks⟩
    · exact .still (.joinStatus s)
    · exact .still (.closeStatus s)
    · exact .still (.of_eq rfl rfl rfl rfl nofun rfl)
  | cancel => exact Option.some.inj hsusp ▸ .still (.cancelRun hw)

end

/-! ## Every unfinished task is held -/

/-- An updates worker on its way out has left no unfinished task behind. -/
structure Held (s : AdapterMonitor M) : Prop where
  asked : s.updatesCancelling = true → s.Reached
  stopping : s.updatesWorker.Stopping → ∀ (t : ℕ) (x : MonitorTask M), s.monitors[t]? = some x →
    x.at_.outcome = none → s.tasks x.machineId = some t

theorem held_init : Held (init : AdapterMonitor M) :=
  ⟨fun h => absurd h Bool.false_ne_true, fun h => absurd h id⟩

/-- **Every unfinished task** is in the map, or the updates worker awaits it. -/
theorem Held.holder {s : AdapterMonitor M} (h : s.Held) (howned : s.Owned) {t : ℕ}
    {x : MonitorTask M} (hx : s.monitors[t]? = some x) (hnone : x.at_.outcome = none) :
    s.tasks x.machineId = some t ∨ s.updatesWorker.Awaits t := by
  rcases howned.owner t x hx (Or.inl hnone) with hmap | hawait | hstop
  · exact Or.inl hmap
  · exact Or.inr hawait
  · exact Or.inl (h.stopping hstop t x hx hnone)

/-- A task that has ended has ended later. -/
theorem Kept.outcome {s s' : AdapterMonitor M} (h : Kept s s') {t : ℕ} {o : Outcome}
    (ho : s.outcome t = some o) : s'.outcome t = some o := by
  obtain ⟨x, hx, hxo⟩ := Option.bind_eq_some_iff.mp ho
  obtain ⟨y, hy, hlater⟩ := h.monitors.after hx
  exact (outcome_of_get hy).trans (hlater.outcome o hxo)

theorem Kept.reached {s s' : AdapterMonitor M} (h : Kept s s') (hs : s.Reached) : s'.Reached := by
  refine ⟨h.updatesWorker.symm ▸ hs.1, fun t hawait => ?_⟩
  obtain ⟨o, ho⟩ := Option.isSome_iff_exists.mp (hs.2 t (h.updatesWorker ▸ hawait))
  exact Option.isSome_iff_exists.mpr ⟨o, h.outcome ho⟩

/-- Tasks got older, and a new request is one that reaches the worker. -/
theorem Held.kept {s s' : AdapterMonitor M} (h : s.Held) (hk : Kept s s')
    (hask : s'.updatesCancelling = true → s.updatesCancelling = true ∨ s.Reached) : s'.Held where
  asked hc := hk.reached ((hask hc).elim h.asked id)
  stopping hw t y hy hnone := by
    obtain ⟨x, hx, hlater⟩ := hk.monitors.before hy
    rw [hk.tasks, hlater.machineId]
    refine h.stopping (hk.updatesWorker ▸ hw) t x hx ?_
    cases hxo : x.at_.outcome with
    | none => rfl
    | some o => exact absurd ((hlater.outcome o hxo).symm.trans hnone) (Option.some_ne_none o)

/-- The updates worker goes on from an `await task` only when the task has ended. -/
theorem Held.awaited_ended [DecidableEq M] {s s' : AdapterMonitor M} (h : s.Held)
    {r : WorkerReply M} (hs : s.updatesWorkerStep r = some s') {t : ℕ}
    (hawait : s.updatesWorker.Awaits t) : (s.outcome t).isSome := by
  unfold updatesWorkerStep at hs
  split at hs
  next hc => exact (h.asked hc).2 t hawait
  next =>
    obtain ⟨m, config, hw⟩ := hawait
    simp only [updatesResumed, hw] at hs
    cases r with
    | ok =>
      obtain ⟨o, ho, -⟩ := Option.map_eq_some_iff.mp hs
      exact Option.isSome_iff_exists.mpr ⟨o, ho⟩
    | rows => exact absurd hs.symm (Option.some_ne_none _)
    | error => exact absurd hs.symm (Option.some_ne_none _)

/-- Where the task it awaits has ended, the updates worker can leave its loop. -/
theorem Held.leave {s s' : AdapterMonitor M} (h : s.Held) (howned : s.Owned)
    (hended : ∀ t, s.updatesWorker.Awaits t → (s.outcome t).isSome)
    (ht : s'.tasks = s.tasks) (hm : s'.monitors = s.monitors) (hw : s'.updatesWorker.Stopping) :
    s'.Held where
  asked _ := by
    refine ⟨fun hlooping => ?_, fun t hawait => absurd hawait (hw.not_awaits t)⟩
    rw [hlooping] at hw
    exact hw
  stopping _ t x hx hnone := by
    rw [hm] at hx
    rcases h.holder howned hx hnone with hmap | hawait
    · exact ht ▸ hmap
    · have hsome := hended t hawait
      rw [outcome_of_get hx, hnone] at hsome
      exact absurd hsome Bool.false_ne_true

/-- In its loop or awaiting a task, with no request to cancel. -/
theorem held_of_alive {s : AdapterMonitor M} (hc : s.updatesCancelling = false)
    (hw : ¬ s.updatesWorker.Stopping) : s.Held :=
  ⟨fun hc' => absurd (hc.symm.trans hc') Bool.false_ne_true, fun hstop => absurd hstop hw⟩

section
variable [DecidableEq M]

theorem Held.taskEnded {s : AdapterMonitor M} (h : s.Held) (howned : s.Owned)
    (hc : s.updatesCancelling = false) {t : ℕ} {m : M} {config : Option Config} {o : Outcome}
    (hw : s.updatesWorker = .reloading t m config) (ho : s.outcome t = some o) :
    (s.taskEnded m config o).Held := by
  have hended (u : ℕ) (hawait : s.updatesWorker.Awaits u) : (s.outcome u).isSome := by
    obtain ⟨m', config', hw'⟩ := hawait
    obtain ⟨rfl, -, -⟩ := UpdatesWorker.reloading.inj (hw.symm.trans hw')
    exact Option.isSome_iff_exists.mpr ⟨o, ho⟩
  cases o with
  | returned => cases config <;> exact held_of_alive hc id
  | cancelled => exact h.leave howned hended rfl rfl trivial
  | raised => exact h.leave howned hended rfl rfl trivial

theorem Held.turn {s : AdapterMonitor M} (howned : s.Owned) (hw : s.updatesWorker = .looping)
    (hc : s.updatesCancelling = false) : s.turn.Held := by
  dsimp only [AdapterMonitor.turn]
  split
  next => exact held_of_alive hc id
  next m config queue _ =>
    have hq : Owned { s with updatesQueue := queue } :=
      howned.goOn rfl rfl rfl (hw ▸ trivial) (hw.symm ▸ trivial)
    split
    next t ht =>
      have hawait : Held (AdapterMonitor.awaitTask { s with updatesQueue := queue } t m config) :=
        held_of_alive hc id
      dsimp only [AdapterMonitor.reload]
      split
      next => exact hawait
      next o ho => exact hawait.taskEnded (hq.awaitTask hw ht config) hc rfl ho
    next ht =>
      split
      · exact held_of_alive hc (hw ▸ id)
      · cases config <;> exact held_of_alive hc id

theorem Held.updatesWorkerStep {s s' : AdapterMonitor M} (h : s.Held) (howned : s.Owned)
    {r : WorkerReply M} (hs : s.updatesWorkerStep r = some s') : s'.Held := by
  have hended (t : ℕ) := h.awaited_ended hs (t := t)
  obtain ⟨-, hw, -⟩ | ⟨hc, -, hw, -⟩ | ⟨hc, hw⟩ | ⟨hc, hw, ho⟩ := updatesWorkerStep_effect hs
  · exact h.leave howned hended rfl rfl hw
  · exact held_of_alive hc hw.not_stopping
  · exact .turn howned hw hc
  · exact h.taskEnded howned hc hw ho

/-- **One step leaves no unfinished task behind.** -/
theorem Held.step {s s' : AdapterMonitor M} {e : Event M} (h : s.Held) (howned : s.Owned)
    (hs : s.step e = some s') : s'.Held := by
  obtain hrun | hstill | ⟨hx, hy⟩ | ⟨hx, hxy⟩ | hupd := step_change hs
  · exact ⟨fun _ => ⟨nofun, fun t ⟨_, _, hwt⟩ => nomatch hwt⟩, fun hstop => absurd hstop id⟩
  · exact h.kept hstill.kept hstill.asks
  · exact h.kept ⟨rfl, .set hx (MonitorTask.monitorMachine_later hy), rfl, id⟩ Or.inl
  · exact h.kept ⟨rfl, .set hx hxy.later, rfl, id⟩ Or.inl
  · exact h.updatesWorkerStep howned hupd

/-- **After any run every unfinished task is held**: `self.tasks` has it under its
machine, or the updates worker awaits it. -/
theorem unfinished_held {es : List (Event M)} {s : AdapterMonitor M}
    (h : exec step init es = some s) {t : ℕ} {x : MonitorTask M} (hx : s.monitors[t]? = some x)
    (hnone : x.at_.outcome = none) :
    s.tasks x.machineId = some t ∨ s.updatesWorker.Awaits t := by
  have hinv := exec_invariant (P := fun s : AdapterMonitor M => s.Owned ∧ s.Held)
    (fun _ _ _ hs hstep => ⟨hs.1.step hstep, hs.2.step hs.1 hstep⟩) h ⟨owned_init, held_init⟩
  exact hinv.2.holder hinv.1 hx hnone

end

end AdapterMonitor

end FanucDriver.Monitor
