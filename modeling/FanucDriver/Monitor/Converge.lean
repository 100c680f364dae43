import FanucDriver.Monitor.Processes

/-!
# The supervisor converges on the last update

With `updates_queue` empty and the updates worker waiting for the next item, the map
`self.tasks` should hold a task for each machine whose last item carried a
configuration, created with it, and nothing else.

The worker does not always get that far. It awaits the task it has cancelled, and
the task ends normally only if its handler runs to the end: a task that was never
started has no handler, one that is spawning its first process has no `proc` to ask
for a return code, and one that has failed raises its failure again. Each of them
ends the worker (`burst_ends_worker`). `converges` says that these are all: in every
run where the worker takes no item for a machine whose task is in such a state
(`takesReady`), it stays in its loop and converges.
-/

namespace FanucDriver.Monitor

open FanucDriver.Lib

variable {M : Type}

/-! ## Tasks that a reload can end -/

/-- Where a cancellation leads into the handler and out of it. -/
def Monitoring.reloadable : Monitoring → Bool
  | .start | .spawning _ none _ | .done .raised => false
  | _ => true

/-- In the loop, or failed out of it. -/
def Monitoring.Looping : Monitoring → Prop
  | .start | .spawning .. | .communicating .. | .sleeping .. | .done .raised => True
  | _ => False

/-- In the loop, where `proc` is bound. -/
inductive Monitoring.Bound : Monitoring → Prop
  | spawning {i : ℕ} {returncode : Int} {child : Option Process} :
    Bound (.spawning i (some returncode) child)
  | communicating {i : ℕ} {proc : Process} : Bound (.communicating i proc)
  | sleeping {i : ℕ} {returncode : Int} : Bound (.sleeping i returncode)

namespace MonitorTask
/-- A task goes on by itself, its process is forked, or its process exits. -/
inductive Steps (x y : MonitorTask M) : Prop
  | runs {r : Reply} {out : List (StatusItem M)} (h : x.monitorMachine r = some (y, out))
  | forks (h : x.fork = some y)
  | exits {returncode : Int} (h : x.exit returncode = some y)

theorem Steps.later {x y : MonitorTask M} : x.Steps y → x.Later y
  | .runs h => monitorMachine_later h
  | .forks h => fork_later h
  | .exits h => exit_later h

theorem steps_of_map {f : MonitorTask M → Option (MonitorTask M)}
    (hf : ∀ x y : MonitorTask M, f x = some y → x.Steps y) {x y : MonitorTask M}
    {out : List (StatusItem M)} (h : (f x).map (fun x => (x, [])) = some (y, out)) :
    x.Steps y := by
  obtain ⟨z, hz, heq⟩ := Option.map_eq_some_iff.mp h
  obtain rfl := (Prod.mk.inj heq).1
  exact hf x z hz

/-- Never asked to cancel. -/
structure Free (x : MonitorTask M) : Prop where
  cancelling : x.cancelling = false
  at_ : x.at_.Looping

/-- Asked to cancel where its handler runs to the end. -/
inductive Winding : MonitorTask M → Prop
  | asked {m : M} {config : Config} {a : Monitoring} (h : a.Bound) : Winding ⟨m, config, a, true⟩
  | terminating {m : M} {config : Config} {proc : Process} :
    Winding ⟨m, config, .terminating proc, false⟩
  | done {m : M} {config : Config} {c : Bool} : Winding ⟨m, config, .done .returned, c⟩

theorem Free.process {x y : MonitorTask M} (h : x.Free)
    (hs : ∃ a, ProcessStep x.at_ a ∧ y = { x with at_ := a }) : y.Free := by
  obtain ⟨a, hstep, rfl⟩ := hs
  obtain ⟨hc, hat⟩ := h
  refine ⟨hc, ?_⟩
  generalize x.at_ = b at hstep hat
  cases hstep <;> exact hat

theorem Free.steps {x y : MonitorTask M} (h : x.Free) (hs : x.Steps y) : y.Free := by
  have hc := h.cancelling
  cases hs with
  | runs hrun =>
    rw [monitorMachine, hc, if_neg Bool.false_ne_true] at hrun
    unfold resumed at hrun
    split at hrun
    -- it is not in the handler
    case h_7 hat => exact absurd h.at_ (by rw [hat]; exact id)
    all_goals first
      | exact absurd hrun.symm (Option.some_ne_none _)
      | (obtain ⟨rfl, -⟩ := Prod.mk.inj (Option.some.inj hrun); exact ⟨hc, trivial⟩)
  | forks hfork => exact h.process (fork_step hfork)
  | exits hexit => exact h.process (exit_step hexit)

theorem Winding.process {x y : MonitorTask M} (h : x.Winding)
    (hs : ∃ a, ProcessStep x.at_ a ∧ y = { x with at_ := a }) : y.Winding := by
  obtain ⟨a, hstep, rfl⟩ := hs
  cases h with
  | asked ha =>
    cases ha with
    | spawning => cases hstep <;> exact .asked .spawning
    | communicating =>
      cases hstep
      exact .asked .communicating
    | sleeping => nomatch hstep
  | terminating =>
    cases hstep
    exact .terminating
  | done => nomatch hstep

theorem Winding.steps {x y : MonitorTask M} (h : x.Winding) (hs : x.Steps y) : y.Winding := by
  cases hs with
  | forks hfork => exact h.process (fork_step hfork)
  | exits hexit => exact h.process (exit_step hexit)
  | @runs r _ hrun =>
    cases h with
    | asked ha =>
      -- the `CancelledError` is thrown where `proc` is bound
      cases ha with
      | @communicating i proc =>
        cases proc with
        | running => exact (Prod.mk.inj (Option.some.inj hrun)).1 ▸ .terminating
        | exited => exact (Prod.mk.inj (Option.some.inj hrun)).1 ▸ .done
      | _ => exact (Prod.mk.inj (Option.some.inj hrun)).1 ▸ .done
    | @terminating m config proc =>
      -- it waits for the process
      cases proc <;> cases r <;> first
        | exact absurd hrun.symm (Option.some_ne_none _)
        | exact (Prod.mk.inj (Option.some.inj hrun)).1 ▸ .done
    | @done m config c =>
      cases c <;> cases r <;> exact absurd hrun.symm (Option.some_ne_none _)

/-- Cancelling a free task that can be reloaded winds it down. -/
theorem Free.cancel_winding {x : MonitorTask M} (h : x.Free) (hr : x.at_.reloadable = true) :
    x.cancel.Winding ∧ x.cancel.at_.outcome = none := by
  obtain ⟨m, config, a, c⟩ := x
  obtain ⟨-, ha⟩ := h
  match a, ha, hr with
  | .spawning _ (some _) _, _, _ => exact ⟨.asked .spawning, rfl⟩
  | .communicating _ _, _, _ => exact ⟨.asked .communicating, rfl⟩
  | .sleeping _ _, _, _ => exact ⟨.asked .sleeping, rfl⟩

/-- A task that winds down ends in its handler. -/
theorem Winding.outcome {x : MonitorTask M} (h : x.Winding) {o : Outcome}
    (ho : x.at_.outcome = some o) : o = .returned := by
  cases h with
  | asked ha => cases ha <;> exact absurd ho.symm (Option.some_ne_none o)
  | terminating => exact absurd ho.symm (Option.some_ne_none o)
  | done => exact (Option.some.inj ho).symm

end MonitorTask

/-! ## The condition -/

namespace AdapterMonitor

/-- The configurations that the tasks of the map were created with. -/
def configs (s : AdapterMonitor M) (m : M) : Option Config :=
  (s.tasks m).bind fun t => s.monitors[t]?.map (·.config)

/-- The next item is not for a machine whose task a reload cannot end. -/
def takesReady (s : AdapterMonitor M) : Bool :=
  match s.updatesQueue.get? with
  | none => true
  | some ((m, _), _) =>
    match s.tasks m with
    | none => true
    | some t => (s.monitors[t]?).all fun x => x.at_.reloadable

/-- The condition of a step: the updates worker takes no item too early. -/
def ReadyStep (s : AdapterMonitor M) (_ : Event M) : Prop :=
  s.updatesWorker = .looping → s.takesReady = true

instance [DecidableEq M] (s : AdapterMonitor M) (e : Event M) : Decidable (s.ReadyStep e) :=
  inferInstanceAs (Decidable (s.updatesWorker = .looping → s.takesReady = true))

/-- `run` is not cancelled, and the database does not fail under the updates worker. -/
def Event.undisturbing : Event M → Bool
  | .cancel | .updates .error => false
  | _ => true

theorem ne_error {r : WorkerReply M} (h : (Event.updates r).undisturbing = true) :
    r ≠ .error := by
  rintro rfl
  exact absurd h Bool.false_ne_true

/-! ## Nothing disturbs the workers -/

/-- No one has asked `run` or a worker to stop. -/
structure Undisturbed (s : AdapterMonitor M) : Prop where
  updates : s.updatesCancelling = false
  status : s.statusCancelling = false
  statusWorker : s.statusWorker.outcome ≠ some .cancelled
  run : s.runCancelling = false
  running : s.run = .initialising ∨ s.run = .supervising ∨ ∃ o, s.run = .done o

theorem undisturbed_init : Undisturbed (init : AdapterMonitor M) :=
  ⟨rfl, rfl, nofun, rfl, Or.inl rfl⟩

/-- `run` is as before, and no request has come. -/
theorem Undisturbed.of_eq {s s' : AdapterMonitor M} (h : s.Undisturbed)
    (hu : s'.updatesCancelling = s.updatesCancelling)
    (hs : s'.statusCancelling = s.statusCancelling) (hw : s'.statusWorker = s.statusWorker)
    (hc : s'.runCancelling = s.runCancelling) (hr : s'.run = s.run) : s'.Undisturbed :=
  ⟨hu ▸ h.updates, hs ▸ h.status, hw ▸ h.statusWorker, hc ▸ h.run, hr ▸ h.running⟩

theorem Undisturbed.statusNext {s : AdapterMonitor M} (h : s.Undisturbed) :
    s.statusNext.Undisturbed := by
  rw [AdapterMonitor.statusNext]
  split <;> exact ⟨h.updates, h.status, (Option.some_ne_none _).symm, h.run, h.running⟩

theorem Undisturbed.statusWorkerStep {s s' : AdapterMonitor M} (h : s.Undisturbed)
    {committed : Bool} (hs : s.statusWorkerStep committed = some s') : s'.Undisturbed := by
  unfold AdapterMonitor.statusWorkerStep at hs
  split at hs
  case h_4 => exact Option.some.inj hs ▸ h.statusNext
  case h_5 =>
    split at hs
    · exact absurd hs.symm (Option.some_ne_none _)
    · exact Option.some.inj hs ▸ h.statusNext
  case h_6 =>
    split at hs
    · have hdone : Undisturbed { s with statusQueue := s.statusQueue.taskDone } :=
        h.of_eq rfl rfl rfl rfl rfl
      exact Option.some.inj hs ▸ hdone.statusNext
    · exact Option.some.inj hs ▸ ⟨h.updates, h.status, nofun, h.run, h.running⟩
  all_goals first
    | exact absurd hs.symm (Option.some_ne_none _)
    | exact absurd (h.status.symm.trans ‹s.statusCancelling = true›) Bool.false_ne_true

/-- While nothing disturbs the workers, `run` creates them, or ends. -/
theorem Undisturbed.runStep {s s' : AdapterMonitor M} (h : s.Undisturbed)
    (halive : ¬ s.updatesWorker.Stopping) {o : Outcome} (hs : s.runStep o = some s') :
    (s.run = .initialising ∧ s' = { s with
      statusWorker := .start, updatesWorker := .start, run := .supervising }) ∨
    ∃ o, s' = { s with run := .done o } := by
  unfold AdapterMonitor.runStep at hs
  split at hs
  case h_4 hrun _ =>
    split at hs
    · exact Or.inl ⟨hrun, (Option.some.inj hs).symm⟩
    · exact Or.inr ⟨_, (Option.some.inj hs).symm⟩
  case h_5 =>
    split at hs
    next hgathered =>
      split at hs
      · -- neither worker was cancelled
        rcases List.mem_cons.mp (List.contains_iff_mem.mp hgathered) with hw | hw
        · cases hw' : s.updatesWorker <;> rw [hw'] at hw halive <;> first
            | exact absurd hw.symm (Option.some_ne_none _).symm
            | exact absurd trivial halive
        · exact absurd (List.mem_singleton.mp hw).symm h.statusWorker
      · exact Or.inr ⟨_, (Option.some.inj hs).symm⟩
    next => exact absurd hs.symm (Option.some_ne_none _)
  all_goals first
    | exact absurd hs.symm (Option.some_ne_none _)
    | exact absurd (h.run.symm.trans ‹s.runCancelling = true›) Bool.false_ne_true
    | next hrun _ => exact absurd h.running (by rw [hrun]; simp)

section
variable [DecidableEq M]

theorem Undisturbed.applyConfig {s : AdapterMonitor M} (h : s.Undisturbed) (m : M)
    (config : Option Config) : (s.applyConfig m config).Undisturbed := by
  cases config <;> exact h.of_eq rfl rfl rfl rfl rfl

theorem Undisturbed.taskEnded {s : AdapterMonitor M} (h : s.Undisturbed) (m : M)
    (config : Option Config) (o : Outcome) : (s.taskEnded m config o).Undisturbed := by
  cases o with
  | returned => cases config <;> exact h.of_eq rfl rfl rfl rfl rfl
  | _ => exact h.of_eq rfl rfl rfl rfl rfl

omit [DecidableEq M] in
theorem Undisturbed.advance {s s' : AdapterMonitor M} (h : s.Undisturbed) {t : ℕ}
    {f : MonitorTask M → Option (MonitorTask M × List (StatusItem M))}
    (hs : s.advance t f = some s') : s'.Undisturbed := by
  obtain ⟨x, y, out, -, -, rfl⟩ := exists_of_advance hs
  exact h.of_eq rfl rfl rfl rfl rfl

theorem Undisturbed.awaitTask {s : AdapterMonitor M} (h : s.Undisturbed) (t : ℕ) (m : M)
    (config : Option Config) : (s.awaitTask t m config).Undisturbed :=
  h.of_eq rfl rfl rfl rfl rfl

theorem Undisturbed.turn {s : AdapterMonitor M} (h : s.Undisturbed) : s.turn.Undisturbed := by
  dsimp only [AdapterMonitor.turn]
  split
  · exact h.of_eq rfl rfl rfl rfl rfl
  · next queue _ =>
    have hq : Undisturbed { s with updatesQueue := queue } := h.of_eq rfl rfl rfl rfl rfl
    split
    · dsimp only [AdapterMonitor.reload]
      split
      · exact hq.awaitTask _ _ _
      · exact (hq.awaitTask _ _ _).taskEnded _ _ _
    · split
      · exact hq
      · exact hq.applyConfig _ _

end

/-! ## Between two steps of the updates worker -/

/-- Tasks went on by themselves, and the updates worker is where it was. -/
structure Advanced (s s' : AdapterMonitor M) : Prop where
  tasks : s'.tasks = s.tasks
  updatesWorker : s'.updatesWorker = s.updatesWorker
  got : s'.updatesQueue.got = s.updatesQueue.got
  monitors : Aged s.monitors s'.monitors
  steps : ∀ (t : ℕ) (y : MonitorTask M), s'.monitors[t]? = some y →
    ∃ x, s.monitors[t]? = some x ∧ (x = y ∨ x.Steps y)

theorem Advanced.of_eq {s s' : AdapterMonitor M} (ht : s'.tasks = s.tasks)
    (hm : s'.monitors = s.monitors) (hw : s'.updatesWorker = s.updatesWorker)
    (hq : s'.updatesQueue.got = s.updatesQueue.got) : Advanced s s' :=
  ⟨ht, hw, hq, hm ▸ .refl _, fun _ y hy => ⟨y, hm ▸ hy, Or.inl rfl⟩⟩

/-- One task goes on. -/
theorem advanced_of_advance {s s' : AdapterMonitor M} {t : ℕ}
    {f : MonitorTask M → Option (MonitorTask M × List (StatusItem M))}
    (hf : ∀ x y out, f x = some (y, out) → x.Steps y) (hs : s.advance t f = some s') :
    Advanced s s' := by
  have hk := kept_advance (fun x y out hxy => (hf x y out hxy).later) hs
  obtain ⟨x, y, out, hx, hy, rfl⟩ := exists_of_advance hs
  refine ⟨rfl, rfl, rfl, hk.monitors, fun u z hz => ?_⟩
  obtain ⟨rfl, rfl⟩ | ⟨-, hz⟩ := getElem?_set_cases hz
  · exact ⟨x, hx, Or.inr (hf x z out hy)⟩
  · exact ⟨z, hz, Or.inl rfl⟩

/-- While nothing disturbs the workers, tasks go on, or `run` creates the workers. -/
theorem Undisturbed.between [DecidableEq M] {s s' : AdapterMonitor M} {e : Event M}
    (h : s.Undisturbed) (halive : ¬ s.updatesWorker.Stopping) (he : e.undisturbing = true)
    (hne : ∀ r, e ≠ .updates r) (hs : s.stepSuspended e = some s') :
    s'.Undisturbed ∧ (Advanced s s' ∨ s.run = .initialising ∧ s' = { s with
      statusWorker := .start, updatesWorker := .start, run := .supervising }) := by
  cases e with
  | notify m payload =>
    obtain rfl := Option.some.inj hs
    exact ⟨h.of_eq rfl rfl rfl rfl rfl, Or.inl (.of_eq rfl rfl rfl (Queue.put_got _ _))⟩
  | monitor t r =>
    exact ⟨h.advance hs, Or.inl (advanced_of_advance (fun _ _ _ hrun => .runs hrun) hs)⟩
  | fork t =>
    exact ⟨h.advance hs, Or.inl (advanced_of_advance
      (fun _ _ _ hf => MonitorTask.steps_of_map (fun _ _ => .forks) hf) hs)⟩
  | exit t returncode =>
    exact ⟨h.advance hs, Or.inl (advanced_of_advance
      (fun _ _ _ hf => MonitorTask.steps_of_map (fun _ _ => .exits) hf) hs)⟩
  | updates r => exact absurd rfl (hne r)
  | status committed =>
    refine ⟨h.statusWorkerStep hs, Or.inl ?_⟩
    obtain ⟨queue, w, b, rfl⟩ := statusWorkerStep_eq hs
    exact .of_eq rfl rfl rfl rfl
  | run o =>
    rcases h.runStep halive hs with ⟨hrun, rfl⟩ | ⟨o, rfl⟩
    · exact ⟨⟨h.updates, h.status, (Option.some_ne_none _).symm, h.run, Or.inr (Or.inl rfl)⟩,
        Or.inr ⟨hrun, rfl⟩⟩
    · exact ⟨⟨h.updates, h.status, h.statusWorker, h.run, Or.inr (Or.inr ⟨o, rfl⟩)⟩,
        Or.inl (.of_eq rfl rfl rfl rfl)⟩
  | cancel => exact absurd he Bool.false_ne_true

/-! ## The map follows the items taken -/

section
variable [DecidableEq M]

/-- The map holds what the items taken so far say, except for the machine whose task
the updates worker awaits. -/
structure Tracking (s : AdapterMonitor M) : Prop where
  alive : ¬ s.updatesWorker.Stopping
  free : ∀ (m : M) (t : ℕ) (x : MonitorTask M), s.tasks m = some t →
    s.monitors[t]? = some x → x.Free
  mapped : ∀ m : M, (∀ (t : ℕ) (config : Option Config),
    s.updatesWorker ≠ .reloading t m config) → s.configs m = lastConfig s.updatesQueue.got m
  winding : ∀ (t : ℕ) (m : M) (config : Option Config), s.updatesWorker = .reloading t m config →
    lastConfig s.updatesQueue.got m = config ∧
    ∀ x : MonitorTask M, s.monitors[t]? = some x → x.Winding

theorem tracking_init : Tracking (init : AdapterMonitor M) :=
  ⟨id, fun _ _ _ h => absurd h.symm (Option.some_ne_none _), fun _ _ => rfl, nofun⟩

omit [DecidableEq M] in
theorem configs_aged {s s' : AdapterMonitor M} (ht : s'.tasks = s.tasks)
    (ha : Aged s.monitors s'.monitors) (m : M) : s'.configs m = s.configs m := by
  rw [configs, configs, ht, funext fun t => ha.config t]

theorem Tracking.advanced {s s' : AdapterMonitor M} (h : s.Tracking) (ha : Advanced s s') :
    s'.Tracking where
  alive := ha.updatesWorker ▸ h.alive
  free m t y hm hy := by
    obtain ⟨x, hx, rfl | hstep⟩ := ha.steps t y hy
    · exact h.free m t x (ha.tasks ▸ hm) hx
    · exact (h.free m t x (ha.tasks ▸ hm) hx).steps hstep
  mapped m hne := by
    rw [configs_aged ha.tasks ha.monitors, ha.got]
    exact h.mapped m (ha.updatesWorker ▸ hne)
  winding t m config hreload := by
    obtain ⟨hlast, hwind⟩ := h.winding t m config (ha.updatesWorker ▸ hreload)
    refine ⟨ha.got ▸ hlast, fun y hy => ?_⟩
    obtain ⟨x, hx, rfl | hstep⟩ := ha.steps t y hy
    · exact hwind x hx
    · exact (hwind x hx).steps hstep

/-- `run` creates the updates worker. -/
theorem Tracking.created {s : AdapterMonitor M} (h : s.Tracking) (howned : s.Owned)
    (hrun : s.run = .initialising) : Tracking { s with
      statusWorker := .start, updatesWorker := .start, run := .supervising } := by
  refine ⟨id, h.free, fun m _ => h.mapped m fun t config heq => ?_, nofun⟩
  exact absurd (heq.symm.trans (howned.fresh hrun)) nofun

/-- From one calm state of the updates worker to another. -/
theorem Tracking.goOn {s s' : AdapterMonitor M} (h : s.Tracking) (ht : s'.tasks = s.tasks)
    (hm : s'.monitors = s.monitors) (hs : s.updatesWorker.Calm) (hw : s'.updatesWorker.Calm)
    (hq : s'.updatesQueue.got = s.updatesQueue.got) : s'.Tracking where
  alive := hw.not_stopping
  free m t x hmt hx := h.free m t x (ht ▸ hmt) (hm ▸ hx)
  mapped m _ := by
    rw [configs_aged ht (hm ▸ .refl _), hq]
    exact h.mapped m fun t config heq => hs.not_awaits t ⟨m, config, heq⟩
  winding t m config heq := absurd ⟨m, config, heq⟩ (hw.not_awaits t)

/-! ## One turn of the updates worker -/

/-- What the items taken say when one more is. -/
theorem lastConfig_got {q q' : Queue (M × Option Config)} {m : M} {config : Option Config}
    (h : q.get? = some ((m, config), q')) :
    lastConfig q'.got m = config ∧
    ∀ m', m' ≠ m → lastConfig q'.got m' = lastConfig q.got m' := by
  obtain ⟨-, hgot⟩ := Queue.get?_eq_some h
  rw [hgot]
  exact ⟨lastConfig_concat_self _ _ _, fun m' hne => lastConfig_concat_ne _ hne _⟩

/-- The end of the loop's body: a new task for the machine, or none. -/
theorem Tracking.applyConfig {s : AdapterMonitor M} (howned : s.Owned) {m : M}
    {config : Option Config} (hm : s.tasks m = none)
    (hfree : ∀ (m : M) (t : ℕ) (x : MonitorTask M), s.tasks m = some t →
      s.monitors[t]? = some x → x.Free)
    (hlast : lastConfig s.updatesQueue.got m = config)
    (hmapped : ∀ m', m' ≠ m → s.configs m' = lastConfig s.updatesQueue.got m') :
    (s.applyConfig m config).Tracking := by
  cases config with
  | none =>
    refine ⟨id, hfree, fun m' _ => ?_, nofun⟩
    rcases eq_or_ne m' m with rfl | hne
    · exact (congrArg (Option.bind · _) hm).trans hlast.symm
    · exact hmapped m' hne
  | some config =>
    have htasks (m' : M) : (s.applyConfig m (some config)).tasks m' =
        if m' = m then some s.monitors.length else s.tasks m' :=
      Function.update_apply s.tasks m _ m'
    have hmonitors : (s.applyConfig m (some config)).monitors =
        s.monitors ++ [MonitorTask.new m config] := rfl
    -- the tasks of the other machines stay where they are
    have hget {m' : M} {t : ℕ} (ht : s.tasks m' = some t) :
        (s.monitors ++ [MonitorTask.new m config])[t]? = s.monitors[t]? := by
      obtain ⟨x, hx, -⟩ := howned.keyed m' t ht
      exact List.getElem?_append_left (List.getElem?_eq_some_iff.mp hx).1
    refine ⟨id, fun m' t x ht hx => ?_, fun m' _ => ?_, nofun⟩
    · rw [htasks] at ht
      rw [hmonitors] at hx
      split at ht
      · obtain rfl := Option.some.inj ht
        rw [List.getElem?_concat_length] at hx
        exact Option.some.inj hx ▸ ⟨rfl, trivial⟩
      · exact hfree m' t x ht (hget ht ▸ hx)
    · rw [configs, htasks, hmonitors]
      split
      next heq =>
        rw [heq, Option.bind_some, List.getElem?_concat_length]
        exact hlast.symm
      next hne =>
        refine Eq.trans (Option.bind_congr fun t ht => ?_) (hmapped m' hne)
        rw [hget ht]

/-- The updates worker awaits a task that can be reloaded, and it has not ended. -/
theorem Tracking.awaitTask {s : AdapterMonitor M} (h : s.Tracking) (howned : s.Owned)
    (hcalm : s.updatesWorker.Calm) {q : Queue (M × Option Config)} {t : ℕ} {m : M}
    {config : Option Config} {x : MonitorTask M}
    (hq : s.updatesQueue.get? = some ((m, config), q)) (hm : s.tasks m = some t)
    (hx : s.monitors[t]? = some x) (hready : x.at_.reloadable = true) :
    (AdapterMonitor.awaitTask { s with updatesQueue := q } t m config).Tracking ∧
    (AdapterMonitor.awaitTask { s with updatesQueue := q } t m config).outcome t = none := by
  obtain ⟨hself, hother⟩ := lastConfig_got hq
  obtain ⟨hwinding, hnone⟩ := (h.free m t x hm hx).cancel_winding hready
  have hcancelled : (s.monitors.modify t MonitorTask.cancel)[t]? = some x.cancel := by
    rw [List.getElem?_modify, hx]
    exact congrArg some (if_pos rfl)
  refine ⟨⟨id, fun m' u y hm' hy => ?_, fun m' hne => ?_, fun u m' config' hreload => ?_⟩, ?_⟩
  · change Function.update s.tasks m none m' = some u at hm'
    change (s.monitors.modify t MonitorTask.cancel)[u]? = some y at hy
    rcases eq_or_ne m' m with rfl | hmm
    · rw [Function.update_self] at hm'
      exact absurd hm'.symm (Option.some_ne_none u)
    · rw [Function.update_of_ne hmm] at hm'
      -- another machine has another task
      have htu : t ≠ u := by
        rintro rfl
        obtain ⟨z, hz, rfl⟩ := howned.keyed m t hm
        exact hmm (howned.mapped_machineId hz hm')
      rw [List.getElem?_modify] at hy
      simp only [if_neg htu, Option.map_eq_map, Option.map_id'] at hy
      exact h.free m' u y hm' hy
  · have hmm : m' ≠ m := by
      rintro rfl
      exact hne t config rfl
    have hconfigs := (Aged.modify s.monitors t).config
    show (Function.update s.tasks m none m').bind _ = lastConfig q.got m'
    rw [Function.update_of_ne hmm, hother m' hmm,
      ← h.mapped m' fun u config heq => hcalm.not_awaits u ⟨m', config, heq⟩]
    exact Option.bind_congr fun u _ => hconfigs u
  · obtain ⟨rfl, rfl, rfl⟩ := UpdatesWorker.reloading.inj hreload
    refine ⟨hself, fun y hy => ?_⟩
    obtain rfl := Option.some.inj (hcancelled.symm.trans hy)
    exact hwinding
  · show ((s.monitors.modify t MonitorTask.cancel)[t]?.bind _) = none
    rw [hcancelled]
    exact hnone

/-- An awaited task has ended: in its handler. -/
theorem Tracking.taskEnded {s : AdapterMonitor M} (h : s.Tracking) (howned : s.Owned) {t : ℕ}
    {m : M} {config : Option Config} {o : Outcome}
    (hw : s.updatesWorker = .reloading t m config) (ho : s.outcome t = some o) :
    (s.taskEnded m config o).Tracking := by
  obtain ⟨hlast, hwinding⟩ := h.winding t m config hw
  obtain ⟨x, hx, hxo⟩ := Option.bind_eq_some_iff.mp ho
  obtain rfl := (hwinding x hx).outcome hxo
  obtain ⟨hm, -⟩ := howned.popped t m config hw
  have hmapped (m' : M) (hmm : m' ≠ m) : s.configs m' = lastConfig s.updatesQueue.got m' := by
    refine h.mapped m' fun u config' heq => hmm ?_
    exact (UpdatesWorker.reloading.inj (heq.symm.trans hw)).2.1
  dsimp only [AdapterMonitor.taskEnded]
  split
  · exact .applyConfig howned hm h.free hlast hmapped
  · exact .applyConfig (s := s.putStatus _) (howned.kept (.of_eq rfl rfl rfl id)) hm h.free hlast
      hmapped

/-- **One turn of the loop**, where it takes no item too early. -/
theorem Tracking.turn {s : AdapterMonitor M} (h : s.Tracking) (howned : s.Owned)
    (hw : s.updatesWorker = .looping) (hready : s.takesReady = true) : s.turn.Tracking := by
  have hcalm : s.updatesWorker.Calm := hw ▸ trivial
  dsimp only [AdapterMonitor.turn]
  unfold takesReady at hready
  split
  next => exact h.goOn rfl rfl hcalm trivial rfl
  next m config q hq =>
    obtain ⟨hself, hother⟩ := lastConfig_got hq
    rw [hq] at hready
    dsimp only at hready
    have hmapped (m' : M) (hmm : m' ≠ m) : s.configs m' = lastConfig q.got m' := by
      rw [hother m' hmm]
      exact h.mapped m' fun t config heq => hcalm.not_awaits t ⟨m', config, heq⟩
    split
    next t hm =>
      obtain ⟨x, hx, -⟩ := howned.keyed m t hm
      rw [hm] at hready
      dsimp only at hready
      rw [hx] at hready
      obtain ⟨hawait, hnone⟩ := h.awaitTask howned hcalm hq hm hx hready
      dsimp only [AdapterMonitor.reload]
      rw [hnone]
      exact hawait
    next hm =>
      split
      next hconfig =>
        -- nothing to remove
        obtain rfl := Option.isNone_iff_eq_none.mp hconfig
        refine ⟨h.alive, h.free, fun m' _ => ?_, fun t m' config heq => ?_⟩
        · rcases eq_or_ne m' m with rfl | hmm
          · exact (congrArg (Option.bind · _) hm).trans hself.symm
          · exact hmapped m' hmm
        · exact absurd ⟨m', config, heq⟩ (hcalm.not_awaits t)
      next =>
        exact .applyConfig (s := { s with updatesQueue := q })
          (howned.goOn rfl rfl rfl hcalm hcalm) hm h.free hself hmapped

/-! ## Runs -/

/-- The three invariants together. -/
structure Converging (s : AdapterMonitor M) : Prop where
  owned : s.Owned
  undisturbed : s.Undisturbed
  tracking : s.Tracking

theorem converging_init : Converging (init : AdapterMonitor M) :=
  ⟨owned_init, undisturbed_init, tracking_init⟩

theorem Converging.updatesWorkerStep {s s' : AdapterMonitor M} (h : s.Converging)
    {r : WorkerReply M} (hr : r ≠ .error)
    (hready : s.updatesWorker = .looping → s.takesReady = true)
    (hs : s.updatesWorkerStep r = some s') : s'.Undisturbed ∧ s'.Tracking := by
  obtain ⟨howned, hund, htrack⟩ := h
  obtain ⟨-, -, why⟩ | ⟨-, hcalm, hw, hq⟩ | ⟨-, hw⟩ | ⟨-, hw, ho⟩ := updatesWorkerStep_effect hs
  · rcases why with hcancel | herr | hstop
    · exact absurd (hund.updates.symm.trans hcancel) Bool.false_ne_true
    · exact absurd herr hr
    · exact absurd hstop htrack.alive
  · exact ⟨hund.of_eq rfl rfl rfl rfl rfl, htrack.goOn rfl rfl hcalm hw hq⟩
  · exact ⟨hund.turn, htrack.turn howned hw (hready hw)⟩
  · exact ⟨hund.taskEnded _ _ _, htrack.taskEnded howned hw ho⟩

theorem Converging.stepSuspended {s s' : AdapterMonitor M} {e : Event M} (h : s.Converging)
    (he : e.undisturbing = true) (hready : s.updatesWorker = .looping → s.takesReady = true)
    (hs : s.stepSuspended e = some s') : s'.Undisturbed ∧ s'.Tracking := by
  by_cases hupdates : ∃ r, e = .updates r
  · obtain ⟨r, rfl⟩ := hupdates
    exact h.updatesWorkerStep (ne_error he) hready hs
  · obtain ⟨hund, hadvanced | ⟨hrun, rfl⟩⟩ := h.undisturbed.between h.tracking.alive he
      (fun r hr => hupdates ⟨r, hr⟩) hs
    · exact ⟨hund, h.tracking.advanced hadvanced⟩
    · exact ⟨hund, h.tracking.created h.owned hrun⟩

theorem Converging.step {s s' : AdapterMonitor M} {e : Event M} (h : s.Converging)
    (he : e.undisturbing = true) (hready : s.ReadyStep e) (hs : s.step e = some s') :
    s'.Converging := by
  have howned := h.owned.step hs
  have hboth : s'.Undisturbed ∧ s'.Tracking := by
    unfold AdapterMonitor.step at hs
    split at hs
    next r hw => exact h.updatesWorkerStep (ne_error he) hready hs
    next => exact absurd hs.symm (Option.some_ne_none _)
    next => exact h.stepSuspended he hready hs
  exact ⟨howned, hboth.1, hboth.2⟩

/-- The map is what the last items say. -/
structure Converged (s : AdapterMonitor M) : Prop where
  /-- Its keys are the machines whose last item carried a configuration. -/
  keys : ∀ m, (s.tasks m).isSome = (lastConfig s.updatesQueue.puts m).isSome
  /-- A task of the map was created for its machine, with that configuration. -/
  created : ∀ m t, s.tasks m = some t → ∃ x, s.monitors[t]? = some x ∧ x.machineId = m ∧
    lastConfig s.updatesQueue.puts m = some x.config

theorem Converging.converged {s : AdapterMonitor M} (h : s.Converging)
    (hw : s.updatesWorker = .getting) (hempty : s.updatesQueue.items = []) : s.Converged := by
  have hconfigs (m : M) : s.configs m = lastConfig s.updatesQueue.puts m := by
    rw [← Queue.got_of_items_nil hempty]
    exact h.tracking.mapped m fun t config heq => absurd (hw.symm.trans heq) nofun
  have hcreated (m : M) (t : ℕ) (hm : s.tasks m = some t) : ∃ x, s.monitors[t]? = some x ∧
      x.machineId = m ∧ lastConfig s.updatesQueue.puts m = some x.config := by
    obtain ⟨x, hx, hxm⟩ := h.owned.keyed m t hm
    refine ⟨x, hx, hxm, ?_⟩
    rw [← hconfigs, configs, hm, Option.bind_some, hx]
    rfl
  refine ⟨fun m => ?_, hcreated⟩
  cases hm : s.tasks m with
  | none => rw [← hconfigs, configs, hm]; rfl
  | some t =>
    obtain ⟨x, -, -, hlast⟩ := hcreated m t hm
    rw [hlast]
    rfl

/-- **The supervisor converges**: in every run where the updates worker takes no item
for a machine whose task a reload cannot end, it does not leave its loop, and when it
waits on an empty queue the map is what the last items say. -/
theorem converges (es : List (Event M)) (s : AdapterMonitor M) (h : exec step init es = some s)
    (hes : ∀ e ∈ es, e.undisturbing = true) (hready : Along step ReadyStep init es) :
    ¬ s.updatesWorker.Stopping ∧
    (s.updatesWorker = .getting → s.updatesQueue.items = [] → s.Converged) := by
  have hs : s.Converging := exec_induct_mem (fun s e t hs he hready => Converging.step hs he hready)
    h hes hready converging_init
  exact ⟨hs.tracking.alive, hs.converged⟩

end

/-- The adapter of `reloading` exits, and its machine gets a new task. -/
def reloaded : List (Event String) :=
  reloading ++ [.exit 0 0, .monitor 0 .ok, .updates .ok, .updates .ok]

theorem converges_reloaded : ∃ s, exec step init reloaded = some s ∧
    s.tasks "lathe" = some 1 ∧ s.Converged :=
  ⟨_, rfl, rfl, (converges reloaded _ rfl (by decide) (by decide)).2 rfl rfl⟩

/-- The supervisor has started and waits for items. -/
def started : List (Event String) :=
  [.run .returned, .updates .ok, .updates .ok, .updates (.rows []), .updates .ok, .updates .ok]

/-- A machine is added and changed before its task has run. -/
def burst : List (Event String) :=
  started ++ [.notify "lathe" (some ⟨some "10.0.0.1", some 8193⟩),
    .notify "lathe" (some ⟨some "10.0.0.2", some 8193⟩), .updates .ok, .updates .ok, .updates .ok,
    .monitor 0 .ok, .updates .ok, .updates .ok, .updates .ok]

/-- It is changed while its first adapter is being spawned. -/
def spawning : List (Event String) :=
  started ++ [.notify "lathe" (some ⟨some "10.0.0.1", some 8193⟩), .updates .ok, .updates .ok,
    .updates .ok, .monitor 0 .ok, .notify "lathe" (some ⟨some "10.0.0.2", some 8193⟩),
    .updates .ok, .updates .ok, .monitor 0 .ok, .updates .ok, .updates .ok]

/-- It is changed after its adapter could not be spawned. -/
def failed : List (Event String) :=
  started ++ [.notify "lathe" (some ⟨some "10.0.0.1", some 8193⟩), .updates .ok, .updates .ok,
    .updates .ok, .monitor 0 .ok, .monitor 0 .error,
    .notify "lathe" (some ⟨some "10.0.0.2", some 8193⟩), .updates .ok, .updates .ok, .updates .ok]

/-- Each of them ends the updates worker. -/
theorem burst_ends_worker :
    (exec step init burst).map (·.updatesWorker) = some (.done .returned) ∧
    (exec step init spawning).map (·.updatesWorker) = some (.done .raised) ∧
    (exec step init failed).map (·.updatesWorker) = some (.done .raised) ∧
    ∀ e ∈ burst ++ spawning ++ failed, e.undisturbing = true :=
  ⟨rfl, rfl, rfl, by decide⟩

end AdapterMonitor

end FanucDriver.Monitor
