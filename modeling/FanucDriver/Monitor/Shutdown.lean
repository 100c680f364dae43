import FanucDriver.Monitor.Held

/-!
# How `run` ends

When `run` ends no adapter should be running and every status should have been
processed. Its handler sees to both: it cancels the tasks of the machines and waits for
them, and then for `status_queue`. What it relies on is said by `Orderly`, step by step:
`run` does not end anywhere but at the end of the handler unless it never had a task,
the handler's `gather` knows every task, and no task is cancelled a second time while it
waits for its adapter.

`clean_exit` says that in every run that keeps to this, `run` ends `Clean`. The proof
carries three invariants to that moment: the counters of `status_queue` (`Booked`),
that a task which has ended has left no process (`NoOrphan`), and that after the
`gather` everything has ended (`Closing`).
-/

namespace FanucDriver.Monitor

open FanucDriver.Lib

variable {M : Type}

/-- Before the handler of `run`. -/
def Run.Early : Run → Prop
  | .initialising | .supervising => True
  | _ => False

namespace AdapterMonitor

/-- No adapter is running, and every status was processed. -/
structure Clean (s : AdapterMonitor M) : Prop where
  stopped : ∀ x ∈ s.monitors, x.at_.live = false
  processed : s.statusQueue.finished = s.statusQueue.puts.length

/-! ## The condition -/

/-- The condition of a step of `run`. -/
def OrderlyRun (s : AdapterMonitor M) (o : Outcome) : Run → Prop
  -- no worker fails, unless there is no task yet
  | .supervising => s.runCancelling = true ∨ o ≠ .raised ∨ s.monitors = []
  -- everything it gathered returns, nothing was created since, and it is left alone
  | .stopping children cancelRequested => s.monitors = [] ∨
      (s.runCancelling = false ∧ o = .returned ∧ cancelRequested = false ∧
        ∀ t ∈ s.taskValues, t ∈ children)
  | .joining => s.runCancelling = true → s.statusQueue.joined = true
  | _ => True

/-- The condition of a step. -/
def Orderly (s : AdapterMonitor M) : Event M → Prop
  | .run o => s.OrderlyRun o s.run
  -- a task is not cancelled again while its handler waits for the adapter
  | .monitor t _ => ∀ x ∈ s.monitors[t]?, x.cancelling = true → x.at_ ≠ .terminating .running
  | _ => True

instance [DecidableEq M] (s : AdapterMonitor M) (o : Outcome) :
    (r : Run) → Decidable (s.OrderlyRun o r)
  | .supervising =>
    inferInstanceAs (Decidable (s.runCancelling = true ∨ o ≠ .raised ∨ s.monitors = []))
  | .stopping children cancelRequested => inferInstanceAs (Decidable (s.monitors = [] ∨
      (s.runCancelling = false ∧ o = .returned ∧ cancelRequested = false ∧
        ∀ t ∈ s.taskValues, t ∈ children)))
  | .joining => inferInstanceAs (Decidable (s.runCancelling = true → s.statusQueue.joined = true))
  | .initialising | .closing | .done _ => isTrue trivial

instance [DecidableEq M] (s : AdapterMonitor M) : (e : Event M) → Decidable (s.Orderly e)
  | .run o => inferInstanceAs (Decidable (s.OrderlyRun o s.run))
  | .monitor t _ => inferInstanceAs (Decidable (∀ x ∈ s.monitors[t]?,
      x.cancelling = true → x.at_ ≠ .terminating .running))
  | .notify .. | .fork _ | .exit .. | .updates _ | .status _ | .cancel => isTrue trivial

/-! ## What is put and what is processed -/

/-- A step that is not the status worker's. -/
structure Quiet (s s' : AdapterMonitor M) : Prop where
  statusWorker : s'.statusWorker = s.statusWorker
  queue : ∃ items, s'.statusQueue = s.statusQueue.put items
  /-- Where there is no task, nothing is put. -/
  silent : s'.monitors = [] → s.monitors = [] ∧ s'.statusQueue = s.statusQueue
  early : s'.run.Early → s.run.Early ∧ s'.statusCancelling = s.statusCancelling
  initialising : s'.run = .initialising →
    s.run = .initialising ∧ (s.monitors = [] → s'.monitors = [])

namespace Quiet

theorem trans {s t u : AdapterMonitor M} (h : Quiet s t) (h' : Quiet t u) : Quiet s u where
  statusWorker := h'.statusWorker.trans h.statusWorker
  queue := by
    obtain ⟨items, hitems⟩ := h.queue
    obtain ⟨items', hitems'⟩ := h'.queue
    exact ⟨items ++ items', by rw [hitems', hitems, Queue.put_put]⟩
  silent hu := by
    obtain ⟨ht, hq⟩ := h'.silent hu
    obtain ⟨hs, hq'⟩ := h.silent ht
    exact ⟨hs, hq.trans hq'⟩
  early hu := by
    obtain ⟨ht, hc⟩ := h'.early hu
    obtain ⟨hs, hc'⟩ := h.early ht
    exact ⟨hs, hc.trans hc'⟩
  initialising hu := by
    obtain ⟨ht, hm⟩ := h'.initialising hu
    obtain ⟨hs, hm'⟩ := h.initialising ht
    exact ⟨hs, hm ∘ hm'⟩

/-- Nothing is put. -/
theorem of_eq {s s' : AdapterMonitor M} (hm : s'.monitors = [] ↔ s.monitors = [])
    (hq : s'.statusQueue = s.statusQueue) (hw : s'.statusWorker = s.statusWorker)
    (hearly : s'.run.Early → s'.run = s.run ∧ s'.statusCancelling = s.statusCancelling) :
    Quiet s s' where
  statusWorker := hw
  queue := ⟨[], by rw [hq, Queue.put_nil]⟩
  silent hnil := ⟨hm.mp hnil, hq⟩
  early he := ⟨(hearly he).1 ▸ he, (hearly he).2⟩
  initialising hr := ⟨(hearly (hr ▸ trivial)).1 ▸ hr, hm.mpr⟩

/-- Something is put, and there is a task. -/
theorem of_task {s s' : AdapterMonitor M} {items : List (StatusItem M)} (hm : s'.monitors ≠ [])
    (hm' : s.monitors ≠ []) (hq : s'.statusQueue = s.statusQueue.put items)
    (hw : s'.statusWorker = s.statusWorker) (hr : s'.run = s.run)
    (hc : s'.statusCancelling = s.statusCancelling) : Quiet s s' where
  statusWorker := hw
  queue := ⟨items, hq⟩
  silent hnil := absurd hnil hm
  early he := ⟨hr ▸ he, hc⟩
  initialising hrun := ⟨hr ▸ hrun, fun hnil => absurd hnil hm'⟩

/-- Requests to cancel, and `run` goes on in its handler. -/
theorem of_asks {s s' : AdapterMonitor M} (h : Asks s s') {r : Run} (hr : ¬ r.Early) :
    Quiet s { s' with run := r } := by
  obtain ⟨hms, -⟩ := h
  exact .of_eq hms.nil_iff rfl rfl fun he => absurd he hr

theorem closeStatus (s : AdapterMonitor M) : Quiet s s.closeStatus := by
  unfold AdapterMonitor.closeStatus
  split
  · exact .of_eq Iff.rfl rfl rfl nofun
  · obtain ⟨b, heq⟩ := cancelStatus_eq s
    rw [heq]
    exact .of_eq Iff.rfl rfl rfl nofun

theorem joinStatus (s : AdapterMonitor M) : Quiet s s.joinStatus := by
  unfold AdapterMonitor.joinStatus
  split
  · exact .closeStatus s
  · exact .of_eq Iff.rfl rfl rfl nofun

theorem stopChildren {s : AdapterMonitor M} (hw : s.updatesWorker ≠ .looping) :
    Quiet s s.stopChildren :=
  .of_asks ((Asks.cancelUpdates hw).trans (.cancelTasks _ _)) id

theorem cancelRun {s : AdapterMonitor M} (hw : s.updatesWorker ≠ .looping) :
    Quiet s s.cancelRun := by
  unfold AdapterMonitor.cancelRun
  split
  · exact .of_eq Iff.rfl rfl rfl fun _ => ⟨rfl, rfl⟩
  · next children _ _ =>
    split
    · exact .of_eq Iff.rfl rfl rfl fun _ => ⟨rfl, rfl⟩
    · have hw' : (s.cancelTasks children).updatesWorker ≠ .looping :=
        (kept_cancelTasks s children).updatesWorker.symm ▸ hw
      exact .of_asks ((Asks.cancelTasks s children).trans (.cancelUpdates hw')) id
  · next hrun =>
    split
    · exact .of_eq Iff.rfl rfl rfl fun _ => ⟨rfl, rfl⟩
    · obtain ⟨b, heq⟩ := cancelStatus_eq s
      rw [heq]
      exact .of_eq Iff.rfl rfl rfl fun he => absurd (hrun ▸ he : Run.Early .closing) id
  · exact .of_eq Iff.rfl rfl rfl fun _ => ⟨rfl, rfl⟩

theorem advance {s s' : AdapterMonitor M} {t : ℕ}
    {f : MonitorTask M → Option (MonitorTask M × List (StatusItem M))}
    (h : s.advance t f = some s') : Quiet s s' := by
  obtain ⟨x, y, out, hx, -, rfl⟩ := exists_of_advance h
  have hne : s.monitors ≠ [] := List.ne_nil_of_mem (List.mem_of_getElem? hx)
  have hne' : s.monitors.set t y ≠ [] := fun hnil => hne ((List.set_eq_nil_iff t y).mp hnil)
  exact .of_task hne' hne rfl rfl rfl rfl

section
variable [DecidableEq M]

theorem applyConfig (s : AdapterMonitor M) (m : M) (config : Option Config)
    (hr : s.run ≠ .initialising) : Quiet s (s.applyConfig m config) := by
  cases config with
  | none => exact .of_eq Iff.rfl rfl rfl fun _ => ⟨rfl, rfl⟩
  | some config =>
    refine ⟨rfl, ⟨[], (Queue.put_nil _).symm⟩, fun hnil => ?_, fun he => ⟨he, rfl⟩,
      fun hrun => absurd hrun hr⟩
    exact absurd hnil (List.append_ne_nil_of_right_ne_nil _ nofun)

theorem taskEnded {s : AdapterMonitor M} (m : M) (config : Option Config) {t : ℕ} {o : Outcome}
    (ho : s.outcome t = some o) (hr : s.run ≠ .initialising) :
    Quiet s (s.taskEnded m config o) := by
  obtain ⟨x, hx, -⟩ := Option.bind_eq_some_iff.mp ho
  have hne : s.monitors ≠ [] := List.ne_nil_of_mem (List.mem_of_getElem? hx)
  cases o with
  | returned =>
    dsimp only [AdapterMonitor.taskEnded]
    split
    · exact .applyConfig s m config hr
    · have hput : Quiet s (s.putStatus [⟨m, .DESTROYED, none⟩]) := .of_task hne hne rfl rfl rfl rfl
      exact hput.trans (.applyConfig _ m config hr)
  | cancelled => exact .of_eq Iff.rfl rfl rfl fun _ => ⟨rfl, rfl⟩
  | raised => exact .of_eq Iff.rfl rfl rfl fun _ => ⟨rfl, rfl⟩

theorem turn {s : AdapterMonitor M} (howned : s.Owned) (hr : s.run ≠ .initialising) :
    Quiet s s.turn := by
  dsimp only [AdapterMonitor.turn]
  split
  next => exact .of_eq Iff.rfl rfl rfl fun _ => ⟨rfl, rfl⟩
  next m config queue _ =>
    have hq : Quiet s { s with updatesQueue := queue } :=
      .of_eq Iff.rfl rfl rfl fun _ => ⟨rfl, rfl⟩
    split
    next t ht =>
      obtain ⟨x, hx, -⟩ := howned.keyed m t ht
      have hne : s.monitors ≠ [] := List.ne_nil_of_mem (List.mem_of_getElem? hx)
      have hawait :
          Quiet s (AdapterMonitor.awaitTask { s with updatesQueue := queue } t m config) :=
        .of_task ((AllAsked.modify s.monitors t).nil_iff.not.mpr hne) hne rfl rfl rfl rfl
      dsimp only [AdapterMonitor.reload]
      split
      next => exact hawait
      next o ho => exact hawait.trans (.taskEnded m config ho hr)
    next =>
      split
      · exact hq
      · exact hq.trans (.applyConfig _ m config hr)

theorem updatesWorkerStep {s s' : AdapterMonitor M} (howned : s.Owned) {r : WorkerReply M}
    (h : s.updatesWorkerStep r = some s') : Quiet s s' := by
  have hr (hw : s.updatesWorker ≠ .uncreated) : s.run ≠ .initialising :=
    fun hrun => hw (howned.fresh hrun)
  obtain - | - | ⟨-, hw⟩ | ⟨-, hw, ho⟩ := updatesWorkerStep_effect h
  · exact .of_eq Iff.rfl rfl rfl fun _ => ⟨rfl, rfl⟩
  · exact .of_eq Iff.rfl rfl rfl fun _ => ⟨rfl, rfl⟩
  · exact .turn howned (hr (by rw [hw]; nofun))
  · exact .taskEnded _ _ ho (hr (by rw [hw]; nofun))

end

end Quiet

/-- One step: the workers are created, or it is not the status worker's, or it is. -/
inductive StatusStep [DecidableEq M] (s : AdapterMonitor M) : Event M → AdapterMonitor M → Prop
  | created {o : Outcome} (hrun : s.run = .initialising) : StatusStep s (.run o) { s with
      statusWorker := .start, updatesWorker := .start, run := .supervising }
  | quiet {e : Event M} {s' : AdapterMonitor M} (he : ∀ committed, e ≠ .status committed)
    (h : Quiet s s') : StatusStep s e s'
  | status {committed : Bool} {s' : AdapterMonitor M} (h : s.statusWorkerStep committed = some s') :
    StatusStep s (.status committed) s'

theorem statusStep_of_step [DecidableEq M] {s s' : AdapterMonitor M} {e : Event M}
    (howned : s.Owned) (h : s.step e = some s') : StatusStep s e s' := by
  obtain ⟨r, rfl, hupd⟩ | ⟨-, hw, hsusp⟩ := step_cases h
  · exact .quiet nofun (.updatesWorkerStep howned hupd)
  cases e with
  | notify m payload =>
    exact Option.some.inj hsusp ▸ .quiet nofun (.of_eq Iff.rfl rfl rfl fun _ => ⟨rfl, rfl⟩)
  | monitor t r => exact .quiet nofun (.advance hsusp)
  | fork t => exact .quiet nofun (.advance hsusp)
  | exit t returncode => exact .quiet nofun (.advance hsusp)
  | updates r => exact .quiet nofun (.updatesWorkerStep howned hsusp)
  | status committed => exact .status hsusp
  | run o =>
    obtain hrun | @⟨b, -⟩ | - | - | - := runStep_effect hsusp
    · exact .created hrun
    · have hb : Quiet s { s with runCancelling := b } :=
        .of_eq Iff.rfl rfl rfl fun _ => ⟨rfl, rfl⟩
      exact .quiet nofun (hb.trans (.stopChildren hw))
    · exact .quiet nofun (.joinStatus s)
    · exact .quiet nofun (.closeStatus s)
    · exact .quiet nofun (.of_eq Iff.rfl rfl rfl nofun)
  | cancel => exact Option.some.inj hsusp ▸ .quiet nofun (.cancelRun hw)

/-- The books of `status_queue`, and what there is not yet before the handler of `run`. -/
structure Booked (s : AdapterMonitor M) : Prop where
  finished : s.statusQueue.finished ≤ s.statusQueue.taken
  /-- An item that is being written is not reported done. -/
  writing : ∀ item, s.statusWorker = .writing item →
    s.statusQueue.finished < s.statusQueue.taken
  silent : s.monitors = [] → s.statusQueue.puts = []
  early : s.run.Early → s.statusCancelling = false ∧ s.statusWorker.outcome ≠ some .returned
  initialising : s.run = .initialising → s.monitors = []

theorem booked_init : Booked (init : AdapterMonitor M) :=
  ⟨Nat.le_refl 0, nofun, fun _ => rfl, fun _ => ⟨rfl, nofun⟩, fun _ => rfl⟩

theorem Booked.quiet {s s' : AdapterMonitor M} (h : s.Booked) (hq : Quiet s s') : s'.Booked := by
  obtain ⟨items, hitems⟩ := hq.queue
  refine ⟨?_, fun item hw => ?_, fun hnil => ?_, fun he => ?_, fun hrun => ?_⟩
  · rw [hitems]
    exact h.finished
  · rw [hitems]
    exact h.writing item (hq.statusWorker ▸ hw)
  · obtain ⟨hnil', hsame⟩ := hq.silent hnil
    rw [hsame]
    exact h.silent hnil'
  · obtain ⟨he', hc⟩ := hq.early he
    rw [hc, hq.statusWorker]
    exact h.early he'
  · obtain ⟨hrun', hm⟩ := hq.initialising hrun
    exact hm (h.initialising hrun')

/-- The status worker takes the next item once the one before is reported done. -/
theorem booked_statusNext {s : AdapterMonitor M}
    (hfinished : s.statusQueue.finished ≤ s.statusQueue.taken)
    (hsilent : s.monitors = [] → s.statusQueue.puts = [])
    (hearly : s.run.Early → s.statusCancelling = false)
    (hinit : s.run = .initialising → s.monitors = []) : s.statusNext.Booked := by
  unfold AdapterMonitor.statusNext
  split
  next => exact ⟨hfinished, nofun, hsilent, fun he => ⟨hearly he, nofun⟩, hinit⟩
  next item queue hget =>
    obtain ⟨htaken, hsame⟩ := Queue.get?_counts hget
    refine ⟨?_, fun _ _ => ?_, fun hnil => ?_, fun he => ⟨hearly he, nofun⟩, hinit⟩
    · show queue.finished ≤ queue.taken
      omega
    · show queue.finished < queue.taken
      omega
    · exact (Queue.get?_eq_some hget).1.trans (hsilent hnil)

theorem Booked.status {s s' : AdapterMonitor M} (h : s.Booked) (hs : StatusEffect s s') :
    s'.Booked := by
  obtain - | @⟨item, hw⟩ | ⟨ho, hb⟩ := hs
  · exact booked_statusNext h.finished h.silent (fun he => (h.early he).1) h.initialising
  · have hlt := h.writing item hw
    exact booked_statusNext (s := { s with statusQueue := s.statusQueue.taskDone })
      hlt h.silent (fun he => (h.early he).1) h.initialising
  · refine ⟨h.finished, nofun, h.silent, fun he => ?_, h.initialising⟩
    -- before the handler nobody cancels the status worker
    have hc := (h.early he).1
    refine ⟨Bool.eq_false_iff.mpr fun hb' => ?_, fun hret => ?_⟩
    · exact absurd (hc.symm.trans (hb hb')) Bool.false_ne_true
    · exact absurd (hc.symm.trans (ho (Option.some.inj hret))) Bool.false_ne_true

/-- Where there is no task, the queue is empty and everything was processed. -/
theorem Booked.clean_of_nil {s : AdapterMonitor M} (h : s.Booked) (hnil : s.monitors = []) :
    s.Clean := by
  refine ⟨fun x hx => ?_, ?_⟩
  · rw [hnil] at hx
    exact absurd hx List.not_mem_nil
  · have hfinished := h.finished
    have hbound := s.statusQueue.bound
    rw [h.silent hnil] at hbound ⊢
    rw [List.length_nil] at hbound ⊢
    omega

section
variable [DecidableEq M]

theorem Booked.step {s s' : AdapterMonitor M} {e : Event M} (h : s.Booked) (howned : s.Owned)
    (hs : s.step e = some s') : s'.Booked := by
  obtain hrun | ⟨-, hquiet⟩ | hstatus := statusStep_of_step howned hs
  · exact ⟨h.finished, nofun, h.silent,
      fun _ => ⟨(h.early (hrun ▸ trivial)).1, nofun⟩, nofun⟩
  · exact h.quiet hquiet
  · exact h.status (statusWorkerStep_effect hstatus)

end

end AdapterMonitor

/-! ## Tasks that have ended -/

namespace MonitorTask

/-- A task that ends leaves no process behind, unless it is cancelled again while its
handler waits for it. -/
theorem monitorMachine_live {x y : MonitorTask M} {r : Reply} {out : List (StatusItem M)}
    (h : x.monitorMachine r = some (y, out))
    (hx : x.cancelling = true → x.at_ ≠ .terminating .running)
    (ho : y.at_.outcome.isSome) : y.at_.live = false := by
  rw [monitorMachine] at h
  split at h
  next hc =>
    unfold cancelled at h
    split at h
    case h_7 proc hat =>
      obtain ⟨rfl, -⟩ := Prod.mk.inj (Option.some.inj h)
      cases proc with
      | running => exact absurd hat (hx hc)
      | exited => rfl
    all_goals first
      | exact absurd h.symm (Option.some_ne_none _)
      | (obtain ⟨rfl, -⟩ := Prod.mk.inj (Option.some.inj h); first
          | rfl
          | exact absurd ho Bool.false_ne_true)
  next =>
    unfold resumed at h
    split at h
    all_goals first
      | exact absurd h.symm (Option.some_ne_none _)
      | (obtain ⟨rfl, -⟩ := Prod.mk.inj (Option.some.inj h); first
          | rfl
          | exact absurd ho Bool.false_ne_true)

theorem Moves.live {x y : MonitorTask M} (h : x.Moves y) (ho : y.at_.outcome.isSome) :
    y.at_.live = false := by
  obtain ⟨a, hstep, rfl⟩ := h.step
  generalize x.at_ = b at hstep
  cases hstep with
  | abandoned => rfl
  | _ => exact absurd ho Bool.false_ne_true

end MonitorTask

namespace AdapterMonitor

/-- A task that has ended has left no process. -/
def NoOrphan (s : AdapterMonitor M) : Prop :=
  ∀ (t : ℕ) (x : MonitorTask M), s.monitors[t]? = some x → x.at_.outcome.isSome →
    x.at_.live = false

theorem noOrphan_init : NoOrphan (init : AdapterMonitor M) :=
  fun _ _ h => absurd h.symm (Option.some_ne_none _)

theorem NoOrphan.asked {s s' : AdapterMonitor M} (h : s.NoOrphan)
    (hm : AllAsked s.monitors s'.monitors) : s'.NoOrphan := by
  intro t y hy ho
  obtain ⟨x, hx, hxy⟩ := hm.before hy
  rw [hxy.at_] at ho ⊢
  exact h t x hx ho

theorem NoOrphan.set {s : AdapterMonitor M} (h : s.NoOrphan) {t : ℕ} {y : MonitorTask M}
    (hy : y.at_.outcome.isSome → y.at_.live = false) : (s.setTask t y).NoOrphan := by
  intro u z hz ho
  obtain ⟨-, rfl⟩ | ⟨-, hz⟩ := getElem?_set_cases hz
  · exact hy ho
  · exact h u z hz ho

section
variable [DecidableEq M]

theorem NoOrphan.applyConfig {s : AdapterMonitor M} (h : s.NoOrphan) (m : M)
    (config : Option Config) : (s.applyConfig m config).NoOrphan := by
  cases config with
  | none => exact h
  | some config =>
    intro t x hx ho
    change (s.monitors ++ [MonitorTask.new m config])[t]? = some x at hx
    rw [List.getElem?_append] at hx
    split at hx
    · exact h t x hx ho
    · rw [List.getElem?_singleton] at hx
      split at hx
      · -- the new task has not started
        obtain rfl := Option.some.inj hx
        exact absurd ho Bool.false_ne_true
      · exact absurd hx.symm (Option.some_ne_none _)

theorem NoOrphan.taskEnded {s : AdapterMonitor M} (h : s.NoOrphan) (m : M)
    (config : Option Config) (o : Outcome) : (s.taskEnded m config o).NoOrphan := by
  cases o with
  | returned =>
    dsimp only [AdapterMonitor.taskEnded]
    split
    · exact h.applyConfig m config
    · exact NoOrphan.applyConfig (s := s.putStatus _) h m config
  | cancelled => exact h
  | raised => exact h

theorem NoOrphan.turn {s : AdapterMonitor M} (h : s.NoOrphan) : s.turn.NoOrphan := by
  dsimp only [AdapterMonitor.turn]
  split
  next => exact h
  next m config queue _ =>
    split
    next t _ =>
      have hawait :
          (AdapterMonitor.awaitTask { s with updatesQueue := queue } t m config).NoOrphan :=
        h.asked (.modify s.monitors t)
      dsimp only [AdapterMonitor.reload]
      split
      · exact hawait
      · exact hawait.taskEnded m config _
    next =>
      split
      · exact h
      · exact NoOrphan.applyConfig (s := { s with updatesQueue := queue }) h m config

theorem NoOrphan.step {s s' : AdapterMonitor M} {e : Event M} (h : s.NoOrphan)
    (he : s.Orderly e) (hs : s.step e = some s') : s'.NoOrphan := by
  obtain - | hstill | @⟨t, r, x, y, out, hx, hy⟩ | ⟨-, hxy⟩ | hupd := step_change hs
  · exact h
  · exact h.asked hstill.monitors
  · have hset : (s.setTask t y).NoOrphan := h.set (MonitorTask.monitorMachine_live hy (he x hx))
    exact hset
  · exact h.set hxy.live
  · obtain - | - | - | - := updatesWorkerStep_effect hupd
    · exact h
    · exact h
    · exact h.turn
    · exact h.taskEnded _ _ _

end

/-! ## After the `gather` of the handler -/

/-- Everything that puts statuses has ended. -/
structure Settled (s : AdapterMonitor M) : Prop where
  monitors : ∀ (t : ℕ) (x : MonitorTask M), s.monitors[t]? = some x → x.at_.outcome.isSome
  updatesWorker : s.updatesWorker.outcome.isSome

theorem Settled.kept {s s' : AdapterMonitor M} (h : s.Settled) (hk : Kept s s') : s'.Settled where
  monitors t y hy := by
    obtain ⟨x, hx, hlater⟩ := hk.monitors.before hy
    obtain ⟨o, ho⟩ := Option.isSome_iff_exists.mp (h.monitors t x hx)
    exact Option.isSome_iff_exists.mpr ⟨o, hlater.outcome o ho⟩
  updatesWorker := hk.updatesWorker.symm ▸ h.updatesWorker

theorem Settled.clean {s : AdapterMonitor M} (h : s.Settled) (horphan : s.NoOrphan)
    (hjoined : s.statusQueue.joined = true) : s.Clean where
  stopped x hx := by
    obtain ⟨t, ht⟩ := List.getElem?_of_mem hx
    exact horphan t x ht (h.monitors t x ht)
  processed := Queue.joined_iff.mp hjoined

theorem mem_taskValues {s : AdapterMonitor M} {t : ℕ} {x : MonitorTask M}
    (hx : s.monitors[t]? = some x) (hm : s.tasks x.machineId = some t) : t ∈ s.taskValues := by
  refine List.mem_filter.mpr ⟨List.mem_range.mpr (List.getElem?_eq_some_iff.mp hx).1, ?_⟩
  rw [hx, Option.any_some, hm]
  exact beq_self_eq_true _

/-- **The `gather` of the handler came back and knew every task**: everything has ended. -/
theorem settled_of_gathered {s : AdapterMonitor M} (howned : s.Owned) (hheld : s.Held)
    {children : List ℕ} (hgathered : gathered (s.childOutcomes children) .returned = true)
    (hall : ∀ t ∈ s.taskValues, t ∈ children) : s.Settled := by
  have hreturned (o : Option Outcome) (ho : o ∈ s.childOutcomes children) : o = some .returned :=
    beq_iff_eq.mp (List.all_eq_true.mp hgathered o ho)
  have hworker : s.updatesWorker.outcome = some .returned :=
    hreturned _ (List.mem_append_right _ (List.mem_singleton_self _))
  refine ⟨fun t x hx => ?_, by rw [hworker]; rfl⟩
  cases hxo : x.at_.outcome with
  | some o => rfl
  | none =>
    -- it is held, by the map or by the updates worker
    rcases hheld.holder howned hx hxo with hm | ⟨m, config, hw⟩
    · have hchild : s.outcome t ∈ s.childOutcomes children :=
        List.mem_append_left _ (List.mem_map_of_mem (hall t (mem_taskValues hx hm)))
      have ho := hreturned _ hchild
      rw [outcome_of_get hx, hxo] at ho
      exact absurd ho.symm (Option.some_ne_none _)
    · rw [hw] at hworker
      exact absurd hworker.symm (Option.some_ne_none _)

/-- What `run` has reached once its `gather` has come back. -/
structure Closing (s : AdapterMonitor M) : Prop where
  joining : s.run = .joining → s.Settled
  closing : s.run = .closing → s.Settled ∧ s.statusQueue.joined = true

theorem closing_init : Closing (init : AdapterMonitor M) := ⟨nofun, nofun⟩

/-- `run` is not behind its `gather`. -/
theorem closing_of_ne {s : AdapterMonitor M} (hj : s.run ≠ .joining) (hc : s.run ≠ .closing) :
    s.Closing :=
  ⟨fun h => absurd h hj, fun h => absurd h hc⟩

/-- `run` and the queue are as before. -/
theorem Closing.kept {s s' : AdapterMonitor M} (h : s.Closing) (hk : Kept s s')
    (hr : s'.run = s.run) (hq : s.Settled → s.statusQueue.joined = true →
      s'.statusQueue.joined = true) : s'.Closing where
  joining hrun := (h.joining (hr ▸ hrun)).kept hk
  closing hrun := by
    obtain ⟨hsettled, hjoined⟩ := h.closing (hr ▸ hrun)
    exact ⟨hsettled.kept hk, hq hsettled hjoined⟩

/-- Where everything was processed, the status worker takes nothing. -/
theorem Booked.joined_status {s s' : AdapterMonitor M} (h : s.Booked) (hs : StatusEffect s s')
    (hjoined : s.statusQueue.joined = true) : s'.statusQueue.joined = true := by
  obtain - | @⟨item, hw⟩ | - := hs
  · rw [AdapterMonitor.statusNext, Queue.get?_of_joined h.finished hjoined]
    exact hjoined
  · -- the item it writes is not reported done
    have hlt := h.writing item hw
    have hbound := s.statusQueue.bound
    have hlength := Queue.joined_iff.mp hjoined
    omega
  · exact hjoined

/-- What holds in every state of a run that keeps to the condition. -/
structure Tidy (s : AdapterMonitor M) : Prop where
  owned : s.Owned
  held : s.Held
  booked : s.Booked
  noOrphan : s.NoOrphan
  closing : s.Closing

theorem tidy_init : Tidy (init : AdapterMonitor M) :=
  ⟨owned_init, held_init, booked_init, noOrphan_init, closing_init⟩

/-- `status_task.cancel()`, after which `run` waits for the status worker or ends. -/
theorem closeStatus_eq (s : AdapterMonitor M) :
    ∃ b r, s.closeStatus = { s with statusCancelling := b, run := r } ∧ r ≠ .joining := by
  unfold closeStatus
  split
  · exact ⟨s.statusCancelling, _, rfl, nofun⟩
  · obtain ⟨b, heq⟩ := cancelStatus_eq s
    rw [heq]
    exact ⟨b, _, rfl, nofun⟩

theorem closing_closeStatus {s : AdapterMonitor M} (h : s.Settled)
    (hjoined : s.statusQueue.joined = true) : s.closeStatus.Closing := by
  obtain ⟨b, r, heq, hne⟩ := closeStatus_eq s
  rw [heq]
  exact ⟨fun hr => absurd hr hne, fun _ => ⟨⟨h.monitors, h.updatesWorker⟩, hjoined⟩⟩

theorem closing_joinStatus {s : AdapterMonitor M} (h : s.Settled) : s.joinStatus.Closing := by
  unfold joinStatus
  split
  next hjoined => exact closing_closeStatus h hjoined
  next => exact ⟨fun _ => ⟨h.monitors, h.updatesWorker⟩, nofun⟩

/-- The `gather` of the handler came back in order. -/
theorem Tidy.settled {s : AdapterMonitor M} (h : s.Tidy) {o : Outcome} {children : List ℕ}
    (he : s.OrderlyRun o s.run) (hrun : s.run = .stopping children false)
    (hgathered : gathered (s.childOutcomes children) .returned = true) : s.Settled := by
  rw [hrun] at he
  refine settled_of_gathered h.owned h.held hgathered fun t ht => ?_
  rcases he with hnil | ⟨-, -, -, hall⟩
  · have hlt := List.mem_range.mp (List.mem_filter.mp ht).1
    rw [hnil] at hlt
    exact absurd hlt (Nat.not_lt_zero t)
  · exact hall t ht

theorem Tidy.closing_runStep {s s' : AdapterMonitor M} (h : s.Tidy) {o : Outcome}
    (he : s.OrderlyRun o s.run) (hs : s.runStep o = some s') : s'.Closing := by
  obtain - | - | ⟨hrun, hgathered⟩ | ⟨hrun, hjoined⟩ | - := runStep_effect hs
  · exact closing_of_ne nofun nofun
  · exact closing_of_ne nofun nofun
  · exact closing_joinStatus (h.settled he hrun hgathered)
  · exact closing_closeStatus (h.closing.joining hrun) hjoined
  · exact closing_of_ne nofun nofun

theorem Tidy.closing_cancelRun {s : AdapterMonitor M} (h : s.Tidy) : s.cancelRun.Closing := by
  have hsame {b c : Bool} : Closing { s with runCancelling := b, statusCancelling := c } :=
    h.closing.kept (.of_eq rfl rfl rfl id) rfl fun _ => id
  unfold cancelRun
  split
  · exact h.closing
  · next hrun =>
    split
    · exact hsame
    · exact closing_of_ne nofun nofun
  · split
    · exact hsame
    · obtain ⟨b, heq⟩ := cancelStatus_eq s
      rw [heq]
      exact hsame
  · exact hsame

section
variable [DecidableEq M]

/-- A step of the updates worker while `run` is behind its `gather` does not happen. -/
theorem Tidy.closing_updates {s s' : AdapterMonitor M} (h : s.Tidy) {r : WorkerReply M}
    (hs : s.updatesWorkerStep r = some s') : s'.Closing := by
  have hrun : s'.run = s.run := updatesWorkerStep_run hs
  have hnot (hsettled : s.Settled) : False := by
    have hended := hsettled.updatesWorker
    revert hs
    unfold updatesWorkerStep updatesCancelled updatesResumed
    cases hw : s.updatesWorker with
    | done o => split <;> exact fun hs => absurd hs.symm (Option.some_ne_none _)
    | _ => exact absurd (hw ▸ hended : Option.isSome none = true) Bool.false_ne_true
  exact ⟨fun hr => (hnot (h.closing.joining (hrun ▸ hr))).elim,
    fun hr => (hnot (h.closing.closing (hrun ▸ hr)).1).elim⟩

theorem Tidy.step {s s' : AdapterMonitor M} {e : Event M} (h : s.Tidy) (he : s.Orderly e)
    (hs : s.step e = some s') : s'.Tidy := by
  refine ⟨h.owned.step hs, h.held.step h.owned hs, h.booked.step h.owned hs,
    h.noOrphan.step he hs, ?_⟩
  obtain ⟨r, rfl, hupd⟩ | ⟨-, hw, hsusp⟩ := step_cases hs
  · exact h.closing_updates hupd
  cases e with
  | notify m payload =>
    exact Option.some.inj hsusp ▸ h.closing.kept (.of_eq rfl rfl rfl id) rfl fun _ => id
  | monitor t r =>
    have hk := kept_advance (fun _ _ _ => MonitorTask.monitorMachine_later) hsusp
    obtain ⟨x, y, out, hx, hy, rfl⟩ := exists_of_advance hsusp
    refine h.closing.kept hk rfl fun hsettled _ => ?_
    -- every task has ended
    have hended := hsettled.monitors t x hx
    rw [MonitorTask.monitorMachine_unfinished hy] at hended
    exact absurd hended Bool.false_ne_true
  | fork t =>
    obtain ⟨x, y, hx, hxy, rfl⟩ := moves_of_advance (fun _ _ => .forks) hsusp
    exact h.closing.kept ⟨rfl, .set hx hxy.later, rfl, id⟩ rfl fun _ => id
  | exit t returncode =>
    obtain ⟨x, y, hx, hxy, rfl⟩ := moves_of_advance (fun _ _ => .exits) hsusp
    exact h.closing.kept ⟨rfl, .set hx hxy.later, rfl, id⟩ rfl fun _ => id
  | updates r => exact h.closing_updates hsusp
  | status committed =>
    have heffect := statusWorkerStep_effect hsusp
    obtain ⟨queue, w, b, rfl⟩ := statusWorkerStep_eq hsusp
    exact h.closing.kept (.of_eq rfl rfl rfl id) rfl fun _ => h.booked.joined_status heffect
  | run o => exact h.closing_runStep he hsusp
  | cancel => exact Option.some.inj hsusp ▸ h.closing_cancelRun

/-! ## The end -/

omit [DecidableEq M] in
theorem cancelRun_run {s : AdapterMonitor M} {o : Outcome} (h : s.cancelRun.run = .done o) :
    s.run = .done o := by
  unfold cancelRun at h
  split at h
  next hrun => exact h
  next =>
    split at h
    · exact h
    · exact absurd h nofun
  next =>
    split at h
    · exact h
    · obtain ⟨b, heq⟩ := cancelStatus_eq s
      rw [heq] at h
      exact h
  next => exact h

omit [DecidableEq M] in
/-- `run` ends in a step of its own. -/
theorem Tidy.clean_runStep {s s' : AdapterMonitor M} (h : s.Tidy) {o o' : Outcome}
    (he : s.OrderlyRun o s.run) (hs : s.runStep o = some s') (hend : s'.run = .done o') :
    s'.Clean := by
  -- the last step puts nothing and starts no adapter
  have clean_closeStatus (hsettled : s.Settled) (hjoined : s.statusQueue.joined = true) :
      s.closeStatus.Clean := by
    obtain ⟨b, r, heq, -⟩ := closeStatus_eq s
    rw [heq]
    have hclean := hsettled.clean h.noOrphan hjoined
    exact ⟨hclean.stopped, hclean.processed⟩
  have clean_ends {b : Bool} {o' : Outcome} (hclean : s.Clean) :
      Clean { s with runCancelling := b, run := .done o' } := ⟨hclean.stopped, hclean.processed⟩
  obtain - | - | ⟨hrun, hgathered⟩ | ⟨hrun, hjoined⟩ | hends := runStep_effect hs
  · exact absurd hend nofun
  · exact absurd hend nofun
  · have hsettled := h.settled he hrun hgathered
    unfold joinStatus at hend ⊢
    split at hend
    next hjoined =>
      rw [if_pos hjoined]
      exact clean_closeStatus hsettled hjoined
    next => exact absurd hend nofun
  · exact clean_closeStatus (h.closing.joining hrun) hjoined
  · refine clean_ends ?_
    unfold Ends at hends
    split at hends
    next hrun => exact h.booked.clean_of_nil (h.booked.initialising hrun)
    next hrun =>
      obtain ⟨hsettled, hjoined⟩ := h.closing.closing hrun
      exact hsettled.clean h.noOrphan hjoined
    next hrun =>
      obtain ⟨hc, hne, hgathered⟩ := hends
      rw [hrun] at he
      rcases he with hc' | hne' | hnil
      · exact absurd (hc.symm.trans hc') Bool.false_ne_true
      · -- the status worker does not return before it is cancelled
        cases o with
        | returned =>
          have hret := List.all_eq_true.mp hgathered s.statusWorker.outcome
            (List.mem_cons_of_mem _ (List.mem_singleton_self _))
          exact absurd (beq_iff_eq.mp hret) (h.booked.early (hrun ▸ trivial)).2
        | raised => exact absurd rfl hne'
        | cancelled => exact absurd rfl hne
      · exact h.booked.clean_of_nil hnil
    next hrun =>
      rw [hrun] at he
      rcases he with hnil | ⟨hc, ho, hcr, -⟩
      · exact h.booked.clean_of_nil hnil
      · rcases hends with hc' | hne | hcr'
        · exact absurd (hc.symm.trans hc') Bool.false_ne_true
        · exact absurd ho hne
        · exact absurd (hcr.symm.trans hcr') Bool.false_ne_true
    next hrun =>
      rw [hrun] at he
      exact (h.closing.joining hrun).clean h.noOrphan (he hends)
    next => exact hends.elim

theorem Tidy.clean_end {s s' : AdapterMonitor M} {e : Event M} (h : s.Tidy) (he : s.Orderly e)
    (hs : s.step e = some s') {o : Outcome} (hrun : s.run ≠ .done o) (hend : s'.run = .done o) :
    s'.Clean := by
  obtain ⟨r, rfl, hupd⟩ | ⟨-, hw, hsusp⟩ := step_cases hs
  · exact absurd ((updatesWorkerStep_run hupd).symm.trans hend) hrun
  have advance_run {t : ℕ} {f : MonitorTask M → Option (MonitorTask M × List (StatusItem M))}
      (hadvance : s.advance t f = some s') : s.run = .done o := by
    obtain ⟨x, y, out, -, -, rfl⟩ := exists_of_advance hadvance
    exact hend
  cases e with
  | notify m payload =>
    obtain rfl := Option.some.inj hsusp
    exact absurd hend hrun
  | monitor t r => exact absurd (advance_run hsusp) hrun
  | fork t => exact absurd (advance_run hsusp) hrun
  | exit t returncode => exact absurd (advance_run hsusp) hrun
  | updates r => exact absurd ((updatesWorkerStep_run hsusp).symm.trans hend) hrun
  | status committed =>
    obtain ⟨queue, w, b, rfl⟩ := statusWorkerStep_eq hsusp
    exact absurd hend hrun
  | run o' => exact h.clean_runStep he hsusp hend
  | cancel =>
    obtain rfl := Option.some.inj hsusp
    exact absurd (cancelRun_run hend) hrun

/-- **A clean exit.** In every run whose steps keep to the condition, when `run` ends no
adapter is running and every status that was put was processed. -/
theorem clean_exit (es : List (Event M)) (e : Event M) (s s' : AdapterMonitor M) (o : Outcome)
    (h : exec step init es = some s) (horderly : Along step Orderly init es) (he : s.Orderly e)
    (hs : s.step e = some s') (hrun : s.run ≠ .done o) (hend : s'.run = .done o) : s'.Clean := by
  have htidy : s.Tidy := exec_induct_mem (Q := fun _ => True)
    (fun s e t hs _ he hstep => Tidy.step hs he hstep) h (fun _ _ => trivial) horderly tidy_init
  exact htidy.clean_end he hs hrun hend

end

/-- `run` is cancelled while an adapter is running: it waits for the adapter, and for
its statuses. -/
def closed : List (Event String) :=
  [.run .returned, .updates .ok, .updates .ok,
    .updates (.rows [("lathe", ⟨some "10.0.0.1", some 8193⟩)]), .updates .ok, .updates .ok,
    .updates .ok, .monitor 0 .ok, .fork 0, .monitor 0 .ok, .cancel, .run .cancelled,
    .monitor 0 .ok, .exit 0 (-15), .monitor 0 .ok, .updates .ok, .updates .ok, .updates .ok,
    .run .returned, .status true, .status true, .status true, .status true, .run .returned,
    .status true]

theorem clean_exit_closed : ∃ s s', exec step init closed = some s ∧
    s.step (.run .returned) = some s' ∧ s'.run = .done .returned ∧
    s'.statusQueue.puts.map (·.status) = [.STARTING, .STARTED, .SHUTDOWN] ∧ s'.Clean :=
  ⟨_, _, rfl, rfl, rfl, rfl,
    clean_exit closed (.run .returned) _ _ .returned rfl (by decide) (by decide) rfl nofun rfl⟩

/-- `run` is cancelled while an adapter is running and another is being spawned for the
first time: the second task has no `proc`, and its failure ends `run`. -/
def leaving : List (Event String) :=
  [.run .returned, .updates .ok, .updates .ok,
    .updates (.rows [("lathe", ⟨some "10.0.0.1", some 8193⟩),
      ("mill", ⟨some "10.0.0.2", some 8193⟩)]),
    .updates .ok, .updates .ok, .updates .ok, .updates .ok, .monitor 0 .ok, .fork 0,
    .monitor 0 .ok, .monitor 1 .ok, .cancel, .run .cancelled, .monitor 1 .ok]

/-- The transaction for a status fails while an adapter is running. -/
def failing : List (Event String) :=
  [.run .returned, .updates .ok, .updates .ok,
    .updates (.rows [("lathe", ⟨some "10.0.0.1", some 8193⟩)]), .updates .ok, .updates .ok,
    .updates .ok, .monitor 0 .ok, .fork 0, .monitor 0 .ok, .status true, .status false]

/-- `run` is cancelled while a reload waits for an adapter: the wait of its task is
cancelled too, and the adapter is no one's. -/
def disowned : List (Event String) :=
  reloading ++ [.cancel, .run .cancelled, .monitor 0 .ok, .updates .ok, .updates .ok,
    .updates .ok, .run .returned, .status true, .status true, .status true, .status true,
    .run .returned, .status true]

/-- Each of them ends `run`, and an adapter is running. -/
theorem exit_leaves_adapter :
    (∃ s s', exec step init leaving = some s ∧ s.step (.run .raised) = some s' ∧
      s.run = .stopping [0, 1] false ∧ s'.run = .done .raised ∧
      s'.liveProcesses "lathe" = 1 ∧ ¬ s'.Clean) ∧
    (∃ s s', exec step init failing = some s ∧ s.step (.run .raised) = some s' ∧
      s.run = .supervising ∧ s'.run = .done .raised ∧
      s'.liveProcesses "lathe" = 1 ∧ ¬ s'.Clean) ∧
    (∃ s s', exec step init disowned = some s ∧ s.step (.run .returned) = some s' ∧
      s.run = .closing ∧ s'.run = .done .returned ∧
      s'.liveProcesses "lathe" = 1 ∧ ¬ s'.Clean) :=
  ⟨⟨_, _, rfl, rfl, rfl, rfl, rfl, fun h => nomatch h.stopped _ List.mem_cons_self⟩,
    ⟨_, _, rfl, rfl, rfl, rfl, rfl, fun h => nomatch h.stopped _ List.mem_cons_self⟩,
    ⟨_, _, rfl, rfl, rfl, rfl, rfl, fun h => nomatch h.stopped _ List.mem_cons_self⟩⟩

end AdapterMonitor

end FanucDriver.Monitor
