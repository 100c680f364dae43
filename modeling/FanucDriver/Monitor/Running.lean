import FanucDriver.Monitor.Converge

/-!
# Tasks that go on

A task in the map may have ended: where its adapter could not be started, or what the adapter
wrote does not decode, the task ends with an exception and nobody looks at it. And `run` ends
where a transaction of the status worker fails.

`Intact.step`: in a run in which none of this happens, nobody cancels `run`, and the updates worker
takes no item too early, `run` goes on, and so does every task in the map.
-/

namespace FanucDriver.Monitor

open FanucDriver.Lib

variable {M : Type}

namespace MonitorTask

/-- In the loop and not asked to cancel, a task goes on where no operation fails. -/
theorem Free.goes_on {x y : MonitorTask M} {r : Reply} {out : List (StatusItem M)} (h : x.Free)
    (hr : r ≠ .error) (hrun : x.monitorMachine r = some (y, out)) : y.at_.outcome = none := by
  rw [monitorMachine, h.cancelling, if_neg Bool.false_ne_true] at hrun
  unfold resumed at hrun
  split at hrun
  -- it is not in the handler
  case h_7 hat => exact absurd h.at_ (by rw [hat]; exact id)
  all_goals first
    | exact absurd rfl hr
    | exact absurd hrun.symm (Option.some_ne_none _)
    | (obtain ⟨rfl, -⟩ := Prod.mk.inj (Option.some.inj hrun); rfl)

/-- Nothing its process does ends a task. -/
theorem outcome_of_process {x y : MonitorTask M}
    (h : ∃ a, ProcessStep x.at_ a ∧ y = { x with at_ := a }) (hx : x.at_.outcome = none) :
    y.at_.outcome = none := by
  obtain ⟨a, hstep, rfl⟩ := h
  generalize x.at_ = b at hstep hx
  cases hstep with
  | abandoned => exact absurd hx (Option.some_ne_none _)
  | _ => rfl

theorem cancel_outcome (x : MonitorTask M) : x.cancel.at_.outcome = x.at_.outcome := by
  unfold cancel
  split <;> rfl

end MonitorTask

namespace AdapterMonitor

/-- No adapter fails to start, no output fails to decode, and no status fails to be written. -/
def Event.unfailing : Event M → Bool
  | .monitor _ .error | .status false => false
  | _ => true

theorem reply_ne_error {t : ℕ} {r : Reply} (h : (Event.monitor t r : Event M).unfailing = true) :
    r ≠ .error := by
  rintro rfl
  exact absurd h Bool.false_ne_true

/-- Nothing has failed. -/
structure Intact (s : AdapterMonitor M) : Prop where
  run : s.updatesWorker = .uncreated ∨ s.run = .supervising
  status : s.statusWorker.outcome = none
  tasks : ∀ m t x, s.tasks m = some t → s.monitors[t]? = some x → x.at_.outcome = none

theorem intact_init : Intact (init : AdapterMonitor M) :=
  ⟨Or.inl rfl, rfl, fun _ _ _ h => absurd h.symm (Option.some_ne_none _)⟩

/-- One task goes on. -/
theorem Intact.advance {s s' : AdapterMonitor M} (h : s.Intact) {t : ℕ}
    {f : MonitorTask M → Option (MonitorTask M × List (StatusItem M))}
    (hf : ∀ m x y out, s.tasks m = some t → s.monitors[t]? = some x → f x = some (y, out) →
      y.at_.outcome = none) (hs : s.advance t f = some s') : s'.Intact := by
  obtain ⟨x, y, out, hx, hy, rfl⟩ := exists_of_advance hs
  refine ⟨h.run, h.status, fun m u z hm hz => ?_⟩
  obtain ⟨rfl, rfl⟩ | ⟨-, hz⟩ := getElem?_set_cases hz
  · exact hf m x z out hm hx hy
  · exact h.tasks m u z hm hz

theorem Intact.status_step {s s' : AdapterMonitor M} (h : s.Intact)
    (hcancel : s.statusCancelling = false) (hs : s.statusWorkerStep true = some s') :
    s'.Intact := by
  have hnext : ∀ s : AdapterMonitor M, s.statusNext.statusWorker.outcome = none := by
    intro s
    unfold statusNext
    split <;> rfl
  have houtcome : s'.statusWorker.outcome = none := by
    unfold statusWorkerStep at hs
    rw [hcancel] at hs
    split at hs
    case h_4 => exact Option.some.inj hs ▸ hnext s
    case h_5 =>
      split at hs
      · exact absurd hs.symm (Option.some_ne_none _)
      · exact Option.some.inj hs ▸ hnext s
    case h_6 =>
      rw [if_pos rfl] at hs
      exact Option.some.inj hs ▸ hnext _
    all_goals first
      | exact absurd hs.symm (Option.some_ne_none _)
      | exact absurd ‹false = true› Bool.false_ne_true
  obtain ⟨queue, w, b, rfl⟩ := statusWorkerStep_eq hs
  exact ⟨h.run, houtcome, h.tasks⟩

/-- `run` waits for workers that have not ended. -/
theorem Intact.run_step {s s' : AdapterMonitor M} (h : s.Intact) (hundisturbed : s.Undisturbed)
    (halive : ¬ s.updatesWorker.Stopping) {o : Outcome} (hs : s.runStep o = some s') :
    s'.Intact := by
  rcases hundisturbed.runStep halive hs with ⟨-, rfl⟩ | ⟨o', rfl⟩
  · exact ⟨Or.inr rfl, rfl, h.tasks⟩
  · refine ⟨h.run.imp_right fun hrun => ?_, h.status, h.tasks⟩
    -- neither worker has an outcome
    have hupdates : s.updatesWorker.outcome = none := by
      cases hw : s.updatesWorker with
      | done o => exact absurd trivial (hw ▸ halive : ¬ UpdatesWorker.Stopping (.done o))
      | _ => rfl
    have hungathered : gathered [s.updatesWorker.outcome, s.statusWorker.outcome] o = false := by
      rw [hupdates, h.status]
      cases o <;> rfl
    unfold AdapterMonitor.runStep at hs
    split at hs
    case h_5 =>
      rw [hungathered, if_neg Bool.false_ne_true] at hs
      exact absurd hs.symm (Option.some_ne_none _)
    all_goals first
      | exact absurd hs.symm (Option.some_ne_none _)
      | exact absurd (hundisturbed.run.symm.trans ‹s.runCancelling = true›) Bool.false_ne_true
      | next hrun' _ => exact absurd (hrun.symm.trans hrun') nofun

section
variable [DecidableEq M]

/-- The end of the loop's body: the new task has not run yet. -/
theorem Intact.applyConfig {s : AdapterMonitor M} (h : s.Intact) (howned : s.Owned)
    (hcreated : s.updatesWorker ≠ .uncreated) (m : M) (config : Option Config) :
    (s.applyConfig m config).Intact := by
  have hrun : s.run = .supervising := h.run.resolve_left hcreated
  cases config with
  | none => exact ⟨Or.inr hrun, h.status, h.tasks⟩
  | some config =>
    refine ⟨Or.inr hrun, h.status, fun m' t x hm hx => ?_⟩
    change Function.update s.tasks m _ m' = some t at hm
    change (s.monitors ++ [MonitorTask.new m config])[t]? = some x at hx
    rcases eq_or_ne m' m with rfl | hne
    · rw [Function.update_self] at hm
      obtain rfl := Option.some.inj hm
      rw [List.getElem?_concat_length] at hx
      exact Option.some.inj hx ▸ rfl
    · rw [Function.update_of_ne hne] at hm
      obtain ⟨y, hy, -⟩ := howned.keyed m' t hm
      rw [List.getElem?_append_left (List.getElem?_eq_some_iff.mp hy).1] at hx
      exact h.tasks m' t x hm hx

theorem Intact.awaitTask {s : AdapterMonitor M} (h : s.Intact)
    (hcreated : s.updatesWorker ≠ .uncreated) (t : ℕ) (m : M) (config : Option Config) :
    (s.awaitTask t m config).Intact := by
  refine ⟨Or.inr (h.run.resolve_left hcreated), h.status, fun m' u y hm hy => ?_⟩
  change Function.update s.tasks m none m' = some u at hm
  change (s.monitors.modify t MonitorTask.cancel)[u]? = some y at hy
  rcases eq_or_ne m' m with rfl | hne
  · rw [Function.update_self] at hm
    exact absurd hm.symm (Option.some_ne_none u)
  · rw [Function.update_of_ne hne] at hm
    rw [List.getElem?_modify] at hy
    obtain ⟨x, hx, rfl⟩ := Option.map_eq_some_iff.mp hy
    have hnone := h.tasks m' u x hm hx
    split
    · exact (MonitorTask.cancel_outcome x).trans hnone
    · exact hnone

theorem Intact.taskEnded {s : AdapterMonitor M} (h : s.Intact) (howned : s.Owned)
    (hcreated : s.updatesWorker ≠ .uncreated) (m : M) (config : Option Config) (o : Outcome) :
    (s.taskEnded m config o).Intact := by
  have hrun : s.run = .supervising := h.run.resolve_left hcreated
  cases o with
  | returned =>
    dsimp only [AdapterMonitor.taskEnded]
    split
    · exact h.applyConfig howned hcreated m config
    · have hput : (s.putStatus [⟨m, .DESTROYED, none⟩]).Intact := ⟨Or.inr hrun, h.status, h.tasks⟩
      exact hput.applyConfig (howned.kept (.of_eq rfl rfl rfl id)) hcreated m config
  | _ => exact ⟨Or.inr hrun, h.status, h.tasks⟩

theorem Intact.turn {s : AdapterMonitor M} (h : s.Intact) (howned : s.Owned)
    (hw : s.updatesWorker = .looping) : s.turn.Intact := by
  have hcreated : s.updatesWorker ≠ .uncreated := by rw [hw]; nofun
  have hrun : s.run = .supervising := h.run.resolve_left hcreated
  have hcalm : s.updatesWorker.Calm := hw ▸ trivial
  dsimp only [AdapterMonitor.turn]
  split
  · exact ⟨Or.inr hrun, h.status, h.tasks⟩
  · next m config queue _ =>
    have hq : Intact { s with updatesQueue := queue } := ⟨Or.inr hrun, h.status, h.tasks⟩
    have hqowned : Owned { s with updatesQueue := queue } := howned.goOn rfl rfl rfl hcalm hcalm
    split
    next t hm =>
      have hawait := hq.awaitTask hcreated t m config
      have hqlooping : ({ s with updatesQueue := queue } : AdapterMonitor M).updatesWorker
        = .looping := hw
      have hawaitowned := hqowned.awaitTask hqlooping hm config
      dsimp only [AdapterMonitor.reload]
      split
      · exact hawait
      · exact hawait.taskEnded hawaitowned nofun m config _
    next =>
      split
      · exact hq
      · exact hq.applyConfig hqowned hcreated m config

theorem Intact.updatesWorkerStep {s s' : AdapterMonitor M} (h : s.Intact) (howned : s.Owned)
    {r : WorkerReply M} (hs : s.updatesWorkerStep r = some s') : s'.Intact := by
  cases updatesWorkerStep_effect hs with
  | leave hcreated _ _ => exact ⟨Or.inr (h.run.resolve_left hcreated), h.status, h.tasks⟩
  | goOn _ hcalm _ _ =>
    refine ⟨Or.inr (h.run.resolve_left fun hw => ?_), h.status, h.tasks⟩
    rw [hw] at hcalm
    exact hcalm
  | turn _ hw => exact h.turn howned hw
  | ended _ hw _ => exact h.taskEnded howned (by rw [hw]; nofun) _ _ _

/-- **One event** that is no failure leaves everything intact. -/
theorem Intact.step {s s' : AdapterMonitor M} {e : Event M} (h : s.Intact)
    (hconverging : s.Converging) (hdisturbing : e.undisturbing = true)
    (hfailing : e.unfailing = true) (hs : s.step e = some s') : s'.Intact := by
  have hsuspended : s.stepSuspended e = some s' → s'.Intact := by
    intro hs
    have hfree := hconverging.tracking.free
    cases e with
    | notify m payload =>
      obtain rfl := Option.some.inj hs
      exact ⟨h.run, h.status, h.tasks⟩
    | monitor t r =>
      refine h.advance (fun m x y out hm hx hrun => ?_) hs
      exact (hfree m t x hm hx).goes_on (reply_ne_error hfailing) hrun
    | fork t =>
      refine h.advance (fun m x y out hm hx hfork => ?_) hs
      obtain ⟨z, hz, heq⟩ := Option.map_eq_some_iff.mp hfork
      obtain rfl := (Prod.mk.inj heq).1
      exact MonitorTask.outcome_of_process (MonitorTask.fork_step hz) (h.tasks m t x hm hx)
    | exit t returncode =>
      refine h.advance (fun m x y out hm hx hexit => ?_) hs
      obtain ⟨z, hz, heq⟩ := Option.map_eq_some_iff.mp hexit
      obtain rfl := (Prod.mk.inj heq).1
      exact MonitorTask.outcome_of_process (MonitorTask.exit_step hz) (h.tasks m t x hm hx)
    | updates r => exact h.updatesWorkerStep hconverging.owned hs
    | status committed =>
      cases committed with
      | false => exact absurd hfailing Bool.false_ne_true
      | true => exact h.status_step hconverging.undisturbed.status hs
    | run o =>
      exact h.run_step hconverging.undisturbed hconverging.tracking.alive hs
    | cancel => exact absurd hdisturbing Bool.false_ne_true
  unfold AdapterMonitor.step at hs
  split at hs
  next r hw => exact h.updatesWorkerStep hconverging.owned hs
  next => exact absurd hs.symm (Option.some_ne_none _)
  next => exact hsuspended hs

end

end AdapterMonitor

end FanucDriver.Monitor
