import FanucDriver.Monitor.Converge

/-!
# An item taken too early ends the updates worker

The condition of `converges` leaves nothing out. Where the updates worker takes an item
for a machine whose task a reload cannot end, that task ends without returning
(`Lost`), the worker's `await` raises, and the worker leaves its loop for good:

> `Doomed`: the updates worker is on its way out, or awaits a task that is lost.

`early_take_is_last` reads it off: it takes no item after that one.
-/

namespace FanucDriver.Monitor

open FanucDriver.Lib

variable {M : Type}

namespace MonitorTask

/-- Asked to cancel where no handler runs to its end, or ended otherwise than by
returning. -/
inductive Lost : MonitorTask M → Prop
  | start {m : M} {config : Config} : Lost ⟨m, config, .start, true⟩
  | spawning {m : M} {config : Config} {i : ℕ} {child : Option Process} :
    Lost ⟨m, config, .spawning i none child, true⟩
  | ended {m : M} {config : Config} {o : Outcome} {c : Bool} (h : o ≠ .returned) :
    Lost ⟨m, config, .done o, c⟩

theorem Lost.outcome {x : MonitorTask M} (h : x.Lost) {o : Outcome}
    (ho : x.at_.outcome = some o) : o ≠ .returned := by
  cases h with
  | start => exact absurd ho.symm (Option.some_ne_none o)
  | spawning => exact absurd ho.symm (Option.some_ne_none o)
  | ended hne =>
    obtain rfl := Option.some.inj ho
    exact hne

theorem Lost.process {x y : MonitorTask M} (h : x.Lost)
    (hs : ∃ a, ProcessStep x.at_ a ∧ y = { x with at_ := a }) : y.Lost := by
  obtain ⟨a, hstep, rfl⟩ := hs
  cases h with
  | start => nomatch hstep
  | spawning => cases hstep <;> exact .spawning
  | ended => nomatch hstep

theorem Lost.steps {x y : MonitorTask M} (h : x.Lost) (hs : x.Steps y) : y.Lost := by
  cases hs with
  | forks hfork => exact h.process (fork_step hfork)
  | exits hexit => exact h.process (exit_step hexit)
  | @runs r _ hrun =>
    cases h with
    | start =>
      -- it has no handler yet
      exact (Prod.mk.inj (Option.some.inj hrun)).1 ▸ .ended nofun
    | spawning =>
      -- its handler reads the unbound `proc`
      exact (Prod.mk.inj (Option.some.inj hrun)).1 ▸ .ended nofun
    | @ended m config o c hne =>
      cases c <;> cases r <;> exact absurd hrun.symm (Option.some_ne_none _)

/-- A free task that cannot be reloaded is lost by the cancellation, or was before. -/
theorem Free.cancel_lost {x : MonitorTask M} (h : x.Free) (hr : x.at_.reloadable = false) :
    x.cancel.Lost := by
  obtain ⟨m, config, a, c⟩ := x
  obtain ⟨-, ha⟩ := h
  match a, ha, hr with
  | .start, _, _ => exact .start
  | .spawning _ none _, _, _ => exact .spawning
  | .done .raised, _, _ => exact .ended nofun

end MonitorTask

namespace AdapterMonitor

/-- The updates worker has left its loop, or awaits a task that is lost. -/
inductive Doomed (s : AdapterMonitor M) : Prop
  | stopping (h : s.updatesWorker.Stopping)
  | awaiting {t : ℕ} {m : M} {config : Option Config} (hund : s.Undisturbed)
    (hw : s.updatesWorker = .reloading t m config)
    (hlost : ∀ x, s.monitors[t]? = some x → x.Lost)

theorem Doomed.not_calm {s : AdapterMonitor M} (h : s.Doomed) : ¬ s.updatesWorker.Calm := by
  intro hcalm
  cases h with
  | stopping h => exact hcalm.not_stopping h
  | @awaiting t m config _ hw _ => exact hcalm.not_awaits t ⟨m, config, hw⟩

section
variable [DecidableEq M]

/-- The awaited task has ended, and raises in the updates worker. -/
theorem taskEnded_stopping (s : AdapterMonitor M) (m : M) (config : Option Config)
    {o : Outcome} (ho : o ≠ .returned) : (s.taskEnded m config o).updatesWorker.Stopping := by
  cases o with
  | returned => exact absurd rfl ho
  | raised => exact trivial
  | cancelled => exact trivial

/-- Once on its way out, the updates worker stays on it. -/
theorem Owned.stopping_step {s s' : AdapterMonitor M} {e : Event M} (h : s.Owned)
    (hstopping : s.updatesWorker.Stopping) (hs : s.step e = some s') :
    s'.updatesWorker.Stopping := by
  obtain hrun | hk | hupd := step_effect hs
  · rw [h.fresh hrun] at hstopping
    exact absurd hstopping id
  · exact hk.updatesWorker.symm ▸ hstopping
  · obtain ⟨-, hw, -⟩ | ⟨-, hcalm, -, -⟩ | ⟨-, hw⟩ | ⟨-, hw, -⟩ := hupd
    · exact hw
    · exact absurd hstopping hcalm.not_stopping
    · rw [hw] at hstopping
      exact absurd hstopping id
    · rw [hw] at hstopping
      exact absurd hstopping id

theorem Doomed.step {s s' : AdapterMonitor M} {e : Event M} (h : s.Doomed) (howned : s.Owned)
    (he : e.undisturbing = true) (hs : s.step e = some s') : s'.Doomed := by
  cases h with
  | stopping h => exact .stopping (howned.stopping_step h hs)
  | @awaiting t m config hund hw hlost =>
    have halive : ¬ s.updatesWorker.Stopping := by
      rw [hw]
      exact id
    have hsuspended : s.stepSuspended e = some s' := by
      unfold AdapterMonitor.step at hs
      split at hs
      next hlooping => exact absurd (hw.symm.trans hlooping) nofun
      next => exact absurd hs.symm (Option.some_ne_none _)
      next => exact hs
    by_cases hupdates : ∃ r, e = .updates r
    · obtain ⟨r, rfl⟩ := hupdates
      obtain ⟨-, hout, -⟩ | ⟨-, hcalm, -, -⟩ | ⟨-, hlooping⟩ | ⟨-, hw', ho⟩ :=
        updatesWorkerStep_effect hsuspended
      · exact .stopping hout
      · exact absurd ⟨m, config, hw⟩ (hcalm.not_awaits t)
      · exact absurd (hw.symm.trans hlooping) nofun
      · obtain ⟨rfl, rfl, rfl⟩ := UpdatesWorker.reloading.inj (hw.symm.trans hw')
        obtain ⟨x, hx, hxo⟩ := Option.bind_eq_some_iff.mp ho
        exact .stopping (taskEnded_stopping s m config ((hlost x hx).outcome hxo))
    · obtain ⟨hund', hadvanced | ⟨hrun, -⟩⟩ :=
        hund.between halive he (fun r hr => hupdates ⟨r, hr⟩) hsuspended
      · refine .awaiting hund' (hadvanced.updatesWorker.trans hw) fun y hy => ?_
        obtain ⟨x, hx, rfl | hstep⟩ := hadvanced.steps t y hy
        · exact hlost x hx
        · exact (hlost x hx).steps hstep
      · exact absurd (hw.symm.trans (howned.fresh hrun)) nofun

omit [DecidableEq M] in
/-- The next item is for a machine whose task a reload cannot end. -/
theorem exists_of_takesReady {s : AdapterMonitor M} (howned : s.Owned)
    (h : s.takesReady = false) : ∃ m config q t x,
      s.updatesQueue.get? = some ((m, config), q) ∧ s.tasks m = some t ∧
      s.monitors[t]? = some x ∧ x.at_.reloadable = false := by
  unfold takesReady at h
  split at h
  next => exact absurd h Bool.noConfusion
  next m config q hq =>
    split at h
    next => exact absurd h Bool.noConfusion
    next t hm =>
      obtain ⟨x, hx, -⟩ := howned.keyed m t hm
      rw [hx, Option.all_some] at h
      exact ⟨m, config, q, t, x, hq, hm, hx, h⟩

/-- The turn that takes an item too early. -/
theorem Converging.turn_doomed {s : AdapterMonitor M} (h : s.Converging)
    (hearly : s.takesReady = false) : s.turn.Doomed := by
  obtain ⟨m, config, q, t, x, hq, hm, hx, hreloadable⟩ := exists_of_takesReady h.owned hearly
  have hlost := (h.tracking.free m t x hm hx).cancel_lost hreloadable
  have hcancelled : (s.monitors.modify t MonitorTask.cancel)[t]? = some x.cancel := by
    rw [List.getElem?_modify, hx]
    exact congrArg some (if_pos rfl)
  have hturn : s.turn = AdapterMonitor.reload { s with updatesQueue := q } t m config := by
    simp only [AdapterMonitor.turn, hq, hm]
  have hund := h.undisturbed.turn
  rw [hturn] at hund ⊢
  rw [AdapterMonitor.reload] at hund ⊢
  cases ho : (AdapterMonitor.awaitTask { s with updatesQueue := q } t m config).outcome t with
  | none =>
    rw [ho] at hund
    refine .awaiting hund rfl fun y hy => ?_
    exact Option.some.inj (hcancelled.symm.trans hy) ▸ hlost
  | some o =>
    -- it had failed before, and its failure is raised again at once
    obtain ⟨y, hy, hyo⟩ := Option.bind_eq_some_iff.mp ho
    obtain rfl := Option.some.inj (hcancelled.symm.trans hy)
    exact .stopping (taskEnded_stopping _ m config (hlost.outcome hyo))

theorem step_looping {s s' : AdapterMonitor M} {e : Event M} (hund : s.Undisturbed)
    (hw : s.updatesWorker = .looping) (hs : s.step e = some s') : s' = s.turn := by
  cases e with
  | updates r =>
    simp only [AdapterMonitor.step, hw, updatesWorkerStep, hund.updates, updatesResumed] at hs
    cases r with
    | ok => exact (Option.some.inj hs).symm
    | rows => exact absurd hs.symm (Option.some_ne_none _)
    | error => exact absurd hs.symm (Option.some_ne_none _)
  | _ =>
    simp only [AdapterMonitor.step, hw] at hs
    exact absurd hs.symm (Option.some_ne_none _)

/-- **The condition of `converges` is needed**: where the updates worker takes an item
for a machine whose task a reload cannot end, it is the last one it takes. -/
theorem early_take_is_last {es fs : List (Event M)} {s s' u : AdapterMonitor M} {e : Event M}
    (h : exec step init es = some s) (hes : ∀ e ∈ es, e.undisturbing = true)
    (hready : Along step ReadyStep init es) (hearly : ¬ s.ReadyStep e)
    (hs : s.step e = some s') (hrest : exec step s' fs = some u)
    (hfs : ∀ e ∈ fs, e.undisturbing = true) : ¬ u.updatesWorker.Calm := by
  have hconv : s.Converging :=
    exec_induct_mem (fun s e t hs he hready => Converging.step hs he hready) h hes hready
      converging_init
  obtain ⟨hw, htakes⟩ := Classical.not_imp.mp hearly
  have hdoomed : s'.Doomed :=
    step_looping hconv.undisturbed hw hs ▸ hconv.turn_doomed (Bool.eq_false_iff.mpr htakes)
  have hinv : u.Owned ∧ u.Doomed :=
    exec_invariant_mem (P := fun s : AdapterMonitor M => s.Owned ∧ s.Doomed)
      (Q := fun e => e.undisturbing = true)
      (fun s e t hs he hstep => ⟨hs.1.step hstep, hs.2.step hs.1 he hstep⟩) hrest hfs
      ⟨hconv.owned.step hs, hdoomed⟩
  exact hinv.2.not_calm

end

end AdapterMonitor

end FanucDriver.Monitor
