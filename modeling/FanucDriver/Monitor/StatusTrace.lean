import FanucDriver.Lib.Histories
import FanucDriver.Monitor.Held

/-!
# The statuses of a machine

The statuses put for one machine come from two coroutines, the machine's task and the
updates worker that reloads or removes it. `LifeCycle` says which status may follow
which. It holds because at any time only one of them is entitled to put the next one
(`Traces`): the task while it is in `self.tasks`, and after the updates worker has put
RELOADING or DESTROYING the same task once more, for its SHUTDOWN, and then the worker.

A task that has already put its SHUTDOWN when the worker takes an item for its machine
does not put it again. That is the condition of `traces_lifeCycle`: the worker takes no
item for such a machine (`takesShutDown`). It can, where `run` was cancelled and the
cancellation of the worker went to the task it was awaiting, which ended in its handler
and let the worker go on (`late_reload`).
-/

namespace FanucDriver.Monitor

open FanucDriver.Lib

variable {M : Type}

/-! ## The life cycle of an adapter -/

namespace Status

/-- A new adapter may be started: there was none, or the last one was removed, or it was
shut down for a reload. -/
def Startable (p : List Status) : Prop :=
  p = [] ∨ p.getLast? = some .DESTROYED ∨ [.RELOADING, .SHUTDOWN] <:+ p

/-- The adapter is to be shut down for a reload or a removal. -/
def Ending (p : List Status) : Prop :=
  p.getLast? = some .RELOADING ∨ p.getLast? = some .DESTROYING

/-- The status may come after what came before. -/
def Follows (p : List Status) : Status → Prop
  | STARTED => p.getLast? = some .STARTING ∨ p.getLast? = some .RESTARTING
  | FAILED | STOPPED => p.getLast? = some .STARTED
  | RESTARTING => p.getLast? = some .FAILED ∨ p.getLast? = some .STOPPED
  | DESTROYED => [.DESTROYING, .SHUTDOWN] <:+ p
  | STARTING => Startable p
  | SHUTDOWN | RELOADING | DESTROYING => True

/-- **The life cycle**: every status follows what came before, and what comes after
RELOADING or DESTROYING is SHUTDOWN. -/
def LifeCycle (p : List Status) : Prop :=
  Admitted (fun p s => Follows p s ∧ (Ending p → s = .SHUTDOWN)) p

theorem Startable.not_ending {p : List Status} (h : Startable p) : ¬ Ending p := by
  rcases h with rfl | hlast | ⟨q, rfl⟩
  · rintro (h | h) <;> exact absurd h.symm (Option.some_ne_none _)
  · rintro (h | h) <;> exact absurd (hlast.symm.trans h) nofun
  · have hlast : (q ++ [RELOADING, SHUTDOWN]).getLast? = some SHUTDOWN :=
      List.getLast?_append_of_ne_nil _ nofun
    rintro (h | h) <;> exact absurd (hlast.symm.trans h) nofun

/-- Away from a reload or a removal. -/
theorem lifeCycle_concat {p : List Status} {s : Status} (h : LifeCycle p) (hp : ¬ Ending p)
    (hs : Follows p s) : LifeCycle (p ++ [s]) :=
  admitted_concat.mpr ⟨h, hs, fun he => absurd he hp⟩

theorem lifeCycle_shutdown {p : List Status} (h : LifeCycle p) :
    LifeCycle (p ++ [.SHUTDOWN]) :=
  admitted_concat.mpr ⟨h, trivial, fun _ => rfl⟩

end Status

open Status

section
variable [DecidableEq M]

/-- The statuses of a machine. -/
def statuses (items : List (StatusItem M)) (m : M) : List Status :=
  (items.filter fun item => item.machineId = m).map (·.status)

theorem statuses_append (items items' : List (StatusItem M)) (m : M) :
    statuses (items ++ items') m = statuses items m ++ statuses items' m := by
  rw [statuses, List.filter_append, List.map_append, statuses, statuses]

theorem statuses_self (m : M) (s : Status) (msg : Option String) :
    statuses [⟨m, s, msg⟩] m = [s] := by
  rw [statuses, List.filter_singleton, decide_eq_true rfl]
  rfl

theorem statuses_ne {m m' : M} (h : m' ≠ m) (s : Status) (msg : Option String) :
    statuses [⟨m, s, msg⟩] m' = [] := by
  rw [statuses, List.filter_singleton, decide_eq_false h.symm]
  rfl

/-- What was put on `status_queue` for a machine. -/
def AdapterMonitor.trace (s : AdapterMonitor M) (m : M) : List Status :=
  statuses s.statusQueue.puts m

end

/-! ## A task and the statuses before it -/

/-- What the statuses of the machine are, by where its task is suspended. -/
def Monitoring.Traced (p : List Status) : Monitoring → Prop
  | start => Startable p
  | spawning i _ _ => p.getLast? = some (if i > 0 then .RESTARTING else .STARTING)
  | communicating .. => p.getLast? = some .STARTED
  | sleeping .. => p.getLast? = some .FAILED ∨ p.getLast? = some .STOPPED
  | terminating _ | done _ | abandoned _ => ¬ Ending p

theorem not_ending_of_last {p : List Status} {s : Status} (h : p.getLast? = some s)
    (hr : s ≠ .RELOADING) (hd : s ≠ .DESTROYING) : ¬ Ending p := by
  rintro (h' | h')
  · exact hr (Option.some.inj (h.symm.trans h'))
  · exact hd (Option.some.inj (h.symm.trans h'))

theorem Monitoring.Traced.not_ending {p : List Status} {a : Monitoring} (h : a.Traced p) :
    ¬ Ending p := by
  cases a with
  | start => exact Startable.not_ending h
  | spawning i proc child => exact not_ending_of_last h (by split <;> nofun) (by split <;> nofun)
  | communicating i proc => exact not_ending_of_last h nofun nofun
  | sleeping i returncode =>
    rcases h with h | h
    · exact not_ending_of_last h nofun nofun
    · exact not_ending_of_last h nofun nofun
  | terminating proc => exact h
  | done o => exact h
  | abandoned proc => exact h

namespace MonitorTask

/-- What a task puts on its way: nothing, or one status. -/
inductive Puts (x : MonitorTask M) (p : List Status) (y : MonitorTask M) :
    List (StatusItem M) → Prop
  | silent (h : y.at_.Traced p) : Puts x p y []
  | status {s : Status} {msg : Option String} (hp : LifeCycle p → LifeCycle (p ++ [s]))
    (h : y.at_.Traced (p ++ [s])) : Puts x p y [⟨x.machineId, s, msg⟩]

theorem last_concat (p : List Status) (s : Status) : (p ++ [s]).getLast? = some s :=
  List.getLast?_concat

theorem shutdown_puts {x : MonitorTask M} (p : List Status) :
    Puts x p x.shutdown.1 x.shutdown.2 :=
  .status lifeCycle_shutdown (not_ending_of_last (last_concat p _) nofun nofun)

theorem cancelled_puts {x y : MonitorTask M} {out : List (StatusItem M)} {p : List Status}
    (hx : x.at_.Traced p) (h : x.cancelled = some (y, out)) : Puts x p y out := by
  have hp := hx.not_ending
  unfold cancelled at h
  split at h
  case h_3 | h_5 | h_6 =>
    obtain ⟨rfl, rfl⟩ := Prod.mk.inj (Option.some.inj h)
    exact shutdown_puts p
  all_goals first
    | exact absurd h.symm (Option.some_ne_none _)
    | (obtain ⟨rfl, rfl⟩ := Prod.mk.inj (Option.some.inj h); exact .silent hp)

theorem resumed_puts {x y : MonitorTask M} {r : Reply} {out : List (StatusItem M)}
    {p : List Status} (hx : x.at_.Traced p) (h : x.resumed r = some (y, out)) :
    Puts x p y out := by
  have hp := hx.not_ending
  unfold resumed at h
  split at h
  case h_1 hat =>
    obtain ⟨rfl, rfl⟩ := Prod.mk.inj (Option.some.inj h)
    rw [hat] at hx
    exact .status (fun hl => lifeCycle_concat hl hp hx) (last_concat p _)
  case h_2 i _ proc hat =>
    obtain ⟨rfl, rfl⟩ := Prod.mk.inj (Option.some.inj h)
    rw [hat] at hx
    refine .status (fun hl => lifeCycle_concat hl hp ?_) (last_concat p _)
    have hlast : p.getLast? = some (if i > 0 then .RESTARTING else .STARTING) := hx
    split at hlast
    · exact Or.inr hlast
    · exact Or.inl hlast
  case h_4 returncode msg hat =>
    obtain ⟨rfl, rfl⟩ := Prod.mk.inj (Option.some.inj h)
    rw [hat] at hx
    by_cases hz : returncode ≠ 0
    · rw [if_pos hz]
      exact .status (fun hl => lifeCycle_concat hl hp hx) (Or.inl (last_concat p _))
    · rw [if_neg hz]
      exact .status (fun hl => lifeCycle_concat hl hp hx) (Or.inr (last_concat p _))
  case h_6 i returncode hat =>
    obtain ⟨rfl, rfl⟩ := Prod.mk.inj (Option.some.inj h)
    rw [hat] at hx
    rw [if_pos (Nat.succ_pos i)]
    refine .status (fun hl => lifeCycle_concat hl hp hx) ?_
    show (p ++ [RESTARTING]).getLast? = some (if i + 1 > 0 then RESTARTING else STARTING)
    rw [if_pos (Nat.succ_pos i)]
    exact last_concat p _
  case h_7 =>
    obtain ⟨rfl, rfl⟩ := Prod.mk.inj (Option.some.inj h)
    exact shutdown_puts p
  all_goals first
    | exact absurd h.symm (Option.some_ne_none _)
    | (obtain ⟨rfl, rfl⟩ := Prod.mk.inj (Option.some.inj h); exact .silent hp)

/-- **One step of a task keeps to the life cycle.** -/
theorem monitorMachine_puts {x y : MonitorTask M} {r : Reply} {out : List (StatusItem M)}
    {p : List Status} (hx : x.at_.Traced p) (h : x.monitorMachine r = some (y, out)) :
    Puts x p y out := by
  rw [monitorMachine] at h
  split at h
  · have hputs := cancelled_puts (x := { x with cancelling := false }) hx h
    obtain hy | ⟨hp, hy⟩ := hputs
    · exact .silent hy
    · exact .status hp hy
  · exact resumed_puts hx h

theorem Moves.traced {x y : MonitorTask M} {p : List Status} (h : x.Moves y)
    (hx : x.at_.Traced p) : y.at_.Traced p := by
  obtain ⟨a, hstep, rfl⟩ := h.step
  generalize x.at_ = b at hstep hx
  cases hstep <;> exact hx

end MonitorTask

/-! ## A task that the updates worker awaits -/

/-- The status of a reload or a removal. -/
def endingStatus (config : Option Config) : Status :=
  if config.isSome then .RELOADING else .DESTROYING

theorem ending_endingStatus {p : List Status} {config : Option Config}
    (h : p.getLast? = some (endingStatus config)) : Ending p := by
  cases config with
  | none => exact Or.inr h
  | some config => exact Or.inl h

theorem follows_endingStatus (p : List Status) (config : Option Config) :
    Follows p (endingStatus config) := by
  cases config <;> exact trivial

theorem suffix_of_last {p : List Status} {s : Status} (h : p.getLast? = some s) (s' : Status) :
    [s, s'] <:+ p ++ [s'] := by
  obtain ⟨q, rfl⟩ := List.getLast?_eq_some_iff.mp h
  exact ⟨q, by rw [List.append_assoc]; rfl⟩

namespace MonitorTask

/-- Cancelled for a reload or a removal: all that may come is its SHUTDOWN. -/
structure WindsDown (x : MonitorTask M) (config : Option Config) (p : List Status) : Prop where
  unfinished : x.at_.outcome = none →
    (x.cancelling = true ∨ ∃ proc, x.at_ = .terminating proc) ∧
    p.getLast? = some (endingStatus config)
  returned : x.at_.outcome = some .returned → [endingStatus config, .SHUTDOWN] <:+ p

/-- It waits for its adapter in the handler. -/
theorem windsDown_terminating {x : MonitorTask M} {proc : Process} {config : Option Config}
    {p : List Status} (h : x.at_ = .terminating proc)
    (hlast : p.getLast? = some (endingStatus config)) : x.WindsDown config p :=
  ⟨fun _ => ⟨Or.inr ⟨proc, h⟩, hlast⟩,
    fun hret => absurd ((congrArg Monitoring.outcome h).symm.trans hret).symm
      (Option.some_ne_none _)⟩

/-- It puts its SHUTDOWN. -/
theorem windsDown_shutdown (x : MonitorTask M) {config : Option Config} {p : List Status}
    (hlast : p.getLast? = some (endingStatus config)) :
    x.shutdown.1.WindsDown config (p ++ [.SHUTDOWN]) :=
  ⟨nofun, fun _ => suffix_of_last hlast _⟩

theorem WindsDown.monitorMachine {x y : MonitorTask M} {r : Reply} {out : List (StatusItem M)}
    {config : Option Config} {p : List Status} (h : x.WindsDown config p)
    (hs : x.monitorMachine r = some (y, out)) :
    (out = [] ∧ y.WindsDown config p) ∨
    (out = [⟨x.machineId, .SHUTDOWN, none⟩] ∧ y.WindsDown config (p ++ [.SHUTDOWN])) := by
  obtain ⟨hwinds, hlast⟩ := h.unfinished (monitorMachine_unfinished hs)
  unfold MonitorTask.monitorMachine at hs
  split at hs
  next =>
    unfold cancelled at hs
    split at hs
    case h_3 | h_5 | h_6 =>
      obtain ⟨rfl, rfl⟩ := Prod.mk.inj (Option.some.inj hs)
      exact Or.inr ⟨rfl, windsDown_shutdown { x with cancelling := false } hlast⟩
    case h_4 =>
      obtain ⟨rfl, rfl⟩ := Prod.mk.inj (Option.some.inj hs)
      exact Or.inl ⟨rfl, windsDown_terminating rfl hlast⟩
    all_goals first
      | exact absurd hs.symm (Option.some_ne_none _)
      | (obtain ⟨rfl, rfl⟩ := Prod.mk.inj (Option.some.inj hs)
         exact Or.inl ⟨rfl, nofun, nofun⟩)
  next hc =>
    -- it is in the handler
    obtain ⟨proc, hat⟩ := hwinds.resolve_left hc
    simp only [resumed, hat] at hs
    cases proc with
    | running => exact absurd hs.symm (Option.some_ne_none _)
    | exited returncode =>
      cases r with
      | ok =>
        obtain ⟨rfl, rfl⟩ := Prod.mk.inj (Option.some.inj hs)
        exact Or.inr ⟨rfl, windsDown_shutdown x hlast⟩
      | stderr msg => exact absurd hs.symm (Option.some_ne_none _)
      | error => exact absurd hs.symm (Option.some_ne_none _)

theorem Moves.windsDown {x y : MonitorTask M} {config : Option Config} {p : List Status}
    (h : x.Moves y) (hx : x.WindsDown config p) : y.WindsDown config p := by
  obtain ⟨a, hstep, rfl⟩ := h.step
  obtain ⟨m, config', b, c⟩ := x
  cases hstep with
  | abandoned => exact ⟨nofun, nofun⟩
  | terminating => exact windsDown_terminating rfl (hx.unfinished rfl).2
  | _ =>
    -- not in the handler, so the request to cancel is still to come
    obtain ⟨hwinds, hlast⟩ := hx.unfinished rfl
    exact ⟨fun _ => ⟨Or.inl (hwinds.resolve_right nofun), hlast⟩, nofun⟩

theorem cancel_windsDown {x : MonitorTask M} {config : Option Config} {p : List Status}
    (hx : x.at_.outcome ≠ some .returned) (hlast : p.getLast? = some (endingStatus config)) :
    x.cancel.WindsDown config p := by
  refine ⟨fun hnone => ⟨Or.inl ?_, hlast⟩, fun hret => ?_⟩
  · rw [cancel_at] at hnone
    rw [cancel, hnone]
    rfl
  · rw [cancel_at] at hret
    exact absurd hret hx

theorem Asked.windsDown {x y : MonitorTask M} {config : Option Config} {p : List Status}
    (h : x.Asked y) (hx : x.WindsDown config p) : y.WindsDown config p := by
  rcases h with rfl | rfl
  · exact hx
  · refine ⟨fun hnone => ?_, fun hret => hx.returned (x.cancel_at ▸ hret)⟩
    rw [cancel_at] at hnone
    refine ⟨Or.inl ?_, (hx.unfinished hnone).2⟩
    rw [cancel, hnone]
    rfl

end MonitorTask

namespace AdapterMonitor

/-! ## The invariant -/

section
variable [DecidableEq M]

theorem trace_putStatus (s : AdapterMonitor M) (items : List (StatusItem M)) (m : M) :
    (s.putStatus items).trace m = s.trace m ++ statuses items m :=
  statuses_append _ items m

/-- Whose turn it is to put the next status of a machine, and what may be next. -/
structure Traces (s : AdapterMonitor M) : Prop where
  lifeCycle : ∀ m, LifeCycle (s.trace m)
  mapped : ∀ (m : M) (t : ℕ) (x : MonitorTask M), s.tasks m = some t →
    s.monitors[t]? = some x → x.at_.Traced (s.trace m)
  awaited : ∀ (t : ℕ) (m : M) (config : Option Config) (x : MonitorTask M),
    s.updatesWorker = .reloading t m config → s.monitors[t]? = some x →
    x.WindsDown config (s.trace m)
  free : ∀ m, s.tasks m = none → (∀ t config, s.updatesWorker ≠ .reloading t m config) →
    s.updatesWorker.Stopping ∨ Startable (s.trace m)

theorem traces_init : Traces (init : AdapterMonitor M) where
  lifeCycle _ := admitted_nil
  mapped _ _ _ h := absurd h.symm (Option.some_ne_none _)
  awaited _ _ _ _ h := nomatch h
  free _ _ _ := Or.inr (Or.inl rfl)

theorem trace_of_puts {s s' : AdapterMonitor M} (h : s'.statusQueue.puts = s.statusQueue.puts)
    (m : M) : s'.trace m = s.trace m :=
  congrArg (statuses · m) h

/-- Nothing is put, and each task is as good as before. -/
theorem Traces.carry {s s' : AdapterMonitor M} (h : s.Traces)
    (hputs : s'.statusQueue.puts = s.statusQueue.puts) (ht : s'.tasks = s.tasks)
    (hw : s'.updatesWorker = s.updatesWorker)
    (hm : ∀ (t : ℕ) (y : MonitorTask M), s'.monitors[t]? = some y → ∃ x, s.monitors[t]? = some x ∧
      (∀ p, x.at_.Traced p → y.at_.Traced p) ∧
      ∀ config p, x.WindsDown config p → y.WindsDown config p) : s'.Traces where
  lifeCycle m := trace_of_puts hputs m ▸ h.lifeCycle m
  mapped m t y hmap hy := by
    obtain ⟨x, hx, htraced, -⟩ := hm t y hy
    rw [trace_of_puts hputs]
    exact htraced _ (h.mapped m t x (ht ▸ hmap) hx)
  awaited t m config y hawait hy := by
    obtain ⟨x, hx, -, hwinds⟩ := hm t y hy
    rw [trace_of_puts hputs]
    exact hwinds config _ (h.awaited t m config x (hw ▸ hawait) hx)
  free m hnone hnot := by
    rw [trace_of_puts hputs, hw]
    exact h.free m (ht ▸ hnone) (hw ▸ hnot)

/-- Only the updates worker moves, and it awaits no task after. -/
theorem Traces.worker {s s' : AdapterMonitor M} (h : s.Traces)
    (hputs : s'.statusQueue.puts = s.statusQueue.puts) (ht : s'.tasks = s.tasks)
    (hm : s'.monitors = s.monitors)
    (hnot : ∀ t m config, s'.updatesWorker ≠ .reloading t m config)
    (hw : s'.updatesWorker.Stopping ∨ (¬ s.updatesWorker.Stopping ∧
      ∀ t m config, s.updatesWorker ≠ .reloading t m config)) : s'.Traces where
  lifeCycle m := trace_of_puts hputs m ▸ h.lifeCycle m
  mapped m t y hmap hy := trace_of_puts hputs m ▸ h.mapped m t y (ht ▸ hmap) (hm ▸ hy)
  awaited t m config _ hawait := absurd hawait (hnot t m config)
  free m hnone _ := by
    rcases hw with hstop | ⟨halive, hcalm⟩
    · exact Or.inl hstop
    · rw [trace_of_puts hputs]
      exact Or.inr ((h.free m (ht ▸ hnone) fun t config => hcalm t m config).resolve_left halive)

/-- One task goes on, the one whose turn it is for its machine. -/
theorem Traces.set {s : AdapterMonitor M} (h : s.Traces) (howned : s.Owned) {t : ℕ}
    {x y : MonitorTask M} {out : List (StatusItem M)} (hx : s.monitors[t]? = some x)
    (hholder : s.tasks x.machineId = some t ∨ s.updatesWorker.Awaits t)
    (hother : ∀ m, m ≠ x.machineId → statuses out m = [])
    (hlife : LifeCycle (s.trace x.machineId ++ statuses out x.machineId))
    (hmapped : s.tasks x.machineId = some t →
      y.at_.Traced (s.trace x.machineId ++ statuses out x.machineId))
    (hawaited : ∀ config, s.updatesWorker = .reloading t x.machineId config →
      y.WindsDown config (s.trace x.machineId ++ statuses out x.machineId)) :
    ((s.setTask t y).putStatus out).Traces := by
  have htrace (m : M) : ((s.setTask t y).putStatus out).trace m = s.trace m ++ statuses out m :=
    trace_putStatus (s.setTask t y) out m
  have hsame {m : M} (hne : m ≠ x.machineId) :
      ((s.setTask t y).putStatus out).trace m = s.trace m := by
    rw [htrace, hother m hne, List.append_nil]
  obtain ⟨hsole, hsole'⟩ := howned.sole hx hholder
  refine ⟨fun m => ?_, fun m u z hmap hz => ?_, fun u m config z hw hz => ?_,
    fun m hnone hnot => ?_⟩
  · by_cases hne : m = x.machineId
    · rw [hne, htrace]
      exact hlife
    · rw [hsame hne]
      exact h.lifeCycle m
  · obtain ⟨rfl, rfl⟩ | ⟨hut, hz⟩ := getElem?_set_cases hz
    · obtain rfl := howned.mapped_machineId hx hmap
      rw [htrace]
      exact hmapped hmap
    · have hne : m ≠ x.machineId := by
        rintro rfl
        exact hut (hsole u hmap)
      rw [hsame hne]
      exact h.mapped m u z hmap hz
  · obtain ⟨rfl, rfl⟩ | ⟨hut, hz⟩ := getElem?_set_cases hz
    · obtain rfl := howned.awaited_machineId hx hw
      rw [htrace]
      exact hawaited config hw
    · have hne : m ≠ x.machineId := by
        rintro rfl
        exact hut (hsole' u config hw)
      rw [hsame hne]
      exact h.awaited u m config z hw hz
  · have hne : m ≠ x.machineId := by
      rintro rfl
      rcases hholder with hmap | ⟨m', config', hw'⟩
      · exact absurd (hmap.symm.trans hnone) (Option.some_ne_none t)
      · obtain rfl := howned.awaited_machineId hx hw'
        exact hnot t config' hw'
    rw [hsame hne]
    exact h.free m hnone hnot

theorem Traces.still {s s' : AdapterMonitor M} (h : s.Traces) (hs : Still s s') : s'.Traces := by
  refine h.carry hs.puts hs.tasks hs.updatesWorker fun t y hy => ?_
  obtain ⟨x, hx, hasked⟩ := hs.monitors.before hy
  exact ⟨x, hx, fun p hp => hasked.at_.symm ▸ hp, fun config p hp => hasked.windsDown hp⟩

theorem Traces.moves {s : AdapterMonitor M} (h : s.Traces) {t : ℕ} {x y : MonitorTask M}
    (hx : s.monitors[t]? = some x) (hy : x.Moves y) : (s.setTask t y).Traces := by
  refine h.carry rfl rfl rfl fun u z hz => ?_
  obtain ⟨rfl, rfl⟩ | ⟨-, hz⟩ := getElem?_set_cases hz
  · exact ⟨x, hx, fun p => hy.traced, fun config p => hy.windsDown⟩
  · exact ⟨z, hz, fun p => id, fun config p => id⟩

theorem Traces.runs {s : AdapterMonitor M} (h : s.Traces) (howned : s.Owned) (hheld : s.Held)
    {t : ℕ} {x y : MonitorTask M} {r : Reply} {out : List (StatusItem M)}
    (hx : s.monitors[t]? = some x) (hy : x.monitorMachine r = some (y, out)) :
    ((s.setTask t y).putStatus out).Traces := by
  have hholder := hheld.holder howned hx (MonitorTask.monitorMachine_unfinished hy)
  by_cases hmap : s.tasks x.machineId = some t
  · have hnot (config : Option Config) : s.updatesWorker ≠ .reloading t x.machineId config := by
      intro hw
      exact absurd (hmap.symm.trans (howned.popped t _ config hw).1) (Option.some_ne_none t)
    have hputs := MonitorTask.monitorMachine_puts (h.mapped _ t x hmap hx) hy
    have hlife := h.lifeCycle x.machineId
    obtain htraced | ⟨hp, htraced⟩ := hputs
    · refine h.set howned hx hholder (fun _ _ => rfl) ?_ (fun _ => ?_)
        fun c hw => absurd hw (hnot c)
      · exact (List.append_nil _).symm ▸ hlife
      · exact (List.append_nil _).symm ▸ htraced
    · refine h.set howned hx hholder (fun m hne => statuses_ne hne _ _) ?_ (fun _ => ?_)
        fun c hw => absurd hw (hnot c)
      · rw [statuses_self]
        exact hp hlife
      · rw [statuses_self]
        exact htraced
  · -- the updates worker awaits it
    obtain ⟨m, config, hw⟩ := hholder.resolve_left hmap
    obtain rfl := howned.awaited_machineId hx hw
    have hwinds := h.awaited t _ config x hw hx
    have hlife := h.lifeCycle x.machineId
    have hconfig {c : Option Config} (hc : s.updatesWorker = .reloading t x.machineId c) :
        c = config := (UpdatesWorker.reloading.inj (hc.symm.trans hw)).2.2
    rcases hwinds.monitorMachine hy with ⟨rfl, hwinds'⟩ | ⟨rfl, hwinds'⟩
    · refine h.set howned hx hholder (fun _ _ => rfl) ?_ (fun hm => absurd hm hmap) fun c hc => ?_
      · exact (List.append_nil _).symm ▸ hlife
      · rw [hconfig hc]
        exact (List.append_nil _).symm ▸ hwinds'
    · refine h.set howned hx hholder (fun m hne => statuses_ne hne _ _) ?_
        (fun hm => absurd hm hmap) fun c hc => ?_
      · rw [statuses_self]
        exact lifeCycle_shutdown hlife
      · rw [statuses_self, hconfig hc]
        exact hwinds'

/-! ## The updates worker -/

/-- A machine that has no task gets one, or none. -/
theorem traces_applyConfig {s : AdapterMonitor M} (howned : s.Owned)
    (hlife : ∀ m, LifeCycle (s.trace m))
    (hmapped : ∀ (m : M) (t : ℕ) (x : MonitorTask M), s.tasks m = some t →
      s.monitors[t]? = some x → x.at_.Traced (s.trace m))
    (hfree : ∀ m, s.tasks m = none → Startable (s.trace m)) {m : M} (hm : s.tasks m = none)
    (config : Option Config) : (s.applyConfig m config).Traces := by
  -- the worker is back in its loop and waits for no task
  have hlooping (t : ℕ) (m' : M) (config' : Option Config) :
      (s.applyConfig m config).updatesWorker ≠ .reloading t m' config' := by
    show UpdatesWorker.looping ≠ _
    exact nofun
  cases config with
  | none =>
    exact ⟨hlife, hmapped, fun t m' config' x hw => absurd hw (hlooping t m' config'),
      fun m' hnone _ => Or.inr (hfree m' hnone)⟩
  | some config =>
    refine ⟨hlife, fun m' t x hmap hx => ?_,
      fun t m' config' x hw => absurd hw (hlooping t m' config'), fun m' hnone _ => Or.inr ?_⟩
    · change Function.update s.tasks m _ m' = some t at hmap
      change (s.monitors ++ [MonitorTask.new m config])[t]? = some x at hx
      show x.at_.Traced (s.trace m')
      rcases eq_or_ne m' m with rfl | hne
      · rw [Function.update_self] at hmap
        obtain rfl := Option.some.inj hmap
        obtain rfl := Option.some.inj (List.getElem?_concat_length.symm.trans hx)
        exact hfree m' hm
      · rw [Function.update_of_ne hne] at hmap
        obtain ⟨x', hx', -⟩ := howned.keyed m' t hmap
        rw [List.getElem?_append_left (List.getElem?_eq_some_iff.mp hx').1] at hx
        exact hmapped m' t x hmap hx
    · change Function.update s.tasks m _ m' = none at hnone
      rcases eq_or_ne m' m with rfl | hne
      · rw [Function.update_self] at hnone
        exact absurd hnone (Option.some_ne_none _)
      · rw [Function.update_of_ne hne] at hnone
        exact hfree m' hnone

theorem Traces.taskEnded {s : AdapterMonitor M} (h : s.Traces) (howned : s.Owned) {t : ℕ} {m : M}
    {config : Option Config} {o : Outcome} (hw : s.updatesWorker = .reloading t m config)
    (ho : s.outcome t = some o) : (s.taskEnded m config o).Traces := by
  obtain ⟨hm, -⟩ := howned.popped t m config hw
  cases o with
  | cancelled => exact h.worker rfl rfl rfl nofun (Or.inl trivial)
  | raised => exact h.worker rfl rfl rfl nofun (Or.inl trivial)
  | returned =>
    obtain ⟨x, hx, hret⟩ := Option.bind_eq_some_iff.mp ho
    have hsuffix := (h.awaited t m config x hw hx).returned hret
    have hfree (m' : M) (hne : m' ≠ m) (hnone : s.tasks m' = none) : Startable (s.trace m') := by
      refine (h.free m' hnone fun u config' hw' => ?_).resolve_left (by rw [hw]; exact id)
      exact hne (UpdatesWorker.reloading.inj (hw'.symm.trans hw)).2.1
    dsimp only [AdapterMonitor.taskEnded]
    cases config with
    | some config =>
      refine traces_applyConfig howned h.lifeCycle h.mapped (fun m' hnone => ?_) hm (some config)
      rcases eq_or_ne m' m with rfl | hne
      · exact Or.inr (Or.inr hsuffix)
      · exact hfree m' hne hnone
    | none =>
      have hput : (s.putStatus [⟨m, .DESTROYED, none⟩]).Owned := howned.kept (.of_eq rfl rfl rfl id)
      have hself : (s.putStatus [⟨m, .DESTROYED, none⟩]).trace m = s.trace m ++ [.DESTROYED] := by
        rw [trace_putStatus, statuses_self]
      have hsame {m' : M} (hne : m' ≠ m) :
          (s.putStatus [⟨m, .DESTROYED, none⟩]).trace m' = s.trace m' := by
        rw [trace_putStatus, statuses_ne hne, List.append_nil]
      refine traces_applyConfig hput (fun m' => ?_) (fun m' u z hmap hz => ?_)
        (fun m' hnone => ?_) hm none
      · rcases eq_or_ne m' m with rfl | hne
        · rw [hself]
          obtain ⟨q, hq⟩ := hsuffix
          have hlast : (s.trace m').getLast? = some .SHUTDOWN :=
            hq ▸ List.getLast?_append_of_ne_nil q nofun
          exact lifeCycle_concat (h.lifeCycle m') (not_ending_of_last hlast nofun nofun) ⟨q, hq⟩
        · rw [hsame hne]
          exact h.lifeCycle m'
      · have hne : m' ≠ m := by
          rintro rfl
          exact absurd (hmap.symm.trans hm) (Option.some_ne_none u)
        rw [hsame hne]
        exact h.mapped m' u z hmap hz
      · rcases eq_or_ne m' m with rfl | hne
        · rw [hself]
          exact Or.inr (Or.inl (MonitorTask.last_concat _ _))
        · rw [hsame hne]
          exact hfree m' hne hnone

/-- The updates worker pops the task of a machine, which has not put its SHUTDOWN. -/
theorem Traces.awaitTask {s : AdapterMonitor M} (h : s.Traces) (howned : s.Owned)
    (hw : s.updatesWorker = .looping) {t : ℕ} {m : M} (hm : s.tasks m = some t)
    (hready : s.outcome t ≠ some .returned) (config : Option Config) :
    (s.awaitTask t m config).Traces := by
  obtain ⟨x, hx, rfl⟩ := howned.keyed m t hm
  have hself : (s.awaitTask t x.machineId config).trace x.machineId =
      s.trace x.machineId ++ [endingStatus config] :=
    (trace_putStatus s _ _).trans (congrArg _ (statuses_self _ _ _))
  have hsame {m' : M} (hne : m' ≠ x.machineId) :
      (s.awaitTask t x.machineId config).trace m' = s.trace m' := by
    refine (trace_putStatus s _ m').trans ?_
    rw [statuses_ne hne, List.append_nil]
  refine ⟨fun m' => ?_, fun m' u z hmap hz => ?_, fun u m' config' z hw' hz => ?_,
    fun m' hnone hnot => Or.inr ?_⟩
  · rcases eq_or_ne m' x.machineId with rfl | hne
    · rw [hself]
      exact lifeCycle_concat (h.lifeCycle _) (h.mapped _ t x hm hx).not_ending
        (follows_endingStatus _ config)
    · rw [hsame hne]
      exact h.lifeCycle m'
  · change Function.update s.tasks x.machineId none m' = some u at hmap
    rcases eq_or_ne m' x.machineId with rfl | hne
    · rw [Function.update_self] at hmap
      exact absurd hmap.symm (Option.some_ne_none u)
    · rw [Function.update_of_ne hne] at hmap
      obtain ⟨z', hz', hasked⟩ := (AllAsked.modify s.monitors t).before hz
      rw [hsame hne, hasked.at_]
      exact h.mapped m' u z' hmap hz'
  · obtain ⟨rfl, rfl, rfl⟩ := UpdatesWorker.reloading.inj hw'
    have hcancelled : (s.monitors.modify t MonitorTask.cancel)[t]? = some x.cancel := by
      rw [List.getElem?_modify, hx]
      exact congrArg some (if_pos rfl)
    obtain rfl := Option.some.inj (hcancelled.symm.trans hz)
    rw [hself]
    refine MonitorTask.cancel_windsDown ?_ (MonitorTask.last_concat _ _)
    rwa [outcome_of_get hx] at hready
  · change Function.update s.tasks x.machineId none m' = none at hnone
    have hne : m' ≠ x.machineId := by
      rintro rfl
      exact hnot t config rfl
    rw [Function.update_of_ne hne] at hnone
    rw [hsame hne]
    exact (h.free m' hnone (by rw [hw]; nofun)).resolve_left (by rw [hw]; exact id)

/-! ## The condition -/

/-- The next item is for a machine whose task has put its SHUTDOWN. -/
def takesShutDown (s : AdapterMonitor M) : Bool :=
  match s.updatesQueue.get? with
  | none => false
  | some ((m, _), _) =>
    match s.tasks m with
    | none => false
    | some t => s.outcome t == some .returned

/-- The condition of a step: the updates worker takes no item for such a machine. -/
def TimelyStep (s : AdapterMonitor M) (_ : Event M) : Prop :=
  s.updatesWorker = .looping → s.takesShutDown = false

instance (s : AdapterMonitor M) (e : Event M) : Decidable (s.TimelyStep e) :=
  inferInstanceAs (Decidable (s.updatesWorker = .looping → s.takesShutDown = false))

theorem Traces.turn {s : AdapterMonitor M} (h : s.Traces) (howned : s.Owned)
    (hw : s.updatesWorker = .looping) (htimely : s.takesShutDown = false) : s.turn.Traces := by
  have halive : ¬ s.updatesWorker.Stopping := by
    rw [hw]
    exact id
  have hcalm (t : ℕ) (m : M) (config : Option Config) :
      s.updatesWorker ≠ .reloading t m config := by
    rw [hw]
    nofun
  unfold takesShutDown at htimely
  dsimp only [AdapterMonitor.turn]
  split
  next => exact h.worker rfl rfl rfl nofun (Or.inr ⟨halive, hcalm⟩)
  next m config queue hget =>
    rw [hget] at htimely
    have hq : Owned { s with updatesQueue := queue } :=
      howned.goOn rfl rfl rfl (hw ▸ trivial) (hw.symm ▸ trivial)
    have hqt : Traces { s with updatesQueue := queue } :=
      h.worker rfl rfl rfl hcalm (Or.inr ⟨halive, hcalm⟩)
    split
    next t ht =>
      have hready : s.outcome t ≠ some .returned := by
        simp only [ht] at htimely
        exact beq_eq_false_iff_ne.mp htimely
      have hawait := hqt.awaitTask hq hw ht hready config
      dsimp only [AdapterMonitor.reload]
      split
      next => exact hawait
      next o ho => exact hawait.taskEnded (hq.awaitTask hw ht config) rfl ho
    next ht =>
      have hfree (m' : M) (hnone : s.tasks m' = none) : Startable (s.trace m') :=
        (h.free m' hnone fun t config' => hcalm t m' config').resolve_left halive
      split
      · exact hqt
      · exact traces_applyConfig hq h.lifeCycle h.mapped hfree ht config

/-- **One step keeps to the life cycle.** -/
theorem Traces.step {s s' : AdapterMonitor M} {e : Event M} (h : s.Traces) (howned : s.Owned)
    (hheld : s.Held) (htimely : s.TimelyStep e) (hs : s.step e = some s') : s'.Traces := by
  obtain hrun | hstill | ⟨hx, hy⟩ | ⟨hx, hxy⟩ | hupd := step_change hs
  · have hw := howned.fresh hrun
    exact h.worker rfl rfl rfl nofun (Or.inr ⟨by rw [hw]; exact id, by rw [hw]; nofun⟩)
  · exact h.still hstill
  · exact h.runs howned hheld hx hy
  · exact h.moves hx hxy
  · obtain ⟨-, hw, -⟩ | ⟨-, hcalm, hw, -⟩ | ⟨-, hw⟩ | ⟨-, hw, ho⟩ := updatesWorkerStep_effect hupd
    · exact h.worker rfl rfl rfl (fun t m config heq => hw.not_awaits t ⟨m, config, heq⟩)
        (Or.inl hw)
    · exact h.worker rfl rfl rfl (fun t m config heq => hw.not_awaits t ⟨m, config, heq⟩)
        (Or.inr ⟨hcalm.not_stopping, fun t m config heq => hcalm.not_awaits t ⟨m, config, heq⟩⟩)
    · exact h.turn howned hw (htimely hw)
    · exact h.taskEnded howned hw ho

/-- **Status traces follow the life cycle**: in every run where the updates worker takes
no item for a machine whose task has put its SHUTDOWN, in every state and for every
machine. -/
theorem traces_lifeCycle (es : List (Event M)) (s : AdapterMonitor M)
    (h : exec step init es = some s) (htimely : Along step TimelyStep init es) (m : M) :
    LifeCycle (s.trace m) := by
  have hinv : s.Owned ∧ s.Held ∧ s.Traces :=
    exec_induct_mem (P := fun s : AdapterMonitor M => s.Owned ∧ s.Held ∧ s.Traces)
      (Q := fun _ => True) (fun s e t hs _ he hstep =>
        ⟨hs.1.step hstep, hs.2.1.step hs.1 hstep, hs.2.2.step hs.1 hs.2.1 he hstep⟩)
      h (fun _ _ => trivial) htimely ⟨owned_init, held_init, traces_init⟩
  exact hinv.2.2.lifeCycle m

/-- **The condition is needed**: a turn that takes an item for a machine whose task has
put its SHUTDOWN removes the machine without a SHUTDOWN, or leaves RELOADING as its last
status with a new task to start. -/
theorem late_take_breaks {s : AdapterMonitor M} {m : M} {config : Option Config}
    {queue : Queue (M × Option Config)} {t : ℕ}
    (hget : s.updatesQueue.get? = some ((m, config), queue)) (ht : s.tasks m = some t)
    (ho : s.outcome t = some .returned) :
    (config = none → ¬ LifeCycle (s.turn.trace m)) ∧
    (config.isSome → s.turn.tasks m = some s.monitors.length ∧
      ∀ st, st ≠ .SHUTDOWN → ¬ LifeCycle (s.turn.trace m ++ [st])) := by
  have breaks {p : List Status} {st : Status} (hp : Ending p) (hst : st ≠ .SHUTDOWN) :
      ¬ LifeCycle (p ++ [st]) := fun h => hst ((admitted_concat.mp h).2.2 hp)
  have hawait : (AdapterMonitor.awaitTask { s with updatesQueue := queue } t m config).outcome t =
      some .returned :=
    ((AllAsked.modify s.monitors t).outcome t).trans ho
  have hturn : s.turn = (AdapterMonitor.awaitTask { s with updatesQueue := queue } t m
      config).taskEnded m config .returned := by
    simp only [AdapterMonitor.turn, hget, ht, AdapterMonitor.reload, hawait]
  have hlast : Ending (s.trace m ++ [endingStatus config]) :=
    ending_endingStatus (MonitorTask.last_concat _ _)
  have htrace : (AdapterMonitor.awaitTask { s with updatesQueue := queue } t m config).trace m =
      s.trace m ++ [endingStatus config] :=
    (trace_putStatus s _ _).trans (congrArg _ (statuses_self _ _ _))
  rw [hturn]
  cases config with
  | none =>
    refine ⟨fun _ => ?_, nofun⟩
    have hdestroyed := trace_putStatus
      (AdapterMonitor.awaitTask { s with updatesQueue := queue } t m none) [⟨m, .DESTROYED, none⟩] m
    rw [htrace, statuses_self] at hdestroyed
    show ¬ LifeCycle (((AdapterMonitor.awaitTask _ t m none).putStatus _).trace m)
    rw [hdestroyed]
    exact breaks hlast nofun
  | some config =>
    refine ⟨nofun, fun _ => ⟨?_, fun st hst => ?_⟩⟩
    · show Function.update (Function.update s.tasks m none) m
        (some (s.monitors.modify t MonitorTask.cancel).length) m = _
      rw [Function.update_self, List.length_modify]
    · show ¬ LifeCycle ((AdapterMonitor.awaitTask _ t m (some config)).trace m ++ [st])
      rw [htrace]
      exact breaks hlast hst

end

/-- The adapter of `reloading` exits, its machine gets a new one and is removed. -/
def removed : List (Event String) :=
  reloading ++ [.exit 0 0, .monitor 0 .ok, .updates .ok, .updates .ok, .monitor 1 .ok, .fork 1,
    .monitor 1 .ok, .exit 1 1, .monitor 1 (.stderr (some "lost")), .notify "lathe" none,
    .updates .ok, .updates .ok, .monitor 1 .ok, .updates .ok]

theorem traces_lifeCycle_removed : ∃ s, exec step init removed = some s ∧
    s.trace "lathe" = [.STARTING, .STARTED, .RELOADING, .SHUTDOWN, .STARTING, .STARTED, .FAILED,
      .DESTROYING, .SHUTDOWN, .DESTROYED] ∧ LifeCycle (s.trace "lathe") :=
  ⟨_, rfl, rfl, traces_lifeCycle removed _ rfl (by decide) "lathe"⟩

/-- `run` is cancelled while the task of a reload has not yet seen its own cancellation:
the task ends in its handler, and the updates worker goes on. It takes an item for
another machine, whose task `run` had cancelled too. -/
def late : List (Event String) :=
  [.run .returned, .updates .ok, .updates .ok,
    .updates (.rows [("lathe", ⟨some "10.0.0.1", some 8193⟩),
      ("mill", ⟨some "10.0.0.2", some 8193⟩)]),
    .updates .ok, .updates .ok, .updates .ok, .updates .ok, .monitor 0 .ok, .fork 0,
    .monitor 0 .ok, .monitor 1 .ok, .fork 1, .monitor 1 .ok,
    .notify "lathe" (some ⟨some "10.0.0.3", some 8193⟩), .updates .ok, .updates .ok, .cancel,
    .run .cancelled, .monitor 0 .ok, .exit 0 0, .monitor 0 .ok, .updates .ok, .updates .ok,
    .monitor 1 .ok, .exit 1 0, .monitor 1 .ok,
    .notify "mill" (some ⟨some "10.0.0.4", some 8193⟩), .updates .ok, .updates .ok, .updates .ok,
    .monitor 3 .ok]

theorem late_reload : ∃ s, exec step init late = some s ∧
    s.trace "mill" = [.STARTING, .STARTED, .SHUTDOWN, .RELOADING, .STARTING] ∧
    ¬ LifeCycle (s.trace "mill") :=
  ⟨_, rfl, rfl, fun h => nomatch (h [.STARTING, .STARTED, .SHUTDOWN, .RELOADING] .STARTING
    (List.prefix_refl _)).2 (Or.inl rfl)⟩

end AdapterMonitor

end FanucDriver.Monitor
