import FanucDriver.Monitor.Running
import FanucDriver.Monitor.Table

/-!
# The table and the adapter processes

`Table.lean` follows `machine_monitor` up to `updates_queue`, `Converge.lean` goes from the
queue to the tasks. Here the two run side by side: the updates worker comes back from its
three calls to the database when `Feed` takes the step, and a notification that is delivered
is the one its callback puts on the queue.

`rows_supervised` is what the supervisor is for:

> in every run that meets the conditions of both, whenever the worker waits on an empty queue
> with nothing on its way, there is a task for each row of the table and for nothing else, and
> every adapter process that runs was started for a row of the table, with the address there.
> Where no operation of a task and no transaction of the status worker fails, the tasks go on.

It says nothing of a run in which a condition fails; `synced_iff` and `burst_ends_worker` show
what happens in those.
-/

namespace FanucDriver.Monitor

open FanucDriver.Lib

variable {M : Type} [DecidableEq M]

/-- The table with the worker's part of it, and the supervisor. -/
abbrev Supervision (M : Type) := Feed M × AdapterMonitor M

/-- Where the updates worker is in the database. -/
def AdapterMonitor.inDatabase (s : AdapterMonitor M) : Bool :=
  !s.updatesCancelling &&
    match s.updatesWorker with
    | .acquiring | .fetching | .listening => true
    | _ => false

/-- Which events go together: a statement commits by itself, and a call to the database comes
back to both. Everything else is the supervisor's own. -/
def Meets (s : Supervision M) : Sync (FeedEvent M) (AdapterMonitor.Event M) → Prop
  | .left (.commit _) => True
  | .both .connect (.updates .ok) => s.2.inDatabase = true ∧ s.2.updatesWorker = .acquiring
  | .both .select (.updates (.rows rows)) =>
    s.2.inDatabase = true ∧ s.2.updatesWorker = .fetching ∧ rows = s.1.table.rows
  | .both .addListener (.updates .ok) => s.2.inDatabase = true ∧ s.2.updatesWorker = .listening
  | .both .deliver (.notify m payload) => s.1.inFlight.head? = some (m, payload)
  | .right (.notify _ _) => False
  | .right (.updates .error) => True
  | .right (.updates _) => s.2.inDatabase = false
  | .right _ => True
  | _ => False

instance (s : Supervision M) (e : Sync (FeedEvent M) (AdapterMonitor.Event M)) :
    Decidable (Meets s e) := by
  unfold Meets
  split <;> infer_instance

/-- One event of the whole. -/
def superviseStep : Supervision M → Sync (FeedEvent M) (AdapterMonitor.Event M) →
    Option (Supervision M) :=
  syncStep Feed.step AdapterMonitor.step Meets

namespace AdapterMonitor

/-- The condition of a step of the supervisor: nothing disturbs the worker, and it takes no
item too early. -/
def Careful (s : AdapterMonitor M) (e : Event M) : Prop :=
  e.undisturbing = true ∧ s.ReadyStep e

instance (s : AdapterMonitor M) (e : Event M) : Decidable (s.Careful e) :=
  inferInstanceAs (Decidable (_ ∧ _))

/-! ## What is put on `updates_queue` -/

/-- What an event puts there. -/
def puts (s : AdapterMonitor M) : Event M → List (M × Option Config)
  | .notify machineId payload => [(machineId, payload)]
  | .updates (.rows rows) =>
    if s.updatesWorker = .fetching then rows.map fun row => (row.1, some row.2) else []
  | _ => []

omit [DecidableEq M] in
theorem applyConfig_puts [DecidableEq M] (s : AdapterMonitor M) (m : M) (config : Option Config) :
    (s.applyConfig m config).updatesQueue.puts = s.updatesQueue.puts := by
  cases config <;> rfl

theorem taskEnded_puts (s : AdapterMonitor M) (m : M) (config : Option Config) (o : Outcome) :
    (s.taskEnded m config o).updatesQueue.puts = s.updatesQueue.puts := by
  cases o with
  | returned => cases config <;> rfl
  | _ => rfl

theorem turn_puts (s : AdapterMonitor M) : s.turn.updatesQueue.puts = s.updatesQueue.puts := by
  dsimp only [turn]
  split
  next => rfl
  next m config queue hq =>
    have hputs := (Queue.get?_eq_some hq).1
    split
    · dsimp only [reload]
      split
      · exact hputs
      · exact (taskEnded_puts _ m config _).trans hputs
    · split
      · exact hputs
      · exact (applyConfig_puts _ m config).trans hputs

/-- The updates worker puts the rows it has fetched there, and nothing else. -/
theorem updatesWorkerStep_puts {s s' : AdapterMonitor M} {r : WorkerReply M}
    (hcancel : s.updatesCancelling = false) (h : s.updatesWorkerStep r = some s') :
    s'.updatesQueue.puts = s.updatesQueue.puts ++ s.puts (.updates r) := by
  have hnone : ∀ {s' : AdapterMonitor M}, (∀ rows, r = .rows rows → s.updatesWorker ≠ .fetching) →
      s'.updatesQueue.puts = s.updatesQueue.puts →
      s'.updatesQueue.puts = s.updatesQueue.puts ++ s.puts (.updates r) := by
    intro s' hr hs'
    cases r with
    | rows rows => rw [hs', puts, if_neg (hr rows rfl), List.append_nil]
    | _ => exact hs'.trans (List.append_nil _).symm
  rw [updatesWorkerStep, hcancel, if_neg Bool.false_ne_true] at h
  unfold updatesResumed at h
  split at h
  case h_4 rows hw =>
    obtain rfl := (Option.some.inj h).symm
    rw [puts, if_pos hw]
    rfl
  case h_8 hw => exact hnone (fun _ _ => by rw [hw]; nofun) (Option.some.inj h ▸ turn_puts s)
  case h_9 hw =>
    split at h
    · exact absurd h.symm (Option.some_ne_none _)
    · exact hnone (fun _ _ => by rw [hw]; nofun) (Option.some.inj h ▸ rfl)
  case h_10 t m config hw =>
    obtain ⟨o, -, rfl⟩ := Option.map_eq_some_iff.mp h
    exact hnone (fun _ _ => by rw [hw]; nofun) (taskEnded_puts s m config o)
  all_goals first
    | exact absurd h.symm (Option.some_ne_none _)
    | exact hnone (fun _ hr => by nomatch hr) (Option.some.inj h ▸ rfl)

/-- The call to the database comes back. -/
theorem resumed_of_inDatabase {s s' : AdapterMonitor M} {r : WorkerReply M}
    (hdb : s.inDatabase = true) (h : s.step (.updates r) = some s') :
    s.updatesCancelling = false ∧ s.updatesResumed r = some s' := by
  obtain ⟨hcancel, -⟩ := Bool.and_eq_true_iff.mp hdb
  have hcancel : s.updatesCancelling = false := by simpa using hcancel
  refine ⟨hcancel, ?_⟩
  have hstep : s.updatesWorkerStep r = some s' := by
    unfold AdapterMonitor.step at h
    split at h
    next heq => exact AdapterMonitor.Event.updates.inj heq ▸ h
    next hne => exact absurd rfl (hne r)
    next => exact h
  rwa [updatesWorkerStep, hcancel, if_neg Bool.false_ne_true] at hstep

end AdapterMonitor

/-! ## The two sides -/

/-- How far the worker is, from both sides. -/
def SamePhase : Startup M → UpdatesWorker M → Prop
  | .starting, w => w = .uncreated ∨ w = .start ∨ w = .acquiring
  | .connected, w => w = .fetching
  | .selected _, w => w = .listening
  | .listening, _ => True

/-- Both sides agree on how far the worker is and on what was put on the queue, and each keeps
its own invariant. -/
structure Linked (s : Supervision M) : Prop where
  puts : s.1.puts = s.2.updatesQueue.puts
  phase : SamePhase s.1.worker s.2.updatesWorker
  follows : s.1.Follows
  converging : s.2.Converging

theorem linked_init (table : Table M) : Linked (Feed.init table, AdapterMonitor.init) :=
  ⟨rfl, Or.inl rfl, ⟨rfl, rfl⟩, AdapterMonitor.converging_init⟩

namespace AdapterMonitor

/-- A step of the updates worker outside the database. -/
theorem Converging.own_updates {s s' : AdapterMonitor M} (h : s.Converging) {r : WorkerReply M}
    (hdb : s.inDatabase = false) (hs : s.updatesWorkerStep r = some s') :
    s'.updatesQueue.puts = s.updatesQueue.puts ∧
    ∀ phase, SamePhase phase s.updatesWorker → SamePhase phase s'.updatesWorker := by
  have hcancel := h.undisturbed.updates
  have hout : s.updatesWorker ≠ .acquiring ∧ s.updatesWorker ≠ .fetching ∧
      s.updatesWorker ≠ .listening := by
    unfold inDatabase at hdb
    rw [hcancel] at hdb
    refine ⟨?_, ?_, ?_⟩ <;>
      exact fun hw => absurd (hw ▸ hdb).symm Bool.false_ne_true
  constructor
  · rw [updatesWorkerStep_puts hcancel hs]
    cases r with
    | rows rows => rw [puts, if_neg hout.2.1, List.append_nil]
    | _ => exact List.append_nil _
  · intro phase hphase
    cases phase with
    | starting =>
      rw [AdapterMonitor.updatesWorkerStep, hcancel, if_neg Bool.false_ne_true] at hs
      rcases hphase with hw | hw | hw
      · unfold updatesResumed at hs
        rw [hw] at hs
        exact absurd hs.symm (Option.some_ne_none _)
      · unfold updatesResumed at hs
        rw [hw] at hs
        cases r with
        | ok =>
          obtain rfl := (Option.some.inj hs).symm
          exact Or.inr (Or.inr rfl)
        | _ => exact absurd hs.symm (Option.some_ne_none _)
      · exact absurd hw hout.1
    | connected => exact absurd hphase hout.2.1
    | selected _ => exact absurd hphase hout.2.2
    | listening => trivial

/-- Any other step of the supervisor. -/
theorem Converging.own_between {s s' : AdapterMonitor M} (h : s.Converging) {e : Event M}
    (he : e.undisturbing = true) (hne : ∀ r, e ≠ .updates r) (hnotify : ∀ m p, e ≠ .notify m p)
    (hs : s.stepSuspended e = some s') :
    s'.updatesQueue.puts = s.updatesQueue.puts ∧
    ∀ phase, SamePhase phase s.updatesWorker → SamePhase phase s'.updatesWorker := by
  constructor
  · cases e with
    | notify m p => exact absurd rfl (hnotify m p)
    | updates r => exact absurd rfl (hne r)
    | cancel => exact absurd he Bool.false_ne_true
    | status committed =>
      obtain ⟨_, _, _, rfl⟩ := statusWorkerStep_eq hs
      rfl
    | run o =>
      rcases h.undisturbed.runStep h.tracking.alive hs with ⟨-, rfl⟩ | ⟨o, rfl⟩ <;> rfl
    | _ =>
      obtain ⟨_, _, _, -, -, rfl⟩ := exists_of_advance hs
      rfl
  · intro phase hphase
    obtain ⟨-, hadvanced | ⟨hrun, rfl⟩⟩ := h.undisturbed.between h.tracking.alive he hne hs
    · rwa [hadvanced.updatesWorker]
    · -- `run` creates the worker
      rw [h.owned.fresh hrun] at hphase
      cases phase with
      | starting => exact Or.inr (Or.inl rfl)
      | connected => exact absurd hphase nofun
      | selected _ => exact absurd hphase nofun
      | listening => trivial

/-- What the supervisor does by itself is not seen from the table. -/
theorem Converging.own_step {s s' : AdapterMonitor M} (h : s.Converging) {e : Event M}
    (he : e.undisturbing = true) (hdb : ∀ r, e = .updates r → s.inDatabase = false)
    (hnotify : ∀ m p, e ≠ .notify m p) (hs : s.step e = some s') :
    s'.updatesQueue.puts = s.updatesQueue.puts ∧
    ∀ phase, SamePhase phase s.updatesWorker → SamePhase phase s'.updatesWorker := by
  by_cases hupdates : ∃ r, e = .updates r
  · obtain ⟨r, rfl⟩ := hupdates
    refine h.own_updates (hdb r rfl) (r := r) ?_
    unfold AdapterMonitor.step at hs
    split at hs
    next heq => exact AdapterMonitor.Event.updates.inj heq ▸ hs
    next hne => exact absurd rfl (hne r)
    next => exact hs
  · have hne : ∀ r, e ≠ .updates r := fun r hr => hupdates ⟨r, hr⟩
    refine h.own_between he hne hnotify ?_
    unfold AdapterMonitor.step at hs
    split at hs
    next r _ => exact absurd rfl (hne r)
    next => exact absurd hs.symm (Option.some_ne_none _)
    next => exact hs

end AdapterMonitor

/-- **One step of the whole.** -/
theorem Linked.step {s t : Supervision M} {e : Sync (FeedEvent M) (AdapterMonitor.Event M)}
    (h : Linked s) (hheard : ∀ a ∈ e.left?, s.1.Heard a)
    (hcareful : ∀ b ∈ e.right?, s.2.Careful b) (hs : superviseStep s e = some t) : Linked t := by
  obtain ⟨f, s⟩ := s
  obtain ⟨f', s'⟩ := t
  obtain ⟨hputs, hphase, hfollows, hconverging⟩ := h
  obtain ⟨hmeets, hl, hr⟩ := syncStep_cases hs
  -- each side keeps its own invariant
  have hfollows' : f'.Follows := by
    cases hel : e.left? with
    | none =>
      rw [hel] at hl
      exact (show f' = f from hl) ▸ hfollows
    | some a =>
      rw [hel] at hl
      exact hfollows.step (hheard a hel) hl
  have hconverging' : s'.Converging := by
    cases her : e.right? with
    | none =>
      rw [her] at hr
      exact (show s' = s from hr) ▸ hconverging
    | some b =>
      rw [her] at hr
      exact hconverging.step (hcareful b her).1 (hcareful b her).2 hr
  suffices hboth : f'.puts = s'.updatesQueue.puts ∧ SamePhase f'.worker s'.updatesWorker from
    ⟨hboth.1, hboth.2, hfollows', hconverging'⟩
  cases e with
  | left a =>
    obtain rfl : s' = s := hr
    cases a with
    | commit st =>
      obtain ⟨table, -, rfl⟩ := Option.map_eq_some_iff.mp hl
      obtain ⟨_, worker, _, _⟩ := f
      cases worker <;> exact ⟨hputs, hphase⟩
    | _ => exact absurd hmeets id
  | right b =>
    obtain rfl : f' = f := hl
    have hown := hconverging.own_step (hcareful b rfl).1 (fun r hb => ?db)
      (fun m p hb => ?notify) hr
    case db =>
      subst hb
      cases r with
      | error => exact absurd (hcareful _ rfl).1 Bool.false_ne_true
      | _ => exact hmeets
    case notify =>
      subst hb
      exact hmeets
    exact ⟨hputs.trans hown.1.symm, hown.2 _ hphase⟩
  | both a b =>
    obtain ⟨table, worker, inFlight, puts⟩ := f
    cases a with
    | commit st => exact absurd hmeets id
    | connect =>
      match b, hmeets with
      | .updates .ok, ⟨hdb, hw⟩ =>
        obtain ⟨-, hresumed⟩ := AdapterMonitor.resumed_of_inDatabase hdb hr
        unfold AdapterMonitor.updatesResumed at hresumed
        rw [hw] at hresumed
        obtain rfl := (Option.some.inj hresumed).symm
        cases worker with
        | starting =>
          obtain rfl := (Option.some.inj hl).symm
          exact ⟨hputs, rfl⟩
        | _ => exact absurd hl.symm (Option.some_ne_none _)
    | select =>
      match b, hmeets with
      | .updates (.rows rows), ⟨hdb, hw, hrows⟩ =>
        obtain ⟨-, hresumed⟩ := AdapterMonitor.resumed_of_inDatabase hdb hr
        unfold AdapterMonitor.updatesResumed at hresumed
        rw [hw] at hresumed
        obtain rfl := (Option.some.inj hresumed).symm
        cases worker with
        | connected =>
          obtain rfl := (Option.some.inj hl).symm
          refine ⟨?_, rfl⟩
          show puts ++ table.items = s.updatesQueue.puts ++ rows.map _
          rw [hrows, show puts = s.updatesQueue.puts from hputs]
          rfl
        | _ => exact absurd hl.symm (Option.some_ne_none _)
    | addListener =>
      match b, hmeets with
      | .updates .ok, ⟨hdb, hw⟩ =>
        obtain ⟨-, hresumed⟩ := AdapterMonitor.resumed_of_inDatabase hdb hr
        unfold AdapterMonitor.updatesResumed at hresumed
        rw [hw] at hresumed
        obtain rfl := (Option.some.inj hresumed).symm
        cases worker with
        | selected _ =>
          obtain rfl := (Option.some.inj hl).symm
          exact ⟨hputs, trivial⟩
        | _ => exact absurd hl.symm (Option.some_ne_none _)
    | deliver =>
      match b, hmeets with
      | .notify m payload, hhead =>
        have hput : s' = s.putUpdates [(m, payload)] := by
          change s.step (.notify m payload) = some s' at hr
          unfold AdapterMonitor.step at hr
          split at hr
          next heq => nomatch heq
          next => exact absurd hr.symm (Option.some_ne_none _)
          next => exact (Option.some.inj hr).symm
        cases inFlight with
        | nil => exact absurd hl.symm (Option.some_ne_none _)
        | cons item rest =>
          obtain rfl : item = (m, payload) := Option.some.inj hhead
          obtain rfl := (Option.some.inj hl).symm
          subst hput
          exact ⟨congrArg (· ++ [(m, payload)]) hputs, hphase⟩

/-! ## Quiet states -/

/-- The worker waits on an empty queue, and nothing is on its way to it. -/
structure Quiet (s : Supervision M) : Prop where
  waiting : s.2.updatesWorker = .getting
  empty : s.2.updatesQueue.items = []
  delivered : s.1.inFlight = []

/-- The supervisor does what the table says. -/
structure Supervises (s : Supervision M) : Prop where
  /-- There is a task for each row and for nothing else. -/
  tasks : ∀ m, (s.2.tasks m).isSome = (s.1.table.contents m).isSome
  /-- A task has the address of its row. -/
  configs : ∀ m t, s.2.tasks m = some t → ∃ x, s.2.monitors[t]? = some x ∧ x.machineId = m ∧
    s.1.table.contents m = some x.config
  /-- An adapter that runs is that of a row, and was started with the row's address. -/
  processes : ∀ x ∈ s.2.monitors, x.at_.live = true →
    s.1.table.contents x.machineId = some x.config

theorem Linked.supervises {s : Supervision M} (h : Linked s) (hq : Quiet s) : Supervises s := by
  obtain ⟨f, s⟩ := s
  obtain ⟨hputs, hphase, hfollows, hconverging⟩ := h
  obtain ⟨hw, hempty, hdelivered⟩ := hq
  -- the worker has come back from the database
  have hlistening : f.worker = .listening := by
    change s.updatesWorker = .getting at hw
    change SamePhase f.worker s.updatesWorker at hphase
    rw [hw] at hphase
    cases hf : f.worker with
    | listening => rfl
    | starting =>
      rw [hf] at hphase
      rcases hphase with h | h | h <;> exact nomatch h
    | _ => rw [hf] at hphase; exact nomatch hphase
  have hsynced : ∀ m, lastConfig s.updatesQueue.puts m = f.table.contents m := by
    intro m
    have hall : f.Synced := by
      change f.Follows at hfollows
      unfold Feed.Follows at hfollows
      rwa [hlistening] at hfollows
    rw [← show f.puts = s.updatesQueue.puts from hputs, ← hall m,
      show f.inFlight = [] from hdelivered, List.append_nil]
  have hconverged := hconverging.converged hw hempty
  have hconfigs : ∀ m t, s.tasks m = some t → ∃ x, s.monitors[t]? = some x ∧ x.machineId = m ∧
      f.table.contents m = some x.config := by
    intro m t ht
    obtain ⟨x, hx, hm, hlast⟩ := hconverged.created m t ht
    exact ⟨x, hx, hm, hsynced m ▸ hlast⟩
  refine ⟨fun m => (hconverged.keys m).trans (congrArg _ (hsynced m)), hconfigs, ?_⟩
  intro x hx hlive
  obtain ⟨t, ht⟩ := List.mem_iff_getElem?.mp hx
  -- a task with a process is in the map
  have hmapped := hconverging.owned.mapped (show s.updatesWorker.Calm from hw ▸ trivial) t x ht
    (Or.inr hlive)
  obtain ⟨y, hy, -, hcontents⟩ := hconfigs x.machineId t hmapped
  obtain rfl := Option.some.inj (ht.symm.trans hy)
  exact hcontents

/-- `run` waits for the workers, and no task of the map has ended or is asked to. -/
structure GoesOn (s : AdapterMonitor M) : Prop where
  run : s.run = .supervising
  tasks : ∀ m t, s.tasks m = some t → ∃ x, s.monitors[t]? = some x ∧ x.cancelling = false ∧
    x.at_.outcome = none

theorem AdapterMonitor.Intact.goesOn {s : AdapterMonitor M} (h : s.Intact) (hs : s.Converging)
    (hw : s.updatesWorker = .getting) : GoesOn s := by
  refine ⟨h.run.resolve_left (by rw [hw]; nofun), fun m t ht => ?_⟩
  obtain ⟨x, hx, -⟩ := hs.owned.keyed m t ht
  exact ⟨x, hx, (hs.tracking.free m t x ht hx).cancelling, h.tasks m t x ht hx⟩

/-- One step of the whole that is no failure. -/
theorem intact_step {s t : Supervision M} {e : Sync (FeedEvent M) (AdapterMonitor.Event M)}
    (h : s.2.Intact) (hs : s.2.Converging)
    (hright : ∀ b ∈ e.right?, s.2.Careful b ∧ b.unfailing = true)
    (hstep : superviseStep s e = some t) : t.2.Intact := by
  obtain ⟨-, -, hr⟩ := syncStep_cases hstep
  cases her : e.right? with
  | none =>
    rw [her] at hr
    exact (show t.2 = s.2 from hr) ▸ h
  | some b =>
    rw [her] at hr
    obtain ⟨hcareful, hunfailing⟩ := hright b her
    exact h.step hs hcareful.1 hunfailing hr

/-- **The supervisor does what the table says**: in every run of statements, deliveries,
adapters and workers in any order, that keeps to the conditions of `synced_iff` and `converges`,
whenever the worker has nothing left to do. Where no adapter fails to start, no output fails to
decode and no status fails to be written, all the tasks go on. -/
theorem rows_supervised (table : Table M)
    (es : List (Sync (FeedEvent M) (AdapterMonitor.Event M))) (s : Supervision M)
    (h : exec superviseStep (Feed.init table, AdapterMonitor.init) es = some s)
    (hheard : Along Feed.step Feed.Heard (Feed.init table) (es.filterMap Sync.left?))
    (hcareful : Along AdapterMonitor.step AdapterMonitor.Careful AdapterMonitor.init
      (es.filterMap Sync.right?))
    (hquiet : Quiet s) :
    Supervises s ∧ ((∀ e ∈ es.filterMap Sync.right?, e.unfailing = true) → GoesOn s.2) := by
  constructor
  · exact Linked.supervises (syncExec_induct (fun _ _ _ hs hl hr hstep =>
      Linked.step hs hl hr hstep) h hheard hcareful (linked_init table)) hquiet
  · intro hunfailing
    have hboth : Linked s ∧ s.2.Intact :=
      syncExec_induct (P := fun s => Linked s ∧ s.2.Intact)
        (fun _ _ _ hs hl hr hstep => ⟨hs.1.step hl (fun b hb => (hr b hb).1) hstep,
          intact_step hs.2 hs.1.converging hr hstep⟩)
        h hheard (hcareful.and_mem hunfailing) ⟨linked_init table, AdapterMonitor.intact_init⟩
    exact hboth.2.goesOn hboth.1.converging hquiet.waiting

/-- The lathe is in the table at the start; the mill is added while the lathe's adapter runs,
and the lathe is then deleted. -/
def rowsChange : List (Sync (FeedEvent String) (AdapterMonitor.Event String)) :=
  [.right (.run .returned), .right (.updates .ok), .both .connect (.updates .ok),
    .both .select (.updates (.rows [("lathe", Feed.lathe)])), .both .addListener (.updates .ok),
    .right (.updates .ok), .right (.updates .ok), .right (.monitor 0 .ok), .right (.fork 0),
    .right (.monitor 0 .ok),
    .left (.commit (.insert [("mill", ⟨some "10.0.0.2", some 8193⟩)])),
    .left (.commit (.delete fun row => row.1 = "lathe")),
    .both .deliver (.notify "mill" (some ⟨some "10.0.0.2", some 8193⟩)),
    .both .deliver (.notify "lathe" none), .right (.updates .ok), .right (.updates .ok),
    .right (.updates .ok), .right (.monitor 0 .ok), .right (.exit 0 0), .right (.monitor 0 .ok),
    .right (.updates .ok), .right (.updates .ok)]

theorem rows_supervised_change : ∃ s,
    exec superviseStep (Feed.init ⟨[("lathe", Feed.lathe)], by decide⟩, AdapterMonitor.init)
      rowsChange = some s ∧
    s.2.tasks "lathe" = none ∧ s.2.tasks "mill" = some 1 ∧ Supervises s ∧ GoesOn s.2 := by
  have hrun : (exec superviseStep
      (Feed.init ⟨[("lathe", Feed.lathe)], by decide⟩, AdapterMonitor.init) rowsChange).map
      (fun s => ((s.2.tasks "lathe", s.2.tasks "mill"),
        (s.2.updatesWorker, s.2.updatesQueue.items ++ s.1.inFlight)))
      = some ((none, some 1), (.getting, [])) := by decide +kernel
  obtain ⟨s, hs, heq⟩ := Option.map_eq_some_iff.mp hrun
  simp only [Prod.mk.injEq] at heq
  obtain ⟨⟨hlathe, hmill⟩, hwaiting, hitems⟩ := heq
  obtain ⟨hempty, hdelivered⟩ := List.append_eq_nil_iff.mp hitems
  suffices hheard : Along Feed.step Feed.Heard (Feed.init ⟨[("lathe", Feed.lathe)], by decide⟩)
      (rowsChange.filterMap Sync.left?) by
    obtain ⟨hsupervises, hgoesOn⟩ := rows_supervised _ rowsChange s hs hheard (by decide +kernel)
      ⟨hwaiting, hempty, hdelivered⟩
    exact ⟨s, hs, hlathe, hmill, hsupervises, hgoesOn (by decide +kernel)⟩
  -- the table has not changed when the listener is there
  refine ⟨trivial, fun t ht => ?_⟩
  obtain rfl := (Option.some.inj ht).symm
  refine ⟨trivial, fun t ht => ?_⟩
  obtain rfl := (Option.some.inj ht).symm
  refine ⟨fun selected hs m => ?_, fun t ht => ?_⟩
  · obtain rfl := (Startup.selected.inj hs).symm
    rfl
  obtain rfl := (Option.some.inj ht).symm
  exact ⟨trivial, fun t _ => ⟨trivial, fun t _ => ⟨trivial, fun t _ => ⟨trivial,
    fun _ _ => trivial⟩⟩⟩⟩

end FanucDriver.Monitor
