import FanucDriver.Monitor.Daemon
import Mathlib.Data.List.Nodup

/-!
# `machine_monitor` and what the supervisor hears of it

The updates worker reads the table once and then follows it through the trigger
`notify_event` and a listener. `Feed` is the table together with how far the worker
has got: connected, with the rows selected, listening; and what is on its way.

Two changes escape it. A statement that commits after the rows were selected and
before the listener is there is heard by no one, and an `UPDATE` of a `machine_id`
tells of the new id alone, so that the old one stays (`changes_escape`).
`synced_iff` says that these are all: in every run the worker is told of every state
of the table exactly when no such statement commits.

Mirroring notes:
- Every statement is a transaction of its own. It takes effect when the ids it
  leaves are different from each other, which is the primary key of the table.
- A notification reaches the sessions that listen when its statement commits, in
  order. The rows a `select` returns are the table at that moment, in its order.
- The callback of the listener undoes the payload that the trigger has built.
-/

namespace FanucDriver.Monitor

open FanucDriver.Lib

variable {M : Type}

/-! ## The table -/

/-- The table `machine_monitor`; `machine_id` is its primary key. -/
structure Table (M : Type) where
  rows : List (M × Config)
  nodup : (rows.map Prod.fst).Nodup

/-- A change of one row. -/
inductive RowChange (M : Type) where
  | insert (new : M × Config)
  | update (old new : M × Config)
  | delete (old : M × Config)

/-- A statement: the rows to insert; the new row, or nothing, for each row; the rows
to delete. -/
inductive Statement (M : Type) where
  | insert (rows : List (M × Config))
  | update (set : M × Config → Option (M × Config))
  | delete (where_ : M × Config → Bool)

namespace Statement

/-- The rows it changes. -/
def changes (st : Statement M) (t : Table M) : List (RowChange M) :=
  match st with
  | insert rows => rows.map .insert
  | update set => t.rows.filterMap fun old => (set old).map fun new => .update old new
  | delete where_ => (t.rows.filter where_).map .delete

/-- The rows it leaves. -/
def result (st : Statement M) (t : Table M) : List (M × Config) :=
  match st with
  | insert rows => t.rows ++ rows
  | update set => t.rows.map fun old => (set old).getD old
  | delete where_ => t.rows.filter fun row => !where_ row

end Statement

/-- `notify_event`: the payload for a change of a row, as the callback reads it. -/
def notifyEvent : RowChange M → M × Option Config
  | .delete old => (old.1, none)
  | .insert new => (new.1, some new.2)
  | .update _ new => (new.1, some new.2)

/-- The notifications of a statement. -/
def Statement.events (st : Statement M) (t : Table M) : List (M × Option Config) :=
  (st.changes t).map notifyEvent

/-! ## What a statement tells -/

/-- A notification with a configuration is of a row that the statement leaves. -/
theorem Statement.mem_result_of_event {st : Statement M} {t : Table M} {m : M} {config : Config}
    (h : (m, some config) ∈ st.events t) : (m, config) ∈ st.result t := by
  obtain ⟨change, hchange, heq⟩ := List.mem_map.mp h
  cases st with
  | insert rows =>
    obtain ⟨row, hrow, rfl⟩ := List.mem_map.mp hchange
    obtain ⟨rfl, hconfig⟩ := Prod.mk.inj heq
    obtain rfl := Option.some.inj hconfig
    exact List.mem_append_right t.rows hrow
  | update set =>
    obtain ⟨old, hold, hnew⟩ := List.mem_filterMap.mp hchange
    obtain ⟨new, hset, rfl⟩ := Option.map_eq_some_iff.mp hnew
    obtain ⟨rfl, hconfig⟩ := Prod.mk.inj heq
    obtain rfl := Option.some.inj hconfig
    exact List.mem_map.mpr ⟨old, hold, by rw [hset]; rfl⟩
  | delete where_ =>
    obtain ⟨old, -, rfl⟩ := List.mem_map.mp hchange
    exact absurd (Prod.mk.inj heq).2 nofun

/-- A row has one configuration for its id. -/
theorem Table.config_unique {t : Table M} {m : M} {config config' : Config}
    (h : (m, config) ∈ t.rows) (h' : (m, config') ∈ t.rows) : config = config' :=
  (Prod.mk.inj (List.inj_on_of_nodup_map t.nodup h h' rfl)).2

/-- A notification without one is of a row that the statement takes away. -/
theorem Statement.not_mem_result_of_event {st : Statement M} {t : Table M} {m : M}
    (h : (m, none) ∈ st.events t) (config : Config) : (m, config) ∉ st.result t := by
  obtain ⟨change, hchange, heq⟩ := List.mem_map.mp h
  cases st with
  | insert rows =>
    obtain ⟨row, -, rfl⟩ := List.mem_map.mp hchange
    exact absurd (Prod.mk.inj heq).2 nofun
  | update set =>
    obtain ⟨old, -, hnew⟩ := List.mem_filterMap.mp hchange
    obtain ⟨new, -, rfl⟩ := Option.map_eq_some_iff.mp hnew
    exact absurd (Prod.mk.inj heq).2 nofun
  | delete where_ =>
    obtain ⟨⟨m', config'⟩, hold, rfl⟩ := List.mem_map.mp hchange
    -- the id has one row, which the statement deletes
    obtain rfl : m' = m := (Prod.mk.inj heq).1
    obtain ⟨hmem, hwhere⟩ := List.mem_filter.mp hold
    intro hresult
    obtain ⟨hmem', hnot⟩ := List.mem_filter.mp hresult
    obtain rfl := Table.config_unique hmem hmem'
    rw [hwhere] at hnot
    exact Bool.false_ne_true hnot

/-- What a statement leaves of a machine it does not tell of was there before. -/
theorem Statement.mem_rows_of_silent {st : Statement M} {t : Table M} {m : M} {config : Config}
    (hsilent : ∀ item ∈ st.events t, item.1 ≠ m) (h : (m, config) ∈ st.result t) :
    (m, config) ∈ t.rows := by
  cases st with
  | insert rows =>
    rcases List.mem_append.mp h with hold | hnew
    · exact hold
    · exact absurd rfl (hsilent (m, some config)
        (List.mem_map.mpr ⟨_, List.mem_map.mpr ⟨_, hnew, rfl⟩, rfl⟩))
  | update set =>
    obtain ⟨old, hold, heq⟩ := List.mem_map.mp h
    cases hset : set old with
    | none =>
      rw [hset] at heq
      exact heq ▸ hold
    | some new =>
      rw [hset] at heq
      obtain rfl : new = (m, config) := heq
      exact absurd rfl (hsilent (m, some config) (List.mem_map.mpr
        ⟨.update old (m, config), List.mem_filterMap.mpr ⟨old, hold, by rw [hset]; rfl⟩, rfl⟩))
  | delete where_ => exact (List.mem_filter.mp h).1

/-- A machine that a statement does not tell of stays, unless an `UPDATE` takes its id. -/
theorem Statement.mem_result_of_silent {st : Statement M} {t : Table M} {m : M} {config : Config}
    (hsilent : ∀ item ∈ st.events t, item.1 ≠ m)
    (hkeeps : ∀ set, st = .update set → ∃ config', (m, config') ∈ st.result t)
    (h : (m, config) ∈ t.rows) : (m, config) ∈ st.result t := by
  cases st with
  | insert rows => exact List.mem_append_left rows h
  | update set =>
    obtain ⟨config', hresult⟩ := hkeeps set rfl
    obtain rfl := Table.config_unique h (mem_rows_of_silent hsilent hresult)
    exact hresult
  | delete where_ =>
    refine List.mem_filter.mpr ⟨h, ?_⟩
    cases hwhere : where_ (m, config) with
    | false => rfl
    | true =>
      exact absurd rfl (hsilent (m, none) (List.mem_map.mpr
        ⟨.delete (m, config), List.mem_map.mpr ⟨_, List.mem_filter.mpr ⟨h, hwhere⟩, rfl⟩, rfl⟩))

section
variable [DecidableEq M]

/-! ## The feed -/

/-- The statement commits. -/
def Statement.execute (st : Statement M) (t : Table M) : Option (Table M) :=
  if h : ((st.result t).map Prod.fst).Nodup then some ⟨st.result t, h⟩ else none

/-- The configuration of a machine. -/
def Table.contents (t : Table M) (m : M) : Option Config := overlay t.rows m

theorem Table.contents_eq_some_iff {t : Table M} {m : M} {config : Config} :
    t.contents m = some config ↔ (m, config) ∈ t.rows := by
  refine ⟨overlay_mem, fun h => ?_⟩
  cases hc : t.contents m with
  | none => exact absurd rfl (overlay_eq_none_iff.mp hc _ h)
  | some config' =>
    have heq := List.inj_on_of_nodup_map t.nodup (overlay_mem hc) h rfl
    rw [(Prod.mk.inj heq).2]

theorem Table.contents_eq_none_iff {t : Table M} {m : M} :
    t.contents m = none ↔ ∀ config, (m, config) ∉ t.rows := by
  rw [Option.eq_none_iff_forall_ne_some]
  exact forall_congr' fun config => not_congr contents_eq_some_iff

/-- How far the updates worker has got. -/
inductive Startup (M : Type) where
  | starting
  | connected
  /-- It has put the rows on `updates_queue`. -/
  | selected (table : Table M)
  | listening

structure Feed (M : Type) where
  table : Table M
  worker : Startup M
  /-- The notifications on their way to the listener. -/
  inFlight : List (M × Option Config)
  /-- What was put on `updates_queue`. -/
  puts : List (M × Option Config)

inductive FeedEvent (M : Type) where
  | commit (st : Statement M)
  | connect
  | select
  | addListener
  /-- The callback runs for the next notification. -/
  | deliver

/-- The items for the rows of a table. -/
def Table.items (t : Table M) : List (M × Option Config) :=
  t.rows.map fun row => (row.1, some row.2)

namespace Feed

def init (table : Table M) : Feed M := ⟨table, .starting, [], []⟩

def step (f : Feed M) : FeedEvent M → Option (Feed M)
  | .commit st => (st.execute f.table).map fun table =>
    match f.worker with
    | .listening => { f with table := table, inFlight := f.inFlight ++ st.events f.table }
    | _ => { f with table := table }
  | .connect =>
    match f.worker with
    | .starting => some { f with worker := .connected }
    | _ => none
  | .select =>
    match f.worker with
    | .connected =>
      some { f with worker := .selected f.table, puts := f.puts ++ f.table.items }
    | _ => none
  | .addListener =>
    match f.worker with
    | .selected _ => some { f with worker := .listening }
    | _ => none
  | .deliver =>
    match f.inFlight with
    | [] => none
    | item :: rest => some { f with inFlight := rest, puts := f.puts ++ [item] }

/-- Once what is on its way is delivered, the last items are the table. -/
def Synced (f : Feed M) : Prop :=
  ∀ m, lastConfig (f.puts ++ f.inFlight) m = f.table.contents m

/-- The condition of a step: the listener comes before the table has changed, and no
`UPDATE` takes an id out of the table after that. -/
def Heard (f : Feed M) : FeedEvent M → Prop
  | .addListener => ∀ table, f.worker = .selected table → ∀ m,
    f.table.contents m = table.contents m
  | .commit (.update set) => f.worker = .listening → ∀ table,
    (Statement.update set).execute f.table = some table → ∀ m,
    (f.table.contents m).isSome → (table.contents m).isSome
  | _ => True

/-- The property after a step: once it listens, the worker hears of everything. -/
def SyncedAfter (f : Feed M) (e : FeedEvent M) : Prop :=
  ∀ f', f.step e = some f' → f'.worker = .listening → f'.Synced

end Feed

/-! ## What escapes -/

theorem Statement.execute_rows {st : Statement M} {t t' : Table M} (h : st.execute t = some t') :
    t'.rows = st.result t := by
  rw [Statement.execute] at h
  split at h
  · exact Option.some.inj h ▸ rfl
  · exact absurd h.symm (Option.some_ne_none _)

/-- **What a statement tells.** From a reader that holds the table, its notifications
make one that holds the new table, unless an `UPDATE` takes an id out of it. -/
theorem events_tell_iff {st : Statement M} {t t' : Table M} (h : st.execute t = some t')
    {items : List (M × Option Config)} (hitems : ∀ m, lastConfig items m = t.contents m) :
    (∀ m, lastConfig (items ++ st.events t) m = t'.contents m) ↔
      ∀ set, st = .update set → ∀ m, (t.contents m).isSome → (t'.contents m).isSome := by
  have hrows := Statement.execute_rows h
  constructor
  · rintro htell set rfl m hm
    cases hm' : t'.contents m with
    | some config => rfl
    | none =>
      -- no notification has the id, so the reader still holds it
      have hsilent : overlay ((Statement.update set).events t) m = none := by
        refine overlay_eq_none_iff.mpr fun item hitem => ?_
        rintro rfl
        obtain ⟨m, _ | config⟩ := item
        · obtain ⟨_, hchange, heq⟩ := List.mem_map.mp hitem
          obtain ⟨_, -, hnew⟩ := List.mem_filterMap.mp hchange
          obtain ⟨_, -, rfl⟩ := Option.map_eq_some_iff.mp hnew
          exact absurd (Prod.mk.inj heq).2 nofun
        · exact Table.contents_eq_none_iff.mp hm' config
            (hrows ▸ Statement.mem_result_of_event hitem)
      have hold := htell m
      rw [lastConfig_append, hsilent, Option.getD_none, hitems, hm'] at hold
      rw [hold] at hm
      exact hm
  · intro hkeeps m
    rw [lastConfig_append]
    cases hevent : overlay (st.events t) m with
    | some config =>
      rw [Option.getD_some]
      cases config with
      | some config =>
        exact (Table.contents_eq_some_iff.mpr
          (hrows ▸ Statement.mem_result_of_event (overlay_mem hevent))).symm
      | none =>
        exact (Table.contents_eq_none_iff.mpr
          (hrows ▸ Statement.not_mem_result_of_event (overlay_mem hevent))).symm
    -- told nothing, the reader holds the old row, which has not changed
    | none =>
      have hsilent := overlay_eq_none_iff.mp hevent
      rw [Option.getD_none, hitems]
      refine Option.ext fun config => ?_
      rw [Table.contents_eq_some_iff, Table.contents_eq_some_iff, hrows]
      refine ⟨fun hold => ?_, Statement.mem_rows_of_silent hsilent⟩
      refine Statement.mem_result_of_silent hsilent (fun set hst => ?_) hold
      have hsome := hkeeps set hst m (Option.isSome_iff_exists.mpr
        ⟨config, Table.contents_eq_some_iff.mpr hold⟩)
      obtain ⟨config', hc⟩ := Option.isSome_iff_exists.mp hsome
      exact ⟨config', hrows ▸ Table.contents_eq_some_iff.mp hc⟩

/-- The items for the rows of a table hold the table. -/
theorem Table.lastConfig_items (t : Table M) (m : M) : lastConfig t.items m = t.contents m := by
  calc lastConfig t.items m = ((overlay t.rows m).map some).join :=
        congrArg Option.join (overlay_map Function.injective_id (fun _ => some) t.rows m)
    _ = t.contents m := by rw [contents]; cases overlay t.rows m <;> rfl

namespace Feed

/-- What the worker holds, phase by phase. -/
def Follows (f : Feed M) : Prop :=
  match f.worker with
  | .starting | .connected => f.puts = [] ∧ f.inFlight = []
  | .selected table => ∀ m, lastConfig (f.puts ++ f.inFlight) m = table.contents m
  | .listening => f.Synced

/-- Before the worker listens, no step but the registration is about the property. -/
theorem syncedAfter_of_not_listening {f : Feed M} {e : FeedEvent M}
    (h : ∀ f', f.step e = some f' → f'.worker ≠ .listening) : f.SyncedAfter e :=
  fun f' hs hw => absurd hw (h f' hs)

/-- A commit while the worker listens. -/
theorem heard_commit_iff {f : Feed M} (hw : f.worker = .listening) (h : f.Synced)
    (st : Statement M) : f.Heard (.commit st) ↔ f.SyncedAfter (.commit st) := by
  have hsynced : f.SyncedAfter (.commit st) ↔ ∀ t', st.execute f.table = some t' →
      ∀ m, lastConfig (f.puts ++ f.inFlight ++ st.events f.table) m = t'.contents m := by
    obtain ⟨table, worker, inFlight, puts⟩ := f
    obtain rfl := hw
    constructor
    · intro hafter t' ht' m
      rw [List.append_assoc]
      exact hafter _ (congrArg (Option.map _) ht') rfl m
    · intro hafter f' hs _ m
      obtain ⟨t', ht', rfl⟩ := Option.map_eq_some_iff.mp hs
      exact (congrArg (lastConfig · m) (List.append_assoc _ _ _)).symm.trans (hafter t' ht' m)
  rw [hsynced]
  constructor
  · intro heard t' ht'
    refine (events_tell_iff ht' h).mpr ?_
    rintro set rfl m
    exact heard hw t' ht' m
  · intro hafter
    cases st with
    | update set =>
      intro _ t' ht' m
      exact (events_tell_iff ht' h).mp (hafter t' ht') set rfl m
    | _ => trivial

/-- In a state that follows the table, the condition of a step is the property after
it. -/
theorem heard_iff {f : Feed M} (h : f.Follows) (e : FeedEvent M) : f.Heard e ↔ f.SyncedAfter e := by
  obtain ⟨table, worker, inFlight, puts⟩ := f
  cases e with
  | commit st =>
    cases worker with
    | listening => exact heard_commit_iff rfl h st
    | _ =>
      refine iff_of_true ?_ (syncedAfter_of_not_listening fun f' hs => ?_)
      · cases st <;> first | exact trivial | nofun
      · obtain ⟨t', -, rfl⟩ := Option.map_eq_some_iff.mp hs
        nofun
  | connect =>
    refine iff_of_true trivial (syncedAfter_of_not_listening fun f' hs => ?_)
    cases worker with
    | starting => exact Option.some.inj hs ▸ nofun
    | _ => exact absurd hs.symm (Option.some_ne_none _)
  | select =>
    refine iff_of_true trivial (syncedAfter_of_not_listening fun f' hs => ?_)
    cases worker with
    | connected => exact Option.some.inj hs ▸ nofun
    | _ => exact absurd hs.symm (Option.some_ne_none _)
  -- what it holds is what it has selected
  | addListener =>
    cases worker with
    | selected selected =>
      constructor
      · intro heard f' hs _ m
        obtain rfl := Option.some.inj hs
        exact (h m).trans (heard selected rfl m).symm
      · intro hafter t ht m
        obtain rfl := Startup.selected.inj ht
        exact (hafter _ rfl rfl m).symm.trans (h m)
    | _ => exact iff_of_true nofun fun f' hs => absurd hs.symm (Option.some_ne_none _)
  | deliver =>
    refine iff_of_true trivial fun f' hs hw => ?_
    cases inFlight with
    | nil => exact absurd hs.symm (Option.some_ne_none _)
    | cons item rest =>
      obtain rfl := Option.some.inj hs
      obtain rfl : worker = .listening := hw
      intro m
      rw [← h m, List.append_assoc, List.singleton_append]

/-- A step that meets its condition leads to a state that follows the table. -/
theorem Follows.step {f f' : Feed M} {e : FeedEvent M} (h : f.Follows) (he : f.Heard e)
    (hs : f.step e = some f') : f'.Follows := by
  have hafter := (heard_iff h e).mp he f' hs
  obtain ⟨table, worker, inFlight, puts⟩ := f
  cases e with
  | commit st =>
    obtain ⟨t', -, rfl⟩ := Option.map_eq_some_iff.mp hs
    cases worker with
    | listening => exact hafter rfl
    | _ => exact h
  | connect =>
    cases worker with
    | starting => exact Option.some.inj hs ▸ h
    | _ => exact absurd hs.symm (Option.some_ne_none _)
  | select =>
    cases worker with
    | connected =>
      obtain rfl := Option.some.inj hs
      obtain ⟨rfl, rfl⟩ := h
      intro m
      rw [List.append_nil, List.nil_append]
      exact table.lastConfig_items m
    | _ => exact absurd hs.symm (Option.some_ne_none _)
  | addListener =>
    cases worker with
    | selected selected =>
      obtain rfl := Option.some.inj hs
      exact hafter rfl
    | _ => exact absurd hs.symm (Option.some_ne_none _)
  | deliver =>
    cases inFlight with
    | nil => exact absurd hs.symm (Option.some_ne_none _)
    | cons item rest =>
      obtain rfl := Option.some.inj hs
      cases worker with
      | listening => exact hafter rfl
      | selected selected =>
        intro m
        rw [← h m, List.append_assoc, List.singleton_append]
      | _ => exact absurd h.2 (List.cons_ne_nil item rest)

/-- **No change escapes, exactly when** the table at the listener's registration is
the one selected and no `UPDATE` takes an id out of it after that. -/
theorem synced_iff (table : Table M) (es : List (FeedEvent M)) :
    Along step SyncedAfter (init table) es ↔ Along step Heard (init table) es :=
  (along_congr (fun _ e h => heard_iff h e) (fun _ _ _ h he hs => h.step he hs)
    (show (init table).Follows from ⟨rfl, rfl⟩) es).symm

end Feed

end

/-! ## Changes that escape -/

namespace Feed

def lathe : Config := ⟨some "10.0.0.1", some 8193⟩

/-- A machine is inserted between the selection and the registration. -/
def unheard : List (FeedEvent String) :=
  [.connect, .select, .commit (.insert [("lathe", lathe)]), .addListener]

/-- A machine is renamed while the worker listens. -/
def renamed : List (FeedEvent String) :=
  [.connect, .select, .addListener, .commit (.insert [("lathe", lathe)]), .deliver,
    .commit (.update fun row => if row.1 = "lathe" then some ("mill", row.2) else none), .deliver]

/-- With everything delivered, the inserted machine is missing and the old name of the
renamed one is still there. -/
theorem changes_escape :
    ((exec step (init ⟨[], List.nodup_nil⟩) unheard).map fun f =>
      (f.inFlight, lastConfig f.puts "lathe", f.table.contents "lathe"))
        = some ([], none, some lathe) ∧
    ((exec step (init ⟨[], List.nodup_nil⟩) renamed).map fun f =>
      (f.inFlight, lastConfig f.puts "lathe", f.table.contents "lathe"))
        = some ([], some lathe, none) :=
  ⟨by decide, by decide⟩

end Feed

end FanucDriver.Monitor
