import FanucDriver.Streams.Staging

/-!
# The sessions of executions

`SessionTransformer` of `Staging.kt` gives an execution the first window that the store
of sessions holds for its machine. The windows of a machine are those of all its sessions
so far, from the oldest on. `attaches_iff`: the session is the execution's own exactly
where nothing is stored, or the first window contains the execution.

Mirroring notes:
- A session window is inclusive at both ends, and starts at 0 or later.
- `fetch(key)` iterates the windows from the oldest to the newest. The counts stored with
  them are not read.
-/

namespace FanucDriver.Streams

/-- A window of the store. -/
structure SessionWindow where
  start : Int64
  end_ : Int64
  nonneg : 0 ≤ start
  ordered : start ≤ end_

def SessionWindow.Contains (w : SessionWindow) (timestamp : Int64) : Prop :=
  w.start ≤ timestamp ∧ timestamp ≤ w.end_

/-- The windows of one key, from the oldest to the newest. -/
structure SessionWindows where
  windows : List SessionWindow
  disjoint : windows.Pairwise fun w w' => w.end_ < w'.start

abbrev SessionStore (K : Type) := K → SessionWindows

/-- `fetch(key)` -/
def SessionStore.fetch {K : Type} (store : SessionStore K) (key : K) : List SessionWindow :=
  (store key).windows

structure ExecutionWithSessionDatum where
  machineId : JString
  execution : JString
  timestamp : Int64
  offset : Int64
  partition : Int32
  session : Int64
  deriving DecidableEq

/-- `SessionTransformer.transform` -/
def SessionTransformer.transform {K : Type} (store : SessionStore K) (readOnlyKey : K)
    (value : ExecutionDatum) : ExecutionWithSessionDatum where
  execution := value.execution
  machineId := value.machineId
  offset := value.offset
  partition := value.partition
  timestamp := value.timestamp
  session :=
    match store.fetch readOnlyKey with
    | session :: _ => session.start
    | [] => -1

/-- The session is the window that contains the timestamp, and -1 iff none does. -/
structure Attaches (windows : List SessionWindow) (timestamp session : Int64) : Prop where
  own : ∀ w ∈ windows, w.Contains timestamp → session = w.start
  outside : session = -1 ↔ ∀ w ∈ windows, ¬w.Contains timestamp

theorem start_ne_neg_one (w : SessionWindow) : w.start ≠ -1 := by
  intro h
  have hnonneg := w.nonneg
  rw [h] at hnonneg
  exact absurd hnonneg (by decide)

/-- A window before another contains nothing of it. -/
theorem not_contains_of_lt {w w' : SessionWindow} (h : w.end_ < w'.start) {timestamp : Int64}
    (hc : w.Contains timestamp) : ¬w'.Contains timestamp := by
  intro hc'
  have hle := Int64.le_iff_toInt_le.mp hc.2
  have hge := Int64.le_iff_toInt_le.mp hc'.1
  have hlt := Int64.lt_iff_toInt_lt.mp h
  omega

theorem start_ne_start {w w' : SessionWindow} (h : w.end_ < w'.start) : w.start ≠ w'.start := by
  intro heq
  have hle := Int64.le_iff_toInt_le.mp w.ordered
  have hlt := Int64.lt_iff_toInt_lt.mp h
  rw [heq] at hle
  omega

/-- The oldest window is the right answer exactly for what it contains. -/
theorem attaches_first {w : SessionWindow} {ws : List SessionWindow}
    (h : ∀ w' ∈ ws, w.end_ < w'.start) (timestamp : Int64) :
    Attaches (w :: ws) timestamp w.start ↔ w.Contains timestamp := by
  constructor
  · intro hattaches
    by_contra hnot
    -- then a later window contains it, which starts elsewhere, or none does
    have hnone : ∀ w' ∈ w :: ws, ¬w'.Contains timestamp := by
      intro w' hw' hc
      rcases List.mem_cons.mp hw' with rfl | hmem
      · exact hnot hc
      · exact start_ne_start (h w' hmem) (hattaches.own w' hw' hc)
    exact start_ne_neg_one w (hattaches.outside.mpr hnone)
  · intro hc
    refine ⟨fun w' hw' hc' => ?_, ?_⟩
    · rcases List.mem_cons.mp hw' with rfl | hmem
      · rfl
      · exact absurd hc' (not_contains_of_lt (h w' hmem) hc)
    · exact iff_of_false (start_ne_neg_one w) fun hnone => hnone w List.mem_cons_self hc

/-- **When an execution gets its own session**: where the machine has none, or its first
one contains the execution. -/
theorem attaches_iff {K : Type} (store : SessionStore K) (key : K) (value : ExecutionDatum) :
    Attaches (store.fetch key) value.timestamp
        (SessionTransformer.transform store key value).session ↔
      ∀ w ∈ (store.fetch key).head?, w.Contains value.timestamp := by
  have hdisjoint := (store key).disjoint
  unfold SessionTransformer.transform SessionStore.fetch
  cases hwindows : (store key).windows with
  | nil => exact iff_of_true ⟨nofun, iff_of_true rfl nofun⟩ nofun
  | cons w ws =>
    rw [hwindows] at hdisjoint
    rw [attaches_first (List.pairwise_cons.mp hdisjoint).1]
    simp

/-- Two sessions of one machine, an hour apart. -/
def twoSessions : SessionStore Unit := fun _ =>
  { windows := [⟨0, 300000, by decide, by decide⟩, ⟨3600000, 3900000, by decide, by decide⟩]
    disjoint := by decide }

def secondSession : ExecutionDatum where
  machineId := []
  execution := []
  timestamp := 3600000
  offset := 0
  partition := 0

/-- An execution of the second session is given the first. -/
theorem secondSession_not_attached :
    ¬Attaches (twoSessions.fetch ()) secondSession.timestamp
      (SessionTransformer.transform twoSessions () secondSession).session := by
  intro h
  have hmem : ⟨3600000, 3900000, by decide, by decide⟩ ∈ twoSessions.fetch () :=
    List.mem_cons_of_mem _ List.mem_cons_self
  have hown := h.own _ hmem ⟨by decide, by decide⟩
  exact absurd hown (by decide)

end FanucDriver.Streams
