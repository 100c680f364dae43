import FanucDriver.Monitor.Api
import Mathlib.Data.List.MinMax

/-!
# Probes of several machines

`app_update` accepts a query that agrees with "the previous ping", which it takes to be the
first row of `machine_pings` by date, of whatever machine.

`probeStands_iff`: in every run the updates for a recorded probe are accepted exactly where
the pings of that address are dated after all others.
-/

namespace FanucDriver.Monitor.Api

open FanucDriver.Lib

/-- A probe was recorded, and no ping of the machine after it has another address. -/
def Recorded (pings : List Ping) (target : Target) : Prop :=
  ∃ (k : ℕ) (ping : Ping), pings[k]? = some ping ∧ ping.target = target ∧
    ∀ (l : ℕ) (later : Ping), k < l → pings[l]? = some later →
      later.target.machine_id = target.machine_id → later.target = target

/-- The query names a machine and its address. -/
structure UpdateQuery.For (query : UpdateQuery) (target : Target) : Prop where
  id : query.id = some target.machine_id
  ip : query.ip = some target.machine_ip
  port : validateMachinePort query.port = some target.machine_port

/-- An update for a recorded probe is accepted, whichever first row the database returns. -/
def ProbeStands (s : Service) : Event → Prop
  | .fetchPing i _ => ∀ query target, s.updates[i]? = some ⟨query, .checking⟩ →
      query.For target → Recorded s.pings target →
      ∀ row t, step s (.fetchPing i row) = some t → t.updates[i]? = some ⟨query, .checked target⟩
  | _ => True

/-- Every ping of another machine or address is dated before one of this address. -/
def DatedLast (pings : List Ping) (target : Target) : Prop :=
  ∀ ping ∈ pings, ping.target ≠ target →
    ∃ own ∈ pings, own.target = target ∧ ping.date < own.date

def Undisturbed (s : Service) : Event → Prop
  | .fetchPing i _ => ∀ query target, s.updates[i]? = some ⟨query, .checking⟩ →
      query.For target → Recorded s.pings target → DatedLast s.pings target
  | _ => True

/-- A ping is accepted that is the one of the query. -/
theorem checkPing_eq_checked_iff {query : UpdateQuery} {target : Target} (h : query.For target)
    (row : Ping) : checkPing query (some row) = .checked target ↔ row.target = target := by
  obtain ⟨hid, hip, hport⟩ := h
  unfold checkPing
  rw [hid, hip, hport]
  simp only [Option.some.injEq]
  constructor
  · intro h
    split at h
    next => exact UpdatePhase.checked.inj h
    next => exact absurd h (by simp)
  · intro h
    rw [h, if_pos ⟨rfl, rfl, rfl⟩]

/-- Some ping comes first by date. -/
theorem exists_isFirst {pings : List Ping} (h : pings ≠ []) :
    ∃ row, IsFirst pings (some row) := by
  have hsome : pings.argmax Ping.date ≠ none := fun hnone => h (List.argmax_eq_none.mp hnone)
  obtain ⟨row, hrow⟩ := Option.ne_none_iff_exists'.mp hsome
  exact ⟨row, List.argmax_mem hrow, fun other hother => List.le_of_mem_argmax hother hrow⟩

/-- All rows that may come first are of an address exactly if its pings are dated last. -/
theorem first_target_iff {pings : List Ping} {target : Target}
    (hrecorded : Recorded pings target) :
    (∀ row, IsFirst pings (some row) → row.target = target) ↔ DatedLast pings target := by
  obtain ⟨k, recorded, hk, htarget, -⟩ := hrecorded
  have hmem : recorded ∈ pings := List.mem_of_getElem? hk
  constructor
  · intro h ping hping hne
    obtain ⟨row, hrow⟩ := exists_isFirst (List.ne_nil_of_mem hmem)
    refine ⟨row, hrow.1, h row hrow, lt_of_le_of_ne (hrow.2 ping hping) fun hdate => hne ?_⟩
    -- a tie would let the other ping come first
    exact h ping ⟨hping, fun other hother => hdate ▸ hrow.2 other hother⟩
  · intro h row hrow
    by_contra hne
    obtain ⟨own, hown, -, hlt⟩ := h row hrow.1 hne
    have hle := hrow.2 own hown
    omega

/-- One update. -/
theorem probeStands_iff_undisturbed (s : Service) (e : Event) :
    ProbeStands s e ↔ Undisturbed s e := by
  cases e with
  | fetchPing i row₀ =>
    refine forall₅_congr fun query target hi hfor hrecorded => ?_
    rw [← first_target_iff hrecorded]
    have hstep : ∀ row t, step s (.fetchPing i row) = some t ↔
        IsFirst s.pings row ∧ t = s.setUpdate i ⟨query, checkPing query row⟩ := by
      intro row t
      simp only [step, hi]
      by_cases hrow : IsFirst s.pings row
      · simp [hrow, eq_comm]
      · simp [hrow]
    constructor
    · intro h row hrow
      have hchecked := h (some row) _ ((hstep _ _).mpr ⟨hrow, rfl⟩)
      rw [getElem?_setUpdate_self hi, Option.some.injEq, UpdateRequest.mk.injEq] at hchecked
      exact (checkPing_eq_checked_iff hfor row).mp hchecked.2
    · intro h row t ht
      obtain ⟨hrow, rfl⟩ := (hstep _ _).mp ht
      rw [getElem?_setUpdate_self hi, Option.some.injEq, UpdateRequest.mk.injEq]
      cases row with
      | none =>
        obtain ⟨k, recorded, hk, -⟩ := hrecorded
        rw [show s.pings = [] from hrow] at hk
        exact absurd hk.symm (by simp)
      | some row => exact ⟨rfl, (checkPing_eq_checked_iff hfor row).mpr (h row hrow)⟩
  | _ => exact Iff.rfl

/-- **Which probes stand**: in a run of the service the updates for recorded probes are
accepted exactly where the pings of their address are dated after all others. -/
theorem probeStands_iff (s : Service) (es : List Event) :
    Along step ProbeStands s es ↔ Along step Undisturbed s es :=
  along_congr (P := fun _ => True) (fun s e _ => probeStands_iff_undisturbed s e)
    (fun _ _ _ _ _ _ => trivial) trivial es

/-! ## Two machines -/

/-- A service without requests and tables without rows. -/
def emptyService : Service where
  pings := []
  machines _ := none
  checks := []
  updates := []

/-- A request that probes a machine, request `i` of its kind. -/
def checkRun (i : ℕ) (machine ip : String) (utcnow : ℤ) : List Event :=
  [.check ⟨some ip.toList, some 8193⟩, .probe i (some ⟨machine.toList, []⟩) utcnow, .insertPing i]

def pingOf (machine ip : String) (utcnow : ℤ) : Ping :=
  ⟨utcnow, ⟨machine.toList, ip.toList, 8193⟩, []⟩

def updateQuery (machine ip : String) : UpdateQuery :=
  ⟨some machine.toList, some ip.toList, some 8193⟩

/-- The lathe is probed, then the mill, and then the lathe is updated. -/
def probeRun : List Event :=
  checkRun 0 "lathe" "10.0.0.1" 1 ++ checkRun 1 "mill" "10.0.0.2" 2 ++
    [.update (updateQuery "lathe" "10.0.0.1"), .fetchPing 0 (some (pingOf "mill" "10.0.0.2" 2))]

theorem recorded_lathe :
    Recorded [pingOf "lathe" "10.0.0.1" 1, pingOf "mill" "10.0.0.2" 2]
      ⟨"lathe".toList, "10.0.0.1".toList, 8193⟩ := by
  refine ⟨0, _, rfl, rfl, fun l later hl hlater hmachine => ?_⟩
  have hmem := List.mem_of_getElem? hlater
  rcases List.mem_cons.mp hmem with rfl | hmem
  · rfl
  · obtain rfl := List.mem_singleton.mp hmem
    exact absurd hmachine (by decide)

/-- The probe of the mill makes the service refuse the update of the lathe. -/
theorem probeRun_refused : ¬Along step ProbeStands emptyService probeRun := by
  intro h
  have hrun : exec step emptyService (probeRun.take 7) = some
      { pings := [pingOf "lathe" "10.0.0.1" 1, pingOf "mill" "10.0.0.2" 2]
        machines := fun _ => none
        checks := [⟨⟨some "10.0.0.1".toList, some 8193⟩,
            .answered (.machine (some ⟨"lathe".toList, []⟩))⟩,
          ⟨⟨some "10.0.0.2".toList, some 8193⟩,
            .answered (.machine (some ⟨"mill".toList, []⟩))⟩]
        updates := [⟨updateQuery "lathe" "10.0.0.1", .checking⟩] } := rfl
  rw [← List.take_append_drop 7 probeRun] at h
  have hchecked := (h.drop hrun).1 _ ⟨"lathe".toList, "10.0.0.1".toList, 8193⟩ rfl ⟨rfl, rfl, rfl⟩
    recorded_lathe (some (pingOf "mill" "10.0.0.2" 2)) _ rfl
  exact absurd hchecked (by decide)

end FanucDriver.Monitor.Api
