import FanucDriver.Monitor.Api
import Mathlib.Data.List.Perm.Basic
import Mathlib.Tactic.SplitIfs

/-!
# Concurrent updates of a machine

`app_update` looks a machine up in one statement and writes it in another, so requests for
one machine may both find no row. The second one to insert it is refused by the primary
key.

`updates_serialised_iff`: a run of the service leaves what a sequential order of its updates
would leave, with every update answered, exactly if no request finds the row missing while
another one is about to insert it.
-/

namespace FanucDriver.Monitor.Api

open FanucDriver.Lib

/-! ## Sequential updates -/

/-- The statements of `app_update` with nothing between them. -/
def runAlone (machines : Machines) (write : Write) : Option Machines :=
  execute (machines write.target.machine_id).isSome write machines

/-- One update after the other. -/
def sequentially (machines : Machines) (writes : List Write) : Option Machines :=
  writes.foldlM runAlone machines

/-! ## The requests of a machine -/

namespace UpdatePhase

/-- About to insert the row of `m`. -/
def inserts (m : Text) : UpdatePhase → Bool
  | .writing target existing _ => target.machine_id = m && !existing
  | _ => false

/-- About to update the row of `m`. -/
def overwrites (m : Text) : UpdatePhase → Bool
  | .writing target existing _ => target.machine_id = m && existing
  | _ => false

/-- Answered for `m`, but not with 200. -/
def failed (m : Text) : UpdatePhase → Bool
  | .done write response => write.target.machine_id = m && response ≠ .httpOk
  | _ => false

/-- The write of an answered request for `m`. -/
def write? (m : Text) : UpdatePhase → Option Write
  | .done write _ => if write.target.machine_id = m then some write else none
  | _ => none

end UpdatePhase

namespace Service

variable (m : Text) (s : Service)

def inserting : ℕ := s.updates.countP (·.phase.inserts m)

def overwriting : ℕ := s.updates.countP (·.phase.overwrites m)

def failures : ℕ := s.updates.countP (·.phase.failed m)

/-- The writes of the answered requests. -/
def writes : List Write := s.updates.filterMap (·.phase.write? m)

/-- No request is between its two statements. -/
def Finished : Prop := ∀ x ∈ s.updates, x.phase.inserts m = false ∧ x.phase.overwrites m = false

end Service

/-- Every update of `m` was answered with 200, and the row is the one of a sequential order. -/
structure Serialised (start : Service) (m : Text) (s : Service) : Prop where
  ok : ∀ x ∈ s.updates, x.phase.failed m = false
  row : ∃ order machines, order.Perm (s.writes m) ∧
    sequentially start.machines order = some machines ∧ s.machines m = machines m

/-- No request for `m` finds the row missing while another one is about to insert it. -/
def Alone (m : Text) (s : Service) : Event → Prop
  | .fetchMachine i _ => ∀ query target, s.updates[i]? = some ⟨query, .checked target⟩ →
      target.machine_id = m → s.machines m = none → s.inserting m = 0
  | _ => True

/-! ## Statements -/

/-- The row after an update that nothing comes between. -/
def rowAfter (write : Write) : Option MachineRow → MachineRow
  | none => .insert write
  | some row => row.update write

theorem runAlone_eq (machines : Machines) (write : Write) :
    runAlone machines write = some (Function.update machines write.target.machine_id
      (some (rowAfter write (machines write.target.machine_id)))) := by
  unfold runAlone execute
  cases machines write.target.machine_id with
  | none => rfl
  | some row => rfl

/-- What is written depends on the row alone. -/
theorem runAlone_congr {machines machines' after : Machines} {write : Write}
    (h : machines write.target.machine_id = machines' write.target.machine_id)
    (hrun : runAlone machines write = some after) :
    ∃ after', runAlone machines' write = some after' ∧
      after write.target.machine_id = after' write.target.machine_id := by
  refine ⟨_, runAlone_eq machines' write, ?_⟩
  rw [runAlone_eq] at hrun
  rw [← Option.some.inj hrun, Function.update_self, Function.update_self, h]

theorem execute_eq_none {existing : Bool} {write : Write} {machines : Machines}
    (h : execute existing write machines = none) :
    existing = false ∧ (machines write.target.machine_id).isSome := by
  unfold execute at h
  split at h
  · exact absurd h (Option.some_ne_none _)
  · exact absurd h (Option.some_ne_none _)
  next hrow => exact ⟨rfl, hrow ▸ rfl⟩

/-- An insert that succeeds found no row. -/
theorem execute_insert {write : Write} {machines machines' : Machines}
    (h : execute false write machines = some machines') :
    machines write.target.machine_id = none ∧ (machines' write.target.machine_id).isSome := by
  unfold execute at h
  split at h
  next hfalse => exact absurd hfalse (by decide)
  next hrow =>
    rw [← Option.some.inj h, Function.update_self]
    exact ⟨hrow, rfl⟩
  · exact absurd h.symm (Option.some_ne_none _)

/-! ## One request -/

/-- A count of requests, where one of them is replaced. -/
theorem countP_set_add {l : List UpdateRequest} {i : ℕ} {y : UpdateRequest} (h : l[i]? = some y)
    (p : UpdateRequest → Bool) (x : UpdateRequest) :
    (l.set i x).countP p + (p y).toNat = l.countP p + (p x).toNat := by
  obtain ⟨hi, rfl⟩ := List.getElem?_eq_some_iff.mp h
  have hle := List.boole_getElem_le_countP (p := p) hi
  have hnat : ∀ b : Bool, b.toNat = if b then 1 else 0 := by decide
  rw [List.countP_set hi, hnat, hnat]
  omega

/-- The writes, where a request that wrote nothing is replaced. -/
theorem filterMap_set_perm {l : List UpdateRequest} {i : ℕ} {y : UpdateRequest}
    (h : l[i]? = some y) {f : UpdateRequest → Option Write} (hy : f y = none) (x : UpdateRequest) :
    ((l.set i x).filterMap f).Perm ((f x).toList ++ l.filterMap f) := by
  obtain ⟨hi, rfl⟩ := List.getElem?_eq_some_iff.mp h
  have hset := (List.set_perm_cons_eraseIdx hi x).filterMap f
  have hrest := (List.getElem_cons_eraseIdx_perm hi).filterMap f
  rw [List.filterMap_cons_none hy] at hrest
  refine hset.trans ?_
  cases hx : f x with
  | none =>
    rw [List.filterMap_cons_none hx]
    exact hrest
  | some w =>
    rw [List.filterMap_cons_some hx]
    exact hrest.cons w

/-! ## What a run preserves -/

/-- What holds where no request found the row missing while another one was inserting it. -/
structure Ordered (start : Service) (m : Text) (s : Service) : Prop where
  inserting : 0 < s.inserting m → s.machines m = none
  alone : s.inserting m ≤ 1
  overwriting : 0 < s.overwriting m → (s.machines m).isSome
  failures : s.failures m = 0
  row : ∃ order machines, order.Perm (s.writes m) ∧
    sequentially start.machines order = some machines ∧ s.machines m = machines m

/-- The counts and the row stay where the phases of a request do not concern the machine. -/
theorem Ordered.congr {start s t : Service} {m : Text} (h : Ordered start m s)
    (hmachines : t.machines m = s.machines m) (hinserting : t.inserting m = s.inserting m)
    (hoverwriting : t.overwriting m = s.overwriting m) (hfailures : t.failures m = s.failures m)
    (hwrites : (t.writes m).Perm (s.writes m)) : Ordered start m t where
  inserting := by
    rw [hmachines, hinserting]
    exact h.inserting
  alone := by
    rw [hinserting]
    exact h.alone
  overwriting := by
    rw [hmachines, hoverwriting]
    exact h.overwriting
  failures := by
    rw [hfailures]
    exact h.failures
  row := by
    obtain ⟨order, machines, hperm, hseq, hrow⟩ := h.row
    exact ⟨order, machines, hperm.trans hwrites.symm, hseq, hmachines.trans hrow⟩

/-- The requests that arrive have written nothing and select nothing yet. -/
theorem counts_append {s t : Service} {xs : List UpdateRequest}
    (hupdates : t.updates = s.updates ++ xs) (hxs : ∀ x ∈ xs, x.phase = .checking) (m : Text) :
    t.inserting m = s.inserting m ∧ t.overwriting m = s.overwriting m ∧
    t.failures m = s.failures m ∧ t.writes m = s.writes m := by
  have hnone : ∀ p : UpdatePhase → Bool, p .checking = false →
      xs.countP (fun x => p x.phase) = 0 := by
    intro p hp
    refine List.countP_eq_zero.mpr fun x hx => ?_
    rw [hxs x hx, hp]
    decide
  have hwrites : xs.filterMap (fun x => x.phase.write? m) = [] := by
    refine List.filterMap_eq_nil_iff.mpr fun x hx => ?_
    rw [hxs x hx]
    rfl
  refine ⟨?_, ?_, ?_, ?_⟩
  · rw [Service.inserting, hupdates, List.countP_append, hnone _ rfl]
    rfl
  · rw [Service.overwriting, hupdates, List.countP_append, hnone _ rfl]
    rfl
  · rw [Service.failures, hupdates, List.countP_append, hnone _ rfl]
    rfl
  · rw [Service.writes, hupdates, List.filterMap_append, hwrites, List.append_nil]
    rfl

/-- A request that moves to another phase. -/
theorem counts_set {s t : Service} {i : ℕ} {y x : UpdateRequest} (hi : s.updates[i]? = some y)
    (hupdates : t.updates = s.updates.set i x) (m : Text) :
    t.inserting m + (y.phase.inserts m).toNat = s.inserting m + (x.phase.inserts m).toNat ∧
    t.overwriting m + (y.phase.overwrites m).toNat
      = s.overwriting m + (x.phase.overwrites m).toNat ∧
    t.failures m + (y.phase.failed m).toNat = s.failures m + (x.phase.failed m).toNat := by
  refine ⟨?_, ?_, ?_⟩
  · rw [Service.inserting, hupdates]
    exact countP_set_add hi (fun x => x.phase.inserts m) x
  · rw [Service.overwriting, hupdates]
    exact countP_set_add hi (fun x => x.phase.overwrites m) x
  · rw [Service.failures, hupdates]
    exact countP_set_add hi (fun x => x.phase.failed m) x

theorem writes_set {s t : Service} {i : ℕ} {y x : UpdateRequest} (hi : s.updates[i]? = some y)
    (hupdates : t.updates = s.updates.set i x) {m : Text} (hy : y.phase.write? m = none) :
    (t.writes m).Perm ((x.phase.write? m).toList ++ s.writes m) := by
  rw [Service.writes, hupdates]
  exact filterMap_set_perm hi hy x

/-- A lookup of `m` adds a request that is about to write the row. -/
theorem counts_lookup {s t : Service} {i : ℕ} {query : UpdateQuery} {target : Target} {m : Text}
    {existing : Bool} {utcnow : ℤ} (hi : s.updates[i]? = some ⟨query, .checked target⟩)
    (hupdates : t.updates = s.updates.set i ⟨query, .writing target existing utcnow⟩)
    (hm : target.machine_id = m) :
    t.inserting m = s.inserting m + (!existing).toNat ∧
    t.overwriting m = s.overwriting m + existing.toNat ∧ t.failures m = s.failures m := by
  obtain ⟨hins, hover, hfail⟩ := counts_set hi hupdates m
  simp only [UpdatePhase.inserts, UpdatePhase.overwrites, UpdatePhase.failed, hm, decide_true,
    Bool.true_and, Bool.toNat_false, Nat.add_zero] at hins hover hfail
  exact ⟨hins, hover, hfail⟩

/-- The statement that writes takes it away again. -/
theorem counts_answer {s t : Service} {i : ℕ} {query : UpdateQuery} {write : Write} {m : Text}
    {existing : Bool} {response : Response}
    (hi : s.updates[i]? = some ⟨query, .writing write.target existing write.utcnow⟩)
    (hupdates : t.updates = s.updates.set i ⟨query, .done write response⟩)
    (hm : write.target.machine_id = m) :
    t.inserting m + (!existing).toNat = s.inserting m ∧
    t.overwriting m + existing.toNat = s.overwriting m ∧
    t.failures m = s.failures m + (decide (response ≠ .httpOk)).toNat := by
  obtain ⟨hins, hover, hfail⟩ := counts_set hi hupdates m
  simp only [UpdatePhase.inserts, UpdatePhase.overwrites, UpdatePhase.failed, hm, decide_true,
    Bool.true_and, Bool.toNat_false, Nat.add_zero] at hins hover hfail
  exact ⟨hins, hover, hfail⟩

/-- The ping check is followed by the lookup or by an answer. -/
theorem checkPing_cases (query : UpdateQuery) (row : Option Ping) :
    (∃ target, checkPing query row = .checked target) ∨
      ∃ response, checkPing query row = .answered response := by
  cases row with
  | none => exact .inr ⟨_, rfl⟩
  | some row =>
    simp only [checkPing]
    split_ifs
    · exact .inl ⟨_, rfl⟩
    · exact .inr ⟨_, rfl⟩

/-- A phase before the lookup, or an answer without a write. -/
structure UpdatePhase.Quiet (m : Text) (phase : UpdatePhase) : Prop where
  inserts : phase.inserts m = false
  overwrites : phase.overwrites m = false
  failed : phase.failed m = false
  write? : phase.write? m = none

theorem checkPing_quiet (query : UpdateQuery) (row : Option Ping) (m : Text) :
    (checkPing query row).Quiet m := by
  rcases checkPing_cases query row with ⟨target, h⟩ | ⟨response, h⟩
  · rw [h]
    exact ⟨rfl, rfl, rfl, rfl⟩
  · rw [h]
    exact ⟨rfl, rfl, rfl, rfl⟩

/-- The statements for another machine are quiet. -/
theorem writing_quiet {m : Text} {target : Target} (hm : target.machine_id ≠ m) (existing : Bool)
    (utcnow : ℤ) : (UpdatePhase.writing target existing utcnow).Quiet m where
  inserts := by simp [UpdatePhase.inserts, hm]
  overwrites := by simp [UpdatePhase.overwrites, hm]
  failed := rfl
  write? := rfl

theorem done_quiet {m : Text} {write : Write} (hm : write.target.machine_id ≠ m)
    (response : Response) : (UpdatePhase.done write response).Quiet m where
  inserts := rfl
  overwrites := rfl
  failed := by simp [UpdatePhase.failed, hm]
  write? := if_neg hm

section
variable {start s t : Service} {m : Text} {i : ℕ} {y x : UpdateRequest}

/-- A request that is quiet before and after the step. -/
theorem Ordered.quiet (h : Ordered start m s) (hi : s.updates[i]? = some y)
    (hupdates : t.updates = s.updates.set i x) (hy : y.phase.Quiet m) (hx : x.phase.Quiet m)
    (hmachines : t.machines m = s.machines m) : Ordered start m t := by
  obtain ⟨hins, hover, hfail⟩ := counts_set hi hupdates m
  rw [hy.inserts, hx.inserts] at hins
  rw [hy.overwrites, hx.overwrites] at hover
  rw [hy.failed, hx.failed] at hfail
  have hwrites := writes_set hi hupdates hy.write?
  rw [hx.write?] at hwrites
  exact h.congr hmachines hins hover hfail hwrites

/-- A lookup: the request is about to insert the row, or to update it. -/
theorem Ordered.fetchMachine (h : Ordered start m s) {query : UpdateQuery} {target : Target}
    {existing : Bool} {utcnow : ℤ} (hi : s.updates[i]? = some ⟨query, .checked target⟩)
    (hupdates : t.updates = s.updates.set i ⟨query, .writing target existing utcnow⟩)
    (hmachines : t.machines = s.machines)
    (hexisting : existing = (s.machines target.machine_id).isSome)
    (halone : target.machine_id = m → s.machines m = none → s.inserting m = 0) :
    Ordered start m t := by
  by_cases hm : target.machine_id = m
  · obtain ⟨hins, hover, hfail⟩ := counts_lookup hi hupdates hm
    have hwrites : (t.writes m).Perm (s.writes m) := writes_set hi hupdates rfl
    have hrow : t.machines m = s.machines m := congrFun hmachines m
    rw [hm] at hexisting
    obtain ⟨order, machines, hperm, hseq, hlast⟩ := h.row
    have hordered : ∃ order machines, order.Perm (t.writes m) ∧
        sequentially start.machines order = some machines ∧ t.machines m = machines m :=
      ⟨order, machines, hperm.trans hwrites.symm, hseq, hrow.trans hlast⟩
    cases existing with
    | true =>
      rw [Bool.not_true, Bool.toNat_false, Nat.add_zero] at hins
      exact
        { inserting := fun hpos => hrow.trans (h.inserting (hins ▸ hpos))
          alone := hins ▸ h.alone
          overwriting := fun _ => hrow ▸ hexisting.symm
          failures := hfail.trans h.failures
          row := hordered }
    | false =>
      rw [Bool.not_false, Bool.toNat_true] at hins
      rw [Bool.toNat_false, Nat.add_zero] at hover
      have hnone : s.machines m = none := by
        rw [← Option.not_isSome_iff_eq_none, ← hexisting]
        exact Bool.false_ne_true
      have hzero := halone hm hnone
      exact
        { inserting := fun _ => hrow.trans hnone
          alone := by omega
          overwriting := fun hpos => hrow ▸ h.overwriting (hover ▸ hpos)
          failures := hfail.trans h.failures
          row := hordered }
  · exact h.quiet hi hupdates ⟨rfl, rfl, rfl, rfl⟩ (writing_quiet hm _ _) (congrFun hmachines m)

/-- A statement that the table refuses was not for this machine. -/
theorem Ordered.refused (h : Ordered start m s) {query : UpdateQuery} {existing : Bool}
    {write : Write} {response : Response}
    (hi : s.updates[i]? = some ⟨query, .writing write.target existing write.utcnow⟩)
    (hupdates : t.updates = s.updates.set i ⟨query, .done write response⟩)
    (hmachines : t.machines = s.machines) (hwrite : execute existing write s.machines = none) :
    Ordered start m t := by
  obtain ⟨rfl, hrow⟩ := execute_eq_none hwrite
  by_cases hm : write.target.machine_id = m
  · -- it was about to insert, so there was no row
    have hpos : 0 < s.inserting m := by
      obtain ⟨hins, -, -⟩ := counts_answer hi hupdates hm
      rw [Bool.not_false, Bool.toNat_true] at hins
      omega
    rw [hm, h.inserting hpos] at hrow
    exact absurd hrow (by decide)
  · exact h.quiet hi hupdates (writing_quiet hm _ _) (done_quiet hm _) (congrFun hmachines m)

/-- A statement that writes the row comes last in the order. -/
theorem Ordered.written (h : Ordered start m s) {query : UpdateQuery} {existing : Bool}
    {write : Write} (hi : s.updates[i]? = some ⟨query, .writing write.target existing write.utcnow⟩)
    (hupdates : t.updates = s.updates.set i ⟨query, .done write .httpOk⟩)
    (hwrite : execute existing write s.machines = some t.machines) : Ordered start m t := by
  by_cases hm : write.target.machine_id = m
  · obtain ⟨hins, hover, hfail⟩ := counts_answer hi hupdates hm
    have hwrites : (t.writes m).Perm ((UpdatePhase.write? m (.done write .httpOk)).toList ++
      s.writes m) := writes_set hi hupdates rfl
    rw [UpdatePhase.write?, if_pos hm, Option.toList_some, List.singleton_append] at hwrites
    -- the statement is the one that the row calls for, and no other request inserts it now
    have hlookup : existing = (s.machines write.target.machine_id).isSome ∧
        t.inserting m = 0 ∧ (t.machines m).isSome := by
      have halone := h.alone
      cases existing with
      | true =>
        rw [Bool.not_true, Bool.toNat_false, Nat.add_zero] at hins
        rw [Bool.toNat_true] at hover
        have hrow : (s.machines m).isSome := h.overwriting (by omega)
        have hzero : s.inserting m = 0 := by
          by_contra hpos
          rw [h.inserting (by omega)] at hrow
          exact absurd hrow (by decide)
        exact ⟨hm ▸ hrow.symm, hins.trans hzero, execute_isSome hwrite hrow⟩
      | false =>
        rw [Bool.not_false, Bool.toNat_true] at hins
        obtain ⟨hnone, hsome⟩ := execute_insert hwrite
        exact ⟨by rw [hnone]; rfl, by omega, hm ▸ hsome⟩
    obtain ⟨hexisting, hzero, hsome⟩ := hlookup
    obtain ⟨order, machines, hperm, hseq, hrow⟩ := h.row
    rw [hexisting] at hwrite
    obtain ⟨after, hafter, hsame⟩ := runAlone_congr (hm ▸ hrow) hwrite
    refine
      { inserting := fun hpos => by omega
        alone := by omega
        overwriting := fun _ => hsome
        failures := hfail.trans h.failures
        row := ⟨order ++ [write], after, ?_, ?_, hm ▸ hsame⟩ }
    · refine (List.perm_append_singleton write order).trans ?_
      exact (hperm.cons write).trans hwrites.symm
    · rw [sequentially, List.foldlM_append]
      show (sequentially start.machines order).bind _ = _
      rw [hseq]
      show runAlone machines write >>= pure = some after
      rw [hafter]
      rfl
  · exact h.quiet hi hupdates (writing_quiet hm _ _) (done_quiet hm _)
      (execute_ne hwrite (Ne.symm hm))

theorem Ordered.step (h : Ordered start m s) {e : Event} (halone : Alone m s e)
    (hstep : Api.step s e = some t) : Ordered start m t := by
  cases step_cases hstep with
  | other xs hmachines hupdates hxs =>
    obtain ⟨hins, hover, hfail, hwrites⟩ := counts_append hupdates hxs m
    exact h.congr (congrFun hmachines m) hins hover hfail (List.Perm.of_eq hwrites)
  | fetchPing hi _ => exact h.quiet hi rfl ⟨rfl, rfl, rfl, rfl⟩ (checkPing_quiet _ _ m) rfl
  | fetchMachine hi => exact h.fetchMachine hi rfl rfl rfl (halone _ _ hi)
  | refused hi hwrite => exact h.refused hi rfl rfl hwrite
  | written hi hwrite => exact h.written hi rfl hwrite

end

/-! ## Two requests that find no row -/

/-- A request has failed, or one that is about to insert the row will. -/
def Doomed (m : Text) (s : Service) : Prop :=
  0 < s.failures m ∨ (0 < s.inserting m ∧ (s.machines m).isSome) ∨ 2 ≤ s.inserting m

section
variable {s t : Service} {m : Text} {i : ℕ} {y x : UpdateRequest}

theorem Doomed.mono (h : Doomed m s) (hfailures : s.failures m ≤ t.failures m)
    (hinserting : s.inserting m ≤ t.inserting m)
    (hmachines : (s.machines m).isSome → (t.machines m).isSome) : Doomed m t := by
  rcases h with h | h | h
  · exact .inl (by omega)
  · exact .inr (.inl ⟨by omega, hmachines h.2⟩)
  · exact .inr (.inr (by omega))

/-- A request that is quiet before and after the step. -/
theorem Doomed.quiet (h : Doomed m s) (hi : s.updates[i]? = some y)
    (hupdates : t.updates = s.updates.set i x) (hy : y.phase.Quiet m) (hx : x.phase.Quiet m)
    (hmachines : t.machines m = s.machines m) : Doomed m t := by
  obtain ⟨hins, -, hfail⟩ := counts_set hi hupdates m
  rw [hy.inserts, hx.inserts] at hins
  rw [hy.failed, hx.failed] at hfail
  exact h.mono (Nat.le_of_eq hfail.symm) (Nat.le_of_eq hins.symm) (hmachines ▸ id)

theorem Doomed.fetchMachine (h : Doomed m s) {query : UpdateQuery} {target : Target}
    {existing : Bool} {utcnow : ℤ} (hi : s.updates[i]? = some ⟨query, .checked target⟩)
    (hupdates : t.updates = s.updates.set i ⟨query, .writing target existing utcnow⟩)
    (hmachines : t.machines = s.machines) : Doomed m t := by
  obtain ⟨hins, -, hfail⟩ := counts_set hi hupdates m
  simp only [UpdatePhase.inserts, UpdatePhase.failed, Bool.toNat_false, Nat.add_zero] at hins hfail
  exact h.mono (Nat.le_of_eq hfail.symm) (by omega) (hmachines ▸ id)

/-- A refused statement is a failure. -/
theorem Doomed.refused (h : Doomed m s) {query : UpdateQuery} {existing : Bool} {write : Write}
    (hi : s.updates[i]? = some ⟨query, .writing write.target existing write.utcnow⟩)
    (hupdates : t.updates = s.updates.set i ⟨query, .done write .internalServerError⟩)
    (hmachines : t.machines = s.machines) : Doomed m t := by
  by_cases hm : write.target.machine_id = m
  · obtain ⟨-, -, hfail⟩ := counts_answer hi hupdates hm
    exact .inl (hfail ▸ Nat.succ_pos _)
  · exact h.quiet hi hupdates (writing_quiet hm _ _) (done_quiet hm _) (congrFun hmachines m)

/-- A row that is inserted is there for the request that is still about to insert it. -/
theorem Doomed.written (h : Doomed m s) {query : UpdateQuery} {existing : Bool} {write : Write}
    (hi : s.updates[i]? = some ⟨query, .writing write.target existing write.utcnow⟩)
    (hupdates : t.updates = s.updates.set i ⟨query, .done write .httpOk⟩)
    (hwrite : execute existing write s.machines = some t.machines) : Doomed m t := by
  by_cases hm : write.target.machine_id = m
  · obtain ⟨hins, -, hfail⟩ := counts_answer hi hupdates hm
    cases existing with
    | true =>
      rw [Bool.not_true, Bool.toNat_false, Nat.add_zero] at hins
      exact h.mono (Nat.le_of_eq hfail.symm) (Nat.le_of_eq hins.symm) (execute_isSome hwrite)
    | false =>
      rw [Bool.not_false, Bool.toNat_true] at hins
      obtain ⟨hnone, hsome⟩ := execute_insert hwrite
      rw [hm] at hnone hsome
      rcases h with h | h | h
      · exact .inl (hfail ▸ h)
      · rw [hnone] at h
        exact absurd h.2 (by decide)
      · exact .inr (.inl ⟨by omega, hsome⟩)
  · exact h.quiet hi hupdates (writing_quiet hm _ _) (done_quiet hm _)
      (execute_ne hwrite (Ne.symm hm))

theorem Doomed.step (h : Doomed m s) {e : Event} (hstep : Api.step s e = some t) :
    Doomed m t := by
  cases step_cases hstep with
  | other xs hmachines hupdates hxs =>
    obtain ⟨hins, -, hfail, -⟩ := counts_append hupdates hxs m
    exact h.mono (Nat.le_of_eq hfail.symm) (Nat.le_of_eq hins.symm) (hmachines ▸ id)
  | fetchPing hi _ => exact h.quiet hi rfl ⟨rfl, rfl, rfl, rfl⟩ (checkPing_quiet _ _ m) rfl
  | fetchMachine hi => exact h.fetchMachine hi rfl rfl
  | refused hi _ => exact h.refused hi rfl rfl
  | written hi hwrite => exact h.written hi rfl hwrite

/-- A request that finds no row while another one is about to insert it. -/
theorem doomed_of_not_alone {e : Event} (hstep : Api.step s e = some t) (halone : ¬Alone m s e) :
    Doomed m t := by
  cases e with
  | fetchMachine i utcnow =>
    unfold Alone at halone
    push Not at halone
    obtain ⟨query, target, hi, hm, hnone, hpos⟩ := halone
    have hexisting : (s.machines target.machine_id).isSome = false := by
      rw [hm, hnone]
      rfl
    have ht : t = s.setUpdate i ⟨query, .writing target false utcnow⟩ := by
      simp only [Api.step, hi, hexisting] at hstep
      exact (Option.some.inj hstep).symm
    have hupdates : t.updates = s.updates.set i ⟨query, .writing target false utcnow⟩ :=
      congrArg Service.updates ht
    obtain ⟨hins, -, -⟩ := counts_lookup hi hupdates hm
    rw [Bool.not_false, Bool.toNat_true] at hins
    exact .inr (.inr (by omega))
  | _ => exact absurd trivial halone

/-- Where no request has failed or will, each of them was alone. -/
theorem along_of_not_doomed {es : List Event} (hrun : exec Api.step s es = some t)
    (hdoomed : ¬Doomed m t) : Along Api.step (Alone m) s es := by
  induction es generalizing s with
  | nil => trivial
  | cons e es ih =>
    obtain ⟨u, hu, hrest⟩ := exec_cons_eq_some_iff.mp hrun
    refine ⟨?_, fun u' hu' => ?_⟩
    · by_contra halone
      exact hdoomed (exec_invariant (fun _ _ _ h hstep => h.step hstep) hrest
        (doomed_of_not_alone hu halone))
    · obtain rfl := Option.some.inj (hu.symm.trans hu')
      exact ih hrest

end

/-! ## Runs -/

theorem ordered_start {start : Service} (hstart : start.updates = []) (m : Text) :
    Ordered start m start := by
  have hins : start.inserting m = 0 := by rw [Service.inserting, hstart]; rfl
  have hover : start.overwriting m = 0 := by rw [Service.overwriting, hstart]; rfl
  have hfail : start.failures m = 0 := by rw [Service.failures, hstart]; rfl
  have hwrites : start.writes m = [] := by rw [Service.writes, hstart]; rfl
  exact
    { inserting := fun hpos => by omega
      alone := by omega
      overwriting := fun hpos => by omega
      failures := hfail
      row := ⟨[], start.machines, hwrites ▸ List.Perm.refl _, rfl, rfl⟩ }

theorem failures_eq_zero_iff {m : Text} {s : Service} :
    s.failures m = 0 ↔ ∀ x ∈ s.updates, x.phase.failed m = false := by
  rw [Service.failures, List.countP_eq_zero]
  exact forall₂_congr fun x _ => by rw [Bool.not_eq_true]

/-- **When concurrent updates of a machine are serialisable**: in every state of a run where
no request finds the row missing while another one is about to insert it; and once all
requests are finished, only then. -/
theorem updates_serialised_iff {start s : Service} {es : List Event}
    (hrun : exec step start es = some s) (hstart : start.updates = []) (m : Text) :
    (Along step (Alone m) start es → Serialised start m s) ∧
    (s.Finished m → Serialised start m s → Along step (Alone m) start es) := by
  refine ⟨fun halong => ?_, fun hfinished hserialised => ?_⟩
  · have hordered : Ordered start m s :=
      exec_induct_mem (Q := fun _ => True) (fun _ _ _ h _ halone hstep => h.step halone hstep) hrun
        (fun _ _ => trivial) halong (ordered_start hstart m)
    exact ⟨failures_eq_zero_iff.mp hordered.failures, hordered.row⟩
  · refine along_of_not_doomed hrun fun hdoomed => ?_
    have hfailures : s.failures m = 0 := failures_eq_zero_iff.mpr hserialised.ok
    have hinserting : s.inserting m = 0 := by
      rw [Service.inserting, List.countP_eq_zero]
      intro x hx
      rw [(hfinished x hx).1]
      exact Bool.false_ne_true
    unfold Doomed at hdoomed
    omega

/-! ## A machine without a row -/

def lathe : Target where
  machine_id := "lathe".toList
  machine_ip := "10.0.0.1".toList
  machine_port := 8193

/-- The lathe was probed. -/
def probedService : Service where
  pings := [⟨1, lathe, []⟩]
  machines _ := none
  checks := []
  updates := []

def latheQuery : UpdateQuery := ⟨some lathe.machine_id, some lathe.machine_ip, some 8193⟩

/-- Two updates that both look the lathe up before one inserts it. -/
def raceRun : List Event :=
  [.update latheQuery, .update latheQuery, .fetchPing 0 (some ⟨1, lathe, []⟩),
    .fetchPing 1 (some ⟨1, lathe, []⟩), .fetchMachine 0 2, .fetchMachine 1 3, .write 0 4,
    .write 1 5]

/-- The second one is answered with 500. -/
theorem raceRun_not_serialised :
    ∃ s, exec step probedService raceRun = some s ∧ s.Finished lathe.machine_id ∧
      ¬Serialised probedService lathe.machine_id s := by
  refine ⟨_, rfl, ?_, fun h => ?_⟩
  · unfold Service.Finished
    decide
  · have hfailed := h.ok _ (List.mem_cons_of_mem _ List.mem_cons_self)
    exact absurd hfailed (by decide)

/-- Two updates that are both checked before one of them looks the lathe up, and the second
one looks it up after the first one has inserted it. -/
def turnsRun : List Event :=
  [.update latheQuery, .update latheQuery, .fetchPing 0 (some ⟨1, lathe, []⟩),
    .fetchPing 1 (some ⟨1, lathe, []⟩), .fetchMachine 0 2, .write 0 3, .fetchMachine 1 4,
    .write 1 5]

/-- The first one inserts the lathe, the second one updates it. -/
def insertedService : Service where
  pings := [⟨1, lathe, []⟩]
  machines := Function.update (Function.update (fun _ => none) lathe.machine_id
    (some (.insert ⟨lathe, 2, 3⟩))) lathe.machine_id
      (some ((MachineRow.insert ⟨lathe, 2, 3⟩).update ⟨lathe, 4, 5⟩))
  checks := []
  updates := [⟨latheQuery, .done ⟨lathe, 2, 3⟩ .httpOk⟩, ⟨latheQuery, .done ⟨lathe, 4, 5⟩ .httpOk⟩]

theorem turnsRun_serialised :
    exec step probedService turnsRun = some insertedService ∧
    Serialised probedService lathe.machine_id insertedService := by
  have hrun : exec step probedService turnsRun = some insertedService := rfl
  refine ⟨hrun, (updates_serialised_iff hrun rfl lathe.machine_id).1 ?_⟩
  refine ⟨trivial, fun t ht => ?_⟩
  obtain rfl := Option.some.inj ht
  refine ⟨trivial, fun t ht => ?_⟩
  obtain rfl := Option.some.inj ht
  refine ⟨trivial, fun t ht => ?_⟩
  obtain rfl := Option.some.inj ht
  refine ⟨trivial, fun t ht => ?_⟩
  obtain rfl := Option.some.inj ht
  -- the first one finds no row, and no other one is about to insert it
  refine ⟨fun _ _ _ _ _ => rfl, fun t ht => ?_⟩
  obtain rfl := Option.some.inj ht
  refine ⟨trivial, fun t ht => ?_⟩
  obtain rfl := Option.some.inj ht
  -- the second one finds the row
  refine ⟨fun _ _ _ _ hnone => Option.some_ne_none _ hnone |>.elim, fun t ht => ?_⟩
  obtain rfl := Option.some.inj ht
  exact ⟨trivial, fun _ _ => trivial⟩

end FanucDriver.Monitor.Api
