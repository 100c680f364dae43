import FanucDriver.Lib.Steps
import Mathlib.Data.Int.Order.Basic
import Mathlib.Logic.Function.Basic

/-!
# The web service of the machine table

`api.py` answers requests concurrently. `app_check` probes a device and inserts a row into
`machine_pings`; `app_update` compares its query with the first ping by date, looks the
machine up, and updates or inserts its row. Each statement is a transaction of its own, so a
step of the service is one statement of one request, with the code around it.

`step_cases` says what a step does to the updates and to the tables.

Mirroring notes:
- A port of a query is what `int(port)` gives, nothing for a `ValueError`.
- `order by date desc` leaves the order of rows with one date to the database: `fetchPing`
  carries the row that comes first.
- The dates are those of the clocks that are read, `utcnow` of the service and
  `current_timestamp` of the database; neither is assumed to be monotonic.
- An exception of a handler is answered with the status 500. A statement raises one where
  the tables forbid it; that the connection fails is not modelled.
- `app_status`, which reads another table, is left out, and so is the `id` of a ping.
-/

namespace FanucDriver.Monitor.Api

abbrev Text := List Char

/-- `validate_machine_port` -/
def validateMachinePort (port : Option ℤ) : Option ℤ :=
  port.filter fun iport => 0 < iport ∧ iport < 65535

/-! ## The tables -/

/-- A machine and its address. -/
structure Target where
  machine_id : Text
  machine_ip : Text
  machine_port : ℤ
  deriving DecidableEq

/-- A row of `machine_pings`. -/
structure Ping where
  date : ℤ
  target : Target
  machine_axes : List Text
  deriving DecidableEq

/-- A row of `machines`, besides its key. -/
structure MachineRow where
  machine_ip : Text
  machine_port : ℤ
  modified_at : Option ℤ
  created_at : Option ℤ
  deriving DecidableEq

/-- `machines`, by its primary key. -/
abbrev Machines := Text → Option MachineRow

/-! ## The requests -/

/-- What a device answers; the ids of the axes without blanks around them. -/
structure Probe where
  id : Text
  axes : List Text
  deriving DecidableEq

inductive Response where
  | httpOk
  | httpBadRequest
  | httpNotFound
  | internalServerError
  | machine (result : Option Probe)
  deriving DecidableEq

/-- The query of `app_check`. -/
structure CheckQuery where
  ip : Option Text
  port : Option ℤ
  deriving DecidableEq

inductive CheckPhase where
  /-- `check_device` -/
  | probing (device_port : ℤ)
  /-- `insert into machine_pings` -/
  | inserting (device_port : ℤ) (result : Probe) (utcnow : ℤ)
  | answered (response : Response)
  deriving DecidableEq

structure CheckRequest where
  query : CheckQuery
  phase : CheckPhase
  deriving DecidableEq

/-- The query of `app_update`. -/
structure UpdateQuery where
  id : Option Text
  ip : Option Text
  port : Option ℤ
  deriving DecidableEq

/-- The arguments of the statement that writes a machine, and its `CURRENT_TIMESTAMP`. -/
structure Write where
  target : Target
  utcnow : ℤ
  current_timestamp : ℤ
  deriving DecidableEq

inductive UpdatePhase where
  /-- `select … from machine_pings` -/
  | checking
  /-- `select * from machines` -/
  | checked (target : Target)
  /-- `update machines` or `insert into machines` -/
  | writing (target : Target) (existing : Bool) (utcnow : ℤ)
  | answered (response : Response)
  /-- answered after the statement that writes -/
  | done (write : Write) (response : Response)
  deriving DecidableEq

structure UpdateRequest where
  query : UpdateQuery
  phase : UpdatePhase
  deriving DecidableEq

/-! ## The statements -/

/-- `INSERT INTO machine_pings`: nothing where the row breaks a constraint. -/
def insertPing (pings : List Ping) (ip : Option Text) (device_port : ℤ) (result : Probe)
    (utcnow : ℤ) : Option (List Ping) :=
  match ip with
  | none => none
  | some ip =>
    -- `varchar(4)[]`
    if result.axes.all fun a => a.length ≤ 4 then
      some (pings ++ [⟨utcnow, ⟨result.id, ip, device_port⟩, result.axes⟩])
    else none

/-- A row that may come first `order by date desc`, nothing in an empty table. -/
def IsFirst (pings : List Ping) : Option Ping → Prop
  | none => pings = []
  | some row => row ∈ pings ∧ ∀ ping ∈ pings, ping.date ≤ row.date

instance : (pings : List Ping) → (row : Option Ping) → Decidable (IsFirst pings row)
  | pings, none => inferInstanceAs (Decidable (pings = []))
  | pings, some row => inferInstanceAs (Decidable (row ∈ pings ∧ ∀ ping ∈ pings, _))

/-- `if tuple(row) != (machine_id, machine_ip, machine_port)` -/
def checkPing (query : UpdateQuery) : Option Ping → UpdatePhase
  | none => .answered .httpNotFound
  | some row =>
    if some row.target.machine_id = query.id ∧ some row.target.machine_ip = query.ip ∧
        some row.target.machine_port = validateMachinePort query.port then
      .checked row.target
    else .answered .httpBadRequest

def MachineRow.update (row : MachineRow) (write : Write) : MachineRow :=
  { row with
    machine_ip := write.target.machine_ip
    machine_port := write.target.machine_port
    modified_at := some write.utcnow }

/-- A row with the default of `modified_at`. -/
def MachineRow.insert (write : Write) : MachineRow where
  machine_ip := write.target.machine_ip
  machine_port := write.target.machine_port
  modified_at := some write.current_timestamp
  created_at := some write.utcnow

/-- The statement that `existing_machine` selects; nothing where the key is taken. -/
def execute (existing : Bool) (write : Write) (machines : Machines) : Option Machines :=
  match existing, machines write.target.machine_id with
  | true, row =>
    some (Function.update machines write.target.machine_id (row.map (·.update write)))
  | false, none => some (Function.update machines write.target.machine_id (some (.insert write)))
  | false, some _ => none

/-! ## The service -/

structure Service where
  pings : List Ping
  machines : Machines
  checks : List CheckRequest
  updates : List UpdateRequest

inductive Event where
  | check (query : CheckQuery)
  /-- `check_device` of request `i` comes back. -/
  | probe (i : ℕ) (result : Option Probe) (utcnow : ℤ)
  | insertPing (i : ℕ)
  | update (query : UpdateQuery)
  | fetchPing (i : ℕ) (row : Option Ping)
  | fetchMachine (i : ℕ) (utcnow : ℤ)
  | write (i : ℕ) (current_timestamp : ℤ)
  deriving DecidableEq

def Service.setCheck (s : Service) (i : ℕ) (x : CheckRequest) : Service :=
  { s with checks := s.checks.set i x }

def Service.setUpdate (s : Service) (i : ℕ) (x : UpdateRequest) : Service :=
  { s with updates := s.updates.set i x }

def step (s : Service) : Event → Option Service
  | .check query =>
    let phase :=
      match validateMachinePort query.port with
      | none => .answered .httpBadRequest
      | some device_port => .probing device_port
    some { s with checks := s.checks ++ [⟨query, phase⟩] }
  | .probe i result utcnow =>
    match s.checks[i]? with
    | some ⟨query, .probing device_port⟩ =>
      let phase :=
        match result with
        | none => .answered (.machine none)
        | some result => .inserting device_port result utcnow
      some (s.setCheck i ⟨query, phase⟩)
    | _ => none
  | .insertPing i =>
    match s.checks[i]? with
    | some ⟨query, .inserting device_port result utcnow⟩ =>
      match insertPing s.pings query.ip device_port result utcnow with
      | none => some (s.setCheck i ⟨query, .answered .internalServerError⟩)
      | some pings =>
        some ({ s with pings := pings }.setCheck i ⟨query, .answered (.machine (some result))⟩)
    | _ => none
  | .update query => some { s with updates := s.updates ++ [⟨query, .checking⟩] }
  | .fetchPing i row =>
    match s.updates[i]? with
    | some ⟨query, .checking⟩ =>
      if IsFirst s.pings row then some (s.setUpdate i ⟨query, checkPing query row⟩) else none
    | _ => none
  | .fetchMachine i utcnow =>
    match s.updates[i]? with
    | some ⟨query, .checked target⟩ =>
      some (s.setUpdate i ⟨query, .writing target (s.machines target.machine_id).isSome utcnow⟩)
    | _ => none
  | .write i current_timestamp =>
    match s.updates[i]? with
    | some ⟨query, .writing target existing utcnow⟩ =>
      match execute existing ⟨target, utcnow, current_timestamp⟩ s.machines with
      | none =>
        some (s.setUpdate i
          ⟨query, .done ⟨target, utcnow, current_timestamp⟩ .internalServerError⟩)
      | some machines =>
        some ({ s with machines := machines }.setUpdate i
          ⟨query, .done ⟨target, utcnow, current_timestamp⟩ .httpOk⟩)
    | _ => none

/-! ## What a step does -/

theorem getElem?_setUpdate_self {s : Service} {i : ℕ} {y : UpdateRequest}
    (h : s.updates[i]? = some y) (x : UpdateRequest) : (s.setUpdate i x).updates[i]? = some x :=
  List.getElem?_set_self (List.getElem?_eq_some_iff.mp h).1

/-- A statement that writes changes the row of its machine only. -/
theorem execute_ne {existing : Bool} {write : Write} {machines machines' : Machines} {m : Text}
    (h : execute existing write machines = some machines') (hm : m ≠ write.target.machine_id) :
    machines' m = machines m := by
  unfold execute at h
  split at h
  · rw [← Option.some.inj h, Function.update_of_ne hm]
  · rw [← Option.some.inj h, Function.update_of_ne hm]
  · exact absurd h.symm (Option.some_ne_none _)

/-- No statement takes a row away. -/
theorem execute_isSome {existing : Bool} {write : Write} {machines machines' : Machines} {m : Text}
    (h : execute existing write machines = some machines') (hm : (machines m).isSome) :
    (machines' m).isSome := by
  by_cases heq : m = write.target.machine_id
  · subst heq
    unfold execute at h
    split at h
    · rw [← Option.some.inj h, Function.update_self, Option.isSome_map]
      exact hm
    · rw [← Option.some.inj h, Function.update_self]
      rfl
    · exact absurd h.symm (Option.some_ne_none _)
  · rw [execute_ne h heq]
    exact hm

/-- What a step does to the updates and to `machines`. -/
inductive Moves (s : Service) : Event → Service → Prop where
  /-- A step of a check, or an update that arrives. -/
  | other {e t} (xs : List UpdateRequest) (hmachines : t.machines = s.machines)
      (hupdates : t.updates = s.updates ++ xs) (hxs : ∀ x ∈ xs, x.phase = .checking) : Moves s e t
  | fetchPing {i row query} (hi : s.updates[i]? = some ⟨query, .checking⟩)
      (hrow : IsFirst s.pings row) :
      Moves s (.fetchPing i row) (s.setUpdate i ⟨query, checkPing query row⟩)
  | fetchMachine {i utcnow query target} (hi : s.updates[i]? = some ⟨query, .checked target⟩) :
      Moves s (.fetchMachine i utcnow) (s.setUpdate i
        ⟨query, .writing target (s.machines target.machine_id).isSome utcnow⟩)
  | refused {i query existing} {write : Write}
      (hi : s.updates[i]? = some ⟨query, .writing write.target existing write.utcnow⟩)
      (hwrite : execute existing write s.machines = none) :
      Moves s (.write i write.current_timestamp)
        (s.setUpdate i ⟨query, .done write .internalServerError⟩)
  | written {i query existing} {write : Write} {machines : Machines}
      (hi : s.updates[i]? = some ⟨query, .writing write.target existing write.utcnow⟩)
      (hwrite : execute existing write s.machines = some machines) :
      Moves s (.write i write.current_timestamp)
        ({ s with machines := machines }.setUpdate i ⟨query, .done write .httpOk⟩)

theorem step_cases {s t : Service} {e : Event} (h : step s e = some t) : Moves s e t := by
  have hquiet : ∀ {e t}, t.machines = s.machines → t.updates = s.updates → Moves s e t :=
    fun hmachines hupdates => .other [] hmachines (hupdates.trans (List.append_nil _).symm)
      (fun x hx => absurd hx List.not_mem_nil)
  cases e with
  | check query => exact Option.some.inj h ▸ hquiet rfl rfl
  | update query =>
    refine Option.some.inj h ▸ .other [⟨query, .checking⟩] rfl rfl fun x hx => ?_
    rw [List.mem_singleton.mp hx]
  | probe i result utcnow =>
    simp only [step] at h
    split at h
    next => exact Option.some.inj h ▸ hquiet rfl rfl
    next => exact absurd h.symm (Option.some_ne_none t)
  | insertPing i =>
    simp only [step] at h
    split at h
    next =>
      split at h
      next => exact Option.some.inj h ▸ hquiet rfl rfl
      next => exact Option.some.inj h ▸ hquiet rfl rfl
    next => exact absurd h.symm (Option.some_ne_none t)
  | fetchPing i row =>
    simp only [step] at h
    split at h
    next query hi =>
      split at h
      next hrow => exact Option.some.inj h ▸ .fetchPing hi hrow
      next => exact absurd h.symm (Option.some_ne_none t)
    next => exact absurd h.symm (Option.some_ne_none t)
  | fetchMachine i utcnow =>
    simp only [step] at h
    split at h
    next query target hi => exact Option.some.inj h ▸ .fetchMachine hi
    next => exact absurd h.symm (Option.some_ne_none t)
  | write i current_timestamp =>
    simp only [step] at h
    split at h
    next query target existing utcnow hi =>
      split at h
      next hwrite => exact Option.some.inj h ▸ @Moves.refused _ _ _ _ ⟨target, utcnow, _⟩ hi hwrite
      next machines hwrite =>
        exact Option.some.inj h ▸ @Moves.written _ _ _ _ ⟨target, utcnow, _⟩ machines hi hwrite
    next => exact absurd h.symm (Option.some_ne_none t)

end FanucDriver.Monitor.Api
