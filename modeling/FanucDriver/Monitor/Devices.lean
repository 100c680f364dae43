import FanucDriver.Monitor.Api
import FanucDriver.Monitor.Probes

/-!
# The probes of the web service

`check_device` of `api.py` asks a device through `fwlib`, in a thread of the executor and under
one lock for all requests. `fwlib` is a module with one connection: its calls name no handle.
What it answers comes from outside; `Reads` says that a call is answered by the device that was
connected last.

`tables_genuine` is what the lock is for:

> in every run of the service in which no probe is cancelled while its thread runs, every row
> of `machine_pings` and of `machines` names an address at which a device answered with that
> machine's id.

A probe that is cancelled gives the lock back while its thread goes on, and the next one is
answered by the wrong device (`cancelled_probe_misattributed`).

Mirroring notes:
- The ids of the axes are without blanks around them, as in `Api`.
- An `asyncio.Lock` is first come, first served; here any request that waits may get it.
- `tester` catches every exception and returns `None`. `freelibhndl` is called where
  `allclibhndl3` did not raise.
- A request without `ip` makes `allclibhndl3` raise.
-/

namespace FanucDriver.Monitor.Api

open FanucDriver.Lib

/-! ## `check_device` -/

structure Address where
  device_ip : Text
  device_port : ℤ
  deriving DecidableEq

inductive JobPhase where
  /-- `async with lock` -/
  | waiting
  /-- `run_in_executor`, before `allclibhndl3` -/
  | calling
  /-- before `rdcncid` -/
  | connected
  /-- before `rdaxisname` -/
  | identified (cnc_id : Text)
  /-- before `freelibhndl` -/
  | closing (result : Option Probe)
  /-- the thread has ended -/
  | ended (result : Option Probe)
  | returned (result : Option Probe)
  deriving DecidableEq

/-- The thread of the probe is under way. -/
def JobPhase.running : JobPhase → Bool
  | calling | connected | identified _ | closing _ => true
  | _ => false

/-- `check_device` of one request. -/
structure Job where
  device_ip : Option Text
  device_port : ℤ
  phase : JobPhase
  cancelled : Bool
  deriving DecidableEq

/-- What the coroutine and its thread do next, with what `fwlib` comes back with: nothing for an
exception. -/
inductive Call where
  | acquire
  | allclibhndl3 (connects : Bool)
  | rdcncid (cnc_id : Option Text)
  | rdaxisname (axes : Option (List Text))
  | freelibhndl (frees : Bool)
  | resume
  | cancel
  deriving DecidableEq

/-- The lock, and the connection of `fwlib`. -/
structure Shared where
  lock : Option ℕ
  handle : Option Address
  deriving DecidableEq

def Job.step (i : ℕ) (x : Shared) (job : Job) : Call → Option (Job × Shared)
  | .acquire =>
    if job.phase = .waiting ∧ job.cancelled = false ∧ x.lock = none then
      some ({ job with phase := .calling }, { x with lock := some i })
    else none
  | .allclibhndl3 connects =>
    match job.phase with
    | .calling =>
      match job.device_ip, connects with
      | some ip, true =>
        some ({ job with phase := .connected }, { x with handle := some ⟨ip, job.device_port⟩ })
      | _, _ => some ({ job with phase := .ended none }, x)
    | _ => none
  | .rdcncid cnc_id =>
    match job.phase with
    | .connected =>
      some ({ job with phase := cnc_id.elim (.closing none) .identified }, x)
    | _ => none
  | .rdaxisname axes =>
    match job.phase with
    | .identified cnc_id =>
      some ({ job with phase := .closing (axes.map fun axes => ⟨cnc_id, axes⟩) }, x)
    | _ => none
  | .freelibhndl frees =>
    match job.phase with
    | .closing result =>
      if frees then some ({ job with phase := .ended result }, { x with handle := none })
      else some ({ job with phase := .ended none }, x)
    | _ => none
  | .resume =>
    match job.phase with
    | .ended result =>
      if job.cancelled then none
      else some ({ job with phase := .returned result }, { x with lock := none })
    | _ => none
  | .cancel =>
    if job.cancelled then none
    else
      match job.phase with
      | .returned _ => none
      | .waiting => some ({ job with cancelled := true }, x)
      -- `async with` gives the lock back; the thread goes on
      | _ => some ({ job with cancelled := true }, { x with lock := none })

/-! ## All probes -/

/-- The jobs, by request. -/
structure Devices where
  jobs : ℕ → Option Job
  shared : Shared

inductive DeviceEvent where
  | spawn (i : ℕ) (device_ip : Option Text) (device_port : ℤ)
  | job (i : ℕ) (c : Call)
  deriving DecidableEq

namespace Devices

def init : Devices := ⟨fun _ => none, ⟨none, none⟩⟩

def step (s : Devices) : DeviceEvent → Option Devices
  | .spawn i device_ip device_port =>
    match s.jobs i with
    | none =>
      let job : Job := ⟨device_ip, device_port, .waiting, false⟩
      some { s with jobs := Function.update s.jobs i (some job) }
    | some _ => none
  | .job i c =>
    match s.jobs i with
    | none => none
    | some job =>
      (job.step i s.shared c).map fun r => ⟨Function.update s.jobs i (some r.1), r.2⟩

end Devices

/-- What the device at an address may answer. -/
structure Answers where
  cnc_id : Address → Text → Prop
  axes : Address → List Text → Prop

/-- `fwlib` is answered by the device connected last. -/
def Reads (dev : Answers) (s : Devices) : DeviceEvent → Prop
  | .job _ (.rdcncid (some cnc_id)) => ∃ a ∈ s.shared.handle, dev.cnc_id a cnc_id
  | .job _ (.rdaxisname (some axes)) => ∃ a ∈ s.shared.handle, dev.axes a axes
  | _ => True

/-- No job is cancelled while its thread runs. -/
def Uncancelled (s : Devices) : DeviceEvent → Prop
  | .job i .cancel => ∀ job ∈ s.jobs i, job.phase.running = false
  | _ => True

/-! ## The lock -/

/-- A result is the answer of the device at the address. -/
def Answers.Gave (dev : Answers) (ip : Option Text) (port : ℤ) (result : Option Probe) : Prop :=
  ∀ probe, result = some probe → ∃ device_ip, ip = some device_ip ∧
    dev.cnc_id ⟨device_ip, port⟩ probe.id ∧ dev.axes ⟨device_ip, port⟩ probe.axes

/-- What a job has of its device, and what it holds. -/
structure Job.Sound (dev : Answers) (i : ℕ) (x : Shared) (job : Job) : Prop where
  /-- The thread runs under the lock. -/
  uncancelled : job.phase.running = true → job.cancelled = false
  holds : (job.phase.running = true ∨ ∃ r, job.phase = .ended r) → job.cancelled = false →
    x.lock = some i
  connected : job.phase = .connected ∨ (∃ id, job.phase = .identified id) →
    ∃ ip, job.device_ip = some ip ∧ x.handle = some ⟨ip, job.device_port⟩
  identified : ∀ id, job.phase = .identified id →
    ∃ ip, job.device_ip = some ip ∧ dev.cnc_id ⟨ip, job.device_port⟩ id
  answered : ∀ r, job.phase = .closing r ∨ job.phase = .ended r ∨ job.phase = .returned r →
    dev.Gave job.device_ip job.device_port r

/-- The condition of a step of job `i`. -/
def Job.Allowed (dev : Answers) (x : Shared) (job : Job) : Call → Prop
  | .rdcncid (some cnc_id) => ∃ a ∈ x.handle, dev.cnc_id a cnc_id
  | .rdaxisname (some axes) => ∃ a ∈ x.handle, dev.axes a axes
  | .cancel => job.phase.running = false
  | _ => True

namespace Job

variable {dev : Answers} {i : ℕ} {x x' : Shared} {job job' : Job} {c : Call}

/-- A job that has nothing to do with `fwlib` any more, or not yet. -/
theorem Sound.of_idle (hrun : job.phase.running = false)
    (hended : ∀ r, job.phase = .ended r → job.cancelled = false → x.lock = some i)
    (hanswered : ∀ r, job.phase = .ended r ∨ job.phase = .returned r →
      dev.Gave job.device_ip job.device_port r) : job.Sound dev i x where
  uncancelled h := absurd (h.symm.trans hrun) (by decide)
  holds h hc := by
    rcases h with h | ⟨r, hr⟩
    · exact absurd (h.symm.trans hrun) (by decide)
    · exact hended r hr hc
  connected h := by
    rcases h with h | ⟨id, h⟩ <;> rw [h] at hrun <;> exact absurd hrun (by simp [JobPhase.running])
  identified id h := by
    rw [h] at hrun
    exact absurd hrun (by simp [JobPhase.running])
  answered r h := by
    rcases h with h | h
    · rw [h] at hrun
      exact absurd hrun (by simp [JobPhase.running])
    · exact hanswered r h

theorem gave_none {ip : Option Text} {port : ℤ} : dev.Gave ip port none :=
  fun _ h => absurd h.symm (Option.some_ne_none _)

/-- **A step of a job** under the lock. -/
theorem Sound.step (h : job.Sound dev i x) (hallowed : job.Allowed dev x c)
    (hstep : job.step i x c = some (job', x')) : job'.Sound dev i x' := by
  cases c with
  | acquire =>
    simp only [Job.step] at hstep
    split at hstep
    next hfree =>
      obtain ⟨rfl, rfl⟩ := Prod.mk.inj (Option.some.inj hstep)
      exact ⟨fun _ => hfree.2.1, fun _ _ => rfl, by simp, by simp, by simp⟩
    next => exact absurd hstep.symm (Option.some_ne_none _)
  | allclibhndl3 connects =>
    simp only [Job.step] at hstep
    split at hstep
    next hphase =>
      have hrun : job.phase.running = true := hphase ▸ rfl
      have huncancelled := h.uncancelled hrun
      have hlock := h.holds (.inl hrun) huncancelled
      split at hstep
      next ip hip =>
        obtain ⟨rfl, rfl⟩ := Prod.mk.inj (Option.some.inj hstep)
        exact ⟨fun _ => huncancelled, fun _ _ => hlock, fun _ => ⟨ip, hip, rfl⟩, by simp, by simp⟩
      next =>
        obtain ⟨rfl, rfl⟩ := Prod.mk.inj (Option.some.inj hstep)
        refine .of_idle rfl (fun _ _ _ => hlock) fun r hr => ?_
        obtain rfl : none = r := by simpa using hr
        exact gave_none
    next => exact absurd hstep.symm (Option.some_ne_none _)
  | rdcncid cnc_id =>
    simp only [Job.step] at hstep
    split at hstep
    next hphase =>
      have hrun : job.phase.running = true := hphase ▸ rfl
      have huncancelled := h.uncancelled hrun
      have hlock := h.holds (.inl hrun) huncancelled
      obtain ⟨ip, hip, hhandle⟩ := h.connected (.inl hphase)
      obtain ⟨rfl, rfl⟩ := Prod.mk.inj (Option.some.inj hstep)
      cases cnc_id with
      | none =>
        refine ⟨fun _ => huncancelled, fun _ _ => hlock, by simp, by simp, fun r hr => ?_⟩
        obtain rfl : none = r := by simpa using hr
        exact gave_none
      | some cnc_id =>
        obtain ⟨a, ha, hanswer⟩ := hallowed
        obtain rfl := Option.some.inj (hhandle.symm.trans ha)
        refine ⟨fun _ => huncancelled, fun _ _ => hlock, fun _ => ⟨ip, hip, hhandle⟩, ?_, by simp⟩
        intro id hid
        obtain rfl : cnc_id = id := by simpa using hid
        exact ⟨ip, hip, hanswer⟩
    next => exact absurd hstep.symm (Option.some_ne_none _)
  | rdaxisname axes =>
    simp only [Job.step] at hstep
    split at hstep
    next cnc_id hphase =>
      have hrun : job.phase.running = true := hphase ▸ rfl
      have huncancelled := h.uncancelled hrun
      have hlock := h.holds (.inl hrun) huncancelled
      obtain ⟨ip, hip, hhandle⟩ := h.connected (.inr ⟨cnc_id, hphase⟩)
      obtain ⟨ip', hip', hid⟩ := h.identified cnc_id hphase
      obtain rfl := Option.some.inj (hip.symm.trans hip')
      obtain ⟨rfl, rfl⟩ := Prod.mk.inj (Option.some.inj hstep)
      refine ⟨fun _ => huncancelled, fun _ _ => hlock, by simp, by simp, fun r hr => ?_⟩
      cases axes with
      | none =>
        obtain rfl : none = r := by simpa using hr
        exact gave_none
      | some axes =>
        obtain ⟨a, ha, hanswer⟩ := hallowed
        obtain rfl := Option.some.inj (hhandle.symm.trans ha)
        obtain rfl : some ⟨cnc_id, axes⟩ = r := by simpa using hr
        intro probe hprobe
        obtain rfl := Option.some.inj hprobe
        exact ⟨ip, hip, hid, hanswer⟩
    next => exact absurd hstep.symm (Option.some_ne_none _)
  | freelibhndl frees =>
    simp only [Job.step] at hstep
    split at hstep
    next result hphase =>
      have hrun : job.phase.running = true := hphase ▸ rfl
      have huncancelled := h.uncancelled hrun
      have hlock := h.holds (.inl hrun) huncancelled
      split at hstep
      next =>
        obtain ⟨rfl, rfl⟩ := Prod.mk.inj (Option.some.inj hstep)
        refine .of_idle rfl (fun _ _ _ => hlock) fun r hr => ?_
        obtain rfl : result = r := by simpa using hr
        exact h.answered result (.inl hphase)
      next =>
        obtain ⟨rfl, rfl⟩ := Prod.mk.inj (Option.some.inj hstep)
        refine .of_idle rfl (fun _ _ _ => hlock) fun r hr => ?_
        obtain rfl : none = r := by simpa using hr
        exact gave_none
    next => exact absurd hstep.symm (Option.some_ne_none _)
  | resume =>
    simp only [Job.step] at hstep
    split at hstep
    next result hphase =>
      split at hstep
      next => exact absurd hstep.symm (Option.some_ne_none _)
      next =>
        obtain ⟨rfl, rfl⟩ := Prod.mk.inj (Option.some.inj hstep)
        refine .of_idle rfl (by simp) fun r hr => ?_
        obtain rfl : result = r := by simpa using hr
        exact h.answered result (.inr (.inl hphase))
    next => exact absurd hstep.symm (Option.some_ne_none _)
  | cancel =>
    have hrun : job.phase.running = false := hallowed
    have hanswered : ∀ r, job.phase = .ended r ∨ job.phase = .returned r →
        dev.Gave job.device_ip job.device_port r := fun r hr => h.answered r (.inr hr)
    simp only [Job.step] at hstep
    split at hstep
    next => exact absurd hstep.symm (Option.some_ne_none _)
    next =>
      split at hstep
      next => exact absurd hstep.symm (Option.some_ne_none _)
      all_goals
        obtain ⟨rfl, rfl⟩ := Prod.mk.inj (Option.some.inj hstep)
        exact .of_idle hrun (fun _ _ hc => Bool.noConfusion hc) hanswered

/-- A job that does not hold the lock changes nothing while another one does. -/
theorem Sound.step_shared (h : job.Sound dev i x) (hallowed : job.Allowed dev x c)
    (hstep : job.step i x c = some (job', x')) {j : ℕ} (hlock : x.lock = some j) (hne : j ≠ i) :
    x' = x := by
  have hnot : x.lock ≠ some i := fun heq => hne (Option.some.inj (hlock.symm.trans heq))
  have hidle : job.phase.running = false := by
    by_contra hrun
    rw [Bool.not_eq_false] at hrun
    exact hnot (h.holds (.inl hrun) (h.uncancelled hrun))
  cases c with
  | acquire =>
    simp only [Job.step] at hstep
    split at hstep
    next hfree => exact absurd (hfree.2.2.symm.trans hlock).symm (Option.some_ne_none _)
    next => exact absurd hstep.symm (Option.some_ne_none _)
  | resume =>
    simp only [Job.step] at hstep
    split at hstep
    next result hphase =>
      split at hstep
      next => exact absurd hstep.symm (Option.some_ne_none _)
      next hc => exact absurd (h.holds (.inr ⟨result, hphase⟩) (Bool.eq_false_iff.mpr hc)) hnot
    next => exact absurd hstep.symm (Option.some_ne_none _)
  | cancel =>
    simp only [Job.step] at hstep
    split at hstep
    next => exact absurd hstep.symm (Option.some_ne_none _)
    next hc =>
      cases hphase : job.phase with
      | waiting =>
        rw [hphase] at hstep
        exact (Prod.mk.inj (Option.some.inj hstep)).2.symm
      | returned r =>
        rw [hphase] at hstep
        exact absurd hstep.symm (Option.some_ne_none _)
      | ended r =>
        exact absurd (h.holds (.inr ⟨r, hphase⟩) (Bool.eq_false_iff.mpr hc)) hnot
      | _ => exact absurd hidle (by rw [hphase]; simp [JobPhase.running])
  | _ =>
    simp only [Job.step] at hstep
    split at hstep
    next hphase => exact absurd hidle (by rw [hphase]; simp [JobPhase.running])
    next => exact absurd hstep.symm (Option.some_ne_none _)

/-- A job keeps what it has while another one takes a step. -/
theorem Sound.of_other {j : ℕ} {other : Job} (hother : other.Sound dev j x) (hne : j ≠ i)
    (h : job.Sound dev i x) (hallowed : job.Allowed dev x c)
    (hstep : job.step i x c = some (job', x')) : other.Sound dev j x' := by
  by_cases hheld : other.phase.running = true ∨
      ∃ r, other.phase = .ended r ∧ other.cancelled = false
  · have hlock : x.lock = some j := by
      rcases hheld with hrun | ⟨r, hr, hc⟩
      · exact hother.holds (.inl hrun) (hother.uncancelled hrun)
      · exact hother.holds (.inr ⟨r, hr⟩) hc
    rw [h.step_shared hallowed hstep hlock hne]
    exact hother
  · obtain ⟨hrun, hended⟩ := not_or.mp hheld
    exact .of_idle (Bool.eq_false_iff.mpr hrun) (fun r hr hc => absurd ⟨r, hr, hc⟩ hended)
      fun r hr => hother.answered r (.inr hr)

/-- A job asks one device. -/
theorem step_address (hstep : job.step i x c = some (job', x')) :
    job'.device_ip = job.device_ip ∧ job'.device_port = job.device_port := by
  cases c <;> simp only [Job.step] at hstep <;> (repeat' split at hstep) <;>
    first
    | exact absurd hstep.symm (Option.some_ne_none _)
    | (obtain ⟨rfl, -⟩ := Prod.mk.inj (Option.some.inj hstep)
       exact ⟨rfl, rfl⟩)

end Job

namespace Devices

variable {dev : Answers} {s t : Devices} {e : DeviceEvent}

/-- Every job is sound. -/
def Sound (dev : Answers) (s : Devices) : Prop :=
  ∀ i job, s.jobs i = some job → job.Sound dev i s.shared

theorem init_sound (dev : Answers) : init.Sound dev :=
  fun _ _ h => absurd h.symm (Option.some_ne_none _)

/-- The condition of an event is that of the step of its job. -/
theorem allowed {i : ℕ} {c : Call} {job : Job} (hreads : Reads dev s (.job i c))
    (hcalm : Uncancelled s (.job i c)) (hjob : s.jobs i = some job) :
    job.Allowed dev s.shared c := by
  cases c with
  | rdcncid cnc_id => cases cnc_id <;> exact hreads
  | rdaxisname axes => cases axes <;> exact hreads
  | cancel => exact hcalm job hjob
  | _ => trivial

theorem of_update {jobs : ℕ → Option Job} {i j : ℕ} {new job : Job}
    (h : Function.update jobs i (some new) j = some job) :
    (j = i ∧ job = new) ∨ (j ≠ i ∧ jobs j = some job) := by
  by_cases hj : j = i
  · subst hj
    rw [Function.update_self] at h
    exact .inl ⟨rfl, (Option.some.inj h).symm⟩
  · rw [Function.update_of_ne hj] at h
    exact .inr ⟨hj, h⟩

/-- **The lock keeps the probes apart.** -/
theorem Sound.step (h : s.Sound dev) (hreads : Reads dev s e) (hcalm : Uncancelled s e)
    (hstep : s.step e = some t) : t.Sound dev := by
  cases e with
  | spawn i device_ip device_port =>
    simp only [Devices.step] at hstep
    split at hstep
    next =>
      obtain rfl := (Option.some.inj hstep).symm
      intro j job hjob
      rcases of_update hjob with ⟨rfl, rfl⟩ | ⟨-, hjob⟩
      · exact .of_idle rfl (by simp) (by simp)
      · exact h j job hjob
    next => exact absurd hstep.symm (Option.some_ne_none _)
  | job i c =>
    simp only [Devices.step] at hstep
    split at hstep
    next => exact absurd hstep.symm (Option.some_ne_none _)
    next old hold =>
      obtain ⟨⟨new, shared⟩, hnew, rfl⟩ := Option.map_eq_some_iff.mp hstep
      have hallowed := allowed hreads hcalm hold
      intro j job hjob
      rcases of_update hjob with ⟨rfl, rfl⟩ | ⟨hj, hjob⟩
      · exact (h j old hold).step hallowed hnew
      · exact (h j job hjob).of_other hj (h i old hold) hallowed hnew

/-- A job stays, with its address. -/
theorem step_job {i : ℕ} {job : Job} (hstep : s.step e = some t) (hjob : s.jobs i = some job) :
    ∃ job', t.jobs i = some job' ∧ job'.device_ip = job.device_ip ∧
      job'.device_port = job.device_port := by
  cases e with
  | spawn j device_ip device_port =>
    simp only [Devices.step] at hstep
    split at hstep
    next hnone =>
      obtain rfl := (Option.some.inj hstep).symm
      have hne : i ≠ j := by
        rintro rfl
        exact absurd (hjob.symm.trans hnone) (Option.some_ne_none _)
      exact ⟨job, (Function.update_of_ne hne _ _).trans hjob, rfl, rfl⟩
    next => exact absurd hstep.symm (Option.some_ne_none _)
  | job j c =>
    simp only [Devices.step] at hstep
    split at hstep
    next => exact absurd hstep.symm (Option.some_ne_none _)
    next old hold =>
      obtain ⟨⟨new, shared⟩, hnew, rfl⟩ := Option.map_eq_some_iff.mp hstep
      by_cases hj : i = j
      · subst hj
        obtain rfl := Option.some.inj (hold.symm.trans hjob)
        exact ⟨new, Function.update_self .., Job.step_address hnew⟩
      · exact ⟨job, (Function.update_of_ne hj _ _).trans hjob, rfl, rfl⟩

end Devices

/-! ## The service and its probes -/

/-- The requests and the tables, and the probes. -/
abbrev Site := Service × Devices

/-- A check with a valid port spawns its probe, and goes on with what the probe returns. -/
def SiteMeets (s : Site) : Sync Event DeviceEvent → Prop
  | .both (.check query) (.spawn i device_ip device_port) =>
    i = s.1.checks.length ∧ device_ip = query.ip ∧
      validateMachinePort query.port = some device_port
  | .left (.check query) => validateMachinePort query.port = none
  | .both (.probe i result _) (.job j .resume) =>
    i = j ∧ (s.2.jobs j).map Job.phase = some (.ended result)
  | .left (.probe _ _ _) => False
  | .right (.spawn _ _ _) => False
  | .right (.job _ .resume) => False
  | .both _ _ => False
  | .left _ => True
  | .right _ => True

instance (s : Site) (e : Sync Event DeviceEvent) : Decidable (SiteMeets s e) := by
  unfold SiteMeets
  split <;> infer_instance

def siteStep : Site → Sync Event DeviceEvent → Option Site :=
  syncStep step Devices.step SiteMeets

/-- A machine answered at an address. -/
def Answers.At (dev : Answers) (target : Target) : Prop :=
  dev.cnc_id ⟨target.machine_ip, target.machine_port⟩ target.machine_id

/-- **What the tables say was answered.** -/
structure Genuine (dev : Answers) (s : Service) : Prop where
  pings : ∀ ping ∈ s.pings, dev.At ping.target ∧
    dev.axes ⟨ping.target.machine_ip, ping.target.machine_port⟩ ping.machine_axes
  machines : ∀ m row, s.machines m = some row → dev.At ⟨m, row.machine_ip, row.machine_port⟩

/-- The target an update has checked. -/
def UpdatePhase.target? : UpdatePhase → Option Target
  | checked target => some target
  | writing target _ _ => some target
  | _ => none

/-- What a check has of its device. -/
def CheckRequest.Sourced (dev : Answers) (devices : Devices) (i : ℕ) (x : CheckRequest) : Prop :=
  match x.phase with
  | .probing port =>
    ∃ job, devices.jobs i = some job ∧ job.device_ip = x.query.ip ∧ job.device_port = port
  | .inserting port result _ => dev.Gave x.query.ip port (some result)
  | .answered _ => True

/-- What the requests under way have of the devices. -/
structure Sourced (dev : Answers) (s : Site) : Prop where
  devices : s.2.Sound dev
  checks : ∀ (i : ℕ) x, s.1.checks[i]? = some x → x.Sourced dev s.2 i
  updates : ∀ (i : ℕ) x, s.1.updates[i]? = some x → ∀ target ∈ x.phase.target?, dev.At target
  genuine : Genuine dev s.1

theorem getElem?_setCheck {s : Service} {i j : ℕ} {x y : CheckRequest}
    (h : (s.setCheck i x).checks[j]? = some y) :
    (j = i ∧ y = x) ∨ s.checks[j]? = some y := by
  have hset : (s.checks.set i x)[j]? = some y := h
  rw [List.getElem?_set] at hset
  split at hset
  next hij =>
    split at hset
    next => exact .inl ⟨hij.symm, (Option.some.inj hset).symm⟩
    next => exact absurd hset.symm (Option.some_ne_none _)
  next => exact .inr hset

theorem getElem?_setUpdate {s : Service} {i j : ℕ} {x y : UpdateRequest}
    (h : (s.setUpdate i x).updates[j]? = some y) : y = x ∨ s.updates[j]? = some y := by
  have hset : (s.updates.set i x)[j]? = some y := h
  rw [List.getElem?_set] at hset
  split at hset
  next =>
    split at hset
    next => exact .inl (Option.some.inj hset).symm
    next => exact absurd hset.symm (Option.some_ne_none _)
  next => exact .inr hset

/-- A check keeps its device while the devices go on. -/
theorem CheckRequest.Sourced.mono {dev : Answers} {d d' : Devices} {i : ℕ} {x : CheckRequest}
    (h : x.Sourced dev d i)
    (hjobs : ∀ job, d.jobs i = some job → ∃ job', d'.jobs i = some job' ∧
      job'.device_ip = job.device_ip ∧ job'.device_port = job.device_port) :
    x.Sourced dev d' i := by
  obtain ⟨query, phase⟩ := x
  cases phase with
  | probing port =>
    obtain ⟨job, hjob, hip, hport⟩ := h
    obtain ⟨job', hjob', hip', hport'⟩ := hjobs job hjob
    exact ⟨job', hjob', hip'.trans hip, hport'.trans hport⟩
  | inserting port result utcnow => exact h
  | answered response => trivial

/-! ## What a statement writes -/

/-- What a step does to the checks and to `machine_pings`. -/
inductive CheckMoves (s : Service) : Event → Service → Prop where
  /-- A step of an update. -/
  | other {e t} (hpings : t.pings = s.pings) (hchecks : t.checks = s.checks) : CheckMoves s e t
  | refused {query} (hport : validateMachinePort query.port = none) :
      CheckMoves s (.check query)
        { s with checks := s.checks ++ [⟨query, .answered .httpBadRequest⟩] }
  | spawned {query device_port} (hport : validateMachinePort query.port = some device_port) :
      CheckMoves s (.check query) { s with checks := s.checks ++ [⟨query, .probing device_port⟩] }
  | unanswered {i query device_port utcnow}
      (hi : s.checks[i]? = some ⟨query, .probing device_port⟩) :
      CheckMoves s (.probe i none utcnow) (s.setCheck i ⟨query, .answered (.machine none)⟩)
  | probed {i query device_port result utcnow}
      (hi : s.checks[i]? = some ⟨query, .probing device_port⟩) :
      CheckMoves s (.probe i (some result) utcnow)
        (s.setCheck i ⟨query, .inserting device_port result utcnow⟩)
  | inserted {i query device_port result utcnow pings} (response : Response)
      (hi : s.checks[i]? = some ⟨query, .inserting device_port result utcnow⟩)
      (hpings : pings = s.pings ∨
        insertPing s.pings query.ip device_port result utcnow = some pings) :
      CheckMoves s (.insertPing i)
        ({ s with pings := pings }.setCheck i ⟨query, .answered response⟩)

theorem check_cases {s t : Service} {e : Event} (h : step s e = some t) : CheckMoves s e t := by
  cases e with
  | check query =>
    obtain rfl := Option.some.inj h
    cases hport : validateMachinePort query.port with
    | none => exact .refused hport
    | some device_port => exact .spawned hport
  | probe i result utcnow =>
    simp only [step] at h
    split at h
    next query device_port hi =>
      obtain rfl := Option.some.inj h
      cases result with
      | none => exact .unanswered hi
      | some result => exact .probed hi
    next => exact absurd h.symm (Option.some_ne_none t)
  | insertPing i =>
    simp only [step] at h
    split at h
    next query device_port result utcnow hi =>
      split at h
      next => exact Option.some.inj h ▸ .inserted .internalServerError hi (.inl rfl)
      next pings hinsert => exact Option.some.inj h ▸ .inserted _ hi (.inr hinsert)
    next => exact absurd h.symm (Option.some_ne_none t)
  | update query => exact Option.some.inj h ▸ .other rfl rfl
  | fetchPing i row =>
    simp only [step] at h
    split at h
    next =>
      split at h
      next => exact Option.some.inj h ▸ .other rfl rfl
      next => exact absurd h.symm (Option.some_ne_none t)
    next => exact absurd h.symm (Option.some_ne_none t)
  | fetchMachine i utcnow =>
    simp only [step] at h
    split at h
    next => exact Option.some.inj h ▸ .other rfl rfl
    next => exact absurd h.symm (Option.some_ne_none t)
  | write i current_timestamp =>
    simp only [step] at h
    split at h
    next =>
      split at h
      next => exact Option.some.inj h ▸ .other rfl rfl
      next => exact Option.some.inj h ▸ .other rfl rfl
    next => exact absurd h.symm (Option.some_ne_none t)

/-- A ping names what its probe was answered. -/
theorem insertPing_genuine {dev : Answers} {pings pings' : List Ping} {ip : Option Text}
    {port utcnow : ℤ} {result : Probe} (hgave : dev.Gave ip port (some result))
    (h : insertPing pings ip port result utcnow = some pings') {ping : Ping} (hping : ping ∈ pings')
    (hnew : ping ∉ pings) : dev.At ping.target ∧
      dev.axes ⟨ping.target.machine_ip, ping.target.machine_port⟩ ping.machine_axes := by
  obtain ⟨device_ip, rfl, hid, haxes⟩ := hgave result rfl
  unfold insertPing at h
  split at h
  next => exact absurd ‹_› (Option.some_ne_none _)
  next ip' hip =>
    obtain rfl := Option.some.inj hip
    split at h
    next =>
      obtain rfl := Option.some.inj h
      rcases List.mem_append.mp hping with hold | hlast
      · exact absurd hold hnew
      · obtain rfl := List.mem_singleton.mp hlast
        exact ⟨hid, haxes⟩
    next => exact absurd h.symm (Option.some_ne_none _)

/-- A row of `machines` has the address of the update that wrote it. -/
theorem execute_genuine {dev : Answers} {existing : Bool} {write : Write}
    {machines machines' : Machines} (htarget : dev.At write.target)
    (hmachines : ∀ m row, machines m = some row → dev.At ⟨m, row.machine_ip, row.machine_port⟩)
    (h : execute existing write machines = some machines') (m : Text) (row : MachineRow)
    (hrow : machines' m = some row) : dev.At ⟨m, row.machine_ip, row.machine_port⟩ := by
  by_cases hm : m = write.target.machine_id
  · subst hm
    unfold execute at h
    split at h
    next =>
      rw [← Option.some.inj h, Function.update_self] at hrow
      obtain ⟨old, -, rfl⟩ := Option.map_eq_some_iff.mp hrow
      exact htarget
    next =>
      rw [← Option.some.inj h, Function.update_self] at hrow
      obtain rfl := Option.some.inj hrow
      exact htarget
    next => exact absurd h.symm (Option.some_ne_none _)
  · rw [execute_ne h hm] at hrow
    exact hmachines m row hrow

namespace Sourced

variable {dev : Answers} {s t : Site}

/-- A step of the devices alone. -/
theorem right (h : Sourced dev s) (hservice : t.1 = s.1) (hdevices : t.2.Sound dev)
    (hjobs : ∀ i job, s.2.jobs i = some job → ∃ job', t.2.jobs i = some job' ∧
      job'.device_ip = job.device_ip ∧ job'.device_port = job.device_port) : Sourced dev t where
  devices := hdevices
  checks i x hx := (h.checks i x (hservice ▸ hx)).mono (hjobs i)
  updates i x hx := h.updates i x (hservice ▸ hx)
  genuine := hservice ▸ h.genuine

/-- The checks, when a probe comes back with what its device gave. -/
theorem left_checks {e : Event} {u : Service} {devices : Devices} (hservice : step s.1 e = some u)
    (hkept : ∀ (i : ℕ) x, s.1.checks[i]? = some x → x.Sourced dev devices i)
    (hcheck : ∀ query, e = .check query → ∀ port, validateMachinePort query.port = some port →
      ∃ job, devices.jobs s.1.checks.length = some job ∧ job.device_ip = query.ip ∧
        job.device_port = port)
    (hprobe : ∀ i result utcnow, e = .probe i result utcnow → ∀ query port,
      s.1.checks[i]? = some ⟨query, .probing port⟩ → dev.Gave query.ip port result)
    (i : ℕ) (x : CheckRequest) (hx : u.checks[i]? = some x) : x.Sourced dev devices i := by
  have happend : ∀ {y : CheckRequest}, y.Sourced dev devices s.1.checks.length →
      (s.1.checks ++ [y])[i]? = some x → x.Sourced dev devices i := by
    intro y hy hx
    rcases Nat.lt_or_ge i s.1.checks.length with hlt | hge
    · exact hkept i x ((List.getElem?_append_left hlt).symm.trans hx)
    · rw [List.getElem?_append_right hge] at hx
      obtain ⟨hlt, rfl⟩ := List.getElem?_eq_some_iff.mp hx
      obtain rfl : i = s.1.checks.length := by
        rw [List.length_singleton] at hlt
        omega
      rw [List.getElem_singleton]
      exact hy
  cases check_cases hservice with
  | other _ heq => exact hkept i x (heq ▸ hx)
  | refused hport => exact happend (y := ⟨_, .answered _⟩) trivial hx
  | spawned hport => exact happend (y := ⟨_, .probing _⟩) (hcheck _ rfl _ hport) hx
  | unanswered hi =>
    rcases getElem?_setCheck hx with ⟨rfl, rfl⟩ | hx
    · trivial
    · exact hkept i x hx
  | probed hi =>
    rcases getElem?_setCheck hx with ⟨rfl, rfl⟩ | hx
    · exact hprobe _ _ _ rfl _ _ hi
    · exact hkept i x hx
  | inserted response hi hpings =>
    rcases getElem?_setCheck hx with ⟨rfl, rfl⟩ | hx
    · trivial
    · exact hkept i x hx

/-- The pings: a new one names what its probe was answered. -/
theorem left_pings {e : Event} {u : Service} (hservice : step s.1 e = some u) (h : Sourced dev s)
    (ping : Ping) (hping : ping ∈ u.pings) : dev.At ping.target ∧
      dev.axes ⟨ping.target.machine_ip, ping.target.machine_port⟩ ping.machine_axes := by
  cases check_cases hservice with
  | other heq _ => exact h.genuine.pings ping (heq ▸ hping)
  | inserted response hi hpings =>
    by_cases hold : ping ∈ s.1.pings
    · exact h.genuine.pings ping hold
    · rcases hpings with rfl | hinsert
      · exact absurd hping hold
      · exact insertPing_genuine (h.checks _ _ hi) hinsert hping hold
  | _ => exact h.genuine.pings ping hping

/-- The updates and the machines: an update has the target of a ping. -/
theorem left_updates {e : Event} {u : Service} (hservice : step s.1 e = some u)
    (h : Sourced dev s) :
    (∀ (i : ℕ) x, u.updates[i]? = some x → ∀ target ∈ x.phase.target?, dev.At target) ∧
      ∀ m row, u.machines m = some row → dev.At ⟨m, row.machine_ip, row.machine_port⟩ := by
  cases step_cases hservice with
  | other xs hmachines hupdates hxs =>
    refine ⟨fun i x hx target htarget => ?_, fun m row hrow => ?_⟩
    · rw [hupdates] at hx
      rcases List.mem_append.mp (List.mem_of_getElem? hx) with hold | hnew
      · obtain ⟨j, hj⟩ := List.getElem?_of_mem hold
        exact h.updates j x hj target htarget
      · rw [hxs x hnew] at htarget
        exact absurd htarget.symm (Option.some_ne_none _)
    · rw [hmachines] at hrow
      exact h.genuine.machines m row hrow
  | @fetchPing j row query hi hrow =>
    refine ⟨fun i x hx target htarget => ?_, h.genuine.machines⟩
    rcases getElem?_setUpdate hx with rfl | hx
    · cases row with
      | none => exact absurd htarget.symm (Option.some_ne_none _)
      | some row =>
        change (checkPing query (some row)).target? = some target at htarget
        unfold checkPing at htarget
        dsimp only at htarget
        split at htarget
        next =>
          obtain rfl := Option.some.inj htarget
          exact (h.genuine.pings row hrow.1).1
        next => exact absurd htarget.symm (Option.some_ne_none _)
    · exact h.updates i x hx target htarget
  | fetchMachine hi =>
    refine ⟨fun i x hx target htarget => ?_, h.genuine.machines⟩
    rcases getElem?_setUpdate hx with rfl | hx
    · obtain rfl := Option.some.inj htarget
      exact h.updates _ _ hi _ rfl
    · exact h.updates i x hx target htarget
  | refused hi hwrite =>
    refine ⟨fun i x hx target htarget => ?_, h.genuine.machines⟩
    rcases getElem?_setUpdate hx with rfl | hx
    · exact absurd htarget.symm (Option.some_ne_none _)
    · exact h.updates i x hx target htarget
  | written hi hwrite =>
    refine ⟨fun i x hx target htarget => ?_, ?_⟩
    · rcases getElem?_setUpdate hx with rfl | hx
      · exact absurd htarget.symm (Option.some_ne_none _)
      · exact h.updates i x hx target htarget
    · exact execute_genuine (h.updates _ _ hi _ rfl) h.genuine.machines hwrite

/-- A step of the service, with what its probe returns. -/
theorem left (h : Sourced dev s) {e : Event} (hservice : step s.1 e = some t.1)
    (hdevices : t.2.Sound dev)
    (hjobs : ∀ i job, s.2.jobs i = some job → ∃ job', t.2.jobs i = some job' ∧
      job'.device_ip = job.device_ip ∧ job'.device_port = job.device_port)
    (hcheck : ∀ query, e = .check query → ∀ port, validateMachinePort query.port = some port →
      ∃ job, t.2.jobs s.1.checks.length = some job ∧ job.device_ip = query.ip ∧
        job.device_port = port)
    (hprobe : ∀ i result utcnow, e = .probe i result utcnow → ∀ query port,
      s.1.checks[i]? = some ⟨query, .probing port⟩ → dev.Gave query.ip port result) :
    Sourced dev t := by
  have hkept : ∀ (i : ℕ) x, s.1.checks[i]? = some x → x.Sourced dev t.2 i :=
    fun i x hx => (h.checks i x hx).mono (hjobs i)
  have hchecks := left_checks hservice hkept hcheck hprobe
  have hpings := left_pings hservice h
  obtain ⟨hupdates, hmachines⟩ := left_updates hservice h
  exact ⟨hdevices, hchecks, hupdates, ⟨hpings, hmachines⟩⟩

end Sourced

/-- **A step of the whole.** -/
theorem Sourced.step {dev : Answers} {s t : Site} {e : Sync Event DeviceEvent}
    (h : Sourced dev s) (hreads : ∀ f ∈ e.right?, Reads dev s.2 f ∧ Uncancelled s.2 f)
    (hstep : siteStep s e = some t) : Sourced dev t := by
  obtain ⟨hmeets, hleft, hright⟩ := syncStep_cases hstep
  have hdevices : t.2.Sound dev := by
    cases hr : e.right? with
    | none =>
      rw [hr] at hright
      exact (show t.2 = s.2 from hright) ▸ h.devices
    | some f =>
      rw [hr] at hright
      obtain ⟨hread, hcalm⟩ := hreads f hr
      exact h.devices.step hread hcalm hright
  have hjobs : ∀ i job, s.2.jobs i = some job → ∃ job', t.2.jobs i = some job' ∧
      job'.device_ip = job.device_ip ∧ job'.device_port = job.device_port := by
    intro i job hjob
    cases hr : e.right? with
    | none =>
      rw [hr] at hright
      exact ⟨job, (show t.2 = s.2 from hright) ▸ hjob, rfl, rfl⟩
    | some f =>
      rw [hr] at hright
      exact Devices.step_job hright hjob
  cases e with
  | right f => exact h.right hleft hdevices hjobs
  | left e =>
    refine h.left hleft hdevices hjobs ?_ ?_
    · rintro query rfl port hport
      exact absurd ((show validateMachinePort query.port = none from hmeets).symm.trans hport).symm
        (Option.some_ne_none _)
    · rintro i result utcnow rfl
      exact absurd hmeets id
  | both e f =>
    refine h.left hleft hdevices hjobs ?_ ?_
    · rintro query rfl port hport
      cases f with
      | job j c => exact absurd hmeets id
      | spawn j device_ip device_port =>
        obtain ⟨rfl, rfl, hvalid⟩ := hmeets
        obtain rfl := Option.some.inj (hvalid.symm.trans hport)
        have hspawn : Devices.step s.2 (.spawn s.1.checks.length query.ip device_port) = some t.2 :=
          hright
        simp only [Devices.step] at hspawn
        split at hspawn
        next =>
          rw [← Option.some.inj hspawn]
          exact ⟨_, Function.update_self .., rfl, rfl⟩
        next => exact absurd hspawn.symm (Option.some_ne_none _)
    · rintro i result utcnow rfl query port hi
      cases f with
      | spawn j device_ip device_port => exact absurd hmeets id
      | job j c =>
        cases c with
        | resume =>
          obtain ⟨rfl, hphase⟩ := hmeets
          obtain ⟨job, hjob, hended⟩ := Option.map_eq_some_iff.mp hphase
          obtain ⟨job', hjob', hip, hport⟩ := h.checks i _ hi
          obtain rfl := Option.some.inj (hjob.symm.trans hjob')
          have hgave := (h.devices i job hjob).answered result (.inr (.inl hended))
          rwa [hip, hport] at hgave
        | _ => exact absurd hmeets id

/-- **What the tables say was answered.** In a run of the service in which `fwlib` is answered by
the device connected last and no probe is cancelled while its thread runs, at most one thread is
under way, and every row of `machine_pings` and of `machines` names an address at which a device
answered with that machine's id, if the rows there before did. -/
theorem tables_genuine (dev : Answers) (start : Service) (hchecks : start.checks = [])
    (hupdates : start.updates = []) (hstart : Genuine dev start)
    (es : List (Sync Event DeviceEvent)) (s : Site)
    (hrun : exec siteStep (start, Devices.init) es = some s)
    (hreads : Along Devices.step (fun d f => Reads dev d f ∧ Uncancelled d f) Devices.init
      (es.filterMap Sync.right?)) :
    (∀ i j a b, s.2.jobs i = some a → s.2.jobs j = some b → a.phase.running = true →
      b.phase.running = true → i = j) ∧ Genuine dev s.1 := by
  have hsourced : Sourced dev (start, Devices.init) :=
    ⟨Devices.init_sound dev,
      fun i x hx => by
        change start.checks[i]? = some x at hx
        rw [hchecks] at hx
        exact absurd hx.symm (Option.some_ne_none x),
      fun i x hx => by
        change start.updates[i]? = some x at hx
        rw [hupdates] at hx
        exact absurd hx.symm (Option.some_ne_none x),
      hstart⟩
  have hleft : Along step (fun _ _ => True) start (es.filterMap Sync.left?) :=
    Along.of_all (fun _ _ => trivial) _ _
  have hend : Sourced dev s := syncExec_induct (P := Sourced dev)
    (fun s e t hs _ hright hstep => hs.step hright hstep) hrun hleft hreads hsourced
  refine ⟨fun i j a b ha hb hi hj => ?_, hend.genuine⟩
  have hlock : ∀ k job, s.2.jobs k = some job → job.phase.running = true →
      s.2.shared.lock = some k := fun k job hjob hrun =>
    (hend.devices k job hjob).holds (.inl hrun) ((hend.devices k job hjob).uncancelled hrun)
  exact Option.some.inj ((hlock i a ha hi).symm.trans (hlock j b hb hj))

/-! ## Two devices -/

/-- Devices that answer with their address as id, and no axes. -/
def echoing : Answers where
  cnc_id a cnc_id := cnc_id = a.device_ip
  axes _ axes := axes = []

instance (s : Devices) (e : DeviceEvent) : Decidable (Reads echoing s e) := by
  unfold Reads echoing
  split <;> infer_instance

instance (s : Devices) (e : DeviceEvent) : Decidable (Uncancelled s e) := by
  unfold Uncancelled
  split <;> infer_instance

/-- Request `i` probes the device at an address. -/
def spawnProbe (i : ℕ) (ip : String) : Sync Event DeviceEvent :=
  .both (.check ⟨some ip.toList, some 8193⟩) (.spawn i (some ip.toList) 8193)

/-- Its thread, from `rdcncid` on, with the id it is answered, and the ping that is inserted. -/
def finishProbe (i : ℕ) (cnc_id : String) (utcnow : ℤ) : List (Sync Event DeviceEvent) :=
  [.right (.job i (.rdcncid (some cnc_id.toList))), .right (.job i (.rdaxisname (some []))),
   .right (.job i (.freelibhndl true)),
   .both (.probe i (some ⟨cnc_id.toList, []⟩) utcnow) (.job i .resume), .left (.insertPing i)]

def twoProbes : List (Sync Event DeviceEvent) :=
  [spawnProbe 0 "lathe", spawnProbe 1 "mill", .right (.job 0 .acquire),
   .right (.job 0 (.allclibhndl3 true))] ++ finishProbe 0 "lathe" 10 ++
  [.right (.job 1 .acquire), .right (.job 1 (.allclibhndl3 true))] ++ finishProbe 1 "mill" 20

theorem emptyService_genuine (dev : Answers) : Genuine dev emptyService where
  pings _ h := absurd h List.not_mem_nil
  machines _ _ h := absurd h.symm (Option.some_ne_none _)

theorem tables_genuine_two_devices :
    ∃ s, exec siteStep (emptyService, Devices.init) twoProbes = some s ∧
      s.1.pings = [pingOf "lathe" "lathe" 10, pingOf "mill" "mill" 20] ∧ Genuine echoing s.1 := by
  have hpings : (exec siteStep (emptyService, Devices.init) twoProbes).map (·.1.pings)
      = some [pingOf "lathe" "lathe" 10, pingOf "mill" "mill" 20] := by decide +kernel
  obtain ⟨s, hs, hpings⟩ := Option.map_eq_some_iff.mp hpings
  exact ⟨s, hs, hpings, (tables_genuine echoing emptyService rfl rfl (emptyService_genuine echoing)
    twoProbes s hs (by decide +kernel)).2⟩

/-- The first probe is cancelled, and its thread connects after that of the second. -/
def cancelledProbe : List (Sync Event DeviceEvent) :=
  [spawnProbe 0 "lathe", spawnProbe 1 "mill", .right (.job 0 .acquire), .right (.job 0 .cancel),
   .right (.job 1 .acquire), .right (.job 1 (.allclibhndl3 true)),
   .right (.job 0 (.allclibhndl3 true))] ++ finishProbe 1 "lathe" 20

/-- **A cancelled probe** lets the next one be answered by the wrong device. -/
theorem cancelled_probe_misattributed :
    Along Devices.step (Reads echoing) Devices.init (cancelledProbe.filterMap Sync.right?) ∧
    ∃ s, exec siteStep (emptyService, Devices.init) cancelledProbe = some s ∧
      ¬Genuine echoing s.1 := by
  refine ⟨by decide +kernel, ?_⟩
  have hpings : (exec siteStep (emptyService, Devices.init) cancelledProbe).map (·.1.pings)
      = some [pingOf "lathe" "mill" 20] := by decide +kernel
  obtain ⟨s, hs, hpings⟩ := Option.map_eq_some_iff.mp hpings
  refine ⟨s, hs, fun h => ?_⟩
  have hat := (h.pings (pingOf "lathe" "mill" 20) (hpings ▸ List.mem_singleton.mpr rfl)).1
  exact absurd (show "lathe".toList = "mill".toList from hat) (by decide)

end FanucDriver.Monitor.Api
