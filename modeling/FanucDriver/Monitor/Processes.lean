import FanucDriver.Monitor.Effects

/-!
# At most one adapter process for each machine

A reload may start the new adapter only when the old one is gone. What carries this
through every interleaving is ownership: a task that has not ended, or that was cut
off in its handler and left its process running, is the task of its machine in
`self.tasks`, or the one the updates worker awaits, or the updates worker has left
its loop and creates no more tasks (`Owned.owner`).

`one_adapter` is the count that follows, in every reachable state.
-/

namespace FanucDriver.Monitor

open FanucDriver.Lib

variable {M : Type}

namespace AdapterMonitor

/-! ## Ownership -/

/-- Every task that may still have a process is accounted for. -/
structure Owned (s : AdapterMonitor M) : Prop where
  fresh : s.run = .initialising → s.updatesWorker = .uncreated
  keyed : ∀ (m : M) (t : ℕ), s.tasks m = some t → ∃ x, s.monitors[t]? = some x ∧ x.machineId = m
  /-- The task the updates worker awaits is no longer in the map, and nothing else is
  in its place. -/
  popped : ∀ (t : ℕ) (m : M) (config : Option Config), s.updatesWorker = .reloading t m config →
    s.tasks m = none ∧ ∃ x, s.monitors[t]? = some x ∧ x.machineId = m
  owner : ∀ (t : ℕ) (x : MonitorTask M), s.monitors[t]? = some x → x.at_.Active →
    s.tasks x.machineId = some t ∨ s.updatesWorker.Awaits t ∨ s.updatesWorker.Stopping
  unique : ∀ (t u : ℕ) (x y : MonitorTask M), s.monitors[t]? = some x → s.monitors[u]? = some y →
    x.at_.Active → y.at_.Active → x.machineId = y.machineId → t = u

theorem owned_init : Owned (init : AdapterMonitor M) where
  fresh _ := rfl
  keyed _ _ h := absurd h.symm (Option.some_ne_none _)
  popped _ _ _ h := nomatch h
  owner _ _ h := absurd h.symm (Option.some_ne_none _)
  unique _ _ _ _ h := absurd h.symm (Option.some_ne_none _)

theorem Owned.mapped_machineId {s : AdapterMonitor M} (h : s.Owned) {t : ℕ} {x : MonitorTask M}
    (hx : s.monitors[t]? = some x) {m : M} (hm : s.tasks m = some t) : m = x.machineId := by
  obtain ⟨x', hx', rfl⟩ := h.keyed m t hm
  rw [Option.some.inj (hx'.symm.trans hx)]

theorem Owned.awaited_machineId {s : AdapterMonitor M} (h : s.Owned) {t : ℕ} {x : MonitorTask M}
    (hx : s.monitors[t]? = some x) {m : M} {config : Option Config}
    (hw : s.updatesWorker = .reloading t m config) : m = x.machineId := by
  obtain ⟨-, x', hx', rfl⟩ := h.popped t m config hw
  rw [Option.some.inj (hx'.symm.trans hx)]

/-- A machine whose task is mapped or awaited has no other. -/
theorem Owned.sole {s : AdapterMonitor M} (h : s.Owned) {t : ℕ} {x : MonitorTask M}
    (hx : s.monitors[t]? = some x)
    (hholder : s.tasks x.machineId = some t ∨ s.updatesWorker.Awaits t) :
    (∀ u, s.tasks x.machineId = some u → u = t) ∧
    ∀ u config, s.updatesWorker = .reloading u x.machineId config → u = t := by
  rcases hholder with hmap | ⟨m, config, hw⟩
  · refine ⟨fun u hu => Option.some.inj (hu.symm.trans hmap), fun u config hw => ?_⟩
    exact absurd (hmap.symm.trans (h.popped u _ config hw).1) (Option.some_ne_none t)
  · obtain rfl := h.awaited_machineId hx hw
    refine ⟨fun u hu => ?_, fun u config' hw' => ?_⟩
    · exact absurd (hu.symm.trans (h.popped t _ config hw).1) (Option.some_ne_none u)
    · exact (UpdatesWorker.reloading.inj (hw'.symm.trans hw)).1

/-- Two active tasks were active before. -/
theorem unique_of_aged {s s' : AdapterMonitor M} (h : s.Owned) (ha : Aged s.monitors s'.monitors) :
    ∀ (t u : ℕ) (x y : MonitorTask M), s'.monitors[t]? = some x → s'.monitors[u]? = some y →
      x.at_.Active → y.at_.Active → x.machineId = y.machineId → t = u := by
  intro t u x y hx hy hactx hacty hm
  obtain ⟨x₀, hx₀, hlater⟩ := ha.before hx
  obtain ⟨y₀, hy₀, hlater'⟩ := ha.before hy
  exact h.unique t u x₀ y₀ hx₀ hy₀ (hlater.active hactx) (hlater'.active hacty)
    (by rw [← hlater.machineId, ← hlater'.machineId, hm])

/-- Tasks got older, and the updates worker is where it was or on its way out. -/
theorem Owned.aged {s s' : AdapterMonitor M} (h : s.Owned) (ht : s'.tasks = s.tasks)
    (ha : Aged s.monitors s'.monitors)
    (hfresh : s'.run = .initialising → s'.updatesWorker = .uncreated)
    (hpopped : ∀ (t : ℕ) (m : M) (config : Option Config),
      s'.updatesWorker = .reloading t m config → s.updatesWorker = .reloading t m config)
    (howner : ∀ t, s.updatesWorker.Awaits t ∨ s.updatesWorker.Stopping →
      s'.updatesWorker.Awaits t ∨ s'.updatesWorker.Stopping) : s'.Owned where
  fresh := hfresh
  keyed m t hm := by
    obtain ⟨x, hx, rfl⟩ := h.keyed m t (ht ▸ hm)
    obtain ⟨y, hy, hlater⟩ := ha.after hx
    exact ⟨y, hy, hlater.machineId⟩
  popped t m config hw := by
    obtain ⟨hm, x, hx, rfl⟩ := h.popped t m config (hpopped t m config hw)
    obtain ⟨y, hy, hlater⟩ := ha.after hx
    exact ⟨ht ▸ hm, y, hy, hlater.machineId⟩
  owner t y hy hact := by
    obtain ⟨x, hx, hlater⟩ := ha.before hy
    rw [ht, hlater.machineId]
    exact (h.owner t x hx (hlater.active hact)).imp_right (howner t)
  unique := unique_of_aged h ha

theorem Owned.kept {s s' : AdapterMonitor M} (h : s.Owned) (hk : Kept s s') : s'.Owned :=
  h.aged hk.tasks hk.monitors (fun hr => hk.updatesWorker.trans (h.fresh (hk.run hr)))
    (fun _ _ _ hw => hk.updatesWorker.symm.trans hw) (fun _ hw => hk.updatesWorker.symm ▸ hw)

theorem Owned.leave {s s' : AdapterMonitor M} (h : s.Owned) (hs : s.updatesWorker ≠ .uncreated)
    (ht : s'.tasks = s.tasks) (hm : s'.monitors = s.monitors) (hr : s'.run = s.run)
    (hw : s'.updatesWorker.Stopping) : s'.Owned :=
  h.aged ht (hm ▸ .refl _) (fun hrun => absurd (h.fresh (hr ▸ hrun)) hs)
    (fun t m config heq => absurd ⟨m, config, heq⟩ (hw.not_awaits t)) (fun _ _ => Or.inr hw)

/-- From one calm state of the updates worker to another. -/
theorem Owned.goOn {s s' : AdapterMonitor M} (h : s.Owned) (ht : s'.tasks = s.tasks)
    (hm : s'.monitors = s.monitors) (hr : s'.run = s.run) (hs : s.updatesWorker.Calm)
    (hw : s'.updatesWorker.Calm) : s'.Owned :=
  h.aged ht (hm ▸ .refl _)
    (fun hrun => absurd (h.fresh (hr ▸ hrun) ▸ hs : UpdatesWorker.Calm .uncreated) id)
    (fun t m config heq => absurd ⟨m, config, heq⟩ (hw.not_awaits t))
    (fun t hold => absurd hold (not_or.mpr ⟨hs.not_awaits t, hs.not_stopping⟩))

/-- While the updates worker is calm, every active task is in the map. -/
theorem Owned.mapped {s : AdapterMonitor M} (h : s.Owned) (hs : s.updatesWorker.Calm) (t : ℕ)
    (x : MonitorTask M) (hx : s.monitors[t]? = some x) (hact : x.at_.Active) :
    s.tasks x.machineId = some t := by
  rcases h.owner t x hx hact with hmap | hawait | hstop
  · exact hmap
  · exact absurd hawait (hs.not_awaits t)
  · exact absurd hstop hs.not_stopping

/-! ## One turn of the updates worker -/

section
variable [DecidableEq M]

/-- A new task, where every active one is in the map and its machine has none. -/
theorem Owned.applyConfig {s : AdapterMonitor M} (h : s.Owned) (hs : s.updatesWorker ≠ .uncreated)
    {m : M} (hm : s.tasks m = none)
    (hmapped : ∀ (t : ℕ) (x : MonitorTask M), s.monitors[t]? = some x → x.at_.Active →
      s.tasks x.machineId = some t)
    (config : Option Config) : (s.applyConfig m config).Owned := by
  have hfresh : s.run ≠ .initialising := fun hrun => hs (h.fresh hrun)
  cases config with
  | none =>
    exact ⟨fun hrun => absurd hrun hfresh, h.keyed, nofun,
      fun t x hx hact => Or.inl (hmapped t x hx hact), h.unique⟩
  | some config =>
    -- a task of the new list is an old one or the new one
    have hget (t : ℕ) (x : MonitorTask M)
        (hx : (s.monitors ++ [MonitorTask.new m config])[t]? = some x) :
        s.monitors[t]? = some x ∨ (t = s.monitors.length ∧ x = MonitorTask.new m config) := by
      rcases Nat.lt_or_ge t s.monitors.length with hlt | hge
      · exact Or.inl (List.getElem?_append_left hlt ▸ hx)
      · rw [List.getElem?_append_right hge, List.getElem?_singleton] at hx
        split at hx
        · exact Or.inr ⟨by omega, (Option.some.inj hx).symm⟩
        · exact absurd hx.symm (Option.some_ne_none _)
    have hold (t : ℕ) (x : MonitorTask M) (hx : s.monitors[t]? = some x) (hact : x.at_.Active) :
        x.machineId ≠ m := by
      rintro rfl
      exact absurd ((hmapped t x hx hact).symm.trans hm) (Option.some_ne_none t)
    refine ⟨fun hrun => absurd hrun hfresh, fun m' t hm' => ?_, nofun,
      fun t x hx hact => Or.inl ?_, fun t u x y hx hy hactx hacty hxy => ?_⟩
    · change Function.update s.tasks m _ m' = some t at hm'
      show ∃ x, (s.monitors ++ [_])[t]? = some x ∧ _
      rcases eq_or_ne m' m with rfl | hne
      · rw [Function.update_self] at hm'
        obtain rfl := Option.some.inj hm'
        exact ⟨_, List.getElem?_concat_length, rfl⟩
      · rw [Function.update_of_ne hne] at hm'
        obtain ⟨x, hx, rfl⟩ := h.keyed m' t hm'
        exact ⟨x, List.getElem?_append_left (List.getElem?_eq_some_iff.mp hx).1 ▸ hx, rfl⟩
    · show Function.update s.tasks m _ x.machineId = some t
      rcases hget t x hx with hx | ⟨rfl, rfl⟩
      · rw [Function.update_of_ne (hold t x hx hact)]
        exact hmapped t x hx hact
      · exact Function.update_self m _ _
    · rcases hget t x hx with hx | ⟨rfl, rfl⟩ <;> rcases hget u y hy with hy | ⟨rfl, rfl⟩
      · exact h.unique t u x y hx hy hactx hacty hxy
      · exact absurd hxy (hold t x hx hactx)
      · exact absurd hxy.symm (hold u y hy hacty)
      · rfl

/-- A task that the updates worker awaited has ended. -/
theorem Owned.taskEnded {s : AdapterMonitor M} (h : s.Owned) {t : ℕ} {m : M}
    {config : Option Config} {o : Outcome} (hw : s.updatesWorker = .reloading t m config)
    (ho : s.outcome t = some o) : (s.taskEnded m config o).Owned := by
  have hs : s.updatesWorker ≠ .uncreated := by rw [hw]; nofun
  cases o with
  | returned =>
    -- it has left no process, so every active task is in the map
    have hmapped (u : ℕ) (x : MonitorTask M) (hx : s.monitors[u]? = some x)
        (hact : x.at_.Active) : s.tasks x.machineId = some u := by
      rcases h.owner u x hx hact with hmap | ⟨m', config', hw'⟩ | hstop
      · exact hmap
      · obtain ⟨rfl, -, -⟩ := UpdatesWorker.reloading.inj (hw.symm.trans hw')
        obtain ⟨y, hy, hret⟩ := Option.bind_eq_some_iff.mp ho
        obtain rfl := Option.some.inj (hx.symm.trans hy)
        exact absurd hact (MonitorTask.not_active_of_done hret nofun)
      · exact absurd (hw ▸ hstop : UpdatesWorker.Stopping (.reloading t m config)) id
    obtain ⟨hm, -⟩ := h.popped t m config hw
    dsimp only [AdapterMonitor.taskEnded]
    split
    · exact h.applyConfig hs hm hmapped config
    · have hput : (s.putStatus [⟨m, .DESTROYED, none⟩]).Owned := h.kept (.of_eq rfl rfl rfl id)
      exact hput.applyConfig hs hm hmapped config
  | cancelled => exact h.leave hs rfl rfl rfl trivial
  | raised => exact h.leave hs rfl rfl rfl trivial

/-- The updates worker pops the task of a machine and awaits it. -/
theorem Owned.awaitTask {s : AdapterMonitor M} (h : s.Owned) (hw : s.updatesWorker = .looping)
    {t : ℕ} {m : M} (hm : s.tasks m = some t) (config : Option Config) :
    (s.awaitTask t m config).Owned := by
  have ha : Aged s.monitors (s.awaitTask t m config).monitors := .modify s.monitors t
  refine ⟨fun hrun => ?_, fun m' u hm' => ?_, fun u m' config' hw' => ?_, fun u y hy hact => ?_,
    unique_of_aged h ha⟩
  · exact absurd (hw.symm.trans (h.fresh hrun)) nofun
  · change Function.update s.tasks m none m' = some u at hm'
    rcases eq_or_ne m' m with rfl | hne
    · rw [Function.update_self] at hm'
      exact absurd hm'.symm (Option.some_ne_none u)
    · rw [Function.update_of_ne hne] at hm'
      obtain ⟨x, hx, rfl⟩ := h.keyed m' u hm'
      obtain ⟨y, hy, hlater⟩ := ha.after hx
      exact ⟨y, hy, hlater.machineId⟩
  · obtain ⟨rfl, rfl, -⟩ := UpdatesWorker.reloading.inj hw'
    obtain ⟨x, hx, rfl⟩ := h.keyed m t hm
    obtain ⟨y, hy, hlater⟩ := ha.after hx
    have hpop : Function.update s.tasks x.machineId none x.machineId = none :=
      Function.update_self x.machineId _ s.tasks
    exact ⟨hpop, y, hy, hlater.machineId⟩
  -- the popped task is the one awaited now
  · show Function.update s.tasks m none y.machineId = some u ∨ _
    obtain ⟨x, hx, hlater⟩ := ha.before hy
    have howner := h.mapped (hw ▸ trivial) u x hx (hlater.active hact)
    rw [hlater.machineId]
    rcases eq_or_ne x.machineId m with rfl | hne
    · obtain rfl := Option.some.inj (howner.symm.trans hm)
      exact Or.inr (Or.inl ⟨_, _, rfl⟩)
    · rw [Function.update_of_ne hne]
      exact Or.inl howner

theorem Owned.reload {s : AdapterMonitor M} (h : s.Owned) (hw : s.updatesWorker = .looping)
    {t : ℕ} {m : M} (hm : s.tasks m = some t) (config : Option Config) :
    (s.reload t m config).Owned := by
  have hawait := h.awaitTask hw hm config
  dsimp only [AdapterMonitor.reload]
  split
  next => exact hawait
  next o ho => exact hawait.taskEnded rfl ho

theorem Owned.turn {s : AdapterMonitor M} (h : s.Owned) (hw : s.updatesWorker = .looping) :
    s.turn.Owned := by
  have hs : s.updatesWorker ≠ .uncreated := by rw [hw]; nofun
  dsimp only [AdapterMonitor.turn]
  split
  next => exact h.goOn rfl rfl rfl (hw ▸ trivial) trivial
  next m config queue _ =>
    have hq : Owned { s with updatesQueue := queue } :=
      h.goOn rfl rfl rfl (hw ▸ trivial) (hw.symm ▸ trivial)
    split
    next t ht => exact hq.reload hw ht config
    next ht =>
      split
      · exact hq
      · exact hq.applyConfig hs ht (h.mapped (hw ▸ trivial)) config

/-- **One step keeps ownership.** -/
theorem Owned.step {s s' : AdapterMonitor M} {e : Event M} (h : s.Owned)
    (hstep : s.step e = some s') : s'.Owned := by
  obtain hrun | hk | hupd := step_effect hstep
  · refine h.aged rfl (.refl _) nofun nofun (fun t hold => ?_)
    rw [h.fresh hrun] at hold
    exact (hold.elim (fun ⟨_, _, hw⟩ => nomatch hw) id).elim
  · exact h.kept hk
  · obtain ⟨hs, hw, -⟩ | ⟨-, hs, hw, -⟩ | ⟨-, hs⟩ | ⟨-, hs, ho⟩ := hupd
    · exact h.leave hs rfl rfl rfl hw
    · exact h.goOn rfl rfl rfl hs hw
    · exact h.turn hs
    · exact h.taskEnded hs ho

/-- Ownership in every reachable state. -/
theorem owned_of_exec {es : List (Event M)} {s : AdapterMonitor M}
    (h : exec step init es = some s) : s.Owned :=
  exec_invariant (fun _ _ _ hs hstep => Owned.step hs hstep) h owned_init

/-! ## Counting -/

/-- The adapter processes of a machine that are running. -/
def liveProcesses (s : AdapterMonitor M) (m : M) : ℕ :=
  s.monitors.countP fun x => x.machineId = m && x.at_.live

/-- The tasks of a machine that have not ended. -/
def unfinishedTasks (s : AdapterMonitor M) (m : M) : ℕ :=
  s.monitors.countP fun x => x.machineId = m && x.at_.outcome.isNone

end

end AdapterMonitor

/-- At most one element satisfies what no two places of a list satisfy. -/
theorem countP_le_one {A : Type} {p : A → Bool} {as : List A}
    (h : ∀ (i j : ℕ) (a b : A), as[i]? = some a → as[j]? = some b → p a = true → p b = true →
      i = j) :
    as.countP p ≤ 1 := by
  induction as with
  | nil => exact Nat.zero_le 1
  | cons a as ih =>
    have hrest := ih fun i j b c hb hc hpb hpc =>
      Nat.succ.inj (h (i + 1) (j + 1) b c hb hc hpb hpc)
    rw [List.countP_cons]
    split
    next hpa =>
      -- another one would be at another place
      have hzero : as.countP p = 0 := by
        refine List.countP_eq_zero.mpr fun b hb hpb => ?_
        obtain ⟨i, hi⟩ := List.getElem?_of_mem hb
        exact absurd (h 0 (i + 1) a b rfl hi hpa hpb) (Nat.succ_ne_zero i).symm
      omega
    next => exact hrest

namespace AdapterMonitor

section
variable [DecidableEq M]

/-- **At most one adapter process and one unfinished task for each machine**, in every
reachable state. -/
theorem one_adapter (es : List (Event M)) (s : AdapterMonitor M) (h : exec step init es = some s)
    (m : M) : s.liveProcesses m ≤ 1 ∧ s.unfinishedTasks m ≤ 1 := by
  have hunique := (owned_of_exec h).unique
  constructor
  · refine countP_le_one fun t u x y hx hy hpx hpy => ?_
    obtain ⟨hxm, hxl⟩ := Bool.and_eq_true_iff.mp hpx
    obtain ⟨hym, hyl⟩ := Bool.and_eq_true_iff.mp hpy
    exact hunique t u x y hx hy (Or.inr hxl) (Or.inr hyl)
      ((of_decide_eq_true hxm).trans (of_decide_eq_true hym).symm)
  · refine countP_le_one fun t u x y hx hy hpx hpy => ?_
    obtain ⟨hxm, hxo⟩ := Bool.and_eq_true_iff.mp hpx
    obtain ⟨hym, hyo⟩ := Bool.and_eq_true_iff.mp hpy
    exact hunique t u x y hx hy (Or.inl (Option.isNone_iff_eq_none.mp hxo))
      (Or.inl (Option.isNone_iff_eq_none.mp hyo))
      ((of_decide_eq_true hxm).trans (of_decide_eq_true hym).symm)

end

/-- A reload while the adapter runs: its task is in the handler, waiting for it. -/
def reloading : List (Event String) :=
  [.run .returned, .updates .ok, .updates .ok,
    .updates (.rows [("lathe", ⟨some "10.0.0.1", some 8193⟩)]), .updates .ok, .updates .ok,
    .updates .ok, .monitor 0 .ok, .fork 0, .monitor 0 .ok,
    .notify "lathe" (some ⟨some "10.0.0.2", some 8193⟩), .updates .ok, .updates .ok,
    .monitor 0 .ok]

theorem one_adapter_reloading : ∃ s, exec step init reloading = some s ∧
    s.monitors.map (·.at_) = [.terminating .running] ∧
    s.liveProcesses "lathe" ≤ 1 ∧ s.unfinishedTasks "lathe" ≤ 1 :=
  ⟨_, rfl, rfl, one_adapter reloading _ rfl "lathe"⟩

end AdapterMonitor

end FanucDriver.Monitor
