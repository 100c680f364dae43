import FanucDriver.Queries.Executions

/-!
# The history that the executions query tells

`query-executions.sql` reads the periods of the view `activity_periods_alt`, which is made of
the same samples. `executionsQuery_history` says what the two give together: the rows of a
machine are disjoint, in the order of the result, and every sample with an execution lies in
one of them, which has its execution.

The view has every sample in one of its periods (`exists_period`) and keeps the periods of a
machine apart (`periods_apart`). In a period the rows are the tiles of its runs, and a sample
lies in the tile of its run (`tiles_covers`).
-/

namespace FanucDriver.Queries

open FanucDriver.Streams FanucDriver.Lib FanucDriver.Lib.Window FanucDriver.Lib.Transducer

/-! ## The tiles of a period -/

section
variable {p : ActivityPeriod} {xs : List ExecutionDatum}

/-- The row of a sample, up to the first of those after it. -/
def tile (p : ActivityPeriod) (x : ExecutionDatum) : List ExecutionDatum → ExecutionRow
  | [] => closingRow p x
  | y :: _ => rowOf p (interval x y)

theorem tiles_cons (p : ActivityPeriod) (x : ExecutionDatum) (xs : List ExecutionDatum) :
    tiles p (x :: xs) = tile p x xs :: tiles p xs := by
  cases xs with
  | nil => rfl
  | cons y xs => exact tiles_cons_cons p x y xs

theorem tile_start (p : ActivityPeriod) (x : ExecutionDatum) (xs : List ExecutionDatum) :
    (tile p x xs).start = millis x.timestamp := by
  cases xs <;> rfl

theorem tile_execution (p : ActivityPeriod) (x : ExecutionDatum) (xs : List ExecutionDatum) :
    (tile p x xs).execution = x.execution := by
  cases xs <;> rfl

theorem tile_end (p : ActivityPeriod) (x x' : ExecutionDatum) (xs : List ExecutionDatum) :
    (tile p x xs).end_ = (tile p x' xs).end_ := by
  cases xs <;> rfl

theorem millis_lt {x y : ExecutionDatum} (h : x.timestamp.toInt < y.timestamp.toInt) :
    millis x.timestamp < millis y.timestamp := by
  unfold millis
  omega

theorem lt_tile_end {x : ExecutionDatum} (hin : Inside p x)
    (hafter : ∀ y ∈ xs, x.timestamp.toInt < y.timestamp.toInt) :
    millis x.timestamp < (tile p x xs).end_ := by
  cases xs with
  | nil => exact hin.before
  | cons y xs => exact millis_lt (hafter y List.mem_cons_self)

/-- A sample lies in the tile of its run. -/
theorem tiles_covers {runs : List (List ExecutionDatum)}
    (hruns : MaximalRuns ExecutionDatum.execution xs runs) (hin : ∀ x ∈ xs, Inside p x)
    (hsorted : xs.Pairwise fun x y => x.timestamp.toInt < y.timestamp.toInt) :
    ∀ x ∈ xs, ∃ row ∈ tiles p (firsts runs), row.start ≤ millis x.timestamp ∧
      millis x.timestamp < row.end_ ∧ row.execution = x.execution := by
  induction xs generalizing runs with
  | nil => exact fun x hx => absurd hx List.not_mem_nil
  | cons a as ih =>
    obtain ⟨hafter, hsorted⟩ := List.pairwise_cons.mp hsorted
    have hin' : ∀ x ∈ as, Inside p x := fun x hx => hin x (List.mem_cons_of_mem a hx)
    -- the tile of `a` ends at a later sample, or with the period
    have hhead : ∀ F : List ExecutionDatum, F ⊆ as → (tile p a F).start ≤ millis a.timestamp ∧
        millis a.timestamp < (tile p a F).end_ ∧ (tile p a F).execution = a.execution := by
      intro F hF
      exact ⟨(tile_start p a F).le, lt_tile_end (hin a List.mem_cons_self) fun y hy =>
        hafter y (hF hy), tile_execution p a F⟩
    rcases hruns.of_cons with ⟨rs, rfl, hrest, -⟩ | ⟨b, r, rs, rfl, hab, hrest⟩
    · -- a run of `a` alone
      have hfirsts : firsts ([a] :: rs) = a :: firsts rs := rfl
      rw [hfirsts, tiles_cons]
      intro x hx
      rcases List.mem_cons.mp hx with rfl | hx
      · exact ⟨_, List.mem_cons_self, hhead _ hrest.firsts_sublist.subset⟩
      · obtain ⟨row, hrow, hcovers⟩ := ih hrest hin' hsorted x hx
        exact ⟨row, List.mem_cons_of_mem _ hrow, hcovers⟩
    · -- a run that `a` begins
      have hfirsts : firsts ((a :: b :: r) :: rs) = a :: firsts rs := rfl
      have hsub : firsts rs ⊆ as := fun y hy =>
        hrest.firsts_sublist.subset (List.mem_cons_of_mem b hy)
      rw [hfirsts, tiles_cons]
      intro x hx
      rcases List.mem_cons.mp hx with rfl | hx
      · exact ⟨_, List.mem_cons_self, hhead _ hsub⟩
      · obtain ⟨row, hrow, hstart, hend, hexecution⟩ := ih hrest hin' hsorted x hx
        have hrow : row ∈ tiles p (b :: firsts rs) := hrow
        rw [tiles_cons] at hrow
        rcases List.mem_cons.mp hrow with rfl | hrow
        · refine ⟨tile p a (firsts rs), List.mem_cons_self, ?_, ?_, ?_⟩
          · rw [tile_start]
            exact (millis_lt (hafter x hx)).le
          · rw [tile_end p a b]
            exact hend
          · rw [tile_execution] at hexecution ⊢
            exact hab.trans hexecution
        · exact ⟨row, List.mem_cons_of_mem _ hrow, hstart, hend, hexecution⟩

/-- The tiles of a period follow each other. -/
theorem tiles_apart (hin : ∀ x ∈ xs, Inside p x)
    (hsorted : xs.IsChain fun x y => x.timestamp.toInt < y.timestamp.toInt) :
    (tiles p xs).Pairwise fun row next => row.end_ ≤ next.start ∧ next.start < next.end_ := by
  have hproper := tiles_proper hin hsorted
  have hchain : (tiles p xs).IsChain fun row next => row.end_ = next.start :=
    tiles_isChain (R := fun x y => x.timestamp.toInt < y.timestamp.toInt)
      (fun x y _ row hrow _ => hrow.symm) hsorted
  have hapart : (tiles p xs).IsChain fun row next =>
      row.end_ ≤ next.start ∧ next.start < next.end_ :=
    hchain.imp_of_mem_imp fun row next _ hnext heq => ⟨heq.le, (hproper next hnext).1⟩
  have htrans : IsTrans ExecutionRow fun row next =>
      row.end_ ≤ next.start ∧ next.start < next.end_ := ⟨fun x y z hxy hyz => ⟨by omega, hyz.2⟩⟩
  exact hapart.pairwise

/-- The tiles of samples of a period lie in it. -/
theorem tiles_inside (hin : ∀ x ∈ xs, Inside p x) (hstart : ∀ x ∈ xs, p.a ≤ millis x.timestamp) :
    ∀ row ∈ tiles p xs, p.a ≤ row.start ∧ row.end_ ≤ p.b := by
  induction xs with
  | nil => exact fun row hrow => absurd hrow List.not_mem_nil
  | cons x xs ih =>
    rw [tiles_cons]
    intro row hrow
    rcases List.mem_cons.mp hrow with rfl | hrow
    · refine ⟨(tile_start p x xs).symm ▸ hstart x List.mem_cons_self, ?_⟩
      cases xs with
      | nil => exact le_rfl
      | cons y xs => exact (hin y (List.mem_cons_of_mem x List.mem_cons_self)).before.le
    · exact ih (fun y hy => hin y (List.mem_cons_of_mem x hy))
        (fun y hy => hstart y (List.mem_cons_of_mem x hy)) row hrow

/-- The rows of a period, against its samples `xs`. -/
structure TellsPeriod (p : ActivityPeriod) (xs : List ExecutionDatum)
    (rows : List ExecutionRow) : Prop where
  apart : rows.Pairwise fun row next => row.end_ ≤ next.start
  inside : ∀ row ∈ rows, p.a ≤ row.start ∧ row.start < row.end_ ∧ row.end_ ≤ p.b
  covers : ∀ x ∈ xs, ∃ row ∈ rows, row.start ≤ millis x.timestamp ∧
    millis x.timestamp < row.end_ ∧ row.execution = x.execution

theorem tellsPeriod_tiles {runs : List (List ExecutionDatum)}
    (hruns : MaximalRuns ExecutionDatum.execution xs runs)
    (hin : ∀ x ∈ xs, p.a ≤ millis x.timestamp ∧ Inside p x)
    (hsorted : xs.Pairwise fun x y => x.timestamp.toInt < y.timestamp.toInt) :
    TellsPeriod p xs (tiles p (firsts runs)) := by
  have hsub := hruns.firsts_sublist
  have hfirsts : ∀ x ∈ firsts runs, Inside p x := fun x hx => (hin x (hsub.subset hx)).2
  have hchain := (hsorted.sublist hsub).isChain
  refine ⟨(tiles_apart hfirsts hchain).imp fun h => h.1, fun row hrow => ?_,
    tiles_covers hruns (fun x hx => (hin x hx).2) hsorted⟩
  obtain ⟨ha, hb⟩ := tiles_inside hfirsts (fun x hx => (hin x (hsub.subset hx)).1) row hrow
  exact ⟨ha, (tiles_proper hfirsts hchain row hrow).1, hb⟩

end

/-! ## The periods of the view -/

section
variable {input : List Sample} {periods : List ActivityPeriod}

/-- Two periods of a machine are apart. -/
theorem periods_apart (hview : activityPeriodsAlt input = some periods) {p q : ActivityPeriod}
    (hp : p ∈ periods) (hq : q ∈ periods) (hmachine : p.machine_id = q.machine_id)
    (hne : p ≠ q) : p.b < q.a ∨ q.b < p.a := by
  obtain ⟨gs, hislands, hfilter⟩ := filter_activityPeriodsAlt hview q.machine_id
  have hpairs : (periods.filter fun row => row.machine_id = q.machine_id).Pairwise
      fun x y => x.b < y.a := by
    have hfst := islands_apart (bucketsOf_counted input q.machine_id) hislands
    rw [← List.zipIdx_map_fst 1 (gs.map (islandOf q.machine_id)), List.pairwise_map] at hfst
    rw [hfilter]
    exact List.pairwise_map.mpr (hfst.imp fun h => h.1)
  have hp : p ∈ periods.filter fun row => row.machine_id = q.machine_id :=
    List.mem_filter.mpr ⟨hp, decide_eq_true hmachine⟩
  have hq : q ∈ periods.filter fun row => row.machine_id = q.machine_id :=
    List.mem_filter.mpr ⟨hq, decide_eq_true rfl⟩
  have hpairs : (periods.filter fun row => row.machine_id = q.machine_id).Pairwise
      fun x y => x.b < y.a ∨ y.b < x.a := hpairs.imp Or.inl
  have hsymm : Std.Symm fun x y : ActivityPeriod => x.b < y.a ∨ y.b < x.a :=
    ⟨fun x y h => h.symm⟩
  exact hpairs.forall hp hq hne

/-- Every sample lies in a period of its machine. -/
theorem exists_period (hview : activityPeriodsAlt input = some periods) {x : Sample}
    (hx : x ∈ input) : ∃ p ∈ periods, p.machine_id = x.machineId ∧ p.a ≤ millis x.timestamp ∧
      millis x.timestamp < p.b := by
  obtain ⟨gs, hislands, hfilter⟩ := filter_activityPeriodsAlt hview x.machineId
  have hpartitions := partitionsActivity_islands (bucketsOf_counted input x.machineId) hislands
  rw [← hfilter] at hpartitions
  have honce := hpartitions.once (millis x.timestamp)
    (List.mem_map.mpr ⟨x, List.mem_filter.mpr ⟨hx, decide_eq_true rfl⟩, rfl⟩)
  obtain ⟨p, hp⟩ := List.exists_mem_of_length_pos (honce ▸ Nat.one_pos)
  obtain ⟨hp, hin⟩ := List.mem_filter.mp hp
  obtain ⟨hp, hmachine⟩ := List.mem_filter.mp hp
  exact ⟨p, hp, of_decide_eq_true hmachine, of_decide_eq_true hin⟩

/-! ## The rows of the query -/

theorem filter_executionsQuery {rows : List ExecutionRow}
    (hquery : executionsQuery input periods = some rows)
    (hdistinct : (input.filterMap executionOf).Pairwise fun x y =>
      x.machineId = y.machineId → x.timestamp ≠ y.timestamp)
    (hnumbered : periods.Pairwise fun p q => p.key ≠ q.key) {p : ActivityPeriod}
    (hp : p ∈ periods) :
    TellsPeriod p (samplesIn input p) (rows.filter fun row => row.key = p.key) := by
  obtain ⟨hrange, rfl⟩ := executionsQuery_rows hquery
  obtain ⟨hsorted, hpartition⟩ := partition_joined hdistinct hnumbered hp
    (show samplesIn input p = _ from rfl)
  have hin : ∀ x ∈ samplesIn input p, p.a ≤ millis x.timestamp ∧ Inside p x := by
    intro x hx
    obtain ⟨hx, hbounds⟩ := List.mem_filter.mp (mem_orderBy.mp hx)
    obtain ⟨-, ha, hb⟩ := of_decide_eq_true hbounds
    exact ⟨ha, hrange x hx, hb⟩
  obtain ⟨runs, hruns⟩ := exists_maximalRuns ExecutionDatum.execution (samplesIn input p)
  have hfilter := filter_windows hruns hsorted (fun x hx => (hin x hx).2.range) hpartition
  have hstrict := tiles_strict p (hsorted.sublist hruns.firsts_sublist)
  rw [filter_orderBy (hfilter ▸ hstrict), hfilter]
  exact tellsPeriod_tiles hruns hin hsorted

/-- The result is in the order of `start`. -/
theorem executionsQuery_sorted {rows : List ExecutionRow}
    (hquery : executionsQuery input periods = some rows) :
    rows.Pairwise fun row next => row.start ≤ next.start := by
  obtain ⟨-, rfl⟩ := executionsQuery_rows hquery
  exact orderBy_sorted _ _

/-- The query answers over the periods of the view. -/
theorem isSome_executionsQuery_view (hview : activityPeriodsAlt input = some periods) :
    (executionsQuery input periods).isSome := by
  refine isSome_executionsQuery (fun x hx => ?_) (activityPeriodsAlt_numbered hview) fun p hp => ?_
  · obtain ⟨y, hy, hyx⟩ := List.mem_filterMap.mp hx
    obtain ⟨execution, -, rfl⟩ := Option.map_eq_some_iff.mp hyx
    exact inRange_of_activityPeriodsAlt hview y hy
  · exact isSome_duration hview p hp

/-- The rows of the query over the periods of the view. -/
theorem history_executionsQuery {rows : List ExecutionRow}
    (hview : activityPeriodsAlt input = some periods)
    (hquery : executionsQuery input periods = some rows)
    (hdistinct : (input.filterMap executionOf).Pairwise fun x y =>
      x.machineId = y.machineId → x.timestamp ≠ y.timestamp) :
    (rows.Pairwise fun row next => row.machine_id = next.machine_id → row.end_ ≤ next.start) ∧
    ∀ x ∈ input.filterMap executionOf, ∃ row ∈ rows, row.machine_id = x.machineId ∧
      row.start ≤ millis x.timestamp ∧ millis x.timestamp < row.end_ ∧
      row.execution = x.execution := by
  have hnumbered := activityPeriodsAlt_numbered hview
  constructor
  · -- two rows, in the order of the result
    refine List.pairwise_iff_forall_sublist.mpr fun {row next} hpair hmachine => ?_
    have hrow : row ∈ rows := hpair.subset List.mem_cons_self
    have hnext : next ∈ rows := hpair.subset (List.mem_cons_of_mem _ List.mem_cons_self)
    obtain ⟨p, hp, hkey⟩ := key_mem_periods hquery hrow
    obtain ⟨q, hq, hkey'⟩ := key_mem_periods hquery hnext
    have htells := filter_executionsQuery hquery hdistinct hnumbered hp
    have htells' := filter_executionsQuery hquery hdistinct hnumbered hq
    obtain ⟨ha, -, hb⟩ := htells.inside row (List.mem_filter.mpr ⟨hrow, decide_eq_true hkey⟩)
    obtain ⟨ha', hproper, hb'⟩ :=
      htells'.inside next (List.mem_filter.mpr ⟨hnext, decide_eq_true hkey'⟩)
    have hperiods : p.machine_id = q.machine_id :=
      (Prod.mk.inj hkey).1.symm.trans (hmachine.trans (Prod.mk.inj hkey').1)
    by_cases hsame : p = q
    · subst hsame
      have hkeep : ([row, next].filter fun row => row.key = p.key) = [row, next] :=
        List.filter_eq_self.mpr (List.forall_mem_cons.mpr
          ⟨decide_eq_true hkey, List.forall_mem_singleton.mpr (decide_eq_true hkey')⟩)
      have hsub := hpair.filter fun row => row.key = p.key
      rw [hkeep] at hsub
      exact List.pairwise_iff_forall_sublist.mp htells.apart hsub
    · -- the rows come by `start`
      have hle := List.pairwise_iff_forall_sublist.mp (executionsQuery_sorted hquery) hpair
      have hapart := periods_apart hview hp hq hperiods hsame
      omega
  · intro x hx
    obtain ⟨y, hy, hyx⟩ := List.mem_filterMap.mp hx
    obtain ⟨execution, -, rfl⟩ := Option.map_eq_some_iff.mp hyx
    obtain ⟨p, hp, hmachine, ha, hb⟩ := exists_period hview hy
    obtain ⟨row, hrow, hcovers⟩ :=
      (filter_executionsQuery hquery hdistinct hnumbered hp).covers _
        (mem_orderBy.mpr (List.mem_filter.mpr
          ⟨hx, decide_eq_true ⟨hmachine.symm, ha, hb⟩⟩))
    obtain ⟨hrow, hkey⟩ := List.mem_filter.mp hrow
    exact ⟨row, hrow, (Prod.mk.inj (of_decide_eq_true hkey)).1.trans hmachine, hcovers⟩

/-- **The history of the machines**: where the timestamps are in reach, the view and the
query over it answer; the rows of a machine follow each other, and every sample with an
execution lies in one that has its execution. -/
theorem executionsQuery_history
    (hdistinct : (input.filterMap executionOf).Pairwise fun x y =>
      x.machineId = y.machineId → x.timestamp ≠ y.timestamp) :
    ((∀ x ∈ input, inReach (millis x.timestamp)) →
      ((activityPeriodsAlt input).bind (executionsQuery input)).isSome) ∧
    ∀ rows, (activityPeriodsAlt input).bind (executionsQuery input) = some rows →
      (rows.Pairwise fun row next =>
        row.machine_id = next.machine_id → row.end_ ≤ next.start) ∧
      ∀ x ∈ input.filterMap executionOf, ∃ row ∈ rows, row.machine_id = x.machineId ∧
        row.start ≤ millis x.timestamp ∧ millis x.timestamp < row.end_ ∧
        row.execution = x.execution := by
  refine ⟨fun hreach => ?_, fun rows hquery => ?_⟩
  · obtain ⟨periods, hview⟩ := Option.isSome_iff_exists.mp (isSome_activityPeriodsAlt hreach)
    rw [hview, Option.bind_some]
    exact isSome_executionsQuery_view hview
  · obtain ⟨periods, hview, hquery⟩ := Option.bind_eq_some_iff.mp hquery
    exact history_executionsQuery hview hquery hdistinct

end

/-- They follow each other, and the three samples lie in them. -/
theorem executionsQuery_history_stopped :
    (activityPeriodsAlt stoppedSamples).bind (executionsQuery stoppedSamples) = some stoppedRows ∧
    (stoppedRows.Pairwise fun row next =>
      row.machine_id = next.machine_id → row.end_ ≤ next.start) ∧
    ∀ x ∈ stoppedSamples.filterMap executionOf, ∃ row ∈ stoppedRows,
      row.machine_id = x.machineId ∧ row.start ≤ millis x.timestamp ∧
      millis x.timestamp < row.end_ ∧ row.execution = x.execution := by
  obtain ⟨hanswers, htells⟩ := @executionsQuery_history stoppedSamples (by decide +kernel)
  obtain ⟨rows, hquery⟩ := Option.isSome_iff_exists.mp (hanswers (by decide))
  obtain rfl : rows = stoppedRows := Option.some.inj (hquery.symm.trans (by decide +kernel))
  exact ⟨hquery, htells _ hquery⟩

end FanucDriver.Queries
