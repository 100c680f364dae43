import Mathlib.Algebra.Order.BigOperators.Group.List
import Mathlib.Algebra.Order.Round
import Mathlib.Data.Rat.Floor
import Mathlib.Tactic.Ring

/-!
# Timestamps of the queries

The type `timestamp with time zone` and the functions on it that the queries use. A
timestamp outside PostgreSQL's range, and an interval outside 64 bits, is an error,
here `none`.

Mirroring notes:
- A timestamp is its microseconds since 1970-01-01 00:00, an interval its microseconds.
- The session's time zone is UTC.
- `to_timestamp` takes a double; its rounding to the nearest double is not modelled, so
  milliseconds are read exactly.
-/

namespace FanucDriver.Queries

def inRange (t : ℤ) : Prop := -210866803200000000 ≤ t ∧ t < 9224318016000000000

instance (t : ℤ) : Decidable (inRange t) := by
  unfold inRange
  infer_instance

/-- `to_timestamp(seconds)` -/
def toTimestamp (seconds : ℚ) : Option ℤ :=
  if inRange (round (seconds * 1000000)) then some (round (seconds * 1000000)) else none

/-- `t + i` -/
def addInterval (t : ℤ) (i : ℤ) : Option ℤ :=
  if inRange (t + i) then some (t + i) else none

/-- `t - u` -/
def subTimestamp (t u : ℤ) : Option ℤ :=
  if -9223372036854775808 ≤ t - u ∧ t - u ≤ 9223372036854775807 then some (t - u) else none

/-- `i + j` -/
def addIntervals (i j : ℤ) : Option ℤ :=
  if -9223372036854775808 ≤ i + j ∧ i + j ≤ 9223372036854775807 then some (i + j) else none

/-- `sum(d)` -/
def sumIntervals (ds : List ℤ) : Option ℤ := ds.foldlM addIntervals 0

/-- `date_trunc('hour', t)` -/
def truncHour (t : ℤ) : ℤ := t / 3600000000 * 3600000000

/-- `extract(minute from t)::int` -/
def minute (t : ℤ) : ℤ := t % 3600000000 / 60000000

/-- `generate_series(start, finish, step)` -/
def generateSeries (start finish step : ℤ) : Option (List ℤ) :=
  if step = 0 then none
  else
    let n := ((finish - start).fdiv step + 1).toNat
    some ((List.range n).map fun (i : ℕ) => start + i * step)

/-- A column of milliseconds as timestamps. -/
def millis (t : Int64) : ℤ := t.toInt * 1000

theorem round_millis (n : Int64) : round ((n.toInt : ℚ) / 1000 * 1000000) = millis n := by
  rw [show (n.toInt : ℚ) / 1000 * 1000000 = ((millis n : ℤ) : ℚ) by
    unfold millis; push_cast; ring, round_intCast]

/-- A column of milliseconds, divided by `1000.0`. -/
theorem toTimestamp_millis {n : Int64} {t : ℤ}
    (h : toTimestamp ((n.toInt : ℚ) / 1000) = some t) : t = millis n ∧ inRange (millis n) := by
  unfold toTimestamp at h
  rw [round_millis] at h
  split at h
  next hrange => exact ⟨(Option.some.inj h).symm, hrange⟩
  next => exact absurd h.symm (Option.some_ne_none t)

theorem inRange_of_toTimestamp {q : ℚ} {t : ℤ} (h : toTimestamp q = some t) : inRange t := by
  unfold toTimestamp at h
  split at h
  next hrange => exact Option.some.inj h ▸ hrange
  next => exact absurd h.symm (Option.some_ne_none t)

theorem addInterval_eq {t u : ℤ} {i : ℤ} (h : addInterval t i = some u) :
    u = t + i := by
  unfold addInterval at h
  split at h
  · exact (Option.some.inj h).symm
  · exact absurd h.symm (Option.some_ne_none u)

theorem subTimestamp_eq {t u : ℤ} {i : ℤ} (h : subTimestamp t u = some i) :
    i = t - u := by
  unfold subTimestamp at h
  split at h
  · exact (Option.some.inj h).symm
  · exact absurd h.symm (Option.some_ne_none i)

theorem addIntervals_eq {i j k : ℤ} (h : addIntervals i j = some k) : k = i + j := by
  unfold addIntervals at h
  split at h
  · exact (Option.some.inj h).symm
  · exact absurd h.symm (Option.some_ne_none k)

theorem sumIntervals_eq {ds : List ℤ} {s : ℤ} (h : sumIntervals ds = some s) : s = ds.sum := by
  have hfold : ∀ (ds : List ℤ) (i : ℤ), ds.foldlM addIntervals i = some s → s = i + ds.sum := by
    intro ds
    induction ds with
    | nil =>
      intro i h
      obtain rfl := Option.some.inj h
      exact (Int.add_zero i).symm
    | cons d ds ih =>
      intro i h
      rw [List.foldlM_cons] at h
      obtain ⟨j, hj, h⟩ := Option.bind_eq_some_iff.mp h
      rw [ih j h, addIntervals_eq hj, List.sum_cons, Int.add_assoc]
  rw [hfold ds 0 h, Int.zero_add]

/-! ## Answers -/

/-- A timestamp with an interval to every other one: up to the year 287000. -/
def inReach (t : ℤ) : Prop := -210866803200000000 ≤ t ∧ t < 9000000000000000000

instance (t : ℤ) : Decidable (inReach t) := by
  unfold inReach
  infer_instance

theorem inReach.inRange {t : ℤ} (h : inReach t) : inRange t := by
  unfold inReach at h
  unfold Queries.inRange
  omega

theorem isSome_toTimestamp_millis {n : Int64} (h : inRange (millis n)) :
    (toTimestamp ((n.toInt : ℚ) / 1000)).isSome := by
  rw [toTimestamp, round_millis, if_pos h]
  rfl

theorem isSome_addInterval {t i : ℤ} (h : inRange (t + i)) : (addInterval t i).isSome := by
  rw [addInterval, if_pos h]
  rfl

theorem isSome_subTimestamp {t u : ℤ}
    (h : -9223372036854775808 ≤ t - u ∧ t - u ≤ 9223372036854775807) :
    (subTimestamp t u).isSome := by
  rw [subTimestamp, if_pos h]
  rfl

theorem inReach.isSome_subTimestamp {t u : ℤ} (ht : inReach t) (hu : inReach u) :
    (subTimestamp t u).isSome := by
  unfold inReach at ht hu
  exact Queries.isSome_subTimestamp (by omega)

/-- An interval inside another one. -/
theorem isSome_subTimestamp_of_le {t u a b : ℤ} (h : (subTimestamp b a).isSome) (hau : a ≤ u)
    (hut : u ≤ t) (htb : t ≤ b) : (subTimestamp t u).isSome := by
  obtain ⟨i, hi⟩ := Option.isSome_iff_exists.mp h
  unfold subTimestamp at hi
  split at hi
  next hin => exact isSome_subTimestamp (by omega)
  next => exact absurd hi.symm (Option.some_ne_none i)

/-- A sum of intervals that are not negative. -/
theorem isSome_sumIntervals {ds : List ℤ} (hnonneg : ∀ d ∈ ds, 0 ≤ d)
    (hsum : ds.sum ≤ 9223372036854775807) : (sumIntervals ds).isSome := by
  have hfold : ∀ (ds : List ℤ) (i : ℤ), 0 ≤ i → (∀ d ∈ ds, 0 ≤ d) →
      i + ds.sum ≤ 9223372036854775807 → (ds.foldlM addIntervals i).isSome := by
    intro ds
    induction ds with
    | nil => exact fun i _ _ _ => rfl
    | cons d ds ih =>
      intro i hi hds hle
      obtain ⟨hd, hds⟩ := List.forall_mem_cons.mp hds
      have hrest := List.sum_nonneg hds
      rw [List.sum_cons] at hle
      rw [List.foldlM_cons, addIntervals, if_pos (by omega)]
      exact ih (i + d) (by omega) hds (by omega)
  exact hfold ds 0 (le_refl 0) hnonneg (by omega)

/-! ## Columns -/

section
variable {B : Type} {f : ℤ → B} {b : B} {t u : ℤ}

/-- A row with one computed column. -/
theorem isSome_row {o : Option ℤ} (h : o.isSome) : (o.bind fun v => some (f v)).isSome := by
  obtain ⟨v, rfl⟩ := Option.isSome_iff_exists.mp h
  rfl

/-- A row with a column `t + i`. -/
theorem eq_of_addInterval {i : ℤ} (h : ((addInterval t i).bind fun v => some (f v)) = some b) :
    b = f (t + i) := by
  obtain ⟨v, hv, hb⟩ := Option.bind_eq_some_iff.mp h
  obtain rfl := addInterval_eq hv
  exact (Option.some.inj hb).symm

/-- A row with a column `t - u`. -/
theorem eq_of_subTimestamp (h : ((subTimestamp t u).bind fun d => some (f d)) = some b) :
    b = f (t - u) := by
  obtain ⟨d, hd, hb⟩ := Option.bind_eq_some_iff.mp h
  obtain rfl := subTimestamp_eq hd
  exact (Option.some.inj hb).symm

end

/-! ## Series -/

theorem mem_generateSeries {start finish step : ℤ} {series : List ℤ}
    (h : generateSeries start finish step = some series) (hstep : 0 < step) {t : ℤ}
    (ht : t ∈ series) : start ≤ t ∧ t ≤ finish := by
  unfold generateSeries at h
  rw [if_neg (ne_of_gt hstep)] at h
  obtain rfl := Option.some.inj h
  obtain ⟨i, hi, rfl⟩ := List.mem_map.mp ht
  rw [List.mem_range, Int.fdiv_eq_ediv_of_nonneg _ (le_of_lt hstep)] at hi
  have hle : (i : ℤ) * step ≤ (finish - start) / step * step :=
    Int.mul_le_mul_of_nonneg_right (by omega) (le_of_lt hstep)
  have hfloor := Int.ediv_mul_le (finish - start) (ne_of_gt hstep)
  have hnonneg : 0 ≤ (i : ℤ) * step := Int.mul_nonneg (by omega) (le_of_lt hstep)
  omega

theorem generateSeries_strict {start finish step : ℤ} {as : List ℤ}
    (h : generateSeries start finish step = some as) (hstep : 0 < step) :
    as.Pairwise fun x y => x < y := by
  unfold generateSeries at h
  rw [if_neg (ne_of_gt hstep)] at h
  obtain rfl := Option.some.inj h
  refine List.pairwise_map.mpr (List.pairwise_lt_range.imp fun {i j} hij => ?_)
  have hlt : (i : ℤ) < j := Int.ofNat_lt.mpr hij
  have hmul := Int.mul_lt_mul_of_pos_right hlt hstep
  omega

/-- The first value of a series is its start. -/
theorem generateSeries_head {start finish step : ℤ} {as : List ℤ}
    (h : generateSeries start finish step = some as) (hstep : 0 < step) (hle : start ≤ finish) :
    as.head? = some start := by
  unfold generateSeries at h
  rw [if_neg (ne_of_gt hstep)] at h
  obtain rfl := Option.some.inj h
  have hnonneg := Int.ediv_nonneg (show 0 ≤ finish - start by omega) (le_of_lt hstep)
  rw [Int.fdiv_eq_ediv_of_nonneg _ (le_of_lt hstep)]
  obtain ⟨n, hn⟩ : ∃ n, ((finish - start) / step + 1).toNat = n + 1 :=
    ⟨((finish - start) / step).toNat, by omega⟩
  rw [hn, List.range_succ_eq_map, List.map_cons]
  simp

end FanucDriver.Queries
