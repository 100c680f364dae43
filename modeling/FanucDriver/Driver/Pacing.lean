import FanucDriver.Driver.Data
import Mathlib.Tactic.Linarith
import Mathlib.Tactic.Ring

/-!
# Elapsed time and the pace of the loop

Every getter, and `main` around `loop_tick`, computes the microseconds between two
readings of the clock in `long` arithmetic (`elapsed`), and `main` sleeps for what is left
of `minimum_interval`. The nanosecond difference may be negative, and its division by 1000
truncates toward zero.

`pace`: within 2147 seconds no step overflows, the result is less than a microsecond off,
and work and sleep of a round fill the interval but for that microsecond.
-/

namespace FanucDriver.Driver

/-! ## The expression, step by step -/

/-- A signed operation of C: undefined where the exact result is not a `long`. -/
def long? (n : ℤ) : Option Long :=
  if (Int32.ofInt n).toInt = n then some (Int32.ofInt n) else none

/-- The expression of `elapsed` before its conversion; nothing where a step overflows. -/
def elapsedLong? (t0 t1 : Timespec) : Option Long := do
  let sec ← long? (t1.tv_sec.toInt - t0.tv_sec.toInt)
  let micros ← long? (sec.toInt * 1000000)
  let nsec ← long? (t1.tv_nsec.toInt - t0.tv_nsec.toInt)
  let rest ← long? (nsec.toInt.tdiv 1000)
  long? (micros.toInt + rest.toInt)

/-- `const long minimum_interval = (1.5) * 1e6` -/
def minimumInterval : Long := 1500000

/-- The argument of `usleep` in a round whose tick took `tt`. `tt` is an `unsigned long`,
so `minimum_interval` is converted for the comparison and for the difference. -/
def usleepArg (tt : ULong) : Option ULong :=
  if tt < minimumInterval.toUInt32 then some (minimumInterval.toUInt32 - tt) else none

/-! ## Exact time -/

/-- `0 ≤ tv_nsec < 10^9` -/
def Timespec.Normalised (t : Timespec) : Prop :=
  0 ≤ t.tv_nsec.toInt ∧ t.tv_nsec.toInt < 1000000000

instance (t : Timespec) : Decidable t.Normalised := by
  unfold Timespec.Normalised
  infer_instance

/-- Nanoseconds since the start of the clock. -/
def Timespec.nanos (t : Timespec) : ℤ := t.tv_sec.toInt * 1000000000 + t.tv_nsec.toInt

/-- The exact microseconds between two readings. -/
def exactMicros (t0 t1 : Timespec) : ℚ := ((t1.nanos - t0.nanos : ℤ) : ℚ) / 1000

theorem long?_of_fits {n : ℤ} (hlo : -2147483648 ≤ n) (hhi : n < 2147483648) :
    long? n = some (Int32.ofInt n) ∧ (Int32.ofInt n).toInt = n := by
  have hn : (Int32.ofInt n).toInt = n := Int32.toInt_ofInt_of_le hlo hhi
  exact ⟨if_pos hn, hn⟩

/-- Truncating division by 1000 is less than one off. -/
theorem tdiv_off (n : ℤ) : n - 1000 < n.tdiv 1000 * 1000 ∧ n.tdiv 1000 * 1000 < n + 1000 := by
  have hsum := Int.tdiv_mul_add_tmod n 1000
  have hlt := Int.tmod_lt_of_pos n (show (0 : ℤ) < 1000 by decide)
  have hgt := Int.lt_tmod_of_pos n (show (0 : ℤ) < 1000 by decide)
  omega

/-! ## The steps -/

theorem long?_eq_some {n : ℤ} {v : Long} (h : long? n = some v) : v = Int32.ofInt n := by
  unfold long? at h
  split at h
  · exact (Option.some.inj h).symm
  · exact absurd h.symm (Option.some_ne_none v)

/-- Where no step overflows, `long` arithmetic computes the same. -/
theorem elapsed_eq {t0 t1 : Timespec} {v : Long} (h : elapsedLong? t0 t1 = some v) :
    elapsed t0 t1 = v.toUInt32 := by
  unfold elapsedLong? at h
  obtain ⟨sec, hsec, h⟩ := Option.bind_eq_some_iff.mp h
  obtain ⟨micros, hmicros, h⟩ := Option.bind_eq_some_iff.mp h
  obtain ⟨nsec, hnsec, h⟩ := Option.bind_eq_some_iff.mp h
  obtain ⟨rest, hrest, h⟩ := Option.bind_eq_some_iff.mp h
  have hsec' : sec = t1.tv_sec - t0.tv_sec := by
    rw [long?_eq_some hsec, Int32.ofInt_sub, Int32.ofInt_toInt, Int32.ofInt_toInt]
  have hmicros' : micros = sec * 1000000 := by
    rw [long?_eq_some hmicros, Int32.ofInt_mul, Int32.ofInt_toInt]
    rfl
  have hnsec' : nsec = t1.tv_nsec - t0.tv_nsec := by
    rw [long?_eq_some hnsec, Int32.ofInt_sub, Int32.ofInt_toInt, Int32.ofInt_toInt]
  have hrest' : rest = nsec / 1000 := by
    rw [long?_eq_some hrest, ← Int32.toInt_inj,
      Int32.toInt_div_of_ne_right nsec 1000 (by decide)]
    show (Int32.ofInt (nsec.toInt.tdiv 1000)).toInt = nsec.toInt.tdiv 1000
    -- a quotient of a `long` is one
    have hoff := tdiv_off nsec.toInt
    have hlo := nsec.le_toInt
    have hhi := nsec.toInt_lt
    exact Int32.toInt_ofInt_of_le (by omega) (by omega)
  have hv : v = micros + rest := by
    rw [long?_eq_some h, Int32.ofInt_add, Int32.ofInt_toInt, Int32.ofInt_toInt]
  rw [hv, hmicros', hrest', hsec', hnsec']
  rfl

/-- **No step overflows** within 2147 seconds, and the result is the truncated time. -/
theorem elapsedLong?_eq {t0 t1 : Timespec} (h0 : t0.Normalised) (h1 : t1.Normalised)
    (hle : t0.nanos ≤ t1.nanos) (hlt : t1.nanos - t0.nanos < 2147000000000) :
    ∃ v : Long, elapsedLong? t0 t1 = some v ∧ 0 ≤ v.toInt ∧
      t1.nanos - t0.nanos - 1000 < v.toInt * 1000 ∧
      v.toInt * 1000 < t1.nanos - t0.nanos + 1000 := by
  unfold Timespec.Normalised at h0 h1
  unfold Timespec.nanos at hle hlt ⊢
  have hoff := tdiv_off (t1.tv_nsec.toInt - t0.tv_nsec.toInt)
  -- a second boundary more than the whole seconds borrows from the nanoseconds
  obtain ⟨hsec?, hsec⟩ := long?_of_fits (n := t1.tv_sec.toInt - t0.tv_sec.toInt) (by omega)
    (by omega)
  obtain ⟨hmicros?, hmicros⟩ := long?_of_fits
    (n := (t1.tv_sec.toInt - t0.tv_sec.toInt) * 1000000) (by omega) (by omega)
  obtain ⟨hnsec?, hnsec⟩ := long?_of_fits (n := t1.tv_nsec.toInt - t0.tv_nsec.toInt) (by omega)
    (by omega)
  obtain ⟨hrest?, hrest'⟩ := long?_of_fits
    (n := (t1.tv_nsec.toInt - t0.tv_nsec.toInt).tdiv 1000) (by omega) (by omega)
  obtain ⟨hsum?, hsum⟩ := long?_of_fits
    (n := (t1.tv_sec.toInt - t0.tv_sec.toInt) * 1000000 +
      (t1.tv_nsec.toInt - t0.tv_nsec.toInt).tdiv 1000) (by omega) (by omega)
  refine ⟨Int32.ofInt ((t1.tv_sec.toInt - t0.tv_sec.toInt) * 1000000 +
    (t1.tv_nsec.toInt - t0.tv_nsec.toInt).tdiv 1000), ?_, ?_⟩
  · unfold elapsedLong?
    simp only [Option.bind_eq_bind, Option.bind_some, hsec?, hsec, hmicros?, hmicros, hnsec?,
      hnsec, hrest?, hrest', hsum?]
  · rw [hsum]
    omega

/-! ## The pace -/

/-- The sleep is what is left of the interval. -/
theorem usleepArg_eq (tt : ULong) : (usleepArg tt).map UInt32.toNat =
    if tt.toNat < 1500000 then some (1500000 - tt.toNat) else none := by
  have hinterval : minimumInterval.toUInt32 = 1500000 := rfl
  unfold usleepArg
  rw [hinterval]
  by_cases h : tt < 1500000
  · have hnat : tt.toNat < 1500000 := UInt32.lt_iff_toNat_lt.mp h
    rw [if_pos h, if_pos hnat, Option.map_some, UInt32.toNat_sub_of_le _ _ (UInt32.le_of_lt h)]
    rfl
  · have hnat : ¬tt.toNat < 1500000 := fun hlt => h (UInt32.lt_iff_toNat_lt.mpr hlt)
    rw [if_neg h, if_neg hnat, Option.map_none]

theorem usleepArg_isSome_iff (tt : ULong) : (usleepArg tt).isSome ↔ tt.toNat < 1500000 := by
  rw [← Option.isSome_map (f := UInt32.toNat), usleepArg_eq]
  split <;> simp <;> omega

theorem usleepArg_bounds {tt n : ULong} (hn : n ∈ usleepArg tt) :
    0 < n.toNat ∧ n.toNat ≤ 1500000 := by
  have hsleep := usleepArg_eq tt
  rw [Option.mem_def.mp hn, Option.map_some] at hsleep
  split at hsleep
  · have hn := Option.some.inj hsleep
    omega
  · exact absurd hsleep (Option.some_ne_none _)

/-- Without a sleep nothing is left. -/
theorem usleepArg_elim (tt : ULong) :
    (usleepArg tt).elim 0 UInt32.toNat = 1500000 - tt.toNat := by
  have hsleep := usleepArg_eq tt
  cases hs : usleepArg tt with
  | none =>
    rw [hs, Option.map_none] at hsleep
    split at hsleep
    · exact absurd hsleep.symm (Option.some_ne_none _)
    · rw [Option.elim_none]
      omega
  | some n =>
    rw [hs, Option.map_some] at hsleep
    split at hsleep
    · exact Option.some.inj hsleep
    · exact absurd hsleep (Option.some_ne_none _)

/-- The result that is not negative is the one that is compared and subtracted. -/
theorem elapsed_toNat {t0 t1 : Timespec} {v : Long} (h : elapsedLong? t0 t1 = some v)
    (hnonneg : 0 ≤ v.toInt) : ((elapsed t0 t1).toNat : ℤ) = v.toInt := by
  have hpos : 0 ≤ v := Int32.le_iff_toInt_le.mpr hnonneg
  rw [elapsed_eq h, Int32.toNat_toUInt32_of_le hpos, Int32.cast_toNatClampNeg v hpos]

/-- The microseconds are less than one off where the nanoseconds are less than 1000 off. -/
theorem sub_exactMicros_lt {t0 t1 : Timespec} {n : ℤ} (hlo : t1.nanos - t0.nanos - 1000 < n * 1000)
    (hhi : n * 1000 < t1.nanos - t0.nanos + 1000) : |(n : ℚ) - exactMicros t0 t1| < 1 := by
  unfold exactMicros
  have hlo' : ((t1.nanos - t0.nanos : ℤ) : ℚ) - 1000 < (n : ℚ) * 1000 := by
    exact_mod_cast hlo
  have hhi' : (n : ℚ) * 1000 < ((t1.nanos - t0.nanos : ℤ) : ℚ) + 1000 := by
    exact_mod_cast hhi
  rw [abs_lt]
  constructor <;> linarith

/-- **Elapsed time and the pace of the loop.** Between normalised readings in order and less
than 2147 seconds apart no step of the expression overflows, its result is not negative and
less than a microsecond off; `main` sleeps iff it is below the interval, for at most the
interval, and work and sleep come to more than the interval less a microsecond. -/
theorem pace {t0 t1 : Timespec} (h0 : t0.Normalised) (h1 : t1.Normalised)
    (hle : t0.nanos ≤ t1.nanos) (hlt : t1.nanos - t0.nanos < 2147000000000) :
    ∃ v : Long, elapsedLong? t0 t1 = some v ∧ elapsed t0 t1 = v.toUInt32 ∧ 0 ≤ v.toInt ∧
      |(v.toInt : ℚ) - exactMicros t0 t1| < 1 ∧
      ((usleepArg (elapsed t0 t1)).isSome ↔ v.toInt < 1500000) ∧
      (∀ n ∈ usleepArg (elapsed t0 t1), 0 < n.toNat ∧ n.toNat ≤ 1500000) ∧
      1500000 - 1 < exactMicros t0 t1 + ((usleepArg (elapsed t0 t1)).elim 0 UInt32.toNat : ℕ) := by
  obtain ⟨v, hv, hnonneg, hlo, hhi⟩ := elapsedLong?_eq h0 h1 hle hlt
  have htt := elapsed_toNat hv hnonneg
  have hclose := sub_exactMicros_lt hlo hhi
  refine ⟨v, hv, elapsed_eq hv, hnonneg, hclose, ?_, fun n hn => usleepArg_bounds hn, ?_⟩
  · rw [usleepArg_isSome_iff]
    omega
  · -- work, in whole microseconds, and sleep fill the interval
    have hwork := (abs_lt.mp hclose).2
    have htotal : (1500000 : ℤ) ≤ v.toInt + (1500000 - (elapsed t0 t1).toNat : ℕ) := by omega
    have htotal' : (1500000 : ℚ) ≤ (v.toInt : ℚ) + (1500000 - (elapsed t0 t1).toNat : ℕ) := by
      exact_mod_cast htotal
    rw [usleepArg_elim]
    linarith

/-- A tick across the boundary of a second: 2 nanoseconds, of which nothing is left. -/
theorem pace_boundary :
    elapsedLong? ⟨5, 999999999⟩ ⟨6, 1⟩ = some 1 ∧
      |((1 : ℤ) : ℚ) - exactMicros ⟨5, 999999999⟩ ⟨6, 1⟩| < 1 := by
  have h0 : Timespec.Normalised ⟨5, 999999999⟩ := by decide
  have h1 : Timespec.Normalised ⟨6, 1⟩ := by decide
  obtain ⟨v, hv, -, -, hclose, -⟩ := pace h0 h1 (by decide) (by decide)
  have hone : elapsedLong? ⟨5, 999999999⟩ ⟨6, 1⟩ = some 1 := by decide
  obtain rfl := Option.some.inj (hv.symm.trans hone)
  exact ⟨hone, hclose⟩

end FanucDriver.Driver
