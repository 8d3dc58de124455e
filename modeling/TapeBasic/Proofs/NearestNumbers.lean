import TapeBasic.Proofs.StoredValues

/-!
# The nearest stored number

A positive number `x` is rounded on the grid of the numbers that have its exponent: `scaled x` counts the steps
of the grid up to `x`, and the rounded number is the nearest whole count. The stored numbers from the power of
two below `x` upwards lie on this grid, also those of greater exponents; those below that power of two lie on finer
grids, but the power of two is nearer than any of them.

* `StoredNumber.Prefers x y z`: `y` is at least as close to `x` as `z` is, and not the smaller of the two if
  they are equally close.

Results:
* `StoredNumber.halfUp_prefers`: the rounded number is preferred to every stored number.
* `StoredNumber.encode_nearest`: which values are stored, and that the nearest stored number is chosen.
* `StoredNumber.encode_precise_iff`: the relative error is at most 1 in 2³² + 1; which values are within 10⁻¹⁰.
* `StoredNumber.abs_middle_sub`: every exponent has a value with just the greatest relative error.
-/
namespace TapeBasic.StoredNumber

variable {x y z : ℚ} {value : Binary64} {stored : List UInt8}

/-- Whether `y` is chosen rather than `z` for `x`: it is closer, or the larger of two equally close ones. -/
def Prefers (x y z : ℚ) : Prop :=
  |y - x| ≤ |z - x| ∧ (|y - x| = |z - x| → z ≤ y)

/-! ## The grid of an exponent -/

theorem scaled_mul (x : ℚ) : scaled x * 2 ^ (Int.log 2 x - 31) = x := by
  rw [scaled, mul_assoc, ← zpow_add₀ two_ne_zero, show 31 - Int.log 2 x + (Int.log 2 x - 31) = 0 by omega,
    zpow_zero, mul_one]

theorem le_scaled (hpos : 0 < x) : 2 ^ 31 ≤ scaled x := by
  have hstep : (0 : ℚ) < 2 ^ (Int.log 2 x - 31) := by positivity
  have hleast : 2 ^ 31 * 2 ^ (Int.log 2 x - 31) ≤ scaled x * 2 ^ (Int.log 2 x - 31) := by
    rw [← two_zpow_eq_mul, scaled_mul]
    exact two_zpow_log_le hpos
  exact le_of_mul_le_mul_right hleast hstep

/-- The distance of a point of the grid, counted in its steps. -/
theorem abs_grid_sub (k x : ℚ) :
    |k * 2 ^ (Int.log 2 x - 31) - x| = |k - scaled x| * 2 ^ (Int.log 2 x - 31) := by
  have hstep : (0 : ℚ) ≤ 2 ^ (Int.log 2 x - 31) := by positivity
  rw [← abs_of_nonneg hstep, ← abs_mul, abs_of_nonneg hstep, sub_mul, scaled_mul]

theorem Prefers.self (x z : ℚ) : Prefers x x z := by
  refine ⟨by simp, fun hequal => ?_⟩
  rw [sub_self, abs_zero, eq_comm, abs_eq_zero, sub_eq_zero] at hequal
  exact hequal.le

/-- The nearest whole number is preferred to every other. -/
theorem floor_prefers (t : ℚ) (k : Int) : Prefers t ⌊t + 1 / 2⌋ k := by
  have hfloor : (⌊t + 1 / 2⌋ : ℚ) ≤ t + 1 / 2 := Int.floor_le _
  have hnext : t + 1 / 2 < ⌊t + 1 / 2⌋ + 1 := Int.lt_floor_add_one _
  generalize ⌊t + 1 / 2⌋ = n at hfloor hnext
  have hhalf : |n - t| ≤ 1 / 2 := abs_le.mpr ⟨by linarith, by linarith⟩
  rcases lt_trichotomy k n with hless | rfl | hmore
  · have hgap : (k : ℚ) + 1 ≤ n := by exact_mod_cast hless
    refine ⟨hhalf.trans (le_abs.mpr (.inr (by linarith))), fun _ => by linarith⟩
  · exact ⟨le_rfl, fun _ => le_rfl⟩
  · have hgap : (n : ℚ) + 1 ≤ k := by exact_mod_cast hmore
    have hfar : |n - t| < |k - t| := hhalf.trans_lt (lt_abs.mpr (.inl (by linarith)))
    exact ⟨hfar.le, fun hequal => absurd hequal hfar.ne⟩

/-- The rounded number is preferred to every point of the grid. -/
theorem halfUp_prefers_grid (x : ℚ) (k : Int) : Prefers x (halfUp x) (k * 2 ^ (Int.log 2 x - 31)) := by
  have hstep : (0 : ℚ) < 2 ^ (Int.log 2 x - 31) := by positivity
  obtain ⟨hnear, htie⟩ := floor_prefers (scaled x) k
  rw [Prefers, halfUp, abs_grid_sub, abs_grid_sub]
  refine ⟨mul_le_mul_of_nonneg_right hnear hstep.le, fun hequal => ?_⟩
  exact mul_le_mul_of_nonneg_right (htie (mul_right_cancel₀ hstep.ne' hequal)) hstep.le

/-! ## The stored numbers -/

/-- A number whose exponent is not smaller lies on the grid. -/
theorem number_mem_grid {e : Int} (f : Nat) (h : Int.log 2 x ≤ e) :
    ∃ k : Int, number f e = k * 2 ^ (Int.log 2 x - 31) := by
  refine ⟨(2 ^ 31 + f) * 2 ^ (e - Int.log 2 x).toNat, ?_⟩
  have hpow : (2 : ℚ) ^ (e - 31) = 2 ^ (e - Int.log 2 x).toNat * 2 ^ (Int.log 2 x - 31) := by
    rw [← zpow_natCast, ← zpow_add₀ two_ne_zero]
    congr 1
    omega
  rw [number, hpow]
  push_cast
  ring

/-- A number whose exponent is smaller lies below the power of two that starts the grid. -/
theorem number_lt_grid {f : Nat} {e : Int} (hf : f < 2 ^ 31) (h : e < Int.log 2 x) :
    number f e < 2 ^ Int.log 2 x := by
  have hlog : Int.log 2 (number f e) + 1 ≤ Int.log 2 x := by rw [log_number hf e]; omega
  exact (lt_two_zpow_log _).trans_le (zpow_le_zpow_right₀ one_le_two hlog)

/-- What is preferred to the power of two below a number is preferred to everything below that power. -/
theorem Prefers.of_lt_grid (hpos : 0 < x) (h : Prefers x y (2 ^ Int.log 2 x)) (hz : z < 2 ^ Int.log 2 x) :
    Prefers x y z := by
  have hleast := two_zpow_log_le hpos
  have hfar : |y - x| < |z - x| := by
    refine h.1.trans_lt ?_
    rw [abs_of_nonpos (by linarith), abs_of_nonpos (by linarith)]
    linarith
  exact ⟨hfar.le, fun hequal => absurd hequal hfar.ne⟩

/-- The rounded number is preferred to every number of 31 fraction bits. -/
theorem halfUp_prefers (hpos : 0 < x) {f : Nat} (hf : f < 2 ^ 31) (e : Int) : Prefers x (halfUp x) (number f e) := by
  by_cases h : Int.log 2 x ≤ e
  · obtain ⟨k, hk⟩ := number_mem_grid f h
    rw [hk]
    exact halfUp_prefers_grid x k
  · refine Prefers.of_lt_grid hpos ?_ (number_lt_grid hf (Int.not_le.mp h))
    have hstart := halfUp_prefers_grid x (2 ^ 31 : Nat)
    rwa [Int.cast_natCast, Nat.cast_pow, Nat.cast_ofNat, ← two_zpow_eq_mul] at hstart

theorem halfUp_zero : halfUp 0 = 0 := by
  norm_num [halfUp, scaled]

/-! ## Middles -/

/-- The middle between the least two numbers of an exponent. -/
def middle (e : Int) : Magnitude := ⟨2 ^ 32 + 1, e - 32⟩

theorem rational_middle (e : Int) : (middle e).rational = (2 ^ 31 + 1 / 2) * 2 ^ (e - 31) := by
  rw [middle, Magnitude.rational, show e - 31 = e - 32 + 1 by omega, zpow_add_one₀ two_ne_zero]
  push_cast
  ring

theorem log_middle (e : Int) : Int.log 2 (middle e).rational = e := by
  have hlog : (2 ^ 32 + 1).log2 = 32 := by decide
  rw [Magnitude.log_rational (Nat.succ_ne_zero _), Magnitude.leadingExponent, middle, hlog]
  exact Int.sub_add_cancel e 32

theorem scaled_middle (e : Int) : scaled (middle e).rational = 2 ^ 31 + 1 / 2 := by
  rw [scaled, log_middle, rational_middle, mul_assoc, ← zpow_add₀ two_ne_zero,
    show e - 31 + (31 - e) = 0 by omega, zpow_zero, mul_one]

/-- The half is rounded upwards. -/
theorem halfUp_middle (e : Int) : halfUp (middle e).rational = number 1 e := by
  rw [halfUp, scaled_middle, log_middle]
  norm_num [number]

/-! ## Encoding -/

/-- The rounded number is preferred to everything that five bytes without a sign stand for. -/
theorem halfUp_prefers_stored {other : List UInt8} {w : Magnitude} (hnonneg : 0 ≤ x) (hunsigned : Unsigned other)
    (hdecode : decode other = .ok w) : Prefers x (halfUp x) w.rational := by
  obtain ⟨f, e, hf, hleast, hmost, rfl⟩ := exists_bytes hunsigned.1
  rw [unsigned_bytes_iff hf] at hunsigned
  rw [rational_of_decode hf hleast hmost hdecode]
  rcases hnonneg.eq_or_lt with rfl | hpos
  · rw [halfUp_zero]
    exact Prefers.self 0 _
  · split
    next => simpa using halfUp_prefers_grid x 0
    next => exact halfUp_prefers hpos hunsigned e

/-- What is stored of a number is read as the rounded number, if that is not the least power of two, which is
stored as zero is. -/
theorem decode_encode (hx : value.rational? = some x) (hnonneg : 0 ≤ x) (hencode : encode value = .ok stored)
    (hround : halfUp x ≠ 2 ^ minExponent) : ∃ w, decode stored = .ok w ∧ w.rational = halfUp x := by
  rcases hnonneg.eq_or_lt with rfl | hpos
  · obtain rfl := Except.ok.inj ((encode_of_zero hx).symm.trans hencode)
    exact ⟨.zero, by decide, by rw [halfUp_zero, Magnitude.rational_eq_zero_iff]; rfl⟩
  · obtain ⟨f, e, hf, hnumber, hleast, hmost, rfl⟩ := (encode_eq_ok_iff hx hpos).mp hencode
    have hdecode := decode_bytes (hf.trans (by decide)) hleast hmost
    refine ⟨_, hdecode, ?_⟩
    rw [rational_of_decode (hf.trans (by decide)) hleast hmost hdecode, if_neg, hnumber]
    rintro ⟨rfl, rfl⟩
    refine hround ?_
    rw [← hnumber, two_zpow_eq_mul minExponent, number, Nat.cast_zero, add_zero]

/-- A value is stored if and only if it is zero or its rounded number has an exponent in range. -/
theorem exists_encode_iff (hx : value.rational? = some x) (hnonneg : 0 ≤ x) :
    (∃ stored, encode value = .ok stored) ↔
      x = 0 ∨ minExponent ≤ Int.log 2 (halfUp x) ∧ Int.log 2 (halfUp x) ≤ maxExponent := by
  rcases hnonneg.eq_or_lt with rfl | hpos
  · exact iff_of_true ⟨_, encode_of_zero hx⟩ (.inl rfl)
  · rw [or_iff_right hpos.ne']
    constructor
    · rintro ⟨stored, hencode⟩
      obtain ⟨f, e, hf, hnumber, hleast, hmost, -⟩ := (encode_eq_ok_iff hx hpos).mp hencode
      rw [← hnumber, log_number hf]
      exact ⟨hleast, hmost⟩
    · rintro ⟨hleast, hmost⟩
      obtain ⟨f, e, hf, hnumber, hencode⟩ := encode_of_pos hx hpos
      rw [← hnumber, log_number hf] at hleast hmost
      exact ⟨bytes f e, by rw [hencode, if_neg (by omega)]⟩

/-- Encoding picks the nearest stored number. A value that is not negative is stored if and only if it is zero or
rounds to a number whose exponent is in range; what is stored is then, unless the value rounds to the least power
of two, at least as close as everything that five bytes without a sign stand for, and the larger of two equally
close numbers. -/
theorem encode_nearest (hx : value.rational? = some x) (hnonneg : 0 ≤ x) :
    ((∃ stored, encode value = .ok stored) ↔
      x = 0 ∨ minExponent ≤ Int.log 2 (halfUp x) ∧ Int.log 2 (halfUp x) ≤ maxExponent) ∧
    ∀ stored, encode value = .ok stored → halfUp x ≠ 2 ^ minExponent → ∃ w, decode stored = .ok w ∧
      ∀ other w', Unsigned other → decode other = .ok w' → Prefers x w.rational w'.rational := by
  refine ⟨exists_encode_iff hx hnonneg, fun stored hencode hround => ?_⟩
  obtain ⟨w, hdecode, hw⟩ := decode_encode hx hnonneg hencode hround
  exact ⟨w, hdecode, fun other w' hunsigned hother => hw ▸ halfUp_prefers_stored hnonneg hunsigned hother⟩

/-- The middle between one and the next stored number is stored as the next, which is as close as one is. -/
theorem encode_nearest_sample :
    encode (.finite false (middle 0)) = .ok [0x81, 0, 0, 0, 1] ∧
      Prefers (middle 0).rational (Magnitude.rational ⟨2 ^ 31 + 1, -31⟩)
        (Magnitude.rational ⟨2 ^ 31, -31⟩) := by
  have hencode : encode (.finite false (middle 0)) = .ok [0x81, 0, 0, 0, 1] := by decide
  have hnext : decode [0x81, 0, 0, 0, 1] = .ok ⟨2 ^ 31 + 1, -31⟩ := by decide
  have hone : decode [0x81, 0, 0, 0, 0] = .ok ⟨2 ^ 31, -31⟩ := by decide
  have hround : halfUp (middle 0).rational ≠ 2 ^ minExponent := by
    norm_num [halfUp_middle, number, minExponent]
  obtain ⟨w, hdecode, hprefers⟩ := (encode_nearest rfl (middle 0).rational_nonneg).2 _ hencode hround
  rw [← Except.ok.inj (hnext.symm.trans hdecode)] at hprefers
  exact ⟨hencode, hprefers [0x81, 0, 0, 0, 0] ⟨2 ^ 31, -31⟩ (by decide) hone⟩

/-! ## Relative errors -/

/-- The distance to the rounded number is that to the nearest whole number, in steps of the grid. -/
theorem abs_halfUp_sub (x : ℚ) : |halfUp x - x| =
    min (Int.fract (scaled x)) (1 - Int.fract (scaled x)) * 2 ^ (Int.log 2 x - 31) := by
  rw [halfUp, abs_grid_sub, abs_sub_comm, ← abs_sub_round_eq_min, round_eq]

/-- The relative error is greatest half a step above a power of two. -/
theorem abs_halfUp_sub_le (hpos : 0 < x) : |halfUp x - x| ≤ x / (2 ^ 32 + 1) := by
  have hstep : (0 : ℚ) ≤ 2 ^ (Int.log 2 x - 31) := by positivity
  have hleast := le_scaled hpos
  have hfloor : (2 ^ 31 : ℚ) ≤ ⌊scaled x⌋ := by
    have hwhole : (2 ^ 31 : Int) ≤ ⌊scaled x⌋ := Int.le_floor.mpr (by exact_mod_cast hleast)
    exact_mod_cast hwhole
  have hsplit := Int.floor_add_fract (scaled x)
  have herror : min (Int.fract (scaled x)) (1 - Int.fract (scaled x)) ≤ scaled x / (2 ^ 32 + 1) := by
    rw [min_le_iff, le_div_iff₀ (by positivity), le_div_iff₀ (by positivity)]
    rcases le_total (Int.fract (scaled x)) (1 / 2) with hless | hmore
    · exact .inl (by linarith)
    · exact .inr (by linarith)
  calc |halfUp x - x| = min (Int.fract (scaled x)) (1 - Int.fract (scaled x)) * 2 ^ (Int.log 2 x - 31) :=
        abs_halfUp_sub x
    _ ≤ scaled x / (2 ^ 32 + 1) * 2 ^ (Int.log 2 x - 31) := mul_le_mul_of_nonneg_right herror hstep
    _ = x / (2 ^ 32 + 1) := by rw [div_mul_eq_mul_div, scaled_mul]

/-- Which numbers are rounded within a relative error. -/
theorem abs_halfUp_sub_le_iff (x tolerance : ℚ) : |halfUp x - x| ≤ tolerance * x ↔
    min (Int.fract (scaled x)) (1 - Int.fract (scaled x)) ≤ tolerance * scaled x := by
  have hstep : (0 : ℚ) < 2 ^ (Int.log 2 x - 31) := by positivity
  have hscaled : tolerance * x = tolerance * scaled x * 2 ^ (Int.log 2 x - 31) := by rw [mul_assoc, scaled_mul]
  rw [abs_halfUp_sub, hscaled, mul_le_mul_iff_left₀ hstep]

/-- The precision of stored numbers. What is stored of a value differs from it by at most one part in 2³² + 1. It
differs by at most one part in 10¹⁰ if and only if the value is as close as that to a whole number of steps of its
grid. -/
theorem encode_precise_iff (hx : value.rational? = some x) (hnonneg : 0 ≤ x) (hencode : encode value = .ok stored)
    (hround : halfUp x ≠ 2 ^ minExponent) : ∃ w, decode stored = .ok w ∧
      |w.rational - x| ≤ x / (2 ^ 32 + 1) ∧
      (|w.rational - x| ≤ 1 / 10 ^ 10 * x ↔
        min (Int.fract (scaled x)) (1 - Int.fract (scaled x)) ≤ 1 / 10 ^ 10 * scaled x) := by
  obtain ⟨w, hdecode, hw⟩ := decode_encode hx hnonneg hencode hround
  refine ⟨w, hdecode, ?_, hw ▸ abs_halfUp_sub_le_iff x (1 / 10 ^ 10)⟩
  rw [hw]
  rcases hnonneg.eq_or_lt with rfl | hpos
  · simp [halfUp_zero]
  · exact abs_halfUp_sub_le hpos

/-- A value that is close enough to one. -/
theorem encode_precise_iff_sample : ∃ w, decode [0x81, 0, 0, 0, 0] = .ok w ∧
    |w.rational - (1 + 1 / 2 ^ 40)| ≤ 1 / 10 ^ 10 * (1 + 1 / 2 ^ 40) := by
  have hx : (Binary64.finite false ⟨2 ^ 40 + 1, -40⟩).rational? = some (1 + 1 / 2 ^ 40) := by
    norm_num [Binary64.rational?, Magnitude.rational]
  have hencode : encode (.finite false ⟨2 ^ 40 + 1, -40⟩) = .ok [0x81, 0, 0, 0, 0] := by decide
  have hlog : Int.log 2 (1 + 1 / 2 ^ 40 : ℚ) = 0 := by
    apply log_eq_of_le_of_lt <;> norm_num
  have hscaled : scaled (1 + 1 / 2 ^ 40) = 2 ^ 31 + 1 / 2 ^ 9 := by
    rw [scaled, hlog]
    norm_num
  have hround : halfUp (1 + 1 / 2 ^ 40) ≠ 2 ^ minExponent := by
    rw [halfUp, hscaled, hlog]
    norm_num [minExponent]
  obtain ⟨w, hdecode, -, hiff⟩ := encode_precise_iff hx (by norm_num) hencode hround
  refine ⟨w, hdecode, hiff.mpr (min_le_of_left_le ?_)⟩
  rw [hscaled]
  norm_num

/-- The value half a step above one is stored as one and a whole step, which is further off than one part in 10¹⁰. -/
theorem encode_imprecise :
    encode (.finite false (middle 0)) = .ok [0x81, 0, 0, 0, 1] ∧ halfUp (middle 0).rational ≠ 2 ^ minExponent ∧
      decode [0x81, 0, 0, 0, 1] = .ok ⟨2 ^ 31 + 1, -31⟩ ∧
      1 / 10 ^ 10 * (middle 0).rational < |Magnitude.rational ⟨2 ^ 31 + 1, -31⟩ - (middle 0).rational| := by
  refine ⟨by decide, by norm_num [halfUp_middle, number, minExponent], by decide, ?_⟩
  norm_num [Magnitude.rational, middle]

/-- The middle of every exponent has the greatest relative error, so there is no exponent whose values are all
stored within one part in 10¹⁰. -/
theorem abs_middle_sub (e : Int) :
    |halfUp (middle e).rational - (middle e).rational| = (middle e).rational / (2 ^ 32 + 1) := by
  have hgap : number 1 e - (middle e).rational = (middle e).rational / (2 ^ 32 + 1) := by
    rw [number, rational_middle]
    push_cast
    ring
  have hnonneg : 0 ≤ (middle e).rational / (2 ^ 32 + 1) := div_nonneg (middle e).rational_nonneg (by norm_num)
  rw [halfUp_middle, hgap, abs_of_nonneg hnonneg]

end TapeBasic.StoredNumber
