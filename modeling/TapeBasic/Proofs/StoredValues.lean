import Mathlib.Algebra.Order.Field.Power
import Mathlib.Data.Int.Log
import Mathlib.Data.Rat.Floor
import Mathlib.Tactic.Linarith
import Mathlib.Tactic.FieldSimp
import TapeBasic.Proofs.PlainListing

/-!
# What stored numbers stand for

Magnitudes, 64-bit values and stored numbers are read as rational numbers here, and the bytes that a value is
stored as are found from the rational number alone. A stored number with a clear sign bit is then what is
stored of its own value. Five zero bytes stand for zero, though their exponent and fraction would be those of
the least power of two, and both are stored as them.

* `Magnitude.rational`, `Binary64.rational?`: the numbers that magnitudes and finite values stand for.
* `StoredNumber.Unsigned`: five bytes whose sign bit is clear.
* `StoredNumber.number`: the number of a fraction and an exponent.
* `StoredNumber.halfUp`: a number rounded to a leading one and 31 fraction bits.

Results:
* `StoredNumber.number_round`: the fraction and the exponent of a value are those of the rounded number.
* `StoredNumber.encode_eq_ok_iff`, `StoredNumber.rational_of_decode`: what is stored of a number, and what
  stored bytes stand for.
* `StoredNumber.encode_decode`: values that are read back from bytes are stored as the same bytes, if these
  have no sign.
-/
namespace TapeBasic

theorem twoTo_eq (n : Nat) : twoTo n = 2 ^ n := rfl

/-- The number that a magnitude stands for. -/
def Magnitude.rational (v : Magnitude) : ℚ := v.significand * 2 ^ v.exponent

/-- The number that a value stands for, if it is finite. -/
def Binary64.rational? : Binary64 → Option ℚ
  | .finite negative v => some (if negative then -v.rational else v.rational)
  | .infinite _ => none
  | .notANumber => none

namespace StoredNumber

/-- Five bytes whose sign bit is clear. -/
def Unsigned (stored : List UInt8) : Prop :=
  stored.length = size ∧ ∀ b ∈ stored[1]?, b.toNat.testBit 7 = false

instance (stored : List UInt8) : Decidable (Unsigned stored) :=
  decidable_of_iff (stored.length = size ∧ (stored[1]?.all fun b => !b.toNat.testBit 7) = true)
    (by rw [Unsigned, Option.all_eq_true]; simp)

/-- The number with this fraction and this exponent. -/
def number (fraction : Nat) (exponent : Int) : ℚ := (2 ^ 31 + fraction) * 2 ^ (exponent - 31)

/-- The number times a power of two, so that 31 bits of it stand behind the leading one. -/
def scaled (x : ℚ) : ℚ := x * 2 ^ (31 - Int.log 2 x)

/-- The number rounded to a leading one and 31 fraction bits, a half upwards; a carry may lead to the next
power of two. -/
def halfUp (x : ℚ) : ℚ := ⌊scaled x + 1 / 2⌋ * 2 ^ (Int.log 2 x - 31)

end StoredNumber

/-! ## Exponents -/

theorem log_eq_of_le_of_lt {x : ℚ} {e : Int} (hle : 2 ^ e ≤ x) (hlt : x < 2 ^ (e + 1)) : Int.log 2 x = e := by
  have hpos : 0 < x := lt_of_lt_of_le (by positivity) hle
  have hleast : e ≤ Int.log 2 x := (Int.zpow_le_iff_le_log one_lt_two hpos).mp (by exact_mod_cast hle)
  have hmost : Int.log 2 x < e + 1 := (Int.lt_zpow_iff_log_lt one_lt_two hpos).mp (by exact_mod_cast hlt)
  omega

theorem two_zpow_log_le {x : ℚ} (hpos : 0 < x) : 2 ^ Int.log 2 x ≤ x := by
  exact_mod_cast Int.zpow_log_le_self one_lt_two hpos

theorem lt_two_zpow_log (x : ℚ) : x < 2 ^ (Int.log 2 x + 1) := by
  exact_mod_cast Int.lt_zpow_succ_log_self one_lt_two x

theorem Magnitude.log_rational {v : Magnitude} (h : v.significand ≠ 0) :
    Int.log 2 v.rational = v.leadingExponent := by
  have hleast : (2 : ℚ) ^ v.significand.log2 ≤ v.significand := by exact_mod_cast Nat.log2_self_le h
  have hmost : (v.significand : ℚ) < 2 ^ (v.significand.log2 + 1) := by exact_mod_cast Nat.lt_log2_self
  apply log_eq_of_le_of_lt
  · rw [leadingExponent, add_comm, zpow_add₀ two_ne_zero, zpow_natCast]
    exact mul_le_mul_of_nonneg_right hleast (by positivity)
  · rw [leadingExponent, add_assoc, add_comm, zpow_add₀ two_ne_zero, ← Nat.cast_succ, zpow_natCast]
    exact mul_lt_mul_of_pos_right hmost (by positivity)

theorem Magnitude.rational_eq_zero_iff (v : Magnitude) : v.rational = 0 ↔ v.significand = 0 := by
  have hpow : (2 : ℚ) ^ v.exponent ≠ 0 := by positivity
  simp [rational, hpow]

theorem Magnitude.rational_nonneg (v : Magnitude) : 0 ≤ v.rational := by
  unfold rational
  positivity

namespace StoredNumber

/-! ## Rounding -/

theorem number_pos (f : Nat) (e : Int) : 0 < number f e := by
  unfold number
  positivity

/-- The power of two of an exponent, in steps of its last fraction bit. -/
theorem two_zpow_eq_mul (e : Int) : (2 : ℚ) ^ e = 2 ^ 31 * 2 ^ (e - 31) := by
  rw [← zpow_natCast, ← zpow_add₀ two_ne_zero]
  congr 1
  omega

theorem log_number {f : Nat} (h : f < 2 ^ 31) (e : Int) : Int.log 2 (number f e) = e := by
  have hf : (f : ℚ) < 2 ^ 31 := by exact_mod_cast h
  apply log_eq_of_le_of_lt
  · rw [number, two_zpow_eq_mul e]
    exact mul_le_mul_of_nonneg_right (le_add_of_nonneg_right f.cast_nonneg) (by positivity)
  · rw [number, zpow_add_one₀ two_ne_zero, two_zpow_eq_mul e]
    have hgrid : (0 : ℚ) < 2 ^ (e - 31) := by positivity
    nlinarith

/-- The fraction and the exponent of a number are its own. -/
theorem number_inj {f f' : Nat} {e e' : Int} (hf : f < 2 ^ 31) (hf' : f' < 2 ^ 31)
    (h : number f e = number f' e') : f = f' ∧ e = e' := by
  have hexponent : e = e' := by rw [← log_number hf e, h, log_number hf' e']
  subst hexponent
  have hsum : (2 ^ 31 + f : ℚ) = 2 ^ 31 + f' := mul_right_cancel₀ (by positivity) h
  exact ⟨by exact_mod_cast add_left_cancel hsum, rfl⟩

/-- A number of 31 fraction bits is not changed. -/
theorem halfUp_number {f : Nat} (h : f < 2 ^ 31) (e : Int) : halfUp (number f e) = number f e := by
  have hscaled : scaled (number f e) = (2 ^ 31 + f : Nat) := by
    rw [scaled, log_number h, number, mul_assoc, ← zpow_add₀ two_ne_zero, show e - 31 + (31 - e) = 0 by omega,
      zpow_zero]
    push_cast
    ring
  rw [halfUp, log_number h, hscaled, ← Int.cast_natCast, Int.floor_intCast_add]
  norm_num [number]

/-- The fraction of a positive magnitude to the nearest whole number, before a carry. -/
def nearestFraction (v : Magnitude) : Nat :=
  ((v.significand - 2 ^ v.significand.log2) * 2 ^ 32 + 2 ^ v.significand.log2) / (2 * 2 ^ v.significand.log2)

theorem round_of_nearestFraction (v : Magnitude) :
    round v = if nearestFraction v < 2 ^ 31 then (nearestFraction v, v.leadingExponent)
      else (0, v.leadingExponent + 1) := rfl

theorem nearestFraction_le {v : Magnitude} : nearestFraction v ≤ 2 ^ 31 := by
  have hmost : v.significand < 2 ^ v.significand.log2 * 2 := by
    rw [← Nat.pow_succ]
    exact Nat.lt_log2_self
  refine Nat.le_of_lt_succ (Nat.div_lt_of_lt_mul ?_)
  omega

/-- The rounded significand is the leading one and the fraction. -/
theorem floor_scaled {v : Magnitude} (h : v.significand ≠ 0) :
    ⌊scaled v.rational + 1 / 2⌋ = (2 ^ 31 + nearestFraction v : Nat) := by
  have hleast : 2 ^ v.significand.log2 ≤ v.significand := Nat.log2_self_le h
  have hscaled : scaled v.rational + 1 / 2 =
      ((v.significand * 2 ^ 32 + 2 ^ v.significand.log2 : Nat) : ℚ) / (2 * 2 ^ v.significand.log2 : Nat) := by
    rw [scaled, v.log_rational h, Magnitude.rational, Magnitude.leadingExponent, mul_assoc, ← zpow_add₀ two_ne_zero,
      show v.exponent + (31 - (v.exponent + v.significand.log2)) = (31 : Nat) - (v.significand.log2 : Int) by omega,
      zpow_sub₀ two_ne_zero, zpow_natCast, zpow_natCast]
    push_cast
    field_simp
    ring
  have hsplit : v.significand * 2 ^ 32 + 2 ^ v.significand.log2 =
      (v.significand - 2 ^ v.significand.log2) * 2 ^ 32 + 2 ^ v.significand.log2 +
        2 ^ 31 * (2 * 2 ^ v.significand.log2) := by
    omega
  rw [hscaled, Rat.floor_natCast_div_natCast, ← Int.natCast_div, hsplit,
    Nat.add_mul_div_right _ _ (by positivity), Nat.add_comm, nearestFraction]

/-- What a positive magnitude is rounded to. -/
theorem number_round {v : Magnitude} (h : v.significand ≠ 0) :
    (round v).1 < 2 ^ 31 ∧ number (round v).1 (round v).2 = halfUp v.rational := by
  have hhalfUp : halfUp v.rational = number (nearestFraction v) v.leadingExponent := by
    rw [halfUp, floor_scaled h, v.log_rational h, number]
    push_cast
    rfl
  rw [round_of_nearestFraction, hhalfUp]
  split
  next hfits => exact ⟨hfits, rfl⟩
  next hcarry =>
    have hfull : nearestFraction v = 2 ^ 31 := Nat.le_antisymm nearestFraction_le (Nat.not_lt.mp hcarry)
    refine ⟨Nat.two_pow_pos 31, ?_⟩
    rw [hfull, number, number, show v.leadingExponent + 1 - 31 = v.leadingExponent - 31 + 1 by omega,
      zpow_add_one₀ two_ne_zero]
    push_cast
    ring

/-! ## Bytes -/

theorem exists_bytes {stored : List UInt8} (h : stored.length = size) :
    ∃ f e, f < 2 ^ 32 ∧ minExponent ≤ e ∧ e ≤ maxExponent ∧ stored = bytes f e := by
  match stored, h with
  | [i, a, b, c, d], _ =>
    have hi := i.toNat_lt
    have ha := a.toNat_lt
    have hb := b.toNat_lt
    have hc := c.toNat_lt
    have hd := d.toNat_lt
    refine ⟨((a.toNat * 256 + b.toNat) * 256 + c.toNat) * 256 + d.toNat, i.toNat + minExponent, ?_, ?_, ?_, ?_⟩
    · omega
    · omega
    · unfold minExponent maxExponent
      omega
    · simp only [bytes, List.cons.injEq, and_true, ← UInt8.toNat_inj, UInt8.toNat_ofNat', twoTo_eq]
      omega

theorem decode_bytes {f : Nat} {e : Int} (hf : f < 2 ^ 32) (hleast : minExponent ≤ e) (hmost : e ≤ maxExponent) :
    decode (bytes f e) = .ok (if f = 0 ∧ e = minExponent then .zero else ⟨2 ^ 31 + f, e - 31⟩) := by
  have hbytes : (bytes f e).all (· == 0) = true ↔ f = 0 ∧ e = minExponent := by
    unfold minExponent maxExponent at *
    simp only [bytes, List.all_cons, List.all_nil, Bool.and_true, Bool.and_eq_true, beq_iff_eq,
      ← UInt8.toNat_inj, UInt8.toNat_ofNat', twoTo_eq, minExponent, UInt8.toNat_zero]
    omega
  unfold bytes at hbytes ⊢
  rw [decode]
  by_cases hzero : f = 0 ∧ e = minExponent
  · rw [if_pos (hbytes.mpr hzero), if_pos hzero]
  · rw [if_neg (mt hbytes.mp hzero), if_neg hzero]
    unfold minExponent maxExponent at *
    simp only [UInt8.toNat_ofNat', twoTo_eq, Except.ok.injEq, Magnitude.mk.injEq]
    omega

theorem unsigned_bytes_iff {f : Nat} (h : f < 2 ^ 32) (e : Int) : Unsigned (bytes f e) ↔ f < 2 ^ 31 := by
  have hsign : (f / twoTo 24 % 256).testBit 7 = decide (2 ^ 31 ≤ f) := by
    rw [Nat.testBit_eq_decide_div_mod_eq, twoTo_eq, decide_eq_decide]
    omega
  simp [Unsigned, bytes, hsign, size]

/-- What the bytes of a number stand for: the number, if they are not all zero. -/
theorem rational_of_decode {f : Nat} {e : Int} {w : Magnitude} (hf : f < 2 ^ 32) (hleast : minExponent ≤ e)
    (hmost : e ≤ maxExponent) (h : decode (bytes f e) = .ok w) :
    w.rational = if f = 0 ∧ e = minExponent then 0 else number f e := by
  rw [decode_bytes hf hleast hmost] at h
  rw [← Except.ok.inj h]
  split
  · simp [Magnitude.rational, Magnitude.zero]
  · norm_num [Magnitude.rational, number]

/-! ## Values and bytes -/

section

variable {value : Binary64} {x : ℚ}

theorem encode_of_zero (hx : value.rational? = some 0) : encode value = .ok (List.replicate size 0) := by
  match value, hx with
  | .finite negative v, hx =>
    have hzero : v.rational = 0 := by
      cases negative <;> simpa [Binary64.rational?] using hx
    rw [encode, if_pos (by rw [v.rational_eq_zero_iff.mp hzero]; rfl)]

/-- A positive value is rounded, and stored if the exponent is in range then. -/
theorem encode_of_pos (hx : value.rational? = some x) (hpos : 0 < x) :
    ∃ f e, f < 2 ^ 31 ∧ number f e = halfUp x ∧ encode value =
      if e < minExponent ∨ maxExponent < e then .error (.outOfRange value e) else .ok (bytes f e) := by
  match value, hx with
  | .finite true v, hx =>
    have hneg : -v.rational = x := Option.some.inj hx
    linarith [v.rational_nonneg]
  | .finite false v, hx =>
    obtain rfl : v.rational = x := Option.some.inj hx
    have hne : v.significand ≠ 0 := mt v.rational_eq_zero_iff.mpr hpos.ne'
    obtain ⟨hfits, hnumber⟩ := number_round hne
    rw [encode, if_neg (by simpa using hne), if_neg Bool.false_ne_true]
    generalize round v = rounded at hfits hnumber ⊢
    obtain ⟨f, e⟩ := rounded
    exact ⟨f, e, hfits, hnumber, by simp only [Bool.or_eq_true, decide_eq_true_eq]⟩

theorem encode_eq_ok_iff (hx : value.rational? = some x) (hpos : 0 < x) {stored : List UInt8} :
    encode value = .ok stored ↔ ∃ f e, f < 2 ^ 31 ∧ number f e = halfUp x ∧
      minExponent ≤ e ∧ e ≤ maxExponent ∧ stored = bytes f e := by
  obtain ⟨f, e, hf, hnumber, hencode⟩ := encode_of_pos hx hpos
  rw [hencode]
  split
  next hout =>
    refine ⟨nofun, fun ⟨f', e', hf', hnumber', hleast, hmost, _⟩ => ?_⟩
    obtain ⟨-, rfl⟩ := number_inj hf hf' (hnumber.trans hnumber'.symm)
    omega
  next hin =>
    constructor
    · intro h
      exact ⟨f, e, hf, hnumber, by omega, by omega, (Except.ok.inj h).symm⟩
    · rintro ⟨f', e', hf', hnumber', -, -, rfl⟩
      obtain ⟨rfl, rfl⟩ := number_inj hf hf' (hnumber.trans hnumber'.symm)
      rfl

end

/-- Only finite values that are not negative are stored. -/
theorem exists_rational_of_encode {value : Binary64} {stored : List UInt8} (h : encode value = .ok stored) :
    ∃ x, value.rational? = some x ∧ 0 ≤ x := by
  match value, h with
  | .finite false v, _ => exact ⟨v.rational, rfl, v.rational_nonneg⟩
  | .finite true v, h =>
    refine ⟨-v.rational, rfl, ?_⟩
    by_cases hzero : v.significand = 0
    · rw [v.rational_eq_zero_iff.mpr hzero, neg_zero]
    · rw [encode, if_neg (by simpa using hzero), if_pos rfl] at h
      cases h

/-- What is stored has no sign. -/
theorem unsigned_of_encode {value : Binary64} {stored : List UInt8} (h : encode value = .ok stored) :
    Unsigned stored := by
  obtain ⟨x, hx, hnonneg⟩ := exists_rational_of_encode h
  rcases hnonneg.eq_or_lt with rfl | hpos
  · rw [← Except.ok.inj ((encode_of_zero hx).symm.trans h)]
    decide
  · obtain ⟨f, e, hf, -, -, -, rfl⟩ := (encode_eq_ok_iff hx hpos).mp h
    exact (unsigned_bytes_iff (by omega) e).mpr hf

/-- Five bytes whose sign bit is clear are what is stored of the value they stand for, and no others are. -/
theorem encode_decode_iff {stored : List UInt8} (h : stored.length = size) :
    ∃ w, decode stored = .ok w ∧
      ∀ value : Binary64, value.rational? = some w.rational → (encode value = .ok stored ↔ Unsigned stored) := by
  obtain ⟨f, e, hf, hleast, hmost, rfl⟩ := exists_bytes h
  refine ⟨_, decode_bytes hf hleast hmost, fun value hvalue => ⟨unsigned_of_encode, fun hunsigned => ?_⟩⟩
  rw [rational_of_decode hf hleast hmost (decode_bytes hf hleast hmost)] at hvalue
  rw [unsigned_bytes_iff hf] at hunsigned
  split at hvalue
  next hzero =>
    obtain ⟨rfl, rfl⟩ := hzero
    exact encode_of_zero hvalue
  next =>
    rw [encode_eq_ok_iff hvalue (number_pos f e)]
    exact ⟨f, e, hunsigned, (halfUp_number hunsigned e).symm, hleast, hmost, rfl⟩

/-- Decoding and encoding again gives the same five bytes if and only if their sign bit is clear; so what is
stored of a value stays, however often it is decoded and stored again. -/
theorem encode_decode :
    (∀ stored : List UInt8, stored.length = size → ∃ w, decode stored = .ok w ∧ ∀ value : Binary64,
      value.rational? = some w.rational → (encode value = .ok stored ↔ Unsigned stored)) ∧
    ∀ (first : Binary64) (stored : List UInt8), encode first = .ok stored → ∃ w, decode stored = .ok w ∧
      ∀ again : Binary64, again.rational? = some w.rational → encode again = .ok stored := by
  refine ⟨fun stored => encode_decode_iff, fun first stored h => ?_⟩
  obtain ⟨w, hdecode, hiff⟩ := encode_decode_iff (length_encode h)
  exact ⟨w, hdecode, fun again hagain => (hiff again hagain).mpr (unsigned_of_encode h)⟩

/-- One with its sign bit set is read as two, whose bytes differ. The least power of two is stored as zero is,
and zero stays. -/
theorem encode_decode_sample :
    (∃ w, decode [0x81, 0x80, 0, 0, 0] = .ok w ∧ encode (.finite false w) ≠ .ok [0x81, 0x80, 0, 0, 0]) ∧
      ∃ w, decode [0, 0, 0, 0, 0] = .ok w ∧ encode (.finite false w) = .ok [0, 0, 0, 0, 0] := by
  constructor
  · obtain ⟨w, hdecode, hiff⟩ := encode_decode.1 [0x81, 0x80, 0, 0, 0] rfl
    exact ⟨w, hdecode, mt (hiff (.finite false w) rfl).mp (by decide)⟩
  · obtain ⟨w, hdecode, hagain⟩ := encode_decode.2 (.finite false ⟨1, -129⟩) [0, 0, 0, 0, 0] (by decide)
    exact ⟨w, hdecode, hagain (.finite false w) rfl⟩

end StoredNumber

end TapeBasic
