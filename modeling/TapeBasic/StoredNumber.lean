import TapeBasic.Decimal.Shortest

/-!
# Numbers in five bytes (`encode_float`, `decode_float`)

A numeric literal of a program is followed by its value in five bytes: the binary exponent plus 129,
then 31 bits of fraction, the leading one left out. The top bit of the second byte would hold the
sign; literals are never negative. Five zero bytes are zero.

* `StoredNumber.encode` rounds a value to the nearest stored number, a half upwards.
* `StoredNumber.decode` gives the exact value of five bytes.
-/
namespace TapeBasic.StoredNumber

/-- The number of bytes of a stored number (`FLOAT_SIZE`). -/
def size : Nat := 5

/-- The least binary exponent (`MIN_EXPONENT`). -/
def minExponent : Int := -129

/-- The greatest binary exponent (`MAX_EXPONENT`). -/
def maxExponent : Int := 126

/-- Why a value or a row of bytes is no stored number. -/
inductive Failure where
  /-- A negative value, an infinity or no number at all. -/
  | unstorable (value : Binary64)
  /-- The binary exponent of the rounded value is out of range. -/
  | outOfRange (value : Binary64) (exponent : Int)
  /-- Not five bytes. -/
  | wrongSize (size : Nat)
deriving DecidableEq, Repr

/-- What the failure says. -/
def Failure.message : Failure → List Char
  | .unstorable value => "Number ".toList ++ value.text ++ " cannot be stored as ZX81 float".toList
  | .outOfRange value exponent =>
    "Number ".toList ++ value.text ++ " out of ZX81 float range (exponent ".toList ++
      Text.signedDecimal exponent ++ " not in ".toList ++ Text.signedDecimal minExponent ++
      "..".toList ++ Text.signedDecimal maxExponent ++ ")".toList
  | .wrongSize n =>
    "ZX81 float needs ".toList ++ Text.decimal size ++ " bytes, got ".toList ++ Text.decimal n

/-- A positive magnitude rounded to 31 fraction bits: the fraction, which a carry may have emptied,
and the binary exponent. -/
def round (v : Magnitude) : Nat × Int :=
  let unit := twoTo v.significand.log2
  let fraction := ((v.significand - unit) * twoTo 32 + unit) / (2 * unit)
  if fraction < twoTo 31 then (fraction, v.leadingExponent) else (0, v.leadingExponent + 1)

/-- The five bytes of a fraction and an exponent in range. -/
def bytes (fraction : Nat) (exponent : Int) : List UInt8 :=
  [ UInt8.ofNat (exponent - minExponent).toNat, UInt8.ofNat (fraction / twoTo 24),
    UInt8.ofNat (fraction / twoTo 16), UInt8.ofNat (fraction / twoTo 8), UInt8.ofNat fraction ]

/-- The stored number nearest to a value (`encode_float`). -/
def encode (value : Binary64) : Except Failure (List UInt8) :=
  match value with
  | .infinite _ => .error (.unstorable value)
  | .notANumber => .error (.unstorable value)
  | .finite negative v =>
    if v.significand == 0 then .ok (List.replicate size 0)
    else if negative then .error (.unstorable value)
    else
      let (fraction, exponent) := round v
      if exponent < minExponent || maxExponent < exponent then .error (.outOfRange value exponent)
      else .ok (bytes fraction exponent)

/-- The exact value of five bytes; the sign bit counts as the top bit of the fraction (`decode_float`). -/
def decode : List UInt8 → Except Failure Magnitude
  | [e, a, b, c, d] =>
    if [e, a, b, c, d].all (· == 0) then .ok .zero
    else
      let fraction := ((a.toNat * 256 + b.toNat) * 256 + c.toNat) * 256 + d.toNat
      .ok ⟨twoTo 31 + fraction, e.toNat + minExponent - 31⟩
  | other => .error (.wrongSize other.length)

end TapeBasic.StoredNumber
