import TapeBasic.Binary64
import TapeBasic.Decimal.Layout

/-!
# Decimal digits of a binary value

* `shortest` gives the fewest digits that read back as the value, the nearest of those.
* `rounded` gives a fixed number of digits of the exact value.
-/
namespace TapeBasic.Decimal

/-- Everything from `low / den` to `high / den` reads back as one value, the ends only if `closed`. -/
structure Interval where
  low : Nat
  high : Nat
  den : Nat
  closed : Bool

namespace Interval

/-- Whether the interval holds `num / d`. -/
def holds (i : Interval) (num d : Nat) : Bool :=
  if i.closed then i.low * d ≤ num * i.den && num * i.den ≤ i.high * d
  else i.low * d < num * i.den && num * i.den < i.high * d

/-- The numbers that read back as a positive canonical magnitude: up to half way to its neighbours, of
which the lower one is nearer when the significand is a power of two. -/
def around (v : Magnitude) : Interval :=
  let below := if v.significand == twoTo 52 && -1074 < v.exponent then 1 else 2
  let scale := twoTo v.exponent.toNat
  { low := (4 * v.significand - below) * scale
    high := (4 * v.significand + 2) * scale
    den := 4 * v.den
    closed := v.significand % 2 == 0 }

end Interval

/-- The multiple `k` of `10 ^ unit`, as digits. -/
def gridDigits (k : Nat) (unit : Int) : Digits :=
  let text := Text.decimal k
  ⟨text, unit + (text.length - 1 : Nat)⟩

/-- The multiple of `10 ^ unit` nearest to the value among its two neighbours that read back as it. -/
def onGrid? (v : Magnitude) (unit : Int) : Option Digits :=
  let up := tenTo unit.toNat
  let down := tenTo (-unit).toNat
  let interval := Interval.around v
  let below := v.num * down / (v.den * up)
  let fits (k : Nat) : Bool := interval.holds (k * up) down
  match fits below, fits (below + 1) with
  | false, false => none
  | true, false => some (gridDigits below unit)
  | false, true => some (gridDigits (below + 1) unit)
  | true, true => some (gridDigits (roundHalfEven (v.num * down) (v.den * up)) unit)

/-- The fewest digits, from `count` on, that read back as the value. -/
def shortestFrom (v : Magnitude) (leading : Int) (count : Nat) : (fuel : Nat) → Digits
  | 0 => gridDigits (roundHalfEven v.num v.den) 0
  | fuel + 1 =>
    match onGrid? v (leading - count + 1) with
    | some digits => digits
    | none => shortestFrom v leading (count + 1) fuel

/-- The fewest digits that read back as a positive magnitude; 17 always do. -/
def shortest (v : Magnitude) : Digits :=
  let c := v.canonical
  (shortestFrom c (floorLog10 c.num c.den) 1 17).trimZeros

/-- The `count` leading digits of a positive magnitude; a half goes to the even digit. -/
def rounded (count : Nat) (v : Magnitude) : Digits :=
  let unit : Int := floorLog10 v.num v.den - count + 1
  gridDigits (roundHalfEven (v.num * tenTo (-unit).toNat) (v.den * tenTo unit.toNat)) unit

/-- The value with the fewest digits: positional from a ten-thousandth up to sixteen digits, a whole
number with a point and a zero. -/
def exactLayout : Layout := ⟨-4, 16, true⟩

/-- The value with up to ten digits: positional from a ten-thousandth up to ten digits, without zeros
at the end. -/
def briefLayout : Layout := ⟨-4, 10, false⟩

/-- A magnitude with the fewest digits that read back. -/
def exactMagnitude (v : Magnitude) : List Char :=
  if v.significand == 0 then exactLayout.zero else exactLayout.write (shortest v)

/-- A magnitude with at most ten digits. -/
def briefMagnitude (v : Magnitude) : List Char :=
  if v.significand == 0 then briefLayout.zero else briefLayout.write (rounded 10 v).trimZeros

end TapeBasic.Decimal

namespace TapeBasic

/-- The value as messages show it. -/
def Binary64.text (value : Binary64) : List Char :=
  let signed (negative : Bool) (text : List Char) : List Char := if negative then '-' :: text else text
  match value with
  | .finite negative v => signed negative (Decimal.exactMagnitude v)
  | .infinite negative => signed negative "inf".toList
  | .notANumber => "nan".toList

end TapeBasic
