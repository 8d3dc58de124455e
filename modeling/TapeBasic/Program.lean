import TapeBasic.Token

/-!
# Programs

A program is a row of line records: the line number with its high byte first, the size of the payload
with its low byte first, and the payload, which ends with the line end token.
-/
namespace TapeBasic

/-- A line of a program as it is stored. -/
structure LineRecord where
  number : Nat
  payload : List UInt8
deriving DecidableEq, Repr

/-- The two bytes of a number, the low one first. -/
def lowHigh (n : Nat) : List UInt8 := [UInt8.ofNat n, UInt8.ofNat (n / 256)]

/-- The two bytes of a number, the high one first. -/
def highLow (n : Nat) : List UInt8 := [UInt8.ofNat (n / 256), UInt8.ofNat n]

/-- The number of two bytes. -/
def word (high low : UInt8) : Nat := 256 * high.toNat + low.toNat

namespace LineRecord

/-- The size of a record. -/
def size (r : LineRecord) : Nat := 4 + r.payload.length

/-- The bytes of a record. -/
def bytes (r : LineRecord) : List UInt8 := highLow r.number ++ lowHigh r.payload.length ++ r.payload

theorem length_bytes (r : LineRecord) : r.bytes.length = r.size := by
  simp [bytes, size, highLow, lowHigh]; omega

end LineRecord

/-- The bytes of a program. -/
def programBytes (records : List LineRecord) : List UInt8 := records.flatMap LineRecord.bytes

end TapeBasic
