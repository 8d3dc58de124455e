import TapeBasic.Listing.Piece
import TapeBasic.Literal

/-!
# What could go wrong while a line is shown

Showing a line looks up tokens, takes texts for numbers, and rounds and decodes stored numbers. Each of these steps
fails where it is given the wrong thing, which is a slip. A line is shown by one rule for slips or the other: a slip
ends the showing, or it is passed over and the step has a default result.
-/
namespace TapeBasic

/-- What could go wrong while a line is shown. -/
inductive Slip where
  /-- A stored number has too few bytes. -/
  | cutShort (failure : CutShort)
  /-- A text has no token. -/
  | missing (why : Grammar.Missing)
  /-- Bytes are no stored number, or a value cannot be stored for another reason than its size. -/
  | number (failure : StoredNumber.Failure)
  /-- A text that is taken for a number is no literal. -/
  | noLiteral (text : List Char)
deriving DecidableEq, Repr

namespace Slip

/-- What becomes of a step that may slip. -/
structure Rule (m : Type → Type) where
  /-- Goes on with the result of a step, or else with a default or not at all. -/
  take : {α : Type} → α → Except Slip α → m α

/-- A slip ends the showing. -/
def kept : Rule (Except Slip) := ⟨fun _ result => result⟩

/-- A slip is passed over. -/
def ignored : Rule Id := ⟨fun default result => result.toOption.getD default⟩

end Slip

/-! ## Steps that may slip -/

namespace Literal

/-- The value of a text, which must be a literal from end to end (`float`). -/
def checkedValue (text : List Char) : Except Slip Binary64 :=
  if text.isEmpty || width text != text.length then .error (.noLiteral text) else .ok (value text)

/-- Whether a literal, with the text that follows it, reads back as the stored number (`_literal_matches`); a value that
is out of range does not. -/
def checkedReadsBackAs (literal following : List Char) (stored : List UInt8) : Except Slip Bool :=
  if width (literal ++ following) == literal.length then
    match checkedValue literal with
    | .error slip => .error slip
    | .ok value =>
      match StoredNumber.encode value with
      | .ok bytes => .ok (bytes == stored)
      | .error (.wrongSize n) => .error (.number (.wrongSize n))
      | .error (.unstorable _) => .ok false
      | .error (.outOfRange _ _) => .ok false
  else .ok false

end Literal

namespace Piece

/-- The exact value of a stored number, which must have five bytes (`decode_float`). -/
def checkedStoredValue (stored : List UInt8) : Except Slip Magnitude :=
  match StoredNumber.decode stored with
  | .ok value => .ok value
  | .error failure => .error (.number failure)

/-- Whether a text that starts with the piece is read as the piece. The token is looked up only where the match is as
long as the piece. -/
def checkedReadsBack (p : Piece) (text : List Char) : Except Slip Bool :=
  match Grammar.statement.width? text with
  | none => .ok false
  | some width =>
    if width == p.text.length then
      match Grammar.statement.lookup (text.take width) with
      | .ok b => .ok (b == p.byte)
      | .error why => .error (.missing why)
    else .ok false

end Piece

end TapeBasic
