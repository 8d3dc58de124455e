import TapeBasic.Grammar
import TapeBasic.StoredNumber

/-!
# The pieces of a line (`_Piece`)

A stored line is shown piece by piece. A piece is one token, or a stored number with its mark, which
needs no text of its own when the literal in front of it says the same. `Piece.scan` cuts the tokens of
a line into pieces and spells each of them.
-/
namespace TapeBasic

/-- A piece of a line and the text that shows it (`_Piece`). -/
structure Piece where
  byte : UInt8
  text : List Char
  /-- Whether the piece is statement text: neither in a remark nor in a string. -/
  inStatement : Bool
  /-- The five bytes of a stored number. -/
  stored : Option (List UInt8) := none
deriving DecidableEq, Repr

/-- The text of pieces in a row. -/
def Piece.join (pieces : List Piece) : List Char := pieces.flatMap Piece.text

/-- A stored number with too few bytes behind its mark. -/
structure CutShort where
  /-- The place of the mark among the tokens. -/
  index : Nat
  /-- The number of bytes behind it. -/
  count : Nat
deriving DecidableEq, Repr

/-- What the failure says. -/
def CutShort.message (failure : CutShort) : List Char :=
  "Number at token ".toList ++ Text.decimal failure.index ++ " cut short (".toList ++
    Text.decimal failure.count ++ " of ".toList ++ Text.decimal StoredNumber.size ++ " bytes)".toList

namespace Piece

/-- Where a token of a line stands. -/
inductive Place where
  | statement
  | remark
  | string
deriving DecidableEq, Repr

/-- A token of a line and where the next one stands. A quotation mark that no other one follows opens
no string, for it could not be read back, and is written with its number. -/
def ofToken (bracketed first : Bool) (place : Place) (b : UInt8) (rest : List UInt8) : Piece × Place :=
  let plain := place == .statement
  let text :=
    if !first && Token.isAmbiguous b && (!plain || bracketed) then Token.bracketed b
    else Token.text b
  if first && b == Token.rem then (⟨b, text, plain, none⟩, .remark)
  else if b == Token.quote && place != .remark then
    if place == .string then (⟨b, text, plain, none⟩, .statement)
    else if rest.contains Token.quote then (⟨b, text, plain, none⟩, .string)
    else (⟨b, Token.code b, plain, none⟩, .statement)
  else (⟨b, text, plain, none⟩, place)

/-- Cuts the rest of a line into pieces. `index` counts the tokens in front of it and `done` holds their
pieces in reverse order. -/
def scanFrom (bracketed : Bool) (index : Nat) (place : Place) (tokens : List UInt8)
    (done : List Piece) : Except CutShort (List Piece) :=
  match tokens with
  | [] => .ok done.reverse
  | b :: rest =>
    if place == .statement && b == Token.number then
      let stored := rest.take StoredNumber.size
      if stored.length < StoredNumber.size then .error ⟨index, stored.length⟩
      else
        scanFrom bracketed (index + 1 + StoredNumber.size) place (rest.drop StoredNumber.size)
          (⟨b, [], true, some stored⟩ :: done)
    else
      let (piece, next) := ofToken bracketed (index == 0) place b rest
      scanFrom bracketed (index + 1) next rest (piece :: done)
termination_by tokens.length
decreasing_by all_goals (simp only [List.length_cons, List.length_drop]; omega)

/-- The pieces of a line (`render_tokens`). Keywords are written in brackets where letters stand for
themselves and, if `bracketed` is set, everywhere but at the start. -/
def scan (bracketed : Bool) (tokens : List UInt8) : Except CutShort (List Piece) :=
  scanFrom bracketed 0 .statement tokens []

end Piece

end TapeBasic
