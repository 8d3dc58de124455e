import TapeBasic.Journal
import TapeBasic.Listing.Slip

/-!
# Literals and stored numbers in a listing (`_resolve_numbers`)

A stored number is left out of a listing when the literal in front of it reads back as exactly its five
bytes. Otherwise it is written out byte by byte, and digits that would be read as a literal are written
with their numbers.

* `Literal.segments` tells which parts of a run of digits, points and exponents would be read as
  literals (`_scan_literals`).
* `Piece.resolveFromWith` settles the numbers of a line by a rule for slips (`_resolve_numbers`).
* `Piece.resolveNumbers` settles the text of every number of a line, `Piece.checkedResolveFrom` stops at a slip.
-/
namespace TapeBasic

/-! ## Literals in a run of characters -/

namespace Literal

/-- A part of a run: a literal, or one character that belongs to none. -/
structure Segment where
  isLiteral : Bool
  width : Nat
deriving DecidableEq, Repr

/-- Cuts a text into literals and single characters, in reverse order. `inName` says whether a name
goes on at its start. -/
def segmentsFrom (inName : Bool) (text : List Char) (done : List Segment) : List Segment :=
  match text with
  | [] => done
  | c :: rest =>
    let literal := if inName then 0 else width (c :: rest)
    if 0 < literal then
      segmentsFrom inName (rest.drop (literal - 1)) (⟨true, literal⟩ :: done)
    else
      segmentsFrom (c.isAlpha || (c.isDigit && inName)) rest (⟨false, 1⟩ :: done)
termination_by text.length
decreasing_by all_goals (simp only [List.length_cons, List.length_drop]; omega)

/-- The literals and single characters of a text, from left to right (`_scan_literals`). -/
def segments (inName : Bool) (text : List Char) : List Segment :=
  (segmentsFrom inName text []).reverse

/-- Whether a literal, with the text that follows it, reads back as the stored number (`_literal_matches`). -/
def readsBackAs (literal following : List Char) (stored : List UInt8) : Bool :=
  Slip.ignored.take false (checkedReadsBackAs literal following stored)

end Literal

/-! ## Settling the numbers of a line -/

namespace Piece

/-- Whether a token can be part of a literal: a digit, a point, the letter E or a sign (`_LITERAL_BYTES`). -/
def isLiteralToken (b : UInt8) : Bool :=
  Token.isDigit b || b == 0x1B || b == 0x2A || b == 0x15 || b == 0x16

/-- Whether the piece can be part of a literal. -/
def inRun (p : Piece) : Bool := p.inStatement && isLiteralToken p.byte

/-- The piece written with its number (`_bracket_bytes`). -/
def coded (p : Piece) : Piece := { p with text := Token.code p.byte }

/-- The exact value of a stored number. -/
def storedValue (stored : List UInt8) : Magnitude := Slip.ignored.take .zero (checkedStoredValue stored)

/-- A stored number of a value written out: its mark, its bytes and its value as a comment (`_explicit_number`). -/
def numberText (stored : List UInt8) (value : Magnitude) : List Char :=
  Token.code Token.number ++ stored.flatMap Token.code ++
    "[#".toList ++ Decimal.briefMagnitude value ++ "]".toList

/-- A stored number written out. -/
def explicitNumber (stored : List UInt8) : List Char := numberText stored (storedValue stored)

/-- The pieces of a run, with those of its literals written with their numbers. -/
def codeLiterals : List Literal.Segment → List Piece → List Piece
  | [], run => run
  | segment :: segments, run =>
    let part := run.take segment.width
    (if segment.isLiteral then part.map coded else part) ++
      codeLiterals segments (run.drop segment.width)

/-- A run that no stored number follows: its literals are written with their numbers. -/
def settleRun (inName : Bool) (run : List Piece) : List Piece :=
  codeLiterals (Literal.segments inName (join run)) run

/-- Whether a name goes on behind the last of the finished pieces. -/
def endsInName (done : List Piece) : Bool :=
  done.head?.any fun p => p.inStatement && Token.isLetter p.byte

section Rules

variable {m : Type → Type} [Monad m] (rule : Slip.Rule m)

/-- A run and the stored number behind it: the pieces of both, and whether they differ. Only a literal
at the end of the run can stand for the number. -/
def settleNumberWith (inName : Bool) (run : List Piece) (number : Piece) (stored : List UInt8)
    (following : List Char) : m (List Piece × Journal) :=
  let segments := Literal.segments inName (join run)
  match segments.getLast? with
  | some ⟨true, width⟩ => do
    let front := run.take (run.length - width)
    let final := run.drop (run.length - width)
    let settled := codeLiterals segments.dropLast front
    let same ← rule.take false (Literal.checkedReadsBackAs (join final) following stored)
    if same then pure (settled ++ final ++ [number], [])
    else
      let value ← rule.take .zero (checkedStoredValue stored)
      pure (settled ++ final.map coded ++ [{ number with text := numberText stored value }],
        [.numberDiffers value (join final)])
  | _ => do
    let value ← rule.take .zero (checkedStoredValue stored)
    pure (codeLiterals segments run ++ [{ number with text := numberText stored value }], [])

/-- Settles the numbers of the rest of a line (`_resolve_numbers`). `done` holds the finished pieces
in reverse order. -/
def resolveFromWith (pieces done : List Piece) (events : Journal) : m (List Piece × Journal) :=
  match pieces with
  | [] => pure (done.reverse, events)
  | p :: rest =>
    if p.inRun then
      let run := p :: rest.takeWhile inRun
      let inName := endsInName done
      match hafter : rest.dropWhile inRun with
      | [] => pure (((settleRun inName run).reverse ++ done).reverse, events)
      | q :: behind =>
        have : behind.length + 1 ≤ rest.length :=
          List.length_cons ▸ hafter ▸ (List.dropWhile_sublist inRun).length_le
        match q.stored with
        | some stored => do
          let (settled, new) ← settleNumberWith rule inName run q stored (join behind)
          resolveFromWith behind (settled.reverse ++ done) (events ++ new)
        | none => resolveFromWith (q :: behind) ((settleRun inName run).reverse ++ done) events
    else
      match p.stored with
      | some stored => do
        let value ← rule.take .zero (checkedStoredValue stored)
        resolveFromWith rest ({ p with text := numberText stored value } :: done) events
      | none => resolveFromWith rest (p :: done) events
termination_by pieces.length
decreasing_by all_goals (simp only [List.length_cons]; omega)

end Rules

/-- A run and the stored number behind it. -/
def settleNumber (inName : Bool) (run : List Piece) (number : Piece) (stored : List UInt8)
    (following : List Char) : List Piece × Journal :=
  settleNumberWith Slip.ignored inName run number stored following

/-- A run and the stored number behind it, or the first slip. -/
def checkedSettleNumber (inName : Bool) (run : List Piece) (number : Piece) (stored : List UInt8)
    (following : List Char) : Except Slip (List Piece × Journal) :=
  settleNumberWith Slip.kept inName run number stored following

/-- Settles the numbers of the rest of a line. -/
def resolveFrom (pieces done : List Piece) (events : Journal) : List Piece × Journal :=
  resolveFromWith Slip.ignored pieces done events

/-- Settles the numbers of the rest of a line, up to the first slip. -/
def checkedResolveFrom (pieces done : List Piece) (events : Journal) : Except Slip (List Piece × Journal) :=
  resolveFromWith Slip.kept pieces done events

/-- Settles the text of every literal and stored number of a line. -/
def resolveNumbers (pieces : List Piece) : List Piece × Journal := resolveFrom pieces [] []

end Piece

end TapeBasic
