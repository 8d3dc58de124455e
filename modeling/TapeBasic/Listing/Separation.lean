import TapeBasic.Listing.Slip

/-!
# Keeping neighbouring tokens apart (`_separate_merging_tokens`)

The text of a token may merge with the text behind it: `<` in front of `=`, letters that spell a
keyword, `RND` in front of a letter. Every piece of statement text that would not be read back as its
own token is written in brackets. That changes what the pieces in front of it are followed by, so the
check is repeated until nothing changes.

* `Piece.separateWith` repeats the check by a rule for slips (`_separate_merging_tokens`).
* `Piece.separateBehindFirst` keeps a line apart, `Piece.checkedSeparateBehindFirst` stops at a slip.
-/
namespace TapeBasic.Piece

/-- Whether the piece is read back from its spelling: statement text that is neither a quotation mark
nor written in brackets. -/
def isOpen (p : Piece) : Bool :=
  p.inStatement && !p.text.isEmpty && p.text.head? != some '[' && p.byte != Token.quote

/-- The piece in brackets, by its name or its number. -/
def enclosed (p : Piece) : Piece :=
  { p with text := if Token.isAmbiguous p.byte then Token.bracketed p.byte else Token.code p.byte }

/-- Whether a text that starts with the piece is read as the piece. -/
def readsBack (p : Piece) (text : List Char) : Bool := Slip.ignored.take false (checkedReadsBack p text)

/-- The number of pieces that are read back from their spelling. -/
def openCount (pieces : List Piece) : Nat := pieces.countP isOpen

section Rules

variable {m : Type → Type} [Monad m] (rule : Slip.Rule m)

/-- The piece as it is written in front of a text. -/
def separatedWith (p : Piece) (text : List Char) : m Piece :=
  if p.isOpen then do
    let same ← rule.take false (checkedReadsBack p text)
    pure (if same then p else p.enclosed)
  else pure p

/-- Checks every piece against the text from it to the line end. The second part is that text. -/
def separatePassWith : List Piece → m (List Piece × List Char)
  | [] => pure ([], ['\n'])
  | p :: pieces => do
    let (checked, behind) ← separatePassWith pieces
    let q ← separatedWith rule p (p.text ++ behind)
    pure (q :: checked, p.text ++ behind)

/-- Repeats the check as long as it closes a piece (`_separate_merging_tokens`). -/
def separateWith (pieces : List Piece) : m (List Piece) := do
  let (checked, _) ← separatePassWith rule pieces
  if openCount checked < openCount pieces then separateWith checked else pure pieces
termination_by openCount pieces

/-- Keeps the pieces behind the first apart. -/
def separateBehindFirstWith : List Piece → m (List Piece)
  | [] => pure []
  | first :: rest => do
    let apart ← separateWith rule rest
    pure (first :: apart)

end Rules

/-- The piece as it is written in front of a text. -/
def separated (p : Piece) (text : List Char) : Piece := separatedWith Slip.ignored p text

/-- Checks every piece against the text from it to the line end. -/
def separatePass (pieces : List Piece) : List Piece × List Char := separatePassWith Slip.ignored pieces

/-- Repeats the check as long as it closes a piece. -/
def separate (pieces : List Piece) : List Piece := separateWith Slip.ignored pieces

/-- Repeats the check, up to the first slip. -/
def checkedSeparate (pieces : List Piece) : Except Slip (List Piece) := separateWith Slip.kept pieces

/-- Keeps the pieces behind the first apart. -/
def separateBehindFirst (pieces : List Piece) : List Piece := separateBehindFirstWith Slip.ignored pieces

/-- Keeps the pieces behind the first apart, up to the first slip. -/
def checkedSeparateBehindFirst (pieces : List Piece) : Except Slip (List Piece) :=
  separateBehindFirstWith Slip.kept pieces

end TapeBasic.Piece
