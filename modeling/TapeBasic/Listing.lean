import TapeBasic.Listing.Numbers
import TapeBasic.Listing.Separation
import TapeBasic.Program

/-!
# Listings of stored programs (`render_tokens`, `decode_program`)

Every line record becomes a line of text that reads back as the record. What cannot be shown becomes a
comment, and the listing goes on with the next record.

* `Listing.renderLine` shows the tokens of one line.
* `Listing.ofProgram` lists a program record by record.
-/
namespace TapeBasic

namespace Listing

/-! ## One line -/

/-- Writes a space at the end of a remark with its number, so that it is seen. -/
def markLastSpace (tokens : List UInt8) (pieces : List Piece) : List Piece :=
  match pieces.getLast? with
  | some last =>
    if tokens.head? == some Token.rem && 1 < pieces.length && last.byte == Token.space then
      pieces.dropLast ++ [last.coded]
    else pieces
  | none => pieces

/-- The text of the pieces of a line, by a rule for slips. -/
def showWith {m : Type → Type} [Monad m] (rule : Slip.Rule m) (tokens : List UInt8) (pieces : List Piece) :
    m (List Char × Journal) := do
  let (resolved, events) ← Piece.resolveFromWith rule pieces [] []
  let apart ← Piece.separateBehindFirstWith rule resolved
  pure (Piece.join (markLastSpace tokens apart), events)

/-- The text of the tokens of a line, without its number and its line end (`render_tokens`). -/
def renderLine (bracketed : Bool) (tokens : List UInt8) : Except CutShort (List Char × Journal) :=
  match Piece.scan bracketed tokens with
  | .error failure => .error failure
  | .ok pieces => .ok (showWith Slip.ignored tokens pieces)

/-- The text of the tokens of a line, or the first slip on the way to it. -/
def checkedRenderLine (bracketed : Bool) (tokens : List UInt8) : Except Slip (List Char × Journal) :=
  match Piece.scan bracketed tokens with
  | .error failure => .error (.cutShort failure)
  | .ok pieces => showWith Slip.kept tokens pieces

/-! ## Programs -/

/-- What a record, or what is left behind the last one, becomes. -/
inductive Entry where
  /-- A line, the last byte of its record, and the events of showing it. -/
  | line (number : Nat) (text : List Char) (last : UInt8) (events : Journal)
  /-- A record that cannot be shown. -/
  | broken (number : Nat) (reason : List Char)
  /-- A record that reaches beyond the end. -/
  | overrun (number length remaining : Nat)
  /-- A few bytes behind the last record. -/
  | leftover
deriving DecidableEq, Repr

namespace Entry

/-- The text of an entry. -/
def text : Entry → List Char
  | .line number text last _ =>
    let note :=
      if last == Token.lineEnd then []
      else
        "# Note: Line ".toList ++ Text.decimal number ++ " did not end with ".toList ++
          Text.decimal Token.lineEnd.toNat ++ " (END token) but with ".toList ++
          Text.decimal last.toNat ++ ".\n".toList
    Text.decimal number ++ ' ' :: (text ++ '\n' :: note)
  | .broken number reason =>
    "\n# Error: Line ".toList ++ Text.decimal number ++ ": ".toList ++ reason ++ ['\n']
  | .overrun number length remaining =>
    "\n# Error: Line ".toList ++ Text.decimal number ++ ": length ".toList ++ Text.decimal length ++
      " exceeds the remaining ".toList ++ Text.decimal remaining ++ " bytes.\n".toList
  | .leftover => "\n# Warning: A few bytes could not be converted.\n".toList

/-- The events of an entry. -/
def events : Entry → Journal
  | .line _ _ _ events => events
  | .broken number reason => [.recordBroken number reason]
  | .overrun number length remaining => [.recordOverruns number length remaining]
  | .leftover => []

end Entry

/-- The entry of a record with this payload. -/
def entry (bracketed : Bool) (number : Nat) (payload : List UInt8) : Entry :=
  match payload.getLast? with
  | none => .broken number "Line has length 0".toList
  | some last =>
    match renderLine bracketed payload.dropLast with
    | .error failure => .broken number failure.message
    | .ok (text, events) => .line number text last events

/-- A record at the start of some bytes. -/
inductive Head where
  /-- A whole record and the bytes behind it. -/
  | whole (number : Nat) (payload rest : List UInt8)
  /-- A record that is longer than the bytes that are left. -/
  | overrun (number length remaining : Nat)
  /-- At most four bytes, too few for a record. -/
  | short
deriving DecidableEq, Repr

/-- Takes the record at the start of some bytes. -/
def head (bytes : List UInt8) : Head :=
  match bytes with
  | numberHigh :: numberLow :: lengthLow :: lengthHigh :: b :: rest =>
    let number := word numberHigh numberLow
    let length := word lengthHigh lengthLow
    let payload := (b :: rest).take length
    if payload.length < length then .overrun number length (rest.length + 1)
    else .whole number payload ((b :: rest).drop length)
  | _ => .short

theorem length_rest_of_head {bytes : List UInt8} {number : Nat} {payload rest : List UInt8}
    (h : head bytes = .whole number payload rest) : rest.length < bytes.length := by
  unfold head at h
  split at h
  · simp only at h
    split at h
    · simp at h
    · simp only [Head.whole.injEq] at h
      rw [← h.2.2]
      simp only [List.length_drop, List.length_cons]
      omega
  · simp at h

/-- Lists the rest of a program. `done` holds the entries so far in reverse order. -/
def ofProgramFrom (bracketed : Bool) (bytes : List UInt8) (done : List Entry) : List Entry :=
  match h : head bytes with
  | .whole number payload rest =>
    have := length_rest_of_head h
    ofProgramFrom bracketed rest (entry bracketed number payload :: done)
  | .overrun number length remaining => (.overrun number length remaining :: done).reverse
  | .short => (if bytes.isEmpty then done else .leftover :: done).reverse
termination_by bytes.length

/-- The entries of a program. -/
def ofProgram (bracketed : Bool) (program : List UInt8) : List Entry :=
  ofProgramFrom bracketed program []

/-- The text of a listing. -/
def text (entries : List Entry) : List Char := entries.flatMap Entry.text

/-- The events of a listing. -/
def events (entries : List Entry) : Journal := entries.flatMap Entry.events

/-- The text of a program (`decode_program`). -/
def programText (bracketed : Bool) (program : List UInt8) : List Char :=
  text (ofProgram bracketed program)

/-- The places at which whole records start (`_line_offsets`). -/
def recordOffsets (bytes : List UInt8) (offset : Nat) : List Nat :=
  match h : head bytes with
  | .whole _ payload rest =>
    have := length_rest_of_head h
    offset :: recordOffsets rest (offset + 4 + payload.length)
  | .overrun .. => []
  | .short => []
termination_by bytes.length

end Listing

end TapeBasic
