import TapeBasic.Journal
import TapeBasic.Source.Cursor
import TapeBasic.Token

/-!
# What can be wrong with a listing (`_error`)

A complaint says what is wrong at a place of a listing; a fault is whatever stops the reading. Most
faults are complaints, shown with the text that follows the place where the reading stopped. An
outcome is a result together with the events that led up to it, which are kept when it is a fault.
-/
namespace TapeBasic

/-- The greatest line number (`MAX_LINE_NUMBER`). -/
def maxLineNumber : Nat := 9999

/-- The greatest size of a block of zeros (`MAX_BLOCK_SIZE`). -/
def maxBlockSize : Nat := 0x7FFF

/-- What is wrong at a place of a listing. -/
inductive Complaint where
  | equalsExpected
  | startNotHigher (number last : Nat)
  | startNotFound (number : Nat)
  | unknownDirective (keyword : List Char)
  | lineEndExpected
  | lineEndInRow
  | numberExpected
  | valueExpected
  | openingExpected
  | closingExpected
  | valueOutOfRange (value : Nat)
  | assignmentExpected
  | variableRefused (failure : SystemVariables.Failure)
  | lineNumberExpected
  | lineNumberTooBig (number : Nat)
  | lineNumberNotHigher (number last : Nat)
  | spaceExpected
  | commandExpected
  | notACommand (token : UInt8)
  | lineTooLong (number length : Nat)
  | unknownToken
  | unreadableStatement
  | stringNotClosed
  | numberOutOfRange (literal : List Char)
  | blockTooBig (size : Nat)
  | byteOutOfRange (value : Nat)
deriving DecidableEq, Repr

/-- What the complaint says. -/
def Complaint.message : Complaint → List Char
  | .equalsExpected => "Expected '=' after basic-start".toList
  | .startNotHigher number last =>
    "basic-start line ".toList ++ Text.decimal number ++
      " must be higher than the last line number ".toList ++ Text.decimal last
  | .startNotFound number =>
    "Line number ".toList ++ Text.decimal number ++ " given by 'basic-start' not found".toList
  | .unknownDirective keyword =>
    "Unknown command in header '".toList ++ keyword ++ "'".toList
  | .lineEndExpected => "Expected newline".toList
  | .lineEndInRow =>
    "Screen row cannot contain ".toList ++ Text.decimal Token.lineEnd.toNat ++ " (END token)".toList
  | .numberExpected => "Expected a number".toList
  | .valueExpected => "Expected a value".toList
  | .openingExpected => "Expected '['".toList
  | .closingExpected => "Expected ']'".toList
  | .valueOutOfRange value => "Value ".toList ++ Text.decimal value ++ " out of range (0-255)".toList
  | .assignmentExpected => "Expected system variable assignment 'NAME=value'".toList
  | .variableRefused failure => failure.message
  | .lineNumberExpected => "Line number expected".toList
  | .lineNumberTooBig number =>
    "Line number ".toList ++ Text.decimal number ++ " too big (max ".toList ++
      Text.decimal maxLineNumber ++ ")".toList
  | .lineNumberNotHigher number last =>
    "Line number ".toList ++ Text.decimal number ++
      " must be higher than the previous line number ".toList ++ Text.decimal last
  | .spaceExpected => "Space expected".toList
  | .commandExpected => "Unknown command: command expected".toList
  | .notACommand token =>
    "Unknown command: command expected but got '".toList ++ Text.trim (Token.text token) ++
      "'".toList
  | .lineTooLong number length =>
    "Line ".toList ++ Text.decimal number ++ " too long (".toList ++ Text.decimal length ++
      " bytes)".toList
  | .unknownToken => "Unknown token".toList
  | .unreadableStatement => "Parse error".toList
  | .stringNotClosed => "Unexpected end of line in string".toList
  | .numberOutOfRange literal => "Number '".toList ++ literal ++ "' out of range".toList
  | .blockTooBig size =>
    "Block size ".toList ++ Text.decimal size ++ " too big (max ".toList ++
      Text.decimal maxBlockSize ++ ")".toList
  | .byteOutOfRange value =>
    "Byte value ".toList ++ Text.decimal value ++ " out of range (0-255)".toList

/-- What stops the reading of a listing. -/
inductive Fault where
  /-- A complaint about a place, and the text at which the reading stopped. -/
  | complaint (what : Complaint) (snippet : List Char) (at_ : Position)
  /-- A file could not be included. -/
  | unreadable (path cause : List Char) (at_ : Position)
  /-- A character that is read like another one has no token. -/
  | unknownSymbol
  /-- A numeral has too many digits to be read or written. -/
  | numeralTooLong
deriving DecidableEq, Repr

/-- A complaint about an earlier place, raised at the cursor (`_error`). -/
def Cursor.faultAt (c : Cursor) (p : Position) (what : Complaint) : Fault :=
  .complaint what c.snippet p

/-- A complaint about the place of the cursor. -/
def Cursor.fault (c : Cursor) (what : Complaint) : Fault := c.faultAt c.position what

/-- A complaint that shows a number, unless the number is too long to be written. -/
def Cursor.faultAbout (c : Cursor) (p : Position) (number : Nat) (what : Complaint) : Fault :=
  if Text.isUnwritable number then .numeralTooLong else c.faultAt p what

/-- The message of a complaint: what is wrong, and the text at which the reading stopped (`_error`). -/
def Fault.messageWith (what : Complaint) (snippet : List Char) : List Char :=
  if snippet.isEmpty then what.message
  else what.message ++ ": '".toList ++ snippet ++ "'".toList

/-! ## Outcomes -/

/-- A result or a fault, with the events that led up to it. -/
structure Outcome (α : Type) where
  events : Journal
  result : Except Fault α

namespace Outcome

variable {α β : Type}

/-- A result without events. -/
def ok (a : α) : Outcome α := ⟨[], .ok a⟩

/-- A fault without events. -/
def fail (fault : Fault) : Outcome α := ⟨[], .error fault⟩

/-- A result or a fault without events. -/
def ofExcept (result : Except Fault α) : Outcome α := ⟨[], result⟩

/-- One event. -/
def note (event : Event) : Outcome Unit := ⟨[event], .ok ()⟩

/-- Goes on with the result. -/
def andThen (x : Outcome α) (f : α → Outcome β) : Outcome β :=
  match x.result with
  | .error fault => ⟨x.events, .error fault⟩
  | .ok a => ⟨x.events ++ (f a).events, (f a).result⟩

instance : Monad Outcome where
  pure := ok
  bind := andThen

instance : MonadLift (Except Fault) Outcome where
  monadLift := ofExcept

theorem exists_of_bind_ok {x : Outcome α} {f : α → Outcome β} {b : β}
    (h : (x >>= f).result = .ok b) : ∃ a, x.result = .ok a ∧ (f a).result = .ok b := by
  change (x.andThen f).result = .ok b at h
  unfold andThen at h
  split at h
  · simp at h
  · next a ha => exact ⟨a, ha, h⟩

end Outcome

end TapeBasic
