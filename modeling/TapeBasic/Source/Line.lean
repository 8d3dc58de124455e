import TapeBasic.Program
import TapeBasic.Source.Body

/-!
# Program lines (`_parse_line`)

A line of a listing is a line number, higher than the one before, spacing, a statement keyword and the
text behind it. `Line.read` gives the record of the line and the cursor in front of its line end.
-/
namespace TapeBasic

/-- The greatest size of the payload of a line. -/
def maxPayload : Nat := 0xFFFF

namespace Line

/-- The line number at the cursor and the cursor behind it (`_read_line_number`). -/
def readNumber (c : Cursor) : Except Fault (Nat × Cursor) :=
  let digits := c.rest.takeWhile Text.isDecimal
  let next := c.advance digits.length
  if digits.isEmpty then .error (c.fault .lineNumberExpected)
  else
    match Text.natural? digits with
    | none => .error .numeralTooLong
    | some n =>
      if maxLineNumber < n then .error (next.faultAt c.position (.lineNumberTooBig n))
      else .ok (n, next)

/-- The spacing behind a line number. -/
def readSpacing (c : Cursor) : Except Fault Cursor :=
  let width := Cursor.joinedSpacingWidth c.rest
  if width == 0 then .error (c.fault .spaceExpected) else .ok (c.advance width)

/-- The statement keyword at the cursor and the cursor behind it. -/
def readCommand (c : Cursor) : Except Fault (UInt8 × Cursor) :=
  match Grammar.statement.read? c with
  | .error fault => .error fault
  | .ok none => .error (c.fault .commandExpected)
  | .ok (some token) =>
    let next := c.advance token.width
    if Token.isCommand token.value then .ok (token.value, next)
    else .error (next.faultAt c.position (.notACommand token.value))

/-- The name at the start of a text behind spacing, in capitals, and how far it is from the start
(`_IDENTIFIER`). -/
def nameAhead? (text : List Char) : Option (List Char × Nat) :=
  let spacing := Text.countWhile Text.isSpacing text
  let behind := text.drop spacing
  if behind.head?.any Text.isLatinLetter then
    some (Text.upper (behind.takeWhile Text.isLatinLetterOrDigit), spacing)
  else none

/-- Whether a name in capitals is the bare spelling of a token. -/
def isKeyword (name : List Char) : Bool :=
  (Grammar.statement.find? ('[' :: (name ++ [']']))).isSome

/-- The warning about a variable that is named like a keyword. -/
def keywordWarning? (filename : List Char) (c : Cursor) : Option Diagnostic :=
  match nameAhead? c.rest with
  | none => none
  | some (name, spacing) =>
    if isKeyword name then
      some
        { message := "Variable name '".toList ++ name ++ "' is also a keyword".toList
          location := ⟨filename, c.position.line, c.position.column + spacing⟩ }
    else none

/-- Warns of a variable named like a keyword behind the keywords that name one (`_check_variable_name`). -/
def checkName (filename : List Char) (command : UInt8) (c : Cursor) : Outcome Unit :=
  if command == Token.letToken || command == Token.dim then
    match keywordWarning? filename c with
    | some diagnostic => .note (.warned diagnostic)
    | none => .ok ()
  else .ok ()

/-- Checks that a line number is higher than the last one. -/
def checkOrder (number : Nat) (last : Option Nat) (start : Position) (c : Cursor) :
    Except Fault Unit :=
  match last with
  | some n => if number ≤ n then .error (c.faultAt start (.lineNumberNotHigher number n)) else .ok ()
  | none => .ok ()

/-- The record of a line, unless it is too long. -/
def close (number : Nat) (command : UInt8) (body : List UInt8) (start : Position) (c : Cursor) :
    Except Fault LineRecord :=
  let payload := command :: (body ++ [Token.lineEnd])
  if maxPayload < payload.length then
    .error (c.faultAt start (.lineTooLong number payload.length))
  else .ok ⟨number, payload⟩

/-- How the text behind a keyword is read. -/
def bodyMode (command : UInt8) : Body.Mode :=
  if command == Token.rem then .remark else .statement false

/-- Reads a line: its record and the cursor in front of its line end (`_parse_line`). -/
def read (files : FileReader) (filename : List Char) (last : Option Nat) (c : Cursor) :
    Outcome (LineRecord × Cursor) := do
  let (number, afterNumber) ← readNumber c
  checkOrder number last c.position afterNumber
  let atCommand ← readSpacing afterNumber
  let (command, afterCommand) ← readCommand atCommand
  checkName filename command afterCommand
  let (body, atEnd) ← Body.read files (bodyMode command) afterCommand
  let record ← close number command body atCommand.position atEnd
  pure (record, atEnd)

/-! ## Reading a line uses up text -/

theorem length_readNumber_lt {c next : Cursor} {n : Nat} (h : readNumber c = .ok (n, next)) :
    next.rest.length < c.rest.length := by
  unfold readNumber at h
  simp only at h
  split at h
  · simp at h
  · next hdigits =>
    split at h
    · simp at h
    · split at h
      · simp at h
      · simp only [Except.ok.injEq, Prod.mk.injEq] at h
        have hlen : 0 < (c.rest.takeWhile Text.isDecimal).length := by
          cases hd : c.rest.takeWhile Text.isDecimal with
          | nil => simp [hd] at hdigits
          | cons => simp
        have hne : c.rest ≠ [] := by
          intro hnil; simp [hnil] at hlen
        rw [← h.2]
        exact Cursor.length_advance_lt hlen hne

theorem length_readSpacing_le {c next : Cursor} (h : readSpacing c = .ok next) :
    next.rest.length ≤ c.rest.length := by
  unfold readSpacing at h
  simp only at h
  split at h
  · simp at h
  · simp only [Except.ok.injEq] at h
    exact h ▸ c.length_advance_le _

theorem length_readCommand_le {c next : Cursor} {token : UInt8}
    (h : readCommand c = .ok (token, next)) : next.rest.length ≤ c.rest.length := by
  unfold readCommand at h
  split at h
  · simp at h
  · simp at h
  · simp only at h
    split at h
    · simp only [Except.ok.injEq, Prod.mk.injEq] at h
      exact h.2 ▸ c.length_advance_le _
    · simp at h

theorem length_read_lt {files : FileReader} {filename : List Char} {last : Option Nat}
    {c next : Cursor} {record : LineRecord}
    (h : (read files filename last c).result = .ok (record, next)) :
    next.rest.length < c.rest.length := by
  unfold read at h
  obtain ⟨⟨number, afterNumber⟩, hnumber, h⟩ := Outcome.exists_of_bind_ok h
  obtain ⟨_, _, h⟩ := Outcome.exists_of_bind_ok h
  obtain ⟨atCommand, hspacing, h⟩ := Outcome.exists_of_bind_ok h
  obtain ⟨⟨command, afterCommand⟩, hcommand, h⟩ := Outcome.exists_of_bind_ok h
  obtain ⟨_, _, h⟩ := Outcome.exists_of_bind_ok h
  obtain ⟨⟨body, atEnd⟩, hbody, h⟩ := Outcome.exists_of_bind_ok h
  obtain ⟨_, _, h⟩ := Outcome.exists_of_bind_ok h
  have hend : atEnd = next := by
    change Except.ok _ = Except.ok _ at h
    simp only [Except.ok.injEq, Prod.mk.injEq] at h
    exact h.2
  have := length_readNumber_lt hnumber
  have := length_readSpacing_le hspacing
  have := length_readCommand_le hcommand
  have := Body.length_readFrom_le hbody
  subst hend
  omega

end Line

end TapeBasic
