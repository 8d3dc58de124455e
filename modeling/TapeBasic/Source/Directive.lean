import TapeBasic.Source.Body
import TapeBasic.Source.Line
import TapeBasic.Text.Letter

/-!
# Directives (`_parse_directive`)

Lines that start with `#!` say what a program listing cannot: the line to start with, the screen, the
variables and the system variables. `Directive.read` reads one directive; what it does to the tape
image is settled elsewhere.
-/
namespace TapeBasic

/-- A directive of a listing. -/
inductive Directive where
  /-- An empty directive. -/
  | nothing
  /-- The line to start with. -/
  | start (number : Nat)
  /-- Screen rows are not filled up. -/
  | collapse
  /-- The next screen row. -/
  | row (bytes : List UInt8)
  /-- More bytes of the variables. -/
  | variableBytes (bytes : List UInt8)
  /-- The value of a system variable; complaints are about the place of its name. -/
  | assign (name : List Char) (setting : SystemVariables.Setting) (at_ : Position)
deriving DecidableEq, Repr

namespace Directive

/-! ## Numbers and lists -/

/-- The number at the cursor, in decimal or, behind a dollar sign or `0x`, in hexadecimal digits,
and the cursor behind it (`_read_integer`). -/
def readInteger (missing : Complaint) (c : Cursor) : Except Fault (Nat × Cursor) :=
  let hexadecimal (mark : Nat) : Option (Nat × Nat) :=
    let digits := (c.rest.drop mark).takeWhile Text.isHexDigit
    if digits.isEmpty then none else some (Text.hexDigitsValue digits, mark + digits.length)
  let marked : Option (Nat × Nat) :=
    match c.rest with
    | '0' :: x :: _ => if x == 'x' || x == 'X' then hexadecimal 2 else none
    | '$' :: _ => hexadecimal 1
    | _ => none
  match marked with
  | some (value, width) => .ok (value, c.advance width)
  | none =>
    let digits := c.rest.takeWhile Text.isDecimal
    if digits.isEmpty then .error (c.fault missing)
    else
      match Text.natural? digits with
      | none => .error .numeralTooLong
      | some value => .ok (value, c.advance digits.length)

theorem length_readInteger_lt {missing : Complaint} {c next : Cursor} {n : Nat}
    (h : readInteger missing c = .ok (n, next)) : next.rest.length < c.rest.length := by
  unfold readInteger at h
  simp only at h
  split at h
  · next value width hmarked =>
    simp only [Except.ok.injEq, Prod.mk.injEq] at h
    rw [← h.2]
    split at hmarked
    · split at hmarked
      · split at hmarked
        · simp at hmarked
        · simp only [Option.some.injEq, Prod.mk.injEq] at hmarked
          exact Cursor.length_advance_lt (by omega) (by simp_all)
      · simp at hmarked
    · split at hmarked
      · simp at hmarked
      · simp only [Option.some.injEq, Prod.mk.injEq] at hmarked
        exact Cursor.length_advance_lt (by omega) (by simp_all)
    · simp at hmarked
  · split at h
    · simp at h
    · next hdigits =>
      split at h
      · simp at h
      · simp only [Except.ok.injEq, Prod.mk.injEq] at h
        rw [← h.2]
        have hlen : 0 < (c.rest.takeWhile Text.isDecimal).length := by
          cases hd : c.rest.takeWhile Text.isDecimal with
          | nil => simp [hd] at hdigits
          | cons => simp
        exact Cursor.length_advance_lt hlen (by intro hnil; simp [hnil] at hlen)

/-- Goes behind a comma and the spacing that follows it, if there is one. -/
def skipComma (c : Cursor) : Cursor := if c.peek == ',' then (c.advance 1).skipSpacing else c

theorem length_skipComma_le (c : Cursor) : (skipComma c).rest.length ≤ c.rest.length := by
  unfold skipComma
  split
  · exact Nat.le_trans (Cursor.length_skipSpacing_le _) (c.length_advance_le _)
  · exact Nat.le_refl _

/-- Reads the numbers of a list up to its closing bracket. `done` holds the bytes so far in reverse
order. -/
def readBytesFrom (c : Cursor) (done : List UInt8) : Except Fault (List UInt8 × Cursor) :=
  if c.peek == ']' then .ok (done.reverse, c.advance 1)
  else
    match h : readInteger .numberExpected c with
    | .error fault => .error fault
    | .ok (value, behind) =>
      if 255 < value then .error (behind.faultAbout c.position value (.valueOutOfRange value))
      else
        let next := behind.skipSpacing
        if next.peek == '\n' then .error (next.fault .closingExpected)
        else
          have : (skipComma next).rest.length < c.rest.length :=
            Nat.lt_of_le_of_lt (length_skipComma_le next)
              (Nat.lt_of_le_of_lt behind.length_skipSpacing_le (length_readInteger_lt h))
          readBytesFrom (skipComma next) (UInt8.ofNat value :: done)
termination_by c.rest.length
decreasing_by assumption

/-- Reads a list of bytes between brackets (`_read_byte_list`). -/
def readBytes (c : Cursor) : Except Fault (List UInt8 × Cursor) :=
  if c.peek == '[' then readBytesFrom (c.advance 1).skipSpacing []
  else .error (c.fault .openingExpected)

theorem length_readBytesFrom_le {c next : Cursor} {done bytes : List UInt8}
    (h : readBytesFrom c done = .ok (bytes, next)) : next.rest.length ≤ c.rest.length := by
  fun_induction readBytesFrom c done with
  | case1 =>
    simp only [Except.ok.injEq, Prod.mk.injEq] at h
    exact h.2 ▸ Cursor.length_advance_le _ _
  | case2 => simp at h
  | case3 => simp at h
  | case4 => simp at h
  | case5 c done hpeek value behind hread hvalue next' hnext hlt ih =>
    exact Nat.le_trans (ih h) (Nat.le_of_lt hlt)

theorem length_readBytes_le {c next : Cursor} {bytes : List UInt8}
    (h : readBytes c = .ok (bytes, next)) : next.rest.length ≤ c.rest.length := by
  unfold readBytes at h
  split at h
  · exact Nat.le_trans (length_readBytesFrom_le h)
      (Nat.le_trans (Cursor.length_skipSpacing_le _) (c.length_advance_le _))
  · simp at h

/-! ## Assignments -/

/-- The length of the name of a system variable at the start of the text: a word or a number; zero
if there is none (`_SYSVAR_NAME`). -/
def nameWidth (text : List Char) : Nat :=
  if text.head?.any fun x => Text.isLatinLetter x || x == '_' then
    Text.countWhile (fun x => Text.isLatinLetterOrDigit x || x == '_') text
  else Text.countWhile Text.isDecimal text

/-- The equals sign at the start of the text and the spacing around it: its length, or zero. -/
def equalsWidth (text : List Char) : Nat :=
  let front := Text.countWhile Text.isSpacing text
  match text.drop front with
  | '=' :: rest => front + 1 + Text.countWhile Text.isSpacing rest
  | _ => 0

/-- The value of an assignment: a list of bytes or a number. -/
def readSetting (c : Cursor) : Except Fault (SystemVariables.Setting × Cursor) :=
  if c.peek == '[' then
    match readBytes c with
    | .error fault => .error fault
    | .ok (bytes, next) => .ok (.list (bytes.map fun b => (b.toNat : Int)), next)
  else
    match readInteger .valueExpected c with
    | .error fault => .error fault
    | .ok (n, next) => .ok (.number n, next)

/-- Reads the assignment of a system variable (`_read_system_variable`). -/
def readAssignment (c : Cursor) : Except Fault (Directive × Cursor) :=
  let name := nameWidth c.rest
  let equals := equalsWidth (c.rest.drop name)
  if name == 0 || equals == 0 then .error (c.fault .assignmentExpected)
  else
    match readSetting (c.advance (name + equals)) with
    | .error fault => .error fault
    | .ok (setting, next) => .ok (.assign (c.rest.take name) setting c.position, next)

theorem length_readSetting_le {c next : Cursor} {setting : SystemVariables.Setting}
    (h : readSetting c = .ok (setting, next)) : next.rest.length ≤ c.rest.length := by
  unfold readSetting at h
  split at h
  · split at h
    · simp at h
    · next hread =>
      simp only [Except.ok.injEq, Prod.mk.injEq] at h
      exact h.2 ▸ length_readBytes_le hread
  · split at h
    · simp at h
    · next hread =>
      simp only [Except.ok.injEq, Prod.mk.injEq] at h
      exact h.2 ▸ Nat.le_of_lt (length_readInteger_lt hread)

theorem length_readAssignment_le {c next : Cursor} {d : Directive}
    (h : readAssignment c = .ok (d, next)) : next.rest.length ≤ c.rest.length := by
  unfold readAssignment at h
  simp only at h
  split at h
  · simp at h
  · split at h
    · simp at h
    · next hread =>
      simp only [Except.ok.injEq, Prod.mk.injEq] at h
      exact h.2 ▸ Nat.le_trans (length_readSetting_le hread) (c.length_advance_le _)

/-! ## Keywords -/

/-- The start of a directive: how far the keyword is from the start, the text of the keyword with all
that belongs to it, and whether an equals sign is part of it. -/
structure Head where
  indent : Nat
  keyword : List Char
  equals : Bool
deriving DecidableEq, Repr

/-- The length of a directive up to the end of its keyword. -/
def Head.width (head : Head) : Nat := head.indent + head.keyword.length

/-- The length of the keyword of a start line with spacing and an equals sign behind it, and whether
the sign is there. -/
def startWidth? (text : List Char) : Option (Nat × Bool) :=
  let word := "basic-start".toList
  if Text.startsWithLetters word text then
    let behind := text.drop word.length
    let front := Text.countWhile Text.isSpacing behind
    match behind.drop front with
    | '=' :: rest => some (word.length + front + 1 + Text.countWhile Text.isSpacing rest, true)
    | _ => some (word.length + front, false)
  else none

/-- The length of a keyword that ends with a colon, with the spacing behind it if it counts. -/
def colonWidth? (word : List Char) (takesSpacing : Bool) (text : List Char) : Option Nat :=
  if Text.startsWithLetters word text then
    let spacing := Text.countWhile Text.isSpacing (text.drop word.length)
    some (word.length + if takesSpacing then spacing else 0)
  else none

/-- The length of the keyword for collapsed rows, where no word goes on behind it. -/
def collapseWidth? (text : List Char) : Option Nat :=
  let word := "dfile-collapsed".toList
  if Text.startsWithLetters word text && !(text.drop word.length).head?.any Text.isWordCharacter then
    some word.length
  else none

/-- The start of the directive at the start of the text (`_HEADER`). Unless a known keyword stands
there, in letters of any form, the rest of the line is the keyword. -/
def head (text : List Char) : Head :=
  let indent := 2 + Text.countWhile Text.isSpacing (text.drop 2)
  let behind := text.drop indent
  match startWidth? behind with
  | some (width, equals) => ⟨indent, behind.take width, equals⟩
  | none =>
    let known := collapseWidth? behind <|> colonWidth? "dfile:".toList false behind <|>
      colonWidth? "basic-vars:".toList true behind <|> colonWidth? "system-vars:".toList true behind
    ⟨indent, behind.take (known.getD (Text.countWhile (· != '\n') behind)), false⟩

/-- What a directive is about. -/
inductive Subject where
  | nothing
  | start
  | collapse
  | row
  | variableBytes
  | assignment
  | unknown (keyword : List Char)
deriving DecidableEq, Repr

/-- The subject that a keyword names, in small letters and without blanks around it. -/
def subject (keyword : List Char) : Subject :=
  let word := Text.lower (Text.trim keyword)
  if "basic-start".toList.isPrefixOf word then .start
  else if word == "dfile-collapsed".toList then .collapse
  else if word == "dfile:".toList then .row
  else if word == "basic-vars:".toList then .variableBytes
  else if word == "system-vars:".toList then .assignment
  else if word.isEmpty then .nothing
  else .unknown word

/-- The number of the line to start with, behind an equals sign. -/
def readStart (equals : Bool) (c : Cursor) : Except Fault (Directive × Cursor) :=
  if equals then
    match Line.readNumber c with
    | .error fault => .error fault
    | .ok (number, next) => .ok (.start number, next)
  else .error (c.fault .equalsExpected)

/-- More bytes of the variables. -/
def readVariables (c : Cursor) : Except Fault (Directive × Cursor) :=
  match readBytes c with
  | .error fault => .error fault
  | .ok (bytes, next) => .ok (.variableBytes bytes, next)

/-- The next screen row (`_read_dfile_row`). -/
def readRow (files : FileReader) (c : Cursor) : Outcome (Directive × Cursor) := do
  let (bytes, next) ← Row.read files c
  pure (.row bytes, next)

/-- Reads what stands behind the keyword at `c`; `behind` is the cursor behind the keyword. -/
def readBehind (files : FileReader) (c : Cursor) (head : Head) (behind : Cursor) :
    Outcome (Directive × Cursor) :=
  match subject head.keyword with
  | .nothing => .ok (.nothing, behind)
  | .start => .ofExcept (readStart head.equals behind)
  | .collapse => .ok (.collapse, behind)
  | .row => readRow files behind
  | .variableBytes => .ofExcept (readVariables behind)
  | .assignment => .ofExcept (readAssignment behind)
  | .unknown keyword => .fail ((c.advance head.indent).fault (.unknownDirective keyword))

/-- Reads a directive: what it says and the cursor behind it (`_parse_directive`). -/
def read (files : FileReader) (c : Cursor) : Outcome (Directive × Cursor) :=
  let head := head c.rest
  readBehind files c head (c.advance head.width)

/-! ## Reading a directive uses up text -/

theorem length_readBehind_le {files : FileReader} {c behind next : Cursor} {head : Head}
    {d : Directive} (h : (readBehind files c head behind).result = .ok (d, next)) :
    next.rest.length ≤ behind.rest.length := by
  unfold readBehind at h
  split at h
  · change Except.ok _ = Except.ok _ at h
    simp only [Except.ok.injEq, Prod.mk.injEq] at h
    exact Nat.le_of_eq (h.2 ▸ rfl)
  · change readStart _ _ = _ at h
    unfold readStart at h
    split at h
    · split at h
      · simp at h
      · next hread =>
        simp only [Except.ok.injEq, Prod.mk.injEq] at h
        exact h.2 ▸ Nat.le_of_lt (Line.length_readNumber_lt hread)
    · simp at h
  · change Except.ok _ = Except.ok _ at h
    simp only [Except.ok.injEq, Prod.mk.injEq] at h
    exact Nat.le_of_eq (h.2 ▸ rfl)
  · unfold readRow at h
    obtain ⟨⟨bytes, next'⟩, hread, h⟩ := Outcome.exists_of_bind_ok h
    change Except.ok _ = Except.ok _ at h
    simp only [Except.ok.injEq, Prod.mk.injEq] at h
    exact h.2 ▸ Row.length_readFrom_le hread
  · change readVariables _ = _ at h
    unfold readVariables at h
    split at h
    · simp at h
    · next hread =>
      simp only [Except.ok.injEq, Prod.mk.injEq] at h
      exact h.2 ▸ length_readBytes_le hread
  · exact length_readAssignment_le h
  · change Except.error _ = Except.ok _ at h
    simp at h

theorem two_le_width_head (text : List Char) : 2 ≤ (head text).width := by
  unfold head Head.width
  simp only
  split <;> simp only <;> omega

theorem length_read_lt {files : FileReader} {c next : Cursor} {d : Directive} (hc : c.rest ≠ [])
    (h : (read files c).result = .ok (d, next)) : next.rest.length < c.rest.length :=
  Nat.lt_of_le_of_lt (length_readBehind_le h)
    (Cursor.length_advance_lt (Nat.lt_of_lt_of_le Nat.two_pos (two_le_width_head c.rest)) hc)

end Directive

end TapeBasic
