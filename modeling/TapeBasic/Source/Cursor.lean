import TapeBasic.Text.Blank

/-!
# The cursor (`_advance`, `_skip`)

A cursor stands in front of the unread rest of a listing and knows its line and column, both counted
from zero. Reading past the end gives line ends.

* `Cursor.rest_advance`: advancing by `n` drops `n` characters.
* `Cursor.length_advance_lt`: a step of at least one character leaves less to read.
-/
namespace TapeBasic

/-- A line and a column, counted from zero. -/
structure Position where
  line : Nat
  column : Nat
deriving DecidableEq, Repr

/-- The place behind a character. -/
def Position.after (p : Position) (c : Char) : Position :=
  if c == '\n' then ⟨p.line + 1, 0⟩ else ⟨p.line, p.column + 1⟩

/-- A place in a listing with the text that is still to be read. -/
structure Cursor where
  rest : List Char
  position : Position
deriving DecidableEq, Repr

namespace Cursor

/-- The start of a text. -/
def start (text : List Char) : Cursor := ⟨text, ⟨0, 0⟩⟩

/-- The next character; the end of the text reads as a line end (`_peek`). -/
def peek (c : Cursor) : Char := c.rest.headD '\n'

/-- Goes on by `n` characters, at most to the end of the text (`_advance`). -/
def advance (c : Cursor) : Nat → Cursor
  | 0 => c
  | n + 1 =>
    match c.rest with
    | [] => c
    | x :: rest => advance ⟨rest, c.position.after x⟩ n

@[simp] theorem rest_advance (c : Cursor) (n : Nat) : (c.advance n).rest = c.rest.drop n := by
  induction n generalizing c with
  | zero => simp [advance]
  | succ n ih =>
    unfold advance
    split
    · next h => simp [h]
    · next x rest h => simp [ih, h]

theorem length_advance_le (c : Cursor) (n : Nat) : (c.advance n).rest.length ≤ c.rest.length := by
  simp

theorem length_advance_lt {c : Cursor} {n : Nat} (hn : 0 < n) (hc : c.rest ≠ []) :
    (c.advance n).rest.length < c.rest.length := by
  have := List.length_pos_iff.mpr hc
  simp; omega

theorem rest_ne_nil_of_peek {c : Cursor} (h : c.peek ≠ '\n') : c.rest ≠ [] := by
  intro hnil; simp [peek, hnil] at h

/-! ## What separates the parts of a listing -/

/-- The length of a continuation at the start of the text, a backslash that only spacing divides
from the line end; zero if there is none (`_CONTINUATION`). -/
def continuationWidth : List Char → Nat
  | '\\' :: rest =>
    let spacing := Text.countWhile Text.isSpacing rest
    if (rest.drop spacing).head? == some '\n' then spacing + 2 else 0
  | _ => 0

theorem ne_nil_of_continuationWidth {text : List Char} (h : continuationWidth text ≠ 0) :
    text ≠ [] := by
  rintro rfl; exact h rfl

/-- Goes behind one continuation, if there is one. -/
def skipContinuation (c : Cursor) : Cursor := c.advance (continuationWidth c.rest)

/-- Goes behind spaces and tabs. -/
def skipSpacing (c : Cursor) : Cursor := c.advance (Text.countWhile Text.isSpacing c.rest)

theorem length_skipContinuation_le (c : Cursor) :
    c.skipContinuation.rest.length ≤ c.rest.length := c.length_advance_le _

theorem length_skipSpacing_le (c : Cursor) : c.skipSpacing.rest.length ≤ c.rest.length :=
  c.length_advance_le _

/-- The length of a comment with its line end; zero if the text starts with none or with a
directive. -/
def commentWidth : List Char → Nat
  | '#' :: rest =>
    let inner := Text.countWhile (· != '\n') rest
    if rest.head? == some '!' || (rest.drop inner).isEmpty then 0 else inner + 2
  | _ => 0

/-- The length of what is skipped between the lines of a listing: blanks, a continuation or a
comment. -/
def gapWidth (text : List Char) : Nat :=
  let blanks := Text.countWhile Text.isBlank text
  if blanks != 0 then blanks
  else
    let continuation := continuationWidth text
    if continuation != 0 then continuation else commentWidth text

theorem ne_nil_of_gapWidth {text : List Char} (h : gapWidth text ≠ 0) : text ≠ [] := by
  rintro rfl
  simp [gapWidth, Text.countWhile, continuationWidth, commentWidth] at h

/-- Goes behind everything that is skipped between the lines of a listing (`_skip` of `_SKIPPABLE`). -/
def skipGaps (c : Cursor) : Cursor :=
  if h : gapWidth c.rest = 0 then c
  else
    have := length_advance_lt (Nat.pos_of_ne_zero h) (ne_nil_of_gapWidth h)
    (c.advance (gapWidth c.rest)).skipGaps
termination_by c.rest.length

theorem length_skipGaps_le (c : Cursor) : c.skipGaps.rest.length ≤ c.rest.length := by
  fun_induction skipGaps c with
  | case1 => exact Nat.le_refl _
  | case2 c h _ ih => exact Nat.le_trans ih (c.length_advance_le _)

/-- The length of spacing that may go on behind continuations; zero if there is none (`_SPACING`). -/
def joinedSpacingWidth (text : List Char) : Nat :=
  let first := Text.countWhile Text.isSpacing text
  if first == 0 then 0 else first + joined (text.drop first)
where
  /-- The length of continuations, each with the spacing behind it. -/
  joined (text : List Char) : Nat :=
    if h : continuationWidth text = 0 then 0
    else
      have := List.length_pos_iff.mpr (ne_nil_of_continuationWidth h)
      let behind := text.drop (continuationWidth text)
      let spacing := Text.countWhile Text.isSpacing behind
      continuationWidth text + spacing + joined (behind.drop spacing)
  termination_by text.length
  decreasing_by simp only [List.length_drop]; omega

/-! ## Snippets -/

/-- The rest of the current line, cut after twenty characters. -/
def snippet (c : Cursor) : List Char :=
  let line := c.rest.takeWhile (· != '\n')
  if line.length ≤ 20 then line else line.take 20 ++ "...".toList

end Cursor

end TapeBasic
