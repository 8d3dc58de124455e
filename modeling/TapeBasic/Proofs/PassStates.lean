import Mathlib.Logic.Relation
import TapeBasic.Proofs.MemoryLayout
import TapeBasic.Proofs.Places

/-!
# The states of a pass

A pass over a listing goes from loop to loop: over the items, over the pieces of a line, over the codes of a screen row
and over the entries of a list of bytes. `Moves` says how it goes on from a state, with one constructor for each time
the cursor is advanced, also in front of a complaint. An item that has been read is one move, and the moves inside it
lead from its start to the last place that is read of it.

* `PassState`: a stage of a pass, with its cursor.
* `Moves files filename`: how a pass goes on.
* `PassState.Comes files x r`: what the reader of a stage comes to.
* `PassState.Stops files x r`: how the reader of a stage ends.
* `Assembly.Opens files a c x r`: what an item reads with the readers of the stages.
* `Source.Reaches files s`: the states of the pass over a listing.

Results:
* `Moves.exists_advance`: a move advances the cursor, so what is kept by advancing holds of every state.
* `Moves.weight_lt`: every move takes weight from the state, so the number of moves is bounded.
* `PassState.Comes.stops_or_moves`, `PassState.Comes.exists_stops`: one stage of a reader, and its run to its end.
* `Assembly.Opens.next_step`: an item fails with the reader that it opens, or ends behind it.
* `Source.exists_end`: the pass ends where its states end.
* `Source.pass_states`: places, progress and the end of the pass, and the places of its diagnostics.
-/
namespace TapeBasic

open Relation (ReflTransGen TransGen)

/-! ## States -/

/-- Where in its loops a pass is. -/
inductive Stage where
  /-- At the next item, and whatever separates it from the last one. -/
  | gaps (a : Assembly)
  /-- In front of an item, or at the end. -/
  | item (a : Assembly)
  /-- Behind the number of a line. -/
  | number
  /-- In front of the keyword of a line. -/
  | command
  /-- At the next piece of a line, and a continuation in front of it. -/
  | text (mode : Body.Mode)
  /-- In front of a piece of a line, or at the line end. -/
  | piece (mode : Body.Mode)
  /-- In front of the number of the line to start with. -/
  | startNumber
  /-- At the next code of a screen row. -/
  | row
  /-- In front of an assignment. -/
  | assignment
  /-- In front of a list of bytes, or of a number if it may be one. -/
  | value (takesNumber : Bool)
  /-- At the next entry of a list of bytes. -/
  | list
  /-- Between the parts of an item. -/
  | inside

/-- A state of a pass. -/
structure PassState where
  stage : Stage
  cursor : Cursor

/-- The loops of a pass. Remarks, statements and strings are read piece by piece in one loop. -/
inductive Loop where
  | items
  | pieces
  | codes
  | entries
deriving DecidableEq

namespace Stage

/-- The loop that starts its next round at this stage. -/
def loop? : Stage → Option Loop
  | gaps _ => some .items
  | text _ => some .pieces
  | row => some .codes
  | list => some .entries
  | _ => none

/-- The stage behind the keyword of a directive. -/
def behindKeyword (equals : Bool) : Directive.Subject → Stage
  | .start => if equals then startNumber else inside
  | .row => row
  | .variableBytes => value false
  | .assignment => assignment
  | .nothing => inside
  | .collapse => inside
  | .unknown _ => inside

/-- How many moves can follow at the same place, at most. -/
def rank : Stage → Nat
  | gaps _ => 2
  | number => 2
  | text _ => 2
  | assignment => 2
  | inside => 0
  | _ => 1

theorem rank_le (stage : Stage) : stage.rank ≤ 2 := by cases stage <;> simp [rank]

theorem rank_eq_of_loop? {stage other : Stage} {loop : Loop} (h : stage.loop? = some loop)
    (h' : other.loop? = some loop) : stage.rank = other.rank := by
  cases stage <;> cases h <;> cases other <;> cases h' <;> rfl

end Stage

/-! ## Moves -/

theorem Assembly.ne_nil_of_startsDirective {text : List Char} (h : startsDirective text = true) : text ≠ [] := by
  rintro rfl
  cases h

theorem Line.length_readCommand_lt {c next : Cursor} {command : UInt8} (h : readCommand c = .ok (command, next)) :
    next.rest.length < c.rest.length := by
  obtain ⟨token, htoken, -, -, rfl⟩ := readCommand_eq_ok_iff.mp h
  have hpeek := (Grammar.exists_of_read? htoken).1
  exact Cursor.length_advance_lt token.positive (Cursor.rest_ne_nil_of_peek hpeek)

/-- How a pass goes on. -/
inductive Moves (files : FileReader) (filename : List Char) : PassState → PassState → Prop where
  /-- What separates the items is skipped. -/
  | skip (a : Assembly) (c : Cursor) : Moves files filename ⟨.gaps a, c⟩ ⟨.item a, c.skipGaps⟩
  /-- An item has been read. -/
  | item {a : Assembly} {c next : Cursor} (hc : c.rest ≠ []) (h : (a.step files filename c).next = .ok next) :
    Moves files filename ⟨.item a, c⟩ ⟨.gaps (a.step files filename c).assembly, next⟩
  -- Lines
  | digits {a : Assembly} {c : Cursor} (hc : c.rest ≠ []) (hstart : Assembly.startsDirective c.rest = false) :
    Moves files filename ⟨.item a, c⟩ ⟨.inside, c.advance (c.rest.takeWhile Text.isDecimal).length⟩
  | number {a : Assembly} {c next : Cursor} {n : Nat} (hstart : Assembly.startsDirective c.rest = false)
    (hnumber : Line.readNumber c = .ok (n, next))
    (horder : Line.checkOrder n a.lastNumber c.position next = .ok ()) :
    Moves files filename ⟨.item a, c⟩ ⟨.number, next⟩
  | spacing {c next : Cursor} (h : Line.readSpacing c = .ok next) :
    Moves files filename ⟨.number, c⟩ ⟨.command, next⟩
  | token {c : Cursor} {lexeme : Lexeme UInt8} (h : Grammar.statement.read? c = .ok (some lexeme)) :
    Moves files filename ⟨.command, c⟩ ⟨.inside, c.advance lexeme.width⟩
  | command {c next : Cursor} {command : UInt8} (h : Line.readCommand c = .ok (command, next)) :
    Moves files filename ⟨.command, c⟩ ⟨.text (Line.bodyMode command), next⟩
  | continuation (mode : Body.Mode) (c : Cursor) :
    Moves files filename ⟨.text mode, c⟩ ⟨.piece mode, c.skipContinuation⟩
  | piece {mode : Body.Mode} {c : Cursor} {lexeme : Lexeme Body.Piece} (hpeek : c.peek ≠ '\n')
    (h : Body.piece files mode c = .ok lexeme) :
    Moves files filename ⟨.piece mode, c⟩ ⟨.text lexeme.value.next, c.advance lexeme.width⟩
  -- Directives
  | keyword {a : Assembly} {c : Cursor} (hstart : Assembly.startsDirective c.rest = true)
    (hknown : ∀ word, Directive.subject (Directive.head c.rest).keyword ≠ .unknown word) :
    Moves files filename ⟨.item a, c⟩
      ⟨.behindKeyword (Directive.head c.rest).equals (Directive.subject (Directive.head c.rest).keyword),
        c.advance (Directive.head c.rest).width⟩
  | indent {a : Assembly} {c : Cursor} {word : List Char} (hstart : Assembly.startsDirective c.rest = true)
    (hunknown : Directive.subject (Directive.head c.rest).keyword = .unknown word) :
    Moves files filename ⟨.item a, c⟩ ⟨.inside, c.advance (Directive.head c.rest).indent⟩
  | ending {a : Assembly} {c behind : Cursor} {directive : Directive} {x : Assembly × Journal}
    (hstart : Assembly.startsDirective c.rest = true)
    (hread : (Directive.read files c).result = .ok (directive, behind))
    (hobey : a.obey c.position behind directive = .ok x) :
    Moves files filename ⟨.item a, c⟩ ⟨.inside, behind.skipSpacing⟩
  | startDigits (c : Cursor) :
    Moves files filename ⟨.startNumber, c⟩ ⟨.inside, c.advance (c.rest.takeWhile Text.isDecimal).length⟩
  | code {c : Cursor} {lexeme : Lexeme Emission} (hpeek : c.peek ≠ '\n')
    (h : readLetters files .remark c = .ok lexeme) (hbytes : lexeme.value.bytes.contains Token.lineEnd = false) :
    Moves files filename ⟨.row, c⟩ ⟨.row, c.advance lexeme.width⟩
  | refusedCode {c : Cursor} {lexeme : Lexeme Emission} (hpeek : c.peek ≠ '\n')
    (h : readLetters files .remark c = .ok lexeme) (hbytes : lexeme.value.bytes.contains Token.lineEnd = true) :
    Moves files filename ⟨.row, c⟩ ⟨.inside, c.advance lexeme.width⟩
  | name {c : Cursor} (hname : Directive.nameWidth c.rest ≠ 0)
    (hequals : Directive.equalsWidth (c.rest.drop (Directive.nameWidth c.rest)) ≠ 0) :
    Moves files filename ⟨.assignment, c⟩ ⟨.value true, c.advance (Directive.nameWidth c.rest +
      Directive.equalsWidth (c.rest.drop (Directive.nameWidth c.rest)))⟩
  | settingNumber {c next : Cursor} {n : Nat} (hpeek : c.peek ≠ '[')
    (h : Directive.readInteger .valueExpected c = .ok (n, next)) :
    Moves files filename ⟨.value true, c⟩ ⟨.inside, next⟩
  | bracket {takesNumber : Bool} {c : Cursor} (hpeek : c.peek = '[') :
    Moves files filename ⟨.value takesNumber, c⟩ ⟨.inside, c.advance 1⟩
  | opening {takesNumber : Bool} {c : Cursor} (hpeek : c.peek = '[') :
    Moves files filename ⟨.value takesNumber, c⟩ ⟨.list, (c.advance 1).skipSpacing⟩
  | integer {c behind : Cursor} {n : Nat} (hpeek : c.peek ≠ ']')
    (h : Directive.readInteger .numberExpected c = .ok (n, behind)) :
    Moves files filename ⟨.list, c⟩ ⟨.inside, behind⟩
  | separator {c behind : Cursor} {n : Nat} (hpeek : c.peek ≠ ']')
    (h : Directive.readInteger .numberExpected c = .ok (n, behind)) (hn : n ≤ 255) :
    Moves files filename ⟨.list, c⟩ ⟨.inside, behind.skipSpacing⟩
  | comma {c behind : Cursor} {n : Nat} (hpeek : c.peek ≠ ']')
    (h : Directive.readInteger .numberExpected c = .ok (n, behind)) (hn : n ≤ 255)
    (hcomma : behind.skipSpacing.peek = ',') :
    Moves files filename ⟨.list, c⟩ ⟨.inside, behind.skipSpacing.advance 1⟩
  | entry {c behind : Cursor} {n : Nat} (hpeek : c.peek ≠ ']')
    (h : Directive.readInteger .numberExpected c = .ok (n, behind)) (hn : n ≤ 255)
    (hmore : behind.skipSpacing.peek ≠ '\n') :
    Moves files filename ⟨.list, c⟩ ⟨.list, Directive.skipComma behind.skipSpacing⟩
  | closing {c : Cursor} (hpeek : c.peek = ']') : Moves files filename ⟨.list, c⟩ ⟨.inside, c.advance 1⟩

namespace Moves

variable {files : FileReader} {filename : List Char} {x y : PassState}

/-- Cursors further on are kept by going on. -/
theorem codeCourse_advance (files : FileReader) (c : Cursor) :
    CodeCourse files (fun next => ∃ n, next = c.advance n) (fun _ => True) where
  advance := by
    rintro _ n ⟨m, rfl⟩
    exact ⟨m + n, (c.advance_add m n).symm⟩
  complaint _ _ _ := trivial
  numeral _ _ _ _ := trivial
  unwritable _ _ _ := trivial
  address _ _ := trivial
  unreadable _ _ _ := trivial
  token _ _ _ _ := trivial
  figure _ _ := trivial

/-- **One move.** A move advances the cursor. -/
theorem exists_advance (h : Moves files filename x y) : ∃ n, y.cursor = x.cursor.advance n := by
  have hcourse := codeCourse_advance files x.cursor
  have hstart : ∃ n, x.cursor = x.cursor.advance n := ⟨0, rfl⟩
  cases h with
  | skip a c => exact hcourse.skipGaps hstart
  | item hc hnext => exact (hcourse.step filename _ hstart).1.of_ok hnext
  | digits hc hstart => exact ⟨_, rfl⟩
  | number hstart' hnumber horder => exact (hcourse.readNumber hstart).of_ok hnumber
  | spacing hspacing => exact (hcourse.readSpacing hstart).of_ok hspacing
  | token htoken => exact ⟨_, rfl⟩
  | command hcommand => exact (hcourse.readCommand hstart).of_ok hcommand
  | continuation mode c => exact ⟨_, rfl⟩
  | piece hpeek hpiece => exact ⟨_, rfl⟩
  | keyword hstart' hknown => exact ⟨_, rfl⟩
  | indent hstart' hunknown => exact ⟨_, rfl⟩
  | ending hstart' hread hobey => exact hcourse.skipSpacing ((hcourse.readDirective hstart).of_ok hread).1
  | startDigits c => exact ⟨_, rfl⟩
  | code hpeek hread hbytes => exact ⟨_, rfl⟩
  | refusedCode hpeek hread hbytes => exact ⟨_, rfl⟩
  | name hname hequals => exact ⟨_, rfl⟩
  | settingNumber hpeek hread => exact (hcourse.readInteger .valueExpected hstart).of_ok hread
  | bracket hpeek => exact ⟨_, rfl⟩
  | opening hpeek => exact hcourse.skipSpacing (hcourse.advance 1 hstart)
  | integer hpeek hread => exact (hcourse.readInteger .numberExpected hstart).of_ok hread
  | separator hpeek hread hn => exact hcourse.skipSpacing ((hcourse.readInteger .numberExpected hstart).of_ok hread)
  | comma hpeek hread hn hcomma =>
    exact hcourse.advance 1 (hcourse.skipSpacing ((hcourse.readInteger .numberExpected hstart).of_ok hread))
  | entry hpeek hread hn hmore =>
    exact hcourse.skipComma (hcourse.skipSpacing ((hcourse.readInteger .numberExpected hstart).of_ok hread))
  | closing hpeek => exact ⟨_, rfl⟩

theorem length_le (h : Moves files filename x y) : y.cursor.rest.length ≤ x.cursor.rest.length := by
  obtain ⟨n, hn⟩ := h.exists_advance
  rw [hn]
  exact x.cursor.length_advance_le n

/-- A move to a stage that is not lower uses up text. -/
theorem lower_or_shorter (h : Moves files filename x y) :
    y.stage.rank < x.stage.rank ∨ y.cursor.rest.length < x.cursor.rest.length := by
  cases h with
  | skip a c => exact .inl Nat.one_lt_two
  | item hc hnext => exact .inr (Assembly.length_step_lt hc hnext)
  | digits hc hstart => exact .inl Nat.one_pos
  | number hstart hnumber horder => exact .inr (Line.length_readNumber_lt hnumber)
  | spacing hspacing => exact .inl Nat.one_lt_two
  | token htoken => exact .inl Nat.one_pos
  | command hcommand => exact .inr (Line.length_readCommand_lt hcommand)
  | continuation mode c => exact .inl Nat.one_lt_two
  | piece hpeek hpiece => exact .inr (Cursor.length_advance_lt (Lexeme.positive _) (Cursor.rest_ne_nil_of_peek hpeek))
  | keyword hstart hknown =>
    exact .inr (Cursor.length_advance_lt (Nat.lt_of_lt_of_le Nat.two_pos (Directive.two_le_width_head _))
      (Assembly.ne_nil_of_startsDirective hstart))
  | indent hstart hunknown => exact .inl Nat.one_pos
  | ending hstart hread hobey => exact .inl Nat.one_pos
  | startDigits c => exact .inl Nat.one_pos
  | code hpeek hread hbytes =>
    exact .inr (Cursor.length_advance_lt (Lexeme.positive _) (Cursor.rest_ne_nil_of_peek hpeek))
  | refusedCode hpeek hread hbytes => exact .inl Nat.one_pos
  | name hname hequals => exact .inl Nat.one_lt_two
  | settingNumber hpeek hread => exact .inl Nat.one_pos
  | bracket hpeek => exact .inl Nat.one_pos
  | opening hpeek =>
    have hne := Cursor.rest_ne_nil_of_peek (ne_of_eq_of_ne hpeek (by decide))
    exact .inr (Nat.lt_of_le_of_lt (Cursor.length_skipSpacing_le _) (Cursor.length_advance_lt Nat.one_pos hne))
  | integer hpeek hread => exact .inl Nat.one_pos
  | separator hpeek hread hn => exact .inl Nat.one_pos
  | comma hpeek hread hn hcomma => exact .inl Nat.one_pos
  | entry hpeek hread hn hmore =>
    have hspacing := Nat.lt_of_le_of_lt (Cursor.length_skipSpacing_le _) (Directive.length_readInteger_lt hread)
    exact .inr (Nat.lt_of_le_of_lt (Directive.length_skipComma_le _) hspacing)
  | closing hpeek => exact .inl Nat.one_pos

end Moves

namespace PassState

/-- What the moves behind a state can use up: three for each character, and the rank of the stage. -/
def weight (x : PassState) : Nat := 3 * x.cursor.rest.length + x.stage.rank

end PassState

namespace Moves

variable {files : FileReader} {filename : List Char} {x y : PassState}

/-- **Progress.** Every move takes weight from the state. -/
theorem weight_lt (h : Moves files filename x y) : y.weight < x.weight := by
  have hlength := h.length_le
  have hrank := y.stage.rank_le
  unfold PassState.weight
  rcases h.lower_or_shorter with hlower | hshorter <;> omega

theorem weight_lt_of_path (h : TransGen (Moves files filename) x y) : y.weight < x.weight := by
  induction h with
  | single hmove => exact hmove.weight_lt
  | tail _ hmove ih => exact Nat.lt_trans hmove.weight_lt ih

/-- **Rounds.** From one round of a loop to another, text is used up. -/
theorem length_lt_of_round {loop : Loop} (h : TransGen (Moves files filename) x y)
    (hx : x.stage.loop? = some loop) (hy : y.stage.loop? = some loop) :
    y.cursor.rest.length < x.cursor.rest.length := by
  have hweight := weight_lt_of_path h
  have hrank := Stage.rank_eq_of_loop? hx hy
  unfold PassState.weight at hweight
  omega

/-- A row of moves is no longer than the weight that it starts with. -/
theorem length_le_weight {states : List PassState} (h : (x :: states).IsChain (Moves files filename)) :
    states.length ≤ x.weight := by
  induction states generalizing x with
  | nil => exact Nat.zero_le _
  | cons y states ih =>
    obtain ⟨hmove, hrest⟩ := List.isChain_cons_cons.mp h
    exact Nat.lt_of_le_of_lt (ih hrest) hmove.weight_lt

end Moves

/-! ## What the stages read -/

namespace PassState

/-- What the reader of a stage comes to from the place of the state, whatever it has collected before: the place
behind what it reads, or a fault. -/
inductive Comes (files : FileReader) : PassState → Except Fault Cursor → Prop where
  | text (mode : Body.Mode) (c : Cursor) (done : List UInt8) (events : Journal) :
    Comes files ⟨.text mode, c⟩ ((Body.readFrom files mode c done events).result.map Prod.snd)
  | piece (mode : Body.Mode) (c : Cursor) (done : List UInt8) (events : Journal) :
    Comes files ⟨.piece mode, c.skipContinuation⟩ ((Body.readFrom files mode c done events).result.map Prod.snd)
  | row (c : Cursor) (done : List UInt8) (events : Journal) :
    Comes files ⟨.row, c⟩ ((Row.readFrom files c done events).result.map Prod.snd)
  | list (c : Cursor) (done : List UInt8) :
    Comes files ⟨.list, c⟩ ((Directive.readBytesFrom c done).map Prod.snd)
  | bytes (c : Cursor) : Comes files ⟨.value false, c⟩ ((Directive.readBytes c).map Prod.snd)
  | setting (c : Cursor) : Comes files ⟨.value true, c⟩ ((Directive.readSetting c).map Prod.snd)
  | assignment (c : Cursor) : Comes files ⟨.assignment, c⟩ ((Directive.readAssignment c).map Prod.snd)
  | startNumber (c : Cursor) : Comes files ⟨.startNumber, c⟩ ((Line.readNumber c).map Prod.snd)

/-- How the reader of a stage ends: it leaves its loop at the end of what it reads, or it fails. -/
inductive Stops (files : FileReader) : PassState → Except Fault Cursor → Prop where
  | lineEnd {mode : Body.Mode} {c : Cursor} (hpeek : c.peek = '\n') (hmode : mode ≠ .quotation) :
    Stops files ⟨.piece mode, c⟩ (.ok c)
  | unclosed {c : Cursor} (hpeek : c.peek = '\n') :
    Stops files ⟨.piece .quotation, c⟩ (.error (c.fault .stringNotClosed))
  | piece {mode : Body.Mode} {c : Cursor} {fault : Fault} (hpeek : c.peek ≠ '\n')
    (h : Body.piece files mode c = .error fault) : Stops files ⟨.piece mode, c⟩ (.error fault)
  | rowEnd {c : Cursor} (hpeek : c.peek = '\n') : Stops files ⟨.row, c⟩ (.ok c)
  | code {c : Cursor} {fault : Fault} (hpeek : c.peek ≠ '\n') (h : readLetters files .remark c = .error fault) :
    Stops files ⟨.row, c⟩ (.error fault)
  | lineEndByte {c : Cursor} {lexeme : Lexeme Emission} (hpeek : c.peek ≠ '\n')
    (h : readLetters files .remark c = .ok lexeme) (hbytes : lexeme.value.bytes.contains Token.lineEnd = true) :
    Stops files ⟨.row, c⟩ (.error ((c.advance lexeme.width).faultAt c.position .lineEndInRow))
  | closing {c : Cursor} (hpeek : c.peek = ']') : Stops files ⟨.list, c⟩ (.ok (c.advance 1))
  | integer {c : Cursor} {fault : Fault} (hpeek : c.peek ≠ ']')
    (h : Directive.readInteger .numberExpected c = .error fault) : Stops files ⟨.list, c⟩ (.error fault)
  | outOfRange {c behind : Cursor} {n : Nat} (hpeek : c.peek ≠ ']')
    (h : Directive.readInteger .numberExpected c = .ok (n, behind)) (hn : 255 < n) :
    Stops files ⟨.list, c⟩ (.error (behind.faultAbout c.position n (.valueOutOfRange n)))
  | unended {c behind : Cursor} {n : Nat} (hpeek : c.peek ≠ ']')
    (h : Directive.readInteger .numberExpected c = .ok (n, behind)) (hn : n ≤ 255)
    (hend : behind.skipSpacing.peek = '\n') :
    Stops files ⟨.list, c⟩ (.error (behind.skipSpacing.fault .closingExpected))
  | noBracket {c : Cursor} (hpeek : c.peek ≠ '[') :
    Stops files ⟨.value false, c⟩ (.error (c.fault .openingExpected))
  | settingNumber {c : Cursor} (hpeek : c.peek ≠ '[') :
    Stops files ⟨.value true, c⟩ ((Directive.readInteger .valueExpected c).map Prod.snd)
  | noName {c : Cursor} (hname : Directive.nameWidth c.rest = 0 ∨
      Directive.equalsWidth (c.rest.drop (Directive.nameWidth c.rest)) = 0) :
    Stops files ⟨.assignment, c⟩ (.error (c.fault .assignmentExpected))
  | startNumber (c : Cursor) : Stops files ⟨.startNumber, c⟩ ((Line.readNumber c).map Prod.snd)

variable {files : FileReader} {x : PassState} {r : Except Fault Cursor}

theorem piece_stops_or_moves (filename : List Char) (mode : Body.Mode) (c : Cursor) (done : List UInt8)
    (events : Journal) :
    Stops files ⟨.piece mode, c.skipContinuation⟩ ((Body.readFrom files mode c done events).result.map Prod.snd) ∨
      ∃ y, Moves files filename ⟨.piece mode, c.skipContinuation⟩ y ∧
        Comes files y ((Body.readFrom files mode c done events).result.map Prod.snd) := by
  by_cases hpeek : c.skipContinuation.peek = '\n'
  · by_cases hmode : mode = .quotation
    · subst hmode
      rw [Body.readFrom_of_unclosed hpeek]
      exact .inl (.unclosed hpeek)
    · rw [Body.readFrom_of_lineEnd hpeek hmode]
      exact .inl (.lineEnd hpeek hmode)
  · cases hpiece : Body.piece files mode c.skipContinuation with
    | error fault =>
      rw [Body.readFrom_of_error hpeek hpiece]
      exact .inl (.piece hpeek hpiece)
    | ok lexeme =>
      rw [Body.readFrom_of_piece hpeek hpiece]
      exact .inr ⟨_, .piece hpeek hpiece, .text _ _ _ _⟩

theorem row_stops_or_moves (filename : List Char) (c : Cursor) (done : List UInt8) (events : Journal) :
    Stops files ⟨.row, c⟩ ((Row.readFrom files c done events).result.map Prod.snd) ∨
      ∃ y, Moves files filename ⟨.row, c⟩ y ∧
        Comes files y ((Row.readFrom files c done events).result.map Prod.snd) := by
  by_cases hpeek : c.peek = '\n'
  · rw [Row.readFrom_of_lineEnd hpeek]
    exact .inl (.rowEnd hpeek)
  · cases hread : readLetters files .remark c with
    | error fault =>
      rw [Row.readFrom_of_error hpeek hread]
      exact .inl (.code hpeek hread)
    | ok lexeme =>
      cases hbytes : lexeme.value.bytes.contains Token.lineEnd with
      | true =>
        rw [Row.readFrom_of_lineEndByte hpeek hread hbytes]
        exact .inl (.lineEndByte hpeek hread hbytes)
      | false =>
        rw [Row.readFrom_of_letters hpeek hread hbytes]
        exact .inr ⟨_, .code hpeek hread hbytes, .row _ _ _⟩

theorem list_stops_or_moves (files : FileReader) (filename : List Char) (c : Cursor) (done : List UInt8) :
    Stops files ⟨.list, c⟩ ((Directive.readBytesFrom c done).map Prod.snd) ∨
      ∃ y, Moves files filename ⟨.list, c⟩ y ∧ Comes files y ((Directive.readBytesFrom c done).map Prod.snd) := by
  by_cases hpeek : c.peek = ']'
  · rw [Directive.readBytesFrom_of_closing hpeek]
    exact .inl (.closing hpeek)
  · have hopen : (c.peek == ']') = false := beq_eq_false_iff_ne.mpr hpeek
    cases hread : Directive.readInteger .numberExpected c with
    | error fault =>
      rw [Directive.readBytesFrom_of_error hopen hread]
      exact .inl (.integer hpeek hread)
    | ok value =>
      obtain ⟨n, behind⟩ := value
      rw [Directive.readBytesFrom_of_integer hopen hread]
      split
      · next hn => exact .inl (.outOfRange hpeek hread hn)
      · next hn =>
        split
        · next hend => exact .inl (.unended hpeek hread (Nat.le_of_not_lt hn) (beq_iff_eq.mp hend))
        · next hend => exact .inr ⟨_, .entry hpeek hread (Nat.le_of_not_lt hn) (mt beq_iff_eq.mpr hend), .list _ _⟩

/-- **One stage.** The reader of a stage ends there, or a move leads to a stage whose reader comes to the same. -/
theorem Comes.stops_or_moves (h : x.Comes files r) (filename : List Char) :
    x.Stops files r ∨ ∃ y, Moves files filename x y ∧ y.Comes files r := by
  cases h with
  | text mode c done events => exact .inr ⟨_, .continuation mode c, .piece mode c done events⟩
  | piece mode c done events => exact piece_stops_or_moves filename mode c done events
  | row c done events => exact row_stops_or_moves filename c done events
  | list c done => exact list_stops_or_moves files filename c done
  | bytes c =>
    unfold Directive.readBytes
    split
    · next hpeek => exact .inr ⟨_, .opening (beq_iff_eq.mp hpeek), .list _ _⟩
    · next hpeek => exact .inl (.noBracket (mt beq_iff_eq.mpr hpeek))
  | setting c =>
    by_cases hpeek : c.peek = '['
    · rw [Directive.place_readSetting_of_bracket hpeek]
      exact .inr ⟨_, .opening hpeek, .list _ _⟩
    · rw [Directive.place_readSetting_of_number hpeek]
      exact .inl (.settingNumber hpeek)
  | assignment c =>
    by_cases hname : Directive.nameWidth c.rest = 0 ∨
        Directive.equalsWidth (c.rest.drop (Directive.nameWidth c.rest)) = 0
    · rw [Directive.readAssignment_of_noName hname]
      exact .inl (.noName hname)
    · obtain ⟨hwidth, hequals⟩ := not_or.mp hname
      rw [Directive.place_readAssignment hwidth hequals]
      exact .inr ⟨_, .name hwidth hequals, .setting _⟩
  | startNumber c => exact .inl (.startNumber c)

/-- **Readers.** What the reader of a stage comes to is where the moves from the stage end. By induction on the
weight of the state, which every move lowers. -/
theorem Comes.exists_stops (h : x.Comes files r) (filename : List Char) :
    ∃ y, ReflTransGen (Moves files filename) x y ∧ y.Stops files r := by
  induction hweight : x.weight using Nat.strongRecOn generalizing x with
  | _ n ih =>
    rcases h.stops_or_moves filename with hstops | ⟨y, hmove, hy⟩
    · exact ⟨x, .refl, hstops⟩
    · obtain ⟨z, hpath, hstops⟩ := ih y.weight (hweight ▸ hmove.weight_lt) hy rfl
      exact ⟨z, .head hmove hpath, hstops⟩

end PassState

/-! ## What an item opens -/

namespace Assembly

/-- What an item reads with the readers of the stages: the text of a line behind its keyword, or what stands behind
the keyword of a directive. -/
inductive Opens (files : FileReader) (a : Assembly) (c : Cursor) : PassState → Except Fault Cursor → Prop where
  | line {number : Nat} {afterNumber atCommand afterCommand : Cursor} {command : UInt8}
    (hstart : startsDirective c.rest = false) (hnumber : Line.readNumber c = .ok (number, afterNumber))
    (horder : Line.checkOrder number a.lastNumber c.position afterNumber = .ok ())
    (hspacing : Line.readSpacing afterNumber = .ok atCommand)
    (hcommand : Line.readCommand atCommand = .ok (command, afterCommand)) :
    Opens files a c ⟨.text (Line.bodyMode command), afterCommand⟩
      ((Body.read files (Line.bodyMode command) afterCommand).result.map Prod.snd)
  | directive (hstart : startsDirective c.rest = true)
    (hstage : Stage.behindKeyword (Directive.head c.rest).equals
      (Directive.subject (Directive.head c.rest).keyword) ≠ .inside) :
    Opens files a c
      ⟨.behindKeyword (Directive.head c.rest).equals (Directive.subject (Directive.head c.rest).keyword),
        c.advance (Directive.head c.rest).width⟩
      ((Directive.read files c).result.map Prod.snd)

variable {files : FileReader} {a : Assembly} {c : Cursor} {y : PassState} {r : Except Fault Cursor}

/-- What an item opens is read by the reader of its stage. -/
theorem Opens.comes (h : a.Opens files c y r) : y.Comes files r := by
  cases h with
  | line hstart hnumber horder hspacing hcommand => exact .text _ _ _ _
  | directive hstart hstage =>
    unfold Directive.read Directive.readBehind
    dsimp only
    generalize Directive.subject (Directive.head c.rest).keyword = subject at hstage ⊢
    cases subject with
    | nothing | collapse | unknown => exact absurd rfl hstage
    | start =>
      cases hequals : (Directive.head c.rest).equals with
      | false => exact absurd (by rw [hequals]; rfl) hstage
      | true =>
        dsimp only [Outcome.ofExcept]
        rw [Directive.place_readStart]
        exact .startNumber _
    | row =>
      dsimp only
      rw [Directive.place_readRow]
      exact .row _ _ _
    | variableBytes =>
      dsimp only [Outcome.ofExcept]
      rw [Directive.place_readVariables]
      exact .bytes _
    | assignment => exact .assignment _

/-- The item fails with the reader that it opens, and otherwise ends where that reader ends, or behind the spacing
there. -/
theorem Opens.next_step (h : a.Opens files c y r) (filename : List Char) :
    (∀ fault, r = .error fault → (a.step files filename c).next = .error fault) ∧
      ∀ behind next, r = .ok behind → (a.step files filename c).next = .ok next →
        next = behind ∨ next = behind.skipSpacing := by
  cases h with
  | @line number afterNumber atCommand afterCommand command hstart hnumber horder hspacing hcommand =>
    unfold step
    rw [if_neg (Bool.eq_false_iff.mp hstart)]
    unfold stepLine
    dsimp only
    constructor
    · intro fault hfault
      cases hbody : (Body.read files (Line.bodyMode command) afterCommand).result with
      | error why =>
        rw [hbody] at hfault
        cases hfault
        rw [Line.read_error_of_body hnumber horder hspacing hcommand hbody]
      | ok value =>
        rw [hbody] at hfault
        cases hfault
    · intro behind next hbehind hnext
      split at hnext
      · cases hnext
      · next record here hread =>
        cases hnext
        cases Line.read_eq_ok_iff.mp hread with
        | mk hnumber' horder' hspacing' hcommand' hbody hlength =>
          cases hnumber.symm.trans hnumber'
          cases hspacing.symm.trans hspacing'
          cases hcommand.symm.trans hcommand'
          rw [hbody] at hbehind
          exact .inl (Except.ok.inj hbehind)
  | directive hstart hstage =>
    unfold step
    rw [if_pos hstart]
    unfold stepDirective
    dsimp only
    cases hread : (Directive.read files c).result with
    | error fault =>
      refine ⟨fun _ hfault => hfault, fun behind next hbehind => ?_⟩
      cases hbehind
    | ok value =>
      obtain ⟨directive, here⟩ := value
      refine ⟨fun fault hfault => ?_, fun behind next hbehind hnext => ?_⟩
      · cases hfault
      · cases hbehind
        dsimp only at hnext
        split at hnext
        · cases hnext
        · exact .inr (expectLineEnd_eq_ok_iff.mp hnext).1

end Assembly

/-! ## The pass over a listing -/

namespace Source

/-- The states of the pass over a listing. -/
def Reaches (files : FileReader) (s : Source) : PassState → Prop :=
  ReflTransGen (Moves files s.filename) ⟨.gaps {}, Cursor.start s.text⟩

variable {files : FileReader} {s : Source} {x y : PassState}

theorem Reaches.move (h : s.Reaches files x) (hmove : Moves files s.filename x y) : s.Reaches files y := h.tail hmove

/-- **Cursors.** In every state the cursor stands in the text. -/
theorem Reaches.isIn (h : s.Reaches files x) : x.cursor.IsIn s.text := by
  induction h with
  | refl => exact Cursor.isIn_start s.text
  | tail _ hmove ih =>
    obtain ⟨n, hn⟩ := hmove.exists_advance
    exact hn ▸ ih.advance n

/-- **The end.** The pass ends at the end of the text, or at an item that cannot be read. By induction on the run. -/
theorem exists_end_of_run {a : Assembly} {c : Cursor} {events : Journal} (h : s.Reaches files ⟨.gaps a, c⟩) :
    ∃ a' here, s.Reaches files ⟨.item a', here⟩ ∧
      ((here.rest = [] ∧ ∃ noted, a.run files s.filename c events = a'.finish noted here) ∨
        here.rest ≠ [] ∧ ∃ fault, (a'.step files s.filename here).next = .error fault ∧
          (a.run files s.filename c events).fault = some fault) := by
  fun_induction Assembly.run files s.filename a c events with
  | case1 a c events here hend => exact ⟨a, here, h.move (.skip a c), .inl ⟨hend, events, rfl⟩⟩
  | case2 a c events here hend item fault hnext =>
    exact ⟨a, here, h.move (.skip a c), .inr ⟨hend, fault, hnext, rfl⟩⟩
  | case3 a c events here hend item next hnext _ ih => exact ih ((h.move (.skip a c)).move (.item hend hnext))

theorem exists_end (files : FileReader) (s : Source) : ∃ a here, s.Reaches files ⟨.item a, here⟩ ∧
    ((here.rest = [] ∧ ∃ noted, s.collect files = a.finish noted here) ∨
      here.rest ≠ [] ∧ ∃ fault, (a.step files s.filename here).next = .error fault ∧
        (s.collect files).fault = some fault) := exists_end_of_run .refl

/-- What an item opens is a state of the pass. -/
theorem Reaches.opens {a : Assembly} {c : Cursor} {r : Except Fault Cursor} (h : s.Reaches files ⟨.item a, c⟩)
    (hopens : a.Opens files c y r) : s.Reaches files y := by
  cases hopens with
  | line hstart hnumber horder hspacing hcommand =>
    exact ((h.move (.number hstart hnumber horder)).move (.spacing hspacing)).move (.command hcommand)
  | directive hstart hstage =>
    refine h.move (.keyword hstart fun word hunknown => hstage ?_)
    rw [hunknown]
    rfl

/-- The reader of a state of the pass ends at a state of the pass. -/
theorem Reaches.exists_stops {r : Except Fault Cursor} (h : s.Reaches files x) (hcomes : x.Comes files r) :
    ∃ y, ReflTransGen (Moves files s.filename) x y ∧ s.Reaches files y ∧ y.Stops files r := by
  obtain ⟨y, hpath, hstops⟩ := hcomes.exists_stops s.filename
  exact ⟨y, hpath, ReflTransGen.trans h hpath, hstops⟩

end Source

/-! ## Results -/

/-- The error in a listing that a failure is. -/
def EncodingFailure.error? : EncodingFailure → Option SourceError
  | .invalid e => some e
  | .unreadable e => some e
  | _ => none

namespace Source

variable {files : FileReader} {s : Source}

/-- An image that does not fit is no error at a place of the listing. -/
theorem error?_of_image {a : Assembly} {failure : EncodingFailure} (h : a.image = .error failure) :
    failure.error? = none := by
  unfold Assembly.image at h
  dsimp only at h
  split at h
  · cases h
    rfl
  · split at h
    · cases h
      rfl
    · cases h

theorem locates_error {failure : EncodingFailure} (h : (s.encodeImage files).result = .error failure) :
    ∀ e ∈ failure.error?, ∃ line, e.sourceLine = some line ∧ s.Locates e.location line := by
  intro e he
  rcases encodeImage_eq_error_iff.mp h with hprogram | ⟨-, himage⟩
  · obtain ⟨fault, hfault, rfl⟩ := encodeProgram_eq_error_iff.mp hprogram
    refine locates_failure hfault ?_
    cases hfailure : s.failure fault <;> rw [hfailure] at he <;> cases he
    · exact .inl rfl
    · exact .inr rfl
  · rw [error?_of_image himage] at he
    cases he

theorem warnings_encodeImage : (s.encodeImage files).warnings = (s.collect files).events.warnings := by
  unfold Encoding.warnings encodeImage
  dsimp only
  split
  · rfl
  · split
    · rfl
    · exact (Journal.warnings_append _ _).trans (List.append_nil _)

/-- **The states of a pass.** In every state the cursor's line is the number of line ends behind it, and its column
how far it is from the start of that line. The rounds of every loop use up text, and the number of moves is bounded:
the pass comes to the end of the text, or to an item that cannot be read. The states are those of the readers: what an
item opens is read from a state of the pass, and what the reader of a state comes to is where the moves from there end.
Errors and warnings are located in lines of the listing, and errors show their lines. -/
theorem pass_states (files : FileReader) (s : Source) :
    (∀ x, s.Reaches files x → x.cursor.IsIn s.text) ∧
      (∀ x y loop, s.Reaches files x → TransGen (Moves files s.filename) x y → x.stage.loop? = some loop →
        y.stage.loop? = some loop → x.cursor.offset s.text < y.cursor.offset s.text) ∧
      (∀ states, (⟨.gaps {}, Cursor.start s.text⟩ :: states).IsChain (Moves files s.filename) →
        states.length ≤ 3 * s.text.length + 2) ∧
      (∃ a here, s.Reaches files ⟨.item a, here⟩ ∧
        ((here.rest = [] ∧ ∃ noted, s.collect files = a.finish noted here) ∨
          here.rest ≠ [] ∧ ∃ fault, (a.step files s.filename here).next = .error fault ∧
            (s.collect files).fault = some fault)) ∧
      (∀ a c y r, s.Reaches files ⟨.item a, c⟩ → a.Opens files c y r → s.Reaches files y ∧
        y.Comes files r ∧
        (∀ fault, r = .error fault → (a.step files s.filename c).next = .error fault) ∧
        ∀ behind next, r = .ok behind → (a.step files s.filename c).next = .ok next →
          next = behind ∨ next = behind.skipSpacing) ∧
      (∀ x r, s.Reaches files x → x.Comes files r →
        ∃ y, ReflTransGen (Moves files s.filename) x y ∧ s.Reaches files y ∧ y.Stops files r) ∧
      (∀ failure, (s.encodeProgram files).result = .error failure ∨
        (s.encodeImage files).result = .error failure →
        ∀ e ∈ failure.error?, ∃ line, e.sourceLine = some line ∧ s.Locates e.location line) ∧
      (∀ d ∈ (s.encodeProgram files).warnings, ∃ line, s.Locates d.location line) ∧
      ∀ d ∈ (s.encodeImage files).warnings, ∃ line, s.Locates d.location line := by
  refine ⟨fun x hx => hx.isIn, ?_, ?_, exists_end files s,
    fun a c y r h hopens => ⟨h.opens hopens, hopens.comes, hopens.next_step s.filename⟩,
    fun x r h hcomes => h.exists_stops hcomes,
    fun failure h => locates_error (h.elim (fun hprogram => encodeImage_eq_error_iff.mpr (.inl hprogram)) id),
    fun d hd => locates_warning hd, fun d hd => locates_warning (warnings_encodeImage ▸ hd)⟩
  · intro x y loop hreaches hpath hx hy
    have hround := Moves.length_lt_of_round hpath hx hy
    have hlength : x.cursor.rest.length ≤ s.text.length := by
      rw [hreaches.isIn.rest_eq, List.length_drop]
      exact Nat.sub_le _ _
    unfold Cursor.offset
    omega
  · exact fun states hchain => Moves.length_le_weight hchain

end Source

end TapeBasic
