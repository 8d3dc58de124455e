import TapeBasic.Source.Assembly

/-!
# What the readers come to

The readers of a listing turned round: what stands at the cursor if one of them has come to a result, and all
that it has checked on the way. What follows from a result is derived from these lemmas, so that a reader is
taken apart in one place.

* `Body.Takes`: what can be taken for the next piece of a line.
* `Line.Steps`: the steps in which a line is read.
* `Directive.Says`: what stands behind the keyword of a directive.
* `Assembly.Obeys`: what a directive does to what has been collected.
* `Assembly.Goes`: a step that goes on behind a directive or a line.

Results:
* `SpecialCode.emit_cases`, `SpecialCode.exists_of_read?`, `Literal.emit_eq_ok_iff`, `Literal.of_read?`,
  `readLetters_eq_ok_iff`: codes and literals, and what is read where letters stand for themselves.
* `Grammar.exists_of_read?`, `Grammar.exists_of_read?_error`: tokens, and the one fault that they can have.
* `Body.piece_eq_ok_iff`: the pieces of a line are those that can be taken.
* `Line.read_eq_ok_iff`: a line is read in its steps.
* `Directive.readBehind_eq_ok_iff`: a directive says what stands behind its keyword.
* `Assembly.obey_eq_ok_iff`, `Assembly.goes_iff`: what is done is one of these.

The readers that go round have one equation for each way in which a round can end, so that an argument over their
rounds names the round that it is about:

* `Body.readFrom_of_piece`, `Body.readFrom_of_error`, `Body.readFrom_of_lineEnd`, `Body.readFrom_of_unclosed`.
* `Row.readFrom_of_letters`, `Row.readFrom_of_error`, `Row.readFrom_of_lineEndByte`.
* `Directive.readBytesFrom_of_integer`, `Directive.readBytesFrom_of_error`.
-/
namespace TapeBasic

variable {files : FileReader} {c next : Cursor}

/-! ## Codes -/

namespace SpecialCode

/-- The bytes of a code: none, one, as many zeros as it says, or those of its file. -/
theorem emit_cases {code : SpecialCode} {emission : Emission} (h : code.emit files c = .ok emission) :
    (code = .comment ∧ emission = { bytes := [] }) ∨
      (∃ digits n, code = .byte digits ∧ Text.natural? digits = some n ∧ n ≤ 255 ∧
        emission = { bytes := [UInt8.ofNat n] }) ∨
      (∃ digits n, code = .block digits ∧ Text.natural? digits = some n ∧ n ≤ maxBlockSize ∧
        emission = { bytes := List.replicate n 0 }) ∨
      ∃ path bytes, code = .file path ∧ files path = .ok bytes ∧
        emission = { bytes, events := [.fileIncluded path bytes.length] } := by
  unfold emit at h
  split at h
  · cases h
    exact .inl ⟨rfl, rfl⟩
  · next digits =>
    split at h
    · cases h
    · next n hn =>
      split at h
      · cases h
      · next hle =>
        cases h
        exact .inr (.inl ⟨digits, n, rfl, hn, Nat.le_of_not_lt hle, rfl⟩)
  · next digits =>
    split at h
    · cases h
    · next n hn =>
      split at h
      · cases h
      · next hle =>
        cases h
        exact .inr (.inr (.inl ⟨digits, n, rfl, hn, Nat.le_of_not_lt hle, rfl⟩))
  · next path =>
    split at h
    · cases h
    · next bytes hfile =>
      cases h
      exact .inr (.inr (.inr ⟨path, bytes, rfl, hfile, rfl⟩))

theorem exists_of_read? {lexeme : Lexeme Emission} (h : read? files c = .ok (some lexeme)) :
    ∃ code, scan? c.rest = some code ∧ code.value.emit files c = .ok lexeme.value ∧
      lexeme.width = code.width := by
  unfold read? at h
  split at h
  · cases h
  · next code hscan =>
    split at h
    · cases h
    · next emission hemit =>
      cases h
      exact ⟨code, hscan, hemit, rfl⟩

end SpecialCode

/-! ## Tokens -/

namespace Grammar

variable {g : Grammar}

/-- A token is the longest spelling, without the line end that closes it. -/
theorem exists_of_read? {token : Lexeme UInt8} (h : g.read? c = .ok (some token)) :
    c.peek ≠ '\n' ∧ ∃ matched, g.width? c.rest = some matched ∧
      g.lookup (c.rest.take matched) = .ok token.value ∧
      token.width = if (c.rest.take matched).getLast? == some '\n' then matched - 1 else matched := by
  unfold read? at h
  split at h
  · cases h
  · cases h
  · next hscan =>
    cases h
    exact exists_of_scan? hscan

/-- The one fault that a token can have: what matches longest has no token. -/
theorem exists_of_read?_error {fault : Fault} (h : g.read? c = .error fault) :
    fault = .unknownSymbol ∧ ∃ matched why, g.width? c.rest = some matched ∧
      g.lookup (c.rest.take matched) = .error why := by
  unfold read? at h
  split at h
  · next hscan =>
    cases h
    unfold scan? at hscan
    split at hscan
    · cases hscan
    · split at hscan
      · cases hscan
      · next matched hwidth =>
        dsimp only at hscan
        split at hscan
        · next why hlookup =>
          cases hscan
          exact ⟨rfl, matched, why, hwidth, hlookup⟩
        · cases hscan
  · cases h
  · cases h

theorem error_of_read? {fault : Fault} (h : g.read? c = .error fault) : fault = .unknownSymbol :=
  (exists_of_read?_error h).1

end Grammar

/-! ## Literals -/

namespace Literal

theorem emit_eq_ok_iff {literal : List Char} {bytes : List UInt8} : emit c literal = .ok bytes ↔
    ∃ stored characters, StoredNumber.encode (value literal) = .ok stored ∧
      (literal.mapM fun x => Token.ofCharacter? [x]) = some characters ∧
      bytes = characters ++ Token.number :: stored := by
  unfold emit
  constructor
  · intro h
    split at h
    · cases h
    · next stored hstored =>
      split at h
      · cases h
      · next characters hcharacters =>
        cases h
        exact ⟨stored, characters, hstored, hcharacters, rfl⟩
  · rintro ⟨stored, characters, hstored, hcharacters, rfl⟩
    simp only [hstored, hcharacters]

theorem of_read? {literal : Lexeme (List UInt8)} (h : read? c = .ok (some literal)) :
    literal.width = width c.rest ∧ emit c (c.rest.take (width c.rest)) = .ok literal.value := by
  unfold read? at h
  split at h
  · split at h
    · cases h
    · next hemit =>
      cases h
      exact ⟨rfl, hemit⟩
  · cases h

theorem read?_eq_none_iff : read? c = .ok none ↔ width c.rest = 0 := by
  unfold read?
  constructor
  · intro h
    split at h
    · split at h <;> cases h
    · next hwidth => exact Nat.eq_zero_of_not_pos hwidth
  · intro h
    rw [dif_neg (Nat.not_lt_of_le (Nat.le_of_eq h))]

end Literal

/-! ## Pieces -/

/-- Where letters stand for themselves, a code is read, or else a token. -/
theorem readLetters_eq_ok_iff {context : Context} {lexeme : Lexeme Emission} :
    readLetters files context c = .ok lexeme ↔
      SpecialCode.read? files c = .ok (some lexeme) ∨ SpecialCode.read? files c = .ok none ∧
        ∃ token, (Grammar.ofContext context).read? c = .ok (some token) ∧
          lexeme = ⟨{ bytes := [token.value] }, token.width, token.positive⟩ := by
  unfold readLetters
  constructor
  · intro h
    split at h
    · cases h
    · next hcode =>
      cases h
      exact .inl hcode
    · next hcode =>
      split at h
      · cases h
      · cases h
      · next token htoken =>
        cases h
        exact .inr ⟨hcode, token, htoken, rfl⟩
  · rintro (hcode | ⟨hcode, token, htoken, rfl⟩)
    · rw [hcode]
    · simp only [hcode, htoken]

namespace Body

/-- What can be taken for the next piece of a line, in each of the ways to read it. -/
inductive Takes (files : FileReader) (c : Cursor) : Mode → Lexeme Piece → Prop where
  | remark {letters : Lexeme Emission} (h : readLetters files .remark c = .ok letters) :
    Takes files c .remark ⟨⟨letters.value, .remark⟩, letters.width, letters.positive⟩
  | string {letters : Lexeme Emission} (h : readLetters files .quotation c = .ok letters) :
    Takes files c .quotation ⟨⟨letters.value, if c.peek = Text.doubleQuote then .statement false else .quotation⟩,
      letters.width, letters.positive⟩
  | opening {inName : Bool} (hquote : c.peek = Text.doubleQuote) :
    Takes files c (.statement inName) ⟨⟨{ bytes := [Token.quote] }, .quotation⟩, 1, Nat.one_pos⟩
  | literal {literal : Lexeme (List UInt8)} (hquote : c.peek ≠ Text.doubleQuote)
    (h : Literal.read? c = .ok (some literal)) :
    Takes files c (.statement false)
      ⟨⟨{ bytes := literal.value }, .statement false⟩, literal.width, literal.positive⟩
  | code {inName : Bool} {code : Lexeme Emission} (hquote : c.peek ≠ Text.doubleQuote)
    (hliteral : inName = true ∨ Literal.width c.rest = 0) (h : SpecialCode.read? files c = .ok (some code)) :
    Takes files c (.statement inName) ⟨⟨code.value, .statement false⟩, code.width, code.positive⟩
  | token {inName : Bool} {token : Lexeme UInt8} (hquote : c.peek ≠ Text.doubleQuote)
    (hliteral : inName = true ∨ Literal.width c.rest = 0) (hcode : SpecialCode.read? files c = .ok none)
    (h : Grammar.statement.read? c = .ok (some token)) :
    Takes files c (.statement inName) ⟨⟨{ bytes := [token.value] }, .statement (staysInName inName token.value)⟩,
      token.width, token.positive⟩

/-- Where neither a string nor a literal starts, a piece of statement text is a code or a token. -/
theorem statementPiece_eq {inName : Bool} (hquote : c.peek ≠ Text.doubleQuote)
    (hliteral : inName = true ∨ Literal.width c.rest = 0) :
    statementPiece files inName c = statementCode files inName c := by
  unfold statementPiece
  rw [if_neg (mt beq_iff_eq.mp hquote)]
  cases inName with
  | true => rfl
  | false =>
    rw [if_neg Bool.false_ne_true, Literal.read?_eq_none_iff.mpr (hliteral.resolve_left Bool.false_ne_true)]

theorem takes_of_statementCode {inName : Bool} {lexeme : Lexeme Piece} (hquote : c.peek ≠ Text.doubleQuote)
    (hliteral : inName = true ∨ Literal.width c.rest = 0) (h : statementCode files inName c = .ok lexeme) :
    Takes files c (.statement inName) lexeme := by
  unfold statementCode statementToken at h
  split at h
  · cases h
  · next hcode =>
    cases h
    exact .code hquote hliteral hcode
  · next hcode =>
    split at h
    · cases h
    · cases h
    · next htoken =>
      cases h
      exact .token hquote hliteral hcode htoken

theorem takes_of_statementPiece {inName : Bool} {lexeme : Lexeme Piece}
    (h : statementPiece files inName c = .ok lexeme) : Takes files c (.statement inName) lexeme := by
  unfold statementPiece at h
  split at h
  · next hquote =>
    cases h
    exact .opening (beq_iff_eq.mp hquote)
  · next hquote =>
    replace hquote := mt beq_iff_eq.mpr hquote
    split at h
    · next hname => exact takes_of_statementCode hquote (.inl hname) h
    · next hname =>
      obtain rfl := Bool.eq_false_iff.mpr hname
      split at h
      · cases h
      · next hliteral =>
        cases h
        exact .literal hquote hliteral
      · next hnone => exact takes_of_statementCode hquote (.inr (Literal.read?_eq_none_iff.mp hnone)) h

theorem takes_of_piece {mode : Mode} {lexeme : Lexeme Piece} (h : piece files mode c = .ok lexeme) :
    Takes files c mode lexeme := by
  cases mode with
  | remark =>
    unfold piece remarkPiece at h
    dsimp only at h
    split at h
    · cases h
    · next hletters =>
      cases h
      exact .remark hletters
  | statement inName => exact takes_of_statementPiece h
  | quotation =>
    unfold piece quotationPiece at h
    dsimp only at h
    split at h
    · cases h
    · next hletters =>
      cases h
      simp only [beq_iff_eq]
      exact .string hletters

/-- **Pieces.** The next piece of a line is what can be taken for it. -/
theorem piece_eq_ok_iff {mode : Mode} {lexeme : Lexeme Piece} :
    piece files mode c = .ok lexeme ↔ Takes files c mode lexeme := by
  refine ⟨takes_of_piece, fun h => ?_⟩
  cases h with
  | remark h => rw [piece, remarkPiece, h]
  | string h => simp only [piece, quotationPiece, h, beq_iff_eq]
  | opening hquote => rw [piece, statementPiece, if_pos (beq_iff_eq.mpr hquote)]
  | literal hquote h => rw [piece, statementPiece, if_neg (mt beq_iff_eq.mp hquote), if_neg Bool.false_ne_true, h]
  | code hquote hliteral h => rw [piece, statementPiece_eq hquote hliteral, statementCode, h]
  | token hquote hliteral hcode h =>
    rw [piece, statementPiece_eq hquote hliteral, statementCode, hcode]
    simp only [statementToken, h]

/-! ### One round of the loop over a line -/

section Rounds

variable {mode : Mode} {done : List UInt8} {events : Journal}

theorem readFrom_of_lineEnd (hpeek : c.skipContinuation.peek = '\n') (hmode : mode ≠ .quotation) :
    readFrom files mode c done events = ⟨events, .ok (done.reverse, c.skipContinuation)⟩ := by
  rw [readFrom]
  dsimp only
  rw [dif_pos hpeek, if_neg hmode]

theorem readFrom_of_unclosed (hpeek : c.skipContinuation.peek = '\n') :
    readFrom files .quotation c done events = ⟨events, .error (c.skipContinuation.fault .stringNotClosed)⟩ := by
  rw [readFrom]
  dsimp only
  rw [dif_pos hpeek, if_pos rfl]

theorem readFrom_of_error {fault : Fault} (hpeek : c.skipContinuation.peek ≠ '\n')
    (hpiece : piece files mode c.skipContinuation = .error fault) :
    readFrom files mode c done events = ⟨events, .error fault⟩ := by
  rw [readFrom]
  simp only [dif_neg hpeek, hpiece]

theorem readFrom_of_piece {lexeme : Lexeme Piece} (hpeek : c.skipContinuation.peek ≠ '\n')
    (hpiece : piece files mode c.skipContinuation = .ok lexeme) :
    readFrom files mode c done events =
      readFrom files lexeme.value.next (c.skipContinuation.advance lexeme.width)
        (lexeme.value.emission.bytes.reverse ++ done) (events ++ lexeme.value.emission.events) := by
  -- unfolded on the left only: the rounds behind this one stay folded
  rw [readFrom.eq_def files mode c]
  simp only [dif_neg hpeek, hpiece]

end Rounds

end Body

namespace Row

variable {done : List UInt8} {events : Journal} {fault : Fault} {lexeme : Lexeme Emission}

theorem readFrom_of_lineEnd (hpeek : c.peek = '\n') :
    readFrom files c done events = ⟨events, .ok (done.reverse, c)⟩ := by
  rw [readFrom, dif_pos hpeek]

theorem readFrom_of_error (hpeek : c.peek ≠ '\n') (hread : readLetters files .remark c = .error fault) :
    readFrom files c done events = ⟨events, .error fault⟩ := by
  rw [readFrom]
  simp only [dif_neg hpeek, hread]

theorem readFrom_of_lineEndByte (hpeek : c.peek ≠ '\n') (hread : readLetters files .remark c = .ok lexeme)
    (hbytes : lexeme.value.bytes.contains Token.lineEnd = true) :
    readFrom files c done events =
      ⟨events ++ lexeme.value.events, .error ((c.advance lexeme.width).faultAt c.position .lineEndInRow)⟩ := by
  rw [readFrom]
  simp only [dif_neg hpeek, hread, hbytes, if_true]

theorem readFrom_of_letters (hpeek : c.peek ≠ '\n') (hread : readLetters files .remark c = .ok lexeme)
    (hbytes : lexeme.value.bytes.contains Token.lineEnd = false) :
    readFrom files c done events =
      readFrom files (c.advance lexeme.width) (lexeme.value.bytes.reverse ++ done) (events ++ lexeme.value.events) := by
  rw [readFrom.eq_def files c]
  simp only [dif_neg hpeek, hread, hbytes, Bool.false_eq_true, if_false]

end Row

/-! ## Lines -/

namespace Line

theorem readNumber_eq_ok_iff {number : Nat} : readNumber c = .ok (number, next) ↔
    c.rest.takeWhile Text.isDecimal ≠ [] ∧ Text.natural? (c.rest.takeWhile Text.isDecimal) = some number ∧
      number ≤ maxLineNumber ∧ next = c.advance (c.rest.takeWhile Text.isDecimal).length := by
  unfold readNumber
  dsimp only
  constructor
  · intro h
    split at h
    · cases h
    · next hne =>
      split at h
      · cases h
      · next hvalue =>
        split at h
        · cases h
        · next hle =>
          cases h
          exact ⟨mt List.isEmpty_iff.mpr hne, hvalue, Nat.le_of_not_lt hle, rfl⟩
  · rintro ⟨hne, hvalue, hle, rfl⟩
    rw [if_neg (mt List.isEmpty_iff.mp hne), hvalue]
    exact if_neg (Nat.not_lt_of_le hle)

theorem readSpacing_eq_ok_iff : readSpacing c = .ok next ↔
    Cursor.joinedSpacingWidth c.rest ≠ 0 ∧ next = c.advance (Cursor.joinedSpacingWidth c.rest) := by
  unfold readSpacing
  dsimp only
  constructor
  · intro h
    split at h
    · cases h
    · next hne =>
      cases h
      exact ⟨mt beq_iff_eq.mpr hne, rfl⟩
  · rintro ⟨hne, rfl⟩
    exact if_neg (mt beq_iff_eq.mp hne)

theorem readCommand_eq_ok_iff {command : UInt8} : readCommand c = .ok (command, next) ↔
    ∃ token, Grammar.statement.read? c = .ok (some token) ∧ token.value = command ∧
      Token.isCommand command = true ∧
      next = c.advance token.width := by
  unfold readCommand
  constructor
  · intro h
    split at h
    · cases h
    · cases h
    · next token htoken =>
      dsimp only at h
      split at h
      · next hcommand =>
        cases h
        exact ⟨token, htoken, rfl, hcommand, rfl⟩
      · cases h
  · rintro ⟨token, htoken, rfl, hcommand, rfl⟩
    simp only [htoken, hcommand, if_true]

theorem checkOrder_eq_ok_iff {number : Nat} {last : Option Nat} {start : Position} {u : Unit} :
    checkOrder number last start c = .ok u ↔ ∀ n ∈ last, n < number := by
  cases last with
  | none => exact iff_of_true rfl nofun
  | some m =>
    simp only [checkOrder, Option.mem_some_iff, forall_eq', ← Nat.not_le]
    split
    · next hle => exact iff_of_false nofun fun h => h hle
    · next hlt => exact iff_of_true rfl hlt

theorem close_eq_ok_iff {number : Nat} {command : UInt8} {body : List UInt8} {start : Position} {record : LineRecord} :
    close number command body start c = .ok record ↔
      (command :: (body ++ [Token.lineEnd])).length ≤ maxPayload ∧
        record = ⟨number, command :: (body ++ [Token.lineEnd])⟩ := by
  unfold close
  dsimp only
  split
  · next hlt => exact iff_of_false nofun fun h => Nat.not_lt_of_le h.1 hlt
  · next hle =>
    rw [Except.ok.injEq, eq_comm]
    exact (and_iff_right (Nat.le_of_not_lt hle)).symm

theorem result_checkName (filename : List Char) (command : UInt8) (c : Cursor) :
    (checkName filename command c).result = .ok () := by
  unfold checkName
  split
  · split <;> rfl
  · rfl

/-- The steps in which a line is read: its number, the spacing, the keyword and the text behind it. -/
inductive Steps (files : FileReader) (last : Option Nat) (c : Cursor) : LineRecord → Cursor → Prop where
  | mk {number : Nat} {command : UInt8} {body : List UInt8} {afterNumber atCommand afterCommand atEnd : Cursor}
    (hnumber : readNumber c = .ok (number, afterNumber)) (horder : ∀ n ∈ last, n < number)
    (hspacing : readSpacing afterNumber = .ok atCommand)
    (hcommand : readCommand atCommand = .ok (command, afterCommand))
    (hbody : (Body.read files (bodyMode command) afterCommand).result = .ok (body, atEnd))
    (hlength : (command :: (body ++ [Token.lineEnd])).length ≤ maxPayload) :
    Steps files last c ⟨number, command :: (body ++ [Token.lineEnd])⟩ atEnd

end Line

theorem Outcome.result_bind {α β : Type} {x : Outcome α} {f : α → Outcome β} {a : α}
    (h : x.result = .ok a) : (x >>= f).result = (f a).result := by
  change (x.andThen f).result = _
  simp only [andThen, h]

theorem Outcome.result_bind_error {α β : Type} {x : Outcome α} {f : α → Outcome β} {fault : Fault}
    (h : x.result = .error fault) : (x >>= f).result = .error fault := by
  change (x.andThen f).result = _
  simp only [andThen, h]

/-- **Lines.** A line is read in its steps. -/
theorem Line.read_eq_ok_iff {filename : List Char} {last : Option Nat} {record : LineRecord} :
    (read files filename last c).result = .ok (record, next) ↔ Steps files last c record next := by
  unfold read
  constructor
  · intro h
    obtain ⟨⟨number, afterNumber⟩, hnumber, h⟩ := Outcome.exists_of_bind_ok h
    obtain ⟨_, horder, h⟩ := Outcome.exists_of_bind_ok h
    obtain ⟨atCommand, hspacing, h⟩ := Outcome.exists_of_bind_ok h
    obtain ⟨⟨command, afterCommand⟩, hcommand, h⟩ := Outcome.exists_of_bind_ok h
    obtain ⟨_, -, h⟩ := Outcome.exists_of_bind_ok h
    obtain ⟨⟨body, atEnd⟩, hbody, h⟩ := Outcome.exists_of_bind_ok h
    obtain ⟨record, hclose, h⟩ := Outcome.exists_of_bind_ok h
    cases h
    obtain ⟨hlength, rfl⟩ := close_eq_ok_iff.mp hclose
    exact .mk hnumber (checkOrder_eq_ok_iff.mp horder) hspacing hcommand hbody hlength
  · rintro ⟨hnumber, horder, hspacing, hcommand, hbody, hlength⟩
    rw [Outcome.result_bind (show (liftM (readNumber c) : Outcome _).result = _ from hnumber),
      Outcome.result_bind (show (liftM (checkOrder _ _ _ _) : Outcome _).result = .ok () from
        checkOrder_eq_ok_iff.mpr horder),
      Outcome.result_bind (show (liftM (readSpacing _) : Outcome _).result = _ from hspacing),
      Outcome.result_bind (show (liftM (readCommand _) : Outcome _).result = _ from hcommand),
      Outcome.result_bind (result_checkName _ _ _), Outcome.result_bind hbody,
      Outcome.result_bind (show (liftM (close _ _ _ _ _) : Outcome _).result = _ from
        close_eq_ok_iff.mpr ⟨hlength, rfl⟩)]
    rfl

/-- A line fails with its body. -/
theorem Line.read_error_of_body {filename : List Char} {last : Option Nat} {number : Nat}
    {afterNumber atCommand afterCommand : Cursor} {command : UInt8} {fault : Fault}
    (hnumber : readNumber c = .ok (number, afterNumber))
    (horder : checkOrder number last c.position afterNumber = .ok ())
    (hspacing : readSpacing afterNumber = .ok atCommand)
    (hcommand : readCommand atCommand = .ok (command, afterCommand))
    (hbody : (Body.read files (bodyMode command) afterCommand).result = .error fault) :
    (read files filename last c).result = .error fault := by
  unfold read
  rw [Outcome.result_bind (show (liftM (readNumber c) : Outcome _).result = _ from hnumber),
    Outcome.result_bind (show (liftM (checkOrder _ _ _ _) : Outcome _).result = _ from horder),
    Outcome.result_bind (show (liftM (readSpacing _) : Outcome _).result = _ from hspacing),
    Outcome.result_bind (show (liftM (readCommand _) : Outcome _).result = _ from hcommand),
    Outcome.result_bind (result_checkName _ _ _)]
  exact Outcome.result_bind_error hbody

/-! ## Directives -/

namespace Directive

/-! ### One round of the loop over a list of bytes -/

section Rounds

variable {done : List UInt8}

theorem readBytesFrom_of_closing (hpeek : c.peek = ']') : readBytesFrom c done = .ok (done.reverse, c.advance 1) := by
  rw [readBytesFrom, if_pos (beq_iff_eq.mpr hpeek)]

theorem readBytesFrom_of_error {fault : Fault} (hpeek : (c.peek == ']') = false)
    (hread : readInteger .numberExpected c = .error fault) : readBytesFrom c done = .error fault := by
  rw [readBytesFrom, hpeek, if_neg Bool.false_ne_true]
  split
  · next hother => cases hread.symm.trans hother; rfl
  · next hother => cases hread.symm.trans hother

theorem readBytesFrom_of_integer {value : Nat} {behind : Cursor} (hpeek : (c.peek == ']') = false)
    (hread : readInteger .numberExpected c = .ok (value, behind)) :
    readBytesFrom c done =
      if 255 < value then .error (behind.faultAbout c.position value (.valueOutOfRange value))
      else if behind.skipSpacing.peek == '\n' then .error (behind.skipSpacing.fault .closingExpected)
      else readBytesFrom (skipComma behind.skipSpacing) (UInt8.ofNat value :: done) := by
  rw [readBytesFrom.eq_def c, hpeek, if_neg Bool.false_ne_true]
  split
  · next hother => cases hread.symm.trans hother
  · next hother => cases hread.symm.trans hother; rfl

end Rounds

/-! ### The places behind what is read -/

theorem place_readSetting_of_bracket (hpeek : c.peek = '[') :
    (readSetting c).map Prod.snd = (readBytesFrom (c.advance 1).skipSpacing []).map Prod.snd := by
  rw [readSetting, readBytes, if_pos (beq_iff_eq.mpr hpeek), if_pos (beq_iff_eq.mpr hpeek)]
  cases readBytesFrom (c.advance 1).skipSpacing [] <;> rfl

theorem place_readSetting_of_number (hpeek : c.peek ≠ '[') :
    (readSetting c).map Prod.snd = (readInteger .valueExpected c).map Prod.snd := by
  rw [readSetting, if_neg (mt beq_iff_eq.mp hpeek)]
  cases readInteger .valueExpected c <;> rfl

theorem readAssignment_of_noName
    (hname : nameWidth c.rest = 0 ∨ equalsWidth (c.rest.drop (nameWidth c.rest)) = 0) :
    readAssignment c = .error (c.fault .assignmentExpected) := by
  unfold readAssignment
  dsimp only
  rw [if_pos]
  rwa [Bool.or_eq_true, beq_iff_eq, beq_iff_eq]

theorem place_readAssignment (hname : nameWidth c.rest ≠ 0)
    (hequals : equalsWidth (c.rest.drop (nameWidth c.rest)) ≠ 0) :
    (readAssignment c).map Prod.snd =
      (readSetting (c.advance (nameWidth c.rest + equalsWidth (c.rest.drop (nameWidth c.rest))))).map Prod.snd := by
  unfold readAssignment
  dsimp only
  rw [if_neg (by rw [Bool.or_eq_true, beq_iff_eq, beq_iff_eq]; exact not_or.mpr ⟨hname, hequals⟩)]
  cases readSetting (c.advance (nameWidth c.rest + equalsWidth (c.rest.drop (nameWidth c.rest)))) <;> rfl

theorem place_readStart (c : Cursor) : (readStart true c).map Prod.snd = (Line.readNumber c).map Prod.snd := by
  rw [readStart, if_pos rfl]
  cases Line.readNumber c <;> rfl

theorem place_readVariables (c : Cursor) : (readVariables c).map Prod.snd = (readBytes c).map Prod.snd := by
  rw [readVariables]
  cases readBytes c <;> rfl

theorem place_readRow (files : FileReader) (c : Cursor) :
    (readRow files c).result.map Prod.snd = (Row.read files c).result.map Prod.snd := by
  unfold readRow
  cases hread : (Row.read files c).result with
  | error fault => rw [Outcome.result_bind_error hread]; rfl
  | ok value => rw [Outcome.result_bind hread]; rfl

/-! ### What is said -/


/-- What stands behind the keyword of a directive about this subject. -/
inductive Says (files : FileReader) (equals : Bool) (c : Cursor) : Subject → Directive → Cursor → Prop where
  | nothing : Says files equals c .nothing .nothing c
  | start {number : Nat} {next : Cursor} (hequals : equals = true) (h : Line.readNumber c = .ok (number, next)) :
    Says files equals c .start (.start number) next
  | collapse : Says files equals c .collapse .collapse c
  | row {bytes : List UInt8} {next : Cursor} (h : (Row.read files c).result = .ok (bytes, next)) :
    Says files equals c .row (.row bytes) next
  | variableBytes {bytes : List UInt8} {next : Cursor} (h : readBytes c = .ok (bytes, next)) :
    Says files equals c .variableBytes (.variableBytes bytes) next
  | assignment {setting : SystemVariables.Setting} {next : Cursor} (hname : nameWidth c.rest ≠ 0)
    (hequals : equalsWidth (c.rest.drop (nameWidth c.rest)) ≠ 0)
    (h : readSetting (c.advance (nameWidth c.rest + equalsWidth (c.rest.drop (nameWidth c.rest)))) =
      .ok (setting, next)) :
    Says files equals c .assignment (.assign (c.rest.take (nameWidth c.rest)) setting c.position) next

variable {directive : Directive}

theorem says_of_readStart {equals : Bool} (h : readStart equals c = .ok (directive, next)) :
    Says files equals c .start directive next := by
  unfold readStart at h
  split at h
  · next hequals =>
    split at h
    · cases h
    · next hnumber =>
      cases h
      exact .start hequals hnumber
  · cases h

theorem says_of_readVariables {equals : Bool} (h : readVariables c = .ok (directive, next)) :
    Says files equals c .variableBytes directive next := by
  unfold readVariables at h
  split at h
  · cases h
  · next hbytes =>
    cases h
    exact .variableBytes hbytes

theorem says_of_readAssignment {equals : Bool} (h : readAssignment c = .ok (directive, next)) :
    Says files equals c .assignment directive next := by
  unfold readAssignment at h
  dsimp only at h
  split at h
  · cases h
  · next hwidths =>
    simp only [Bool.or_eq_true, beq_iff_eq, not_or] at hwidths
    split at h
    · cases h
    · next hsetting =>
      cases h
      exact .assignment hwidths.1 hwidths.2 hsetting

/-- **Directives.** A directive says what stands behind its keyword. -/
theorem readBehind_eq_ok_iff {start : Cursor} {head : Head} :
    (readBehind files start head c).result = .ok (directive, next) ↔
      Says files head.equals c (subject head.keyword) directive next := by
  unfold readBehind
  cases subject head.keyword with
  | nothing | collapse =>
    constructor
    · rintro ⟨⟩
      constructor
    · rintro ⟨⟩
      rfl
  | start =>
    refine ⟨says_of_readStart, ?_⟩
    rintro ⟨⟩
    next hequals hnumber =>
      change readStart _ _ = _
      rw [readStart, if_pos hequals, hnumber]
  | row =>
    constructor
    · intro h
      obtain ⟨⟨bytes, next⟩, hrow, h⟩ := Outcome.exists_of_bind_ok h
      cases h
      exact .row hrow
    · rintro ⟨⟩
      next hrow => exact Outcome.result_bind hrow
  | variableBytes =>
    refine ⟨says_of_readVariables, ?_⟩
    rintro ⟨⟩
    next hbytes =>
      change readVariables _ = _
      rw [readVariables, hbytes]
  | assignment =>
    refine ⟨says_of_readAssignment, ?_⟩
    rintro ⟨⟩
    next hname hequals hsetting =>
      change readAssignment _ = _
      rw [readAssignment, if_neg (by simp [hname, hequals]), hsetting]
  | unknown keyword =>
    constructor
    · rintro ⟨⟩
    · rintro ⟨⟩

end Directive

/-! ## Items -/

namespace Assembly

variable {a b : Assembly}

theorem startsDirective_iff {text : List Char} : startsDirective text = true ↔
    ∃ rest, text = '#' :: '!' :: rest := by
  unfold startsDirective
  split
  · next rest => exact iff_of_true rfl ⟨rest, rfl⟩
  · next hne =>
    refine iff_of_false Bool.false_ne_true ?_
    rintro ⟨rest, rfl⟩
    exact hne rest rfl

theorem expectLineEnd_eq_ok_iff : expectLineEnd c = .ok next ↔ next = c.skipSpacing ∧ next.peek = '\n' := by
  unfold expectLineEnd
  dsimp only
  constructor
  · intro h
    split at h
    · next hpeek =>
      cases h
      exact ⟨rfl, beq_iff_eq.mp hpeek⟩
    · cases h
  · rintro ⟨rfl, hpeek⟩
    exact if_pos (beq_iff_eq.mpr hpeek)

/-- What a directive does to what has been collected, and the event that it brings. -/
inductive Obeys (a : Assembly) (place : Position) : Directive → Assembly → Journal → Prop where
  | nothing : Obeys a place .nothing a []
  | start {number : Nat} (h : ∀ last ∈ a.lastNumber, last < number) :
    Obeys a place (.start number) { a with pendingStart := some (number, place) } [.startNamed number]
  | collapse : Obeys a place .collapse { a with collapsed := true } []
  | row (bytes : List UInt8) : Obeys a place (.row bytes) { a with rows := a.rows.push bytes } []
  | variableBytes (bytes : List UInt8) :
    Obeys a place (.variableBytes bytes) { a with variableBytes := a.variableBytes ++ bytes } []
  | assign {name : List Char} {setting : SystemVariables.Setting} {system : SystemVariables} (at_ : Position)
    (h : a.system.set (.name name) setting = .ok system) :
    Obeys a place (.assign name setting at_) { a with system } [.variableSet name setting]

theorem nameStart_eq_ok_iff {number : Nat} {place : Position} {events : Journal} :
    a.nameStart number place c = .ok (b, events) ↔ (∀ last ∈ a.lastNumber, last < number) ∧
      b = { a with pendingStart := some (number, place) } ∧ events = [.startNamed number] := by
  unfold nameStart
  cases a.lastNumber with
  | none => simp [eq_comm]
  | some last =>
    dsimp only
    split
    · next hle => exact iff_of_false nofun fun h => Nat.not_lt_of_le hle (h.1 last rfl)
    · next hlt =>
      have hlast : ∀ n ∈ some last, n < number := by
        rintro _ ⟨⟩
        exact Nat.lt_of_not_le hlt
      rw [and_iff_right hlast]
      simp [eq_comm]

/-- **Directives.** A directive that is not refused does one of these things. -/
theorem obey_eq_ok_iff {place : Position} {directive : Directive} {events : Journal} :
    a.obey place c directive = .ok (b, events) ↔ Obeys a place directive b events := by
  constructor
  · intro h
    cases directive with
    | nothing => cases h; exact .nothing
    | start number =>
      obtain ⟨hlast, rfl, rfl⟩ := nameStart_eq_ok_iff.mp h
      exact .start hlast
    | collapse => cases h; exact .collapse
    | row bytes => cases h; exact .row bytes
    | variableBytes bytes => cases h; exact .variableBytes bytes
    | assign name setting at_ =>
      change a.assign name setting at_ c = _ at h
      unfold assign at h
      split at h
      · cases h
      · next hset =>
        cases h
        exact .assign at_ hset
  · rintro (_ | hlast | _ | _ | _ | ⟨_, hset⟩)
    case start => exact nameStart_eq_ok_iff.mpr ⟨hlast, rfl, rfl⟩
    case assign =>
      change a.assign _ _ _ c = _
      rw [assign, hset]
    all_goals rfl

/-- A step that goes on at `next`, with `b` collected: a directive is read and obeyed, or a line is added. -/
inductive Goes (files : FileReader) (filename : List Char) (a : Assembly) (c : Cursor) : Assembly → Cursor →
    Prop where
  | directive {b : Assembly} {directive : Directive} {events : Journal} {behind next : Cursor}
    (hstart : startsDirective c.rest = true) (hread : (Directive.read files c).result = .ok (directive, behind))
    (hobey : Obeys a c.position directive b events) (hend : expectLineEnd behind = .ok next) :
    Goes files filename a c b next
  | line {record : LineRecord} {next : Cursor} (hstart : startsDirective c.rest = false)
    (hread : (Line.read files filename a.lastNumber c).result = .ok (record, next)) :
    Goes files filename a c (a.addRecord record) next

theorem goes_of_step {filename : List Char} (h : (step files filename a c).next = .ok next) :
    Goes files filename a c (step files filename a c).assembly next := by
  unfold step at h ⊢
  split at h
  · next hstart =>
    rw [if_pos hstart]
    unfold stepDirective at h ⊢
    dsimp only at h ⊢
    split at h
    · cases h
    · next hread =>
      split at h
      · cases h
      · next hobey => exact .directive hstart hread (obey_eq_ok_iff.mp hobey) h
  · next hstart =>
    rw [if_neg hstart]
    unfold stepLine at h ⊢
    dsimp only at h ⊢
    split at h
    · cases h
    · next hread =>
      cases h
      exact .line (Bool.eq_false_iff.mpr hstart) hread

/-- **Steps.** A step that goes on is one of these. -/
theorem goes_iff {filename : List Char} : Goes files filename a c b next ↔
    (step files filename a c).next = .ok next ∧ (step files filename a c).assembly = b := by
  constructor
  · intro h
    cases h with
    | @directive _ directive _ behind _ hstart hread hobey hend =>
      have hobeyed : a.obey c.position behind directive = .ok (b, _) := obey_eq_ok_iff.mpr hobey
      rw [step, if_pos hstart, stepDirective]
      simp only [hread, hobeyed]
      exact ⟨hend, trivial⟩
    | line hstart hread =>
      rw [step, if_neg (Bool.eq_false_iff.mp hstart), stepLine]
      simp only [hread, and_self]
  · rintro ⟨hnext, rfl⟩
    exact goes_of_step hnext

end Assembly

end TapeBasic
