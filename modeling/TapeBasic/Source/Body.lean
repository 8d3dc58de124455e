import TapeBasic.Grammar
import TapeBasic.Literal
import TapeBasic.Source.Fault
import TapeBasic.Source.SpecialCode
import TapeBasic.StoredNumber

/-!
# The text behind a statement keyword (`_read_statement`, `_read_rem`, `_read_dfile_row`)

The rest of a line is read piece by piece: tokens, bracketed codes and, in statement text, numeric
literals, which are stored as their characters, a mark and five bytes. A literal does not start inside
a name, so the digits of `A1` stay characters. A quotation mark starts a string, in which letters
stand for themselves as they do in a remark.

* `Body.read` reads up to the line end and gives the bytes and the cursor in front of it.
* `Row.read` reads the characters of a screen row in the same way.
-/
namespace TapeBasic

/-- Gives the bytes of a file that is to be included, or says why it cannot. -/
abbrev FileReader := List Char → Except (List Char) (List UInt8)

/-! ## Pieces -/

/-- Bytes and the events that came with them. -/
structure Emission where
  bytes : List UInt8
  events : Journal := []

/-- The bytes of a bracketed code (`_read_special_code` and `_include`). Complaints are about the
start of the code. -/
def SpecialCode.emit (files : FileReader) (c : Cursor) : SpecialCode → Except Fault Emission
  | .comment => .ok { bytes := [] }
  | .byte digits =>
    match Text.natural? digits with
    | none => .error .numeralTooLong
    | some n => if 255 < n then .error (c.fault (.byteOutOfRange n)) else .ok { bytes := [UInt8.ofNat n] }
  | .block digits =>
    match Text.natural? digits with
    | none => .error .numeralTooLong
    | some n =>
      if maxBlockSize < n then .error (c.fault (.blockTooBig n))
      else .ok { bytes := List.replicate n 0 }
  | .file path =>
    match files path with
    | .error cause => .error (.unreadable path cause c.position)
    | .ok bytes => .ok { bytes, events := [.fileIncluded path bytes.length] }

/-- The bracketed code at the cursor, if there is one (`_read_special_code`). -/
def SpecialCode.read? (files : FileReader) (c : Cursor) : Except Fault (Option (Lexeme Emission)) :=
  match SpecialCode.scan? c.rest with
  | none => .ok none
  | some lexeme =>
    match lexeme.value.emit files c with
    | .error fault => .error fault
    | .ok emission => .ok (some ⟨emission, lexeme.width, lexeme.positive⟩)

/-- The longest spelling at the cursor: its token and the characters that it takes. A line end that closes
the spelling still ends the line, and is not taken. -/
def Grammar.scan? (g : Grammar) (c : Cursor) : Except Fault (Option (UInt8 × Nat)) :=
  if c.peek == '\n' then .ok none
  else
    match g.width? c.rest with
    | none => .ok none
    | some matched =>
      let text := c.rest.take matched
      match g.lookup text with
      | .error _ => .error .unknownSymbol
      | .ok token => .ok (some (token, if text.getLast? == some '\n' then matched - 1 else matched))

/-- What is behind a token: its spelling in front of the cursor, which is no line end. -/
theorem Grammar.exists_of_scan? {g : Grammar} {c : Cursor} {token : UInt8} {width : Nat}
    (h : g.scan? c = .ok (some (token, width))) :
    c.peek ≠ '\n' ∧ ∃ matched, g.width? c.rest = some matched ∧ g.lookup (c.rest.take matched) = .ok token ∧
      width = if (c.rest.take matched).getLast? == some '\n' then matched - 1 else matched := by
  unfold scan? at h
  split at h
  · cases h
  · next hpeek =>
    refine ⟨mt beq_iff_eq.mpr hpeek, ?_⟩
    split at h
    · cases h
    · next matched hwidth =>
      dsimp only at h
      split at h
      · cases h
      · next hlookup =>
        cases h
        exact ⟨matched, hwidth, hlookup, rfl⟩

/-- No spelling is empty, and one that is more than a line end takes a character in front of it. -/
theorem Grammar.width_pos_of_scan? {g : Grammar} {c : Cursor} {token : UInt8} {width : Nat}
    (h : g.scan? c = .ok (some (token, width))) : 0 < width := by
  obtain ⟨hpeek, matched, -, hlookup, rfl⟩ := exists_of_scan? h
  have hne : c.rest.take matched ≠ [] := by
    intro hnil
    rw [hnil] at hlookup
    cases hlookup
  cases matched with
  | zero => exact absurd (List.take_zero) hne
  | succ matched =>
    split
    · next hlast =>
      cases hrest : c.rest with
      | nil => exact absurd (by rw [hrest, List.take_nil]) hne
      | cons x rest =>
        cases matched with
        | zero =>
          rw [hrest] at hlast
          refine absurd ?_ hpeek
          rw [Cursor.peek, hrest]
          exact Option.some.inj (beq_iff_eq.mp hlast)
        | succ matched => exact Nat.succ_pos _
    · exact Nat.succ_pos _

/-- The longest token at the cursor, if there is one (`_read_token`). -/
def Grammar.read? (g : Grammar) (c : Cursor) : Except Fault (Option (Lexeme UInt8)) :=
  match h : g.scan? c with
  | .error fault => .error fault
  | .ok none => .ok none
  | .ok (some (token, width)) => .ok (some ⟨token, width, width_pos_of_scan? h⟩)

/-- What is scanned alike is read alike. -/
theorem Grammar.read?_congr {g : Grammar} {c d : Cursor} (h : g.scan? d = g.scan? c) : g.read? d = g.read? c := by
  unfold read?
  split <;> split <;> simp_all

theorem Grammar.read?_eq_none {g : Grammar} {c : Cursor} (h : g.scan? c = .ok none) : g.read? c = .ok none := by
  unfold read?
  split
  · next hscan => cases hscan.symm.trans h
  · rfl
  · next hscan => cases hscan.symm.trans h

/-- A token is read where one is scanned. -/
theorem Grammar.read?_eq_some {g : Grammar} {c : Cursor} {token : UInt8} {width : Nat}
    (h : g.scan? c = .ok (some (token, width))) : g.read? c = .ok (some ⟨token, width, width_pos_of_scan? h⟩) := by
  unfold read?
  split
  · next hscan => cases hscan.symm.trans h
  · next hscan => cases hscan.symm.trans h
  · next hscan =>
    cases hscan.symm.trans h
    rfl

/-- A numeric literal in a program: its characters, the mark and its value in five bytes. -/
def Literal.emit (c : Cursor) (literal : List Char) : Except Fault (List UInt8) :=
  match StoredNumber.encode (Literal.value literal) with
  | .error _ => .error (c.fault (.numberOutOfRange literal))
  | .ok stored =>
    match literal.mapM fun x => Token.ofCharacter? [x] with
    | none => .error .unknownSymbol
    | some characters => .ok (characters ++ Token.number :: stored)

/-- The numeric literal at the cursor, if there is one (`_read_number`). -/
def Literal.read? (c : Cursor) : Except Fault (Option (Lexeme (List UInt8))) :=
  if h : 0 < Literal.width c.rest then
    match Literal.emit c (c.rest.take (Literal.width c.rest)) with
    | .error fault => .error fault
    | .ok bytes => .ok (some ⟨bytes, _, h⟩)
  else .ok none

/-- The bracketed code or token at the cursor, where letters stand for themselves (`_read_rem_token`). -/
def readLetters (files : FileReader) (context : Context) (c : Cursor) :
    Except Fault (Lexeme Emission) :=
  match SpecialCode.read? files c with
  | .error fault => .error fault
  | .ok (some lexeme) => .ok lexeme
  | .ok none =>
    match (Grammar.ofContext context).read? c with
    | .error fault => .error fault
    | .ok none => .error (c.fault .unknownToken)
    | .ok (some token) => .ok ⟨{ bytes := [token.value] }, token.width, token.positive⟩

/-! ## The body of a line -/

namespace Body

/-- How the text at the cursor is read. -/
inductive Mode where
  /-- The rest of a remark. -/
  | remark
  /-- Statement text, at the end of a name or not. -/
  | statement (inName : Bool)
  /-- A string that is still open. -/
  | quotation
deriving DecidableEq, Repr

/-- A piece of a line and how the text behind it is read. -/
structure Piece where
  emission : Emission
  next : Mode

/-- Whether a name goes on behind a token. -/
def staysInName (inName : Bool) (token : UInt8) : Bool :=
  Token.isLetter token || (inName && Token.isDigit token)

/-- A token of statement text. -/
def statementToken (inName : Bool) (c : Cursor) : Except Fault (Lexeme Piece) :=
  match Grammar.statement.read? c with
  | .error fault => .error fault
  | .ok none => .error (c.fault .unreadableStatement)
  | .ok (some token) =>
    .ok ⟨⟨{ bytes := [token.value] }, .statement (staysInName inName token.value)⟩, token.width,
      token.positive⟩

/-- A bracketed code or a token of statement text. -/
def statementCode (files : FileReader) (inName : Bool) (c : Cursor) : Except Fault (Lexeme Piece) :=
  match SpecialCode.read? files c with
  | .error fault => .error fault
  | .ok (some code) => .ok ⟨⟨code.value, .statement false⟩, code.width, code.positive⟩
  | .ok none => statementToken inName c

/-- The next piece of statement text: the start of a string, a literal unless a name goes on, a
bracketed code or a token (`_read_statement`). -/
def statementPiece (files : FileReader) (inName : Bool) (c : Cursor) :
    Except Fault (Lexeme Piece) :=
  if c.peek == Text.doubleQuote then .ok ⟨⟨{ bytes := [Token.quote] }, .quotation⟩, 1, Nat.one_pos⟩
  else if inName then statementCode files inName c
  else
    match Literal.read? c with
    | .error fault => .error fault
    | .ok (some literal) =>
      .ok ⟨⟨{ bytes := literal.value }, .statement false⟩, literal.width, literal.positive⟩
    | .ok none => statementCode files inName c

/-- The next piece of a string; a quotation mark in the text closes it (`_read_quoted_string`). -/
def quotationPiece (files : FileReader) (c : Cursor) : Except Fault (Lexeme Piece) :=
  match readLetters files .quotation c with
  | .error fault => .error fault
  | .ok lexeme =>
    let next : Mode := if c.peek == Text.doubleQuote then .statement false else .quotation
    .ok ⟨⟨lexeme.value, next⟩, lexeme.width, lexeme.positive⟩

/-- The next piece of a remark (`_read_rem`). -/
def remarkPiece (files : FileReader) (c : Cursor) : Except Fault (Lexeme Piece) :=
  match readLetters files .remark c with
  | .error fault => .error fault
  | .ok lexeme => .ok ⟨⟨lexeme.value, .remark⟩, lexeme.width, lexeme.positive⟩

/-- The next piece of a line, in front of which the line does not end. -/
def piece (files : FileReader) : Mode → Cursor → Except Fault (Lexeme Piece)
  | .remark, c => remarkPiece files c
  | .statement inName, c => statementPiece files inName c
  | .quotation, c => quotationPiece files c

/-- Reads on to the line end. `done` holds the bytes so far in reverse order, `events` the events so
far. One continuation is skipped in front of every piece. -/
def readFrom (files : FileReader) (mode : Mode) (c : Cursor) (done : List UInt8) (events : Journal) :
    Outcome (List UInt8 × Cursor) :=
  let here := c.skipContinuation
  if h : here.peek = '\n' then
    if mode = .quotation then ⟨events, .error (here.fault .stringNotClosed)⟩
    else ⟨events, .ok (done.reverse, here)⟩
  else
    match piece files mode here with
    | .error fault => ⟨events, .error fault⟩
    | .ok lexeme =>
      have : (here.advance lexeme.width).rest.length < c.rest.length :=
        Nat.lt_of_lt_of_le (Cursor.length_advance_lt lexeme.positive (Cursor.rest_ne_nil_of_peek h))
          c.length_skipContinuation_le
      readFrom files lexeme.value.next (here.advance lexeme.width)
        (lexeme.value.emission.bytes.reverse ++ done) (events ++ lexeme.value.emission.events)
termination_by c.rest.length
decreasing_by assumption

theorem length_readFrom_le {files : FileReader} {mode : Mode} {c : Cursor} {done : List UInt8}
    {events : Journal} {bytes : List UInt8} {next : Cursor}
    (h : (readFrom files mode c done events).result = .ok (bytes, next)) :
    next.rest.length ≤ c.rest.length := by
  fun_induction readFrom files mode c done events with
  | case1 => simp at h
  | case2 mode c done events here hpeek hmode =>
    simp only [Except.ok.injEq, Prod.mk.injEq] at h
    exact h.2 ▸ c.length_skipContinuation_le
  | case3 => simp at h
  | case4 mode c done events here hpeek lexeme hlexeme hlt ih =>
    exact Nat.le_trans (ih h) (Nat.le_of_lt hlt)

/-- Reads the rest of a line: its bytes and the cursor in front of the line end. -/
def read (files : FileReader) (mode : Mode) (c : Cursor) : Outcome (List UInt8 × Cursor) :=
  readFrom files mode c [] []

end Body

/-! ## Screen rows -/

namespace Row

/-- Reads on to the line end. A byte that ends screen rows is refused, with the place of its code. -/
def readFrom (files : FileReader) (c : Cursor) (done : List UInt8) (events : Journal) :
    Outcome (List UInt8 × Cursor) :=
  if h : c.peek = '\n' then ⟨events, .ok (done.reverse, c)⟩
  else
    match readLetters files .remark c with
    | .error fault => ⟨events, .error fault⟩
    | .ok lexeme =>
      let next := c.advance lexeme.width
      let events := events ++ lexeme.value.events
      if lexeme.value.bytes.contains Token.lineEnd then
        ⟨events, .error (next.faultAt c.position .lineEndInRow)⟩
      else
        have : next.rest.length < c.rest.length :=
          Cursor.length_advance_lt lexeme.positive (Cursor.rest_ne_nil_of_peek h)
        readFrom files next (lexeme.value.bytes.reverse ++ done) events
termination_by c.rest.length
decreasing_by assumption

/-- Reads a screen row: its bytes and the cursor in front of the line end. -/
def read (files : FileReader) (c : Cursor) : Outcome (List UInt8 × Cursor) := readFrom files c [] []

theorem length_readFrom_le {files : FileReader} {c : Cursor} {done : List UInt8} {events : Journal}
    {bytes : List UInt8} {next : Cursor}
    (h : (readFrom files c done events).result = .ok (bytes, next)) :
    next.rest.length ≤ c.rest.length := by
  fun_induction readFrom files c done events with
  | case1 => cases h; exact Nat.le_refl _
  | case2 => simp at h
  | case3 => simp at h
  | case4 c done events hpeek lexeme hlexeme next' events' hcontains hlt ih =>
    exact Nat.le_trans (ih h) (Nat.le_of_lt hlt)

end Row

end TapeBasic
