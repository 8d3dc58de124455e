import TapeBasic.Proofs.Literals
import TapeBasic.Proofs.ReaderResults
import TapeBasic.Proofs.TokenTable

/-!
# Reading a line piece by piece

What the reader of a line makes of a text in front of another text, and how two such readings join.

* `Reads files mode front tail bytes next`: in this mode and in front of `tail`, the text `front` is read
  as `bytes`, and the text behind it in the mode `next`. The reader neither stops inside `front` nor looks
  at what it has read before.
* `Makes files mode c bytes next width`: at the cursor, one piece of `width` characters makes these bytes.

Results:
* `Reads.append`: readings in a row are one reading.
* `piece_of_code`: a bracketed code is a piece in every mode.
* `makes_token`, `makes_literal`: the pieces that tokens and literals are.
* `reads_code`, `reads_commented`, `reads_explicit`, `reads_remark`, `reads_string`, `reads_token`,
  `reads_literal`: what is read from the parts a listing is written in.
* `Reads.readFrom_result`: a line that is read to its end gives the bytes of its parts.
-/
namespace TapeBasic

/-! ## Bracketed codes -/

namespace SpecialCode

theorem scan?_eq_none_of_head {text : List Char} (h : text.head? ≠ some '[') : scan? text = none := by
  unfold scan?
  split
  · simp at h
  · rfl

theorem scan?_name {front : List Char} (tail : List Char) (h : Token.isName front = true) :
    scan? (front ++ tail) = none := by
  unfold Token.isName at h
  split at h
  · next x rest =>
    simp only [Bool.and_eq_true, Bool.not_eq_true', bne_iff_ne, ne_eq] at h
    obtain ⟨⟨⟨-, hdigit⟩, hcomment⟩, hword⟩ := h
    have hbyte : byte? (x :: (rest ++ tail)) = none := by
      simp [byte?, List.takeWhile_cons_of_neg, hdigit]
    have hworded : ∀ (word : List Char) (tail? : List Char → Option (SpecialCode × Nat)),
        word.head? = some '!' → worded? word tail? (x :: (rest ++ tail)) = none := by
      intro word tail? hhead
      cases word with
      | nil => simp at hhead
      | cons a word =>
        simp only [List.head?_cons, Option.some.injEq] at hhead
        simp [worded?, Text.startsWithLetters, hhead, hword]
    have hblock : blockWord.head? = some '!' := rfl
    have hfile : fileWord.head? = some '!' := rfl
    simp [scan?, comment?, hcomment, hbyte, hworded _ _ hblock, hworded _ _ hfile]
  · simp at h

theorem scan?_code (b : UInt8) (tail : List Char) :
    ∃ lexeme, scan? (Token.code b ++ tail) = some lexeme ∧
      lexeme.value = .byte (Text.decimal b.toNat) ∧ lexeme.width = (Token.code b).length := by
  obtain ⟨c, digits, hc, hdigit⟩ := Text.decimal_eq_cons b.toNat
  have htake : (Text.decimal b.toNat ++ ']' :: tail).takeWhile Text.isDecimal =
      Text.decimal b.toNat := Text.takeWhile_isDecimal_decimal _ _ rfl
  have hcomment : comment? (Text.decimal b.toNat ++ ']' :: tail) = none := by
    rw [hc]
    unfold comment?
    split
    · next heq =>
      simp only [List.cons_append, List.cons.injEq] at heq
      rw [heq.1] at hdigit
      exact absurd hdigit (by decide)
    · rfl
  have hbyte : byte? (Text.decimal b.toNat ++ ']' :: tail) =
      some (.byte (Text.decimal b.toNat), (Text.decimal b.toNat).length + 1) := by
    simp [byte?, htake, Text.decimal_ne_nil]
  have htext : Token.code b ++ tail = '[' :: (Text.decimal b.toNat ++ ']' :: tail) := by
    simp [Token.code]
  rw [htext, scan?, hcomment, hbyte]
  exact ⟨_, rfl, rfl, by simp [Token.code]⟩

theorem scan?_comment {inner : List Char} (tail : List Char) (h : ∀ c ∈ inner, isInner c = true) :
    ∃ lexeme, scan? ('[' :: '#' :: (inner ++ ']' :: tail)) = some lexeme ∧
      lexeme.value = .comment ∧ lexeme.width = inner.length + 3 := by
  have htake : (inner ++ ']' :: tail).takeWhile isInner = inner :=
    Text.takeWhile_append_cons h rfl
  have hcomment : comment? ('#' :: (inner ++ ']' :: tail)) = some (.comment, inner.length + 2) := by
    simp [comment?, Text.countWhile, htake]
  rw [scan?, hcomment]
  exact ⟨_, rfl, rfl, rfl⟩

/-- A code stands for its bytes, and brings no event. -/
theorem read?_of_scan? {files : FileReader} {c : Cursor} {lexeme : Lexeme SpecialCode}
    {bytes : List UInt8} (hscan : scan? c.rest = some lexeme)
    (hemit : lexeme.value.emit files c = .ok { bytes }) :
    read? files c = .ok (some ⟨{ bytes }, lexeme.width, lexeme.positive⟩) := by
  rw [read?, hscan]
  simp only [hemit]

theorem emit_byte (files : FileReader) (c : Cursor) (b : UInt8) :
    (byte (Text.decimal b.toNat)).emit files c = .ok { bytes := [b] } := by
  have hb := b.toNat_lt
  simp only [emit, Text.natural?_decimal (show b.toNat < 100000 by omega)]
  rw [if_neg (by omega), UInt8.ofNat_toNat]

end SpecialCode

/-! ## Tokens -/

theorem Grammar.read?_of_readsBack {g : Grammar} {front tail : List Char} {b : UInt8} {c : Cursor}
    (hc : c.rest = front ++ tail) (h : g.ReadsBack front b tail) (hne : front ≠ [])
    (hline : '\n' ∉ front) :
    ∃ lexeme, g.read? c = .ok (some lexeme) ∧ lexeme.value = b ∧ lexeme.width = front.length := by
  obtain ⟨hwidth, hlookup⟩ := h
  have hpeek : (c.peek == '\n') = false := by
    cases front with
    | nil => exact absurd rfl hne
    | cons x front =>
      rw [Cursor.peek, hc, beq_eq_false_iff_ne]
      rintro rfl
      exact hline List.mem_cons_self
  have hlast : (front.getLast? == some '\n') = false := by
    rw [beq_eq_false_iff_ne]
    intro hl
    exact hline (List.mem_of_getLast? hl)
  have htake : c.rest.take front.length = front := by rw [hc, List.take_left]
  rw [← hc] at hwidth
  have hscan : g.scan? c = .ok (some (b, front.length)) := by
    simp only [Grammar.scan?, hpeek, Bool.false_eq_true, if_false, hwidth, htake, hlookup, hlast]
  exact ⟨_, Grammar.read?_eq_some hscan, rfl, rfl⟩

theorem readLetters_of_token {files : FileReader} {context : Context} {front tail : List Char}
    {b : UInt8} {c : Cursor} (hc : c.rest = front ++ tail)
    (hscan : SpecialCode.scan? (front ++ tail) = none)
    (h : (Grammar.ofContext context).ReadsBack front b tail) (hne : front ≠ []) (hline : '\n' ∉ front) :
    ∃ lexeme, readLetters files context c = .ok lexeme ∧ lexeme.value.bytes = [b] ∧
      lexeme.value.events = [] ∧ lexeme.width = front.length := by
  obtain ⟨lexeme, hread, hvalue, hwidth⟩ := Grammar.read?_of_readsBack hc h hne hline
  have hcode : SpecialCode.read? files c = .ok none := by rw [SpecialCode.read?, hc, hscan]
  refine ⟨_, readLetters_eq_ok_iff.mpr (.inr ⟨hcode, lexeme, hread, rfl⟩), ?_, rfl, hwidth⟩
  exact congrArg (fun b => [b]) hvalue

theorem readLetters_of_code {files : FileReader} {context : Context} {tail : List Char} {b : UInt8}
    {c : Cursor} (hc : c.rest = Token.code b ++ tail) :
    ∃ lexeme, readLetters files context c = .ok lexeme ∧ lexeme.value.bytes = [b] ∧
      lexeme.value.events = [] ∧ lexeme.width = (Token.code b).length := by
  obtain ⟨lexeme, hscan, hvalue, hwidth⟩ := SpecialCode.scan?_code b tail
  have hemit := SpecialCode.emit_byte files c b
  rw [← hvalue] at hemit
  exact ⟨_, readLetters_eq_ok_iff.mpr (.inl (SpecialCode.read?_of_scan? (hc ▸ hscan) hemit)), rfl, rfl, hwidth⟩

/-! ## The start of a piece -/

namespace Body

/-- In front of such a text the reader sees neither a line end nor a continuation. -/
def Opens (front : List Char) : Prop :=
  ∃ first rest, front = first :: rest ∧ first ≠ '\n' ∧
    (first = '\\' → rest.all Text.isSpacing = false ∧ '\n' ∉ rest)

theorem opens_of_head {first : Char} {rest : List Char} (h : first ≠ '\n') (h' : first ≠ '\\') :
    Opens (first :: rest) := ⟨first, rest, rfl, h, fun hb => absurd hb h'⟩

theorem opens_code (b : UInt8) : Opens (Token.code b) := opens_of_head (by decide) (by decide)

theorem ne_lineEnd_of_isPrintable {c : Char} (h : Text.isPrintable c = true) : c ≠ '\n' := by
  rintro rfl
  exact absurd h (by decide)

theorem opens_text (b : UInt8) : Opens (Token.text b) := by
  obtain ⟨first, rest, h⟩ := Token.exists_orderly b
  rw [h.text_eq]
  refine ⟨first, rest, rfl, ne_lineEnd_of_isPrintable (h.printable _ List.mem_cons_self), fun hb => ?_⟩
  exact ⟨h.backslash hb, fun hmem =>
    ne_lineEnd_of_isPrintable (h.printable _ (List.mem_cons_of_mem _ hmem)) rfl⟩

theorem exists_of_isName {front : List Char} (h : Token.isName front = true) :
    ∃ rest, front = '[' :: rest ∧ '\n' ∉ front := by
  unfold Token.isName at h
  split at h
  · next x rest =>
    simp only [Bool.and_eq_true, List.all_eq_true] at h
    refine ⟨x :: rest, rfl, fun hmem => ?_⟩
    rcases List.mem_cons.mp hmem with hx | hx
    · exact absurd hx (by decide)
    · exact ne_lineEnd_of_isPrintable (h.1.1.1 _ hx) rfl
  · simp at h

theorem opens_name {front : List Char} (h : Token.isName front = true) : Opens front := by
  obtain ⟨rest, rfl, -⟩ := exists_of_isName h
  exact opens_of_head (by decide) (by decide)

theorem Opens.peek_ne {front tail : List Char} (h : Opens front) {c : Cursor}
    (hc : c.rest = front ++ tail) : c.peek ≠ '\n' := by
  obtain ⟨first, rest, rfl, hfirst, -⟩ := h
  rw [Cursor.peek, hc]
  exact hfirst

theorem Opens.continuationWidth {front : List Char} (h : Opens front) (tail : List Char) :
    Cursor.continuationWidth (front ++ tail) = 0 := by
  obtain ⟨first, rest, rfl, -, hback⟩ := h
  rw [List.cons_append, Cursor.continuationWidth.eq_def]
  split
  · next text heq =>
    simp only [List.cons.injEq] at heq
    obtain ⟨hspacing, hline⟩ := hback heq.1
    obtain ⟨rfl⟩ := heq.2
    -- the first character behind the spacing belongs to the piece and is no line end
    obtain ⟨a, y, b, rfl, ha, hy⟩ := Text.exists_first_of_all_eq_false hspacing
    have htake : (a ++ y :: (b ++ tail)).takeWhile Text.isSpacing = a :=
      Text.takeWhile_append_cons ha hy
    have hyn : y ≠ '\n' := by
      rintro rfl
      exact hline (by simp)
    simp [Text.countWhile, htake, hyn]
  · rfl

theorem Opens.skipContinuation {front tail : List Char} (h : Opens front) {c : Cursor}
    (hc : c.rest = front ++ tail) : c.skipContinuation = c := by
  rw [Cursor.skipContinuation, hc, h.continuationWidth]
  rfl

/-! ## Readings -/

/-- In this mode and in front of `tail`, the text `front` is read as `bytes`, and the text behind it in
the mode `next`. -/
def Reads (files : FileReader) (mode : Mode) (front tail : List Char) (bytes : List UInt8)
    (next : Mode) : Prop :=
  ∀ (c : Cursor) (done : List UInt8) (events : Journal), c.rest = front ++ tail →
    ∃ c' : Cursor, c'.rest = tail ∧
      readFrom files mode c done events = readFrom files next c' (bytes.reverse ++ done) events

/-- What a piece is, as far as it matters to the line: its bytes, how the text behind it is
read, and its width. It brings no event. -/
def Makes (files : FileReader) (mode : Mode) (c : Cursor) (bytes : List UInt8) (next : Mode)
    (width : Nat) : Prop :=
  ∃ lexeme, piece files mode c = .ok lexeme ∧ lexeme.value.emission.bytes = bytes ∧
    lexeme.value.emission.events = [] ∧ lexeme.value.next = next ∧ lexeme.width = width

variable {files : FileReader}

theorem Reads.nil (mode : Mode) (tail : List Char) : Reads files mode [] tail [] mode :=
  fun c _ _ hc => ⟨c, hc, rfl⟩

/-- **Readings in a row.** What is read piece by piece is read as a whole. -/
theorem Reads.append {m₁ m₂ m₃ : Mode} {a b tail : List Char} {x y : List UInt8}
    (h₁ : Reads files m₁ a (b ++ tail) x m₂) (h₂ : Reads files m₂ b tail y m₃) :
    Reads files m₁ (a ++ b) tail (x ++ y) m₃ := by
  intro c done events hc
  obtain ⟨c₁, hc₁, hr₁⟩ := h₁ c done events (by rw [hc, List.append_assoc])
  obtain ⟨c₂, hc₂, hr₂⟩ := h₂ c₁ (x.reverse ++ done) events hc₁
  refine ⟨c₂, hc₂, ?_⟩
  rw [hr₁, hr₂, List.reverse_append, List.append_assoc]

/-- A piece is read, and then the text behind it. -/
theorem readFrom_of_makes {mode next : Mode} {front tail : List Char} {bytes : List UInt8} {width : Nat}
    {c : Cursor} (hopens : Opens front) (hc : c.rest = front ++ tail)
    (h : Makes files mode c bytes next width) (done : List UInt8) (events : Journal) :
    readFrom files mode c done events =
      readFrom files next (c.advance width) (bytes.reverse ++ done) events := by
  obtain ⟨lexeme, hpiece, hbytes, hevents, hnext, hwidth⟩ := h
  have hskip := hopens.skipContinuation hc
  rw [readFrom_of_piece (by rw [hskip]; exact hopens.peek_ne hc) (by rw [hskip]; exact hpiece), hskip, hbytes,
    hevents, hnext, hwidth, List.append_nil]

/-- One piece is one reading. -/
theorem reads_of_piece {mode next : Mode} {front tail : List Char} {bytes : List UInt8}
    (hopens : Opens front)
    (h : ∀ c : Cursor, c.rest = front ++ tail → Makes files mode c bytes next front.length) :
    Reads files mode front tail bytes next := by
  intro c done events hc
  refine ⟨c.advance front.length, ?_, readFrom_of_makes hopens hc (h c hc) done events⟩
  rw [Cursor.rest_advance, hc, List.drop_left]

/-- **The end of a line.** A line that is read up to its end gives the bytes that were read. -/
theorem Reads.readFrom_result {mode next : Mode} {front more : List Char} {bytes : List UInt8}
    (h : Reads files mode front ('\n' :: more) bytes next) (hnext : next ≠ .quotation) {c : Cursor}
    (hc : c.rest = front ++ '\n' :: more) :
    ∃ c' : Cursor, c'.rest = '\n' :: more ∧ (read files mode c).result = .ok (bytes, c') := by
  obtain ⟨c', hc', hread⟩ := h c [] [] hc
  have hskip : c'.skipContinuation = c' := by
    rw [Cursor.skipContinuation, hc']
    rfl
  have hpeek : c'.skipContinuation.peek = '\n' := by
    rw [hskip, Cursor.peek, hc']
    rfl
  refine ⟨c', hc', ?_⟩
  rw [read, hread, readFrom_of_lineEnd hpeek hnext, hskip, List.append_nil, List.reverse_reverse]

/-! ## The parts of a listing -/

/-- How the text behind a bracketed code is read. -/
def Mode.behindCode : Mode → Mode
  | .statement _ => .statement false
  | mode => mode

theorem width_eq_zero_of_bracket (text : List Char) : Literal.width ('[' :: text) = 0 := by
  rw [Literal.width_eq_zero_iff]
  rfl

/-- At an opening bracket, neither a string nor a literal starts. -/
theorem starts_bracket {c : Cursor} {text : List Char} (hc : c.rest = '[' :: text) :
    c.peek ≠ Text.doubleQuote ∧ Literal.width c.rest = 0 := by
  constructor
  · rw [Cursor.peek, hc, List.headD_cons]
    decide
  · rw [hc]
    exact width_eq_zero_of_bracket text

/-- At an opening bracket, statement text is a bracketed code or a token. -/
theorem statementPiece_bracket {n : Bool} {c : Cursor} {text : List Char} (hc : c.rest = '[' :: text) :
    statementPiece files n c = statementCode files n c :=
  statementPiece_eq (starts_bracket hc).1 (.inr (starts_bracket hc).2)

/-- A bracketed code is a piece in every mode. -/
theorem piece_of_code {mode : Mode} {c : Cursor} {lexeme : Lexeme Emission} {text : List Char}
    (hc : c.rest = '[' :: text) (h : SpecialCode.read? files c = .ok (some lexeme)) :
    piece files mode c = .ok ⟨⟨lexeme.value, mode.behindCode⟩, lexeme.width, lexeme.positive⟩ := by
  obtain ⟨hquote, hwidth⟩ := starts_bracket hc
  have hletters : ∀ context, readLetters files context c = .ok lexeme := fun _ => readLetters_eq_ok_iff.mpr (.inl h)
  rw [piece_eq_ok_iff]
  cases mode with
  | remark => exact .remark (hletters _)
  | statement n => exact .code hquote (.inr hwidth) h
  | quotation =>
    have hstring := Takes.string (hletters .quotation)
    rwa [if_neg hquote] at hstring

/-- A bracketed code that stands for some bytes. -/
theorem reads_of_code {mode : Mode} {front tail : List Char} {bytes : List UInt8}
    (hfront : ∃ rest, front = '[' :: rest)
    (h : ∀ c : Cursor, c.rest = front ++ tail → ∃ lexeme,
      SpecialCode.read? files c = .ok (some lexeme) ∧ lexeme.value.bytes = bytes ∧
      lexeme.value.events = [] ∧ lexeme.width = front.length) :
    Reads files mode front tail bytes mode.behindCode := by
  obtain ⟨rest, rfl⟩ := hfront
  refine reads_of_piece (opens_of_head (by decide) (by decide)) fun c hc => ?_
  obtain ⟨lexeme, hread, hbytes, hevents, hwidth⟩ := h c hc
  exact ⟨_, piece_of_code hc hread, hbytes, hevents, rfl, hwidth⟩

theorem reads_code (mode : Mode) (b : UInt8) (tail : List Char) :
    Reads files mode (Token.code b) tail [b] mode.behindCode := by
  refine reads_of_code ⟨_, rfl⟩ fun c hc => ?_
  obtain ⟨lexeme, hscan, hvalue, hwidth⟩ := SpecialCode.scan?_code b tail
  have hemit := SpecialCode.emit_byte files c b
  rw [← hvalue] at hemit
  exact ⟨_, SpecialCode.read?_of_scan? (hc ▸ hscan) hemit, rfl, rfl, hwidth⟩

theorem reads_comment (mode : Mode) {inner : List Char} (tail : List Char)
    (h : ∀ c ∈ inner, SpecialCode.isInner c = true) :
    Reads files mode ('[' :: '#' :: (inner ++ [']'])) tail [] mode.behindCode := by
  refine reads_of_code ⟨_, rfl⟩ fun c hc => ?_
  have htext : c.rest = '[' :: '#' :: (inner ++ ']' :: tail) := by simp [hc]
  obtain ⟨lexeme, hscan, hvalue, hwidth⟩ := SpecialCode.scan?_comment tail h
  have hemit : lexeme.value.emit files c = .ok { bytes := [] } := by rw [hvalue]; rfl
  exact ⟨_, SpecialCode.read?_of_scan? (htext ▸ hscan) hemit, rfl, rfl, by simp [hwidth]⟩

theorem Mode.behindCode_behindCode (mode : Mode) : mode.behindCode.behindCode = mode.behindCode := by
  cases mode <;> rfl

theorem reads_codes (mode : Mode) (bytes : List UInt8) (tail : List Char) :
    Reads files mode.behindCode (bytes.flatMap Token.code) tail bytes mode.behindCode := by
  induction bytes with
  | nil => exact Reads.nil _ _
  | cons b bytes ih =>
    have h : Reads files mode.behindCode (Token.code b) (bytes.flatMap Token.code ++ tail) [b]
        mode.behindCode.behindCode := reads_code _ b _
    rw [Mode.behindCode_behindCode] at h
    exact h.append ih

/-- The codes of some bytes with a comment behind them. -/
theorem reads_commented (mode : Mode) (bytes : List UInt8) {inner : List Char} (tail : List Char)
    (h : ∀ c ∈ inner, SpecialCode.isInner c = true) :
    Reads files mode (bytes.flatMap Token.code ++ '[' :: '#' :: (inner ++ [']'])) tail bytes mode.behindCode := by
  have hcomment : ∀ mode : Mode, Reads files mode ('[' :: '#' :: (inner ++ [']'])) tail [] mode.behindCode :=
    fun mode => reads_comment mode tail h
  cases bytes with
  | nil => exact hcomment mode
  | cons b bytes =>
    have hall := (reads_code mode b _).append ((reads_codes mode bytes _).append (hcomment mode.behindCode))
    rw [Mode.behindCode_behindCode, List.append_nil] at hall
    rwa [List.flatMap_cons, List.append_assoc]

/-- A stored number that is written out is read as its mark and its bytes. -/
theorem reads_explicit (mode : Mode) (stored : List UInt8) (tail : List Char) :
    Reads files mode (TapeBasic.Piece.explicitNumber stored) tail (Token.number :: stored)
      mode.behindCode := by
  have hinner : ∀ c ∈ Decimal.briefMagnitude (TapeBasic.Piece.storedValue stored),
      SpecialCode.isInner c = true := by
    intro c hc
    have hfigure := Decimal.isFigure_of_mem_briefMagnitude hc
    rw [SpecialCode.isInner, Bool.and_eq_true, bne_iff_ne, bne_iff_ne]
    constructor <;> (rintro rfl; exact absurd hfigure (by decide))
  have htext : TapeBasic.Piece.explicitNumber stored = (Token.number :: stored).flatMap Token.code ++
      '[' :: '#' :: (Decimal.briefMagnitude (TapeBasic.Piece.storedValue stored) ++ [']']) := by
    simp [TapeBasic.Piece.explicitNumber, TapeBasic.Piece.numberText]
  rw [htext]
  exact reads_commented mode (Token.number :: stored) tail hinner

theorem ne_nil_of_opens {front : List Char} (h : Opens front) : front ≠ [] := by
  obtain ⟨first, rest, rfl, -⟩ := h
  simp

/-- The spelling of a token where letters stand for themselves, as the reader sees it. -/
theorem spelled_cases (b : UInt8) :
    Token.spelled b = Token.code b ∨
      (∀ tail, SpecialCode.scan? (Token.spelled b ++ tail) = none) ∧ '\n' ∉ Token.spelled b := by
  unfold Token.spelled
  split
  · next hb =>
    have hname := Token.bracketed_isName hb
    obtain ⟨-, -, hline⟩ := exists_of_isName hname
    exact .inr ⟨fun tail => SpecialCode.scan?_name tail hname, hline⟩
  · obtain ⟨first, rest, h⟩ := Token.exists_orderly b
    by_cases hfirst : first = '['
    · exact .inl (h.bracket hfirst)
    · refine .inr ⟨fun tail => SpecialCode.scan?_eq_none_of_head ?_, fun hmem => ?_⟩
      · rw [h.text_eq]
        simpa using hfirst
      · exact ne_lineEnd_of_isPrintable (h.printable _ (h.text_eq ▸ hmem)) rfl

theorem opens_spelled (b : UInt8) : Opens (Token.spelled b) := by
  unfold Token.spelled
  split
  · next hb => exact opens_name (Token.bracketed_isName hb)
  · exact opens_text b

/-- Where letters stand for themselves, the spelling of a token is read as the token. -/
theorem readLetters_spelled {context : Context} (hcontext : Grammar.ofContext context = Grammar.remark)
    (b : UInt8) {tail : List Char} {c : Cursor} (hc : c.rest = Token.spelled b ++ tail) :
    ∃ lexeme, readLetters files context c = .ok lexeme ∧ lexeme.value.bytes = [b] ∧
      lexeme.value.events = [] ∧ lexeme.width = (Token.spelled b).length := by
  rcases spelled_cases b with hcode | ⟨hscan, hline⟩
  · rw [hcode] at hc ⊢
    exact readLetters_of_code hc
  · refine readLetters_of_token hc (hscan tail) ?_ (ne_nil_of_opens (opens_spelled b)) hline
    rw [hcontext]
    exact Grammar.remark_read b tail

theorem reads_remark (b : UInt8) (tail : List Char) :
    Reads files .remark (Token.spelled b) tail [b] .remark := by
  refine reads_of_piece (opens_spelled b) fun c hc => ?_
  obtain ⟨lexeme, hread, hbytes, hevents, hwidth⟩ :=
    readLetters_spelled (show Grammar.ofContext .remark = Grammar.remark from rfl) b hc
  exact ⟨_, piece_eq_ok_iff.mpr (.remark hread), hbytes, hevents, rfl, hwidth⟩

/-- Only the quotation mark is written with a quotation mark in front. -/
theorem head_spelled_eq_quote_iff (b : UInt8) :
    (Token.spelled b).head? = some Text.doubleQuote ↔ b = Token.quote := by
  constructor
  · intro hhead
    unfold Token.spelled at hhead
    split at hhead
    · next hb =>
      obtain ⟨rest, hrest, -⟩ := exists_of_isName (Token.bracketed_isName hb)
      rw [hrest, List.head?_cons, Option.some.injEq] at hhead
      exact absurd hhead (by decide)
    · obtain ⟨first, rest, h⟩ := Token.exists_orderly b
      rw [h.text_eq, List.head?_cons, Option.some.injEq] at hhead
      exact h.quote hhead
  · intro hb
    have hplain : Token.isAmbiguous Token.quote = false := by decide
    rw [hb, Token.spelled, hplain, if_neg (by decide), Token.text_quote, List.head?_cons]

/-- A token of a string. Only the quotation mark closes the string. -/
theorem reads_string (b : UInt8) (tail : List Char) :
    Reads files .quotation (Token.spelled b) tail [b]
      (if b = Token.quote then .statement false else .quotation) := by
  refine reads_of_piece (opens_spelled b) fun c hc => ?_
  obtain ⟨lexeme, hread, hbytes, hevents, hwidth⟩ :=
    readLetters_spelled (show Grammar.ofContext .quotation = Grammar.remark from rfl) b hc
  have hpeek : c.peek = Text.doubleQuote ↔ b = Token.quote := by
    obtain ⟨first, rest, hfirst, -⟩ := opens_spelled b
    have hiff := head_spelled_eq_quote_iff b
    rw [hfirst, List.head?_cons, Option.some.injEq] at hiff
    rw [Cursor.peek, hc, hfirst, List.cons_append, List.headD_cons]
    exact hiff
  refine ⟨_, piece_eq_ok_iff.mpr (.string hread), hbytes, hevents, ?_, hwidth⟩
  simp only [hpeek]

theorem reads_opening (n : Bool) (tail : List Char) :
    Reads files (.statement n) (Token.text Token.quote) tail [Token.quote] .quotation := by
  refine reads_of_piece (opens_text _) fun c hc => ?_
  rw [Token.text_quote] at hc ⊢
  have hpeek : c.peek = Text.doubleQuote := by
    rw [Cursor.peek, hc, List.singleton_append, List.headD_cons]
  exact ⟨_, piece_eq_ok_iff.mpr (.opening hpeek), rfl, rfl, rfl, rfl⟩

/-- A token of statement text, which starts neither a code, nor a string, nor a literal. -/
theorem makes_token {n : Bool} {front tail : List Char} {b : UInt8} {c : Cursor} (hc : c.rest = front ++ tail)
    (hne : front ≠ []) (hline : '\n' ∉ front) (hscan : SpecialCode.scan? (front ++ tail) = none)
    (hquote : front.head? ≠ some Text.doubleQuote)
    (hliteral : n = true ∨ Literal.width (front ++ tail) = 0)
    (h : Grammar.statement.ReadsBack front b tail) :
    Makes files (.statement n) c [b] (.statement (staysInName n b)) front.length := by
  obtain ⟨lexeme, hread, hvalue, hwidth⟩ := Grammar.read?_of_readsBack hc h hne hline
  have hpeek : c.peek ≠ Text.doubleQuote := by
    obtain ⟨first, rest, rfl⟩ := List.exists_cons_of_ne_nil hne
    rw [Cursor.peek, hc]
    simpa using hquote
  have hcode : SpecialCode.read? files c = .ok none := by rw [SpecialCode.read?, hc, hscan]
  refine ⟨_, piece_eq_ok_iff.mpr (.token hpeek (hc ▸ hliteral) hcode hread), ?_, rfl, ?_, hwidth⟩
  · exact congrArg (fun b => [b]) hvalue
  · exact congrArg (fun b => Mode.statement (staysInName n b)) hvalue

theorem reads_token {n : Bool} {front tail : List Char} {b : UInt8} (hopens : Opens front)
    (hline : '\n' ∉ front) (hscan : SpecialCode.scan? (front ++ tail) = none)
    (hquote : front.head? ≠ some Text.doubleQuote)
    (hliteral : n = true ∨ Literal.width (front ++ tail) = 0)
    (h : Grammar.statement.ReadsBack front b tail) :
    Reads files (.statement n) front tail [b] (.statement (staysInName n b)) :=
  reads_of_piece hopens fun _ hc => makes_token hc (ne_nil_of_opens hopens) hline hscan hquote hliteral h

/-- The name of a token in brackets. -/
theorem reads_name (n : Bool) {b : UInt8} (hb : Token.isAmbiguous b = true) (tail : List Char) :
    Reads files (.statement n) (Token.bracketed b) tail [b] (.statement (staysInName n b)) := by
  have hname := Token.bracketed_isName hb
  obtain ⟨rest, hrest, hline⟩ := exists_of_isName hname
  refine reads_token (opens_name hname) hline (SpecialCode.scan?_name tail hname) ?_ (.inr ?_)
    (Grammar.bracketed_read hb tail)
  · rw [hrest, List.head?_cons, ne_eq, Option.some.injEq]
    decide
  · rw [hrest]
    exact width_eq_zero_of_bracket _

/-- Where a name does not go on, statement text that starts neither a string nor a line end is searched for a
literal first. -/
theorem statementPiece_literal {c : Cursor} (hquote : c.peek ≠ Text.doubleQuote)
    (hpos : 0 < Literal.width c.rest) :
    statementPiece files false c =
      match Literal.emit c (c.rest.take (Literal.width c.rest)) with
      | .error fault => .error fault
      | .ok bytes => .ok ⟨⟨{ bytes }, .statement false⟩, Literal.width c.rest, hpos⟩ := by
  rw [statementPiece, if_neg (mt beq_iff_eq.mp hquote), if_neg (by decide), Literal.read?, dif_pos hpos]
  cases Literal.emit c (c.rest.take (Literal.width c.rest)) <;> rfl

/-- A literal in front of a text that does not make it longer is read as its characters, the mark and its
value. -/
theorem makes_literal {literal tail : List Char} {characters stored : List UInt8} {c : Cursor}
    (hc : c.rest = literal ++ tail) (hne : literal ≠ []) (hquote : literal.head? ≠ some Text.doubleQuote)
    (hwidth : Literal.width (literal ++ tail) = literal.length)
    (hstored : StoredNumber.encode (Literal.value literal) = .ok stored)
    (hcharacters : (literal.mapM fun x => Token.ofCharacter? [x]) = some characters) :
    Makes files (.statement false) c (characters ++ Token.number :: stored) (.statement false)
      literal.length := by
  have hpeek : c.peek ≠ Text.doubleQuote := by
    obtain ⟨first, rest, rfl⟩ := List.exists_cons_of_ne_nil hne
    rw [Cursor.peek, hc]
    simpa using hquote
  rw [← hc] at hwidth
  have htake : c.rest.take (Literal.width c.rest) = literal := by rw [hwidth, hc, List.take_left]
  have hemit : Literal.emit c literal = .ok (characters ++ Token.number :: stored) := by
    simp only [Literal.emit, hstored, hcharacters]
  have hpos : 0 < Literal.width c.rest := hwidth ▸ List.length_pos_iff.mpr hne
  refine ⟨⟨⟨{ bytes := characters ++ Token.number :: stored }, .statement false⟩, _, hpos⟩, ?_, rfl, rfl, rfl,
    hwidth⟩
  rw [piece, statementPiece_literal hpeek hpos, htake, hemit]

theorem reads_literal {literal tail : List Char} {characters stored : List UInt8}
    (hopens : Opens literal) (hquote : literal.head? ≠ some Text.doubleQuote)
    (hwidth : Literal.width (literal ++ tail) = literal.length)
    (hstored : StoredNumber.encode (Literal.value literal) = .ok stored)
    (hcharacters : (literal.mapM fun x => Token.ofCharacter? [x]) = some characters) :
    Reads files (.statement false) literal tail (characters ++ Token.number :: stored)
      (.statement false) :=
  reads_of_piece hopens fun _ hc => makes_literal hc (ne_nil_of_opens hopens) hquote hwidth hstored hcharacters

end Body

end TapeBasic
