import TapeBasic.Proofs.AsciiSpellings
import TapeBasic.Proofs.LineBounds

/-!
# The pieces of a plain line

A line is *plain* if it is written in ASCII, opens no bracket and is not continued. It is read piece by piece
as the literals and tokens that its listing shows again: each in capitals, and with a space for the blank that
ends a keyword, be it the line end.

* `Grammar.Spells g front tail b`: in front of `tail`, the longest spelling of `b` is `front`.
* `Grammar.SpellsFirst g line front tail b width`: a line starts with this spelling, `width` characters of which
  stand in front of the line end.
* `Piece.Plain mode text ps`: in this mode, the text up to the line end is read as the pieces `ps`, whose texts
  are those of the listing.

Results:
* `Literal.width_capitals`, `Literal.value_capitals`: a literal in capitals is the same literal.
* `Grammar.exists_spellsFirst`: a token that is read of a plain line is a spelling at its start.
* `Piece.leads_of_piece`: what is read at the start of a plain line leads the pieces of the line.
* `Piece.Plain.of_readFrom`: a plain line that is read to its end is read as such pieces.
-/
namespace TapeBasic

open Text (isAscii isBlank isContained lookedUp)

/-! ## Literals in capitals -/

namespace Literal

/-- A character of a literal counts as the one by which it is looked up. -/
theorem countsAs_lookedUp {c : Char} (hc : isAscii c = true) : CountsAs (lookedUp c) c where
  value := Text.forall_ascii (P := fun c => Text.decimalValue? (lookedUp c) = Text.decimalValue? c) (by decide) hc
  point := Text.forall_ascii (P := fun c => lookedUp c = '.' ↔ c = '.') (by decide) hc
  plus := Text.forall_ascii (P := fun c => lookedUp c = '+' ↔ c = '+') (by decide) hc
  minus := Text.forall_ascii (P := fun c => lookedUp c = '-' ↔ c = '-') (by decide) hc
  letter := Text.forall_ascii (P := fun c => Text.sameLetter (lookedUp c) 'E' = Text.sameLetter c 'E')
    (by decide +kernel) hc

variable {text : List Char}

/-- **Capitals.** A text in capitals starts with the same literal. -/
theorem width_capitals (h : ∀ c ∈ text, isAscii c = true) : width (text.map lookedUp) = width text :=
  width_map fun c hc => countsAs_lookedUp (h c hc)

/-- A literal in capitals has the same value. -/
theorem value_capitals (h : ∀ c ∈ text, isAscii c = true) : value (text.map lookedUp) = value text :=
  value_map fun c hc => countsAs_lookedUp (h c hc)

end Literal

/-! ## The characters of a literal -/

namespace Piece

theorem isPart_capitals {c : Char} (hc : isAscii c = true) (h : Literal.isPart c = true) :
    c.toUpper = lookedUp c ∧ (lookedUp c).toUpper = lookedUp c ∧
      (Token.table.any fun row => isLiteralToken row.1 && row.2 == [lookedUp c]) = true :=
  Text.forall_ascii (P := fun c => Literal.isPart c = true →
    c.toUpper = lookedUp c ∧ (lookedUp c).toUpper = lookedUp c ∧
      (Token.table.any fun row => isLiteralToken row.1 && row.2 == [lookedUp c]) = true)
    (by decide +kernel) hc h

/-- A character of a literal stands for a figure. -/
theorem exists_figure {c : Char} (hc : isAscii c = true) (h : Literal.isPart c = true) :
    ∃ p, Figure p ∧ p.text = [lookedUp c] ∧ Token.ofCharacter? [c] = some p.byte := by
  obtain ⟨hupper, hcapital, hrow⟩ := isPart_capitals hc h
  obtain ⟨row, hmem, hrow⟩ := List.any_eq_true.mp hrow
  rw [Token.table_eq] at hmem
  obtain ⟨b, -, rfl⟩ := List.mem_map.mp hmem
  simp only [Bool.and_eq_true, beq_iff_eq] at hrow
  obtain ⟨hfigure, htext⟩ := hrow
  obtain ⟨x, hx, -, -, -, -, hof⟩ := Grammar.exists_character (letter_or_mark_of_isLiteralToken hfigure)
  obtain rfl : lookedUp c = x := by
    rw [htext, List.cons.injEq] at hx
    exact hx.1
  refine ⟨⟨b, Token.text b, true, none⟩, ⟨hfigure, by dsimp only, rfl, rfl⟩, by dsimp only; exact htext, ?_⟩
  dsimp only
  have hlooked : isAscii (lookedUp c) = true := Text.isAscii_lookedUp hc
  rw [Token.ofCharacter?, Text.upper_of_isAscii (by simpa using hlooked)] at hof
  rw [Token.ofCharacter?, Text.upper_of_isAscii (by simpa using hc)]
  simp only [List.map_cons, List.map_nil] at hof ⊢
  rw [hupper]
  rw [hcapital] at hof
  exact hof

/-- The characters of a literal stand for figures. -/
theorem exists_figures {literal : List Char} (hascii : ∀ c ∈ literal, isAscii c = true)
    (h : ∀ c ∈ literal, Literal.isPart c = true) :
    ∃ run, (∀ p ∈ run, Figure p) ∧ join run = literal.map lookedUp ∧
      (literal.mapM fun c => Token.ofCharacter? [c]) = some (run.map byte) := by
  induction literal with
  | nil => exact ⟨[], by simp, rfl, rfl⟩
  | cons c literal ih =>
    obtain ⟨hc, hrest⟩ := List.forall_mem_cons.mp hascii
    obtain ⟨hpart, hparts⟩ := List.forall_mem_cons.mp h
    obtain ⟨p, hp, htext, hof⟩ := exists_figure hc hpart
    obtain ⟨run, hrun, hjoin, hmap⟩ := ih hrest hparts
    refine ⟨p :: run, List.forall_mem_cons.mpr ⟨hp, hrun⟩, ?_, ?_⟩
    · rw [join_cons, htext, hjoin]
      rfl
    · rw [List.mapM_cons, hof, hmap]
      rfl

end Piece

/-! ## Plain lines -/

namespace Text

/-- A line in ASCII that opens no bracket and is not continued. -/
structure PlainLine (line : List Char) : Prop where
  contained : isContained line = true
  ascii : ∀ c ∈ line, isAscii c = true
  bracket : '[' ∉ line

theorem PlainLine.drop {line : List Char} (h : PlainLine line) (k : Nat) : PlainLine (line.drop k) :=
  ⟨isContained_drop h.contained k, fun c hc => h.ascii c (List.mem_of_mem_drop hc), fun hmem =>
    h.bracket (List.mem_of_mem_drop hmem)⟩

theorem PlainLine.lineEnd {line : List Char} (h : PlainLine line) :
    (∀ c ∈ line ++ ['\n'], isAscii c = true) ∧ '[' ∉ line ++ ['\n'] := by
  refine ⟨fun c hc => ?_, fun hmem => ?_⟩
  · rcases List.mem_append.mp hc with hc | hc
    · exact h.ascii c hc
    · obtain rfl := List.mem_singleton.mp hc
      rfl
  · rcases List.mem_append.mp hmem with hmem | hmem
    · exact h.bracket hmem
    · exact absurd hmem (by decide)

/-- Where a line goes on behind a match in it. The line end may belong to the match, but is not counted. -/
theorem cut_lineEnd {line : List Char} (hline : '\n' ∉ line) {matched width : Nat} (hle : matched ≤ line.length + 1)
    (hwidth : width = if ((line ++ ['\n']).take matched).getLast? == some '\n' then matched - 1 else matched) :
    width ≤ line.length ∧ ((line ++ ['\n']).drop matched = line.drop width ++ ['\n'] ∨
      ((line ++ ['\n']).drop matched = [] ∧ line.drop width = [])) := by
  rcases Nat.lt_or_ge line.length matched with hlt | hge
  · -- the line end belongs to the match
    obtain rfl : matched = line.length + 1 := by omega
    rw [List.take_of_length_le (by simp), List.getLast?_concat, if_pos (beq_self_eq_true _)] at hwidth
    subst hwidth
    exact ⟨Nat.le_refl _, .inr ⟨by simp, by simp⟩⟩
  · have hlast : ((line ++ ['\n']).take matched).getLast? ≠ some '\n' := by
      rw [List.take_append_of_le_length hge]
      exact fun hlast => hline (List.mem_of_mem_take (List.mem_of_getLast? hlast))
    rw [if_neg (mt beq_iff_eq.mp hlast)] at hwidth
    subst hwidth
    exact ⟨hge, .inl (List.drop_append_of_le_length hge)⟩

theorem lookedUp_eq_bracket {c : Char} (hc : isAscii c = true) (h : lookedUp c = '[') : c = '[' :=
  forall_ascii (P := fun c => lookedUp c = '[' → c = '[') (by decide +kernel) hc h

end Text

open Text (PlainLine)

/-! ## Spellings -/

namespace Grammar

/-- In front of `tail`, the longest spelling is `front`, which stands for `b`: it is written as `b` is
spelled, with letters in either case and maybe with another blank for the last space. -/
structure Spells (g : Grammar) (front tail : List Char) (b : UInt8) : Prop where
  width : g.width? (front ++ tail) = some front.length
  find : g.find? (Token.text b) = some b
  text : front.map lookedUp = Token.text b
  accepts : (Pattern.ofSymbol lineEndingSymbols (Token.text b)).accepts (front ++ tail) = true
  inner : ∀ c ∈ front.dropLast, isBlank c = true → c = ' '
  bracket : '[' ∉ Token.text b

theorem Spells.ne_nil {g : Grammar} {front tail : List Char} {b : UInt8} (h : Spells g front tail b) :
    front ≠ [] := by
  intro hnil
  obtain ⟨first, rest, ho⟩ := Token.exists_orderly b
  have htext := h.text
  rw [hnil, ho.text_eq] at htext
  cases htext

/-- A line starts with the spelling of a token, `width` characters of which stand in front of the line end. The line
end stands behind the spelling, unless it closes it. -/
structure SpellsFirst (g : Grammar) (line front tail : List Char) (b : UInt8) (width : Nat) : Prop where
  split : line ++ ['\n'] = front ++ tail
  spells : Spells g front tail b
  width_le : width ≤ line.length
  behind : tail = line.drop width ++ ['\n'] ∨ (tail = [] ∧ line.drop width = [])

/-- **Spellings.** A token that is read of a plain line is a spelling at its start. -/
theorem exists_spellsFirst {symbols : List (List Char × UInt8)} (htidy : isTidyTable symbols = true)
    (hprint : ∀ s ∈ symbols, ∀ c ∈ s.1, Text.isPrintable c = true)
    (hrows : ∀ s ∈ symbols, '[' ∉ s.1 → s.1 = Token.text s.2) {c : Cursor} {line more : List Char}
    (hc : c.rest = line ++ '\n' :: more) (hline : PlainLine line) {token : Lexeme UInt8}
    (h : (ofSymbols symbols).read? c = .ok (some token)) :
    ∃ front tail, SpellsFirst (ofSymbols symbols) line front tail token.value token.width := by
  obtain ⟨hascii, hbracket⟩ := hline.lineEnd
  obtain ⟨-, matched, hmatched, hlookup, hwidth⟩ := exists_of_read? h
  rw [hc, width?_lineEnd htidy line more] at hmatched
  obtain ⟨s, -, hmap, haccepts, -, hblank⟩ := exists_symbol_of_width? htidy hprint hascii hmatched
  obtain ⟨b, hb, hfind, hrow⟩ := exists_lookup_of_width? htidy hprint hascii hmatched
  have hle := width?_le htidy hmatched
  have htake : c.rest.take matched = (line ++ ['\n']).take matched := by
    rw [hc, ← List.singleton_append, ← List.append_assoc, List.take_append_of_le_length hle]
  rw [htake] at hlookup hwidth
  obtain rfl : b = token.value := Except.ok.inj (hb.symm.trans hlookup)
  have hopen : '[' ∉ ((line ++ ['\n']).take matched).map lookedUp := by
    intro hopen
    obtain ⟨x, hx, hlooked⟩ := List.mem_map.mp hopen
    have hmem := List.mem_of_mem_take hx
    exact hbracket (Text.lookedUp_eq_bracket (hascii x hmem) hlooked ▸ hmem)
  have htext : ((line ++ ['\n']).take matched).map lookedUp = Token.text token.value := hrows _ hrow hopen
  obtain ⟨hwidth, hbehind⟩ := Text.cut_lineEnd (Text.lineEnd_not_mem hline.contained) (by simpa using hle) hwidth
  refine ⟨_, _, (List.take_append_drop matched _).symm, ⟨?_, htext ▸ hfind, htext, ?_, hblank, htext ▸ hopen⟩,
    hwidth, hbehind⟩
  · rw [List.take_append_drop, List.length_take, Nat.min_eq_left hle]
    exact hmatched
  · rw [List.take_append_drop, ← htext, hmap]
    exact haccepts

theorem text_of_mem_statementSymbols : ∀ s ∈ statementSymbols, '[' ∉ s.1 → s.1 = Token.text s.2 := by
  intro s hs hopen
  obtain ⟨b, -, hs⟩ := List.mem_flatMap.mp hs
  split at hs
  · next hb =>
    rcases List.mem_cons.mp hs with rfl | hs
    · dsimp only
    · obtain rfl := List.mem_singleton.mp hs
      obtain ⟨rest, hrest, -⟩ := Body.exists_of_isName (Token.bracketed_isName hb)
      exact absurd (by rw [hrest]; exact List.mem_cons_self) hopen
  · obtain rfl := List.mem_singleton.mp hs
    dsimp only

theorem text_of_mem_remarkSymbols : ∀ s ∈ remarkSymbols, '[' ∉ s.1 → s.1 = Token.text s.2 := by
  intro s hs hopen
  obtain ⟨b, -, rfl⟩ := List.mem_map.mp hs
  dsimp only at hopen ⊢
  split
  · next hb =>
    rw [if_pos hb] at hopen
    obtain ⟨rest, hrest, -⟩ := Body.exists_of_isName (Token.bracketed_isName hb)
    exact absurd (by rw [hrest]; exact List.mem_cons_self) hopen
  · rfl

/-- **Tokens of statement text.** -/
theorem exists_spellsFirst_statement {c : Cursor} {line more : List Char} (hc : c.rest = line ++ '\n' :: more)
    (hline : PlainLine line) {token : Lexeme UInt8} (h : statement.read? c = .ok (some token)) :
    ∃ front tail, SpellsFirst statement line front tail token.value token.width :=
  exists_spellsFirst statement_checked.1 printable_statementSymbols text_of_mem_statementSymbols hc hline h

/-- **Tokens where letters stand for themselves.** -/
theorem exists_spellsFirst_remark {c : Cursor} {line more : List Char} (hc : c.rest = line ++ '\n' :: more)
    (hline : PlainLine line) {token : Lexeme UInt8} (h : remark.read? c = .ok (some token)) :
    ∃ front tail, SpellsFirst remark line front tail token.value token.width :=
  exists_spellsFirst remark_checked.1 printable_remarkSymbols text_of_mem_remarkSymbols hc hline h

end Grammar

/-! ## Pieces -/

namespace Piece

/-- In this mode, the text up to the line end is read as the pieces, whose texts are those of a listing. The
line end stands behind the last piece, unless it closes that piece. -/
inductive Plain : Body.Mode → List Char → List Piece → Prop where
  | lineEnd {mode : Body.Mode} : mode ≠ .quotation → Plain mode ['\n'] []
  | closed {mode : Body.Mode} : mode ≠ .quotation → Plain mode [] []
  | opening {n : Bool} {text : List Char} {ps : List Piece} : Plain .quotation text ps →
    Plain (.statement n) (Text.doubleQuote :: text) (⟨Token.quote, Token.text Token.quote, true, none⟩ :: ps)
  | literal {front text : List Char} {run ps : List Piece} {stored : List UInt8} : front ≠ [] →
    Literal.width (front ++ text) = front.length → (∀ p ∈ run, Figure p) → join run = front.map lookedUp →
    StoredNumber.encode (Literal.value (join run)) = .ok stored → Plain (.statement false) text ps →
    Plain (.statement false) (front ++ text) (run ++ ⟨Token.number, [], true, some stored⟩ :: ps)
  | token {n : Bool} {b : UInt8} {front text : List Char} {ps : List Piece} :
    Grammar.statement.Spells front text b → front.head? ≠ some Text.doubleQuote →
    (n = true ∨ Literal.width (front ++ text) = 0) → Plain (.statement (Body.staysInName n b)) text ps →
    Plain (.statement n) (front ++ text) (⟨b, Token.text b, true, none⟩ :: ps)
  | remark {b : UInt8} {front text : List Char} {ps : List Piece} : Grammar.remark.Spells front text b →
    Plain .remark text ps → Plain .remark (front ++ text) (⟨b, Token.text b, false, none⟩ :: ps)
  | string {b : UInt8} {front text : List Char} {ps : List Piece} : Grammar.remark.Spells front text b →
    Plain (if front.head? = some Text.doubleQuote then .statement false else .quotation) text ps →
    Plain .quotation (front ++ text) (⟨b, Token.text b, false, none⟩ :: ps)

variable {files : FileReader} {line more : List Char} {c : Cursor}

/-- No bracketed code stands in a plain line. -/
theorem read?_eq_none (hc : c.rest = line ++ '\n' :: more) (hline : PlainLine line) :
    SpecialCode.read? files c = .ok none := by
  have hhead : c.rest.head? ≠ some '[' := by
    rw [hc]
    cases line with
    | nil => simp
    | cons x line =>
      intro hx
      exact hline.bracket (by simp [Option.some.inj hx])
  rw [SpecialCode.read?, SpecialCode.scan?_eq_none_of_head hhead]

/-- The first part of a line starts where the line goes on. -/
theorem head?_eq_peek {front tail : List Char} (hc : c.rest = line ++ '\n' :: more)
    (hsplit : line ++ ['\n'] = front ++ tail) (hne : front ≠ []) : front.head? = some c.peek := by
  have hrest : c.rest = front ++ (tail ++ more) := by
    rw [hc, ← List.append_assoc, ← hsplit, List.append_assoc, List.singleton_append]
  obtain ⟨x, rest, rfl⟩ := List.exists_cons_of_ne_nil hne
  rw [Cursor.peek, hrest]
  rfl

/-- A piece that is read at the start of a plain line, and how the pieces of the text behind it go on. -/
def Leads (mode : Body.Mode) (line : List Char) (lexeme : Lexeme Body.Piece) : Prop :=
  lexeme.width ≤ line.length ∧ ∃ ps, lexeme.value.emission.bytes = ps.flatMap bytes ∧ ∀ qs,
    Plain lexeme.value.next (line.drop lexeme.width ++ ['\n']) qs →
    (line.drop lexeme.width = [] → Plain lexeme.value.next [] qs) → Plain mode (line ++ ['\n']) (ps ++ qs)

/-- Behind a spelling the pieces go on with the line, or there are none. -/
theorem Plain.behind {g : Grammar} {front tail : List Char} {b : UInt8} {width : Nat} {mode : Body.Mode}
    {qs : List Piece} (h : g.SpellsFirst line front tail b width) (hqs : Plain mode (line.drop width ++ ['\n']) qs)
    (hend : line.drop width = [] → Plain mode [] qs) : Plain mode tail qs := by
  rcases h.behind with htail | ⟨htail, hdrop⟩ <;> rw [htail]
  · exact hqs
  · exact hend hdrop

theorem leads_token {n : Bool} (hc : c.rest = line ++ '\n' :: more) (hline : PlainLine line)
    (hquote : c.peek ≠ Text.doubleQuote) (hsingle : n = true ∨ Literal.width c.rest = 0) {token : Lexeme UInt8}
    (h : Grammar.statement.read? c = .ok (some token)) :
    Leads (.statement n) line ⟨⟨{ bytes := [token.value] }, .statement (Body.staysInName n token.value)⟩,
      token.width, token.positive⟩ := by
  obtain ⟨front, tail, hfirst⟩ := Grammar.exists_spellsFirst_statement hc hline h
  refine ⟨hfirst.width_le, [⟨token.value, Token.text token.value, true, none⟩], rfl, fun qs hqs hend => ?_⟩
  have hhead : front.head? ≠ some Text.doubleQuote := by
    rw [head?_eq_peek hc hfirst.split hfirst.spells.ne_nil, ne_eq, Option.some.injEq]
    exact hquote
  have hzero : n = true ∨ Literal.width (front ++ tail) = 0 := by
    refine hsingle.imp_right fun hzero => ?_
    rw [← hfirst.split, Literal.width_append_cons _ _ (by decide)]
    rwa [hc, Literal.width_append_cons _ _ (by decide)] at hzero
  rw [hfirst.split]
  exact .token hfirst.spells hhead hzero (.behind hfirst hqs hend)

theorem leads_literal (hc : c.rest = line ++ '\n' :: more) (hline : PlainLine line)
    {literal : Lexeme (List UInt8)} (h : Literal.read? c = .ok (some literal)) :
    Leads (.statement false) line ⟨⟨{ bytes := literal.value }, .statement false⟩, literal.width,
      literal.positive⟩ := by
  obtain ⟨hwidth, hemit⟩ := Literal.of_read? h
  have hsame : Literal.width c.rest = Literal.width line := by
    rw [hc, Literal.width_append_cons _ _ (by decide)]
  have hle : Literal.width line ≤ line.length := Literal.width_le line
  rw [hsame] at hwidth hemit
  rw [hc, List.take_append_of_le_length hle] at hemit
  obtain ⟨stored, characters, hstored, hcharacters, hvalue⟩ := Literal.emit_eq_ok_iff.mp hemit
  have hascii : ∀ c ∈ line.take (Literal.width line), isAscii c = true := fun c hc =>
    hline.ascii c (List.mem_of_mem_take hc)
  obtain ⟨run, hrun, hjoin, hmap⟩ := exists_figures hascii fun c hc => Literal.isPart_of_mem_width hc
  obtain rfl : run.map byte = characters := Option.some.inj (hmap.symm.trans hcharacters)
  have hsplit : line ++ ['\n'] =
      line.take (Literal.width line) ++ (line.drop (Literal.width line) ++ ['\n']) := by
    rw [← List.append_assoc, List.take_append_drop]
  have hlength : Literal.width (line.take (Literal.width line) ++ (line.drop (Literal.width line) ++ ['\n'])) =
      (line.take (Literal.width line)).length := by
    rw [← hsplit, Literal.width_append_cons _ _ (by decide), List.length_take, Nat.min_eq_left hle]
  have hne : line.take (Literal.width line) ≠ [] := by
    rw [← List.length_pos_iff, List.length_take, Nat.min_eq_left hle, ← hwidth]
    exact literal.positive
  have hencode : StoredNumber.encode (Literal.value (join run)) = .ok stored := by
    rw [hjoin, Literal.value_capitals hascii]
    exact hstored
  refine ⟨hwidth ▸ hle, run ++ [⟨Token.number, [], true, some stored⟩], ?_, fun qs hqs _ => ?_⟩
  · rw [List.flatMap_append, bytes_figures hrun, hvalue]
    simp [bytes]
  · dsimp only at hqs
    rw [hwidth] at hqs
    rw [hsplit, List.append_assoc, List.singleton_append]
    exact .literal hne hlength hrun hjoin hencode hqs

/-- Where letters stand for themselves, the next piece of a plain line is a spelling. -/
theorem exists_spellsFirst_of_readLetters (hc : c.rest = line ++ '\n' :: more) (hline : PlainLine line)
    {context : Context} (hcontext : Grammar.ofContext context = Grammar.remark) {lexeme : Lexeme Emission}
    (h : readLetters files context c = .ok lexeme) :
    ∃ b front tail, Grammar.remark.SpellsFirst line front tail b lexeme.width ∧ lexeme.value.bytes = [b] := by
  rcases readLetters_eq_ok_iff.mp h with hcode | ⟨-, token, htoken, rfl⟩
  · cases (read?_eq_none hc hline).symm.trans hcode
  · rw [hcontext] at htoken
    obtain ⟨front, tail, hfirst⟩ := Grammar.exists_spellsFirst_remark hc hline htoken
    exact ⟨token.value, front, tail, hfirst, rfl⟩

/-- **One piece.** What is read at the start of a plain line leads the pieces of the line. -/
theorem leads_of_piece {mode : Body.Mode} (hc : c.rest = line ++ '\n' :: more) (hline : PlainLine line)
    (hpeek : c.peek ≠ '\n') {lexeme : Lexeme Body.Piece} (h : Body.piece files mode c = .ok lexeme) :
    Leads mode line lexeme := by
  cases Body.piece_eq_ok_iff.mp h with
  | remark hletters =>
    obtain ⟨b, front, tail, hfirst, hbytes⟩ := exists_spellsFirst_of_readLetters hc hline rfl hletters
    refine ⟨hfirst.width_le, [⟨b, Token.text b, false, none⟩], hbytes, fun qs hqs hend => ?_⟩
    rw [hfirst.split]
    exact .remark hfirst.spells (.behind hfirst hqs hend)
  | string hletters =>
    obtain ⟨b, front, tail, hfirst, hbytes⟩ := exists_spellsFirst_of_readLetters hc hline rfl hletters
    have hhead : c.peek = Text.doubleQuote ↔ front.head? = some Text.doubleQuote := by
      rw [head?_eq_peek hc hfirst.split hfirst.spells.ne_nil, Option.some.injEq]
    refine ⟨hfirst.width_le, [⟨b, Token.text b, false, none⟩], hbytes, fun qs hqs hend => ?_⟩
    simp only [hhead] at hqs hend
    rw [hfirst.split]
    exact .string hfirst.spells (.behind hfirst hqs hend)
  | opening hquote =>
    cases line with
    | nil => exact absurd (by rw [Cursor.peek, hc]; rfl) hpeek
    | cons x line =>
      rw [Cursor.peek, hc] at hquote
      obtain rfl : x = Text.doubleQuote := hquote
      exact ⟨by simp, [⟨Token.quote, Token.text Token.quote, true, none⟩], rfl, fun qs hqs _ => .opening hqs⟩
  | literal _ hliteral => exact leads_literal hc hline hliteral
  | code _ _ hcode => cases (read?_eq_none hc hline).symm.trans hcode
  | token hquote hsingle _ htoken => exact leads_token hc hline hquote hsingle htoken

/-- **Plain lines.** A plain line that is read to its end is read as pieces whose texts are those of its
listing. -/
theorem Plain.of_readFrom {mode : Body.Mode} {done bytes : List UInt8} {events : Journal} {next : Cursor}
    (hc : c.rest = line ++ '\n' :: more) (hline : PlainLine line)
    (h : (Body.readFrom files mode c done events).result = .ok (bytes, next)) :
    ∃ ps, Plain mode (line ++ ['\n']) ps ∧ bytes = done.reverse ++ ps.flatMap Piece.bytes ∧
      next.rest = '\n' :: more ∧ (line = [] → Plain mode [] ps) := by
  have hskip : ∀ {c : Cursor} {line : List Char}, c.rest = line ++ '\n' :: more → PlainLine line →
      c.skipContinuation = c := by
    intro c line hc hline
    rw [Cursor.skipContinuation, hc, Cursor.continuationWidth_inLine hline.contained]
    rfl
  fun_induction Body.readFrom files mode c done events generalizing line
  case case1 => cases h
  case case2 mode c done events here hpeek hmode =>
    have hhere : here = c := hskip hc hline
    rw [hhere] at hpeek h
    cases h
    have hnil : line = [] := by
      cases line with
      | nil => rfl
      | cons x line =>
        refine absurd ?_ (Text.lineEnd_not_mem hline.contained)
        rw [Cursor.peek, hc] at hpeek
        exact hpeek ▸ List.mem_cons_self
    subst hnil
    exact ⟨[], .lineEnd hmode, by simp, hc, fun _ => .closed hmode⟩
  case case3 => cases h
  case case4 mode c done events here hpeek lexeme hpiece hlt ih =>
    have hhere : here = c := hskip hc hline
    clear hlt
    rw [hhere] at hpeek hpiece h ih
    obtain ⟨hwidth, ps, hbytes, hgrow⟩ := leads_of_piece hc hline hpeek hpiece
    obtain ⟨qs, hqs, hall, hnext, hend⟩ := @ih (line.drop lexeme.width)
      (by rw [Cursor.rest_advance, hc, List.drop_append_of_le_length hwidth]) (hline.drop _) h
    refine ⟨ps ++ qs, hgrow qs hqs hend, ?_, hnext, fun hnil => ?_⟩
    · rw [hall, hbytes]
      simp
    · have := lexeme.positive
      rw [hnil, List.length_nil] at hwidth
      omega

end Piece

end TapeBasic
