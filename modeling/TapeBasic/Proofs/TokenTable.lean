import TapeBasic.Listing.Numbers
import TapeBasic.Proofs.Spellings
import TapeBasic.Source.Cursor
import TapeBasic.Text.Quoted

/-!
# What the table of spellings holds

The facts about the 256 spellings that the round trip of a line rests on.

Results:
* `statement_checked`, `remark_checked`, `spellings_checked`: what is settled by going through the table.
* `remark_read`: where letters stand for themselves, every token is read back from its spelling.
* `command_read`, `bracketed_read`, `mark_read`: in statement text, so are statement keywords, names in
  brackets, and the digits, points and signs of literals, whatever follows them.
* `character_read`: a character is read back where nothing longer can be read, so a letter (`letter_read`) is read
  back unless a letter follows it.
* `exists_orderly`: how a spelling starts tells what it can be taken for.
-/
namespace TapeBasic

open Token

namespace Grammar

/-! ## The two grammars as tables -/

/-- The rows of the statement grammar. -/
def statementRows : List (List Char × UInt8) :=
  table.flatMap fun x =>
    if isAmbiguous x.1 then [(x.2, x.1), (bracket x.2, x.1)] else [(x.2, x.1)]

/-- The rows of the remark grammar. -/
def remarkRows : List (List Char × UInt8) :=
  table.map fun x => (if isAmbiguous x.1 then bracket x.2 else x.2, x.1)

theorem statementSymbols_eq : statementSymbols = statementRows := by
  rw [statementRows, table_eq, List.flatMap_map, statementSymbols]
  simp only [bracketed_eq]

theorem remarkSymbols_eq : remarkSymbols = remarkRows := by
  rw [remarkRows, table_eq, List.map_map, remarkSymbols]
  simp only [bracketed_eq, Function.comp_def]

theorem mem_remarkSymbols (b : UInt8) : (spelled b, b) ∈ remarkSymbols :=
  List.mem_map.mpr ⟨b, mem_allTokens b, rfl⟩

theorem mem_statementSymbols (b : UInt8) : (text b, b) ∈ statementSymbols := by
  refine List.mem_flatMap.mpr ⟨b, mem_allTokens b, ?_⟩
  split <;> exact List.mem_cons_self

theorem bracketed_mem_statementSymbols {b : UInt8} (h : isAmbiguous b = true) :
    (bracketed b, b) ∈ statementSymbols := by
  refine List.mem_flatMap.mpr ⟨b, mem_allTokens b, ?_⟩
  rw [if_pos h]
  exact List.mem_cons_of_mem _ List.mem_cons_self

/-! ## What is checked of the tables -/

/-- Whether a spelling is firm and nothing about it depends on what follows. -/
def isSettled (symbols : List (List Char × UInt8)) (front : List Char) (b : UInt8) : Bool :=
  isFirm symbols front b && (Pattern.ofSymbol lineEndingSymbols front).ending != .wordEnd

/-- A digit, a point or a sign. -/
def isMark (b : UInt8) : Bool := Piece.isLiteralToken b && !isLetter b

/-- Whether no other token of a table has this spelling. -/
def isOwn (symbols : List (List Char × UInt8)) (front : List Char) (b : UInt8) : Bool :=
  symbols.all fun s => bif (rowCode s.1).beq (rowCode front) then s.2 == b else true

/-- A letter, a digit, a point or a sign and its one character. -/
def isCharacter (b : UInt8) : List Char → Bool
  | [c] =>
    Text.isLatinLetter c == isLetter b && c.isAlpha == isLetter b && c.isDigit == isDigit b &&
      Text.isDecimal c == isDigit b && Text.upper [c] == [c]
  | _ => false

/-- Whether a spelling of several characters that starts with a letter goes on with one. -/
def goesOnWithLetter : List Char → Bool
  | a :: x :: _ => !Text.isLatinLetter a || Text.isLatinLetter x
  | _ => true

/-- Whether a byte can be read back in a statement: a statement keyword, a digit, a point or a sign as it
is spelled, what is spelled like ordinary text in brackets, and a letter unless a letter follows it. -/
def isReadable (symbols : List (List Char × UInt8)) (b : UInt8) (spelling : List Char) : Bool :=
  (!(isCommand b || isMark b) || isSettled symbols spelling b) &&
    (!isAmbiguous b || isSettled symbols (bracket spelling) b) &&
    (!(isLetter b || isMark b) || (isCharacter b spelling && isOwn symbols spelling b))

theorem statement_checked : isTidyTable statementSymbols = true ∧
    (∀ s ∈ statementSymbols, goesOnWithLetter s.1 = true) ∧
    ∀ x ∈ table, isReadable statementSymbols x.1 x.2 = true := by
  rw [statementSymbols_eq]
  decide +kernel

theorem remark_checked : isTidyTable remarkSymbols = true ∧
    ∀ s ∈ remarkSymbols, isSettled remarkSymbols s.1 s.2 = true := by
  rw [remarkSymbols_eq]
  decide +kernel

theorem isReadable_text (b : UInt8) : isReadable statementSymbols b (text b) = true :=
  forall_text (P := fun b t => isReadable statementSymbols b t = true) statement_checked.2.2 b

theorem isSettled_text {b : UInt8} (h : (isCommand b || isMark b) = true) :
    isSettled statementSymbols (text b) b = true := by
  have hread := isReadable_text b
  simp only [isReadable, h, Bool.not_true, Bool.false_or, Bool.and_eq_true] at hread
  exact hread.1.1

theorem isSettled_bracketed {b : UInt8} (h : isAmbiguous b = true) :
    isSettled statementSymbols (bracketed b) b = true := by
  have hread := isReadable_text b
  simp only [isReadable, h, Bool.not_true, Bool.false_or, Bool.and_eq_true] at hread
  rw [bracketed_eq]
  exact hread.1.2

theorem isCharacter_text {b : UInt8} (h : (isLetter b || isMark b) = true) :
    isCharacter b (text b) = true ∧ isOwn statementSymbols (text b) b = true := by
  have hread := isReadable_text b
  simp only [isReadable, h, Bool.not_true, Bool.false_or, Bool.and_eq_true] at hread
  exact hread.2

/-! ## Firm spellings -/

/-- A spelling is read back in front of a text: the longest match is the spelling, and its token is the
one it stands for. -/
def ReadsBack (g : Grammar) (front : List Char) (b : UInt8) (tail : List Char) : Prop :=
  g.width? (front ++ tail) = some front.length ∧ g.lookup front = .ok b

theorem readsBack_of_isSettled {symbols : List (List Char × UInt8)}
    (htidy : isTidyTable symbols = true) {front : List Char} {b : UInt8}
    (hmem : (front, b) ∈ symbols) (h : isSettled symbols front b = true) (tail : List Char) :
    ReadsBack (ofSymbols symbols) front b tail := by
  simp only [isSettled, Bool.and_eq_true, bne_iff_ne, ne_eq] at h
  exact ⟨width?_of_firm htidy tail hmem h.1 h.2, lookup_of_firm htidy hmem h.1 h.2⟩

/-- **Remarks and strings.** Where letters stand for themselves, every token is read back. -/
theorem remark_read (b : UInt8) (tail : List Char) : ReadsBack remark (spelled b) b tail :=
  readsBack_of_isSettled remark_checked.1 (mem_remarkSymbols b)
    (remark_checked.2 (spelled b, b) (mem_remarkSymbols b)) tail

theorem command_read {b : UInt8} (h : isCommand b = true) (tail : List Char) :
    ReadsBack statement (text b) b tail :=
  readsBack_of_isSettled statement_checked.1 (mem_statementSymbols b)
    (isSettled_text (by rw [h, Bool.true_or])) tail

theorem mark_read {b : UInt8} (h : isMark b = true) (tail : List Char) :
    ReadsBack statement (text b) b tail :=
  readsBack_of_isSettled statement_checked.1 (mem_statementSymbols b)
    (isSettled_text (by rw [h, Bool.or_true])) tail

theorem bracketed_read {b : UInt8} (h : isAmbiguous b = true) (tail : List Char) :
    ReadsBack statement (bracketed b) b tail :=
  readsBack_of_isSettled statement_checked.1 (bracketed_mem_statementSymbols h)
    (isSettled_bracketed h) tail

/-! ## Letters -/

theorem own_of_isOwn {symbols : List (List Char × UInt8)} {front : List Char} {b : UInt8}
    (h : isOwn symbols front b = true) : ∀ s ∈ symbols, s.1 = front → s.2 = b := by
  rintro s hs rfl
  have hread := List.all_eq_true.mp h s hs
  rw [Nat.beq_refl, cond_true, beq_iff_eq] at hread
  exact hread

/-- A letter, a digit, a point or a sign is written as one character of the same kind. -/
theorem exists_character {b : UInt8} (h : (isLetter b || isMark b) = true) :
    ∃ c, text b = [c] ∧ Text.isLatinLetter c = isLetter b ∧ c.isAlpha = isLetter b ∧
      c.isDigit = isDigit b ∧ Text.isDecimal c = isDigit b ∧ ofCharacter? [c] = some b := by
  obtain ⟨hchar, hown⟩ := isCharacter_text h
  unfold isCharacter at hchar
  split at hchar
  · next c hc =>
    simp only [Bool.and_eq_true, beq_iff_eq] at hchar
    obtain ⟨⟨⟨⟨h1, h2⟩, h3⟩, h4⟩, h5⟩ := hchar
    refine ⟨c, hc, h1, h2, h3, h4, ?_⟩
    rw [ofCharacter?, h5, ← hc]
    exact find?_of_unique (mem_statementSymbols b) (own_of_isOwn hown)
  · exact absurd hchar (by decide)

section Letters

variable {c : Char} {tail : List Char} (hc : Text.isLatinLetter c = true)
  (htail : ∀ y ∈ tail.head?, Text.isLatinLetter y = false)

include hc htail

/-- Where no letter follows a letter, no two letters are read. -/
theorem length_le_one_of_prefix {letters : List Char} (hgo : goesOnWithLetter letters = true)
    (h : letters.map Text.fold <+: (c :: tail).map Text.fold) : letters.length ≤ 1 := by
  match letters with
  | [] => simp
  | [_] => simp
  | a :: x :: rest =>
    exfalso
    cases tail with
    | nil => simp at h
    | cons y tail =>
      simp only [List.map_cons, List.cons_prefix_cons] at h
      have hy := htail y rfl
      simp only [Text.isLatinLetter] at hc hy
      simp [goesOnWithLetter, Text.isLatinLetter, h.1, h.2.1, hc, hy] at hgo

theorem length_le_one_of_accepts {symbol : List Char} (hgo : goesOnWithLetter symbol = true)
    (h : (Pattern.ofSymbol lineEndingSymbols symbol).accepts (c :: tail) = true) :
    symbol.length ≤ 1 := by
  rw [Pattern.accepts, Bool.and_eq_true, Text.startsWithLetters_iff] at h
  rcases Pattern.ofSymbol_cases lineEndingSymbols symbol with
    ⟨letters, ending, rfl, hp, -⟩ | ⟨ending, hp, -⟩
  · rw [hp] at h
    cases letters with
    | nil => simp
    | cons a letters =>
      cases letters with
      | nil =>
        -- a letter and a space do not go on with a letter
        have hpre := h.1
        simp only [List.map_cons, List.cons_prefix_cons] at hpre
        rw [Text.isLatinLetter, ← hpre.1] at hc
        simp [goesOnWithLetter, Text.isLatinLetter, hc] at hgo
        exact absurd hgo (by decide)
      | cons x rest =>
        have hlength : (a :: x :: rest).length ≤ 1 := length_le_one_of_prefix hc htail hgo h.1
        simp at hlength
  · rw [hp] at h
    exact length_le_one_of_prefix hc htail hgo h.1

end Letters

/-- A letter, a digit, a point or a sign is read back where nothing longer can be read. -/
theorem character_read {b : UInt8} (hb : (isLetter b || isMark b) = true) {tail : List Char}
    (h : ∀ s ∈ statementSymbols,
      (Pattern.ofSymbol lineEndingSymbols s.1).accepts (text b ++ tail) = true → s.1.length ≤ 1) :
    ReadsBack statement (text b) b tail := by
  have htidy := statement_checked.1
  obtain ⟨c, hc, -⟩ := exists_character hb
  refine ⟨?_, lookup_of_unique htidy (mem_statementSymbols b) (own_of_isOwn (isCharacter_text hb).2)⟩
  rw [hc] at h
  rw [hc, List.length_singleton]
  refine (longest?_table htidy).mpr ⟨⟨(text b, b), mem_statementSymbols b, ?_, by rw [hc]; rfl⟩, h⟩
  rw [hc]
  exact Pattern.accepts_self tail (by simp [Pattern.ofSymbol])

/-- **Letters.** A letter is read back unless a letter follows it. -/
theorem letter_read {b : UInt8} (h : isLetter b = true) {tail : List Char}
    (htail : ∀ c ∈ tail.head?, Text.isLatinLetter c = false) :
    ReadsBack statement (text b) b tail := by
  have hb : (isLetter b || isMark b) = true := by rw [h, Bool.true_or]
  obtain ⟨c, hc, hlatin, -⟩ := exists_character hb
  refine character_read hb fun s hs haccepts => ?_
  rw [hc] at haccepts
  exact length_le_one_of_accepts (hlatin.trans h) htail (statement_checked.2.1 s hs) haccepts

end Grammar

/-! ## How spellings start -/

/-- A character that can be printed: from the space to the tilde. -/
def Text.isPrintable (c : Char) : Bool := 32 ≤ c.toNat && c.toNat ≤ 126

/-- What the first character of the spelling of a byte tells. A digit or a point is all of the spelling, a
bracket opens the number of the byte, and a backslash does not end the line. -/
def Token.isOrderly (b : UInt8) : List Char → Bool
  | [] => false
  | c :: rest =>
    (c :: rest).all Text.isPrintable && (!Text.isDecimal c || isDigit b) &&
      (c != '.' || b == 0x1B) && (c != '[' || c :: rest == code b) &&
      (c != Text.doubleQuote || b == quote) && (c != '\\' || !rest.all Text.isSpacing)

/-- Whether a name in brackets is taken neither for a number nor for another code. -/
def Token.isName : List Char → Bool
  | '[' :: x :: rest =>
    (x :: rest).all Text.isPrintable && !Text.isDecimal x && x != '#' && !Text.sameLetter '!' x
  | _ => false

theorem Token.spellings_checked : ∀ x ∈ table, isOrderly x.1 x.2 = true ∧
    (isAmbiguous x.1 = true → isName (bracket x.2) = true) ∧
    (isCommand x.1 = true → x.2.head?.any Text.isSpacing = false) ∧
    (x.1 = quote → x.2 = [Text.doubleQuote]) := by
  decide +kernel

theorem Token.spelling_checked (b : UInt8) : isOrderly b (text b) = true ∧
    (isAmbiguous b = true → isName (bracket (text b)) = true) ∧
    (isCommand b = true → (text b).head?.any Text.isSpacing = false) ∧
    (b = quote → text b = [Text.doubleQuote]) :=
  forall_text (P := fun b t => isOrderly b t = true ∧ (isAmbiguous b = true → isName (bracket t) = true) ∧
    (isCommand b = true → t.head?.any Text.isSpacing = false) ∧ (b = quote → t = [Text.doubleQuote]))
    spellings_checked b

theorem Token.bracketed_isName {b : UInt8} (h : isAmbiguous b = true) : isName (bracketed b) = true := by
  rw [bracketed_eq]
  exact (spelling_checked b).2.1 h

theorem Token.isSpacing_command {b : UInt8} (h : isCommand b = true) :
    (text b).head?.any Text.isSpacing = false :=
  (spelling_checked b).2.2.1 h

theorem Token.text_quote : text quote = [Text.doubleQuote] := (spelling_checked quote).2.2.2 rfl

/-- The spelling of a byte and what its first character tells. -/
structure Token.Orderly (b : UInt8) (first : Char) (rest : List Char) : Prop where
  text_eq : text b = first :: rest
  printable : ∀ c ∈ first :: rest, Text.isPrintable c = true
  digit : Text.isDecimal first = true → isDigit b = true
  point : first = '.' → b = 0x1B
  bracket : first = '[' → text b = code b
  quote : first = Text.doubleQuote → b = Token.quote
  backslash : first = '\\' → rest.all Text.isSpacing = false

theorem Token.exists_orderly (b : UInt8) : ∃ first rest, Orderly b first rest := by
  have h := (spelling_checked b).1
  cases htext : text b with
  | nil => simp [htext, isOrderly] at h
  | cons first rest =>
    rw [htext] at h
    simp only [isOrderly, Bool.and_eq_true, Bool.or_eq_true, List.all_eq_true, Bool.not_eq_true',
      bne_iff_ne, beq_iff_eq] at h
    obtain ⟨⟨⟨⟨⟨hprint, hdigit⟩, hpoint⟩, hbracket⟩, hquote⟩, hback⟩ := h
    refine ⟨first, rest, htext, hprint, fun hd => ?_, fun hp => ?_, fun hb => ?_, fun hq => ?_,
      fun hb => ?_⟩
    · rcases hdigit with h | h
      · rw [hd] at h
        exact absurd h (by decide)
      · exact h
    · exact hpoint.resolve_left (absurd hp)
    · rw [htext]
      exact hbracket.resolve_left (absurd hb)
    · exact hquote.resolve_left (absurd hq)
    · exact hback.resolve_left (absurd hb)

end TapeBasic
