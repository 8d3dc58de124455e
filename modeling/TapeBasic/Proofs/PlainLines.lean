import TapeBasic.Proofs.EncodedPrograms
import TapeBasic.Proofs.PlainListing

/-!
# The listing of a plain line

A plain line is listed as the line itself, tidied up: its number without leading zeros, one space behind it,
capitals, and a space for the blank that closes a keyword, be it the line end. A space that ends a remark is
written with its number, and nothing else is written in brackets.

* `Body.parts mode text`: a text cut into its tokens and literals.
* `Line.tidied line`: the line tidied up, and `Line.SameCharacters line shown`: what it has of the line.
* `Line.listed line`: the same, with the number of a space that ends a remark.

Results:
* `Piece.Plain.listed_parts`: the parts of a plain line are listed as the pieces it is read as.
* `Listing.renderLine_plain`: the pieces of a plain line make its listing.
* `Line.listed_of_read`: a plain line that is read is listed as itself, tidied up.
-/
namespace TapeBasic

open Text (isAscii isBlank lookedUp PlainLine UpToLineEnd)

/-! ## Lines tidied up -/

namespace Text

/-- A part of a line in capitals, with a space for the blank that ends it. -/
def listed (part : List Char) : List Char :=
  upper (part.dropLast ++ (part.getLast?.map fun c => if isBlank c then ' ' else c).toList)

end Text

namespace Body

/-- Whether a name goes on behind a part of a line: behind a letter, or behind a digit that the name has. -/
def goesOn (inName : Bool) : List Char → Bool
  | [c] => Text.isLatinLetter c || (inName && c.isDigit)
  | _ => false

/-- The length of the first part of a text, and how the text behind it is read. A part is a quotation mark that
opens a string, a literal, or the longest spelling of a token; a literal does not start inside a name. -/
def firstPart : Mode → List Char → Nat × Mode
  | .remark, text => ((Grammar.remark.width? text).getD 0, .remark)
  | .quotation, text =>
    ((Grammar.remark.width? text).getD 0,
      if text.head? = some Text.doubleQuote then .statement false else .quotation)
  | .statement inName, text =>
    if text.head? = some Text.doubleQuote then (1, .quotation)
    else if inName = false ∧ Literal.width text ≠ 0 then (Literal.width text, .statement false)
    else
      let width := (Grammar.statement.width? text).getD 0
      (width, .statement (goesOn inName (text.take width)))

/-- The parts of a text up to its line end. Where no part starts, the rest of the text is one. -/
def parts (mode : Mode) (text : List Char) : List (List Char) :=
  let (width, next) := firstPart mode text
  if text.headD '\n' = '\n' then []
  else if width = 0 then [text.dropLast]
  else text.take width :: parts next (text.drop width)
termination_by text.length
decreasing_by
  have hne : text ≠ [] := by
    rintro rfl
    contradiction
  have := List.length_pos_iff.mpr hne
  rw [List.length_drop]
  omega

end Body

namespace Line

/-- The text behind the number of a line and behind its spacing, with the line end. -/
def behindNumber (line : List Char) : List Char :=
  (line.dropWhile Text.isDecimal).dropWhile Text.isSpacing ++ ['\n']

/-- The keyword of a line with the blank that closes it. -/
def keyword (line : List Char) : List Char :=
  (behindNumber line).take ((Grammar.statement.width? (behindNumber line)).getD 0)

/-- Whether the line is a remark. -/
def isRemark (line : List Char) : Bool := Text.listed (keyword line) == "REM ".toList

/-- The parts behind the keyword, as they are listed. -/
def listedParts (line : List Char) : List (List Char) :=
  (Body.parts (if isRemark line then .remark else .statement false)
    ((behindNumber line).drop (keyword line).length)).map Text.listed

/-- The line with its number in plain digits, one space behind it, in capitals, and with a space for every blank
that closes a keyword, be it the line end. -/
def tidied (line : List Char) : List Char :=
  Text.decimal (Text.digitsValue (line.takeWhile Text.isDecimal)) ++
    ' ' :: (Text.listed (keyword line) ++ (listedParts line).flatten)

/-- Whether the line is a remark that ends with a space. -/
def endsInSpace (line : List Char) : Bool := isRemark line && (listedParts line).getLast? == some [' ']

/-- A text that has the characters of the line: its number in plain digits and one space behind it, then the rest
in capitals and with a space for every blank. The line end is one of the blanks or left out. -/
def SameCharacters (line shown : List Char) : Prop :=
  ∃ front tail, behindNumber line = front ++ tail ∧ (tail = [] ∨ tail = ['\n']) ∧
    shown = Text.decimal (Text.digitsValue (line.takeWhile Text.isDecimal)) ++ ' ' :: front.map lookedUp

/-- The line tidied up, with the number of a space that ends a remark. -/
def listed (line : List Char) : List Char :=
  if endsInSpace line then (tidied line).dropLast ++ Token.code Token.space else tidied line

end Line

/-! ## Parts -/

namespace Text

/-- An ASCII part with no other blank inside than the space. -/
theorem listed_eq {part : List Char} (hascii : ∀ c ∈ part, isAscii c = true)
    (hinner : ∀ c ∈ part.dropLast, isBlank c = true → c = ' ') : listed part = part.map lookedUp := by
  have hspace : ∀ c : Char, (if isBlank c then ' ' else c).toUpper = lookedUp c := by
    intro c
    unfold lookedUp
    split <;> rfl
  rcases List.eq_nil_or_concat' part with rfl | ⟨front, last, rfl⟩
  · rfl
  · rw [List.dropLast_concat] at hinner
    have hfront : front.map Char.toUpper = front.map lookedUp := by
      refine List.map_congr_left fun c hc => ?_
      rw [← hspace]
      split
      · next hblank => rw [hinner c hc hblank]
      · rfl
    have hlast : isAscii (if isBlank last then ' ' else last) = true := by
      split
      · rfl
      · exact hascii last (by simp)
    rw [listed, List.dropLast_concat, List.getLast?_concat, Option.map_some, Option.toList_some,
      upper_of_isAscii, List.map_append, List.map_append, hfront, List.map_singleton, List.map_singleton, hspace]
    exact List.forall_mem_append.mpr
      ⟨fun c hc => hascii c (List.mem_append_left _ hc), List.forall_mem_singleton.mpr hlast⟩

end Text

namespace Grammar

/-- No spelling starts with a line end. -/
theorem Spells.head?_ne {g : Grammar} {front tail : List Char} {b : UInt8} (h : Spells g front tail b)
    (hascii : ∀ c ∈ front, isAscii c = true) : front.head? ≠ some '\n' := by
  intro hhead
  obtain ⟨rest, rfl⟩ := List.head?_eq_some_iff.mp hhead
  have hclosed := h.closes hascii (List.nil_append _).symm (by decide) (by decide)
  exact hclosed.2.1 rfl

theorem Spells.listed {g : Grammar} {front tail : List Char} {b : UInt8} (h : Spells g front tail b)
    (hascii : ∀ c ∈ front, isAscii c = true) : Text.listed front = Token.text b := by
  rw [Text.listed_eq hascii h.inner, h.text]

end Grammar

namespace Body

theorem parts_append {mode next : Mode} {front text : List Char} (hne : front ≠ [])
    (hhead : front.head? ≠ some '\n') (hfirst : firstPart mode (front ++ text) = (front.length, next)) :
    parts mode (front ++ text) = front :: parts next text := by
  obtain ⟨c, rest, rfl⟩ := List.exists_cons_of_ne_nil hne
  have hc : ¬(c :: rest ++ text).headD '\n' = '\n' := by simpa using hhead
  rw [parts, hfirst]
  dsimp only
  rw [if_neg hc, if_neg (by simp), List.take_left, List.drop_left]

theorem goesOn_checked : ∀ x ∈ Token.table, ∀ n : Bool, goesOn n x.2 = staysInName n x.1 := by
  decide +kernel

/-- A name goes on behind the spelling of a letter, and behind that of a digit of the name. -/
theorem goesOn_eq {g : Grammar} {front tail : List Char} {b : UInt8} (h : g.Spells front tail b)
    (hascii : ∀ c ∈ front, isAscii c = true) (n : Bool) : goesOn n front = staysInName n b := by
  have hcapital : goesOn n (front.map lookedUp) = goesOn n front := by
    rcases front with _ | ⟨c, _ | ⟨x, rest⟩⟩
    · rfl
    · have hc : Text.isLatinLetter (lookedUp c) = Text.isLatinLetter c ∧ (lookedUp c).isDigit = c.isDigit :=
        Text.forall_ascii (P := fun c => Text.isLatinLetter (lookedUp c) = Text.isLatinLetter c ∧
          (lookedUp c).isDigit = c.isDigit) (by decide +kernel) (hascii c List.mem_cons_self)
      rw [List.map_singleton, goesOn, goesOn, hc.1, hc.2]
    · rfl
  rw [← hcapital, h.text]
  exact Token.forall_text (P := fun b text => ∀ n : Bool, goesOn n text = staysInName n b) goesOn_checked b n

/-- A spelling at the start of a text is its first part. -/
theorem listed_parts_append {g : Grammar} {mode next : Mode} {front text : List Char} {b : UInt8}
    (h : g.Spells front text b) (hascii : ∀ c ∈ front, isAscii c = true)
    (hfirst : firstPart mode (front ++ text) = (front.length, next)) :
    (parts mode (front ++ text)).map Text.listed = Token.text b :: (parts next text).map Text.listed := by
  rw [parts_append h.ne_nil (h.head?_ne hascii) hfirst, List.map_cons, h.listed hascii]

end Body

namespace Piece

variable {mode : Body.Mode} {text : List Char} {ps : List Piece}

/-- Every piece of a remark is one part. -/
theorem Plain.listed_remark (h : Plain mode text ps) (htext : UpToLineEnd text) (hmode : mode = .remark) :
    (Body.parts mode text).map Text.listed = ps.map Piece.text := by
  induction h with
  | lineEnd => rw [Body.parts]; rfl
  | closed => rw [Body.parts]; rfl
  | opening => cases hmode
  | literal => cases hmode
  | token => cases hmode
  | string => cases hmode
  | @remark b front text ps hspells _ ih =>
    have hascii : ∀ c ∈ front, isAscii c = true := fun c hc => htext.ascii c (List.mem_append_left _ hc)
    rw [Body.listed_parts_append hspells hascii (by rw [Body.firstPart, hspells.width, Option.getD_some]),
      ih htext.behind rfl, List.map_cons]

/-- **Parts.** The parts of a plain text are listed as the pieces it is read as. -/
theorem Plain.listed_parts (h : Plain mode text ps) (htext : UpToLineEnd text) :
    ((Body.parts mode text).map Text.listed).flatten = join ps := by
  induction h with
  | lineEnd => rw [Body.parts]; rfl
  | closed => rw [Body.parts]; rfl
  | @opening n text ps _ ih =>
    have hparts : Body.parts (.statement n) ([Text.doubleQuote] ++ text) =
        [Text.doubleQuote] :: Body.parts .quotation text :=
      Body.parts_append (by simp) (by decide) (by simp [Body.firstPart])
    rw [List.singleton_append] at hparts
    rw [hparts, List.map_cons, List.flatten_cons, ih (@UpToLineEnd.behind [Text.doubleQuote] _ htext), join_cons,
      Token.text_quote]
    rfl
  | @literal front text run ps stored hne hwidth _ hjoin _ _ ih =>
    have hascii : ∀ c ∈ front, isAscii c = true := fun c hc => htext.ascii c (List.mem_append_left _ hc)
    have hpart : ∀ c ∈ front, Literal.isPart c = true := fun c hc =>
      @Literal.isPart_of_mem_width (front ++ text) c (by rwa [hwidth, List.take_left])
    have hhead : ∀ x, Literal.isPart x = false → front.head? ≠ some x := by
      intro x hx hfront
      rw [hpart x (List.mem_of_head? hfront)] at hx
      cases hx
    have hfirst : Body.firstPart (.statement false) (front ++ text) = (front.length, .statement false) := by
      have hpos := List.length_pos_iff.mpr hne
      rw [Body.firstPart, if_neg, if_pos ⟨rfl, by omega⟩, hwidth]
      rw [List.head?_append_of_ne_nil _ hne]
      exact hhead _ (by decide)
    rw [Body.parts_append hne (hhead _ (by decide)) hfirst, List.map_cons, List.flatten_cons, ih htext.behind,
      Text.listed_eq hascii, join_append, hjoin, join_cons, List.nil_append]
    intro c hc hblank
    have hmem := (List.dropLast_sublist _).subset hc
    rw [not_isBlank_of_isPart (hascii c hmem) (hpart c hmem)] at hblank
    cases hblank
  | @token n b front text ps hspells hhead hsingle _ ih =>
    have hascii : ∀ c ∈ front, isAscii c = true := fun c hc => htext.ascii c (List.mem_append_left _ hc)
    have hfirst : Body.firstPart (.statement n) (front ++ text) =
        (front.length, .statement (Body.staysInName n b)) := by
      rw [Body.firstPart, if_neg, if_neg, hspells.width, Option.getD_some]
      · dsimp only
        rw [List.take_left, Body.goesOn_eq hspells hascii]
      · intro hliteral
        rcases hsingle with hname | hzero
        · exact absurd (hliteral.1.symm.trans hname) (by decide)
        · exact hliteral.2 hzero
      · rwa [List.head?_append_of_ne_nil _ hspells.ne_nil]
    rw [Body.listed_parts_append hspells hascii hfirst, List.flatten_cons, ih htext.behind, join_cons]
  | @remark b front text ps hspells _ ih =>
    have hascii : ∀ c ∈ front, isAscii c = true := fun c hc => htext.ascii c (List.mem_append_left _ hc)
    rw [Body.listed_parts_append hspells hascii (by rw [Body.firstPart, hspells.width, Option.getD_some]),
      List.flatten_cons, ih htext.behind, join_cons]
  | @string b front text ps hspells _ ih =>
    have hascii : ∀ c ∈ front, isAscii c = true := fun c hc => htext.ascii c (List.mem_append_left _ hc)
    have hfirst : Body.firstPart .quotation (front ++ text) = (front.length,
        if front.head? = some Text.doubleQuote then .statement false else .quotation) := by
      rw [Body.firstPart, hspells.width, Option.getD_some, List.head?_append_of_ne_nil _ hspells.ne_nil]
    rw [Body.listed_parts_append hspells hascii hfirst, List.flatten_cons, ih htext.behind, join_cons]

end Piece

/-! ## One line -/

namespace Text

theorem drop_countWhile (p : Char → Bool) (text : List Char) : text.drop (countWhile p text) = text.dropWhile p := by
  have hdrop : (text.takeWhile p ++ text.dropWhile p).drop (text.takeWhile p).length = text.dropWhile p :=
    List.drop_left
  rwa [List.takeWhile_append_dropWhile] at hdrop

theorem dropWhile_lineEnd {p : Char → Bool} (hp : p '\n' = false) (u v : List Char) :
    (u ++ '\n' :: v).dropWhile p = u.dropWhile p ++ '\n' :: v := by
  rw [← drop_countWhile, ← drop_countWhile, countWhile_lineEnd hp, drop_lineEnd (countWhile_le p u)]

/-- What is left of a plain line behind its first characters. -/
theorem PlainLine.dropWhile {line : List Char} (h : PlainLine line) (p : Char → Bool) :
    PlainLine (line.dropWhile p) := by
  rw [← drop_countWhile]
  exact h.drop _

theorem PlainLine.upToLineEnd {line : List Char} (h : PlainLine line) : UpToLineEnd (line ++ ['\n']) := by
  refine ⟨h.lineEnd.1, fun c hc => ?_⟩
  rw [List.getLast?_concat, Option.mem_some] at hc
  exact hc.symm

end Text

namespace Token

theorem remark_checked : ∀ x ∈ table, x.2 = "REM ".toList ↔ x.1 = rem := by decide +kernel

theorem space_checked : ∀ x ∈ table, x.2 = [' '] ↔ x.1 = space := by decide +kernel

theorem text_eq_remark (b : UInt8) : text b = "REM ".toList ↔ b = rem :=
  forall_text (P := fun b text => text = "REM ".toList ↔ b = rem) remark_checked b

theorem text_eq_space (b : UInt8) : text b = [' '] ↔ b = space :=
  forall_text (P := fun b text => text = [' '] ↔ b = space) space_checked b

end Token

theorem Piece.Plain.text_remark {mode : Body.Mode} {text : List Char} {ps : List Piece} (h : Plain mode text ps)
    (hmode : mode = .remark) : ∀ p ∈ ps, p.text = Token.text p.byte := by
  induction h with
  | lineEnd => exact nofun
  | closed => exact nofun
  | opening => cases hmode
  | literal => cases hmode
  | token => cases hmode
  | string => cases hmode
  | remark _ _ ih => exact List.forall_mem_cons.mpr ⟨by dsimp only, ih rfl⟩

namespace Listing

/-- **One line.** The bytes of a plain line are listed as its pieces, but for a space that ends a remark. -/
theorem renderLine_plain {b : UInt8} {text : List Char} {ps : List Piece} (hb : Token.isCommand b = true)
    (h : Piece.Plain (Line.bodyMode b) text ps) (htext : UpToLineEnd text) :
    renderLine false (b :: ps.flatMap Piece.bytes) =
      .ok (Piece.join (markLastSpace (b :: ps.flatMap Piece.bytes) (⟨b, Token.text b, true, none⟩ :: ps)), []) := by
  obtain ⟨-, -, hfigure, hletter⟩ := command_plain hb
  have hscan : Piece.scan false (b :: ps.flatMap Piece.bytes) = .ok (⟨b, Token.text b, true, none⟩ :: ps) := by
    rw [scan_command hb, h.scanFrom htext Nat.one_ne_zero (mode_placeBehind b), List.reverse_singleton,
      List.singleton_append]
  have hname : ∀ n, Line.bodyMode b = .statement n →
      n = Piece.endsInName [⟨b, Token.text b, true, none⟩] := by
    intro n hn
    unfold Line.bodyMode at hn
    split at hn
    · cases hn
    · cases hn
      simp [Piece.endsInName, hletter]
  have hresolve : Piece.resolveNumbers (⟨b, Token.text b, true, none⟩ :: ps) =
      (⟨b, Token.text b, true, none⟩ :: ps, []) := by
    rw [Piece.resolveNumbers, Piece.resolveFrom_cons (by simp [Piece.inRun, hfigure]) rfl]
    exact h.resolveFrom htext [⟨b, Token.text b, true, none⟩] [] hname
  rw [Piece.renderLine_eq, hscan]
  dsimp only
  rw [hresolve]
  dsimp only
  rw [Piece.separateBehindFirst_cons, h.separate htext]

/-- What is written for the last space of a remark. -/
theorem join_markLastSpace {b : UInt8} {text : List Char} {ps : List Piece}
    (h : Piece.Plain (Line.bodyMode b) text ps) (body : List UInt8) :
    Piece.join (markLastSpace (b :: body) (⟨b, Token.text b, true, none⟩ :: ps)) =
      if b = Token.rem ∧ (ps.map Piece.text).getLast? = some [' '] then
        (Token.text b ++ Piece.join ps).dropLast ++ Token.code Token.space
      else Token.text b ++ Piece.join ps := by
  rcases List.eq_nil_or_concat' ps with rfl | ⟨front, last, rfl⟩
  · simp [markLastSpace, Piece.join]
  · have hbehind : 1 < ((⟨b, Token.text b, true, none⟩ : Piece) :: (front ++ [last])).length := by simp
    unfold markLastSpace
    rw [List.map_append, List.map_singleton, List.getLast?_concat, ← List.cons_append, List.getLast?_concat]
    dsimp only
    by_cases hrem : b = Token.rem
    · have hmode : Line.bodyMode b = .remark := by simp [Line.bodyMode, hrem]
      have hlast := h.text_remark hmode last (by simp)
      have hspace : last.text = [' '] ↔ last.byte = Token.space := hlast ▸ Token.text_eq_space last.byte
      by_cases hbyte : last.byte = Token.space
      · rw [if_pos (by simp [hrem, hbyte]), if_pos ⟨hrem, congrArg some (hspace.mpr hbyte)⟩, List.dropLast_concat,
          List.cons_append, Piece.join_cons, Piece.join_append, Piece.join_append, Piece.join_cons, Piece.join_cons,
          hspace.mpr hbyte, Piece.coded, hbyte]
        simp [Piece.join, ← List.append_assoc]
      · rw [if_neg (by simp [hbyte]), if_neg (by simpa [hspace] using fun _ => hbyte), List.cons_append,
          Piece.join_cons]
    · rw [if_neg (by simp [hrem]), if_neg (by simp [hrem]), List.cons_append, Piece.join_cons]

end Listing

/-- A cursor in a contained line, beside itself. -/
theorem Cursor.alike_self {c : Cursor} {line more : List Char} (hc : c.rest = line ++ '\n' :: more)
    (hline : Text.isContained line = true) : Alike c.position.line more more c c := by
  obtain ⟨rest, row, column⟩ := c
  dsimp only at hc
  subst hc
  exact .intro line column hline

namespace Line

variable {line more : List Char} {c next : Cursor}

/-- The number of a line is the value of its digits. -/
theorem eq_of_readNumber {n : Nat} (hc : c.rest = line ++ '\n' :: more) (h : readNumber c = .ok (n, next)) :
    n = Text.digitsValue (line.takeWhile Text.isDecimal) ∧
      next.rest = line.dropWhile Text.isDecimal ++ '\n' :: more := by
  obtain ⟨-, hvalue, -, rfl⟩ := readNumber_eq_ok_iff.mp h
  rw [hc, Text.takeWhile_lineEnd rfl] at hvalue ⊢
  unfold Text.natural? at hvalue
  split at hvalue
  · refine ⟨(Option.some.inj hvalue).symm, ?_⟩
    have hdrop := Text.drop_countWhile Text.isDecimal line
    rw [Text.countWhile] at hdrop
    rw [Cursor.rest_advance, hc, List.drop_append_of_le_length (List.takeWhile_prefix _).length_le, hdrop]
  · cases hvalue

/-- No continuation stands behind the spacing of a contained line. -/
theorem rest_of_readSpacing (hc : c.rest = line ++ '\n' :: more) (hline : Text.isContained line = true)
    (h : readSpacing c = .ok next) : next.rest = line.dropWhile Text.isSpacing ++ '\n' :: more := by
  obtain ⟨-, rfl⟩ := readSpacing_eq_ok_iff.mp h
  rw [Cursor.rest_advance, hc, Cursor.joinedSpacingWidth_inLine hline, Text.drop_countWhile, Text.dropWhile_lineEnd rfl]

/-- The keyword of a plain line is a spelling. -/
theorem spellsFirst_of_readCommand {b : UInt8} (hc : c.rest = line ++ '\n' :: more) (hline : PlainLine line)
    (h : readCommand c = .ok (b, next)) :
    Token.isCommand b = true ∧ ∃ front tail width, Grammar.statement.SpellsFirst line front tail b width ∧
      next.rest = line.drop width ++ '\n' :: more := by
  obtain ⟨token, htoken, rfl, hcommand, rfl⟩ := readCommand_eq_ok_iff.mp h
  obtain ⟨front, tail, hfirst⟩ := Grammar.exists_spellsFirst_statement hc hline htoken
  refine ⟨hcommand, front, tail, token.width, hfirst, ?_⟩
  rw [Cursor.rest_advance, hc, Text.drop_lineEnd hfirst.width_le]

/-- A line with this keyword and these pieces behind it, tidied up and listed. -/
theorem listed_eq {front tail : List Char} {b : UInt8} {ps : List Piece}
    (hsplit : behindNumber line = front ++ tail) (hspells : Grammar.statement.Spells front tail b)
    (htext : UpToLineEnd (front ++ tail)) (hplain : Piece.Plain (bodyMode b) tail ps) :
    SameCharacters line (tidied line) ∧
      listed line = Text.decimal (Text.digitsValue (line.takeWhile Text.isDecimal)) ++
      ' ' :: (if b = Token.rem ∧ (ps.map Piece.text).getLast? = some [' '] then
        (Token.text b ++ Piece.join ps).dropLast ++ Token.code Token.space
      else Token.text b ++ Piece.join ps) := by
  have hkeyword : keyword line = front := by
    rw [keyword, hsplit, hspells.width, Option.getD_some, List.take_left]
  have hlisted : Text.listed front = Token.text b :=
    hspells.listed fun c hc => htext.ascii c (List.mem_append_left _ hc)
  have hremark : isRemark line = true ↔ b = Token.rem := by
    rw [isRemark, hkeyword, hlisted, beq_iff_eq, Token.text_eq_remark]
  have hmode : (if isRemark line then Body.Mode.remark else .statement false) = bodyMode b := by
    unfold bodyMode
    simp only [hremark, beq_iff_eq]
  have hparts : listedParts line = (Body.parts (bodyMode b) tail).map Text.listed := by
    rw [listedParts, hmode, hkeyword, hsplit, List.drop_left]
  have htidied : tidied line = Text.decimal (Text.digitsValue (line.takeWhile Text.isDecimal)) ++
      ' ' :: (Token.text b ++ Piece.join ps) := by
    rw [tidied, hkeyword, hlisted, hparts, hplain.listed_parts htext.behind]
  have hends : endsInSpace line = true ↔ b = Token.rem ∧ (ps.map Piece.text).getLast? = some [' '] := by
    rw [endsInSpace, Bool.and_eq_true, hremark, beq_iff_eq]
    refine and_congr_right fun hrem => ?_
    rw [hparts, hplain.listed_remark htext.behind (by simp [bodyMode, hrem])]
  obtain ⟨body, more, htail, hbody, hmore⟩ := hplain.exists_line
  refine ⟨⟨front ++ body, more, by rw [hsplit, htail, List.append_assoc], hmore, ?_⟩, ?_⟩
  · rw [htidied, List.map_append, hspells.text, hbody]
  rw [listed, htidied]
  simp only [hends]
  split
  · obtain ⟨x, rest, hx⟩ := Token.exists_orderly b
    rw [hx.text_eq]
    simp [List.dropLast_append_of_ne_nil]
  · rfl

/-- **Lines.** A plain line that is read is listed as itself, tidied up, with the characters that it has, and it
is read up to its end. -/
theorem listed_of_read {files : FileReader} {filename : List Char} {last : Option Nat} {r : LineRecord}
    (hc : c.rest = line ++ '\n' :: more) (hline : PlainLine line)
    (h : (read files filename last c).result = .ok (r, next)) :
    next.rest = '\n' :: more ∧ (Listing.entry false r.number r.payload).text = listed line ++ ['\n'] ∧
      SameCharacters line (tidied line) := by
  obtain @⟨number, b, body, afterNumber, atCommand, afterCommand, _, hnumber, -, hspacing, hcommand, hbody, -⟩ :=
    read_eq_ok_iff.mp h
  obtain ⟨rfl, hrest⟩ := eq_of_readNumber hc hnumber
  have hdigits := hline.dropWhile Text.isDecimal
  have hatCommand := rest_of_readSpacing hrest hdigits.contained hspacing
  have hbehind := hdigits.dropWhile Text.isSpacing
  obtain ⟨hb, front, tail, width, hfirst, hafter⟩ := spellsFirst_of_readCommand hatCommand hbehind hcommand
  obtain ⟨ps, hps, rfl, hend, hnone⟩ := Piece.Plain.of_readFrom hafter (hbehind.drop width) hbody
  have hplain : Piece.Plain (bodyMode b) tail ps := .behind hfirst hps hnone
  have htext : UpToLineEnd (front ++ tail) := hfirst.split ▸ hbehind.upToLineEnd
  obtain ⟨hsame, hlisted⟩ := listed_eq hfirst.split hfirst.spells htext hplain
  refine ⟨hend, ?_, hsame⟩
  have hentry : Listing.entry false (Text.digitsValue (line.takeWhile Text.isDecimal))
      (b :: (ps.flatMap Piece.bytes ++ [Token.lineEnd])) =
        .line (Text.digitsValue (line.takeWhile Text.isDecimal))
          (Piece.join (Listing.markLastSpace (b :: ps.flatMap Piece.bytes) (⟨b, Token.text b, true, none⟩ :: ps)))
          Token.lineEnd [] := by
    rw [Listing.entry, ← List.cons_append, List.getLast?_concat, List.dropLast_concat]
    dsimp only
    rw [Listing.renderLine_plain hb hplain htext.behind]
  rw [List.reverse_nil, List.nil_append, hentry, Assembly.text_line, Listing.join_markLastSpace hplain,
    hlisted, List.append_assoc, List.cons_append]

end Line

end TapeBasic
