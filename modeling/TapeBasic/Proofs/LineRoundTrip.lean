import TapeBasic.Proofs.SeparatedLines
import TapeBasic.Source.Line

/-!
# The round trip of one line

The text of a stored line, behind its number and a space, is read as the record of the line, whatever
follows its line end.

Results:
* `renderLine_reads`: behind its keyword, the text of a line is read as the bytes it shows.
* `read_line`: `Line.read` gives the record of a line back and stops in front of its line end.
-/
namespace TapeBasic

namespace Piece

/-! ## Remarks -/

theorem Settled.apart_remark {ps : List Piece} (h : Settled .remark ps) : Apart ps := by
  induction ps with
  | nil => trivial
  | cons p ps ih =>
    cases h with
    | remark hi _ _ hrest => exact ⟨fun ho => by simp [isOpen, hi] at ho, ih hrest⟩
    | coded _ ht hrest =>
      refine ⟨fun ho => ?_, ih hrest⟩
      rw [isOpen_of_bracket ht] at ho
      cases ho

/-- The last piece of a remark may be written with its number. -/
theorem Settled.codeLast {ps : List Piece} {p : Piece} (h : Settled .remark (ps ++ [p])) :
    Settled .remark (ps ++ [p.coded]) := by
  induction ps with
  | nil =>
    cases h with
    | remark _ hs _ hrest => exact .coded hs rfl hrest
    | coded hs _ hrest => exact .coded hs rfl hrest
  | cons q ps ih =>
    cases h with
    | remark hi hs ht hrest => exact .remark hi hs ht (ih hrest)
    | coded hs ht hrest => exact .coded hs ht (ih hrest)

theorem markLastSpace_settled {b : UInt8} {body : List UInt8} {first : Piece} {ps : List Piece}
    (h : Settled (Line.bodyMode b) ps) (hapart : Apart ps) :
    ∃ qs, Listing.markLastSpace (b :: body) (first :: ps) = first :: qs ∧ AllClose ps qs ∧
      Settled (Line.bodyMode b) qs ∧ Apart qs := by
  rcases List.eq_nil_or_concat ps with rfl | ⟨front, last, rfl⟩
  · exact ⟨[], by simp [Listing.markLastSpace], .nil, h, hapart⟩
  · unfold Listing.markLastSpace
    rw [List.concat_eq_append, ← List.cons_append, List.getLast?_concat]
    dsimp only
    split
    · next hmark =>
      have hrem : b = Token.rem := by
        simp only [List.head?_cons, Bool.and_eq_true, beq_iff_eq, Option.some.injEq] at hmark
        exact hmark.1.1
      have hmode : Line.bodyMode b = .remark := by simp [Line.bodyMode, hrem]
      rw [hmode, List.concat_eq_append] at h
      rw [hmode, List.dropLast_concat]
      refine ⟨front ++ [last.coded], rfl, ?_, h.codeLast, h.codeLast.apart_remark⟩
      exact (allClose_refl front).append (.cons (closes_coded last) .nil)
    · exact ⟨front ++ [last], rfl, allClose_refl _, List.concat_eq_append ▸ h,
        List.concat_eq_append ▸ hapart⟩

end Piece

/-! ## Lines that can be shown -/

namespace Piece

/-- Whether every mark of a stored number that stands in statement text has its five bytes behind it. The
first `missing` bytes belong to the last number. -/
def wholeNumbers (missing : Nat) (place : Place) : List UInt8 → Bool
  | [] => missing == 0
  | b :: rest =>
    match missing, place with
    | missing + 1, place => wholeNumbers missing place rest
    | 0, .remark => wholeNumbers 0 .remark rest
    | 0, .string => wholeNumbers 0 (if b == Token.quote then .statement else .string) rest
    | 0, .statement =>
      if b == Token.number then wholeNumbers StoredNumber.size .statement rest
      else
        wholeNumbers 0 (if b == Token.quote && rest.contains Token.quote then .string else .statement) rest

theorem wholeNumbers_eq (missing : Nat) (place : Place) (tokens : List UInt8) :
    wholeNumbers missing place tokens =
      (decide (missing ≤ tokens.length) && wholeNumbers 0 place (tokens.drop missing)) := by
  induction tokens generalizing missing with
  | nil => cases missing <;> simp [wholeNumbers]
  | cons b tokens ih =>
    cases missing with
    | zero => simp
    | succ missing =>
      rw [wholeNumbers, ih]
      simp

/-- Where the token behind a token stands. -/
theorem snd_ofToken (bracketed : Bool) (place : Place) (b : UInt8) (rest : List UInt8) :
    (ofToken bracketed false place b rest).2 =
      match place with
      | .remark => .remark
      | .string => if b == Token.quote then .statement else .string
      | .statement => if b == Token.quote && rest.contains Token.quote then .string else .statement := by
  by_cases hb : b = Token.quote
  · cases place
    · by_cases hrest : Token.quote ∈ rest <;> simp [ofToken, hb, hrest]
    · simp [ofToken, hb]
    · simp [ofToken, hb]
  · cases place <;> simp [ofToken, hb]

/-- **Lines that can be shown.** Cutting a line fails only at a stored number that is cut short. -/
theorem isOk_scanFrom {bracketed : Bool} {index : Nat} {place : Place} {tokens : List UInt8}
    {done : List Piece} (hindex : index ≠ 0) :
    (scanFrom bracketed index place tokens done).isOk = wholeNumbers 0 place tokens := by
  fun_induction scanFrom bracketed index place tokens done with
  | case1 => rfl
  | case2 index place done b rest hnumber stored hlength =>
    simp only [Bool.and_eq_true, beq_iff_eq] at hnumber
    obtain ⟨rfl, rfl⟩ := hnumber
    have hshort : ¬ StoredNumber.size ≤ rest.length := by
      rw [List.length_take] at hlength
      omega
    rw [wholeNumbers, beq_self_eq_true, if_pos rfl, wholeNumbers_eq, decide_eq_false hshort]
    rfl
  | case3 index place done b rest hnumber stored hlength ih =>
    simp only [Bool.and_eq_true, beq_iff_eq] at hnumber
    obtain ⟨rfl, rfl⟩ := hnumber
    have hlong : StoredNumber.size ≤ rest.length := by
      rw [List.length_take] at hlength
      omega
    rw [ih (by omega), wholeNumbers, beq_self_eq_true, if_pos rfl, wholeNumbers_eq StoredNumber.size,
      decide_eq_true hlong, Bool.true_and]
  | case4 index place done b rest hnumber piece next hpiece ih =>
    rw [beq_false_of_ne hindex] at hpiece
    have hnext := snd_ofToken bracketed place b rest
    rw [hpiece] at hnext
    dsimp only at hnext
    rw [ih (by omega), hnext]
    cases place with
    | remark => rfl
    | string => rfl
    | statement =>
      have hb : (b == Token.number) = false := by simpa using hnumber
      rw [wholeNumbers, hb, if_neg Bool.false_ne_true]

end Piece

/-! ## The text of a line -/

namespace Listing

/-- A statement keyword is neither a mark of any kind nor a letter. -/
theorem command_plain {b : UInt8} (h : Token.isCommand b = true) :
    b ≠ Token.number ∧ b ≠ Token.quote ∧ Piece.isLiteralToken b = false ∧
      Token.isLetter b = false := by
  simp only [Token.isCommand, decide_eq_true_eq, Token.number, Token.quote, Piece.isLiteralToken,
    Token.isDigit, Token.isLetter] at h ⊢
  grind

/-- The place behind the keyword of a line. -/
def placeBehind (command : UInt8) : Piece.Place := if command == Token.rem then .remark else .statement

/-- The keyword of a line is the first piece and stays as it is. -/
theorem scan_command {b : UInt8} (hb : Token.isCommand b = true) (bracketed : Bool) (body : List UInt8) :
    Piece.scan bracketed (b :: body) =
      Piece.scanFrom bracketed 1 (placeBehind b) body [⟨b, Token.text b, true, none⟩] := by
  obtain ⟨hnumber, hquote, -, -⟩ := command_plain hb
  have hfirst : Piece.ofToken bracketed (0 == 0) .statement b body =
      (⟨b, Token.text b, true, none⟩, placeBehind b) := by
    by_cases hrem : b = Token.rem <;> simp [Piece.ofToken, placeBehind, hquote, hrem]
  rw [Piece.scan, Piece.scanFrom, if_neg (by simp [hnumber])]
  dsimp only
  rw [hfirst]

theorem mode_placeBehind (b : UInt8) : (placeBehind b).mode false = Line.bodyMode b := by
  unfold placeBehind Line.bodyMode
  split <;> rfl

theorem placeBehind_ne_string (b : UInt8) : placeBehind b ≠ .string := by
  unfold placeBehind
  split <;> exact nofun

/-- A line can be shown if no stored number of it is cut short. -/
theorem isOk_renderLine (bracketed : Bool) {b : UInt8} (hb : Token.isCommand b = true)
    (body : List UInt8) :
    (renderLine bracketed (b :: body)).isOk = Piece.wholeNumbers 0 (placeBehind b) body := by
  have hscan : (Piece.scan bracketed (b :: body)).isOk = Piece.wholeNumbers 0 (placeBehind b) body := by
    rw [scan_command hb]
    exact Piece.isOk_scanFrom Nat.one_ne_zero
  rw [← hscan]
  unfold renderLine
  cases Piece.scan bracketed (b :: body) <;> rfl

/-- **The text of a line.** It is the keyword and a printable text that is read as the bytes behind the
keyword. -/
theorem renderLine_reads {bracketed : Bool} {b : UInt8} {body : List UInt8} {text : List Char}
    {events : Journal} (hb : Token.isCommand b = true)
    (h : renderLine bracketed (b :: body) = .ok (text, events)) :
    ∃ rest, text = Token.text b ++ rest ∧ (∀ c ∈ text, Text.isPrintable c = true) ∧
      ∀ (files : FileReader) (more : List Char), ∃ next, next ≠ .quotation ∧
        Body.Reads files (Line.bodyMode b) rest ('\n' :: more) body next := by
  rw [Piece.renderLine_eq] at h
  split at h
  · cases h
  · next pieces hscan =>
    rw [scan_command hb] at hscan
    obtain ⟨ps, rfl, hspelled, hbytes⟩ :=
      Piece.scanFrom_spelled hscan Nat.one_ne_zero fun hplace => absurd hplace (placeBehind_ne_string b)
    obtain ⟨-, -, hfigure, hletter⟩ := command_plain hb
    have hresolve : Piece.resolveNumbers (⟨b, Token.text b, true, none⟩ :: ps) =
        Piece.resolveFrom ps [⟨b, Token.text b, true, none⟩] [] := by
      exact Piece.resolveFrom_cons (by simp [Piece.inRun, hfigure]) rfl _ _ _
    obtain ⟨qs, hqs, hclose, hsettled⟩ :=
      Piece.resolveFrom_settled hspelled [⟨b, Token.text b, true, none⟩] []
    have hname : Piece.endsInName [⟨b, Token.text b, true, none⟩] = false := by
      simp [Piece.endsInName, hletter]
    rw [hname, mode_placeBehind] at hsettled
    obtain ⟨hclose', hsettled', hapart⟩ := Piece.separate_apart hsettled
    obtain ⟨rs, hmark, hclose'', hsettled'', hapart'⟩ :
        ∃ rs, markLastSpace (b :: body) (⟨b, Token.text b, true, none⟩ :: Piece.separate qs) =
          ⟨b, Token.text b, true, none⟩ :: rs ∧ Piece.AllClose (Piece.separate qs) rs ∧
          Piece.Settled (Line.bodyMode b) rs ∧ Piece.Apart rs :=
      Piece.markLastSpace_settled hsettled' hapart
    simp only [hresolve, hqs, List.reverse_singleton, List.singleton_append,
      Piece.separateBehindFirst_cons, hmark, Piece.join_cons, Except.ok.injEq, Prod.mk.injEq] at h
    have hrs : rs.flatMap Piece.bytes = body := by
      rw [((hclose.trans hclose').trans hclose'').bytes_eq, hbytes]
    refine ⟨Piece.join rs, h.1.symm, ?_, fun files more => hrs ▸ hsettled''.reads hapart' more⟩
    rw [← h.1]
    exact List.forall_mem_append.mpr ⟨Piece.printable_text b, hsettled''.printable⟩

end Listing

/-! ## Reading a line -/

namespace Line

theorem readNumber_decimal {number : Nat} {y : Char} {rest : List Char} {c : Cursor}
    (hnumber : number ≤ maxLineNumber) (hy : Text.isDecimal y = false)
    (hc : c.rest = Text.decimal number ++ y :: rest) :
    ∃ c', readNumber c = .ok (number, c') ∧ c'.rest = y :: rest := by
  have htake : c.rest.takeWhile Text.isDecimal = Text.decimal number := by
    rw [hc]
    exact Text.takeWhile_isDecimal_decimal _ _ hy
  have hsmall : number < 100000 := Nat.lt_of_le_of_lt hnumber (by decide)
  refine ⟨c.advance (Text.decimal number).length, ?_, by simp [hc]⟩
  rw [readNumber_eq_ok_iff, htake]
  exact ⟨Text.decimal_ne_nil number, Text.natural?_decimal hsmall, hnumber, rfl⟩

theorem readSpacing_command {b : UInt8} {rest : List Char} {c : Cursor}
    (hb : Token.isCommand b = true) (hc : c.rest = ' ' :: (Token.text b ++ rest)) :
    ∃ c', readSpacing c = .ok c' ∧ c'.rest = Token.text b ++ rest := by
  obtain ⟨first, more, ho⟩ := Token.exists_orderly b
  have hspacing := Token.isSpacing_command hb
  rw [ho.text_eq, List.head?_cons, Option.any_some] at hspacing
  have hcount : Text.countWhile Text.isSpacing c.rest = 1 := by
    rw [hc, ho.text_eq, List.cons_append]
    simp [Text.countWhile, hspacing, show Text.isSpacing ' ' = true from rfl]
  have hwidth : Cursor.joinedSpacingWidth c.rest = 1 := by
    rw [Cursor.joinedSpacingWidth, hcount, hc, if_neg (by decide), List.drop_one, List.tail_cons,
      Cursor.joinedSpacingWidth.joined, dif_pos ((Body.opens_text b).continuationWidth rest)]
  refine ⟨c.advance 1, ?_, by simp [hc]⟩
  rw [readSpacing_eq_ok_iff, hwidth]
  exact ⟨Nat.one_ne_zero, rfl⟩

theorem readCommand_command {b : UInt8} {rest : List Char} {c : Cursor}
    (hb : Token.isCommand b = true) (hc : c.rest = Token.text b ++ rest) :
    ∃ c', readCommand c = .ok (b, c') ∧ c'.rest = rest := by
  have hline : '\n' ∉ Token.text b := fun hmem =>
    Body.ne_lineEnd_of_isPrintable (Piece.printable_text b _ hmem) rfl
  obtain ⟨lexeme, hread, hvalue, hwidth⟩ := Grammar.read?_of_readsBack hc
    (Grammar.command_read hb rest) (Body.ne_nil_of_opens (Body.opens_text b)) hline
  exact ⟨c.advance lexeme.width, readCommand_eq_ok_iff.mpr ⟨lexeme, hread, hvalue, hb, rfl⟩,
    by simp [hc, hwidth]⟩

/-- **Reading a line back.** A number, a space and the text of a stored line are read as its record, up to
the line end. -/
theorem read_line {files : FileReader} {filename : List Char} {last : Option Nat} {bracketed : Bool}
    {number : Nat} {b : UInt8} {body : List UInt8} {text more : List Char} {events : Journal}
    {c : Cursor} (hnumber : number ≤ maxLineNumber) (hlast : ∀ n ∈ last, n < number)
    (hb : Token.isCommand b = true) (hlength : (b :: (body ++ [Token.lineEnd])).length ≤ maxPayload)
    (htext : Listing.renderLine bracketed (b :: body) = .ok (text, events))
    (hc : c.rest = Text.decimal number ++ ' ' :: (text ++ '\n' :: more)) :
    ∃ c' : Cursor, c'.rest = '\n' :: more ∧
      (read files filename last c).result = .ok (⟨number, b :: (body ++ [Token.lineEnd])⟩, c') := by
  obtain ⟨rest, hrest, -, hreads⟩ := Listing.renderLine_reads hb htext
  obtain ⟨next, hnext, hbody⟩ := hreads files more
  rw [hrest, List.append_assoc] at hc
  obtain ⟨c₁, hread₁, hc₁⟩ := readNumber_decimal hnumber (by decide) hc
  obtain ⟨c₂, hread₂, hc₂⟩ := readSpacing_command hb hc₁
  obtain ⟨c₃, hread₃, hc₃⟩ := readCommand_command hb hc₂
  obtain ⟨c₄, hc₄, hread₄⟩ := hbody.readFrom_result hnext hc₃
  exact ⟨c₄, hc₄, read_eq_ok_iff.mpr (.mk hread₁ hlast hread₂ hread₃ hread₄ hlength)⟩

end Line

end TapeBasic
