import TapeBasic.Cassette
import TapeBasic.Proofs.SeparatedLines

/-!
# The lines that are shown

Whatever bytes are listed, the text consists of calm lines: printable characters, among which no bracketed
word is opened and no backslash is left open. The reader of such a line never looks beyond its end.

* `Text.isCalm`: what holds of a line.
* `Text.Lined`: texts that are made of calm lines, each with its line end.
* `Piece.Shown`: the texts that a piece of a line can have.

Results:
* `renderLine_shown`: the text of any line that can be shown is made of such pieces.
* `Listing.lined_programText`, `Image.lined_header`, `Image.lined_decode`: all texts are made of calm lines.
-/
namespace TapeBasic

/-! ## Calm lines -/

namespace Text

/-- Whether all characters are printable, every opening bracket stands in front of a character other than
an exclamation mark, and behind every backslash there is more than spacing. -/
def isCalm : List Char → Bool
  | [] => true
  | c :: rest =>
    isPrintable c && (c != '[' || rest.head?.any (· != '!')) && (c != '\\' || !rest.all isSpacing) &&
      isCalm rest

theorem isCalm_append {text more : List Char} (h : isCalm text = true) (hmore : isCalm more = true) :
    isCalm (text ++ more) = true := by
  induction text with
  | nil => exact hmore
  | cons c rest ih =>
    simp only [isCalm, Bool.and_eq_true, Bool.or_eq_true, bne_iff_ne, ne_eq, Bool.not_eq_true'] at h
    obtain ⟨⟨⟨hprint, hbracket⟩, hback⟩, hrest⟩ := h
    have hhead : ∀ x ∈ rest.head?, (rest ++ more).head? = some x := by
      cases rest <;> simp
    simp only [List.cons_append, isCalm, Bool.and_eq_true, Bool.or_eq_true, bne_iff_ne, ne_eq,
      Bool.not_eq_true']
    refine ⟨⟨⟨hprint, hbracket.imp_right fun hany => ?_⟩, hback.imp_right fun hall => ?_⟩, ih hrest⟩
    · cases rest with
      | nil => simp at hany
      | cons x rest => exact hany
    · rw [List.all_append, hall, Bool.false_and]

theorem isCalm_flatMap {α : Type} {f : α → List Char} {list : List α}
    (h : ∀ x ∈ list, isCalm (f x) = true) : isCalm (list.flatMap f) = true := by
  induction list with
  | nil => rfl
  | cons x list ih =>
    exact isCalm_append (h x List.mem_cons_self) (ih fun y hy => h y (List.mem_cons_of_mem _ hy))

/-- A printable text without brackets and backslashes is calm. -/
theorem isCalm_of_plain {text : List Char}
    (h : ∀ c ∈ text, isPrintable c = true ∧ c ≠ '[' ∧ c ≠ '\\') : isCalm text = true := by
  induction text with
  | nil => rfl
  | cons c rest ih =>
    obtain ⟨hprint, hbracket, hback⟩ := h c List.mem_cons_self
    simp [isCalm, hprint, hbracket, hback, ih fun x hx => h x (List.mem_cons_of_mem _ hx)]

theorem isPrintable_of_isCalm {text : List Char} (h : isCalm text = true) :
    ∀ c ∈ text, isPrintable c = true := by
  induction text with
  | nil => simp
  | cons c rest ih =>
    simp only [isCalm, Bool.and_eq_true] at h
    exact List.forall_mem_cons.mpr ⟨h.1.1.1, ih h.2⟩

theorem lineEnd_not_mem_of_isCalm {text : List Char} (h : isCalm text = true) : '\n' ∉ text :=
  fun hmem => absurd (isPrintable_of_isCalm h _ hmem) (by decide)

theorem isCalm_digits {text : List Char} (h : ∀ c ∈ text, c.isDigit = true) : isCalm text = true := by
  refine isCalm_of_plain fun c hc => ⟨Piece.isPrintable_of_isFigure (Decimal.isFigure_of_isDigit (h c hc)),
    ?_, ?_⟩
  all_goals
    rintro rfl
    exact absurd (h _ hc) (by decide)

theorem isCalm_decimal (n : Nat) : isCalm (decimal n) = true := isCalm_digits fun _ => isDigit_of_mem_decimal

/-- A bracket in front of a digit, or of anything but an exclamation mark, may be opened. -/
theorem isCalm_bracket {x : Char} {rest : List Char} (hx : x ≠ '!') (h : isCalm (x :: rest) = true) :
    isCalm ('[' :: x :: rest) = true := by
  rw [isCalm, h]
  simp [hx, isPrintable]

/-! ## Texts of calm lines -/

/-- The text is made of calm lines, each with its line end. -/
def Lined (text : List Char) : Prop :=
  ∃ lines : List (List Char), text = lines.flatMap (· ++ ['\n']) ∧ ∀ line ∈ lines, isCalm line = true

theorem lined_nil : Lined [] := ⟨[], rfl, by simp⟩

theorem lined_line {line : List Char} (h : isCalm line = true) : Lined (line ++ ['\n']) :=
  ⟨[line], by simp, by simpa using h⟩

theorem Lined.append {text more : List Char} (h : Lined text) (h' : Lined more) :
    Lined (text ++ more) := by
  obtain ⟨lines, rfl, hlines⟩ := h
  obtain ⟨others, rfl, hothers⟩ := h'
  exact ⟨lines ++ others, List.flatMap_append.symm, List.forall_mem_append.mpr ⟨hlines, hothers⟩⟩

theorem lined_flatMap {α : Type} {f : α → List Char} {list : List α} (h : ∀ x ∈ list, Lined (f x)) :
    Lined (list.flatMap f) := by
  induction list with
  | nil => exact lined_nil
  | cons x list ih =>
    exact (h x List.mem_cons_self).append (ih fun y hy => h y (List.mem_cons_of_mem _ hy))

/-- A line in front of a text of lines. -/
theorem lined_cons {line text : List Char} (h : isCalm line = true) (htext : Lined text) :
    Lined (line ++ '\n' :: text) := by
  have := (lined_line h).append htext
  rwa [List.append_assoc] at this

/-- The lines of a text with a line end inside. -/
theorem splitOn_append_cons (text tail : List Char) :
    (text ++ '\n' :: tail).splitOn '\n' = text.splitOn '\n' ++ tail.splitOn '\n' :=
  List.splitOnP_append_cons text tail (beq_self_eq_true '\n')

theorem splitOn_lines_append {lines : List (List Char)} (h : ∀ line ∈ lines, '\n' ∉ line) (tail : List Char) :
    (lines.flatMap (· ++ ['\n']) ++ tail).splitOn '\n' = lines ++ tail.splitOn '\n' := by
  induction lines with
  | nil => rfl
  | cons line lines ih =>
    obtain ⟨hline, hlines⟩ := List.forall_mem_cons.mp h
    rw [List.flatMap_cons, List.append_assoc, List.append_assoc, List.singleton_append, splitOn_append_cons,
      ih hlines, List.splitOn_eq_singleton hline, List.singleton_append, List.cons_append]

theorem Lined.printable {text : List Char} (h : Lined text) :
    ∀ c ∈ text, isPrintable c = true ∨ c = '\n' := by
  obtain ⟨lines, rfl, hlines⟩ := h
  intro c hc
  obtain ⟨line, hline, hc⟩ := List.mem_flatMap.mp hc
  rcases List.mem_append.mp hc with hc | hc
  · exact .inl (isPrintable_of_isCalm (hlines line hline) c hc)
  · exact .inr (List.mem_singleton.mp hc)

theorem Lined.lineReturn_not_mem {text : List Char} (h : Lined text) : '\r' ∉ text := by
  intro hmem
  rcases h.printable _ hmem with hprint | heq
  · exact absurd hprint (by decide)
  · exact absurd heq (by decide)

end Text

open Text (isCalm Lined)

/-! ## Spellings -/

theorem Token.calm_checked : ∀ x ∈ table, isCalm x.2 = true ∧
    (isAmbiguous x.1 = true → isCalm (bracket x.2) = true) := by
  decide +kernel

theorem Token.calm_text (b : UInt8) : isCalm (text b) = true :=
  (forall_text (P := fun b t => isCalm t = true ∧ (isAmbiguous b = true → isCalm (bracket t) = true))
    calm_checked b).1

theorem Token.calm_bracketed {b : UInt8} (h : isAmbiguous b = true) : isCalm (bracketed b) = true := by
  rw [bracketed_eq]
  exact (forall_text (P := fun b t => isCalm t = true ∧
    (isAmbiguous b = true → isCalm (bracket t) = true)) calm_checked b).2 h

/-- Numbers in brackets are calm, whatever stands between them. -/
theorem calm_numbers {inner : List Char} (h : isCalm inner = true) (n : Nat) :
    isCalm ('[' :: (Text.decimal n ++ inner)) = true := by
  obtain ⟨x, digits, hx, hdigit⟩ := Text.decimal_eq_cons n
  have hcalm := Text.isCalm_append (Text.isCalm_decimal n) h
  rw [hx, List.cons_append] at hcalm ⊢
  refine Text.isCalm_bracket ?_ hcalm
  rintro rfl
  exact absurd hdigit (by decide)

theorem Token.calm_code (b : UInt8) : isCalm (code b) = true := calm_numbers (by decide) _

namespace Piece

theorem calm_explicitNumber (stored : List UInt8) : isCalm (explicitNumber stored) = true := by
  have hfigures : isCalm (Decimal.briefMagnitude (storedValue stored)) = true := by
    refine Text.isCalm_of_plain fun c hc => ?_
    have hfigure := Decimal.isFigure_of_mem_briefMagnitude hc
    refine ⟨isPrintable_of_isFigure hfigure, ?_, ?_⟩
    all_goals
      rintro rfl
      exact absurd hfigure (by decide)
  have hcomment : isCalm ("[#".toList ++ Decimal.briefMagnitude (storedValue stored) ++ "]".toList) =
      true := Text.isCalm_append (Text.isCalm_append (by decide) hfigures) (by decide)
  have hcodes : isCalm (Token.code Token.number ++ stored.flatMap Token.code) = true :=
    Text.isCalm_append (Token.calm_code _) (Text.isCalm_flatMap fun b _ => Token.calm_code b)
  have := Text.isCalm_append hcodes hcomment
  rw [← List.append_assoc, ← List.append_assoc] at this
  exact this

/-! ## Pieces -/

/-- The texts of a piece: none, the spelling of a byte, its number, its name in brackets, or a stored number
written out. -/
inductive Shown : List Char → Prop where
  | hidden : Shown []
  | spelling (b : UInt8) : Shown (Token.text b)
  | code (b : UInt8) : Shown (Token.code b)
  | name {b : UInt8} : Token.isAmbiguous b = true → Shown (Token.bracketed b)
  | number (stored : List UInt8) : Shown (explicitNumber stored)

theorem Shown.calm {text : List Char} (h : Shown text) : isCalm text = true := by
  cases h with
  | hidden => rfl
  | spelling b => exact Token.calm_text b
  | code b => exact Token.calm_code b
  | name hb => exact Token.calm_bracketed hb
  | number stored => exact calm_explicitNumber stored

/-- Every piece has one of the texts of a piece. -/
def AllShown (ps : List Piece) : Prop := ∀ p ∈ ps, Shown p.text

theorem AllShown.append {ps qs : List Piece} (h : AllShown ps) (h' : AllShown qs) : AllShown (ps ++ qs) :=
  List.forall_mem_append.mpr ⟨h, h'⟩

theorem AllShown.take {ps : List Piece} (h : AllShown ps) (n : Nat) : AllShown (ps.take n) :=
  fun p hp => h p (List.mem_of_mem_take hp)

theorem AllShown.drop {ps : List Piece} (h : AllShown ps) (n : Nat) : AllShown (ps.drop n) :=
  fun p hp => h p (List.mem_of_mem_drop hp)

theorem AllShown.reverse {ps : List Piece} (h : AllShown ps) : AllShown ps.reverse :=
  fun p hp => h p (List.mem_reverse.mp hp)

theorem AllShown.cons {p : Piece} {ps : List Piece} (hp : Shown p.text) (h : AllShown ps) :
    AllShown (p :: ps) := List.forall_mem_cons.mpr ⟨hp, h⟩

theorem shown_coded (ps : List Piece) : AllShown (ps.map coded) := by
  intro q hq
  obtain ⟨p, -, rfl⟩ := List.mem_map.mp hq
  exact .code p.byte

theorem shown_enclosed (p : Piece) : Shown p.enclosed.text := by
  dsimp only [enclosed]
  split
  · next h => exact .name h
  · exact .code p.byte

theorem AllShown.calm {ps : List Piece} (h : AllShown ps) : isCalm (join ps) = true :=
  Text.isCalm_flatMap fun p hp => (h p hp).calm

/-! ## Every step keeps to these texts -/

theorem shown_ofToken (bracketed first : Bool) (place : Place) (b : UInt8) (rest : List UInt8) :
    Shown (ofToken bracketed first place b rest).1.text := by
  have htext : Shown (if (!first && Token.isAmbiguous b &&
      (!(place == Place.statement) || bracketed)) = true then Token.bracketed b else Token.text b) := by
    split
    · next h =>
      simp only [Bool.and_eq_true] at h
      exact .name h.1.2
    · exact .spelling b
  unfold ofToken
  dsimp only
  split
  · exact htext
  · split
    · split
      · exact htext
      · split
        · exact htext
        · exact .code b
    · exact htext

theorem shown_scanFrom {bracketed : Bool} {index : Nat} {place : Place} {tokens : List UInt8}
    {done pieces : List Piece} (h : scanFrom bracketed index place tokens done = .ok pieces)
    (hdone : AllShown done) : AllShown pieces := by
  fun_induction scanFrom bracketed index place tokens done with
  | case1 =>
    cases h
    exact hdone.reverse
  | case2 => cases h
  | case3 index place done b rest hnumber stored hlength ih => exact ih h (.cons .hidden hdone)
  | case4 index place done b rest hnumber piece next hpiece ih =>
    refine ih h (.cons ?_ hdone)
    have hshown := shown_ofToken bracketed (index == 0) place b rest
    rwa [hpiece] at hshown

theorem shown_codeLiterals (segments : List Literal.Segment) {run : List Piece} (h : AllShown run) :
    AllShown (codeLiterals segments run) := by
  induction segments generalizing run with
  | nil => exact h
  | cons segment segments ih =>
    refine AllShown.append ?_ (ih (h.drop _))
    split
    · exact shown_coded _
    · exact h.take _

theorem shown_settleNumber (inName : Bool) {run : List Piece} (hrun : AllShown run) {number : Piece}
    (hnumber : Shown number.text) (stored : List UInt8) (following : List Char) :
    AllShown (settleNumber inName run number stored following).1 := by
  have hwritten : AllShown [{ number with text := explicitNumber stored }] :=
    .cons (.number stored) (by simp [AllShown])
  have hhidden : AllShown [number] := .cons hnumber (by simp [AllShown])
  rw [settleNumber_eq]
  dsimp only
  split
  · split
    · exact ((shown_codeLiterals _ (hrun.take _)).append (hrun.drop _)).append hhidden
    · exact ((shown_codeLiterals _ (hrun.take _)).append (shown_coded _)).append hwritten
  · exact (shown_codeLiterals _ hrun).append hwritten

/-- A run of a line and what stands behind it. -/
theorem AllShown.split_run {p : Piece} {rest : List Piece} (h : AllShown (p :: rest)) :
    AllShown (p :: rest.takeWhile inRun) ∧ AllShown (rest.dropWhile inRun) := by
  refine ⟨fun q hq => ?_, fun q hq => h q ?_⟩
  · rcases List.mem_cons.mp hq with rfl | hq
    · exact h _ List.mem_cons_self
    · exact h q (List.mem_cons_of_mem _ ((List.takeWhile_sublist _).subset hq))
  · exact List.mem_cons_of_mem _ ((List.dropWhile_sublist _).subset hq)

theorem shown_resolveFrom {pieces done : List Piece} {events : Journal} (h : AllShown pieces)
    (hdone : AllShown done) : AllShown (resolveFrom pieces done events).1 := by
  unfold resolveFrom
  fun_induction resolveFromWith Slip.ignored pieces done events with
  | case1 done events => exact hdone.reverse
  | case2 done events p rest hp run inName hafter =>
    exact ((shown_codeLiterals _ h.split_run.1).reverse.append hdone).reverse
  | case3 done events p rest hp run inName q behind hafter _ stored hstored ih =>
    obtain ⟨hrun, hrest⟩ := h.split_run
    rw [hafter] at hrest
    have hsettled := shown_settleNumber inName hrun (hrest q List.mem_cons_self) stored (join behind)
    exact ih _ _ (fun x hx => hrest x (List.mem_cons_of_mem _ hx)) (hsettled.reverse.append hdone)
  | case4 done events p rest hp run inName q behind hafter _ hstored ih =>
    obtain ⟨hrun, hrest⟩ := h.split_run
    rw [hafter] at hrest
    exact ih hrest ((shown_codeLiterals _ hrun).reverse.append hdone)
  | case5 done events p rest hp stored hstored ih =>
    exact ih _ (fun x hx => h x (List.mem_cons_of_mem _ hx)) (.cons (.number stored) hdone)
  | case6 done events p rest hp hstored ih =>
    exact ih (fun x hx => h x (List.mem_cons_of_mem _ hx)) (.cons (h p List.mem_cons_self) hdone)

theorem shown_separatePass {ps : List Piece} (h : AllShown ps) : AllShown (separatePass ps).1 := by
  induction ps with
  | nil => exact h
  | cons p ps ih =>
    rw [separatePass_cons]
    refine .cons ?_ (ih fun x hx => h x (List.mem_cons_of_mem _ hx))
    rw [separated_eq]
    split
    · exact shown_enclosed p
    · exact h p List.mem_cons_self

theorem shown_separate {ps : List Piece} (h : AllShown ps) : AllShown (separate ps) := by
  induction ps using separate_induction with
  | again ps hlt ih =>
    rw [separate_eq, if_pos hlt]
    exact ih (shown_separatePass h)
  | stop ps hlt =>
    rw [separate_eq, if_neg hlt]
    exact h

theorem shown_separateBehindFirst {ps : List Piece} (h : AllShown ps) :
    AllShown (separateBehindFirst ps) := by
  cases ps with
  | nil => exact h
  | cons p ps =>
    exact .cons (h p List.mem_cons_self) (shown_separate fun x hx => h x (List.mem_cons_of_mem _ hx))

end Piece

/-! ## Lines -/

namespace Listing

theorem shown_markLastSpace (tokens : List UInt8) {ps : List Piece} (h : Piece.AllShown ps) :
    Piece.AllShown (markLastSpace tokens ps) := by
  unfold markLastSpace
  split
  · next last hlast =>
    split
    · exact Piece.AllShown.append (fun x hx => h x ((List.dropLast_sublist _).subset hx))
        (.cons (.code last.byte) (by simp [Piece.AllShown]))
    · exact h
  · exact h

/-- **Any line.** The text of a line, whichever tokens it holds, is made of the texts of its pieces. -/
theorem renderLine_shown {bracketed : Bool} {tokens : List UInt8} {text : List Char} {events : Journal}
    (h : renderLine bracketed tokens = .ok (text, events)) :
    ∃ ps, text = Piece.join ps ∧ Piece.AllShown ps := by
  rw [Piece.renderLine_eq] at h
  split at h
  · cases h
  · next pieces hscan =>
    cases h
    have hpieces := Piece.shown_scanFrom hscan (by simp [Piece.AllShown])
    refine ⟨_, rfl, shown_markLastSpace tokens (Piece.shown_separateBehindFirst ?_)⟩
    exact Piece.shown_resolveFrom hpieces (by simp [Piece.AllShown])

theorem calm_renderLine {bracketed : Bool} {tokens : List UInt8} {text : List Char} {events : Journal}
    (h : renderLine bracketed tokens = .ok (text, events)) : isCalm text = true := by
  obtain ⟨ps, rfl, hps⟩ := renderLine_shown h
  exact hps.calm

end Listing

end TapeBasic
