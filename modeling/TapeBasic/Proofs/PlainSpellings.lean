import TapeBasic.Proofs.PlainPieces

/-!
# Plain lines keep their spellings

The listing of a plain line has a space wherever a keyword was closed by another blank. That changes nothing
about what is read: a space inside a spelling is never such a space, and a spelling that ends in a keyword may
end in whatever blank closes the keyword.

* `Text.Delimited line`: every blank of the line other than the space closes a keyword.

Results:
* `Grammar.spaced_checked`: a keyword stands in no other spelling, but at the end of one that may be closed by
  the same blanks.
* `Grammar.width?_capitals`: what is read of a delimited line is as long in its listing.
* `Piece.Plain.delimited`: plain lines are delimited.
-/
namespace TapeBasic

open Text (isAscii isBlank lookedUp)

/-! ## Keywords inside spellings -/

namespace Grammar

/-- Whether a space inside a spelling cannot end a keyword, and whether a spelling that ends in a keyword may
be closed by the same blanks. -/
def keepsSpaces (symbol : List Char) : Bool :=
  (symbol.drop 2).dropLast.all (· != ' ') &&
    bif symbol.getLast? == some ' ' then
      (symbol.length.beq 1 || Nat.ble 3 symbol.length) &&
        bif lineEndingSymbols.contains symbol then true
        else lineEndingSymbols.all fun closing => !closing.isSuffixOf symbol
    else true

theorem spaces_checked : ∀ s ∈ statementSymbols, keepsSpaces s.1 = true := by
  rw [statementSymbols_eq]
  decide +kernel

/-- **Keywords inside spellings.** A keyword with its space ends a spelling or stands outside, and the spelling
may be closed by the same blanks. -/
theorem eq_of_keyword_suffix {s : List Char × UInt8} (hs : s ∈ statementSymbols) {b : UInt8}
    {letters front : List Char} (hb : Token.text b = letters ++ [' ']) (hne : letters ≠ [])
    (hfront : front <+: s.1) (hsuffix : Token.text b <:+ front) :
    front = s.1 ∧ (lineEndingSymbols.contains (Token.text b) = true → lineEndingSymbols.contains s.1 = true) := by
  have hlong : 2 ≤ letters.length := by
    have hkeeps := spaces_checked _ (mem_statementSymbols b)
    have := List.length_pos_iff.mpr hne
    dsimp only at hkeeps
    rw [keepsSpaces, hb, List.getLast?_concat, beq_self_eq_true, cond_true, Bool.and_eq_true, Bool.and_eq_true,
      Bool.or_eq_true, Nat.beq_eq, Nat.ble_eq, List.length_append, List.length_singleton] at hkeeps
    omega
  have hkeeps := spaces_checked s hs
  rw [keepsSpaces, Bool.and_eq_true] at hkeeps
  obtain ⟨more, rfl⟩ := hsuffix
  rw [hb] at hfront ⊢
  obtain ⟨rest, hrest⟩ := hfront
  have hspelling : more ++ (letters ++ [' ']) = s.1 := by
    cases rest with
    | nil => rwa [List.append_nil] at hrest
    | cons y rest =>
      -- the space would stand inside the spelling
      exfalso
      have hsplit : s.1 = (more ++ letters) ++ ' ' :: y :: rest := by rw [← hrest]; simp
      rw [hsplit, List.drop_append_of_le_length (by rw [List.length_append]; omega),
        List.dropLast_append_of_ne_nil (List.cons_ne_nil _ _), List.dropLast_cons_cons, List.all_append,
        List.all_cons] at hkeeps
      simp at hkeeps
  refine ⟨hspelling, fun hclosing => ?_⟩
  have hlast : s.1.getLast? = some ' ' := by rw [← hspelling, ← List.append_assoc, List.getLast?_concat]
  have hcond := hkeeps.2
  rw [hlast, beq_self_eq_true, cond_true, Bool.and_eq_true] at hcond
  cases hcontains : lineEndingSymbols.contains s.1 with
  | true => rfl
  | false =>
    rw [hcontains, cond_false, List.all_eq_true] at hcond
    have := hcond.2 _ (List.contains_iff_mem.mp hclosing)
    rw [Bool.not_eq_true', ← Bool.not_eq_true, List.isSuffixOf_iff_suffix] at this
    exact absurd ⟨more, hspelling⟩ this

end Grammar

/-! ## Delimited lines -/

namespace Text

theorem lookedUp_lookedUp {c : Char} (hc : isAscii c = true) : lookedUp (lookedUp c) = lookedUp c :=
  forall_ascii (P := fun c => lookedUp (lookedUp c) = lookedUp c) (by decide +kernel) hc

theorem fold_lookedUp {c : Char} (hc : isAscii c = true) (h : isBlank c = true → c = ' ') :
    fold (lookedUp c) = fold c :=
  forall_ascii (P := fun c => (isBlank c = true → c = ' ') → fold (lookedUp c) = fold c) (by decide +kernel) hc h

theorem isLatinLetterOrDigit_lookedUp {c : Char} (hc : isAscii c = true) :
    isLatinLetterOrDigit (lookedUp c) = isLatinLetterOrDigit c :=
  forall_ascii (P := fun c => isLatinLetterOrDigit (lookedUp c) = isLatinLetterOrDigit c) (by decide +kernel) hc

theorem isBlank_lookedUp {c : Char} (hc : isAscii c = true) : isBlank (lookedUp c) = isBlank c :=
  forall_ascii (P := fun c => isBlank (lookedUp c) = isBlank c) (by decide +kernel) hc

theorem isSpacing_lookedUp {c : Char} (hc : isAscii c = true) (h : isBlank c = true → c = ' ') :
    isSpacing (lookedUp c) = isSpacing c :=
  forall_ascii (P := fun c => (isBlank c = true → c = ' ') → isSpacing (lookedUp c) = isSpacing c)
    (by decide +kernel) hc h

/-- Behind the text up to here, the blank closes a keyword that it may close. -/
def ClosesKeyword (front : List Char) (x : Char) : Prop :=
  ∃ (b : UInt8) (letters : List Char), Token.text b = letters ++ [' '] ∧ letters ≠ [] ∧
    Token.text b <:+ front.map lookedUp ++ [' '] ∧
    (isSpacing x = true ∨ lineEndingSymbols.contains (Token.text b) = true)

theorem ClosesKeyword.append {front : List Char} {x : Char} (h : ClosesKeyword front x) (more : List Char) :
    ClosesKeyword (more ++ front) x := by
  obtain ⟨b, letters, hb, hne, hsuffix, hx⟩ := h
  refine ⟨b, letters, hb, hne, hsuffix.trans ?_, hx⟩
  rw [List.map_append, List.append_assoc]
  exact List.suffix_append _ _

/-- Every blank of the line other than the space closes a keyword that it may close. -/
def Delimited (line : List Char) : Prop :=
  ∀ (front : List Char) (x : Char) (behind : List Char), line = front ++ x :: behind → isBlank x = true →
    x ≠ ' ' → ClosesKeyword front x

/-- A character behind some text stands in it or behind it. -/
theorem split_append {part text front behind : List Char} {x : Char}
    (h : part ++ text = front ++ x :: behind) :
    (∃ more, front = part ++ more ∧ text = more ++ x :: behind) ∨ ∃ after, part = front ++ x :: after := by
  rcases List.append_eq_append_iff.mp h with ⟨more, hfront, htext⟩ | ⟨more, hpart, hmore⟩
  · exact .inl ⟨more, hfront, htext⟩
  · cases more with
    | nil => exact .inl ⟨[], by rw [hpart, List.append_nil, List.append_nil], hmore.symm⟩
    | cons y more =>
      rw [List.cons_append, List.cons.injEq] at hmore
      exact .inr ⟨more, hmore.1 ▸ hpart⟩

end Text

namespace Grammar

open Text (Delimited)

variable {line : List Char} (hline : Delimited line) (hascii : ∀ c ∈ line, isAscii c = true)

section Symbol

variable {s : List Char × UInt8} (hs : s ∈ statementSymbols)

theorem prefix_letters (symbol : List Char) :
    (Pattern.ofSymbol lineEndingSymbols symbol).letters <+: symbol := by
  rcases Pattern.ofSymbol_cases lineEndingSymbols symbol with ⟨letters, ending, hsymbol, hp, -⟩ |
    ⟨ending, hp, -⟩
  · rw [hp, hsymbol]
    exact List.prefix_append _ _
  · exact hp ▸ List.prefix_rfl

include hline hs

/-- Inside a spelling of the listing, no blank of the line was replaced. -/
theorem eq_space_of_prefix
    (hstarts : (Pattern.ofSymbol lineEndingSymbols s.1).letters <+: line.map lookedUp) :
    ∀ c ∈ line.take (Pattern.ofSymbol lineEndingSymbols s.1).letters.length, isBlank c = true → c = ' ' := by
  intro c hc hblank
  by_contra hne
  obtain ⟨front, behind, hsplit⟩ := List.append_of_mem hc
  have hletters := prefix_letters s.1
  have hlettersOf : ∀ letters, letters ≠ [] → s.1 = letters ++ [' '] →
      (Pattern.ofSymbol lineEndingSymbols s.1).letters = letters := by
    intro letters hletters hsymbol
    rw [hsymbol, Pattern.ofSymbol_spaced _ hletters]
  generalize (Pattern.ofSymbol lineEndingSymbols s.1).letters = letters at *
  have hwhole : line = front ++ c :: (behind ++ line.drop letters.length) := by
    rw [← List.cons_append, ← List.append_assoc, ← hsplit, List.take_append_drop]
  obtain ⟨b, more, hb, hmore, hsuffix, -⟩ := hline front c _ hwhole hblank hne
  -- the keyword that the blank closes would end the spelling
  have hfront : front.map lookedUp ++ [' '] <+: letters := by
    rw [List.prefix_iff_eq_take.mp hstarts, ← List.map_take, hsplit, List.map_append, List.map_cons,
      Text.lookedUp_of_isBlank hblank]
    exact (List.prefix_append_right_inj _).mpr (List.prefix_append [' '] _)
  obtain ⟨heq, -⟩ := eq_of_keyword_suffix hs hb hmore (hfront.trans hletters) hsuffix
  have hnonempty : front.map lookedUp ≠ [] := by
    intro hnil
    rw [hnil, hb] at hsuffix
    have := hsuffix.length_le
    have := List.length_pos_iff.mpr hmore
    simp only [List.length_append, List.length_singleton, List.nil_append] at *
    omega
  have := hfront.length_le
  rw [hlettersOf _ hnonempty heq.symm, List.length_append, List.length_singleton] at this
  omega

include hascii

/-- The letters of a spelling are met in a line as in its listing. -/
theorem startsWithLetters_capitals :
    (Text.startsWithLetters (Pattern.ofSymbol lineEndingSymbols s.1).letters (line.map lookedUp) = true ↔
      (Pattern.ofSymbol lineEndingSymbols s.1).letters <+: line.map lookedUp) ∧
    (Text.startsWithLetters (Pattern.ofSymbol lineEndingSymbols s.1).letters line = true ↔
      (Pattern.ofSymbol lineEndingSymbols s.1).letters <+: line.map lookedUp) := by
  have hspace := eq_space_of_prefix hline hs
  have hcapital : ∀ a ∈ (Pattern.ofSymbol lineEndingSymbols s.1).letters,
      Text.isPrintable a = true ∧ a.toUpper = a := fun a ha =>
    toUpper_of_mem statement_checked.1 printable_statementSymbols hs a ((prefix_letters s.1).subset ha)
  generalize (Pattern.ofSymbol lineEndingSymbols s.1).letters = letters at *
  have htake : ∀ text : List Char, letters.map Text.fold <+: text.map Text.fold →
      (text.take letters.length).map Text.fold = letters.map Text.fold := by
    intro text hpre
    rw [List.map_take]
    simpa using (List.prefix_iff_eq_take.mp hpre).symm
  have hlooked : (line.map lookedUp).map lookedUp = line.map lookedUp := by
    rw [List.map_map]
    exact List.map_congr_left fun c hc => Text.lookedUp_lookedUp (hascii c hc)
  have hasciiLooked : ∀ c ∈ line.map lookedUp, isAscii c = true := by
    intro c hc
    obtain ⟨x, hx, rfl⟩ := List.mem_map.mp hc
    exact Text.isAscii_lookedUp (hascii x hx)
  rw [Text.startsWithLetters_iff, Text.startsWithLetters_iff]
  refine ⟨⟨fun hpre => ?_, fun hpre => hpre.map _⟩, fun hpre => ?_, fun hpre => ?_⟩
  · have hmap := (Text.map_lookedUp (fun c hc => hasciiLooked c (List.mem_of_mem_take hc)) hcapital
      (htake _ hpre)).1
    rw [List.map_take, hlooked] at hmap
    exact hmap ▸ List.take_prefix _ _
  · have hmap := (Text.map_lookedUp (fun c hc => hascii c (List.mem_of_mem_take hc)) hcapital
      (htake _ hpre)).1
    rw [List.map_take] at hmap
    exact hmap ▸ List.take_prefix _ _
  · have hletters : letters = (line.take letters.length).map lookedUp := by
      rw [List.map_take]
      exact List.prefix_iff_eq_take.mp hpre
    have hfold : letters.map Text.fold = (line.take letters.length).map Text.fold := by
      conv_lhs => rw [hletters, List.map_map]
      exact List.map_congr_left fun c hc =>
        Text.fold_lookedUp (hascii c (List.mem_of_mem_take hc)) (hspace hpre c hc)
    rw [hfold]
    exact (List.take_prefix _ _).map _

/-- Behind the letters of a spelling, what ends it in a line also ends it in the listing. -/
theorem endsAt_capitals
    (hstarts : (Pattern.ofSymbol lineEndingSymbols s.1).letters <+: line.map lookedUp) :
    Pattern.endsAt (Pattern.ofSymbol lineEndingSymbols s.1).ending
        ((line.map lookedUp ++ ['\n']).drop (Pattern.ofSymbol lineEndingSymbols s.1).letters.length) =
      Pattern.endsAt (Pattern.ofSymbol lineEndingSymbols s.1).ending
        ((line ++ ['\n']).drop (Pattern.ofSymbol lineEndingSymbols s.1).letters.length) := by
  have hle := hstarts.length_le
  rw [List.length_map] at hle
  rw [List.drop_append_of_le_length (by rwa [List.length_map]), List.drop_append_of_le_length hle,
    ← List.map_drop]
  cases hdrop : line.drop (Pattern.ofSymbol lineEndingSymbols s.1).letters.length with
  | nil => rfl
  | cons x rest =>
    have hx : isAscii x = true := hascii x (List.mem_of_mem_drop (hdrop ▸ List.mem_cons_self))
    cases hending : (Pattern.ofSymbol lineEndingSymbols s.1).ending with
    | blank => simp [Pattern.endsAt, Text.isBlank_lookedUp hx]
    | wordEnd => simp [Pattern.endsAt, Text.isLatinLetterOrDigit_lookedUp hx]
    | free => rfl
    | spacing =>
      simp only [Pattern.endsAt, List.map_cons, List.cons_append, List.head?_cons, Option.any_some]
      by_cases hkept : isBlank x = true → x = ' '
      · exact Text.isSpacing_lookedUp hx hkept
      · rw [Classical.not_imp] at hkept
        obtain ⟨hblank, hne⟩ := hkept
        rw [Text.lookedUp_of_isBlank hblank]
        -- the keyword that the blank closes ends this spelling, which no line end may close
        have hwhole : line = line.take (Pattern.ofSymbol lineEndingSymbols s.1).letters.length ++ x :: rest := by
          rw [← hdrop, List.take_append_drop]
        obtain ⟨b, more, hb, hmore, hsuffix, hspacing | hclosing⟩ := hline _ x rest hwhole hblank hne
        · rw [hspacing]
          rfl
        · exfalso
          rw [List.map_take, ← List.prefix_iff_eq_take.mp hstarts] at hsuffix
          rcases Pattern.ofSymbol_cases lineEndingSymbols s.1 with
            ⟨letters, ending, hsymbol, hp, -⟩ | ⟨ending, hp, hfree⟩
          · rw [hp] at hsuffix
            have hcontains := (eq_of_keyword_suffix hs hb hmore (hsymbol ▸ List.prefix_rfl) hsuffix).2 hclosing
            have hletters : letters ≠ [] := by
              rintro rfl
              have hfree : (Pattern.ofSymbol lineEndingSymbols s.1).ending = .free := by
                simp [hsymbol, Pattern.ofSymbol]
              rw [hfree] at hending
              cases hending
            rw [hsymbol] at hcontains
            rw [hsymbol, Pattern.ofSymbol_spaced _ hletters, hcontains] at hending
            cases hending
          · rw [hp] at hending
            dsimp only at hending
            rcases hfree with rfl | rfl <;> cases hending

end Symbol

include hline hascii

/-- **Spellings in the listing.** The longest spelling at the start of a delimited line is as long in its
listing. -/
theorem width?_capitals :
    statement.width? (line.map lookedUp ++ ['\n']) = statement.width? (line ++ ['\n']) := by
  refine width?_congr fun s hs => ?_
  obtain ⟨hlisting, hown⟩ := startsWithLetters_capitals hline hascii hs
  have hletters := letters_ne_lineEnd statement_checked.1 hs
  unfold Pattern.accepts
  rw [Text.startsWithLetters_inLine _ [] hletters, Text.startsWithLetters_inLine _ [] hletters]
  by_cases hstarts : (Pattern.ofSymbol lineEndingSymbols s.1).letters <+: line.map lookedUp
  · rw [hlisting.mpr hstarts, hown.mpr hstarts, endsAt_capitals hline hascii hs hstarts]
  · rw [Bool.eq_false_iff.mpr fun h => hstarts (hlisting.mp h),
      Bool.eq_false_iff.mpr fun h => hstarts (hown.mp h), Bool.false_and, Bool.false_and]

end Grammar

/-! ## Plain lines are delimited -/

namespace Grammar

/-- A blank other than the space closes the keyword that it ends. -/
theorem Spells.closes {g : Grammar} {front tail : List Char} {b : UInt8} (h : Spells g front tail b)
    (hascii : ∀ c ∈ front, isAscii c = true) {before after : List Char} {x : Char}
    (hsplit : front = before ++ x :: after) (hblank : isBlank x = true) (hne : x ≠ ' ') :
    after = [] ∧ before ≠ [] ∧ Token.text b = before.map lookedUp ++ [' '] ∧
      (Text.isSpacing x = true ∨ lineEndingSymbols.contains (Token.text b) = true) := by
  have hafter : after = [] := by
    by_contra hmore
    refine hne (h.inner x ?_ hblank)
    rw [hsplit, List.dropLast_append_of_ne_nil (List.cons_ne_nil _ _), List.dropLast_cons_of_ne_nil hmore]
    simp
  subst hafter
  have hx : isAscii x = true := hascii x (by rw [hsplit]; simp)
  have htext : Token.text b = before.map lookedUp ++ [' '] := by
    rw [← h.text, hsplit, List.map_append, List.map_singleton, Text.lookedUp_of_isBlank hblank]
  have haccepts := h.accepts
  rw [htext, hsplit, List.append_assoc, List.singleton_append, Pattern.accepts, Bool.and_eq_true] at haccepts
  have hbefore : before ≠ [] := by
    rintro rfl
    have hfree : Pattern.ofSymbol lineEndingSymbols ([].map lookedUp ++ [' ']) = ⟨[' '], .free⟩ := by
      simp [Pattern.ofSymbol]
    rw [hfree] at haccepts
    simp only [List.nil_append, Text.startsWithLetters, Bool.and_true, Text.sameLetter_iff] at haccepts
    exact hne ((Text.lookedUp_of_fold hx (by decide) (by decide) haccepts.1.symm).2 hblank)
  refine ⟨rfl, hbefore, htext, ?_⟩
  rw [Pattern.ofSymbol_spaced _ (by simpa using hbefore), ← htext] at haccepts
  dsimp only at haccepts
  rw [List.length_map, List.drop_left] at haccepts
  cases hcontains : lineEndingSymbols.contains (Token.text b) with
  | true => exact .inr rfl
  | false =>
    rw [hcontains, if_neg Bool.false_ne_true] at haccepts
    exact .inl haccepts.2

end Grammar

namespace Piece

variable {mode : Body.Mode} {text : List Char} {ps : List Piece}

/-- The listing of a plain line has the characters of the line: in capitals, with a space for every blank, and
with one for the line end if that closes the last piece. -/
theorem Plain.exists_line (h : Plain mode text ps) :
    ∃ line tail, text = line ++ tail ∧ line.map lookedUp = join ps ∧ (tail = [] ∨ tail = ['\n']) := by
  induction h with
  | lineEnd => exact ⟨[], ['\n'], rfl, rfl, .inr rfl⟩
  | closed => exact ⟨[], [], rfl, rfl, .inl rfl⟩
  | opening _ ih =>
    obtain ⟨line, tail, rfl, hline, htail⟩ := ih
    refine ⟨Text.doubleQuote :: line, tail, rfl, ?_, htail⟩
    rw [List.map_cons, hline, join_cons, Token.text_quote]
    rfl
  | @literal front text run ps stored _ _ _ hjoin _ _ ih =>
    obtain ⟨line, tail, rfl, hline, htail⟩ := ih
    refine ⟨front ++ line, tail, by rw [List.append_assoc], ?_, htail⟩
    rw [List.map_append, hline, join_append, hjoin, join_cons, List.nil_append]
  | @token n b front text ps hspells _ _ _ ih =>
    obtain ⟨line, tail, rfl, hline, htail⟩ := ih
    exact ⟨front ++ line, tail, by rw [List.append_assoc], by rw [List.map_append, hline, hspells.text, join_cons],
      htail⟩
  | @remark b front text ps hspells _ ih =>
    obtain ⟨line, tail, rfl, hline, htail⟩ := ih
    exact ⟨front ++ line, tail, by rw [List.append_assoc], by rw [List.map_append, hline, hspells.text, join_cons],
      htail⟩
  | @string b front text ps hspells _ ih =>
    obtain ⟨line, tail, rfl, hline, htail⟩ := ih
    exact ⟨front ++ line, tail, by rw [List.append_assoc], by rw [List.map_append, hline, hspells.text, join_cons],
      htail⟩

theorem not_isBlank_of_isPart {c : Char} (hc : isAscii c = true) (h : Literal.isPart c = true) :
    isBlank c = false :=
  Text.forall_ascii (P := fun c => Literal.isPart c = true → isBlank c = false) (by decide +kernel) hc h

/-- A part of a line that is a spelling, in front of a text whose blanks close keywords. -/
theorem closesKeyword_append {g : Grammar} {part text front behind : List Char} {b : UInt8} {x : Char}
    (hspells : g.Spells part text b) (hascii : ∀ c ∈ part ++ text, isAscii c = true)
    (hsplit : part ++ text = front ++ x :: behind) (hblank : isBlank x = true) (hne : x ≠ ' ')
    (hrest : ∀ more, front = part ++ more → text = more ++ x :: behind → Text.ClosesKeyword more x) :
    Text.ClosesKeyword front x := by
  rcases Text.split_append hsplit with ⟨more, rfl, htext⟩ | ⟨after, hpart⟩
  · exact (hrest more rfl htext).append part
  · obtain ⟨-, hbefore, htext, hcloses⟩ :=
      hspells.closes (fun c hc => hascii c (List.mem_append_left _ hc)) hpart hblank hne
    exact ⟨b, front.map lookedUp, htext, by simpa using hbefore, htext ▸ List.suffix_rfl, hcloses⟩

/-- **Blanks.** Every blank of a plain line that its listing shows is a space or closes a keyword. -/
theorem Plain.closesKeyword (h : Plain mode text ps) (hascii : ∀ c ∈ text, isAscii c = true)
    {front behind : List Char} {x : Char} (hsplit : text = front ++ x :: behind)
    (hlength : front.length < (join ps).length) (hblank : isBlank x = true) (hne : x ≠ ' ') :
    Text.ClosesKeyword front x := by
  have hlast : ∀ {part rest : List Char}, (∀ c ∈ part ++ rest, isAscii c = true) →
      ∀ c ∈ rest, isAscii c = true := fun h c hc => h c (List.mem_append_right _ hc)
  induction h generalizing front with
  | lineEnd => simp [join] at hlength
  | closed => simp [join] at hlength
  | @opening n text ps _ ih =>
    rw [join_cons, Token.text_quote, List.length_append, List.length_singleton] at hlength
    rcases @Text.split_append [Text.doubleQuote] _ _ _ _ hsplit with ⟨more, rfl, htext⟩ | ⟨after, hpart⟩
    · rw [List.length_append, List.length_singleton] at hlength
      exact (ih (fun c hc => hascii c (List.mem_cons_of_mem _ hc)) htext (by omega)).append [Text.doubleQuote]
    · have hx : x ∈ [Text.doubleQuote] := by rw [hpart]; simp
      obtain rfl := List.mem_singleton.mp hx
      exact absurd hblank (by decide)
  | @literal part text run ps stored _ hwidth _ hjoin _ _ ih =>
    rw [join_append, hjoin, join_cons, List.nil_append, List.length_append, List.length_map] at hlength
    rcases Text.split_append hsplit with ⟨more, rfl, htext⟩ | ⟨after, hpart⟩
    · rw [List.length_append] at hlength
      exact (ih (hlast hascii) htext (by omega)).append part
    · have hx : x ∈ part := by rw [hpart]; simp
      have hmem : x ∈ (part ++ text).take (Literal.width (part ++ text)) := by rwa [hwidth, List.take_left]
      rw [not_isBlank_of_isPart (hascii x (List.mem_append_left _ hx)) (Literal.isPart_of_mem_width hmem)] at hblank
      cases hblank
  | @token n b part text ps hspells _ _ _ ih =>
    refine closesKeyword_append hspells hascii hsplit hblank hne fun more hfront htext => ?_
    rw [join_cons, ← hspells.text, hfront, List.length_append, List.length_append, List.length_map] at hlength
    exact ih (hlast hascii) htext (by omega)
  | @remark b part text ps hspells _ ih =>
    refine closesKeyword_append hspells hascii hsplit hblank hne fun more hfront htext => ?_
    rw [join_cons, ← hspells.text, hfront, List.length_append, List.length_append, List.length_map] at hlength
    exact ih (hlast hascii) htext (by omega)
  | @string b part text ps hspells _ ih =>
    refine closesKeyword_append hspells hascii hsplit hblank hne fun more hfront htext => ?_
    rw [join_cons, ← hspells.text, hfront, List.length_append, List.length_append, List.length_map] at hlength
    exact ih (hlast hascii) htext (by omega)

/-- **Reading the listing.** The longest spelling at the start of a plain text, which ends with its line end, is as
long in its listing. -/
theorem Plain.width?_join (h : Plain mode text ps) (hascii : ∀ c ∈ text, isAscii c = true)
    (hend : text.getLast? = some '\n') :
    Grammar.statement.width? (join ps ++ ['\n']) = Grammar.statement.width? text := by
  obtain ⟨line, tail, rfl, hline, htail⟩ := h.exists_line
  have hasciiLine : ∀ c ∈ line, isAscii c = true := fun c hc => hascii c (List.mem_append_left _ hc)
  have hdelimited : Text.Delimited line := by
    intro front x behind hsplit hblank hne
    refine h.closesKeyword hascii (by rw [hsplit, List.append_assoc, List.cons_append]) ?_ hblank hne
    rw [← hline, List.length_map, hsplit, List.length_append, List.length_cons]
    omega
  rw [← hline, Grammar.width?_capitals hdelimited hasciiLine]
  rcases htail with rfl | rfl
  · rw [List.append_nil] at hend ⊢
    obtain ⟨front, rfl⟩ := List.getLast?_eq_some_iff.mp hend
    rw [List.append_assoc]
    exact Grammar.width?_lineEnd Grammar.statement_checked.1 front ['\n']
  · rfl

end Piece

end TapeBasic
