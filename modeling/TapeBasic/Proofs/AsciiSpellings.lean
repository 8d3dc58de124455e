import TapeBasic.Proofs.SeparatedLines

/-!
# Spellings in ASCII text

Letters beyond ASCII can be taken for the letters of a spelling without being found in the table of
spellings again. In ASCII text this does not happen: what is matched is a spelling, up to the case of its
letters and the blank that stands for its last space.

Results:
* `exists_symbol_of_width?`: the longest match in an ASCII text is a spelling of the table, written in
  capitals and with a space for its last blank.
* `exists_lookup_of_width?`: the longest match in an ASCII text has a token, that of its spelling.
-/
namespace TapeBasic

namespace Text

/-- What holds of the first 128 characters holds of every ASCII character. -/
theorem forall_ascii {P : Char → Prop} (h : ∀ n < 128, P (Char.ofNat n)) {c : Char}
    (hc : isAscii c = true) : P c := by
  have hP := h c.toNat (of_decide_eq_true hc)
  rwa [Char.ofNat_toNat] at hP

theorem isAscii_of_isPrintable {c : Char} (h : isPrintable c = true) : isAscii c = true := by
  simp only [isPrintable, isAscii, Bool.and_eq_true, decide_eq_true_eq] at h ⊢
  omega

/-- The character by which a character of a match is looked up: its capital, or a space for a blank. -/
def lookedUp (c : Char) : Char := if isBlank c then ' ' else c.toUpper

theorem toUpper_toLower {c : Char} (hc : isAscii c = true) : c.toLower.toUpper = c.toUpper :=
  forall_ascii (P := fun c => c.toLower.toUpper = c.toUpper) (by decide) hc

theorem toLower_of_isBlank {c : Char} (hc : isAscii c = true) (h : isBlank c = true) :
    c.toLower = c ∧ c.toUpper = c :=
  forall_ascii (P := fun c => isBlank c = true → c.toLower = c ∧ c.toUpper = c) (by decide) hc h

theorem eq_space_of_isBlank_toLower {a : Char} (ha : isPrintable a = true)
    (h : isBlank a.toLower = true) : a = ' ' :=
  forall_ascii (P := fun a => isPrintable a = true → isBlank a.toLower = true → a = ' ') (by decide)
    (isAscii_of_isPrintable ha) ha h

theorem fold_of_isAscii {c : Char} (hc : isAscii c = true) : fold c = c.toLower := by
  have hsmall : isAscii c.toLower = true :=
    forall_ascii (P := fun c => isAscii c.toLower = true) (by decide) hc
  simp [fold, small, hc, hsmall]

theorem capital_of_isAscii {c : Char} (hc : isAscii c = true) : capital c = [c.toUpper] := by
  simp [capital, hc]

/-- **One letter.** An ASCII character that is read like a capital of a spelling is looked up as that
capital, and it is a blank only if it is the space. -/
theorem lookedUp_of_fold {c a : Char} (hc : isAscii c = true) (ha : isPrintable a = true)
    (hcapital : a.toUpper = a) (h : fold c = fold a) :
    lookedUp c = a ∧ (isBlank c = true → c = ' ') := by
  rw [fold_of_isAscii hc, fold_of_isAscii (isAscii_of_isPrintable ha)] at h
  have hupper : c.toUpper = a := by
    rw [← toUpper_toLower hc, h, toUpper_toLower (isAscii_of_isPrintable ha), hcapital]
  have hspace : isBlank c = true → c = ' ' := by
    intro hblank
    obtain ⟨hlower, hown⟩ := toLower_of_isBlank hc hblank
    have ha' : a = ' ' := eq_space_of_isBlank_toLower ha (by rwa [← h, hlower])
    rw [← hown, hupper, ha']
  refine ⟨?_, hspace⟩
  unfold lookedUp
  split
  · next hblank =>
    rw [hspace hblank] at hupper
    exact hupper
  · exact hupper

theorem lookedUp_of_isBlank {c : Char} (h : isBlank c = true) : lookedUp c = ' ' := if_pos h

theorem isAscii_lookedUp {c : Char} (hc : isAscii c = true) : isAscii (lookedUp c) = true :=
  forall_ascii (P := fun c => isAscii (lookedUp c) = true) (by decide) hc

/-- **One spelling.** A text that is read like a spelling is looked up as the spelling. -/
theorem map_lookedUp {text symbol : List Char} (htext : ∀ c ∈ text, isAscii c = true)
    (hsymbol : ∀ a ∈ symbol, isPrintable a = true ∧ a.toUpper = a)
    (h : text.map fold = symbol.map fold) :
    text.map lookedUp = symbol ∧ ∀ c ∈ text, isBlank c = true → c = ' ' := by
  induction text generalizing symbol with
  | nil =>
    cases symbol with
    | nil => simp
    | cons a symbol => simp at h
  | cons c text ih =>
    cases symbol with
    | nil => simp at h
    | cons a symbol =>
      rw [List.map_cons, List.map_cons, List.cons.injEq] at h
      obtain ⟨hc, hblank⟩ := lookedUp_of_fold (htext c List.mem_cons_self)
        (hsymbol a List.mem_cons_self).1 (hsymbol a List.mem_cons_self).2 h.1
      obtain ⟨hrest, hblanks⟩ := ih (fun x hx => htext x (List.mem_cons_of_mem _ hx))
        (fun x hx => hsymbol x (List.mem_cons_of_mem _ hx)) h.2
      exact ⟨by rw [List.map_cons, hc, hrest], List.forall_mem_cons.mpr ⟨hblank, hblanks⟩⟩

theorem upper_of_isAscii {text : List Char} (h : ∀ c ∈ text, isAscii c = true) :
    upper text = text.map Char.toUpper := by
  induction text with
  | nil => rfl
  | cons c text ih =>
    rw [upper, List.flatMap_cons, capital_of_isAscii (h c List.mem_cons_self), ← upper,
      ih fun x hx => h x (List.mem_cons_of_mem _ hx)]
    rfl

end Text

namespace Grammar

open Text (isAscii isBlank isPrintable lookedUp)

/-- What a match is looked up as, if no blank but the space stands inside it. -/
theorem upper_normalise {text : List Char} (hascii : ∀ c ∈ text, isAscii c = true)
    (hblank : ∀ c ∈ text.dropLast, isBlank c = true → c = ' ') :
    Text.upper (normalise text) = text.map lookedUp := by
  have hinner : ∀ c ∈ text.dropLast, lookedUp c = c.toUpper := by
    intro c hc
    unfold Text.lookedUp
    split
    · next hb =>
      rw [hblank c hc hb]
      rfl
    · rfl
  have hspace : ∀ c : Char, (if isBlank c then ' ' else c).toUpper = lookedUp c := by
    intro c
    unfold Text.lookedUp
    split <;> rfl
  have hsame : ∀ c : Char, isBlank (if isBlank c then ' ' else c) = isBlank c := by
    intro c
    split
    · next hb => rw [hb]; rfl
    · rfl
  have hto : ∀ c : Char, isAscii c = true → isAscii (if isBlank c then ' ' else c) = true := by
    intro c hc
    split
    · rfl
    · exact hc
  rcases List.eq_nil_or_concat text with rfl | ⟨front, last, rfl⟩
  · rfl
  · rw [List.concat_eq_append] at *
    rw [List.dropLast_concat] at hinner
    have hlast := hascii last (by simp)
    have hfront : ∀ c ∈ front, isAscii c = true := fun c hc => hascii c (by simp [hc])
    unfold normalise
    simp only [List.dropLast_concat, List.getLast?_concat, Option.map_some, Option.toList_some]
    cases front with
    | nil =>
      rw [List.nil_append, Text.upper_of_isAscii (by simpa using hto _ (hto _ hlast))]
      simp only [hsame, List.map_cons, List.map_nil, List.nil_append]
      unfold Text.lookedUp
      split <;> rfl
    | cons x front =>
      simp only [List.cons_append]
      rw [Text.upper_of_isAscii (List.forall_mem_cons.mpr ⟨hto x (hfront x List.mem_cons_self),
        List.forall_mem_append.mpr ⟨fun c hc => hfront c (List.mem_cons_of_mem _ hc), by
          simpa using hto _ hlast⟩⟩)]
      simp only [List.map_cons, List.map_append, hspace, List.map_nil]
      rw [List.map_congr_left fun c hc => (hinner c (List.mem_cons_of_mem _ hc)).symm]

section Table

variable {symbols : List (List Char × UInt8)} (htidy : isTidyTable symbols = true)
  (hprint : ∀ s ∈ symbols, ∀ c ∈ s.1, isPrintable c = true)

include htidy hprint

theorem toUpper_of_mem {s : List Char × UInt8} (hs : s ∈ symbols) :
    ∀ a ∈ s.1, isPrintable a = true ∧ a.toUpper = a := by
  have ht := tidy_of_mem htidy hs
  simp only [isTidy, Bool.and_eq_true, beq_iff_eq, List.all_eq_true, Bool.or_eq_true,
    Bool.not_eq_true'] at ht
  have hascii : ∀ c ∈ s.1, isAscii c = true := fun c hc =>
    Text.isAscii_of_isPrintable (hprint s hs c hc)
  have hspace : ∀ c ∈ s.1, isBlank c = true → c = ' ' := by
    intro c hc hb
    rcases (ht.2 c hc).2 with h | h
    · rw [hb] at h
      cases h
    · exact h
  have hupper := ht.1.2
  rw [upper_normalise hascii fun c hc => hspace c ((List.dropLast_sublist _).subset hc)] at hupper
  have hmap : s.1.map lookedUp = s.1.map id := by rw [hupper, List.map_id]
  intro a ha
  have hown : lookedUp a = a := List.map_inj_left.mp hmap a ha
  refine ⟨hprint s hs a ha, ?_⟩
  unfold Text.lookedUp at hown
  split at hown
  · rw [← hown]
    rfl
  · exact hown

/-- **Matches in ASCII text.** The longest match is looked up as a spelling of the table; the only blank
in it other than the space is its last character. -/
theorem exists_symbol_of_width? {text : List Char} (hascii : ∀ c ∈ text, isAscii c = true) {n : Nat}
    (h : (ofSymbols symbols).width? text = some n) :
    ∃ s ∈ symbols, (text.take n).map lookedUp = s.1 ∧
      (Pattern.ofSymbol lineEndingSymbols s.1).accepts text = true ∧ s.1.length = n ∧
      ∀ c ∈ (text.take n).dropLast, isBlank c = true → c = ' ' := by
  obtain ⟨⟨s, hs, haccepts, hlength⟩, -⟩ := (longest?_table htidy).mp h
  refine ⟨s, hs, ?_⟩
  have hcapital := toUpper_of_mem htidy hprint hs
  have hsplit := haccepts
  rw [Pattern.accepts, Bool.and_eq_true, Text.startsWithLetters_iff] at hsplit
  obtain ⟨hletters, hend⟩ := hsplit
  have htake : ∀ letters : List Char, letters.map Text.fold <+: text.map Text.fold →
      (text.take letters.length).map Text.fold = letters.map Text.fold := by
    intro letters hpre
    rw [List.map_take]
    simpa using (List.prefix_iff_eq_take.mp hpre).symm
  rcases Pattern.ofSymbol_cases lineEndingSymbols s.1 with
    ⟨letters, ending, hsymbol, hpattern, hending⟩ | ⟨ending, hpattern, -⟩
  · rw [hpattern] at hletters hend
    dsimp only at hletters hend
    obtain ⟨hmap, hblank⟩ := Text.map_lookedUp (fun c hc => hascii c (List.mem_of_mem_take hc))
      (fun a ha => hcapital a (by rw [hsymbol]; exact List.mem_append_left _ ha)) (htake letters hletters)
    -- the last character is the blank that ends the match
    obtain ⟨d, hd, hdblank⟩ : ∃ d, (text.drop letters.length).head? = some d ∧ isBlank d = true := by
      cases hhead : (text.drop letters.length).head? with
      | none => rcases hending with rfl | rfl <;> simp [Pattern.endsAt, hhead] at hend
      | some d =>
        refine ⟨d, rfl, ?_⟩
        rcases hending with rfl | rfl
        · simpa [Pattern.endsAt, hhead] using hend
        · exact Text.isBlank_of_isSpacing (by simpa [Pattern.endsAt, hhead] using hend)
    have hn : n = letters.length + 1 := by rw [← hlength, hsymbol, List.length_append]; rfl
    have htaken : text.take n = text.take letters.length ++ [d] := by
      rw [hn, List.take_add, List.take_one, hd]
      rfl
    refine ⟨?_, haccepts, hlength, ?_⟩
    · rw [htaken, List.map_append, hmap, hsymbol, List.map_singleton, Text.lookedUp_of_isBlank hdblank]
    · rw [htaken, List.dropLast_concat]
      exact hblank
  · rw [hpattern] at hletters
    dsimp only at hletters
    obtain ⟨hmap, hblank⟩ := Text.map_lookedUp (fun c hc => hascii c (List.mem_of_mem_take hc)) hcapital
      (htake s.1 hletters)
    rw [hlength] at hmap hblank
    exact ⟨hmap, haccepts, hlength, fun c hc => hblank c ((List.dropLast_sublist _).subset hc)⟩

/-- **Tokens in ASCII text.** The longest match has a token, one of those with its spelling. -/
theorem exists_lookup_of_width? {text : List Char} (hascii : ∀ c ∈ text, isAscii c = true) {n : Nat}
    (h : (ofSymbols symbols).width? text = some n) :
    ∃ b, (ofSymbols symbols).lookup (text.take n) = .ok b ∧
      (ofSymbols symbols).find? ((text.take n).map lookedUp) = some b ∧
        ((text.take n).map lookedUp, b) ∈ symbols := by
  obtain ⟨s, hs, hmap, -, hlength, hblank⟩ := exists_symbol_of_width? htidy hprint hascii h
  have hne : text.take n ≠ [] := by
    have ht := tidy_of_mem htidy hs
    intro hnil
    rw [hnil, List.map_nil] at hmap
    rw [← hmap] at ht
    exact absurd ht (by decide)
  obtain ⟨b, hfind, hmem⟩ : ∃ b, symbols.lookup s.1 = some b ∧ (s.1, b) ∈ symbols := by
    cases hfind : symbols.lookup s.1 with
    | none => exact absurd (List.lookup_eq_none_iff.mp hfind s hs) (by simp)
    | some b =>
      obtain ⟨front, back, hsplit, -⟩ := List.lookup_eq_some_iff.mp hfind
      exact ⟨b, rfl, by rw [hsplit]; simp⟩
  refine ⟨b, ?_, hmap ▸ hfind, hmap ▸ hmem⟩
  rw [lookup, if_neg (by simpa using hne),
    upper_normalise (fun c hc => hascii c (List.mem_of_mem_take hc)) hblank, hmap]
  simp only [find?, ofSymbols, hfind]

end Table

theorem printable_statementSymbols : ∀ s ∈ statementSymbols, ∀ c ∈ s.1, isPrintable c = true := by
  intro s hs
  obtain ⟨b, -, hs⟩ := List.mem_flatMap.mp hs
  split at hs
  · next hb =>
    rcases List.mem_cons.mp hs with hs | hs
    · rw [hs]
      dsimp only
      exact Piece.printable_text b
    · rw [List.mem_singleton.mp hs]
      dsimp only
      exact Piece.printable_bracketed hb
  · rw [List.mem_singleton.mp hs]
    dsimp only
    exact Piece.printable_text b

theorem printable_remarkSymbols : ∀ s ∈ remarkSymbols, ∀ c ∈ s.1, isPrintable c = true := by
  intro s hs
  obtain ⟨b, -, hs⟩ := List.mem_map.mp hs
  rw [← hs]
  dsimp only
  exact Piece.printable_spelled b

/-- In statement text, every longest match in ASCII characters has a token. -/
theorem exists_lookup_statement {text : List Char} (hascii : ∀ c ∈ text, isAscii c = true) {n : Nat}
    (h : statement.width? text = some n) : ∃ b, statement.lookup (text.take n) = .ok b := by
  obtain ⟨b, hb, -⟩ := exists_lookup_of_width? statement_checked.1 printable_statementSymbols hascii h
  exact ⟨b, hb⟩

end Grammar

end TapeBasic
