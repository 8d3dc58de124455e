import TapeBasic.Grammar

/-!
# Spellings that are read back

The reader takes the longest spelling that it finds, so a token is read back only where no longer
spelling of another token can be read. Most spellings are *firm*: whatever stands behind them, the
reader finds nothing longer.

Two spellings can be read at one place only if one is the start of the other. To compare all spellings of
a grammar with each other, a row of letters is taken as one number (`rowCode`), so that a comparison is a
single division.

Results:
* `Pattern.longest?_eq_some_iff`: the longest match is the greatest width among the matches.
* `Grammar.width?_lineEnd`: what follows the line end does not matter to the reader.
* `Grammar.lookup_of_firm`, `Grammar.width?_of_firm`: a firm spelling is read back, whatever follows it.
-/
namespace TapeBasic

/-! ## The table of all spellings -/

namespace Token

/-- The spelling of a byte with this glyph. -/
def spellGlyph (b : UInt8) : List Char → List Char
  | [] => code b
  | glyph => if isInverseCharacter b then '%' :: glyph else glyph

/-- All bytes and their spellings. -/
def table : List (UInt8 × List Char) :=
  List.zipWith (fun b glyph => (b, spellGlyph b glyph)) Grammar.allTokens glyphs.toList

theorem text_eq_spellGlyph (b : UInt8) : text b = spellGlyph b (glyph b) := by
  unfold text spellGlyph
  split <;> simp_all

theorem length_allTokens : Grammar.allTokens.length = 256 := by simp [Grammar.allTokens]

theorem size_glyphs : glyphs.size = 256 := by
  simp only [glyphs, List.size_toArray, List.length_map, List.length_append, List.length_replicate]
  rfl

theorem table_eq : table = Grammar.allTokens.map fun b => (b, text b) := by
  apply List.ext_getElem
  · simp [table, length_allTokens, size_glyphs]
  · intro i h₁ h₂
    have hi : i < 256 := by simpa [length_allTokens] using h₂
    have hsize : i < glyphs.size := by rw [size_glyphs]; exact hi
    have hglyph : glyph (UInt8.ofNat i) = glyphs[i] := by
      rw [glyph, UInt8.toNat_ofNat_of_lt' hi, Array.getElem?_eq_getElem hsize, Option.getD_some]
    simp only [table, Grammar.allTokens, List.getElem_zipWith, List.getElem_map, List.getElem_range,
      text_eq_spellGlyph, hglyph, Array.getElem_toList]

theorem mem_allTokens (b : UInt8) : b ∈ Grammar.allTokens := by
  unfold Grammar.allTokens
  exact List.mem_map.mpr ⟨b.toNat, List.mem_range.mpr b.toNat_lt, UInt8.ofNat_toNat⟩

/-- What holds of every row of the table holds of every token. -/
theorem forall_text {P : UInt8 → List Char → Prop} (h : ∀ x ∈ table, P x.1 x.2) (b : UInt8) :
    P b (text b) := by
  have hmem : (b, text b) ∈ table := by
    rw [table_eq]
    exact List.mem_map_of_mem (mem_allTokens b)
  have hrow := h (b, text b) hmem
  dsimp only at hrow
  exact hrow

/-- The spelling of a token where letters stand for themselves. -/
def spelled (b : UInt8) : List Char := if isAmbiguous b then bracketed b else text b

/-- A spelling in brackets, without the spaces around it. -/
def bracket : List Char → List Char
  | '[' :: rest => '[' :: rest
  | spelling => '[' :: (Text.trim spelling ++ [']'])

theorem bracketed_eq (b : UInt8) : bracketed b = bracket (text b) := by
  unfold bracketed bracket
  split <;> simp_all

end Token

/-! ## Rows of letters as numbers -/

/-- A row of letters as one number, the first letter in its last place. -/
def rowCode (letters : List Char) : Nat := letters.foldr (fun c n => (Text.fold c).toNat + 256 * n) 0

/-- The number of rows of letters of one length. -/
def rowCount (letters : List Char) : Nat := letters.foldr (fun _ n => 256 * n) 1

/-- Whether a reader at one place could find both spellings: one is the start of the other. -/
def overlap (a b : List Char) : Bool :=
  bif (rowCount a).ble (rowCount b) then (rowCode b % rowCount a).beq (rowCode a)
  else (rowCode a % rowCount b).beq (rowCode b)

theorem rowCount_eq (letters : List Char) : rowCount letters = Nat.pow 256 letters.length := by
  induction letters with
  | nil => rfl
  | cons c letters ih =>
    change 256 * rowCount letters = Nat.pow 256 letters.length * 256
    rw [ih, Nat.mul_comm]

theorem rowCode_lt {letters : List Char} (h : ∀ c ∈ letters, (Text.fold c).toNat < 256) :
    rowCode letters < rowCount letters := by
  induction letters with
  | nil => exact Nat.one_pos
  | cons c letters ih =>
    have hc := h c List.mem_cons_self
    have := ih fun x hx => h x (List.mem_cons_of_mem _ hx)
    change (Text.fold c).toNat + 256 * rowCode letters < 256 * rowCount letters
    omega

theorem rowCode_append (a b : List Char) :
    rowCode (a ++ b) = rowCode a + rowCount a * rowCode b := by
  induction a with
  | nil => simp [rowCode, rowCount]
  | cons c a ih =>
    change (Text.fold c).toNat + 256 * rowCode (a ++ b) =
      (Text.fold c).toNat + 256 * rowCode a + 256 * rowCount a * rowCode b
    rw [ih, Nat.mul_add, Nat.mul_assoc, Nat.add_assoc]

theorem rowCode_congr {a b : List Char} (h : a.map Text.fold = b.map Text.fold) :
    rowCode a = rowCode b := by
  induction a generalizing b with
  | nil => cases b <;> simp_all
  | cons x a ih =>
    cases b with
    | nil => simp at h
    | cons y b =>
      simp only [List.map_cons, List.cons.injEq] at h
      change (Text.fold x).toNat + 256 * rowCode a = (Text.fold y).toNat + 256 * rowCode b
      rw [h.1, ih h.2]

theorem rowCode_mod {a b : List Char} (ha : ∀ c ∈ a, (Text.fold c).toNat < 256)
    (h : a.map Text.fold <+: b.map Text.fold) : rowCode b % rowCount a = rowCode a := by
  obtain ⟨more, hmore⟩ := h
  have hlen : a.length ≤ b.length := by
    have := congrArg List.length hmore
    simp at this
    omega
  have hfront : (b.take a.length).map Text.fold = a.map Text.fold := by
    rw [List.map_take, ← hmore, List.take_left' (by simp)]
  have hcount : rowCount (b.take a.length) = rowCount a := by
    rw [rowCount_eq, rowCount_eq, List.length_take, Nat.min_eq_left hlen]
  rw [← List.take_append_drop a.length b, rowCode_append, hcount, Nat.add_mul_mod_self_left,
    rowCode_congr hfront]
  exact Nat.mod_eq_of_lt (rowCode_lt ha)

/-- Two spellings, one of which starts with the letters of the other, overlap. -/
theorem overlap_of_isPrefix {a b : List Char} (ha : ∀ c ∈ a, (Text.fold c).toNat < 256)
    (hb : ∀ c ∈ b, (Text.fold c).toNat < 256)
    (h : a.map Text.fold <+: b.map Text.fold ∨ b.map Text.fold <+: a.map Text.fold) :
    overlap a b = true := by
  have hle : ∀ {x y : List Char}, x.map Text.fold <+: y.map Text.fold → x.length ≤ y.length :=
    fun hp => by simpa using hp.length_le
  have hcounts : rowCount a ≤ rowCount b ↔ a.length ≤ b.length := by
    rw [rowCount_eq, rowCount_eq]
    exact Nat.pow_le_pow_iff_right (by decide)
  unfold overlap
  cases hcount : (rowCount a).ble (rowCount b) with
  | true =>
    rw [Nat.ble_eq, hcounts] at hcount
    rw [cond_true, Nat.beq_eq]
    rcases h with h | h
    · exact rowCode_mod ha h
    · have hlen : b.length = a.length := Nat.le_antisymm (hle h) hcount
      have heq : b.map Text.fold = a.map Text.fold := h.eq_of_length (by simp [hlen])
      exact rowCode_mod ha (heq ▸ List.prefix_refl _)
  | false =>
    have hlt : ¬ a.length ≤ b.length := by
      rw [← hcounts, ← Nat.ble_eq, hcount]
      decide
    rw [cond_false, Nat.beq_eq]
    rcases h with h | h
    · exact absurd (hle h) hlt
    · exact rowCode_mod hb h

/-! ## Matches -/

namespace Text

theorem sameLetter_iff {a b : Char} : sameLetter a b = true ↔ fold a = fold b := by
  simp [sameLetter]

theorem startsWithLetters_iff {word text : List Char} :
    startsWithLetters word text = true ↔ word.map fold <+: text.map fold := by
  induction word generalizing text with
  | nil => simp [startsWithLetters]
  | cons a word ih =>
    cases text with
    | nil => simp [startsWithLetters]
    | cons b text =>
      rw [startsWithLetters, Bool.and_eq_true, sameLetter_iff, ih, List.map_cons, List.map_cons,
        List.cons_prefix_cons]

/-- What follows the line end plays no part for letters none of which is a line end. -/
theorem startsWithLetters_lineEnd {word : List Char} (line more : List Char)
    (h : ∀ a ∈ word, sameLetter a '\n' = false) :
    startsWithLetters word (line ++ '\n' :: more) = startsWithLetters word (line ++ ['\n']) ∧
      (startsWithLetters word (line ++ ['\n']) = true →
        ((line ++ '\n' :: more).drop word.length).head? =
          ((line ++ ['\n']).drop word.length).head?) := by
  induction word generalizing line with
  | nil => cases line <;> simp [startsWithLetters]
  | cons a word ih =>
    have ha := h a List.mem_cons_self
    cases line with
    | nil => simp [startsWithLetters, ha]
    | cons x line =>
      obtain ⟨heq, hhead⟩ := ih line fun b hb => h b (List.mem_cons_of_mem _ hb)
      simp only [List.cons_append, startsWithLetters, List.length_cons, List.drop_succ_cons,
        Bool.and_eq_true]
      exact ⟨by rw [heq], fun hs => hhead hs.2⟩

end Text

namespace Pattern

/-- A spelling that ends in a space, or is taken as it stands. -/
theorem ofSymbol_cases (allow : List (List Char)) (symbol : List Char) :
    (∃ letters ending, symbol = letters ++ [' '] ∧ ofSymbol allow symbol = ⟨letters, ending⟩ ∧
      (ending = .blank ∨ ending = .spacing)) ∨
    (∃ ending, ofSymbol allow symbol = ⟨symbol, ending⟩ ∧ (ending = .wordEnd ∨ ending = .free)) := by
  unfold ofSymbol
  split
  · split
    · next hlast =>
      left
      refine ⟨symbol.dropLast, _, ?_, rfl, by split <;> simp⟩
      obtain ⟨letters, rfl⟩ := List.getLast?_eq_some_iff.mp (beq_iff_eq.mp hlast)
      rw [List.dropLast_concat]
    · right
      split
      · exact ⟨_, rfl, .inl rfl⟩
      · exact ⟨_, rfl, .inr rfl⟩
  · exact .inr ⟨_, rfl, .inr rfl⟩

/-- A spelling of several characters that ends in a space is met with another blank in its place. -/
theorem ofSymbol_spaced (allow : List (List Char)) {letters : List Char} (h : letters ≠ []) :
    ofSymbol allow (letters ++ [' ']) =
      ⟨letters, if allow.contains (letters ++ [' ']) then .blank else .spacing⟩ := by
  have := List.length_pos_iff.mpr h
  rw [ofSymbol, if_pos (by rw [List.length_append, List.length_singleton]; omega), List.getLast?_concat,
    if_pos (beq_self_eq_true _), List.dropLast_concat]

@[simp] theorem width_ofSymbol (allow : List (List Char)) (symbol : List Char) :
    (ofSymbol allow symbol).width = symbol.length := by
  rcases ofSymbol_cases allow symbol with ⟨letters, ending, hs, h, rfl | rfl⟩ | ⟨ending, h, rfl | rfl⟩
  · rw [h, hs, List.length_append]; rfl
  · rw [h, hs, List.length_append]; rfl
  · rw [h]; rfl
  · rw [h]; rfl

/-- A match in a text means that the spelling and the text start alike, as far as the text is known. Of
the blanks that may stand for the last space, only the space itself is known. -/
theorem prefix_of_accepts {allow : List (List Char)} {symbol front tail : List Char}
    (hblank : ∀ c ∈ front, Text.isBlank c = true → c = ' ')
    (h : (ofSymbol allow symbol).accepts (front ++ tail) = true) :
    symbol.map Text.fold <+: front.map Text.fold ∨ front.map Text.fold <+: symbol.map Text.fold := by
  have hfront : front.map Text.fold <+: (front ++ tail).map Text.fold := by simp
  rw [accepts, Bool.and_eq_true, Text.startsWithLetters_iff] at h
  obtain ⟨hletters, hend⟩ := h
  rcases ofSymbol_cases allow symbol with ⟨letters, ending, hs, hp, hending⟩ | ⟨ending, hp, -⟩
  · rw [hp] at hletters hend
    rcases Nat.lt_or_ge letters.length front.length with hlt | hge
    · -- the character in the place of the last space is known
      left
      obtain ⟨c, rest, hc⟩ : ∃ c rest, front.drop letters.length = c :: rest := by
        cases hd : front.drop letters.length with
        | nil => rw [List.drop_eq_nil_iff] at hd; omega
        | cons c rest => exact ⟨c, rest, rfl⟩
      have hmem : c ∈ front := List.mem_of_mem_drop (hc ▸ List.mem_cons_self)
      have hspace : c = ' ' := by
        apply hblank c hmem
        rw [List.drop_append_of_le_length (Nat.le_of_lt hlt), hc] at hend
        rcases hending with rfl | rfl
        · simpa [endsAt] using hend
        · exact Text.isBlank_of_isSpacing (by simpa [endsAt] using hend)
      have hsplit : front = front.take letters.length ++ ' ' :: rest := by
        rw [← hspace, ← hc, List.take_append_drop]
      have htake : (front.take letters.length).map Text.fold = letters.map Text.fold := by
        have := List.prefix_of_prefix_length_le hletters hfront (by simp; omega)
        rw [List.map_take]
        simpa using (List.prefix_iff_eq_take.mp this).symm
      rw [hs, hsplit, List.map_append, List.map_append, htake, List.map_cons]
      exact (List.prefix_append_right_inj _).mpr (by simp)
    · right
      have := List.prefix_of_prefix_length_le hfront hletters (by simpa using hge)
      rw [hs, List.map_append]
      exact this.trans (List.prefix_append _ _)
  · rw [hp] at hletters
    exact List.prefix_or_prefix_of_prefix hletters hfront

/-- A spelling is matched by itself, unless letters behind it could go on. -/
theorem accepts_self {allow : List (List Char)} {symbol : List Char} (tail : List Char)
    (h : (ofSymbol allow symbol).ending ≠ .wordEnd) :
    (ofSymbol allow symbol).accepts (symbol ++ tail) = true := by
  rw [accepts, Bool.and_eq_true, Text.startsWithLetters_iff]
  rcases ofSymbol_cases allow symbol with ⟨letters, ending, hs, hp, rfl | rfl⟩ | ⟨ending, hp, rfl | rfl⟩
  · rw [hp, hs]
    simp [endsAt, Text.isBlank, Text.isAscii]
  · rw [hp, hs]
    simp [endsAt, Text.isSpacing]
  · rw [hp] at h
    exact absurd rfl h
  · rw [hp]
    simp [endsAt]

/-- **Longest match.** The reader finds the greatest width among the matches. -/
theorem longest?_eq_some_iff {patterns : List Pattern} {text : List Char} {n : Nat}
    (hne : patterns ≠ []) (hchoice : isCharacterChoice patterns = false) :
    longest? patterns text = some n ↔
      (∃ p ∈ patterns, p.accepts text = true ∧ p.width = n) ∧
        ∀ p ∈ patterns, p.accepts text = true → p.width ≤ n := by
  have hempty : patterns.isEmpty = false := by simpa using hne
  rw [longest?, if_neg (by simp [hempty]), reachable, if_neg (by simp [hchoice]), List.max?_eq_some_iff]
  simp only [List.mem_map, List.mem_filter, forall_exists_index, and_imp]
  constructor
  · rintro ⟨⟨p, ⟨hp, ha⟩, hw⟩, hmax⟩
    exact ⟨⟨p, hp, ha, hw⟩, fun q hq hqa => hmax _ q hq hqa rfl⟩
  · rintro ⟨⟨p, hp, ha, hw⟩, hmax⟩
    exact ⟨⟨p, ⟨hp, ha⟩, hw⟩, fun m q hq hqa hm => hm ▸ hmax q hq hqa⟩

end Pattern

/-! ## Grammars -/

namespace Grammar

/-- Whether a spelling uses plain letters only: none of them a line end, no blank but the space, and in
capitals. -/
def isTidy (symbol : List Char) : Bool :=
  !symbol.isEmpty && Text.upper (normalise symbol) == symbol &&
    symbol.all fun c =>
      (Text.fold c).toNat.ble 255 && !(Text.fold c == Text.fold '\n') && (!Text.isBlank c || c == ' ')

/-- Whether a table has tidy spellings only, and enough different ones. -/
def isTidyTable (symbols : List (List Char × UInt8)) : Bool :=
  symbols.all (fun s => isTidy s.1) && !(ofSymbols symbols).patterns.isEmpty &&
    !Pattern.isCharacterChoice (ofSymbols symbols).patterns

/-- Whether everything in a table that can be read where `front` stands is shorter, or as long and the
same token. -/
def isFirm (symbols : List (List Char × UInt8)) (front : List Char) (b : UInt8) : Bool :=
  symbols.all fun s =>
    bif overlap s.1 front then
      s.1.length.blt front.length || (s.1.length.beq front.length && s.2 == b)
    else true

section Table

variable {symbols : List (List Char × UInt8)} (htidy : isTidyTable symbols = true)

include htidy

theorem tidy_of_mem {s : List Char × UInt8} (h : s ∈ symbols) : isTidy s.1 = true := by
  simp only [isTidyTable, Bool.and_eq_true, List.all_eq_true] at htidy
  exact htidy.1.1 s h

theorem longest?_table {text : List Char} {n : Nat} :
    (ofSymbols symbols).width? text = some n ↔
      (∃ s ∈ symbols, (Pattern.ofSymbol lineEndingSymbols s.1).accepts text = true ∧
        s.1.length = n) ∧
      ∀ s ∈ symbols, (Pattern.ofSymbol lineEndingSymbols s.1).accepts text = true →
        s.1.length ≤ n := by
  simp only [isTidyTable, Bool.and_eq_true, Bool.not_eq_true', List.isEmpty_eq_false_iff] at htidy
  rw [width?, Pattern.longest?_eq_some_iff htidy.1.2 htidy.2]
  simp only [ofSymbols, List.mem_map, forall_exists_index, and_imp]
  constructor
  · rintro ⟨⟨p, ⟨s, hs, rfl⟩, ha, hn⟩, hmax⟩
    rw [Pattern.width_ofSymbol] at hn
    refine ⟨⟨s, hs, ha, hn⟩, fun q hq hqa => ?_⟩
    have := hmax _ q hq rfl hqa
    rwa [Pattern.width_ofSymbol] at this
  · rintro ⟨⟨s, hs, ha, hn⟩, hmax⟩
    refine ⟨⟨_, ⟨s, hs, rfl⟩, ha, by rwa [Pattern.width_ofSymbol]⟩, ?_⟩
    rintro p q hq rfl hqa
    rw [Pattern.width_ofSymbol]
    exact hmax q hq hqa

/-- No letter of a spelling is read like a line end. -/
theorem letters_ne_lineEnd {s : List Char × UInt8} (hs : s ∈ symbols) :
    ∀ a ∈ (Pattern.ofSymbol lineEndingSymbols s.1).letters, Text.sameLetter a '\n' = false := by
  have ht := tidy_of_mem htidy hs
  simp only [isTidy, Bool.and_eq_true, List.all_eq_true, Bool.not_eq_true'] at ht
  intro a ha
  apply (ht.2 a ?_).1.2
  rcases Pattern.ofSymbol_cases lineEndingSymbols s.1 with
    ⟨letters, ending, hsym, hp, -⟩ | ⟨ending, hp, -⟩
  · rw [hp] at ha
    rw [hsym]
    exact List.mem_append_left _ ha
  · rw [hp] at ha
    exact ha

omit htidy in
/-- Two texts that meet the same spellings start with a longest spelling of the same length. -/
theorem width?_congr {text other : List Char}
    (h : ∀ s ∈ symbols, (Pattern.ofSymbol lineEndingSymbols s.1).accepts text =
      (Pattern.ofSymbol lineEndingSymbols s.1).accepts other) :
    (ofSymbols symbols).width? text = (ofSymbols symbols).width? other := by
  have hreachable : ∀ p ∈ Pattern.reachable (ofSymbols symbols).patterns, p.accepts text = p.accepts other := by
    intro p hp
    have hmem : p ∈ (ofSymbols symbols).patterns := by
      unfold Pattern.reachable at hp
      split at hp
      · exact (List.mem_filter.mp hp).1
      · exact hp
    obtain ⟨s, hs, rfl⟩ := List.mem_map.mp hmem
    exact h s hs
  unfold width? Pattern.longest?
  rw [List.filter_congr hreachable]

/-- **Line ends.** What follows the line end does not matter to the reader. -/
theorem width?_lineEnd (line more : List Char) :
    (ofSymbols symbols).width? (line ++ '\n' :: more) =
      (ofSymbols symbols).width? (line ++ ['\n']) := by
  refine width?_congr fun s hs => ?_
  obtain ⟨heq, hhead⟩ := Text.startsWithLetters_lineEnd line more (letters_ne_lineEnd htidy hs)
  unfold Pattern.accepts
  rw [heq]
  cases hstart : Text.startsWithLetters (Pattern.ofSymbol lineEndingSymbols s.1).letters
      (line ++ ['\n']) with
  | false => rfl
  | true =>
    rw [Bool.true_and, Bool.true_and]
    unfold Pattern.endsAt
    rw [hhead hstart]

omit htidy in
theorem find?_of_unique {front : List Char} {b : UInt8} (hmem : (front, b) ∈ symbols)
    (hown : ∀ s ∈ symbols, s.1 = front → s.2 = b) : (ofSymbols symbols).find? front = some b := by
  change symbols.lookup front = some b
  induction symbols with
  | nil => simp at hmem
  | cons s symbols ih =>
    obtain ⟨symbol, token⟩ := s
    rw [List.lookup_cons]
    by_cases hs : front = symbol
    · have : token = b := hown (symbol, token) List.mem_cons_self hs.symm
      simp [hs, this]
    · rw [beq_eq_false_iff_ne.mpr hs]
      rcases List.mem_cons.mp hmem with heq | hmem
      · exact absurd (congrArg Prod.fst heq) hs
      · exact ih hmem fun x hx => hown x (List.mem_cons_of_mem _ hx)

theorem lookup_of_unique {front : List Char} {b : UInt8} (hmem : (front, b) ∈ symbols)
    (hown : ∀ s ∈ symbols, s.1 = front → s.2 = b) : (ofSymbols symbols).lookup front = .ok b := by
  have ht := tidy_of_mem htidy hmem
  simp only [isTidy, Bool.and_eq_true, Bool.not_eq_true', beq_iff_eq] at ht
  rw [lookup, if_neg (by simp [ht.1.1]), ht.1.2, find?_of_unique hmem hown]

/-- What is read at a firm spelling is shorter than it, or the token itself. -/
theorem shorter_or_own_of_firm {front tail : List Char} {b : UInt8}
    (hfront : isTidy front = true) (hfirm : isFirm symbols front b = true)
    {s : List Char × UInt8} (hs : s ∈ symbols)
    (ha : (Pattern.ofSymbol lineEndingSymbols s.1).accepts (front ++ tail) = true) :
    s.1.length < front.length ∨ (s.1.length = front.length ∧ s.2 = b) := by
  have hsmall : ∀ {symbol : List Char}, isTidy symbol = true →
      (∀ c ∈ symbol, (Text.fold c).toNat < 256) ∧
        ∀ c ∈ symbol, Text.isBlank c = true → c = ' ' := by
    intro symbol ht
    simp only [isTidy, Bool.and_eq_true, List.all_eq_true, Bool.or_eq_true, Bool.not_eq_true',
      beq_iff_eq, Nat.ble_eq] at ht
    refine ⟨fun c hc => Nat.lt_succ_of_le (ht.2 c hc).1.1, fun c hc hb => ?_⟩
    rcases (ht.2 c hc).2 with h | h
    · rw [hb] at h
      exact absurd h (by decide)
    · exact h
  have hover := overlap_of_isPrefix (hsmall (tidy_of_mem htidy hs)).1 (hsmall hfront).1
    (Pattern.prefix_of_accepts (hsmall hfront).2 ha)
  have hread := List.all_eq_true.mp hfirm s hs
  rw [hover, cond_true, Bool.or_eq_true, Bool.and_eq_true, Nat.blt_eq, Nat.beq_eq, beq_iff_eq] at hread
  exact hread

/-- **Firm spellings.** A firm spelling is read back whatever stands behind it. -/
theorem width?_of_firm {front : List Char} {b : UInt8} (tail : List Char)
    (hmem : (front, b) ∈ symbols) (hfirm : isFirm symbols front b = true)
    (hend : (Pattern.ofSymbol lineEndingSymbols front).ending ≠ .wordEnd) :
    (ofSymbols symbols).width? (front ++ tail) = some front.length := by
  have hfront : isTidy front = true := tidy_of_mem htidy hmem
  rw [longest?_table htidy]
  refine ⟨⟨(front, b), hmem, Pattern.accepts_self tail hend, rfl⟩, fun s hs ha => ?_⟩
  rcases shorter_or_own_of_firm htidy hfront hfirm hs ha with h | h <;> omega

theorem lookup_of_firm {front : List Char} {b : UInt8} (hmem : (front, b) ∈ symbols)
    (hfirm : isFirm symbols front b = true)
    (hend : (Pattern.ofSymbol lineEndingSymbols front).ending ≠ .wordEnd) :
    (ofSymbols symbols).lookup front = .ok b := by
  have hfront : isTidy front = true := tidy_of_mem htidy hmem
  apply lookup_of_unique htidy hmem
  rintro s hs rfl
  have ha : (Pattern.ofSymbol lineEndingSymbols s.1).accepts (s.1 ++ []) = true :=
    Pattern.accepts_self [] hend
  rcases shorter_or_own_of_firm htidy hfront hfirm hs ha with h | h
  · omega
  · exact h.2

end Table

end Grammar

end TapeBasic
