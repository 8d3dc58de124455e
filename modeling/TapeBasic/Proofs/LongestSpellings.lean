import TapeBasic.Proofs.Spellings

/-!
# The longest spelling in any order

A grammar tries its spellings one after the other, the longer ones first, and takes the first one that is written at
its place. Spellings of one length come in no fixed order.

* `Pattern.firstMatch?`: what an ordered row of patterns takes.
* `Pattern.IsLongest allow symbols text matched`: `matched` is the length of the longest of these spellings at the start
  of the text, if one is written there at all.
* `Pattern.met allow symbols`: the spellings that a text can meet.

Results:
* `Pattern.firstMatch?_eq_max?`: if no pattern is longer than one in front of it, the first match is the longest.
* `Pattern.isCharacterChoice_congr`: whether spellings are a choice of one character does not depend on their order.
* `Pattern.longestMatch_exact`: the order plays no part, and of the spellings that can be met the longest one is
  found. It is the longest of all spellings at every place unless a choice of one character holds a capital beyond
  the first 65536 code points that none of the others stands for.
-/
namespace TapeBasic.Pattern

/-! ## The first match of an ordered row -/

/-- The width of the first pattern that is met. -/
def firstMatch? (patterns : List Pattern) (text : List Char) : Option Nat :=
  (patterns.find? (·.accepts text)).map width

/-- **Order.** If no pattern is longer than one in front of it, the first match is the longest. -/
theorem firstMatch?_eq_max? {patterns : List Pattern} (h : patterns.Pairwise fun p q => q.width ≤ p.width)
    (text : List Char) :
    firstMatch? patterns text = ((patterns.filter (·.accepts text)).map width).max? := by
  have hmatches := h.filter (·.accepts text)
  rw [firstMatch?, ← List.head?_filter]
  cases hfilter : patterns.filter (·.accepts text) with
  | nil => rfl
  | cons p rest =>
    rw [hfilter, List.pairwise_cons] at hmatches
    rw [List.head?_cons, Option.map_some, eq_comm, List.max?_eq_some_iff]
    refine ⟨List.mem_map_of_mem List.mem_cons_self, fun n hn => ?_⟩
    obtain ⟨q, hq, rfl⟩ := List.mem_map.mp hn
    rcases List.mem_cons.mp hq with rfl | hq
    · exact Nat.le_refl _
    · exact hmatches.1 q hq

/-! ## Choices of one character -/

theorem isCharacterChoice_iff {patterns : List Pattern} : isCharacterChoice patterns = true ↔
    (∃ p ∈ patterns, ∃ q ∈ patterns, p ≠ q) ∧ ∃ front, ∀ p ∈ patterns, p.front? = some front := by
  cases patterns with
  | nil => simp [isCharacterChoice]
  | cons p others =>
    simp only [isCharacterChoice, Bool.and_eq_true, List.any_eq_true, bne_iff_ne, List.all_eq_true, beq_iff_eq,
      Option.isSome_iff_exists]
    constructor
    · intro ⟨⟨⟨q, hq, hne⟩, front, hfront⟩, hothers⟩
      refine ⟨⟨q, List.mem_cons_of_mem _ hq, p, List.mem_cons_self, hne⟩, front, fun r hr => ?_⟩
      rcases List.mem_cons.mp hr with rfl | hr
      · exact hfront
      · rw [hothers r hr, hfront]
    · intro ⟨⟨q, hq, r, hr, hne⟩, front, hfront⟩
      have hp := hfront p List.mem_cons_self
      refine ⟨⟨?_, front, hp⟩, fun o ho => by rw [hfront o (List.mem_cons_of_mem _ ho), hp]⟩
      -- One of two different patterns is not the first one.
      by_cases hqp : q = p
      · rcases List.mem_cons.mp hr with hrp | hr
        · exact absurd (hqp.trans hrp.symm) hne
        · exact ⟨r, hr, fun hrp => hne (hqp.trans hrp.symm)⟩
      · rcases List.mem_cons.mp hq with hq | hq
        · exact absurd hq hqp
        · exact ⟨q, hq, hqp⟩

section Order

variable {patterns others : List Pattern} (h : ∀ p, p ∈ patterns ↔ p ∈ others)

include h

theorem isCharacterChoice_congr : isCharacterChoice patterns = isCharacterChoice others := by
  rw [Bool.eq_iff_iff, isCharacterChoice_iff, isCharacterChoice_iff]
  simp only [h]

theorem mem_reachable_congr (p : Pattern) : p ∈ reachable patterns ↔ p ∈ reachable others := by
  unfold reachable
  rw [isCharacterChoice_congr h]
  split
  · rw [List.mem_filter, List.mem_filter, h]
  · exact h p

theorem longest?_congr (text : List Char) : longest? patterns text = longest? others text := by
  have hempty : patterns.isEmpty = others.isEmpty := by
    rw [Bool.eq_iff_iff, List.isEmpty_iff, List.isEmpty_iff, List.eq_nil_iff_forall_not_mem,
      List.eq_nil_iff_forall_not_mem]
    simp only [h]
  unfold longest?
  rw [hempty]
  split
  · rfl
  · refine Option.ext fun n => ?_
    simp only [List.max?_eq_some_iff, List.mem_map, List.mem_filter, mem_reachable_congr h]

end Order

/-! ## The longest spelling -/

/-- `matched` is the length of the longest of these spellings that the text starts with, and `none` if it starts with
none of them. -/
structure IsLongest (allow symbols : List (List Char)) (text : List Char) (matched : Option Nat) : Prop where
  isSome_iff : matched.isSome ↔ ∃ s ∈ symbols, (ofSymbol allow s).accepts text = true
  exists_length : ∀ n ∈ matched, ∃ s ∈ symbols, (ofSymbol allow s).accepts text = true ∧ s.length = n
  length_le : ∀ n ∈ matched, ∀ s ∈ symbols, (ofSymbol allow s).accepts text = true → s.length ≤ n
  le_text : ∀ n ∈ matched, n ≤ text.length

/-- The spellings that a text can meet. -/
def met (allow symbols : List (List Char)) : List (List Char) :=
  if isCharacterChoice (symbols.map (ofSymbol allow)) then symbols.filter fun s => !(ofSymbol allow s).endsInWideCapital
  else symbols

/-- Whether every capital that a choice of one character passes over is read as another spelling of the choice. -/
def MeetsCapitals (allow symbols : List (List Char)) : Prop :=
  isCharacterChoice (symbols.map (ofSymbol allow)) = true →
    ∀ s ∈ symbols, (ofSymbol allow s).endsInWideCapital = true →
      ∃ t ∈ symbols, (ofSymbol allow t).endsInWideCapital = false ∧ (ofSymbol allow t).accepts s = true

/-- A match lies inside the text. -/
theorem width_le_of_accepts {p : Pattern} {text : List Char} (h : p.accepts text = true) :
    p.width ≤ text.length := by
  rw [accepts, Bool.and_eq_true, Text.startsWithLetters_iff] at h
  obtain ⟨hletters, hend⟩ := h
  have hle : p.letters.length ≤ text.length := by simpa using hletters.length_le
  have hlt : ∀ P : Char → Bool, (text.drop p.letters.length).head?.any P = true →
      p.letters.length + 1 ≤ text.length := by
    intro P hany
    refine Nat.lt_of_not_le fun hge => ?_
    rw [List.drop_eq_nil_of_le hge] at hany
    cases hany
  unfold width
  cases hending : p.ending with
  | blank => exact hlt Text.isBlank (by rwa [hending] at hend)
  | spacing => exact hlt Text.isSpacing (by rwa [hending] at hend)
  | wordEnd => exact hle
  | free => exact hle

theorem width_of_front? {p : Pattern} {front : List Char} (h : p.front? = some front) :
    p.width = front.length + 1 := by
  obtain ⟨letters, ending⟩ := p
  unfold front? at h
  unfold width
  cases ending with
  | blank => obtain rfl := Option.some.inj h; rfl
  | spacing => obtain rfl := Option.some.inj h; rfl
  | wordEnd => cases h
  | free =>
    cases letters with
    | nil => cases h
    | cons x letters =>
      obtain rfl := Option.some.inj h
      simp

/-- No blank lies beyond the first 65536 code points. -/
theorem toNat_le_of_isBlank {c : Char} (h : Text.isBlank c = true) : c.toNat ≤ 0xFFFF := by
  unfold Text.isBlank at h
  split at h
  · next hascii =>
    simp only [Text.isAscii, decide_eq_true_eq] at hascii
    omega
  · simp only [Text.Ranges.holds, Text.wideBlanks, List.any_cons, List.any_nil, Bool.or_false, Bool.or_eq_true,
      Bool.and_eq_true, decide_eq_true_eq] at h
    omega

variable {allow symbols : List (List Char)}

theorem reachable_map : reachable (symbols.map (ofSymbol allow)) = (met allow symbols).map (ofSymbol allow) := by
  unfold reachable met
  split
  · rw [List.filter_map]
    rfl
  · rfl

theorem longest?_eq_max? (hne : symbols ≠ []) (text : List Char) :
    longest? (symbols.map (ofSymbol allow)) text =
      ((((met allow symbols).map (ofSymbol allow)).filter (·.accepts text)).map width).max? := by
  rw [longest?, if_neg (by simpa using hne), reachable_map]

/-- **Longest match.** Of the spellings that can be met, the longest one is found. -/
theorem isLongest_met (hne : symbols ≠ []) (text : List Char) :
    IsLongest allow (met allow symbols) text (longest? (symbols.map (ofSymbol allow)) text) := by
  have hmem : ∀ n, n ∈ ((((met allow symbols).map (ofSymbol allow)).filter (·.accepts text)).map width) ↔
      ∃ s ∈ met allow symbols, (ofSymbol allow s).accepts text = true ∧ s.length = n := by
    intro n
    simp only [List.mem_map, List.mem_filter]
    constructor
    · intro ⟨_, ⟨⟨s, hs, rfl⟩, haccepts⟩, hn⟩
      exact ⟨s, hs, haccepts, by rw [← hn, width_ofSymbol]⟩
    · intro ⟨s, hs, haccepts, hn⟩
      exact ⟨_, ⟨⟨s, hs, rfl⟩, haccepts⟩, by rw [width_ofSymbol, hn]⟩
  rw [longest?_eq_max? hne]
  have hfound : ∀ n ∈ ((((met allow symbols).map (ofSymbol allow)).filter (·.accepts text)).map width).max?,
      ∃ s ∈ met allow symbols, (ofSymbol allow s).accepts text = true ∧ s.length = n :=
    fun n hn => (hmem n).mp (List.max?_eq_some_iff.mp hn).1
  refine ⟨?_, hfound, fun n hn s hs haccepts => ?_, fun n hn => ?_⟩
  · rw [List.isSome_max?_iff]
    constructor
    · intro hsome
      obtain ⟨n, hn⟩ := List.exists_mem_of_ne_nil _ hsome
      obtain ⟨s, hs, haccepts, -⟩ := (hmem n).mp hn
      exact ⟨s, hs, haccepts⟩
    · intro ⟨s, hs, haccepts⟩
      exact List.ne_nil_of_mem ((hmem s.length).mpr ⟨s, hs, haccepts, rfl⟩)
  · exact (List.max?_eq_some_iff.mp hn).2 _ ((hmem _).mpr ⟨s, hs, haccepts, rfl⟩)
  · obtain ⟨s, -, haccepts, rfl⟩ := hfound n hn
    rw [← width_ofSymbol allow s]
    exact width_le_of_accepts haccepts

/-! ## Capitals that are passed over -/

theorem ofSymbol_of_endsInWideCapital {s : List Char} (h : (ofSymbol allow s).endsInWideCapital = true) :
    ofSymbol allow s = ⟨s, .free⟩ ∧ ∃ front c, s = front ++ [c] ∧ 0xFFFF < c.toNat := by
  simp only [endsInWideCapital, Bool.and_eq_true, beq_iff_eq] at h
  obtain ⟨hfree, hlast⟩ := h
  have hown : ofSymbol allow s = ⟨s, .free⟩ := by
    rcases ofSymbol_cases allow s with ⟨letters, ending, -, hp, hending⟩ | ⟨ending, hp, -⟩
    · rw [hp] at hfree
      rcases hending with rfl | rfl <;> cases hfree
    · rw [hp] at hfree
      rw [hp, show ending = .free from hfree]
  rw [hown, Option.any_eq_true] at hlast
  obtain ⟨c, hc, hwide⟩ := hlast
  obtain ⟨front, rfl⟩ := List.getLast?_eq_some_iff.mp hc
  simp only [Bool.and_eq_true, decide_eq_true_eq] at hwide
  exact ⟨hown, front, c, rfl, hwide.1⟩

/-- A spelling is found in itself if it ends in a capital that can be passed over. -/
theorem accepts_own {s : List Char} (h : (ofSymbol allow s).endsInWideCapital = true) :
    (ofSymbol allow s).accepts s = true := by
  have hending : (ofSymbol allow s).ending ≠ .wordEnd := by
    rw [(ofSymbol_of_endsInWideCapital h).1]
    simp
  have hself := accepts_self [] hending
  rwa [List.append_nil] at hself

/-- Another spelling of the choice that reads the capital is met wherever the capital stands. -/
theorem accepts_of_capital {s t text front : List Char} (hcapital : (ofSymbol allow s).endsInWideCapital = true)
    (hs : (ofSymbol allow s).front? = some front) (ht : (ofSymbol allow t).front? = some front)
    (hread : (ofSymbol allow t).accepts s = true) (htext : (ofSymbol allow s).accepts text = true) :
    (ofSymbol allow t).accepts text = true := by
  obtain ⟨hown, first, c, hsplit, hwide⟩ := ofSymbol_of_endsInWideCapital hcapital
  have hlength : t.length = s.length := by
    rw [← width_ofSymbol allow t, ← width_ofSymbol allow s, width_of_front? ht, width_of_front? hs]
  rw [accepts, Bool.and_eq_true, Text.startsWithLetters_iff] at hread htext ⊢
  rcases ofSymbol_cases allow t with ⟨letters, ending, hspace, hp, hending⟩ | ⟨ending, hp, hending⟩
  · -- A blank in the place of the capital is none.
    exfalso
    have hletters : letters.length = first.length := by
      rw [hspace, hsplit, List.length_append, List.length_append] at hlength
      simpa using hlength
    have hend := hread.2
    rw [hp, hsplit] at hend
    simp only [hletters, List.drop_left] at hend
    have hblank : Text.isBlank c = true := by
      rcases hending with rfl | rfl
      · simpa [endsAt] using hend
      · exact Text.isBlank_of_isSpacing (by simpa [endsAt] using hend)
    have := toNat_le_of_isBlank hblank
    omega
  · rcases hending with rfl | rfl
    · rw [hp] at ht
      cases ht
    · rw [hp] at hread ⊢
      rw [hown] at htext
      have hsame : t.map Text.fold = s.map Text.fold :=
        hread.1.eq_of_length (by simpa using hlength)
      exact ⟨by rw [hsame]; exact htext.1, rfl⟩

section Choice

variable (hchoice : isCharacterChoice (symbols.map (ofSymbol allow)) = true)

include hchoice

theorem mem_met_iff {s : List Char} :
    s ∈ met allow symbols ↔ s ∈ symbols ∧ (ofSymbol allow s).endsInWideCapital = false := by
  rw [met, if_pos hchoice, List.mem_filter, Bool.not_eq_true']

/-- The spellings of a choice share all but their last character. -/
theorem exists_common_front : ∃ front, ∀ s ∈ symbols,
    (ofSymbol allow s).front? = some front ∧ s.length = front.length + 1 := by
  obtain ⟨front, hfront⟩ := (isCharacterChoice_iff.mp hchoice).2
  refine ⟨front, fun s hs => ?_⟩
  have hs := hfront _ (List.mem_map_of_mem hs)
  exact ⟨hs, by rw [← width_ofSymbol allow s, width_of_front? hs]⟩

/-- If no capital of a choice is missed, the longest match is the longest of all its spellings. -/
theorem isLongest_choice (h : MeetsCapitals allow symbols) {text : List Char} {matched : Option Nat}
    (hmet : IsLongest allow (met allow symbols) text matched) : IsLongest allow symbols text matched := by
  obtain ⟨front, hfront⟩ := exists_common_front hchoice
  refine ⟨⟨fun hsome => ?_, fun hown => ?_⟩, fun n hn => ?_, fun n hn s hs _ => ?_, hmet.le_text⟩
  · obtain ⟨s, hs, haccepts⟩ := hmet.isSome_iff.mp hsome
    exact ⟨s, ((mem_met_iff hchoice).mp hs).1, haccepts⟩
  · obtain ⟨s, hs, haccepts⟩ := hown
    cases hcapital : (ofSymbol allow s).endsInWideCapital with
    | false => exact hmet.isSome_iff.mpr ⟨s, (mem_met_iff hchoice).mpr ⟨hs, hcapital⟩, haccepts⟩
    | true =>
      obtain ⟨t, ht, hplain, hread⟩ := h hchoice s hs hcapital
      exact hmet.isSome_iff.mpr ⟨t, (mem_met_iff hchoice).mpr ⟨ht, hplain⟩,
        accepts_of_capital hcapital (hfront s hs).1 (hfront t ht).1 hread haccepts⟩
  · obtain ⟨s, hs, haccepts, hn⟩ := hmet.exists_length n hn
    exact ⟨s, ((mem_met_iff hchoice).mp hs).1, haccepts, hn⟩
  · obtain ⟨t, ht, -, rfl⟩ := hmet.exists_length n hn
    have hlength := (hfront t ((mem_met_iff hchoice).mp ht).1).2
    exact Nat.le_of_eq ((hfront s hs).2.trans hlength.symm)

end Choice

/-- The longest match is the longest of all spellings at every place exactly if no capital is missed. -/
theorem forall_isLongest_iff (hne : symbols ≠ []) :
    (∀ text, IsLongest allow symbols text (longest? (symbols.map (ofSymbol allow)) text)) ↔
      MeetsCapitals allow symbols := by
  constructor
  · intro h hchoice s hs hcapital
    -- At the capital itself something is met.
    have hsome := (h s).isSome_iff.mpr ⟨s, hs, accepts_own hcapital⟩
    obtain ⟨t, ht, hread⟩ := (isLongest_met hne s).isSome_iff.mp hsome
    obtain ⟨ht, hplain⟩ := (mem_met_iff hchoice).mp ht
    exact ⟨t, ht, hplain, hread⟩
  · intro h text
    have hmet : IsLongest allow _ text _ := isLongest_met hne text
    cases hchoice : isCharacterChoice (symbols.map (ofSymbol allow)) with
    | false => rwa [met, if_neg (by rw [hchoice]; decide)] at hmet
    | true => exact isLongest_choice hchoice h hmet

/-- **Order and length.** Whatever the order of the spellings, the first match with the longer spellings in front is
the longest match. It is the longest of the spellings that can be met, and of all spellings exactly if no capital is
missed. -/
theorem longestMatch_exact (allow : List (List Char)) {symbols : List (List Char)} (hne : symbols ≠ []) :
    (∀ ordered : List (List Char), (∀ s, s ∈ ordered ↔ s ∈ symbols) → ∀ text,
      longest? (ordered.map (ofSymbol allow)) text = longest? (symbols.map (ofSymbol allow)) text ∧
        (ordered.Pairwise (fun s t => t.length ≤ s.length) →
          firstMatch? (reachable (ordered.map (ofSymbol allow))) text =
            longest? (symbols.map (ofSymbol allow)) text)) ∧
      (∀ text, IsLongest allow (met allow symbols) text (longest? (symbols.map (ofSymbol allow)) text)) ∧
      ((∀ text, IsLongest allow symbols text (longest? (symbols.map (ofSymbol allow)) text)) ↔
        MeetsCapitals allow symbols) := by
  refine ⟨fun ordered hordered text => ?_, isLongest_met hne, forall_isLongest_iff hne⟩
  have hpatterns : ∀ p, p ∈ ordered.map (ofSymbol allow) ↔ p ∈ symbols.map (ofSymbol allow) :=
    fun p => by simp only [List.mem_map, hordered]
  have hcongr := longest?_congr hpatterns text
  refine ⟨hcongr, fun hdescending => ?_⟩
  have hsome : ordered ≠ [] := by
    obtain ⟨s, hs⟩ := List.exists_mem_of_ne_nil symbols hne
    exact List.ne_nil_of_mem ((hordered s).mpr hs)
  have hwidths : (reachable (ordered.map (ofSymbol allow))).Pairwise fun p q => q.width ≤ p.width := by
    have hall : (ordered.map (ofSymbol allow)).Pairwise fun p q => q.width ≤ p.width := by
      rw [List.pairwise_map]
      simpa only [width_ofSymbol] using hdescending
    unfold reachable
    split
    · exact hall.filter _
    · exact hall
  rw [firstMatch?_eq_max? hwidths, ← hcongr, longest?_eq_max? hsome, reachable_map]

/-- Spellings of which none is missed. -/
theorem longestMatch_exact_sample :
    ["AB".toList, "A".toList, "ABC ".toList] ≠ [] ∧
      ∀ text, IsLongest [] ["AB".toList, "A".toList, "ABC ".toList] text
        (longest? (["AB".toList, "A".toList, "ABC ".toList].map (ofSymbol [])) text) := by
  have hne : ["AB".toList, "A".toList, "ABC ".toList] ≠ [] := by decide
  have hmeets : MeetsCapitals [] ["AB".toList, "A".toList, "ABC ".toList] :=
    fun hchoice => absurd hchoice (by decide +kernel)
  exact ⟨hne, (longestMatch_exact [] hne).2.2.mpr hmeets⟩

/-- A capital of the Deseret alphabet is missed in a choice with another letter. -/
theorem longestMatch_misses :
    ¬ ∀ text, IsLongest [] [[Char.ofNat 0x10400], ['x']] text
      (longest? ([[Char.ofNat 0x10400], ['x']].map (ofSymbol [])) text) := by
  intro h
  have hown : (ofSymbol [] [Char.ofNat 0x10400]).accepts [Char.ofNat 0x10400] = true := by decide +kernel
  have hsome := (h [Char.ofNat 0x10400]).isSome_iff.mpr ⟨_, List.mem_cons_self, hown⟩
  have hnone : longest? ([[Char.ofNat 0x10400], ['x']].map (ofSymbol [])) [Char.ofNat 0x10400] = none := by
    decide +kernel
  rw [hnone] at hsome
  cases hsome

end TapeBasic.Pattern
