import TapeBasic.Proofs.PairedReading

/-!
# Readers stay inside their text

A text is *shut* if no bracketed word is left open in it and no backslash at its end continues it. What is read at a
place of a shut text depends on the rest of that text alone: whatever text follows behind a line end, the readers
come to the same result and go on at the same place. A single line is *contained* if it opens no bracketed word at
all.

* `Text.isShut`, `Text.isContained`: the texts and the lines out of which no reader looks.
* `Cursor.Share u w w'`: two cursors in front of the shut text `u`, with the texts `w` and `w'` behind it.
* `Cursor.Alike`: two cursors at the same place of the same contained line, with different texts behind the line end.
* `Pairing.SharesText`: two readings stand in front of the same shut texts.

Results:
* `Grammar.read?_share`, `SpecialCode.scan?_shut`, `Literal.width_append_cons`: single pieces.
* `Pairing.SharesText.readsPieces`: two readings in front of the same shut texts keep in step.
-/
namespace TapeBasic

/-! ## Contained lines -/

namespace Text

/-- Whether a reader of the line sees its end: the line has no line end inside, no bracket in front of the
exclamation mark that opens a bracketed word, and no backslash in front of nothing but spacing. -/
def isContained : List Char → Bool
  | [] => true
  | c :: rest =>
    c != '\n' && (c != '[' || !rest.head?.any (sameLetter '!')) && (c != '\\' || !rest.all isSpacing) &&
      isContained rest

theorem isContained_tail {c : Char} {rest : List Char} (h : isContained (c :: rest) = true) :
    isContained rest = true := by
  simp only [isContained, Bool.and_eq_true] at h
  exact h.2

theorem isContained_drop {u : List Char} (h : isContained u = true) (k : Nat) :
    isContained (u.drop k) = true := by
  induction k generalizing u with
  | zero => exact h
  | succ k ih =>
    cases u with
    | nil => exact h
    | cons c rest => exact ih (isContained_tail h)

theorem lineEnd_not_mem {u : List Char} (h : isContained u = true) : '\n' ∉ u := by
  induction u with
  | nil => exact List.not_mem_nil
  | cons c rest ih =>
    simp only [isContained, Bool.and_eq_true, bne_iff_ne, ne_eq] at h
    exact List.not_mem_cons_of_ne_of_not_mem (Ne.symm h.1.1.1) (ih h.2)

/-- Whether a reader of the text sees its end: an opening bracket in front of the exclamation mark of a bracketed word
has a closing one behind it, and no backslash stands in front of nothing but spacing. -/
def isShut : List Char → Bool
  | [] => true
  | c :: rest =>
    (c != '[' || rest.contains ']' || !rest.head?.any (sameLetter '!')) && (c != '\\' || !rest.all isSpacing) &&
      isShut rest

theorem isShut_of_isContained {u : List Char} (h : isContained u = true) : isShut u = true := by
  induction u with
  | nil => rfl
  | cons c rest ih =>
    simp only [isContained, Bool.and_eq_true, Bool.or_eq_true] at h
    simp only [isShut, Bool.and_eq_true, Bool.or_eq_true]
    exact ⟨⟨h.1.1.2.elim (fun hc => .inl (.inl hc)) .inr, h.1.2⟩, ih h.2⟩

theorem isShut_drop {u : List Char} (h : isShut u = true) (k : Nat) : isShut (u.drop k) = true := by
  induction k generalizing u with
  | zero => exact h
  | succ k ih =>
    cases u with
    | nil => exact h
    | cons c rest =>
      rw [isShut, Bool.and_eq_true] at h
      exact ih h.2

/-- What may follow a text so that a reader sees its end: a line end, or nothing where the text closes with one. -/
def Ends (u w : List Char) : Prop := (∃ v, w = '\n' :: v) ∨ w = [] ∧ ∀ x ∈ u.getLast?, x = '\n'

theorem Ends.drop {u w : List Char} (h : Ends u w) (k : Nat) : Ends (u.drop k) w := by
  refine h.imp_right fun ⟨hw, hlast⟩ => ⟨hw, fun x hx => hlast x ?_⟩
  rw [List.getLast?_drop] at hx
  split at hx
  · cases hx
  · exact hx

theorem Ends.of_suffix {u v w : List Char} (h : Ends u w) (hsuffix : v <:+ u) : Ends v w := by
  rw [List.suffix_iff_eq_drop.mp hsuffix]
  exact h.drop _

/-! ## What is seen of a text in front of a character -/

/-- A class is counted up to a character that does not belong to it. -/
theorem takeWhile_stop {p : Char → Bool} {stop : Char} (hp : p stop = false) (u v : List Char) :
    (u ++ stop :: v).takeWhile p = u.takeWhile p := by
  rw [List.takeWhile_append]
  split
  · next h => rw [List.takeWhile_cons_of_neg (by simp [hp]), List.append_nil,
      (List.takeWhile_prefix p).eq_of_length h]
  · rfl

theorem countWhile_stop {p : Char → Bool} {stop : Char} (hp : p stop = false) (u v : List Char) :
    countWhile p (u ++ stop :: v) = countWhile p u := by
  rw [countWhile, takeWhile_stop hp, countWhile]

theorem mem_takeWhile {p : Char → Bool} {text : List Char} : ∀ x ∈ text.takeWhile p, p x = true :=
  fun x hx => List.all_eq_true.mp List.all_takeWhile x hx

/-- A class that the character belongs to is counted in the text, or beyond that character. -/
theorem countWhile_stop_or_lt {p : Char → Bool} (stop : Char) (u : List Char) :
    (∀ v, countWhile p (u ++ stop :: v) = countWhile p u) ∨
      p stop = true ∧ ∀ v, u.length < countWhile p (u ++ stop :: v) := by
  cases hp : p stop with
  | false => exact .inl (countWhile_stop hp u)
  | true =>
    by_cases hall : ∀ x ∈ u, p x = true
    · refine .inr ⟨rfl, fun v => ?_⟩
      rw [countWhile, List.takeWhile_append_of_pos hall, List.takeWhile_cons_of_pos hp, List.length_append,
        List.length_cons]
      omega
    · refine .inl fun v => ?_
      have hlt : (u.takeWhile p).length ≠ u.length := fun h =>
        hall fun x hx => mem_takeWhile x ((List.takeWhile_prefix p).eq_of_length h ▸ hx)
      rw [countWhile, List.takeWhile_append, if_neg hlt, countWhile]

theorem takeWhile_lineEnd {p : Char → Bool} (hp : p '\n' = false) (u v : List Char) :
    (u ++ '\n' :: v).takeWhile p = u.takeWhile p := takeWhile_stop hp u v

theorem countWhile_lineEnd {p : Char → Bool} (hp : p '\n' = false) (u v : List Char) :
    countWhile p (u ++ '\n' :: v) = countWhile p u := countWhile_stop hp u v

theorem countWhile_le (p : Char → Bool) (u : List Char) : countWhile p u ≤ u.length :=
  (List.takeWhile_prefix p).length_le

theorem drop_lineEnd {u : List Char} {k : Nat} (hk : k ≤ u.length) (v : List Char) :
    (u ++ '\n' :: v).drop k = u.drop k ++ '\n' :: v := List.drop_append_of_le_length hk

theorem take_lineEnd {u : List Char} {k : Nat} (hk : k ≤ u.length) (v : List Char) :
    (u ++ '\n' :: v).take k = u.take k := List.take_append_of_le_length hk

/-- Letters none of which is the character behind the text are found in the text itself. -/
theorem startsWithLetters_stop {word : List Char} {stop : Char} (u v : List Char)
    (h : ∀ a ∈ word, sameLetter a stop = false) :
    startsWithLetters word (u ++ stop :: v) = startsWithLetters word u := by
  induction word generalizing u with
  | nil => rfl
  | cons a word ih =>
    have ha := h a List.mem_cons_self
    cases u with
    | nil => simp [startsWithLetters, ha]
    | cons x u =>
      rw [List.cons_append, startsWithLetters, startsWithLetters,
        ih u fun b hb => h b (List.mem_cons_of_mem _ hb)]

theorem startsWithLetters_inLine {word : List Char} (u v : List Char)
    (h : ∀ a ∈ word, sameLetter a '\n' = false) :
    startsWithLetters word (u ++ '\n' :: v) = startsWithLetters word u := startsWithLetters_stop u v h

theorem length_le_of_startsWithLetters {word text : List Char}
    (h : startsWithLetters word text = true) : word.length ≤ text.length := by
  have := (startsWithLetters_iff.mp h).length_le
  simpa using this

end Text

open Text (isContained)

/-! ## Cursors in the same line -/

namespace Cursor

/-- Two cursors at the same place of a contained line, with different texts behind the line end. -/
inductive Alike (line : Nat) (v v' : List Char) : Cursor → Cursor → Prop where
  | intro (u : List Char) (column : Nat) : isContained u = true →
    Alike line v v' ⟨u ++ '\n' :: v, ⟨line, column⟩⟩ ⟨u ++ '\n' :: v', ⟨line, column⟩⟩

/-- The number of characters in front of the line end. -/
def span (c : Cursor) : Nat := Text.countWhile (· != '\n') c.rest

theorem takeWhile_line {u : List Char} (h : '\n' ∉ u) (v : List Char) :
    (u ++ '\n' :: v).takeWhile (· != '\n') = u := by
  refine Text.takeWhile_append_cons (fun x hx => ?_) (by decide)
  rw [bne_iff_ne]
  rintro rfl
  exact h hx

theorem advance_inLine {u : List Char} (h : '\n' ∉ u) {k : Nat} (hk : k ≤ u.length) (v : List Char)
    (line column : Nat) :
    advance ⟨u ++ '\n' :: v, ⟨line, column⟩⟩ k = ⟨u.drop k ++ '\n' :: v, ⟨line, column + k⟩⟩ := by
  induction k generalizing u column with
  | zero => rfl
  | succ k ih =>
    cases u with
    | nil => simp at hk
    | cons x u =>
      have hx : (x == '\n') = false := by
        rw [beq_eq_false_iff_ne]
        rintro rfl
        exact h List.mem_cons_self
      rw [List.length_cons] at hk
      have hafter : (⟨line, column⟩ : Position).after x = ⟨line, column + 1⟩ := by
        simp only [Position.after, hx, Bool.false_eq_true, if_false]
      rw [List.cons_append, advance]
      dsimp only
      rw [hafter, ih (fun hmem => h (List.mem_cons_of_mem _ hmem)) (by omega), List.drop_succ_cons,
        Nat.add_assoc, Nat.add_comm 1]

/-- A shut text is not continued behind its end. -/
theorem continuationWidth_shut {u : List Char} (hu : Text.isShut u = true) (v : List Char) :
    continuationWidth (u ++ '\n' :: v) = continuationWidth u ∧ continuationWidth u ≤ u.length := by
  cases u with
  | nil => exact ⟨rfl, Nat.le_refl _⟩
  | cons x u =>
    by_cases hx : x = '\\'
    · subst hx
      have hspacing : u.all Text.isSpacing = false := by
        simpa [Text.isShut] using (Bool.and_eq_true_iff.mp (Bool.and_eq_true_iff.mp hu).1).2
      obtain ⟨front, y, behind, rfl, hfront, hy⟩ := Text.exists_first_of_all_eq_false hspacing
      have hcount : ∀ w : List Char, Text.countWhile Text.isSpacing (front ++ y :: w) = front.length := by
        intro w
        rw [Text.countWhile, Text.takeWhile_append_cons hfront hy]
      rw [List.cons_append, List.append_assoc, List.cons_append, continuationWidth, continuationWidth, hcount, hcount,
        List.drop_left, List.drop_left]
      refine ⟨rfl, ?_⟩
      split
      · simp only [List.length_cons, List.length_append]
        omega
      · exact Nat.zero_le _
    · simp [continuationWidth, hx]

/-- No line goes on behind a contained line. -/
theorem continuationWidth_inLine {u : List Char} (hu : isContained u = true) (v : List Char) :
    continuationWidth (u ++ '\n' :: v) = 0 := by
  rw [(continuationWidth_shut (Text.isShut_of_isContained hu) v).1]
  unfold continuationWidth
  split
  · next rest =>
    have hhead : (rest.drop (Text.countWhile Text.isSpacing rest)).head? ≠ some '\n' := fun hhead =>
      Text.lineEnd_not_mem hu (List.mem_cons_of_mem _ (List.mem_of_mem_drop (List.mem_of_mem_head? hhead)))
    rw [if_neg (by rwa [beq_iff_eq])]
  · rfl

theorem joinedSpacingWidth_inLine {u : List Char} (hu : isContained u = true) (v : List Char) :
    joinedSpacingWidth (u ++ '\n' :: v) = Text.countWhile Text.isSpacing (u ++ '\n' :: v) := by
  have hzero := continuationWidth_inLine (Text.isContained_drop hu (Text.countWhile Text.isSpacing u)) v
  rw [← Text.drop_lineEnd (Text.countWhile_le _ u), ← Text.countWhile_lineEnd
    (p := Text.isSpacing) rfl u v] at hzero
  unfold joinedSpacingWidth
  dsimp only
  rw [joinedSpacingWidth.joined, dif_pos hzero, Nat.add_zero]
  split
  · next hfirst => exact (beq_iff_eq.mp hfirst).symm
  · rfl

/-- Continuations and spacing are measured in the text in front of a character that is no spacing, if each of the
continuations is. -/
theorem joined_stop {stop : Char} (hstop : Text.isSpacing stop = false) {u v : List Char}
    (h : ∀ k, continuationWidth (u.drop k ++ stop :: v) = continuationWidth (u.drop k) ∧
      continuationWidth (u.drop k) ≤ (u.drop k).length) :
    joinedSpacingWidth.joined (u ++ stop :: v) = joinedSpacingWidth.joined u ∧
      joinedSpacingWidth.joined u ≤ u.length := by
  induction hlength : u.length using Nat.strongRecOn generalizing u with
  | ind n ih =>
    obtain ⟨hwidth, hle⟩ := h 0
    rw [List.drop_zero] at hwidth hle
    rw [joinedSpacingWidth.joined.eq_def (u ++ stop :: v), joinedSpacingWidth.joined.eq_def u]
    simp only [hwidth]
    split
    · exact ⟨rfl, Nat.zero_le _⟩
    · next hne =>
      have hcount := Text.countWhile_le Text.isSpacing (u.drop (continuationWidth u))
      rw [List.length_drop] at hcount
      rw [List.drop_append_of_le_length hle, Text.countWhile_stop hstop,
        List.drop_append_of_le_length (by rw [List.length_drop]; exact hcount), List.drop_drop]
      obtain ⟨hrest, hrestLe⟩ := ih _ (by rw [List.length_drop]; omega) (u := u.drop (continuationWidth u +
        Text.countWhile Text.isSpacing (u.drop (continuationWidth u)))) (fun k => by
          rw [List.drop_drop]
          exact h _) rfl
      rw [List.length_drop] at hrestLe
      exact ⟨by rw [hrest], by omega⟩

theorem joinedSpacingWidth_stop {stop : Char} (hstop : Text.isSpacing stop = false) {u v : List Char}
    (h : ∀ k, continuationWidth (u.drop k ++ stop :: v) = continuationWidth (u.drop k) ∧
      continuationWidth (u.drop k) ≤ (u.drop k).length) :
    joinedSpacingWidth (u ++ stop :: v) = joinedSpacingWidth u ∧ joinedSpacingWidth u ≤ u.length := by
  have hcount := Text.countWhile_le Text.isSpacing u
  obtain ⟨hjoined, hle⟩ := joined_stop hstop (u := u.drop (Text.countWhile Text.isSpacing u)) (v := v) (fun k => by
    rw [List.drop_drop]
    exact h _)
  rw [List.length_drop] at hle
  unfold joinedSpacingWidth
  dsimp only
  rw [Text.countWhile_stop hstop, List.drop_append_of_le_length hcount, hjoined]
  refine ⟨rfl, ?_⟩
  split <;> omega

theorem joinedSpacingWidth_shut {u : List Char} (hu : Text.isShut u = true) (v : List Char) :
    joinedSpacingWidth (u ++ '\n' :: v) = joinedSpacingWidth u ∧ joinedSpacingWidth u ≤ u.length :=
  joinedSpacingWidth_stop rfl fun k => continuationWidth_shut (Text.isShut_drop hu k) v

namespace Alike

variable {line : Nat} {v v' : List Char} {c c' : Cursor}

theorem snippet (h : Alike line v v' c c') : c.snippet = c'.snippet := by
  obtain ⟨u, column, hu⟩ := h
  have hline := Text.lineEnd_not_mem hu
  simp only [Cursor.snippet, takeWhile_line hline]

theorem position (h : Alike line v v' c c') : c.position = c'.position := by
  cases h
  rfl

theorem line_eq (h : Alike line v v' c c') : c.position.line = line := by
  cases h
  rfl

theorem peek (h : Alike line v v' c c') : c.peek = c'.peek := by
  obtain ⟨u, column, hu⟩ := h
  cases u <;> rfl

theorem span (h : Alike line v v' c c') : c.span = c'.span := by
  obtain ⟨u, column, hu⟩ := h
  have hline := Text.lineEnd_not_mem hu
  simp only [Cursor.span, Text.countWhile, takeWhile_line hline]

/-- Going on inside the line. -/
theorem advance (h : Alike line v v' c c') {k : Nat} (hk : k ≤ c.span) :
    Alike line v v' (c.advance k) (c'.advance k) := by
  obtain ⟨u, column, hu⟩ := h
  have hline := Text.lineEnd_not_mem hu
  rw [Cursor.span, Text.countWhile, takeWhile_line hline] at hk
  rw [advance_inLine hline hk, advance_inLine hline hk]
  exact .intro _ _ (Text.isContained_drop hu k)

theorem skipSpacing (h : Alike line v v' c c') : Alike line v v' c.skipSpacing c'.skipSpacing := by
  have hadvance : c'.skipSpacing = c'.advance (Text.countWhile Text.isSpacing c.rest) := by
    obtain ⟨u, column, hu⟩ := h
    simp only [Cursor.skipSpacing, Text.countWhile_lineEnd (p := Text.isSpacing) rfl]
  rw [hadvance]
  refine h.advance ?_
  obtain ⟨u, column, hu⟩ := h
  dsimp only [Cursor.span]
  rw [Text.countWhile_lineEnd rfl, Text.countWhile, Text.countWhile,
    takeWhile_line (Text.lineEnd_not_mem hu)]
  exact Text.countWhile_le _ u

/-- What the next characters of a kind are. -/
theorem takeWhile (h : Alike line v v' c c') {p : Char → Bool} (hp : p '\n' = false) :
    c.rest.takeWhile p = c'.rest.takeWhile p ∧ (c.rest.takeWhile p).length ≤ c.span := by
  obtain ⟨u, column, hu⟩ := h
  dsimp only [Cursor.span]
  rw [Text.takeWhile_lineEnd hp, Text.takeWhile_lineEnd hp, Text.countWhile,
    takeWhile_line (Text.lineEnd_not_mem hu)]
  exact ⟨rfl, (List.takeWhile_prefix p).length_le⟩

/-- A length that is measured in the line itself. -/
theorem measure (h : Alike line v v' c c') {f : List Char → Nat}
    (hf : ∀ u w : List Char, f (u ++ '\n' :: w) = f u ∧ f u ≤ u.length) :
    f c.rest = f c'.rest ∧ f c.rest ≤ c.span := by
  obtain ⟨u, column, hu⟩ := h
  dsimp only [Cursor.span]
  rw [Text.countWhile, takeWhile_line (Text.lineEnd_not_mem hu), (hf u v).1, (hf u v').1]
  exact ⟨rfl, (hf u v).2⟩

theorem take (h : Alike line v v' c c') {k : Nat} (hk : k ≤ c.span) : c.rest.take k = c'.rest.take k := by
  obtain ⟨u, column, hu⟩ := h
  rw [Cursor.span, Text.countWhile, takeWhile_line (Text.lineEnd_not_mem hu)] at hk
  dsimp only
  rw [Text.take_lineEnd hk, Text.take_lineEnd hk]

/-- No line goes on behind a contained line. -/
theorem continuationWidth (h : Alike line v v' c c') :
    continuationWidth c.rest = 0 ∧ continuationWidth c'.rest = 0 := by
  obtain ⟨u, column, hu⟩ := h
  exact ⟨continuationWidth_inLine hu v, continuationWidth_inLine hu v'⟩

theorem skipContinuation (h : Alike line v v' c c') :
    c.skipContinuation = c ∧ c'.skipContinuation = c' := by
  rw [Cursor.skipContinuation, Cursor.skipContinuation, h.continuationWidth.1, h.continuationWidth.2]
  exact ⟨rfl, rfl⟩

end Alike

end Cursor

/-! ## Texts that two cursors share -/

/-- What is measured in the text in front of a line end. -/
theorem Text.Ends.measure {α : Type} {u w : List Char} (h : Ends u w) {f : List Char → α}
    (hf : ∀ v, f (u ++ '\n' :: v) = f u) : f (u ++ w) = f u := by
  rcases h with ⟨v, rfl⟩ | ⟨rfl, -⟩
  · exact hf v
  · rw [List.append_nil]

/-- Whatever follows a text, its first line is the same. -/
theorem Text.Ends.exists_line {u w w' : List Char} (h : Ends u w) (h' : Ends u w') (hne : u ≠ []) :
    ∃ line more more', u ++ w = line ++ '\n' :: more ∧ u ++ w' = line ++ '\n' :: more' ∧
      line.length ≤ u.length := by
  by_cases hmem : '\n' ∈ u
  · obtain ⟨front, behind, rfl, -⟩ := List.eq_append_cons_of_mem hmem
    exact ⟨front, behind ++ w, behind ++ w', by simp, by simp, by simp⟩
  · have hend : ∀ {w : List Char}, Ends u w → ∃ v, w = '\n' :: v := by
      rintro w (hw | ⟨-, hlast⟩)
      · exact hw
      · exact absurd (hlast _ (List.getLast?_eq_some_getLast hne) ▸ List.getLast_mem hne) hmem
    obtain ⟨v, rfl⟩ := hend h
    obtain ⟨v', rfl⟩ := hend h'
    exact ⟨u, v, v', rfl, rfl, Nat.le_refl _⟩

/-- Two cursors in front of the same shut text, each with a line end or with nothing behind it. -/
structure Cursor.Share (u w w' : List Char) (c d : Cursor) : Prop where
  shut : Text.isShut u = true
  ends : Text.Ends u w
  ends' : Text.Ends u w'
  rest : c.rest = u ++ w
  rest' : d.rest = u ++ w'

/-- Going on inside the text that the cursors share. -/
theorem Cursor.Share.advance {u w w' : List Char} {c d : Cursor} (h : Share u w w' c d) {k : Nat}
    (hk : k ≤ u.length) : Share (u.drop k) w w' (c.advance k) (d.advance k) where
  shut := Text.isShut_drop h.shut k
  ends := h.ends.drop k
  ends' := h.ends'.drop k
  rest := by rw [rest_advance, h.rest, List.drop_append_of_le_length hk]
  rest' := by rw [rest_advance, h.rest', List.drop_append_of_le_length hk]

/-- What is measured in the text that the cursors share. -/
theorem Cursor.Share.measure {α : Type} {u w w' : List Char} {c d : Cursor} (h : Share u w w' c d)
    {f : List Char → α} (hf : ∀ v, f (u ++ '\n' :: v) = f u) : f c.rest = f u ∧ f d.rest = f u := by
  rw [h.rest, h.rest']
  exact ⟨h.ends.measure hf, h.ends'.measure hf⟩

/-! ## Single pieces -/

theorem Pattern.length_le_of_accepts {allow : List (List Char)} {symbol text : List Char}
    (h : (ofSymbol allow symbol).accepts text = true) : symbol.length ≤ text.length := by
  rw [accepts, Bool.and_eq_true] at h
  have hletters := Text.length_le_of_startsWithLetters h.1
  rcases ofSymbol_cases allow symbol with ⟨letters, ending, rfl, hp, hending⟩ | ⟨ending, hp, -⟩
  · rw [hp] at h hletters
    cases hdrop : text.drop letters.length with
    | nil => rcases hending with rfl | rfl <;> simp [endsAt, hdrop] at h
    | cons x rest =>
      have := congrArg List.length hdrop
      simp only [List.length_drop, List.length_cons] at this
      rw [List.length_append, List.length_singleton]
      omega
  · rw [hp] at hletters
    exact hletters

/-- A match that does not go beyond the line end ends in front of it, if the line end is not counted. -/
theorem Text.width_le_lineEnd {line : List Char} {matched : Nat} (h : matched ≤ (line ++ ['\n']).length) :
    (if ((line ++ ['\n']).take matched).getLast? == some '\n' then matched - 1 else matched) ≤ line.length := by
  rw [List.length_append, List.length_singleton] at h
  by_cases hlast : matched = line.length + 1
  · rw [hlast, List.take_of_length_le (by simp), List.getLast?_concat, if_pos (by simp)]
    omega
  · split <;> omega

namespace Grammar

theorem width?_le {symbols : List (List Char × UInt8)} (htidy : isTidyTable symbols = true) {text : List Char}
    {n : Nat}
    (h : (ofSymbols symbols).width? text = some n) : n ≤ text.length := by
  obtain ⟨⟨s, -, haccepts, rfl⟩, -⟩ := (longest?_table htidy).mp h
  exact Pattern.length_le_of_accepts haccepts

/-- A token is read inside its line. -/
theorem read?_line {symbols : List (List Char × UInt8)} (htidy : isTidyTable symbols = true)
    {line more more' : List Char} {c d : Cursor} (hc : c.rest = line ++ '\n' :: more)
    (hd : d.rest = line ++ '\n' :: more') :
    (ofSymbols symbols).read? d = (ofSymbols symbols).read? c ∧
      ∀ lexeme, (ofSymbols symbols).read? c = .ok (some lexeme) → lexeme.width ≤ line.length := by
  have hpeek : ∀ {c : Cursor} {more : List Char}, c.rest = line ++ '\n' :: more → c.peek = line.headD '\n' := by
    intro c more hc
    rw [Cursor.peek, hc]
    cases line <;> rfl
  have htake : ∀ matched ≤ (line ++ ['\n']).length, ∀ v : List Char,
      (line ++ '\n' :: v).take matched = (line ++ ['\n']).take matched := by
    intro matched hle v
    rw [← List.singleton_append, ← List.append_assoc, List.take_append_of_le_length hle]
  constructor
  · refine Grammar.read?_congr ?_
    unfold Grammar.scan?
    rw [hpeek hc, hpeek hd, hc, hd, width?_lineEnd htidy line more, width?_lineEnd htidy line more']
    cases hwidth : (ofSymbols symbols).width? (line ++ ['\n']) with
    | none => rfl
    | some matched =>
      have hle := width?_le htidy hwidth
      dsimp only
      rw [htake matched hle more, htake matched hle more']
  · intro token htoken
    obtain ⟨-, matched, hwidth, -, htaken⟩ := exists_of_read? htoken
    rw [hc, width?_lineEnd htidy line more] at hwidth
    have hle := width?_le htidy hwidth
    rw [htaken, hc, htake matched hle more]
    exact Text.width_le_lineEnd hle

/-- **Tokens.** A token is read inside the text that the cursors share. -/
theorem read?_share (context : Context) {u w w' : List Char} {c d : Cursor} (h : Cursor.Share u w w' c d) :
    (ofContext context).read? d = (ofContext context).read? c ∧
      ∀ lexeme, (ofContext context).read? c = .ok (some lexeme) → lexeme.width ≤ u.length := by
  obtain ⟨symbols, htidy, hg⟩ : ∃ symbols, isTidyTable symbols = true ∧
      ofContext context = ofSymbols symbols := by
    cases context with
    | statement => exact ⟨_, statement_checked.1, rfl⟩
    | remark | quotation => exact ⟨_, remark_checked.1, rfl⟩
  rw [hg]
  by_cases hu : u = []
  · -- at the line end there is no token
    have hnone : ∀ {c : Cursor} {w : List Char}, Text.Ends u w → c.rest = u ++ w →
        (ofSymbols symbols).read? c = .ok none := by
      intro c w hends hc
      have hpeek : c.peek = '\n' := by
        rw [Cursor.peek, hc, hu]
        rcases hends with ⟨v, rfl⟩ | ⟨rfl, -⟩ <;> rfl
      refine read?_eq_none ?_
      rw [scan?, hpeek, if_pos (beq_self_eq_true _)]
    rw [hnone h.ends h.rest, hnone h.ends' h.rest']
    exact ⟨rfl, by rintro _ ⟨⟩⟩
  · obtain ⟨line, more, more', hc, hd, hline⟩ := h.ends.exists_line h.ends' hu
    obtain ⟨hsame, hwithin⟩ := read?_line htidy (h.rest.trans hc) (h.rest'.trans hd)
    exact ⟨hsame, fun lexeme hlexeme => Nat.le_trans (hwithin lexeme hlexeme) hline⟩

end Grammar

namespace SpecialCode

/-- In front of a closing bracket, a class without it is counted up to that bracket at most. -/
theorem takeWhile_closed {p : Char → Bool} (hp : p ']' = false) {t : List Char} (ht : ']' ∈ t) (w : List Char) :
    (t ++ w).takeWhile p = t.takeWhile p ∧ (t.takeWhile p).length ≤ t.length ∧
      ']' ∈ t.drop (t.takeWhile p).length := by
  have hall : t.all p = false := List.all_eq_false.mpr ⟨']', ht, by rw [hp]; exact Bool.false_ne_true⟩
  obtain ⟨front, x, behind, rfl, hfront, hx⟩ := Text.exists_first_of_all_eq_false hall
  rw [List.append_assoc, List.cons_append, Text.takeWhile_append_cons hfront hx, Text.takeWhile_append_cons hfront hx,
    List.drop_left]
  refine ⟨rfl, by simp, (List.mem_append.mp ht).resolve_left fun hmem => ?_⟩
  rw [hfront _ hmem] at hp
  cases hp

theorem countWhile_closed {p : Char → Bool} (hp : p ']' = false) {t : List Char} (ht : ']' ∈ t) (w : List Char) :
    Text.countWhile p (t ++ w) = Text.countWhile p t ∧ Text.countWhile p t ≤ t.length ∧
      ']' ∈ t.drop (Text.countWhile p t) := by
  rw [Text.countWhile, (takeWhile_closed hp ht w).1]
  exact ⟨rfl, (takeWhile_closed hp ht w).2⟩

theorem head?_closed {t : List Char} (ht : ']' ∈ t) (w : List Char) : (t ++ w).head? = t.head? := by
  cases t with
  | nil => cases ht
  | cons x t => rfl

theorem closingWidth?_closed {t : List Char} (ht : ']' ∈ t) (w : List Char) :
    closingWidth? (t ++ w) = closingWidth? t ∧ ∀ width ∈ closingWidth? t, width ≤ t.length := by
  obtain ⟨hcount, hle, hmem⟩ := countWhile_closed (p := Text.isBlank) rfl ht w
  have hpos := List.length_pos_of_mem hmem
  rw [List.length_drop] at hpos
  unfold closingWidth?
  dsimp only
  rw [hcount, List.drop_append_of_le_length hle, head?_closed hmem]
  refine ⟨rfl, fun x hx => ?_⟩
  split at hx
  · cases hx
    exact Nat.lt_of_sub_pos hpos
  · cases hx

/-- What is read behind the bracket is read inside the text `t`, whether or not `w` follows it. -/
def Stays (read? : List Char → Option (SpecialCode × Nat)) (t w : List Char) : Prop :=
  read? (t ++ w) = read? t ∧ ∀ x ∈ read? t, x.2 ≤ t.length

theorem Stays.orElse {read? other? : List Char → Option (SpecialCode × Nat)} {t w : List Char} (h : Stays read? t w)
    (hother : Stays other? t w) : Stays (fun text => read? text <|> other? text) t w := by
  refine ⟨?_, fun x hx => ?_⟩
  · dsimp only
    rw [h.1, hother.1]
  · dsimp only at hx
    cases hread : read? t with
    | none =>
      rw [hread] at hx
      exact hother.2 x hx
    | some y =>
      rw [hread] at hx
      cases hx
      exact h.2 _ hread

theorem stays_of_eq_none {read? : List Char → Option (SpecialCode × Nat)} {t w : List Char} (h : read? t = none)
    (hw : read? (t ++ w) = none) : Stays read? t w :=
  ⟨hw.trans h.symm, fun x hx => by rw [h] at hx; cases hx⟩

/-- A class without the closing bracket is counted inside the text, and so is a closing bracket behind it, if that
bracket stands in the text or something else behind it that ends the class. -/
theorem bracketAfter_stays {p : Char → Bool} (hp : p ']' = false) {t w : List Char}
    (h : ']' ∈ t ∨ ∃ stop v, w = stop :: v ∧ stop ≠ ']' ∧ p stop = false) :
    (t ++ w).takeWhile p = t.takeWhile p ∧
      (((t ++ w).drop (t.takeWhile p).length).head? == some ']') =
        ((t.drop (t.takeWhile p).length).head? == some ']') ∧
      (((t.drop (t.takeWhile p).length).head? == some ']') = true → (t.takeWhile p).length + 1 ≤ t.length) := by
  have hle := (List.takeWhile_prefix p (l := t)).length_le
  have hwithin : ((t.drop (t.takeWhile p).length).head? == some ']') = true →
      (t.takeWhile p).length + 1 ≤ t.length := by
    intro hclose
    have hpos := List.length_pos_of_mem (List.mem_of_mem_head? (beq_iff_eq.mp hclose))
    rw [List.length_drop] at hpos
    exact Nat.lt_of_sub_pos hpos
  rw [List.drop_append_of_le_length hle]
  rcases h with ht | ⟨stop, v, rfl, hne, hstop⟩
  · obtain ⟨htake, -, hmem⟩ := takeWhile_closed hp ht w
    exact ⟨htake, by rw [head?_closed hmem], hwithin⟩
  · refine ⟨Text.takeWhile_stop hstop t v, ?_, hwithin⟩
    cases t.drop (t.takeWhile p).length with
    | nil => simp [hne]
    | cons x rest => rfl

/-- A comment ends with its closing bracket. -/
theorem stays_comment? {t w : List Char} (h : ']' ∈ t ∨ ∃ v, w = '\n' :: v) : Stays comment? t w := by
  cases t with
  | nil =>
    rcases h with h | ⟨v, rfl⟩
    · cases h
    · exact stays_of_eq_none rfl rfl
  | cons x t =>
    by_cases hx : x = '#'
    · subst hx
      have hbehind : ']' ∈ t ∨ ∃ stop v, w = stop :: v ∧ stop ≠ ']' ∧ isInner stop = false :=
        h.imp (fun h => by simpa using h) fun ⟨v, hw⟩ => ⟨'\n', v, hw, by decide, rfl⟩
      obtain ⟨htake, hhead, hwithin⟩ := bracketAfter_stays (p := isInner) rfl hbehind
      refine ⟨?_, fun y hy => ?_⟩
      · rw [List.cons_append, comment?, comment?, Text.countWhile, htake, Text.countWhile, hhead]
      · rw [comment?, Text.countWhile] at hy
        split at hy
        · next hclose =>
          cases hy
          exact Nat.succ_le_succ (hwithin hclose)
        · cases hy
    · simp [Stays, comment?, hx]

/-- A number ends with its closing bracket. -/
theorem stays_byte? {t w : List Char}
    (h : ']' ∈ t ∨ ∃ stop v, w = stop :: v ∧ stop ≠ ']' ∧ Text.isDecimal stop = false) :
      Stays byte? t w := by
  obtain ⟨htake, hhead, hwithin⟩ := bracketAfter_stays (p := Text.isDecimal) rfl h
  refine ⟨by rw [byte?, htake, hhead, byte?], fun y hy => ?_⟩
  unfold byte? at hy
  dsimp only at hy
  split at hy
  · next hclose =>
    cases hy
    exact hwithin (Bool.and_eq_true_iff.mp hclose).2
  · cases hy

/-- The size of a block is read in front of the closing bracket. -/
theorem stays_blockSize? {t : List Char} (ht : ']' ∈ t) (w : List Char) : Stays blockSize? t w := by
  obtain ⟨hfront, hfrontLe, hmem⟩ := countWhile_closed (p := Text.isBlank) rfl ht w
  have hlength : (t.drop (Text.countWhile Text.isBlank t)).length = t.length - Text.countWhile Text.isBlank t :=
    List.length_drop
  unfold Stays blockSize?
  dsimp only
  rw [hfront, List.drop_append_of_le_length hfrontLe]
  cases hbehind : t.drop (Text.countWhile Text.isBlank t) with
  | nil =>
    rw [hbehind] at hmem
    cases hmem
  | cons x rest =>
    rw [hbehind] at hmem hlength
    rw [List.length_cons] at hlength
    by_cases hx : x = '='
    · subst hx
      have hrest : ']' ∈ rest := by simpa using hmem
      obtain ⟨hback, hbackLe, hmem⟩ := countWhile_closed (p := Text.isBlank) rfl hrest w
      obtain ⟨hdigits, hdigitsLe, hmem⟩ := takeWhile_closed (p := Text.isDecimal) rfl hmem w
      rw [List.length_drop] at hdigitsLe
      rw [List.drop_drop] at hmem
      obtain ⟨hclosing, hclosingLe⟩ := closingWidth?_closed hmem w
      rw [List.length_drop] at hclosingLe
      simp only [List.cons_append, hback, List.drop_append_of_le_length hbackLe, hdigits]
      rw [List.drop_append_of_le_length (by omega), hclosing]
      refine ⟨rfl, fun y hy => ?_⟩
      split at hy
      · cases hy
      · obtain ⟨closing, hclose, rfl⟩ := Option.map_eq_some_iff.mp hy
        have := hclosingLe closing hclose
        dsimp only
        omega
    · simp [hx]

/-- A path is read in front of the closing bracket. -/
theorem stays_filePath? {t : List Char} (ht : ']' ∈ t) (w : List Char) : Stays filePath? t w := by
  obtain ⟨hgap, hgapLe, hmem⟩ := takeWhile_closed (p := Text.isBlank) rfl ht w
  have hpos := List.length_pos_of_mem hmem
  obtain ⟨hname, hnameLe, hbehind⟩ := takeWhile_closed (p := isInner) rfl hmem w
  obtain ⟨hclosing, hclosingLe⟩ := closingWidth?_closed hbehind w
  rw [List.length_drop] at hpos hnameLe hclosingLe
  unfold Stays filePath?
  dsimp only
  rw [hgap, List.drop_append_of_le_length hgapLe, head?_closed hmem, hname,
    List.drop_append_of_le_length (by rwa [List.length_drop]), hclosing]
  refine ⟨rfl, fun y hy => ?_⟩
  split at hy
  · cases hy
  · split at hy
    · split at hy
      · cases hy
        exact Nat.lt_of_sub_pos hpos
      · cases hy
    · obtain ⟨closing, hclose, rfl⟩ := Option.map_eq_some_iff.mp hy
      have := hclosingLe closing hclose
      rw [List.length_drop] at this
      dsimp only
      omega

theorem startsWithLetters_closed {word t : List Char} (hword : ∀ a ∈ word, Text.sameLetter a ']' = false)
    (ht : ']' ∈ t) (w : List Char) : Text.startsWithLetters word (t ++ w) = Text.startsWithLetters word t ∧
      (Text.startsWithLetters word t = true → ']' ∈ t.drop word.length) := by
  induction word generalizing t with
  | nil => exact ⟨rfl, fun _ => ht⟩
  | cons a word ih =>
    obtain ⟨ha, hword⟩ := List.forall_mem_cons.mp hword
    cases t with
    | nil => cases ht
    | cons x t =>
      rw [List.cons_append, Text.startsWithLetters, Text.startsWithLetters]
      by_cases hx : x = ']'
      · rw [hx, ha]
        exact ⟨rfl, by rintro ⟨⟩⟩
      · have ht : ']' ∈ t := by simpa [Ne.symm hx] using ht
        rw [(ih hword ht).1]
        exact ⟨rfl, fun h => (ih hword ht).2 (Bool.and_eq_true_iff.mp h).2⟩

/-- A bracketed word is read in front of the closing bracket. -/
theorem stays_worded? {word t : List Char} {tail? : List Char → Option (SpecialCode × Nat)}
    (hword : ∀ a ∈ word, Text.sameLetter a ']' = false) (ht : ']' ∈ t) (w : List Char)
    (h : ∀ {t : List Char}, ']' ∈ t → Stays tail? t w) : Stays (worded? word tail?) t w := by
  obtain ⟨hstarts, hbehind⟩ := startsWithLetters_closed hword ht w
  unfold Stays worded?
  rw [hstarts]
  cases hcase : Text.startsWithLetters word t with
  | false => exact ⟨rfl, nofun⟩
  | true =>
    have hle := Text.length_le_of_startsWithLetters hcase
    obtain ⟨htail, hwithin⟩ := h (hbehind hcase)
    rw [List.length_drop] at hwithin
    rw [List.drop_append_of_le_length hle, htail]
    refine ⟨rfl, fun y hy => ?_⟩
    obtain ⟨x, hx, rfl⟩ := Option.map_eq_some_iff.mp hy
    have := hwithin x hx
    dsimp only
    omega

/-- Without an exclamation mark there is no bracketed word. -/
theorem worded?_eq_none {word t : List Char} (tail? : List Char → Option (SpecialCode × Nat))
    (hword : word.head? = some '!') (ht : t.head?.any (Text.sameLetter '!') = false) : worded? word tail? t = none := by
  cases word with
  | nil => cases hword
  | cons a word =>
    cases hword
    cases t with
    | nil => rfl
    | cons x t =>
      have hx : Text.sameLetter '!' x = false := ht
      rw [worded?, Text.startsWithLetters, hx, Bool.false_and, if_neg Bool.false_ne_true]

/-- A code of any kind behind the opening bracket. -/
def behindBracket? (text : List Char) : Option (SpecialCode × Nat) :=
  comment? text <|> byte? text <|> worded? blockWord blockSize? text <|> worded? fileWord filePath? text

/-- A code is read in front of the closing bracket. -/
theorem stays_closed {t : List Char} (ht : ']' ∈ t) (w : List Char) : Stays behindBracket? t w :=
  (stays_comment? (.inl ht)).orElse ((stays_byte? (.inl ht)).orElse
    ((stays_worded? (Text.forall_mem_of_all (by decide)) ht _ fun ht => stays_blockSize? ht _).orElse
      (stays_worded? (Text.forall_mem_of_all (by decide)) ht _ fun ht => stays_filePath? ht _)))

theorem scan?_of_stays {t w : List Char} (h : Stays behindBracket? t w) :
    scan? ('[' :: (t ++ w)) = scan? ('[' :: t) ∧ ∀ lexeme ∈ scan? ('[' :: t), lexeme.width ≤ t.length + 1 := by
  obtain ⟨hsame, hwithin⟩ := h
  unfold behindBracket? at hsame hwithin
  rw [scan?, scan?, hsame]
  refine ⟨rfl, fun lexeme hlexeme => ?_⟩
  obtain ⟨x, hx, rfl⟩ := Option.map_eq_some_iff.mp hlexeme
  exact Nat.succ_le_succ (hwithin x hx)

/-- **Bracketed codes.** What is read behind an opening bracket of a shut text is read inside the text. -/
theorem scan?_shut {u : List Char} (hu : Text.isShut u = true) (v : List Char) :
    scan? (u ++ '\n' :: v) = scan? u ∧ ∀ lexeme ∈ scan? u, lexeme.width ≤ u.length := by
  by_cases hhead : u.head? = some '['
  · obtain ⟨t, rfl⟩ := List.head?_eq_some_iff.mp hhead
    refine scan?_of_stays ?_
    by_cases ht : ']' ∈ t
    · exact stays_closed ht _
    · have hmark : t.head?.any (Text.sameLetter '!') = false := by
        simpa [Text.isShut, ht] using (Bool.and_eq_true_iff.mp (Bool.and_eq_true_iff.mp hu).1).1
      have hmark' : (t ++ '\n' :: v).head?.any (Text.sameLetter '!') = false := by
        cases t with
        | nil => exact (by decide : Text.sameLetter '!' '\n' = false)
        | cons x t => exact hmark
      exact (stays_comment? (.inr ⟨v, rfl⟩)).orElse ((stays_byte? (.inr ⟨'\n', v, rfl, by decide, rfl⟩)).orElse
        ((stays_of_eq_none (worded?_eq_none _ rfl hmark) (worded?_eq_none _ rfl hmark')).orElse
          (stays_of_eq_none (worded?_eq_none _ rfl hmark) (worded?_eq_none _ rfl hmark'))))
  · have hhead' : (u ++ '\n' :: v).head? ≠ some '[' := by
      cases u with
      | nil => simp
      | cons x u => exact hhead
    rw [scan?_eq_none_of_head hhead, scan?_eq_none_of_head hhead']
    exact ⟨rfl, by rintro _ ⟨⟩⟩

end SpecialCode

/-! ## Two readings of the same piece -/

section SamePiece

variable {F : Fault → Fault → Prop} {files : FileReader} {c d : Cursor}

/-- Two readings that find the same code. -/
theorem SpecialCode.read?_matches (hscan : scan? d.rest = scan? c.rest)
    (hfault : ∀ what, F (c.fault what) (d.fault what))
    (hnumeral : F .numeralTooLong .numeralTooLong)
    (hfile : ∀ path cause, F (.unreadable path cause c.position) (.unreadable path cause d.position)) :
    Matches F (fun a b => a = b ∧ ∀ lexeme ∈ a, ∃ scanned ∈ scan? c.rest, lexeme.width = scanned.width)
      (read? files c) (read? files d) := by
  have hemit : ∀ code : SpecialCode, Matches F Eq (code.emit files c) (code.emit files d) := by
    intro code
    cases code with
    | comment => exact matches_ok rfl
    | byte digits | block digits =>
      unfold SpecialCode.emit
      dsimp only
      cases Text.natural? digits with
      | none => exact matches_error hnumeral
      | some n =>
        dsimp only
        split
        · exact matches_error (hfault _)
        · exact matches_ok rfl
    | file path =>
      unfold SpecialCode.emit
      dsimp only
      cases files path with
      | error cause => exact matches_error (hfile path cause)
      | ok bytes => exact matches_ok rfl
  unfold SpecialCode.read?
  rw [hscan]
  cases hlexeme : SpecialCode.scan? c.rest with
  | none => exact matches_ok ⟨rfl, nofun⟩
  | some lexeme =>
    dsimp only
    rcases hemit lexeme.value with ⟨_, _, hx, hy, hfault⟩ | ⟨emission, _, hx, hy, rfl⟩
    · rw [hx, hy]
      exact matches_error hfault
    · rw [hx, hy]
      refine matches_ok ⟨rfl, ?_⟩
      rintro x ⟨⟩
      exact ⟨lexeme, rfl, rfl⟩

/-- Two readings that find the same literal. -/
theorem Literal.read?_matches (hliteral : d.rest.take (width d.rest) = c.rest.take (width c.rest))
    (hfault : ∀ what, F (c.fault what) (d.fault what)) (hsymbol : F .unknownSymbol .unknownSymbol) :
    Matches F (fun a b => a = b ∧ ∀ lexeme ∈ a, lexeme.width = width c.rest) (read? c) (read? d) := by
  have hwidth : width d.rest = width c.rest := by
    have hlength := congrArg List.length hliteral
    rwa [List.length_take_of_le (width_le _), List.length_take_of_le (width_le _)] at hlength
  unfold Literal.read?
  by_cases hpos : 0 < width c.rest
  · rw [dif_pos hpos, dif_pos (hwidth ▸ hpos), hliteral]
    unfold Literal.emit
    cases StoredNumber.encode (value (c.rest.take (width c.rest))) with
    | error _ => exact matches_error (hfault _)
    | ok stored =>
      dsimp only
      cases (c.rest.take (width c.rest)).mapM fun x => Token.ofCharacter? [x] with
      | none => exact matches_error hsymbol
      | some characters =>
        refine matches_ok ⟨by simp only [hwidth], ?_⟩
        rintro lexeme ⟨⟩
        rfl
  · rw [dif_neg hpos, dif_neg (hwidth ▸ hpos)]
    exact matches_ok ⟨rfl, by rintro _ ⟨⟩⟩

end SamePiece

/-! ## Two readings in front of the same texts -/

namespace Pairing

/-- Two readings stand in front of the same shut texts, and what is noted at related places is related. -/
structure SharesText (p : Pairing) : Prop where
  share {c d : Cursor} : p.Cursors c d → ∃ u w w', Cursor.Share u w w' c d ∧
    ∀ k ≤ u.length, p.Cursors (c.advance k) (d.advance k)
  place {c d : Cursor} : p.Cursors c d → p.Places c.position d.position
  complaint {c d : Cursor} {s t : Position} (what : Complaint) : p.Cursors c d → p.Places s t →
    p.Faults (c.faultAt s what) (d.faultAt t what)
  unreadable {s t : Position} (path cause : List Char) : p.Places s t →
    p.Faults (.unreadable path cause s) (.unreadable path cause t)
  unknownSymbol : p.Faults .unknownSymbol .unknownSymbol
  numeralTooLong : p.Faults .numeralTooLong .numeralTooLong
  name (name : List Char) : p.Names name name
  journal (events events' : Journal) : p.Journals events events'

namespace SharesText

variable {p : Pairing} (h : p.SharesText) {c d : Cursor}

include h

/-- What is measured inside every shut text. -/
theorem measure {α : Type} {f : List Char → α} {g : α → Nat}
    (hf : ∀ {u : List Char}, Text.isShut u = true → ∀ v, f (u ++ '\n' :: v) = f u ∧ g (f u) ≤ u.length)
    (hc : p.Cursors c d) :
    f d.rest = f c.rest ∧ p.Cursors (c.advance (g (f c.rest))) (d.advance (g (f c.rest))) := by
  obtain ⟨u, w, w', hshare, hadvance⟩ := h.share hc
  obtain ⟨hx, hy⟩ := hshare.measure fun v => (hf hshare.shut v).1
  rw [hx, hy]
  exact ⟨rfl, hadvance _ (hf hshare.shut []).2⟩

/-- The same where nothing may be found. -/
theorem measure? {α : Type} {f : List Char → Option α} {g : α → Nat}
    (hf : ∀ {u : List Char}, Text.isShut u = true → ∀ v, f (u ++ '\n' :: v) = f u ∧
      ∀ x ∈ f u, g x ≤ u.length)
    (hc : p.Cursors c d) :
    f d.rest = f c.rest ∧ ∀ x ∈ f c.rest, p.Cursors (c.advance (g x)) (d.advance (g x)) := by
  obtain ⟨u, w, w', hshare, hadvance⟩ := h.share hc
  obtain ⟨hx, hy⟩ := hshare.measure fun v => (hf hshare.shut v).1
  rw [hx, hy]
  exact ⟨rfl, fun x hmem => hadvance _ ((hf hshare.shut []).2 x hmem)⟩

/-- A length that is measured inside every shut text. -/
theorem sees {f : List Char → Nat}
    (hf : ∀ {u : List Char}, Text.isShut u = true → ∀ v, f (u ++ '\n' :: v) = f u ∧ f u ≤ u.length) :
      p.Sees f :=
  fun hc => h.measure (g := id) hf hc

theorem fault (what : Complaint) (hc : p.Cursors c d) : p.Faults (c.fault what) (d.fault what) :=
  h.complaint what hc (h.place hc)

theorem code (files : FileReader) (hc : p.Cursors c d) :
    Matches p.Faults (p.FollowsAny c d) (SpecialCode.read? files c) (SpecialCode.read? files d) := by
  obtain ⟨hscan, hnext⟩ := h.measure? (fun hu v => SpecialCode.scan?_shut hu v) hc
  refine (SpecialCode.read?_matches hscan (fun what => h.fault what hc) h.numeralTooLong fun path cause =>
    h.unreadable path cause (h.place hc)).mono ?_
  rintro found _ ⟨rfl, hwidth⟩
  refine ⟨rfl, fun lexeme hlexeme => ?_⟩
  obtain ⟨scanned, hscanned, heq⟩ := hwidth lexeme hlexeme
  exact heq ▸ hnext scanned hscanned

theorem token (context : Context) (hc : p.Cursors c d) : Matches p.Faults (p.FollowsAny c d)
    ((Grammar.ofContext context).read? c) ((Grammar.ofContext context).read? d) := by
  obtain ⟨u, w, w', hshare, hadvance⟩ := h.share hc
  obtain ⟨hsame, hwithin⟩ := Grammar.read?_share context hshare
  rw [hsame]
  cases hread : (Grammar.ofContext context).read? c with
  | error fault =>
    obtain rfl := Grammar.error_of_read? hread
    exact matches_error h.unknownSymbol
  | ok token =>
    refine matches_ok ⟨rfl, ?_⟩
    rintro lexeme rfl
    exact hadvance _ (hwithin lexeme hread)

theorem literal (hc : p.Cursors c d) :
    Matches p.Faults (p.FollowsAny c d) (Literal.read? c) (Literal.read? d) := by
  obtain ⟨hliteral, hnext⟩ := h.measure (f := fun text => text.take (Literal.width text)) (g := List.length)
    (fun {u} _ v => by
      have hle := Literal.width_le u
      rw [Literal.width_append_cons u v (by decide), Text.take_lineEnd hle, List.length_take_of_le hle]
      exact ⟨rfl, hle⟩) hc
  rw [List.length_take_of_le (Literal.width_le _)] at hnext
  refine (Literal.read?_matches hliteral (fun what => h.fault what hc) h.unknownSymbol).mono ?_
  rintro found _ ⟨rfl, hwidth⟩
  refine ⟨rfl, fun lexeme hlexeme => ?_⟩
  rw [hwidth lexeme hlexeme]
  exact hnext

/-- The next characters of a class without the line end. -/
theorem takeWhile {q : Char → Bool} (hq : q '\n' = false) (hc : p.Cursors c d) :
    d.rest.takeWhile q = c.rest.takeWhile q ∧
      p.Cursors (c.advance (c.rest.takeWhile q).length) (d.advance (c.rest.takeWhile q).length) :=
  h.measure (g := List.length) (fun _ v => ⟨Text.takeWhile_lineEnd hq _ v, Text.countWhile_le q _⟩) hc

/-- The next character, and how the readings go on behind it. -/
theorem peek (hc : p.Cursors c d) : d.peek = c.peek ∧
    (c.peek ≠ '\n' → p.Cursors (c.advance 1) (d.advance 1)) := by
  obtain ⟨u, w, w', hshare, hadvance⟩ := h.share hc
  obtain ⟨hx, hy⟩ := hshare.measure (f := fun text => text.headD '\n') fun v => by cases u <;> rfl
  have hpeek : c.peek = u.headD '\n' := hx
  refine ⟨hy.trans hx.symm, fun hne => hadvance 1 ?_⟩
  cases u with
  | nil => exact absurd hpeek hne
  | cons x u => simp

/-- **Lines.** Two readings in front of the same shut texts keep in step. -/
theorem readsPieces (files : FileReader) (filename : List Char) : p.ReadsPieces files filename where
  place := h.place
  complaint := h.complaint
  numeralTooLong := h.numeralTooLong
  silent _ := h.journal _ _
  append _ _ := h.journal _ _
  peek hc _ := by rw [(h.peek hc).1]
  quote hc hquote := (h.peek hc).2 (by rw [hquote]; decide)
  spacing hc := h.takeWhile (q := Text.isSpacing) rfl hc |>.imp_left (congrArg List.length)
  joinedSpacing := h.sees Cursor.joinedSpacingWidth_shut
  continuation := h.sees Cursor.continuationWidth_shut
  digits hc := h.takeWhile rfl hc
  code := h.code files
  token := h.token
  literal := h.literal
  name _ _ := h.journal _ _

end SharesText

end Pairing

/-! ## Readings of the same line -/

/-- The line that a fault is about, if it has a place. -/
def Fault.line? : Fault → Option Nat
  | .complaint _ _ place => some place.line
  | .unreadable _ _ place => some place.line
  | .unknownSymbol => none
  | .numeralTooLong => none

/-- The fault lies in this line, if it has a place at all. -/
def Fault.InLine (line : Nat) (fault : Fault) : Prop := ∀ n ∈ fault.line?, n = line

/-- Two readings of the same contained line come to the same fault in it. -/
def sameLine (line : Nat) (v v' : List Char) : Pairing where
  Cursors := Cursor.Alike line v v'
  Places s t := s = t ∧ s.line = line
  Names := Eq
  Faults f g := f = g ∧ f.InLine line
  Journals _ _ := True

/-- **Contained lines.** What is read of a contained line does not depend on the text behind it. -/
theorem sharesText_sameLine (line : Nat) (v v' : List Char) : (sameLine line v v').SharesText where
  share {c d} hc := by
    obtain ⟨u, column, hu⟩ := hc
    refine ⟨u, _, _, ⟨Text.isShut_of_isContained hu, .inl ⟨v, rfl⟩, .inl ⟨v', rfl⟩, rfl, rfl⟩,
      fun k hk => ?_⟩
    refine (Cursor.Alike.intro u column hu).advance ?_
    rwa [Cursor.span, Text.countWhile, Cursor.takeWhile_line (Text.lineEnd_not_mem hu)]
  place hc := ⟨hc.position, hc.line_eq⟩
  complaint what hc hs := by
    obtain ⟨rfl, hline⟩ := hs
    rw [Cursor.faultAt, Cursor.faultAt, hc.snippet]
    refine ⟨rfl, ?_⟩
    rintro n ⟨⟩
    exact hline
  unreadable path cause hs := by
    obtain ⟨rfl, hline⟩ := hs
    refine ⟨rfl, ?_⟩
    rintro n ⟨⟩
    exact hline
  unknownSymbol := ⟨rfl, nofun⟩
  numeralTooLong := ⟨rfl, nofun⟩
  name _ := rfl
  journal _ _ := trivial

end TapeBasic
