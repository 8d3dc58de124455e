import TapeBasic.Proofs.ItemTexts

/-!
# In front of an opening bracket

A reader that comes to an opening bracket, and goes on from there, has not looked behind it: whatever text follows the
bracket, it would have come there in the same way. A spelling has an opening bracket at its start at most, where no
bracketed word starts; a bracketed code ends with a closing bracket; and an opening bracket is no part of a number, of
spacing, of a keyword or of a literal.

* `Text.opensName`: the spellings that are read in front of a bracket, and apart from the bracketed words.
* `Cursor.Ahead u v v' c d`: two cursors in front of `u` and an opening bracket, with the texts `v` and `v'` behind it.
* `Pairing.anywhere`: two readings that are compared by what they come to, wherever they stand.

Results:
* `Cursor.continuationWidth_bracket`, `Grammar.read?_bracket`, `SpecialCode.stays_bracket`: single pieces.
* `Cursor.Ahead.readLetters`, `Cursor.Ahead.piece`: a piece that ends in front of the bracket.
* `Cursor.Ahead.readNumber`, `Cursor.Ahead.readSpacing`, `Cursor.Ahead.readCommand`: the start of a line.
* `Cursor.Ahead.head`: the start of a directive.
-/
namespace TapeBasic

/-! ## Spellings -/

namespace Text

/-- A character that starts neither a comment nor a word behind an opening bracket. -/
def isNameStart (c : Char) : Bool := !sameLetter '#' c && !sameLetter '!' c

/-- Whether there are letters, only the first of them is an opening bracket, if any, and then the next one starts no
bracketed word. -/
def opensName : List Char → Bool
  | [] => false
  | a :: word => word.all (fun b => !sameLetter b '[') && (!sameLetter a '[' || word.head?.any isNameStart)

theorem isNameStart_of_sameLetter {a b : Char} (ha : isNameStart a = true) (h : sameLetter a b = true) :
    isNameStart b = true := by
  rw [sameLetter, beq_iff_eq] at h
  simpa only [isNameStart, sameLetter, h] using ha

end Text

/-- In front of a bracket that the pattern does not reach, nothing but the text in front of it is looked at. -/
theorem Pattern.accepts_bracket {p : Pattern} (hp : Text.opensName p.letters = true) {u : List Char} (hu : u ≠ [])
    (v : List Char) : p.accepts (u ++ '[' :: v) = p.accepts u := by
  have hends : ∀ after : List Char, endsAt p.ending (after ++ '[' :: v) = endsAt p.ending after := by
    intro after
    cases after with
    | nil => cases p.ending <;> rfl
    | cons x after => rfl
  obtain ⟨x, u, rfl⟩ := List.exists_cons_of_ne_nil hu
  unfold accepts
  cases hletters : p.letters with
  | nil =>
    rw [hletters] at hp
    cases hp
  | cons a word =>
    rw [hletters, Text.opensName, Bool.and_eq_true] at hp
    have hword : ∀ b ∈ word, Text.sameLetter b '[' = false := by simpa using hp.1
    rw [List.cons_append, Text.startsWithLetters, Text.startsWithLetters, Text.startsWithLetters_stop u v hword]
    cases hstarts : Text.startsWithLetters word u with
    | false => simp
    | true =>
      have hle := Text.length_le_of_startsWithLetters hstarts
      rw [List.length_cons, List.drop_succ_cons, List.drop_succ_cons, List.drop_append_of_le_length hle, hends]

namespace Grammar

/-- Whether every spelling of the table is read in front of a bracket, and apart from the bracketed words. -/
def opensTable (symbols : List (List Char × UInt8)) : Bool :=
  symbols.all fun s => Text.opensName (Pattern.ofSymbol lineEndingSymbols s.1).letters

theorem opensTable_statement : opensTable statementSymbols = true := by
  rw [statementSymbols_eq]
  decide +kernel

theorem opensTable_remark : opensTable remarkSymbols = true := by
  rw [remarkSymbols_eq]
  decide +kernel

theorem exists_table (context : Context) : ∃ symbols, isTidyTable symbols = true ∧ opensTable symbols = true ∧
    ofContext context = ofSymbols symbols := by
  cases context with
  | statement => exact ⟨_, statement_checked.1, opensTable_statement, rfl⟩
  | remark | quotation => exact ⟨_, remark_checked.1, opensTable_remark, rfl⟩

section Table

variable {symbols : List (List Char × UInt8)} (hopens : opensTable symbols = true)

include hopens

theorem width?_bracket {u : List Char} (hu : u ≠ []) (v : List Char) :
    (ofSymbols symbols).width? (u ++ '[' :: v) = (ofSymbols symbols).width? u :=
  width?_congr fun s hs => Pattern.accepts_bracket (List.all_eq_true.mp hopens s hs) hu v

/-- A spelling with a bracket at its start goes on with something that starts no bracketed word. -/
theorem isNameStart_of_width? (htidy : isTidyTable symbols = true) {t : List Char} {matched : Nat}
    (h : (ofSymbols symbols).width? ('[' :: t) = some matched) : t.head?.any Text.isNameStart = true := by
  obtain ⟨⟨s, hs, haccepts, -⟩, -⟩ := (longest?_table htidy).mp h
  have hname := List.all_eq_true.mp hopens s hs
  have hstarts := (Bool.and_eq_true_iff.mp haccepts).1
  cases hletters : (Pattern.ofSymbol lineEndingSymbols s.1).letters with
  | nil =>
    rw [hletters] at hname
    cases hname
  | cons a word =>
    rw [hletters, Text.opensName, Bool.and_eq_true] at hname
    rw [hletters, Text.startsWithLetters, Bool.and_eq_true] at hstarts
    have hnext : word.head?.any Text.isNameStart = true := by simpa [hstarts.1] using hname.2
    cases word with
    | nil => cases hnext
    | cons b word =>
      cases t with
      | nil => cases hstarts.2
      | cons x t => exact Text.isNameStart_of_sameLetter hnext (Bool.and_eq_true_iff.mp hstarts.2).1

end Table

/-- **Tokens.** In front of a bracket, a token is read as if nothing followed. -/
theorem read?_bracket (context : Context) {c : Cursor} {u v : List Char} (hu : u ≠ []) (hc : c.rest = u ++ '[' :: v) :
    (ofContext context).read? c = (ofContext context).read? (Cursor.start u) := by
  obtain ⟨symbols, htidy, hopens, hg⟩ := exists_table context
  have hpeek : c.peek = (Cursor.start u).peek := by
    obtain ⟨x, u, rfl⟩ := List.exists_cons_of_ne_nil hu
    rw [Cursor.peek, hc]
    rfl
  have hrest : (Cursor.start u).rest = u := rfl
  refine read?_congr ?_
  unfold scan?
  rw [hg, hpeek, hc, hrest, width?_bracket hopens hu]
  cases hwidth : (ofSymbols symbols).width? u with
  | none => rfl
  | some matched =>
    dsimp only
    rw [List.take_append_of_le_length (width?_le htidy hwidth)]

theorem isNameStart_of_read? {context : Context} {c : Cursor} {t : List Char} {lexeme : Lexeme UInt8}
    (hc : c.rest = '[' :: t) (h : (ofContext context).read? c = .ok (some lexeme)) :
    t.head?.any Text.isNameStart = true := by
  obtain ⟨symbols, htidy, hopens, hg⟩ := exists_table context
  obtain ⟨-, matched, hwidth, -⟩ := exists_of_read? h
  rw [hg, hc] at hwidth
  exact isNameStart_of_width? hopens htidy hwidth

end Grammar

/-! ## Bracketed codes -/

namespace SpecialCode

theorem comment?_eq_none {t : List Char} (h : t.head? ≠ some '#') : comment? t = none := by
  unfold comment?
  split
  · exact absurd rfl h
  · rfl

/-- What stands behind an opening bracket in front of another one is a code that closes there, or none. -/
theorem stays_bracket {t : List Char} (h : ']' ∈ t ∨ t.head?.any Text.isNameStart = true) (v : List Char) :
    Stays behindBracket? t ('[' :: v) := by
  rcases h with ht | hname
  · exact stays_closed ht _
  · obtain ⟨x, t, rfl⟩ : ∃ x rest, t = x :: rest := by
      cases t with
      | nil => cases hname
      | cons x rest => exact ⟨x, rest, rfl⟩
    have hx : Text.sameLetter '#' x = false ∧ Text.sameLetter '!' x = false := by
      simpa [Text.isNameStart] using hname
    have hcomment : ∀ w : List Char, comment? (x :: w) = none := fun w => by
      refine comment?_eq_none ?_
      rintro ⟨⟩
      cases hx.1
    have hmark : ∀ w : List Char, (x :: w).head?.any (Text.sameLetter '!') = false := fun _ => hx.2
    exact (stays_of_eq_none (hcomment _) (hcomment _)).orElse
      ((stays_byte? (.inr ⟨'[', v, rfl, by decide, rfl⟩)).orElse
        ((stays_of_eq_none (worded?_eq_none _ rfl (hmark _)) (worded?_eq_none _ rfl (hmark _))).orElse
          (stays_of_eq_none (worded?_eq_none _ rfl (hmark _)) (worded?_eq_none _ rfl (hmark _)))))

/-- A code that takes no more than a text closes in it. -/
theorem closes_of_scan? {t w : List Char} {lexeme : Lexeme SpecialCode} (h : scan? ('[' :: (t ++ w)) = some lexeme)
    (hwidth : lexeme.width ≤ t.length + 1) : ']' ∈ t := by
  obtain ⟨x, hx, rfl⟩ := Option.map_eq_some_iff.mp h
  obtain ⟨k, hk, hhead⟩ := endsShut_behindBracket? (t ++ w) x hx
  have hlt : k < t.length := by
    dsimp only at hwidth
    omega
  rw [List.head?_drop, List.getElem?_append_left hlt] at hhead
  exact List.mem_of_getElem? hhead

end SpecialCode

/-! ## Two cursors in front of a bracket -/

namespace Cursor

/-- Two cursors in front of the same text and an opening bracket, with different texts behind the bracket. -/
structure Ahead (u v v' : List Char) (c d : Cursor) : Prop where
  rest : c.rest = u ++ '[' :: v
  rest' : d.rest = u ++ '[' :: v'

/-- A continuation is read in front of a bracket. -/
theorem continuationWidth_bracket (u v : List Char) :
    continuationWidth (u ++ '[' :: v) = continuationWidth u ∧ continuationWidth u ≤ u.length := by
  cases u with
  | nil => exact ⟨rfl, Nat.le_refl _⟩
  | cons x u =>
    by_cases hx : x = '\\'
    · subst hx
      have hcount := Text.countWhile_le Text.isSpacing u
      rw [List.cons_append, continuationWidth, continuationWidth, Text.countWhile_stop rfl,
        List.drop_append_of_le_length hcount]
      cases hbehind : u.drop (Text.countWhile Text.isSpacing u) with
      | nil => exact ⟨rfl, Nat.zero_le _⟩
      | cons y rest =>
        refine ⟨rfl, ?_⟩
        have hlength := congrArg List.length hbehind
        rw [List.length_drop, List.length_cons] at hlength
        split
        · rw [List.length_cons]
          omega
        · exact Nat.zero_le _
    · simp [continuationWidth, hx]

theorem exists_of_advance {c : Cursor} {k : Nat} {u v : List Char} (h : (c.advance k).rest = u ++ '[' :: v) :
    c.rest = (c.rest.take k ++ u) ++ '[' :: v := by
  rw [List.append_assoc, ← h, rest_advance, List.take_append_drop]

namespace Ahead

variable {u v v' : List Char} {c d : Cursor} {files : FileReader}

theorem advance (h : Ahead u v v' c d) {k : Nat} (hk : k ≤ u.length) :
    Ahead (u.drop k) v v' (c.advance k) (d.advance k) where
  rest := by rw [rest_advance, h.rest, List.drop_append_of_le_length hk]
  rest' := by rw [rest_advance, h.rest', List.drop_append_of_le_length hk]

/-- A cursor that still stands in front of the bracket has not gone beyond it. -/
theorem le_length (h : Ahead u v v' c d) {k : Nat} {u' : List Char} (hk : (c.advance k).rest = u' ++ '[' :: v) :
    k ≤ u.length := by
  have hlength := congrArg List.length hk
  rw [rest_advance, h.rest, List.length_drop, List.length_append, List.length_append, List.length_cons] at hlength
  omega

/-- What is measured in front of the bracket. -/
theorem measure {α : Type} (h : Ahead u v v' c d) {f : List Char → α} (hf : ∀ v, f (u ++ '[' :: v) = f u) :
    f d.rest = f c.rest := by
  rw [h.rest, h.rest', hf, hf]

theorem peek (h : Ahead u v v' c d) : d.peek = c.peek := by
  rw [Cursor.peek, Cursor.peek, h.rest, h.rest']
  cases u <;> rfl

theorem skipContinuation (h : Ahead u v v' c d) :
    Ahead (u.drop (continuationWidth u)) v v' c.skipContinuation d.skipContinuation := by
  have hwidth := continuationWidth_bracket u
  rw [Cursor.skipContinuation, Cursor.skipContinuation, h.rest, h.rest', (hwidth v).1, (hwidth v').1]
  exact h.advance (hwidth v).2

end Ahead

end Cursor

/-! ## Pieces in front of a bracket -/

/-- Two readings that are compared by what they come to, wherever they stand. -/
def anywhere : Pairing where
  Cursors _ _ := True
  Places _ _ := True
  Names _ _ := True
  Faults _ _ := True
  Journals _ _ := True

/-- At a bracket, a piece of a line is what it would be where letters stand for themselves, as far as its width goes. -/
theorem Body.exists_letters_of_piece {files : FileReader} {mode : Mode} {c : Cursor} {lexeme : Lexeme Piece}
    {text : List Char} (hc : c.rest = '[' :: text) (h : piece files mode c = .ok lexeme) :
    ∃ context letters, readLetters files context c = .ok letters ∧ letters.width = lexeme.width := by
  obtain ⟨hquote, hwidth⟩ := starts_bracket hc
  cases piece_eq_ok_iff.mp h with
  | remark hletters | string hletters => exact ⟨_, _, hletters, rfl⟩
  | opening hopening => exact absurd hopening hquote
  | literal _ hliteral =>
    have hzero := (Literal.of_read? hliteral).1.trans hwidth
    exact absurd hzero (Nat.ne_of_gt (Lexeme.positive _))
  | code _ _ hcode => exact ⟨.statement, _, readLetters_eq_ok_iff.mpr (.inl hcode), rfl⟩
  | token _ _ hcode htoken =>
    exact ⟨.statement, _, readLetters_eq_ok_iff.mpr (.inr ⟨hcode, _, htoken, rfl⟩), rfl⟩

namespace Cursor.Ahead

variable {u v v' : List Char} {c d : Cursor} {files : FileReader} (h : Ahead u v v' c d)

include h

/-- **Pieces.** In front of a bracket the two readings see the same piece, if they see the same code. -/
theorem readsPiece (hu : u ≠ []) (hscan : SpecialCode.scan? d.rest = SpecialCode.scan? c.rest) :
    anywhere.ReadsPiece files c d where
  fault _ := trivial
  peek := by rw [h.peek]
  quote _ := trivial
  code := by
    refine (SpecialCode.read?_matches hscan (fun _ => trivial) trivial fun _ _ => trivial).mono ?_
    rintro found _ ⟨rfl, -⟩
    exact ⟨rfl, fun _ _ => trivial⟩
  token context := by
    rw [Grammar.read?_bracket context hu h.rest, Grammar.read?_bracket context hu h.rest']
    exact matches_self (fun _ => trivial) fun found _ => ⟨rfl, fun _ _ => trivial⟩
  literal := by
    have hliteral := h.measure (f := fun text => text.take (Literal.width text)) fun v => by
      rw [Literal.width_append_cons u v (by decide), List.take_append_of_le_length (Literal.width_le u)]
    refine (Literal.read?_matches hliteral (fun _ => trivial) trivial).mono ?_
    rintro found _ ⟨rfl, -⟩
    exact ⟨rfl, fun _ _ => trivial⟩

/-- The two readings see the same code, if one that starts in front of the bracket ends there. -/
theorem scan?_eq (hu : u ≠ []) (hread : ∀ t, u = '[' :: t → ∃ context lexeme,
      readLetters files context c = .ok lexeme ∧ lexeme.width ≤ u.length) :
    SpecialCode.scan? d.rest = SpecialCode.scan? c.rest := by
  rw [h.rest, h.rest']
  obtain ⟨x, t, rfl⟩ := List.exists_cons_of_ne_nil hu
  by_cases hx : x = '['
  · subst hx
    obtain ⟨context, lexeme, hlexeme, hwidth⟩ := hread t rfl
    have hclosed : ']' ∈ t ∨ t.head?.any Text.isNameStart = true := by
      rcases readLetters_eq_ok_iff.mp hlexeme with hcode | ⟨-, token, htoken, -⟩
      · obtain ⟨code, hscan, -, hsame⟩ := SpecialCode.exists_of_read? hcode
        rw [h.rest] at hscan
        exact .inl (SpecialCode.closes_of_scan? hscan (hsame ▸ hwidth))
      · rw [Grammar.read?_bracket context hu h.rest] at htoken
        exact .inr (Grammar.isNameStart_of_read? rfl htoken)
    rw [List.cons_append, List.cons_append, (SpecialCode.scan?_of_stays (SpecialCode.stays_bracket hclosed v)).1,
      (SpecialCode.scan?_of_stays (SpecialCode.stays_bracket hclosed v')).1]
  · rw [SpecialCode.scan?_eq_none_of_head (by simpa using hx), SpecialCode.scan?_eq_none_of_head (by simpa using hx)]

/-- **Letters.** What is read in front of the bracket, where letters stand for themselves. -/
theorem readLetters {context : Context} {lexeme : Lexeme Emission} (hread : readLetters files context c = .ok lexeme)
    (hwidth : lexeme.width ≤ u.length) : TapeBasic.readLetters files context d = .ok lexeme := by
  have hu : u ≠ [] := List.ne_nil_of_length_pos (Nat.lt_of_lt_of_le lexeme.positive hwidth)
  have hscan := h.scan?_eq hu fun _ _ => ⟨context, lexeme, hread, hwidth⟩
  obtain ⟨_, hread', rfl, -⟩ := ((h.readsPiece hu hscan).readLetters context).of_ok hread
  exact hread'

/-- **Pieces.** What is read in front of the bracket. -/
theorem piece {mode : Body.Mode} {lexeme : Lexeme Body.Piece} (hread : Body.piece files mode c = .ok lexeme)
    (hwidth : lexeme.width ≤ u.length) : Body.piece files mode d = .ok lexeme := by
  have hu : u ≠ [] := List.ne_nil_of_length_pos (Nat.lt_of_lt_of_le lexeme.positive hwidth)
  have hletters : ∀ t, u = '[' :: t → ∃ context letters,
      TapeBasic.readLetters files context c = .ok letters ∧ letters.width ≤ u.length := by
    intro t ht
    obtain ⟨context, letters, hletters, hsame⟩ := Body.exists_letters_of_piece (by rw [h.rest, ht]; rfl) hread
    exact ⟨context, letters, hletters, hsame ▸ hwidth⟩
  have hscan := h.scan?_eq hu hletters
  obtain ⟨_, hread', rfl, -⟩ := ((h.readsPiece hu hscan).piece mode).of_ok hread
  exact hread'

/-! ### Starts of lines and directives -/

theorem readNumber {n : Nat} {next : Cursor} (hread : Line.readNumber c = .ok (n, next)) :
    ∃ w next', Line.readNumber d = .ok (n, next') ∧ Ahead w v v' next next' := by
  have hdigits : ∀ v, (u ++ '[' :: v).takeWhile Text.isDecimal = u.takeWhile Text.isDecimal :=
    Text.takeWhile_stop rfl u
  have hadvance := h.advance (List.takeWhile_prefix (p := Text.isDecimal) (l := u)).length_le
  rw [Line.readNumber_eq_ok_iff, h.rest, hdigits] at hread
  obtain ⟨hne, hvalue, hmax, rfl⟩ := hread
  refine ⟨_, _, ?_, hadvance⟩
  rw [Line.readNumber_eq_ok_iff, h.rest', hdigits]
  exact ⟨hne, hvalue, hmax, rfl⟩

theorem readSpacing {next : Cursor} (hread : Line.readSpacing c = .ok next) :
    ∃ w next', Line.readSpacing d = .ok next' ∧ Ahead w v v' next next' := by
  have hwidth : ∀ v, Cursor.joinedSpacingWidth (u ++ '[' :: v) = Cursor.joinedSpacingWidth u ∧
      Cursor.joinedSpacingWidth u ≤ u.length := fun v =>
    Cursor.joinedSpacingWidth_stop rfl fun k => Cursor.continuationWidth_bracket (u.drop k) v
  have hadvance := h.advance (hwidth v).2
  rw [Line.readSpacing_eq_ok_iff, h.rest, (hwidth v).1] at hread
  obtain ⟨hne, rfl⟩ := hread
  refine ⟨_, _, ?_, hadvance⟩
  rw [Line.readSpacing_eq_ok_iff, h.rest', (hwidth v').1]
  exact ⟨hne, rfl⟩

theorem readCommand {command : UInt8} {next : Cursor} (hread : Line.readCommand c = .ok (command, next))
    {u' : List Char} (hnext : next.rest = u' ++ '[' :: v) :
    ∃ w next', Line.readCommand d = .ok (command, next') ∧ Ahead w v v' next next' := by
  obtain ⟨token, htoken, hvalue, hcommand, rfl⟩ := Line.readCommand_eq_ok_iff.mp hread
  have hwidth := h.le_length hnext
  have hu : u ≠ [] := List.ne_nil_of_length_pos (Nat.lt_of_lt_of_le token.positive hwidth)
  have hsame : Grammar.statement.read? d = Grammar.statement.read? c :=
    (Grammar.read?_bracket .statement hu h.rest').trans (Grammar.read?_bracket .statement hu h.rest).symm
  exact ⟨_, _, Line.readCommand_eq_ok_iff.mpr ⟨token, hsame ▸ htoken, hvalue, hcommand, rfl⟩,
    h.advance hwidth⟩

/-- The start of a directive is read in front of the bracket. -/
theorem head {u' : List Char} (hstart : Assembly.startsDirective c.rest = true)
    (hbehind : (c.advance (Directive.head c.rest).width).rest = u' ++ '[' :: v) :
    Assembly.startsDirective u = true ∧ Directive.head d.rest = Directive.head c.rest ∧
      (Directive.head c.rest).width ≤ u.length := by
  have hwidth := h.le_length hbehind
  have hu : 2 ≤ u.length := Nat.le_trans (Directive.two_le_width_head c.rest) hwidth
  obtain ⟨x, y, rest, rfl⟩ : ∃ x y rest, u = x :: y :: rest := by
    match u with
    | [] | [_] =>
      simp only [List.length_nil, List.length_singleton] at hu
      omega
    | x :: y :: rest => exact ⟨x, y, rest, rfl⟩
  have hstop : Directive.isStop '[' = true := by decide
  rcases Directive.head_stop hstop hu with ⟨hsame, -⟩ | ⟨-, hlt⟩
  · refine ⟨?_, by rw [h.rest, h.rest', hsame, hsame], hwidth⟩
    obtain ⟨behind, hbehind⟩ := Assembly.startsDirective_iff.mp hstart
    cases h.rest.symm.trans hbehind
    rfl
  · rw [h.rest] at hwidth
    exact absurd (hlt v) (Nat.not_lt_of_le hwidth)

end Cursor.Ahead

end TapeBasic
