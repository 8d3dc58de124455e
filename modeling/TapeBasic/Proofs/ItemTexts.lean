import TapeBasic.Proofs.ReadingFaults

/-!
# What a reading takes

Whatever is read of a listing is a closed text: no bracketed word is left open in it, and no backslash at its end. So
the text that an item takes may stand in front of any other text behind a line end, and is read there as before.

* `Text.isClosed`: the texts out of which nothing reaches.
* `Cursor.Through c d`: from `c` to `d` a closed text is read.

Results:
* `Grammar.isClosed_read?`, `SpecialCode.isClosed_read?`, `Literal.isClosed_read?`: single pieces.
* `through_readLine`, `Directive.through_read`: lines and directives.
-/
namespace TapeBasic

namespace Text

/-- Whether nothing in a text reaches behind its end: behind an opening bracket stands a closing one, or at least
something that announces no bracketed word, and behind a backslash something other than spacing. -/
def isClosed : List Char → Bool
  | [] => true
  | c :: rest =>
    (c != '[' || rest.contains ']' || rest.head?.any fun x => !sameLetter '!' x) &&
      (c != '\\' || !rest.all isSpacing) && isClosed rest

theorem isShut_of_isClosed {u : List Char} (h : isClosed u = true) : isShut u = true := by
  induction u with
  | nil => rfl
  | cons c rest ih =>
    simp only [isClosed, Bool.and_eq_true, Bool.or_eq_true] at h
    obtain ⟨⟨hbracket, hbackslash⟩, hrest⟩ := h
    simp only [isShut, Bool.and_eq_true, Bool.or_eq_true]
    refine ⟨⟨hbracket.imp_right fun hnext => ?_, hbackslash⟩, ih hrest⟩
    cases rest with
    | nil => cases hnext
    | cons x rest => exact hnext

theorem isClosed_append {u v : List Char} (hu : isClosed u = true) (hv : isClosed v = true) :
    isClosed (u ++ v) = true := by
  induction u with
  | nil => exact hv
  | cons c u ih =>
    simp only [isClosed, Bool.and_eq_true, Bool.or_eq_true] at hu
    obtain ⟨⟨hbracket, hbackslash⟩, hrest⟩ := hu
    simp only [List.cons_append, isClosed, Bool.and_eq_true, Bool.or_eq_true]
    refine ⟨⟨?_, ?_⟩, ih hrest⟩
    · rcases hbracket with (hc | hmem) | hnext
      · exact .inl (.inl hc)
      · rw [List.contains_iff_mem] at hmem ⊢
        exact .inl (.inr (List.mem_append_left v hmem))
      · cases u with
        | nil => cases hnext
        | cons x u => exact .inr hnext
    · rw [List.all_append, Bool.not_and, Bool.or_eq_true]
      exact hbackslash.imp_right .inl

/-- A text without brackets and backslashes. -/
theorem isClosed_of_plain {u : List Char} (h : ∀ c ∈ u, c ≠ '[' ∧ c ≠ '\\') : isClosed u = true := by
  induction u with
  | nil => rfl
  | cons c u ih =>
    obtain ⟨⟨hbracket, hbackslash⟩, hrest⟩ := List.forall_mem_cons.mp h
    simp [isClosed, hbracket, hbackslash, ih hrest]

/-- A text up to a closing bracket. -/
theorem isClosed_concat (u : List Char) : isClosed (u ++ [']']) = true := by
  induction u with
  | nil => decide
  | cons c u ih =>
    have hspacing : (u ++ [']']).all isSpacing = false := by simp [isSpacing]
    simp [isClosed, ih, hspacing]

/-- A class without brackets and backslashes. -/
theorem isClosed_takeWhile {p : Char → Bool} (hbracket : p '[' = false) (hbackslash : p '\\' = false)
    (text : List Char) : isClosed (text.takeWhile p) = true := by
  refine isClosed_of_plain fun c hc => ?_
  have hp := mem_takeWhile c hc
  constructor <;> rintro rfl <;> simp_all

end Text

/-! ## Pieces -/

namespace Cursor

/-- From one cursor to another one a closed text is read. -/
def Through (c d : Cursor) : Prop := ∃ u, c.rest = u ++ d.rest ∧ Text.isClosed u = true

theorem Through.refl (c : Cursor) : c.Through c := ⟨[], rfl, rfl⟩

theorem Through.trans {c d e : Cursor} (h : c.Through d) (h' : d.Through e) : c.Through e := by
  obtain ⟨u, hu, hclosed⟩ := h
  obtain ⟨v, hv, hclosed'⟩ := h'
  exact ⟨u ++ v, by rw [hu, hv, List.append_assoc], Text.isClosed_append hclosed hclosed'⟩

theorem through_advance {c : Cursor} {k : Nat} (h : Text.isClosed (c.rest.take k) = true) :
    c.Through (c.advance k) := ⟨c.rest.take k, by rw [rest_advance, List.take_append_drop], h⟩

theorem through_takeWhile (c : Cursor) {p : Char → Bool} (hbracket : p '[' = false) (hbackslash : p '\\' = false) :
    c.Through (c.advance (c.rest.takeWhile p).length) := by
  have htake := Text.take_countWhile p c.rest
  rw [Text.countWhile] at htake
  exact through_advance (by rw [htake]; exact Text.isClosed_takeWhile hbracket hbackslash c.rest)

theorem through_skipSpacing (c : Cursor) : c.Through c.skipSpacing :=
  through_takeWhile c (p := Text.isSpacing) rfl rfl

theorem through_mark {c : Cursor} {mark : Char} (hmark : mark ≠ '[' ∧ mark ≠ '\\') (h : c.peek = mark) :
    c.Through (c.advance 1) := by
  refine through_advance (Text.isClosed_of_plain fun x hx => ?_)
  cases hrest : c.rest with
  | nil => simp [hrest] at hx
  | cons y rest =>
    rw [peek, hrest] at h
    rw [hrest] at hx
    obtain rfl : x = mark := (List.mem_singleton.mp hx).trans h
    exact hmark

/-- What a continuation takes. -/
theorem take_continuation {text : List Char} (h : continuationWidth text ≠ 0) :
    ∃ spacing : List Char, (∀ x ∈ spacing, Text.isSpacing x = true) ∧
      text.take (continuationWidth text) = '\\' :: (spacing ++ ['\n']) := by
  unfold continuationWidth at h ⊢
  split at h
  · next rest =>
    dsimp only at h ⊢
    split at h
    · next hend =>
      refine ⟨rest.takeWhile Text.isSpacing, Text.mem_takeWhile, ?_⟩
      rw [if_pos hend, List.take_succ_cons, List.take_add, Text.take_countWhile, List.take_one, beq_iff_eq.mp hend]
      rfl
    · exact absurd rfl h
  · exact absurd rfl h

theorem isClosed_continuation (text : List Char) :
    Text.isClosed (text.take (continuationWidth text)) = true := by
  by_cases h : continuationWidth text = 0
  · rw [h, List.take_zero]
    rfl
  · obtain ⟨spacing, hspacing, htake⟩ := take_continuation h
    have hplain : Text.isClosed (spacing ++ ['\n']) = true := by
      refine Text.isClosed_append (Text.isClosed_of_plain fun x hx => ?_) (by decide)
      have hx := hspacing x hx
      constructor <;> rintro rfl <;> cases hx
    have hline : (spacing ++ ['\n']).all Text.isSpacing = false := by simp [Text.isSpacing]
    rw [htake]
    simp [Text.isClosed, hplain, hline]

theorem isClosed_joined (text : List Char) :
    Text.isClosed (text.take (joinedSpacingWidth.joined text)) = true := by
  fun_induction joinedSpacingWidth.joined text with
  | case1 => rfl
  | case2 text h hpos behind spacing ih =>
    rw [List.take_add, List.take_add]
    refine Text.isClosed_append (Text.isClosed_append (isClosed_continuation text) ?_) ?_
    · rw [Text.take_countWhile]
      exact Text.isClosed_takeWhile rfl rfl _
    · rwa [← List.drop_drop]

theorem isClosed_joinedSpacing (text : List Char) :
    Text.isClosed (text.take (joinedSpacingWidth text)) = true := by
  unfold joinedSpacingWidth
  dsimp only
  split
  · rfl
  · rw [List.take_add, Text.take_countWhile]
    exact Text.isClosed_append (Text.isClosed_takeWhile rfl rfl text) (isClosed_joined _)

end Cursor

/-! ### Tokens -/

namespace Text

/-- What letters are matched by. -/
theorem map_fold_take {word text : List Char} (h : startsWithLetters word text = true) :
    (text.take word.length).map fold = word.map fold := by
  have hprefix := List.prefix_iff_eq_take.mp (startsWithLetters_iff.mp h)
  rw [List.length_map, ← List.map_take] at hprefix
  exact hprefix.symm

/-- Whether every text that these letters match is closed. -/
def closesLetters : List Char → Bool
  | [] => true
  | a :: word =>
    (!sameLetter a '[' || word.head?.any fun b => !sameLetter '!' b) &&
      (!sameLetter a '\\' || word.any fun b => !sameLetter b ' ' && !sameLetter b '\t') && closesLetters word

theorem isClosed_of_map_fold {word u : List Char} (hword : closesLetters word = true)
    (h : u.map fold = word.map fold) : isClosed u = true := by
  induction word generalizing u with
  | nil =>
    rw [List.map_eq_nil_iff.mp h]
    rfl
  | cons a word ih =>
    obtain ⟨y, u, rfl, hy, hrest⟩ := List.map_eq_cons_iff.mp h
    simp only [closesLetters, Bool.and_eq_true, Bool.or_eq_true, Bool.not_eq_true'] at hword
    obtain ⟨⟨hbracket, hbackslash⟩, hword⟩ := hword
    simp only [isClosed, Bool.and_eq_true, Bool.or_eq_true, bne_iff_ne]
    refine ⟨⟨?_, ?_⟩, ih hword hrest⟩
    · by_cases hc : y = '['
      · subst hc
        have hnext := hbracket.resolve_left (by simp [sameLetter, hy])
        obtain ⟨b, word, rfl⟩ := List.exists_cons_of_ne_nil (l := word) (by rintro rfl; cases hnext)
        obtain ⟨x, u, rfl, hx, -⟩ := List.map_eq_cons_iff.mp hrest
        exact .inr (by simpa [sameLetter, hx] using hnext)
      · exact .inl (.inl hc)
    · by_cases hc : y = '\\'
      · subst hc
        obtain ⟨b, hb, hmore⟩ := List.any_eq_true.mp (hbackslash.resolve_left (by simp [sameLetter, hy]))
        obtain ⟨x, hx, hxb⟩ := List.mem_map.mp (hrest ▸ List.mem_map_of_mem hb : fold b ∈ u.map fold)
        refine .inr (Bool.not_eq_true' _ ▸ List.all_eq_false.mpr ⟨x, hx, fun hspacing => ?_⟩)
        have hblank : x = ' ' ∨ x = '\t' := by simpa [isSpacing] using hspacing
        rcases hblank with rfl | rfl <;> simp [sameLetter, hxb] at hmore
      · exact .inl hc

end Text

namespace Grammar

/-- Whether every text that a spelling of the table matches is closed. -/
def closesTable (symbols : List (List Char × UInt8)) : Bool :=
  symbols.all fun s => Text.closesLetters (Pattern.ofSymbol lineEndingSymbols s.1).letters

theorem closesTable_statement : closesTable statementSymbols = true := by
  rw [statementSymbols_eq]
  decide +kernel

theorem closesTable_remark : closesTable remarkSymbols = true := by
  rw [remarkSymbols_eq]
  decide +kernel

/-- What a spelling is matched by, up to the line end in the place of its last space. -/
theorem isClosed_match {symbols : List (List Char × UInt8)} (htidy : isTidyTable symbols = true)
    (hcloses : closesTable symbols = true) {text : List Char} {matched : Nat}
    (h : (ofSymbols symbols).width? text = some matched) :
    Text.isClosed (text.take
      (if (text.take matched).getLast? == some '\n' then matched - 1 else matched)) = true := by
  obtain ⟨⟨s, hs, haccepts, rfl⟩, -⟩ := (longest?_table htidy).mp h
  obtain ⟨hstarts, hending⟩ := Bool.and_eq_true_iff.mp haccepts
  have hclosed := Text.isClosed_of_map_fold (List.all_eq_true.mp hcloses s hs) (Text.map_fold_take hstarts)
  rcases Pattern.ofSymbol_cases lineEndingSymbols s.1 with ⟨letters, ending, hsymbol, hp, hspaced⟩ |
    ⟨ending, hp, -⟩
  · -- a blank stands in the place of the last space
    rw [hp] at hclosed hending
    obtain ⟨x, hx, hblank⟩ : ∃ x, (text.drop letters.length).head? = some x ∧ Text.isBlank x = true := by
      cases hhead : (text.drop letters.length).head? with
      | none => rcases hspaced with rfl | rfl <;> simp [Pattern.endsAt, hhead] at hending
      | some x =>
        refine ⟨x, rfl, ?_⟩
        rcases hspaced with rfl | rfl
        · simpa [Pattern.endsAt, hhead] using hending
        · exact Text.isBlank_of_isSpacing (by simpa [Pattern.endsAt, hhead] using hending)
    have htake : text.take s.1.length = text.take letters.length ++ [x] := by
      rw [hsymbol, List.length_append, List.length_singleton, List.take_add, List.take_one, hx]
      rfl
    split
    · rwa [hsymbol, List.length_append, List.length_singleton, Nat.add_sub_cancel]
    · rw [htake]
      refine Text.isClosed_append hclosed (Text.isClosed_of_plain fun c hc => ?_)
      obtain rfl := List.mem_singleton.mp hc
      constructor <;> rintro rfl <;> cases hblank
  · rw [hp] at hclosed hstarts
    rw [if_neg]
    · exact hclosed
    · -- no letter of a spelling matches a line end
      rw [beq_iff_eq]
      intro hlast
      have hmem := List.mem_map_of_mem (f := Text.fold) (List.mem_of_getLast? hlast)
      rw [Text.map_fold_take hstarts] at hmem
      obtain ⟨a, ha, hfold⟩ := List.mem_map.mp hmem
      have hne := letters_ne_lineEnd htidy hs a (by rwa [hp])
      rw [Text.sameLetter, hfold, beq_self_eq_true] at hne
      cases hne

theorem isClosed_read? (context : Context) {c : Cursor} {lexeme : Lexeme UInt8}
    (h : (ofContext context).read? c = .ok (some lexeme)) : Text.isClosed (c.rest.take lexeme.width) = true := by
  obtain ⟨symbols, htidy, hcloses, hg⟩ :
      ∃ symbols, isTidyTable symbols = true ∧ closesTable symbols = true ∧
        ofContext context = ofSymbols symbols := by
    cases context with
    | statement => exact ⟨_, statement_checked.1, closesTable_statement, rfl⟩
    | remark | quotation => exact ⟨_, remark_checked.1, closesTable_remark, rfl⟩
  obtain ⟨-, matched, hmatched, -, hwidth⟩ := exists_of_read? h
  rw [hwidth]
  exact isClosed_match htidy hcloses (hg ▸ hmatched)

end Grammar

/-! ### Codes and literals -/

namespace SpecialCode

/-- What is read behind the bracket ends with a closing one. -/
def EndsShut (read? : List Char → Option (SpecialCode × Nat)) : Prop :=
  ∀ text, ∀ x ∈ read? text, ∃ k, x.2 = k + 1 ∧ (text.drop k).head? = some ']'

theorem EndsShut.orElse {read? other? : List Char → Option (SpecialCode × Nat)} (h : EndsShut read?)
    (hother : EndsShut other?) : EndsShut fun text => read? text <|> other? text := by
  intro text x hx
  dsimp only at hx
  cases hread : read? text with
  | none =>
    rw [hread] at hx
    exact hother text x hx
  | some y =>
    rw [hread] at hx
    cases hx
    exact h text _ hread

theorem closingWidth?_shut {text : List Char} : ∀ width ∈ closingWidth? text,
    ∃ k, width = k + 1 ∧ (text.drop k).head? = some ']' := by
  intro width hwidth
  unfold closingWidth? at hwidth
  dsimp only at hwidth
  split at hwidth
  · next hhead =>
    cases hwidth
    exact ⟨_, rfl, beq_iff_eq.mp hhead⟩
  · cases hwidth

theorem endsShut_comment? : EndsShut comment? := by
  intro text x hx
  unfold comment? at hx
  split at hx
  · dsimp only at hx
    split at hx
    · next hhead =>
      cases hx
      exact ⟨_, rfl, beq_iff_eq.mp hhead⟩
    · cases hx
  · cases hx

theorem endsShut_byte? : EndsShut byte? := by
  intro text x hx
  unfold byte? at hx
  dsimp only at hx
  split at hx
  · next hhead =>
    cases hx
    exact ⟨_, rfl, beq_iff_eq.mp (Bool.and_eq_true_iff.mp hhead).2⟩
  · cases hx

theorem endsShut_blockSize? : EndsShut blockSize? := by
  intro text x hx
  unfold blockSize? at hx
  dsimp only at hx
  split at hx
  · next rest hrest =>
    split at hx
    · cases hx
    · obtain ⟨closing, hclosing, rfl⟩ := Option.map_eq_some_iff.mp hx
      obtain ⟨k, rfl, hhead⟩ := closingWidth?_shut closing hclosing
      refine ⟨_ + k, (Nat.add_assoc _ k 1).symm, ?_⟩
      rw [← hhead, List.drop_drop, Nat.add_assoc (Text.countWhile Text.isBlank text), Nat.add_assoc, Nat.add_assoc,
        ← List.drop_drop, hrest, Nat.add_assoc 1, Nat.add_comm 1, List.drop_succ_cons, Nat.add_assoc]
  · cases hx

theorem endsShut_filePath? : EndsShut filePath? := by
  intro text x hx
  unfold filePath? at hx
  dsimp only at hx
  split at hx
  · cases hx
  · split at hx
    · next hhead =>
      split at hx
      · cases hx
        exact ⟨_, rfl, beq_iff_eq.mp hhead⟩
      · cases hx
    · obtain ⟨closing, hclosing, rfl⟩ := Option.map_eq_some_iff.mp hx
      obtain ⟨k, rfl, hhead⟩ := closingWidth?_shut closing hclosing
      refine ⟨_ + k, (Nat.add_assoc _ k 1).symm, ?_⟩
      rw [← hhead, List.drop_drop, List.drop_drop, Nat.add_assoc]

theorem endsShut_worded? (word : List Char) {tail? : List Char → Option (SpecialCode × Nat)} (h : EndsShut tail?) :
    EndsShut (worded? word tail?) := by
  intro text x hx
  unfold worded? at hx
  split at hx
  · obtain ⟨y, hy, rfl⟩ := Option.map_eq_some_iff.mp hx
    obtain ⟨k, hk, hhead⟩ := h _ y hy
    refine ⟨word.length + k, ?_, by rwa [← List.drop_drop]⟩
    dsimp only
    omega
  · cases hx

theorem endsShut_behindBracket? : EndsShut behindBracket? :=
  endsShut_comment?.orElse (endsShut_byte?.orElse
    ((endsShut_worded? blockWord endsShut_blockSize?).orElse (endsShut_worded? fileWord endsShut_filePath?)))

/-- What a code takes: brackets and what stands between them. -/
theorem take_of_scan? {text : List Char} {lexeme : Lexeme SpecialCode} (h : scan? text = some lexeme) :
    ∃ inner, text.take lexeme.width = '[' :: inner ++ [']'] := by
  unfold scan? at h
  split at h
  · next rest =>
    obtain ⟨x, hx, rfl⟩ := Option.map_eq_some_iff.mp h
    obtain ⟨k, hk, hhead⟩ := endsShut_behindBracket? rest x hx
    dsimp only
    rw [hk, List.take_succ_cons, List.take_add, List.take_one, hhead]
    exact ⟨rest.take k, rfl⟩
  · cases h

theorem isClosed_scan? {text : List Char} : ∀ lexeme ∈ scan? text, Text.isClosed (text.take lexeme.width) =
    true := by
  intro lexeme hlexeme
  obtain ⟨inner, htake⟩ := take_of_scan? hlexeme
  rw [htake]
  exact Text.isClosed_concat _

theorem isClosed_read? {files : FileReader} {c : Cursor} {lexeme : Lexeme Emission}
    (h : read? files c = .ok (some lexeme)) : Text.isClosed (c.rest.take lexeme.width) = true := by
  obtain ⟨code, hscan, -, hwidth⟩ := exists_of_read? h
  rw [hwidth]
  exact isClosed_scan? _ hscan

end SpecialCode

theorem Literal.isClosed_read? {c : Cursor} {lexeme : Lexeme (List UInt8)}
    (h : Literal.read? c = .ok (some lexeme)) : Text.isClosed (c.rest.take lexeme.width) = true := by
  rw [(of_read? h).1]
  refine Text.isClosed_of_plain fun x hx => ?_
  have hpart := isPart_of_mem_width hx
  constructor <;> rintro rfl <;> cases hpart

/-! ## Lines -/

/-- A reading beside itself, which goes on through closed texts from some cursor. -/
def readThrough (origin : Cursor) : Pairing where
  Cursors c d := c = d ∧ origin.Through c
  Places _ _ := True
  Names _ _ := True
  Faults _ _ := True
  Journals _ _ := True

section ReadThrough

variable {origin c : Cursor}

theorem through_self {next : Cursor} (h : origin.Through c) (hnext : c.Through next) :
    (readThrough origin).Cursors next next := ⟨rfl, h.trans hnext⟩

theorem matches_self {α : Type} {F : Fault → Fault → Prop} {R : α → α → Prop} (hF : ∀ fault, F fault fault)
    {x : Except Fault α} (hR : ∀ a, x = .ok a → R a a) : Matches F R x x := by
  cases x with
  | error fault => exact matches_error (hF fault)
  | ok a => exact matches_ok (hR a rfl)

/-- Lines are read through closed texts. -/
theorem readThrough_readsPieces (origin : Cursor) (files : FileReader) (filename : List Char) :
    (readThrough origin).ReadsPieces files filename where
  place _ := trivial
  complaint _ _ _ := trivial
  numeralTooLong := trivial
  silent _ := trivial
  append _ _ := trivial
  peek := by
    rintro c _ mark ⟨rfl, -⟩ -
    exact Iff.rfl
  quote := by
    rintro c _ ⟨rfl, h⟩ hquote
    exact through_self h (Cursor.through_mark (by decide) hquote)
  spacing := by
    rintro c _ ⟨rfl, h⟩
    exact ⟨rfl, through_self h (Cursor.through_skipSpacing c)⟩
  joinedSpacing := by
    rintro c _ ⟨rfl, h⟩
    exact ⟨rfl, through_self h (Cursor.through_advance (Cursor.isClosed_joinedSpacing _))⟩
  continuation := by
    rintro c _ ⟨rfl, h⟩
    exact ⟨rfl, through_self h (Cursor.through_advance (Cursor.isClosed_continuation _))⟩
  digits := by
    rintro c _ ⟨rfl, h⟩
    exact ⟨rfl, through_self h (Cursor.through_takeWhile c rfl rfl)⟩
  code := by
    rintro c _ ⟨rfl, h⟩
    refine matches_self (fun _ => trivial) fun found hread => ⟨rfl, ?_⟩
    rintro lexeme rfl
    exact through_self h (Cursor.through_advance (SpecialCode.isClosed_read? hread))
  token := by
    rintro c _ context ⟨rfl, h⟩
    refine matches_self (fun _ => trivial) fun found hread => ⟨rfl, ?_⟩
    rintro lexeme rfl
    exact through_self h (Cursor.through_advance (Grammar.isClosed_read? context hread))
  literal := by
    rintro c _ ⟨rfl, h⟩
    refine matches_self (fun _ => trivial) fun found hread => ⟨rfl, ?_⟩
    rintro lexeme rfl
    exact through_self h (Cursor.through_advance (Literal.isClosed_read? hread))
  name _ _ := trivial

/-- What a reading beside itself comes to. -/
theorem Matches.through {α : Type} {x : Except Fault (α × Cursor)} {a : α} {next : Cursor}
    (h : Matches (readThrough origin).Faults (readThrough origin).Then x x) (hx : x = .ok (a, next)) :
    origin.Through next := by
  rcases h with ⟨_, _, hfault, -, -⟩ | ⟨_, _, hok, -, hthen⟩
  · cases hx.symm.trans hfault
  · cases hx.symm.trans hok
    exact hthen.2.2

theorem through_readLine {files : FileReader} {filename : List Char} {last : Option Nat} {next : Cursor}
    {record : LineRecord} (h : (Line.read files filename last c).result = .ok (record, next)) : c.Through next :=
  ((readThrough_readsPieces c files filename).readLine last ⟨rfl, .refl c⟩).result.through h

theorem through_readRow {files : FileReader} {done bytes : List UInt8} {events : Journal} {next : Cursor}
    (h : (Row.readFrom files c done events).result = .ok (bytes, next)) : c.Through next := by
  have hrow : (readThrough c).Outcomes (readThrough c).Then (Row.readFrom files c done events)
      (Row.readFrom files c done events) :=
    (readThrough_readsPieces c files []).readRow ⟨rfl, .refl c⟩ trivial
  exact hrow.result.through h

theorem through_readNumber {number : Nat} {next : Cursor} (h : Line.readNumber c = .ok (number, next)) :
    c.Through next := by
  obtain ⟨-, -, -, rfl⟩ := Line.readNumber_eq_ok_iff.mp h
  exact Cursor.through_takeWhile c rfl rfl

end ReadThrough

/-! ## Directives -/

namespace Directive

variable {c next : Cursor}

theorem isClosed_marked? {text : List Char} : ∀ x ∈ marked? text, Text.isClosed (text.take x.2) = true := by
  intro x hx
  have hfound : ∀ mark, Text.isClosed (text.take mark) = true →
      Text.isClosed (text.take (mark + ((text.drop mark).takeWhile Text.isHexDigit).length)) = true := by
    intro mark hmark
    have hdigits := Text.take_countWhile Text.isHexDigit (text.drop mark)
    rw [Text.countWhile] at hdigits
    rw [List.take_add, hdigits]
    exact Text.isClosed_append hmark (Text.isClosed_takeWhile rfl rfl _)
  unfold marked? at hx
  dsimp only at hx
  split at hx
  · next y rest =>
    split at hx
    · next hmark =>
      split at hx
      · cases hx
      · cases hx
        refine hfound 2 (Text.isClosed_of_plain fun z hz => ?_)
        rw [Bool.or_eq_true, beq_iff_eq, beq_iff_eq] at hmark
        have hz : z = '0' ∨ z = y := by simpa using hz
        rcases hz with rfl | rfl
        · decide
        · rcases hmark with rfl | rfl <;> decide
    · cases hx
  · split at hx
    · cases hx
    · cases hx
      exact hfound 1 rfl
  · cases hx

theorem through_readInteger {missing : Complaint} {n : Nat} (h : readInteger missing c = .ok (n, next)) :
    c.Through next := by
  rw [readInteger_eq] at h
  split at h
  · next hmarked =>
    cases h
    exact Cursor.through_advance (isClosed_marked? _ hmarked)
  · split at h
    · cases h
    · split at h
      · cases h
      · cases h
        exact Cursor.through_takeWhile c rfl rfl

theorem through_skipComma (c : Cursor) : c.Through (skipComma c) := by
  unfold skipComma
  split
  · next hcomma =>
    exact (Cursor.through_mark (by decide) (beq_iff_eq.mp hcomma)).trans (Cursor.through_skipSpacing _)
  · exact .refl c

/-- A list ends with its closing bracket. -/
theorem rest_of_readBytesFrom {done bytes : List UInt8} (h : readBytesFrom c done = .ok (bytes, next)) :
    ∃ u, c.rest = u ++ ']' :: next.rest := by
  fun_induction readBytesFrom c done with
  | case1 c done hpeek =>
    cases h
    cases hrest : c.rest with
    | nil => simp [Cursor.peek, hrest] at hpeek
    | cons x rest =>
      obtain rfl : x = ']' := by simpa [Cursor.peek, hrest] using hpeek
      exact ⟨[], by simp [hrest]⟩
  | case2 => cases h
  | case3 => cases h
  | case4 => cases h
  | case5 c done hpeek value behind hread hvalue spaced hspaced hlt ih =>
    obtain ⟨u, hu⟩ := ih h
    obtain ⟨v, hv, -⟩ := ((through_readInteger hread).trans (Cursor.through_skipSpacing behind)).trans
      (through_skipComma spaced)
    exact ⟨v ++ u, by rw [hv, hu, List.append_assoc]⟩

theorem through_readBytes {bytes : List UInt8} (h : readBytes c = .ok (bytes, next)) : c.Through next := by
  unfold readBytes at h
  split at h
  · obtain ⟨u, hu⟩ := rest_of_readBytesFrom h
    rw [Cursor.skipSpacing, ← Cursor.advance_add, Cursor.rest_advance] at hu
    refine ⟨c.rest.take (1 + Text.countWhile Text.isSpacing (c.advance 1).rest) ++ (u ++ [']']), ?_, ?_⟩
    · rw [List.append_assoc, List.append_assoc]
      exact (List.take_append_drop _ c.rest).symm.trans (by rw [hu]; rfl)
    · rw [← List.append_assoc]
      exact Text.isClosed_concat _
  · cases h

/-! ### Assignments -/

theorem isClosed_name (text : List Char) : Text.isClosed (text.take (nameWidth text)) = true := by
  unfold nameWidth
  split
  · rw [Text.take_countWhile]
    exact Text.isClosed_takeWhile (by decide) (by decide) text
  · rw [Text.take_countWhile]
    exact Text.isClosed_takeWhile rfl rfl text

theorem isClosed_equals (text : List Char) : Text.isClosed (text.take (equalsWidth text)) = true := by
  unfold equalsWidth
  dsimp only
  split
  · next rest hrest =>
    rw [List.take_add, List.take_add, Text.take_countWhile, ← List.drop_drop, hrest]
    refine Text.isClosed_append (Text.isClosed_append (Text.isClosed_takeWhile rfl rfl text) rfl) ?_
    change Text.isClosed (rest.take _) = true
    rw [Text.take_countWhile]
    exact Text.isClosed_takeWhile rfl rfl rest
  · rfl

theorem through_readSetting {setting : SystemVariables.Setting} (h : readSetting c = .ok (setting, next)) :
    c.Through next := by
  unfold readSetting at h
  split at h
  · split at h
    · cases h
    · next hread =>
      cases h
      exact through_readBytes hread
  · split at h
    · cases h
    · next hread =>
      cases h
      exact through_readInteger hread

/-! ### Keywords -/

theorem mem_lower {x : Char} (hsmall : Text.small x = x) (hsigma : (x.toNat == 0x3A3) = false)
    (hdotted : (x.toNat == 0x130) = false) {text : List Char} (hx : x ∈ text) : x ∈ Text.lower text := by
  have hgo : ∀ before, x ∈ Text.lowerAfter before text := by
    induction text with
    | nil => cases hx
    | cons c text ih =>
      intro before
      rw [Text.lowerAfter]
      rcases List.mem_cons.mp hx with rfl | hx
      · refine List.mem_append_left _ ?_
        simp [hsigma, hdotted, hsmall]
      · exact List.mem_append_right _ (ih hx _)
  exact hgo []

/-- The words that a keyword can be, apart from the one for the line to start with. -/
def words : List (List Char) :=
  ["dfile-collapsed".toList, "dfile:".toList, "basic-vars:".toList, "system-vars:".toList, []]

theorem lower_mem_words {keyword : List Char} (hknown : ∀ word, subject keyword ≠ .unknown word)
    (hstart : subject keyword ≠ .start) : Text.lower (Text.trim keyword) ∈ words := by
  unfold subject at hknown hstart
  dsimp only at hknown hstart
  generalize Text.lower (Text.trim keyword) = word at hknown hstart ⊢
  by_cases hprefix : "basic-start".toList.isPrefixOf word = true
  · exact absurd (if_pos hprefix) hstart
  · rw [if_neg hprefix] at hknown
    by_contra hword
    have hne : ∀ known ∈ words, (word == known) = false := fun known hmem =>
      beq_eq_false_iff_ne.mpr fun h => hword (h ▸ hmem)
    refine hknown word ?_
    rw [hne _ (.head _), hne _ (.tail _ (.head _)), hne _ (.tail _ (.tail _ (.head _))),
      hne _ (.tail _ (.tail _ (.tail _ (.head _)))), if_neg Bool.false_ne_true, if_neg Bool.false_ne_true,
      if_neg Bool.false_ne_true, if_neg Bool.false_ne_true, if_neg]
    intro hempty
    exact hword (List.isEmpty_iff.mp hempty ▸ .tail _ (.tail _ (.tail _ (.tail _ (.head _)))))

/-- A keyword with a known meaning has no brackets and backslashes, unless it names the line to start with. -/
theorem plain_keyword {keyword : List Char} (hknown : ∀ word, subject keyword ≠ .unknown word)
    (hstart : subject keyword ≠ .start) : ∀ x ∈ keyword, x ≠ '[' ∧ x ≠ '\\' := by
  have hwords : ∀ word ∈ words, '[' ∉ word ∧ '\\' ∉ word := by
    simp [words]
  have hplain := hwords _ (lower_mem_words hknown hstart)
  intro x hx
  constructor <;> rintro rfl
  · exact hplain.1 (mem_lower (by decide) rfl rfl (Text.mem_trim hx rfl))
  · exact hplain.2 (mem_lower (by decide) rfl rfl (Text.mem_trim hx rfl))

/-- The keyword for the line to start with, with spacing and an equals sign. -/
theorem isClosed_start {text : List Char} : ∀ x ∈ startWidth? text, Text.isClosed (text.take x.1) = true := by
  intro x hx
  unfold startWidth? at hx
  dsimp only at hx
  split at hx
  · next hword =>
    have hletters : Text.isClosed (text.take "basic-start".toList.length) = true :=
      Text.isClosed_of_map_fold (by decide) (Text.map_fold_take hword)
    have hspaced : ∀ rest : List Char, Text.isClosed (rest.take (Text.countWhile Text.isSpacing rest)) = true := by
      intro rest
      rw [Text.take_countWhile]
      exact Text.isClosed_takeWhile rfl rfl rest
    split at hx
    · next rest hrest =>
      have hbehind : text.drop ("basic-start".toList.length +
          Text.countWhile Text.isSpacing (text.drop "basic-start".toList.length)) = '=' :: rest := by
        rw [← List.drop_drop, hrest]
      have hafter := congrArg (List.drop 1) hbehind
      rw [List.drop_drop] at hafter
      cases hx
      dsimp only
      rw [List.take_add, List.take_add, List.take_add, hafter, hbehind]
      exact Text.isClosed_append (Text.isClosed_append (Text.isClosed_append hletters (hspaced _)) rfl) (hspaced rest)
    · cases hx
      dsimp only
      rw [List.take_add]
      exact Text.isClosed_append hletters (hspaced _)
  · cases hx

/-- The start of a directive up to the end of its keyword. -/
theorem isClosed_head {text : List Char} (hstarts : Assembly.startsDirective text = true)
    (hknown : ∀ word, subject (head text).keyword ≠ .unknown word)
    (hequals : subject (head text).keyword = .start → (head text).equals = true) :
    Text.isClosed (text.take (head text).width) = true := by
  have hindent : Text.isClosed (text.take (2 + Text.countWhile Text.isSpacing (text.drop 2))) = true := by
    rw [List.take_add, Text.take_countWhile]
    refine Text.isClosed_append ?_ (Text.isClosed_takeWhile rfl rfl _)
    obtain ⟨rest, rfl⟩ := Assembly.startsDirective_iff.mp hstarts
    rfl
  generalize hbehind : text.drop (2 + Text.countWhile Text.isSpacing (text.drop 2)) = behind
  have hwidth : ∀ k : Nat, Text.isClosed (behind.take k) = true → Text.isClosed (text.take
      (2 + Text.countWhile Text.isSpacing (text.drop 2) + (behind.take k).length)) = true := by
    intro k hkeyword
    rw [List.take_add, hbehind, ← List.prefix_iff_eq_take.mp (List.take_prefix k behind)]
    exact Text.isClosed_append hindent hkeyword
  unfold head at hknown hequals ⊢
  dsimp only at hknown hequals ⊢
  rw [hbehind] at hknown hequals ⊢
  cases hstart : startWidth? behind with
  | some x => exact hwidth x.1 (isClosed_start x hstart)
  | none =>
    rw [hstart] at hknown hequals
    dsimp only at hknown hequals
    refine hwidth _ (Text.isClosed_of_plain (plain_keyword hknown fun hsubject => ?_))
    cases hequals hsubject

theorem Says.through {files : FileReader} {equals : Bool} {subject : Subject} {directive : Directive}
    (h : Says files equals c subject directive next) : c.Through next := by
  cases h with
  | nothing | collapse => exact .refl c
  | start _ hnumber => exact through_readNumber hnumber
  | row hrow => exact through_readRow hrow
  | variableBytes hbytes => exact through_readBytes hbytes
  | assignment _ _ hsetting =>
    refine (Cursor.through_advance ?_).trans (through_readSetting hsetting)
    rw [List.take_add]
    exact Text.isClosed_append (isClosed_name c.rest) (isClosed_equals _)

/-- **Directives.** A directive is read through a closed text. -/
theorem through_read {files : FileReader} {directive : Directive} (hstarts : Assembly.startsDirective c.rest = true)
    (h : (read files c).result = .ok (directive, next)) : c.Through next := by
  have hsays := readBehind_eq_ok_iff.mp h
  refine (Cursor.through_advance (isClosed_head hstarts ?_ ?_)).trans hsays.through
  · intro word hsubject
    rw [hsubject] at hsays
    cases hsays
  · intro hsubject
    rw [hsubject] at hsays
    cases hsays with
    | start hequals _ => exact hequals

end Directive

theorem Assembly.through_expectLineEnd {c next : Cursor} (h : expectLineEnd c = .ok next) :
    c.Through next ∧ next.peek = '\n' := by
  obtain ⟨rfl, hpeek⟩ := expectLineEnd_eq_ok_iff.mp h
  exact ⟨c.through_skipSpacing, hpeek⟩

end TapeBasic
