import TapeBasic.Proofs.ListingRuns

/-!
# Two readings side by side

Two texts may be read alike without being the same: the text in capitals, the line in front of another text. Then two
readings go on in step, and what one of them comes to is what the other one comes to. Which cursors stand at the same
time is settled piece by piece; that whole lines, directives and items are read alike follows from it, whatever the
two texts are.

* `Matches F R x y`: two readings come to related faults, or to related results.
* `Pairing`: how the cursors, places, names, faults and events of two readings are compared.
* `Pairing.ReadsPiece`: two readings see the same piece of a line.
* `Pairing.ReadsPieces`, `Pairing.ReadsDirectives`: two readings keep in step over the pieces of a line, and over the
  parts of a directive.

Results:
* `Pairing.ReadsPiece.piece`: what the next piece is.
* `Pairing.ReadsPieces.readFrom`, `Pairing.ReadsPieces.readRow`: the rest of a line and a screen row.
* `Pairing.ReadsPieces.readLine`: a whole line.
* `Pairing.ReadsDirectives.readDirective`: a directive.
* `Pairing.ReadsDirectives.step`: an item, where places are compared for equality.
-/
namespace TapeBasic

/-- Two readings come to related faults, or to related results. -/
def Matches {α β : Type} (F : Fault → Fault → Prop) (R : α → β → Prop) (x : Except Fault α)
    (y : Except Fault β) : Prop :=
  (∃ f g, x = .error f ∧ y = .error g ∧ F f g) ∨ ∃ a b, x = .ok a ∧ y = .ok b ∧ R a b

section Matches

variable {α β : Type} {F : Fault → Fault → Prop} {R S : α → β → Prop}

theorem matches_error {f g : Fault} (h : F f g) : Matches (α := α) (β := β) F R (.error f) (.error g) :=
  .inl ⟨f, g, rfl, rfl, h⟩

theorem matches_ok {a : α} {b : β} (h : R a b) : Matches F R (.ok a) (.ok b) := .inr ⟨a, b, rfl, rfl, h⟩

theorem Matches.mono {x : Except Fault α} {y : Except Fault β} (h : Matches F R x y)
    (hrel : ∀ a b, R a b → S a b) : Matches F S x y := by
  rcases h with ⟨f, g, rfl, rfl, hfault⟩ | ⟨a, b, rfl, rfl, hab⟩
  · exact matches_error hfault
  · exact matches_ok (hrel a b hab)

theorem Matches.of_ok {x : Except Fault α} {y : Except Fault β} {a : α} (h : Matches F R x y) (hx : x = .ok a) :
    ∃ b, y = .ok b ∧ R a b := by
  rcases h with ⟨f, g, hx', -, -⟩ | ⟨a', b, hx', hy, hab⟩
  · cases hx.symm.trans hx'
  · cases hx.symm.trans hx'
    exact ⟨b, hy, hab⟩

theorem Matches.of_error {x : Except Fault α} {y : Except Fault β} {f : Fault} (h : Matches F R x y)
    (hx : x = .error f) : ∃ g, y = .error g ∧ F f g := by
  rcases h with ⟨f', g, hx', hy, hfault⟩ | ⟨a, b, hx', -, -⟩
  · cases hx.symm.trans hx'
    exact ⟨g, hy, hfault⟩
  · cases hx.symm.trans hx'

end Matches

/-- How two readings are compared. -/
structure Pairing where
  /-- Cursors at which the readings stand at the same time. -/
  Cursors : Cursor → Cursor → Prop
  /-- Places that are noted at the same time. -/
  Places : Position → Position → Prop
  /-- Names of a system variable that are read at the same time. -/
  Names : List Char → List Char → Prop
  /-- Faults to which the readings come at the same time. -/
  Faults : Fault → Fault → Prop
  /-- The events up to the same time. -/
  Journals : Journal → Journal → Prop

namespace Pairing

variable {p : Pairing} {α β γ δ : Type}

/-- The same value, and cursors at which the readings stand at the same time. -/
def Then (p : Pairing) (x y : α × Cursor) : Prop := x.1 = y.1 ∧ p.Cursors x.2 y.2

/-- The same lexeme, behind which the readings stand at the same time. -/
def Follows (p : Pairing) (c d : Cursor) (a b : Lexeme α) : Prop :=
  a = b ∧ p.Cursors (c.advance a.width) (d.advance a.width)

/-- The same, or no lexeme in either reading. -/
def FollowsAny (p : Pairing) (c d : Cursor) (a b : Option (Lexeme α)) : Prop :=
  a = b ∧ ∀ lexeme ∈ a, p.Cursors (c.advance lexeme.width) (d.advance lexeme.width)

/-- A length that both readings measure alike, and behind which they stand at the same time. -/
def Sees (p : Pairing) (f : List Char → Nat) : Prop :=
  ∀ {c d : Cursor}, p.Cursors c d →
    f d.rest = f c.rest ∧ p.Cursors (c.advance (f c.rest)) (d.advance (f c.rest))

/-- Related events, and matching results. -/
structure Outcomes (p : Pairing) (R : α → β → Prop) (x : Outcome α) (y : Outcome β) : Prop where
  events : p.Journals x.events y.events
  result : Matches p.Faults R x.result y.result

/-! ## Lines -/

/-- The marks at which a reader looks ahead. -/
def marks : List Char := ['\n', Text.doubleQuote, ',', '[', ']']

/-- Two readings see the same piece: all that a piece can be is read alike. -/
structure ReadsPiece (p : Pairing) (files : FileReader) (c d : Cursor) : Prop where
  fault (what : Complaint) : p.Faults (c.fault what) (d.fault what)
  peek : (d.peek == Text.doubleQuote) = (c.peek == Text.doubleQuote)
  quote : c.peek = Text.doubleQuote → p.Cursors (c.advance 1) (d.advance 1)
  code : Matches p.Faults (p.FollowsAny c d) (SpecialCode.read? files c) (SpecialCode.read? files d)
  token (context : Context) : Matches p.Faults (p.FollowsAny c d) ((Grammar.ofContext context).read? c)
    ((Grammar.ofContext context).read? d)
  literal : Matches p.Faults (p.FollowsAny c d) (Literal.read? c) (Literal.read? d)

namespace ReadsPiece

variable {files : FileReader} {c d : Cursor} (h : p.ReadsPiece files c d)

include h

theorem readLetters (context : Context) :
    Matches p.Faults (p.Follows c d) (readLetters files context c) (readLetters files context d) := by
  unfold TapeBasic.readLetters
  rcases h.code with ⟨f, g, hx, hy, hfault⟩ | ⟨code, _, hx, hy, rfl, hcode⟩
  · rw [hx, hy]
    exact matches_error hfault
  · rw [hx, hy]
    cases code with
    | some lexeme => exact matches_ok ⟨rfl, hcode lexeme rfl⟩
    | none =>
      dsimp only
      rcases h.token context with ⟨f, g, hx, hy, hfault⟩ | ⟨token, _, hx, hy, rfl, htoken⟩
      · rw [hx, hy]
        exact matches_error hfault
      · rw [hx, hy]
        cases token with
        | none => exact matches_error (h.fault _)
        | some lexeme => exact matches_ok ⟨rfl, htoken lexeme rfl⟩

theorem statementToken (inName : Bool) :
    Matches p.Faults (p.Follows c d) (Body.statementToken inName c) (Body.statementToken inName d) := by
  unfold Body.statementToken
  rcases h.token .statement with ⟨f, g, hx, hy, hfault⟩ | ⟨token, _, hx, hy, rfl, htoken⟩
  · dsimp only [Grammar.ofContext] at hx hy
    rw [hx, hy]
    exact matches_error hfault
  · dsimp only [Grammar.ofContext] at hx hy
    rw [hx, hy]
    cases token with
    | none => exact matches_error (h.fault _)
    | some lexeme => exact matches_ok ⟨rfl, htoken lexeme rfl⟩

theorem statementCode (inName : Bool) :
    Matches p.Faults (p.Follows c d) (Body.statementCode files inName c) (Body.statementCode files inName d) := by
  unfold Body.statementCode
  rcases h.code with ⟨f, g, hx, hy, hfault⟩ | ⟨code, _, hx, hy, rfl, hcode⟩
  · rw [hx, hy]
    exact matches_error hfault
  · rw [hx, hy]
    cases code with
    | some lexeme => exact matches_ok ⟨rfl, hcode lexeme rfl⟩
    | none => exact h.statementToken inName

theorem statementPiece (inName : Bool) :
    Matches p.Faults (p.Follows c d) (Body.statementPiece files inName c) (Body.statementPiece files inName d) := by
  unfold Body.statementPiece
  rw [h.peek]
  split
  · next hquote => exact matches_ok ⟨rfl, h.quote (beq_iff_eq.mp hquote)⟩
  · split
    · exact h.statementCode inName
    · rcases h.literal with ⟨f, g, hx, hy, hfault⟩ | ⟨literal, _, hx, hy, rfl, hliteral⟩
      · rw [hx, hy]
        exact matches_error hfault
      · rw [hx, hy]
        cases literal with
        | some lexeme => exact matches_ok ⟨rfl, hliteral lexeme rfl⟩
        | none => exact h.statementCode inName

/-- **Pieces.** The readings come to the same piece. -/
theorem piece (mode : Body.Mode) :
    Matches p.Faults (p.Follows c d) (Body.piece files mode c) (Body.piece files mode d) := by
  cases mode with
  | remark =>
    unfold Body.piece Body.remarkPiece
    dsimp only
    rcases h.readLetters .remark with ⟨f, g, hx, hy, hfault⟩ | ⟨lexeme, _, hx, hy, rfl, hnext⟩
    · rw [hx, hy]
      exact matches_error hfault
    · rw [hx, hy]
      exact matches_ok ⟨rfl, hnext⟩
  | quotation =>
    unfold Body.piece Body.quotationPiece
    dsimp only
    rw [h.peek]
    rcases h.readLetters .quotation with ⟨f, g, hx, hy, hfault⟩ | ⟨lexeme, _, hx, hy, rfl, hnext⟩
    · rw [hx, hy]
      exact matches_error hfault
    · rw [hx, hy]
      exact matches_ok ⟨rfl, hnext⟩
  | statement inName => exact h.statementPiece inName

end ReadsPiece

/-- Two readings keep in step over the pieces of a line. -/
structure ReadsPieces (p : Pairing) (files : FileReader) (filename : List Char) : Prop where
  place {c d : Cursor} : p.Cursors c d → p.Places c.position d.position
  complaint {c d : Cursor} {s t : Position} (what : Complaint) : p.Cursors c d → p.Places s t →
    p.Faults (c.faultAt s what) (d.faultAt t what)
  numeralTooLong : p.Faults .numeralTooLong .numeralTooLong
  silent (events : Journal) : p.Journals events events
  append {x x' y y' : Journal} : p.Journals x x' → p.Journals y y' → p.Journals (x ++ y) (x' ++ y')
  peek {c d : Cursor} {mark : Char} : p.Cursors c d → mark ∈ marks → (d.peek = mark ↔ c.peek = mark)
  quote {c d : Cursor} : p.Cursors c d → c.peek = Text.doubleQuote → p.Cursors (c.advance 1) (d.advance 1)
  spacing : p.Sees (Text.countWhile Text.isSpacing)
  joinedSpacing : p.Sees Cursor.joinedSpacingWidth
  continuation : p.Sees Cursor.continuationWidth
  digits {c d : Cursor} : p.Cursors c d → d.rest.takeWhile Text.isDecimal = c.rest.takeWhile Text.isDecimal ∧
    p.Cursors (c.advance (c.rest.takeWhile Text.isDecimal).length)
      (d.advance (c.rest.takeWhile Text.isDecimal).length)
  code {c d : Cursor} : p.Cursors c d →
    Matches p.Faults (p.FollowsAny c d) (SpecialCode.read? files c) (SpecialCode.read? files d)
  token {c d : Cursor} (context : Context) : p.Cursors c d →
    Matches p.Faults (p.FollowsAny c d) ((Grammar.ofContext context).read? c) ((Grammar.ofContext context).read? d)
  literal {c d : Cursor} : p.Cursors c d →
    Matches p.Faults (p.FollowsAny c d) (Literal.read? c) (Literal.read? d)
  name {c d : Cursor} (command : UInt8) : p.Cursors c d →
    p.Journals (Line.checkName filename command c).events (Line.checkName filename command d).events

namespace ReadsPieces

variable {files : FileReader} {filename : List Char} {c d : Cursor} (h : p.ReadsPieces files filename)

include h

theorem fault (what : Complaint) (hc : p.Cursors c d) : p.Faults (c.fault what) (d.fault what) :=
  h.complaint what hc (h.place hc)

theorem faultAbout {s t : Position} (number : Nat) (what : Complaint) (hc : p.Cursors c d) (hs : p.Places s t) :
    p.Faults (c.faultAbout s number what) (d.faultAbout t number what) := by
  unfold Cursor.faultAbout
  split
  · exact h.numeralTooLong
  · exact h.complaint what hc hs

theorem peek_beq {mark : Char} (hmark : mark ∈ marks) (hc : p.Cursors c d) :
    (d.peek == mark) = (c.peek == mark) := by
  rw [Bool.eq_iff_iff, beq_iff_eq, beq_iff_eq]
  exact h.peek hc hmark

theorem peek_lineEnd (hc : p.Cursors c d) : d.peek = '\n' ↔ c.peek = '\n' := h.peek hc List.mem_cons_self

theorem skipSpacing (hc : p.Cursors c d) : p.Cursors c.skipSpacing d.skipSpacing := by
  rw [Cursor.skipSpacing, Cursor.skipSpacing, (h.spacing hc).1]
  exact (h.spacing hc).2

theorem skipContinuation (hc : p.Cursors c d) : p.Cursors c.skipContinuation d.skipContinuation := by
  rw [Cursor.skipContinuation, Cursor.skipContinuation, (h.continuation hc).1]
  exact (h.continuation hc).2

/-- Going on with related results. -/
theorem bind {R : α → β → Prop} {S : γ → δ → Prop} {x : Outcome α} {y : Outcome β} {f : α → Outcome γ}
    {g : β → Outcome δ} (hxy : p.Outcomes R x y) (hgo : ∀ a b, R a b → p.Outcomes S (f a) (g b)) :
    p.Outcomes S (x >>= f) (y >>= g) := by
  change p.Outcomes S (x.andThen f) (y.andThen g)
  rcases hxy.result with ⟨fault, fault', hx, hy, hfault⟩ | ⟨a, b, hx, hy, hab⟩
  · simp only [Outcome.andThen, hx, hy]
    exact ⟨hxy.events, matches_error hfault⟩
  · simp only [Outcome.andThen, hx, hy]
    exact ⟨h.append hxy.events (hgo a b hab).events, (hgo a b hab).result⟩

/-- A reading without events. -/
theorem ofExcept {R : α → β → Prop} {x : Except Fault α} {y : Except Fault β} (hxy : Matches p.Faults R x y) :
    p.Outcomes R (Outcome.ofExcept x) (Outcome.ofExcept y) := ⟨h.silent [], hxy⟩

/-! ### Pieces -/

theorem readsPiece (hc : p.Cursors c d) : p.ReadsPiece files c d where
  fault what := h.fault what hc
  peek := h.peek_beq (by simp [marks]) hc
  quote := h.quote hc
  code := h.code hc
  token context := h.token context hc
  literal := h.literal hc

theorem readLetters (context : Context) (hc : p.Cursors c d) :
    Matches p.Faults (p.Follows c d) (readLetters files context c) (readLetters files context d) :=
  (h.readsPiece hc).readLetters context

theorem piece (mode : Body.Mode) (hc : p.Cursors c d) :
    Matches p.Faults (p.Follows c d) (Body.piece files mode c) (Body.piece files mode d) :=
  (h.readsPiece hc).piece mode

/-! ### The rest of a line -/

/-- **The rest of a line.** The readings go on in step up to the line end. -/
theorem readFrom {mode : Body.Mode} {done : List UInt8} {events events' : Journal} (hc : p.Cursors c d)
    (hevents : p.Journals events events') :
    p.Outcomes p.Then (Body.readFrom files mode c done events) (Body.readFrom files mode d done events') := by
  fun_induction Body.readFrom files mode c done events generalizing d events'
  case case1 c done events here hpeek =>
    have hhere := h.skipContinuation hc
    rw [Body.readFrom_of_unclosed ((h.peek_lineEnd hhere).mpr hpeek)]
    exact ⟨hevents, matches_error (h.fault _ hhere)⟩
  case case2 mode c done events here hpeek hmode =>
    have hhere := h.skipContinuation hc
    rw [Body.readFrom_of_lineEnd ((h.peek_lineEnd hhere).mpr hpeek) hmode]
    exact ⟨hevents, matches_ok ⟨rfl, hhere⟩⟩
  case case3 mode c done events here hpeek fault hpiece =>
    have hhere := h.skipContinuation hc
    obtain ⟨fault', hpiece', hfault⟩ := (h.piece mode hhere).of_error hpiece
    rw [Body.readFrom_of_error (mt (h.peek_lineEnd hhere).mp hpeek) hpiece']
    exact ⟨hevents, matches_error hfault⟩
  case case4 mode c done events here hpeek lexeme hpiece hlt ih =>
    have hhere := h.skipContinuation hc
    obtain ⟨_, hpiece', rfl, hnext⟩ := (h.piece mode hhere).of_ok hpiece
    rw [Body.readFrom_of_piece (mt (h.peek_lineEnd hhere).mp hpeek) hpiece']
    exact ih hnext (h.append hevents (h.silent _))

/-- **Screen rows.** The readings go on in step up to the line end. -/
theorem readRow {done : List UInt8} {events events' : Journal} (hc : p.Cursors c d)
    (hevents : p.Journals events events') :
    p.Outcomes p.Then (Row.readFrom files c done events) (Row.readFrom files d done events') := by
  fun_induction Row.readFrom files c done events generalizing d events'
  case case1 c done events hpeek =>
    rw [Row.readFrom, dif_pos ((h.peek_lineEnd hc).mpr hpeek)]
    exact ⟨hevents, matches_ok ⟨rfl, hc⟩⟩
  case case2 c done events hpeek fault hletters =>
    obtain ⟨fault', hletters', hfault⟩ := (h.readLetters .remark hc).of_error hletters
    rw [Row.readFrom_of_error (mt (h.peek_lineEnd hc).mp hpeek) hletters']
    exact ⟨hevents, matches_error hfault⟩
  case case3 c done events hpeek lexeme hletters next events hcontains =>
    obtain ⟨_, hletters', rfl, hnext⟩ := (h.readLetters .remark hc).of_ok hletters
    rw [Row.readFrom_of_lineEndByte (mt (h.peek_lineEnd hc).mp hpeek) hletters' hcontains]
    exact ⟨h.append hevents (h.silent _), matches_error (h.complaint _ hnext (h.place hc))⟩
  case case4 c done events hpeek lexeme hletters next events hcontains hlt ih =>
    obtain ⟨_, hletters', rfl, hnext⟩ := (h.readLetters .remark hc).of_ok hletters
    rw [Row.readFrom_of_letters (mt (h.peek_lineEnd hc).mp hpeek) hletters' (Bool.eq_false_iff.mpr hcontains)]
    exact ih hnext (h.append hevents (h.silent _))

/-! ### Whole lines -/

theorem readNumber (hc : p.Cursors c d) : Matches p.Faults p.Then (Line.readNumber c) (Line.readNumber d) := by
  obtain ⟨hdigits, hnext⟩ := h.digits hc
  unfold Line.readNumber
  dsimp only
  rw [hdigits]
  split
  · exact matches_error (h.fault _ hc)
  · cases Text.natural? (c.rest.takeWhile Text.isDecimal) with
    | none => exact matches_error h.numeralTooLong
    | some n =>
      dsimp only
      split
      · exact matches_error (h.complaint _ hnext (h.place hc))
      · exact matches_ok ⟨rfl, hnext⟩

theorem readSpacing (hc : p.Cursors c d) :
    Matches p.Faults p.Cursors (Line.readSpacing c) (Line.readSpacing d) := by
  obtain ⟨hwidth, hnext⟩ := h.joinedSpacing hc
  unfold Line.readSpacing
  dsimp only
  rw [hwidth]
  split
  · exact matches_error (h.fault _ hc)
  · exact matches_ok hnext

theorem readCommand (hc : p.Cursors c d) : Matches p.Faults p.Then (Line.readCommand c) (Line.readCommand d) := by
  unfold Line.readCommand
  rcases h.token .statement hc with ⟨f, g, hx, hy, hfault⟩ | ⟨token, _, hx, hy, rfl, htoken⟩
  · dsimp only [Grammar.ofContext] at hx hy
    rw [hx, hy]
    exact matches_error hfault
  · dsimp only [Grammar.ofContext] at hx hy
    rw [hx, hy]
    cases token with
    | none => exact matches_error (h.fault _ hc)
    | some lexeme =>
      have hnext := htoken lexeme rfl
      dsimp only
      split
      · exact matches_ok ⟨rfl, hnext⟩
      · exact matches_error (h.complaint _ hnext (h.place hc))

theorem checkOrder {number : Nat} {last : Option Nat} {s t : Position} (hc : p.Cursors c d) (hs : p.Places s t) :
    Matches p.Faults Eq (Line.checkOrder number last s c) (Line.checkOrder number last t d) := by
  unfold Line.checkOrder
  cases last with
  | none => exact matches_ok rfl
  | some n =>
    dsimp only
    split
    · exact matches_error (h.complaint _ hc hs)
    · exact matches_ok rfl

theorem close {number : Nat} {command : UInt8} {body : List UInt8} {s t : Position} (hc : p.Cursors c d)
    (hs : p.Places s t) :
    Matches p.Faults Eq (Line.close number command body s c) (Line.close number command body t d) := by
  unfold Line.close
  dsimp only
  split
  · exact matches_error (h.complaint _ hc hs)
  · exact matches_ok rfl

/-- **Lines.** The readings come to the same record, with related warnings. -/
theorem readLine (last : Option Nat) (hc : p.Cursors c d) :
    p.Outcomes p.Then (Line.read files filename last c) (Line.read files filename last d) := by
  unfold Line.read
  refine h.bind (h.ofExcept (h.readNumber hc)) ?_
  rintro ⟨number, afterNumber⟩ ⟨_, afterNumber'⟩ ⟨rfl, hnumber⟩
  refine h.bind (h.ofExcept (h.checkOrder hnumber (h.place hc))) ?_
  rintro - - -
  refine h.bind (h.ofExcept (h.readSpacing hnumber)) fun atCommand atCommand' hspacing => ?_
  refine h.bind (h.ofExcept (h.readCommand hspacing)) ?_
  rintro ⟨command, afterCommand⟩ ⟨_, afterCommand'⟩ ⟨rfl, hcommand⟩
  refine h.bind (R := Eq) ⟨h.name command hcommand, ?_⟩ ?_
  · rw [Line.result_checkName, Line.result_checkName]
    exact matches_ok rfl
  · rintro - - -
    refine h.bind (h.readFrom hcommand (h.silent [])) ?_
    rintro ⟨body, atEnd⟩ ⟨_, atEnd'⟩ ⟨rfl, hend⟩
    refine h.bind (h.ofExcept (h.close hend (h.place hspacing))) ?_
    rintro record _ rfl
    exact h.ofExcept (matches_ok ⟨rfl, hend⟩)

end ReadsPieces

end Pairing

/-! ## Directives -/

namespace Directive

/-- The number in hexadecimal digits behind its mark at the start of the text, and its length. -/
def marked? (text : List Char) : Option (Nat × Nat) :=
  let hexadecimal (mark : Nat) : Option (Nat × Nat) :=
    let digits := (text.drop mark).takeWhile Text.isHexDigit
    if digits.isEmpty then none else some (Text.hexDigitsValue digits, mark + digits.length)
  match text with
  | '0' :: x :: _ => if x == 'x' || x == 'X' then hexadecimal 2 else none
  | '$' :: _ => hexadecimal 1
  | _ => none

theorem readInteger_eq (missing : Complaint) (c : Cursor) :
    readInteger missing c =
      match marked? c.rest with
      | some (value, width) => .ok (value, c.advance width)
      | none =>
        if (c.rest.takeWhile Text.isDecimal).isEmpty then .error (c.fault missing)
        else
          match Text.natural? (c.rest.takeWhile Text.isDecimal) with
          | none => .error .numeralTooLong
          | some value => .ok (value, c.advance (c.rest.takeWhile Text.isDecimal).length) := rfl

end Directive

namespace Pairing

variable {p : Pairing}

/-- The same directive, or the same setting of a system variable by related names at related places. -/
inductive Directives (p : Pairing) : Directive → Directive → Prop where
  | same (directive : Directive) : (∀ name setting place, directive ≠ .assign name setting place) →
    Directives p directive directive
  | assign {name name' : List Char} {s t : Position} (setting : SystemVariables.Setting) : p.Names name name' →
    p.Places s t → Directives p (.assign name setting s) (.assign name' setting t)

/-- Related directives, and cursors at which the readings stand at the same time. -/
def Said (p : Pairing) (x y : Directive × Cursor) : Prop := p.Directives x.1 y.1 ∧ p.Cursors x.2 y.2

/-- The start of a directive is read alike: what it is about, whether there is an equals sign, and where the keyword
starts and ends. -/
structure SameHead (p : Pairing) (c d : Cursor) (head head' : Directive.Head) : Prop where
  subject : Directive.subject head'.keyword = Directive.subject head.keyword
  equals : head'.equals = head.equals
  start : p.Cursors (c.advance head.indent) (d.advance head'.indent)
  behind : p.Cursors (c.advance head.width) (d.advance head'.width)

/-- Two readings keep in step over the parts of a directive, too. -/
structure ReadsDirectives (p : Pairing) (files : FileReader) (filename : List Char) : Prop
    extends p.ReadsPieces files filename where
  next {c d : Cursor} : p.Cursors c d → c.peek ≠ '\n' → p.Cursors (c.advance 1) (d.advance 1)
  starts {c d : Cursor} : p.Cursors c d → Assembly.startsDirective d.rest = Assembly.startsDirective c.rest
  head {c d : Cursor} : p.Cursors c d → Assembly.startsDirective c.rest = true →
    p.SameHead c d (Directive.head c.rest) (Directive.head d.rest)
  marked {c d : Cursor} : p.Cursors c d → Directive.marked? d.rest = Directive.marked? c.rest ∧
    ∀ x ∈ Directive.marked? c.rest, p.Cursors (c.advance x.2) (d.advance x.2)
  nameWidth : p.Sees Directive.nameWidth
  equalsWidth : p.Sees Directive.equalsWidth
  variableName {c d : Cursor} : p.Cursors c d →
    p.Names (c.rest.take (Directive.nameWidth c.rest)) (d.rest.take (Directive.nameWidth c.rest))

namespace ReadsDirectives

variable {files : FileReader} {filename : List Char} {c d : Cursor} (h : p.ReadsDirectives files filename)

include h

/-! ### Numbers and lists -/

theorem readInteger (missing : Complaint) (hc : p.Cursors c d) :
    Matches p.Faults p.Then (Directive.readInteger missing c) (Directive.readInteger missing d) := by
  obtain ⟨hdigits, hnext⟩ := h.digits hc
  obtain ⟨hmarked, hbehind⟩ := h.marked hc
  rw [Directive.readInteger_eq, Directive.readInteger_eq, hmarked, hdigits]
  cases hvalue : Directive.marked? c.rest with
  | some x => exact matches_ok ⟨rfl, hbehind x hvalue⟩
  | none =>
    dsimp only
    split
    · exact matches_error (h.fault _ hc)
    · cases Text.natural? (c.rest.takeWhile Text.isDecimal) with
      | none => exact matches_error h.numeralTooLong
      | some value => exact matches_ok ⟨rfl, hnext⟩

/-- Going behind a mark. -/
theorem behindMark {mark : Char} (hmark : mark ≠ '\n') (hc : p.Cursors c d) (hpeek : (c.peek == mark) = true) :
    p.Cursors (c.advance 1) (d.advance 1) :=
  h.next hc (beq_iff_eq.mp hpeek ▸ hmark)

theorem skipComma (hc : p.Cursors c d) : p.Cursors (Directive.skipComma c) (Directive.skipComma d) := by
  unfold Directive.skipComma
  rw [h.peek_beq (by simp [marks]) hc]
  split
  · next hcomma => exact h.skipSpacing (h.behindMark (by decide) hc hcomma)
  · exact hc

theorem readBytesFrom {done : List UInt8} (hc : p.Cursors c d) :
    Matches p.Faults p.Then (Directive.readBytesFrom c done) (Directive.readBytesFrom d done) := by
  have hbracket : ∀ {c d : Cursor}, p.Cursors c d → (d.peek == ']') = (c.peek == ']') :=
    fun hc => h.peek_beq (by simp [marks]) hc
  have hend : ∀ {c d : Cursor}, p.Cursors c d → (d.peek == '\n') = (c.peek == '\n') :=
    fun hc => h.peek_beq (by simp [marks]) hc
  fun_induction Directive.readBytesFrom c done generalizing d
  case case1 c done hpeek =>
    rw [Directive.readBytesFrom, hbracket hc, if_pos hpeek]
    exact matches_ok ⟨rfl, h.behindMark (by decide) hc hpeek⟩
  case case2 c done hpeek fault hread =>
    obtain ⟨fault', hread', hfault⟩ := (h.readInteger .numberExpected hc).of_error hread
    rw [Directive.readBytesFrom_of_error ((hbracket hc).trans (Bool.eq_false_iff.mpr hpeek)) hread']
    exact matches_error hfault
  case case3 c done hpeek value behind hread hvalue =>
    obtain ⟨⟨_, behind'⟩, hread', rfl, hbehind⟩ := (h.readInteger .numberExpected hc).of_ok hread
    rw [Directive.readBytesFrom_of_integer ((hbracket hc).trans (Bool.eq_false_iff.mpr hpeek)) hread', if_pos hvalue]
    exact matches_error (h.faultAbout _ _ hbehind (h.place hc))
  case case4 c done hpeek value behind hread hvalue next hnext =>
    obtain ⟨⟨_, behind'⟩, hread', rfl, hbehind⟩ := (h.readInteger .numberExpected hc).of_ok hread
    rw [Directive.readBytesFrom_of_integer ((hbracket hc).trans (Bool.eq_false_iff.mpr hpeek)) hread', if_neg hvalue,
      hend (h.skipSpacing hbehind), if_pos hnext]
    exact matches_error (h.fault _ (h.skipSpacing hbehind))
  case case5 c done hpeek value behind hread hvalue next hnext hlt ih =>
    obtain ⟨⟨_, behind'⟩, hread', rfl, hbehind⟩ := (h.readInteger .numberExpected hc).of_ok hread
    rw [Directive.readBytesFrom_of_integer ((hbracket hc).trans (Bool.eq_false_iff.mpr hpeek)) hread', if_neg hvalue,
      hend (h.skipSpacing hbehind), if_neg hnext]
    exact ih (h.skipComma (h.skipSpacing hbehind))

theorem readBytes (hc : p.Cursors c d) :
    Matches p.Faults p.Then (Directive.readBytes c) (Directive.readBytes d) := by
  unfold Directive.readBytes
  rw [h.peek_beq (by simp [marks]) hc]
  split
  · next hpeek => exact h.readBytesFrom (h.skipSpacing (h.behindMark (by decide) hc hpeek))
  · exact matches_error (h.fault _ hc)

/-! ### Assignments -/

theorem readSetting (hc : p.Cursors c d) :
    Matches p.Faults p.Then (Directive.readSetting c) (Directive.readSetting d) := by
  unfold Directive.readSetting
  rw [h.peek_beq (by simp [marks]) hc]
  split
  · rcases h.readBytes hc with ⟨_, _, hx, hy, hfault⟩ | ⟨_, _, hx, hy, hvalue, hnext⟩
    · rw [hx, hy]
      exact matches_error hfault
    · rw [hx, hy]
      exact matches_ok ⟨by rw [hvalue], hnext⟩
  · rcases h.readInteger .valueExpected hc with ⟨_, _, hx, hy, hfault⟩ | ⟨_, _, hx, hy, hvalue, hnext⟩
    · rw [hx, hy]
      exact matches_error hfault
    · rw [hx, hy]
      exact matches_ok ⟨by rw [hvalue], hnext⟩

theorem readAssignment (hc : p.Cursors c d) :
    Matches p.Faults p.Said (Directive.readAssignment c) (Directive.readAssignment d) := by
  obtain ⟨hname, hbehind⟩ := h.nameWidth hc
  obtain ⟨hequals, hvalue⟩ := h.equalsWidth hbehind
  have hnames := h.variableName hc
  rw [← Cursor.advance_add, ← Cursor.advance_add, Cursor.rest_advance] at hvalue
  rw [Cursor.rest_advance, Cursor.rest_advance] at hequals
  unfold Directive.readAssignment
  dsimp only
  rw [hname, hequals]
  split
  · exact matches_error (h.fault _ hc)
  · rcases h.readSetting hvalue with ⟨_, _, hx, hy, hfault⟩ |
      ⟨⟨setting, next⟩, ⟨_, next'⟩, hx, hy, rfl, hnext⟩
    · rw [hx, hy]
      exact matches_error hfault
    · rw [hx, hy]
      exact matches_ok ⟨.assign setting hnames (h.place hc), hnext⟩

/-! ### Whole directives -/

theorem readStart (equals : Bool) (hc : p.Cursors c d) :
    Matches p.Faults p.Said (Directive.readStart equals c) (Directive.readStart equals d) := by
  unfold Directive.readStart
  split
  · rcases h.readNumber hc with ⟨_, _, hx, hy, hfault⟩ |
      ⟨⟨number, next⟩, ⟨_, next'⟩, hx, hy, rfl, hnext⟩
    · rw [hx, hy]
      exact matches_error hfault
    · rw [hx, hy]
      exact matches_ok ⟨.same _ nofun, hnext⟩
  · exact matches_error (h.fault _ hc)

theorem readVariables (hc : p.Cursors c d) :
    Matches p.Faults p.Said (Directive.readVariables c) (Directive.readVariables d) := by
  unfold Directive.readVariables
  rcases h.readBytes hc with ⟨_, _, hx, hy, hfault⟩ | ⟨⟨bytes, next⟩, ⟨_, next'⟩, hx, hy, rfl, hnext⟩
  · rw [hx, hy]
    exact matches_error hfault
  · rw [hx, hy]
    exact matches_ok ⟨.same _ nofun, hnext⟩

/-- **Directives.** The readings come to related directives. -/
theorem readDirective (hc : p.Cursors c d) (hstart : Assembly.startsDirective c.rest = true) :
    p.Outcomes p.Said (Directive.read files c) (Directive.read files d) := by
  have hhead := h.head hc hstart
  have hbehind := hhead.behind
  unfold Directive.read Directive.readBehind
  dsimp only
  rw [hhead.subject]
  cases hsubject : Directive.subject (Directive.head c.rest).keyword with
  | nothing => exact h.ofExcept (matches_ok ⟨.same _ nofun, hbehind⟩)
  | start =>
    dsimp only
    rw [hhead.equals]
    exact h.ofExcept (h.readStart _ hbehind)
  | collapse => exact h.ofExcept (matches_ok ⟨.same _ nofun, hbehind⟩)
  | row =>
    refine h.bind (h.readRow hbehind (h.silent [])) ?_
    rintro ⟨bytes, next⟩ ⟨_, next'⟩ ⟨rfl, hnext⟩
    exact h.ofExcept (matches_ok ⟨.same _ nofun, hnext⟩)
  | variableBytes => exact h.ofExcept (h.readVariables hbehind)
  | assignment => exact h.ofExcept (h.readAssignment hbehind)
  | unknown keyword => exact h.ofExcept (matches_error (h.fault _ hhead.start))

theorem expectLineEnd (hc : p.Cursors c d) :
    Matches p.Faults p.Cursors (Assembly.expectLineEnd c) (Assembly.expectLineEnd d) := by
  have hnext := h.skipSpacing hc
  unfold Assembly.expectLineEnd
  dsimp only
  rw [h.peek_beq (by simp [marks]) hnext]
  split
  · exact matches_ok hnext
  · exact matches_error (h.fault _ hnext)

end ReadsDirectives

/-! ## Items -/

/-- The fault of a refused assignment, where the two readings name the same variable. -/
theorem ReadsPieces.refusal {files : FileReader} {filename : List Char} (h : p.ReadsPieces files filename)
    {c d : Cursor} {s t : Position} (failure : SystemVariables.Failure) (hc : p.Cursors c d) (hs : p.Places s t) :
    p.Faults (Assembly.refusal c s failure) (Assembly.refusal d t failure) := by
  unfold Assembly.refusal
  split
  · exact h.numeralTooLong
  · exact h.faultAbout _ _ hc hs
  · exact h.complaint _ hc hs

/-- The same collection, with related events. -/
def Collected (p : Pairing) (x y : Assembly × Journal) : Prop := x.1 = y.1 ∧ p.Journals x.2 y.2

/-- Two readings keep in step over items: places are the same in both, and related names set the same variable. -/
structure ReadsItems (p : Pairing) (files : FileReader) (filename : List Char) : Prop
    extends p.ReadsDirectives files filename where
  samePlace {s t : Position} : p.Places s t → s = t
  assign {c d : Cursor} {name name' : List Char} {s t : Position} (a : Assembly)
    (setting : SystemVariables.Setting) : p.Cursors c d → p.Names name name' → p.Places s t →
    Matches p.Faults p.Collected (a.assign name setting s c) (a.assign name' setting t d)

/-- The same collection with related events, and cursors at which the readings stand at the same time or related
faults. -/
structure SameStep (p : Pairing) (x y : Step) : Prop where
  assembly : x.assembly = y.assembly
  events : p.Journals x.events y.events
  next : Matches p.Faults p.Cursors x.next y.next

namespace ReadsItems

variable {files : FileReader} {filename : List Char} {c d : Cursor} {a : Assembly}
  (h : p.ReadsItems files filename)

include h

/-- What related directives do to a collection. -/
theorem obey {place place' : Position} {directive directive' : Directive} (hc : p.Cursors c d)
    (hplace : p.Places place place') (hdirective : p.Directives directive directive') :
    Matches p.Faults p.Collected (a.obey place c directive) (a.obey place' d directive') := by
  obtain rfl := h.samePlace hplace
  cases hdirective with
  | assign setting hname hat => exact h.assign a setting hc hname hat
  | same directive hnot =>
    cases directive with
    | nothing | collapse | row _ | variableBytes _ => exact matches_ok ⟨rfl, h.silent _⟩
    | assign name setting at_ => exact absurd rfl (hnot name setting at_)
    | start number =>
      change Matches _ _ (a.nameStart number place c) (a.nameStart number place d)
      unfold Assembly.nameStart
      cases a.lastNumber with
      | none => exact matches_ok ⟨rfl, h.silent _⟩
      | some last =>
        dsimp only
        split
        · exact matches_error (h.complaint _ hc hplace)
        · exact matches_ok ⟨rfl, h.silent _⟩

/-- **Items.** The readings do the same with an item. -/
theorem step (hc : p.Cursors c d) :
    p.SameStep (Assembly.step files filename a c) (Assembly.step files filename a d) := by
  unfold Assembly.step
  rw [h.starts hc]
  split
  · next hstart =>
    have hread := h.readDirective hc hstart
    unfold Assembly.stepDirective
    dsimp only
    rcases hread.result with
      ⟨_, _, hx, hy, hfault⟩ | ⟨⟨directive, behind⟩, ⟨directive', behind'⟩, hx, hy, hdirective, hbehind⟩
    · rw [hx, hy]
      exact ⟨rfl, hread.events, matches_error hfault⟩
    · rw [hx, hy]
      dsimp only at hdirective hbehind ⊢
      rcases h.obey (a := a) hbehind (h.place hc) hdirective with
        ⟨_, _, hx, hy, hfault⟩ | ⟨⟨next, noted⟩, ⟨_, noted'⟩, hx, hy, rfl, hnoted⟩
      · rw [hx, hy]
        exact ⟨rfl, hread.events, matches_error hfault⟩
      · rw [hx, hy]
        exact ⟨rfl, h.append hread.events hnoted, h.expectLineEnd hbehind⟩
  · have hread := h.readLine a.lastNumber hc
    unfold Assembly.stepLine
    dsimp only
    rcases hread.result with ⟨_, _, hx, hy, hfault⟩ | ⟨⟨record, next⟩, ⟨_, next'⟩, hx, hy, rfl, hnext⟩
    · rw [hx, hy]
      exact ⟨rfl, hread.events, matches_error hfault⟩
    · rw [hx, hy]
      exact ⟨rfl, hread.events, matches_ok hnext⟩

end ReadsItems

end Pairing

end TapeBasic
