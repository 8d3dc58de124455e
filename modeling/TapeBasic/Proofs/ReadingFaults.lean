import TapeBasic.Proofs.DirectiveBounds

/-!
# The faults of a listing

A reader starts at a cursor and comes to a fault, or goes on at a cursor further on. So whatever holds of the start
of a text and is kept by going on holds wherever the text is read, and it settles which faults the reading can come
to: complaints about places that have been read, and the few faults that depend on the text or on the files.

* `Meets F P x`: the reading `x` comes to a fault of `F`, or to a result of `P`.
* `Course C F`, `CodeCourse files C F`: cursors that are kept by going on, and faults that are met at them.
* `CodesAt files F c`: faults that are met where codes and tokens are read at one cursor.

Results:
* `CodesAt.piece`: a piece of a line.
* `CodeCourse.readFrom`, `CodeCourse.readRow`: the rest of a line and a screen row.
* `CodeCourse.step`: an item.
* `CodeCourse.run`: a whole listing.
-/
namespace TapeBasic

/-- The reading comes to such a fault, or to such a result. -/
def Meets {α : Type} (F : Fault → Prop) (P : α → Prop) : Except Fault α → Prop
  | .error fault => F fault
  | .ok a => P a

section Meets

variable {α β : Type} {F : Fault → Prop} {P : α → Prop} {R : β → Prop}

theorem Meets.of_ok {x : Except Fault α} {a : α} (h : Meets F P x) (hx : x = .ok a) : P a := by
  rw [hx] at h
  exact h

theorem Meets.of_error {x : Except Fault α} {fault : Fault} (h : Meets F P x) (hx : x = .error fault) : F fault := by
  rw [hx] at h
  exact h

/-- Going on with the result. -/
theorem Meets.bind {x : Outcome α} {f : α → Outcome β} (h : Meets F P x.result)
    (hgo : ∀ a, P a → Meets F R (f a).result) : Meets F R (x >>= f).result := by
  change Meets F R (x.andThen f).result
  unfold Outcome.andThen
  cases hx : x.result with
  | error fault =>
    rw [hx] at h
    exact h
  | ok a =>
    rw [hx] at h
    exact hgo a h

end Meets

/-! ## Cursors and faults -/

/-- Cursors that are kept by going on, and the faults that are met at them: every complaint, and a numeral that is
too long if there is one. -/
structure Course (C : Cursor → Prop) (F : Fault → Prop) : Prop where
  advance {c : Cursor} (n : Nat) : C c → C (c.advance n)
  complaint {c start : Cursor} (what : Complaint) : C c → C start → F (c.faultAt start.position what)
  numeral {c : Cursor} {digits : List Char} : C c → digits <:+: c.rest →
    (∀ x ∈ digits, Text.isDecimal x = true) → Text.natural? digits = none → F .numeralTooLong
  unwritable {c next : Cursor} {missing : Complaint} {n : Nat} : C c →
    Directive.readInteger missing c = .ok (n, next) → Text.isUnwritable n = true → F .numeralTooLong
  address {c : Cursor} : C c →
    SystemVariables.resolve (.name (c.rest.take (Directive.nameWidth c.rest))) = .error (.unresolved .badAddress) →
    F .numeralTooLong

/-- The same where bracketed codes and tokens are read: a file may be unreadable, and a character may have no
token. -/
structure CodeCourse (files : FileReader) (C : Cursor → Prop) (F : Fault → Prop) : Prop extends Course C F where
  unreadable {c : Cursor} {path cause : List Char} : C c → SpecialCode.path? c.rest = some path →
    files path = .error cause → F (.unreadable path cause c.position)
  token {c : Cursor} (context : Context) {fault : Fault} : C c →
    (Grammar.ofContext context).read? c = .error fault → F fault
  figure {c : Cursor} : C c → ((c.rest.take (Literal.width c.rest)).mapM fun x => Token.ofCharacter? [x]) = none →
    F .unknownSymbol

/-- The faults that are met where bracketed codes and tokens are read at this cursor. -/
structure CodesAt (files : FileReader) (F : Fault → Prop) (c : Cursor) : Prop where
  fault (what : Complaint) : F (c.fault what)
  numeral {digits : List Char} : digits <:+: c.rest → (∀ x ∈ digits, Text.isDecimal x = true) →
    Text.natural? digits = none → F .numeralTooLong
  unreadable {path cause : List Char} : SpecialCode.path? c.rest = some path → files path = .error cause →
    F (.unreadable path cause c.position)
  token (context : Context) {fault : Fault} : (Grammar.ofContext context).read? c = .error fault → F fault
  figure : ((c.rest.take (Literal.width c.rest)).mapM fun x => Token.ofCharacter? [x]) = none → F .unknownSymbol

namespace Text

theorem takeWhile_infix {p : Char → Bool} {text whole : List Char} (h : text <:+ whole) :
    text.takeWhile p <:+: whole := (List.takeWhile_prefix p).isInfix.trans h.isInfix

theorem take_countWhile (p : Char → Bool) (text : List Char) : text.take (countWhile p text) = text.takeWhile p :=
  (List.prefix_iff_eq_take.mp (List.takeWhile_prefix p)).symm

end Text

namespace Course

variable {C : Cursor → Prop} {F : Fault → Prop} (h : Course C F) {c start : Cursor}

include h

theorem fault (what : Complaint) (hc : C c) : F (c.fault what) := h.complaint what hc hc

theorem skipSpacing (hc : C c) : C c.skipSpacing := h.advance _ hc

theorem skipContinuation (hc : C c) : C c.skipContinuation := h.advance _ hc

theorem skipGaps (hc : C c) : C c.skipGaps := by
  fun_induction Cursor.skipGaps c with
  | case1 => exact hc
  | case2 c _ _ ih => exact ih (h.advance _ hc)

/-! ## Numbers and lists -/

theorem readInteger (missing : Complaint) (hc : C c) :
    Meets F (fun x => C x.2) (Directive.readInteger missing c) := by
  rw [Directive.readInteger_eq]
  split
  · exact h.advance _ hc
  · split
    · exact h.fault missing hc
    · split
      · next hnone => exact h.numeral hc (Text.takeWhile_infix List.suffix_rfl) Text.mem_takeWhile hnone
      · exact h.advance _ hc

theorem skipComma (hc : C c) : C (Directive.skipComma c) := by
  unfold Directive.skipComma
  split
  · exact h.skipSpacing (h.advance 1 hc)
  · exact hc

theorem readBytesFrom {done : List UInt8} (hc : C c) :
    Meets F (fun x => C x.2) (Directive.readBytesFrom c done) := by
  fun_induction Directive.readBytesFrom c done with
  | case1 => exact h.advance 1 hc
  | case2 c done _ fault hread =>
    have := h.readInteger .numberExpected hc
    rwa [hread] at this
  | case3 c done _ value behind hread hvalue =>
    have hbehind := h.readInteger .numberExpected hc
    rw [hread] at hbehind
    unfold Cursor.faultAbout
    split
    · next hlong => exact h.unwritable hc hread hlong
    · exact h.complaint _ hbehind hc
  | case4 c done _ value behind hread hvalue next _ =>
    have hbehind := h.readInteger .numberExpected hc
    rw [hread] at hbehind
    exact h.fault _ (h.skipSpacing hbehind)
  | case5 c done _ value behind hread hvalue next _ _ ih =>
    have hbehind := h.readInteger .numberExpected hc
    rw [hread] at hbehind
    exact ih (h.skipComma (h.skipSpacing hbehind))

theorem readBytes (hc : C c) : Meets F (fun x => C x.2) (Directive.readBytes c) := by
  unfold Directive.readBytes
  split
  · exact h.readBytesFrom (h.skipSpacing (h.advance 1 hc))
  · exact h.fault _ hc

theorem readNumber (hc : C c) : Meets F (fun x => C x.2) (Line.readNumber c) := by
  unfold Line.readNumber
  dsimp only
  split
  · exact h.fault _ hc
  · split
    · next hnone => exact h.numeral hc (Text.takeWhile_infix List.suffix_rfl) Text.mem_takeWhile hnone
    · split
      · exact h.complaint _ (h.advance _ hc) hc
      · exact h.advance _ hc

end Course

/-! ## Assignments -/

/-- **Refused settings.** The key names no field, or a number does not fit the field, or the field takes another
kind of setting. -/
theorem SystemVariables.set_error {s : SystemVariables} {key : Key} {setting : Setting} {failure : Failure}
    (h : s.set key setting = .error failure) :
    (∃ why, failure = .unresolved why ∧ resolve key = .error (.unresolved why)) ∨
      (∃ (f : Field) (n : Int), setting = .number n ∧ failure = .doesNotFit f.name f.size n) ∨
      (∀ why, failure ≠ .unresolved why) ∧ ∀ field size value, failure ≠ .doesNotFit field size value := by
  unfold set at h
  split at h
  · next hresolve =>
    cases h
    left
    unfold resolve at hresolve ⊢
    split at hresolve
    · cases hresolve
    · next why hfind =>
      cases hresolve
      exact ⟨why, rfl, rfl⟩
  · next f _ =>
    right
    split at h
    · next hbytes =>
      cases h
      unfold settingBytes at hbytes
      split at hbytes
      · next n =>
        split at hbytes
        · cases hbytes
          exact .inr ⟨nofun, nofun⟩
        · split at hbytes
          · cases hbytes
            exact .inl ⟨f, n, rfl, rfl⟩
          · cases hbytes
      · split at hbytes
        · cases hbytes
          exact .inr ⟨nofun, nofun⟩
        · split at hbytes
          · cases hbytes
            exact .inr ⟨nofun, nofun⟩
          · cases hbytes
    · cases h

/-- What a directive says has been read at such cursors: the name of an assignment, its place and its number. -/
def Directive.ReadAt (C : Cursor → Prop) : Directive → Prop
  | .assign name setting place =>
    (∃ c, C c ∧ place = c.position ∧ name = c.rest.take (nameWidth c.rest)) ∧
      ∀ n : Int, setting = .number n → ∃ c next missing m, C c ∧ readInteger missing c = .ok (m, next) ∧ n = m
  | _ => True

namespace Course

variable {C : Cursor → Prop} {F : Fault → Prop} (h : Course C F) {c start : Cursor}

include h

theorem readSetting (hc : C c) :
    Meets F (fun x => C x.2 ∧ ∀ n : Int, x.1 = .number n →
      ∃ c next missing m, C c ∧ Directive.readInteger missing c = .ok (m, next) ∧ n = m)
      (Directive.readSetting c) := by
  unfold Directive.readSetting
  split
  · have hbytes := h.readBytes hc
    cases hread : Directive.readBytes c with
    | error fault =>
      rw [hread] at hbytes
      exact hbytes
    | ok x =>
      rw [hread] at hbytes
      exact ⟨hbytes, nofun⟩
  · have hinteger := h.readInteger .valueExpected hc
    cases hread : Directive.readInteger .valueExpected c with
    | error fault =>
      rw [hread] at hinteger
      exact hinteger
    | ok x =>
      rw [hread] at hinteger
      refine ⟨hinteger, ?_⟩
      rintro n ⟨⟩
      exact ⟨c, x.2, .valueExpected, x.1, hc, hread, rfl⟩

theorem readAssignment (hc : C c) :
    Meets F (fun x => C x.2 ∧ x.1.ReadAt C) (Directive.readAssignment c) := by
  unfold Directive.readAssignment
  dsimp only
  split
  · exact h.fault _ hc
  · have hsetting := h.readSetting
      (h.advance (Directive.nameWidth c.rest +
        Directive.equalsWidth (c.rest.drop (Directive.nameWidth c.rest))) hc)
    split
    · next hread =>
      rw [hread] at hsetting
      exact hsetting
    · next hread =>
      rw [hread] at hsetting
      exact ⟨hsetting.1, ⟨c, hc, rfl, rfl⟩, hsetting.2⟩

theorem readStart (equals : Bool) (hc : C c) :
    Meets F (fun x => C x.2 ∧ x.1.ReadAt C) (Directive.readStart equals c) := by
  unfold Directive.readStart
  split
  · have hnumber := h.readNumber hc
    split
    · next hread =>
      rw [hread] at hnumber
      exact hnumber
    · next hread =>
      rw [hread] at hnumber
      exact ⟨hnumber, trivial⟩
  · exact h.fault _ hc

theorem readVariables (hc : C c) :
    Meets F (fun x => C x.2 ∧ x.1.ReadAt C) (Directive.readVariables c) := by
  unfold Directive.readVariables
  have hbytes := h.readBytes hc
  split
  · next hread =>
    rw [hread] at hbytes
    exact hbytes
  · next hread =>
    rw [hread] at hbytes
    exact ⟨hbytes, trivial⟩

/-! ## What a directive does -/

theorem refusal (hc : C c) {a : Assembly} {name : List Char} {setting : SystemVariables.Setting} {place : Position}
    {failure : SystemVariables.Failure} (hread : (Directive.assign name setting place).ReadAt C)
    (hset : a.system.set (.name name) setting = .error failure) : F (Assembly.refusal c place failure) := by
  obtain ⟨⟨start, hstart, rfl, rfl⟩, hnumber⟩ := hread
  rcases SystemVariables.set_error hset with ⟨why, rfl, hresolve⟩ | ⟨f, value, hvalue, rfl⟩ |
    ⟨hresolved, hfits⟩
  · cases why with
    | badAddress => exact h.address hstart hresolve
    | unknown key => exact h.complaint _ hc hstart
  · obtain ⟨at_, next, missing, n, hat, hinteger, rfl⟩ := hnumber value hvalue
    change F (c.faultAbout _ _ _)
    unfold Cursor.faultAbout
    split
    · next hlong => exact h.unwritable hat hinteger hlong
    · exact h.complaint _ hc hstart
  · unfold Assembly.refusal
    split
    · exact absurd rfl (hresolved _)
    · exact absurd rfl (hfits _ _ _)
    · exact h.complaint _ hc hstart

theorem obey (hc : C c) (hstart : C start) {a : Assembly} {directive : Directive} (hread : directive.ReadAt C) :
    Meets F (fun _ => True) (a.obey start.position c directive) := by
  cases directive with
  | nothing | collapse | row _ | variableBytes _ => exact trivial
  | start number =>
    change Meets F _ (a.nameStart number start.position c)
    unfold Assembly.nameStart
    split
    · split
      · exact h.complaint _ hc hstart
      · exact trivial
    · exact trivial
  | assign name setting place =>
    change Meets F _ (a.assign name setting place c)
    unfold Assembly.assign
    split
    · next hset => exact h.refusal hc hread hset
    · exact trivial

theorem expectLineEnd (hc : C c) : Meets F C (Assembly.expectLineEnd c) := by
  unfold Assembly.expectLineEnd
  dsimp only
  split
  · exact h.skipSpacing hc
  · exact h.fault _ (h.skipSpacing hc)

/-! ## The parts of a line -/

theorem checkOrder (hc : C c) (hstart : C start) (number : Nat) (last : Option Nat) :
    Meets F (fun _ => True) (Line.checkOrder number last start.position c) := by
  unfold Line.checkOrder
  split
  · split
    · exact h.complaint _ hc hstart
    · exact trivial
  · exact trivial

theorem readSpacing (hc : C c) : Meets F C (Line.readSpacing c) := by
  unfold Line.readSpacing
  dsimp only
  split
  · exact h.fault _ hc
  · exact h.advance _ hc

theorem close (hc : C c) (hstart : C start) (number : Nat) (command : UInt8) (body : List UInt8) :
    Meets F (fun _ => True) (Line.close number command body start.position c) := by
  unfold Line.close
  dsimp only
  split
  · exact h.complaint _ hc hstart
  · exact trivial

end Course

/-! ## Codes and tokens -/

namespace SpecialCode

/-- The digits of a code stand in the text. -/
def DigitsIn (text : List Char) : SpecialCode → Prop
  | .byte digits => digits <:+: text ∧ ∀ x ∈ digits, Text.isDecimal x = true
  | .block digits => digits <:+: text ∧ ∀ x ∈ digits, Text.isDecimal x = true
  | _ => True

theorem DigitsIn.of_suffix {text whole : List Char} {code : SpecialCode} (h : code.DigitsIn text)
    (hsuffix : text <:+ whole) : code.DigitsIn whole := by
  cases code with
  | byte digits => exact ⟨h.1.trans hsuffix.isInfix, h.2⟩
  | block digits => exact ⟨h.1.trans hsuffix.isInfix, h.2⟩
  | comment => trivial
  | file path => trivial

theorem digitsIn_comment? (text : List Char) : ∀ x ∈ comment? text, x.1.DigitsIn text := by
  intro x hx
  unfold comment? at hx
  split at hx
  · dsimp only at hx
    split at hx
    · cases hx
      trivial
    · cases hx
  · cases hx

theorem digitsIn_byte? {text : List Char} : ∀ x ∈ byte? text, x.1.DigitsIn text := by
  intro x hx
  unfold byte? at hx
  dsimp only at hx
  split at hx
  · cases hx
    exact ⟨Text.takeWhile_infix List.suffix_rfl, Text.mem_takeWhile⟩
  · cases hx

theorem digitsIn_blockSize? {text : List Char} : ∀ x ∈ blockSize? text, x.1.DigitsIn text := by
  intro x hx
  unfold blockSize? at hx
  dsimp only at hx
  split at hx
  · next rest hrest =>
    split at hx
    · cases hx
    · obtain ⟨width, -, rfl⟩ := Option.map_eq_some_iff.mp hx
      have hsuffix : rest <:+ text := (List.suffix_cons '=' rest).trans (hrest ▸ List.drop_suffix _ text)
      exact ⟨Text.takeWhile_infix ((List.drop_suffix _ rest).trans hsuffix), Text.mem_takeWhile⟩
  · cases hx

theorem digitsIn_filePath? {text : List Char} : ∀ x ∈ filePath? text, x.1.DigitsIn text := by
  intro x hx
  unfold filePath? at hx
  dsimp only at hx
  split at hx
  · cases hx
  · split at hx
    · split at hx
      · cases hx
        trivial
      · cases hx
    · obtain ⟨width, -, rfl⟩ := Option.map_eq_some_iff.mp hx
      trivial

theorem digitsIn_worded? (word : List Char) {text : List Char} {tail? : List Char → Option (SpecialCode × Nat)}
    (h : ∀ text, ∀ x ∈ tail? text, x.1.DigitsIn text) : ∀ x ∈ worded? word tail? text, x.1.DigitsIn text := by
  intro x hx
  unfold worded? at hx
  split at hx
  · obtain ⟨y, hy, rfl⟩ := Option.map_eq_some_iff.mp hx
    exact (h _ y hy).of_suffix (List.drop_suffix _ text)
  · cases hx

theorem digitsIn_orElse {text : List Char} {x y : Option (SpecialCode × Nat)} (hx : ∀ a ∈ x, a.1.DigitsIn text)
    (hy : ∀ a ∈ y, a.1.DigitsIn text) : ∀ a ∈ (x <|> y), a.1.DigitsIn text := by
  cases x with
  | none => exact hy
  | some a => exact hx

/-- **Digits.** The digits of a code are a row of digits of the text. -/
theorem digitsIn_scan? {text : List Char} : ∀ lexeme ∈ scan? text, lexeme.value.DigitsIn text := by
  intro lexeme hlexeme
  unfold scan? at hlexeme
  split at hlexeme
  · next text =>
    obtain ⟨x, hx, rfl⟩ := Option.map_eq_some_iff.mp hlexeme
    have hfound := digitsIn_orElse (digitsIn_comment? text) (digitsIn_orElse digitsIn_byte?
      (digitsIn_orElse (digitsIn_worded? blockWord fun _ => digitsIn_blockSize?)
        (digitsIn_worded? fileWord fun _ => digitsIn_filePath?)))
    exact (hfound x hx).of_suffix (List.suffix_cons '[' text)
  · cases hlexeme

end SpecialCode

namespace CodesAt

variable {files : FileReader} {F : Fault → Prop} {c : Cursor} (h : CodesAt files F c)

include h

theorem code : Meets F (fun _ => True) (SpecialCode.read? files c) := by
  unfold SpecialCode.read?
  split
  · exact trivial
  · next lexeme hscan =>
    have hdigits := SpecialCode.digitsIn_scan? lexeme hscan
    have hpath : ∀ path, lexeme.value = .file path → SpecialCode.path? c.rest = some path := by
      intro path hvalue
      simp only [SpecialCode.path?, hscan, Option.map_some, hvalue]
    split
    · next fault hemit =>
      unfold SpecialCode.emit at hemit
      split at hemit
      · cases hemit
      · next digits hvalue =>
        rw [hvalue] at hdigits
        split at hemit
        · next hnone =>
          cases hemit
          exact h.numeral hdigits.1 hdigits.2 hnone
        · split at hemit
          · cases hemit
            exact h.fault _
          · cases hemit
      · next digits hvalue =>
        rw [hvalue] at hdigits
        split at hemit
        · next hnone =>
          cases hemit
          exact h.numeral hdigits.1 hdigits.2 hnone
        · split at hemit
          · cases hemit
            exact h.fault _
          · cases hemit
      · next path hvalue =>
        split at hemit
        · next cause hfile =>
          cases hemit
          exact h.unreadable (hpath path hvalue) hfile
        · cases hemit
    · exact trivial

theorem literal : Meets F (fun _ => True) (Literal.read? c) := by
  unfold Literal.read?
  split
  · split
    · next fault hemit =>
      unfold Literal.emit at hemit
      split at hemit
      · cases hemit
        exact h.fault _
      · split at hemit
        · next hnone =>
          cases hemit
          exact h.figure hnone
        · cases hemit
    · exact trivial
  · exact trivial

theorem readLetters (context : Context) : Meets F (fun _ => True) (readLetters files context c) := by
  unfold TapeBasic.readLetters
  have hcode := h.code
  split
  · next hread =>
    rw [hread] at hcode
    exact hcode
  · exact trivial
  · split
    · next htoken => exact h.token context htoken
    · exact h.fault _
    · exact trivial

theorem statementToken (inName : Bool) : Meets F (fun _ => True) (Body.statementToken inName c) := by
  unfold Body.statementToken
  split
  · next htoken => exact h.token .statement htoken
  · exact h.fault _
  · exact trivial

theorem statementCode (inName : Bool) :
    Meets F (fun _ => True) (Body.statementCode files inName c) := by
  unfold Body.statementCode
  have hcode := h.code
  split
  · next hread =>
    rw [hread] at hcode
    exact hcode
  · exact trivial
  · exact h.statementToken inName

theorem piece (mode : Body.Mode) : Meets F (fun _ => True) (Body.piece files mode c) := by
  cases mode with
  | remark =>
    unfold Body.piece
    dsimp only
    unfold Body.remarkPiece
    have hletters := h.readLetters .remark
    split
    · next hread =>
      rw [hread] at hletters
      exact hletters
    · exact trivial
  | quotation =>
    unfold Body.piece
    dsimp only
    unfold Body.quotationPiece
    have hletters := h.readLetters .quotation
    split
    · next hread =>
      rw [hread] at hletters
      exact hletters
    · exact trivial
  | statement inName =>
    unfold Body.piece
    dsimp only
    unfold Body.statementPiece
    split
    · exact trivial
    · split
      · exact h.statementCode inName
      · have hliteral := h.literal
        split
        · next hread =>
          rw [hread] at hliteral
          exact hliteral
        · exact trivial
        · exact h.statementCode inName

end CodesAt

namespace CodeCourse

variable {files : FileReader} {C : Cursor → Prop} {F : Fault → Prop} (h : CodeCourse files C F) {c start : Cursor}

include h

theorem codesAt (hc : C c) : CodesAt files F c where
  fault what := h.fault what hc
  numeral := h.numeral hc
  unreadable := h.unreadable hc
  token context := h.token context hc
  figure := h.figure hc

/-! ## The rest of a line -/

/-- **The rest of a line.** By induction on its pieces. -/
theorem readFrom {mode : Body.Mode} {done : List UInt8} {events : Journal} (hc : C c) :
    Meets F (fun x => C x.2) (Body.readFrom files mode c done events).result := by
  fun_induction Body.readFrom files mode c done events with
  | case1 => exact h.fault _ (h.skipContinuation hc)
  | case2 => exact h.skipContinuation hc
  | case3 mode c done events here _ fault hread =>
    have hpiece := (h.codesAt (h.skipContinuation hc)).piece mode
    rwa [hread] at hpiece
  | case4 mode c done events here _ lexeme _ _ ih => exact ih (h.advance _ (h.skipContinuation hc))

/-- **Screen rows.** By induction on the codes of the row. -/
theorem readRow {done : List UInt8} {events : Journal} (hc : C c) :
    Meets F (fun x => C x.2) (Row.readFrom files c done events).result := by
  fun_induction Row.readFrom files c done events with
  | case1 => exact hc
  | case2 c done events _ fault hread =>
    have hletters := (h.codesAt hc).readLetters .remark
    rwa [hread] at hletters
  | case3 c done events _ lexeme _ next => exact h.complaint _ (h.advance _ hc) hc
  | case4 c done events _ lexeme _ next _ _ _ ih => exact ih (h.advance _ hc)

/-! ## Whole items -/

theorem readCommand (hc : C c) : Meets F (fun x => C x.2) (Line.readCommand c) := by
  unfold Line.readCommand
  split
  · next htoken => exact h.token .statement hc htoken
  · exact h.fault _ hc
  · dsimp only
    split
    · exact h.advance _ hc
    · exact h.complaint _ (h.advance _ hc) hc

theorem readLine (filename : List Char) (last : Option Nat) (hc : C c) :
    Meets F (fun x => C x.2) (Line.read files filename last c).result := by
  unfold Line.read
  refine (h.readNumber hc).bind fun x hnumber => (h.checkOrder hnumber hc _ _).bind fun _ _ =>
    (h.readSpacing hnumber).bind fun atCommand hcommand => (h.readCommand hcommand).bind fun y hafter => ?_
  refine Meets.bind (P := fun _ => True) ?_ fun _ _ =>
    (h.readFrom hafter).bind fun z hend => (h.close hend hcommand _ _ _).bind fun _ _ => hend
  rw [Line.result_checkName]
  exact trivial

theorem readDirective (hc : C c) :
    Meets F (fun x => C x.2 ∧ x.1.ReadAt C) (Directive.read files c).result := by
  unfold Directive.read
  dsimp only
  have hbehind := h.advance (Directive.head c.rest).width hc
  unfold Directive.readBehind
  split
  · exact ⟨hbehind, trivial⟩
  · exact h.readStart _ hbehind
  · exact ⟨hbehind, trivial⟩
  · exact (h.readRow hbehind).bind fun x hnext => ⟨hnext, trivial⟩
  · exact h.readVariables hbehind
  · dsimp only [Outcome.ofExcept]
    exact h.readAssignment hbehind
  · exact h.fault _ (h.advance _ hc)

/-- The place of the line to start with has been read at such a cursor. -/
def Pending (C : Cursor → Prop) (a : Assembly) : Prop :=
  ∀ start ∈ a.pendingStart, ∃ c, C c ∧ start.2 = c.position

theorem stepDirective (a : Assembly) (hc : C c) :
    Meets F C (a.stepDirective files c).next ∧
      (Pending C a → Pending C (a.stepDirective files c).assembly) := by
  have hread := h.readDirective hc
  cases hresult : (Directive.read files c).result with
  | error fault =>
    rw [hresult] at hread
    simp only [Assembly.stepDirective, hresult]
    exact ⟨hread, id⟩
  | ok x =>
    rw [hresult] at hread
    have hobey := h.obey hread.1 hc (a := a) hread.2
    cases hobeyed : a.obey c.position x.2 x.1 with
    | error fault =>
      rw [hobeyed] at hobey
      simp only [Assembly.stepDirective, hresult, hobeyed]
      exact ⟨hobey, id⟩
    | ok y =>
      simp only [Assembly.stepDirective, hresult, hobeyed]
      refine ⟨h.expectLineEnd hread.1, fun ha start hstart => ?_⟩
      rcases Assembly.pendingStart_obey hobeyed start hstart with hold | hnew
      · exact ha start hold
      · exact ⟨c, hc, hnew⟩

theorem stepLine (filename : List Char) (a : Assembly) (hc : C c) :
    Meets F C (a.stepLine files filename c).next ∧
      (Pending C a → Pending C (a.stepLine files filename c).assembly) := by
  have hread := h.readLine filename a.lastNumber hc
  cases hresult : (Line.read files filename a.lastNumber c).result with
  | error fault =>
    rw [hresult] at hread
    simp only [Assembly.stepLine, hresult]
    exact ⟨hread, id⟩
  | ok x =>
    rw [hresult] at hread
    simp only [Assembly.stepLine, hresult]
    refine ⟨hread, fun ha start hstart => ha start ?_⟩
    unfold Assembly.addRecord at hstart
    split at hstart
    · cases hstart
    · exact hstart

/-- **Items.** -/
theorem step (filename : List Char) (a : Assembly) (hc : C c) :
    Meets F C (a.step files filename c).next ∧
      (Pending C a → Pending C (a.step files filename c).assembly) := by
  unfold Assembly.step
  split
  · exact h.stepDirective a hc
  · exact h.stepLine filename a hc

/-- **Whole listings.** Every fault of a listing is met at a cursor of the course. By induction on the run, with
one item at a time. -/
theorem run {filename : List Char} {a : Assembly} {events : Journal} (hc : C c) (ha : Pending C a) :
    ∀ fault ∈ (a.run files filename c events).fault, F fault := by
  fun_induction Assembly.run files filename a c events with
  | case1 a c events here hend =>
    intro fault hfault
    unfold Assembly.finish at hfault
    split at hfault
    · next number place hstart =>
      cases hfault
      obtain ⟨start, hplace, heq⟩ := ha (number, place) hstart
      dsimp only at heq
      rw [heq]
      exact h.complaint _ (h.skipGaps hc) hplace
    · cases hfault
  | case2 a c events here hend item fault hnext =>
    rintro _ ⟨⟩
    have hstep := (h.step filename a (h.skipGaps hc)).1
    rwa [hnext] at hstep
  | case3 a c events here hend item next hnext _ ih =>
    obtain ⟨hstep, hpending⟩ := h.step filename a (h.skipGaps hc)
    exact ih (hstep.of_ok hnext) (hpending ha)

end CodeCourse

end TapeBasic
