import TapeBasic.Proofs.LetterCase
import TapeBasic.Source.Encoding

/-!
# Listings in either case

Two listings that differ in the case of their letters only are read side by side: at every moment both readings stand
at the same place, in front of the same text but for the case of its letters. They come to the same bytes with the
same warnings, or to faults at the same place. Only files are beyond it, for a file may go by a name in small letters.

* `Cursor.EitherCase c d`: the same place, in front of the same text in either case that includes no file.
* `Fault.SameKind`, `EncodingFailure.SameKind`: what is left of a fault without the texts that it shows.

Results:
* `eitherCase_readsItems`: the readings keep in step.
* `Assembly.run_eitherCase`: whole listings.
* `Source.encodeImage_caseless`: the images of two such listings.
-/
namespace TapeBasic

open Text (inCapitals)

/-! ## Codes that include no file -/

namespace SpecialCode

/-- Where no file is included, the code at the start of the text is another one. -/
theorem ne_file_of_paths {text path : List Char} {lexeme : Lexeme SpecialCode} (h : paths text = [])
    (hscan : scan? text = some lexeme) : lexeme.value ≠ .file path := by
  intro hvalue
  cases text with
  | nil => cases hscan
  | cons c rest =>
    have hpath : path? (c :: rest) = some path := by
      rw [path?, hscan, Option.map_some, hvalue]
    have hnone := (List.append_eq_nil_iff.mp h).1
    rw [hpath] at hnone
    cases hnone

theorem eq_of_inCapitals {code code' : SpecialCode} (hfile : ∀ path, code ≠ .file path)
    (h : code'.inCapitals = code.inCapitals) : code' = code := by
  cases code with
  | file path => exact absurd rfl (hfile path)
  | comment | byte _ | block _ =>
    cases code' <;> cases h
    rfl

/-- **Codes.** Texts in either case that include no file start with the same code. -/
theorem scan?_eitherCase {text text' : List Char} (hcase : Text.inCapitals text' = Text.inCapitals text)
    (hfile : paths text = []) : scan? text' = scan? text := by
  have hmap := (scan?_inCapitals text').symm.trans ((congrArg scan? hcase).trans (scan?_inCapitals text))
  cases hscan : scan? text with
  | none =>
    rw [hscan] at hmap
    exact Option.map_eq_none_iff.mp hmap
  | some lexeme =>
    rw [hscan] at hmap
    obtain ⟨lexeme', hscan', hsame⟩ := Option.map_eq_some_iff.mp hmap
    obtain ⟨value, width, positive⟩ := lexeme
    obtain ⟨value', width', positive'⟩ := lexeme'
    injection hsame with hvalue hwidth
    dsimp only at hvalue hwidth
    obtain rfl := eq_of_inCapitals (fun path => ne_file_of_paths hfile hscan) hvalue
    subst hwidth
    exact hscan'

end SpecialCode

/-! ## Cursors and faults -/

/-- The same place, in front of texts that differ in the case of letters only and include no file. -/
structure Cursor.EitherCase (c d : Cursor) : Prop where
  capitals : inCapitals d.rest = inCapitals c.rest
  position : d.position = c.position
  files : SpecialCode.paths c.rest = []

/-- The same kind of fault at the same place: complaints may differ in what they show. -/
inductive Fault.SameKind : Fault → Fault → Prop where
  | complaint {what what' : Complaint} {snippet snippet' : List Char} (place : Position) :
    SameKind (.complaint what snippet place) (.complaint what' snippet' place)
  | unknownSymbol : SameKind .unknownSymbol .unknownSymbol
  | numeralTooLong : SameKind .numeralTooLong .numeralTooLong

/-- Two readings of texts in either case. -/
def eitherCase : Pairing where
  Cursors := Cursor.EitherCase
  Places := Eq
  Names name name' := inCapitals name' = inCapitals name
  Faults := Fault.SameKind
  Journals x y := x.warnings = y.warnings

namespace Cursor.EitherCase

variable {α : Type} {c d : Cursor}

/-- What is the same for a text and its capitals. -/
theorem measure (h : EitherCase c d) {f : List Char → α} (hf : ∀ text, f (inCapitals text) = f text) :
    f d.rest = f c.rest := by rw [← hf d.rest, h.capitals, hf]

theorem after_toUpper (p : Position) (x : Char) : p.after x.toUpper = p.after x := by
  have hend : (x.toUpper == '\n') = (x == '\n') := Text.caseless_beq (by decide) x
  rw [Position.after, hend, Position.after]

theorem advance (h : EitherCase c d) (n : Nat) : EitherCase (c.advance n) (d.advance n) := by
  induction n generalizing c d with
  | zero => exact h
  | succ n ih =>
    obtain ⟨text, position⟩ := c
    obtain ⟨text', position'⟩ := d
    obtain ⟨hcapitals, hposition, hfiles⟩ := h
    dsimp only at hcapitals hposition hfiles
    subst hposition
    cases text with
    | nil =>
      obtain rfl : text' = [] := List.map_eq_nil_iff.mp hcapitals
      exact ⟨rfl, rfl, rfl⟩
    | cons x text =>
      cases text' with
      | nil => cases hcapitals
      | cons x' text' =>
        rw [Text.inCapitals_cons, Text.inCapitals_cons, List.cons.injEq] at hcapitals
        refine ih ⟨hcapitals.2, ?_, (List.append_eq_nil_iff.mp hfiles).2⟩
        dsimp only
        rw [← after_toUpper, hcapitals.1, after_toUpper]

theorem sees {f : List Char → Nat} (hf : ∀ text, f (inCapitals text) = f text) : eitherCase.Sees f :=
  fun h => ⟨h.measure hf, h.advance _⟩

theorem peek (h : EitherCase c d) : d.peek.toUpper = c.peek.toUpper := by
  have hhead : ∀ text : List Char, (inCapitals text).headD '\n' = (text.headD '\n').toUpper := by
    intro text
    cases text <;> rfl
  rw [Cursor.peek, Cursor.peek, ← hhead, h.capitals, hhead]

theorem peek_eq_iff (h : EitherCase c d) {mark : Char} (hmark : mark.isAlpha = false) :
    d.peek = mark ↔ c.peek = mark := by
  rw [← Text.toUpper_eq_iff hmark, h.peek, Text.toUpper_eq_iff hmark]

end Cursor.EitherCase

/-! ## Pieces and parts -/

section Pieces

variable {files : FileReader} {c d : Cursor}

theorem SpecialCode.read?_eitherCase (h : c.EitherCase d) :
    Matches Fault.SameKind (eitherCase.FollowsAny c d) (read? files c) (read? files d) := by
  have hemit : ∀ code : SpecialCode, (∀ path, code ≠ .file path) →
      Matches Fault.SameKind Eq (code.emit files c) (code.emit files d) := by
    intro code hcode
    cases code with
    | comment => exact matches_ok rfl
    | file path => exact absurd rfl (hcode path)
    | byte digits | block digits =>
      unfold emit
      dsimp only
      cases Text.natural? digits with
      | none => exact matches_error .numeralTooLong
      | some n =>
        dsimp only
        split
        · rw [Cursor.fault, Cursor.fault, h.position]
          exact matches_error (.complaint _)
        · exact matches_ok rfl
  unfold read?
  rw [scan?_eitherCase h.capitals h.files]
  cases hscan : scan? c.rest with
  | none => exact matches_ok ⟨rfl, nofun⟩
  | some lexeme =>
    dsimp only
    rcases hemit lexeme.value fun path => ne_file_of_paths h.files hscan with
      ⟨_, _, hx, hy, hfault⟩ | ⟨emission, _, hx, hy, rfl⟩
    · rw [hx, hy]
      exact matches_error hfault
    · rw [hx, hy]
      exact matches_ok ⟨rfl, fun _ _ => h.advance _⟩

theorem Grammar.read?_eitherCase (g : Grammar) (h : c.EitherCase d) :
    Matches Fault.SameKind (eitherCase.FollowsAny c d) (g.read? c) (g.read? d) := by
  have hsame : g.read? d = g.read? c := by
    refine read?_congr ?_
    unfold scan?
    dsimp only
    rw [h.measure g.width?_inCapitals]
    have hpeek : (d.peek == '\n') = (c.peek == '\n') := by
      rw [Bool.eq_iff_iff, beq_iff_eq, beq_iff_eq, h.peek_eq_iff (by decide)]
    have htoken : ∀ n, g.lookup (d.rest.take n) = g.lookup (c.rest.take n) := fun n =>
      h.measure (f := fun text => g.lookup (text.take n)) fun text => by
        rw [Text.take_inCapitals, lookup_inCapitals]
    have hlast : ∀ n, ((d.rest.take n).getLast? == some '\n') = ((c.rest.take n).getLast? == some '\n') := fun n =>
      h.measure (f := fun text => (text.take n).getLast? == some '\n') fun text => by
        rw [Text.take_inCapitals, Text.getLast?_inCapitals_beq (by decide)]
    simp only [hpeek, htoken, hlast]
  rw [hsame]
  cases hread : g.read? c with
  | error fault =>
    obtain rfl := error_of_read? hread
    exact matches_error .unknownSymbol
  | ok token => exact matches_ok ⟨rfl, fun _ _ => h.advance _⟩

theorem Literal.read?_eitherCase (h : c.EitherCase d) :
    Matches Fault.SameKind (eitherCase.FollowsAny c d) (read? c) (read? d) := by
  have hwidth : width d.rest = width c.rest := h.measure width_inCapitals
  have hvalue : value (d.rest.take (width c.rest)) = value (c.rest.take (width c.rest)) :=
    h.measure (f := fun text => value (text.take (width c.rest))) fun text => by
      rw [Text.take_inCapitals, value_inCapitals]
  have hcharacters : ((d.rest.take (width c.rest)).mapM fun x => Token.ofCharacter? [x]) =
      (c.rest.take (width c.rest)).mapM fun x => Token.ofCharacter? [x] :=
    h.measure (f := fun text => (text.take (width c.rest)).mapM fun x => Token.ofCharacter? [x]) fun text => by
      rw [Text.take_inCapitals, characters_inCapitals]
  unfold read?
  by_cases hpos : 0 < width c.rest
  · rw [dif_pos hpos, dif_pos (hwidth ▸ hpos)]
    unfold emit
    simp only [hwidth, hvalue, hcharacters]
    cases StoredNumber.encode (value (c.rest.take (width c.rest))) with
    | error _ =>
      rw [Cursor.fault, Cursor.fault, h.position]
      exact matches_error (.complaint _)
    | ok stored =>
      dsimp only
      cases (c.rest.take (width c.rest)).mapM fun x => Token.ofCharacter? [x] with
      | none => exact matches_error .unknownSymbol
      | some characters => exact matches_ok ⟨rfl, fun _ _ => h.advance _⟩
  · rw [dif_neg hpos, dif_neg (hwidth ▸ hpos)]
    exact matches_ok ⟨rfl, by rintro _ ⟨⟩⟩

/-- A variable that is named like a keyword is found in either case, and the warning shows it in capitals. -/
theorem Line.checkName_eitherCase (filename : List Char) (command : UInt8) (h : c.EitherCase d) :
    checkName filename command d = checkName filename command c := by
  have hahead : nameAhead? d.rest = nameAhead? c.rest := by
    refine h.measure fun text => ?_
    rw [nameAhead?, Text.countWhile_inCapitals Text.caseless_isSpacing, Text.drop_inCapitals,
      Text.any_head?_inCapitals Text.caseless_isLatinLetter,
      Text.takeWhile_inCapitals Text.caseless_isLatinLetterOrDigit, Text.upper_inCapitals, nameAhead?]
  rw [checkName, keywordWarning?, hahead, h.position, checkName, keywordWarning?]

end Pieces

/-! ## Items -/

/-- Names in either case set the same variable, or neither is known. -/
theorem SystemVariables.set_eitherCase (s : SystemVariables) {name name' : List Char} (setting : Setting)
    (h : inCapitals name' = inCapitals name) :
    s.set (.name name') setting = s.set (.name name) setting ∨
      ∃ key key', s.set (.name name) setting = .error (.unresolved (.unknown key)) ∧
        s.set (.name name') setting = .error (.unresolved (.unknown key')) := by
  have hname := s.set_inCapitals name setting
  have hname' := s.set_inCapitals name' setting
  rw [h] at hname'
  rcases hname with hname | ⟨hcapitals, hname⟩
  · rcases hname' with hname' | ⟨hcapitals', hname'⟩
    · exact .inl (hname'.symm.trans hname)
    · exact .inr ⟨_, _, hname.symm.trans hcapitals', hname'⟩
  · rcases hname' with hname' | ⟨-, hname'⟩
    · exact .inr ⟨_, _, hname, hname'.symm.trans hcapitals⟩
    · exact .inr ⟨_, _, hname, hname'⟩

/-- No mark is a letter, so no mark has another spelling. -/
theorem not_isAlpha_of_mem_marks {mark : Char} (h : mark ∈ Pairing.marks) :
    mark.isAlpha = false :=
  (Text.forall_mem_of_all (by decide) : ∀ c ∈ Pairing.marks, c.isAlpha = false) mark h

theorem eitherCase_readsPieces (files : FileReader) (filename : List Char) :
    eitherCase.ReadsPieces files filename where
  place h := h.position.symm
  complaint what _ hplace := hplace ▸ .complaint _
  numeralTooLong := .numeralTooLong
  silent _ := rfl
  append {x x' y y'} hx hy := by
    change Journal.warnings (x ++ y) = Journal.warnings (x' ++ y')
    rw [Journal.warnings_append, Journal.warnings_append]
    exact congrArg₂ _ hx hy
  peek h hmark := h.peek_eq_iff
    (not_isAlpha_of_mem_marks hmark)
  quote h _ := h.advance 1
  spacing := Cursor.EitherCase.sees (Text.countWhile_inCapitals Text.caseless_isSpacing)
  joinedSpacing := Cursor.EitherCase.sees Cursor.joinedSpacingWidth_inCapitals
  continuation := Cursor.EitherCase.sees Cursor.continuationWidth_inCapitals
  digits h := ⟨h.measure Text.digits_inCapitals, h.advance _⟩
  code h := SpecialCode.read?_eitherCase h
  token _ h := Grammar.read?_eitherCase _ h
  literal h := Literal.read?_eitherCase h
  name command h := by rw [Line.checkName_eitherCase filename command h]; rfl

theorem eitherCase_readsDirectives (files : FileReader) (filename : List Char) :
    eitherCase.ReadsDirectives files filename where
  toReadsPieces := eitherCase_readsPieces files filename
  next h _ := h.advance 1
  starts h := h.measure Assembly.startsDirective_inCapitals
  head {c d} h _ := by
    have hhead : ({ Directive.head d.rest with
        keyword := inCapitals (Directive.head d.rest).keyword } : Directive.Head) =
        { Directive.head c.rest with keyword := inCapitals (Directive.head c.rest).keyword } := by
      rw [← Directive.head_inCapitals, h.capitals, Directive.head_inCapitals]
    injection hhead with hindent hkeyword hequals
    have hlength := congrArg List.length hkeyword
    rw [Text.length_inCapitals, Text.length_inCapitals] at hlength
    refine ⟨?_, hequals, ?_, ?_⟩
    · rw [← Directive.subject_inCapitals, hkeyword, Directive.subject_inCapitals]
    · rw [hindent]
      exact h.advance _
    · rw [Directive.Head.width, Directive.Head.width, hindent, hlength]
      exact h.advance _
  marked h := ⟨h.measure Directive.marked?_inCapitals, fun _ _ => h.advance _⟩
  nameWidth := Cursor.EitherCase.sees Directive.nameWidth_inCapitals
  equalsWidth := Cursor.EitherCase.sees Directive.equalsWidth_inCapitals
  variableName {c d} h := by
    change inCapitals _ = inCapitals _
    rw [← Text.take_inCapitals, ← Text.take_inCapitals, Cursor.EitherCase.capitals h]

/-- **Items.** The readings of a listing in either case keep in step. -/
theorem eitherCase_readsItems (files : FileReader) (filename : List Char) :
    eitherCase.ReadsItems files filename where
  toReadsDirectives := eitherCase_readsDirectives files filename
  samePlace h := h
  assign {c d name name' s t} a setting hc hname hplace := by
    obtain rfl := hplace
    unfold Assembly.assign
    rcases a.system.set_eitherCase setting hname with hset | ⟨key, key', hset, hset'⟩
    · rw [hset]
      cases a.system.set (.name name) setting with
      | error failure => exact matches_error ((eitherCase_readsPieces files filename).refusal failure hc rfl)
      | ok system => exact matches_ok ⟨rfl, rfl⟩
    · rw [hset, hset']
      exact matches_error (.complaint _)

/-! ## Whole listings -/

namespace Assembly

variable {files : FileReader} {filename : List Char} {c d : Cursor}

theorem skipGaps_eitherCase (h : c.EitherCase d) : c.skipGaps.EitherCase d.skipGaps := by
  fun_induction Cursor.skipGaps c generalizing d with
  | case1 c hzero =>
    rw [Cursor.skipGaps_of_gapWidth (by rw [h.measure Cursor.gapWidth_inCapitals, hzero])]
    exact h
  | case2 c hne hlt ih =>
    have hwidth := h.measure Cursor.gapWidth_inCapitals
    rw [Cursor.skipGaps.eq_def d, dif_neg (by rwa [hwidth])]
    exact ih (hwidth ▸ h.advance _)

/-- The same collection with the same warnings, and faults of the same kind at the same place or none at all. -/
structure CaselessPass (x y : Pass) : Prop where
  assembly : x.assembly = y.assembly
  warnings : x.events.warnings = y.events.warnings
  fault : (x.fault = none ∧ y.fault = none) ∨ ∃ f g, x.fault = some f ∧ y.fault = some g ∧ f.SameKind g

/-- **Whole listings.** Listings in either case are collected alike, by induction on their items. -/
theorem run_eitherCase {a : Assembly} {events events' : Journal} (h : c.EitherCase d)
    (hevents : events.warnings = events'.warnings) :
    CaselessPass (run files filename a c events) (run files filename a d events') := by
  have happend := @(eitherCase_readsPieces files filename).append
  fun_induction run files filename a c events generalizing d events'
  case case1 a c events here hend =>
    have hhere := skipGaps_eitherCase h
    have hend' : d.skipGaps.rest = [] := List.map_eq_nil_iff.mp (hhere.capitals.trans (congrArg inCapitals hend))
    rw [run_eq, if_pos hend']
    unfold finish
    cases a.pendingStart with
    | none => exact ⟨rfl, happend hevents rfl, .inl ⟨rfl, rfl⟩⟩
    | some start => exact ⟨rfl, hevents, .inr ⟨_, _, rfl, rfl, .complaint _⟩⟩
  case case2 a c events here hend item fault hnext =>
    have hhere := skipGaps_eitherCase h
    have hend' : d.skipGaps.rest ≠ [] := fun hnil =>
      hend (List.map_eq_nil_iff.mp (hhere.capitals.symm.trans (congrArg inCapitals hnil)))
    have hstep := (eitherCase_readsItems files filename).step (a := a) hhere
    obtain ⟨fault', hnext', hfault⟩ := hstep.next.of_error hnext
    rw [run_eq, if_neg hend', hnext']
    exact ⟨hstep.assembly, happend hevents hstep.events, .inr ⟨_, _, rfl, rfl, hfault⟩⟩
  case case3 a c events here hend item next hnext hlt ih =>
    have hhere := skipGaps_eitherCase h
    have hend' : d.skipGaps.rest ≠ [] := fun hnil =>
      hend (List.map_eq_nil_iff.mp (hhere.capitals.symm.trans (congrArg inCapitals hnil)))
    have hstep := (eitherCase_readsItems files filename).step (a := a) hhere
    obtain ⟨next', hnext', hcursors⟩ := hstep.next.of_ok hnext
    rw [run_eq a d, if_neg hend', hnext', ← hstep.assembly]
    exact ih hcursors (happend hevents hstep.events)

end Assembly

/-- The same kind of failure, for a wrong listing at the same place of it. -/
inductive EncodingFailure.SameKind : EncodingFailure → EncodingFailure → Prop where
  | invalid {e e' : SourceError} : e.location = e'.location → SameKind (.invalid e) (.invalid e')
  | same (failure : EncodingFailure) : SameKind failure failure

namespace Source

theorem text_ofText_inCapitals (filename text : List Char) :
    (ofText filename (inCapitals text)).text = inCapitals (ofText filename text).text := by
  have hreturn : ((· != '\r') ∘ Char.toUpper) = (· != '\r') := funext (Text.caseless_bne (by decide))
  have hfilter : (inCapitals text).filter (· != '\r') = inCapitals (text.filter (· != '\r')) := by
    rw [inCapitals, List.filter_map, hreturn, inCapitals]
  unfold ofText
  dsimp only
  rw [hfilter, Text.getLast?_inCapitals_beq (by decide)]
  split
  · rfl
  · rw [inCapitals, inCapitals, List.map_append]
    rfl

/-- Faults of the same kind are failures of the same kind. -/
theorem failure_sameKind {s s' : Source} (hname : s.filename = s'.filename) {f g : Fault} (h : f.SameKind g) :
    (s.failure f).SameKind (s'.failure g) := by
  cases h with
  | complaint place => exact .invalid (by rw [hname])
  | unknownSymbol => exact .same _
  | numeralTooLong => exact .same _

/-- **Letter case.** Let two texts differ in the case of letters from a to z only, and let no code in them include a
file, once carriage returns are left out. Then they have the same tape image with the same warnings, or both fail in the
same way with the same warnings, for a wrong listing at the same line and column. -/
theorem encodeImage_caseless (files : FileReader) (filename : List Char) {text text' : List Char}
    (hcase : inCapitals text = inCapitals text') (hfile : SpecialCode.paths (ofText filename text).text = []) :
    let x := (ofText filename text).encodeImage files
    let y := (ofText filename text').encodeImage files
    x.warnings = y.warnings ∧
      ((∃ bytes, x.result = .ok bytes ∧ y.result = .ok bytes) ∨
        ∃ failure failure', x.result = .error failure ∧ y.result = .error failure' ∧
          failure.SameKind failure') := by
  intro x y
  have hstart : Cursor.EitherCase (Cursor.start (ofText filename text).text)
      (Cursor.start (ofText filename text').text) := by
    refine ⟨?_, rfl, hfile⟩
    change inCapitals (ofText filename text').text = inCapitals (ofText filename text).text
    rw [← text_ofText_inCapitals, ← hcase, text_ofText_inCapitals]
  obtain ⟨hassembly, hwarnings, hfault⟩ :
      Assembly.CaselessPass ((ofText filename text).collect files) ((ofText filename text').collect files) :=
    Assembly.run_eitherCase hstart rfl
  rcases hfault with ⟨hx, hy⟩ | ⟨f, g, hx, hy, hkind⟩
  · subst x y
    unfold encodeImage Encoding.warnings
    dsimp only
    rw [hx, hy, ← hassembly]
    cases ((ofText filename text).collect files).assembly.image with
    | error failure => exact ⟨hwarnings, .inr ⟨failure, failure, rfl, rfl, .same failure⟩⟩
    | ok image =>
      exact ⟨(eitherCase_readsPieces files filename).append hwarnings rfl, .inl ⟨_, rfl, rfl⟩⟩
  · subst x y
    unfold encodeImage Encoding.warnings
    dsimp only
    rw [hx, hy]
    exact ⟨hwarnings, .inr ⟨_, _, rfl, rfl, failure_sameKind (by rfl) hkind⟩⟩

/-- A variable that is named like a keyword, in small letters and in capitals. -/
theorem encodeImage_caseless_sample :
    let files : FileReader := fun _ => .error []
    let small := "1 let to=2".toList
    let capitals := "1 LET To=2".toList
    let x := (ofText defaultName small).encodeImage files
    let y := (ofText defaultName capitals).encodeImage files
    inCapitals small = inCapitals capitals ∧ SpecialCode.paths (ofText defaultName small).text = [] ∧
      x.warnings.map Diagnostic.message = ["Variable name 'TO' is also a keyword".toList] ∧
        y.warnings = x.warnings ∧
          ((∃ bytes, x.result = .ok bytes ∧ y.result = .ok bytes) ∨
            ∃ failure failure', x.result = .error failure ∧ y.result = .error failure' ∧
              failure.SameKind failure') := by
  intro files small capitals x y
  have hcase : inCapitals small = inCapitals capitals := by decide
  have hfile : SpecialCode.paths (ofText defaultName small).text = [] := by decide +kernel
  have hsame := encodeImage_caseless files defaultName hcase hfile
  exact ⟨hcase, hfile, by decide +kernel, hsame.1.symm, hsame.2⟩

end Source

end TapeBasic
