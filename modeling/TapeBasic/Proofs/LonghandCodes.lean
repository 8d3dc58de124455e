import TapeBasic.Proofs.BracketBounds
import TapeBasic.Proofs.CodecFaults
import TapeBasic.Proofs.Reordering

/-!
# Codes in longhand

A code that includes a file, or that stands for a block of zeros, is short for the codes of single bytes with an empty
comment behind them. Where a pass over a listing reads such a code, in a statement, a remark, a string or a screen row,
the code can be replaced by its longhand, and the tape image stays the same: up to the code both listings are read in
the same way, the code and its longhand give the same bytes, and behind them the same text is left to be read.

* `SpecialCode.bytes?`, `SpecialCode.longhand`: the bytes of a code, and the codes of these bytes.
* `wherever`: two readings of the same text, wherever it stands.
* `Repeats x y`: the reading `y` comes to the result of `x`, in front of the same text.
* `Yields files filename a text b`: the items of the text make the collection `a` into `b`.
* `PassState.Swaps`: a state from which a pass does the same when the text behind a bracket is swapped.

Results:
* `Body.repeats_longhand`, `Row.repeats_longhand`: a code and its longhand give the same bytes.
* `Moves.swaps`: one move in front of a bracket, and so all of them.
* `Source.encodeImage_longhand`: a listing with a code in longhand has the same image.
-/
namespace TapeBasic

open Relation (ReflTransGen)

/-! ## The bytes of a code -/

namespace SpecialCode

/-- The bytes of the file that a code includes, or of the block that it stands for. -/
def bytes? (files : FileReader) : SpecialCode → Option (List UInt8)
  | .file path => (files path).toOption
  | .block digits => (Text.natural? digits).map fun n => List.replicate n 0
  | .comment => none
  | .byte _ => none

/-- The codes of single bytes, with an empty comment behind them. -/
def longhand (bytes : List UInt8) : List Char := bytes.flatMap Token.code ++ "[#]".toList

/-- Whether a code includes a file or stands for a block. -/
def isShort : SpecialCode → Bool
  | .file _ => true
  | .block _ => true
  | .comment => false
  | .byte _ => false

variable {files : FileReader} {c : Cursor} {code : SpecialCode} {bytes : List UInt8}

theorem bytes?_of_emit {emission : Emission} (hshort : code.isShort = true) (h : code.emit files c = .ok emission) :
    code.bytes? files = some emission.bytes := by
  rcases emit_cases h with ⟨rfl, -⟩ | ⟨_, _, rfl, -⟩ | ⟨digits, n, rfl, hnatural, -, rfl⟩ |
    ⟨path, bytes, rfl, hfile, rfl⟩
  · cases hshort
  · cases hshort
  · rw [bytes?, hnatural]
    rfl
  · rw [bytes?, hfile]
    rfl

theorem exists_of_longhand (bytes : List UInt8) : ∃ text, longhand bytes = '[' :: text := by
  cases bytes with
  | nil => exact ⟨_, rfl⟩
  | cons b bytes => exact ⟨_, rfl⟩

theorem exists_bracket_of_read? {lexeme : Lexeme Emission} (h : read? files c = .ok (some lexeme)) :
    ∃ text, c.rest = '[' :: text := by
  obtain ⟨code, hscan, -⟩ := exists_of_read? h
  exact exists_of_scan? hscan

end SpecialCode

/-! ## Readings of the same text -/

/-- Two readings of the same text, wherever it stands. -/
def wherever : Pairing where
  Cursors c d := d.rest = c.rest
  Places _ _ := True
  Names _ _ := True
  Faults _ _ := True
  Journals _ _ := True

/-- What is measured of the same text. -/
theorem wherever_sees (f : List Char → Nat) : wherever.Sees f := by
  intro c d hc
  refine ⟨congrArg f hc, ?_⟩
  change (d.advance _).rest = (c.advance _).rest
  rw [Cursor.rest_advance, Cursor.rest_advance, show d.rest = c.rest from hc]

theorem Grammar.read?_of_rest (g : Grammar) {c d : Cursor} (h : d.rest = c.rest) : g.read? d = g.read? c := by
  refine Grammar.read?_congr ?_
  unfold Grammar.scan? Cursor.peek
  rw [h]

/-- The same text is read in the same way, wherever it stands. -/
theorem readsPieces_wherever (files : FileReader) (filename : List Char) : wherever.ReadsPieces files filename where
  place _ := trivial
  complaint _ _ _ := trivial
  numeralTooLong := trivial
  silent _ := trivial
  append _ _ := trivial
  peek {c d _} hc _ := by rw [Cursor.peek, Cursor.peek, show d.rest = c.rest from hc]
  quote hc _ := (wherever_sees (fun _ => 1) hc).2
  spacing := wherever_sees _
  joinedSpacing := wherever_sees _
  continuation := wherever_sees _
  digits hc := ⟨congrArg _ hc, (wherever_sees (fun text => (text.takeWhile Text.isDecimal).length) hc).2⟩
  code {c d} hc := by
    refine (SpecialCode.read?_matches (congrArg _ hc) (fun _ => trivial) trivial fun _ _ => trivial).mono ?_
    rintro found _ ⟨rfl, -⟩
    exact ⟨rfl, fun lexeme _ => (wherever_sees (fun _ => lexeme.width) hc).2⟩
  token {c d} context hc := by
    rw [Grammar.read?_of_rest _ hc]
    refine matches_self (fun _ => trivial) fun found _ => ⟨rfl, fun lexeme _ => ?_⟩
    exact (wherever_sees (fun _ => lexeme.width) hc).2
  literal {c d} hc := by
    refine (Literal.read?_matches (by rw [show d.rest = c.rest from hc]) (fun _ => trivial) trivial).mono ?_
    rintro found _ ⟨rfl, -⟩
    exact ⟨rfl, fun lexeme _ => (wherever_sees (fun _ => lexeme.width) hc).2⟩
  name _ _ := trivial

/-- The second reading repeats the first one: if that comes to a result, it comes to the same in front of the same
text. -/
def Repeats {α : Type} (x y : Except Fault (α × Cursor)) : Prop :=
  ∀ a next, x = .ok (a, next) → ∃ next', y = .ok (a, next') ∧ next'.rest = next.rest

theorem Matches.repeats {α : Type} {x y : Except Fault (α × Cursor)}
    (h : Matches wherever.Faults wherever.Then x y) :
    Repeats x y := by
  rintro a next rfl
  rcases h with ⟨_, _, ⟨⟩, -, -⟩ | ⟨_, ⟨_, next'⟩, ⟨⟩, rfl, rfl, hnext⟩
  exact ⟨next', rfl, hnext⟩

/-! ## Codes and their longhand -/

section Longhand

variable {files : FileReader} {c d : Cursor} {bytes : List UInt8}

namespace Body

theorem reads_longhand (mode : Mode) (bytes : List UInt8) (tail : List Char) :
    Reads files mode (SpecialCode.longhand bytes) tail bytes mode.behindCode := by
  have hinner : ∀ c ∈ ([] : List Char), SpecialCode.isInner c = true := nofun
  exact reads_commented mode bytes tail hinner

theorem readFrom_skipContinuation (mode : Mode) {text : List Char} (hc : c.skipContinuation.rest = '[' :: text)
    (done : List UInt8) (events : Journal) :
    readFrom files mode c done events = readFrom files mode c.skipContinuation done events := by
  have hskip : c.skipContinuation.skipContinuation = c.skipContinuation := by
    rw [Cursor.skipContinuation.eq_def c.skipContinuation, hc]
    rfl
  rw [readFrom.eq_def files mode c, readFrom.eq_def files mode c.skipContinuation]
  simp only [hskip]

/-- **Lines.** In a line, a code and its longhand give the same bytes, whether or not a continuation stands in front
of them. -/
theorem repeats_longhand {mode : Mode} {lexeme : Lexeme Emission}
    (hread : SpecialCode.read? files c.skipContinuation = .ok (some lexeme))
    (hd : d.skipContinuation.rest = SpecialCode.longhand lexeme.value.bytes ++
      c.skipContinuation.rest.drop lexeme.width) (done : List UInt8) (events events' : Journal) :
    Repeats (readFrom files mode c done events).result (readFrom files mode d done events').result := by
  obtain ⟨text, hc⟩ := SpecialCode.exists_bracket_of_read? hread
  obtain ⟨text', hbracket⟩ := SpecialCode.exists_of_longhand lexeme.value.bytes
  obtain ⟨d', hd', hlong⟩ := reads_longhand mode lexeme.value.bytes _ d.skipContinuation done events' hd
  have hpeek : c.skipContinuation.peek ≠ '\n' := by
    rw [Cursor.peek_of_rest hc]
    decide
  have hcode : readFrom files mode c done events = readFrom files mode.behindCode
      (c.skipContinuation.advance lexeme.width) (lexeme.value.bytes.reverse ++ done)
      (events ++ lexeme.value.events) := readFrom_of_piece hpeek (piece_of_code hc hread)
  have hrest : wherever.Cursors (c.skipContinuation.advance lexeme.width) d' := by
    change d'.rest = _
    rw [hd', Cursor.rest_advance]
  rw [hbracket] at hd
  rw [hcode, readFrom_skipContinuation mode hd, hlong]
  exact ((readsPieces_wherever files []).readFrom hrest trivial).result.repeats

end Body

namespace Row

theorem readFrom_longhand {bytes : List UInt8} (h : Token.lineEnd ∉ bytes) {more : List Char}
    (hd : d.rest = SpecialCode.longhand bytes ++ more) (done : List UInt8) (events : Journal) :
    ∃ (d' : Cursor) (events' : Journal), d'.rest = more ∧
      readFrom files d done events = readFrom files d' (bytes.reverse ++ done) events' := by
  rw [SpecialCode.longhand, List.append_assoc] at hd
  obtain ⟨d₁, events₁, hd₁, heq₁⟩ := @readFrom_flatMap files Token.code Body.opens_code
    (fun b _ _ hb => readLetters_of_code hb) bytes h _ _ hd done events
  have hinner : ∀ c ∈ ([] : List Char), SpecialCode.isInner c = true := nofun
  obtain ⟨code, hscan, hvalue, hwidth⟩ := SpecialCode.scan?_comment more hinner
  have hemit : code.value.emit files d₁ = .ok { bytes := [] } := by
    rw [hvalue]
    rfl
  have hread : readLetters files .remark d₁ = .ok ⟨{ bytes := [] }, code.width, code.positive⟩ :=
    readLetters_eq_ok_iff.mpr (.inl (SpecialCode.read?_of_scan? (by rw [hd₁]; exact hscan) hemit))
  obtain ⟨d₂, events₂, hd₂, heq₂⟩ :=
    readFrom_letters hd₁ (Body.opens_of_head (by decide) (by decide)) hread rfl
    hwidth List.not_mem_nil (bytes.reverse ++ done) events₁
  exact ⟨d₂, events₂, hd₂, heq₁.trans heq₂⟩

/-- **Screen rows.** In a screen row, a code and its longhand give the same bytes. -/
theorem repeats_longhand {lexeme : Lexeme Emission} (hread : SpecialCode.read? files c = .ok (some lexeme))
    (hd : d.rest = SpecialCode.longhand lexeme.value.bytes ++ c.rest.drop lexeme.width) (done : List UInt8)
    (events events' : Journal) :
    Repeats (readFrom files c done events).result (readFrom files d done events').result := by
  obtain ⟨text, hc⟩ := SpecialCode.exists_bracket_of_read? hread
  have hpeek : c.peek ≠ '\n' := by
    rw [Cursor.peek_of_rest hc]
    decide
  have hletters : readLetters files .remark c = .ok lexeme := readLetters_eq_ok_iff.mpr (.inl hread)
  rw [readFrom, dif_neg hpeek, hletters]
  dsimp only
  split
  · -- a row with a line end is refused
    rintro a next ⟨⟩
  · next hend =>
    obtain ⟨d', events'', hd', hlong⟩ := @readFrom_longhand files _ _ (by simpa using hend) _ hd done events'
    have hrest : wherever.Cursors (c.advance lexeme.width) d' := by
      change d'.rest = _
      rw [hd', Cursor.rest_advance]
    rw [hlong]
    exact ((readsPieces_wherever files []).readRow hrest trivial).result.repeats

end Row

end Longhand

/-! ## What a text adds up to -/

/-- The items of the text make the collection `a` into `b`, wherever the text stands. -/
def Yields (files : FileReader) (filename : List Char) (a : Assembly) (text : List Char) (b : Assembly) : Prop :=
  ∃ items, Itemized files filename items text ∧ items.foldlM (Assembly.admit? files filename) a = some b ∧
    b.pendingStart = none

/-- The text at the cursor starts with an item: what it is, what it says, and where the reading goes on. -/
structure Item.Starts (files : FileReader) (filename : List Char) (c : Cursor) (item : List Char) (e : Item)
    (next : Cursor) : Prop where
  rest : c.rest = item ++ next.rest
  isText : Item.IsText files filename item
  ends : Text.Ends item next.rest
  value : Item.ofText? files filename item = some e
  read : Item.read files filename c = .ok (e, next)

namespace Yields

variable {files : FileReader} {filename text : List Char} {a a' b : Assembly} {c next : Cursor}

theorem behind {gap : List Char} (h : Yields files filename a text b) (hskips : Cursor.Skips gap) :
    Yields files filename a (gap ++ text) b := by
  obtain ⟨items, hitems, hfold⟩ := h
  exact ⟨items, hitems.behind hskips, hfold⟩

theorem skipGaps (h : Yields files filename a c.rest b) : Yields files filename a c.skipGaps.rest b := by
  obtain ⟨items, hitems, hfold⟩ := h
  rcases hitems.skipGaps with ⟨rfl, hnil⟩ | ⟨item, items', rest, rfl, hrest, hitem, hends, hitems'⟩
  · rw [hnil]
    exact ⟨[], .nil Cursor.skips_nil, hfold⟩
  · rw [hrest]
    exact ⟨_, .cons Cursor.skips_nil hitem hends hitems', hfold⟩

/-- A text starts with an item, if nothing is skipped in front of it. -/
theorem exists_item (h : Yields files filename a c.rest b) (hgap : Cursor.gapWidth c.rest = 0) (hc : c.rest ≠ []) :
    ∃ item e next a', Item.Starts files filename c item e next ∧ a.add? e = some a' ∧
      Yields files filename a' next.rest b := by
  obtain ⟨items, hitems, hfold, hpending⟩ := h
  have hskip := hitems.skipGaps
  rw [Cursor.skipGaps_of_gapWidth hgap] at hskip
  obtain ⟨item, items', rest, rfl, hrest, hitem, hends, hitems'⟩ := hskip.resolve_left fun h => hc h.2
  obtain ⟨e, next, hread, rfl, hvalue⟩ := hitem.read_at hends hrest
  rw [List.foldlM_cons, Assembly.admit?, hvalue, Option.bind_some] at hfold
  obtain ⟨a', hadd, hfold⟩ := Option.bind_eq_some_iff.mp hfold
  exact ⟨item, e, next, a', ⟨hrest, hitem, hends, hvalue, hread⟩, hadd, items', hitems', hfold, hpending⟩

/-- An item in front of a text. -/
theorem cons {item rest : List Char} {e : Item} (h : Yields files filename a' rest b)
    (hitem : Item.IsText files filename item) (hends : Text.Ends item rest)
    (hvalue : Item.ofText? files filename item = some e) (hadd : a.add? e = some a') :
    Yields files filename a (item ++ rest) b := by
  obtain ⟨items, hitems, hfold, hpending⟩ := h
  refine ⟨item :: items, .cons Cursor.skips_nil hitem hends hitems, ?_, hpending⟩
  rw [List.foldlM_cons, Assembly.admit?, hvalue, Option.bind_some, hadd]
  exact hfold

/-- Texts that start with the same item, and go on in the same way. -/
theorem of_repeats {d : Cursor} (h : Yields files filename a c.rest b) (hc : c.rest ≠ [])
    (hgap : Cursor.gapWidth c.rest = 0) (hgap' : Cursor.gapWidth d.rest = 0) (hends : Text.Ends d.rest [])
    (hrepeats : Repeats (Item.read files filename c) (Item.read files filename d)) :
    Yields files filename a d.rest b := by
  obtain ⟨item, e, next, a', hstarts, hadd, hyields⟩ := h.exists_item hgap hc
  obtain ⟨next', hread, hnext⟩ := hrepeats e next hstarts.read
  obtain ⟨item', hrest, hitem, hvalue, hline⟩ := Item.exists_isText hgap' hends hread
  rw [hrest]
  rw [hnext] at hline ⊢
  exact hyields.cons hitem hline hvalue hadd

end Yields

/-! ## What a state comes to -/

namespace Line

/-- The keyword of a line and the bytes behind it. -/
def readStatement (files : FileReader) (c : Cursor) : Except Fault ((UInt8 × List UInt8) × Cursor) := do
  let (command, behind) ← readCommand c
  let (body, atEnd) ← (Body.read files (bodyMode command) behind).result
  pure ((command, body), atEnd)

variable {files : FileReader} {filename : List Char} {c d next next' atEnd : Cursor} {command : UInt8}
  {body : List UInt8}

theorem readStatement_eq_ok_iff : readStatement files c = .ok ((command, body), atEnd) ↔
    ∃ behind, readCommand c = .ok (command, behind) ∧
      (Body.read files (bodyMode command) behind).result = .ok (body, atEnd) := by
  unfold readStatement
  cases readCommand c with
  | error fault => exact ⟨nofun, nofun⟩
  | ok read =>
    obtain ⟨command', behind⟩ := read
    change (do
      let (body, atEnd) ← (Body.read files (bodyMode command') behind).result
      pure ((command', body), atEnd)) = _ ↔ _
    cases hbody : (Body.read files (bodyMode command') behind).result with
    | error fault =>
      refine ⟨nofun, ?_⟩
      rintro ⟨_, ⟨⟩, hread⟩
      cases hbody.symm.trans hread
    | ok read =>
      constructor
      · rintro ⟨⟩
        exact ⟨behind, rfl, hbody⟩
      · rintro ⟨_, ⟨⟩, hread⟩
        cases hbody.symm.trans hread
        rfl

/-- Lines with the same number and the same text behind it. -/
theorem repeats_read {number : Nat} (hnumber : readNumber c = .ok (number, next))
    (hnumber' : readNumber d = .ok (number, next'))
    (hrepeats : Repeats (readSpacing next >>= readStatement files) (readSpacing next' >>= readStatement files)) :
    Repeats (read files filename none c).result (read files filename none d).result := by
  intro record atEnd h
  obtain @⟨_, command, body, _, atCommand, afterCommand, _, hread, -, hspacing, hcommand, hbody, hlength⟩ :=
    read_eq_ok_iff.mp h
  cases hnumber.symm.trans hread
  have hstatement : (readSpacing next >>= readStatement files) = .ok ((command, body), atEnd) := by
    rw [hspacing]
    exact readStatement_eq_ok_iff.mpr ⟨afterCommand, hcommand, hbody⟩
  obtain ⟨atEnd', hstatement', hend⟩ := hrepeats _ _ hstatement
  cases hspacing' : readSpacing next' with
  | error fault =>
    rw [hspacing'] at hstatement'
    cases hstatement'
  | ok atCommand' =>
    rw [hspacing'] at hstatement'
    obtain ⟨afterCommand', hcommand', hbody'⟩ := readStatement_eq_ok_iff.mp hstatement'
    exact ⟨atEnd', read_eq_ok_iff.mpr (.mk hnumber' nofun hspacing' hcommand' hbody' hlength), hend⟩

end Line

/-- From the second cursor the pass comes to what it comes to from the first one. The stages that lead to no code have
no part in this. -/
def Stage.Agrees (files : FileReader) (filename : List Char) : Stage → Cursor → Cursor → Prop
  | .gaps a, c, d => ∀ b, Yields files filename a.placeless c.rest b → Yields files filename a.placeless d.rest b
  | .item a, c, d => Cursor.gapWidth c.rest = 0 → ∀ b, Yields files filename a.placeless c.rest b →
    Yields files filename a.placeless d.rest b
  | .number, c, d => Repeats (Line.readSpacing c >>= Line.readStatement files)
      (Line.readSpacing d >>= Line.readStatement files)
  | .command, c, d => Repeats (Line.readStatement files c) (Line.readStatement files d)
  | .text mode, c, d => ∀ done events events', Repeats (Body.readFrom files mode c done events).result
      (Body.readFrom files mode d done events').result
  | .piece mode, c, d => ∀ c' d' : Cursor, c'.skipContinuation = c → d'.skipContinuation = d →
    ∀ done events events',
      Repeats (Body.readFrom files mode c' done events).result (Body.readFrom files mode d' done events').result
  | .row, c, d => ∀ done events events', Repeats (Row.readFrom files c done events).result
      (Row.readFrom files d done events').result
  | _, _, _ => False

/-- The pass does the same from this state when the text `v` behind an opening bracket is swapped for `v'`. -/
structure PassState.Swaps (files : FileReader) (filename v v' : List Char) (x : PassState) : Prop where
  ahead : ∃ u, x.cursor.rest = u ++ '[' :: v
  agrees {u : List Char} {d : Cursor} : Cursor.Ahead u v v' x.cursor d → x.stage.Agrees files filename x.cursor d

theorem PassState.Swaps.agrees_start {files : FileReader} {filename u v v' : List Char} {x : PassState}
    (h : x.Swaps files filename v v') (hx : x.cursor.rest = u ++ '[' :: v) :
    x.stage.Agrees files filename x.cursor (Cursor.start (u ++ '[' :: v')) := h.agrees ⟨hx, rfl⟩

/-! ## Moves in front of a bracket -/

section Agrees

variable {files : FileReader} {filename u v v' : List Char} {c d : Cursor}

/-- What follows a line end in front of the bracket also does so when the text behind the bracket is swapped. -/
theorem Text.Ends.swap {item w : List Char} (h : Ends item (w ++ '[' :: v)) (v' : List Char) :
    Ends item (w ++ '[' :: v') := by
  cases w with
  | nil => obtain (⟨_, ⟨⟩⟩ | ⟨⟨⟩, -⟩) := h
  | cons x w =>
    obtain (⟨_, hx⟩ | ⟨⟨⟩, -⟩) := h
    obtain rfl := (List.cons.inj hx).1
    exact .inl ⟨_, rfl⟩

theorem agrees_gaps {a : Assembly} {w : List Char} (h : Cursor.Ahead u v v' c d)
    (hw : c.skipGaps.rest = w ++ '[' :: v)
    (hitem : ∀ {d'}, Cursor.Ahead w v v' c.skipGaps d' → (Stage.item a).Agrees files filename c.skipGaps d') :
    (Stage.gaps a).Agrees files filename c d := by
  intro b hb
  obtain ⟨gap, hgap, hskips⟩ := c.exists_skips
  obtain rfl : u = gap ++ w := by
    apply List.append_cancel_right
    rw [← h.rest, List.append_assoc, ← hw, ← hgap]
  have hahead : Cursor.Ahead w v v' c.skipGaps (Cursor.start (w ++ '[' :: v')) := ⟨hw, rfl⟩
  have hswapped := hitem hahead c.gapWidth_skipGaps b hb.skipGaps
  rw [h.rest', List.append_assoc]
  exact hswapped.behind hskips

theorem agrees_item {a : Assembly} {next : Cursor} {w : List Char} (h : Cursor.Ahead u v v' c d)
    (hnext : (a.step files filename c).next = .ok next) (hw : next.rest = w ++ '[' :: v)
    (hgaps : ∀ {d'}, Cursor.Ahead w v v' next d' →
      (Stage.gaps (a.step files filename c).assembly).Agrees files filename next d') :
    (Stage.item a).Agrees files filename c d := by
  intro hgap b hb
  have hc : c.rest ≠ [] := by
    rw [h.rest]
    simp
  obtain ⟨item, e, next', a', hstarts, hadd, hyields⟩ := hb.exists_item hgap hc
  obtain ⟨e', hread, hadd'⟩ := Assembly.exists_item_of_step hnext
  cases hread.symm.trans hstarts.read
  obtain rfl := Option.some.inj (hadd'.symm.trans hadd)
  have hends := hstarts.ends
  have hrest := hstarts.rest
  rw [hw] at hends hrest
  obtain rfl : u = item ++ w := by
    apply List.append_cancel_right
    rw [← h.rest, hrest, List.append_assoc]
  have hahead : Cursor.Ahead w v v' next (Cursor.start (w ++ '[' :: v')) := ⟨hw, rfl⟩
  have hswapped := hgaps hahead b hyields
  rw [h.rest', List.append_assoc]
  exact hswapped.cons hstarts.isText (hends.swap v') hstarts.value hadd

theorem Text.Ends.prepend {w : List Char} (h : Ends w []) (hw : w ≠ []) (u : List Char) : Ends (u ++ w) [] := by
  obtain (⟨_, ⟨⟩⟩ | ⟨-, hlast⟩) := h
  refine .inr ⟨rfl, fun x hx => hlast x ?_⟩
  rwa [List.getLast?_append_of_ne_nil u hw] at hx

/-- A line is no directive. -/
theorem startsDirective_of_readNumber {next : Cursor} {n : Nat} (h : Line.readNumber c = .ok (n, next)) :
    Assembly.startsDirective c.rest = false := by
  obtain ⟨x, rest, hrest, hx⟩ := exists_decimal_of_readNumber h
  rw [Bool.eq_false_iff, ne_eq, Assembly.startsDirective_iff, hrest]
  rintro ⟨behind, hbehind⟩
  cases hbehind
  cases hx

theorem agrees_line {a : Assembly} {next : Cursor} {n : Nat} (hends : Text.Ends ('[' :: v') [])
    (h : Cursor.Ahead u v v' c d) (hnumber : Line.readNumber c = .ok (n, next))
    (hbehind : ∀ {w d'}, Cursor.Ahead w v v' next d' → Stage.number.Agrees files filename next d') :
    (Stage.item a).Agrees files filename c d := by
  intro hgap b hb
  obtain ⟨w, next', hnumber', hahead⟩ := h.readNumber hnumber
  obtain ⟨x, rest, hrest, hx⟩ := exists_decimal_of_readNumber hnumber
  obtain ⟨y, rest', hrest', -⟩ := exists_decimal_of_readNumber hnumber'
  obtain rfl : y = x := by
    have hpeek := h.peek
    rwa [Cursor.peek_of_rest hrest, Cursor.peek_of_rest hrest'] at hpeek
  have hgap' : Cursor.gapWidth d.rest = 0 := by
    rw [hrest] at hgap
    rw [hrest']
    exact gapless_of_isDecimal hx hgap rest'
  have hends' : Text.Ends d.rest [] := h.rest' ▸ hends.prepend (List.cons_ne_nil _ _) u
  refine hb.of_repeats (by rw [hrest]; exact List.cons_ne_nil _ _) hgap hgap' hends' ?_
  have hline : Repeats (Line.read files filename none c).result (Line.read files filename none d).result :=
    Line.repeats_read hnumber hnumber' (hbehind hahead)
  intro e atEnd hread
  cases Item.read_eq_ok_iff.mp hread with
  | header hstart => cases hstart.symm.trans (startsDirective_of_readNumber hnumber)
  | line _ hrecord =>
    obtain ⟨atEnd', hrecord', hend⟩ := hline _ atEnd hrecord
    exact ⟨atEnd', Item.read_eq_ok_iff.mpr (.line (startsDirective_of_readNumber hnumber') hrecord'), hend⟩

theorem startsDirective_append {text : List Char} (h : Assembly.startsDirective text = true) (more : List Char) :
    Assembly.startsDirective (text ++ more) = true := by
  obtain ⟨rest, rfl⟩ := Assembly.startsDirective_iff.mp h
  rfl

theorem Directive.read_row_iff (hsubject : subject (head c.rest).keyword = .row) {directive : Directive}
    {behind : Cursor} : (read files c).result = .ok (directive, behind) ↔ ∃ bytes, .row bytes = directive ∧
      (Row.read files (c.advance (head c.rest).width)).result = .ok (bytes, behind) := by
  refine readBehind_eq_ok_iff.trans ?_
  rw [hsubject]
  constructor
  · rintro ⟨⟩
    next hrow => exact ⟨_, rfl, hrow⟩
  · rintro ⟨bytes, rfl, hrow⟩
    exact .row hrow

theorem expectLineEnd_of_rest {next : Cursor} (hrest : d.rest = c.rest) (h : Assembly.expectLineEnd c = .ok next) :
    ∃ next', Assembly.expectLineEnd d = .ok next' ∧ next'.rest = next.rest := by
  have hskip : d.skipSpacing.rest = c.skipSpacing.rest :=
    (readsPieces_wherever (fun _ => .error []) []).skipSpacing hrest
  obtain ⟨rfl, hpeek⟩ := Assembly.expectLineEnd_eq_ok_iff.mp h
  refine ⟨_, Assembly.expectLineEnd_eq_ok_iff.mpr ⟨rfl, ?_⟩, hskip⟩
  rwa [Cursor.peek, hskip, ← Cursor.peek]

theorem agrees_directive {a : Assembly} {w : List Char} (hends : Text.Ends ('[' :: v') [])
    (h : Cursor.Ahead u v v' c d) (hstart : Assembly.startsDirective c.rest = true)
    (hsubject : Directive.subject (Directive.head c.rest).keyword = .row)
    (hw : (c.advance (Directive.head c.rest).width).rest = w ++ '[' :: v)
    (hbehind : ∀ {w d'}, Cursor.Ahead w v v' (c.advance (Directive.head c.rest).width) d' →
      Stage.row.Agrees files filename (c.advance (Directive.head c.rest).width) d') :
    (Stage.item a).Agrees files filename c d := by
  intro hgap b hb
  obtain ⟨hfront, hhead, hwidth⟩ := h.head hstart hw
  have hrow := hbehind (h.advance hwidth)
  have hgap' : Cursor.gapWidth d.rest = 0 := h.rest' ▸ gapless_of_startsDirective hfront _
  have hends' : Text.Ends d.rest [] := h.rest' ▸ hends.prepend (List.cons_ne_nil _ _) u
  have hstart' : Assembly.startsDirective d.rest = true := h.rest' ▸ startsDirective_append hfront _
  refine hb.of_repeats (Assembly.ne_nil_of_startsDirective hstart) hgap hgap' hends' ?_
  intro e atEnd hread
  cases Item.read_eq_ok_iff.mp hread with
  | line hline => cases hstart.symm.trans hline
  | header _ hdirective hend =>
    obtain ⟨bytes, rfl, hbytes⟩ := (Directive.read_row_iff hsubject).mp hdirective
    obtain ⟨behind', hbytes', hbehind'⟩ := hrow [] [] [] bytes _ hbytes
    obtain ⟨next', hend', hnext⟩ := expectLineEnd_of_rest hbehind' hend
    rw [← hhead] at hsubject hbytes'
    have hdirective' := (Directive.read_row_iff hsubject).mpr ⟨bytes, rfl, hbytes'⟩
    exact ⟨next', Item.read_eq_ok_iff.mpr (.header hstart' hdirective' hend'), hnext⟩

theorem agrees_number {next : Cursor} (h : Cursor.Ahead u v v' c d) (hspacing : Line.readSpacing c = .ok next)
    (hbehind : ∀ {w d'}, Cursor.Ahead w v v' next d' → Stage.command.Agrees files filename next d') :
    Stage.number.Agrees files filename c d := by
  obtain ⟨w, next', hspacing', hahead⟩ := h.readSpacing hspacing
  change Repeats (Line.readSpacing c >>= _) (Line.readSpacing d >>= _)
  rw [hspacing, hspacing']
  exact hbehind hahead

theorem agrees_command {next : Cursor} {command : UInt8} {w : List Char} (h : Cursor.Ahead u v v' c d)
    (hcommand : Line.readCommand c = .ok (command, next)) (hw : next.rest = w ++ '[' :: v)
    (hbehind : ∀ {w d'}, Cursor.Ahead w v v' next d' →
      (Stage.text (Line.bodyMode command)).Agrees files filename next d') :
    Stage.command.Agrees files filename c d := by
  obtain ⟨w, next', hcommand', hahead⟩ := h.readCommand hcommand hw
  rintro ⟨command', body⟩ atEnd hread
  obtain ⟨behind, hread, hbody⟩ := Line.readStatement_eq_ok_iff.mp hread
  cases hcommand.symm.trans hread
  obtain ⟨atEnd', hbody', hend⟩ := hbehind hahead [] [] [] body atEnd hbody
  exact ⟨atEnd', Line.readStatement_eq_ok_iff.mpr ⟨next', hcommand', hbody'⟩, hend⟩

theorem agrees_text {mode : Body.Mode} (h : Cursor.Ahead u v v' c d)
    (hbehind : ∀ {w d'}, Cursor.Ahead w v v' c.skipContinuation d' →
      (Stage.piece mode).Agrees files filename c.skipContinuation d') :
    (Stage.text mode).Agrees files filename c d :=
  hbehind h.skipContinuation c d rfl rfl

theorem agrees_piece {mode : Body.Mode} {lexeme : Lexeme Body.Piece} {w : List Char} (h : Cursor.Ahead u v v' c d)
    (hpeek : c.peek ≠ '\n') (hpiece : Body.piece files mode c = .ok lexeme)
    (hw : (c.advance lexeme.width).rest = w ++ '[' :: v)
    (hbehind : ∀ {w d'}, Cursor.Ahead w v v' (c.advance lexeme.width) d' →
      (Stage.text lexeme.value.next).Agrees files filename (c.advance lexeme.width) d') :
    (Stage.piece mode).Agrees files filename c d := by
  have hwidth := h.le_length hw
  have hpiece' := h.piece hpiece hwidth
  have hpeek' : d.peek ≠ '\n' := h.peek ▸ hpeek
  rintro c' d' rfl rfl done events events'
  rw [Body.readFrom_of_piece hpeek hpiece, Body.readFrom_of_piece hpeek' hpiece']
  exact hbehind (h.advance hwidth) _ _ _

theorem agrees_row {lexeme : Lexeme Emission} {w : List Char} (h : Cursor.Ahead u v v' c d) (hpeek : c.peek ≠ '\n')
    (hread : readLetters files .remark c = .ok lexeme) (hbytes : lexeme.value.bytes.contains Token.lineEnd = false)
    (hw : (c.advance lexeme.width).rest = w ++ '[' :: v)
    (hbehind : ∀ {w d'}, Cursor.Ahead w v v' (c.advance lexeme.width) d' →
      Stage.row.Agrees files filename (c.advance lexeme.width) d') :
    Stage.row.Agrees files filename c d := by
  have hwidth := h.le_length hw
  have hread' := h.readLetters hread hwidth
  have hpeek' : d.peek ≠ '\n' := h.peek ▸ hpeek
  intro done events events'
  rw [Row.readFrom_of_letters hpeek hread hbytes, Row.readFrom_of_letters hpeek' hread' hbytes]
  exact hbehind (h.advance hwidth) _ _ _

end Agrees

namespace Moves

variable {files : FileReader} {filename v v' : List Char} {x y : PassState}

/-- **One move.** If a move leads to where the texts may be swapped, so they may in front of it. -/
theorem swaps (hends : Text.Ends ('[' :: v') []) (h : Moves files filename x y)
    (hy : y.Swaps files filename v v') : x.Swaps files filename v v' := by
  obtain ⟨w, hw⟩ := hy.ahead
  refine ⟨?_, fun {u d} hahead => ?_⟩
  · obtain ⟨k, hk⟩ := h.exists_advance
    exact ⟨_, Cursor.exists_of_advance (hk ▸ hw)⟩
  · cases h with
    | skip a c => exact agrees_gaps hahead hw hy.agrees
    | item hc hnext => exact agrees_item hahead hnext hw hy.agrees
    | number hstart hnumber horder => exact agrees_line hends hahead hnumber hy.agrees
    | spacing hspacing => exact agrees_number hahead hspacing hy.agrees
    | command hcommand => exact agrees_command hahead hcommand hw hy.agrees
    | continuation mode c => exact agrees_text hahead hy.agrees
    | piece hpeek hpiece => exact agrees_piece hahead hpeek hpiece hw hy.agrees
    | code hpeek hread hbytes => exact agrees_row hahead hpeek hread hbytes hw hy.agrees
    | keyword hstart hknown =>
      have hbehind := hy.agrees_start hw
      generalize hsubject : Directive.subject (Directive.head _).keyword = subject at hy hbehind hw
      cases subject with
      | row => exact agrees_directive hends hahead hstart hsubject hw hy.agrees
      | start =>
        dsimp only [Stage.behindKeyword] at hbehind
        split at hbehind <;> cases hbehind
      | nothing | collapse | variableBytes | assignment | unknown _ => cases hbehind
    | digits | token | indent | ending | startDigits | refusedCode | name | settingNumber | bracket | opening
      | integer | separator | comma | entry | closing =>
      cases hy.agrees_start hw

theorem swaps_of_path (hends : Text.Ends ('[' :: v') []) (h : ReflTransGen (Moves files filename) x y)
    (hy : y.Swaps files filename v v') : x.Swaps files filename v v' := by
  induction h with
  | refl => exact hy
  | tail _ hmove ih => exact ih (hmove.swaps hends hy)

end Moves

/-- Where a code is read, it may be swapped for its longhand. -/
theorem PassState.swaps_longhand {files : FileReader} {x : PassState} {lexeme : Lexeme Emission} {v v' : List Char}
    (hreads : x.stage.loop? = some .codes ∨ ∃ mode, x.stage = .piece mode)
    (hread : SpecialCode.read? files x.cursor = .ok (some lexeme)) (hv : x.cursor.rest = '[' :: v)
    (hv' : '[' :: v' = SpecialCode.longhand lexeme.value.bytes ++ x.cursor.rest.drop lexeme.width)
    (filename : List Char) : x.Swaps files filename v v' := by
  obtain ⟨stage, c⟩ := x
  refine ⟨⟨[], hv⟩, fun {u d} hahead => ?_⟩
  have hu : u = [] := List.append_left_eq_self.mp (hahead.rest.symm.trans hv)
  have hd : d.rest = SpecialCode.longhand lexeme.value.bytes ++ c.rest.drop lexeme.width := by
    rw [hahead.rest', hu, List.nil_append, hv']
  rcases hreads with hrow | ⟨mode, rfl⟩
  · cases stage <;> cases hrow
    exact Row.repeats_longhand hread hd
  · rintro c' d' rfl rfl
    exact Body.repeats_longhand hread hd

/-! ## Listings -/

namespace Source

variable {files : FileReader} {filename front code back : List Char}

/-- Two listings, one of which is the other one with the text behind a bracket swapped. -/
theorem encodeImage_of_swaps {s s' : Source} {u v v' : List Char} {image : List UInt8}
    (hname : s'.filename = s.filename) (hs : s.text = u ++ '[' :: v) (hs' : s'.text = u ++ '[' :: v')
    (hend : ∀ x ∈ s.text.getLast?, x = '\n')
    (hswaps : PassState.Swaps files s.filename v v' ⟨.gaps {}, Cursor.start s.text⟩)
    (h : (s.encodeImage files).result = .ok image) : (s'.encodeImage files).result = .ok image := by
  obtain ⟨hfault, system, sizes, himage⟩ := encodeImage_eq_ok_iff.mp h
  obtain ⟨hitems, hfold, hpending⟩ := itemized_items hend hfault
  have hplaceless : (s.collect files).assembly.placeless.pendingStart = none := by
    simp [Assembly.placeless, hpending]
  have hahead : Cursor.Ahead u v v' (Cursor.start s.text) (Cursor.start s'.text) := ⟨hs, hs'⟩
  obtain ⟨items, hitems', hfold', -⟩ := hswaps.agrees hahead _ ⟨_, hitems, hfold, hplaceless⟩
  rw [← hname] at hitems' hfold'
  obtain ⟨hfault', hassembly⟩ := collect_of_itemized hitems' hfold' hplaceless
  refine encodeImage_eq_ok_iff.mpr ⟨hfault', system, sizes, ?_⟩
  rw [← Assembly.image_placeless, hassembly]
  exact himage

theorem exists_text_ofText (filename text : List Char) :
    ∃ tail, (ofText filename text).text = text.filter (· != '\r') ++ tail := by
  unfold ofText
  dsimp only
  split
  · exact ⟨[], (List.append_nil _).symm⟩
  · exact ⟨['\n'], rfl⟩

/-- A listing in parts, the middle one of which ends with a bracket. -/
theorem text_ofText_bracket (filename front back : List Char) {middle : List Char}
    (h : (middle.filter (· != '\r')).getLast? = some ']') :
    (ofText filename (front ++ (middle ++ back))).text =
      front.filter (· != '\r') ++ (middle.filter (· != '\r') ++ (ofText filename back).text) := by
  unfold ofText
  dsimp only
  rw [List.filter_append, List.filter_append]
  generalize middle.filter (· != '\r') = middle at h ⊢
  generalize back.filter (· != '\r') = back
  have hmiddle : middle ≠ [] := by
    rintro rfl
    cases h
  cases back with
  | nil =>
    rw [List.append_nil, List.getLast?_append_of_ne_nil _ hmiddle, h]
    exact List.append_assoc _ _ _
  | cons x back =>
    rw [List.getLast?_append_of_ne_nil _ (by simp), List.getLast?_append_of_ne_nil _ (List.cons_ne_nil x back)]
    split <;> simp

theorem filter_longhand (bytes : List UInt8) :
    (SpecialCode.longhand bytes).filter (· != '\r') = SpecialCode.longhand bytes := by
  refine filter_lineReturn (List.not_mem_append (fun hmem => ?_) (by decide))
  obtain ⟨b, -, hb⟩ := List.mem_flatMap.mp hmem
  exact lineReturn_not_mem_of_printable (Piece.printable_code b) hb

/-- A code that is read at a place of a listing stands there in brackets. -/
theorem bracketed_of_scan? {c : Cursor} {lexeme : Lexeme SpecialCode}
    (hin : c.IsIn (ofText filename (front ++ (code ++ back))).text)
    (hplace : c.offset (ofText filename (front ++ (code ++ back))).text = (front.filter (· != '\r')).length)
    (hscan : SpecialCode.scan? c.rest = some lexeme) (hwidth : lexeme.width = (code.filter (· != '\r')).length) :
    ∃ inner, code.filter (· != '\r') = '[' :: inner ++ [']'] := by
  obtain ⟨tail, htail⟩ := exists_text_ofText filename (front ++ (code ++ back))
  obtain ⟨inner, htake⟩ := SpecialCode.take_of_scan? hscan
  refine ⟨inner, ?_⟩
  rw [← htake, hin.rest_eq, hplace, hwidth, htail, List.filter_append, List.filter_append, List.append_assoc,
    List.append_assoc, List.drop_left, List.take_left]

/-- A code that is read in a listing without faults is one that can be written. -/
theorem exists_read?_of_reaches {s : Source} {x : PassState} {lexeme : Lexeme SpecialCode}
    (hfault : (s.collect files).fault = none) (hreaches : s.Reaches files x)
    (hreads : x.stage.loop? = some .codes ∨ ∃ mode, x.stage = .piece mode)
    (hscan : SpecialCode.scan? x.cursor.rest = some lexeme) :
    ∃ emission, lexeme.value.emit files x.cursor = .ok emission ∧
      SpecialCode.read? files x.cursor = .ok (some ⟨emission, lexeme.width, lexeme.positive⟩) := by
  cases hemit : lexeme.value.emit files x.cursor with
  | ok emission => exact ⟨emission, rfl, by simp only [SpecialCode.read?, hscan, hemit]⟩
  | error fault =>
    have hread : SpecialCode.read? files x.cursor = .error fault := by simp only [SpecialCode.read?, hscan, hemit]
    have hfails := Moves.fails_of_path hreaches (PassState.fails_of_code hreads hread s.filename) []
    cases hfault.symm.trans hfails

/-- **Codes in longhand.** Let a listing have a tape image, and let the pass over it read a code that includes a file
or that stands for a block of zeros, in a line or in a screen row. Then the code has bytes, and with the codes of these
bytes and an empty comment in its place the listing has the same image. -/
theorem encodeImage_longhand {image : List UInt8} {x : PassState} {lexeme : Lexeme SpecialCode}
    (h : (encodeImage files (ofText filename (front ++ (code ++ back)))).result = .ok image)
    (hreaches : (ofText filename (front ++ (code ++ back))).Reaches files x)
    (hreads : x.stage.loop? = some .codes ∨ ∃ mode, x.stage = .piece mode)
    (hplace : x.cursor.offset (ofText filename (front ++ (code ++ back))).text = (front.filter (· != '\r')).length)
    (hscan : SpecialCode.scan? x.cursor.rest = some lexeme) (hwidth : lexeme.width = (code.filter (· != '\r')).length)
    (hshort : lexeme.value.isShort = true) :
    ∃ bytes, lexeme.value.bytes? files = some bytes ∧
      (encodeImage files (ofText filename (front ++ (SpecialCode.longhand bytes ++ back)))).result = .ok image := by
  obtain ⟨hfault, -⟩ := encodeImage_eq_ok_iff.mp h
  obtain ⟨emission, hemit, hread⟩ := exists_read?_of_reaches hfault hreaches hreads hscan
  refine ⟨emission.bytes, SpecialCode.bytes?_of_emit hshort hemit, ?_⟩
  -- both texts have an opening bracket at the place, and a closing one in front of the rest
  obtain ⟨inner, hcode⟩ := bracketed_of_scan? hreaches.isIn hplace hscan hwidth
  obtain ⟨text, hbracket⟩ := SpecialCode.exists_of_longhand emission.bytes
  have hlast : (code.filter (· != '\r')).getLast? = some ']' := by
    rw [hcode, List.getLast?_concat]
  have hlast' : ((SpecialCode.longhand emission.bytes).filter (· != '\r')).getLast? = some ']' := by
    rw [filter_longhand, SpecialCode.longhand, List.getLast?_append_of_ne_nil _ (by decide)]
    rfl
  have htext := text_ofText_bracket filename front back hlast
  have htext' := text_ofText_bracket filename front back hlast'
  have hrest : x.cursor.rest = code.filter (· != '\r') ++ (ofText filename back).text := by
    rw [hreaches.isIn.rest_eq, hplace, htext, List.drop_left]
  rw [hcode] at htext hrest hwidth
  rw [filter_longhand, hbracket] at htext'
  have hends : Text.Ends ('[' :: (text ++ (ofText filename back).text)) [] := by
    refine .inr ⟨rfl, fun y hy => getLast?_ofText filename (front ++ ('[' :: text ++ back)) y ?_⟩
    rw [htext', List.cons_append, List.getLast?_append_of_ne_nil _ (List.cons_ne_nil _ _)]
    exact hy
  have hlong : '[' :: (text ++ (ofText filename back).text) =
      SpecialCode.longhand emission.bytes ++ x.cursor.rest.drop lexeme.width := by
    rw [hbracket, hrest, hwidth, List.drop_left]
    rfl
  have hswaps := PassState.swaps_longhand hreads hread hrest hlong filename
  rw [hbracket]
  have hname : (ofText filename (front ++ ('[' :: text ++ back))).filename =
      (ofText filename (front ++ (code ++ back))).filename := rfl
  exact encodeImage_of_swaps hname htext htext' (getLast?_ofText filename _)
    (Moves.swaps_of_path hends hreaches hswaps) h

/-- A remark with a file in it that has a quote, a number marker and a line end. -/
theorem encodeImage_longhand_sample :
    let files : FileReader := fun _ => .ok [11, 126, 118]
    let s := ofText defaultName ("10 REM ".toList ++ ("[!include A]".toList ++ "B".toList))
    let c := (Cursor.start s.text).advance 7
    s.Reaches files ⟨.piece .remark, c⟩ ∧ (SpecialCode.scan? c.rest).map Lexeme.value =
      some (.file "A".toList) ∧
      ∃ image, (encodeImage files s).result = .ok image ∧
        (encodeImage files (ofText defaultName
          ("10 REM ".toList ++ ("[11][126][118][#]".toList ++ "B".toList)))).result = .ok image := by
  intro files s c
  obtain ⟨hgap, hstart, hnumber, horder, hspacing, hcommand, hskip, hok⟩ :
      (Cursor.start s.text).skipGaps = Cursor.start s.text ∧
      Assembly.startsDirective s.text = false ∧
      Line.readNumber (Cursor.start s.text) = .ok (10, (Cursor.start s.text).advance 2) ∧
      Line.checkOrder 10 none (Cursor.start s.text).position ((Cursor.start s.text).advance 2) = .ok () ∧
      Line.readSpacing ((Cursor.start s.text).advance 2) = .ok ((Cursor.start s.text).advance 3) ∧
      Line.readCommand ((Cursor.start s.text).advance 3) = .ok (Token.rem, c) ∧
      c.skipContinuation = c ∧ (encodeImage files s).result.isOk = true := by
    decide +kernel
  have hreaches : s.Reaches files ⟨.piece .remark, c⟩ := by
    have hitem : s.Reaches files ⟨.item {}, (Cursor.start s.text).skipGaps⟩ := .single (.skip {} _)
    rw [hgap] at hitem
    have hpiece := (((hitem.move (.number hstart hnumber horder)).move (.spacing hspacing)).move
      (.command hcommand)).move (.continuation .remark c)
    rwa [hskip] at hpiece
  have hplace : c.offset s.text = ("10 REM ".toList.filter (· != '\r')).length := by decide +kernel
  have hcode : (SpecialCode.scan? c.rest).map (fun lexeme => (lexeme.value, lexeme.width)) =
      some (.file "A".toList, ("[!include A]".toList.filter (· != '\r')).length) := by
    decide +kernel
  obtain ⟨⟨value, width, positive⟩, hscan, hlexeme⟩ := Option.map_eq_some_iff.mp hcode
  obtain ⟨rfl, hwidth⟩ := Prod.mk.inj hlexeme
  cases himage : (encodeImage files s).result with
  | error failure =>
    rw [himage] at hok
    cases hok
  | ok image =>
    obtain ⟨bytes, hbytes, hlong⟩ :=
      encodeImage_longhand himage hreaches (.inr ⟨_, rfl⟩) hplace hscan hwidth rfl
    cases hbytes
    exact ⟨hreaches, congrArg (Option.map Lexeme.value) hscan, image, rfl, hlong⟩

end Source

end TapeBasic
