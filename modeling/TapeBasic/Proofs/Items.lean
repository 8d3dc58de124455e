import TapeBasic.Proofs.EncodedPrograms
import TapeBasic.Proofs.ItemTexts

/-!
# The items of a listing

A listing is a row of items, lines and directives, with gaps between them. What an item says does not depend on where
it stands, nor on the text behind it, so a listing can be taken apart into the texts of its items, and any row of such
texts can be put together to a listing again, as long as none of them is refused.

* `Item`: what an item says, and `Item.read`, which reads it by itself.
* `Item.IsText files filename text`: the text of an item, which can be read wherever it stands.
* `Itemized files filename items text`: the text is a row of these items, with gaps between them.
* `Assembly.add? a item`: what an item adds to a collection.
* `Source.items`: the texts of the items of a listing.

Results:
* `Item.read_inFrontOf`, `Item.exists_isText`: an item is read from a text of its own.
* `Assembly.exists_item_of_step`, `Assembly.step_of_item`: a step reads one item and adds it.
* `Assembly.items_of_run`, `Assembly.run_itemized`: a listing taken apart and put together.
* `Source.itemized_items`, `Source.collect_of_itemized`: the same for whole listings.
-/
namespace TapeBasic

/-! ## Reading an item by itself -/

/-- The directive without the place of an assignment. -/
def Directive.placeless : Directive → Directive
  | .assign name setting _ => .assign name setting ⟨0, 0⟩
  | directive => directive

/-- What an item of a listing says, wherever it stands. -/
inductive Item where
  | line (record : LineRecord)
  | header (directive : Directive)

namespace Item

/-- Reads an item by itself, whatever lines stand in front of it. -/
def read (files : FileReader) (filename : List Char) (c : Cursor) : Except Fault (Item × Cursor) :=
  if Assembly.startsDirective c.rest then
    match (Directive.read files c).result with
    | .error fault => .error fault
    | .ok (directive, behind) =>
      match Assembly.expectLineEnd behind with
      | .error fault => .error fault
      | .ok next => .ok (.header directive.placeless, next)
  else
    match (Line.read files filename none c).result with
    | .error fault => .error fault
    | .ok (record, next) => .ok (.line record, next)

variable {files : FileReader} {filename : List Char} {c d next : Cursor} {e : Item}

theorem peek_of_readFrom {mode : Body.Mode} {done bytes : List UInt8} {events : Journal}
    (h : (Body.readFrom files mode c done events).result = .ok (bytes, next)) : next.peek = '\n' := by
  fun_induction Body.readFrom files mode c done events with
  | case1 => cases h
  | case2 mode c done events here hpeek hmode =>
    simp only [Except.ok.injEq, Prod.mk.injEq] at h
    exact h.2 ▸ hpeek
  | case3 => cases h
  | case4 mode c done events here hpeek lexeme hpiece hlt ih => exact ih h

theorem peek_of_readLine {last : Option Nat} {record : LineRecord}
    (h : (Line.read files filename last c).result = .ok (record, next)) : next.peek = '\n' := by
  obtain ⟨-, -, -, -, hbody, -⟩ := Line.read_eq_ok_iff.mp h
  exact peek_of_readFrom hbody

/-- What stands at the cursor if an item is read: a directive up to its line end, or a line, which may stand behind
any other one. -/
inductive Stands (files : FileReader) (filename : List Char) (c : Cursor) : Item → Cursor → Prop where
  | header {directive : Directive} {behind next : Cursor} (hstart : Assembly.startsDirective c.rest = true)
    (hread : (Directive.read files c).result = .ok (directive, behind))
    (hend : Assembly.expectLineEnd behind = .ok next) : Stands files filename c (.header directive.placeless) next
  | line {record : LineRecord} {next : Cursor} (hstart : Assembly.startsDirective c.rest = false)
    (hread : (Line.read files filename none c).result = .ok (record, next)) :
    Stands files filename c (.line record) next

theorem read_eq_ok_iff : read files filename c = .ok (e, next) ↔ Stands files filename c e next := by
  constructor
  · intro h
    unfold read at h
    split at h
    · next hstart =>
      split at h
      · cases h
      · next hread =>
        split at h
        · cases h
        · next hend =>
          cases h
          exact .header hstart hread hend
    · next hstart =>
      split at h
      · cases h
      · next hread =>
        cases h
        exact .line (Bool.eq_false_iff.mpr hstart) hread
  · rintro (⟨hstart, hread, hend⟩ | ⟨hstart, hread⟩)
    · rw [read, if_pos hstart, hread]
      simp only [hend]
    · rw [read, if_neg (Bool.eq_false_iff.mp hstart), hread]

/-- An item is read through a closed text up to a line end. -/
theorem through_read (h : read files filename c = .ok (e, next)) : c.Through next ∧ next.peek = '\n' := by
  cases read_eq_ok_iff.mp h with
  | header hstart hread hend =>
    obtain ⟨hthrough, hpeek⟩ := Assembly.through_expectLineEnd hend
    exact ⟨(Directive.through_read hstart hread).trans hthrough, hpeek⟩
  | line _ hread => exact ⟨through_readLine hread, peek_of_readLine hread⟩

end Item

/-! ## Gaps -/

namespace Cursor

/-- A continuation is skipped. -/
theorem skips_continuation {spacing : List Char} (h : ∀ x ∈ spacing, Text.isSpacing x = true) :
    Skips ('\\' :: (spacing ++ ['\n'])) := by
  intro c tail hc
  have hrest : c.rest = '\\' :: (spacing ++ '\n' :: tail) := by simp [hc]
  have hcount : Text.countWhile Text.isSpacing (spacing ++ '\n' :: tail) = spacing.length := by
    rw [Text.countWhile, Text.takeWhile_append_cons h rfl]
  have hcontinue : continuationWidth ('\\' :: (spacing ++ '\n' :: tail)) = spacing.length + 2 := by
    rw [continuationWidth, hcount, List.drop_left]
    rfl
  have hgap : gapWidth c.rest = spacing.length + 2 := by
    have hblank : Text.countWhile Text.isBlank ('\\' :: (spacing ++ '\n' :: tail)) = 0 := rfl
    rw [hrest, gapWidth, hblank, hcontinue]
    rfl
  exact ⟨c.advance (spacing.length + 2), by simp [hc], by rw [skipGaps_advance, hgap]⟩

/-- A comment up to its line end, behind the mark. -/
theorem take_comment {rest : List Char} (h : rest.drop (Text.countWhile (· != '\n') rest) ≠ []) :
    ('#' :: rest).take (Text.countWhile (· != '\n') rest + 2) =
      '#' :: (rest.takeWhile (· != '\n') ++ ['\n']) := by
  have hsplit : rest.takeWhile (· != '\n') ++ rest.dropWhile (· != '\n') = rest := List.takeWhile_append_dropWhile
  have hbehind : rest.drop (Text.countWhile (· != '\n') rest) = rest.dropWhile (· != '\n') := by
    have hleft : (rest.takeWhile (· != '\n') ++ rest.dropWhile (· != '\n')).drop
        (Text.countWhile (· != '\n') rest) = rest.dropWhile (· != '\n') := List.drop_left
    rwa [hsplit] at hleft
  rw [hbehind] at h
  obtain ⟨x, tail, htail⟩ := List.exists_cons_of_ne_nil h
  obtain rfl : x = '\n' := by
    have hhead := List.head?_dropWhile_not (· != '\n') rest
    rw [htail] at hhead
    simpa using hhead
  rw [show Text.countWhile (· != '\n') rest + 2 = (Text.countWhile (· != '\n') rest + 1) + 1 from rfl,
    List.take_succ_cons, List.take_add, Text.take_countWhile, hbehind, htail]
  rfl

/-- What is skipped at once is skipped wherever it stands. -/
theorem skips_gap (text : List Char) : Skips (text.take (gapWidth text)) := by
  unfold gapWidth
  dsimp only
  split
  · rw [Text.take_countWhile]
    exact skips_blanks Text.mem_takeWhile
  · split
    · next hcontinue =>
      obtain ⟨spacing, hspacing, htake⟩ := take_continuation (bne_iff_ne.mp hcontinue)
      rw [htake]
      exact skips_continuation hspacing
    · unfold commentWidth
      split
      · next rest _ _ =>
        dsimp only
        split
        · exact skips_nil
        · next hclosed =>
          obtain ⟨hmark, hclosed⟩ := not_or.mp (mt Bool.or_eq_true_iff.mpr hclosed)
          rw [take_comment (mt List.isEmpty_iff.mpr hclosed)]
          refine skips_comment (fun hmem => ?_) fun hhead => hmark ?_
          · simpa using Text.mem_takeWhile '\n' hmem
          · obtain ⟨tail, htail⟩ := List.head?_eq_some_iff.mp hhead
            obtain ⟨behind, hprefix⟩ := List.takeWhile_prefix (l := rest) (· != '\n')
            rw [htail] at hprefix
            rw [← hprefix]
            rfl
      · exact skips_nil

/-- What is skipped in front of an item. -/
theorem exists_skips (c : Cursor) : ∃ gap, c.rest = gap ++ c.skipGaps.rest ∧ Skips gap := by
  fun_induction skipGaps c with
  | case1 c h => exact ⟨[], rfl, skips_nil⟩
  | case2 c h hlt ih =>
    obtain ⟨gap, hgap, hskips⟩ := ih
    refine ⟨c.rest.take (gapWidth c.rest) ++ gap, ?_, (skips_gap c.rest).append hskips⟩
    rw [List.append_assoc, ← hgap, rest_advance, List.take_append_drop]

end Cursor

/-! ## Readings in front of the same text -/

/-- Two readings stand in front of the same shut text, with `w` and `w'` behind it. -/
def inFrontOf (w w' : List Char) : Pairing where
  Cursors c d := ∃ u, Cursor.Share u w w' c d
  Places _ _ := True
  Names := Eq
  Faults _ _ := True
  Journals _ _ := True

theorem sharesText_inFrontOf (w w' : List Char) : (inFrontOf w w').SharesText where
  share := by
    rintro c d ⟨u, hshare⟩
    exact ⟨u, w, w', hshare, fun k hk => ⟨u.drop k, hshare.advance hk⟩⟩
  place _ := trivial
  complaint _ _ _ := trivial
  unreadable _ _ _ := trivial
  unknownSymbol := trivial
  numeralTooLong := trivial
  name _ := rfl
  journal _ _ := trivial

namespace Item

variable {files : FileReader} {filename : List Char} {c d next : Cursor} {e : Item}

/-- **Items.** What an item says does not depend on the text behind it. -/
theorem read_inFrontOf {w w' : List Char} (hc : (inFrontOf w w').Cursors c d) :
    Matches (inFrontOf w w').Faults (inFrontOf w w').Then (read files filename c) (read files filename d) := by
  have hreads := (sharesText_inFrontOf w w').readsDirectives files filename
  unfold read
  rw [hreads.starts hc]
  split
  · next hstarts =>
    rcases (hreads.readDirective hc hstarts).result with
      ⟨_, _, hx, hy, -⟩ | ⟨⟨directive, behind⟩, ⟨directive', behind'⟩, hx, hy, hsaid, hbehind⟩
    · rw [hx, hy]
      exact matches_error trivial
    · rw [hx, hy]
      dsimp only
      rcases hreads.expectLineEnd hbehind with ⟨_, _, hx, hy, -⟩ | ⟨_, _, hx, hy, hnext⟩
      · rw [hx, hy]
        exact matches_error trivial
      · rw [hx, hy]
        refine matches_ok ⟨congrArg Item.header ?_, hnext⟩
        cases hsaid with
        | same => rfl
        | assign setting hname =>
          obtain rfl := hname
          rfl
  · rcases (hreads.readLine none hc).result with ⟨_, _, hx, hy, -⟩ | ⟨_, _, hx, hy, hrecord, hnext⟩
    · rw [hx, hy]
      exact matches_error trivial
    · rw [hx, hy]
      exact matches_ok ⟨congrArg Item.line hrecord, hnext⟩

end Item

/-! ## Items of a text -/

/-- What an item says, read in a line of its own. -/
def Item.ofText? (files : FileReader) (filename item : List Char) : Option Item :=
  match Item.read files filename (Cursor.start (item ++ ['\n'])) with
  | .error _ => none
  | .ok (item, _) => some item

/-- The text is an item: nothing in it is skipped or reaches behind its end, and it is read as a whole. -/
structure Item.IsText (files : FileReader) (filename item : List Char) : Prop where
  gapless (v : List Char) : Cursor.gapWidth (item ++ v) = 0
  shut : Text.isShut item = true
  read : ∃ e next, Item.read files filename (Cursor.start (item ++ ['\n'])) = .ok (e, next) ∧ next.rest = ['\n']

theorem Item.IsText.ne_nil {files : FileReader} {filename item : List Char} (h : Item.IsText files filename item) :
    item ≠ [] := by
  rintro rfl
  exact absurd (h.gapless ['\n']) (by decide)

section Items

variable {files : FileReader} {filename item : List Char} {c next : Cursor} {e : Item}

/-- Behind an item, both readings stand at the end of the text they share. -/
theorem rest_of_inFrontOf {w w' : List Char} {c d : Cursor} (h : (inFrontOf w w').Cursors c d) (hc : c.rest = w) :
    d.rest = w' := by
  obtain ⟨u, hshare⟩ := h
  have hu : u = [] := List.append_left_eq_self.mp (hshare.rest.symm.trans hc)
  rw [hshare.rest', hu, List.nil_append]

/-- An item is read as such wherever its end is seen. -/
theorem Item.IsText.read_at (h : Item.IsText files filename item) {w : List Char} (hends : Text.Ends item w)
    (hc : c.rest = item ++ w) : ∃ e next, Item.read files filename c = .ok (e, next) ∧ next.rest = w ∧
      Item.ofText? files filename item = some e := by
  obtain ⟨e, behind, hread, hbehind⟩ := h.read
  have hshare : (inFrontOf ['\n'] w).Cursors (Cursor.start (item ++ ['\n'])) c :=
    ⟨item, h.shut, .inl ⟨[], rfl⟩, hends, rfl, hc⟩
  obtain ⟨⟨e', next⟩, hread', hthen⟩ := (Item.read_inFrontOf hshare).of_ok hread
  obtain rfl : e = e' := hthen.1
  refine ⟨e, next, hread', rest_of_inFrontOf hthen.2 hbehind, ?_⟩
  rw [Item.ofText?, hread]

theorem gapless_of_startsDirective (h : Assembly.startsDirective item = true) (v : List Char) :
    Cursor.gapWidth (item ++ v) = 0 := by
  obtain ⟨rest, rfl⟩ := Assembly.startsDirective_iff.mp h
  rfl

theorem gapless_of_isDecimal {x : Char} {rest : List Char} (hx : Text.isDecimal x = true)
    (hgap : Cursor.gapWidth (x :: rest) = 0) (v : List Char) : Cursor.gapWidth (x :: v) = 0 := by
  have hblank : Text.isBlank x = false := by
    cases hblank : Text.isBlank x with
    | false => rfl
    | true =>
      rw [Cursor.gapWidth_blank hblank] at hgap
      omega
  have hbackslash : x ≠ '\\' := by
    rintro rfl
    cases hx
  have hcomment : x ≠ '#' := by
    rintro rfl
    cases hx
  simp [Cursor.gapWidth, Text.countWhile, hblank, Cursor.continuationWidth, hbackslash, Cursor.commentWidth, hcomment]

theorem exists_decimal_of_readNumber {number : Nat} (h : Line.readNumber c = .ok (number, next)) :
    ∃ x rest, c.rest = x :: rest ∧ Text.isDecimal x = true := by
  obtain ⟨hne, -⟩ := Line.readNumber_eq_ok_iff.mp h
  obtain ⟨x, digits, hdigits⟩ := List.exists_cons_of_ne_nil hne
  have hx : x ∈ c.rest.takeWhile Text.isDecimal := hdigits ▸ List.mem_cons_self
  obtain ⟨rest, hrest⟩ := List.takeWhile_prefix (p := Text.isDecimal) (l := c.rest)
  rw [hdigits] at hrest
  exact ⟨x, digits ++ rest, hrest.symm, Text.mem_takeWhile x hx⟩

theorem exists_decimal_of_readLine {last : Option Nat} {record : LineRecord}
    (h : (Line.read files filename last c).result = .ok (record, next)) :
    ∃ x rest, c.rest = x :: rest ∧ Text.isDecimal x = true := by
  obtain ⟨hnumber, -⟩ := Line.read_eq_ok_iff.mp h
  exact exists_decimal_of_readNumber hnumber

/-- A directive takes at least the two characters at its start. -/
theorem length_directive_le {directive : Directive} {behind : Cursor} (hstarts : Assembly.startsDirective c.rest = true)
    (h : (Directive.read files c).result = .ok (directive, behind)) : behind.rest.length + 2 ≤ c.rest.length := by
  have hle := Directive.length_readBehind_le h
  have htwo := Directive.two_le_width_head c.rest
  have hlength := Assembly.two_le_of_startsDirective hstarts
  rw [Cursor.rest_advance, List.length_drop] at hle
  omega

/-- Nothing is skipped in front of the text of an item. -/
theorem gapless_of_read (hgap : Cursor.gapWidth c.rest = 0) (h : Item.read files filename c = .ok (e, next))
    (hitem : c.rest = item ++ next.rest) (v : List Char) : Cursor.gapWidth (item ++ v) = 0 := by
  have hlength := congrArg List.length hitem
  rw [List.length_append] at hlength
  cases Item.read_eq_ok_iff.mp h with
  | header hstarts hread hend =>
    have hle := length_directive_le hstarts hread
    have hend := Assembly.length_expectLineEnd_le hend
    obtain ⟨rest, hrest⟩ := Assembly.startsDirective_iff.mp hstarts
    rw [hitem] at hrest
    match item with
    | [] | [_] =>
      simp only [List.length_nil, List.length_singleton] at hlength
      omega
    | x :: y :: item =>
      cases hrest
      rfl
  | line _ hread =>
    have hlt := Line.length_read_lt hread
    obtain ⟨x, rest, hrest, hx⟩ := exists_decimal_of_readLine hread
    cases item with
    | nil =>
      rw [List.length_nil] at hlength
      omega
    | cons y item =>
      obtain ⟨rfl, -⟩ := List.cons.inj (hitem.symm.trans hrest)
      exact gapless_of_isDecimal hx (hrest ▸ hgap) (item ++ v)

/-- **The text of an item.** An item that is read takes the text of an item. -/
theorem Item.exists_isText (hgap : Cursor.gapWidth c.rest = 0) (hends : Text.Ends c.rest [])
    (h : Item.read files filename c = .ok (e, next)) : ∃ item, c.rest = item ++ next.rest ∧
      Item.IsText files filename item ∧ Item.ofText? files filename item = some e ∧ Text.Ends item next.rest := by
  obtain ⟨⟨item, hitem, hclosed⟩, hpeek⟩ := Item.through_read h
  have hshut := Text.isShut_of_isClosed hclosed
  have hline : Text.Ends item next.rest := by
    cases hrest : next.rest with
    | nil =>
      rw [hitem, hrest, List.append_nil] at hends
      exact hends
    | cons x rest =>
      obtain rfl : x = '\n' := by simpa [Cursor.peek, hrest] using hpeek
      exact .inl ⟨rest, rfl⟩
  have hshare : (inFrontOf next.rest ['\n']).Cursors c (Cursor.start (item ++ ['\n'])) :=
    ⟨item, hshut, hline, .inl ⟨[], rfl⟩, hitem, rfl⟩
  obtain ⟨behind, hread, hbehind⟩ : ∃ behind, Item.read files filename (Cursor.start (item ++ ['\n'])) =
      .ok (e, behind) ∧ behind.rest = ['\n'] := by
    obtain ⟨⟨e', behind⟩, hread', hthen⟩ := (Item.read_inFrontOf hshare).of_ok h
    obtain rfl : e = e' := hthen.1
    exact ⟨behind, hread', rest_of_inFrontOf hthen.2 rfl⟩
  exact ⟨item, hitem, ⟨gapless_of_read hgap h hitem, hshut, e, behind, hread, hbehind⟩,
    by rw [Item.ofText?, hread], hline⟩

end Items

/-! ## Rows of items -/

/-- The text is a row of these items, with gaps in front of them and behind the last one. -/
inductive Itemized (files : FileReader) (filename : List Char) : List (List Char) → List Char → Prop where
  | nil {gap : List Char} (skips : Cursor.Skips gap) : Itemized files filename [] gap
  | cons {gap item rest : List Char} {items : List (List Char)} (skips : Cursor.Skips gap)
      (isText : Item.IsText files filename item) (ends : Text.Ends item rest)
      (itemized : Itemized files filename items rest) : Itemized files filename (item :: items) (gap ++ (item ++ rest))

namespace Itemized

variable {files : FileReader} {filename text : List Char} {items : List (List Char)}

/-- The items are texts of items, and stand in the text. -/
theorem of_mem (h : Itemized files filename items text) :
    ∀ item ∈ items, Item.IsText files filename item ∧ item <:+: text := by
  induction h with
  | nil skips => exact nofun
  | @cons gap item rest items hskips hitem hends hitems ih =>
    refine List.forall_mem_cons.mpr ⟨⟨hitem, gap, rest, by rw [List.append_assoc]⟩, fun other hother => ?_⟩
    obtain ⟨hother, hinfix⟩ := ih other hother
    refine ⟨hother, hinfix.trans ⟨gap ++ item, [], ?_⟩⟩
    rw [List.append_nil, List.append_assoc]

/-- A gap in front of a row of items. -/
theorem behind {gap : List Char} (h : Itemized files filename items text) (hskips : Cursor.Skips gap) :
    Itemized files filename items (gap ++ text) := by
  cases h with
  | nil hskips' => exact .nil (hskips.append hskips')
  | cons hskips' hitem hends hitems =>
    rw [← List.append_assoc]
    exact .cons (hskips.append hskips') hitem hends hitems

/-- Behind its first gap, a row of items is at its end or starts with an item. -/
theorem skipGaps {c : Cursor} (h : Itemized files filename items c.rest) :
    (items = [] ∧ c.skipGaps.rest = []) ∨ ∃ item items' rest, items = item :: items' ∧
      c.skipGaps.rest = item ++ rest ∧ Item.IsText files filename item ∧ Text.Ends item rest ∧
        Itemized files filename items' rest := by
  generalize htext : c.rest = text at h
  cases h with
  | nil hskips =>
    obtain ⟨c', hc', hskip⟩ := hskips c [] (htext.trans (List.append_nil _).symm)
    have hgap : Cursor.gapWidth c'.rest = 0 := by
      rw [hc']
      rfl
    rw [hskip, Cursor.skipGaps_of_gapWidth hgap]
    exact .inl ⟨rfl, hc'⟩
  | @cons gap item rest items hskips hitem hends hitems =>
    obtain ⟨c', hc', hskip⟩ := hskips c _ htext
    have hgap : Cursor.gapWidth c'.rest = 0 := hc' ▸ hitem.gapless rest
    rw [hskip, Cursor.skipGaps_of_gapWidth hgap]
    exact .inr ⟨item, items, rest, rfl, hc', hitem, hends, hitems⟩

end Itemized

/-! ## What an item adds -/

namespace Assembly

variable {files : FileReader} {filename item : List Char} {a : Assembly} {c next : Cursor} {e : Item}

/-- The collection without the place of the directive that names the line to start with. -/
def placeless (a : Assembly) : Assembly :=
  { a with pendingStart := a.pendingStart.map fun start => (start.1, ⟨0, 0⟩) }

/-- What an item adds to a collection, unless it is refused. -/
def add? (a : Assembly) : Item → Option Assembly
  | .line record => if a.lastNumber.all (· < record.number) then some (a.addRecord record) else none
  | .header directive => (a.obey ⟨0, 0⟩ (Cursor.start []) directive).toOption.map Prod.fst

theorem addRecord_placeless (a : Assembly) (r : LineRecord) : a.placeless.addRecord r = (a.addRecord r).placeless := by
  unfold addRecord placeless
  cases hpending : a.pendingStart with
  | none => rfl
  | some start =>
    simp only [Option.map_some, Option.any_some]
    split <;> simp [programSize]

theorem add?_header (a : Assembly) (place : Position) (c : Cursor) (directive : Directive) :
    a.placeless.add? (.header directive.placeless) =
      (a.obey place c directive).toOption.map fun x => x.1.placeless := by
  cases directive with
  | nothing | collapse | row _ | variableBytes _ => rfl
  | start number =>
    change ((a.placeless.nameStart number ⟨0, 0⟩ (Cursor.start [])).toOption.map Prod.fst) =
      (a.nameStart number place c).toOption.map fun x => x.1.placeless
    have hlast : a.placeless.lastNumber = a.lastNumber := rfl
    unfold nameStart
    rw [hlast]
    cases a.lastNumber with
    | none => rfl
    | some last =>
      dsimp only
      split <;> rfl
  | assign name setting at_ =>
    change ((a.placeless.assign name setting ⟨0, 0⟩ (Cursor.start [])).toOption.map Prod.fst) =
      (a.assign name setting at_ c).toOption.map fun x => x.1.placeless
    have hsystem : a.placeless.system = a.system := rfl
    unfold assign
    rw [hsystem]
    cases a.system.set (.name name) setting <;> rfl

end Assembly

namespace Line

variable {files : FileReader} {filename : List Char} {last : Option Nat} {c next : Cursor} {record : LineRecord}

/-- A line is read behind the lines with lower numbers. -/
theorem read_ok_iff : (read files filename last c).result = .ok (record, next) ↔
    (read files filename none c).result = .ok (record, next) ∧ ∀ n ∈ last, n < record.number := by
  simp only [read_eq_ok_iff]
  constructor
  · rintro ⟨hnumber, horder, hspacing, hcommand, hbody, hlength⟩
    exact ⟨.mk hnumber nofun hspacing hcommand hbody hlength, horder⟩
  · rintro ⟨⟨hnumber, -, hspacing, hcommand, hbody, hlength⟩, horder⟩
    exact .mk hnumber horder hspacing hcommand hbody hlength

end Line

namespace Assembly

variable {files : FileReader} {filename item : List Char} {a : Assembly} {c next : Cursor} {e : Item}

theorem all_lt_iff {last : Option Nat} {number : Nat} : last.all (· < number) = true ↔
    ∀ n ∈ last, n < number := by
  cases last <;> simp

/-- **One step.** A step that goes on reads an item and adds it. -/
theorem exists_item_of_step (h : (step files filename a c).next = .ok next) :
    ∃ e, Item.read files filename c = .ok (e, next) ∧
      a.placeless.add? e = some (step files filename a c).assembly.placeless := by
  have hgoes := goes_of_step h
  generalize (step files filename a c).assembly = b at hgoes ⊢
  cases hgoes with
  | @directive _ directive events behind _ hstart hread hobey hend =>
    have hobeyed : a.obey c.position behind directive = .ok (b, events) := obey_eq_ok_iff.mpr hobey
    refine ⟨.header directive.placeless, Item.read_eq_ok_iff.mpr (.header hstart hread hend), ?_⟩
    rw [add?_header a c.position behind, hobeyed]
    rfl
  | @line record _ hstart hread =>
    obtain ⟨hnone, hlast⟩ := Line.read_ok_iff.mp hread
    refine ⟨.line record, Item.read_eq_ok_iff.mpr (.line hstart hnone), ?_⟩
    exact (if_pos (all_lt_iff.mpr hlast)).trans (congrArg some (addRecord_placeless a record))

/-- An item that can be added is a step. -/
theorem step_of_item (hread : Item.read files filename c = .ok (e, next)) {b : Assembly}
    (hadd : a.placeless.add? e = some b) :
    (step files filename a c).next = .ok next ∧ (step files filename a c).assembly.placeless = b := by
  cases Item.read_eq_ok_iff.mp hread with
  | @header directive behind _ hstart hdirective hend =>
    rw [add?_header a c.position behind] at hadd
    cases hobey : a.obey c.position behind directive with
    | error fault =>
      rw [hobey] at hadd
      cases hadd
    | ok x =>
      rw [hobey] at hadd
      cases hadd
      have hgoes : Goes files filename a c _ _ := .directive hstart hdirective (obey_eq_ok_iff.mp hobey) hend
      obtain ⟨hnext, hassembly⟩ := goes_iff.mp hgoes
      exact ⟨hnext, congrArg placeless hassembly⟩
  | @line record _ hstart hline =>
    change (if a.lastNumber.all (· < record.number) then some (a.placeless.addRecord record) else none) = _ at hadd
    split at hadd
    · next hlast =>
      cases hadd
      obtain ⟨hnext, hassembly⟩ :=
        goes_iff.mp (.line hstart (Line.read_ok_iff.mpr ⟨hline, all_lt_iff.mp hlast⟩))
      refine ⟨hnext, ?_⟩
      rw [hassembly, addRecord_placeless]
    · cases hadd

/-! ## Items of a listing -/

/-- The texts of the items from the cursor on, as long as they can be read: what each directive or line takes. -/
def items (files : FileReader) (filename : List Char) (a : Assembly) (c : Cursor) : List (List Char) :=
  let here := c.skipGaps
  if hend : here.rest = [] then []
  else
    let item := step files filename a here
    match hnext : item.next with
    | .error _ => []
    | .ok next =>
      have : next.rest.length < c.rest.length :=
        Nat.lt_of_lt_of_le (length_step_lt hend hnext) c.length_skipGaps_le
      here.rest.take (here.rest.length - next.rest.length) :: items files filename item.assembly next
termination_by c.rest.length
decreasing_by assumption

theorem items_eq (a : Assembly) (c : Cursor) :
    items files filename a c =
      if c.skipGaps.rest = [] then []
      else
        match (step files filename a c.skipGaps).next with
        | .error _ => []
        | .ok next =>
          c.skipGaps.rest.take (c.skipGaps.rest.length - next.rest.length) ::
            items files filename (step files filename a c.skipGaps).assembly next := by
  rw [items.eq_def]
  by_cases h : c.skipGaps.rest = []
  · rw [dif_pos h, if_pos h]
  · rw [dif_neg h, if_neg h]
    dsimp only
    split <;> simp_all

/-- Adds what an item says, unless it is refused. -/
def admit? (files : FileReader) (filename : List Char) (a : Assembly) (item : List Char) : Option Assembly :=
  (Item.ofText? files filename item).bind a.add?

/-- The first item of a text that goes on. -/
theorem items_of_step (hnil : c.skipGaps.rest ≠ []) (hstep : (step files filename a c.skipGaps).next = .ok next)
    (hitem : c.skipGaps.rest = item ++ next.rest) :
    items files filename a c = item :: items files filename (step files filename a c.skipGaps).assembly next := by
  rw [items_eq, if_neg hnil, hstep]
  dsimp only
  rw [hitem, List.length_append, Nat.add_sub_cancel, List.take_left]

/-- **A listing taken apart.** It is a row of its items, which add up to what was collected. -/
theorem items_of_run {events : Journal} (hends : Text.Ends c.rest [])
    (h : (run files filename a c events).fault = none) :
    Itemized files filename (items files filename a c) c.rest ∧
      (items files filename a c).foldlM (admit? files filename) a.placeless =
        some (run files filename a c events).assembly.placeless ∧
      (run files filename a c events).assembly.pendingStart = none := by
  fun_induction run files filename a c events with
  | case1 a c events here hend =>
    obtain ⟨gap, hgap, hskips⟩ := c.exists_skips
    rw [show c.skipGaps.rest = [] from hend, List.append_nil] at hgap
    rw [items_eq, if_pos hend]
    unfold finish at h ⊢
    cases hpending : a.pendingStart with
    | some start =>
      rw [hpending] at h
      cases h
    | none => exact ⟨hgap ▸ .nil hskips, rfl, hpending⟩
  | case2 => cases h
  | case3 a c events here hend item next hnext hlt ih =>
    obtain ⟨gap, hgap, hskips⟩ := c.exists_skips
    have hends : Text.Ends here.rest [] := hends.of_suffix c.rest_skipGaps_suffix
    obtain ⟨e, hread, hadd⟩ := exists_item_of_step hnext
    obtain ⟨text, htext, hitem, hsays, hline⟩ := Item.exists_isText c.gapWidth_skipGaps hends hread
    obtain ⟨hitems, hfold, hpending⟩ := ih (hends.of_suffix ⟨text, htext.symm⟩) h
    rw [items_of_step hend hnext htext]
    refine ⟨?_, ?_, hpending⟩
    · rw [hgap, show c.skipGaps.rest = text ++ next.rest from htext]
      exact .cons hskips hitem hline hitems
    · rw [List.foldlM_cons, admit?, hsays, Option.bind_some, hadd]
      exact hfold

/-- **A listing put together.** A row of items that add up to a collection is read as this collection. -/
theorem run_itemized {items : List (List Char)} {text : List Char} (hitems : Itemized files filename items text)
    {b : Assembly} (hfold : items.foldlM (admit? files filename) a.placeless = some b)
    (hpending : b.pendingStart = none) (hc : c.rest = text) {events : Journal} :
      (run files filename a c events).fault = none ∧
      (run files filename a c events).assembly.placeless = b := by
  induction hitems generalizing a c events with
  | nil hskips =>
    obtain ⟨c', hc', hrun⟩ := run_of_skips hskips (hc.trans (List.append_nil _).symm)
    obtain rfl : a.placeless = b := Option.some.inj hfold
    have hnone : a.pendingStart = none := Option.map_eq_none_iff.mp hpending
    rw [hrun, run_end hc', finish, hnone]
    exact ⟨rfl, rfl⟩
  | @cons gap item rest items hskips hitem hends hitems ih =>
    obtain ⟨here, hhere, hrun⟩ := run_of_skips hskips hc
    obtain ⟨e, next, hread, hnext, hsays⟩ := hitem.read_at hends hhere
    rw [List.foldlM_cons, admit?, hsays, Option.bind_some] at hfold
    obtain ⟨b', hadd, hfold⟩ := Option.bind_eq_some_iff.mp hfold
    obtain ⟨hstep, rfl⟩ := step_of_item hread hadd
    have hgap : Cursor.gapWidth here.rest = 0 := hhere ▸ hitem.gapless rest
    rw [hrun, run_of_step hgap (by simp [hhere, hitem.ne_nil]) hstep]
    exact ih hfold hnext

end Assembly

/-! ## Listings of items -/

namespace Source

variable {files : FileReader} {s : Source}

/-- The texts of the items of a listing, in their order. -/
def items (files : FileReader) (s : Source) : List (List Char) :=
  Assembly.items files s.filename {} (Cursor.start s.text)

/-- What a listing without a fault is made of. -/
theorem itemized_items (hend : ∀ x ∈ s.text.getLast?, x = '\n') (h : (s.collect files).fault = none) :
    Itemized files s.filename (s.items files) s.text ∧
      (s.items files).foldlM (Assembly.admit? files s.filename) (Assembly.placeless {}) =
        some (s.collect files).assembly.placeless ∧ (s.collect files).assembly.pendingStart = none :=
  Assembly.items_of_run (.inr ⟨rfl, hend⟩) h

/-- What is collected from a row of items. -/
theorem collect_of_itemized {items : List (List Char)} (h : Itemized files s.filename items s.text) {b : Assembly}
    (hfold : items.foldlM (Assembly.admit? files s.filename) (Assembly.placeless {}) = some b)
    (hpending : b.pendingStart = none) :
    (s.collect files).fault = none ∧ (s.collect files).assembly.placeless = b :=
  Assembly.run_itemized h hfold hpending rfl

end Source

end TapeBasic
