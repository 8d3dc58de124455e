import TapeBasic.Proofs.Reordering

/-!
# Listings one behind the other

Nothing that is read in one listing reaches into a listing behind it: the first one ends with a line end, and an item in
front of that end is closed, unless the line is continued. So the items of both listings in a row are the items of the
one and then those of the other, and with rising line numbers the program of the whole is the one program with the other
behind it.

* `Text.isContinued text`: the last line of the text is continued in the next one.
* `Source.lineNumbers`, `Source.numbers`: the numbers of the lines of a listing, and with them those of the lines to
  start with.
* `Assembly.Behind front b b'`: `b'` is `b` with the records `front` in front of its own.

Results:
* `Itemized.append`: two rows of items are one.
* `Assembly.Behind.add?`, `Assembly.Behind.foldlM`: what items add behind a program is what they add by themselves.
* `Source.encodeProgram_append`: the program of two listings in a row.
-/
namespace TapeBasic

/-! ## Texts that are continued -/

namespace Text

/-- Whether the last line of a text, up to a line end, ends with a backslash and spacing. -/
def isContinued (text : List Char) : Bool := (text.dropLast.reverse.dropWhile isSpacing).head? == some '\\'

theorem isContinued_of_backslash (front : List Char) {spacing : List Char} (h : spacing.all isSpacing = true) :
    isContinued (front ++ '\\' :: (spacing ++ ['\n'])) = true := by
  have hlast : (front ++ '\\' :: (spacing ++ ['\n'])).dropLast = front ++ '\\' :: spacing := by
    rw [← List.cons_append, ← List.append_assoc, List.dropLast_concat]
  have hreverse : ∀ x ∈ spacing.reverse, isSpacing x = true := fun x hx =>
    List.all_eq_true.mp h x (List.mem_reverse.mp hx)
  rw [isContinued, hlast, List.reverse_append, List.reverse_cons, List.append_assoc,
    List.dropWhile_append_of_pos hreverse]
  rfl

/-- A text that ends with a continued one is continued. -/
theorem isContinued_append (front : List Char) {text : List Char} (h : isContinued text = true) :
    isContinued (front ++ text) = true := by
  have hne : text ≠ [] := by
    rintro rfl
    cases h
  unfold isContinued at h ⊢
  rw [List.dropLast_append_of_ne_nil hne, List.reverse_append, List.dropWhile_append]
  split
  · next hempty =>
    rw [List.isEmpty_iff.mp hempty] at h
    cases h
  · next hnonempty =>
    rw [List.head?_append_of_ne_nil _ (mt List.isEmpty_iff.mpr hnonempty)]
    exact h

/-- A text is shut by its line end only where it is continued. -/
theorem isShut_of_concat {u : List Char} (h : isShut (u ++ ['\n']) = true)
    (hcontinued : isContinued (u ++ ['\n']) = false) : isShut u = true := by
  induction u with
  | nil => rfl
  | cons c rest ih =>
    simp only [List.cons_append, isShut, Bool.and_eq_true, Bool.or_eq_true] at h
    obtain ⟨⟨hbracket, -⟩, hrest⟩ := h
    have hbehind : isContinued (rest ++ ['\n']) = false :=
      Bool.eq_false_iff.mpr fun h => Bool.eq_false_iff.mp hcontinued (isContinued_append [c] h)
    simp only [isShut, Bool.and_eq_true, Bool.or_eq_true]
    refine ⟨⟨hbracket.imp (Or.imp_right fun hmem => ?_) fun hnext => ?_, ?_⟩, ih hrest hbehind⟩
    · simpa using hmem
    · cases rest with
      | nil => rfl
      | cons x rest => exact hnext
    · by_contra hopen
      obtain ⟨hc, hspacing⟩ := not_or.mp hopen
      obtain rfl : c = '\\' := by simpa using hc
      exact Bool.eq_false_iff.mp hcontinued (isContinued_of_backslash [] (by simpa using hspacing))

end Text

/-! ## Items in a row -/

section Rows

variable {files : FileReader} {filename : List Char}

/-- The text of an item ends with a line end only where it is continued. -/
theorem Item.IsText.isContinued {item : List Char} (h : Item.IsText files filename item)
    (hend : item.getLast? = some '\n') : Text.isContinued item = true := by
  by_contra hcontinued
  obtain ⟨u, rfl⟩ := List.getLast?_eq_some_iff.mp hend
  obtain ⟨e, next, hread, hnext⟩ := h.read
  -- without its line end the item is shut, so it is read up to the same place whatever is behind it
  have hshut : Text.isShut u = true := Text.isShut_of_concat h.shut (Bool.eq_false_iff.mpr hcontinued)
  have hshare : (inFrontOf ['\n', '\n'] ['\n', '\n']).Cursors (Cursor.start ((u ++ ['\n']) ++ ['\n']))
      (Cursor.start ((u ++ ['\n']) ++ ['\n'])) :=
    ⟨u, hshut, .inl ⟨_, rfl⟩, .inl ⟨_, rfl⟩, by simp [Cursor.start], by simp [Cursor.start]⟩
  obtain ⟨⟨e', next'⟩, -, hthen⟩ := (Item.read_inFrontOf hshare).of_ok hread
  obtain ⟨v, hv⟩ := hthen.2
  have hlength := congrArg List.length (hv.rest.symm.trans hnext)
  simp only [List.length_append, List.length_cons, List.length_nil] at hlength
  omega

/-- **Rows of items.** A row of items whose text ends with a line end and is not continued, and one behind it, are one
row. -/
theorem Itemized.append {items items' : List (List Char)} {text text' : List Char}
    (h : Itemized files filename items text) (hend : text.getLast? = some '\n')
    (hcontinued : Text.isContinued text = false) (h' : Itemized files filename items' text') :
    Itemized files filename (items ++ items') (text ++ text') := by
  induction h with
  | nil hskips => exact h'.behind hskips
  | @cons gap item rest items hskips hitem hends hitems ih =>
    have hne : rest ≠ [] := by
      rintro rfl
      rw [List.append_nil] at hend hcontinued
      rw [List.getLast?_append_of_ne_nil _ hitem.ne_nil] at hend
      exact Bool.eq_false_iff.mp hcontinued (Text.isContinued_append gap (hitem.isContinued hend))
    have hlast : rest.getLast? = some '\n' := by
      rwa [List.getLast?_append_of_ne_nil _ (List.append_ne_nil_of_right_ne_nil _ hne),
        List.getLast?_append_of_ne_nil _ hne] at hend
    have hclosed : Text.isContinued rest = false := Bool.eq_false_iff.mpr fun h =>
      Bool.eq_false_iff.mp hcontinued (Text.isContinued_append gap (Text.isContinued_append item h))
    have hbehind : Text.Ends item (rest ++ text') := by
      obtain ⟨v, rfl⟩ | ⟨hnil, -⟩ := hends
      · exact .inl ⟨v ++ text', rfl⟩
      · exact absurd hnil hne
    have hrow := Itemized.cons hskips hitem hbehind (ih hlast hclosed)
    simpa using hrow

end Rows

/-! ## Numbers -/

namespace Item

/-- The number of a line. -/
def lineNumber? : Item → Option Nat
  | .line record => some record.number
  | .header _ => none

/-- The number of a line or of the line to start with. -/
def number? : Item → Option Nat
  | .line record => some record.number
  | .header (.start number) => some number
  | .header _ => none

end Item

namespace Source

/-- The numbers of the lines of a listing. -/
def lineNumbers (files : FileReader) (s : Source) : List Nat :=
  (s.items files).filterMap fun item => (Item.ofText? files s.filename item).bind Item.lineNumber?

/-- The numbers of the lines of a listing and those that its directives give for the line to start with. -/
def numbers (files : FileReader) (s : Source) : List Nat :=
  (s.items files).filterMap fun item => (Item.ofText? files s.filename item).bind Item.number?

end Source

namespace Assembly

variable {files : FileReader} {filename : List Char} {front : List LineRecord} {a b b' c : Assembly} {x : Item}

/-- What names no number can be added to any collection, and leaves its lines as they are. -/
theorem add?_of_number? (hnumber : x.number? = none) (h : a.add? x = some b) (a' : Assembly) :
    ∃ b', a'.add? x = some b' ∧ b'.programPart = a'.programPart := by
  have hlane : x.lane? ≠ some .program := by
    intro hlane
    match x with
    | .line _ => cases hnumber
    | .header (.start _) => cases hnumber
    | .header (.assign ..) => simp [Item.lane?] at hlane
    | .header .nothing | .header .collapse | .header (.row _) | .header (.variableBytes _) => cases hlane
  rw [add?_eq_effect] at h
  obtain ⟨e, heffect, -⟩ := Option.bind_eq_some_iff.mp h
  have hprogram := (Item.inLane_of_effect? heffect).program hlane
  rw [add?_eq_effect, heffect, Option.bind_some, Item.Effect.apply, hprogram]
  exact ⟨_, rfl, rfl⟩

theorem add?_nameStart (a : Assembly) (number : Nat) : a.add? (.header (.start number)) =
    if a.lastNumber.all (· < number) then some { a with pendingStart := some (number, ⟨0, 0⟩) } else none := by
  simp only [add?, obey, nameStart]
  cases a.lastNumber with
  | none => rfl
  | some last =>
    dsimp only
    by_cases hlast : number ≤ last
    · rw [if_pos hlast, if_neg (by simpa using hlast)]
      rfl
    · rw [if_neg hlast, if_pos (by simpa using hlast)]
      rfl

/-- One collection is another one with further lines in front of its own. -/
structure Behind (front : List LineRecord) (b b' : Assembly) : Prop where
  records : b'.records.toList = front ++ b.records.toList
  pendingStart : b'.pendingStart = b.pendingStart

namespace Behind

theorem lastNumber (h : Behind front b b') {n : Nat} (hfront : ∀ r ∈ front, r.number < n)
    (hlast : b.lastNumber.all (· < n) = true) : b'.lastNumber.all (· < n) = true := by
  unfold Assembly.lastNumber at hlast ⊢
  rw [← Array.getLast?_toList] at hlast ⊢
  rw [h.records, List.getLast?_append]
  cases hback : b.records.toList.getLast? with
  | some last => rwa [hback] at hlast
  | none =>
    cases hfrontLast : front.getLast? with
    | none => rfl
    | some last => simpa using hfront last (List.mem_of_getLast? hfrontLast)

theorem addRecord (h : Behind front b b') (r : LineRecord) : Behind front (b.addRecord r) (b'.addRecord r) := by
  refine ⟨?_, ?_⟩
  · rw [records_addRecord, records_addRecord, h.records, List.append_assoc]
  · unfold Assembly.addRecord
    rw [h.pendingStart]
    split
    · rfl
    · rfl

/-- **One item.** An item with a number above those in front is added behind them in the same way. -/
theorem add? (h : Behind front b b') (hadd : b.add? x = some c)
    (hnumber : ∀ r ∈ front, ∀ n ∈ x.number?, r.number < n) : ∃ c', b'.add? x = some c' ∧
      Behind front c c' := by
  cases hx : x.number? with
  | none =>
    obtain ⟨c', hadd', hprogram'⟩ := add?_of_number? hx hadd b'
    obtain ⟨c₀, hadd₀, hprogram⟩ := add?_of_number? hx hadd b
    obtain rfl : c = c₀ := Option.some.inj (hadd.symm.trans hadd₀)
    have hrecords : c.records = b.records := congrArg ProgramPart.records hprogram
    have hrecords' : c'.records = b'.records := congrArg ProgramPart.records hprogram'
    have hpending : c.pendingStart = b.pendingStart := congrArg ProgramPart.pendingStart hprogram
    have hpending' : c'.pendingStart = b'.pendingStart := congrArg ProgramPart.pendingStart hprogram'
    exact ⟨c', hadd', by rw [hrecords, hrecords', h.records], by rw [hpending, hpending', h.pendingStart]⟩
  | some n =>
    have hfront : ∀ r ∈ front, r.number < n := fun r hr => hnumber r hr n hx
    match x, hx with
    | .line r, rfl =>
      rw [Assembly.add?] at hadd ⊢
      split at hadd
      · next hlast =>
        cases hadd
        rw [if_pos (h.lastNumber hfront hlast)]
        exact ⟨_, rfl, h.addRecord r⟩
      · cases hadd
    | .header (.start n), rfl =>
      rw [add?_nameStart] at hadd ⊢
      split at hadd
      · next hlast =>
        cases hadd
        rw [if_pos (h.lastNumber hfront hlast)]
        exact ⟨_, rfl, h.records, rfl⟩
      · cases hadd

/-- **Rows of items.** Items with numbers above those in front are added behind them in the same way. -/
theorem foldlM (h : Behind front b b') {items : List (List Char)}
    (hfold : items.foldlM (admit? files filename) b = some c)
    (hnumbers : ∀ item ∈ items, ∀ x ∈ Item.ofText? files filename item, ∀ n ∈ x.number?,
      ∀ r ∈ front, r.number < n) :
    ∃ c', items.foldlM (admit? files filename) b' = some c' ∧ Behind front c c' := by
  induction items generalizing b b' with
  | nil =>
    cases hfold
    exact ⟨b', rfl, h⟩
  | cons item items ih =>
    obtain ⟨hitem, hitems⟩ := List.forall_mem_cons.mp hnumbers
    rw [List.foldlM_cons] at hfold
    obtain ⟨b₁, hadmit, hfold⟩ := Option.bind_eq_some_iff.mp hfold
    obtain ⟨x, hx, hadd⟩ := Option.bind_eq_some_iff.mp hadmit
    obtain ⟨b₁', hadd', hbehind⟩ := h.add? hadd fun r hr n hn => hitem x hx n hn r hr
    obtain ⟨c', hfold', hc⟩ := ih hbehind hfold hitems
    refine ⟨c', ?_, hc⟩
    rw [List.foldlM_cons, admit?, hx, Option.bind_some, hadd']
    exact hfold'

end Behind

/-- An item adds a record exactly if it is a line. -/
theorem lineNumbers_add? (h : a.add? x = some b) :
    b.records.toList.map LineRecord.number = a.records.toList.map LineRecord.number ++ x.lineNumber?.toList := by
  cases hx : x.number? with
  | none =>
    obtain ⟨b₀, hadd, hprogram⟩ := add?_of_number? hx h a
    obtain rfl : b = b₀ := Option.some.inj (h.symm.trans hadd)
    have hrecords : b.records = a.records := congrArg ProgramPart.records hprogram
    have hline : x.lineNumber? = none := by
      cases x with
      | line r => cases hx
      | header directive => rfl
    rw [hrecords, hline, Option.toList_none, List.append_nil]
  | some n =>
    match x, hx with
    | .line r, rfl =>
      rw [add?] at h
      split at h
      · cases h
        simp [records_addRecord, Item.lineNumber?]
      · cases h
    | .header (.start n), rfl =>
      rw [add?_nameStart] at h
      split at h
      · cases h
        exact (List.append_nil _).symm
      · cases h

/-- The numbers of the records that a row of items adds up to. -/
theorem lineNumbers_foldlM {items : List (List Char)} (hfold : items.foldlM (admit? files filename) a = some b) :
    b.records.toList.map LineRecord.number = a.records.toList.map LineRecord.number ++
      items.filterMap fun item => (Item.ofText? files filename item).bind Item.lineNumber? := by
  induction items generalizing a with
  | nil =>
    cases hfold
    exact (List.append_nil _).symm
  | cons item items ih =>
    rw [List.foldlM_cons] at hfold
    obtain ⟨a₁, hadmit, hfold⟩ := Option.bind_eq_some_iff.mp hfold
    obtain ⟨x, hx, hadd⟩ := Option.bind_eq_some_iff.mp hadmit
    rw [ih hfold, lineNumbers_add? hadd, List.append_assoc]
    congr 1
    cases hline : x.lineNumber? with
    | none => simp [hx, hline]
    | some n => simp [hx, hline]

end Assembly

/-! ## Listings -/

namespace Source

variable {files : FileReader} {filename text text' : List Char} {program program' : List UInt8}

/-- A text with a further text behind it. -/
theorem text_ofText_append (hreturn : '\r' ∉ text) (hreturn' : '\r' ∉ text') (hne : text' ≠ []) :
    (ofText filename (text ++ text')).text = text ++ (ofText filename text').text := by
  unfold ofText
  dsimp only
  rw [List.filter_append, filter_lineReturn hreturn, filter_lineReturn hreturn', List.getLast?_append_of_ne_nil _ hne]
  split
  · rfl
  · exact List.append_assoc _ _ _

theorem text_ofText_of_lineEnd (hreturn : '\r' ∉ text) (hend : text.getLast? = some '\n') :
    (ofText filename text).text = text := by
  unfold ofText
  dsimp only
  rw [filter_lineReturn hreturn, hend]
  rfl

/-- An empty listing has an empty program. -/
theorem encodeProgram_empty (files : FileReader) (filename : List Char) :
    (encodeProgram files (ofText filename [])).result = .ok [] := by
  have hskips : Cursor.Skips ['\n'] := Cursor.skips_blank rfl
  obtain ⟨c, hc, hrun⟩ : ∃ c : Cursor, c.rest = [] ∧ (ofText filename []).collect files =
      Assembly.run files filename {} c [] := Assembly.run_of_skips hskips rfl
  have hcollect : (ofText filename []).collect files = Assembly.finish {} [] c := hrun.trans (Assembly.run_end hc)
  exact encodeProgram_eq_ok_iff.mpr ⟨by rw [hcollect]; rfl, by rw [hcollect]; rfl⟩

/-- What a listing with a program is made of. -/
theorem exists_itemized {s : Source} (hend : ∀ x ∈ s.text.getLast?, x = '\n')
    (h : (s.encodeProgram files).result = .ok program) :
    Itemized files s.filename (s.items files) s.text ∧
      ∃ a, (s.items files).foldlM (Assembly.admit? files s.filename) (Assembly.placeless {}) = some a ∧
        a.pendingStart = none ∧ a.program = program := by
  obtain ⟨hfault, rfl⟩ := encodeProgram_eq_ok_iff.mp h
  obtain ⟨hitems, hfold, hpending⟩ := itemized_items hend hfault
  exact ⟨hitems, _, hfold, by simp [Assembly.placeless, hpending], rfl⟩

/-- The program of a row of items. -/
theorem encodeProgram_of_itemized {s : Source} {items : List (List Char)} {a : Assembly}
    (hitems : Itemized files s.filename items s.text)
    (hfold : items.foldlM (Assembly.admit? files s.filename) (Assembly.placeless {}) = some a)
    (hpending : a.pendingStart = none) : (s.encodeProgram files).result = .ok a.program := by
  obtain ⟨hfault, hassembly⟩ := collect_of_itemized hitems hfold hpending
  rw [← hassembly]
  exact encodeProgram_eq_ok_iff.mpr ⟨hfault, rfl⟩

/-- **Listings in a row.** Let two listings without carriage returns have programs, where the first one ends with a
line end, its last line is not continued, and the second one has only line numbers and lines to start with above the
line numbers of the first. Both in a row have the one program with the other behind it. -/
theorem encodeProgram_append (hreturn : '\r' ∉ text) (hreturn' : '\r' ∉ text') (hend : text.getLast? = some '\n')
    (hcontinued : Text.isContinued text = false) (h : (encodeProgram files (ofText filename text)).result = .ok program)
    (h' : (encodeProgram files (ofText filename text')).result = .ok program')
    (hnumbers : ∀ m ∈ (ofText filename text).lineNumbers files, ∀ n ∈
      (ofText filename text').numbers files, m < n) :
    (encodeProgram files (ofText filename (text ++ text'))).result = .ok (program ++ program') := by
  rcases eq_or_ne text' [] with rfl | hne
  · obtain rfl : program' = [] := Except.ok.inj (h'.symm.trans (encodeProgram_empty files filename))
    rwa [List.append_nil, List.append_nil]
  · obtain ⟨hitems, a, hfold, hpending, rfl⟩ := exists_itemized (getLast?_ofText filename text) h
    obtain ⟨hitems', b, hfold', hpending', rfl⟩ := exists_itemized (getLast?_ofText filename text') h'
    have hrow : Itemized files filename _ (text ++ (ofText filename text').text) :=
      (text_ofText_of_lineEnd hreturn hend ▸ hitems).append hend hcontinued hitems'
    have hbehind : Assembly.Behind a.records.toList (Assembly.placeless {}) a :=
      ⟨(List.append_nil _).symm, hpending⟩
    obtain ⟨c, hfoldAll, hc⟩ := hbehind.foldlM hfold' fun item hitem x hx n hn r hr => by
      have hline : r.number ∈ (ofText filename text).lineNumbers files := by
        have hmem : r.number ∈ a.records.toList.map LineRecord.number := List.mem_map_of_mem hr
        rwa [Assembly.lineNumbers_foldlM hfold] at hmem
      exact hnumbers r.number hline n
        (List.mem_filterMap.mpr ⟨item, hitem, Option.bind_eq_some_iff.mpr ⟨x, hx, hn⟩⟩)
    have hprogram : c.program = a.program ++ b.program := by
      rw [Assembly.program, hc.records, programBytes, List.flatMap_append]
      rfl
    rw [← hprogram]
    refine encodeProgram_of_itemized ((text_ofText_append hreturn hreturn' hne).symm ▸ hrow) ?_
      (hc.pendingStart.trans hpending')
    rw [List.foldlM_append]
    exact (congrArg (Option.bind · _) hfold).trans hfoldAll

/-- A line that is continued inside, and a listing that starts with its own line. -/
theorem encodeProgram_append_sample :
    let files : FileReader := fun _ => .error []
    let text := "10 PRINT \\\nA\n".toList
    let text' := "#!basic-start=20\n20 CLS\n".toList
    Text.isContinued text = false ∧ (ofText defaultName text).lineNumbers files = [10] ∧
      (ofText defaultName text').numbers files = [20, 20] ∧
      (encodeProgram files (ofText defaultName (text ++ text'))).result =
        .ok ([0x00, 0x0A, 0x03, 0x00, 0xF5, 0x26, 0x76] ++ [0x00, 0x14, 0x02, 0x00, 0xFB, 0x76]) := by
  intro files text text'
  obtain ⟨hcontinued, hlines, hnumbers, h, h'⟩ : Text.isContinued text = false ∧
      (ofText defaultName text).lineNumbers files = [10] ∧ (ofText defaultName text').numbers files = [20, 20] ∧
      (encodeProgram files (ofText defaultName text)).result =
        .ok [0x00, 0x0A, 0x03, 0x00, 0xF5, 0x26, 0x76] ∧
      (encodeProgram files (ofText defaultName text')).result = .ok [0x00, 0x14, 0x02, 0x00, 0xFB, 0x76] := by
    decide +kernel
  refine ⟨hcontinued, hlines, hnumbers, encodeProgram_append (by decide) (by decide) (by decide) hcontinued h h' ?_⟩
  rw [hlines, hnumbers]
  decide

end Source

end TapeBasic
