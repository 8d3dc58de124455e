import TapeBasic.Proofs.Directives
import TapeBasic.Proofs.ProgramRoundTrip

/-!
# Running through the directives of an image

Each directive that an image is shown with is one step, which does what the directive says.

* `Assembly.Turns files filename text a a'`: reading `text`, whatever follows it, makes `a` into `a'`.

Results:
* `turns_collapse`, `turns_row`, `turns_variables`, `turns_assignment`: one directive.
* `turns_flatMap`: directives one after the other.
* `Turns.collect`: what is collected from a listing of directives.
-/
namespace TapeBasic.Assembly

open SystemVariables (Field fields)

variable {files : FileReader} {filename : List Char}

/-! ## One directive -/

/-- A directive that is read and obeyed is one step. -/
theorem run_directive {a a' : Assembly} {c behind : Cursor} {text tail : List Char}
    {directive : Directive} {events noted : Journal} (hc : c.rest = '#' :: '!' :: text)
    (hread : (Directive.read files c).result = .ok (directive, behind))
    (hbehind : behind.rest = '\n' :: tail)
    (hobey : a.obey c.position behind directive = .ok (a', noted)) :
    ∃ (c' : Cursor) (events' : Journal), c'.rest = tail ∧
      run files filename a c events = run files filename a' c' events' := by
  have hgap : Cursor.gapWidth c.rest = 0 := by rw [hc]; rfl
  have hstep : step files filename a c =
      ⟨a', (Directive.read files c).events ++ noted, .ok behind⟩ := by
    rw [step, hc, if_pos (show startsDirective ('#' :: '!' :: text) = true from rfl), stepDirective]
    simp only [hread, hobey, expectLineEnd, Cursor.skipSpacing_of_head hbehind (by decide),
      Cursor.peek_of_rest hbehind]
    rfl
  have hnext : (step files filename a c).next = .ok behind := by rw [hstep]
  obtain ⟨c', hc', hskip⟩ :=
    Cursor.skips_blank (show Text.isBlank '\n' = true from rfl) behind tail hbehind
  refine ⟨c', events ++ (step files filename a c).events, hc', ?_⟩
  rw [run_of_step hgap (by rw [hc]; simp) hnext, run_congr hskip, hstep]

/-- Reading the text, whatever follows it, makes `a` into `a'`. -/
structure Turns (files : FileReader) (filename text : List Char) (a a' : Assembly) : Prop where
  noReturn : '\r' ∉ text
  run_eq : ∀ (c : Cursor) (events : Journal) (tail : List Char), c.rest = text ++ tail →
    ∃ (c' : Cursor) (events' : Journal), c'.rest = tail ∧
      run files filename a c events = run files filename a' c' events'

theorem turns_nil (a : Assembly) : Turns files filename [] a a :=
  ⟨List.not_mem_nil, fun c events _ hc => ⟨c, events, hc, rfl⟩⟩

theorem Turns.append {text more : List Char} {a a' a'' : Assembly} (h : Turns files filename text a a')
    (h' : Turns files filename more a' a'') : Turns files filename (text ++ more) a a'' := by
  refine ⟨List.not_mem_append h.noReturn h'.noReturn, fun c events tail hc => ?_⟩
  obtain ⟨c₁, events₁, hc₁, hrun₁⟩ := h.run_eq c events (more ++ tail) (by rw [hc, List.append_assoc])
  obtain ⟨c₂, events₂, hc₂, hrun₂⟩ := h'.run_eq c₁ events₁ tail hc₁
  exact ⟨c₂, events₂, hc₂, hrun₁.trans hrun₂⟩

/-- The texts of some things one after the other, each of which does its part. -/
theorem turns_flatMap {α : Type} {text : α → List Char} {f : Assembly → α → Assembly} {list : List α}
    (h : ∀ x ∈ list, ∀ a, Turns files filename (text x) a (f a x)) (a : Assembly) :
    Turns files filename (list.flatMap text) a (list.foldl f a) := by
  induction list generalizing a with
  | nil => exact turns_nil a
  | cons x list ih =>
    exact (h x List.mem_cons_self a).append (ih (fun y hy => h y (List.mem_cons_of_mem _ hy)) (f a x))

/-- A directive that is read behind its keyword, whatever the next line is. -/
theorem turns_of_read {start word body : List Char} {a a' : Assembly}
    (hstart : start = '#' :: '!' :: word) (hword : '\r' ∉ word) (hbody : '\r' ∉ body)
    (hread : ∀ (c : Cursor) (tail : List Char), c.rest = '#' :: '!' :: (word ++ (body ++ '\n' :: tail)) →
      ∃ (behind : Cursor) (directive : Directive) (noted : Journal), behind.rest = '\n' :: tail ∧
        (Directive.read files c).result = .ok (directive, behind) ∧
        a.obey c.position behind directive = .ok (a', noted)) :
    Turns files filename (start ++ body ++ ['\n']) a a' := by
  subst hstart
  refine ⟨?_, fun c events tail hc => ?_⟩
  · refine List.not_mem_append (List.not_mem_append ?_ hbody) (by decide)
    exact List.not_mem_cons_of_ne_of_not_mem (by decide)
      (List.not_mem_cons_of_ne_of_not_mem (by decide) hword)
  · have hc' : c.rest = '#' :: '!' :: (word ++ (body ++ '\n' :: tail)) := by
      rw [hc]
      simp only [List.append_assoc, List.cons_append, List.nil_append]
    obtain ⟨behind, directive, noted, hbehind, hresult, hobey⟩ := hread c tail hc'
    exact run_directive hc' hresult hbehind hobey

theorem turns_collapse (a : Assembly) :
    Turns files filename ("#!dfile-collapsed".toList ++ ['\n']) a { a with collapsed := true } := by
  rw [← List.append_nil "#!dfile-collapsed".toList]
  refine turns_of_read (show "#!dfile-collapsed".toList = '#' :: '!' :: "dfile-collapsed".toList by
    decide) (by decide) List.not_mem_nil fun c tail hc => ?_
  obtain ⟨behind, hbehind, hread⟩ := Directive.read_collapse files hc
  exact ⟨behind, _, [], hbehind, hread, rfl⟩

theorem lineReturn_not_mem_rowText (marksLastSpace : Bool) (row : List UInt8) :
    '\r' ∉ Image.rowText marksLastSpace row := by
  have hspelled : ∀ row : List UInt8, '\r' ∉ row.flatMap Token.spelled := by
    intro row hmem
    obtain ⟨b, -, hb⟩ := List.mem_flatMap.mp hmem
    exact lineReturn_not_mem_of_printable (Piece.printable_spelled b) hb
  rw [Row.rowText_eq]
  split
  · exact List.not_mem_append (hspelled _) (lineReturn_not_mem_of_printable (Piece.printable_code _))
  · exact hspelled row

theorem turns_row (marksLastSpace : Bool) {row : List UInt8} (h : Token.lineEnd ∉ row) (a : Assembly) :
    Turns files filename ("#!dfile:".toList ++ Image.rowText marksLastSpace row ++ ['\n']) a
      { a with rows := a.rows.push row } := by
  refine turns_of_read (show "#!dfile:".toList = '#' :: '!' :: "dfile:".toList by decide)
    (by decide) (lineReturn_not_mem_rowText marksLastSpace row) fun c tail hc => ?_
  obtain ⟨behind, hbehind, hread⟩ := Directive.read_row files marksLastSpace h hc
  exact ⟨behind, _, [], hbehind, hread, rfl⟩

theorem lineReturn_not_mem_byteList (bytes : List UInt8) : '\r' ∉ Image.byteList bytes := by
  have hcomma : '\r' ∉ Directive.commaText bytes := by
    induction bytes with
    | nil => exact List.not_mem_nil
    | cons b bytes ih =>
      cases bytes with
      | nil => simpa [Directive.commaText, List.intercalate] using lineReturn_not_mem_decimal b.toNat
      | cons b' bytes =>
        rw [Directive.commaText_cons]
        exact List.not_mem_append (lineReturn_not_mem_decimal _)
          (List.not_mem_cons_of_ne_of_not_mem (by decide) ih)
  exact List.not_mem_cons_of_ne_of_not_mem (by decide) (List.not_mem_append hcomma (by decide))

theorem turns_variables (bytes : List UInt8) (a : Assembly) :
    Turns files filename ("#!basic-vars:".toList ++ Image.byteList bytes ++ ['\n']) a
      { a with variableBytes := a.variableBytes ++ bytes } := by
  refine turns_of_read (show "#!basic-vars:".toList = '#' :: '!' :: "basic-vars:".toList by
    decide) (by decide) (lineReturn_not_mem_byteList bytes) fun c tail hc => ?_
  obtain ⟨behind, hbehind, hread⟩ := Directive.read_variables files bytes hc
  exact ⟨behind, _, [], hbehind, hread, rfl⟩

theorem lineReturn_not_mem_valueText {f : Field} (hf : f ∈ fields) (bytes : List UInt8) :
    '\r' ∉ f.name.toList ++ '=' :: Image.valueText f bytes := by
  have hname : ∀ f ∈ fields, '\r' ∉ f.name.toList := by decide
  refine List.not_mem_append (hname f hf) (List.not_mem_cons_of_ne_of_not_mem (by decide) ?_)
  unfold Image.valueText
  split
  · exact lineReturn_not_mem_decimal _
  · exact lineReturn_not_mem_byteList bytes

theorem turns_assignment {f : Field} (hf : f ∈ fields) {bytes : List UInt8}
    (h : bytes.length = f.size) (a : Assembly) :
    Turns files filename
      ("#!system-vars:".toList ++ f.name.toList ++ '=' :: (Image.valueText f bytes ++ ['\n'])) a
      { a with system := a.system.setField f bytes h } := by
  have htext : "#!system-vars:".toList ++ f.name.toList ++ '=' :: (Image.valueText f bytes ++ ['\n']) =
      "#!system-vars:".toList ++ (f.name.toList ++ '=' :: Image.valueText f bytes) ++ ['\n'] := by
    simp only [List.append_assoc, List.cons_append]
  rw [htext]
  refine turns_of_read (show "#!system-vars:".toList = '#' :: '!' :: "system-vars:".toList by
    decide) (by decide) (lineReturn_not_mem_valueText hf bytes) fun c tail hc => ?_
  rw [List.append_assoc, List.cons_append] at hc
  obtain ⟨behind, place, hbehind, hread⟩ := Directive.read_assignment files hf h hc
  have hset := @SystemVariables.set_eq a.system _ _ _ _ (SystemVariables.resolve_name hf)
    (Directive.settingBytes_fieldSetting h)
  refine ⟨behind, _, [.variableSet f.name.toList (Directive.fieldSetting f bytes)], hbehind, hread, ?_⟩
  change a.assign _ _ _ _ = _
  rw [assign, hset]

/-- The directive that names the line to start with. Its place is kept until that line is reached. -/
theorem run_start {a : Assembly} {c : Cursor} {events : Journal} {n : Nat} {tail : List Char}
    (hn : n ≤ maxLineNumber) (hlast : a.lastNumber = none)
    (hc : c.rest = "#!basic-start=".toList ++ Text.decimal n ++ ['\n'] ++ tail) :
    ∃ (place : Position) (c' : Cursor) (events' : Journal), c'.rest = tail ∧
      run files filename a c events =
        run files filename { a with pendingStart := some (n, place) } c' events' := by
  have hc' : c.rest = '#' :: '!' :: ("basic-start=".toList ++ (Text.decimal n ++ '\n' :: tail)) := by
    rw [hc, show "#!basic-start=".toList = '#' :: '!' :: "basic-start=".toList by decide]
    simp only [List.append_assoc, List.cons_append, List.nil_append]
  obtain ⟨behind, hbehind, hread⟩ := Directive.read_start files hn hc'
  have hobey : a.obey c.position behind (.start n) =
      .ok ({ a with pendingStart := some (n, c.position) }, [.startNamed n]) := by
    change a.nameStart n c.position behind = _
    rw [nameStart, hlast]
  exact ⟨c.position, run_directive hc' hread hbehind hobey⟩

/-! ## The directives of a kind -/

theorem foldl_rows (rows : List (List UInt8)) (a : Assembly) :
    rows.foldl (fun a row => { a with rows := a.rows.push row }) a = { a with rows := a.rows ++ rows } := by
  induction rows generalizing a with
  | nil => simp
  | cons row rows ih => rw [List.foldl_cons, ih]; simp

/-- The directives that build the screen. -/
theorem turns_screen (collapsed : Bool) {rows : List (List UInt8)}
    (h : ∀ row ∈ rows, Token.lineEnd ∉ row) (a : Assembly) :
    Turns files filename
      (((if collapsed then ["#!dfile-collapsed".toList] else []) ++
        rows.map fun row => "#!dfile:".toList ++ Image.rowText collapsed row).flatMap (· ++ ['\n'])) a
      { a with rows := a.rows ++ rows, collapsed := a.collapsed || collapsed } := by
  have hrows : ∀ a : Assembly, Turns files filename
      ((rows.map fun row => "#!dfile:".toList ++ Image.rowText collapsed row).flatMap (· ++ ['\n'])) a
      { a with rows := a.rows ++ rows } := by
    intro a
    rw [List.flatMap_map, ← foldl_rows]
    exact turns_flatMap (fun row hrow a => turns_row collapsed (h row hrow) a) a
  rw [List.flatMap_append]
  cases collapsed with
  | false => simpa using hrows a
  | true => simpa using (turns_collapse a).append (hrows { a with collapsed := true })

theorem foldl_variableBytes (parts : List (List UInt8)) (a : Assembly) :
    parts.foldl (fun a part => { a with variableBytes := a.variableBytes ++ part }) a =
      { a with variableBytes := a.variableBytes ++ parts.flatten } := by
  induction parts generalizing a with
  | nil => simp
  | cons part parts ih =>
    have happend : a.variableBytes ++ part ++ parts.flatten =
        a.variableBytes ++ (part ++ parts.flatten) := by
      rw [← Array.toList_inj]
      simp
    rw [List.foldl_cons, ih, List.flatten_cons, ← happend]

/-- The directives that fill the variables, in parts of any size. -/
theorem turns_variableParts (size : Nat) (bytes : List UInt8) (a : Assembly) :
    Turns files filename
      ((chunks size bytes).flatMap fun part => "#!basic-vars:".toList ++ Image.byteList part ++ ['\n']) a
      { a with variableBytes := a.variableBytes ++ bytes } := by
  have hfold := foldl_variableBytes (chunks size bytes) a
  rw [flatten_chunks] at hfold
  rw [← hfold]
  exact turns_flatMap (fun part _ a => turns_variables part a) a

theorem foldl_system (changes : List (Field × List UInt8)) (a : Assembly) :
    changes.foldl (fun a x => { a with system := a.system.setFieldBytes x }) a =
      { a with system := changes.foldl SystemVariables.setFieldBytes a.system } := by
  induction changes generalizing a with
  | nil => rfl
  | cons x changes ih => rw [List.foldl_cons, ih]; rfl

/-- The directives that set the system variables. -/
theorem turns_changes {changes : List (Field × List UInt8)}
    (h : ∀ x ∈ changes, x.1 ∈ fields ∧ x.2.length = x.1.size) (a : Assembly) :
    Turns files filename
      (changes.flatMap fun (f, bytes) =>
        "#!system-vars:".toList ++ f.name.toList ++ '=' :: (Image.valueText f bytes ++ ['\n'])) a
      { a with system := changes.foldl SystemVariables.setFieldBytes a.system } := by
  rw [← foldl_system]
  refine turns_flatMap (fun x hx a => ?_) a
  obtain ⟨hf, hlength⟩ := h x hx
  have hset : a.system.setFieldBytes x = a.system.setField x.1 x.2 hlength := dif_pos hlength
  rw [hset]
  exact turns_assignment hf hlength a

/-! ## All directives -/

/-- The directives of one kind with an empty line behind them, if there are any. -/
def kindText (text : List Char) : List Char := if text.isEmpty then [] else text ++ ['\n']

theorem flatMap_kinds (kinds : List (List Char)) :
    (kinds.filter (!·.isEmpty)).flatMap (· ++ ['\n']) = kinds.flatMap kindText := by
  induction kinds with
  | nil => rfl
  | cons text kinds ih =>
    cases text with
    | nil => simpa [kindText] using ih
    | cons x text => simp [kindText, ih]

/-- A text that is skipped changes nothing. -/
theorem turns_of_skips {text : List Char} (h : Cursor.Skips text) (hreturn : '\r' ∉ text) (a : Assembly) :
    Turns files filename text a a := by
  refine ⟨hreturn, fun c events tail hc => ?_⟩
  obtain ⟨c', hc', hrun⟩ := run_of_skips h hc
  exact ⟨c', events, hc', hrun⟩

theorem turns_lineEnd (a : Assembly) : Turns files filename ['\n'] a a :=
  turns_of_skips (Cursor.skips_blank rfl) (by decide) a

theorem turns_comment {inner : List Char} (h : ∀ c ∈ inner, Text.isPrintable c = true)
    (hmark : inner.head? ≠ some '!') (a : Assembly) : Turns files filename ('#' :: (inner ++ ['\n'])) a a := by
  refine turns_of_skips (Cursor.skips_comment (Piece.not_mem_of_printable h (by decide)) hmark) ?_ a
  exact List.not_mem_cons_of_ne_of_not_mem (by decide)
    (List.not_mem_append (lineReturn_not_mem_of_printable h) (by decide))

theorem Turns.kind {text : List Char} {a a' : Assembly} (h : Turns files filename text a a') :
    Turns files filename (kindText text) a a' := by
  unfold kindText
  split
  · next hempty => exact List.isEmpty_iff.mp hempty ▸ h
  · exact h.append (turns_lineEnd a')

/-- **A listing of directives.** It is read to its end, and what it makes of nothing is collected. -/
theorem Turns.collect {text : List Char} {a : Assembly} (h : Turns files filename text {} a)
    (hpending : a.pendingStart = none) :
    ∃ events, (Source.ofText filename text).collect files = ⟨a, events, none⟩ := by
  obtain ⟨tail, htext, hskips⟩ := @Source.text_ofText filename text h.noReturn
  obtain ⟨c₁, events₁, hc₁, hrun₁⟩ :=
    h.run_eq (Cursor.start (Source.ofText filename text).text) [] tail htext
  obtain ⟨c₂, hc₂, hrun₂⟩ := run_of_skips hskips (hc₁.trans (List.append_nil tail).symm)
  have hcollect : (Source.ofText filename text).collect files = a.finish events₁ c₂ :=
    hrun₁.trans (hrun₂.trans (run_end hc₂))
  rw [finish, hpending] at hcollect
  exact ⟨_, hcollect⟩

end TapeBasic.Assembly
