import TapeBasic.Image
import TapeBasic.Proofs.LineRoundTrip
import TapeBasic.Proofs.SystemFields
import TapeBasic.Source.Directive

/-!
# Reading directives back

The directives that an image is shown with are read as what they say, whatever follows them.

Results:
* `readInteger_decimal`, `readBytes_byteList`: a number and a list of bytes are read back.
* `head_*`: the keyword of a directive is found, and nothing behind it belongs to it.
* `read_start`, `read_collapse`, `read_row`, `read_variables`, `read_assignment`: each kind of directive.
-/
namespace TapeBasic

theorem Text.countWhile_of_head {p : Char → Bool} {x : Char} (rest : List Char) (h : p x = false) :
    Text.countWhile p (x :: rest) = 0 := by
  simp [Text.countWhile, h]

theorem Cursor.skipSpacing_of_head {c : Cursor} {x : Char} {rest : List Char} (hc : c.rest = x :: rest)
    (h : Text.isSpacing x = false) : c.skipSpacing = c := by
  rw [skipSpacing, hc, Text.countWhile_of_head rest h]
  rfl

theorem Cursor.peek_of_rest {c : Cursor} {x : Char} {rest : List Char} (hc : c.rest = x :: rest) :
    c.peek = x := by
  rw [peek, hc]
  rfl

theorem Text.isSpacing_of_isDigit {x : Char} (h : x.isDigit = true) : Text.isSpacing x = false := by
  rw [isSpacing, Bool.or_eq_false_iff, beq_eq_false_iff_ne, beq_eq_false_iff_ne]
  constructor <;> rintro rfl <;> exact absurd h (by decide)

theorem Text.startsWithLetters_append (word tail : List Char) :
    Text.startsWithLetters word (word ++ tail) = true := by
  rw [startsWithLetters_iff, List.map_append]
  exact List.prefix_append _ _

/-- A word that differs from the start of a text is not there, whatever follows. -/
theorem Text.startsWithLetters_eq_false {word front : List Char} (tail : List Char)
    (h : Text.startsWithLetters (word.take front.length) front = false) :
    Text.startsWithLetters word (front ++ tail) = false := by
  induction word generalizing front with
  | nil => rw [List.take_nil] at h; cases h
  | cons a word ih =>
    cases front with
    | nil => cases h
    | cons b front =>
      rw [List.length_cons, List.take_succ_cons, startsWithLetters, Bool.and_eq_false_iff] at h
      rw [List.cons_append, startsWithLetters, Bool.and_eq_false_iff]
      exact h.imp_right ih

namespace Directive

/-! ## Numbers -/

/-- **A number.** It is read back up to a character that does not go on with it. -/
theorem readInteger_decimal {missing : Complaint} {n : Nat} (hn : n < 100000) {y : Char}
    {rest : List Char} (hy : Text.isDecimal y = false) (hmark : y ≠ 'x' ∧ y ≠ 'X') {c : Cursor}
    (hc : c.rest = Text.decimal n ++ y :: rest) :
    readInteger missing c = .ok (n, c.advance (Text.decimal n).length) := by
  obtain ⟨d, digits, hd, hdigit⟩ := Text.decimal_eq_cons n
  have htake : c.rest.takeWhile Text.isDecimal = Text.decimal n := by
    rw [hc, Text.takeWhile_isDecimal_decimal n rest hy]
  have hempty : (Text.decimal n).isEmpty = false := by rw [hd]; rfl
  -- neither mark of a hexadecimal number stands in front
  have hdollar : d ≠ '$' := by rintro rfl; exact absurd hdigit (by decide)
  have hnext : ∀ x more, digits ++ y :: rest = x :: more → x ≠ 'x' ∧ x ≠ 'X' := by
    intro x more hx
    cases digits with
    | nil => cases hx; exact hmark
    | cons x' digits =>
      cases hx
      have hdigit' := Text.isDigit_of_mem_decimal (n := n) (c := x) (by rw [hd]; simp)
      constructor <;> rintro rfl <;> exact absurd hdigit' (by decide)
  have hrest : c.rest = d :: (digits ++ y :: rest) := by rw [hc, hd]; rfl
  unfold readInteger
  dsimp only
  rw [htake, hempty, Text.natural?_decimal hn]
  split
  · next value width hmarked =>
    rw [hrest] at hmarked
    split at hmarked
    · next x more heq =>
      obtain ⟨-, heq⟩ := List.cons.inj heq
      obtain ⟨hx, hX⟩ := hnext x more heq
      rw [if_neg (by simp [hx, hX])] at hmarked
      cases hmarked
    · next heq => exact absurd (List.cons.inj heq).1 hdollar
    · cases hmarked
  · rfl

/-! ## Lists of bytes -/

theorem readBytesFrom_close {c : Cursor} {rest : List Char} (hc : c.rest = ']' :: rest)
    (done : List UInt8) : readBytesFrom c done = .ok (done.reverse, c.advance 1) := by
  rw [readBytesFrom, Cursor.peek_of_rest hc, if_pos (by decide)]

theorem readBytesFrom_byte {c : Cursor} {b : UInt8} {y : Char} {rest : List Char}
    (hc : c.rest = Text.decimal b.toNat ++ y :: rest) (hy : y = ',' ∨ y = ']') (done : List UInt8) :
    readBytesFrom c done =
      readBytesFrom (skipComma (c.advance (Text.decimal b.toNat).length)) (b :: done) := by
  have hb := b.toNat_lt
  obtain ⟨d, digits, hd, hdigit⟩ := Text.decimal_eq_cons b.toNat
  have hpeek : (c.peek == ']') = false := by
    rw [show c.peek = d from Cursor.peek_of_rest (by rw [hc, hd]; rfl), beq_eq_false_iff_ne]
    rintro rfl
    exact absurd hdigit (by decide)
  have hread : readInteger .numberExpected c = .ok (b.toNat, c.advance (Text.decimal b.toNat).length) :=
    readInteger_decimal (by omega) (by rcases hy with rfl | rfl <;> decide)
      (by rcases hy with rfl | rfl <;> decide) hc
  have hbehind : (c.advance (Text.decimal b.toNat).length).rest = y :: rest := by
    rw [Cursor.rest_advance, hc, List.drop_left]
  have hskip := Cursor.skipSpacing_of_head hbehind (by rcases hy with rfl | rfl <;> decide)
  have hline : y ≠ '\n' := by rcases hy with rfl | rfl <;> decide
  rw [readBytesFrom_of_integer hpeek hread, if_neg (by omega), hskip, Cursor.peek_of_rest hbehind,
    if_neg (by simpa using hline), UInt8.ofNat_toNat]

/-- The numbers of some bytes with commas between them. -/
def commaText (bytes : List UInt8) : List Char :=
  List.intercalate [','] (bytes.map fun b => Text.decimal b.toNat)

theorem commaText_cons (b b' : UInt8) (bytes : List UInt8) :
    commaText (b :: b' :: bytes) = Text.decimal b.toNat ++ ',' :: commaText (b' :: bytes) := by
  simp only [commaText, List.map_cons, List.intercalate_cons_cons, List.append_assoc,
    List.singleton_append]

/-- Neither in front of the numbers nor of the closing bracket there is spacing. -/
theorem commaText_head (bytes : List UInt8) (rest : List Char) :
    ∃ x more, commaText bytes ++ ']' :: rest = x :: more ∧ Text.isSpacing x = false := by
  cases bytes with
  | nil => exact ⟨']', rest, rfl, rfl⟩
  | cons b bytes =>
    obtain ⟨d, digits, hd, hdigit⟩ := Text.decimal_eq_cons b.toNat
    cases bytes with
    | nil =>
      refine ⟨d, digits ++ ']' :: rest, ?_, Text.isSpacing_of_isDigit hdigit⟩
      simp [commaText, hd, List.intercalate]
    | cons b' bytes =>
      refine ⟨d, digits ++ ',' :: commaText (b' :: bytes) ++ ']' :: rest, ?_,
        Text.isSpacing_of_isDigit hdigit⟩
      rw [commaText_cons, hd]
      rfl

/-- A row of bytes with commas between them is read up to the closing bracket. -/
theorem readBytesFrom_byteList (bytes : List UInt8) {c : Cursor} {rest : List Char}
    (hc : c.rest = commaText bytes ++ ']' :: rest) (done : List UInt8) :
    ∃ c', readBytesFrom c done = .ok (done.reverse ++ bytes, c') ∧ c'.rest = rest := by
  induction bytes generalizing c done with
  | nil =>
    rw [readBytesFrom_close hc]
    exact ⟨_, by rw [List.append_nil], by rw [Cursor.rest_advance, hc]; rfl⟩
  | cons b bytes ih =>
    have hdone : done.reverse ++ b :: bytes = (b :: done).reverse ++ bytes := by simp
    rw [hdone]
    cases bytes with
    | nil =>
      have hc' : c.rest = Text.decimal b.toNat ++ ']' :: rest := by
        simpa [commaText, List.intercalate] using hc
      have hbehind : (c.advance (Text.decimal b.toNat).length).rest = ']' :: rest := by
        rw [Cursor.rest_advance, hc', List.drop_left]
      have hcomma : skipComma (c.advance (Text.decimal b.toNat).length) =
          c.advance (Text.decimal b.toNat).length := by
        rw [skipComma, Cursor.peek_of_rest hbehind, if_neg (by decide)]
      rw [readBytesFrom_byte hc' (.inr rfl), hcomma]
      exact ih hbehind _
    | cons b' bytes =>
      have hc' : c.rest = Text.decimal b.toNat ++ ',' :: (commaText (b' :: bytes) ++ ']' :: rest) := by
        rw [hc, commaText_cons, List.append_assoc]
        rfl
      have hcomma : (c.advance (Text.decimal b.toNat).length).rest =
          ',' :: (commaText (b' :: bytes) ++ ']' :: rest) := by
        rw [Cursor.rest_advance, hc', List.drop_left]
      have hbehind : ((c.advance (Text.decimal b.toNat).length).advance 1).rest =
          commaText (b' :: bytes) ++ ']' :: rest := by
        rw [Cursor.rest_advance, hcomma]
        rfl
      obtain ⟨x, more, hhead, hx⟩ := commaText_head (b' :: bytes) rest
      have hskip : skipComma (c.advance (Text.decimal b.toNat).length) =
          (c.advance (Text.decimal b.toNat).length).advance 1 := by
        rw [skipComma, Cursor.peek_of_rest hcomma, if_pos (by decide),
          Cursor.skipSpacing_of_head (hbehind.trans hhead) hx]
      rw [readBytesFrom_byte hc' (.inl rfl), hskip]
      exact ih hbehind _

/-- **A list of bytes.** It is read back, whatever follows its closing bracket. -/
theorem readBytes_byteList (bytes : List UInt8) {c : Cursor} {rest : List Char}
    (hc : c.rest = Image.byteList bytes ++ rest) :
    ∃ c', readBytes c = .ok (bytes, c') ∧ c'.rest = rest := by
  have hlist : c.rest = '[' :: (commaText bytes ++ ']' :: rest) := by
    rw [hc]
    simp only [Image.byteList, commaText, List.cons_append, List.append_assoc, List.nil_append]
  have hbehind : (c.advance 1).rest = commaText bytes ++ ']' :: rest := by
    rw [Cursor.rest_advance, hlist]
    rfl
  obtain ⟨x, more, hhead, hx⟩ := commaText_head bytes rest
  rw [readBytes, Cursor.peek_of_rest hlist, if_pos (by decide),
    Cursor.skipSpacing_of_head (hbehind.trans hhead) hx]
  exact readBytesFrom_byteList bytes hbehind []

/-! ## Keywords -/

theorem head_of_start {behind : List Char} {width : Nat} {equals : Bool}
    (hspacing : Text.countWhile Text.isSpacing behind = 0)
    (hstart : startWidth? behind = some (width, equals)) :
    head ('#' :: '!' :: behind) = ⟨2, behind.take width, equals⟩ := by
  unfold head
  simp only [List.drop_succ_cons, List.drop_zero, hspacing, hstart]

theorem head_of_known {behind : List Char} {width : Nat}
    (hspacing : Text.countWhile Text.isSpacing behind = 0) (hstart : startWidth? behind = none)
    (hknown : (collapseWidth? behind <|> colonWidth? "dfile:".toList false behind <|>
      colonWidth? "basic-vars:".toList true behind <|> colonWidth? "system-vars:".toList true behind) =
        some width) : head ('#' :: '!' :: behind) = ⟨2, behind.take width, false⟩ := by
  unfold head
  simp only [List.drop_succ_cons, List.drop_zero, hspacing, hstart, hknown, Option.getD_some]

theorem startWidth?_eq_none {front : List Char} (tail : List Char)
    (h : Text.startsWithLetters ("basic-start".toList.take front.length) front = false) :
    startWidth? (front ++ tail) = none := by
  rw [startWidth?, Text.startsWithLetters_eq_false tail h]
  rfl

theorem colonWidth?_append (word : List Char) (takesSpacing : Bool) {x : Char} (rest : List Char)
    (hx : takesSpacing = true → Text.isSpacing x = false) :
    colonWidth? word takesSpacing (word ++ x :: rest) = some word.length := by
  rw [colonWidth?, Text.startsWithLetters_append, if_pos rfl, List.drop_left]
  cases takesSpacing with
  | false => rfl
  | true => rw [Text.countWhile_of_head rest (hx rfl)]; rfl

theorem colonWidth?_eq_none {word front : List Char} (takesSpacing : Bool) (tail : List Char)
    (h : Text.startsWithLetters (word.take front.length) front = false) :
    colonWidth? word takesSpacing (front ++ tail) = none := by
  rw [colonWidth?, Text.startsWithLetters_eq_false tail h]
  rfl

theorem collapseWidth?_eq_none {front : List Char} (tail : List Char)
    (h : Text.startsWithLetters ("dfile-collapsed".toList.take front.length) front = false) :
    collapseWidth? (front ++ tail) = none := by
  rw [collapseWidth?, Text.startsWithLetters_eq_false tail h]
  rfl

theorem countWhile_of_word {front : List Char} (tail : List Char)
    (h : front.head?.any (fun x => !Text.isSpacing x) = true) :
    Text.countWhile Text.isSpacing (front ++ tail) = 0 := by
  cases front with
  | nil => cases h
  | cons x front => exact Text.countWhile_of_head _ (by simpa using h)

theorem head_start {x : Char} (rest : List Char) (hx : Text.isSpacing x = false) :
    head ('#' :: '!' :: ("basic-start=".toList ++ x :: rest)) = ⟨2, "basic-start=".toList, true⟩ := by
  have hword : "basic-start=".toList ++ x :: rest = "basic-start".toList ++ '=' :: x :: rest := by
    rw [show "basic-start=".toList = "basic-start".toList ++ ['='] by decide, List.append_assoc]
    rfl
  have hstart : startWidth? ("basic-start=".toList ++ x :: rest) = some (12, true) := by
    rw [hword, startWidth?, Text.startsWithLetters_append, if_pos rfl]
    dsimp only
    rw [List.drop_left, Text.countWhile_of_head _ (by decide), List.drop_zero]
    change some (_ + 1 + Text.countWhile Text.isSpacing (x :: rest), true) = _
    rw [Text.countWhile_of_head _ hx]
    rfl
  rw [head_of_start (countWhile_of_word _ (by decide)) hstart,
    List.take_left' (by decide)]

theorem head_collapse (rest : List Char) :
    head ('#' :: '!' :: ("dfile-collapsed".toList ++ '\n' :: rest)) =
      ⟨2, "dfile-collapsed".toList, false⟩ := by
  have hwidth : collapseWidth? ("dfile-collapsed".toList ++ '\n' :: rest) =
      some "dfile-collapsed".toList.length := by
    rw [collapseWidth?, Text.startsWithLetters_append, List.drop_left]
    rfl
  rw [head_of_known (countWhile_of_word _ (by decide))
    (startWidth?_eq_none _ (by decide)) (by rw [hwidth]; rfl), List.take_left]

theorem head_row {x : Char} (rest : List Char) :
    head ('#' :: '!' :: ("dfile:".toList ++ x :: rest)) = ⟨2, "dfile:".toList, false⟩ := by
  rw [head_of_known (countWhile_of_word _ (by decide))
    (startWidth?_eq_none _ (by decide))
    (by rw [collapseWidth?_eq_none _ (by decide),
      colonWidth?_append _ false _ fun h => absurd h Bool.false_ne_true]; rfl),
    List.take_left]

theorem head_variables {x : Char} (rest : List Char) (hx : Text.isSpacing x = false) :
    head ('#' :: '!' :: ("basic-vars:".toList ++ x :: rest)) = ⟨2, "basic-vars:".toList, false⟩ := by
  rw [head_of_known (countWhile_of_word _ (by decide))
    (startWidth?_eq_none _ (by decide))
    (by
      rw [collapseWidth?_eq_none _ (by decide), colonWidth?_eq_none _ _ (by decide),
        colonWidth?_append _ _ _ fun _ => hx]
      rfl), List.take_left]

theorem head_assignment {x : Char} (rest : List Char) (hx : Text.isSpacing x = false) :
    head ('#' :: '!' :: ("system-vars:".toList ++ x :: rest)) = ⟨2, "system-vars:".toList, false⟩ := by
  rw [head_of_known (countWhile_of_word _ (by decide))
    (startWidth?_eq_none _ (by decide))
    (by
      rw [collapseWidth?_eq_none _ (by decide), colonWidth?_eq_none _ _ (by decide),
        colonWidth?_eq_none _ _ (by decide), colonWidth?_append _ _ _ fun _ => hx]
      rfl), List.take_left]

/-! ## Each kind of directive -/

/-- A directive is read behind its keyword. -/
theorem read_of_head (files : FileReader) {c : Cursor} {keyword tail : List Char} {equals : Bool}
    (hc : c.rest = '#' :: '!' :: (keyword ++ tail)) (hhead : head c.rest = ⟨2, keyword, equals⟩) :
    ∃ behind : Cursor, behind.rest = tail ∧
      read files c = readBehind files c ⟨2, keyword, equals⟩ behind := by
  refine ⟨c.advance (2 + keyword.length), ?_, by rw [read, hhead]; rfl⟩
  rw [Cursor.rest_advance, hc, Nat.add_comm, List.drop_succ_cons, List.drop_succ_cons, List.drop_left]

theorem read_start (files : FileReader) {n : Nat} (hn : n ≤ maxLineNumber) {c : Cursor}
    {tail : List Char}
    (hc : c.rest = '#' :: '!' :: ("basic-start=".toList ++ (Text.decimal n ++ '\n' :: tail))) :
    ∃ behind : Cursor, behind.rest = '\n' :: tail ∧
      (read files c).result = .ok (.start n, behind) := by
  obtain ⟨d, digits, hd, hdigit⟩ := Text.decimal_eq_cons n
  have hhead : head c.rest = ⟨2, "basic-start=".toList, true⟩ := by
    rw [hc, hd, List.cons_append]
    exact head_start _ (Text.isSpacing_of_isDigit hdigit)
  obtain ⟨behind, hbehind, hread⟩ := read_of_head files hc hhead
  have hsubject : subject "basic-start=".toList = .start := by decide
  obtain ⟨next, hnumber, hnext⟩ := Line.readNumber_decimal hn (by decide) hbehind
  refine ⟨next, hnext, ?_⟩
  rw [hread, readBehind, hsubject]
  change readStart true behind = _
  rw [readStart, hnumber, if_pos rfl]

theorem read_collapse (files : FileReader) {c : Cursor} {tail : List Char}
    (hc : c.rest = '#' :: '!' :: ("dfile-collapsed".toList ++ '\n' :: tail)) :
    ∃ behind : Cursor, behind.rest = '\n' :: tail ∧
      (read files c).result = .ok (.collapse, behind) := by
  obtain ⟨behind, hbehind, hread⟩ := read_of_head files hc (hc ▸ head_collapse tail)
  have hsubject : subject "dfile-collapsed".toList = .collapse := by decide
  refine ⟨behind, hbehind, ?_⟩
  rw [hread, readBehind, hsubject]
  rfl

theorem read_variables (files : FileReader) (bytes : List UInt8) {c : Cursor} {tail : List Char}
    (hc : c.rest = '#' :: '!' :: ("basic-vars:".toList ++ (Image.byteList bytes ++ '\n' :: tail))) :
    ∃ behind : Cursor, behind.rest = '\n' :: tail ∧
      (read files c).result = .ok (.variableBytes bytes, behind) := by
  obtain ⟨behind, hbehind, hread⟩ := read_of_head files hc (hc ▸ head_variables _ (by decide))
  have hsubject : subject "basic-vars:".toList = .variableBytes := by decide
  obtain ⟨next, hbytes, hnext⟩ := readBytes_byteList bytes hbehind
  refine ⟨next, hnext, ?_⟩
  rw [hread, readBehind, hsubject]
  change readVariables behind = _
  rw [readVariables, hbytes]

end Directive

/-! ## Screen rows -/

namespace Row

variable {files : FileReader}

/-- One token or code of a row. -/
theorem readFrom_letters {c : Cursor} {front more : List Char} {bytes : List UInt8} {lexeme : Lexeme Emission}
    (hc : c.rest = front ++ more) (hopens : Body.Opens front)
    (hread : readLetters files .remark c = .ok lexeme) (hbytes : lexeme.value.bytes = bytes)
    (hwidth : lexeme.width = front.length) (hend : Token.lineEnd ∉ bytes) (done : List UInt8)
    (events : Journal) :
    ∃ (c' : Cursor) (events' : Journal), c'.rest = more ∧
      readFrom files c done events = readFrom files c' (bytes.reverse ++ done) events' := by
  refine ⟨c.advance lexeme.width, events ++ lexeme.value.events, ?_, ?_⟩
  · rw [Cursor.rest_advance, hc, hwidth, List.drop_left]
  · rw [readFrom_of_letters (hopens.peek_ne hc) hread (by simpa [hbytes] using hend), hbytes]

/-- A row whose bytes are written in one way, in which each of them is read back. -/
theorem readFrom_flatMap {text : UInt8 → List Char} (hopens : ∀ b, Body.Opens (text b))
    (htext : ∀ (b : UInt8) {c : Cursor} {more : List Char}, c.rest = text b ++ more →
      ∃ lexeme, readLetters files .remark c = .ok lexeme ∧ lexeme.value.bytes = [b] ∧ lexeme.value.events = [] ∧
        lexeme.width = (text b).length)
    (row : List UInt8) (h : Token.lineEnd ∉ row) {c : Cursor} {more : List Char}
    (hc : c.rest = row.flatMap text ++ more) (done : List UInt8) (events : Journal) :
    ∃ (c' : Cursor) (events' : Journal), c'.rest = more ∧
      readFrom files c done events = readFrom files c' (row.reverse ++ done) events' := by
  induction row generalizing c done events with
  | nil => exact ⟨c, events, hc, rfl⟩
  | cons b row ih =>
    rw [List.flatMap_cons, List.append_assoc] at hc
    obtain ⟨hb, hrow⟩ := List.ne_and_not_mem_of_not_mem_cons h
    obtain ⟨lexeme, hread, hbytes, -, hwidth⟩ := htext b hc
    obtain ⟨c₁, events₁, hc₁, heq₁⟩ := readFrom_letters hc (hopens b) hread hbytes hwidth
      (by simpa using hb) done events
    obtain ⟨c₂, events₂, hc₂, heq₂⟩ := ih hrow hc₁ ([b].reverse ++ done) events₁
    refine ⟨c₂, events₂, hc₂, ?_⟩
    rw [heq₁, heq₂, ← List.append_assoc, ← List.reverse_append]
    rfl

theorem readFrom_spelled (row : List UInt8) (h : Token.lineEnd ∉ row) {c : Cursor} {more : List Char}
    (hc : c.rest = row.flatMap Token.spelled ++ more) (done : List UInt8) (events : Journal) :
    ∃ (c' : Cursor) (events' : Journal), c'.rest = more ∧
      readFrom files c done events = readFrom files c' (row.reverse ++ done) events' :=
  readFrom_flatMap Body.opens_spelled
    (fun b _ _ hb => Body.readLetters_spelled (show Grammar.ofContext .remark = Grammar.remark from rfl) b hb)
    row h hc done events

theorem readFrom_lineEnd {c : Cursor} {tail : List Char} (hc : c.rest = '\n' :: tail)
    (done : List UInt8) (events : Journal) :
    (readFrom files c done events).result = .ok (done.reverse, c) := by
  rw [readFrom, dif_pos (Cursor.peek_of_rest hc)]

theorem rowText_eq (marksLastSpace : Bool) (row : List UInt8) :
    Image.rowText marksLastSpace row =
      if marksLastSpace && row.getLast? == some Token.space then
        row.dropLast.flatMap Token.spelled ++ Token.code Token.space
      else row.flatMap Token.spelled := rfl

/-- **A screen row.** Its text is read back up to the line end. -/
theorem read_rowText (marksLastSpace : Bool) {row : List UInt8} (h : Token.lineEnd ∉ row) {c : Cursor}
    {tail : List Char} (hc : c.rest = Image.rowText marksLastSpace row ++ '\n' :: tail) :
    ∃ c' : Cursor, c'.rest = '\n' :: tail ∧ (read files c).result = .ok (row, c') := by
  rw [rowText_eq] at hc
  split at hc
  · next hspace =>
    simp only [Bool.and_eq_true, beq_iff_eq] at hspace
    obtain ⟨front, rfl⟩ := List.getLast?_eq_some_iff.mp hspace.2
    rw [List.dropLast_concat, List.append_assoc] at hc
    obtain ⟨c₁, events₁, hc₁, heq₁⟩ := readFrom_spelled front
      (fun hmem => h (List.mem_append_left _ hmem)) hc [] []
    obtain ⟨lexeme, hread, hbytes, -, hwidth⟩ := readLetters_of_code hc₁
    obtain ⟨c₂, events₂, hc₂, heq₂⟩ := readFrom_letters hc₁ (Body.opens_code _) hread hbytes hwidth
      (by decide) (front.reverse ++ []) events₁
    refine ⟨c₂, hc₂, ?_⟩
    rw [read, heq₁, heq₂, readFrom_lineEnd hc₂, List.append_nil, ← List.reverse_append, List.reverse_reverse]
  · obtain ⟨c₁, events₁, hc₁, heq₁⟩ := readFrom_spelled row h hc [] []
    refine ⟨c₁, hc₁, ?_⟩
    rw [read, heq₁, readFrom_lineEnd hc₁, List.append_nil, List.reverse_reverse]

end Row

theorem Directive.read_row (files : FileReader) (marksLastSpace : Bool) {row : List UInt8}
    (h : Token.lineEnd ∉ row) {c : Cursor} {tail : List Char}
    (hc : c.rest = '#' :: '!' ::
      ("dfile:".toList ++ (Image.rowText marksLastSpace row ++ '\n' :: tail))) :
    ∃ behind : Cursor, behind.rest = '\n' :: tail ∧
      (read files c).result = .ok (.row row, behind) := by
  have hhead : head c.rest = ⟨2, "dfile:".toList, false⟩ := by
    rw [hc]
    cases hrow : Image.rowText marksLastSpace row with
    | nil => exact head_row tail
    | cons x more => exact head_row (more ++ '\n' :: tail)
  obtain ⟨behind, hbehind, hread⟩ := read_of_head files hc hhead
  have hsubject : subject "dfile:".toList = .row := by decide
  obtain ⟨next, hnext, hbytes⟩ := @Row.read_rowText files marksLastSpace _ h _ _ hbehind
  refine ⟨next, hnext, ?_⟩
  rw [hread, readBehind, hsubject]
  change (readRow files behind).result = _
  rw [readRow, Outcome.result_bind hbytes]
  rfl

/-! ## Assignments -/

namespace Directive

open SystemVariables (Field fields Setting littleEndian)

/-- The setting that gives a field its bytes. -/
def fieldSetting (f : Field) (bytes : List UInt8) : Setting :=
  if f.size ≤ 2 then .number (littleEndian bytes) else .list (bytes.map fun b => (b.toNat : Int))

theorem settingBytes_fieldSetting {f : Field} {bytes : List UInt8} (h : bytes.length = f.size) :
    SystemVariables.settingBytes f (fieldSetting f bytes) = .ok bytes := by
  unfold fieldSetting
  split
  · next hsize =>
    have hlt := SystemVariables.littleEndian_lt bytes
    rw [h] at hlt
    rw [SystemVariables.settingBytes_number hsize (by omega) (by omega), Int.toNat_natCast, ← h,
      SystemVariables.littleEndianBytes_littleEndian]
  · exact SystemVariables.settingBytes_list h

/-- Whether a name is a word or a number all through. -/
def isPlainName (name : List Char) : Bool :=
  if name.head?.any fun x => Text.isLatinLetter x || x == '_' then
    name.all fun x => Text.isLatinLetterOrDigit x || x == '_'
  else name.all Text.isDecimal

theorem isPlainName_name : ∀ f ∈ fields, isPlainName f.name.toList = true := by decide

theorem nameWidth_equals {name : List Char} (h : isPlainName name = true) (rest : List Char) :
    nameWidth (name ++ '=' :: rest) = name.length := by
  have hhead : (name ++ '=' :: rest).head?.any (fun x => Text.isLatinLetter x || x == '_') =
      name.head?.any fun x => Text.isLatinLetter x || x == '_' := by
    cases name with
    | nil =>
      change (Text.isLatinLetter '=' || '=' == '_') = false
      decide
    | cons x name => rfl
  unfold isPlainName at h
  unfold nameWidth Text.countWhile
  rw [hhead]
  split at h
  · next hletter =>
    rw [if_pos hletter, Text.takeWhile_append_cons (List.all_eq_true.mp h) (by decide)]
  · next hdigit =>
    rw [if_neg hdigit, Text.takeWhile_append_cons (List.all_eq_true.mp h) (by decide)]

theorem name_head {f : Field} (hf : f ∈ fields) :
    ∃ x more, f.name.toList = x :: more ∧ Text.isSpacing x = false := by
  have hall : ∀ f ∈ fields, f.name.toList.head?.any (fun x => !Text.isSpacing x) = true := by
    decide
  have hhead := hall f hf
  cases hname : f.name.toList with
  | nil => rw [hname] at hhead; cases hhead
  | cons x more =>
    rw [hname] at hhead
    exact ⟨x, more, rfl, by simpa using hhead⟩

theorem readSetting_valueText {f : Field} {bytes : List UInt8} (h : bytes.length = f.size) {c : Cursor}
    {tail : List Char} (hc : c.rest = Image.valueText f bytes ++ '\n' :: tail) :
    ∃ behind : Cursor, behind.rest = '\n' :: tail ∧
      readSetting c = .ok (fieldSetting f bytes, behind) := by
  unfold Image.valueText at hc
  unfold fieldSetting
  split at hc
  · next hsize =>
    obtain ⟨d, digits, hd, hdigit⟩ := Text.decimal_eq_cons (littleEndian bytes)
    have hlt := SystemVariables.littleEndian_lt bytes
    have hsmall : littleEndian bytes < 100000 := by
      have hmono : twoTo (8 * bytes.length) ≤ twoTo 16 := Nat.pow_le_pow_right Nat.two_pos (by omega)
      exact Nat.lt_of_lt_of_le hlt (Nat.le_trans hmono (by decide))
    have hpeek : (c.peek == '[') = false := by
      rw [show c.peek = d from Cursor.peek_of_rest (by rw [hc, hd]; rfl), beq_eq_false_iff_ne]
      rintro rfl
      exact absurd hdigit (by decide)
    refine ⟨c.advance (Text.decimal (littleEndian bytes)).length, ?_, ?_⟩
    · rw [Cursor.rest_advance, hc, List.drop_left]
    · rw [readSetting, hpeek, if_neg Bool.false_ne_true,
        readInteger_decimal hsmall (by decide) (by decide) hc, if_pos hsize]
  · next hsize =>
    obtain ⟨behind, hread, hbehind⟩ := readBytes_byteList bytes hc
    refine ⟨behind, hbehind, ?_⟩
    rw [readSetting, show c.peek = '[' from Cursor.peek_of_rest (by rw [hc]; rfl), if_pos (by decide),
      hread, if_neg hsize]

theorem valueText_head (f : Field) (bytes : List UInt8) (tail : List Char) :
    ∃ x more, Image.valueText f bytes ++ tail = x :: more ∧ Text.isSpacing x = false := by
  unfold Image.valueText
  split
  · obtain ⟨d, digits, hd, hdigit⟩ := Text.decimal_eq_cons (littleEndian bytes)
    exact ⟨d, digits ++ tail, by rw [hd]; rfl, Text.isSpacing_of_isDigit hdigit⟩
  · exact ⟨'[', _, rfl, by decide⟩

theorem read_assignment (files : FileReader) {f : Field} (hf : f ∈ fields) {bytes : List UInt8}
    (h : bytes.length = f.size) {c : Cursor} {tail : List Char}
    (hc : c.rest = '#' :: '!' ::
      ("system-vars:".toList ++ (f.name.toList ++ '=' :: (Image.valueText f bytes ++ '\n' :: tail)))) :
    ∃ (behind : Cursor) (place : Position), behind.rest = '\n' :: tail ∧
      (read files c).result = .ok (.assign f.name.toList (fieldSetting f bytes) place, behind) := by
  have hplain := isPlainName_name f hf
  obtain ⟨x, more, hname, hx⟩ := name_head hf
  have hhead : head c.rest = ⟨2, "system-vars:".toList, false⟩ := by
    rw [hc, hname, List.cons_append]
    exact head_assignment _ hx
  obtain ⟨behind, hbehind, hread⟩ := read_of_head files hc hhead
  have hsubject : subject "system-vars:".toList = .assignment := by decide
  have hwidth : nameWidth behind.rest = f.name.toList.length := by
    rw [hbehind, nameWidth_equals hplain]
  have hequals : equalsWidth (behind.rest.drop f.name.toList.length) = 1 := by
    obtain ⟨y, value, hvalue, hy⟩ := valueText_head f bytes ('\n' :: tail)
    rw [hbehind, List.drop_left, equalsWidth, Text.countWhile_of_head _ (by decide)]
    change 0 + 1 + Text.countWhile Text.isSpacing (Image.valueText f bytes ++ '\n' :: tail) = 1
    rw [hvalue, Text.countWhile_of_head _ hy]
  have hsetting : (behind.advance (f.name.toList.length + 1)).rest =
      Image.valueText f bytes ++ '\n' :: tail := by
    rw [Cursor.rest_advance, hbehind, ← List.drop_drop, List.drop_left]
    rfl
  obtain ⟨next, hnext, hvalue⟩ := readSetting_valueText h hsetting
  refine ⟨next, behind.position, hnext, ?_⟩
  rw [hread, readBehind, hsubject]
  change readAssignment behind = _
  rw [readAssignment, hwidth, hequals, hvalue, hbehind, List.take_left, if_neg]
  rw [hname]
  simp

end Directive

end TapeBasic
