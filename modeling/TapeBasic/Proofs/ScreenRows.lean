import TapeBasic.Image
import TapeBasic.Source.Encoding

/-!
# The rows of the screen

A display file is rows with line ends between them, so its rows are found again, and the directives that
show them build the display file again.

* `filled n e list`: a list cut to `n` elements, or filled up to them.
* `Display.contents rows collapsed`: the rows of a display file without their line ends.
* `Image.shownRows`: the rows for which an image shows a directive.

Results:
* `screenRows_eq`: the rows of an image are those of its display file.
* `file_shownRows`: the rows that are shown make the same display file, collapsed or not.
-/
namespace TapeBasic

theorem dropRightWhile_append {α : Type} (p : α → Bool) (list : List α) :
    dropRightWhile p list ++ (list.reverse.takeWhile p).reverse = list := by
  rw [dropRightWhile, ← List.reverse_append, List.takeWhile_append_dropWhile, List.reverse_reverse]

/-- What was dropped at the end, if it is always the same, can be filled up again. -/
theorem dropRightWhile_fill {α : Type} {p : α → Bool} {e : α} (h : ∀ x, p x = true → x = e)
    (list : List α) :
    dropRightWhile p list ++ List.replicate (list.length - (dropRightWhile p list).length) e = list := by
  have hall := dropRightWhile_append p list
  have hlength : list.length - (dropRightWhile p list).length =
      (list.reverse.takeWhile p).reverse.length := by
    have := congrArg List.length hall
    rw [List.length_append] at this
    omega
  have hreplicate : List.replicate (list.reverse.takeWhile p).reverse.length e =
      (list.reverse.takeWhile p).reverse := by
    refine (List.eq_replicate_of_mem fun x hx => ?_).symm
    exact h x (List.all_eq_true.mp List.all_takeWhile x (List.mem_reverse.mp hx))
  rw [hlength, hreplicate, hall]

/-! ## Filling up -/

section Filling

variable {α : Type} {n : Nat} {e : α}

/-- A list cut to some number of elements, or filled up to them. -/
def filled (n : Nat) (e : α) (list : List α) : List α := list.take n ++ List.replicate (n - list.length) e

theorem filled_append_replicate (list : List α) (more : Nat) :
    filled n e (list ++ List.replicate more e) = filled n e list := by
  have hcount : min (n - list.length) more + (n - (list.length + more)) = n - list.length := by omega
  rw [filled, List.take_append, List.take_replicate, List.length_append, List.length_replicate, List.append_assoc,
    List.replicate_append_replicate, hcount]
  rfl

theorem filled_take (list : List α) : filled n e (list.take n) = filled n e list := by
  have hcount : n - min n list.length = n - list.length := by omega
  rw [filled, List.take_take, Nat.min_self, List.length_take, hcount]
  rfl

/-- What was dropped at the end makes no difference. -/
theorem filled_dropRightWhile {p : α → Bool} (h : ∀ x, p x = true → x = e) (list : List α) :
    filled n e (dropRightWhile p list) = filled n e list := by
  rw [← filled_append_replicate, dropRightWhile_fill h]

end Filling

/-! ## Rows and line ends -/

namespace Display

/-- A row as it is stored, without its line end. -/
def content (collapsed : Bool) (row : List UInt8) : List UInt8 :=
  row.take columnCount ++
    if collapsed then [] else List.replicate (columnCount - (row.take columnCount).length) Token.space

/-- The rows of a display file without their line ends. -/
def contents (rows : List (List UInt8)) (collapsed : Bool) : List (List UInt8) :=
  (rows.take rowCount ++ List.replicate (rowCount - rows.length) []).map (content collapsed)

/-- Rows with a line end in front and one behind each. -/
def ended (rows : List (List UInt8)) : List UInt8 :=
  Token.lineEnd :: rows.flatMap (· ++ [Token.lineEnd])

theorem file_eq (rows : List (List UInt8)) (collapsed : Bool) :
    file rows collapsed = ended (contents rows collapsed) := by
  rw [ended, contents, List.flatMap_map]
  rfl

theorem length_contents (rows : List (List UInt8)) (collapsed : Bool) :
    (contents rows collapsed).length = rowCount := by
  simp only [contents, List.length_map, List.length_append, List.length_take, List.length_replicate]
  omega

theorem length_content_le (collapsed : Bool) (row : List UInt8) :
    (content collapsed row).length ≤ columnCount := by
  unfold content
  split <;> simp only [List.length_append, List.length_take, List.length_replicate, List.length_nil] <;>
    omega

theorem lineEnd_not_mem_content {row : List UInt8} (h : Token.lineEnd ∉ row) (collapsed : Bool) :
    Token.lineEnd ∉ content collapsed row := by
  refine List.not_mem_append (fun hmem => h (List.mem_of_mem_take hmem)) ?_
  split
  · exact List.not_mem_nil
  · exact fun hmem => absurd (List.eq_of_mem_replicate hmem) (by decide)

theorem lineEnd_not_mem_contents {rows : List (List UInt8)} (h : ∀ row ∈ rows, Token.lineEnd ∉ row)
    (collapsed : Bool) : ∀ row ∈ contents rows collapsed, Token.lineEnd ∉ row := by
  intro row hrow
  obtain ⟨row', hrow', rfl⟩ := List.mem_map.mp hrow
  refine lineEnd_not_mem_content ?_ collapsed
  rcases List.mem_append.mp hrow' with hmem | hmem
  · exact h row' (List.mem_of_mem_take hmem)
  · rw [List.eq_of_mem_replicate hmem]
    exact List.not_mem_nil

/-- Rows with line ends behind them are rows with line ends between them and one at the end. -/
theorem flatMap_ended {rows : List (List UInt8)} (h : rows ≠ []) :
    rows.flatMap (· ++ [Token.lineEnd]) = List.intercalate [Token.lineEnd] rows ++ [Token.lineEnd] := by
  induction rows with
  | nil => exact absurd rfl h
  | cons row rows ih =>
    cases rows with
    | nil => simp [List.intercalate]
    | cons row' rows =>
      rw [List.flatMap_cons, ih (List.cons_ne_nil _ _), List.intercalate_cons_cons, List.append_assoc,
        List.append_assoc, List.append_assoc]

theorem length_flatMap_ended_le {rows : List (List UInt8)} (hwidth : ∀ row ∈ rows, row.length ≤ columnCount) :
    (rows.flatMap (· ++ [Token.lineEnd])).length ≤ rows.length * (columnCount + 1) := by
  induction rows with
  | nil => exact Nat.le_refl _
  | cons row rows ih =>
    obtain ⟨hrow, hrows⟩ := List.forall_mem_cons.mp hwidth
    have := ih hrows
    simp only [List.flatMap_cons, List.length_append, List.length_cons, List.length_nil, Nat.add_mul]
    omega

/-- A display file that has the size of one with full rows has full rows. -/
theorem full_of_length {rows : List (List UInt8)} (hwidth : ∀ row ∈ rows, row.length ≤ columnCount)
    (h : rows.length * (columnCount + 1) ≤ (rows.flatMap (· ++ [Token.lineEnd])).length) :
    ∀ row ∈ rows, row.length = columnCount := by
  induction rows with
  | nil => exact nofun
  | cons row rows ih =>
    obtain ⟨hrow, hrows⟩ := List.forall_mem_cons.mp hwidth
    have := length_flatMap_ended_le hrows
    simp only [List.flatMap_cons, List.length_append, List.length_cons, List.length_nil,
      Nat.add_mul] at h
    exact List.forall_mem_cons.mpr ⟨by omega, ih hrows (by omega)⟩

/-- No display file is larger than one with full rows. -/
theorem length_file_le (rows : List (List UInt8)) (collapsed : Bool) :
    (file rows collapsed).length ≤ expandedSize := by
  have hle : ((contents rows collapsed).flatMap (· ++ [Token.lineEnd])).length ≤
      (contents rows collapsed).length * (columnCount + 1) := by
    refine length_flatMap_ended_le fun row hrow => ?_
    obtain ⟨row', -, rfl⟩ := List.mem_map.mp hrow
    exact length_content_le collapsed row'
  rw [length_contents] at hle
  rw [file_eq, ended, List.length_cons, expandedSize]
  omega

/-! ## Rows filled up -/

theorem content_collapsed {row : List UInt8} (h : row.length ≤ columnCount) : content true row = row := by
  rw [content, List.take_of_length_le h, if_pos rfl, List.append_nil]

theorem content_expanded (row : List UInt8) : content false row = filled columnCount Token.space row := by
  rw [← filled_take, filled, List.take_take, Nat.min_self]
  rfl

/-- The spaces at the end of a row are filled up again. -/
theorem content_stripped (row : List UInt8) :
    content false (dropRightWhile (· == Token.space) row) = content false row := by
  rw [content_expanded, content_expanded, filled_dropRightWhile fun _ hb => beq_iff_eq.mp hb]

theorem content_full {row : List UInt8} (h : row.length = columnCount) : content false row = row := by
  rw [content_expanded, filled, ← h, List.take_length, Nat.sub_self, List.replicate_zero, List.append_nil]

theorem contents_map {collapsed : Bool} {f : List UInt8 → List UInt8}
    (h : ∀ row, content collapsed (f row) = content collapsed row) (rows : List (List UInt8)) :
    contents (rows.map f) collapsed = contents rows collapsed := by
  have hrows : (rows.take rowCount).map (content collapsed ∘ f) = (rows.take rowCount).map (content collapsed) :=
    List.map_congr_left fun row _ => h row
  rw [contents, List.length_map, ← List.map_take, List.map_append, List.map_map, hrows, ← List.map_append]
  rfl

theorem contents_dropRightWhile (rows : List (List UInt8)) (collapsed : Bool) :
    contents (dropRightWhile List.isEmpty rows) collapsed = contents rows collapsed :=
  congrArg (List.map (content collapsed)) (filled_dropRightWhile (fun _ hrow => List.isEmpty_iff.mp hrow) rows)

theorem contents_of_length {rows : List (List UInt8)} (h : rows.length = rowCount) (collapsed : Bool) :
    contents rows collapsed = rows.map (content collapsed) := by
  rw [contents, ← h, List.take_length, Nat.sub_self, List.replicate_zero, List.append_nil]

end Display

/-! ## The rows of an image -/

namespace Image

/-- The rows for which the image shows a directive. -/
def shownRows (i : Image) : List (List UInt8) :=
  dropRightWhile List.isEmpty
    (if i.isCollapsed then i.screenRows else i.screenRows.map (dropRightWhile (· == Token.space)))

/-- **Rows.** They are found between the line ends. -/
theorem screenRows_eq {i : Image} {stored : List (List UInt8)} (hne : stored ≠ [])
    (h : ∀ row ∈ stored, Token.lineEnd ∉ row) (hdisplay : i.display = Display.ended stored) :
    i.screenRows = stored := by
  have hbody : i.display.drop 1 = List.intercalate [Token.lineEnd] stored ++ [Token.lineEnd] := by
    rw [hdisplay, Display.ended, List.drop_succ_cons, List.drop_zero, Display.flatMap_ended hne]
  have hlength : ¬i.display.length ≤ 1 := by
    have := congrArg List.length hbody
    simp only [List.length_drop, List.length_append, List.length_cons, List.length_nil] at this
    omega
  unfold screenRows
  dsimp only
  rw [hbody, List.getLast?_concat, List.dropLast_concat]
  simp only [beq_self_eq_true, if_true, hlength, decide_false, Bool.and_false, Bool.false_eq_true,
    if_false]
  exact List.splitOn_intercalate _ h hne

theorem lineEnd_not_mem_screenRows (i : Image) : ∀ row ∈ i.screenRows, Token.lineEnd ∉ row := by
  unfold screenRows
  dsimp only
  split
  all_goals
    split
    · exact nofun
    · exact fun _ => not_mem_of_mem_splitOn

theorem lineEnd_not_mem_shownRows (i : Image) : ∀ row ∈ i.shownRows, Token.lineEnd ∉ row := by
  have hdrop : ∀ {α : Type} (p : α → Bool) {list : List α} {x : α}, x ∈ dropRightWhile p list →
      x ∈ list := by
    intro α p list x hx
    rw [← dropRightWhile_append p list]
    exact List.mem_append_left _ hx
  intro row hrow
  have hrow := hdrop _ hrow
  split at hrow
  · exact i.lineEnd_not_mem_screenRows row hrow
  · obtain ⟨row', hrow', rfl⟩ := List.mem_map.mp hrow
    exact fun hmem => i.lineEnd_not_mem_screenRows row' hrow' (hdrop _ hmem)

/-- **The screen.** The rows that an image shows make its display file. -/
theorem file_shownRows {i : Image} {rows : List (List UInt8)} {collapsed : Bool}
    (h : ∀ row ∈ rows, Token.lineEnd ∉ row) (hdisplay : i.display = Display.file rows collapsed) :
    Display.file i.shownRows i.isCollapsed = i.display := by
  have hlength := Display.length_contents rows collapsed
  have hwidth : ∀ row ∈ Display.contents rows collapsed, row.length ≤ Display.columnCount := by
    intro row hrow
    obtain ⟨row', -, rfl⟩ := List.mem_map.mp hrow
    exact Display.length_content_le collapsed row'
  rw [Display.file_eq] at hdisplay
  have hrows : i.screenRows = Display.contents rows collapsed :=
    screenRows_eq (List.ne_nil_of_length_pos (by rw [hlength]; decide))
      (Display.lineEnd_not_mem_contents h collapsed) hdisplay
  rw [Display.file_eq, shownRows, Display.contents_dropRightWhile, hdisplay]
  refine congrArg Display.ended ?_
  cases hcollapsed : i.isCollapsed with
  | true =>
    rw [if_pos rfl, hrows, Display.contents_of_length hlength]
    exact (List.map_congr_left fun row hrow => Display.content_collapsed (hwidth row hrow)).trans
      (List.map_id _)
  | false =>
    have hfull : ∀ row ∈ Display.contents rows collapsed, row.length = Display.columnCount := by
      refine Display.full_of_length hwidth ?_
      rw [isCollapsed, decide_eq_false_iff_not, hdisplay, Display.ended, List.length_cons,
        Display.expandedSize] at hcollapsed
      rw [hlength]
      omega
    rw [if_neg Bool.false_ne_true, Display.contents_map Display.content_stripped, hrows,
      Display.contents_of_length hlength]
    exact (List.map_congr_left fun row hrow => Display.content_full (hfull row hrow)).trans
      (List.map_id _)

end Image

end TapeBasic
