import TapeBasic.Proofs.Items
import TapeBasic.Proofs.MemoryLayout

/-!
# The areas that a listing asks for

The directives of a listing say what is on the screen, which bytes the variables are and what the system variables
hold. They are read item by item from the text, and what has been collected at its end is what they say, one behind the
other. So the areas of an image can be told from the text.

* `Source.readings files s`: what the items of a listing say.
* `Source.rows`, `Source.isCollapsed`, `Source.variableBytes`, `Source.assignments`: what its directives say about the
  screen, the variables and the system variables.
* `Assembly.Adds a b readings`: what these items add to a collection.

Results:
* `Assembly.adds_of_add?`, `Assembly.adds_of_foldlM`: one item, and a row of items.
* `Source.adds_of_collect`: what a listing without a fault adds up to.
* `Source.encodeImage_of_encodeProgram`: what becomes of a listing whose program can be encoded.
-/
namespace TapeBasic

open SystemVariables (programAddress)

/-! ## What an item says -/

namespace Item

/-- The screen row that an item gives. -/
def row? : Item → Option (List UInt8)
  | .header (.row bytes) => some bytes
  | _ => none

/-- Whether an item says that rows are not filled up. -/
def collapses : Item → Bool
  | .header .collapse => true
  | _ => false

/-- The bytes of the variables that an item gives. -/
def variableBytes : Item → List UInt8
  | .header (.variableBytes bytes) => bytes
  | _ => []

/-- The system variable that an item sets, and its value. -/
def assignment? : Item → Option (List Char × SystemVariables.Setting)
  | .header (.assign name setting _) => some (name, setting)
  | _ => none

end Item

namespace Source

/-- What the items of a listing say, in their order, each read by itself. -/
def readings (files : FileReader) (s : Source) : List Item :=
  (s.items files).filterMap (Item.ofText? files s.filename)

/-- The screen rows of the directives of a listing. -/
def rows (files : FileReader) (s : Source) : List (List UInt8) := (s.readings files).filterMap Item.row?

/-- Whether a directive of a listing says that rows are not filled up. -/
def isCollapsed (files : FileReader) (s : Source) : Bool := (s.readings files).any Item.collapses

/-- The bytes of the variables that the directives of a listing give. -/
def variableBytes (files : FileReader) (s : Source) : List UInt8 := (s.readings files).flatMap Item.variableBytes

/-- The system variables that the directives of a listing set, with their values. -/
def assignments (files : FileReader) (s : Source) : List (List Char × SystemVariables.Setting) :=
  (s.readings files).filterMap Item.assignment?

end Source

/-! ## What items add up to -/

namespace Assembly

/-- What items add to a collection: the rows and bytes of their directives behind those that it has, and their
assignments after those that were made. -/
structure Adds (a b : Assembly) (readings : List Item) : Prop where
  rows : b.rows.toList = a.rows.toList ++ readings.filterMap Item.row?
  collapsed : b.collapsed = (a.collapsed || readings.any Item.collapses)
  variableBytes : b.variableBytes.toList = a.variableBytes.toList ++ readings.flatMap Item.variableBytes
  system : a.system.assignAll (readings.filterMap Item.assignment?) = .ok b.system

variable {files : FileReader} {filename : List Char} {a b c : Assembly} {x : Item}

theorem Adds.nil (a : Assembly) : a.Adds a [] where
  rows := (List.append_nil _).symm
  collapsed := (Bool.or_false _).symm
  variableBytes := (List.append_nil _).symm
  system := rfl

theorem Adds.append {readings more : List Item} (h : a.Adds b readings) (hmore : b.Adds c more) :
    a.Adds c (readings ++ more) where
  rows := by rw [hmore.rows, h.rows, List.filterMap_append, List.append_assoc]
  collapsed := by rw [hmore.collapsed, h.collapsed, List.any_append, Bool.or_assoc]
  variableBytes := by rw [hmore.variableBytes, h.variableBytes, List.flatMap_append, List.append_assoc]
  system := by
    rw [List.filterMap_append]
    exact SystemVariables.assignAll_append h.system hmore.system

/-- Items that say nothing about an area leave it as it is. -/
theorem adds_of_same (hrow : x.row? = none) (hcollapses : x.collapses = false) (hbytes : x.variableBytes = [])
    (hassignment : x.assignment? = none) (hrows : b.rows = a.rows) (hcollapsed : b.collapsed = a.collapsed)
    (hvariableBytes : b.variableBytes = a.variableBytes) (hsystem : b.system = a.system) : a.Adds b [x] where
  rows := by simp [hrow, hrows]
  collapsed := by simp [hcollapses, hcollapsed]
  variableBytes := by simp [hbytes, hvariableBytes]
  system := by
    rw [List.filterMap_cons_none hassignment, hsystem]
    rfl

/-- **One item.** It adds what it says. -/
theorem adds_of_add? (h : a.add? x = some b) : a.Adds b [x] := by
  cases x with
  | line record =>
    rw [add?] at h
    split at h
    · cases h
      unfold addRecord
      split <;> exact adds_of_same rfl rfl rfl rfl rfl rfl rfl rfl
    · cases h
  | header directive =>
    rw [add?] at h
    cases hobey : a.obey ⟨0, 0⟩ (Cursor.start []) directive with
    | error fault =>
      rw [hobey] at h
      cases h
    | ok value =>
      obtain ⟨b', events⟩ := value
      rw [hobey] at h
      cases h
      cases obey_eq_ok_iff.mp hobey with
      | nothing => exact adds_of_same rfl rfl rfl rfl rfl rfl rfl rfl
      | start hlast => exact adds_of_same rfl rfl rfl rfl rfl rfl rfl rfl
      | collapse => exact ⟨(List.append_nil _).symm, (Bool.or_true _).symm, (List.append_nil _).symm, rfl⟩
      | row bytes => exact ⟨Array.toList_push, (Bool.or_false _).symm, (List.append_nil _).symm, rfl⟩
      | variableBytes bytes =>
        refine ⟨(List.append_nil _).symm, (Bool.or_false _).symm, ?_, rfl⟩
        simp [Item.variableBytes]
      | assign place hset =>
        refine ⟨(List.append_nil _).symm, (Bool.or_false _).symm, (List.append_nil _).symm, ?_⟩
        simp only [List.filterMap_cons, Item.assignment?, List.filterMap_nil, SystemVariables.assignAll,
          List.foldlM_cons, List.foldlM_nil, hset]
        rfl

/-- **Rows of items.** They add what each of them says. By induction on the items. -/
theorem adds_of_foldlM {items : List (List Char)} (h : items.foldlM (admit? files filename) a = some b) :
    a.Adds b (items.filterMap (Item.ofText? files filename)) := by
  induction items generalizing a with
  | nil =>
    cases h
    exact .nil _
  | cons item items ih =>
    rw [List.foldlM_cons] at h
    obtain ⟨a', hadmit, hrest⟩ := Option.bind_eq_some_iff.mp h
    obtain ⟨x, hx, hadd⟩ := Option.bind_eq_some_iff.mp hadmit
    rw [List.filterMap_cons_some hx]
    exact (adds_of_add? hadd).append (ih hrest)

end Assembly

/-! ## Images -/

namespace Source

variable {files : FileReader} {s : Source}

/-- What is collected from a listing is what its directives say. -/
theorem adds_of_collect (hend : ∀ x ∈ s.text.getLast?, x = '\n') (h : (s.collect files).fault = none) :
    Assembly.Adds {} (s.collect files).assembly (s.readings files) :=
  let ⟨_, hfold, _⟩ := itemized_items hend h
  let ⟨hrows, hcollapsed, hvariableBytes, hsystem⟩ := Assembly.adds_of_foldlM hfold
  ⟨hrows, hcollapsed, hvariableBytes, hsystem⟩

/-- **Images of listings.** Let the program of a listing be encoded, and read the display file, the variables and the
assignments of system variables off the items of its text. The only reason why there is no image is that the memory
would end too high. Otherwise the image has the program, the display file and the variables one behind the other,
pointers to them, and the system variables that the assignments set on a reset machine; and it comes apart into these
areas, with nothing outside the program. -/
theorem encodeImage_of_encodeProgram (files : FileReader) (filename text : List Char) {program : List UInt8}
    (h : (encodeProgram files (ofText filename text)).result = .ok program) :
    let s := ofText filename text
    let a := (s.collect files).assembly
    let result := (s.encodeImage files).result
    let display := Display.file (s.rows files) (s.isCollapsed files)
    let variableArea := s.variableBytes files ++ [0x80]
    let memoryEnd := programAddress + program.length + display.length + variableArea.length + 5
    (a.program = program ∧ a.displayFile = display ∧ a.variableArea = variableArea ∧
        SystemVariables.reset.assignAll (s.assignments files) = .ok a.system) ∧
      ((∃ address, result = .error (.tooLarge address)) ↔ 65535 < memoryEnd) ∧
      (∀ failure, result = .error failure → ∃ address, failure = .tooLarge address) ∧
      (memoryEnd ≤ 65535 →
        ∃ i : Image, result = .ok i.data ∧ Image.split i.data = .ok i ∧ i.Holds a) := by
  intro s a result display variableArea memoryEnd
  obtain ⟨hfault, hprogram⟩ := encodeProgram_eq_ok_iff.mp h
  have hadds := adds_of_collect (getLast?_ofText filename text) hfault
  have hdisplay : a.displayFile = display := by
    change Display.file a.rows.toList a.collapsed = _
    rw [hadds.rows, hadds.collapsed]
    rfl
  have hvariables : a.variableArea = variableArea := by
    change a.variableBytes.toList ++ _ = _
    rw [hadds.variableBytes]
    rfl
  have hend : memoryEnd = a.editLine + 5 := by
    change _ = programAddress + a.program.length + a.displayFile.length + a.variableArea.length + 5
    rw [hprogram, hdisplay, hvariables]
  refine ⟨⟨hprogram, hdisplay, hvariables, hadds.system⟩, ?_⟩
  rw [hend]
  rcases encodeImage_cases hfault with ⟨hfits, i, hok, hsplit, hholds⟩ | ⟨hlarge, herror⟩
  · rw [show result = .ok i.data from hok]
    exact ⟨⟨nofun, fun hlt => absurd hfits (Nat.not_le_of_lt hlt)⟩, nofun, fun _ =>
      ⟨i, rfl, hsplit, hholds⟩⟩
  · rw [show result = .error (.tooLarge a.editLine) from herror]
    refine ⟨⟨fun _ => hlarge, fun _ => ⟨_, rfl⟩⟩, ?_, fun hle => absurd hle (Nat.not_le_of_lt hlarge)⟩
    rintro failure ⟨⟩
    exact ⟨_, rfl⟩

/-- A listing that sets a system variable and gives a byte of the variables. -/
theorem encodeImage_of_encodeProgram_sample :
    let files : FileReader := fun _ => .error []
    let s := ofText defaultName
      "#!dfile-collapsed\n#!basic-vars:[7]\n#!system-vars:MARGIN=31\n10 CLS\n".toList
    s.assignments files = [("MARGIN".toList, .number 31)] ∧
      ∃ program system, (s.encodeProgram files).result = .ok program ∧
        SystemVariables.reset.set (.name "MARGIN".toList) (.number 31) = .ok system ∧
        ∃ i : Image, (s.encodeImage files).result = .ok i.data ∧ Image.split i.data = .ok i ∧
          i.program = program ∧ i.variableArea = [7, 0x80] ∧ i.system.SameFree system := by
  intro files s
  obtain ⟨hassignments, hbytes, hprogram, hfits⟩ : s.assignments files = [("MARGIN".toList, .number 31)] ∧
      s.variableBytes files = [7] ∧ (s.encodeProgram files).result = .ok [0, 10, 2, 0, 0xFB, 0x76] ∧
      (Display.file (s.rows files) (s.isCollapsed files)).length ≤ 25 := by
    decide +kernel
  obtain ⟨⟨harea, -, hvariables, hsystem⟩, -, -, himage⟩ :=
    encodeImage_of_encodeProgram files defaultName _ hprogram
  obtain ⟨i, hi, hsplit, hholds⟩ := himage (by
    change 16509 + 6 + (Display.file (s.rows files) (s.isCollapsed files)).length +
      (s.variableBytes files ++ [0x80]).length + 5 ≤ 65535
    rw [hbytes]
    simp only [List.length_append, List.length_singleton]
    omega)
  rw [hassignments, SystemVariables.assignAll, List.foldlM_cons] at hsystem
  dsimp only at hsystem
  cases hset : SystemVariables.reset.set (.name "MARGIN".toList) (.number 31) with
  | error failure =>
    rw [hset] at hsystem
    cases hsystem
  | ok system =>
    rw [hset] at hsystem
    cases hsystem
    exact ⟨hassignments, _, _, hprogram, rfl, i, hi, hsplit, hholds.program.trans harea,
      hholds.variableArea.trans (hvariables.trans (by rw [hbytes]; rfl)), hholds.free⟩

end Source

end TapeBasic
