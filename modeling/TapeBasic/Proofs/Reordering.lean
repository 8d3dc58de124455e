import Mathlib.Data.List.Perm.Basic
import TapeBasic.Proofs.Items
import TapeBasic.Proofs.MemoryLayout

/-!
# Items in another order

What an item adds goes to one part of a collection: the program, the screen rows, the variables or one field of the
system variables. Items that add to different parts can change places. So a listing whose items are put into another
order, in which the items of each part follow one another as before, has the same tape image.

* `Item.lane?`: the part of a collection to which an item adds, if the order in which it comes matters at all.
* `Source.joined items`: a listing of the texts of items, each on lines of its own.

Results:
* `Assembly.add?_comm`: two items of different lanes can be added in either order.
* `foldlM_reordered`: so can any number of them, if the order in each lane is kept.
* `Source.encodeImage_reordered`: the tape image of the items of a listing in another order.
-/
namespace TapeBasic

open SystemVariables (Field)

/-! ## System variables -/

namespace SystemVariables

/-- Fields that are apart can be set in either order. -/
theorem setField_comm (s : SystemVariables) {f g : Field} (hf : f ∈ fields) (hg : g ∈ fields) (hne : f ≠ g)
    {bytes bytes' : List UInt8} (h : bytes.length = f.size) (h' : bytes'.length = g.size) :
    (s.setField f bytes h).setField g bytes' h' = (s.setField g bytes' h').setField f bytes h := by
  refine eq_of_fieldBytes fun k hk => ?_
  by_cases hkf : k = f
  · subst hkf
    rw [fieldBytes_setField_of_apart _ (apart_of_ne hg hf hne.symm), fieldBytes_setField, fieldBytes_setField]
  · have hapart := apart_of_ne hf hk (Ne.symm hkf)
    rw [fieldBytes_setField_of_apart _ hapart]
    by_cases hkg : k = g
    · subst hkg
      rw [fieldBytes_setField, fieldBytes_setField]
    · have hapart' := apart_of_ne hg hk (Ne.symm hkg)
      rw [fieldBytes_setField_of_apart _ hapart', fieldBytes_setField_of_apart _ hapart',
        fieldBytes_setField_of_apart _ hapart]

theorem setFieldBytes_comm (s : SystemVariables) {x y : Field × List UInt8} (hx : x.1 ∈ fields) (hy : y.1 ∈ fields)
    (hne : x.1 ≠ y.1) : (s.setFieldBytes x).setFieldBytes y = (s.setFieldBytes y).setFieldBytes x := by
  unfold setFieldBytes
  by_cases h : x.2.length = x.1.size
  · by_cases h' : y.2.length = y.1.size
    · simp only [dif_pos h, dif_pos h']
      exact s.setField_comm hx hy hne h h'
    · simp only [dif_pos h, dif_neg h']
  · simp only [dif_neg h]

/-- An assignment sets a field, unless it is refused, and neither depends on what the record holds. -/
theorem toOption_set (s : SystemVariables) (key : Key) (setting : Setting) :
    (s.set key setting).toOption = (Field.find key).toOption.bind fun f =>
      (settingBytes f setting).toOption.map fun bytes => s.setFieldBytes (f, bytes) := by
  cases hfind : Field.find key with
  | error why =>
    unfold set resolve
    rw [hfind]
    rfl
  | ok f =>
    have hkey : resolve key = .ok f := by rw [resolve, hfind]
    cases hbytes : settingBytes f setting with
    | error failure =>
      unfold set
      rw [hkey]
      dsimp only
      split
      · next heq => exact congrArg (Option.map _) (congrArg Except.toOption hbytes).symm
      · next heq => cases hbytes.symm.trans heq
    | ok bytes =>
      have hset : s.setFieldBytes (f, bytes) = s.setField f bytes (length_settingBytes hbytes) := dif_pos _
      rw [set_eq hkey hbytes, ← hset, Except.toOption, Except.toOption, Option.bind_some, hbytes]
      rfl

end SystemVariables

/-! ## Lanes -/

/-- The parts of a collection in which the order of the items matters. -/
inductive Item.Lane where
  | program
  | rows
  | variableBytes
  /-- The field of the system variables that starts at an address. -/
  | field (address : Nat)
deriving DecidableEq

/-- The part to which an item adds; none if the order in which it comes does not matter, or if it is refused anyway. -/
def Item.lane? : Item → Option Item.Lane
  | .line _ => some .program
  | .header (.start _) => some .program
  | .header (.row _) => some .rows
  | .header (.variableBytes _) => some .variableBytes
  | .header (.assign name _ _) => (Field.find (.name name)).toOption.map fun f => .field f.address
  | .header .nothing => none
  | .header .collapse => none

/-! ## Effects -/

/-- The part of a collection to which lines and the line to start with belong. -/
structure ProgramPart where
  records : Array LineRecord
  pendingStart : Option (Nat × Position)
  startOffset : Option Nat

namespace Assembly

/-- The part for lines and the line to start with. -/
def programPart (a : Assembly) : ProgramPart := ⟨a.records, a.pendingStart, a.startOffset⟩

/-- A collection of nothing but lines and the line to start with. -/
def ofProgramPart (part : ProgramPart) : Assembly :=
  { records := part.records, pendingStart := part.pendingStart, startOffset := part.startOffset }

end Assembly

/-- What an item does to each part of a collection. -/
structure Item.Effect where
  program : ProgramPart → Option ProgramPart := some
  rows : List (List UInt8) := []
  variableBytes : List UInt8 := []
  field : Option (Field × List UInt8) := none
  collapses : Bool := false

namespace Item.Effect

/-- The record of system variables with a field set, if there is one to be set. -/
def system (e : Effect) (s : SystemVariables) : SystemVariables := e.field.elim s s.setFieldBytes

/-- The collection with all parts changed. -/
def apply (e : Effect) (a : Assembly) : Option Assembly :=
  (e.program a.programPart).map fun part =>
    { records := part.records
      pendingStart := part.pendingStart
      startOffset := part.startOffset
      rows := a.rows ++ e.rows
      collapsed := a.collapsed || e.collapses
      variableBytes := a.variableBytes ++ e.variableBytes
      system := e.system a.system }

/-- Two effects on different parts. -/
structure Apart (e e' : Effect) : Prop where
  program : e.program = some ∨ e'.program = some
  rows : e.rows = [] ∨ e'.rows = []
  variableBytes : e.variableBytes = [] ∨ e'.variableBytes = []
  field : ∀ x ∈ e.field, ∀ y ∈ e'.field, x.1 ∈ SystemVariables.fields ∧
    y.1 ∈ SystemVariables.fields ∧ x.1 ≠ y.1

theorem system_comm {e e' : Effect} (h : e.Apart e') (s : SystemVariables) :
    e'.system (e.system s) = e.system (e'.system s) := by
  unfold system
  cases hx : e.field with
  | none => rfl
  | some x =>
    cases hy : e'.field with
    | none => rfl
    | some y =>
      obtain ⟨hxf, hyf, hne⟩ := h.field x hx y hy
      exact s.setFieldBytes_comm hxf hyf hne

/-- Effects on different parts can come in either order. -/
theorem apply_comm {e e' : Effect} (h : e.Apart e') (a : Assembly) :
    (e.apply a).bind e'.apply = (e'.apply a).bind e.apply := by
  have hrows : a.rows ++ e.rows ++ e'.rows = a.rows ++ e'.rows ++ e.rows := by
    rcases h.rows with hnil | hnil <;> simp [hnil]
  have hvariables : a.variableBytes ++ e.variableBytes ++ e'.variableBytes =
      a.variableBytes ++ e'.variableBytes ++ e.variableBytes := by
    rcases h.variableBytes with hnil | hnil <;> simp [hnil]
  have hcollapsed : (a.collapsed || e.collapses || e'.collapses) = (a.collapsed || e'.collapses || e.collapses) :=
    Bool.or_right_comm _ _ _
  have hprogram : (e.program a.programPart).bind e'.program = (e'.program a.programPart).bind e.program := by
    rcases h.program with hsome | hsome <;> simp [hsome]
  have happly : ∀ f g : Effect, (f.apply a).bind g.apply =
      ((f.program a.programPart).bind g.program).map fun part =>
        { records := part.records
          pendingStart := part.pendingStart
          startOffset := part.startOffset
          rows := a.rows ++ f.rows ++ g.rows
          collapsed := a.collapsed || f.collapses || g.collapses
          variableBytes := a.variableBytes ++ f.variableBytes ++ g.variableBytes
          system := g.system (f.system a.system) } := by
    intro f g
    unfold apply
    cases hf : f.program a.programPart with
    | none => rfl
    | some part => rfl
  rw [happly, happly, hprogram, hrows, hvariables, hcollapsed, system_comm h]

end Item.Effect

/-- What an item does to any collection; none if it is always refused. -/
def Item.effect? : Item → Option Item.Effect
  | .line record =>
    some { program := fun part => ((Assembly.ofProgramPart part).add? (.line record)).map Assembly.programPart }
  | .header (.start number) =>
    some { program := fun part =>
      ((Assembly.ofProgramPart part).add? (.header (.start number))).map Assembly.programPart }
  | .header (.row bytes) => some { rows := [bytes] }
  | .header (.variableBytes bytes) => some { variableBytes := bytes }
  | .header (.assign name setting _) =>
    (Field.find (.name name)).toOption.bind fun f =>
      (SystemVariables.settingBytes f setting).toOption.map fun bytes => { field := some (f, bytes) }
  | .header .nothing => some {}
  | .header .collapse => some { collapses := true }

namespace Assembly

variable {a : Assembly}

/-- A line is added in the same way whatever the other parts are. -/
theorem addRecord_eq (a : Assembly) (r : LineRecord) : a.addRecord r =
    { (ofProgramPart a.programPart).addRecord r with
      rows := a.rows
      collapsed := a.collapsed
      variableBytes := a.variableBytes
      system := a.system } := by
  unfold addRecord ofProgramPart programPart
  dsimp only
  split <;> rfl

theorem add?_line (a : Assembly) (r : LineRecord) :
    a.add? (.line r) = (Item.effect? (.line r)).bind fun e => e.apply a := by
  have hlast : (ofProgramPart a.programPart).lastNumber = a.lastNumber := rfl
  simp only [add?, Item.effect?, Option.bind_some, Item.Effect.apply, hlast]
  split
  · rw [addRecord_eq]
    simp [programPart, Item.Effect.system]
  · rfl

theorem add?_start (a : Assembly) (number : Nat) :
    a.add? (.header (.start number)) = (Item.effect? (.header (.start number))).bind fun e => e.apply a := by
  have hlast : (ofProgramPart a.programPart).lastNumber = a.lastNumber := rfl
  simp only [add?, obey, nameStart, Item.effect?, Option.bind_some, Item.Effect.apply, hlast]
  cases a.lastNumber with
  | none => simp [Except.toOption, programPart, ofProgramPart, Item.Effect.system]
  | some last =>
    dsimp only
    split
    · rfl
    · simp [Except.toOption, programPart, ofProgramPart, Item.Effect.system]

theorem add?_assign (a : Assembly) (name : List Char) (setting : SystemVariables.Setting) (at_ : Position) :
    a.add? (.header (.assign name setting at_)) =
      (Item.effect? (.header (.assign name setting at_))).bind fun e => e.apply a := by
  have hset : a.add? (.header (.assign name setting at_)) =
      (a.system.set (.name name) setting).toOption.map fun system => { a with system } := by
    simp only [add?, obey, assign]
    cases a.system.set (.name name) setting <;> rfl
  rw [hset, SystemVariables.toOption_set]
  simp only [Item.effect?]
  cases (Field.find (.name name)).toOption with
  | none => rfl
  | some f =>
    simp only [Option.bind_some]
    cases (SystemVariables.settingBytes f setting).toOption with
    | none => rfl
    | some bytes => simp [Item.Effect.apply, programPart, Item.Effect.system]

/-- **One item.** It is added by its effect. -/
theorem add?_eq_effect (a : Assembly) (x : Item) : a.add? x = x.effect?.bind fun e => e.apply a := by
  cases x with
  | line r => exact a.add?_line r
  | header directive =>
    cases directive with
    | start number => exact a.add?_start number
    | assign name setting at_ => exact a.add?_assign name setting at_
    | nothing | collapse | row | variableBytes =>
      simp [add?, obey, Item.effect?, Item.Effect.apply, programPart, Except.toOption, Item.Effect.system]

end Assembly

namespace Item

/-- An effect on no other part than the one of a lane, if there is one. -/
structure Effect.InLane (lane : Option Lane) (e : Effect) : Prop where
  program : lane ≠ some .program → e.program = some
  rows : lane ≠ some .rows → e.rows = []
  variableBytes : lane ≠ some .variableBytes → e.variableBytes = []
  field : ∀ y ∈ e.field, y.1 ∈ SystemVariables.fields ∧ lane = some (.field y.1.address)

/-- The effect of an item is one in its lane. -/
theorem inLane_of_effect? {x : Item} {e : Effect} (h : x.effect? = some e) : e.InLane x.lane? := by
  cases x with
  | line r =>
    cases h
    exact ⟨fun hne => absurd rfl hne, fun _ => rfl, fun _ => rfl, nofun⟩
  | header directive =>
    cases directive with
    | nothing | collapse =>
      cases h
      exact ⟨fun _ => rfl, fun _ => rfl, fun _ => rfl, nofun⟩
    | start number =>
      cases h
      exact ⟨fun hne => absurd rfl hne, fun _ => rfl, fun _ => rfl, nofun⟩
    | row bytes =>
      cases h
      exact ⟨fun _ => rfl, fun hne => absurd rfl hne, fun _ => rfl, nofun⟩
    | variableBytes bytes =>
      cases h
      exact ⟨fun _ => rfl, fun _ => rfl, fun hne => absurd rfl hne, nofun⟩
    | assign name setting at_ =>
      obtain ⟨f, hf, h⟩ := Option.bind_eq_some_iff.mp h
      obtain ⟨bytes, -, rfl⟩ := Option.map_eq_some_iff.mp h
      refine ⟨fun _ => rfl, fun _ => rfl, fun _ => rfl, ?_⟩
      rintro y ⟨rfl⟩
      refine ⟨?_, congrArg (Option.map fun f : Field => Lane.field f.address) hf⟩
      cases hfind : Field.find (.name name) with
      | error why =>
        rw [hfind] at hf
        cases hf
      | ok g =>
        rw [hfind] at hf
        cases hf
        exact SystemVariables.mem_of_find hfind

/-- Effects in different lanes are on different parts. -/
theorem Effect.InLane.apart {lane lane' : Option Lane} {e e' : Effect} (h : e.InLane lane) (h' : e'.InLane lane')
    (hlanes : lane = none ∨ lane ≠ lane') : e.Apart e' := by
  have hsplit : ∀ part : Lane, lane ≠ some part ∨ lane' ≠ some part := by
    intro part
    by_contra hboth
    obtain ⟨hlane, hlane'⟩ := not_or.mp hboth
    rw [not_not.mp hlane, not_not.mp hlane'] at hlanes
    exact hlanes.elim nofun fun hne => hne rfl
  refine ⟨(hsplit .program).imp h.program h'.program, (hsplit .rows).imp h.rows h'.rows,
    (hsplit .variableBytes).imp h.variableBytes h'.variableBytes, fun x hx y hy => ?_⟩
  obtain ⟨hxf, hxlane⟩ := h.field x hx
  obtain ⟨hyf, hylane⟩ := h'.field y hy
  refine ⟨hxf, hyf, fun heq => ?_⟩
  rcases hsplit (.field x.1.address) with hne | hne
  · exact hne hxlane
  · exact hne (heq ▸ hylane)

/-- The lane of the text of an item. -/
def laneOf? (files : FileReader) (filename text : List Char) : Option Lane := (ofText? files filename text).bind lane?

end Item

namespace Assembly

/-- **Two items.** Items of different lanes can be added in either order. -/
theorem add?_comm {x y : Item} (h : x.lane? = none ∨ x.lane? ≠ y.lane?) (a : Assembly) :
    (a.add? x).bind (·.add? y) = (a.add? y).bind (·.add? x) := by
  simp only [add?_eq_effect]
  cases hx : x.effect? with
  | none => simp
  | some e =>
    cases hy : y.effect? with
    | none => simp
    | some e' =>
      exact Item.Effect.apply_comm ((Item.inLane_of_effect? hx).apart (Item.inLane_of_effect? hy) h) a

theorem admit?_comm {files : FileReader} {filename text text' : List Char}
    (h : Item.laneOf? files filename text = none ∨
      Item.laneOf? files filename text ≠ Item.laneOf? files filename text')
    (a : Assembly) : (admit? files filename a text).bind (admit? files filename · text') =
      (admit? files filename a text').bind (admit? files filename · text) := by
  unfold admit?
  unfold Item.laneOf? at h
  cases hx : Item.ofText? files filename text with
  | none => simp
  | some x =>
    cases hy : Item.ofText? files filename text' with
    | none => simp
    | some y =>
      rw [hx, hy] at h
      exact add?_comm h a

end Assembly

/-! ## Any number of items -/

section Reordered

variable {α β κ : Type} [DecidableEq κ] {add : β → α → Option β} {lane? : α → Option κ}

/-- What commutes with every item of a row can be added in front of it. -/
theorem foldlM_middle {x : α} {xs ys : List α}
    (hcomm : ∀ y ∈ xs, ∀ b, (add b y).bind (add · x) = (add b x).bind (add · y)) (b : β) :
    (xs ++ x :: ys).foldlM add b = (x :: (xs ++ ys)).foldlM add b := by
  induction xs generalizing b with
  | nil => rfl
  | cons y xs ih =>
    obtain ⟨hy, hxs⟩ := List.forall_mem_cons.mp hcomm
    calc (y :: (xs ++ x :: ys)).foldlM add b
        = (add b y).bind fun b' => (x :: (xs ++ ys)).foldlM add b' := by
          rw [List.foldlM_cons]
          exact congrArg (Option.bind _) (funext fun b' => ih hxs b')
      _ = ((add b y).bind (add · x)).bind fun b' => (xs ++ ys).foldlM add b' := by
          rw [Option.bind_assoc]
          rfl
      _ = ((add b x).bind (add · y)).bind fun b' => (xs ++ ys).foldlM add b' := by rw [hy]
      _ = (x :: y :: (xs ++ ys)).foldlM add b := by
          rw [Option.bind_assoc]
          rfl

/-- **Another order.** Where items of different lanes commute, a row of items and another order of them in which the
items of each lane follow one another as before add up to the same. -/
theorem foldlM_reordered
    (hcomm : ∀ x y, (lane? x = none ∨ lane? x ≠ lane? y) →
      ∀ b, (add b x).bind (add · y) = (add b y).bind (add · x))
    {xs ys : List α} (hperm : ys.Perm xs)
    (hkept : ∀ lane, ys.filter (fun y => lane? y = some lane) = xs.filter fun x => lane? x = some lane) (b : β) :
    ys.foldlM add b = xs.foldlM add b := by
  induction xs generalizing ys b with
  | nil => rw [hperm.eq_nil]
  | cons x xs ih =>
    obtain ⟨front, back, rfl, hfront⟩ : ∃ front back, ys = front ++ x :: back ∧
        ∀ y ∈ front, lane? x = none ∨ lane? x ≠ lane? y := by
      cases hx : lane? x with
      | none =>
        obtain ⟨front, back, rfl⟩ := List.append_of_mem (hperm.mem_iff.mpr List.mem_cons_self)
        exact ⟨front, back, rfl, fun _ _ => .inl rfl⟩
      | some lane =>
        have hfirst := hkept lane
        rw [List.filter_cons_of_pos (by simp [hx])] at hfirst
        obtain ⟨front, back, rfl, hfront, -⟩ := List.filter_eq_cons_iff.mp hfirst
        refine ⟨front, back, rfl, fun y hy => .inr fun heq => hfront y hy ?_⟩
        simp [← heq]
    have hrest : (front ++ back).Perm xs := (List.perm_middle.symm.trans hperm).cons_inv
    have hkeptRest : ∀ lane, (front ++ back).filter (fun y => lane? y = some lane) =
        xs.filter fun x => lane? x = some lane := by
      intro lane
      have hlane := hkept lane
      by_cases hx : lane? x = some lane
      · -- the first item of its lane in either order
        have hnone : front.filter (fun y => lane? y = some lane) = [] := by
          refine List.filter_eq_nil_iff.mpr fun y hy hlane => ?_
          rcases hfront y hy with hfree | hne
          · cases hx.symm.trans hfree
          · exact hne (hx.trans (of_decide_eq_true hlane).symm)
        rw [List.filter_append, hnone, List.nil_append, List.filter_cons_of_pos (by simp [hx]),
          List.filter_cons_of_pos (by simp [hx])] at hlane
        rw [List.filter_append, hnone, List.nil_append]
        exact (List.cons.inj hlane).2
      · rw [List.filter_append, List.filter_cons_of_neg (by simp [hx]), List.filter_cons_of_neg (by simp [hx]),
          ← List.filter_append] at hlane
        exact hlane
    rw [foldlM_middle fun y hy b => (hcomm x y (hfront y hy) b).symm, List.foldlM_cons, List.foldlM_cons]
    exact congrArg (Option.bind _) (funext fun b' => ih hrest hkeptRest b')

end Reordered

/-! ## Listings -/

theorem Assembly.image_placeless (a : Assembly) : a.placeless.image = a.image := rfl

namespace Source

/-- A listing of items, each on lines of its own. -/
def joined (items : List (List Char)) : List Char := items.flatMap (· ++ ['\n'])

theorem itemized_joined {files : FileReader} {filename tail : List Char} (htail : Cursor.Skips tail) :
    ∀ {items : List (List Char)}, (∀ item ∈ items, Item.IsText files filename item) →
      Itemized files filename items (joined items ++ tail)
  | [], _ => .nil htail
  | item :: items, h => by
    obtain ⟨hitem, hitems⟩ := List.forall_mem_cons.mp h
    have hrest : Itemized files filename items (['\n'] ++ (joined items ++ tail)) :=
      (itemized_joined htail hitems).behind (Cursor.skips_blank rfl)
    have hrow := Itemized.cons Cursor.skips_nil hitem (.inl ⟨_, rfl⟩) hrest
    simpa [joined] using hrow

theorem not_mem_ofText (filename text : List Char) : '\r' ∉ (ofText filename text).text := by
  unfold ofText
  dsimp only
  split <;> simp

/-- **Items in another order.** Let a listing have a tape image. Its items can be put into any other order in which
those of each lane follow one another as before: lines and directives for the line to start with, screen rows, bytes of
the variables, and assignments to one field. The listing of these items, each on lines of its own, has the same
image. -/
theorem encodeImage_reordered {files : FileReader} {filename text : List Char} {image : List UInt8}
    (h : (encodeImage files (ofText filename text)).result = .ok image) {items : List (List Char)}
    (hperm : items.Perm ((ofText filename text).items files))
    (hkept : ∀ lane, items.filter (fun item => Item.laneOf? files filename item = some lane) =
      ((ofText filename text).items files).filter fun item => Item.laneOf? files filename item = some lane) :
    (encodeImage files (ofText filename (joined items))).result = .ok image := by
  obtain ⟨hfault, system, sizes, himage⟩ := encodeImage_eq_ok_iff.mp h
  obtain ⟨hitems, hfold, hpending⟩ := itemized_items (getLast?_ofText filename text) hfault
  have htexts : ∀ item ∈ items, Item.IsText files filename item ∧ item <:+: (ofText filename text).text :=
    fun item hitem => hitems.of_mem item (hperm.mem_iff.mp hitem)
  have hreturn : '\r' ∉ joined items := by
    intro hmem
    obtain ⟨item, hitem, hmem⟩ := List.mem_flatMap.mp hmem
    rcases List.mem_append.mp hmem with hmem | hmem
    · exact not_mem_ofText filename text ((htexts item hitem).2.subset hmem)
    · cases List.mem_singleton.mp hmem
  obtain ⟨tail, htext, hskips⟩ := @text_ofText filename _ hreturn
  have hjoined : Itemized files filename items (ofText filename (joined items)).text := by
    rw [htext]
    exact itemized_joined hskips fun item hitem => (htexts item hitem).1
  have hreordered := foldlM_reordered (fun x y hlanes a => Assembly.admit?_comm hlanes a) hperm hkept
    (Assembly.placeless {})
  obtain ⟨hfault', hassembly⟩ := @collect_of_itemized files (ofText filename (joined items)) items hjoined _
    (hreordered.trans hfold) (by simp [Assembly.placeless, hpending])
  refine encodeImage_eq_ok_iff.mpr ⟨hfault', system, sizes, ?_⟩
  rw [← Assembly.image_placeless, hassembly]
  exact himage

/-- A line to start with, this line, an assignment and a directive for the screen. -/
def orderedSample : List (List Char) :=
  ["#!basic-start=10", "10 CLS", "#!system-vars:FRAMES=1", "#!dfile-collapsed"].map String.toList

/-- The same items in another order, in which only the first two follow one another as before. -/
def reorderedSample : List (List Char) :=
  ["#!dfile-collapsed", "#!basic-start=10", "#!system-vars:FRAMES=1", "10 CLS"].map String.toList

theorem encodeImage_reordered_sample :
    let files : FileReader := fun _ => .error []
    let s := ofText defaultName (joined orderedSample)
    s.items files = orderedSample ∧ reorderedSample.Perm (s.items files) ∧
      ∃ image, (encodeImage files s).result = .ok image ∧
        (encodeImage files (ofText defaultName (joined reorderedSample))).result = .ok image := by
  intro files s
  obtain ⟨hitems, hlanes, hok⟩ : s.items files = orderedSample ∧
      orderedSample.map (Item.laneOf? files defaultName) =
        [some .program, some .program, some (.field 16436), none] ∧
      (encodeImage files s).result.isOk = true := by
    decide +kernel
  have hperm : reorderedSample.Perm (s.items files) := by
    rw [hitems]
    decide +kernel
  have hkept : ∀ lane, reorderedSample.filter (fun item => Item.laneOf? files defaultName item = some lane) =
      (s.items files).filter fun item => Item.laneOf? files defaultName item = some lane := by
    intro lane
    simp only [orderedSample, List.map_cons, List.map_nil, List.cons.injEq, and_true] at hlanes
    obtain ⟨h₁, h₂, h₃, h₄⟩ := hlanes
    rw [hitems]
    simp only [orderedSample, reorderedSample, List.map_cons, List.map_nil]
    generalize "#!basic-start=10".toList = start, "10 CLS".toList = line,
      "#!system-vars:FRAMES=1".toList = assignment, "#!dfile-collapsed".toList = collapse at h₁ h₂ h₃ h₄ ⊢
    cases lane <;> simp [List.filter_cons, h₁, h₂, h₃, h₄]
  cases himage : (encodeImage files s).result with
  | error failure =>
    rw [himage] at hok
    cases hok
  | ok image => exact ⟨hitems, hperm, image, rfl, encodeImage_reordered himage hperm hkept⟩

end Source

end TapeBasic
