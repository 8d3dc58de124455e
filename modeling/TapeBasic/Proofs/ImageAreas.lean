import TapeBasic.Image

/-!
# The areas of any image

The pointers of an image that was not built with care can hold anything: they can be in any order, lie in front of the
program or behind the end. Each of them still cuts the image no earlier than the one before, and the areas between the
cuts are what lies there in the image, one behind the other.

* `Cuts size address least n`: where a pointer cuts an image.

Results:
* `cuts_iff_eq_place`: there is one such cut.
* `exists_split`: an image that holds the system variables is taken apart.
* `split_slices`: its areas are consecutive parts of it, and so is what lies outside the program.
-/
namespace TapeBasic.Image

open SystemVariables (baseAddress blockSize)

/-! ## Cuts -/

/-- The place where a pointer cuts an image: the place it points to, unless that is in front of the cut before or behind
the end. -/
structure Cuts (size address least n : Nat) : Prop where
  least_le : least ≤ n
  le_size : n ≤ size
  inside : baseAddress + least ≤ address → address ≤ baseAddress + size → address = baseAddress + n
  inFront : address < baseAddress + least → n = least
  behind : baseAddress + size < address → n = size

theorem cuts_iff_eq_place {size address least n : Nat} (h : least ≤ size) :
    Cuts size address least n ↔ n = place size address least := by
  unfold place
  constructor
  · rintro ⟨hleast, hsize, hinside, hfront, hbehind⟩
    omega
  · intro hn
    constructor <;> omega

theorem cuts_place {size least : Nat} (h : least ≤ size) (address : Nat) :
    Cuts size address least (place size address least) :=
  (cuts_iff_eq_place h).mpr rfl

/-! ## Taking an image apart -/

theorem take_append_extract {data : List UInt8} {p q : Nat} (h : p ≤ q) :
    data.take p ++ data.extract p q = data.take q := by
  obtain ⟨n, rfl⟩ := Nat.exists_eq_add_of_le h
  rw [List.extract_eq_take_drop, Nat.add_sub_cancel_left, ← List.take_add]

/-- The system variables are the first bytes of the image, and the areas lie between the cuts. -/
theorem split_eq_ok {data : List UInt8} (h : blockSize ≤ data.length) :
    ∃ i, split data = .ok i ∧ i.data = data ∧ i.system.image = data.take blockSize ∧
      let p := place data.length i.displayAddress blockSize
      let q := place data.length i.variablesAddress p
      let r := place data.length i.editLineAddress q
      i.program = data.extract blockSize p ∧ i.display = data.extract p q ∧ i.variableArea = data.extract q r := by
  have hsystem : SystemVariables.ofImageStart data = .ok ⟨data.take blockSize, List.length_take_of_le h⟩ :=
    dif_pos (List.length_take_of_le h)
  unfold split
  rw [hsystem]
  refine ⟨_, rfl, rfl, rfl, ?_⟩
  simp only [List.extract_eq_take_drop]
  exact ⟨rfl, rfl, rfl⟩

/-- An image that holds the system variables is taken apart. -/
theorem exists_split {data : List UInt8} (h : blockSize ≤ data.length) : ∃ i, split data = .ok i :=
  (split_eq_ok h).imp fun _ hi => hi.1

/-- **Areas of any image.** Let an image hold the system variables, whatever its pointers are. Three of them cut it,
each one behind the cut before. The program, the display file and the variables lie between the cuts, and with the
system variables in front they are the start of the image. What lies outside the program is nothing, or all that
lies behind a fourth cut if the line to run next is behind the start of the display file. -/
theorem split_slices {data : List UInt8} (h : blockSize ≤ data.length) :
    ∃ (i : Image) (p q r : Nat), split data = .ok i ∧ Cuts data.length i.displayAddress blockSize p ∧
      Cuts data.length i.variablesAddress p q ∧ Cuts data.length i.editLineAddress q r ∧
      i.system.image = data.extract 0 blockSize ∧ i.program = data.extract blockSize p ∧
        i.display = data.extract p q ∧
      i.variableArea = data.extract q r ∧
      i.system.image ++ i.program ++ i.display ++ i.variableArea = data.take r ∧
      (i.nextLineAddress ≤ i.displayAddress ∧ i.outside = [] ∨ i.displayAddress < i.nextLineAddress ∧
        ∃ n, Cuts data.length i.nextLineAddress blockSize n ∧ i.outside = data.drop n) := by
  obtain ⟨i, hsplit, hdata, hsystem, hprogram, hdisplay, hvariables⟩ := split_eq_ok h
  have hp := cuts_place h i.displayAddress
  have hq := cuts_place hp.le_size i.variablesAddress
  have hr := cuts_place hq.le_size i.editLineAddress
  refine ⟨i, _, _, _, hsplit, hp, hq, hr, ?_, hprogram, hdisplay, hvariables, ?_, ?_⟩
  · rw [hsystem, List.extract_eq_take_drop, List.drop_zero, Nat.sub_zero]
  · rw [hsystem, hprogram, hdisplay, hvariables, take_append_extract hp.least_le, take_append_extract hq.least_le,
      take_append_extract hr.least_le]
  · rw [outside, hdata]
    rcases Nat.lt_or_ge i.displayAddress i.nextLineAddress with hnext | hnext
    · exact .inr ⟨hnext, _, cuts_place h i.nextLineAddress, if_neg (Nat.not_le.mpr hnext)⟩
    · exact .inl ⟨hnext, if_pos hnext⟩

/-- An image with five bytes behind its system variables. The display file starts two bytes behind the program, its
variables are said to start at address zero and to end behind the memory, and the line to run next is the last byte. -/
def crossedImage : List UInt8 :=
  List.replicate 3 0 ++ [0x7F, 0x40] ++ List.replicate 6 0 ++ [0xFF, 0xFF] ++ List.replicate 19 0 ++ [0x81, 0x40] ++
    List.replicate 82 0 ++ [1, 2, 3, 4, 5]

theorem split_slices_sample : blockSize ≤ crossedImage.length ∧ ∃ i, split crossedImage = .ok i ∧
    i.program = [1, 2] ∧ i.display = [] ∧ i.variableArea = [3, 4, 5] ∧ i.outside = [5] := by
  have hlength : blockSize ≤ crossedImage.length := by decide +kernel
  have hpointers : (split crossedImage).toOption.map (fun i => (i.displayAddress, i.variablesAddress,
      i.editLineAddress, i.nextLineAddress)) = some (0x407F, 0, 0xFFFF, 0x4081) := by decide +kernel
  obtain ⟨i, p, q, r, hsplit, hp, hq, hr, -, hprogram, hdisplay, hvariables, -, houtside⟩ := split_slices hlength
  rw [hsplit] at hpointers
  obtain ⟨hd, hv, he, hn⟩ : i.displayAddress = 0x407F ∧ i.variablesAddress = 0 ∧ i.editLineAddress = 0xFFFF ∧
      i.nextLineAddress = 0x4081 := by simpa using Option.some.inj hpointers
  rw [hd] at hp houtside
  rw [hv] at hq
  rw [he] at hr
  rw [hn] at houtside
  obtain rfl : p = 118 := (Nat.add_left_cancel (hp.inside (by decide) (by decide))).symm
  obtain rfl : q = 118 := hq.inFront (by decide)
  obtain rfl : r = 121 := hr.behind (by decide)
  obtain ⟨hle, -⟩ | ⟨-, n, hcut, houtside⟩ := houtside
  · exact absurd hle (by decide)
  · obtain rfl : n = 120 := (Nat.add_left_cancel (hcut.inside (by decide) (by decide))).symm
    exact ⟨hlength, i, hsplit, hprogram, hdisplay, hvariables, houtside⟩

end TapeBasic.Image
