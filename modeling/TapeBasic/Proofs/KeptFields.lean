import TapeBasic.Proofs.ImageRoundTrip

/-!
# Directives of any image

The directives for the variables and for the system variables are shown for any image, whatever its bytes are, and they
say it all: a listing of nothing but these directives has no program, the same variables and the same free system
variables.

Results:
* `Image.fieldBytes_of_split`: the bytes of a system variable are where the image has them.
* `Source.encodeProgram_fields`: what is collected from the directives.
-/
namespace TapeBasic

open SystemVariables (Field fields blockSize)

namespace Image

/-! ## The bytes of an image -/

theorem system_of_split {data : List UInt8} {i : Image} (h : split data = .ok i) :
    i.system.image = data.take blockSize := by
  unfold split at h
  split at h
  · cases h
  · next system hsystem =>
    unfold SystemVariables.ofImageStart SystemVariables.ofImage at hsystem
    split at hsystem
    · cases h
      cases hsystem
      rfl
    · cases hsystem

/-- The bytes of a field are where an image has them. -/
theorem fieldBytes_of_split {data : List UInt8} {i : Image} (h : split data = .ok i) (f : Field) :
    i.system.fieldBytes f = (data.drop f.offset).take f.size := by
  have hinside : f.size ≤ blockSize - f.offset := Nat.le_sub_of_add_le (Nat.add_comm _ _ ▸ f.offset_add_size_le)
  rw [SystemVariables.fieldBytes, system_of_split h, List.drop_take, List.take_take, Nat.min_eq_left hinside]

end Image

/-! ## Listings of directives -/

namespace Source

/-- **Variables and system variables.** Take any bytes that are long enough for an image, and let a listing be the
directives for its variables, any number of bytes in each, and for its system variables. It encodes as an empty program.
The variables that are collected are those of the image without their end mark, and each system variable that is no
pointer has the bytes that it has in the image. -/
theorem encodeProgram_fields (files : FileReader) (filename : List Char) (style : Image.Style) {data : List UInt8}
    (h : blockSize ≤ data.length) :
    ∃ i, Image.split data = .ok i ∧
      let s := ofText filename (i.variablesDirectives style ++ i.systemDirectives)
      (s.encodeProgram files).result = .ok [] ∧
      (s.collect files).assembly.variableBytes.toList = i.storedVariables ∧
      ∀ f ∈ fields, f.structural = false →
        (s.encodeProgram files).system.fieldBytes f = (data.drop f.offset).take f.size := by
  obtain ⟨i, hsplit⟩ := Image.exists_split h
  have hturns : Assembly.Turns files filename (i.variablesDirectives style ++ i.systemDirectives) {} _ :=
    (i.turns_variablesDirectives style {}).append (i.turns_systemDirectives _)
  obtain ⟨events, hcollect⟩ := hturns.collect rfl
  refine ⟨i, hsplit, encodeProgram_eq_ok_iff.mpr ?_, ?_, fun f hf hfree => ?_⟩
  · rw [hcollect]
    exact ⟨rfl, rfl⟩
  · rw [hcollect]
    simp
  · rw [encodeProgram, hcollect, ← Image.fieldBytes_of_split hsplit]
    exact i.sameFree_directedSystem f hf hfree

/-- An image of zeros whose display file is empty, with these variables. -/
def variablesImage (variableArea : List UInt8) : List UInt8 :=
  List.replicate 11 0 ++ [0xFF, 0xFF] ++ List.replicate 103 0 ++ variableArea

/-- Variables without an end mark in directives of two bytes, and a system variable that is not as after a reset. -/
theorem encodeProgram_fields_sample :
    blockSize ≤ (variablesImage [1, 2, 3]).length ∧
      ∃ i, Image.split (variablesImage [1, 2, 3]) = .ok i ∧
        let s := ofText defaultName (i.variablesDirectives ⟨false, 2⟩ ++ i.systemDirectives)
        (s.encodeProgram fun _ => .error []).result = .ok [] ∧
        (s.collect fun _ => .error []).assembly.variableBytes.toList = [1, 2, 3] ∧
        ∀ f ∈ fields, f.name = "MARGIN" → (s.encodeProgram fun _ => .error []).system.fieldBytes f = [0] := by
  have hlength : blockSize ≤ (variablesImage [1, 2, 3]).length := by decide
  have harea : (Image.split (variablesImage [1, 2, 3])).map Image.variableArea = .ok [1, 2, 3] := by decide +kernel
  have hmargin : ∀ f ∈ fields, f.name = "MARGIN" → f.structural = false ∧
      ((variablesImage [1, 2, 3]).drop f.offset).take f.size = [0] := by decide +kernel
  obtain ⟨i, hsplit, hresult, hvariables, hfields⟩ :=
    encodeProgram_fields (fun _ => .error []) defaultName ⟨false, 2⟩ hlength
  rw [hsplit] at harea
  have hstored : i.storedVariables = [1, 2, 3] := by
    rw [Image.storedVariables, Except.ok.inj harea]
    rfl
  refine ⟨hlength, i, hsplit, hresult, hvariables.trans hstored, fun f hf hname => ?_⟩
  obtain ⟨hfree, hbytes⟩ := hmargin f hf hname
  exact (hfields f hf hfree).trans hbytes

end Source

end TapeBasic
