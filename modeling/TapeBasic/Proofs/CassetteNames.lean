import Mathlib.Data.List.Forall2
import Mathlib.Tactic.Push
import TapeBasic.Cassette
import TapeBasic.Proofs.TokenTable

/-!
# Names of cassette images

A program name stands in front of a tape image, one byte for each character, and its last byte has the top bit set. The
name is read back in capitals, and the image is found behind it.

* `Spells name plain`: the bytes stand for the capitals of a name, one by one.

Results:
* `nameByte_eq_ok_iff`: the characters that a name can have.
* `encodeName_eq_ok_iff`: the names that can be stored, and their bytes.
* `nameLengthWithin_markLast`, `text_markLast`: the bytes of a name are read to their end, and as they were.
* `image_of_build`: the name in front of a tape image is told from it.
* `build_framed`: which names are refused, and what is read of the others.
-/
namespace TapeBasic.Cassette

/-! ## Characters -/

/-- The tokens that a name can have are spelled like no others. -/
theorem own_checked : ∀ x ∈ Token.table, x.1 < 0x40 → Grammar.isOwn Grammar.statementSymbols x.2 x.1 = true := by
  rw [Grammar.statementSymbols_eq]
  decide +kernel

theorem own_of_lt {b : UInt8} (h : b < 0x40) :
    ∀ s ∈ Grammar.statementSymbols, s.1 = Token.text b → s.2 = b :=
  Grammar.own_of_isOwn
    (Token.forall_text (P := fun b t => b < 0x40 → Grammar.isOwn Grammar.statementSymbols t b = true) own_checked b h)

theorem isAmbiguous_of_lt {b : UInt8} (h : b < 0x40) : Token.isAmbiguous b = false := by
  have hhigh : ¬0xC1 ≤ b := UInt8.not_le.mpr (UInt8.lt_of_lt_of_le h (by decide))
  have hname : ¬0x40 ≤ b := UInt8.not_le.mpr h
  simp [Token.isAmbiguous, hhigh, hname]

/-- **Characters of names.** The byte of a character is the token below 64 whose spelling is the capital of the
character. -/
theorem nameByte_eq_ok_iff {c : Char} {b : UInt8} :
    nameByte c = .ok b ↔ b < 0x40 ∧ Token.text b = Text.upper [c] := by
  constructor
  · intro h
    unfold nameByte at h
    split at h
    · next found hfound =>
      split at h
      · next hlow =>
        cases h
        obtain ⟨front, back, hsplit, -⟩ := List.lookup_eq_some_iff.mp hfound
        have hmem : (Text.upper [c], b) ∈ Grammar.statementSymbols := by
          rw [show Grammar.statementSymbols = _ from hsplit]
          exact List.mem_append_right _ List.mem_cons_self
        obtain ⟨b', -, hrow⟩ := List.mem_flatMap.mp hmem
        split at hrow
        · next hambiguous =>
          simp only [List.mem_cons, Prod.mk.injEq, List.not_mem_nil, or_false] at hrow
          have hb : b = b' := hrow.elim And.right And.right
          rw [← hb, isAmbiguous_of_lt hlow] at hambiguous
          cases hambiguous
        · simp only [List.mem_singleton, Prod.mk.injEq] at hrow
          exact ⟨hlow, hrow.2 ▸ hrow.1.symm⟩
      · cases h
    · cases h
  · rintro ⟨hlow, hspelling⟩
    have hfound : Token.ofCharacter? [c] = some b := by
      rw [Token.ofCharacter?, ← hspelling]
      exact Grammar.find?_of_unique (Grammar.mem_statementSymbols b) (own_of_lt hlow)
    rw [nameByte, hfound]
    exact if_pos hlow

/-! ## Names -/

/-- The bytes of the characters of a name: tokens below 64 that spell their capitals. -/
def Spells (name : List Char) (plain : List UInt8) : Prop :=
  List.Forall₂ (fun c b => b < 0x40 ∧ Token.text b = Text.upper [c]) name plain

theorem mapM_nameByte_eq_ok_iff {name : List Char} {plain : List UInt8} :
    name.mapM nameByte = .ok plain ↔ Spells name plain := by
  unfold Spells
  induction name generalizing plain with
  | nil =>
    rw [List.mapM_nil, List.forall₂_nil_left_iff]
    exact ⟨fun h => (Except.ok.inj h).symm, fun h => h ▸ rfl⟩
  | cons c name ih =>
    rw [List.mapM_cons, List.forall₂_cons_left_iff]
    constructor
    · intro h
      cases hb : nameByte c with
      | error failure =>
        rw [hb] at h
        cases h
      | ok b =>
        cases hrest : name.mapM nameByte with
        | error failure =>
          rw [hb, hrest] at h
          cases h
        | ok rest =>
          rw [hb, hrest] at h
          cases h
          exact ⟨b, rest, nameByte_eq_ok_iff.mp hb, ih.mp hrest, rfl⟩
    · rintro ⟨b, rest, hb, hrest, rfl⟩
      rw [nameByte_eq_ok_iff.mpr hb, ih.mpr hrest]
      rfl

namespace Spells

variable {name : List Char} {plain : List UInt8}

theorem length_eq (h : Spells name plain) : plain.length = name.length := (List.Forall₂.length_eq h).symm

theorem lt (h : Spells name plain) : ∀ b ∈ plain, b < 0x40 := by
  induction h with
  | nil => exact nofun
  | cons hb _ ih => exact List.forall_mem_cons.mpr ⟨hb.1, ih⟩

/-- The name in capitals. -/
theorem text_eq (h : Spells name plain) : plain.flatMap Token.text = Text.upper name := by
  induction h with
  | nil => rfl
  | @cons c b name plain hb _ ih =>
    rw [List.flatMap_cons, ih, hb.2, Text.upper, Text.upper, Text.upper, ← List.flatMap_append, List.singleton_append]

end Spells

/-- A name is spelled if each of its characters is. -/
theorem exists_spells_iff {name : List Char} : (∃ plain, Spells name plain) ↔
    ∀ c ∈ name, ∃ b : UInt8, b < 0x40 ∧ Token.text b = Text.upper [c] := by
  induction name with
  | nil => exact ⟨fun _ => nofun, fun _ => ⟨[], .nil⟩⟩
  | cons c name ih =>
    rw [List.forall_mem_cons, ← ih]
    constructor
    · rintro ⟨plain, h⟩
      obtain ⟨b, rest, hb, hrest, rfl⟩ := List.forall₂_cons_left_iff.mp h
      exact ⟨⟨b, hb⟩, rest, hrest⟩
    · rintro ⟨⟨b, hb⟩, rest, hrest⟩
      exact ⟨b :: rest, .cons hb hrest⟩

/-- **Stored names.** A name that is neither empty nor too long is stored by the bytes of its characters, with the top
bit of the last one set. -/
theorem encodeName_eq_ok_iff {name : List Char} {bytes : List UInt8} : encodeName name = .ok bytes ↔
    name ≠ [] ∧ name.length ≤ maxNameLength ∧ ∃ plain, Spells name plain ∧ bytes = markLast plain := by
  unfold encodeName
  constructor
  · intro h
    split at h
    · cases h
    · next hnonempty =>
      split at h
      · cases h
      · next hshort =>
        split at h
        · cases h
        · next plain hplain =>
          cases h
          exact ⟨fun hnil => hnonempty (List.isEmpty_iff.mpr hnil), Nat.le_of_not_lt hshort, plain,
            mapM_nameByte_eq_ok_iff.mp hplain, rfl⟩
  · rintro ⟨hne, hlength, plain, hspells, rfl⟩
    rw [if_neg (mt List.isEmpty_iff.mp hne), if_neg (Nat.not_lt.mpr hlength),
      mapM_nameByte_eq_ok_iff.mpr hspells]

/-! ## Reading a name -/

theorem length_markLast (bytes : List UInt8) : (markLast bytes).length = bytes.length := by
  fun_induction markLast bytes with
  | case1 => rfl
  | case2 => rfl
  | case3 b rest hne ih => rw [List.length_cons, ih, List.length_cons]

theorem top_le_or (b : UInt8) : 0x80 ≤ b ||| 0x80 := by
  rw [UInt8.le_iff_toNat_le, UInt8.toNat_or]
  exact Nat.right_le_or

/-- The top bit of its last byte ends a name. -/
theorem nameLengthWithin_markLast {bytes : List UInt8} (hne : bytes ≠ []) (hlow : ∀ b ∈ bytes, b < 0x40)
    {limit : Nat}
    (hlength : bytes.length ≤ limit) (rest : List UInt8) :
    nameLengthWithin limit (markLast bytes ++ rest) = bytes.length := by
  induction bytes generalizing limit with
  | nil => exact absurd rfl hne
  | cons b bytes ih =>
    obtain ⟨limit, rfl⟩ : ∃ n, limit = n + 1 := Nat.exists_eq_add_one.mpr (Nat.lt_of_lt_of_le (by simp) hlength)
    cases bytes with
    | nil =>
      rw [markLast, List.singleton_append, nameLengthWithin, if_pos (top_le_or b)]
      rfl
    | cons b' bytes =>
      obtain ⟨hb, hbytes⟩ := List.forall_mem_cons.mp hlow
      have hclear : ¬0x80 ≤ b := UInt8.not_le.mpr (UInt8.lt_of_lt_of_le hb (by decide))
      rw [markLast, List.cons_append, nameLengthWithin, if_neg hclear,
        ih (List.cons_ne_nil _ _) hbytes (Nat.le_of_succ_le_succ hlength)]
      · rfl
      · exact List.cons_ne_nil _ _

theorem and_of_lt {b : UInt8} (h : b < 0x40) : b &&& 0x7F = b ∧ (b ||| 0x80) &&& 0x7F = b := by
  have hbits : ∀ n < 64, n &&& 127 = n ∧ (n ||| 128) &&& 127 = n := by decide
  obtain ⟨hand, hor⟩ := hbits b.toNat (UInt8.lt_iff_toNat_lt.mp h)
  rw [← UInt8.toNat_inj, ← UInt8.toNat_inj, UInt8.toNat_and, UInt8.toNat_and, UInt8.toNat_or]
  exact ⟨hand, hor⟩

/-- Without their top bits, the bytes of a name are as they were. -/
theorem text_markLast {bytes : List UInt8} (hlow : ∀ b ∈ bytes, b < 0x40) :
    (markLast bytes).flatMap (fun b => Token.text (b &&& 0x7F)) = bytes.flatMap Token.text := by
  fun_induction markLast bytes with
  | case1 => rw [List.flatMap_nil, List.flatMap_nil]
  | case2 b => rw [List.flatMap_singleton, List.flatMap_singleton, (and_of_lt (hlow b List.mem_cons_self)).2]
  | case3 b rest hne ih =>
    obtain ⟨hb, hrest⟩ := List.forall_mem_cons.mp hlow
    rw [List.flatMap_cons, List.flatMap_cons, ih hrest, (and_of_lt hb).1]

/-! ## Cassette images -/

theorem build_eq_ok_iff {name : List Char} {tape bytes : List UInt8} : build name tape = .ok bytes ↔
    name ≠ [] ∧ name.length ≤ maxNameLength ∧ ∃ plain, Spells name plain ∧
      bytes = markLast plain ++ tape := by
  unfold build
  constructor
  · intro h
    split at h
    · cases h
    · next front hfront =>
      cases h
      obtain ⟨hne, hlength, plain, hspells, rfl⟩ := encodeName_eq_ok_iff.mp hfront
      exact ⟨hne, hlength, plain, hspells, rfl⟩
  · rintro ⟨hne, hlength, plain, hspells, rfl⟩
    rw [encodeName_eq_ok_iff.mpr ⟨hne, hlength, plain, hspells, rfl⟩]

theorem nameLength_of_build {name : List Char} {tape bytes : List UInt8} (h : build name tape = .ok bytes) :
    nameLength bytes = name.length := by
  obtain ⟨hne, hlength, plain, hspells, rfl⟩ := build_eq_ok_iff.mp h
  have hplain : plain ≠ [] := by
    rintro rfl
    exact hne (List.eq_nil_of_length_eq_zero hspells.length_eq.symm)
  rw [nameLength, nameLengthWithin_markLast hplain hspells.lt (hspells.length_eq ▸ hlength), hspells.length_eq]

/-- **Cassette images.** The image behind a name is found again. -/
theorem image_of_build {name : List Char} {tape bytes : List UInt8} (h : build name tape = .ok bytes) :
    image bytes = tape := by
  have hname := nameLength_of_build h
  obtain ⟨-, -, plain, hspells, rfl⟩ := build_eq_ok_iff.mp h
  rw [image, hname, List.drop_left' (by rw [length_markLast, hspells.length_eq])]

/-- The name in front of a tape image is the one it was given, in capitals. -/
theorem name_of_build {name : List Char} {tape bytes : List UInt8} (h : build name tape = .ok bytes) :
    Cassette.name bytes = Text.upper name := by
  have hname := nameLength_of_build h
  obtain ⟨-, -, plain, hspells, rfl⟩ := build_eq_ok_iff.mp h
  rw [Cassette.name, hname, List.take_left' (by rw [length_markLast, hspells.length_eq]), text_markLast hspells.lt,
    hspells.text_eq]

/-- **Framing.** A name is refused exactly if it is empty, if it has more than 128 characters, or if the capital of one
of them is the spelling of no token below 64. If it is not refused, then what is put in front of a tape image has the
length of the name and is read as the name in capitals, the image is found behind it, and is shown as it would be on its
own. -/
theorem build_framed (name : List Char) (tape : List UInt8) :
    ((∃ failure, build name tape = .error failure) ↔ name = [] ∨ 128 < name.length ∨
        ∃ c ∈ name, ∀ b : UInt8, b < 0x40 → Token.text b ≠ Text.upper [c]) ∧
      ∀ bytes, build name tape = .ok bytes →
        nameLength bytes = name.length ∧ Cassette.name bytes = Text.upper name ∧ image bytes = tape ∧
          ∀ style, decode style bytes = Image.decode style tape := by
  constructor
  · have hok : (∃ bytes, build name tape = .ok bytes) ↔ name ≠ [] ∧ name.length ≤ 128 ∧
        ∀ c ∈ name, ∃ b : UInt8, b < 0x40 ∧ Token.text b = Text.upper [c] := by
      rw [← exists_spells_iff]
      constructor
      · rintro ⟨bytes, h⟩
        obtain ⟨hne, hlength, plain, hspells, -⟩ := build_eq_ok_iff.mp h
        exact ⟨hne, hlength, plain, hspells⟩
      · rintro ⟨hne, hlength, plain, hspells⟩
        exact ⟨_, build_eq_ok_iff.mpr ⟨hne, hlength, plain, hspells, rfl⟩⟩
    have herror : (∃ failure, build name tape = .error failure) ↔ ¬∃ bytes, build name tape = .ok bytes := by
      cases build name tape <;> simp
    rw [herror, hok]
    push Not
    constructor
    · intro h
      by_cases hne : name = []
      · exact .inl hne
      · by_cases hlength : 128 < name.length
        · exact .inr (.inl hlength)
        · exact .inr (.inr (h hne (Nat.le_of_not_lt hlength)))
    · rintro (hnil | hlong | hrefused) hne hlength
      · exact absurd hnil hne
      · exact absurd hlong (Nat.not_lt.mpr hlength)
      · exact hrefused
  · intro bytes h
    refine ⟨nameLength_of_build h, name_of_build h, image_of_build h, fun style => ?_⟩
    rw [decode, image_of_build h]

/-- A dotless i and a long s become letters that can be stored. The last of the four bytes has its top bit set. -/
theorem build_framed_sample :
    let bytes : List UInt8 := [0x2E, 0x38, 0x00, 0x9E, 1, 2, 3]
    build "ıſ 2".toList [1, 2, 3] = .ok bytes ∧ nameLength bytes = 4 ∧ Cassette.name bytes = "IS 2".toList ∧
      image bytes = [1, 2, 3] ∧ ∀ style, decode style bytes = Image.decode style [1, 2, 3] := by
  intro bytes
  have hbuild : build "ıſ 2".toList [1, 2, 3] = .ok bytes := by decide +kernel
  have hcapitals : Text.upper "ıſ 2".toList = "IS 2".toList := by decide +kernel
  obtain ⟨hlength, hname, himage, hdecode⟩ := (build_framed "ıſ 2".toList [1, 2, 3]).2 bytes hbuild
  exact ⟨hbuild, hlength, hname.trans hcapitals, himage, hdecode⟩

end TapeBasic.Cassette
