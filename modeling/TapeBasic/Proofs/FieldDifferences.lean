import Mathlib.Data.List.Perm.Basic
import TapeBasic.Proofs.FieldUpdates

/-!
# Differences between records

The differences of a record from another one tell the two apart in all but their pointers, and tell how to get from one
to the other: set what they list, in whichever order.

* `assignment x`: a difference as something to set.

Results:
* `mem_diff`: what the differences list.
* `sameFree_iff`: fields that are no pointers, and bytes that are in none.
* `fieldBytes_foldl_diff`: the differences carried over to the record, in any order.
* `diff_exact`: differences are exact.
-/
namespace TapeBasic.SystemVariables

variable {a b s t : SystemVariables} {x : Field × List UInt8}

/-! ## Fields and bytes -/

theorem getElem?_of_covers (s : SystemVariables) {f : Field} {i : Nat} (h : f.Covers i) :
    s.image[i]? = (s.fieldBytes f)[i - f.offset]? := by
  obtain ⟨hlow, hhigh⟩ := h
  rw [getElem?_fieldBytes, if_pos (by omega), Nat.add_sub_cancel' hlow]

/-- No byte is in two fields. -/
theorem eq_of_covers {f g : Field} (hf : f ∈ fields) (hg : g ∈ fields) {i : Nat} (hfi : f.Covers i)
    (hgi : g.Covers i) : f = g := by
  by_contra hne
  have hapart := apart_of_ne hf hg hne
  simp only [Field.Covers, Field.Apart] at hfi hgi hapart
  omega

/-- Fields that are no pointers hold the same if the records agree outside their pointers. -/
theorem sameFree_iff : s.SameFree t ↔ s.AgreeOff IsPointerByte t := by
  constructor
  · intro h i hi
    by_cases hin : i < blockSize
    · obtain ⟨f, hf, hcovers⟩ := exists_field hin
      have hfree : f.structural = false := Bool.eq_false_iff.mpr fun hstructural => hi ⟨f, hf, hstructural, hcovers⟩
      rw [getElem?_of_covers s hcovers, getElem?_of_covers t hcovers, h f hf hfree]
    · have hs := s.size_eq
      have ht := t.size_eq
      rw [List.getElem?_eq_none (by omega), List.getElem?_eq_none (by omega)]
  · intro h f hf hfree
    refine List.ext_getElem? fun i => ?_
    rw [getElem?_fieldBytes, getElem?_fieldBytes]
    split
    · next hi =>
      refine h (f.offset + i) ?_
      rintro ⟨g, hg, hstructural, hcovers⟩
      cases eq_of_covers hf hg ⟨Nat.le_add_right _ _, Nat.add_lt_add_left hi _⟩ hcovers
      cases hfree.symm.trans hstructural
    · rfl

/-! ## What the differences list -/

theorem mem_diff : x ∈ a.diff b ↔
    (x.1 ∈ fields ∧ x.1.structural = false ∧ a.fieldBytes x.1 ≠ b.fieldBytes x.1) ∧
      x.2 = b.fieldBytes x.1 := by
  obtain ⟨f, bytes⟩ := x
  simp only [diff, List.mem_map, List.mem_filter, Bool.and_eq_true, Bool.not_eq_true', bne_iff_ne, ne_eq,
    Prod.mk.injEq]
  constructor
  · rintro ⟨g, hg, rfl, rfl⟩
    exact ⟨hg, rfl⟩
  · rintro ⟨hf, rfl⟩
    exact ⟨f, hf, rfl, rfl⟩

theorem length_of_mem_diff (h : x ∈ a.diff b) : x.1 ∈ fields ∧ x.2.length = x.1.size := by
  obtain ⟨⟨hf, -⟩, hbytes⟩ := mem_diff.mp h
  exact ⟨hf, by rw [hbytes, length_fieldBytes]⟩

theorem pairwise_diff {r : Field → Field → Prop} (h : fields.Pairwise r) (a b : SystemVariables) :
    (a.diff b).Pairwise fun x y => r x.1 y.1 := by
  rw [diff, List.pairwise_map]
  exact h.filter _

theorem diff_eq_nil_iff : a.diff b = [] ↔ a.SameFree b := by
  rw [List.eq_nil_iff_forall_not_mem]
  constructor
  · intro h f hf hfree
    by_contra hne
    exact h (f, b.fieldBytes f) (mem_diff.mpr ⟨⟨hf, hfree, hne⟩, rfl⟩)
  · intro h x hx
    obtain ⟨⟨hf, hfree, hne⟩, -⟩ := mem_diff.mp hx
    exact hne (h x.1 hf hfree)

/-- The pointers make no difference. -/
theorem diff_congr (h : s.SameFree t) (a : SystemVariables) : a.diff s = a.diff t := by
  have hfilter : (fields.filter fun f => !f.structural && a.fieldBytes f != s.fieldBytes f) =
      fields.filter fun f => !f.structural && a.fieldBytes f != t.fieldBytes f := by
    refine List.filter_congr fun f hf => ?_
    cases hstructural : f.structural with
    | true => rw [Bool.not_true, Bool.false_and, Bool.false_and]
    | false => rw [h f hf hstructural]
  rw [diff, diff, hfilter]
  refine List.map_congr_left fun f hf => ?_
  obtain ⟨hf, hchanged⟩ := List.mem_filter.mp hf
  rw [Bool.and_eq_true, Bool.not_eq_true'] at hchanged
  rw [h f hf hchanged.1]

/-! ## Carrying the differences over -/

/-- A difference as an assignment of the bytes to the field, by its name. -/
def assignment (x : Field × List UInt8) : List Char × Setting :=
  (x.1.name.toList, .list (x.2.map fun b => (b.toNat : Int)))

/-- Differences can be assigned. -/
theorem assignAll_assignment {changes : List (Field × List UInt8)}
    (h : ∀ x ∈ changes, x.1 ∈ fields ∧ x.2.length = x.1.size) (s : SystemVariables) :
    s.assignAll (changes.map assignment) = .ok (changes.foldl setFieldBytes s) :=
  assignAll_map (fun x => .list (x.2.map fun b : UInt8 => (b.toNat : Int)))
    (fun x hx => ⟨(h x hx).1, settingBytes_list (h x hx).2⟩) s

/-- **Carrying over.** Set to the differences in any order, a record keeps its pointers and has the other fields from
the other record. -/
theorem fieldBytes_foldl_diff {entries : List (Field × List UInt8)} (h : entries.Perm (a.diff b)) {f : Field}
    (hf : f ∈ fields) : (entries.foldl setFieldBytes a).fieldBytes f =
      if f.structural = true then a.fieldBytes f else b.fieldBytes f := by
  have hapart : entries.Pairwise fun x y => x.1.Apart y.1 :=
    (h.pairwise_iff fun hxy => Or.symm hxy).mpr (pairwise_diff pairwise_apart a b)
  obtain ⟨hown, hothers⟩ := a.fieldBytes_foldl_setFieldBytes hapart
    fun x hx => (length_of_mem_diff (h.mem_iff.mp hx)).2
  by_cases hlisted : (f, b.fieldBytes f) ∈ entries
  · obtain ⟨⟨-, hfree, -⟩, -⟩ := mem_diff.mp (h.mem_iff.mp hlisted)
    rw [hown _ hlisted, hfree, if_neg Bool.false_ne_true]
  · -- a field that is not listed is a pointer or the same in both records
    have hsame : f.structural = false → a.fieldBytes f = b.fieldBytes f := by
      intro hfree
      by_contra hne
      exact hlisted (h.mem_iff.mpr (mem_diff.mpr ⟨⟨hf, hfree, hne⟩, rfl⟩))
    rw [hothers f]
    · split
      · rfl
      · next hfree => exact hsame (Bool.eq_false_iff.mpr hfree)
    · intro x hx
      obtain ⟨⟨hxf, -⟩, hbytes⟩ := mem_diff.mp (h.mem_iff.mp hx)
      refine apart_of_ne hxf hf ?_
      rintro rfl
      exact hlisted (hbytes ▸ hx)

/-- **Differences are exact.** There are none exactly if the records agree outside the structural pointers. They are
listed in the order of the addresses. Assigned by name in any order, none of them is refused, and the record has the
bytes of the other one outside the pointers, and its own in the pointers. -/
theorem diff_exact (a b : SystemVariables) :
    (a.diff b = [] ↔ ∀ i, ¬IsPointerByte i → a.image[i]? = b.image[i]?) ∧
      (a.diff b).Pairwise (fun x y => x.1.address < y.1.address) ∧
      ∀ entries : List (Field × List UInt8), entries.Perm (a.diff b) →
        ∃ c, a.assignAll (entries.map assignment) = .ok c ∧
          (∀ i, ¬IsPointerByte i → c.image[i]? = b.image[i]?) ∧
          ∀ i, IsPointerByte i → c.image[i]? = a.image[i]? := by
  have haddresses : fields.Pairwise fun f g => f.address < g.address := by decide
  refine ⟨diff_eq_nil_iff.trans sameFree_iff, pairwise_diff haddresses a b, fun entries h => ?_⟩
  refine ⟨_, assignAll_assignment (fun x hx => length_of_mem_diff (h.mem_iff.mp hx)) a, ?_, ?_⟩
  · refine sameFree_iff.mp fun f hf hfree => ?_
    rw [fieldBytes_foldl_diff h hf, hfree, if_neg Bool.false_ne_true]
  · rintro i ⟨f, hf, hstructural, hcovers⟩
    rw [getElem?_of_covers _ hcovers, fieldBytes_foldl_diff h hf, if_pos hstructural, ← getElem?_of_covers a hcovers]

/-- Two fields and a pointer differ from a reset machine. The fields are listed and carried over from the last one
on. -/
theorem diff_exact_sample :
    let b := reset.updateAll
      [.set (.name "FRAMES".toList) (.number 12345), .set (.name "D_FILE".toList) (.number 16509),
       .set (.name "MARGIN".toList) (.number 31)]
    (reset.diff b).map (fun x => (x.1.name, x.2)) = [("MARGIN", [31]), ("FRAMES", [0x39, 0x30])] ∧
      ∃ c, reset.assignAll ((reset.diff b).reverse.map assignment) = .ok c ∧
        (∀ i, ¬IsPointerByte i → c.image[i]? = b.image[i]?) ∧
          ∀ i, IsPointerByte i → c.image[i]? = reset.image[i]? := by
  intro b
  exact ⟨by decide, (diff_exact reset b).2.2 _ (List.reverse_perm _)⟩

end TapeBasic.SystemVariables
