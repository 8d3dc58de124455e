import TapeBasic.Proofs.HostLaws
import TapeBasic.Session

/-!
# Paths of written files

The text of a path spells the path, and where a file has been written under a path, the text of the path leads to it.

* `Path.Normal`: the paths that texts spell.

Results:
* `Path.normal_ofText`, `Path.normal_withEnding`: where normal paths come from.
* `Path.ofText_text`, `Path.components_text`: a normal path is spelled by its text.
* `Directory.follow_write`, `Directory.read_write`: a file that was written is found.
* `Directory.framed`, `Directory.failsClean`, `Directory.keeps`: the laws of directories as file systems.
-/
namespace TapeBasic

/-! ## Texts of paths -/

namespace Path

variable {p : Path}

/-- A path with a root of at most two slashes and names that are no dots and hold no slash. -/
structure Normal (p : Path) : Prop where
  root : p.root = [] ∨ p.root = ['/'] ∨ p.root = ['/', '/']
  names : ∀ name ∈ p.names, name ≠ [] ∧ name ≠ ['.'] ∧ '/' ∉ name

theorem components_slash (text : List Char) : components ('/' :: text) = [] :: components text := by
  rw [components, List.splitOn, List.splitOnP_cons_eq_if_modifyHead, if_pos (beq_self_eq_true '/')]
  rfl

theorem normal_ofText (text : List Char) : (ofText text).Normal := by
  refine ⟨?_, fun name hname => ?_⟩
  · unfold ofText
    dsimp only
    split
    · exact .inr (.inr rfl)
    · split
      · exact .inl rfl
      · exact .inr (.inl rfl)
  · obtain ⟨hname, hkept⟩ := List.mem_filter.mp hname
    simp only [Bool.and_eq_true, Bool.not_eq_true', bne_iff_ne, List.isEmpty_eq_false_iff] at hkept
    exact ⟨hkept.1, hkept.2, not_mem_of_mem_splitOn hname⟩

theorem normal_withEnding (h : p.Normal) {ending : List Char} (hslash : '/' ∉ ending) (hlength : 1 < ending.length) :
    (p.withEnding ending).Normal := by
  refine ⟨h.root, fun name hname => ?_⟩
  rcases List.mem_append.mp hname with hname | hname
  · exact h.names name (List.dropLast_subset _ hname)
  · obtain rfl := List.mem_singleton.mp hname
    have hlong : 1 < (p.stem ++ ending).length := by
      rw [List.length_append]
      omega
    refine ⟨List.ne_nil_of_length_pos (Nat.lt_of_succ_lt hlong), ?_, List.not_mem_append ?_ hslash⟩
    · intro hdot
      rw [hdot] at hlong
      exact Nat.lt_irrefl _ hlong
    · intro hmem
      have hmem := List.mem_of_mem_take hmem
      unfold name at hmem
      cases hlast : p.names.getLast? with
      | none =>
        rw [hlast] at hmem
        cases hmem
      | some last =>
        rw [hlast] at hmem
        exact (h.names last (List.mem_of_getLast? hlast)).2.2 hmem

/-- The names of a path that is not empty, behind each other. -/
theorem exists_joined (h : p.Normal) (hne : p.names ≠ []) :
    ∃ x rest, List.intercalate ['/'] p.names = x :: rest ∧ x ≠ '/' := by
  obtain ⟨name, names, hnames⟩ := List.exists_cons_of_ne_nil hne
  obtain ⟨hname, -, hslash⟩ := h.names name (hnames ▸ List.mem_cons_self)
  obtain ⟨x, rest, rfl⟩ := List.exists_cons_of_ne_nil hname
  have hx : x ≠ '/' := fun hx => hslash (hx ▸ List.mem_cons_self)
  rw [hnames]
  cases names with
  | nil => exact ⟨x, rest, by simp [List.intercalate], hx⟩
  | cons other names => exact ⟨x, _, by rw [List.intercalate_cons_cons, List.cons_append, List.cons_append], hx⟩

theorem text_eq (h : p.Normal) (hne : p.names ≠ []) : p.text = p.root ++ List.intercalate ['/'] p.names := by
  obtain ⟨x, rest, hjoined, -⟩ := exists_joined h hne
  unfold text
  split
  · next hnil =>
    rw [hjoined] at hnil
    exact absurd (List.append_eq_nil_iff.mp hnil).2 (List.cons_ne_nil _ _)
  · rfl

/-- The parts of the text of a path: nothing in front of each slash of its root, and its names. -/
theorem components_text (h : p.Normal) (hne : p.names ≠ []) :
    components p.text = List.replicate p.root.length [] ++ p.names := by
  have hnames : components (List.intercalate ['/'] p.names) = p.names :=
    List.splitOn_intercalate '/' (fun name hname => (h.names name hname).2.2) hne
  rw [text_eq h hne]
  rcases h.root with hroot | hroot | hroot <;> rw [hroot]
  · exact hnames
  · rw [List.singleton_append, components_slash, hnames]
    rfl
  · rw [List.cons_append, List.singleton_append, components_slash, components_slash, hnames]
    rfl

/-- **Texts of paths.** A path is spelled by its text. -/
theorem ofText_text (h : p.Normal) : ofText p.text = p := by
  by_cases hne : p.names = []
  · -- a root alone, or the dot of the empty path
    obtain ⟨root, names⟩ := p
    obtain rfl : names = [] := hne
    rcases h.root with rfl | rfl | rfl <;> decide
  have hkept : (components p.text).filter (fun name => !name.isEmpty && name != ['.']) = p.names := by
    rw [components_text h hne, List.filter_append, List.filter_replicate_of_neg (by decide), List.nil_append,
      List.filter_eq_self]
    intro name hname
    obtain ⟨hnonempty, hdot, -⟩ := h.names name hname
    simp [hnonempty, hdot]
  obtain ⟨x, rest, hjoined, hx⟩ := exists_joined h hne
  have hslashes : Text.countWhile (· == '/') p.text = p.root.length := by
    have hnone : (List.intercalate ['/'] p.names).takeWhile (· == '/') = [] := by
      rw [hjoined, List.takeWhile_cons_of_neg (by simpa using hx)]
    rw [text_eq h hne, Text.countWhile]
    rcases h.root with hroot | hroot | hroot <;> simp [hroot, hnone]
  have hroot : (if p.root.length == 2 then ['/', '/'] else if p.root.length == 0 then [] else ['/']) = p.root := by
    rcases h.root with hroot | hroot | hroot <;> rw [hroot] <;> rfl
  unfold ofText
  rw [hkept, hslashes]
  exact congrArg (Path.mk · p.names) hroot

end Path

/-! ## Files that were written -/

namespace Directory

variable {d : Directory} {spot other start : Spot} {bytes : List UInt8} {names : List (List Char)}

theorem entryAt?_write (d : Directory) (spot : Spot) (bytes : List UInt8) :
    (d.write spot bytes).entryAt? spot = some (.file bytes) := by
  rw [entryAt?, write, List.lookup_cons_self]

theorem lookup_write_of_ne (h : other ≠ spot) (bytes : List UInt8) :
    (d.write spot bytes).entries.lookup other = d.entries.lookup other := by
  rw [write, List.lookup_cons, beq_eq_false_iff_ne.mpr h]

theorem entryAt?_folder_write (h : d.entryAt? start = some .folder) (hne : start ≠ spot) (bytes : List UInt8) :
    (d.write spot bytes).entryAt? start = some .folder := by
  unfold entryAt? at h ⊢
  rw [lookup_write_of_ne hne]
  cases hlookup : d.entries.lookup start with
  | some entry =>
    rw [hlookup] at h
    exact h
  | none =>
    rw [hlookup] at h
    dsimp only at h ⊢
    split at h
    · next hfolder =>
      refine if_pos ?_
      rw [Bool.or_eq_true] at hfolder ⊢
      refine hfolder.imp_right fun hany => ?_
      rw [write, List.any_cons, hany, Bool.or_true]
    · cases h

/-- Names lead to a file or to nothing, and to no folder, where a file can be written. -/
theorem entryAt?_of_follow (h : d.follow start names = .ok (.nothing spot) ∨
    ∃ old, d.follow start names = .ok (.file spot old)) : d.entryAt? spot ≠ some .folder := by
  fun_induction follow d start names with
  | case1 start => rcases h with h | ⟨_, h⟩ <;> cases h
  | case2 start name rest hskip ih => exact ih h
  | case3 start name rest _ _ ih => exact ih h
  | case4 => rcases h with h | ⟨_, h⟩ <;> cases h
  | case5 start name rest _ _ _ here hfolder ih => exact ih h
  | case6 start name rest _ _ _ here bytes hfile hlast =>
    rcases h with h | ⟨_, h⟩
    · cases h
    · simp only [Except.ok.injEq, Found.file.injEq] at h
      rw [← h.1, hfile]
      exact nofun
  | case7 => rcases h with h | ⟨_, h⟩ <;> cases h
  | case8 start name rest _ _ _ here hnone hlast =>
    rcases h with h | ⟨_, h⟩
    · simp only [Except.ok.injEq, Found.nothing.injEq] at h
      rw [← h, hnone]
      exact nofun
    · cases h
  | case9 => rcases h with h | ⟨_, h⟩ <;> cases h

/-- Names that lead to a place for a file lead to the file that was written there. -/
theorem follow_write (h : d.follow start names = .ok (.nothing spot) ∨
    ∃ old, d.follow start names = .ok (.file spot old)) (bytes : List UInt8) :
    (d.write spot bytes).follow start names = .ok (.file spot bytes) := by
  have hspot := entryAt?_of_follow h
  fun_induction follow d start names with
  | case1 start => rcases h with h | ⟨_, h⟩ <;> cases h
  | case2 start name rest hskip ih =>
    rw [follow, if_pos hskip]
    exact ih h
  | case3 start name rest hskip hup ih =>
    rw [follow, if_neg hskip, if_pos hup]
    exact ih h
  | case4 => rcases h with h | ⟨_, h⟩ <;> cases h
  | case5 start name rest hskip hup hshort here hfolder ih =>
    -- a folder on the way is not the place of the file
    have hne : here ≠ spot := fun heq => hspot (heq ▸ hfolder)
    rw [follow, if_neg hskip, if_neg hup, if_neg hshort]
    dsimp only
    rw [entryAt?_folder_write hfolder hne]
    exact ih h
  | case6 start name rest hskip hup hshort here old hfile hlast =>
    rcases h with h | ⟨_, h⟩
    · cases h
    · simp only [Except.ok.injEq, Found.file.injEq] at h
      rw [follow, if_neg hskip, if_neg hup, if_neg hshort, ← h.1]
      dsimp only
      rw [entryAt?_write]
      exact if_pos hlast
  | case7 => rcases h with h | ⟨_, h⟩ <;> cases h
  | case8 start name rest hskip hup hshort here hnone hlast =>
    rcases h with h | ⟨_, h⟩
    · simp only [Except.ok.injEq, Found.nothing.injEq] at h
      rw [follow, if_neg hskip, if_neg hup, if_neg hshort, ← h]
      dsimp only
      rw [entryAt?_write]
      exact if_pos hlast
    · cases h
  | case9 => rcases h with h | ⟨_, h⟩ <;> cases h

/-- **Written files.** A file is found where it was written. -/
theorem find_write {path : Path} (h : d.place path = .ok spot) (bytes : List UInt8) :
    (d.write spot bytes).find path = .ok (.file spot bytes) := by
  have hfind : d.find path = .ok (.nothing spot) ∨ ∃ old, d.find path = .ok (.file spot old) := by
    unfold place at h
    split at h
    · cases h
    · next old hfile =>
      cases h
      exact .inr ⟨_, hfile⟩
    · cases h
    · next hnothing =>
      cases h
      exact .inl hnothing
  unfold find at hfind ⊢
  split
  · next hnull =>
    rw [if_pos hnull] at hfind
    rcases hfind with h | ⟨_, h⟩ <;> cases h
  · next hnull =>
    rw [if_neg hnull] at hfind
    split
    · next hlong =>
      rw [if_pos hlong] at hfind
      rcases hfind with h | ⟨_, h⟩ <;> cases h
    · next hlong =>
      rw [if_neg hlong] at hfind
      exact follow_write hfind bytes

theorem read_write {path : Path} (h : d.place path = .ok spot) (bytes : List UInt8) :
    (d.write spot bytes).read path = .ok bytes := by
  rw [read, find_write h]

theorem follow_replicate (d : Directory) (start : Spot) (n : Nat) (names : List (List Char)) :
    d.follow start (List.replicate n [] ++ names) = d.follow start names := by
  induction n with
  | zero => rfl
  | succ n ih => exact ih

/-- The text of a path leads where the path leads. -/
theorem findTyped_text {path : Path} (h : path.Normal) (hne : path.names ≠ []) :
    d.findTyped path.text = d.find path := by
  obtain ⟨x, rest, hjoined, hx⟩ := Path.exists_joined h hne
  have htext := Path.text_eq h hne
  have hnonempty : ¬path.text.isEmpty = true := by
    rw [List.isEmpty_iff, htext, hjoined]
    simp
  have hstart : (path.text.head? == some '/') = !path.root.isEmpty := by
    rw [htext, hjoined]
    rcases h.root with hroot | hroot | hroot <;> simp [hroot, hx]
  rw [findTyped, if_neg hnonempty, find, Path.components_text h hne, follow_replicate, hstart]
  cases path.root.isEmpty <;> rfl

/-- A path without names leads to a folder. -/
theorem names_ne_nil_of_find {path : Path} {found : Found} (h : d.find path = .ok found)
    (hfolder : ∀ spot, found ≠ .folder spot) : path.names ≠ [] := by
  intro hnil
  unfold find at h
  rw [hnil] at h
  split at h
  · cases h
  · split at h
    · cases h
    · exact hfolder _ (Except.ok.inj h).symm

/-! ### Laws -/

/-- A file that was written under a path is read back. -/
theorem keeps (d : Directory) (path : Path) : files.Keeps d path := by
  intro bytes written hwrite
  unfold files at hwrite ⊢
  dsimp only at hwrite ⊢
  cases hplace : d.place path with
  | error e =>
    rw [hplace] at hwrite
    cases hwrite
  | ok spot =>
    rw [hplace] at hwrite
    cases hwrite
    rw [read_write hplace]

end Directory

namespace Terminal

theorem text_add (t : Terminal) (channel other : Channel) (text : List Char) :
    (t.add channel text).text other = t.text other ++ if channel = other then text else [] := by
  simp [add, Terminal.text]

/-- The log goes to the channel of the errors. -/
theorem text_of_logs {t t' : Terminal} (h : console.Logs t t') : t'.text .out = t.text .out := by
  induction h with
  | nothing => rfl
  | line text _ ih =>
    rw [ih]
    change (Terminal.add _ .err _).text .out = _
    rw [text_add, if_neg (by decide), List.append_nil]

end Terminal

end TapeBasic
