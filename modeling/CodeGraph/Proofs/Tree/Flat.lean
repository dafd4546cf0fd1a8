import CodeGraph.Proofs.Tree.Nested
import CodeGraph.Proofs.Tree.Table
import Mathlib.Data.List.Basic

/-! The flat list of any tree. An entry is addressed by the positions that lead to it, one for each
level, and the order of these addresses is the order in which the files are found. -/
namespace CodeGraph

def Entry.flattened (entry : Entry) : Entry :=
  { entry with path := Path.normalize entry.path, children := [] }

namespace FileTree

/-- The entry that some positions lead to, from folder to folder. -/
def entryAt? (entries : List Entry) : List Nat → Option Entry
  | [] => none
  | [position] => entries[position]?
  | position :: place =>
    match entries[position]? with
    | some ⟨_, _, .folder, _, _, children⟩ => entryAt? children place
    | _ => none

/-- Whether positions lead to a file, with at most so many folders above it. -/
def IsFileAt (limit : Option Nat) (entries : List Entry) (place : List Nat) : Prop :=
  (∃ file, entryAt? entries place = some file ∧ file.kind = .file) ∧
    ∀ most ∈ limit, place.length ≤ most + 1

variable {limit : Option Nat} {entry : Entry} {entries rest : List Entry} {place : List Nat}

/-- What holds of no entries, with a file in front and with a folder in front holds of all lists of
entries. -/
@[elab_as_elim]
theorem induction_entries {motive : List Entry → Prop} (nil : motive [])
    (file : ∀ entry rest, entry.kind = .file → motive rest → motive (entry :: rest))
    (folder : ∀ entry rest, entry.kind = .folder → motive entry.children → motive rest →
      motive (entry :: rest)) (entries : List Entry) : motive entries :=
  match entries with
  | [] => nil
  | ⟨_, _, .file, _, _, _⟩ :: rest => file _ rest rfl (induction_entries nil file folder rest)
  | ⟨_, _, .folder, _, _, children⟩ :: rest =>
    folder _ rest rfl (induction_entries nil file folder children)
      (induction_entries nil file folder rest)

theorem filesOfEntry_file (h : entry.kind = .file) (limit : Option Nat) :
    filesOfEntry limit entry = [entry.flattened] := by
  obtain ⟨path, name, kind, size, handle?, children⟩ := entry
  obtain rfl : kind = .file := h
  rw [filesOfEntry]
  rfl

theorem filesOfEntry_folder (h : entry.kind = .folder) (limit : Option Nat) :
    filesOfEntry limit entry =
      if limit = some 0 then [] else filesUpTo (limit.map (· - 1)) entry.children := by
  obtain ⟨path, name, kind, size, handle?, children⟩ := entry
  obtain rfl : kind = .folder := h
  rw [filesOfEntry]

/-- The place of an entry once another entry stands before those of its folder. -/
def shifted : List Nat → List Nat
  | [] => []
  | position :: place => (position + 1) :: place

theorem shifted_lt_shifted {first second : List Nat} (h : first < second) :
    shifted first < shifted second := by
  cases second with
  | nil => exact absurd h (List.not_lt_nil _)
  | cons position second =>
    cases first with
    | nil => exact List.nil_lt_cons _ _
    | cons other first =>
      rw [List.cons_lt_cons_iff] at h
      rw [shifted, shifted, List.cons_lt_cons_iff]
      exact h.imp Nat.succ_lt_succ (And.imp_left (congrArg _))

theorem shifted_injective : Function.Injective shifted :=
  StrictMono.injective fun _ _ => shifted_lt_shifted

theorem entryAt?_shifted (entry : Entry) (rest : List Entry) (place : List Nat) :
    entryAt? (entry :: rest) (shifted place) = entryAt? rest place := by
  match place with
  | [] => rfl
  | [position] => rfl
  | position :: next :: place => rfl

theorem entryAt?_file (h : entry.kind = .file) (rest : List Entry) (place : List Nat) :
    entryAt? (entry :: rest) (0 :: place) = if place = [] then some entry else none := by
  obtain ⟨path, name, kind, size, handle?, children⟩ := entry
  obtain rfl : kind = .file := h
  cases place <;> rfl

theorem entryAt?_folder (h : entry.kind = .folder) (rest : List Entry) (place : List Nat) :
    entryAt? (entry :: rest) (0 :: place) =
      if place = [] then some entry else entryAt? entry.children place := by
  obtain ⟨path, name, kind, size, handle?, children⟩ := entry
  obtain rfl : kind = .folder := h
  cases place <;> rfl

theorem IsFileAt.ne_nil (h : IsFileAt limit entries place) : place ≠ [] := by
  rintro rfl
  obtain ⟨⟨file, hfile, -⟩, -⟩ := h
  cases hfile

theorem not_isFileAt_nil : ¬ IsFileAt limit [] place := by
  rintro ⟨⟨file, hfile, -⟩, -⟩
  match place with
  | [] => cases hfile
  | [position] => cases hfile
  | position :: next :: place => cases hfile

theorem isFileAt_shifted (limit : Option Nat) (entry : Entry) (rest : List Entry)
    (place : List Nat) :
    IsFileAt limit (entry :: rest) (shifted place) ↔ IsFileAt limit rest place := by
  have hlength : (shifted place).length = place.length := by cases place <;> rfl
  unfold IsFileAt
  rw [entryAt?_shifted, hlength]

theorem isFileAt_file (h : entry.kind = .file) (limit : Option Nat) (rest : List Entry)
    (place : List Nat) : IsFileAt limit (entry :: rest) (0 :: place) ↔ place = [] := by
  unfold IsFileAt
  rw [entryAt?_file h]
  by_cases hplace : place = []
  · subst hplace
    simp [h]
  · simp [hplace]

theorem isFileAt_folder_zero (h : entry.kind = .folder) (rest : List Entry) (place : List Nat) :
    ¬ IsFileAt (some 0) (entry :: rest) (0 :: place) := by
  rintro ⟨⟨file, hfile, hkind⟩, hlength⟩
  rw [entryAt?_folder h] at hfile
  obtain rfl : place = [] := by simpa using hlength 0 rfl
  obtain rfl : entry = file := Option.some.inj hfile
  exact nomatch h.symm.trans hkind

theorem isFileAt_folder (h : entry.kind = .folder) (hlimit : limit ≠ some 0) (rest : List Entry)
    (place : List Nat) : IsFileAt limit (entry :: rest) (0 :: place) ↔
      IsFileAt (limit.map (· - 1)) entry.children place := by
  rcases eq_or_ne place [] with rfl | hplace
  · refine iff_of_false ?_ fun hfile => hfile.ne_nil rfl
    rintro ⟨⟨file, hfile, hkind⟩, -⟩
    obtain rfl : entry = file := Option.some.inj ((entryAt?_folder h rest []).symm.trans hfile)
    exact nomatch h.symm.trans hkind
  · unfold IsFileAt
    rw [entryAt?_folder h, if_neg hplace]
    refine and_congr_right fun _ => ?_
    match limit with
    | none => simp
    | some 0 => exact absurd rfl hlimit
    | some (most + 1) => simp

/-- Whether the files of some entries are listed by their places, one after the other. -/
structure ListedBy (limit : Option Nat) (entries : List Entry) (places : List (List Nat)) :
    Prop where
  pairwise : places.Pairwise (· < ·)
  mem_iff : ∀ place, place ∈ places ↔ IsFileAt limit entries place
  files_eq : (filesUpTo limit entries).map some =
    places.map fun place => (entryAt? entries place).map Entry.flattened

theorem ListedBy.cons {inner places : List (List Nat)} (h : ListedBy limit rest places)
    (hinner : inner.Pairwise (· < ·))
    (hmem : ∀ place, place ∈ inner ↔ IsFileAt limit (entry :: rest) (0 :: place))
    (hfiles : (filesOfEntry limit entry).map some =
      inner.map fun place => (entryAt? (entry :: rest) (0 :: place)).map Entry.flattened) :
    ListedBy limit (entry :: rest) (inner.map (0 :: ·) ++ places.map shifted) where
  pairwise := by
    -- all places in the first entry come before those in the others
    refine List.pairwise_append.2 ⟨?_, ?_, fun first hfirst second hsecond => ?_⟩
    · exact hinner.map _ fun first second hlt => List.cons_lt_cons_iff.2 (.inr ⟨rfl, hlt⟩)
    · exact h.pairwise.map _ fun first second hlt => shifted_lt_shifted hlt
    · obtain ⟨place, -, rfl⟩ := List.mem_map.1 hfirst
      obtain ⟨other, hother, rfl⟩ := List.mem_map.1 hsecond
      cases other with
      | nil => exact absurd rfl ((h.mem_iff []).1 hother).ne_nil
      | cons position other => exact List.cons_lt_cons_iff.2 (.inl (Nat.succ_pos position))
  mem_iff place := by
    rw [List.mem_append]
    match place with
    | [] =>
      have hinner : [] ∉ inner.map (0 :: ·) := by simp
      have hplaces : [] ∉ places.map shifted := by
        intro hplace
        obtain ⟨other, hother, hnil⟩ := List.mem_map.1 hplace
        exact ((h.mem_iff other).1 hother).ne_nil (shifted_injective hnil)
      exact iff_of_false (not_or.2 ⟨hinner, hplaces⟩) fun hfile => hfile.ne_nil rfl
    | 0 :: place =>
      have hplaces : 0 :: place ∉ places.map shifted := by
        intro hplace
        obtain ⟨other, -, hother⟩ := List.mem_map.1 hplace
        cases other <;> cases hother
      rw [or_iff_left hplaces, List.mem_map_of_injective List.cons_injective, hmem]
    | (position + 1) :: place =>
      have hinner : (position + 1) :: place ∉ inner.map (0 :: ·) := by simp
      have hplaces : shifted (position :: place) ∈ places.map shifted ↔ _ :=
        List.mem_map_of_injective shifted_injective
      rw [or_iff_right hinner]
      exact hplaces.trans ((h.mem_iff _).trans (isFileAt_shifted limit entry rest _).symm)
  files_eq := by
    rw [filesUpTo_cons, List.map_append, hfiles, h.files_eq, List.map_append, List.map_map,
      List.map_map]
    simp only [Function.comp_def, entryAt?_shifted]

/-- The files that are found in some entries are listed by their places. -/
theorem exists_listedBy (limit : Option Nat) (entries : List Entry) :
    ∃ places, ListedBy limit entries places := by
  induction entries using induction_entries generalizing limit with
  | nil => exact ⟨[], .nil, fun place => iff_of_false List.not_mem_nil not_isFileAt_nil, rfl⟩
  | file entry rest hkind ih =>
    obtain ⟨places, hplaces⟩ := ih limit
    refine ⟨_, hplaces.cons (List.pairwise_singleton _ []) (fun place => ?_) ?_⟩
    · rw [isFileAt_file hkind, List.mem_singleton]
    · rw [filesOfEntry_file hkind]
      simp [entryAt?_file hkind]
  | folder entry rest hkind ihChildren ih =>
    obtain ⟨places, hplaces⟩ := ih limit
    rcases eq_or_ne limit (some 0) with rfl | hlimit
    · refine ⟨_, hplaces.cons .nil (fun place => ?_) ?_⟩
      · exact iff_of_false List.not_mem_nil (isFileAt_folder_zero hkind rest place)
      · rw [filesOfEntry_folder hkind, if_pos rfl]
        rfl
    · obtain ⟨inner, hinner⟩ := ihChildren (limit.map (· - 1))
      refine ⟨_, hplaces.cons hinner.pairwise (fun place => ?_) ?_⟩
      · rw [hinner.mem_iff, isFileAt_folder hkind hlimit]
      · rw [filesOfEntry_folder hkind, if_neg hlimit, hinner.files_eq]
        refine List.map_congr_left fun place hplace => ?_
        rw [entryAt?_folder hkind, if_neg ((hinner.mem_iff place).1 hplace).ne_nil]

theorem flattened_of_mem_filesUpTo {file : Entry} (h : file ∈ filesUpTo limit entries) :
    file.kind = .file ∧ file.flattened = file := by
  obtain ⟨places, hplaces⟩ := exists_listedBy limit entries
  have hmem : some file ∈ places.map fun place => (entryAt? entries place).map Entry.flattened := by
    rw [← hplaces.files_eq]
    exact List.mem_map_of_mem h
  obtain ⟨place, hplace, hfile⟩ := List.mem_map.1 hmem
  obtain ⟨⟨entry, hentry, hkind⟩, -⟩ := (hplaces.mem_iff place).1 hplace
  rw [hentry] at hfile
  obtain rfl : entry.flattened = file := Option.some.inj hfile
  refine ⟨hkind, ?_⟩
  unfold Entry.flattened
  rw [Path.normalize_eq entry.path, (Path.normal_segments entry.path).normalize_ofSegments]

theorem filesUpTo_files (h : ∀ entry ∈ entries, entry.kind = .file) (limit : Option Nat) :
    filesUpTo limit entries = entries.map Entry.flattened := by
  induction entries with
  | nil => rfl
  | cons entry rest ih =>
    obtain ⟨hentry, hrest⟩ := List.forall_mem_cons.1 h
    rw [filesUpTo_cons, filesOfEntry_file hentry, ih hrest]
    rfl

/-- What is found is found again, within any limit. -/
theorem filesUpTo_filesUpTo (again limit : Option Nat) (entries : List Entry) :
    filesUpTo again (filesUpTo limit entries) = filesUpTo limit entries := by
  have hsame : ∀ file ∈ filesUpTo limit entries, file.flattened = id file := fun _ hfile =>
    (flattened_of_mem_filesUpTo hfile).2
  rw [filesUpTo_files fun file hfile => (flattened_of_mem_filesUpTo hfile).1,
    List.map_congr_left hsame, List.map_id]

/-- A flat list holds the files within the limit, depth first, and its table the position of the
first file of each path. -/
theorem flatten_listed (tree : FileTree) (maxDepth : Option Nat) :
    let flat := tree.flatten maxDepth
    (∃ places : List (List Nat), places.Pairwise (· < ·) ∧
      (∀ place, place ∈ places ↔
        (∃ file, entryAt? tree place = some file ∧ file.kind = .file) ∧
          ∀ most ∈ maxDepth, place.length ≤ most + 1) ∧
      flat.files.map some = places.map fun place => (entryAt? tree place).map Entry.flattened) ∧
    (∀ path, flat.paths.position? path = flat.files.findIdx? (·.path = path) ∧
      (∀ position ∈ flat.paths.position? path, position < flat.files.length) ∧
      flat.get? path = flat.files.find? (·.path = path)) ∧
    flat.paths.size = (flat.files.map (·.path)).toFinset.card ∧
    ∀ again, FileTree.flatten flat.files again = flat := by
  intro flat
  have hposition : ∀ path, flat.paths.position? path = flat.files.findIdx? (·.path = path) := by
    intro path
    exact (PathTable.position?_ofList _ path).trans List.findIdx?_map
  obtain ⟨places, hplaces⟩ := exists_listedBy maxDepth tree
  refine ⟨⟨places, hplaces.pairwise, hplaces.mem_iff, hplaces.files_eq⟩, fun path => ?_,
    PathTable.size_ofList _, fun again => ?_⟩
  · refine ⟨hposition path, fun position hfound => ?_, ?_⟩
    · rw [hposition] at hfound
      exact (List.findIdx?_eq_some_iff_getElem.1 hfound).1
    · rw [List.find?_eq_bind_findIdx?_getElem?, ← hposition]
      rfl
  · exact congrArg FlatTree.ofFiles (filesUpTo_filesUpTo again maxDepth tree)

end FileTree
end CodeGraph
