import CodeGraph.Proofs.Disk.Path
import CodeGraph.Repository.Listing
import CodeGraph.Tree.Flat

/-! What a repository holds, its listings, and the tree that it is to be seen as. -/
namespace CodeGraph

namespace Disk

theorem names_below (folder : String) {name : String} (h : IsName name) :
    names (Path.below folder name) = names folder ++ [name] := by
  unfold Path.below
  split_ifs with hempty
  · rw [String.isEmpty_iff.1 hempty, names_name h]
    rfl
  · unfold names
    rw [parts_append_slash, parts_name h, List.filter_append,
      List.filter_cons_of_pos (by simpa using h.ne_empty), List.filter_nil]

theorem length_names_below (folder : String) {name : String} (h : IsName name) :
    (names (Path.below folder name)).length = (names folder).length + 1 := by
  rw [names_below folder h, List.length_append, List.length_singleton]

end Disk

namespace Repository

/-- The items of a folder, one after the other. A file comes with its kind, and a folder with what it
holds. -/
inductive Contents where
  | empty
  | file (name kind : String) (size : UInt64) (address? : Option String) (rest : Contents)
  | folder (name : String) (size : UInt64) (address? : Option String) (items rest : Contents)
  deriving DecidableEq, Inhabited, Repr

namespace Contents

def names : Contents → List String
  | empty => []
  | file name _ _ _ rest => name :: rest.names
  | folder name _ _ _ rest => name :: rest.names

/-- Whether the items of each folder have different names, which can stand between the slashes of a
path, and no file counts as a folder. -/
def WellNamed : Contents → Prop
  | empty => True
  | file name kind _ _ rest =>
    Disk.IsName name ∧ kind ≠ "dir" ∧ name ∉ rest.names ∧ rest.WellNamed
  | folder name _ _ items rest =>
    Disk.IsName name ∧ name ∉ rest.names ∧ items.WellNamed ∧ rest.WellNamed

def listing (path : String) : Contents → List Listed
  | empty => []
  | file name kind size address? rest =>
    ⟨name, Path.below path name, kind, size, address?⟩ :: rest.listing path
  | folder name size address? _ rest =>
    ⟨name, Path.below path name, "dir", size, address?⟩ :: rest.listing path

def folders (path : String) : Contents → List (String × Contents)
  | empty => []
  | file _ _ _ _ rest => rest.folders path
  | folder name _ _ items rest =>
    (Path.below path name, items) :: items.folders (Path.below path name) ++ rest.folders path

def paths (path : String) (contents : Contents) : List String := (contents.folders path).map (·.1)

/-- The folders of a repository with their paths, from the root. -/
def fromRoot (contents : Contents) : List (String × Contents) := ("", contents) :: contents.folders ""

/-- How many folders stand inside each other. -/
def height : Contents → Nat
  | empty => 0
  | file _ _ _ _ rest => rest.height
  | folder _ _ _ items rest => max (items.height + 1) rest.height

/-- What can be seen of a folder. Folders in it that lie too deep, or whose listings fail, seem
empty. -/
def visible (failing : String → Bool) (limit : Option Nat) (path : String) : Contents → Contents
  | empty => empty
  | file name kind size address? rest =>
    file name kind size address? (rest.visible failing limit path)
  | folder name size address? items rest =>
    folder name size address?
      (if limit = some 0 ∨ failing (Path.below path name) then empty
        else items.visible failing (limit.map (· - 1)) (Path.below path name))
      (rest.visible failing limit path)

def entries (path : String) : Contents → List Entry
  | empty => []
  | file name _ size address? rest =>
    ⟨Path.below path name, name, .file, size, address?, []⟩ :: rest.entries path
  | folder name _ _ items rest =>
    ⟨Path.below path name, name, .folder, 0, none, items.entries (Path.below path name)⟩ ::
      rest.entries path

/-- The tree of a repository: the entries of what can be seen from its root. -/
def tree (failing : String → Bool) (limit : Option Nat) (contents : Contents) : FileTree :=
  if failing "" then [] else (contents.visible failing limit "").entries ""

variable {failing : String → Bool} {limit : Option Nat} {path : String} {contents : Contents}

theorem eq_empty_of_listing (h : contents.listing path = []) : contents = empty := by
  cases contents with
  | empty => rfl
  | file => cases h
  | folder => cases h

theorem names_visible (failing : String → Bool) (limit : Option Nat) (path : String)
    (contents : Contents) : (contents.visible failing limit path).names = contents.names := by
  induction contents with
  | empty => rfl
  | file name kind size address? rest ih => rw [visible, names, names, ih]
  | folder name size address? items rest _ ih => rw [visible, names, names, ih]

theorem listing_visible (failing : String → Bool) (limit : Option Nat) (path : String)
    (contents : Contents) :
    (contents.visible failing limit path).listing path = contents.listing path := by
  induction contents with
  | empty => rfl
  | file name kind size address? rest ih => rw [visible, listing, listing, ih]
  | folder name size address? items rest _ ih => rw [visible, listing, listing, ih]

theorem WellNamed.visible (h : contents.WellNamed) (failing : String → Bool) (limit : Option Nat)
    (path : String) : (contents.visible failing limit path).WellNamed := by
  induction contents generalizing limit path with
  | empty => trivial
  | file name kind size address? rest ih =>
    obtain ⟨hname, hkind, hnew, hrest⟩ := h
    exact ⟨hname, hkind, names_visible failing limit path rest ▸ hnew, ih hrest limit path⟩
  | folder name size address? items rest ihItems ih =>
    obtain ⟨hname, hnew, hitems, hrest⟩ := h
    refine ⟨hname, names_visible failing limit path rest ▸ hnew, ?_, ih hrest limit path⟩
    split_ifs
    · trivial
    · exact ihItems hitems _ _

section

variable {name : String} {size : UInt64} {address? : Option String} {items rest : Contents}

theorem mem_folders_folder {other : String × Contents} :
    other ∈ (folder name size address? items rest).folders path ↔
      other = (Path.below path name, items) ∨ other ∈ items.folders (Path.below path name) ∨
        other ∈ rest.folders path := by
  rw [folders, List.cons_append, List.mem_cons, List.mem_append]

theorem paths_folder : (folder name size address? items rest).paths path =
    Path.below path name :: (items.paths (Path.below path name) ++ rest.paths path) := by
  rw [paths, folders, List.cons_append, List.map_cons, List.map_append]
  rfl

theorem mem_paths_folder {other : String} :
    other ∈ (folder name size address? items rest).paths path ↔
      other = Path.below path name ∨ other ∈ items.paths (Path.below path name) ∨
        other ∈ rest.paths path := by
  rw [paths_folder, List.mem_cons, List.mem_append]

end

theorem folders_subset {folder : String × Contents} (h : folder ∈ contents.folders path) :
    folder.2.folders folder.1 ⊆ contents.folders path := by
  induction contents generalizing path with
  | empty => cases h
  | file name kind size address? rest ih => exact ih h
  | folder name size address? items rest ihItems ih =>
    intro other hother
    rw [mem_folders_folder]
    rcases mem_folders_folder.1 h with rfl | h | h
    · exact .inr (.inl hother)
    · exact .inr (.inl (ihItems h hother))
    · exact .inr (.inr (ih h hother))

theorem WellNamed.of_mem_folders (h : contents.WellNamed) {folder : String × Contents}
    (hfolder : folder ∈ contents.folders path) : folder.2.WellNamed := by
  induction contents generalizing path with
  | empty => cases hfolder
  | file name kind size address? rest ih => exact ih h.2.2.2 hfolder
  | folder name size address? items rest ihItems ih =>
    obtain ⟨-, -, hitems, hrest⟩ := h
    rcases mem_folders_folder.1 hfolder with rfl | hfolder | hfolder
    · exact hitems
    · exact ihItems hitems hfolder
    · exact ih hrest hfolder

theorem path_mem_paths (h : contents.WellNamed) {item : Listed}
    (hitem : item ∈ contents.listing path) (hdir : item.isFolder) :
    item.path ∈ contents.paths path := by
  induction contents with
  | empty => cases hitem
  | file name kind size address? rest ih =>
    rcases List.mem_cons.1 hitem with rfl | hitem
    · exact absurd (of_decide_eq_true hdir) h.2.1
    · exact ih h.2.2.2 hitem
  | folder name size address? items rest _ ih =>
    rw [mem_paths_folder]
    rcases List.mem_cons.1 hitem with rfl | hitem
    · exact .inl rfl
    · exact .inr (.inr (ih h.2.2.2 hitem))

/-- The folders that are listed in a folder of a repository are folders of it. -/
theorem path_mem_fromRoot (h : contents.WellNamed) {folder : String × Contents}
    (hfolder : folder ∈ contents.fromRoot) {item : Listed}
    (hitem : item ∈ folder.2.listing folder.1) (hdir : item.isFolder) :
    item.path ∈ contents.fromRoot.map (·.1) := by
  refine List.mem_cons_of_mem _ ?_
  rcases List.mem_cons.1 hfolder with rfl | hfolder
  · exact path_mem_paths h hitem hdir
  · exact List.map_subset _ (folders_subset hfolder)
      (path_mem_paths (h.of_mem_folders hfolder) hitem hdir)

/-- The path of a folder begins with the name of an item that it lies in. -/
theorem exists_name_of_mem_paths (h : contents.WellNamed) {other : String}
    (hmem : other ∈ contents.paths path) :
    ∃ name ∈ contents.names, Disk.names path ++ [name] <+: Disk.names other := by
  induction contents generalizing path with
  | empty => cases hmem
  | file name kind size address? rest ih =>
    obtain ⟨first, hfirst, hprefix⟩ := ih h.2.2.2 hmem
    exact ⟨first, List.mem_cons_of_mem _ hfirst, hprefix⟩
  | folder name size address? items rest ihItems ih =>
    obtain ⟨hname, -, hitems, hrest⟩ := h
    rcases mem_paths_folder.1 hmem with rfl | hmem | hmem
    · exact ⟨name, List.mem_cons_self, by rw [Disk.names_below path hname]⟩
    · obtain ⟨first, -, hprefix⟩ := ihItems hitems hmem
      rw [Disk.names_below path hname] at hprefix
      exact ⟨name, List.mem_cons_self, (List.prefix_append _ _).trans hprefix⟩
    · obtain ⟨first, hfirst, hprefix⟩ := ih hrest hmem
      exact ⟨first, List.mem_cons_of_mem _ hfirst, hprefix⟩

theorem length_lt_of_mem_paths (h : contents.WellNamed) {other : String}
    (hmem : other ∈ contents.paths path) :
    (Disk.names path).length < (Disk.names other).length := by
  obtain ⟨name, -, hprefix⟩ := exists_name_of_mem_paths h hmem
  have hlength := hprefix.length_le
  rw [List.length_append] at hlength
  exact hlength

/-- Two names of which a path goes on with both are the same. -/
theorem name_eq_of_isPrefix {above below : List String} {name other : String}
    (h : above ++ [name] <+: below) (hother : above ++ [other] <+: below) : name = other := by
  have hsame : above ++ [name] = above ++ [other] :=
    (List.prefix_of_prefix_length_le h hother (by simp)).eq_of_length (by simp)
  exact List.singleton_inj.1 (List.append_cancel_left hsame)

/-- No two folders have the same path. -/
theorem nodup_paths (h : contents.WellNamed) (path : String) :
    (contents.paths path).Nodup := by
  induction contents generalizing path with
  | empty => exact List.nodup_nil
  | file name kind size address? rest ih => exact ih h.2.2.2 path
  | folder name size address? items rest ihItems ih =>
    obtain ⟨hname, hnew, hitems, hrest⟩ := h
    have hbelow := Disk.names_below path hname
    have hapart : ∀ other ∈ rest.paths path,
        ¬ Disk.names path ++ [name] <+: Disk.names other := by
      intro other hother hprefix
      obtain ⟨first, hfirst, hrestPrefix⟩ := exists_name_of_mem_paths hrest hother
      exact hnew (name_eq_of_isPrefix hprefix hrestPrefix ▸ hfirst)
    rw [paths_folder, List.nodup_cons, List.nodup_append', List.mem_append, not_or]
    refine ⟨⟨fun hmem => ?_, fun hmem => ?_⟩, ihItems hitems _, ih hrest path, ?_⟩
    · exact Nat.lt_irrefl _ (length_lt_of_mem_paths hitems hmem)
    · exact hapart _ hmem (by rw [hbelow])
    · intro other hitem hother
      obtain ⟨first, -, hprefix⟩ := exists_name_of_mem_paths hitems hitem
      rw [hbelow] at hprefix
      exact hapart other hother ((List.prefix_append _ _).trans hprefix)

theorem utf8ByteSize_below (path : String) {name : String} (h : Disk.IsName name) :
    path.utf8ByteSize < (Path.below path name).utf8ByteSize := by
  have hname : 0 < name.utf8ByteSize :=
    Nat.pos_of_ne_zero fun hzero => h.ne_empty (String.utf8ByteSize_eq_zero_iff.1 hzero)
  unfold Path.below
  split_ifs with hempty
  · rw [String.isEmpty_iff.1 hempty]
    exact hname
  · rw [String.utf8ByteSize_append, String.utf8ByteSize_append]
    omega

/-- Folders that stand inside each other make for long paths. -/
theorem exists_path_of_height (h : contents.WellNamed) (hpos : 0 < contents.height)
    (path : String) : ∃ other ∈ contents.paths path,
      path.utf8ByteSize + contents.height ≤ other.utf8ByteSize := by
  induction contents generalizing path with
  | empty => cases hpos
  | file name kind size address? rest ih => exact ih h.2.2.2 hpos path
  | folder name size address? items rest ihItems ih =>
    obtain ⟨hname, -, hitems, hrest⟩ := h
    have hsize := utf8ByteSize_below path hname
    simp only [height, mem_paths_folder] at hpos ⊢
    by_cases hheight : rest.height ≤ items.height + 1
    · rw [Nat.max_eq_left hheight]
      by_cases hflat : items.height = 0
      · exact ⟨_, .inl rfl, by omega⟩
      · obtain ⟨other, hother, hlong⟩ :=
          ihItems hitems (Nat.pos_of_ne_zero hflat) (Path.below path name)
        exact ⟨other, .inr (.inl hother), by omega⟩
    · rw [Nat.max_eq_right (by omega)]
      obtain ⟨other, hother, hlong⟩ := ih hrest (by omega) path
      exact ⟨other, .inr (.inr hother), hlong⟩

theorem height_lt_of_paths {bound : Nat} (h : contents.WellNamed) (hbound : 0 < bound)
    (hpaths : ∀ other ∈ contents.paths path, other.utf8ByteSize < bound) :
    contents.height < bound := by
  rcases Nat.eq_zero_or_pos contents.height with hflat | hpos
  · rwa [hflat]
  · obtain ⟨other, hother, hlong⟩ := exists_path_of_height h hpos path
    have hshort := hpaths other hother
    omega

theorem visible_of_height_le {levels : Nat} (h : contents.height ≤ levels) :
    contents.visible failing (some levels) path = contents.visible failing none path := by
  induction contents generalizing levels path with
  | empty => rfl
  | file name kind size address? rest ih => rw [visible, visible, ih h]
  | folder name size address? items rest ihItems ih =>
    rw [height] at h
    obtain ⟨levels, rfl⟩ : ∃ n, levels = n + 1 := ⟨levels - 1, by omega⟩
    have hitems : items.height ≤ levels := by omega
    have hrest : rest.height ≤ levels + 1 := by omega
    rw [visible, visible, ih hrest]
    simp only [Option.map_some, Option.map_none, Nat.add_sub_cancel, ihItems hitems, Option.some.injEq,
      Nat.add_one_ne_zero, false_or, reduceCtorEq]

/-- A limit on the listings is a limit on the folders that are entered. -/
theorem filesUpTo_entries {levels : Nat} (hlevels : ∀ most ∈ limit, levels ≤ most)
    (failing : String → Bool) (path : String) (contents : Contents) :
    FileTree.filesUpTo none ((contents.visible failing (some levels) path).entries path) =
      FileTree.filesUpTo (some levels) ((contents.visible failing limit path).entries path) := by
  induction contents generalizing levels limit path with
  | empty => rfl
  | file name kind size address? rest ih =>
    rw [visible, visible, entries, entries, FileTree.filesUpTo, FileTree.filesUpTo, ih hlevels]
    rfl
  | folder name size address? items rest ihItems ih =>
    rw [visible, visible, entries, entries, FileTree.filesUpTo, FileTree.filesUpTo, ih hlevels,
      FileTree.filesOfEntry, FileTree.filesOfEntry]
    cases levels with
    | zero => rfl
    | succ levels =>
      have hopen : limit ≠ some 0 := by
        rintro rfl
        exact Nat.not_succ_le_zero levels (hlevels 0 rfl)
      have hbelow : ∀ most ∈ limit.map (· - 1), levels ≤ most := by
        intro most hmost
        obtain ⟨more, hmore, rfl⟩ := Option.mem_map.1 hmost
        exact Nat.le_sub_one_of_lt (hlevels more hmore)
      by_cases hfailing : failing (Path.below path name)
      · simp [hfailing, entries, FileTree.filesUpTo]
      · simp [hfailing, hopen, ihItems hbelow]

theorem flatten_tree {levels : Nat} (hlevels : ∀ most ∈ limit, levels ≤ most)
    (failing : String → Bool) (contents : Contents) :
    (contents.tree failing (some levels)).flatten none =
      (contents.tree failing limit).flatten (some levels) := by
  unfold tree FileTree.flatten
  split_ifs
  · rfl
  · rw [filesUpTo_entries hlevels]

end Contents

end Repository

end CodeGraph
