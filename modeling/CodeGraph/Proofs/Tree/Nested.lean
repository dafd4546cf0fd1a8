import CodeGraph.Proofs.Disk.Path
import CodeGraph.Proofs.Path.Normal
import CodeGraph.Tree.Build
import CodeGraph.Tree.Flat

/-! Trees that are built from paths. Nothing is lost and nothing is added, folders stand where the
paths say, and a limit on the folders that are entered is one on the slashes of the paths. -/
namespace CodeGraph

/-- Whether an entry is the folder of a path. -/
def Entry.IsFolderAt (path : String) (entry : Entry) : Prop :=
  entry.kind = .folder ∧ entry.path = path

theorem Entry.not_isFolderAt_file (path other : String) (size : UInt64) :
    ¬ (Entry.file path size).IsFolderAt other := fun h => nomatch h.1

namespace FileTree

/-- Entries of a folder, given by the segments of its path, in a tree that is built from paths. -/
inductive Nested : List Path.Segment → List Entry → Prop where
  | nil (above : List Path.Segment) : Nested above []
  | file {above : List Path.Segment} {name : Path.Segment} {rest : List Entry} (size : UInt64)
      (hname : Path.Normal (above ++ [name])) (hrest : Nested above rest) :
      Nested above (.file (Path.ofSegments (above ++ [name])) size :: rest)
  | folder {above : List Path.Segment} {name : Path.Segment} {children rest : List Entry}
      (hname : Path.Normal (above ++ [name])) (hne : children ≠ [])
      (hchildren : Nested (above ++ [name]) children)
      (hnew : ∀ entry ∈ rest, ¬ entry.IsFolderAt (Path.ofSegments (above ++ [name])))
      (hrest : Nested above rest) :
      Nested above (.folder (Path.ofSegments (above ++ [name])) children :: rest)

variable {above segments : List Path.Segment} {name : Path.Segment} {path : String} {size : UInt64}
  {entry file : Entry} {before entries children rest : List Entry} {limit : Option Nat}
  {change : List Entry → List Entry}

theorem alterFolder_folder (path : String) (change : List Entry → List Entry)
    (children rest : List Entry) : alterFolder path change (.folder path children :: rest) =
      .folder path (change children) :: rest := by
  rw [alterFolder, if_pos ⟨rfl, rfl⟩]
  rfl

theorem alterFolder_cons (h : ¬ entry.IsFolderAt path) (change : List Entry → List Entry) :
    alterFolder path change (entry :: rest) = entry :: alterFolder path change rest := by
  rw [alterFolder]
  exact if_neg h

theorem alterFolder_append (h : ∀ entry ∈ before, ¬ entry.IsFolderAt path)
    (change : List Entry → List Entry) (entries : List Entry) :
    alterFolder path change (before ++ entries) = before ++ alterFolder path change entries := by
  induction before with
  | nil => rfl
  | cons first before ih =>
    have hbefore := ih fun entry hentry => h entry (List.mem_cons_of_mem _ hentry)
    rw [List.cons_append, alterFolder_cons (h first List.mem_cons_self), hbefore, List.cons_append]

theorem alterFolder_ne_nil (path : String) (change : List Entry → List Entry)
    (entries : List Entry) : alterFolder path change entries ≠ [] := by
  cases entries with
  | nil => exact List.cons_ne_nil _ _
  | cons first rest =>
    rw [alterFolder]
    split_ifs <;> exact List.cons_ne_nil _ _

theorem mem_alterFolder (h : entry ∈ alterFolder path change entries) :
    entry ∈ entries ∨ entry.IsFolderAt path := by
  induction entries with
  | nil =>
    rw [List.mem_singleton.1 h]
    exact .inr ⟨rfl, rfl⟩
  | cons first rest ih =>
    rw [alterFolder] at h
    split_ifs at h with hfirst
    · rcases List.mem_cons.1 h with rfl | hrest
      · exact .inr hfirst
      · exact .inl (List.mem_cons_of_mem _ hrest)
    · rcases List.mem_cons.1 h with rfl | hrest
      · exact .inl List.mem_cons_self
      · exact (ih hrest).imp_left (List.mem_cons_of_mem _)

theorem insert_file (hname : Path.Normal (above ++ [name])) (size : UInt64)
    (entries : List Entry) : insert size (Path.ofSegments above) [name] entries =
      entries ++ [.file (Path.ofSegments (above ++ [name])) size] := by
  rw [insert, Path.below_ofSegments hname.of_append.nil_not_mem]

theorem insert_folder (hname : Path.Normal (above ++ [name])) (hne : segments ≠ [])
    (size : UInt64) (entries : List Entry) :
    insert size (Path.ofSegments above) (name :: segments) entries =
      alterFolder (Path.ofSegments (above ++ [name]))
        (insert size (Path.ofSegments (above ++ [name])) segments) entries := by
  cases segments with
  | nil => exact absurd rfl hne
  | cons next segments =>
    rw [insert, Path.below_ofSegments hname.of_append.nil_not_mem]
    exact List.cons_ne_nil _ _

theorem insert_ne_nil (hne : segments ≠ []) (size : UInt64) (above : String)
    (entries : List Entry) : insert size above segments entries ≠ [] := by
  match segments with
  | [] => exact absurd rfl hne
  | [name] => exact List.append_ne_nil_of_right_ne_nil _ (List.cons_ne_nil _ _)
  | name :: next :: segments => exact alterFolder_ne_nil _ _ _

theorem Nested.concat_file (h : Nested above entries) (hname : Path.Normal (above ++ [name]))
    (size : UInt64) :
    Nested above (entries ++ [.file (Path.ofSegments (above ++ [name])) size]) := by
  induction h with
  | nil above => exact .file size hname (.nil above)
  | file other hother _ ih => exact .file other hother (ih hname)
  | folder hfolder hne hchildren hnew _ _ ih =>
    refine .folder hfolder hne hchildren (fun entry hentry => ?_) (ih hname)
    rcases List.mem_append.1 hentry with hentry | hentry
    · exact hnew entry hentry
    · rw [List.mem_singleton.1 hentry]
      exact Entry.not_isFolderAt_file _ _ _

theorem nested_alterFolder (h : Nested above entries) (hname : Path.Normal (above ++ [name]))
    (hchange : ∀ children, Nested (above ++ [name]) children →
      Nested (above ++ [name]) (change children) ∧ change children ≠ []) :
    Nested above (alterFolder (Path.ofSegments (above ++ [name])) change entries) := by
  induction h with
  | nil above =>
    obtain ⟨hchildren, hne⟩ := hchange [] (.nil _)
    exact .folder hname hne hchildren (fun _ hentry => absurd hentry List.not_mem_nil) (.nil above)
  | file size hfile _ ih =>
    rw [alterFolder_cons (Entry.not_isFolderAt_file _ _ _)]
    exact .file size hfile (ih hname hchange)
  | @folder above other children rest hother hne hchildren hnew hrest _ ih =>
    rcases eq_or_ne other name with rfl | hdifferent
    · obtain ⟨hchanged, hchangedNe⟩ := hchange children hchildren
      rw [alterFolder_folder]
      exact .folder hother hchangedNe hchanged hnew hrest
    · have hpath : Path.ofSegments (above ++ [other]) ≠ Path.ofSegments (above ++ [name]) := by
        rw [Ne, hother.ofSegments_inj hname]
        simpa using hdifferent
      rw [alterFolder_cons fun hfolder => hpath hfolder.2]
      refine .folder hother hne hchildren (fun entry hentry => ?_) (ih hname hchange)
      rcases mem_alterFolder hentry with hentry | hentry
      · exact hnew entry hentry
      · exact fun hfolder => hpath (hfolder.2.symm.trans hentry.2)

theorem nested_insert (h : Nested above entries) (hnormal : Path.Normal (above ++ segments))
    (hne : segments ≠ []) (size : UInt64) :
    Nested above (insert size (Path.ofSegments above) segments entries) := by
  induction segments generalizing above entries with
  | nil => exact absurd rfl hne
  | cons name segments ih =>
    rw [List.append_cons] at hnormal
    rcases eq_or_ne segments [] with rfl | hsegments
    · rw [insert_file hnormal.of_append]
      exact h.concat_file hnormal.of_append size
    · rw [insert_folder hnormal.of_append hsegments]
      exact nested_alterFolder h hnormal.of_append fun children hchildren =>
        ⟨ih hchildren hnormal hsegments, insert_ne_nil hsegments _ _ _⟩

theorem build_concat (files : List (String × UInt64)) (file : String × UInt64) :
    build (files ++ [file]) = insert file.2 "" (Path.segments file.1) (build files) := by
  rw [build, List.foldl_append]
  rfl

theorem nested_build (files : List (String × UInt64)) : Nested [] (build files) := by
  induction files using List.reverseRecOn with
  | nil => exact .nil []
  | append_singleton files file ih =>
    rw [build_concat]
    rcases eq_or_ne (Path.segments file.1) [] with hnil | hne
    · rw [hnil, insert]
      exact ih
    · exact nested_insert ih (Path.normal_segments file.1) hne file.2

theorem filesUpTo_cons (limit : Option Nat) (entry : Entry) (rest : List Entry) :
    filesUpTo limit (entry :: rest) = filesOfEntry limit entry ++ filesUpTo limit rest := by
  rw [filesUpTo]

theorem filesUpTo_append (limit : Option Nat) (entries more : List Entry) :
    filesUpTo limit (entries ++ more) = filesUpTo limit entries ++ filesUpTo limit more := by
  induction entries with
  | nil => rfl
  | cons entry rest ih =>
    rw [List.cons_append, filesUpTo_cons, filesUpTo_cons, ih, List.append_assoc]

theorem filesUpTo_file (h : Path.Normal segments) (limit : Option Nat) (size : UInt64)
    (rest : List Entry) : filesUpTo limit (.file (Path.ofSegments segments) size :: rest) =
      .file (Path.ofSegments segments) size :: filesUpTo limit rest := by
  rw [filesUpTo_cons, Entry.file, filesOfEntry, h.normalize_ofSegments]
  rfl

theorem filesUpTo_folder (path : String) (children rest : List Entry) :
    filesUpTo none (.folder path children :: rest) =
      filesUpTo none children ++ filesUpTo none rest := by
  rw [filesUpTo_cons, Entry.folder, filesOfEntry, if_neg (by simp), Option.map_none]

theorem filesUpTo_folder_zero (path : String) (children rest : List Entry) :
    filesUpTo (some 0) (.folder path children :: rest) = filesUpTo (some 0) rest := by
  rw [filesUpTo_cons, Entry.folder, filesOfEntry, if_pos rfl, List.nil_append]

theorem filesUpTo_folder_succ (limit : Nat) (path : String) (children rest : List Entry) :
    filesUpTo (some (limit + 1)) (.folder path children :: rest) =
      filesUpTo (some limit) children ++ filesUpTo (some (limit + 1)) rest := by
  rw [filesUpTo_cons, Entry.folder, filesOfEntry, if_neg (by simp), Option.map_some,
    Nat.add_sub_cancel]

theorem filesUpTo_alterFolder
    (hchange : ∀ children, (filesUpTo none (change children)).Perm (file :: filesUpTo none children))
    (path : String) (entries : List Entry) :
    (filesUpTo none (alterFolder path change entries)).Perm (file :: filesUpTo none entries) := by
  induction entries with
  | nil =>
    rw [alterFolder, filesUpTo_folder]
    exact (hchange []).append_right _
  | cons entry rest ih =>
    rw [alterFolder]
    split_ifs with hfolder
    · obtain ⟨entryPath, entryName, kind, entrySize, handle?, children⟩ := entry
      obtain ⟨rfl, -⟩ : kind = .folder ∧ entryPath = path := hfolder
      rw [filesUpTo_cons, filesUpTo_cons, filesOfEntry, filesOfEntry]
      exact (hchange children).append_right (filesUpTo none rest)
    · rw [filesUpTo_cons, filesUpTo_cons]
      exact (ih.append_left _).trans List.perm_middle

/-- A file that is added is found, next to those that were there. -/
theorem filesUpTo_insert (hnormal : Path.Normal (above ++ segments)) (hne : segments ≠ [])
    (size : UInt64) (entries : List Entry) :
    (filesUpTo none (insert size (Path.ofSegments above) segments entries)).Perm
      (.file (Path.ofSegments (above ++ segments)) size :: filesUpTo none entries) := by
  induction segments generalizing above entries with
  | nil => exact absurd rfl hne
  | cons name segments ih =>
    rw [List.append_cons] at hnormal ⊢
    rcases eq_or_ne segments [] with rfl | hsegments
    · rw [List.append_nil] at hnormal ⊢
      rw [insert_file hnormal, filesUpTo_append, filesUpTo_file hnormal]
      exact List.perm_append_singleton _ _
    · rw [insert_folder hnormal.of_append hsegments]
      exact filesUpTo_alterFolder (fun children => ih hnormal hsegments children) _ _

theorem filesUpTo_build (files : List (String × UInt64)) : (filesUpTo none (build files)).Perm
    (((files.map fun file => (Path.normalize file.1, file.2)).filter (·.1 ≠ "")).map
      fun file => .file file.1 file.2) := by
  induction files using List.reverseRecOn with
  | nil => exact .nil
  | append_singleton files file ih =>
    have hempty := Path.normalize_eq_empty_iff file.1
    rw [build_concat, List.map_append, List.filter_append, List.map_append]
    rcases eq_or_ne (Path.segments file.1) [] with hnil | hne
    · rw [hnil, insert]
      simpa [hempty.2 hnil] using ih
    · have hkept : [(Path.normalize file.1, file.2)].filter (·.1 ≠ "") =
          [(Path.normalize file.1, file.2)] :=
        List.filter_cons_of_pos (by simpa using mt hempty.1 hne)
      have hadded : (filesUpTo none (insert file.2 "" (Path.segments file.1) (build files))).Perm
          (.file (Path.normalize file.1) file.2 :: filesUpTo none (build files)) :=
        @filesUpTo_insert [] _ (Path.normal_segments file.1) hne file.2 (build files)
      rw [List.map_singleton, hkept, List.map_singleton]
      exact (hadded.trans (ih.cons _)).trans (List.perm_append_singleton _ _).symm

theorem Nested.exists_of_mem_filesUpTo (h : Nested above entries)
    (hfile : file ∈ filesUpTo none entries) :
    ∃ names size, names ≠ [] ∧ Path.Normal (above ++ names) ∧
      file = .file (Path.ofSegments (above ++ names)) size := by
  induction h with
  | nil => cases hfile
  | @file above name rest size hname _ ih =>
    rw [filesUpTo_file hname] at hfile
    rcases List.mem_cons.1 hfile with rfl | hfile
    · exact ⟨[name], size, List.cons_ne_nil _ _, hname, rfl⟩
    · exact ih hfile
  | @folder above name children rest _ _ _ _ _ ihChildren ih =>
    rw [filesUpTo_folder] at hfile
    rcases List.mem_append.1 hfile with hfile | hfile
    · obtain ⟨names, size, -, hnormal, rfl⟩ := ihChildren hfile
      rw [List.append_assoc] at hnormal ⊢
      exact ⟨name :: names, size, List.cons_ne_nil _ _, hnormal, rfl⟩
    · exact ih hfile

theorem Nested.filesUpTo_ne_nil (h : Nested above entries) (hne : entries ≠ []) :
    filesUpTo none entries ≠ [] := by
  induction h with
  | nil => exact absurd rfl hne
  | file size hname _ _ =>
    rw [filesUpTo_file hname]
    exact List.cons_ne_nil _ _
  | folder _ hchildren _ _ _ ih _ =>
    rw [filesUpTo_folder]
    exact List.append_ne_nil_of_left_ne_nil (ih hchildren) _

theorem count_slash_ofSegments (hnormal : Path.Normal segments) (hne : segments ≠ []) :
    (Path.ofSegments segments).toList.count '/' + 1 = segments.length := by
  rw [Path.toList_ofSegments]
  exact Path.count_slash_join hne hnormal.slash_not_mem

theorem Nested.length_le_count_slash (h : Nested above entries)
    (hfile : file ∈ filesUpTo none entries) : above.length ≤ file.path.toList.count '/' := by
  obtain ⟨names, size, hne, hnormal, rfl⟩ := h.exists_of_mem_filesUpTo hfile
  have hcount := count_slash_ofSegments hnormal (List.append_ne_nil_of_right_ne_nil _ hne)
  have hnames := List.length_pos_iff.2 hne
  rw [List.length_append] at hcount
  show above.length ≤ (Path.ofSegments (above ++ names)).toList.count '/'
  omega

/-- The files that are found within a limit are those with few slashes in their paths. -/
theorem Nested.filesUpTo_some (h : Nested above entries) (limit : Nat) :
    filesUpTo (some limit) entries = (filesUpTo none entries).filter fun file =>
      file.path.toList.count '/' ≤ above.length + limit := by
  induction h generalizing limit with
  | nil => rfl
  | @file above name rest size hname _ ih =>
    have hcount := count_slash_ofSegments hname (by simp)
    have hwithin : (Path.ofSegments (above ++ [name])).toList.count '/' ≤ above.length + limit := by
      rw [List.length_append, List.length_singleton] at hcount
      omega
    rw [filesUpTo_file hname, filesUpTo_file hname, ih,
      List.filter_cons_of_pos (by simpa [Entry.file] using hwithin)]
  | @folder above name children rest _ _ hchildren _ _ ihChildren ih =>
    rw [filesUpTo_folder, List.filter_append]
    cases limit with
    | zero =>
      have hnone : ((filesUpTo none children).filter fun file =>
          file.path.toList.count '/' ≤ above.length + 0) = [] := by
        refine List.filter_eq_nil_iff.2 fun file hfile hshallow => ?_
        have hdeep := hchildren.length_le_count_slash hfile
        have hflat := of_decide_eq_true hshallow
        rw [List.length_append, List.length_singleton] at hdeep
        omega
      rw [filesUpTo_folder_zero, ih, hnone, List.nil_append]
    | succ limit =>
      have hlimit := ihChildren limit
      rw [List.length_append, List.length_singleton, Nat.add_right_comm, Nat.add_assoc] at hlimit
      rw [filesUpTo_folder_succ, hlimit, ih]

/-- The lists of entries in a tree, each with the path of the folder that it is in. -/
inductive Siblings (tree : FileTree) : String → List Entry → Prop where
  | root : Siblings tree "" tree
  | inside {above : String} {entries : List Entry} {entry : Entry} (h : Siblings tree above entries)
      (hentry : entry ∈ entries) (hkind : entry.kind = .folder) :
      Siblings tree entry.path entry.children

/-- Entries that stand where their paths say, in a folder of the path `above`. -/
structure Placed (above : String) (entries : List Entry) : Prop where
  path_eq : ∀ entry ∈ entries, entry.path = Path.below above entry.name
  isName : ∀ entry ∈ entries, Disk.IsName entry.name
  children_ne_nil : ∀ entry ∈ entries, entry.kind = .folder → entry.children ≠ []
  handle?_eq : ∀ entry ∈ entries, entry.kind = .file → entry.handle? = some entry.path
  nodup_folders : ((entries.filter (·.kind = .folder)).map (·.path)).Nodup

theorem Nested.cases_of_mem (h : Nested above entries) (hentry : entry ∈ entries) :
    ∃ name, Path.Normal (above ++ [name]) ∧
      ((∃ size, entry = .file (Path.ofSegments (above ++ [name])) size) ∨
        ∃ children, children ≠ [] ∧ Nested (above ++ [name]) children ∧
          entry = .folder (Path.ofSegments (above ++ [name])) children) := by
  induction h with
  | nil => cases hentry
  | @file above name rest size hname _ ih =>
    rcases List.mem_cons.1 hentry with rfl | hentry
    · exact ⟨name, hname, .inl ⟨size, rfl⟩⟩
    · exact ih hentry
  | @folder above name children rest hname hne hchildren _ _ _ ih =>
    rcases List.mem_cons.1 hentry with rfl | hentry
    · exact ⟨name, hname, .inr ⟨children, hne, hchildren, rfl⟩⟩
    · exact ih hentry

theorem Siblings.exists_nested {tree : FileTree} {above : String} (h : Siblings tree above entries)
    (htree : Nested [] tree) :
    ∃ segments, above = Path.ofSegments segments ∧ Nested segments entries := by
  induction h with
  | root => exact ⟨[], rfl, htree⟩
  | inside _ hentry hkind ih =>
    obtain ⟨segments, -, hnested⟩ := ih
    obtain ⟨name, -, ⟨size, rfl⟩ | ⟨children, -, hchildren, rfl⟩⟩ := hnested.cases_of_mem hentry
    · cases hkind
    · exact ⟨segments ++ [name], rfl, hchildren⟩

theorem Nested.nodup_folders (h : Nested above entries) :
    ((entries.filter (·.kind = .folder)).map (·.path)).Nodup := by
  induction h with
  | nil => exact List.nodup_nil
  | file size hname _ ih => exact ih
  | folder hname _ _ hnew _ _ ih =>
    refine List.nodup_cons.2 ⟨fun hmem => ?_, ih⟩
    obtain ⟨entry, hentry, hpath⟩ := List.mem_map.1 hmem
    obtain ⟨hentry, hkind⟩ := List.mem_filter.1 hentry
    exact hnew entry hentry ⟨of_decide_eq_true hkind, hpath⟩

theorem Nested.exists_name (h : Nested above entries) (hentry : entry ∈ entries) :
    ∃ name, Path.Normal (above ++ [name]) ∧ entry.path = Path.ofSegments (above ++ [name]) ∧
      entry.name = String.ofList name := by
  obtain ⟨name, hnormal, hcases⟩ := h.cases_of_mem hentry
  have hname : Path.fileName (Path.ofSegments (above ++ [name])) = String.ofList name :=
    Path.fileName_ofSegments hnormal.slash_not_mem
  obtain ⟨size, rfl⟩ | ⟨children, -, -, rfl⟩ := hcases
  · exact ⟨name, hnormal, rfl, hname⟩
  · exact ⟨name, hnormal, rfl, hname⟩

theorem Nested.placed (h : Nested above entries) : Placed (Path.ofSegments above) entries where
  path_eq entry hentry := by
    obtain ⟨name, hnormal, hpath, hname⟩ := h.exists_name hentry
    rw [hpath, hname, Path.below_ofSegments hnormal.of_append.nil_not_mem]
  isName entry hentry := by
    obtain ⟨name, hnormal, -, hname⟩ := h.exists_name hentry
    have hmem : name ∈ above ++ [name] := List.mem_append_right _ List.mem_cons_self
    rw [hname]
    constructor
    · intro hempty
      rw [← String.toList_inj, String.toList_ofList] at hempty
      exact hnormal.nil_not_mem (hempty ▸ hmem)
    · rw [String.toList_ofList]
      exact hnormal.slash_not_mem name hmem
  children_ne_nil entry hentry hkind := by
    obtain ⟨name, -, ⟨size, rfl⟩ | ⟨children, hne, -, rfl⟩⟩ := h.cases_of_mem hentry
    · cases hkind
    · exact hne
  handle?_eq entry hentry hkind := by
    obtain ⟨name, -, ⟨size, rfl⟩ | ⟨children, -, -, rfl⟩⟩ := h.cases_of_mem hentry
    · rfl
    · cases hkind
  nodup_folders := h.nodup_folders

/-- What a built tree holds, where it stands, and what is found in it within a limit. -/
theorem build_lossless (files : List (String × UInt64)) :
    let tree := build files
    ((tree.flatten none).files.map fun file => (file.path, file.size)).Perm
      ((files.map fun file => (Path.normalize file.1, file.2)).filter (·.1 ≠ "")) ∧
    (∀ above entries, Siblings tree above entries → Placed above entries) ∧
    ∀ limit, (tree.flatten (some limit)).files =
      (tree.flatten none).files.filter fun file => file.path.toList.count '/' ≤ limit := by
  intro tree
  refine ⟨?_, fun above entries hsiblings => ?_, fun limit => ?_⟩
  · have hfiles := (filesUpTo_build files).map fun file => (file.path, file.size)
    rw [List.map_map] at hfiles
    exact hfiles.trans (.of_eq (List.map_id _))
  · obtain ⟨segments, rfl, hnested⟩ := hsiblings.exists_nested (nested_build files)
    exact hnested.placed
  · have hfiles := (nested_build files).filesUpTo_some limit
    rw [List.length_nil, Nat.zero_add] at hfiles
    exact hfiles

example : ((build [("a/x", 1), ("b", 2), ("./a//y", 3), ("..", 4), ("a", 5)]).flatten none).files.map
    (·.path) = ["a/x", "a/y", "b", "..", "a"] := by
  decide +kernel

end FileTree

end CodeGraph
