import CodeGraph.Proofs.Tree.Nested

/-! A tree that is built from paths comes out again when it is built from the files that are found
in it. The files of a folder are found one after the other, so the folder is added where it stood. -/
namespace CodeGraph.FileTree

def place (above : List Path.Segment) (entries : List Entry) (file : Entry) : List Entry :=
  insert file.size (Path.ofSegments above) ((Path.segments file.path).drop above.length) entries

variable {above names : List Path.Segment} {name : Path.Segment} {path : String}
  {first : Entry} {before entries files rest : List Entry}

theorem place_file (hname : Path.Normal (above ++ [name])) (entries : List Entry) (size : UInt64) :
    place above entries (.file (Path.ofSegments (above ++ [name])) size) =
      entries ++ [.file (Path.ofSegments (above ++ [name])) size] := by
  have hsegments :
      (Path.segments (Path.ofSegments (above ++ [name]))).drop above.length = [name] := by
    rw [hname.segments_ofSegments, List.drop_left]
  unfold place Entry.file
  rw [hsegments]
  exact insert_file hname size entries

theorem place_below (hnormal : Path.Normal (above ++ [name] ++ names)) (hne : names ≠ [])
    (entries : List Entry) (size : UInt64) :
    place above entries (.file (Path.ofSegments (above ++ [name] ++ names)) size) =
      alterFolder (Path.ofSegments (above ++ [name]))
        (place (above ++ [name]) · (.file (Path.ofSegments (above ++ [name] ++ names)) size))
        entries := by
  have hsegments : (Path.segments (Path.ofSegments (above ++ [name] ++ names))).drop above.length =
      name :: names := by
    rw [hnormal.segments_ofSegments, List.append_assoc, List.drop_left]
    rfl
  have hinside : (Path.segments (Path.ofSegments (above ++ [name] ++ names))).drop
      (above ++ [name]).length = names := by
    rw [hnormal.segments_ofSegments, List.drop_left]
  unfold place Entry.file
  rw [hsegments, hinside]
  exact insert_folder hnormal.of_append hne size entries

/-- What is added to a folder that comes last stays in it. -/
theorem foldl_alterFolder_concat (hnew : ∀ entry ∈ before, ¬ entry.IsFolderAt path)
    (add : List Entry → Entry → List Entry) (children files : List Entry) :
    files.foldl (fun entries file => alterFolder path (add · file) entries)
      (before ++ [.folder path children]) = before ++ [.folder path (files.foldl add children)] := by
  induction files generalizing children with
  | nil => rfl
  | cons file rest ih =>
    rw [List.foldl_cons, alterFolder_append hnew, alterFolder_folder]
    exact ih (add children file)

theorem foldl_alterFolder (hnew : ∀ entry ∈ before, ¬ entry.IsFolderAt path)
    (add : List Entry → Entry → List Entry) (hne : files ≠ []) :
    files.foldl (fun entries file => alterFolder path (add · file) entries) before =
      before ++ [.folder path (files.foldl add [])] := by
  cases files with
  | nil => exact absurd rfl hne
  | cons file rest =>
    -- the first file makes the folder
    have hfirst : alterFolder path (add · file) before =
        before ++ [.folder path (add [] file)] := by
      have happend := alterFolder_append hnew (add · file) []
      rwa [List.append_nil] at happend
    rw [List.foldl_cons, hfirst, foldl_alterFolder_concat hnew]
    rfl

/-- The files of a folder, added where it is missing, make the folder. -/
theorem foldl_place_below (hchildren : Nested (above ++ [name]) entries) (hne : entries ≠ [])
    (hnew : ∀ old ∈ before, ¬ old.IsFolderAt (Path.ofSegments (above ++ [name]))) :
    (filesUpTo none entries).foldl (place above) before = before ++
      [.folder (Path.ofSegments (above ++ [name]))
        ((filesUpTo none entries).foldl (place (above ++ [name])) [])] := by
  have hinside : ∀ tree, ∀ file ∈ filesUpTo none entries, place above tree file =
      alterFolder (Path.ofSegments (above ++ [name])) (place (above ++ [name]) · file) tree := by
    intro tree file hfile
    obtain ⟨names, size, hnames, hnormal, rfl⟩ := hchildren.exists_of_mem_filesUpTo hfile
    exact place_below hnormal hnames tree size
  rw [List.foldl_ext _ _ _ hinside]
  exact foldl_alterFolder hnew _ (hchildren.filesUpTo_ne_nil hne)

/-- Whether the folders among some entries are missing from those before them. -/
def Missing (before entries : List Entry) : Prop :=
  ∀ old ∈ before, ∀ entry ∈ entries, entry.kind = .folder → ¬ old.IsFolderAt entry.path

theorem Missing.concat (h : Missing before (first :: rest))
    (hfirst : ∀ entry ∈ rest, entry.kind = .folder → ¬ first.IsFolderAt entry.path) :
    Missing (before ++ [first]) rest := by
  intro old hold entry hentry hkind
  rcases List.mem_append.1 hold with hold | hold
  · exact h old hold entry (List.mem_cons_of_mem _ hentry) hkind
  · rw [List.mem_singleton.1 hold]
    exact hfirst entry hentry hkind

/-- The files of some entries, added behind others, give the entries. -/
theorem Nested.foldl_place (h : Nested above entries) (hmissing : Missing before entries) :
    (filesUpTo none entries).foldl (place above) before = before ++ entries := by
  induction h generalizing before with
  | nil => exact (List.append_nil _).symm
  | @file above name rest size hname _ ih =>
    have hrest := hmissing.concat fun _ _ _ => Entry.not_isFolderAt_file _ _ _
    rw [filesUpTo_file hname, List.foldl_cons, place_file hname, ih hrest, List.append_assoc,
      List.singleton_append]
  | @folder above name children rest _ hne hchildren hnew _ ihChildren ih =>
    have hnone : Missing [] children := fun _ hold => absurd hold List.not_mem_nil
    have hrest := hmissing.concat fun entry hentry hkind hsame =>
      hnew entry hentry ⟨hkind, hsame.2.symm⟩
    have hfolder := foldl_place_below hchildren hne fun old hold =>
      hmissing old hold _ List.mem_cons_self rfl
    rw [ihChildren hnone, List.nil_append] at hfolder
    rw [filesUpTo_folder, List.foldl_append, hfolder, ih hrest, List.append_assoc,
      List.singleton_append]

/-- Building a tree from the files that are found in a built tree gives the same tree. -/
theorem build_flatten (files : List (String × UInt64)) :
    build (((build files).flatten none).files.map fun file => (file.path, file.size)) =
      build files := by
  have hplaced : (filesUpTo none (build files)).foldl (place []) [] = build files :=
    (nested_build files).foldl_place fun _ hold => absurd hold List.not_mem_nil
  conv_rhs => rw [← hplaced]
  exact List.foldl_map

end CodeGraph.FileTree
