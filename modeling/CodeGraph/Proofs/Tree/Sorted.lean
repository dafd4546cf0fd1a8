import CodeGraph.Proofs.Text.Byte
import CodeGraph.Proofs.Tree.Nested

/-! Trees of sorted lists. In the order of their bytes, the paths below a folder stand next to each
other, so a file is always added to the folder that comes last or to a new one, and the files come
out of the tree in the order in which they went in. -/
namespace CodeGraph

namespace Path

variable {folder segments : List Segment} {path : String}

/-- Whether a path leads below a folder. -/
def Beneath (folder : List Segment) (path : String) : Prop := join folder ++ ['/'] <+: path.toList

theorem beneath_ofSegments_iff (hne : folder ≠ []) (hfolder : ∀ segment ∈ folder, '/' ∉ segment)
    (hsegments : ∀ segment ∈ segments, '/' ∉ segment) :
    Beneath folder (ofSegments segments) ↔ ∃ names, names ≠ [] ∧ segments = folder ++ names := by
  unfold Beneath
  rw [toList_ofSegments]
  constructor
  · rintro ⟨rest, hjoin⟩
    rw [List.append_assoc, List.singleton_append] at hjoin
    have hsplit := split_append_slash (join folder) rest
    have hsegmentsNe : segments ≠ [] := by
      rintro rfl
      exact List.append_ne_nil_of_right_ne_nil _ (List.cons_ne_nil _ _) hjoin
    rw [hjoin, split_join hsegmentsNe hsegments, split_join hne hfolder] at hsplit
    exact ⟨split rest, split_ne_nil rest, hsplit⟩
  · rintro ⟨names, hnames, rfl⟩
    refine ⟨join names, ?_⟩
    rw [join_append hne hnames, List.append_assoc, List.singleton_append]

theorem Normal.beneath (h : Normal (folder ++ segments)) (hfolder : folder ≠ [])
    (hne : segments ≠ []) : Beneath folder (ofSegments (folder ++ segments)) :=
  (beneath_ofSegments_iff hfolder h.of_append.slash_not_mem h.slash_not_mem).2 ⟨segments, hne, rfl⟩

/-- Texts between two that begin with the same text begin with it, too. -/
theorem isPrefix_of_between {start least text greatest : List Char} (hleast : start <+: least)
    (hgreatest : start <+: greatest) (hle : ¬ text < least) (hge : ¬ greatest < text) :
    start <+: text := by
  induction start generalizing least text greatest with
  | nil => exact List.nil_prefix
  | cons c start ih =>
    obtain ⟨rest, rfl⟩ := hleast
    obtain ⟨more, rfl⟩ := hgreatest
    cases text with
    | nil => exact absurd (List.nil_lt_cons _ _) hle
    | cons d text =>
      rw [List.cons_append, List.cons_lt_cons_iff, not_or, not_and] at hle hge
      obtain rfl : c = d := le_antisymm (not_lt.1 hle.1) (not_lt.1 hge.1)
      have htext := ih (List.prefix_append start rest) (List.prefix_append start more)
        (hle.2 rfl) (hge.2 rfl)
      exact List.cons_prefix_cons.2 ⟨rfl, htext⟩

theorem Beneath.of_between {least greatest : String} (hleast : Beneath folder least)
    (hgreatest : Beneath folder greatest) (hle : least ≤ path) (hge : path ≤ greatest) :
    Beneath folder path :=
  isPrefix_of_between hleast hgreatest (mt String.lt_iff_toList_lt.2 (not_lt.2 hle))
    (mt String.lt_iff_toList_lt.2 (not_lt.2 hge))

end Path

namespace FileTree

variable {above segments : List Path.Segment} {name : Path.Segment} {path : String}
  {file : Entry} {entries children before : List Entry}

/-- Whether a path can stand behind some files: the folders that it shares with any of them it
shares with the last one. -/
def Adjoins (files : List Entry) (path : String) : Prop :=
  ∀ folder, Path.Beneath folder path → (∃ file ∈ files, Path.Beneath folder file.path) →
    ∀ last ∈ files.getLast?, Path.Beneath folder last.path

theorem Adjoins.of_append {files more : List Entry} (h : Adjoins (files ++ more) path) :
    Adjoins more path := by
  rintro folder hpath ⟨file, hfile, hbeneath⟩ last hlast
  have hne : more ≠ [] := List.ne_nil_of_mem hfile
  refine h folder hpath ⟨file, List.mem_append_right files hfile, hbeneath⟩ last ?_
  rwa [List.getLast?_append_of_ne_nil _ hne]

theorem Nested.beneath (h : Nested (above ++ [name]) children)
    (hfile : file ∈ filesUpTo none children) : Path.Beneath (above ++ [name]) file.path := by
  obtain ⟨names, size, hne, hnormal, rfl⟩ := h.exists_of_mem_filesUpTo hfile
  exact hnormal.beneath (List.concat_ne_nil _ _) hne

/-- A file below a folder is found in this folder. -/
theorem Nested.exists_folder (h : Nested above entries) (hfile : file ∈ filesUpTo none entries)
    (hfolder : ∀ segment ∈ above ++ [name], '/' ∉ segment)
    (hbeneath : Path.Beneath (above ++ [name]) file.path) :
    ∃ entry ∈ entries, entry.IsFolderAt (Path.ofSegments (above ++ [name])) := by
  induction h with
  | nil => cases hfile
  | @file above other rest size hother _ ih =>
    rw [filesUpTo_file hother] at hfile
    rcases List.mem_cons.1 hfile with rfl | hfile
    · obtain ⟨names, hne, hsegments⟩ :=
        (Path.beneath_ofSegments_iff (by simp) hfolder hother.slash_not_mem).1 hbeneath
      have hlength := congrArg List.length hsegments
      have hnames := List.length_pos_iff.2 hne
      simp only [List.length_append, List.length_singleton] at hlength
      omega
    · obtain ⟨entry, hentry, hat⟩ := ih hfile hfolder hbeneath
      exact ⟨entry, List.mem_cons_of_mem _ hentry, hat⟩
  | @folder above other children rest hother _ hchildren _ _ _ ih =>
    rw [filesUpTo_folder] at hfile
    rcases List.mem_append.1 hfile with hfile | hfile
    · obtain ⟨names, size, hne, hnormal, rfl⟩ := hchildren.exists_of_mem_filesUpTo hfile
      obtain ⟨more, -, hsegments⟩ :=
        (Path.beneath_ofSegments_iff (by simp) hfolder hnormal.slash_not_mem).1 hbeneath
      obtain rfl : other = name := by
        rw [List.append_assoc, List.append_assoc] at hsegments
        exact (List.cons.inj (List.append_cancel_left hsegments)).1
      exact ⟨_, List.mem_cons_self, rfl, rfl⟩
    · obtain ⟨entry, hentry, hat⟩ := ih hfile hfolder hbeneath
      exact ⟨entry, List.mem_cons_of_mem _ hentry, hat⟩

/-- If a path below a folder can stand behind the files, nothing comes behind the folder: files
there would lie in it as well. -/
theorem Nested.eq_nil_of_adjoins {rest : List Entry} (h : Nested (above ++ [name]) children)
    (hne : children ≠ []) (hrest : Nested above rest)
    (hnew : ∀ entry ∈ rest, ¬ entry.IsFolderAt (Path.ofSegments (above ++ [name])))
    (hname : Path.Normal (above ++ [name])) (hpath : Path.Beneath (above ++ [name]) path)
    (hadjoins : Adjoins (filesUpTo none children ++ filesUpTo none rest) path) : rest = [] := by
  by_contra hrestNe
  have hfiles := hrest.filesUpTo_ne_nil hrestNe
  obtain ⟨first, hfirst⟩ := List.exists_mem_of_ne_nil _ (h.filesUpTo_ne_nil hne)
  obtain ⟨last, hlast⟩ := Option.ne_none_iff_exists'.1 (mt List.getLast?_eq_none_iff.1 hfiles)
  have hbeneath : Path.Beneath (above ++ [name]) last.path := by
    refine hadjoins _ hpath ⟨first, List.mem_append_left _ hfirst, h.beneath hfirst⟩ last ?_
    rwa [List.getLast?_append_of_ne_nil _ hfiles]
  obtain ⟨entry, hentry, hat⟩ :=
    hrest.exists_folder (List.mem_of_getLast? hlast) hname.slash_not_mem hbeneath
  exact hnew entry hentry hat

/-- A folder that is changed comes last, or is new. -/
theorem filesUpTo_alterFolder_of_adjoins (h : Nested above entries)
    (hname : Path.Normal (above ++ [name])) (hpath : Path.Beneath (above ++ [name]) path)
    (hadjoins : Adjoins (filesUpTo none entries) path) {change : List Entry → List Entry}
    (hchange : ∀ children, Nested (above ++ [name]) children →
      Adjoins (filesUpTo none children) path →
      filesUpTo none (change children) = filesUpTo none children ++ [file]) :
    filesUpTo none (alterFolder (Path.ofSegments (above ++ [name])) change entries) =
      filesUpTo none entries ++ [file] := by
  induction h with
  | nil above =>
    have hnone : Adjoins (filesUpTo none []) path := by
      rintro folder - ⟨file, hfile, -⟩
      cases hfile
    rw [alterFolder, filesUpTo_folder, hchange [] (.nil _) hnone]
    rfl
  | @file above other rest size hother _ ih =>
    have hrest : Adjoins (filesUpTo none rest) path := by
      rw [filesUpTo_file hother] at hadjoins
      exact @Adjoins.of_append _ [_] _ hadjoins
    rw [alterFolder_cons (Entry.not_isFolderAt_file _ _ _), filesUpTo_file hother,
      filesUpTo_file hother, ih hname hpath hrest hchange]
    rfl
  | @folder above other children rest hother hne hchildren hnew hnested _ ih =>
    rw [filesUpTo_folder] at hadjoins
    rcases eq_or_ne other name with rfl | hdifferent
    -- the path goes on where the files end, so nothing comes after its folder
    · obtain rfl := hchildren.eq_nil_of_adjoins hne hnested hnew hname hpath hadjoins
      have hinside : Adjoins (filesUpTo none children) path := by
        rwa [filesUpTo, List.append_nil] at hadjoins
      rw [alterFolder_folder, filesUpTo_folder, filesUpTo_folder,
        hchange children hchildren hinside, filesUpTo, List.append_nil, List.append_nil]
    · have hat : ¬ (Entry.folder (Path.ofSegments (above ++ [other])) children).IsFolderAt
          (Path.ofSegments (above ++ [name])) := by
        intro hat
        have hsegments := (hother.ofSegments_inj hname).1 hat.2
        exact hdifferent (List.singleton_inj.1 (List.append_cancel_left hsegments))
      rw [alterFolder_cons hat, filesUpTo_folder, filesUpTo_folder,
        ih hname hpath hadjoins.of_append hchange, List.append_assoc]

/-- A file whose path can stand behind the files that are there is found behind them. -/
theorem filesUpTo_insert_of_adjoins (h : Nested above entries)
    (hnormal : Path.Normal (above ++ segments)) (hne : segments ≠ []) (size : UInt64)
    (hadjoins : Adjoins (filesUpTo none entries) (Path.ofSegments (above ++ segments))) :
    filesUpTo none (insert size (Path.ofSegments above) segments entries) =
      filesUpTo none entries ++ [.file (Path.ofSegments (above ++ segments)) size] := by
  induction segments generalizing above entries with
  | nil => exact absurd rfl hne
  | cons name segments ih =>
    have hcons : above ++ name :: segments = above ++ [name] ++ segments := List.append_cons ..
    rw [hcons] at hnormal hadjoins ⊢
    rcases eq_or_ne segments [] with rfl | hsegments
    · rw [List.append_nil] at hnormal ⊢
      rw [insert_file hnormal, filesUpTo_append, filesUpTo_file hnormal]
      rfl
    · have hpath := hnormal.beneath (List.concat_ne_nil _ _) hsegments
      rw [insert_folder hnormal.of_append hsegments]
      exact filesUpTo_alterFolder_of_adjoins h hnormal.of_append hpath hadjoins
        fun children hchildren => ih hchildren hnormal hsegments

variable {files : List (String × UInt64)}

/-- In a sorted list, the path of each file can stand behind those before it. -/
theorem adjoins_of_sorted {file : String × UInt64}
    (hsorted : (files ++ [file]).Pairwise fun first second => first.1 ≤ second.1) :
    Adjoins (files.map fun file => .file file.1 file.2) file.1 := by
  obtain ⟨hfiles, -, hfile⟩ := List.pairwise_append.1 hsorted
  rintro folder hbeneath ⟨_, hmem, hother⟩ last hlast
  obtain ⟨other, hotherFile, rfl⟩ := List.mem_map.1 hmem
  rw [List.getLast?_map] at hlast
  obtain ⟨last, hlastFile, rfl⟩ := Option.mem_map.1 hlast
  obtain ⟨before, rfl⟩ := List.getLast?_eq_some_iff.1 hlastFile
  have hle : last.1 ≤ file.1 := hfile last (by simp) file List.mem_cons_self
  rcases List.mem_append.1 hotherFile with hmem | hmem
  · have hless := (List.pairwise_append.1 hfiles).2.2 other hmem last List.mem_cons_self
    exact hother.of_between hbeneath hless hle
  · rwa [List.mem_singleton.1 hmem] at hother

/-- Whether a list is sorted, and holds paths in normal form that lead somewhere. -/
structure Sorted (files : List (String × UInt64)) : Prop where
  pairwise : files.Pairwise fun first second => first.1 ≤ second.1
  normal : ∀ file ∈ files, Path.normalize file.1 = file.1
  ne_empty : ∀ file ∈ files, file.1 ≠ ""

theorem Sorted.of_append {more : List (String × UInt64)} (h : Sorted (files ++ more)) :
    Sorted files where
  pairwise := (List.pairwise_append.1 h.pairwise).1
  normal file hfile := h.normal file (List.mem_append_left more hfile)
  ne_empty file hfile := h.ne_empty file (List.mem_append_left more hfile)

theorem filesUpTo_build_of_sorted (h : Sorted files) :
    filesUpTo none (build files) = files.map fun file => .file file.1 file.2 := by
  induction files using List.reverseRecOn with
  | nil => rfl
  | append_singleton files file ih =>
    have hmem : file ∈ files ++ [file] := by simp
    have hpath : Path.ofSegments (Path.segments file.1) = file.1 := h.normal file hmem
    have hne : Path.segments file.1 ≠ [] := by
      rw [Ne, ← Path.normalize_eq_empty_iff, h.normal file hmem]
      exact h.ne_empty file hmem
    have hfiles := ih h.of_append
    have hadjoins := adjoins_of_sorted h.pairwise
    rw [← hfiles, ← hpath] at hadjoins
    have hinsert : filesUpTo none (insert file.2 "" (Path.segments file.1) (build files)) =
        filesUpTo none (build files) ++ [.file (Path.ofSegments (Path.segments file.1)) file.2] :=
      @filesUpTo_insert_of_adjoins [] (Path.segments file.1) _ (nested_build files)
        (Path.normal_segments file.1) hne file.2 hadjoins
    rw [build_concat, hinsert, hpath, hfiles, List.map_append]
    rfl

/-- A list that is sorted by the bytes of its paths comes out of its tree as it was. -/
theorem flatten_build_of_sorted (files : List (String × UInt64))
    (hsorted : files.Pairwise fun first second =>
      first.1.toUTF8.toList ≤ second.1.toUTF8.toList)
    (hnormal : ∀ file ∈ files, file.1 ≠ "" ∧ Path.normalize file.1 = file.1) :
    ((build files).flatten none).files.map (fun file => (file.path, file.size)) = files := by
  have hfiles : Sorted files :=
    { pairwise := hsorted.imp Text.toUTF8_le_iff.1
      normal := fun file hfile => (hnormal file hfile).2
      ne_empty := fun file hfile => (hnormal file hfile).1 }
  have hbuild : ((build files).flatten none).files = files.map fun file => .file file.1 file.2 :=
    filesUpTo_build_of_sorted hfiles
  rw [hbuild, List.map_map]
  exact List.map_id files

/-- Files beside a folder whose names go on with bytes below and above the slash, one of them with
the path of the folder. -/
def besideFolder : List (String × UInt64) :=
  [("a", 1), ("a-b", 2), ("a.c", 3), ("a/b", 4), ("a/b.d/e", 5), ("a/b/c", 6), ("a/c", 7), ("a0", 8)]

theorem flatten_build_besideFolder :
    (besideFolder.Pairwise fun first second =>
      first.1.toUTF8.toList ≤ second.1.toUTF8.toList) ∧
    (∀ file ∈ besideFolder, file.1 ≠ "" ∧ Path.normalize file.1 = file.1) ∧
    ((build besideFolder).flatten none).files.map (fun file => (file.path, file.size)) =
      besideFolder := by
  have hsorted : besideFolder.Pairwise fun first second =>
      first.1.toUTF8.toList ≤ second.1.toUTF8.toList := by
    simp only [Text.toUTF8_le_iff]
    decide +kernel
  have hnormal : ∀ file ∈ besideFolder, file.1 ≠ "" ∧ Path.normalize file.1 = file.1 := by
    decide +kernel
  exact ⟨hsorted, hnormal, flatten_build_of_sorted besideFolder hsorted hnormal⟩

end FileTree

end CodeGraph
