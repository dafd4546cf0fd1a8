import CodeGraph.Disk.Basic
import CodeGraph.Proofs.Path.Segment

/-! Paths on a disk: the names between their slashes, and what becomes of them when paths are joined
and taken apart again. -/
namespace CodeGraph

namespace Disk

structure IsName (name : String) : Prop where
  ne_empty : name ≠ ""
  slash : '/' ∉ name.toList

def names (path : String) : List String := (parts path).filter (· ≠ "")

theorem isName_of_mem_names {path name : String} (h : name ∈ names path) : IsName name := by
  obtain ⟨hpart, hne⟩ := List.mem_filter.1 h
  obtain ⟨segment, hsegment, rfl⟩ := List.mem_map.1 hpart
  refine ⟨by simpa using hne, ?_⟩
  rw [String.toList_ofList]
  exact Path.not_mem_of_mem_split hsegment

theorem parts_append_slash (folder path : String) :
    parts (folder ++ "/" ++ path) = parts folder ++ parts path := by
  have htext : (folder ++ "/" ++ path).toList = folder.toList ++ '/' :: path.toList := by simp
  unfold parts
  rw [htext, Path.split_append_slash, List.map_append]

theorem parts_ne_nil (path : String) : parts path ≠ [] :=
  mt List.map_eq_nil_iff.1 (Path.split_ne_nil path.toList)

theorem parts_name {name : String} (h : IsName name) : parts name = [name] := by
  unfold parts
  rw [Path.split_of_not_mem h.slash, List.map_singleton, String.ofList_toList]

theorem names_name {name : String} (h : IsName name) : names name = [name] := by
  unfold names
  rw [parts_name h, List.filter_cons_of_pos (by simpa using h.ne_empty), List.filter_nil]

theorem names_append_slash (folder : String) : names (folder ++ "/") = names folder := by
  have hfolder := parts_append_slash folder ""
  rw [String.append_empty] at hfolder
  unfold names
  rw [hfolder, List.filter_append]
  exact List.append_nil _

theorem exists_of_endsWith_slash {path : String} (h : path.endsWith "/") :
    ∃ folder, path = folder ++ "/" := by
  rw [String.endsWith_eq_endsWith_toSlice, String.Slice.endsWith_string_iff,
    String.copy_toSlice] at h
  obtain ⟨text, htext⟩ := h
  refine ⟨String.ofList text, ?_⟩
  rw [← String.toList_inj, ← htext, String.toList_append, String.toList_ofList, String.toList_ofList]

/-- The parts of a path that ends with a name: those of its folder, and the name. -/
theorem parts_joined (folder : String) {name : String} (h : IsName name) :
    ∃ above, parts (Path.joined folder name) = above ++ [name] ∧
      above.filter (· ≠ "") = names folder := by
  unfold Path.joined
  split_ifs with hend
  · rcases hend with hempty | hend
    · rw [String.isEmpty_iff.1 hempty, String.empty_append]
      exact ⟨[], parts_name h, rfl⟩
    · obtain ⟨text, rfl⟩ := exists_of_endsWith_slash hend
      refine ⟨parts text, ?_, ?_⟩
      · rw [parts_append_slash, parts_name h]
      · rw [names_append_slash]
        rfl
  · exact ⟨parts folder, by rw [parts_append_slash, parts_name h], rfl⟩

theorem names_joined (folder : String) {name : String} (h : IsName name) :
    names (Path.joined folder name) = names folder ++ [name] := by
  obtain ⟨above, hparts, habove⟩ := parts_joined folder h
  unfold names
  rw [hparts, List.filter_append, habove, List.filter_cons_of_pos (by simpa using h.ne_empty)]
  rfl

theorem parts_intercalate {name : String} {list : List String} (h : ∀ name ∈ list, IsName name)
    (hname : IsName name) : parts ("/".intercalate (name :: list)) = name :: list := by
  induction list generalizing name with
  | nil => rw [String.intercalate_singleton, parts_name hname]
  | cons next list ih =>
    rw [String.intercalate_cons_cons, parts_append_slash, parts_name hname,
      ih (fun other hother => h other (List.mem_cons_of_mem _ hother)) (h next List.mem_cons_self)]
    rfl

theorem nameError?_eq_none_iff {name : String} :
    nameError? name = none ↔ '\x00' ∉ name.toList ∧ name.utf8ByteSize ≤ 255 := by
  have hcontains : name.contains '\x00' ↔ '\x00' ∈ name.toList := by
    simp [String.contains_char_eq]
  unfold nameError?
  split_ifs with hnul hsize
  · exact iff_of_false nofun fun h => h.1 (hcontains.1 hnul)
  · exact iff_of_false nofun fun h => absurd h.2 (Nat.not_le.2 hsize)
  · exact iff_of_true rfl ⟨mt hcontains.2 hnul, Nat.not_lt.1 hsize⟩

theorem nameError?_eq_none {name : String} (hnul : '\x00' ∉ name.toList)
    (hsize : name.utf8ByteSize ≤ 255) : nameError? name = none :=
  nameError?_eq_none_iff.2 ⟨hnul, hsize⟩

theorem nameError?_eq_tooLong {name : String} (hnul : '\x00' ∉ name.toList)
    (hsize : 255 < name.utf8ByteSize) : nameError? name = some .nameTooLong := by
  have hcontains : ¬ name.contains '\x00' := by simpa [String.contains_char_eq] using hnul
  rw [nameError?, if_neg hcontains, if_pos hsize]

end Disk

namespace Path

open Disk

theorem components_of_parts {path first : String} {rest : List String} (hne : path ≠ "")
    (hparts : parts path = first :: rest) : components path =
      (if first = "" then "/" else first) :: rest.filter fun part => part ≠ "" ∧ part ≠ "." := by
  have hempty : path.isEmpty = false := by simpa using hne
  rw [components, hempty, hparts]

/-- The components of a path that ends with a name: those of its folder, and the name. -/
theorem components_joined (folder : String) {name : String} (h : IsName name) (hdot : name ≠ ".") :
    components (joined folder name) = components folder ++ [name] := by
  have hname := h.ne_empty
  unfold joined
  split_ifs with hend
  · rcases hend with hempty | hend
    · rw [String.isEmpty_iff.1 hempty, String.empty_append,
        components_of_parts hname (parts_name h), if_neg hname]
      rfl
    · obtain ⟨text, rfl⟩ := exists_of_endsWith_slash hend
      obtain ⟨first, rest, htext⟩ := List.exists_cons_of_ne_nil (parts_ne_nil text)
      have hfolder : parts (text ++ "/") = first :: (rest ++ [""]) := by
        have hslash := parts_append_slash text ""
        rwa [String.append_empty, htext] at hslash
      have hpath : parts (text ++ "/" ++ name) = first :: (rest ++ [name]) := by
        rw [parts_append_slash, htext, parts_name h, List.cons_append]
      rw [components_of_parts (by simp) hpath, components_of_parts (by simp) hfolder]
      simp [List.filter_append, hname, hdot]
  · obtain ⟨first, rest, hfolder⟩ := List.exists_cons_of_ne_nil (parts_ne_nil folder)
    have hne : folder ≠ "" := fun hempty => hend (.inl (String.isEmpty_iff.2 hempty))
    have hpath : parts (folder ++ "/" ++ name) = first :: (rest ++ [name]) := by
      rw [parts_append_slash, hfolder, parts_name h, List.cons_append]
    rw [components_of_parts (by simp) hpath, components_of_parts hne hfolder]
    simp [List.filter_append, hname, hdot]

end Path

end CodeGraph
