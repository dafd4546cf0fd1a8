import CodeGraph.Graph.Basic
import Mathlib

/-! The ids of files, classes and functions tell them apart as long as no path has two colons in a
row, since the first two colons of an id then stand right behind the path. -/
namespace CodeGraph

namespace Path

/-- A path without two colons in a row. -/
def Plain (path : String) : Prop := ¬ [':', ':'] <:+: path.toList

instance (path : String) : Decidable (Plain path) :=
  inferInstanceAs (Decidable (¬ [':', ':'] <:+: path.toList))

private theorem overhang_eq_nil {path overhang rest more : List Char}
    (hpath : ¬ [':', ':'] <:+: path ++ overhang) (hrest : rest.head? ≠ some ':')
    (h : ':' :: ':' :: rest = overhang ++ ':' :: ':' :: more) : overhang = [] := by
  match overhang with
  | [] => rfl
  | [c] =>
    -- a third colon would have to follow the two
    obtain ⟨-, h⟩ := List.cons.inj h
    obtain ⟨-, rfl⟩ := List.cons.inj h
    exact absurd rfl hrest
  | c :: d :: tail =>
    -- the longer path would hold the two colons itself
    obtain ⟨hc, h⟩ := List.cons.inj h
    obtain ⟨hd, -⟩ := List.cons.inj h
    refine absurd ⟨path, tail, ?_⟩ hpath
    rw [← hc, ← hd, List.append_assoc]
    rfl

/-- The first two colons in a row end a plain path. -/
theorem Plain.append_colons_inj {path other rest more : String} (hpath : Plain path)
    (hother : Plain other) (hrest : rest.toList.head? ≠ some ':')
    (hmore : more.toList.head? ≠ some ':') :
    path ++ "::" ++ rest = other ++ "::" ++ more ↔ path = other ∧ rest = more := by
  constructor
  · intro h
    have hlist : path.toList ++ ':' :: ':' :: rest.toList =
        other.toList ++ ':' :: ':' :: more.toList := by
      simpa using congrArg String.toList h
    have hsame : path.toList = other.toList := by
      unfold Plain at hpath hother
      rcases List.append_eq_append_iff.1 hlist with ⟨overhang, hlonger, hover⟩ |
        ⟨overhang, hlonger, hover⟩
      · rw [hlonger] at hother
        rw [hlonger, overhang_eq_nil hother hrest hover, List.append_nil]
      · rw [hlonger] at hpath
        rw [hlonger, overhang_eq_nil hpath hmore hover, List.append_nil]
    rw [hsame] at hlist
    exact ⟨String.toList_inj.1 hsame, String.toList_inj.1 (by simpa using hlist)⟩
  · rintro ⟨rfl, rfl⟩
    rfl

theorem Plain.append_colons_ne {path : String} (hpath : Plain path) (other rest : String) :
    other ++ "::" ++ rest ≠ path := by
  rintro rfl
  exact hpath ⟨other.toList, rest.toList, by simp⟩

end Path

namespace Node

variable {path other name otherName : String}

private theorem typeId_eq (path name : String) :
    typeId path name = path ++ "::" ++ ("class::" ++ name) :=
  String.toList_inj.1 (by simp [typeId])

private theorem functionId_eq (path name : String) :
    functionId path name = path ++ "::" ++ ("fn::" ++ name) :=
  String.toList_inj.1 (by simp [functionId])

theorem typeId_inj (hpath : Path.Plain path) (hother : Path.Plain other) :
    typeId path name = typeId other otherName ↔ path = other ∧ name = otherName := by
  rw [typeId_eq, typeId_eq, hpath.append_colons_inj hother (by simp) (by simp),
    String.append_right_inj]

theorem functionId_inj (hpath : Path.Plain path) (hother : Path.Plain other) :
    functionId path name = functionId other otherName ↔ path = other ∧ name = otherName := by
  rw [functionId_eq, functionId_eq, hpath.append_colons_inj hother (by simp) (by simp),
    String.append_right_inj]

theorem typeId_ne_functionId (hpath : Path.Plain path) (hother : Path.Plain other) :
    typeId path name ≠ functionId other otherName := by
  rw [typeId_eq, functionId_eq, Ne, hpath.append_colons_inj hother (by simp) (by simp)]
  rintro ⟨-, hrest⟩
  simpa using congrArg String.toList hrest

theorem typeId_ne_path (hpath : Path.Plain path) : typeId other name ≠ path := by
  rw [typeId_eq]
  exact hpath.append_colons_ne _ _

theorem functionId_ne_path (hpath : Path.Plain path) : functionId other name ≠ path := by
  rw [functionId_eq]
  exact hpath.append_colons_ne _ _

end Node

end CodeGraph
