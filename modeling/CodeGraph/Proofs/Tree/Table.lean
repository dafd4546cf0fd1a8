import CodeGraph.Tree.Table
import Mathlib.Data.Finset.Card
import Mathlib.Data.Finset.Dedup

/-! The table of the paths of a list. A path has the position where it first stands. -/
namespace CodeGraph.PathTable

variable {path : String} {paths : List String}

theorem position?_insert (table : PathTable) (other : String) (position : Nat) (path : String) :
    (table.insert other position).position? path =
      (table.position? path).or (if other = path then some position else none) := by
  unfold position? insert
  rw [Std.HashMap.getElem?_insertIfNew]
  by_cases hpath : other = path
  · subst hpath
    by_cases hmem : other ∈ table.index
    · simp [hmem]
    · simp [hmem]
  · simp [hpath]

theorem position?_insertFrom (start : Nat) (paths : List String) (table : PathTable)
    (path : String) : (insertFrom start paths table).position? path =
      (table.position? path).or ((paths.findIdx? (· = path)).map (· + start)) := by
  induction paths generalizing start table with
  | nil => simp [insertFrom]
  | cons first rest ih =>
    rw [insertFrom, ih, position?_insert, Option.or_assoc, List.findIdx?_cons]
    by_cases hfirst : first = path
    · simp [hfirst]
    · simp [hfirst, Function.comp_def, Nat.add_right_comm, Nat.add_assoc]

theorem position?_ofList (paths : List String) (path : String) :
    (ofList paths).position? path = paths.findIdx? (· = path) := by
  have hempty : empty.position? path = none := Std.HashMap.getElem?_empty
  rw [ofList, position?_insertFrom, hempty, Option.none_or]
  exact Option.map_id'

theorem contains_eq_isSome (table : PathTable) (path : String) :
    table.contains path = (table.position? path).isSome :=
  Std.HashMap.contains_eq_isSome_getElem?

theorem contains_ofList : (ofList paths).contains path = true ↔ path ∈ paths := by
  rw [contains_eq_isSome, position?_ofList]
  simp

theorem size_ofList (paths : List String) : (ofList paths).size = paths.toFinset.card := by
  have hkeys : (ofList paths).index.keys.toFinset = paths.toFinset := by
    ext path
    rw [List.mem_toFinset, List.mem_toFinset, Std.HashMap.mem_keys, ← Std.HashMap.contains_iff_mem]
    exact contains_ofList
  rw [← hkeys, List.toFinset_card_of_nodup Std.HashMap.nodup_keys, Std.HashMap.length_keys]
  rfl

end CodeGraph.PathTable
