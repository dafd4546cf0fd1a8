import CodeGraph.Proofs.Json.Arranged
import CodeGraph.Tree.Json

/-! File trees are read back from what they are written as, however deep their folders nest. -/
namespace CodeGraph

open Json (Order)

@[simp] theorem EntryKind.decode_word (kind : EntryKind) (depth : Nat) :
    decode depth (.string kind.word) = .ok kind := by
  cases kind <;> rfl

namespace Entry

mutual
/-- How many entries stand inside each other at most, from an entry down. -/
def levels : Entry → Nat
  | ⟨_, _, _, _, _, children⟩ => levelsOf children + 1

/-- How many entries stand inside each other at most, from some entries down. -/
def levelsOf : List Entry → Nat
  | [] => 0
  | entry :: rest => max (levels entry) (levelsOf rest)
end

variable {entry child : Entry}

theorem levels_eq (entry : Entry) : entry.levels = levelsOf entry.children + 1 := by
  obtain ⟨path, name, kind, size, handle?, children⟩ := entry
  rw [levels]

theorem levels_le_of_mem {entries : List Entry} (h : entry ∈ entries) :
    entry.levels ≤ levelsOf entries := by
  induction entries with
  | nil => cases h
  | cons first rest ih =>
    rw [levelsOf]
    rcases List.mem_cons.1 h with rfl | hrest
    · exact Nat.le_max_left _ _
    · exact (ih hrest).trans (Nat.le_max_right _ _)

theorem listToJson_eq_map (entries : List Entry) : listToJson entries = entries.map toJson := by
  induction entries with
  | nil => rfl
  | cons entry rest ih => rw [listToJson, ih, List.map_cons]

theorem sizeOf_lt_of_mem_children (h : child ∈ entry.children) : sizeOf child < sizeOf entry := by
  obtain ⟨path, name, kind, size, handle?, children⟩ := entry
  have hmem : child ∈ children := h
  have hlt := List.sizeOf_lt_of_mem hmem
  rw [mk.sizeOf_spec]
  omega

/-- What holds of an entry as soon as it holds of its children holds of all entries. -/
@[elab_as_elim]
theorem induction_children {motive : Entry → Prop}
    (step : ∀ entry : Entry, (∀ child ∈ entry.children, motive child) → motive entry)
    (entry : Entry) : motive entry :=
  step entry fun child _ => induction_children step child
termination_by sizeOf entry
decreasing_by exact sizeOf_lt_of_mem_children ‹_›

/-- An entry is read if its children are. Handle and children are read also where they are not
written. -/
theorem decodeUpTo_arranged_of_children (order : Order) (entry : Entry) {steps depth : Nat}
    (h : entry.children ≠ [] → Json.Decode.list (decodeUpTo steps) depth
      ((Json.ofList (entry.children.map toJson)).arranged order) = .ok entry.children) :
    decodeUpTo (steps + 1) (depth + 1) (entry.toJson.arranged order) = .ok entry := by
  have hhandle : ∀ handle : String,
      Json.Decode.optional Json.Decode.string depth (.string handle) = .ok (some handle) := by
    intro handle
    rw [Json.Decode.optional_of_ne_null (by simp)]
    rfl
  obtain ⟨path, name, kind, size, handle?, children⟩ := entry
  rw [toJson.eq_def]
  dsimp only at h ⊢
  rw [listToJson_eq_map, Json.arranged_ofMembers]
  generalize Json.ofList (children.map toJson) = json at h ⊢
  cases handle? <;> cases children <;> cases order <;>
    simp [decodeUpTo, ofDraft, Json.arrangeMembers, Dictionary.place,
      Json.Decode.record_ofMembers, Json.Decode.recordMembers, draftFields, Json.Decode.string,
      Json.Decode.required, h, hhandle, bind, Except.bind, pure, Except.pure, -String.lt_iff_ltb]

/-- An entry takes an object, and an array for its children if it has any. -/
theorem decodeUpTo_arranged (order : Order) (entry : Entry) {steps depth : Nat}
    (hsteps : entry.levels ≤ steps) (hdepth : 2 * entry.levels ≤ depth + 1) :
    decodeUpTo steps depth (entry.toJson.arranged order) = .ok entry := by
  induction entry using induction_children generalizing steps depth with
  | step entry ih =>
    rw [levels_eq] at hsteps hdepth
    obtain ⟨steps, rfl⟩ : ∃ n, steps = n + 1 := ⟨steps - 1, by omega⟩
    obtain ⟨depth, rfl⟩ : ∃ n, depth = n + 1 := ⟨depth - 1, by omega⟩
    refine decodeUpTo_arranged_of_children order entry fun hchildren => ?_
    obtain ⟨first, hfirst⟩ := List.exists_mem_of_ne_nil _ hchildren
    have hlevels := levels_le_of_mem hfirst
    have hpos := levels_eq first
    obtain ⟨depth, rfl⟩ : ∃ n, depth = n + 1 := ⟨depth - 1, by omega⟩
    refine Json.Decode.list_arranged order entry.children fun child hchild => ?_
    have hlevels := levels_le_of_mem hchild
    exact ih child hchild (by omega) (by omega)

end Entry

namespace FileTree

theorem decode_arranged (tree : FileTree) (order : Order) (depth : Nat) :
    decode (depth + 2 * Entry.levelsOf tree + 1) (tree.toJson.arranged order) = .ok tree := by
  rw [toJson, Entry.listToJson_eq_map]
  refine Json.Decode.list_arranged order tree fun entry hentry => ?_
  have hlevels := Entry.levels_le_of_mem hentry
  exact Entry.decodeUpTo_arranged order entry (by omega) (by omega)

end FileTree

end CodeGraph
