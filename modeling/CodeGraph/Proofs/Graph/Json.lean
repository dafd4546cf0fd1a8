import CodeGraph.Graph.Json
import CodeGraph.Proofs.Json.Arranged

/-! Graphs are read back from what they are written as, in whichever order members stand. -/
namespace CodeGraph

open Json (Order)

namespace NodeKind

@[simp]
theorem decode_word (kind : NodeKind) (depth : Nat) : decode depth (.string kind.word) = .ok kind := by
  cases kind <;> rfl

end NodeKind

namespace Relation

@[simp]
theorem decode_word (relation : Relation) (depth : Nat) :
    decode depth (.string relation.word) = .ok relation := by
  cases relation <;> rfl

end Relation

namespace Node

/-- The health and the methods are read also where they are not written. -/
theorem decode_arranged (node : Node) (order : Order) (depth : Nat) :
    decode (depth + 2) (node.toJson.arranged order) = .ok node := by
  have hmethods : Json.Decode.list Json.Decode.string (depth + 1)
      (.ofList (node.methods.map .string)) = .ok node.methods := by
    have hlist : Json.Decode.list Json.Decode.string (depth + 1)
        (.ofList (node.methods.map .string)) = .ok (node.methods.map fun method => method) :=
      Json.Decode.list_ofList (fun method => method) fun _ _ => rfl
    rwa [List.map_id'] at hlist
  have harranged : (Json.ofList (node.methods.map .string)).arranged order =
      .ofList (node.methods.map .string) := by
    rw [Json.arranged_ofList, List.map_map, Json.arranged_comp_string]
  have hhealth : ∀ health : UInt8,
      Json.Decode.optional Json.Decode.uint8 (depth + 1) (.ofNat health.toNat) =
        .ok (some health) := by
    intro health
    rw [Json.Decode.optional_of_ne_null (by simp [Json.ofNat]), Json.Decode.uint8_ofNat]
    rfl
  obtain ⟨id, label, kind, owner, lines, complexity, health?, methods⟩ := node
  rw [toJson, Json.arranged_ofMembers]
  dsimp only at hmethods harranged ⊢
  generalize Json.ofList (methods.map .string) = json at hmethods harranged ⊢
  cases health? <;> cases methods <;> cases order <;>
    simp [decode, Json.arrangeMembers, Dictionary.place, Json.Decode.record_ofMembers,
      Json.Decode.recordMembers, draftFields, Json.Decode.string, Json.Decode.required, hhealth,
      hmethods, harranged, bind, Except.bind, pure, Except.pure, -String.lt_iff_ltb]

theorem complete_toJson (node : Node) : node.toJson.Complete := by
  have hlines : (Json.ofNat node.lines.toNat).Complete :=
    Json.complete_ofNat (Nat.le_sub_one_of_lt node.lines.toNat_lt_size)
  have hcomplexity : (Json.ofNat node.complexity.toNat).Complete :=
    Json.complete_ofNat (Nat.le_sub_one_of_lt (node.complexity.toNat_lt_size.trans (by decide)))
  refine .object fun member hmember => ?_
  rcases List.mem_append.1 hmember with hmember | hmember
  · rcases List.mem_append.1 hmember with hmember | hmember
    · simp only [List.mem_cons, List.not_mem_nil, or_false] at hmember
      rcases hmember with rfl | rfl | rfl | rfl | rfl | rfl
      · exact .string _
      · exact .string _
      · exact .string _
      · exact .string _
      · exact hlines
      · exact hcomplexity
    · cases hhealth : node.health? with
      | none => simp [hhealth] at hmember
      | some health =>
        simp only [hhealth, List.mem_singleton] at hmember
        subst hmember
        exact Json.complete_ofNat (Nat.le_sub_one_of_lt (health.toNat_lt_size.trans (by decide)))
  · split at hmember
    · cases hmember
    · rw [List.mem_singleton.1 hmember]
      refine .array fun json hjson => ?_
      obtain ⟨method, -, rfl⟩ := List.mem_map.1 hjson
      exact .string method

end Node

namespace Edge

theorem decode_arranged (edge : Edge) (order : Order) (depth : Nat) :
    decode (depth + 1) (edge.toJson.arranged order) = .ok edge := by
  rw [toJson, Json.arranged_ofMembers]
  cases order <;>
    simp [decode, Json.arrangeMembers, Dictionary.place, Json.Decode.record_ofMembers,
      Json.Decode.recordMembers, draftFields, Json.Decode.string, Json.Decode.required, bind,
      Except.bind, pure, Except.pure, -String.lt_iff_ltb]

theorem complete_toJson (edge : Edge) : edge.toJson.Complete := by
  refine .object fun member hmember => ?_
  simp only [List.mem_cons, List.not_mem_nil, or_false] at hmember
  rcases hmember with rfl | rfl | rfl <;> exact .string _

end Edge

namespace Graph

theorem decode_arranged (graph : Graph) (order : Order) (depth : Nat) :
    decode (depth + 4) (graph.toJson.arranged order) = .ok graph := by
  have hnodes : Json.Decode.list Node.decode (depth + 3)
      ((Json.ofList (graph.nodes.map (·.toJson))).arranged order) = .ok graph.nodes :=
    Json.Decode.list_arranged order _ fun node _ => node.decode_arranged order depth
  have hedges : Json.Decode.list Edge.decode (depth + 3)
      ((Json.ofList (graph.edges.map (·.toJson))).arranged order) = .ok graph.edges :=
    Json.Decode.list_arranged order _ fun edge _ => edge.decode_arranged order (depth + 1)
  rw [toJson, Json.arranged_ofMembers]
  cases order <;>
    simp [decode, Json.arrangeMembers, Dictionary.place, Json.Decode.record_ofMembers,
      Json.Decode.recordMembers, draftFields, Json.Decode.required, hnodes, hedges, bind,
      Except.bind, pure, Except.pure, -String.lt_iff_ltb]

theorem decode_toJson (graph : Graph) (depth : Nat) : decode (depth + 4) graph.toJson = .ok graph :=
  graph.decode_arranged .written depth

theorem complete_toJson (graph : Graph) : graph.toJson.Complete := by
  refine .object fun member hmember => ?_
  simp only [List.mem_cons, List.not_mem_nil, or_false] at hmember
  rcases hmember with rfl | rfl
  · refine .array fun json hjson => ?_
    obtain ⟨node, -, rfl⟩ := List.mem_map.1 hjson
    exact node.complete_toJson
  · refine .array fun json hjson => ?_
    obtain ⟨edge, -, rfl⟩ := List.mem_map.1 hjson
    exact edge.complete_toJson

end Graph

end CodeGraph
