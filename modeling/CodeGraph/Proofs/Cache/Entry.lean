import CodeGraph.Cache.Store
import CodeGraph.Proofs.Graph.Json
import CodeGraph.Proofs.Time.Text

/-! A kept graph is read back from the text of its file. -/
namespace CodeGraph.CachedGraph

/-- The number of containers inside each other in what is known of the origin of a graph. -/
def aboutDepth : Nat := 100

/-- A kept graph whose time can be written, and whose origin is not null and has neither fractions
nor too many containers inside each other. -/
structure Readable (entry : CachedGraph) : Prop where
  time : entry.time.Valid
  about : ∀ about ∈ entry.about?, about ≠ .null ∧ about.Plain aboutDepth

variable {entry : CachedGraph}

theorem complete_toJson (h : entry.Readable) : entry.toJson.Complete := by
  refine .object fun member hmember => ?_
  rcases List.mem_append.1 hmember with hmember | hmember
  · rcases List.mem_append.1 hmember with hmember | hmember
    · simp only [List.mem_cons, List.not_mem_nil, or_false] at hmember
      rcases hmember with rfl | rfl | rfl | rfl
      · exact .string _
      · exact .string _
      · exact Json.complete_ofNat
          (Nat.le_sub_one_of_lt (entry.policyVersion.toNat_lt_size.trans (by decide)))
      · exact .string _
    · cases habout : entry.about? with
      | none => simp [habout] at hmember
      | some about =>
        simp only [habout, List.mem_singleton] at hmember
        subst hmember
        exact (h.about about habout).2.complete
  · rw [List.mem_singleton.1 hmember]
    exact entry.graph.complete_toJson

theorem decode_toJson (h : entry.Readable) {depth : Nat} (hdepth : aboutDepth < depth) :
    decode depth entry.toJson = .ok entry := by
  obtain ⟨depth, rfl⟩ : ∃ n, depth = n + 5 := ⟨depth - 5, by unfold aboutDepth at hdepth; omega⟩
  have htime : ∀ depth, decodeTime depth (.string entry.time.toText) = .ok entry.time := by
    intro depth
    simp [decodeTime, Json.Decode.string, Time.ofText?_toText h.time, bind, Except.bind]
  have hgraph := entry.graph.decode_toJson depth
  have habout : ∀ about ∈ entry.about?,
      Json.Decode.optional Json.Decode.any (depth + 4) about = .ok (some about) := by
    intro about hmem
    obtain ⟨hne, hplain⟩ := h.about about hmem
    rw [Json.Decode.optional_of_ne_null hne, Json.Decode.any_of_plain (hplain.of_le (by omega))]
    rfl
  obtain ⟨key, version, policyVersion, time, about?, graph⟩ := entry
  dsimp only at htime hgraph habout
  cases about? with
  | none =>
    simp [decode, toJson, Json.ofMembers, Json.Decode.record, Json.Decode.recordMembers,
      draftFields, Json.Decode.string, Json.Decode.required, htime, hgraph, bind, Except.bind,
      pure, Except.pure]
  | some about =>
    simp [decode, toJson, Json.ofMembers, Json.Decode.record, Json.Decode.recordMembers,
      draftFields, Json.Decode.string, Json.Decode.required, htime, hgraph, habout about rfl, bind,
      Except.bind, pure, Except.pure]

/-- What is written for a kept graph is read as this graph. -/
theorem text_pretty (h : entry.Readable) :
    Json.Decode.text decode (.ofText entry.toJson.pretty) = .ok entry := by
  rw [(complete_toJson h).ofText_pretty]
  have hdepth : aboutDepth < Json.Decode.maxDepth := by decide
  simp [Json.Decode.text, decode_toJson h hdepth, bind, Except.bind]

end CodeGraph.CachedGraph
