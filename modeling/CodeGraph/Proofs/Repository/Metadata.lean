import CodeGraph.Proofs.Json.Arranged
import CodeGraph.Repository.Metadata

/-! What is known of a repository, as it is kept: sorted, without fractions, and not deep. -/
namespace CodeGraph

namespace Dictionary

theorem mem_of_mem_ofList {α : Type} {entries : List (String × α)} {entry : String × α}
    (h : entry ∈ (ofList entries).entries) : entry ∈ entries := by
  have hfold : ∀ start : Dictionary α,
      entry ∈ (entries.foldl (fun dictionary entry => dictionary.insert entry.1 entry.2)
        start).entries → entry ∈ start.entries ∨ entry ∈ entries := by
    clear h
    induction entries with
    | nil => exact fun start hentry => .inl hentry
    | cons first rest ih =>
      intro start hentry
      rcases ih _ hentry with hentry | hentry
      · rcases mem_place hentry with rfl | hentry
        · exact .inr List.mem_cons_self
        · exact .inl hentry
      · exact .inr (List.mem_cons_of_mem _ hentry)
  exact (hfold empty h).resolve_left List.not_mem_nil

end Dictionary

namespace Json

variable {depth : Nat}

theorem plain_sorted_ofList {items : List Json} (h : ∀ item ∈ items, item.sorted.Plain depth) :
    (ofList items).sorted.Plain (depth + 1) := by
  rw [ofList, sorted, sortedItems_eq_map]
  refine .array fun item hitem => ?_
  obtain ⟨item, hmem, rfl⟩ := List.mem_map.1 hitem
  exact h item hmem

theorem plain_sorted_ofMembers {members : List (String × Json)}
    (h : ∀ member ∈ members, member.2.sorted.Plain depth) :
    (ofMembers members).sorted.Plain (depth + 1) := by
  rw [ofMembers, sorted, sortedMembers_eq_map]
  refine .object (Dictionary.ascending _) fun member hmember => ?_
  obtain ⟨member, hmem, rfl⟩ := List.mem_map.1 (Dictionary.mem_of_mem_ofList hmember)
  exact h member hmem

theorem plain_sorted_ofNat (n : UInt64) : (ofNat n.toNat).sorted.Plain depth :=
  .number (Number.integral_whole (Nat.le_sub_one_of_lt n.toNat_lt_size))

theorem plain_sorted_ofOption (text? : Option String) :
    (ofOption text?).sorted.Plain depth := by
  cases text? with
  | none => exact .null
  | some text => exact .string text

end Json

namespace Repository

open Json

theorem Contributor.plain_sorted (contributor : Contributor) :
    contributor.toJson.sorted.Plain 1 := by
  refine plain_sorted_ofMembers fun member hmember => ?_
  simp only [List.mem_cons, List.not_mem_nil, or_false] at hmember
  rcases hmember with rfl | rfl
  · exact .string _
  · exact plain_sorted_ofNat _

theorem Metadata.plain_sorted (metadata : Metadata) : metadata.toJson.sorted.Plain 3 := by
  have hcontributors : (Json.ofList (metadata.contributors.map (·.toJson))).sorted.Plain 2 := by
    refine plain_sorted_ofList fun item hitem => ?_
    obtain ⟨contributor, -, rfl⟩ := List.mem_map.1 hitem
    exact contributor.plain_sorted
  have hlanguages : (languagesToJson metadata.languages).sorted.Plain 2 := by
    refine plain_sorted_ofMembers fun member hmember => ?_
    obtain ⟨entry, -, rfl⟩ := List.mem_map.1 hmember
    exact plain_sorted_ofNat _
  refine plain_sorted_ofMembers fun member hmember => ?_
  simp only [List.mem_cons, List.not_mem_nil, or_false] at hmember
  rcases hmember with rfl | rfl | rfl | rfl | rfl | rfl | rfl | rfl | rfl | rfl | rfl | rfl
  · exact .string _
  · exact .string _
  · exact plain_sorted_ofOption _
  · exact plain_sorted_ofNat _
  · exact plain_sorted_ofNat _
  · exact plain_sorted_ofNat _
  · exact plain_sorted_ofOption _
  · exact .bool _
  · exact plain_sorted_ofOption _
  · exact plain_sorted_ofOption _
  · exact hlanguages
  · exact hcontributors

theorem Metadata.sorted_ne_null (metadata : Metadata) : metadata.toJson.sorted ≠ .null := by
  nofun

end Repository

end CodeGraph
