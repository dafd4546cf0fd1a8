import CodeGraph.Proofs.Json.Document

/-! Values that are read as they stand: whole numbers, members in the order of their names, and not
too many containers inside each other. -/
namespace CodeGraph

namespace Dictionary

variable {α : Type} {name : String} {value : α} {entries : List (String × α)}

theorem place_of_forall_lt (h : ∀ entry ∈ entries, entry.1 < name) :
    place name value entries = entries ++ [(name, value)] := by
  induction entries with
  | nil => rfl
  | cons entry rest ih =>
    have hlt : entry.1 < name := h entry List.mem_cons_self
    have hrest := ih fun other hother => h other (List.mem_cons_of_mem _ hother)
    unfold place
    rw [if_neg (String.ne_of_lt hlt).symm, if_neg (String.lt_asymm hlt), hrest]
    rfl

theorem entries_foldl_insert (dictionary : Dictionary α)
    (h : (dictionary.entries ++ entries).Pairwise (·.1 < ·.1)) :
    (entries.foldl (fun dictionary (name, value) => dictionary.insert name value)
      dictionary).entries = dictionary.entries ++ entries := by
  induction entries generalizing dictionary with
  | nil => exact (List.append_nil _).symm
  | cons entry rest ih =>
    have hplace : (dictionary.insert entry.1 entry.2).entries = dictionary.entries ++ [entry] :=
      place_of_forall_lt fun other hother =>
        (List.pairwise_append.1 h).2.2 other hother entry List.mem_cons_self
    rw [List.foldl_cons, ih _ (by rwa [hplace, List.append_assoc]), hplace, List.append_assoc]
    rfl

theorem entries_ofList (h : entries.Pairwise (·.1 < ·.1)) : (ofList entries).entries = entries :=
  entries_foldl_insert empty h

end Dictionary

namespace Json

/-- A value that is read as it stands, with at most so many containers inside each other. -/
inductive Plain : Nat → Json → Prop
  | null {depth : Nat} : Plain depth .null
  | bool {depth : Nat} (value : Bool) : Plain depth (.bool value)
  | number {depth : Nat} {value : Number.Value} (h : value.Integral) :
    Plain depth (.number value.spelling)
  | string {depth : Nat} (text : String) : Plain depth (.string text)
  | array {depth : Nat} {items : List Json} (h : ∀ item ∈ items, Plain depth item) :
    Plain (depth + 1) (.ofList items)
  | object {depth : Nat} {members : List (String × Json)}
    (hascending : members.Pairwise (·.1 < ·.1)) (h : ∀ member ∈ members, Plain depth member.2) :
    Plain (depth + 1) (.ofMembers members)

variable {depth : Nat} {json : Json}

theorem Plain.complete (h : json.Plain depth) : json.Complete := by
  induction h with
  | null => exact .null
  | bool value => exact .bool value
  | number h => exact .number h
  | string text => exact .string text
  | array _ ih => exact .array ih
  | object _ _ ih => exact .object ih

theorem Plain.of_le {limit : Nat} (h : json.Plain depth) (hle : depth ≤ limit) :
    json.Plain limit := by
  induction h generalizing limit with
  | null => exact .null
  | bool value => exact .bool value
  | number h => exact .number h
  | string text => exact .string text
  | array _ ih =>
    obtain ⟨limit, rfl⟩ := Nat.exists_eq_add_one_of_ne_zero (Nat.ne_zero_of_lt hle)
    exact .array fun item hitem => ih item hitem (Nat.le_of_succ_le_succ hle)
  | object hascending _ ih =>
    obtain ⟨limit, rfl⟩ := Nat.exists_eq_add_one_of_ne_zero (Nat.ne_zero_of_lt hle)
    exact .object hascending fun member hmember => ih member hmember (Nat.le_of_succ_le_succ hle)

namespace Decode

theorem items_of_forall {α β : Type} {decode : Json → Except Fault α} {encode : β → Json}
    (make : β → α) {values : List β}
    (h : ∀ value ∈ values, decode (encode value) = .ok (make value)) :
    items decode (values.map encode) = .ok (values.map make) := by
  induction values with
  | nil => rfl
  | cons value rest ih =>
    have hrest := ih fun other hother => h other (List.mem_cons_of_mem _ hother)
    rw [List.map_cons, items, h value List.mem_cons_self, hrest]
    rfl

theorem members_of_forall {α β : Type} {decode : Json → Except Fault α} (encode : β → Json)
    (make : β → α) {values : List (String × β)}
    (h : ∀ value ∈ values, decode (encode value.2) = .ok (make value.2)) :
    members decode (values.map fun value => (value.1, encode value.2)) =
      .ok (values.map fun value => (value.1, make value.2)) := by
  induction values with
  | nil => rfl
  | cons value rest ih =>
    have hrest := ih fun other hother => h other (List.mem_cons_of_mem _ hother)
    rw [List.map_cons, members, h value List.mem_cons_self, hrest]
    rfl

theorem any_of_plain (h : json.Plain depth) : any depth json = .ok json := by
  induction h with
  | null => simp [any]
  | bool value => simp [any]
  | number h => simp [any, Number.value?_spelling h]
  | string text => simp [any]
  | @array depth items _ ih =>
    have hitems : Decode.items (any depth) (items.map id) = .ok (items.map id) :=
      items_of_forall id ih
    rw [List.map_id] at hitems
    rw [ofList, any, hitems]
    rfl
  | @object depth members hascending _ ih =>
    have hmembers : Decode.members (any depth) (members.map fun member => (member.1, id member.2)) =
      .ok (members.map fun member => (member.1, id member.2)) := members_of_forall id id ih
    simp only [id, Prod.mk.eta, List.map_id'] at hmembers
    rw [ofMembers, any, hmembers]
    dsimp only [bind, Except.bind]
    rw [Dictionary.entries_ofList hascending]
    rfl

/-- A value that is not null is read as one that is there. -/
theorem optional_of_ne_null {α : Type} {decode : Decoder α} (h : json ≠ .null) :
    optional decode depth json = (decode depth json).map some := by
  unfold optional
  split
  · exact absurd rfl h
  · rfl

end Decode

end Json

end CodeGraph
