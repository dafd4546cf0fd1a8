import CodeGraph.Proofs.Json.Plain

/-! Values whose members stand as they were written, or in the order of their names, and how what they
are made of is read from them. -/
namespace CodeGraph

namespace Dictionary

variable {α : Type}

theorem entries_ofList_eq_foldl (entries : List (String × α)) :
    (ofList entries).entries =
      entries.foldl (fun sorted entry => place entry.1 entry.2 sorted) [] := by
  have hfold : ∀ start : Dictionary α,
      (entries.foldl (fun dictionary entry => dictionary.insert entry.1 entry.2) start).entries =
        entries.foldl (fun sorted entry => place entry.1 entry.2 sorted) start.entries := by
    induction entries with
    | nil => exact fun start => rfl
    | cons first rest ih => exact fun start => ih _
  exact hfold empty

theorem ofList_entries (dictionary : Dictionary α) : ofList dictionary.entries = dictionary := by
  have hentries := entries_ofList dictionary.ascending
  cases hlist : ofList dictionary.entries
  cases dictionary
  rw [hlist] at hentries
  dsimp only at hentries
  subst hentries
  rfl

end Dictionary

namespace Json

theorem sortedItems_eq_map (items : List Json) : sortedItems items = items.map sorted := by
  induction items with
  | nil => rfl
  | cons item rest ih => rw [sortedItems, ih, List.map_cons]

theorem sortedMembers_eq_map (members : List (String × Json)) :
    sortedMembers members = members.map fun member => (member.1, member.2.sorted) := by
  induction members with
  | nil => rfl
  | cons member rest ih => rw [sortedMembers, ih, List.map_cons]

inductive Order where
  | written
  | byName
  deriving DecidableEq, Inhabited, Repr

def arranged : Order → Json → Json
  | .written, json => json
  | .byName, json => json.sorted

variable {order : Order}

@[simp] theorem arranged_string (text : String) : (string text).arranged order = string text := by
  cases order <;> rfl

@[simp] theorem arranged_bool (value : Bool) : (bool value).arranged order = bool value := by
  cases order <;> rfl

@[simp] theorem arranged_ofNat (n : Nat) : (ofNat n).arranged order = ofNat n := by
  cases order <;> rfl

@[simp] theorem arranged_ofOption (text? : Option String) :
    (ofOption text?).arranged order = ofOption text? := by
  cases order <;> cases text? <;> rfl

theorem arranged_ofList (items : List Json) :
    (ofList items).arranged order = ofList (items.map (arranged order)) := by
  cases order with
  | written => exact (congrArg ofList (List.map_id items)).symm
  | byName => exact congrArg (array · none) (sortedItems_eq_map items)

theorem arranged_comp_string : arranged order ∘ string = string :=
  funext arranged_string

def arrangeMembers : Order → List (String × Json) → List (String × Json)
  | .written, members => members
  | .byName, members =>
    members.foldl (fun sorted member => Dictionary.place member.1 member.2 sorted) []

theorem arrangeMembers_of_ascending {members : List (String × Json)}
    (h : members.Pairwise (·.1 < ·.1)) : arrangeMembers order members = members := by
  cases order with
  | written => rfl
  | byName =>
    rw [arrangeMembers, ← Dictionary.entries_ofList_eq_foldl, Dictionary.entries_ofList h]

theorem arranged_ofMembers (members : List (String × Json)) :
    (ofMembers members).arranged order =
      ofMembers (arrangeMembers order
        (members.map fun member => (member.1, member.2.arranged order))) := by
  cases order with
  | written => exact (congrArg ofMembers (List.map_id members)).symm
  | byName =>
    change object (Dictionary.ofList (sortedMembers members)).entries none = _
    rw [sortedMembers_eq_map, Dictionary.entries_ofList_eq_foldl]
    rfl

theorem complete_ofNat {n : Nat} (h : n ≤ Number.maxWhole) : (ofNat n).Complete :=
  .number (Number.integral_whole h)

namespace Decode

theorem whole_ofNat {limit n : Nat} (h : n ≤ limit) (hlimit : limit ≤ Number.maxWhole)
    (depth : Nat) : whole limit depth (ofNat n) = .ok n := by
  have hspelling := Number.value?_spelling (Number.integral_whole (h.trans hlimit))
  have hvalue : Number.value? (toString n) = some (.whole n) := hspelling
  rw [ofNat, whole, hvalue]
  exact if_pos h

@[simp]
theorem uint64_ofNat (n : UInt64) (depth : Nat) : uint64 depth (ofNat n.toNat) = .ok n := by
  have hn : n.toNat ≤ UInt64.size - 1 := Nat.le_sub_one_of_lt n.toNat_lt_size
  rw [uint64, whole_ofNat hn (by decide)]
  simp [Except.map]

@[simp]
theorem uint32_ofNat (n : UInt32) (depth : Nat) : uint32 depth (ofNat n.toNat) = .ok n := by
  have hn : n.toNat ≤ UInt32.size - 1 := Nat.le_sub_one_of_lt n.toNat_lt_size
  rw [uint32, whole_ofNat hn (by decide)]
  simp [Except.map]

@[simp]
theorem uint8_ofNat (n : UInt8) (depth : Nat) : uint8 depth (ofNat n.toNat) = .ok n := by
  have hn : n.toNat ≤ UInt8.size - 1 := Nat.le_sub_one_of_lt n.toNat_lt_size
  rw [uint8, whole_ofNat hn (by decide)]
  simp [Except.map]

theorem list_ofList {α β : Type} {decode : Decoder α} {encode : β → Json} (make : β → α)
    {depth : Nat} {values : List β}
    (h : ∀ value ∈ values, decode depth (encode value) = .ok (make value)) :
    list decode (depth + 1) (.ofList (values.map encode)) = .ok (values.map make) := by
  rw [ofList, list, items_of_forall make h]
  rfl

theorem list_arranged {α : Type} {decode : Decoder α} {encode : α → Json} {depth : Nat}
    (order : Order) (values : List α)
    (h : ∀ value ∈ values, decode depth ((encode value).arranged order) = .ok value) :
    list decode (depth + 1) ((ofList (values.map encode)).arranged order) = .ok values := by
  rw [arranged_ofList, List.map_map]
  exact (list_ofList id h).trans (congrArg Except.ok (List.map_id values))

theorem record_ofMembers {σ : Type} (fields : List (Slot σ)) (start : σ) (depth : Nat)
    (members : List (String × Json)) :
    record fields start (depth + 1) (.ofMembers members) =
      recordMembers fields depth members start := by
  rw [ofMembers, record]
  cases recordMembers fields depth members start <;> rfl

end Decode

end Json

end CodeGraph
