import Mathlib

/-! Looking up in lists of pairs. -/
namespace CodeGraph.Lookup

variable {α β : Type}

theorem lookup_cons (key other : String) (value : β) (pairs : List (String × β)) :
    ((key, value) :: pairs).lookup other = if other = key then some value else pairs.lookup other := by
  rw [List.lookup_cons]
  by_cases h : other = key
  · rw [if_pos h, beq_iff_eq.2 h]
  · rw [if_neg h, beq_eq_false_iff_ne.2 h]

theorem mem_of_lookup_eq {key : String} {value : β} {pairs : List (String × β)}
    (h : pairs.lookup key = some value) : (key, value) ∈ pairs := by
  induction pairs with
  | nil => cases h
  | cons first rest ih =>
    obtain ⟨old, other⟩ := first
    rw [lookup_cons] at h
    split_ifs at h with hkey
    · cases h
      exact hkey ▸ List.mem_cons_self
    · exact List.mem_cons_of_mem _ (ih h)

theorem lookup_map (key : α → String) (value : α → β) (items : List α) (other : String) :
    (items.map fun item => (key item, value item)).lookup other =
      (items.find? (key · = other)).map value := by
  induction items with
  | nil => rfl
  | cons item rest ih =>
    rw [List.map_cons, lookup_cons, ih]
    by_cases h : other = key item
    · rw [if_pos h, List.find?_cons_of_pos (by simpa using h.symm)]
      rfl
    · rw [if_neg h, List.find?_cons_of_neg (by simpa using Ne.symm h)]

theorem lookup_filter_ne (key other : String) (pairs : List (String × β)) :
    (pairs.filter (·.1 ≠ key)).lookup other =
      if other = key then none else pairs.lookup other := by
  induction pairs with
  | nil => exact (ite_self none).symm
  | cons first rest ih =>
    obtain ⟨old, value⟩ := first
    by_cases hkey : old = key
    · rw [List.filter_cons_of_neg (by simpa using hkey), ih, lookup_cons, hkey]
      split_ifs <;> rfl
    · rw [List.filter_cons_of_pos (by simpa using hkey), lookup_cons, lookup_cons, ih]
      by_cases h : other = old
      · rw [if_pos h, if_pos h, if_neg (h.trans_ne hkey)]
      · rw [if_neg h, if_neg h]

end CodeGraph.Lookup
