import CodeGraph.Proofs.Json.Token

/-! What is printed is read back: every complete value whose numbers are whole. -/
namespace CodeGraph.Json

/-- A value that is complete and has whole numbers only. -/
inductive Complete : Json → Prop
  | null : Complete .null
  | bool (value : Bool) : Complete (.bool value)
  | number {value : Number.Value} (h : value.Integral) : Complete (.number value.spelling)
  | string (text : String) : Complete (.string text)
  | array {items : List Json} (h : ∀ item ∈ items, Complete item) : Complete (.ofList items)
  | object {members : List (String × Json)} (h : ∀ member ∈ members, Complete member.2) :
    Complete (.ofMembers members)

theorem toList_newline (depth : Nat) :
    (newline depth).toList = '\n' :: List.replicate (2 * depth) ' ' := by
  simp [newline]

theorem toList_quoted (text : String) :
    (Print.quoted text).toList = '"' :: (text.toList.flatMap Print.character ++ ['"']) := by
  simp [Print.quoted]

def itemsTail (depth : Nat) : List Json → List Char
  | [] => []
  | item :: rest => ',' :: (prettyItems depth (item :: rest)).toList

def membersTail (depth : Nat) : List (String × Json) → List Char
  | [] => []
  | member :: rest => ',' :: (prettyMembers depth (member :: rest)).toList

theorem toList_prettyItems (depth : Nat) (item : Json) (rest : List Json) :
    (prettyItems depth (item :: rest)).toList =
      (newline depth).toList ++ ((prettyAt depth item).toList ++ itemsTail depth rest) := by
  cases rest <;> simp [prettyItems, itemsTail]

theorem toList_prettyMembers (depth : Nat) (name : String) (member : Json)
    (rest : List (String × Json)) :
    (prettyMembers depth ((name, member) :: rest)).toList =
      (newline depth).toList ++ ((Print.quoted name).toList ++
        (':' :: ' ' :: ((prettyAt depth member).toList ++ membersTail depth rest))) := by
  cases rest <;> simp [prettyMembers, membersTail]

theorem toList_prettyAt_array (depth : Nat) (item : Json) (rest : List Json) :
    (prettyAt depth (.ofList (item :: rest))).toList =
      '[' :: ((prettyItems (depth + 1) (item :: rest)).toList ++
        ((newline depth).toList ++ [']'])) := by
  simp [ofList, prettyAt]

theorem toList_prettyAt_object (depth : Nat) (member : String × Json)
    (rest : List (String × Json)) :
    (prettyAt depth (.ofMembers (member :: rest))).toList =
      '\x7b' :: ((prettyMembers (depth + 1) (member :: rest)).toList ++
        ((newline depth).toList ++ ['\x7d'])) := by
  simp [ofMembers, prettyAt]

theorem toList_prettyAt_number (depth : Nat) (spelling : String) :
    (prettyAt depth (.number spelling)).toList = spelling.toList := by
  rw [prettyAt]

theorem toList_prettyAt_string (depth : Nat) (text : String) :
    (prettyAt depth (.string text)).toList =
      '"' :: (text.toList.flatMap Print.character ++ ['"']) := by
  rw [prettyAt, toList_quoted]

namespace Read

theorem skip_append {blanks : List Char} (h : ∀ c ∈ blanks, isBlank c) (rest : List Char) :
    skip (blanks ++ rest) = skip rest :=
  List.dropWhile_append_of_pos h

theorem skip_of_not_isBlank {c : Char} (h : ¬ isBlank c) (rest : List Char) :
    skip (c :: rest) = c :: rest :=
  List.dropWhile_cons_of_neg h

theorem isBlank_of_mem_newline (depth : Nat) : ∀ c ∈ (newline depth).toList, isBlank c := by
  intro c h
  rw [toList_newline] at h
  rcases List.mem_cons.1 h with rfl | h
  · decide
  · rw [List.eq_of_mem_replicate h]
    decide

theorem value_blank {c : Char} (h : isBlank c) (fuel : Nat) (rest : List Char) :
    value fuel (c :: rest) = value fuel rest := by
  have hskip : skip (c :: rest) = skip rest := List.dropWhile_cons_of_pos h
  cases fuel with
  | zero => rfl
  | succ fuel => rw [value, value, hskip]

theorem items_newline (depth fuel : Nat) (first : Bool) (rest : List Char) :
    items fuel first ((newline depth).toList ++ rest) = items fuel first rest := by
  have hskip := skip_append (isBlank_of_mem_newline depth) rest
  cases fuel with
  | zero => rfl
  | succ fuel => rw [items, items, hskip]

theorem members_newline (depth fuel : Nat) (first : Bool) (rest : List Char) :
    members fuel first ((newline depth).toList ++ rest) = members fuel first rest := by
  have hskip := skip_append (isBlank_of_mem_newline depth) rest
  cases fuel with
  | zero => rfl
  | succ fuel => rw [members, members, hskip]

/-- What a printed value begins with. -/
def Begins (c : Char) : Prop := ¬ isBlank c ∧ c ≠ ']' ∧ c ≠ '\x7d'

instance (c : Char) : Decidable (Begins c) := inferInstanceAs (Decidable (_ ∧ _ ∧ _))

theorem begins_of_isDigit {c : Char} (h : c.isDigit) : Begins c := by
  refine ⟨?_, ?_, ?_⟩
  · unfold isBlank
    intro hblank
    simp only [Bool.or_eq_true, beq_iff_eq] at hblank
    rcases hblank with ((rfl | rfl) | rfl) | rfl <;> exact absurd h (by decide)
  · rintro rfl
    exact absurd h (by decide)
  · rintro rfl
    exact absurd h (by decide)

end Read

theorem Number.Value.begins {value : Number.Value} (h : value.Integral) :
    ∃ c more, value.spelling.toList = c :: more ∧ (c = '-' ∨ c.isDigit) := by
  cases value with
  | whole n =>
    match hdigits : Nat.toDigits 10 n with
    | [] => exact absurd hdigits Nat.toDigits_ne_nil
    | c :: more =>
      refine ⟨c, more, (Number.toList_toString n).trans hdigits, .inr ?_⟩
      exact isDigit_of_mem_toDigits (hdigits ▸ List.mem_cons_self)
  | below n => exact ⟨'-', (toString n).toList, String.toList_append, .inl rfl⟩
  | double x => exact absurd h id

theorem Complete.begins {json : Json} (h : json.Complete) (level : Nat) :
    ∃ c more, (prettyAt level json).toList = c :: more ∧ Read.Begins c := by
  cases h with
  | null => exact ⟨'n', ['u', 'l', 'l'], by simp [prettyAt], by decide⟩
  | bool value =>
    cases value
    · exact ⟨'f', ['a', 'l', 's', 'e'], by simp [prettyAt], by decide⟩
    · exact ⟨'t', ['r', 'u', 'e'], by simp [prettyAt], by decide⟩
  | @number value h =>
    obtain ⟨c, more, hspelling, hc⟩ := Number.Value.begins h
    refine ⟨c, more, (toList_prettyAt_number level _).trans hspelling, ?_⟩
    rcases hc with rfl | hc
    · decide
    · exact Read.begins_of_isDigit hc
  | string text => exact ⟨'"', _, toList_prettyAt_string level text, by decide⟩
  | @array items h =>
    cases items with
    | nil => exact ⟨'[', [']'], by simp [ofList, prettyAt], by decide⟩
    | cons item rest => exact ⟨'[', _, toList_prettyAt_array level item rest, by decide⟩
  | @object members h =>
    cases members with
    | nil => exact ⟨'\x7b', ['\x7d'], by simp [ofMembers, prettyAt], by decide⟩
    | cons member rest => exact ⟨'\x7b', _, toList_prettyAt_object level member rest, by decide⟩

namespace Read

/-- A printed value is read from any text that begins with it and goes on with something else. -/
def Returns (json : Json) : Prop :=
  ∀ (level fuel : Nat) (rest : List Char), (prettyAt level json).toList.length < fuel →
    Ends rest → value fuel ((prettyAt level json).toList ++ rest) = (json, .ok rest)

theorem ends_newline (depth : Nat) (rest : List Char) : Ends ((newline depth).toList ++ rest) := by
  rw [toList_newline]
  intro c hc
  rw [← Option.some.inj hc]
  decide

theorem ends_itemsTail (depth : Nat) (items : List Json) {rest : List Char} (h : Ends rest) :
    Ends (itemsTail depth items ++ rest) := by
  cases items with
  | nil => exact h
  | cons item items =>
    intro c hc
    rw [← Option.some.inj hc]
    decide

theorem ends_membersTail (depth : Nat) (members : List (String × Json)) {rest : List Char}
    (h : Ends rest) : Ends (membersTail depth members ++ rest) := by
  cases members with
  | nil => exact h
  | cons member members =>
    intro c hc
    rw [← Option.some.inj hc]
    decide

variable {item : Json} {level fuel : Nat} {rest : List Char}

/-- The first item is read, and then the ones after it. -/
theorem items_first (hitem : item.Complete) (h : Returns item)
    (hfuel : (prettyAt level item).toList.length < fuel) (hrest : Ends rest) :
    items (fuel + 1) true ((prettyAt level item).toList ++ rest) =
      (item :: (items fuel false rest).1, (items fuel false rest).2) := by
  have hvalue := h level fuel rest hfuel hrest
  obtain ⟨c, more, htext, hblank, hbracket, -⟩ := hitem.begins level
  rw [htext, List.cons_append] at hvalue ⊢
  rw [items, skip_of_not_isBlank hblank]
  simp [hvalue]

/-- An item after another one is read after the comma between them. -/
theorem items_next (hitem : item.Complete) (h : Returns item)
    (hfuel : (prettyAt level item).toList.length < fuel) (hrest : Ends rest) :
    items (fuel + 1) false
        (',' :: ((newline level).toList ++ ((prettyAt level item).toList ++ rest))) =
      (item :: (items fuel false rest).1, (items fuel false rest).2) := by
  have hvalue := h level fuel rest hfuel hrest
  have hcomma : ¬ isBlank ',' := by decide
  obtain ⟨c, more, htext, hblank, hbracket, -⟩ := hitem.begins level
  rw [htext, List.cons_append] at hvalue ⊢
  have hskip : skip ((newline level).toList ++ c :: (more ++ rest)) = c :: (more ++ rest) := by
    rw [skip_append (isBlank_of_mem_newline level), skip_of_not_isBlank hblank]
  rw [items, skip_of_not_isBlank hcomma]
  simp [hskip, hbracket, hvalue]

/-- The items after the first one are read up to the end of the array. -/
theorem items_itemsTail {list : List Json} (h : ∀ item ∈ list, item.Complete ∧ Returns item)
    (hfuel : (itemsTail level list).length < fuel) (depth : Nat) (rest : List Char) :
    items fuel false (itemsTail level list ++ ((newline depth).toList ++ ']' :: rest)) =
      (list, .ok rest) := by
  induction list generalizing fuel with
  | nil =>
    obtain ⟨fuel, rfl⟩ := Nat.exists_eq_add_one_of_ne_zero (Nat.ne_of_gt hfuel)
    rw [itemsTail, List.nil_append, items_newline, items, skip_of_not_isBlank (by decide)]
    rfl
  | cons item list ih =>
    obtain ⟨hitem, hreturns⟩ := h item List.mem_cons_self
    rw [itemsTail, toList_prettyItems] at hfuel ⊢
    simp only [List.length_cons, List.length_append] at hfuel
    obtain ⟨fuel, rfl⟩ : ∃ n, fuel = n + 1 := ⟨fuel - 1, by omega⟩
    have hlength : (itemsTail level list).length < fuel := by omega
    have htail := ih (fun other hother => h other (List.mem_cons_of_mem _ hother)) hlength
    simp only [List.cons_append, List.append_assoc]
    rw [items_next hitem hreturns (by omega) (ends_itemsTail _ _ (ends_newline _ _)), htail]

theorem returns_array {list : List Json} (h : ∀ item ∈ list, item.Complete ∧ Returns item) :
    Returns (.ofList list) := by
  intro level fuel rest hfuel hrest
  cases list with
  | nil =>
    obtain ⟨fuel, rfl⟩ : ∃ n, fuel = n + 2 := ⟨fuel - 2, by simp [ofList, prettyAt] at hfuel; omega⟩
    simp [ofList, prettyAt, value, skip_of_not_isBlank, items, isBlank]
  | cons item list =>
    obtain ⟨hitem, hreturns⟩ := h item List.mem_cons_self
    rw [toList_prettyAt_array, toList_prettyItems] at hfuel ⊢
    simp only [List.length_cons, List.length_append] at hfuel
    obtain ⟨fuel, rfl⟩ : ∃ n, fuel = n + 2 := ⟨fuel - 2, by omega⟩
    have hlength : (itemsTail (level + 1) list).length < fuel := by omega
    have htail := items_itemsTail (fun other hother => h other (List.mem_cons_of_mem _ hother))
      hlength level rest
    have hfirst : (prettyAt (level + 1) item).toList.length < fuel := by omega
    have hitems := items_first hitem hreturns hfirst
      (ends_itemsTail (level + 1) list (ends_newline level (']' :: rest)))
    rw [htail] at hitems
    simp only [List.cons_append, List.append_assoc, List.nil_append]
    rw [value, skip_of_not_isBlank (by decide)]
    simp only [items_newline, hitems]
    rfl

variable {name : String}

theorem skip_colon (rest : List Char) : skip (':' :: rest) = ':' :: rest :=
  skip_of_not_isBlank (by decide) rest

variable (name) in
/-- The first member is read, and then the ones after it. -/
theorem members_first (h : Returns item)
    (hfuel : (prettyAt level item).toList.length < fuel) (hrest : Ends rest) :
    members (fuel + 1) true ((Print.quoted name).toList ++
        (':' :: ' ' :: ((prettyAt level item).toList ++ rest))) =
      ((name, item) :: (members fuel false rest).1, (members fuel false rest).2) := by
  have hvalue := h level fuel rest hfuel hrest
  rw [toList_quoted, List.cons_append, List.append_assoc, List.singleton_append, members,
    skip_of_not_isBlank (by decide)]
  simp [text_quoted, skip_colon, value_blank, isBlank, hvalue]

/-- A member after another one is read after the comma between them. -/
theorem members_next (h : Returns item)
    (hfuel : (prettyAt level item).toList.length < fuel) (hrest : Ends rest) :
    members (fuel + 1) false (',' :: ((newline level).toList ++ ((Print.quoted name).toList ++
        (':' :: ' ' :: ((prettyAt level item).toList ++ rest))))) =
      ((name, item) :: (members fuel false rest).1, (members fuel false rest).2) := by
  have hvalue := h level fuel rest hfuel hrest
  have hskip : ∀ more, skip ((newline level).toList ++ '"' :: more) = '"' :: more := fun more => by
    rw [skip_append (isBlank_of_mem_newline level), skip_of_not_isBlank (by decide)]
  rw [toList_quoted, List.cons_append, List.append_assoc, List.singleton_append, members,
    skip_of_not_isBlank (by decide)]
  simp [hskip, text_quoted, skip_colon, value_blank, isBlank, hvalue]

/-- The members after the first one are read up to the end of the object. -/
theorem members_membersTail {list : List (String × Json)} (h : ∀ member ∈ list, Returns member.2)
    (hfuel : (membersTail level list).length < fuel) (depth : Nat) (rest : List Char) :
    members fuel false (membersTail level list ++ ((newline depth).toList ++ '\x7d' :: rest)) =
      (list, .ok rest) := by
  induction list generalizing fuel with
  | nil =>
    obtain ⟨fuel, rfl⟩ := Nat.exists_eq_add_one_of_ne_zero (Nat.ne_of_gt hfuel)
    rw [membersTail, List.nil_append, members_newline, members, skip_of_not_isBlank (by decide)]
    rfl
  | cons member list ih =>
    obtain ⟨name, item⟩ := member
    have hreturns : Returns item := h _ List.mem_cons_self
    rw [membersTail, toList_prettyMembers] at hfuel ⊢
    simp only [List.length_cons, List.length_append] at hfuel
    obtain ⟨fuel, rfl⟩ : ∃ n, fuel = n + 1 := ⟨fuel - 1, by omega⟩
    have hlength : (membersTail level list).length < fuel := by omega
    have htail := ih (fun other hother => h other (List.mem_cons_of_mem _ hother)) hlength
    simp only [List.cons_append, List.append_assoc]
    rw [members_next hreturns (by omega) (ends_membersTail _ _ (ends_newline _ _)), htail]

theorem returns_object {list : List (String × Json)} (h : ∀ member ∈ list, Returns member.2) :
    Returns (.ofMembers list) := by
  intro level fuel rest hfuel hrest
  cases list with
  | nil =>
    obtain ⟨fuel, rfl⟩ : ∃ n, fuel = n + 2 :=
      ⟨fuel - 2, by simp [ofMembers, prettyAt] at hfuel; omega⟩
    simp [ofMembers, prettyAt, value, skip_of_not_isBlank, members, isBlank]
  | cons member list =>
    obtain ⟨name, item⟩ := member
    have hreturns : Returns item := h _ List.mem_cons_self
    rw [toList_prettyAt_object, toList_prettyMembers] at hfuel ⊢
    simp only [List.length_cons, List.length_append] at hfuel
    obtain ⟨fuel, rfl⟩ : ∃ n, fuel = n + 2 := ⟨fuel - 2, by omega⟩
    have hlength : (membersTail (level + 1) list).length < fuel := by omega
    have htail := members_membersTail (fun other hother => h other (List.mem_cons_of_mem _ hother))
      hlength level rest
    have hfirst : (prettyAt (level + 1) item).toList.length < fuel := by omega
    have hmembers := members_first name hreturns hfirst
      (ends_membersTail (level + 1) list (ends_newline level ('\x7d' :: rest)))
    rw [htail] at hmembers
    simp only [List.cons_append, List.append_assoc, List.nil_append]
    rw [value, skip_of_not_isBlank (by decide)]
    simp only [members_newline, hmembers]
    rfl

theorem returns_null : Returns .null := by
  intro level fuel rest hfuel _
  obtain ⟨fuel, rfl⟩ := Nat.exists_eq_add_one_of_ne_zero (Nat.ne_of_gt (Nat.zero_lt_of_lt hfuel))
  simp [prettyAt, value, skip_of_not_isBlank, isBlank, wordTail, scalar, Except.map]

theorem returns_bool (flag : Bool) : Returns (.bool flag) := by
  intro level fuel rest hfuel _
  obtain ⟨fuel, rfl⟩ := Nat.exists_eq_add_one_of_ne_zero (Nat.ne_of_gt (Nat.zero_lt_of_lt hfuel))
  cases flag <;> simp [prettyAt, value, skip_of_not_isBlank, isBlank, wordTail, scalar, Except.map]

theorem returns_string (string : String) : Returns (.string string) := by
  intro level fuel rest hfuel _
  obtain ⟨fuel, rfl⟩ := Nat.exists_eq_add_one_of_ne_zero (Nat.ne_of_gt (Nat.zero_lt_of_lt hfuel))
  rw [toList_prettyAt_string, List.cons_append, List.append_assoc, List.singleton_append, value,
    skip_of_not_isBlank (by decide)]
  simp only [text_quoted]
  rfl

/-- A value that begins like a number is read as one. -/
theorem value_number {c : Char} (hc : c = '-' ∨ c.isDigit) (fuel : Nat) (more : List Char) :
    value (fuel + 1) (c :: more) = scalar (.number <| String.ofList ·) (numberTail (c :: more)) := by
  have hblank : ¬ isBlank c := by
    rcases hc with rfl | hc
    · decide
    · exact (begins_of_isDigit hc).1
  have hother : ∀ d : Char, d ≠ '-' → ¬ d.isDigit → c ≠ d := by
    rintro d hsign hdigit rfl
    exact hc.elim hsign hdigit
  have hnumber : (c = '-' || c.isDigit) = true := by simpa using hc
  rw [value, skip_of_not_isBlank hblank]
  split
  case h_8 heq =>
    rw [← (List.cons.inj heq).1, ← (List.cons.inj heq).2, hnumber]
    rfl
  case h_1 heq => cases heq
  all_goals
    rename_i heq
    exact absurd (List.cons.inj heq).1 (hother _ (by decide) (by decide))

theorem returns_number {number : Number.Value} (h : number.Integral) :
    Returns (.number number.spelling) := by
  intro level fuel rest hfuel hrest
  obtain ⟨fuel, rfl⟩ := Nat.exists_eq_add_one_of_ne_zero (Nat.ne_of_gt (Nat.zero_lt_of_lt hfuel))
  obtain ⟨c, more, hspelling, hc⟩ := Number.Value.begins h
  have htail : numberTail (number.spelling.toList ++ rest) = .ok (number.spelling.toList, rest) := by
    cases number with
    | whole n =>
      rw [Number.Value.spelling, Number.toList_toString]
      exact numberTail_toDigits n hrest
    | below n =>
      rw [Number.Value.spelling, String.toList_append, Number.toList_toString]
      exact numberTail_neg n hrest
    | double x => exact absurd h id
  rw [toList_prettyAt_number]
  rw [hspelling, List.cons_append] at htail ⊢
  rw [value_number hc, htail, ← hspelling]
  simp [scalar]

end Read

theorem Complete.returns {json : Json} (h : json.Complete) : Read.Returns json := by
  induction h with
  | null => exact Read.returns_null
  | bool flag => exact Read.returns_bool flag
  | number h => exact Read.returns_number h
  | string text => exact Read.returns_string text
  | array h ih => exact Read.returns_array fun item hitem => ⟨h item hitem, ih item hitem⟩
  | object _ ih => exact Read.returns_object ih

/-- A complete value is read back from its text. -/
theorem Complete.ofText_pretty {json : Json} (h : json.Complete) :
    Document.ofText json.pretty = ⟨json, none⟩ := by
  have hvalue := h.returns 0 (json.pretty.length + 1) [] (Nat.lt_succ_self _) (by simp [Read.Ends])
  rw [List.append_nil] at hvalue
  unfold Document.ofText
  rw [pretty] at hvalue ⊢
  rw [hvalue]
  rfl

end CodeGraph.Json
