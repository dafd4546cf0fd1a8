import CodeGraph.Proofs.Web.Path

/-! Addresses that go on where another one ends. They are read as the other one is, and then their
path goes on, until something else begins. -/
namespace CodeGraph.Url

def trimmed (text : List Char) : List Char := text.rdropWhile (· ≤ ' ')

def inPath (c : Char) : Bool := c ≠ '?' ∧ c ≠ '#'

/-- The user, the host and the number of an address. -/
def authority? (secure : Bool) (text : List Char) : Option (List Char × List Char × Option Nat) := do
  let (user, hostPort) := splitUser text
  let (host, after) := splitPort false hostPort
  let host ← if host.isEmpty then none else Web.Address.host? host
  let portNumber? ← readPort? secure after
  return (user, host, portNumber?)

def queryOf? (text : List Char) : Option String :=
  let query := text.takeWhile (· ≠ '#')
  if query.isEmpty then none
  else some (String.ofList (Text.Percent.encode querySet (query.drop 1)))

def fragmentOf? (text : List Char) : Option String :=
  let fragment := text.dropWhile (· ≠ '#')
  if fragment.isEmpty then none
  else some (String.ofList (Text.Percent.encode fragmentSet (fragment.drop 1)))

/-- An address whose path begins with a text. -/
def ofRest (secure : Bool) (authority : List Char × List Char × Option Nat) (rest : List Char) :
    Url where
  secure
  user := String.ofList (userText authority.1)
  host := String.ofList authority.2.1
  portNumber? := authority.2.2
  path := pathOf (rest.takeWhile inPath)
  query? := queryOf? (rest.dropWhile inPath)
  fragment? := fragmentOf? (rest.dropWhile inPath)

theorem ofText?_eq (text : String) : ofText? text =
    (scheme? (tidy text.toList)).bind fun found =>
      (authority? found.1 ((found.2.dropWhile isSlash).takeWhile (! endsAuthority ·))).map
        fun authority => ofRest found.1 authority
          ((found.2.dropWhile isSlash).dropWhile (! endsAuthority ·)) := by
  unfold ofText? authority?
  cases scheme? (tidy text.toList) with
  | none => rfl
  | some found =>
    dsimp only [bind, Option.bind]
    generalize splitUser _ = user
    generalize splitPort false user.2 = port
    cases port.1.isEmpty with
    | true => rfl
    | false =>
      cases Web.Address.host? port.1 with
      | none => rfl
      | some host => cases readPort? found.1 port.2 <;> rfl

variable {base : Url} {secure : Bool} {service : String} {mark : Char}
  {start rest tail : List Char}

theorem takeWhile_append_mark {keeps : Char → Bool} (h : keeps mark = false)
    (start tail : List Char) :
    (start ++ mark :: tail).takeWhile keeps = start.takeWhile keeps := by
  induction start with
  | nil => exact List.takeWhile_cons_of_neg (by simp [h])
  | cons c start ih => rw [List.cons_append, List.takeWhile_cons, List.takeWhile_cons, ih]

theorem dropWhile_append_mark {keeps : Char → Bool} (h : keeps mark = false)
    (start tail : List Char) :
    (start ++ mark :: tail).dropWhile keeps = start.dropWhile keeps ++ mark :: tail := by
  induction start with
  | nil => exact List.dropWhile_cons_of_neg (by simp [h])
  | cons c start ih =>
    rw [List.cons_append, List.dropWhile_cons, List.dropWhile_cons, ih]
    split_ifs <;> rfl

theorem trimmed_append_mark (h : decide (mark ≤ ' ') = false) (start tail : List Char) :
    trimmed (start ++ mark :: tail) = start ++ mark :: trimmed tail := by
  unfold trimmed List.rdropWhile
  rw [List.reverse_append, List.reverse_cons, List.append_assoc, List.singleton_append,
    dropWhile_append_mark h, List.reverse_append, List.reverse_cons, List.reverse_reverse,
    List.append_assoc, List.singleton_append]

/-- Whether a text holds none of the characters that are left out of an address. -/
def IsWhole (text : List Char) : Prop := ∀ c ∈ text, c ≠ '\t' ∧ c ≠ '\n' ∧ c ≠ '\r'

theorem isWhole_of_printable {text : List Char} (h : ∀ c ∈ text, ' ' ≤ c) : IsWhole text := by
  intro c hc
  have hle := h c hc
  refine ⟨?_, ?_, ?_⟩ <;> rintro rfl <;> exact absurd hle (by decide)

theorem exists_tidy (start : List Char) : ∃ front, ∀ tail, IsWhole tail →
    tidy (start ++ '/' :: tail) = front ++ '/' :: trimmed tail := by
  refine ⟨(start.dropWhile (· ≤ ' ')).filter fun c => c ≠ '\t' ∧ c ≠ '\n' ∧ c ≠ '\r',
    fun tail htail => ?_⟩
  have hslash : decide ('/' ≤ ' ') = false := by decide
  have hkept : (trimmed tail).filter (fun c => c ≠ '\t' ∧ c ≠ '\n' ∧ c ≠ '\r') = trimmed tail := by
    refine List.filter_eq_self.2 fun c hc => decide_eq_true (htail c ?_)
    exact (List.rdropWhile_prefix _ _).mem hc
  have htidy : ∀ text : List Char, tidy text = (trimmed (text.dropWhile (· ≤ ' '))).filter
      fun c => c ≠ '\t' ∧ c ≠ '\n' ∧ c ≠ '\r' := fun _ => rfl
  rw [htidy, dropWhile_append_mark hslash, trimmed_append_mark hslash, List.filter_append,
    List.filter_cons_of_pos (by decide), hkept]

theorem exists_scheme (h : scheme? (start ++ ['/']) = some (secure, rest)) : ∃ front,
    rest = front ++ ['/'] ∧
      ∀ tail, scheme? (start ++ '/' :: tail) = some (secure, front ++ '/' :: tail) := by
  have hcolon : ':' ∈ start := by
    by_contra hnone
    have hcontains : ¬ (start ++ ['/']).contains ':' := by simpa using hnone
    rw [scheme?, if_pos hcontains] at h
    cases h
  obtain ⟨name, front, rfl, hname⟩ := List.eq_append_cons_of_mem hcolon
  have hall : ∀ c ∈ name, decide (c ≠ ':') = true := fun c hc =>
    decide_eq_true fun heq => hname (heq ▸ hc)
  have hbefore : ∀ tail, (name ++ ':' :: front ++ tail).takeWhile (· ≠ ':') = name := by
    intro tail
    rw [List.append_assoc, List.takeWhile_append_of_pos hall, List.cons_append,
      List.takeWhile_cons_of_neg (by simp), List.append_nil]
  have hafter : ∀ tail, (name ++ ':' :: front ++ tail).dropWhile (· ≠ ':') =
      ':' :: front ++ tail := by
    intro tail
    rw [List.append_assoc, List.dropWhile_append_of_pos hall, List.cons_append,
      List.dropWhile_cons_of_neg (by simp)]
  have hcontains : ∀ tail, ¬ ¬ (name ++ ':' :: front ++ tail).contains ':' := by simp
  have hscheme : ∀ tail, scheme? (name ++ ':' :: front ++ tail) =
      if name.map Char.toLower = "http".toList then some (false, front ++ tail)
      else if name.map Char.toLower = "https".toList then some (true, front ++ tail) else none := by
    intro tail
    rw [scheme?, if_neg (hcontains tail), hbefore, hafter]
    rfl
  refine ⟨front, ?_, fun tail => ?_⟩
  · rw [hscheme] at h
    split_ifs at h
    · exact (Prod.mk.inj (Option.some.inj h)).2.symm
    · exact (Prod.mk.inj (Option.some.inj h)).2.symm
  · rw [hscheme] at h ⊢
    split_ifs at h ⊢
    · rw [(Prod.mk.inj (Option.some.inj h)).1]
    · rw [(Prod.mk.inj (Option.some.inj h)).1]

theorem queryOf?_and_fragmentOf?_iff (rest : List Char) :
    queryOf? rest = none ∧ fragmentOf? rest = none ↔ rest = [] := by
  constructor
  · rintro ⟨hquery, hfragment⟩
    have hbefore : rest.takeWhile (· ≠ '#') = [] := by
      by_contra hne
      rw [queryOf?, if_neg (by simpa using hne)] at hquery
      cases hquery
    have hafter : rest.dropWhile (· ≠ '#') = [] := by
      by_contra hne
      rw [fragmentOf?, if_neg (by simpa using hne)] at hfragment
      cases hfragment
    rw [← @List.takeWhile_append_dropWhile _ (· ≠ '#') rest, hbefore, hafter, List.nil_append]
  · rintro rfl
    exact ⟨rfl, rfl⟩

theorem exists_above (start : List Char) : ∃ above : List (List Char), ∀ tail,
    pathOf (start ++ '/' :: tail) =
      (fold above (Path.split (tail.map Path.unify))).map String.ofList := by
  have hslash : ∀ start tail : List Char, fold [] (splitPath (start ++ '/' :: tail)) =
      fold (stacked [] (Path.split (start.map Path.unify))) (Path.split (tail.map Path.unify)) := by
    intro start tail
    have hunify : (start ++ '/' :: tail).map Path.unify =
        start.map Path.unify ++ '/' :: tail.map Path.unify := by simp [Path.unify]
    rw [splitPath_eq, hunify, Path.split_append_slash, fold_append _ _ (Path.split_ne_nil _)]
  cases start with
  | nil => exact ⟨[], fun tail => by rw [List.nil_append, pathOf, splitPath_eq]; rfl⟩
  | cons c start =>
    by_cases hc : isSlash c = true
    · refine ⟨stacked [] (Path.split (start.map Path.unify)), fun tail => ?_⟩
      rw [List.cons_append, pathOf, if_pos hc, hslash]
    · refine ⟨stacked [] (Path.split ((c :: start).map Path.unify)), fun tail => ?_⟩
      rw [List.cons_append, pathOf, if_neg hc, ← List.cons_append, hslash]

theorem dropWhile_isSlash_ne_nil {authority : List Char × List Char × Option Nat}
    (h : authority? secure (((start ++ ['/']).dropWhile isSlash).takeWhile (! endsAuthority ·)) =
      some authority) : start.dropWhile isSlash ≠ [] := by
  intro hnil
  have hall : ∀ c ∈ start ++ ['/'], isSlash c = true :=
    List.forall_mem_append.2 ⟨List.dropWhile_eq_nil_iff.1 hnil, List.forall_mem_singleton.2 rfl⟩
  have hnone : (start ++ ['/']).dropWhile isSlash = [] := List.dropWhile_eq_nil_iff.2 hall
  rw [hnone] at h
  cases h

/-- Whatever comes behind a slash at the end of an address, the part before it is read alike. -/
theorem exists_ofRest (hbase : ofText? (service ++ "/") = some base) :
    ∃ secure authority behind, base = ofRest secure authority (behind ++ ['/']) ∧
      ∀ tail, IsWhole tail → ofText? (service ++ "/" ++ String.ofList tail) =
        some (ofRest secure authority (behind ++ '/' :: trimmed tail)) := by
  have hservice : ∀ tail, (service ++ "/" ++ String.ofList tail).toList =
      service.toList ++ '/' :: tail := by simp
  have hbare : (service ++ "/").toList = service.toList ++ '/' :: [] := by simp
  obtain ⟨front, hfront⟩ := exists_tidy service.toList
  have hempty : trimmed [] = [] := rfl
  rw [ofText?_eq, hbare, hfront [] nofun, hempty] at hbase
  obtain ⟨⟨secure, rest⟩, hscheme, hauthority⟩ := Option.bind_eq_some_iff.1 hbase
  obtain ⟨start, rfl, hschemes⟩ := exists_scheme hscheme
  obtain ⟨authority, hfound, hrest⟩ := Option.map_eq_some_iff.1 hauthority
  have hends : (! endsAuthority '/') = false := rfl
  -- the slashes before the host do not reach the one at the end
  have hslashes : ∀ tail, (start ++ '/' :: tail).dropWhile isSlash =
      start.dropWhile isSlash ++ '/' :: tail := by
    intro tail
    rw [List.dropWhile_append, if_neg (by simpa using dropWhile_isSlash_ne_nil hfound)]
  rw [hslashes, takeWhile_append_mark hends] at hfound
  rw [hslashes, dropWhile_append_mark hends] at hrest
  refine ⟨secure, authority, _, hrest.symm, fun tail htail => ?_⟩
  rw [ofText?_eq, hservice, hfront tail htail, hschemes, Option.bind_some]
  dsimp only
  rw [hslashes, takeWhile_append_mark hends, dropWhile_append_mark hends, hfound]
  rfl

/-- An address that goes on behind another one. -/
theorem exists_ofText?_append (hbase : ofText? (service ++ "/") = some base)
    (hquery : base.query? = none) (hfragment : base.fragment? = none) :
    ∃ above : List (List Char), base.path = (above.reverse ++ [[]]).map String.ofList ∧
      ∀ tail, IsWhole tail → ofText? (service ++ "/" ++ String.ofList tail) =
        some { base with
          path := (fold above (Path.split (((trimmed tail).takeWhile inPath).map Path.unify))).map
            String.ofList
          query? := queryOf? ((trimmed tail).dropWhile inPath)
          fragment? := fragmentOf? ((trimmed tail).dropWhile inPath) } := by
  obtain ⟨secure, authority, behind, rfl, hrests⟩ := exists_ofRest hbase
  obtain ⟨above, habove⟩ := exists_above behind
  have hwhole : ∀ c ∈ behind ++ ['/'], inPath c = true :=
    List.dropWhile_eq_nil_iff.1 ((queryOf?_and_fragmentOf?_iff _).1 ⟨hquery, hfragment⟩)
  have hpath : ∀ tail, (behind ++ '/' :: tail).takeWhile inPath =
      behind ++ '/' :: tail.takeWhile inPath := by
    intro tail
    rw [List.append_cons, List.takeWhile_append_of_pos hwhole, ← List.append_cons]
  have hrest : ∀ tail, (behind ++ '/' :: tail).dropWhile inPath = tail.dropWhile inPath := by
    intro tail
    rw [List.append_cons, List.dropWhile_append_of_pos hwhole]
  refine ⟨above, ?_, fun tail htail => ?_⟩
  · have hfold : fold above [[]] = above.reverse ++ [[]] :=
      fold_plain above (List.forall_mem_singleton.2 ⟨by decide, by decide⟩)
    show pathOf ((behind ++ '/' :: []).takeWhile inPath) = _
    rw [hpath, habove]
    exact congrArg (List.map String.ofList) hfold
  · rw [hrests tail htail, ofRest, hpath, hrest, habove]
    rfl

end CodeGraph.Url
