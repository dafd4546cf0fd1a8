import CodeGraph.Repository.Locator
import Mathlib

/-! The texts that name a repository. The first place counts where the site is followed by an owner
and a name, and all that stands before the next slash belongs to the name. -/
namespace CodeGraph.Repository.Locator

/-- A name, and what is left of it without one ending. -/
def IsCut (name short : List Char) : Prop :=
  name = short ++ ending ∨ name = short ∧ ¬ ending <:+ name

variable {text before owner name short part rest more : List Char} {c : Char}

theorem endsSegment_slash (rest : List Char) : EndsSegment ('/' :: rest) := by
  rintro c ⟨⟩
  rfl

/-- Up to the next slash there is one way to cut a text. -/
theorem takeWhile_and_dropWhile_iff :
    text.takeWhile (· ≠ '/') = part ∧ text.dropWhile (· ≠ '/') = rest ↔
      text = part ++ rest ∧ '/' ∉ part ∧ EndsSegment rest := by
  constructor
  · rintro ⟨rfl, rfl⟩
    refine ⟨List.takeWhile_append_dropWhile.symm, fun hmem => ?_, fun c hc => ?_⟩
    · simpa using List.mem_takeWhile_imp hmem
    · have hhead := List.head?_dropWhile_not (· ≠ '/') text
      rw [Option.mem_def.1 hc] at hhead
      simpa using hhead
  · rintro ⟨rfl, hpart, hrest⟩
    have hall : ∀ c ∈ part, decide (c ≠ '/') = true :=
      fun c hc => decide_eq_true fun heq : c = '/' => hpart (heq ▸ hc)
    rw [List.takeWhile_append_of_pos hall, List.dropWhile_append_of_pos hall]
    cases rest with
    | nil => simp
    | cons c rest =>
      obtain rfl := hrest c rfl
      simp

theorem takeWhile_of_cut (hpart : '/' ∉ part) (hrest : EndsSegment rest) :
    (part ++ rest).takeWhile (· ≠ '/') = part :=
  (takeWhile_and_dropWhile_iff.2 ⟨rfl, hpart, hrest⟩).1

theorem dropWhile_of_cut (hpart : '/' ∉ part) (hrest : EndsSegment rest) :
    (part ++ rest).dropWhile (· ≠ '/') = rest :=
  (takeWhile_and_dropWhile_iff.2 ⟨rfl, hpart, hrest⟩).2

theorem cut_spec (text : List Char) :
    text = text.takeWhile (· ≠ '/') ++ text.dropWhile (· ≠ '/') ∧
      '/' ∉ text.takeWhile (· ≠ '/') ∧ EndsSegment (text.dropWhile (· ≠ '/')) :=
  takeWhile_and_dropWhile_iff.1 ⟨rfl, rfl⟩

theorem afterSite?_eq_some_iff : afterSite? text = some (owner, name) ↔
    IsSegment owner ∧ IsSegment name ∧
      ∃ rest, EndsSegment rest ∧ text = owner ++ '/' :: name ++ rest := by
  constructor
  · intro h
    obtain ⟨htext, howner, hends⟩ := cut_spec text
    unfold afterSite? at h
    dsimp only at h
    generalize text.takeWhile (· ≠ '/') = start at h htext howner
    generalize text.dropWhile (· ≠ '/') = tail at h htext hends
    split_ifs at h with hempty
    obtain ⟨hstart, hbehind⟩ := not_or.1 hempty
    obtain ⟨rfl, rfl⟩ := Prod.mk.inj (Option.some.inj h)
    cases tail with
    | nil => exact absurd rfl hbehind
    | cons c behind =>
      obtain rfl := hends c rfl
      obtain ⟨hsplit, hname, hendsName⟩ := cut_spec behind
      refine ⟨⟨by simpa using hstart, howner⟩, ⟨by simpa using hbehind, hname⟩, _, hendsName, ?_⟩
      rw [htext, List.append_assoc, List.cons_append]
      exact congrArg (start ++ '/' :: ·) hsplit
  · rintro ⟨howner, hname, rest, hrest, rfl⟩
    unfold afterSite?
    dsimp only
    rw [List.append_assoc, List.cons_append, takeWhile_of_cut howner.slash (endsSegment_slash _),
      dropWhile_of_cut howner.slash (endsSegment_slash _), List.drop_one, List.tail_cons,
      takeWhile_of_cut hname.slash hrest]
    simp [howner.ne_nil, hname.ne_nil]

def here? (text : List Char) : Option (List Char × List Char) :=
  if site.isPrefixOf text then afterSite? (text.drop site.length) else none

theorem here?_eq_some_iff : here? text = some (owner, name) ↔ NamedAt text [] owner name := by
  unfold here?
  constructor
  · intro h
    split_ifs at h with hsite
    obtain ⟨howner, hname, rest, hrest, htail⟩ := afterSite?_eq_some_iff.1 h
    refine ⟨howner, hname, rest, hrest, ?_⟩
    have htext := List.prefix_iff_eq_append.1 (List.isPrefixOf_iff_prefix.1 hsite)
    rw [← htext, htail]
    simp
  · rintro ⟨howner, hname, rest, hrest, rfl⟩
    have htext : [] ++ site ++ owner ++ '/' :: name ++ rest =
        site ++ (owner ++ '/' :: name ++ rest) := by simp
    rw [htext, if_pos (List.isPrefixOf_iff_prefix.2 (List.prefix_append _ _)), List.drop_left]
    exact afterSite?_eq_some_iff.2 ⟨howner, hname, rest, hrest, rfl⟩

theorem find?_cons (c : Char) (rest : List Char) :
    find? (c :: rest) = (here? (c :: rest)).or (find? rest) := by
  rw [find?, here?]
  generalize (if site.isPrefixOf (c :: rest) then _ else none) = found?
  cases found? <;> rfl

theorem not_namedAt_nil : ¬ NamedAt [] before owner name := by
  rintro ⟨-, -, rest, -, htext⟩
  simp at htext

theorem namedAt_cons_cons {d : Char} :
    NamedAt (c :: text) (d :: before) owner name ↔ c = d ∧ NamedAt text before owner name := by
  constructor
  · rintro ⟨howner, hname, rest, hrest, htext⟩
    obtain ⟨hc, htext⟩ := List.cons.inj htext
    exact ⟨hc, howner, hname, rest, hrest, htext⟩
  · rintro ⟨rfl, howner, hname, rest, hrest, rfl⟩
    exact ⟨howner, hname, rest, hrest, rfl⟩

theorem namedFirst_cons_of_none (h : here? (c :: text) = none) :
    (∃ before, NamedFirst (c :: text) before owner name) ↔
      ∃ before, NamedFirst text before owner name := by
  have hnot : ∀ {owner name}, ¬ NamedAt (c :: text) [] owner name := by
    intro owner name hnamed
    rw [here?_eq_some_iff.2 hnamed] at h
    cases h
  constructor
  · rintro ⟨_ | ⟨d, before⟩, hnamed, hfirst⟩
    · exact absurd hnamed hnot
    · obtain ⟨rfl, hbehind⟩ := namedAt_cons_cons.1 hnamed
      refine ⟨before, hbehind, fun earlier other another hearlier => ?_⟩
      have := hfirst (c :: earlier) other another (namedAt_cons_cons.2 ⟨rfl, hearlier⟩)
      simpa using this
  · rintro ⟨before, hnamed, hfirst⟩
    refine ⟨c :: before, namedAt_cons_cons.2 ⟨rfl, hnamed⟩, ?_⟩
    rintro (_ | ⟨d, earlier⟩) other another hearlier
    · exact absurd hearlier hnot
    · obtain ⟨rfl, hbehind⟩ := namedAt_cons_cons.1 hearlier
      simpa using hfirst earlier other another hbehind

/-- The search finds the first place. -/
theorem find?_eq_some_iff :
    find? text = some (owner, name) ↔ ∃ before, NamedFirst text before owner name := by
  induction text with
  | nil =>
    constructor
    · intro h
      cases h
    · rintro ⟨before, hnamed, -⟩
      exact absurd hnamed not_namedAt_nil
  | cons c text ih =>
    rw [find?_cons]
    cases hhere : here? (c :: text) with
    | none => rw [Option.none_or, ih, namedFirst_cons_of_none hhere]
    | some found =>
      obtain ⟨foundOwner, foundName⟩ := found
      have hfound := here?_eq_some_iff.1 hhere
      rw [Option.some_or]
      constructor
      · rintro ⟨⟩
        exact ⟨[], hfound, fun _ _ _ _ => Nat.zero_le _⟩
      · rintro ⟨before, hnamed, hfirst⟩
        obtain rfl := List.length_eq_zero_iff.1 (Nat.le_zero.1 (hfirst [] _ _ hfound))
        rw [← hhere, here?_eq_some_iff.2 hnamed]

theorem find?_eq_none_iff :
    find? text = none ↔ ∀ before owner name, ¬ NamedAt text before owner name := by
  induction text with
  | nil => exact iff_of_true rfl fun _ _ _ => not_namedAt_nil
  | cons c text ih =>
    rw [find?_cons, Option.or_eq_none_iff, ih]
    constructor
    · rintro ⟨hhere, hlater⟩ before owner name hnamed
      cases before with
      | nil =>
        rw [here?_eq_some_iff.2 hnamed] at hhere
        cases hhere
      | cons d before => exact hlater before owner name (namedAt_cons_cons.1 hnamed).2
    · intro h
      constructor
      · cases hhere : here? (c :: text) with
        | none => rfl
        | some found => exact absurd (here?_eq_some_iff.1 hhere) (h [] found.1 found.2)
      · intro before owner name hnamed
        exact h (c :: before) owner name (namedAt_cons_cons.2 ⟨rfl, hnamed⟩)

/-- The site does not overlap itself. -/
theorem not_drop_site_isPrefix : ∀ n < site.length, 0 < n → ¬ site.drop n <+: site := by
  decide

theorem site_isPrefix_of_append {overhang tail : List Char} (hne : overhang ≠ [])
    (h : overhang ++ (site ++ more) = site ++ tail) : site <+: overhang := by
  rcases List.append_eq_append_iff.1 h with ⟨left, hsite, htail⟩ | ⟨left, hover, -⟩
  · have hleft : left = site.drop overhang.length := by rw [hsite, List.drop_left]
    rcases Nat.lt_or_ge overhang.length site.length with hlt | hge
    · have hprefix : left <+: site := by
        refine List.prefix_of_prefix_length_le (htail ▸ List.prefix_append left tail)
          (List.prefix_append site more) ?_
        rw [hleft, List.length_drop]
        omega
      rw [hleft] at hprefix
      exact absurd hprefix (not_drop_site_isPrefix _ hlt (List.length_pos_iff.2 hne))
    · rw [hleft, List.drop_eq_nil_of_le hge, List.append_nil] at hsite
      exact hsite ▸ List.prefix_refl _
  · exact hover ▸ List.prefix_append _ _

/-- Behind a text without the site, the site stands at its first place. -/
theorem namedFirst_of_not_infix (hbefore : ¬ site <:+: before) (howner : IsSegment owner)
    (hname : IsSegment name) (hrest : EndsSegment rest) :
    NamedFirst (before ++ site ++ owner ++ '/' :: name ++ rest) before owner name := by
  refine ⟨⟨howner, hname, rest, hrest, rfl⟩, ?_⟩
  rintro earlier other another ⟨-, -, behind, -, htext⟩
  by_contra hlt
  simp only [List.append_assoc] at htext
  rcases List.append_eq_append_iff.1 htext with ⟨overhang, hlonger, -⟩ | ⟨overhang, hlonger, hover⟩
  · rw [hlonger, List.length_append] at hlt
    omega
  · refine hbefore ?_
    have hne : overhang ≠ [] := by
      rintro rfl
      rw [hlonger, List.append_nil] at hlt
      exact hlt le_rfl
    obtain ⟨left, rfl⟩ := site_isPrefix_of_append hne hover.symm
    exact ⟨earlier, left, by rw [hlonger, List.append_assoc]⟩

theorem isCut_iff : IsCut name short ↔ cutEnding name = short := by
  unfold cutEnding
  constructor
  · rintro (rfl | ⟨rfl, hending⟩)
    · rw [if_pos (List.isSuffixOf_iff_suffix.2 (List.suffix_append _ _)), List.length_append,
        Nat.add_sub_cancel, List.take_left]
    · rw [if_neg (mt List.isSuffixOf_iff_suffix.1 hending)]
  · rintro rfl
    split_ifs with hending
    · exact .inl (List.suffix_iff_eq_append.1 (List.isSuffixOf_iff_suffix.1 hending)).symm
    · exact .inr ⟨rfl, mt List.isSuffixOf_iff_suffix.2 hending⟩

theorem isCut_cutEnding (name : List Char) : IsCut name (cutEnding name) := isCut_iff.2 rfl

theorem IsCut.isPrefix (h : IsCut name short) : short <+: name := by
  rcases h with rfl | ⟨rfl, -⟩
  · exact List.prefix_append _ _
  · exact List.prefix_refl _

def named? (owner name : List Char) : Option Locator :=
  if cutEnding name = [] then none
  else some ⟨String.ofList owner, String.ofList (cutEnding name)⟩

variable {locator another : Locator}

theorem ofText?_eq (text : String) :
    ofText? text = (find? text.toList).bind fun (owner, name) => named? owner name := by
  unfold ofText? named?
  cases find? text.toList with
  | none => rfl
  | some found => simp [List.isEmpty_iff]

theorem named?_eq_some_iff : named? owner name = some locator ↔
    owner = locator.owner.toList ∧ IsCut name locator.name.toList ∧ locator.name ≠ "" := by
  obtain ⟨foundOwner, foundName⟩ := locator
  unfold named?
  rw [isCut_iff]
  dsimp only
  constructor
  · intro h
    split_ifs at h with hempty
    obtain ⟨rfl, rfl⟩ := Locator.mk.inj (Option.some.inj h)
    simpa using hempty
  · rintro ⟨rfl, hcut, hname⟩
    rw [hcut, if_neg (by simpa using hname), String.ofList_toList, String.ofList_toList]

theorem named?_eq_none_iff : named? owner name = none ↔ IsCut name [] := by
  rw [isCut_iff]
  unfold named?
  split_ifs with hempty
  · exact iff_of_true rfl hempty
  · exact iff_of_false nofun hempty

theorem ofText?_of_namedFirst {text : String}
    (h : NamedFirst text.toList before owner name) : ofText? text = named? owner name := by
  rw [ofText?_eq, find?_eq_some_iff.2 ⟨before, h⟩]
  rfl

theorem ofText?_eq_some_iff {text : String} : ofText? text = some locator ↔
    ∃ before name, NamedFirst text.toList before locator.owner.toList name ∧
      IsCut name locator.name.toList ∧ locator.name ≠ "" := by
  constructor
  · intro h
    rw [ofText?_eq, Option.bind_eq_some_iff] at h
    obtain ⟨⟨owner, name⟩, hfound, hnamed⟩ := h
    obtain ⟨before, hfirst⟩ := find?_eq_some_iff.1 hfound
    obtain ⟨rfl, hcut, hname⟩ := named?_eq_some_iff.1 hnamed
    exact ⟨before, name, hfirst, hcut, hname⟩
  · rintro ⟨before, name, hfirst, hcut, hname⟩
    rw [ofText?_of_namedFirst hfirst]
    exact named?_eq_some_iff.2 ⟨rfl, hcut, hname⟩

theorem ofText?_eq_none_iff {text : String} : ofText? text = none ↔
    (∀ before owner name, ¬ NamedAt text.toList before owner name) ∨
      ∃ before owner name, NamedFirst text.toList before owner name ∧ IsCut name [] := by
  rw [← find?_eq_none_iff]
  constructor
  · intro h
    rw [ofText?_eq, Option.bind_eq_none_iff] at h
    cases hfound : find? text.toList with
    | none => exact .inl rfl
    | some found =>
      obtain ⟨owner, name⟩ := found
      obtain ⟨before, hfirst⟩ := find?_eq_some_iff.1 hfound
      exact .inr ⟨before, owner, name, hfirst, named?_eq_none_iff.1 (h _ hfound)⟩
  · rintro (hnone | ⟨before, owner, name, hfirst, hcut⟩)
    · rw [ofText?_eq, hnone]
      rfl
    · rw [ofText?_of_namedFirst hfirst]
      exact named?_eq_none_iff.2 hcut

theorem isSegment_of_ofText? {text : String} (h : ofText? text = some locator) :
    IsSegment locator.owner.toList ∧ IsSegment locator.name.toList := by
  obtain ⟨before, name, hfirst, hcut, hne⟩ := ofText?_eq_some_iff.1 h
  refine ⟨hfirst.isOwner, by simpa using hne, fun hslash => ?_⟩
  exact hfirst.isName.slash (hcut.isPrefix.subset hslash)

theorem toList_key (locator : Locator) :
    locator.key.toList = site ++ locator.owner.toList ++ '/' :: locator.name.toList := by
  have hslash : "/".toList = ['/'] := rfl
  simp only [key, String.toList_append, hslash, List.append_assoc, List.singleton_append]
  rfl

theorem key_inj (h : IsSegment locator.owner.toList) (hother : IsSegment another.owner.toList) :
    locator.key = another.key ↔ locator = another := by
  constructor
  · intro hkey
    have hlist := congrArg String.toList hkey
    rw [toList_key, toList_key, List.append_assoc, List.append_assoc] at hlist
    have hrest := List.append_cancel_left hlist
    have howner := congrArg (List.takeWhile (· ≠ '/')) hrest
    rw [takeWhile_of_cut h.slash (endsSegment_slash _),
      takeWhile_of_cut hother.slash (endsSegment_slash _)] at howner
    rw [howner] at hrest
    have hname := List.cons.inj (List.append_cancel_left hrest)
    obtain ⟨owner, name⟩ := locator
    obtain ⟨other, otherName⟩ := another
    exact Locator.mk.injEq _ _ _ _ ▸ ⟨String.toList_inj.1 howner, String.toList_inj.1 hname.2⟩
  · rintro rfl
    rfl

/-- A locator is found again behind any text without the site and before any slash. -/
theorem ofText?_append_key {before rest : String} (hbefore : ¬ site <:+: before.toList)
    (howner : IsSegment locator.owner.toList) (hname : IsSegment locator.name.toList)
    (hending : ¬ ending <:+ locator.name.toList) (hrest : EndsSegment rest.toList) :
    ofText? (before ++ locator.key ++ rest) = some locator := by
  have htext : (before ++ locator.key ++ rest).toList = before.toList ++ site ++
      locator.owner.toList ++ '/' :: locator.name.toList ++ rest.toList := by
    rw [String.toList_append, String.toList_append, toList_key]
    simp only [List.append_assoc]
  refine ofText?_eq_some_iff.2 ⟨before.toList, locator.name.toList, ?_, .inr ⟨rfl, hending⟩, ?_⟩
  · rw [htext]
    exact namedFirst_of_not_infix hbefore howner hname hrest
  · exact fun hempty => hname.ne_nil (by rw [hempty]; rfl)

/-- A text names the repository of the first place where the site is followed by an owner and a
name, without one ending, and none where there is no such place or no name is left. The key of a
repository tells it apart and names it. -/
theorem ofText?_language :
    (∀ text locator, ofText? text = some locator ↔
      ∃ before name, NamedFirst text.toList before locator.owner.toList name ∧
        IsCut name locator.name.toList ∧ locator.name ≠ "") ∧
    (∀ text, ofText? text = none ↔
      (∀ before owner name, ¬ NamedAt text.toList before owner name) ∨
        ∃ before owner name, NamedFirst text.toList before owner name ∧ IsCut name []) ∧
    (∀ text locator, ofText? text = some locator →
      IsSegment locator.owner.toList ∧ IsSegment locator.name.toList) ∧
    (∀ text other locator another, ofText? text = some locator → ofText? other = some another →
      (locator.key = another.key ↔ locator = another)) ∧
    ∀ text locator before rest, ofText? text = some locator →
      ¬ ending <:+ locator.name.toList → ¬ site <:+: before.toList → EndsSegment rest.toList →
        ofText? (before ++ locator.key ++ rest) = some locator := by
  refine ⟨fun text locator => ofText?_eq_some_iff, fun text => ofText?_eq_none_iff,
    fun text locator => isSegment_of_ofText?, ?_, ?_⟩
  · intro text other locator another h hother
    exact key_inj (isSegment_of_ofText? h).1 (isSegment_of_ofText? hother).1
  · intro text locator before rest h hending hbefore hrest
    obtain ⟨howner, hname⟩ := isSegment_of_ofText? h
    exact ofText?_append_key hbefore howner hname hending hrest

example : ofText? "github.com//github.com/github.com/widgets.git.git/tree" =
    some ⟨"github.com", "widgets.git"⟩ := by
  decide

def joins (more : List Char) : List Char := more.takeWhile (· ≠ '/')

section

variable {owner name before : String}

theorem toList_address (before owner name more : String) :
    (before ++ "github.com/" ++ owner ++ "/" ++ name ++ more).toList =
      before.toList ++ site ++ owner.toList ++ '/' :: (name.toList ++ joins more.toList) ++
        more.toList.dropWhile (· ≠ '/') := by
  have hslash : "/".toList = ['/'] := rfl
  have hmore : joins more.toList ++ more.toList.dropWhile (· ≠ '/') = more.toList :=
    List.takeWhile_append_dropWhile
  simp only [String.toList_append, hslash, List.append_assoc, List.cons_append, List.nil_append,
    hmore]
  rfl

/-- What joins the name of an address is part of the name that is found. -/
theorem ofText?_address (hbefore : ¬ site <:+: before.toList) (howner : IsSegment owner.toList)
    (hname : IsSegment name.toList) (more : String) :
    ofText? (before ++ "github.com/" ++ owner ++ "/" ++ name ++ more) =
      named? owner.toList (name.toList ++ joins more.toList) := by
  obtain ⟨-, hjoins, hrest⟩ := cut_spec more.toList
  have hlonger : IsSegment (name.toList ++ joins more.toList) :=
    ⟨List.append_ne_nil_of_left_ne_nil hname.ne_nil _,
      fun hmem => (List.mem_append.1 hmem).elim hname.slash hjoins⟩
  have hfirst := namedFirst_of_not_infix hbefore howner hlonger hrest
  rw [← toList_address] at hfirst
  exact ofText?_of_namedFirst hfirst

end

theorem cutEnding_append_eq_iff : cutEnding (name ++ more) = cutEnding name ↔
    more = [] ∨ more = ending ∧ ¬ ending <:+ name := by
  rw [← isCut_iff]
  constructor
  · rintro (hlonger | ⟨hlonger, hending⟩)
    · rcases isCut_cutEnding name with hname | ⟨hname, hending⟩
      · rw [← hname] at hlonger
        exact .inl (List.append_right_eq_self.1 hlonger)
      · rw [← hname] at hlonger
        exact .inr ⟨List.append_cancel_left hlonger, hending⟩
    · have hlength := (isCut_cutEnding name).isPrefix.length_le
      rw [← hlonger, List.length_append] at hlength
      exact .inl (List.length_eq_zero_iff.1 (by omega))
  · rintro (rfl | ⟨rfl, hending⟩)
    · rw [List.append_nil]
      exact isCut_cutEnding name
    · rw [isCut_iff.1 (.inr ⟨rfl, hending⟩)]
      exact .inl rfl

theorem named?_inj {other : List Char} :
    named? owner name = named? owner other ↔ cutEnding name = cutEnding other := by
  unfold named?
  split_ifs with h hother hother
  · exact iff_of_true rfl (h.trans hother.symm)
  · exact iff_of_false nofun fun heq => hother (heq ▸ h)
  · exact iff_of_false nofun fun heq => h (heq ▸ hother)
  · rw [Option.some.injEq, Locator.mk.injEq, and_iff_right rfl, String.ofList_inj]

/-- Cutting off the ending leaves what stands up to a character that is not in the ending. -/
theorem exists_cutEnding_eq (hc : c ∉ ending) (name more : List Char) :
    ∃ tail, cutEnding (name ++ c :: more) = name ++ c :: tail := by
  rcases isCut_cutEnding (name ++ c :: more) with hcut | ⟨hcut, -⟩
  · rcases List.append_eq_append_iff.1 hcut with ⟨middle, hshort, hmore⟩ | ⟨middle, -, hending⟩
    · cases middle with
      | nil =>
        rw [List.nil_append] at hmore
        exact absurd (hmore ▸ List.mem_cons_self) hc
      | cons d tail =>
        obtain ⟨rfl, -⟩ := List.cons.inj hmore
        exact ⟨tail, hshort⟩
    · exact absurd (hending ▸ List.mem_append_right _ List.mem_cons_self) hc
  · exact ⟨more, hcut.symm⟩

/-- Text behind an address leaves the locator alone exactly if nothing of it joins the name, or one
ending does. The mark of a query or of a fragment is always taken for a part of the name. -/
theorem ofText?_append_iff {before owner name : String} (hbefore : ¬ site <:+: before.toList)
    (howner : IsSegment owner.toList) (hname : IsSegment name.toList) :
    let address := before ++ "github.com/" ++ owner ++ "/" ++ name
    (∀ more, ofText? (address ++ more) = ofText? address ↔
      joins more.toList = [] ∨ joins more.toList = ending ∧ ¬ ending <:+ name.toList) ∧
    ∀ mark more, mark = '?' ∨ mark = '#' →
      (∃ tail, ofText? (address ++ (String.singleton mark ++ more)) =
        some ⟨owner, name ++ String.singleton mark ++ tail⟩) ∧
      ofText? (address ++ (String.singleton mark ++ more)) ≠ ofText? address := by
  intro address
  have haddress : ofText? address = named? owner.toList name.toList := by
    have h := ofText?_address hbefore howner hname ""
    rwa [String.append_empty, show joins "".toList = [] from rfl, List.append_nil] at h
  have hiff : ∀ more, ofText? (address ++ more) = ofText? address ↔
      joins more.toList = [] ∨ joins more.toList = ending ∧ ¬ ending <:+ name.toList := by
    intro more
    rw [haddress, ofText?_address hbefore howner hname, named?_inj, cutEnding_append_eq_iff]
  refine ⟨hiff, fun mark more hmark => ?_⟩
  have hslash : mark ≠ '/' := by rcases hmark with rfl | rfl <;> decide
  have hending : mark ∉ ending := by rcases hmark with rfl | rfl <;> decide
  have hjoins : joins (String.singleton mark ++ more).toList = mark :: joins more.toList := by
    rw [String.toList_append, String.toList_singleton, List.singleton_append]
    exact List.takeWhile_cons_of_pos (by simpa using hslash)
  constructor
  · obtain ⟨tail, htail⟩ := exists_cutEnding_eq hending name.toList (joins more.toList)
    refine ⟨String.ofList tail, ?_⟩
    rw [ofText?_address hbefore howner hname, hjoins, named?, htail, if_neg (by simp)]
    simp [← String.toList_inj]
  · rw [Ne, hiff, hjoins]
    rintro (hnil | ⟨hsame, -⟩)
    · cases hnil
    · exact hending (hsame ▸ List.mem_cons_self)

theorem isSegment_acme : IsSegment "acme".toList := ⟨by decide, by decide⟩

theorem isSegment_widgets : IsSegment "widgets".toList := ⟨by decide, by decide⟩

theorem ofText?_append_widgets :
    ofText? ("https://github.com/acme/widgets" ++ ".git/tree/main") =
      ofText? "https://github.com/acme/widgets" ∧
    ∃ tail, ofText? ("https://github.com/acme/widgets" ++ "?tab=readme") =
      some ⟨"acme", "widgets?" ++ tail⟩ := by
  have hbefore : ¬ site <:+: "https://".toList := by decide
  obtain ⟨hiff, hmark⟩ := ofText?_append_iff hbefore isSegment_acme isSegment_widgets
  refine ⟨(hiff ".git/tree/main").2 (.inr ⟨by decide, by decide⟩), ?_⟩
  obtain ⟨⟨tail, htail⟩, -⟩ := hmark '?' "tab=readme" (.inl rfl)
  exact ⟨tail, htail⟩

/-- A query changes the name that an address gives. -/
theorem ofText?_of_query :
    ofText? "https://github.com/acme/widgets" = some ⟨"acme", "widgets"⟩ ∧
    ofText? ("https://github.com/acme/widgets" ++ "?tab=readme") =
      some ⟨"acme", "widgets?tab=readme"⟩ := by
  decide

end CodeGraph.Repository.Locator
