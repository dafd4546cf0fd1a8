import CodeGraph.Proofs.Repository.Reassembly

/-! Listings of any folders put together, also where folders are listed in many places or inside of
themselves. The listings that can be reached are used up, each once, where their folder is met
first, and all others are left. -/
namespace CodeGraph

def Entry.bare (entry : Entry) : Entry := { entry with children := [] }

namespace FileTree

mutual
/-- An entry, and behind it all entries that stand in it. -/
def preorderOfEntry : Entry → List Entry
  | ⟨path, name, kind, size, handle?, children⟩ =>
    ⟨path, name, kind, size, handle?, children⟩ :: preorder children

/-- All entries of a tree, each before those that stand in it. -/
def preorder : List Entry → List Entry
  | [] => []
  | entry :: rest => preorderOfEntry entry ++ preorder rest
end

def folderPaths (entries : List Entry) : List String :=
  (entries.filter (·.kind = .folder)).map (·.path)

theorem preorder_cons (entry : Entry) (rest : List Entry) :
    preorder (entry :: rest) = entry :: (preorder entry.children ++ preorder rest) := by
  obtain ⟨path, name, kind, size, handle?, children⟩ := entry
  rw [preorder, preorderOfEntry]
  rfl

theorem folderPaths_append (entries rest : List Entry) :
    folderPaths (entries ++ rest) = folderPaths entries ++ folderPaths rest := by
  rw [folderPaths, List.filter_append, List.map_append]
  rfl

theorem folderPaths_cons_file {entry : Entry} (h : entry.kind = .file) (rest : List Entry) :
    folderPaths (entry :: rest) = folderPaths rest := by
  rw [folderPaths, List.filter_cons_of_neg (by simp [h])]
  rfl

theorem folderPaths_cons_folder {entry : Entry} (h : entry.kind = .folder) (rest : List Entry) :
    folderPaths (entry :: rest) = entry.path :: folderPaths rest := by
  rw [folderPaths, List.filter_cons_of_pos (by simp [h])]
  rfl

end FileTree

namespace Repository

namespace Listed

variable {item : Listed}

theorem path_toEntry (item : Listed) (children : List Entry) :
    (item.toEntry children).path = item.path := by
  unfold toEntry
  split_ifs <;> rfl

theorem bare_toEntry (item : Listed) (children : List Entry) :
    (item.toEntry children).bare = item.toEntry [] := by
  unfold toEntry Entry.bare
  split_ifs <;> rfl

theorem kind_toEntry_file (h : item.isFolder = false) (children : List Entry) :
    (item.toEntry children).kind = .file := by
  rw [toEntry, if_neg (Bool.not_eq_true _ ▸ h)]
  rfl

theorem kind_toEntry_folder (h : item.isFolder) (children : List Entry) :
    (item.toEntry children).kind = .folder := by
  rw [toEntry, if_pos h]
  rfl

theorem children_toEntry_nil (item : Listed) : (item.toEntry []).children = [] := by
  unfold toEntry
  split_ifs <;> rfl

theorem children_toEntry_folder (h : item.isFolder) (children : List Entry) :
    (item.toEntry children).children = children := by
  rw [toEntry, if_pos h]
  rfl

end Listed

namespace Listings

open FileTree (preorder folderPaths preorder_cons folderPaths_append folderPaths_cons_file
  folderPaths_cons_folder)

variable {listings left taken : Listings} {items found : List Listed} {entries : List Entry}
  {path other : String}

/-- What is listed in a folder. It is nothing where the folder is not listed. -/
def itemsAt (listings : Listings) (path : String) : List Listed := (listings.lookup path).getD []

/-- The entries that the items of a listing become, apart from what stands in them. -/
def bareEntries (items : List Listed) : List Entry := items.map (·.toEntry [])

/-- Whether a folder is listed in another one. -/
def Leads (listings : Listings) (path other : String) : Prop :=
  ∃ items, (path, items) ∈ listings ∧ ∃ item ∈ items, item.isFolder ∧ item.path = other

theorem lookup_eq_none_of_take? (h : take? path listings = none) : listings.lookup path = none := by
  cases hlookup : listings.lookup path with
  | none => rfl
  | some items =>
    obtain ⟨rest, hsome, -⟩ := take?_eq_some hlookup
    rw [h] at hsome
    cases hsome

theorem itemsAt_of_take?_eq_none (h : take? path listings = none) : listings.itemsAt path = [] := by
  rw [itemsAt, lookup_eq_none_of_take? h]
  rfl

/-- What is taken out and what is left are the listings. -/
theorem perm_of_take? {rest : { rest : Listings // rest.length < listings.length }}
    (h : take? path listings = some (items, rest)) : ((path, items) :: rest.1).Perm listings := by
  induction listings with
  | nil => cases h
  | cons first others ih =>
    obtain ⟨old, found⟩ := first
    rw [take?] at h
    split_ifs at h with hold
    · obtain ⟨rfl, rfl⟩ := Prod.mk.inj (Option.some.inj h)
      rw [hold]
    · cases htake : take? path others with
      | none =>
        rw [htake] at h
        cases h
      | some taken =>
        obtain ⟨items, left, hleft⟩ := taken
        rw [htake] at h
        obtain ⟨rfl, rfl⟩ := Prod.mk.inj (Option.some.inj h)
        exact (List.Perm.swap _ _ _).trans ((ih htake).cons _)

theorem lookup_eq_none_of_not_mem (h : path ∉ listings.map (·.1)) : listings.lookup path = none := by
  rw [List.lookup_eq_none_iff]
  intro listing hlisting
  rw [bne_iff_ne]
  rintro rfl
  exact h (List.mem_map_of_mem hlisting)

theorem not_mem_of_lookup_eq_none (h : listings.lookup path = none) (items : List Listed) :
    (path, items) ∉ listings := by
  rw [List.lookup_eq_none_iff] at h
  intro hmem
  simpa using h _ hmem

section Keys

variable (hpaths : (listings.map (·.1)).Nodup)
  {rest : { rest : Listings // rest.length < listings.length }}

include hpaths

theorem nodup_of_take? (h : take? path listings = some (items, rest)) :
    path ∉ rest.1.map (·.1) ∧ (rest.1.map (·.1)).Nodup := by
  have hperm := (perm_of_take? h).map (·.1)
  rw [List.map_cons] at hperm
  exact List.nodup_cons.1 (hperm.nodup_iff.2 hpaths)

theorem lookup_of_take? (h : take? path listings = some (items, rest)) (other : String) :
    listings.lookup path = some items ∧
      rest.1.lookup other = if other = path then none else listings.lookup other := by
  cases hlookup : listings.lookup path with
  | none =>
    rw [take?_eq_none hlookup] at h
    cases h
  | some found =>
    obtain ⟨left, hsome, hothers⟩ := take?_eq_some hlookup
    rw [h] at hsome
    obtain ⟨rfl, rfl⟩ := Prod.mk.inj (Option.some.inj hsome)
    refine ⟨rfl, ?_⟩
    split_ifs with hother
    · rw [hother, lookup_eq_none_of_not_mem (nodup_of_take? hpaths h).1]
    · exact hothers other hother

/-- Once a listing is taken out nothing is listed in its folder. -/
theorem itemsAt_of_take? (h : take? path listings = some (items, rest)) :
    listings.itemsAt path = items ∧ itemsAt rest.1 = Function.update listings.itemsAt path [] := by
  constructor
  · rw [itemsAt, (lookup_of_take? hpaths h path).1]
    rfl
  · funext other
    rw [itemsAt, (lookup_of_take? hpaths h other).2, Function.update_apply]
    split_ifs <;> rfl

end Keys

/-- What is available for each path behind some entries: nothing any more for the folders among
them. -/
def spent (sequence : List Entry) (available : String → List Listed) : String → List Listed :=
  fun path => if path ∈ folderPaths sequence then [] else available path

/-- Whether each entry of a sequence holds what is available for its path. It is used up by the first
folder of that path, and what is no folder holds nothing. -/
def Unfolds (available : String → List Listed) (sequence : List Entry) : Prop :=
  ∀ before entry after, sequence = before ++ entry :: after →
    entry.children.map Entry.bare =
      if entry.kind = .folder ∧ entry.path ∉ folderPaths before then
        bareEntries (available entry.path)
      else []

theorem spent_file {entry : Entry} (h : entry.kind = .file) (available : String → List Listed) :
    spent [entry] available = available := by
  funext path
  rw [spent, folderPaths_cons_file h]
  exact if_neg List.not_mem_nil

theorem spent_folder {entry : Entry} (h : entry.kind = .folder) (available : String → List Listed) :
    spent [entry] available = Function.update available entry.path [] := by
  funext path
  rw [spent, folderPaths_cons_folder h, Function.update_apply]
  simp [folderPaths]

theorem split_append {first second before after : List Entry} {entry : Entry}
    (h : first ++ second = before ++ entry :: after) :
    (∃ behind, first = before ++ entry :: behind) ∨
      ∃ between, before = first ++ between ∧ second = between ++ entry :: after := by
  rcases List.append_eq_append_iff.1 h with ⟨between, rfl, hsecond⟩ | ⟨behind, rfl, hafter⟩
  · exact .inr ⟨between, rfl, hsecond⟩
  · cases behind with
    | nil => exact .inr ⟨[], by simp, hafter.symm⟩
    | cons next behind =>
      obtain ⟨rfl, -⟩ := List.cons.inj hafter
      exact .inl ⟨behind, rfl⟩

namespace Unfolds

variable {available : String → List Listed} {entry : Entry} {sequence rest : List Entry}

theorem nil (available : String → List Listed) : Unfolds available [] := by
  intro before entry after h
  exact absurd h.symm (List.append_ne_nil_of_right_ne_nil _ (List.cons_ne_nil _ _))

theorem singleton (h : entry.children.map Entry.bare =
    if entry.kind = .folder then bareEntries (available entry.path) else []) :
    Unfolds available [entry] := by
  intro before other after hsplit
  obtain ⟨rfl, hsingle⟩ : before = [] ∧ [entry] = other :: after := by
    rcases List.append_eq_cons_iff.1 hsplit.symm with ⟨hbefore, hsingle⟩ | ⟨between, -, hnil⟩
    · exact ⟨hbefore, hsingle.symm⟩
    · exact absurd hnil.symm (List.append_ne_nil_of_right_ne_nil _ (List.cons_ne_nil _ _))
  obtain ⟨rfl, -⟩ := List.cons.inj hsingle
  rw [h]
  simp [folderPaths]

theorem append (h : Unfolds available sequence) (hrest : Unfolds (spent sequence available) rest) :
    Unfolds available (sequence ++ rest) := by
  intro before entry after hsplit
  rcases split_append hsplit with ⟨behind, hsequence⟩ | ⟨between, rfl, hafter⟩
  · exact h before entry behind hsequence
  · have hentry := hrest between entry after hafter
    by_cases hpath : entry.path ∈ folderPaths sequence
    · simpa [spent, hpath, folderPaths_append, bareEntries] using hentry
    · simpa [spent, hpath, folderPaths_append] using hentry

end Unfolds

/-- How items become entries one after the other: from what listings, what is left of them, and
which are taken on the way. A folder takes its listing before anything behind it does. -/
inductive Assembles : Listings → List Listed → List Entry → Listings → Listings → Prop where
  | nil {listings : Listings} : Assembles listings [] [] listings []
  | file {listings left taken : Listings} {items : List Listed} {entries : List Entry}
      {item : Listed} (hfile : item.isFolder = false)
      (more : Assembles listings items entries left taken) :
      Assembles listings (item :: items) (item.toEntry [] :: entries) left taken
  | unlisted {listings left taken : Listings} {items : List Listed} {entries : List Entry}
      {item : Listed} (hfolder : item.isFolder) (hmissing : take? item.path listings = none)
      (more : Assembles listings items entries left taken) :
      Assembles listings (item :: items) (item.toEntry [] :: entries) left taken
  | listed {listings between left inside behind : Listings} {items found : List Listed}
      {children entries : List Entry} {item : Listed}
      {rest : { rest : Listings // rest.length < listings.length }} (hfolder : item.isFolder)
      (htake : take? item.path listings = some (found, rest))
      (inner : Assembles rest.1 found children between inside)
      (more : Assembles between items entries left behind) :
      Assembles listings (item :: items) (item.toEntry children :: entries) left
        ((item.path, found) :: inside ++ behind)

/-- Any items become entries. The induction is on the number of listings, since a folder takes one
away, and inside of it on the items. -/
theorem exists_assembles (items : List Listed) (listings : Listings) : ∃ taken,
    Assembles listings items (entriesOf items listings).1 (entriesOf items listings).2.1 taken := by
  obtain ⟨most, hmost⟩ : ∃ most, listings.length < most := ⟨_, Nat.lt_succ_self _⟩
  -- a folder uses up its listing before its items are looked at, so listings get fewer downwards
  induction most generalizing items listings with
  | zero => omega
  | succ most ih =>
    induction items generalizing listings with
    | nil =>
      obtain ⟨hentries, hleft⟩ := entriesOf_nil listings
      rw [hentries, hleft]
      exact ⟨[], .nil⟩
    | cons item items ihItems =>
      cases hkind : item.isFolder with
      | false =>
        obtain ⟨hentries, hleft⟩ := entriesOf_file hkind items listings
        obtain ⟨taken, more⟩ := ihItems listings hmost
        rw [hentries, hleft]
        exact ⟨taken, .file hkind more⟩
      | true =>
        obtain ⟨hentries, hleft⟩ := entriesOf_folder hkind items listings
        rw [hentries, hleft]
        cases htake : take? item.path listings with
        | none =>
          obtain ⟨hchildren, hsame⟩ := entriesAt_of_none (lookup_eq_none_of_take? htake)
          obtain ⟨taken, more⟩ := ihItems listings hmost
          rw [hchildren, hsame]
          exact ⟨taken, .unlisted hkind htake more⟩
        | some taken =>
          obtain ⟨found, rest⟩ := taken
          obtain ⟨hchildren, hbetween⟩ := entriesAt_of_take? htake
          have hrest : rest.1.length < listings.length := rest.2
          have hless := (entriesOf found rest.1).2.2
          obtain ⟨inside, inner⟩ := ih found rest.1 (by omega)
          obtain ⟨behind, more⟩ := ihItems (entriesOf found rest.1).2.1 (by omega)
          rw [hchildren, hbetween]
          exact ⟨_, .listed hkind htake inner more⟩

namespace Assembles

theorem preorder_toEntry_nil (item : Listed) (rest : List Entry) :
    preorder (item.toEntry [] :: rest) = item.toEntry [] :: preorder rest := by
  rw [preorder_cons, Listed.children_toEntry_nil]
  rfl

theorem map_bare (h : Assembles listings items entries left taken) :
    entries.map Entry.bare = bareEntries items := by
  induction h with
  | nil => rfl
  | file _ _ ih => rw [List.map_cons, ih, Listed.bare_toEntry]; rfl
  | unlisted _ _ _ ih => rw [List.map_cons, ih, Listed.bare_toEntry]; rfl
  | listed _ _ _ _ _ ih => rw [List.map_cons, ih, Listed.bare_toEntry]; rfl

/-- What is taken and what is left are the listings. -/
theorem perm_listings (h : Assembles listings items entries left taken) :
    (taken ++ left).Perm listings := by
  induction h with
  | nil => exact .refl _
  | file _ _ ih => exact ih
  | unlisted _ _ _ ih => exact ih
  | @listed _ _ _ _ _ _ found _ _ item _ _ htake _ _ ihInner ih =>
    have hrest := (ih.append_left _).trans ihInner
    have hlistings := (hrest.cons (item.path, found)).trans (perm_of_take? htake)
    simpa using hlistings

/-- Each item that is met becomes one entry. -/
theorem perm_preorder (h : Assembles listings items entries left taken) :
    ((preorder entries).map Entry.bare).Perm
      (bareEntries items ++ taken.flatMap fun listing => bareEntries listing.2) := by
  induction h with
  | nil => exact .refl _
  | @file _ _ _ _ _ item _ _ ih =>
    rw [preorder_toEntry_nil, List.map_cons, Listed.bare_toEntry]
    exact ih.cons _
  | @unlisted _ _ _ _ _ item _ _ _ ih =>
    rw [preorder_toEntry_nil, List.map_cons, Listed.bare_toEntry]
    exact ih.cons _
  | @listed _ _ _ inside behind items found children entries item _ hfolder _ _ _ ihInner ih =>
    let content := fun listing : String × List Listed => bareEntries listing.2
    have hboth : ((preorder children ++ preorder entries).map Entry.bare).Perm
        (bareEntries items ++
          (bareEntries found ++ (inside.flatMap content ++ behind.flatMap content))) := by
      rw [List.map_append, ← List.append_assoc (bareEntries found)]
      exact (ihInner.append ih).trans (List.perm_append_comm_assoc _ _ _)
    rw [preorder_cons, Listed.children_toEntry_folder hfolder, List.map_cons, Listed.bare_toEntry,
      List.cons_append, List.flatMap_cons, List.flatMap_append]
    exact hboth.cons _

section Keys

variable (hpaths : (listings.map (·.1)).Nodup)

include hpaths

theorem nodup_left (h : Assembles listings items entries left taken) :
    (left.map (·.1)).Nodup := by
  have hperm := h.perm_listings.map (·.1)
  rw [List.map_append] at hperm
  exact (List.nodup_append.1 (hperm.nodup_iff.2 hpaths)).2.1

/-- What is left is what no folder that was met has taken. -/
theorem lookup_left (h : Assembles listings items entries left taken) (path : String) :
    left.lookup path =
      if path ∈ folderPaths (preorder entries) then none else listings.lookup path := by
  induction h with
  | nil => rfl
  | @file _ _ _ _ _ item hfile _ ih =>
    rw [preorder_toEntry_nil, folderPaths_cons_file (Listed.kind_toEntry_file hfile [])]
    exact ih hpaths
  | @unlisted _ _ _ _ _ item hfolder hmissing _ ih =>
    have hnone := lookup_eq_none_of_take? hmissing
    rw [preorder_toEntry_nil, folderPaths_cons_folder (Listed.kind_toEntry_folder hfolder []),
      Listed.path_toEntry, ih hpaths]
    by_cases hpath : path = item.path
    · simp [hpath, hnone]
    · simp [hpath]
  | @listed _ _ _ _ _ _ _ children entries item _ hfolder htake inner _ ihInner ih =>
    have hrest := (nodup_of_take? hpaths htake).2
    have hlookup := (lookup_of_take? hpaths htake path).2
    rw [preorder_cons, Listed.children_toEntry_folder hfolder,
      folderPaths_cons_folder (Listed.kind_toEntry_folder hfolder children), Listed.path_toEntry,
      folderPaths_append, ih (inner.nodup_left hrest), ihInner hrest, hlookup]
    by_cases hpath : path = item.path
    · simp [hpath]
    · by_cases hchildren : path ∈ folderPaths (preorder children)
      · simp [hpath, hchildren]
      · simp [hpath, hchildren]

theorem itemsAt_left (h : Assembles listings items entries left taken) :
    left.itemsAt = spent (preorder entries) listings.itemsAt := by
  funext path
  unfold itemsAt spent
  rw [h.lookup_left hpaths path]
  split_ifs <;> rfl

/-- A folder holds its listing where it is met first. -/
theorem unfolds (h : Assembles listings items entries left taken) :
    Unfolds listings.itemsAt (preorder entries) := by
  induction h with
  | nil => exact .nil _
  | @file listings _ _ _ _ item hfile _ ih =>
    have hkind := Listed.kind_toEntry_file hfile []
    rw [preorder_toEntry_nil, ← List.singleton_append]
    apply Unfolds.append
    · apply Unfolds.singleton
      rw [Listed.children_toEntry_nil, hkind, if_neg (by decide)]
      rfl
    · rw [spent_file hkind]
      exact ih hpaths
  | @unlisted listings _ _ _ _ item hfolder hmissing _ ih =>
    have hkind := Listed.kind_toEntry_folder hfolder []
    have hnone := itemsAt_of_take?_eq_none hmissing
    rw [preorder_toEntry_nil, ← List.singleton_append]
    apply Unfolds.append
    · apply Unfolds.singleton
      rw [Listed.children_toEntry_nil, Listed.path_toEntry, hnone]
      exact (ite_self _).symm
    · rw [spent_folder hkind, Listed.path_toEntry, Function.update_eq_self_iff.2 hnone.symm]
      exact ih hpaths
  | @listed listings _ _ _ _ _ _ children _ item _ hfolder htake inner _ ihInner ih =>
    have hkind := Listed.kind_toEntry_folder hfolder children
    have hrest := (nodup_of_take? hpaths htake).2
    obtain ⟨hfound, hitems⟩ := itemsAt_of_take? hpaths htake
    rw [preorder_cons, Listed.children_toEntry_folder hfolder, ← List.singleton_append]
    apply Unfolds.append
    · apply Unfolds.singleton
      rw [Listed.children_toEntry_folder hfolder, if_pos hkind, Listed.path_toEntry, hfound]
      exact inner.map_bare
    -- the folder has used up its own listing, and what stands in it uses up what is met there
    · rw [spent_folder hkind, Listed.path_toEntry, ← hitems]
      apply (ihInner hrest).append
      rw [← inner.itemsAt_left hrest]
      exact ih (inner.nodup_left hrest)

/-- Folders that are met have no listing left. -/
theorem not_mem_left (h : Assembles listings items entries left taken) :
    (∀ item ∈ items, item.isFolder → item.path ∉ left.map (·.1)) ∧
      ∀ listing ∈ taken, ∀ item ∈ listing.2, item.isFolder → item.path ∉ left.map (·.1) := by
  induction h with
  | nil => exact ⟨by simp, by simp⟩
  | @file _ _ _ _ _ item hfile _ ih =>
    refine ⟨List.forall_mem_cons.2 ⟨fun hfolder => ?_, (ih hpaths).1⟩, (ih hpaths).2⟩
    rw [hfile] at hfolder
    cases hfolder
  | @unlisted listings left _ _ _ item hfolder hmissing more ih =>
    refine ⟨List.forall_mem_cons.2 ⟨fun _ hmem => ?_, (ih hpaths).1⟩, (ih hpaths).2⟩
    obtain ⟨listing, hlisting, hpath⟩ := List.mem_map.1 hmem
    have hthere : listing ∈ listings :=
      more.perm_listings.mem_iff.1 (List.mem_append_right _ hlisting)
    refine not_mem_of_lookup_eq_none (lookup_eq_none_of_take? hmissing) listing.2 ?_
    rwa [← hpath]
  | @listed listings between left _ _ _ found _ _ item rest hfolder htake inner more ihInner ih =>
    have hrest := nodup_of_take? hpaths htake
    have hbetween : left.map (·.1) ⊆ between.map (·.1) := List.map_subset _ fun listing hlisting =>
      more.perm_listings.mem_iff.1 (List.mem_append_right _ hlisting)
    have hinner : between.map (·.1) ⊆ rest.1.map (·.1) := List.map_subset _ fun listing hlisting =>
      inner.perm_listings.mem_iff.1 (List.mem_append_right _ hlisting)
    obtain ⟨hfound, hinside⟩ := ihInner hrest.2
    obtain ⟨hitems, hbehind⟩ := ih (inner.nodup_left hrest.2)
    refine ⟨List.forall_mem_cons.2 ⟨fun _ hmem => hrest.1 (hinner (hbetween hmem)), hitems⟩, ?_⟩
    rw [List.cons_append]
    refine List.forall_mem_cons.2 ⟨fun item hitem hdir hmem => ?_, ?_⟩
    · exact hfound item hitem hdir (hbetween hmem)
    · refine List.forall_mem_append.2 ⟨fun listing hlisting item hitem hdir hmem => ?_, hbehind⟩
      exact hinside listing hlisting item hitem hdir (hbetween hmem)

end Keys

/-- What is taken can be reached from the items. -/
theorem forall_taken (h : Assembles listings items entries left taken) {reached : String → Prop}
    (hitems : ∀ item ∈ items, item.isFolder → reached item.path)
    (hclosed : ∀ listing ∈ listings, reached listing.1 →
      ∀ item ∈ listing.2, item.isFolder → reached item.path) :
    ∀ listing ∈ taken, reached listing.1 := by
  induction h with
  | nil => exact fun _ hlisting => nomatch hlisting
  | file _ _ ih => exact ih (List.forall_mem_cons.1 hitems).2 hclosed
  | unlisted _ _ _ ih => exact ih (List.forall_mem_cons.1 hitems).2 hclosed
  | @listed _ _ _ _ _ _ found _ _ item rest hfolder htake inner _ ihInner ih =>
    obtain ⟨hitem, hmore⟩ := List.forall_mem_cons.1 hitems
    obtain ⟨hfound, hrest⟩ :=
      List.forall_mem_cons.1 fun listing hlisting =>
        hclosed listing ((perm_of_take? htake).mem_iff.1 hlisting)
    rw [List.cons_append]
    refine List.forall_mem_cons.2 ⟨hitem hfolder, List.forall_mem_append.2 ⟨?_, ?_⟩⟩
    · exact ihInner (hfound (hitem hfolder)) hrest
    · exact ih hmore fun listing hlisting =>
        hrest listing (inner.perm_listings.mem_iff.1 (List.mem_append_right _ hlisting))

end Assembles

/-- A folder as it would be listed at the place where its listing is asked for first. -/
def origin (path : String) : Listed := ⟨"", path, "dir", 0, none⟩

theorem exists_assembles_origin (start : String) (listings : Listings) : ∃ taken,
    Assembles listings [origin start] [(origin start).toEntry (entriesAt start listings).1]
      (entriesAt start listings).2.1 taken := by
  obtain ⟨taken, h⟩ := exists_assembles [origin start] listings
  have hfolder : (origin start).isFolder := rfl
  obtain ⟨hentries, hleft⟩ := entriesOf_folder hfolder [] listings
  obtain ⟨hnil, hsame⟩ := entriesOf_nil (entriesAt (origin start).path listings).2.1
  rw [hentries, hleft, hnil, hsame] at h
  exact ⟨taken, h⟩

/-- The listings that are taken are those that can be reached, and the others are left. -/
theorem Assembles.taken_iff (hpaths : (listings.map (·.1)).Nodup) {start : String}
    (h : Assembles listings [origin start] entries left taken) {listing : String × List Listed}
    (hlisting : listing ∈ listings) :
    (listing ∈ taken ↔ Relation.ReflTransGen listings.Leads start listing.1) ∧
      (listing ∈ left ↔ ¬ Relation.ReflTransGen listings.Leads start listing.1) := by
  obtain ⟨horigin, htaken⟩ := h.not_mem_left hpaths
  have hsplit : ∀ other ∈ listings, other ∈ taken ∨ other ∈ left := fun other hother =>
    List.mem_append.1 (h.perm_listings.mem_iff.2 hother)
  have hreached : ∀ other ∈ taken, Relation.ReflTransGen listings.Leads start other.1 := by
    refine h.forall_taken (fun item hitem _ => ?_) fun other hother hreach item hitem hfolder => ?_
    · rw [List.mem_singleton.1 hitem]
      exact .refl
    · exact hreach.tail ⟨other.2, hother, item, hitem, hfolder, rfl⟩
  have hgone : ∀ path, Relation.ReflTransGen listings.Leads start path →
      path ∉ left.map (·.1) := by
    intro path hreach
    induction hreach with
    | refl => exact horigin (origin start) List.mem_cons_self rfl
    | tail _ hstep ih =>
      obtain ⟨items, hthere, item, hitem, hfolder, rfl⟩ := hstep
      have hmem : (_, items) ∈ taken := (hsplit _ hthere).resolve_right fun hmem =>
        ih (List.mem_map_of_mem hmem)
      exact htaken _ hmem item hitem hfolder
  have hleft : Relation.ReflTransGen listings.Leads start listing.1 → listing ∉ left :=
    fun hreach hmem => hgone listing.1 hreach (List.mem_map_of_mem hmem)
  constructor
  · exact ⟨hreached listing, fun hreach => (hsplit listing hlisting).resolve_right (hleft hreach)⟩
  · constructor
    · exact fun hmem hreach => hleft hreach hmem
    · exact fun hreach => (hsplit listing hlisting).resolve_left (mt (hreached listing) hreach)

/-- Listings put together from a folder on, with the entries that come of it and the listings that
are left and taken. -/
structure Traverses (listings : Listings) (start : String) (entries : List Entry)
    (left taken : Listings) : Prop where
  /-- The run comes to an end. -/
  run : Assembles listings [origin start] [(origin start).toEntry entries] left taken
  /-- Each listing is taken once or left. -/
  split : (taken ++ left).Perm listings
  /-- Those are taken whose folder can be reached. -/
  taken_iff : ∀ listing ∈ listings,
    listing ∈ taken ↔ Relation.ReflTransGen listings.Leads start listing.1
  /-- All others are left. -/
  left_iff : ∀ listing ∈ listings,
    listing ∈ left ↔ ¬ Relation.ReflTransGen listings.Leads start listing.1
  /-- Each item of a listing that is taken becomes one entry. -/
  items : ((preorder entries).map Entry.bare).Perm
    (taken.flatMap fun listing => bareEntries listing.2)
  /-- At the top stands what is listed in the folder at the start. -/
  top : entries.map Entry.bare = bareEntries (listings.itemsAt start)
  /-- What is listed in another folder stands in the first entry of its path, and in no other. -/
  inside : ∀ before entry after, preorder entries = before ++ entry :: after →
    entry.children.map Entry.bare =
      if entry.kind = .folder ∧ entry.path ≠ start ∧ entry.path ∉ folderPaths before then
        bareEntries (listings.itemsAt entry.path)
      else []

/-- Listings of which no two are of the same folder can be put together from any folder on, whatever
they list. -/
theorem entriesAt_traverses (hpaths : (listings.map (·.1)).Nodup) (start : String) :
    ∃ taken, Traverses listings start (entriesAt start listings).1 (entriesAt start listings).2.1
      taken := by
  obtain ⟨taken, h⟩ := exists_assembles_origin start listings
  generalize (entriesAt start listings).1 = entries at h ⊢
  have hfolder : (origin start).isFolder := rfl
  have hkind := Listed.kind_toEntry_folder hfolder entries
  have hpath : ((origin start).toEntry entries).path = start := Listed.path_toEntry _ _
  have hpreorder : preorder [(origin start).toEntry entries] =
      (origin start).toEntry entries :: preorder entries := by
    rw [preorder_cons, Listed.children_toEntry_folder hfolder]
    exact congrArg _ (List.append_nil _)
  have hunfolds := h.unfolds hpaths
  rw [hpreorder] at hunfolds
  refine ⟨taken, h, h.perm_listings, ?_, ?_, ?_, ?_, ?_⟩
  · exact fun listing hlisting => (h.taken_iff hpaths hlisting).1
  · exact fun listing hlisting => (h.taken_iff hpaths hlisting).2
  · have hperm := h.perm_preorder
    rw [hpreorder, List.map_cons, Listed.bare_toEntry] at hperm
    exact hperm.cons_inv
  · have hstart := hunfolds [] _ _ rfl
    rw [if_pos ⟨hkind, List.not_mem_nil⟩, hpath, Listed.children_toEntry_folder hfolder] at hstart
    exact hstart
  · intro before entry after hsplit
    have hentry := hunfolds (_ :: before) entry after (by rw [hsplit]; rfl)
    rw [hentry, folderPaths_cons_folder hkind, hpath]
    simp only [List.mem_cons, not_or, ne_eq]

def folderItem (path : String) : Listed := ⟨path, path, "dir", 0, none⟩

/-- Four folders, the last of which is not reached from the root. -/
def tangled : Listings :=
  [("", [folderItem "a", folderItem "b"]), ("a", [folderItem "a", folderItem "b", folderItem ""]),
    ("b", [⟨"f.js", "b/f.js", "file", 7, none⟩, folderItem "a"]), ("c", [folderItem "c"])]

/-- The entries that come of these listings: each folder is open once. -/
def untangled : List Entry :=
  [⟨"a", "a", .folder, 0, none,
      [⟨"a", "a", .folder, 0, none, []⟩,
        ⟨"b", "b", .folder, 0, none,
          [⟨"b/f.js", "f.js", .file, 7, none, []⟩, ⟨"a", "a", .folder, 0, none, []⟩]⟩,
        ⟨"", "", .folder, 0, none, []⟩]⟩,
    ⟨"b", "b", .folder, 0, none, []⟩]

theorem entriesAt_tangled : (entriesAt "" tangled).1 = untangled ∧
    (entriesAt "" tangled).2.1 = [("c", [folderItem "c"])] := by
  constructor
  · cbv
  · cbv

theorem tangled_traverses :
    (tangled.map (·.1)).Nodup ∧
    ∃ taken, Traverses tangled "" untangled [("c", [folderItem "c"])] taken := by
  have hpaths : (tangled.map (·.1)).Nodup := by decide
  refine ⟨hpaths, ?_⟩
  rw [← entriesAt_tangled.1, ← entriesAt_tangled.2]
  exact entriesAt_traverses hpaths ""

end Listings

end Repository

end CodeGraph
