import CodeGraph.Proofs.Lookup
import CodeGraph.Proofs.Repository.Contents
import CodeGraph.Repository.Client

/-! Listings that were gathered level by level are put together again, from the root down. -/
namespace CodeGraph.Repository

namespace Listings

variable {listings level : Listings} {path other : String} {items : List Listed}

theorem lookup_insert (path : String) (items : List Listed) (listings : Listings) (other : String) :
    (listings.insert path items).lookup other =
      if other = path then some items else listings.lookup other := by
  induction listings with
  | nil => rw [insert, Lookup.lookup_cons]
  | cons first rest ih =>
    obtain ⟨old, found⟩ := first
    rw [insert]
    by_cases hold : old = path
    · rw [if_pos hold, hold, Lookup.lookup_cons, Lookup.lookup_cons]
      split_ifs <;> rfl
    · rw [if_neg hold, Lookup.lookup_cons, Lookup.lookup_cons, ih]
      split_ifs with h hpath
      · exact absurd (h.symm.trans hpath) hold
      · rfl
      · rfl
      · rfl

def insertAll (level listings : Listings) : Listings :=
  level.foldl (fun listings (path, items) => listings.insert path items) listings

def folders (level : Listings) : List String :=
  level.flatMap fun (_, items) => (items.filter (·.isFolder)).map (·.path)

def ofAnswers (answer : String → List Listed) (paths : List String) : Listings :=
  paths.map fun path => (path, answer path)

theorem lookup_insertAll (answer : String → List Listed) (paths : List String)
    (listings : Listings) (other : String) :
    (insertAll (ofAnswers answer paths) listings).lookup other =
      if other ∈ paths then some (answer other) else listings.lookup other := by
  induction paths generalizing listings with
  | nil => rfl
  | cons path rest ih =>
    change (insertAll (ofAnswers answer rest) (listings.insert path (answer path))).lookup other = _
    rw [ih, lookup_insert]
    by_cases hrest : other ∈ rest
    · rw [if_pos hrest, if_pos (List.mem_cons_of_mem _ hrest)]
    · by_cases hpath : other = path
      · rw [if_neg hrest, if_pos hpath, if_pos (hpath ▸ List.mem_cons_self), hpath]
      · rw [if_neg hrest, if_neg hpath, if_neg (by simp [hpath, hrest])]

theorem mem_folders_ofAnswers {answer : String → List Listed} {paths : List String} :
    other ∈ (ofAnswers answer paths).folders ↔
      ∃ path ∈ paths, ∃ item ∈ answer path, item.isFolder ∧ item.path = other := by
  simp [folders, ofAnswers, and_assoc]

theorem mem_known_of_mem_folders {answer : String → List Listed} {known paths : List String}
    (hclosed : ∀ path ∈ known, ∀ item ∈ answer path, item.isFolder → item.path ∈ known)
    (hpaths : ∀ path ∈ paths, path ∈ known) (h : other ∈ (ofAnswers answer paths).folders) :
    other ∈ known := by
  obtain ⟨path, hpath, item, hitem, hfolder, rfl⟩ := mem_folders_ofAnswers.1 h
  exact hclosed path (hpaths path hpath) item hitem hfolder

/-- The listings of some folders and of those below them, a number of levels down. -/
def gathered (answer : String → List Listed) : Nat → List String → Listings → Listings
  | 0, paths, listings => insertAll (ofAnswers answer paths) listings
  | levels + 1, paths, listings =>
    gathered answer levels (ofAnswers answer paths).folders
      (insertAll (ofAnswers answer paths) listings)

theorem gathered_nil (answer : String → List Listed) (levels : Nat) (listings : Listings) :
    gathered answer levels [] listings = listings := by
  induction levels with
  | zero => rfl
  | succ levels ih => exact ih

/-- Whether one gets from a folder to another by listings, a number of levels down at most. -/
inductive Reaches (answer : String → List Listed) : Nat → String → String → Prop
  | here {levels : Nat} {path : String} : Reaches answer levels path path
  | down {levels : Nat} {path other : String} {item : Listed} (listed : item ∈ answer path)
      (folder : item.isFolder) (reaches : Reaches answer levels item.path other) :
      Reaches answer (levels + 1) path other

/-- Whether one gets to a folder through one that is listed. -/
def ReachedBy (answer : String → List Listed) (levels : Nat) (items : List Listed)
    (other : String) : Prop :=
  ∃ item ∈ items, item.isFolder ∧ ∃ fewer, levels = fewer + 1 ∧ Reaches answer fewer item.path other

variable {answer : String → List Listed} {levels : Nat} {paths : List String}

theorem ReachedBy.cons (h : ReachedBy answer levels items other) (item : Listed) :
    ReachedBy answer levels (item :: items) other := by
  obtain ⟨found, hfound, hreaches⟩ := h
  exact ⟨found, List.mem_cons_of_mem _ hfound, hreaches⟩

theorem ReachedBy.reaches (h : ReachedBy answer levels items other) (hanswer : answer path = items) :
    Reaches answer levels path other := by
  obtain ⟨item, hitem, hfolder, fewer, rfl, hreaches⟩ := h
  exact .down (hanswer ▸ hitem) hfolder hreaches

/-- What is reached is listed. -/
theorem lookup_gathered_of_reaches (h : listings.lookup other = some (answer other) ∨
      ∃ path ∈ paths, Reaches answer levels path other) :
    (gathered answer levels paths listings).lookup other = some (answer other) := by
  induction levels generalizing paths listings with
  | zero =>
    rw [gathered, lookup_insertAll]
    split_ifs with hmem
    · rfl
    · refine h.resolve_right ?_
      rintro ⟨path, hpath, ⟨⟩⟩
      exact hmem hpath
  | succ levels ih =>
    refine ih ?_
    rw [lookup_insertAll]
    split_ifs with hmem
    · exact .inl rfl
    · refine h.imp_right ?_
      rintro ⟨path, hpath, hreaches⟩
      cases hreaches with
      | here => exact absurd hpath hmem
      | down listed folder reaches =>
        exact ⟨_, mem_folders_ofAnswers.2 ⟨path, hpath, _, listed, folder, rfl⟩, reaches⟩

/-- Nothing else is. -/
theorem lookup_gathered_of_not_reaches (h : ∀ path ∈ paths, ¬ Reaches answer levels path other) :
    (gathered answer levels paths listings).lookup other = listings.lookup other := by
  induction levels generalizing paths listings with
  | zero => rw [gathered, lookup_insertAll, if_neg fun hmem => h other hmem .here]
  | succ levels ih =>
    refine (ih fun path hpath hreaches => ?_).trans ?_
    · obtain ⟨above, habove, item, listed, folder, rfl⟩ := mem_folders_ofAnswers.1 hpath
      exact h above habove (.down listed folder hreaches)
    · rw [lookup_insertAll, if_neg fun hmem => h other hmem .here]

theorem take?_eq_none (h : listings.lookup path = none) : take? path listings = none := by
  induction listings with
  | nil => rfl
  | cons first rest ih =>
    obtain ⟨old, found⟩ := first
    rw [Lookup.lookup_cons] at h
    split_ifs at h with hold
    rw [take?, if_neg (Ne.symm hold), ih h]

/-- What is taken out is what was there, and all other listings stay. -/
theorem take?_eq_some (h : listings.lookup path = some items) :
    ∃ rest, take? path listings = some (items, rest) ∧
      ∀ other ≠ path, rest.1.lookup other = listings.lookup other := by
  induction listings with
  | nil => cases h
  | cons first rest ih =>
    obtain ⟨old, found⟩ := first
    rw [Lookup.lookup_cons] at h
    split_ifs at h with hold
    · obtain rfl := Option.some.inj h
      refine ⟨⟨rest, Nat.lt_succ_self _⟩, by rw [take?, if_pos hold.symm], fun other hother => ?_⟩
      rw [Lookup.lookup_cons, if_neg (hold ▸ hother)]
    · obtain ⟨⟨left, hleft⟩, htake, hlookup⟩ := ih h
      refine ⟨⟨(old, found) :: left, Nat.succ_lt_succ hleft⟩, ?_, fun other hother => ?_⟩
      · rw [take?, if_neg (Ne.symm hold), htake]
      · rw [Lookup.lookup_cons, Lookup.lookup_cons, hlookup other hother]

theorem entriesAt_of_none (h : listings.lookup path = none) :
    (entriesAt path listings).1 = [] ∧ (entriesAt path listings).2.1 = listings := by
  rw [entriesAt]
  split
  · exact ⟨rfl, rfl⟩
  · rename_i htake
    rw [take?_eq_none h] at htake
    cases htake

theorem entriesAt_of_take? {rest : { rest : Listings // rest.length < listings.length }}
    (h : take? path listings = some (items, rest)) :
    (entriesAt path listings).1 = (entriesOf items rest.1).1 ∧
      (entriesAt path listings).2.1 = (entriesOf items rest.1).2.1 := by
  rw [entriesAt]
  split
  · rename_i hnone
    rw [h] at hnone
    cases hnone
  · rename_i hsome
    rw [h] at hsome
    obtain ⟨rfl, rfl⟩ := Prod.mk.inj (Option.some.inj hsome)
    exact ⟨rfl, rfl⟩

theorem entriesAt_of_some (h : listings.lookup path = some items) :
    ∃ left : Listings, (∀ other ≠ path, left.lookup other = listings.lookup other) ∧
      (entriesAt path listings).1 = (entriesOf items left).1 ∧
      (entriesAt path listings).2.1 = (entriesOf items left).2.1 := by
  obtain ⟨rest, htake, hlookup⟩ := take?_eq_some h
  exact ⟨rest.1, hlookup, entriesAt_of_take? htake⟩

theorem entriesOf_nil (listings : Listings) :
    (entriesOf [] listings).1 = [] ∧ (entriesOf [] listings).2.1 = listings := by
  rw [entriesOf]
  exact ⟨rfl, rfl⟩

theorem entriesOf_file {item : Listed} (h : item.isFolder = false) (more : List Listed)
    (listings : Listings) :
    (entriesOf (item :: more) listings).1 = item.toEntry [] :: (entriesOf more listings).1 ∧
      (entriesOf (item :: more) listings).2.1 = (entriesOf more listings).2.1 := by
  rw [entriesOf, if_neg (Bool.not_eq_true _ ▸ h)]
  exact ⟨rfl, rfl⟩

theorem entriesOf_folder {item : Listed} (h : item.isFolder) (more : List Listed)
    (listings : Listings) :
    (entriesOf (item :: more) listings).1 = item.toEntry (entriesAt item.path listings).1 ::
        (entriesOf more (entriesAt item.path listings).2.1).1 ∧
      (entriesOf (item :: more) listings).2.1 =
        (entriesOf more (entriesAt item.path listings).2.1).2.1 := by
  rw [entriesOf, if_pos h]
  exact ⟨rfl, rfl⟩

/-- Whether the folders below a folder are listed as they are. One that is not listed is empty. -/
def Lists (listings : Listings) (path : String) (contents : Contents) : Prop :=
  ∀ folder ∈ contents.folders path,
    (listings.lookup folder.1).getD [] = folder.2.listing folder.1

/-- Whether the entries of a folder come out, and all listings that are not of folders below it are
left. -/
def Rebuilds (listings : Listings) (path : String) (contents : Contents) : Prop :=
  (entriesOf (contents.listing path) listings).1 = contents.entries path ∧
    ∀ other ∉ contents.paths path,
      (entriesOf (contents.listing path) listings).2.1.lookup other = listings.lookup other

variable {contents items rest : Contents} {name : String} {size : UInt64}
  {address? : Option String}

theorem Lists.inside (h : listings.Lists path (.folder name size address? items rest)) :
    listings.Lists (Path.below path name) items :=
  fun folder hfolder => h folder (Contents.mem_folders_folder.2 (.inr (.inl hfolder)))

theorem Lists.beside (h : listings.Lists path (.folder name size address? items rest)) :
    listings.Lists path rest :=
  fun folder hfolder => h folder (Contents.mem_folders_folder.2 (.inr (.inr hfolder)))

theorem Lists.congr {left : Listings} (h : listings.Lists path contents)
    (hleft : ∀ other ∈ contents.paths path,
      left.lookup other = listings.lookup other) : left.Lists path contents := by
  intro folder hfolder
  rw [hleft folder.1 (List.mem_map_of_mem hfolder), h folder hfolder]

theorem entriesAt_of_lists (hnamed : contents.WellNamed)
    (hrebuilds : ∀ left : Listings, left.Lists path contents → left.Rebuilds path contents)
    (hhere : (listings.lookup path).getD [] = contents.listing path)
    (hlists : listings.Lists path contents) :
    (entriesAt path listings).1 = contents.entries path ∧
      ∀ other ≠ path, other ∉ contents.paths path →
        (entriesAt path listings).2.1.lookup other = listings.lookup other := by
  cases hlookup : listings.lookup path with
  | none =>
    rw [hlookup] at hhere
    obtain rfl := Contents.eq_empty_of_listing hhere.symm
    obtain ⟨hentries, hleft⟩ := entriesAt_of_none hlookup
    exact ⟨hentries, fun _ _ _ => by rw [hleft]⟩
  | some items =>
    rw [hlookup] at hhere
    obtain rfl : items = contents.listing path := hhere
    obtain ⟨left, hsame, hentries, hleft⟩ := entriesAt_of_some hlookup
    have hbelow : ∀ other ∈ contents.paths path, other ≠ path := by
      rintro other hother rfl
      exact Nat.lt_irrefl _ (Contents.length_lt_of_mem_paths hnamed hother)
    obtain ⟨hitems, hothers⟩ :=
      hrebuilds left (hlists.congr fun other hother => hsame other (hbelow other hother))
    refine ⟨hentries.trans hitems, fun other hne hother => ?_⟩
    rw [hleft, hothers other hother, hsame other hne]

theorem rebuilds_of_lists (hnamed : contents.WellNamed) (hlists : listings.Lists path contents) :
    listings.Rebuilds path contents := by
  induction contents generalizing listings path with
  | empty =>
    obtain ⟨hentries, hleft⟩ := entriesOf_nil listings
    exact ⟨hentries, fun _ _ => by rw [Contents.listing, hleft]⟩
  | file name kind size address? rest ih =>
    obtain ⟨-, hkind, -, hrest⟩ := hnamed
    have hfile : (Listed.mk name (Path.below path name) kind size address?).isFolder = false :=
      decide_eq_false hkind
    obtain ⟨hentries, hleft⟩ := entriesOf_file hfile (rest.listing path) listings
    obtain ⟨hmore, hothers⟩ := ih hrest hlists
    refine ⟨?_, fun other hother => ?_⟩
    · rw [Contents.listing, hentries, hmore, Listed.toEntry, if_neg (by simp [hfile])]
      rfl
    · rw [Contents.listing, hleft, hothers other hother]
  | folder name size address? items rest ihItems ih =>
    have hnodup := Contents.nodup_paths hnamed path
    obtain ⟨-, -, hitems, hrest⟩ := hnamed
    rw [Contents.paths_folder, List.nodup_cons, List.nodup_append', List.mem_append, not_or]
      at hnodup
    obtain ⟨⟨-, hhere⟩, -, -, hapart⟩ := hnodup
    obtain ⟨hchildren, hkept⟩ := entriesAt_of_lists hitems (fun _ => ihItems hitems)
      (hlists _ List.mem_cons_self) hlists.inside
    -- the folder uses up listings, but none of those of the folders beside it
    have hrestLists : (entriesAt (Path.below path name) listings).2.1.Lists path rest :=
      hlists.beside.congr fun other hother => hkept other (ne_of_mem_of_not_mem hother hhere)
        fun hitem => hapart hitem hother
    have hfolder : (Listed.mk name (Path.below path name) "dir" size address?).isFolder := rfl
    obtain ⟨hentries, hleft⟩ := entriesOf_folder hfolder (rest.listing path) listings
    obtain ⟨hmore, hothers⟩ := ih hrest hrestLists
    refine ⟨?_, fun other hother => ?_⟩
    · rw [Contents.listing, hentries, hchildren, hmore]
      rfl
    · rw [Contents.mem_paths_folder, not_or, not_or] at hother
      obtain ⟨hne, hitem, hrestOther⟩ := hother
      rw [Contents.listing, hleft, hothers other hrestOther, hkept other hne hitem]

/-- Whether the folders of a repository answer with their listings. Those that fail answer with
nothing. -/
def Answers (failing : String → Bool) (answer : String → List Listed)
    (folders : List (String × Contents)) : Prop :=
  ∀ folder ∈ folders,
    answer folder.1 = if failing folder.1 then [] else folder.2.listing folder.1

variable {failing : String → Bool}

theorem Answers.inside
    (h : Answers failing answer ((Contents.folder name size address? items rest).folders path)) :
    Answers failing answer (items.folders (Path.below path name)) :=
  fun folder hfolder => h folder (Contents.mem_folders_folder.2 (.inr (.inl hfolder)))

theorem Answers.beside
    (h : Answers failing answer ((Contents.folder name size address? items rest).folders path)) :
    Answers failing answer (rest.folders path) :=
  fun folder hfolder => h folder (Contents.mem_folders_folder.2 (.inr (.inr hfolder)))

/-- A folder that is seen is reached and answers with what is seen of it, or lies where the last level
ends and seems empty. -/
theorem reached_of_mem_folders (hnamed : contents.WellNamed)
    (hanswers : Answers failing answer (contents.folders path)) {folder : String × Contents}
    (hfolder : folder ∈ (contents.visible failing (some levels) path).folders path) :
    (answer folder.1 = folder.2.listing folder.1 ∧
      ReachedBy answer levels (contents.listing path) folder.1) ∨
    (folder.2 = .empty ∧
      (Disk.names folder.1).length = (Disk.names path).length + levels + 1) := by
  induction contents generalizing levels path with
  | empty => cases hfolder
  | file name kind size address? rest ih =>
    exact (ih hnamed.2.2.2 hanswers hfolder).imp_left fun h => ⟨h.1, h.2.cons _⟩
  | folder name size address? items rest ihItems ih =>
    obtain ⟨hname, -, hitems, hrest⟩ := hnamed
    have hbelow := Disk.length_names_below path hname
    have hhere : answer (Path.below path name) = _ := hanswers _ List.mem_cons_self
    rw [Contents.visible, Contents.mem_folders_folder] at hfolder
    rcases hfolder with rfl | hfolder | hfolder
    · cases levels with
      | zero => exact .inr ⟨by rw [if_pos (.inl rfl)], hbelow⟩
      | succ levels =>
        refine .inl ⟨hhere.trans ?_, _, List.mem_cons_self, rfl, levels, rfl, .here⟩
        dsimp only
        by_cases hfailing : failing (Path.below path name)
        · rw [if_pos hfailing, if_pos (.inr hfailing)]
          rfl
        · rw [if_neg hfailing, if_neg (by simp [hfailing]), Contents.listing_visible]
    · split_ifs at hfolder with hclosed
      · cases hfolder
      -- the folder is open, so it takes one level to get to what lies in it
      rw [not_or] at hclosed
      obtain ⟨fewer, rfl⟩ := Nat.exists_eq_succ_of_ne_zero fun h => hclosed.1 (congrArg some h)
      rw [if_neg hclosed.2] at hhere
      rcases ihItems hitems hanswers.inside hfolder with ⟨hanswer, hreached⟩ | ⟨hempty, hlength⟩
      · exact .inl ⟨hanswer, _, List.mem_cons_self, rfl, fewer, rfl, hreached.reaches hhere⟩
      · exact .inr ⟨hempty, by dsimp only at hlength; omega⟩
    · exact (ih hrest hanswers.beside hfolder).imp_left fun h => ⟨h.1, h.2.cons _⟩

/-- A path that is reached is no longer than the levels allow. -/
theorem length_le_of_reaches (hnamed : contents.WellNamed)
    (hanswers : Answers failing answer (contents.folders path)) {item : Listed}
    (hitem : item ∈ contents.listing path) (hdir : item.isFolder)
    (hreaches : Reaches answer levels item.path other) :
    (Disk.names other).length ≤ (Disk.names path).length + levels + 1 := by
  induction contents generalizing levels path item with
  | empty => cases hitem
  | file name kind size address? rest ih =>
    obtain ⟨-, hkind, -, hrest⟩ := hnamed
    rcases List.mem_cons.1 hitem with rfl | hitem
    · exact absurd (of_decide_eq_true hdir) hkind
    · exact ih hrest hanswers hitem hdir hreaches
  | folder name size address? items rest ihItems ih =>
    obtain ⟨hname, -, hitems, hrest⟩ := hnamed
    rcases List.mem_cons.1 hitem with rfl | hitem
    · have hbelow := Disk.length_names_below path hname
      cases hreaches with
      | here => exact hbelow.trans_le (by omega)
      | @down fewer _ _ next listed folder reaches =>
        have hhere := hanswers _ List.mem_cons_self
        dsimp only at hhere listed
        rw [hhere] at listed
        split_ifs at listed
        · cases listed
        · have hnext := ihItems hitems hanswers.inside listed folder reaches
          omega
    · exact ih hrest hanswers.beside hitem hdir hreaches

theorem lists_gathered (hnamed : contents.WellNamed)
    (hanswers : Answers failing answer (contents.folders ""))
    (hroot : answer "" = contents.listing "") : (gathered answer levels [""] []).Lists ""
      (contents.visible failing (some levels) "") := by
  intro folder hfolder
  rcases reached_of_mem_folders hnamed hanswers hfolder with
    ⟨hanswer, hreached⟩ | ⟨hempty, hlength⟩
  · rw [lookup_gathered_of_reaches (.inr ⟨"", List.mem_cons_self, hreached.reaches hroot⟩), hanswer]
    rfl
  -- a folder beyond the last level is never listed, since its path is too long
  · have hapart : ∀ path ∈ [""], ¬ Reaches answer levels path folder.1 := by
      intro path hpath hreaches
      obtain rfl := List.mem_singleton.1 hpath
      generalize folder.1 = other at hlength hreaches
      cases hreaches with
      | here => exact absurd hlength (Nat.ne_of_lt (by simp [Disk.names]))
      | down listed next reaches =>
        have hle := length_le_of_reaches hnamed hanswers (hroot ▸ listed) next reaches
        omega
    rw [lookup_gathered_of_not_reaches hapart, hempty]
    rfl

/-- What is gathered level by level makes the tree that is to be seen. -/
theorem toTree_gathered (hnamed : contents.WellNamed)
    (hanswers : Answers failing answer contents.fromRoot) (levels : Nat) :
    (gathered answer levels [""] []).toTree = contents.tree failing (some levels) := by
  have hroot : answer "" = _ := hanswers _ List.mem_cons_self
  have hbelow : Answers failing answer (contents.folders "") :=
    fun folder hfolder => hanswers folder (List.mem_cons_of_mem _ hfolder)
  have hlookup : (gathered answer levels [""] []).lookup "" = some (answer "") :=
    lookup_gathered_of_reaches (.inr ⟨"", List.mem_cons_self, .here⟩)
  unfold toTree Contents.tree
  split_ifs at hroot ⊢ with hfailing
  · have hempty : Contents.empty.WellNamed := trivial
    refine (entriesAt_of_lists hempty (fun _ => rebuilds_of_lists hempty) ?_ ?_).1
    · rw [hlookup, hroot]
      rfl
    · exact fun _ h => nomatch h
  · have hseen := hnamed.visible failing (some levels) ""
    refine (entriesAt_of_lists hseen (fun _ => rebuilds_of_lists hseen) ?_
      (lists_gathered hnamed hbelow hroot)).1
    rw [hlookup, hroot, Contents.listing_visible]
    rfl

end Listings

end CodeGraph.Repository
