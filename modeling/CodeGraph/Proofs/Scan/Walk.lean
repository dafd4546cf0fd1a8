import CodeGraph.Proofs.Disk.Named
import CodeGraph.Scan.Walk

/-! What a walk meets. A walker covers a folder if it meets each item that it shows just once, down to
its limit, and nothing else; so does the walker that goes by the rules, which are looked up in the
folders around an item and do not depend on the limit. -/
namespace CodeGraph.Scan

open DiskItem (Named)

/-- The path of an item, given the names that lead to it from a folder. -/
def pathTo (folder : String) (names : List String) : String := names.foldl Path.joined folder

/-- Whether a walker meets just the items that it shows, each of them once and as what it is, where
the folder itself is at depth 0. What it shows does not depend on the limit. -/
structure Walker.Covers (walk : Walker) (root : String) (survey : Survey)
    (shows : List String → Prop) : Prop where
  nodup : ∀ most?, (walk root survey most?).Nodup
  mem_iff : ∀ most? visit, visit ∈ walk root survey most? ↔ ∃ names item,
    (DiskItem.folder survey.items).at? names = some item ∧ shows names ∧
      (∀ most ∈ most?, names.length ≤ most) ∧ visit = .ofItem (pathTo root names) item

/-- The folders around the items of an item. -/
def inside (around : List (String × FolderRules)) (name : String) :
    DiskItem FileFacts → List (String × FolderRules)
  | .file _ => around
  | .folder items => (name, rulesOf items) :: around

/-- Whether no rule leaves out an item that names lead to, or a folder on the way. -/
def Shown : List (String × FolderRules) → DiskItem FileFacts → List String → Prop
  | _, _, [] => True
  | around, item, name :: names => ∃ below, item.at? [name] = some below ∧
    leavesOut around name below.isFolder = false ∧ Shown (inside around name below) below names

variable {around : List (String × FolderRules)} {items rest : List (String × DiskItem FileFacts)}
  {name folder path other : String} {names below : List String} {item found : DiskItem FileFacts}
  {most? : Option Nat} {depth : Nat} {visit : Visit}

/-- The names of an item are found again in its path. -/
theorem components_pathTo (folder : String) (hnames : ∀ name ∈ names, Disk.Plain name) :
    Path.components (pathTo folder names) = Path.components folder ++ names := by
  induction names generalizing folder with
  | nil => exact (List.append_nil _).symm
  | cons name names ih =>
    obtain ⟨hname, hrest⟩ := List.forall_mem_cons.1 hnames
    change Path.components (pathTo (Path.joined folder name) names) = _
    rw [ih _ hrest, Path.components_joined folder hname.toIsName hname.dot, List.append_assoc,
      List.singleton_append]

theorem eq_of_pathTo_eq (heq : pathTo folder names = pathTo folder below)
    (hnames : ∀ name ∈ names, Disk.Plain name) (hbelow : ∀ name ∈ below, Disk.Plain name) :
    names = below := by
  have hcomponents := components_pathTo folder hnames
  rw [heq, components_pathTo folder hbelow] at hcomponents
  exact (List.append_cancel_left hcomponents).symm

theorem Visit.path_eq_of_ofItem (h : Visit.ofItem path item = .ofItem other found) :
    path = other := by
  cases item <;> cases found
  · exact (Visit.file.inj h).1
  · cases h
  · cases h
  · exact Visit.folder.inj h

theorem lookup_eq_of_at? (h : (DiskItem.folder items).at? [name] = some item) :
    items.lookup name = some item := by
  obtain ⟨found, hlookup, hfound⟩ := Option.bind_eq_some_iff.1 h
  cases hfound
  exact hlookup

/-- What a walk meets at an item of a folder and below it. -/
def MetAt (most? : Option Nat) (depth : Nat) (around : List (String × FolderRules))
    (path name : String) (item : DiskItem FileFacts) (visit : Visit) : Prop :=
  leavesOut around name item.isFolder = false ∧ ∃ names found, item.at? names = some found ∧
    Shown (inside around name item) item names ∧ (∀ most ∈ most?, depth + names.length ≤ most) ∧
      visit = .ofItem (pathTo path names) found

/-- What a walk meets below a folder. -/
def MetBelow (most? : Option Nat) (depth : Nat) (around : List (String × FolderRules))
    (folder : String) (items : List (String × DiskItem FileFacts)) (visit : Visit) : Prop :=
  ∃ name item, items.lookup name = some item ∧
    MetAt most? depth around (Path.joined folder name) name item visit

theorem metBelow_iff : MetBelow most? depth around folder items visit ↔
    ∃ names found, names ≠ [] ∧ (DiskItem.folder items).at? names = some found ∧
      Shown around (.folder items) names ∧ (∀ most ∈ most?, depth + names.length ≤ most + 1) ∧
        visit = .ofItem (pathTo folder names) found := by
  constructor
  · rintro ⟨name, item, hlookup, hkept, names, found, hfound, hshown, hmost, hvisit⟩
    have hat : (DiskItem.folder items).at? [name] = some item := by
      rw [DiskItem.at?, hlookup]
      rfl
    refine ⟨name :: names, found, List.cons_ne_nil _ _, ?_, ⟨item, hat, hkept, hshown⟩, ?_, hvisit⟩
    · rw [DiskItem.at?, hlookup]
      exact hfound
    · intro most hmem
      have hdepth := hmost most hmem
      rw [List.length_cons]
      omega
  · rintro ⟨names, found, hne, hfound, hshown, hmost, hvisit⟩
    obtain ⟨name, names, rfl⟩ := List.exists_cons_of_ne_nil hne
    obtain ⟨item, hat, hkept, hshown⟩ := hshown
    have hlookup := lookup_eq_of_at? hat
    rw [DiskItem.at?, hlookup] at hfound
    refine ⟨name, item, hlookup, hkept, names, found, hfound, hshown, fun most hmem => ?_, hvisit⟩
    have hdepth := hmost most hmem
    rw [List.length_cons] at hdepth
    omega

theorem metAt_file {facts : FileFacts} :
    MetAt most? depth around path name (.file facts) visit ↔
      leavesOut around name false = false ∧ (∀ most ∈ most?, depth ≤ most) ∧
        visit = .file path (some facts.size) := by
  refine and_congr_right fun _ => ⟨?_, ?_⟩
  · rintro ⟨names, found, hfound, -, hmost, hvisit⟩
    cases names with
    | nil =>
      cases hfound
      exact ⟨hmost, hvisit⟩
    | cons => cases hfound
  · rintro ⟨hmost, hvisit⟩
    exact ⟨[], _, rfl, trivial, hmost, hvisit⟩

theorem metAt_folder : MetAt most? depth around path name (.folder items) visit ↔
    leavesOut around name true = false ∧ (∀ most ∈ most?, depth ≤ most) ∧
      (visit = .folder path ∨
        MetBelow most? (depth + 1) ((name, rulesOf items) :: around) path items visit) := by
  refine and_congr_right fun _ => ⟨?_, ?_⟩
  · rintro ⟨names, found, hfound, hshown, hmost, hvisit⟩
    refine ⟨fun most hmem => le_of_add_le_left (hmost most hmem), ?_⟩
    cases names with
    | nil =>
      cases hfound
      exact .inl hvisit
    | cons first names =>
      refine .inr (metBelow_iff.2 ⟨_, found, List.cons_ne_nil _ _, hfound, hshown, ?_, hvisit⟩)
      intro most hmem
      have hdepth := hmost most hmem
      omega
  · rintro ⟨hmost, rfl | hbelow⟩
    · exact ⟨[], _, rfl, trivial, hmost, rfl⟩
    · obtain ⟨names, found, -, hfound, hshown, hdeep, hvisit⟩ := metBelow_iff.1 hbelow
      refine ⟨names, found, hfound, hshown, fun most hmem => ?_, hvisit⟩
      have hdepth := hdeep most hmem
      omega

theorem any_lt_eq_false : most?.any (· < depth) = false ↔ ∀ most ∈ most?, depth ≤ most := by
  cases most? <;> simp

theorem mem_visitsAt_file {facts : FileFacts} :
    visit ∈ visitsAt most? depth around path name (.file facts) ↔
      MetAt most? depth around path name (.file facts) visit := by
  rw [metAt_file, visitsAt, DiskItem.isFolder, ← any_lt_eq_false]
  cases most?.any (· < depth) <;> cases leavesOut around name false <;> simp [Visit.ofItem]

theorem mem_visitsAt_folder (hitems : visit ∈
      visitsBelow most? (depth + 1) ((name, rulesOf items) :: around) path items ↔
        MetBelow most? (depth + 1) ((name, rulesOf items) :: around) path items visit) :
    visit ∈ visitsAt most? depth around path name (.folder items) ↔
      MetAt most? depth around path name (.folder items) visit := by
  rw [metAt_folder, visitsAt, DiskItem.isFolder, ← any_lt_eq_false, ← hitems]
  cases most?.any (· < depth) <;> cases leavesOut around name true <;> simp [Visit.ofItem]

theorem metBelow_cons (hnew : name ∉ rest.map (·.1)) :
    MetBelow most? depth around folder ((name, item) :: rest) visit ↔
      MetAt most? depth around (Path.joined folder name) name item visit ∨
        MetBelow most? depth around folder rest visit := by
  constructor
  · rintro ⟨other, found, hlookup, hmet⟩
    rw [Lookup.lookup_cons] at hlookup
    split_ifs at hlookup with hname
    · cases hlookup
      exact .inl (hname ▸ hmet)
    · exact .inr ⟨other, found, hlookup, hmet⟩
  · rintro (hmet | ⟨other, found, hlookup, hmet⟩)
    · exact ⟨name, item, by rw [Lookup.lookup_cons, if_pos rfl], hmet⟩
    · refine ⟨other, found, ?_, hmet⟩
      rw [Lookup.lookup_cons, if_neg, hlookup]
      rintro rfl
      exact hnew (List.mem_map_of_mem (Lookup.mem_of_lookup_eq hlookup))

/-- A walk meets what no rule leaves out, down to its limit. -/
theorem mem_visitsBelow (h : Named items) :
    visit ∈ visitsBelow most? depth around folder items ↔
      MetBelow most? depth around folder items visit := by
  induction h generalizing depth around folder with
  | nil =>
    refine iff_of_false List.not_mem_nil ?_
    rintro ⟨name, item, hlookup, -⟩
    cases hlookup
  | file _ hnew _ ih =>
    rw [visitsBelow, List.mem_append, mem_visitsAt_file, ih, metBelow_cons hnew]
  | folder _ hnew _ _ ihInner ih =>
    rw [visitsBelow, List.mem_append, mem_visitsAt_folder ihInner, ih, metBelow_cons hnew]

theorem MetAt.exists_path (hmet : MetAt most? depth around (Path.joined folder name) name item visit)
    (h : Named items) (hitem : (name, item) ∈ items) : ∃ names found,
      (∀ other ∈ name :: names, Disk.Plain other) ∧
        visit = .ofItem (pathTo folder (name :: names)) found := by
  obtain ⟨-, names, found, hfound, -, -, hvisit⟩ := hmet
  have hat : (DiskItem.folder items).at? (name :: names) = some found := by
    rw [DiskItem.at?, h.lookup_eq hitem]
    exact hfound
  exact ⟨names, found, h.plain_of_at? hat, hvisit⟩

theorem not_metBelow_folder (h : Named items) :
    ¬ MetBelow most? depth around folder items (.folder folder) := by
  rintro ⟨name, item, hlookup, hmet⟩
  obtain ⟨names, found, hplain, hvisit⟩ := hmet.exists_path h (Lookup.mem_of_lookup_eq hlookup)
  have hself : Visit.ofItem (pathTo folder []) (.folder []) = .ofItem _ found := hvisit
  have hpath := Visit.path_eq_of_ofItem hself
  cases eq_of_pathTo_eq hpath (fun _ hmem => nomatch hmem) hplain

/-- Below a folder, an item is met only where its name leads. -/
theorem MetAt.not_metBelow (hmet : MetAt most? depth around (Path.joined folder name) name item visit)
    (h : Named ((name, item) :: rest)) (hnew : name ∉ rest.map (·.1)) :
    ¬ MetBelow most? depth around folder rest visit := by
  rintro ⟨other, found, hlookup, hother⟩
  have hrest := Lookup.mem_of_lookup_eq hlookup
  obtain ⟨names, _, hplain, rfl⟩ := hmet.exists_path h List.mem_cons_self
  obtain ⟨below, _, hbelow, hvisit⟩ := hother.exists_path h (List.mem_cons_of_mem _ hrest)
  have heq := eq_of_pathTo_eq (Visit.path_eq_of_ofItem hvisit) hplain hbelow
  exact hnew (List.mem_map.2 ⟨_, hrest, (List.cons.inj heq).1.symm⟩)

theorem nodup_visitsAt_file {facts : FileFacts} :
    (visitsAt most? depth around path name (.file facts)).Nodup := by
  rw [visitsAt]
  split_ifs
  · exact List.nodup_nil
  · exact List.nodup_singleton _

theorem nodup_visitsAt_folder (h : Named items)
    (hitems : (visitsBelow most? (depth + 1) ((name, rulesOf items) :: around) path items).Nodup) :
    (visitsAt most? depth around path name (.folder items)).Nodup := by
  rw [visitsAt]
  split_ifs
  · exact List.nodup_nil
  · exact List.nodup_cons.2 ⟨mt (mem_visitsBelow h).1 (not_metBelow_folder h), hitems⟩

theorem nodup_visitsBelow (h : Named items) :
    (visitsBelow most? depth around folder items).Nodup := by
  induction h generalizing depth around folder with
  | nil => exact List.nodup_nil
  | file hname hnew hrest ih =>
    rw [visitsBelow]
    refine List.Nodup.append nodup_visitsAt_file ih fun visit hmet hbelow => ?_
    exact (mem_visitsAt_file.1 hmet).not_metBelow (.file hname hnew hrest) hnew
      ((mem_visitsBelow hrest).1 hbelow)
  | folder hname hnew hinner hrest ihInner ih =>
    rw [visitsBelow]
    refine List.Nodup.append (nodup_visitsAt_folder hinner ihInner) ih fun visit hmet hbelow => ?_
    exact ((mem_visitsAt_folder (mem_visitsBelow hinner)).1 hmet).not_metBelow
      (.folder hname hnew hinner hrest) hnew ((mem_visitsBelow hrest).1 hbelow)

/-- The walker that goes by the rules covers any folder. -/
theorem covers_walk (root : String) (survey : Survey) (h : Named survey.items) :
    Walker.Covers walk root survey (Shown (outside survey) (.folder survey.items)) where
  nodup most? :=
    List.nodup_cons.2 ⟨mt (mem_visitsBelow h).1 (not_metBelow_folder h), nodup_visitsBelow h⟩
  mem_iff most? visit := by
    rw [walk, List.mem_cons, mem_visitsBelow h, metBelow_iff]
    constructor
    · rintro (rfl | ⟨names, found, -, hfound, hshown, hmost, hvisit⟩)
      · exact ⟨[], _, rfl, trivial, fun _ _ => Nat.zero_le _, rfl⟩
      · refine ⟨names, found, hfound, hshown, fun most hmem => ?_, hvisit⟩
        have hdepth := hmost most hmem
        omega
    · rintro ⟨names, found, hfound, hshown, hmost, hvisit⟩
      cases names with
      | nil =>
        cases hfound
        exact .inl hvisit
      | cons name names =>
        refine .inr ⟨_, found, List.cons_ne_nil _ _, hfound, hshown, fun most hmem => ?_, hvisit⟩
        have hdepth := hmost most hmem
        omega

end CodeGraph.Scan
