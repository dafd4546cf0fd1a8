import CodeGraph.Proofs.Disk.Follow

/-! Making a folder with those it stands in: folders are added, and files stay as they are. -/
namespace CodeGraph.Disk

open DiskItem

variable {disk home : Disk} {place list : List String} {name path : String}

/-- A disk with more folders and the same files. -/
structure Grows (disk home : Disk) : Prop where
  folder : ∀ names, disk.sight names = .folder → home.sight names = .folder
  file : ∀ names content, home.sight names = .file content ↔ disk.sight names = .file content

theorem Grows.refl (disk : Disk) : Grows disk disk := ⟨fun _ => id, fun _ _ => .rfl⟩

theorem Grows.trans {other : Disk} (h : Grows disk home) (hother : Grows home other) :
    Grows disk other where
  folder names hnames := hother.folder names (h.folder names hnames)
  file names content := (hother.file names content).trans (h.file names content)

/-- A new folder is empty. -/
theorem sight_empty (names : List String) :
    (DiskItem.folder (α := ByteArray) []).sight names = if names = [] then .folder else .nothing := by
  cases names <;> rfl

theorem grows_put (hplace : place ≠ []) (hfolder : disk.sight place.dropLast = .folder)
    (hnothing : disk.sight place = .nothing) : Grows disk (put (.folder []) place disk) where
  folder names hnames := by
    rw [sight_put hplace hfolder, if_neg]
    · exact hnames
    · intro hprefix
      rw [sight_of_isPrefix hnothing hprefix] at hnames
      cases hnames
  file names content := by
    rw [sight_put hplace hfolder]
    split_ifs with hprefix
    · rw [sight_of_isPrefix hnothing hprefix, sight_empty]
      split_ifs <;> simp
    · rfl

/-- Makes a folder unless it is there already. -/
def ensure (disk : Disk) (path : String) : Except DiskError Disk :=
  match disk.makeFolder path with
  | .ok home => .ok home
  | .error error => if disk.hasFolder path then .ok disk else .error error

theorem makeParts_of_missing (part : String) (above : List String)
    (h : disk.makeFolder ("/".intercalate (part :: above).reverse) = .error .missing) :
    disk.makeParts (part :: above) =
      (disk.makeParts above).bind (ensure · ("/".intercalate (part :: above).reverse)) := by
  rw [makeParts, h]
  rfl

theorem makeParts_of_ne_missing (part : String) (above : List String)
    (h : disk.makeFolder ("/".intercalate (part :: above).reverse) ≠ .error .missing) :
    disk.makeParts (part :: above) = ensure disk ("/".intercalate (part :: above).reverse) := by
  rw [makeParts, ensure]
  split
  · next hmade => rw [hmade]
  · exact absurd ‹_› h
  · next herror => rw [herror]

/-- The last folder is made after those above it, or where they are already. -/
theorem makeParts_cons_eq_ok {part : String} {above : List String}
    (h : disk.makeParts (part :: above) = .ok home) :
    ∃ base, (base = disk ∨ disk.makeParts above = .ok base) ∧
      ensure base ("/".intercalate (part :: above).reverse) = .ok home := by
  by_cases hmissing : disk.makeFolder ("/".intercalate (part :: above).reverse) = .error .missing
  · rw [makeParts_of_missing part above hmissing] at h
    cases habove : disk.makeParts above with
    | error error =>
      rw [habove] at h
      cases h
    | ok base =>
      rw [habove] at h
      exact ⟨base, .inr rfl, h⟩
  · rw [makeParts_of_ne_missing part above hmissing] at h
    exact ⟨disk, .inl rfl, h⟩

theorem ensure_of_nothing (hplace : disk.place path = .ok place)
    (hnothing : disk.sight place = .nothing) :
    ensure disk path = .ok (put (.folder []) place disk) := by
  rw [ensure, makeFolder_of_nothing hplace hnothing]

theorem ensure_of_folder (hplace : disk.place path = .ok place)
    (hfolder : disk.sight place = .folder) : ensure disk path = .ok disk := by
  rw [ensure, makeFolder_of_something hplace (by rw [hfolder]; nofun)]
  exact if_pos ((hasFolder_of_place hplace).2 hfolder)

theorem ensure_eq_ok (hmade : ensure disk path = .ok home) :
    disk.makeFolder path = .ok home ∨ home = disk ∧ disk.hasFolder path = true := by
  unfold ensure at hmade
  split at hmade
  · next hfolder =>
    cases hmade
    exact .inl hfolder
  · split_ifs at hmade with hfolder
    cases hmade
    exact .inr ⟨rfl, hfolder⟩

theorem place_reverse (disk : Disk) {part : String} {above : List String}
    (h : ∀ name ∈ part :: above, IsName name) :
    disk.place ("/".intercalate (part :: above).reverse) =
      follow disk [] (part :: above).reverse := by
  rw [List.reverse_cons]
  exact place_intercalate
    (fun other hother => h other (List.mem_cons_of_mem _ (List.mem_reverse.1 hother)))
    (h part List.mem_cons_self)

/-- A folder that is there already is not made. -/
theorem makeParts_of_folder (hlist : ∀ name ∈ list, IsName name)
    (hfollow : follow disk [] list.reverse = .ok place) (hfolder : disk.sight place = .folder) :
    disk.makeParts list = .ok disk := by
  cases list with
  | nil => rfl
  | cons part above =>
    have hplace := (place_reverse disk hlist).trans hfollow
    have hne : disk.makeFolder ("/".intercalate (part :: above).reverse) ≠ .error .missing := by
      rw [makeFolder_of_something hplace (by rw [hfolder]; nofun)]
      nofun
    rw [makeParts_of_ne_missing part above hne]
    exact ensure_of_folder hplace hfolder

theorem makeFolders_of_folder {root : String} (hfollow : follow disk [] (names root) = .ok place)
    (hfolder : disk.sight place = .folder) : disk.makeFolders root = .ok disk :=
  makeParts_of_folder (fun name hname => isName_of_mem_names (List.mem_reverse.1 hname))
    (by rwa [List.reverse_reverse]) hfolder

/-- What is there stays there. -/
theorem Grows.hasItem (h : Grows disk home)
    (hpath : ∀ disk : Disk, disk.place path = follow disk [] list)
    (hitem : home.hasItem path = false) : disk.hasItem path = false := by
  cases hfollow : follow disk [] list with
  | error error => exact hasItem_of_error ((hpath disk).trans hfollow)
  | ok place =>
    have hnothing := (hasItem_of_place ((hpath home).trans (follow_mono h.folder hfollow))).1 hitem
    rw [hasItem_of_place ((hpath disk).trans hfollow)]
    cases hsight : disk.sight place with
    | nothing => rfl
    | folder =>
      rw [h.folder place hsight] at hnothing
      cases hnothing
    | file content =>
      rw [(h.file place content).2 hsight] at hnothing
      cases hnothing

variable (hdisk : disk.sight [] = .folder)

include hdisk

/-- A folder that is made stands in a folder, and leads to its place from then on. -/
theorem makeFolder_spec (hpath : disk.place path = follow disk [] list)
    (hmade : disk.makeFolder path = .ok home) : ∃ place, follow disk [] list = .ok place ∧
      disk.sight place = .nothing ∧ home = put (.folder []) place disk ∧ Grows disk home ∧
      follow home [] list = .ok place ∧ home.sight place = .folder := by
  cases hfollow : follow disk [] list with
  | error error =>
    rw [makeFolder_of_error (hpath.trans hfollow)] at hmade
    cases hmade
  | ok place =>
    by_cases hnothing : disk.sight place = .nothing
    · rw [makeFolder_of_nothing (hpath.trans hfollow) hnothing] at hmade
      cases hmade
      have hplace : place ≠ [] := by
        rintro rfl
        rw [hdisk] at hnothing
        cases hnothing
      have hparent := (follow_parent (.inl rfl) hfollow).resolve_left hplace
      have hgrows := grows_put hplace hparent hnothing
      refine ⟨place, rfl, hnothing, rfl, hgrows, follow_mono hgrows.folder hfollow, ?_⟩
      rw [sight_put hplace hparent, if_pos (List.prefix_refl _), List.drop_length]
      rfl
    · rw [makeFolder_of_something (hpath.trans hfollow) hnothing] at hmade
      cases hmade

theorem ensure_spec (hpath : disk.place path = follow disk [] list)
    (hmade : ensure disk path = .ok home) : Grows disk home ∧
      ∃ place, follow home [] list = .ok place ∧ home.sight place = .folder := by
  rcases ensure_eq_ok hmade with hfolder | ⟨rfl, hfolder⟩
  · obtain ⟨place, -, -, -, hgrows, hfollow, hsight⟩ := makeFolder_spec hdisk hpath hfolder
    exact ⟨hgrows, place, hfollow, hsight⟩
  · cases hfollow : follow home [] list with
    | error error =>
      rw [hasFolder_of_error (hpath.trans hfollow)] at hfolder
      cases hfolder
    | ok place => exact ⟨.refl home, place, rfl, (hasFolder_of_place (hpath.trans hfollow)).1 hfolder⟩

/-- Folders that have been made lead to a folder. -/
theorem makeParts_spec (hlist : ∀ name ∈ list, IsName name)
    (hmade : disk.makeParts list = .ok home) : Grows disk home ∧
      ∃ place, follow home [] list.reverse = .ok place ∧ home.sight place = .folder := by
  induction list generalizing home with
  | nil =>
    cases hmade
    exact ⟨.refl disk, [], rfl, hdisk⟩
  | cons part above ih =>
    obtain ⟨base, hbase, hmade⟩ := makeParts_cons_eq_ok hmade
    have hgrows : Grows disk base := by
      rcases hbase with rfl | habove
      · exact .refl base
      · exact (ih (fun other hother => hlist other (List.mem_cons_of_mem _ hother)) habove).1
    obtain ⟨hmore, hhome⟩ := ensure_spec (hgrows.folder [] hdisk) (place_reverse base hlist) hmade
    exact ⟨hgrows.trans hmore, hhome⟩

/-- Folders that are there already are left alone. -/
theorem eq_of_makeParts (hlist : ∀ name ∈ list, IsName name)
    (hmade : disk.makeParts list = .ok home)
    (hmissing : follow disk [] list.reverse ≠ .error .missing)
    (hthere : ∀ place, follow disk [] list.reverse = .ok place → disk.sight place ≠ .nothing) :
    home = disk := by
  cases list with
  | nil =>
    cases hmade
    rfl
  | cons part above =>
    have hplace := place_reverse disk hlist
    have hne : disk.makeFolder ("/".intercalate (part :: above).reverse) ≠ .error .missing := by
      cases hfollow : follow disk [] (part :: above).reverse with
      | error error =>
        rw [makeFolder_of_error (hplace.trans hfollow)]
        intro herror
        cases herror
        exact hmissing hfollow
      | ok place =>
        rw [makeFolder_of_something (hplace.trans hfollow) (hthere place hfollow)]
        nofun
    rw [makeParts_of_ne_missing part above hne] at hmade
    rcases ensure_eq_ok hmade with hfolder | ⟨hsame, -⟩
    · obtain ⟨place, hfollow, hnothing, -⟩ := makeFolder_spec hdisk hplace hfolder
      exact absurd hnothing (hthere place hfollow)
    · exact hsame

/-- A folder below others is made once these have been made. -/
theorem makeFolders_joined {root : String} (hroot : disk.makeFolders root = .ok home)
    (hname : IsName name) : disk.makeFolders (Path.joined root name) =
      ensure home ("/".intercalate (names root ++ [name])) := by
  have hparts : disk.makeParts (names root).reverse = .ok home := hroot
  have hnames : (names (Path.joined root name)).reverse = name :: (names root).reverse := by
    rw [names_joined root hname, List.reverse_append]
    rfl
  have hback : (name :: (names root).reverse).reverse = names root ++ [name] := by
    rw [List.reverse_cons, List.reverse_reverse]
  have hlist : ∀ other ∈ name :: (names root).reverse, IsName other := by
    intro other hother
    rcases List.mem_cons.1 hother with rfl | hother
    · exact hname
    · exact isName_of_mem_names (List.mem_reverse.1 hother)
  have hplace := place_reverse disk hlist
  have hjoined : disk.makeFolders (Path.joined root name) =
      disk.makeParts (name :: (names root).reverse) := by
    rw [← hnames]
    rfl
  rw [hjoined]
  by_cases hmissing : disk.makeFolder ("/".intercalate (name :: (names root).reverse).reverse) =
      .error .missing
  · rw [makeParts_of_missing _ _ hmissing, hparts, hback]
    rfl
  -- no folder is missing, so those above have been there before
  · have hsame : home = disk := by
      refine eq_of_makeParts hdisk (fun other hother => hlist other (List.mem_cons_of_mem _ hother))
        hparts ?_ ?_
      · intro herror
        rw [List.reverse_reverse] at herror
        refine hmissing (makeFolder_of_error (hplace.trans ?_))
        rw [hback, follow_append, herror]
        rfl
      · intro place hfollow hnothing
        rw [List.reverse_reverse] at hfollow
        refine hmissing (makeFolder_of_error (hplace.trans ?_))
        rw [hback, follow_append, hfollow]
        change follow disk place [name] = _
        rw [follow_of_not_folder (by rw [hnothing]; nofun), hnothing]
        rfl
    rw [makeParts_of_ne_missing _ _ hmissing, hback, hsame]

/-- Folders that have been made lead to a folder, and files stay as they are. -/
theorem makeFolders_spec {root : String} (hroot : disk.makeFolders root = .ok home) :
    Grows disk home ∧
      ∃ base, follow home [] (names root) = .ok base ∧ home.sight base = .folder := by
  obtain ⟨hgrows, base, hfollow, hfolder⟩ := makeParts_spec hdisk
    (fun name hname => isName_of_mem_names (List.mem_reverse.1 hname)) hroot
  rw [List.reverse_reverse] at hfollow
  exact ⟨hgrows, base, hfollow, hfolder⟩

end CodeGraph.Disk
