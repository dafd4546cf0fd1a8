import CodeGraph.Proofs.Disk.Path
import CodeGraph.Proofs.Disk.Sight

/-! Following paths on a disk, and making folders. -/
namespace CodeGraph.Disk

open DiskItem

variable {disk other : Disk} {here place : List String} {part : String} {list more : List String}

/-- Why a path cannot be followed from what is no folder. -/
def obstacle : Sight ByteArray → DiskError
  | .file _ => .notFolder
  | _ => .missing

/-- Where one part of a path leads from a folder. -/
def enter (here : List String) (part : String) : Except DiskError (List String) :=
  if part = "" ∨ part = "." then .ok here
  else if part = ".." then .ok here.dropLast
  else
    match nameError? part with
    | some error => .error error
    | none => .ok (here ++ [part])

theorem follow_of_folder (h : disk.sight here = .folder) :
    follow disk here (part :: list) = (enter here part).bind (follow disk · list) := by
  obtain ⟨items, hat⟩ := sight_eq_folder.1 h
  rw [follow, hat, enter]
  dsimp only
  split_ifs
  · rfl
  · rfl
  · cases nameError? part <;> rfl

theorem follow_of_not_folder (h : disk.sight here ≠ .folder) :
    follow disk here (part :: list) = .error (obstacle (disk.sight here)) := by
  rw [follow]
  unfold sight at h ⊢
  match hat : disk.at? here with
  | none => rfl
  | some (.file _) => rfl
  | some (.folder _) =>
    rw [hat] at h
    exact absurd rfl h

theorem follow_append : follow disk here (list ++ more) =
    (follow disk here list).bind (follow disk · more) := by
  induction list generalizing here with
  | nil => rfl
  | cons part list ih =>
    rw [List.cons_append]
    by_cases h : disk.sight here = .folder
    · rw [follow_of_folder h, follow_of_folder h]
      cases enter here part with
      | error error => rfl
      | ok next => exact ih
    · rw [follow_of_not_folder h, follow_of_not_folder h]
      rfl

/-- Paths still lead to the same places where more folders have been made. -/
theorem follow_mono (h : ∀ names, disk.sight names = .folder → other.sight names = .folder)
    (hfollow : follow disk here list = .ok place) : follow other here list = .ok place := by
  induction list generalizing here with
  | nil => exact hfollow
  | cons part list ih =>
    by_cases hhere : disk.sight here = .folder
    · rw [follow_of_folder hhere] at hfollow
      rw [follow_of_folder (h here hhere)]
      cases hnext : enter here part with
      | error error =>
        rw [hnext] at hfollow
        cases hfollow
      | ok next =>
        rw [hnext] at hfollow
        exact ih hfollow
    · rw [follow_of_not_folder hhere] at hfollow
      cases hfollow

/-- A path that leads somewhere leads into a folder. -/
theorem follow_parent (hhere : here = [] ∨ disk.sight here.dropLast = .folder)
    (hfollow : follow disk here list = .ok place) :
    place = [] ∨ disk.sight place.dropLast = .folder := by
  induction list generalizing here with
  | nil =>
    cases hfollow
    exact hhere
  | cons part list ih =>
    by_cases hfolder : disk.sight here = .folder
    · rw [follow_of_folder hfolder] at hfollow
      have habove : here = [] ∨ disk.sight here.dropLast = .folder := hhere
      -- folders stand in folders, so that a step up keeps the property
      have hup : here.dropLast = [] ∨ disk.sight here.dropLast.dropLast = .folder := by
        by_cases hnil : here.dropLast = []
        · exact .inl hnil
        · refine .inr (sight_dropLast ?_ hnil)
          rw [hhere.resolve_left fun h => hnil (by rw [h]; rfl)]
          nofun
      have hdown : here ++ [part] = [] ∨ disk.sight (here ++ [part]).dropLast = .folder :=
        .inr (by rwa [List.dropLast_concat])
      unfold enter at hfollow
      split_ifs at hfollow
      · exact ih habove hfollow
      · exact ih hup hfollow
      · cases herror : nameError? part with
        | some error =>
          rw [herror] at hfollow
          cases hfollow
        | none =>
          rw [herror] at hfollow
          exact ih hdown hfollow
    · rw [follow_of_not_folder hfolder] at hfollow
      cases hfollow

/-- Empty parts do not count as long as a name follows them. -/
theorem follow_filter (list : List String) (name : String) :
    follow disk here (list ++ [name]) = follow disk here (list.filter (· ≠ "") ++ [name]) := by
  induction list generalizing here with
  | nil => rfl
  | cons part list ih =>
    by_cases hfolder : disk.sight here = .folder
    · by_cases hpart : part = ""
      · rw [List.filter_cons_of_neg (by simpa using hpart), List.cons_append,
          follow_of_folder hfolder, enter, if_pos (.inl hpart)]
        exact ih
      · rw [List.filter_cons_of_pos (by simpa using hpart), List.cons_append, List.cons_append,
          follow_of_folder hfolder, follow_of_folder hfolder]
        cases enter here part with
        | error error => rfl
        | ok next => exact ih
    · obtain ⟨first, rest, hrest⟩ :=
        List.exists_cons_of_ne_nil (List.concat_ne_nil name ((part :: list).filter (· ≠ "")))
      rw [hrest, List.cons_append, follow_of_not_folder hfolder, follow_of_not_folder hfolder]

/-- A name that can be that of an item, and leads to it. -/
structure Ordinary (name : String) : Prop extends IsName name where
  dot : name ≠ "."
  up : name ≠ ".."
  error : nameError? name = none

theorem follow_ordinary {name : String} (hname : Ordinary name) (h : disk.sight here = .folder) :
    follow disk here [name] = .ok (here ++ [name]) := by
  rw [follow_of_folder h, enter, if_neg (not_or.2 ⟨hname.ne_empty, hname.dot⟩), if_neg hname.up,
    hname.error]
  rfl

theorem eq_of_follow_name {name : String} (hname : IsName name) (hdot : name ≠ ".")
    (hup : name ≠ "..") (h : follow disk here [name] = .ok place) : place = here ++ [name] := by
  by_cases hfolder : disk.sight here = .folder
  · rw [follow_of_folder hfolder, enter, if_neg (not_or.2 ⟨hname.ne_empty, hdot⟩), if_neg hup] at h
    cases herror : nameError? name with
    | some error =>
      rw [herror] at h
      cases h
    | none =>
      rw [herror] at h
      cases h
      rfl
  · rw [follow_of_not_folder hfolder] at h
    cases h

theorem place_eq_follow {path : String} (hne : path ≠ "") :
    disk.place path = follow disk [] (parts path) := by
  rw [Disk.place, if_neg (mt String.isEmpty_iff.1 hne)]

theorem place_of_parts {path : String} {above : List String} {name : String}
    (hparts : parts path = above ++ [name]) (hname : IsName name) :
    disk.place path = follow disk [] (names path) := by
  have hne : path ≠ "" := by
    rintro rfl
    have hlast := congrArg List.getLast? hparts
    rw [List.getLast?_concat] at hlast
    exact hname.ne_empty (Option.some.inj hlast).symm
  have hnames : names path = above.filter (· ≠ "") ++ [name] := by
    unfold names
    rw [hparts, List.filter_append, List.filter_cons_of_pos (by simpa using hname.ne_empty)]
    rfl
  rw [place_eq_follow hne, hparts, follow_filter, ← hnames]

theorem place_joined (folder : String) {name : String} (hname : IsName name) :
    disk.place (Path.joined folder name) = follow disk [] (names folder ++ [name]) := by
  obtain ⟨above, hparts, -⟩ := parts_joined folder hname
  rw [place_of_parts hparts hname, names_joined folder hname]

theorem place_intercalate {list : List String} {name : String} (hlist : ∀ name ∈ list, IsName name)
    (hname : IsName name) :
    disk.place ("/".intercalate (list ++ [name])) = follow disk [] (list ++ [name]) := by
  have hall : ∀ other ∈ list ++ [name], IsName other := by
    intro other hother
    rcases List.mem_append.1 hother with hother | hother
    · exact hlist other hother
    · exact List.mem_singleton.1 hother ▸ hname
  obtain ⟨first, rest, hfirst⟩ := List.exists_cons_of_ne_nil (List.concat_ne_nil name list)
  have hparts : parts ("/".intercalate (list ++ [name])) = list ++ [name] := by
    rw [hfirst] at hall ⊢
    exact parts_intercalate (fun other hother => hall other (List.mem_cons_of_mem _ hother))
      (hall first List.mem_cons_self)
  have hnames : names ("/".intercalate (list ++ [name])) = list ++ [name] := by
    unfold names
    rw [hparts, List.filter_eq_self]
    exact fun other hother => by simpa using (hall other hother).ne_empty
  rw [place_of_parts hparts hname, hnames]

variable {path : String}

theorem hasItem_of_error {error : DiskError} (h : disk.place path = .error error) :
    disk.hasItem path = false := by
  simp [hasItem, item, h, bind, Except.bind]

theorem hasItem_of_place (h : disk.place path = .ok place) :
    disk.hasItem path = false ↔ disk.sight place = .nothing := by
  rw [sight_eq_nothing]
  unfold hasItem item
  rw [h]
  dsimp only [bind, Except.bind]
  cases disk.at? place <;> simp

theorem hasFolder_of_error {error : DiskError} (h : disk.place path = .error error) :
    disk.hasFolder path = false := by
  simp [hasFolder, item, h, bind, Except.bind]

theorem hasFolder_of_place (h : disk.place path = .ok place) :
    disk.hasFolder path = true ↔ disk.sight place = .folder := by
  rw [sight_eq_folder]
  unfold hasFolder item
  rw [h]
  dsimp only [bind, Except.bind]
  match disk.at? place with
  | none => simp
  | some (.file _) => simp [isFolder]
  | some (.folder _) => simp [isFolder]

theorem read_of_place {content : ByteArray} (h : disk.place path = .ok place)
    (hfile : disk.sight place = .file content) : disk.read path = .ok content := by
  simp [read, item, h, sight_eq_file.1 hfile, bind, Except.bind]

theorem read_eq_ok {content : ByteArray} : disk.read path = .ok content ↔
    ∃ place, disk.place path = .ok place ∧ disk.sight place = .file content := by
  constructor
  · intro h
    unfold Disk.read item at h
    cases hplace : disk.place path with
    | error error =>
      rw [hplace] at h
      cases h
    | ok place =>
      refine ⟨place, rfl, sight_eq_file.2 ?_⟩
      rw [hplace] at h
      dsimp only [bind, Except.bind] at h
      cases hat : disk.at? place with
      | none =>
        rw [hat] at h
        cases h
      | some item =>
        rw [hat] at h
        cases item with
        | folder items => cases h
        | file found => rw [Except.ok.inj h]
  · rintro ⟨place, hplace, hfile⟩
    exact read_of_place hplace hfile

theorem hasItem_of_read {content : ByteArray} (h : disk.read path = .ok content) :
    disk.hasItem path = true := by
  obtain ⟨place, hplace, hfile⟩ := read_eq_ok.1 h
  rw [← Bool.not_eq_false, hasItem_of_place hplace, hfile]
  rintro ⟨⟩

theorem write_of_place (h : disk.place path = .ok place) (hfolder : disk.sight place ≠ .folder)
    (content : ByteArray) : disk.write path content = .ok (put (.file content) place disk) := by
  unfold write
  rw [h]
  dsimp only [bind, Except.bind]
  split
  · exact absurd (sight_eq_folder.2 ⟨_, ‹_›⟩) hfolder
  · rfl

theorem write_of_folder (h : disk.place path = .ok place) (hfolder : disk.sight place = .folder)
    (content : ByteArray) : disk.write path content = .error .isFolder := by
  obtain ⟨items, hat⟩ := sight_eq_folder.1 hfolder
  simp [write, h, hat, bind, Except.bind]

theorem write_of_error {error : DiskError} (h : disk.place path = .error error)
    (content : ByteArray) : disk.write path content = .error error := by
  simp [write, h, bind, Except.bind]

/-- A file that is written is there, and nothing else has changed. -/
theorem write_spec {content : ByteArray} {written : Disk} (hdisk : disk.sight [] = .folder)
    (hpath : ∀ disk : Disk, disk.place path = follow disk [] list)
    (hwrite : disk.write path content = .ok written) :
    ∃ place, follow disk [] list = .ok place ∧ written.place path = .ok place ∧
      written.sight place = .file content ∧
      (∀ names, ¬ place <+: names → written.sight names = disk.sight names) ∧
      ∀ names, disk.sight names = .folder → written.sight names = .folder := by
  cases hfollow : follow disk [] list with
  | error error =>
    rw [write_of_error ((hpath disk).trans hfollow)] at hwrite
    cases hwrite
  | ok place =>
    by_cases hfolder : disk.sight place = .folder
    · rw [write_of_folder ((hpath disk).trans hfollow) hfolder] at hwrite
      cases hwrite
    · rw [write_of_place ((hpath disk).trans hfollow) hfolder] at hwrite
      cases hwrite
      have hne : place ≠ [] := by
        rintro rfl
        exact hfolder hdisk
      have hparent := (follow_parent (.inl rfl) hfollow).resolve_left hne
      have hmono : ∀ names, disk.sight names = .folder →
          (put (.file content) place disk).sight names = .folder := by
        intro names hnames
        rw [sight_put_of_not_isPrefix hne hparent, hnames]
        -- nothing stands below what is no folder
        rintro ⟨more, rfl⟩
        by_cases hmore : more = []
        · rw [hmore, List.append_nil] at hnames
          exact hfolder hnames
        · rw [sight_append hfolder hmore] at hnames
          cases hnames
      refine ⟨place, rfl, (hpath _).trans (follow_mono hmono hfollow), ?_, fun names hnames => ?_,
        hmono⟩
      · exact sight_put_self hne hparent
      · exact sight_put_of_not_isPrefix hne hparent hnames

theorem toOption_read {name : String} {content : ByteArray} (hname : Ordinary name)
    (hdisk : disk.sight [] = .folder) :
    (disk.read name).toOption = some content ↔ disk.sight [name] = .file content := by
  have hplace : disk.place name = .ok [name] := by
    have hparts : parts name = [] ++ [name] := parts_name hname.toIsName
    rw [place_of_parts hparts hname.toIsName, names_name hname.toIsName]
    exact follow_ordinary hname hdisk
  rw [sight_eq_file]
  unfold Disk.read item
  rw [hplace]
  dsimp only [bind, Except.bind]
  match disk.at? [name] with
  | none => simp [Except.toOption]
  | some (.file _) => simp [Except.toOption]
  | some (.folder _) => simp [Except.toOption]

theorem removeFolder_of_place (h : disk.place path = .ok place)
    (hfolder : disk.sight place = .folder) :
    disk.removeFolder path = .ok (remove place disk) := by
  obtain ⟨items, hat⟩ := sight_eq_folder.1 hfolder
  simp [removeFolder, h, hat, bind, Except.bind]

theorem makeFolder_of_nothing (h : disk.place path = .ok place)
    (hnothing : disk.sight place = .nothing) :
    disk.makeFolder path = .ok (put (.folder []) place disk) := by
  simp [makeFolder, h, sight_eq_nothing.1 hnothing, bind, Except.bind]

theorem makeFolder_of_something (h : disk.place path = .ok place)
    (hsomething : disk.sight place ≠ .nothing) : disk.makeFolder path = .error .exists := by
  unfold makeFolder
  rw [h]
  dsimp only [bind, Except.bind]
  split
  · rfl
  · exact absurd (sight_eq_nothing.2 ‹_›) hsomething

theorem makeFolder_of_error {error : DiskError} (h : disk.place path = .error error) :
    disk.makeFolder path = .error error := by
  simp [makeFolder, h, bind, Except.bind]

end CodeGraph.Disk
