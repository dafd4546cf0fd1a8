import CodeGraph.Host.World
import CodeGraph.Proofs.Cache.Entry
import CodeGraph.Proofs.Disk.Folders

/-! The folder that graphs are kept in: what stands in it, and what saving, loading and clearing make
of it. -/
namespace CodeGraph.Cache

open Disk DiskItem

/-- Whether the file for a key can be made: its name must not be too long. -/
def Fits (key : String) : Prop := (fileName key).utf8ByteSize ≤ 255

instance (key : String) : Decidable (Fits key) := inferInstanceAs (Decidable (_ ≤ _))

theorem letter_ne {c : Char} (hother : ¬ c.isAlphanum) (hdash : c ≠ '-') (hdot : c ≠ '.')
    (hline : c ≠ '_') (d : Char) : letter d ≠ c := by
  unfold letter
  split_ifs with h
  · rintro rfl
    simp only [Bool.or_eq_true, decide_eq_true_eq] at h
    rcases h with (h | h) | h
    · exact hother h
    · exact hdash h
    · exact hdot h
  · exact hline.symm

theorem toList_fileName (key : String) : (fileName key).toList =
    ((key.toList.reverse.dropWhile (· = '/')).reverse.map letter) ++ ".json".toList := by
  simp [fileName]

theorem not_mem_fileName {c : Char} (hother : ¬ c.isAlphanum) (hdash : c ≠ '-') (hdot : c ≠ '.')
    (hline : c ≠ '_') (key : String) : c ∉ (fileName key).toList := by
  rw [toList_fileName, List.mem_append]
  rintro (h | h)
  · obtain ⟨d, -, hd⟩ := List.mem_map.1 h
    exact letter_ne hother hdash hdot hline d hd
  · simp only [String.reduceToList, List.mem_cons, List.not_mem_nil, or_false] at h
    rcases h with rfl | rfl | rfl | rfl | rfl
    · exact hdot rfl
    all_goals exact hother (by decide)

theorem length_fileName (key : String) : 5 ≤ (fileName key).length := by
  rw [← String.length_toList, toList_fileName, List.length_append]
  simp

theorem fileName_ne_of_length {key name : String} (h : name.length < 5) : fileName key ≠ name := by
  rintro rfl
  exact absurd (length_fileName key) (Nat.not_le.2 h)

theorem isName_fileName (key : String) : IsName (fileName key) where
  ne_empty := fileName_ne_of_length (by decide)
  slash := not_mem_fileName (by decide) (by decide) (by decide) (by decide) key

theorem nul_not_mem_fileName (key : String) : '\x00' ∉ (fileName key).toList :=
  not_mem_fileName (by decide) (by decide) (by decide) (by decide) key

theorem ordinary_fileName {key : String} (h : Fits key) : Ordinary (fileName key) where
  toIsName := isName_fileName key
  dot := fileName_ne_of_length (by decide)
  up := fileName_ne_of_length (by decide)
  error := nameError?_eq_none (nul_not_mem_fileName key) h

theorem ordinary_folderName : Ordinary folderName where
  ne_empty := by decide
  slash := by decide
  dot := by decide
  up := by decide
  error := nameError?_eq_none (by decide) (by decide)

def bytes (entry : CachedGraph) : ByteArray := entry.toJson.pretty.toUTF8

/-- The kept graph in a file, of several with the latest first. -/
def inFile? (kept : List CachedGraph) (name : String) : Option CachedGraph :=
  kept.find? (fileName ·.key = name)

/-- What is found under a key: the graph in its file, if it is kept under this very key. -/
def found? (kept : List CachedGraph) (key : String) : Option CachedGraph :=
  (inFile? kept (fileName key)).filter (·.key = key)

/-- A root that is a folder, in which there is no cache. -/
structure Root (root : String) (base : List String) (home : Disk) : Prop where
  follow : follow home [] (names root) = .ok base
  isFolder : home.sight base = .folder
  free : home.sight (base ++ [folderName]) = .nothing

/-- A disk that differs from another one in the files of a cache only. -/
structure Holds (base : List String) (home : Disk) (kept : List CachedGraph) (disk : Disk) :
    Prop where
  outside : ∀ names, ¬ base ++ [folderName] <+: names → disk.sight names = home.sight names
  inside : kept = [] ∧ disk.sight (base ++ [folderName]) = .nothing ∨
    disk.sight (base ++ [folderName]) = .folder ∧ ∀ name,
      disk.sight (base ++ [folderName] ++ [name]) =
        (inFile? kept name).elim .nothing fun entry => .file (bytes entry)
  entries : ∀ entry ∈ kept, Fits entry.key ∧ entry.Readable

variable {root key : String} {base : List String} {home disk made : Disk}
  {kept : List CachedGraph} {entry : CachedGraph}

theorem inFile?_mem {name : String} (h : inFile? kept name = some entry) :
    entry ∈ kept ∧ fileName entry.key = name :=
  ⟨List.mem_of_find?_eq_some h, by simpa using List.find?_some h⟩

theorem Root.holds (h : Root root base home) : Holds base home [] home where
  outside _ _ := rfl
  inside := .inl ⟨rfl, h.free⟩
  entries _ hentry := absurd hentry List.not_mem_nil

theorem place_folder_eq_follow (disk : Disk) (root : String) :
    disk.place (folder root) = disk.follow [] (names root ++ [folderName]) :=
  place_joined root ordinary_folderName.toIsName

theorem place_path_eq_follow (disk : Disk) (root key : String) :
    disk.place (path root key) = follow disk [] (names root ++ [folderName] ++ [fileName key]) := by
  unfold path folder
  rw [place_joined _ (isName_fileName key), names_joined root ordinary_folderName.toIsName]

theorem Holds.folder_of_home (hroot : Root root base home) (h : Holds base home kept disk)
    (names : List String) (hfolder : home.sight names = .folder) : disk.sight names = .folder := by
  rw [h.outside names, hfolder]
  intro hprefix
  rw [sight_of_isPrefix hroot.free hprefix] at hfolder
  cases hfolder

theorem Holds.sight_base (hroot : Root root base home) (h : Holds base home kept disk) :
    disk.sight base = .folder :=
  h.folder_of_home hroot base hroot.isFolder

theorem Holds.follow_root (hroot : Root root base home) (h : Holds base home kept disk) :
    follow disk [] (names root) = .ok base :=
  follow_mono (h.folder_of_home hroot) hroot.follow

theorem Holds.place_folder (hroot : Root root base home) (h : Holds base home kept disk) :
    disk.place (folder root) = .ok (base ++ [folderName]) := by
  rw [place_folder_eq_follow, follow_append, h.follow_root hroot]
  exact follow_ordinary ordinary_folderName (h.sight_base hroot)

/-- The path of a file leads through the folder. -/
theorem Holds.place_path (hroot : Root root base home) (h : Holds base home kept disk)
    (key : String) :
    disk.place (path root key) = follow disk (base ++ [folderName]) [fileName key] := by
  have hfolder := h.place_folder hroot
  rw [place_folder_eq_follow] at hfolder
  rw [place_path_eq_follow, follow_append, hfolder]
  rfl

theorem Holds.place_path_of_fits (hroot : Root root base home) (h : Holds base home kept disk)
    (hfolder : disk.sight (base ++ [folderName]) = .folder) (hkey : Fits key) :
    disk.place (path root key) = .ok (base ++ [folderName] ++ [fileName key]) :=
  (h.place_path hroot key).trans (follow_ordinary (ordinary_fileName hkey) hfolder)

theorem Holds.place_path_of_not_fits (hroot : Root root base home) (h : Holds base home kept disk)
    (hfolder : disk.sight (base ++ [folderName]) = .folder) (hkey : ¬ Fits key) :
    disk.place (path root key) = .error .nameTooLong := by
  have herror := nameError?_eq_tooLong (nul_not_mem_fileName key) (Nat.not_le.1 hkey)
  rw [h.place_path hroot key, follow_of_folder hfolder, enter,
    if_neg (not_or.2 ⟨fileName_ne_of_length (by decide), fileName_ne_of_length (by decide)⟩),
    if_neg (fileName_ne_of_length (by decide)), herror]
  rfl

theorem Holds.inside_file (h : Holds base home kept disk) {names : List String}
    {content : ByteArray} (hnames : base ++ [folderName] <+: names)
    (hfile : disk.sight names = .file content) :
    ∃ entry, inFile? kept (fileName entry.key) = some entry ∧
      names = base ++ [folderName] ++ [fileName entry.key] ∧ content = bytes entry := by
  rcases h.inside with ⟨-, hnothing⟩ | ⟨hfolder, hfiles⟩
  · rw [sight_of_isPrefix hnothing hnames] at hfile
    cases hfile
  · obtain ⟨more, rfl⟩ := hnames
    cases more with
    | nil =>
      rw [List.append_nil, hfolder] at hfile
      cases hfile
    | cons name rest =>
      rw [List.append_cons] at hfile ⊢
      have hname := hfiles name
      cases hkept : inFile? kept name with
      | none =>
        rw [hkept] at hname
        rw [sight_of_isPrefix hname (List.prefix_append _ _)] at hfile
        cases hfile
      | some entry =>
        rw [hkept] at hname
        obtain rfl : rest = [] := by
          by_contra hrest
          rw [sight_append (by rw [hname]; nofun) hrest] at hfile
          cases hfile
        rw [List.append_nil, hname] at hfile
        cases hfile
        obtain rfl := (inFile?_mem hkept).2
        exact ⟨entry, hkept, List.append_nil _, rfl⟩

/-- The folder is made where it is missing. -/
theorem Holds.makeFolders (hroot : Root root base home) (hdisk : disk.sight [] = .folder)
    (hmade : disk.makeFolders root = .ok made) (h : Holds base home kept made) :
    ∃ more, disk.makeFolders (folder root) = .ok more ∧ Holds base home kept more ∧
      more.sight (base ++ [folderName]) = .folder := by
  have hplace : made.place ("/".intercalate (names root ++ [folderName])) =
      .ok (base ++ [folderName]) := by
    rw [place_intercalate (fun name => isName_of_mem_names) ordinary_folderName.toIsName,
      follow_append, h.follow_root hroot]
    exact follow_ordinary ordinary_folderName (h.sight_base hroot)
  rw [folder, makeFolders_joined hdisk hmade ordinary_folderName.toIsName]
  rcases h.inside with ⟨rfl, hnothing⟩ | ⟨hfolder, hfiles⟩
  · have hne : base ++ [folderName] ≠ [] := by simp
    have hparent : made.sight (base ++ [folderName]).dropLast = .folder := by
      rw [List.dropLast_concat]
      exact h.sight_base hroot
    have hfolder : (put (.folder []) (base ++ [folderName]) made).sight (base ++ [folderName]) =
        .folder := sight_put_self hne hparent
    refine ⟨_, ensure_of_nothing hplace hnothing,
      ⟨fun names hnames => ?_, .inr ⟨hfolder, fun name => ?_⟩, h.entries⟩, hfolder⟩
    · rw [sight_put_of_not_isPrefix hne hparent hnames, h.outside names hnames]
    · rw [sight_put hne hparent, if_pos (List.prefix_append _ _), List.drop_left]
      rfl
  · exact ⟨made, ensure_of_folder hplace hfolder, h, hfolder⟩

theorem append_isPrefix_append_iff {dir : List String} {name other : String} :
    dir ++ [name] <+: dir ++ [other] ↔ name = other := by
  rw [List.prefix_append_right_inj, List.cons_prefix_cons]
  exact and_iff_left List.nil_prefix

/-- A file takes the place of the one of the same name. -/
theorem Holds.write (hroot : Root root base home) (h : Holds base home kept disk)
    (hfolder : disk.sight (base ++ [folderName]) = .folder) (hkey : Fits entry.key)
    (hentry : entry.Readable) :
    ∃ more, disk.write (path root entry.key) (bytes entry) = .ok more ∧
      Holds base home (entry :: kept) more := by
  have hfiles : ∀ name, disk.sight (base ++ [folderName] ++ [name]) =
      (inFile? kept name).elim .nothing fun entry => .file (bytes entry) := by
    rcases h.inside with ⟨-, hnothing⟩ | ⟨-, hfiles⟩
    · rw [hfolder] at hnothing
      cases hnothing
    · exact hfiles
  have hsight : disk.sight (base ++ [folderName] ++ [fileName entry.key]) ≠ .folder := by
    rw [hfiles]
    cases inFile? kept (fileName entry.key) <;> nofun
  have hne : base ++ [folderName] ++ [fileName entry.key] ≠ [] := by simp
  have hparent : disk.sight (base ++ [folderName] ++ [fileName entry.key]).dropLast = .folder := by
    rw [List.dropLast_concat]
    exact hfolder
  refine ⟨_, write_of_place (h.place_path_of_fits hroot hfolder hkey) hsight (bytes entry),
    ⟨fun names hnames => ?_, .inr ⟨?_, fun name => ?_⟩, fun other hother => ?_⟩⟩
  · rw [sight_put_of_not_isPrefix hne hparent fun hprefix =>
      hnames ((List.prefix_append _ _).trans hprefix), h.outside names hnames]
  · rw [sight_put_of_not_isPrefix hne hparent, hfolder]
    intro hprefix
    have := hprefix.length_le
    simp at this
  · by_cases hname : fileName entry.key = name
    · subst hname
      rw [sight_put_self hne hparent, inFile?, List.find?_cons_of_pos (by simp)]
      rfl
    · rw [sight_put_of_not_isPrefix hne hparent (mt append_isPrefix_append_iff.1 hname), hfiles,
        inFile?, inFile?, List.find?_cons_of_neg (by simpa using hname)]
  · rcases List.mem_cons.1 hother with rfl | hother
    · exact ⟨hkey, hentry⟩
    · exact h.entries other hother

theorem run_save (surroundings : Surroundings) (root : String) (entry : CachedGraph)
    (world : World) : (save (.ofWorld surroundings) root entry).run world =
      match world.disk.makeFolders (folder root) with
      | .error error => (.error (.disk error), world)
      | .ok disk =>
        match disk.write (path root entry.key) (bytes entry) with
        | .error _ => (.error (.unwritable (path root entry.key)), { world with disk })
        | .ok disk => (.ok (), { world with disk }) := by
  unfold save bytes
  cases hfolders : world.disk.makeFolders (folder root) with
  | error error =>
    simp [Host.ofWorld, World.change, StateT.run, bind, StateT.bind, pure, StateT.pure, hfolders]
  | ok disk =>
    cases hwrite : disk.write (path root entry.key) entry.toJson.pretty.toUTF8 <;>
      simp [Host.ofWorld, World.change, StateT.run, bind, StateT.bind, pure, StateT.pure, hfolders,
        hwrite, -String.toUTF8_eq_toByteArray]

theorem run_load (surroundings : Surroundings) (root key : String) (world : World) :
    (Cache.load (.ofWorld surroundings) root key).run world =
      (if world.disk.hasItem (path root key) then
        match world.disk.read (path root key) with
        | .error error => .error (.disk error)
        | .ok bytes =>
          match String.fromUTF8? bytes with
          | some text => entryOf? (path root key) key text
          | none => .error (.disk .notText)
      else .ok none, world) := by
  unfold Cache.load Host.readText
  cases hitem : world.disk.hasItem (path root key) with
  | false => simp [Host.ofWorld, World.look, StateT.run, bind, StateT.bind, pure, StateT.pure, hitem]
  | true =>
    cases hread : world.disk.read (path root key) with
    | error error =>
      simp [Host.ofWorld, World.look, StateT.run, bind, StateT.bind, pure, StateT.pure, hitem, hread]
    | ok bytes =>
      cases htext : String.fromUTF8? bytes <;>
        simp [Host.ofWorld, World.look, StateT.run, bind, StateT.bind, pure, StateT.pure, hitem,
          hread, htext]

theorem load_of_not_hasItem (surroundings : Surroundings) {world : World}
    (hitem : world.disk.hasItem (path root key) = false) :
    (Cache.load (.ofWorld surroundings) root key).run world = (.ok none, world) := by
  rw [run_load, hitem]
  rfl

theorem fromUTF8?_bytes (entry : CachedGraph) :
    String.fromUTF8? (bytes entry) = some entry.toJson.pretty :=
  dif_pos entry.toJson.pretty.isValidUTF8

/-- A file that holds a graph gives it, under its own key. -/
theorem load_of_read (surroundings : Surroundings) (world : World) (h : entry.Readable)
    (hitem : world.disk.hasItem (path root key) = true)
    (hread : world.disk.read (path root key) = .ok (bytes entry)) :
    (Cache.load (.ofWorld surroundings) root key).run world =
      (.ok (if entry.key = key then some entry else none), world) := by
  rw [run_load, hitem, if_pos rfl, hread]
  dsimp only
  rw [fromUTF8?_bytes]
  dsimp only
  rw [entryOf?, CachedGraph.text_pretty h]

/-- What is found under a key is what its file holds, if that is kept under this key. -/
theorem Holds.load (hroot : Root root base home) (h : Holds base home kept disk)
    (surroundings : Surroundings) (key : String) (sent : List Web.Request) :
    (Cache.load (.ofWorld surroundings) root key).run ⟨disk, sent⟩ =
      (.ok (found? kept key), ⟨disk, sent⟩) := by
  rcases h.inside with ⟨rfl, hnothing⟩ | ⟨hfolder, hfiles⟩
  · have hpath := (h.place_path hroot key).trans (follow_of_not_folder (by rw [hnothing]; nofun))
    have hnone : found? [] key = none := rfl
    rw [hnone]
    exact load_of_not_hasItem surroundings (hasItem_of_error hpath)
  · by_cases hkey : Fits key
    · have hpath := h.place_path_of_fits hroot hfolder hkey
      have hsight := hfiles (fileName key)
      unfold found?
      cases hfile : inFile? kept (fileName key) with
      | none =>
        rw [hfile] at hsight
        exact load_of_not_hasItem surroundings ((hasItem_of_place hpath).2 hsight)
      | some entry =>
        rw [hfile] at hsight
        have hitem : disk.hasItem (path root key) = true := by
          rw [← Bool.not_eq_false, hasItem_of_place hpath, hsight]
          nofun
        have hload := load_of_read surroundings ⟨disk, sent⟩
          (h.entries entry (inFile?_mem hfile).1).2 hitem (read_of_place hpath hsight)
        rw [hload, Option.filter_some]
        simp
    · -- no graph can have been kept in this file
      have hfile : inFile? kept (fileName key) = none := by
        cases hfile : inFile? kept (fileName key) with
        | none => rfl
        | some entry =>
          obtain ⟨hmem, hname⟩ := inFile?_mem hfile
          have hfits := (h.entries entry hmem).1
          unfold Fits at hfits hkey
          rw [hname] at hfits
          exact absurd hfits hkey
      rw [found?, hfile]
      exact load_of_not_hasItem surroundings
        (hasItem_of_error (h.place_path_of_not_fits hroot hfolder hkey))

theorem run_clear (surroundings : Surroundings) (root : String) (world : World) :
    (Cache.clear (.ofWorld surroundings) root).run world =
      if world.disk.hasItem (folder root) then World.change (·.removeFolder (folder root)) world
      else (.ok (), world) := by
  unfold Cache.clear
  cases hitem : world.disk.hasItem (folder root) <;>
    simp [Host.ofWorld, World.look, StateT.run, bind, StateT.bind, pure, StateT.pure, hitem]

theorem Holds.clear (hroot : Root root base home) (h : Holds base home kept disk)
    (surroundings : Surroundings) (sent : List Web.Request) :
    ∃ more, (Cache.clear (.ofWorld surroundings) root).run ⟨disk, sent⟩ =
      (.ok (), ⟨more, sent⟩) ∧ Holds base home [] more := by
  have hplace := h.place_folder hroot
  rw [run_clear]
  dsimp only
  rcases h.inside with ⟨rfl, hnothing⟩ | ⟨hfolder, -⟩
  · rw [(hasItem_of_place hplace).2 hnothing]
    exact ⟨disk, rfl, h⟩
  · have hitem : disk.hasItem (folder root) = true := by
      rw [← Bool.not_eq_false, hasItem_of_place hplace, hfolder]
      nofun
    have hne : base ++ [folderName] ≠ [] := by simp
    rw [hitem, if_pos rfl]
    unfold World.change
    dsimp only
    rw [removeFolder_of_place hplace hfolder]
    refine ⟨_, rfl, ⟨fun names hnames => ?_, .inl ⟨rfl, ?_⟩, fun entry hentry => ?_⟩⟩
    · rw [sight_remove hne, if_neg hnames, h.outside names hnames]
    · rw [sight_remove hne, if_pos (List.prefix_refl _)]
    · exact absurd hentry List.not_mem_nil

end CodeGraph.Cache
