import CodeGraph.Analysis.Source
import CodeGraph.Host.World
import CodeGraph.Proofs.Scan.Found

/-! Scanning a folder agrees with flattening its tree and with reading its files: the limits mean
the same, and the path of a file that is found leads back to it. -/
namespace CodeGraph.Scan

open FileTree

variable {disk : Disk} {root : String} {place names : List String} {survey : Survey}
  {items : List (String × DiskItem ByteArray)} {facts : FileFacts} {content : ByteArray}

theorem survey?_eq (hplace : disk.place root = .ok place)
    (hfolder : disk.at? place = some (.folder items)) : disk.survey? root =
      some ⟨place.getLastD "", DiskItem.mapItems .ofContent items, disk.around place⟩ := by
  unfold Disk.survey?
  rw [hplace]
  dsimp only
  rw [hfolder]

/-- A file of a survey stands where its names lead. -/
theorem at?_append_eq_file (hfolder : disk.at? place = some (.folder items))
    (hsurvey : survey.items = DiskItem.mapItems .ofContent items) :
    (DiskItem.folder survey.items).at? names = some (.file facts) ↔
      ∃ content, disk.at? (place ++ names) = some (.file content) ∧ facts = .ofContent content := by
  have hmap := DiskItem.at?_map FileFacts.ofContent (.folder items) names
  rw [DiskItem.map, ← hsurvey] at hmap
  have hitem : (disk.at? place).bind (·.at? names) = (DiskItem.folder items).at? names := by
    rw [hfolder, Option.bind_some]
  rw [hmap, DiskItem.at?_append, hitem, Option.map_eq_some_iff]
  constructor
  · rintro ⟨item, hfound, hfile⟩
    cases item with
    | folder inner => cases hfile
    | file content =>
      cases hfile
      exact ⟨content, hfound, rfl⟩
  · rintro ⟨content, hfound, rfl⟩
    exact ⟨_, hfound, rfl⟩

theorem Finds.mem_flatten {limit : Option Nat} {shows : List String → Prop}
    {found : List (String × UInt64)} (h : Finds survey shows limit found)
    (hitems : DiskItem.Named survey.items) (file : Entry) :
    file ∈ ((FileTree.build found).flatten none).files ↔ ∃ names facts,
      (DiskItem.folder survey.items).at? names = some (.file facts) ∧ shows names ∧
        (∀ most ∈ limit, names.length ≤ most + 1) ∧
          file = .file ("/".intercalate names) facts.size := by
  have hfiles : ((FileTree.build found).flatten none).files = _ := h.filesUpTo_build hitems
  have hlisted : ∀ (names : List String) (facts : FileFacts),
      Entry.file (listed names facts).1 (listed names facts).2 =
        .file ("/".intercalate names) facts.size := fun names facts => by
    rw [listed, Path.ofSegments_map_toList]
  rw [hfiles, List.mem_map]
  constructor
  · rintro ⟨file, hfile, rfl⟩
    obtain ⟨names, facts, hat, hshows, hlimit, rfl⟩ := (h.mem_iff file).1 hfile
    exact ⟨names, facts, hat, hshows, hlimit, hlisted names facts⟩
  · rintro ⟨names, facts, hat, hshows, hlimit, rfl⟩
    exact ⟨_, (h.mem_iff _).2 ⟨names, facts, hat, hshows, hlimit, rfl⟩, hlisted names facts⟩

/-- A file whose names lead to it from a folder is read from there. -/
theorem fetch_file (surroundings : Surroundings) (size : UInt64)
    (hplace : disk.place root = .ok place) (hne : names ≠ [])
    (hnames : ∀ name ∈ names, Disk.Plain name)
    (hfile : disk.at? (place ++ names) = some (.file content)) {world : World}
    (hworld : world.disk = disk) :
    ((Fetcher.ofFolder (.ofWorld surroundings) root).fetch
      (.file ("/".intercalate names) size)).run world = (.ok content, world) := by
  have hordinary : ∀ name ∈ names, Disk.Ordinary name := fun name hname =>
    (hnames name hname).toOrdinary
  have hsight : disk.sight (place ++ names) = .file content := DiskItem.sight_eq_file.2 hfile
  have hdrop : Path.dropSlashes ("/".intercalate names) = "/".intercalate names := by
    have hnormal := Disk.normal_append Path.normal_nil hnames
    rw [List.nil_append] at hnormal
    rw [← Path.ofSegments_map_toList, hnormal.dropSlashes_eq]
  have hparts : Disk.parts ("/".intercalate names) = names := by
    obtain ⟨first, rest, rfl⟩ := List.exists_cons_of_ne_nil hne
    obtain ⟨hfirst, hrest⟩ := List.forall_mem_cons.1 hordinary
    exact Disk.parts_intercalate (fun name hname => (hrest name hname).toIsName) hfirst.toIsName
  have hpath : disk.place (Path.joined root ("/".intercalate names)) = .ok (place ++ names) := by
    rw [Disk.place_joined_eq_follow hplace, hparts]
    exact Disk.follow_names hordinary (by rw [hsight]; nofun)
  have hread : world.disk.read (Path.joined root (Path.dropSlashes ("/".intercalate names))) =
      .ok content := by
    rw [hworld, hdrop]
    exact Disk.read_of_place hpath hsight
  simp [Fetcher.ofFolder, Fetcher.pathIn, Entry.file, Host.ofWorld, World.look, StateT.run, bind,
    StateT.bind, pure, StateT.pure, hread]

/-- With any walker that covers the folder, a scan within a limit finds what is found within the
limit in the tree of a whole scan: each file that is shown, with its length, and with a path from which
it is read. -/
theorem scan_agrees (surroundings : Surroundings) (walk : Walker) (shows : List String → Prop)
    (hplace : disk.place root = .ok place) (hfolder : disk.at? place = some (.folder items))
    (hitems : DiskItem.Named items)
    (hwalk : ∀ survey, disk.survey? root = some survey → walk.Covers root survey shows) :
    ∃ survey, disk.survey? root = some survey ∧ ∃ tree : Option Nat → FileTree,
      (∀ limit, treeBy walk root survey limit = .ok (tree limit)) ∧
      (∀ depth, (tree (some depth)).flatten none = (tree none).flatten (some depth)) ∧
      ∀ limit file, file ∈ ((tree limit).flatten none).files ↔ ∃ names content,
        shows names ∧ (∀ most ∈ limit, names.length ≤ most + 1) ∧
        file = .file ("/".intercalate names) (UInt64.ofNat content.size) ∧
        disk.at? (place ++ names) = some (.file content) ∧
        ∀ world : World, world.disk = disk →
          ((Fetcher.ofFolder (.ofWorld surroundings) root).fetch file).run world =
            (.ok content, world) := by
  have hsurvey := survey?_eq hplace hfolder
  generalize hseen : (⟨place.getLastD "", DiskItem.mapItems .ofContent items, disk.around place⟩ :
    Survey) = survey at hsurvey
  have hsame : survey.items = DiskItem.mapItems .ofContent items := by rw [← hseen]
  have hnamed : DiskItem.Named survey.items := hsame ▸ hitems.mapItems FileFacts.ofContent
  choose found hfiles hfinds using (hwalk survey hsurvey).exists_finds hnamed
  refine ⟨survey, hsurvey, fun limit => .build (found limit), fun limit => ?_, fun depth => ?_,
    fun limit file => ?_⟩
  · rw [treeBy, hfiles]
    rfl
  · exact congrArg FlatTree.ofFiles
      ((hfinds (some depth)).filesUpTo_build_some (hfinds none) hnamed)
  · rw [(hfinds limit).mem_flatten hnamed]
    constructor
    · rintro ⟨names, facts, hat, hshows, hlimit, rfl⟩
      obtain ⟨content, hcontent, rfl⟩ := (at?_append_eq_file hfolder hsame).1 hat
      refine ⟨names, content, hshows, hlimit, rfl, hcontent, fun world hworld => ?_⟩
      exact fetch_file surroundings _ hplace (ne_nil_of_at? hat) (hnamed.plain_of_at? hat) hcontent
        hworld
    · rintro ⟨names, content, hshows, hlimit, rfl, hcontent, -⟩
      have hat := (at?_append_eq_file hfolder hsame).2 ⟨content, hcontent, rfl⟩
      exact ⟨names, _, hat, hshows, hlimit, rfl⟩

/-- Items of a folder, at several depths, with rules and with hidden ones among them. -/
def sampleItems : List (String × DiskItem ByteArray) :=
  [(".gitignore", .file "/out/\n*.log\n".toUTF8), (".git", .folder [("HEAD", .file "x".toUTF8)]),
    ("a-b.js", .file "let b = 1;".toUTF8),
    ("a", .folder [("x.ts", .file "x".toUTF8), ("in", .folder [("y.js", .file "yy".toUTF8)]),
      ("z.log", .file "z".toUTF8)]),
    ("out", .folder [("made.js", .file "m".toUTF8)])]

def sampleDisk : Disk := .folder [("home", .folder [("app", .folder sampleItems)])]

theorem place_sampleDisk : sampleDisk.place "home/app" = .ok ["home", "app"] := by
  have hnames : ∀ name ∈ ["home", "app"], Disk.Plain name := by decide +kernel
  have hsight : sampleDisk.sight ["home", "app"] = .folder := rfl
  have hplace := @Disk.place_intercalate sampleDisk ["home"] "app"
    (fun name hname => (hnames name (List.mem_cons.2 (.inl (List.mem_singleton.1 hname)))).toIsName)
    (hnames "app" (by simp)).toIsName
  have hfollow := @Disk.follow_names sampleDisk [] ["home", "app"]
    (fun name hname => (hnames name hname).toOrdinary) (by rw [List.nil_append, hsight]; nofun)
  exact hplace.trans hfollow

theorem named_sampleItems : DiskItem.Named sampleItems := by
  unfold sampleItems
  repeat' first
    | exact .nil
    | apply DiskItem.Named.file
    | apply DiskItem.Named.folder
  all_goals decide +kernel

def sampleSurvey : Survey :=
  ⟨"app", DiskItem.mapItems .ofContent sampleItems, sampleDisk.around ["home", "app"]⟩

theorem survey?_sampleDisk : sampleDisk.survey? "home/app" = some sampleSurvey :=
  survey?_eq place_sampleDisk rfl

theorem covers_sample (survey : Survey) (h : sampleDisk.survey? "home/app" = some survey) :
    Walker.Covers walk "home/app" survey
      (Shown (outside sampleSurvey) (.folder sampleSurvey.items)) := by
  obtain rfl := Option.some.inj (survey?_sampleDisk.symm.trans h)
  exact covers_walk "home/app" sampleSurvey (named_sampleItems.mapItems _)

theorem scan_sample_agrees :
    sampleDisk.place "home/app" = .ok ["home", "app"] ∧
    sampleDisk.at? ["home", "app"] = some (.folder sampleItems) ∧ DiskItem.Named sampleItems ∧
    ∃ survey, sampleDisk.survey? "home/app" = some survey ∧ ∃ tree : Option Nat → FileTree,
      (∀ limit, Scan.tree "home/app" survey limit = .ok (tree limit)) ∧
      (∀ depth, (tree (some depth)).flatten none = (tree none).flatten (some depth)) ∧
      ∀ limit file, file ∈ ((tree limit).flatten none).files ↔ ∃ names content,
        Shown (outside sampleSurvey) (.folder sampleSurvey.items) names ∧
        (∀ most ∈ limit, names.length ≤ most + 1) ∧
        file = .file ("/".intercalate names) (UInt64.ofNat content.size) ∧
        sampleDisk.at? (["home", "app"] ++ names) = some (.file content) ∧
        ∀ world : World, world.disk = sampleDisk →
          ((Fetcher.ofFolder (.ofWorld ⟨fun _ => none, [], default, 0⟩) "home/app").fetch file).run
            world = (.ok content, world) :=
  ⟨place_sampleDisk, rfl, named_sampleItems, scan_agrees ⟨fun _ => none, [], default, 0⟩ walk _
    place_sampleDisk rfl named_sampleItems covers_sample⟩

end CodeGraph.Scan
