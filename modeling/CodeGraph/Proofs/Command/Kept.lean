import CodeGraph.Proofs.Analysis.NoScript
import CodeGraph.Proofs.Cache.History
import CodeGraph.Proofs.Command.Agreement
import CodeGraph.Proofs.Repository.Metadata
import CodeGraph.Proofs.Web.Service

/-! A graph that has been kept is reported as it was, and a new analysis gives it again as long as the
configuration still asks for the same graph. -/
namespace CodeGraph

open Disk DiskItem World

section

variable {surroundings : Surroundings} {root : String} {entry : CachedGraph} {disk after : Disk}
  {sent more : List Web.Request}

/-- Where the files of a cache stand once its folder is there. -/
theorem Cache.of_makeFolders (htop : disk.sight [] = .folder)
    (hmade : disk.makeFolders (folder root) = .ok after) :
    Grows disk after ∧ after.sight [] = .folder ∧
      (∀ (disk : Disk) (key : String), disk.place (path root key) =
        follow disk [] (names (folder root) ++ [fileName key])) ∧
      ∃ base, ∀ (key : String) (place : List String),
        follow after [] (names (folder root) ++ [fileName key]) = .ok place →
          place = base ++ [fileName key] := by
  obtain ⟨hgrows, base, hbase, -⟩ := makeFolders_spec htop hmade
  refine ⟨hgrows, hgrows.folder [] htop,
    fun disk key => place_joined _ (isName_fileName key), base, ?_⟩
  intro key place hfollow
  rw [follow_append, hbase] at hfollow
  exact eq_of_follow_name (isName_fileName key) (fileName_ne_of_length (by decide))
    (fileName_ne_of_length (by decide)) hfollow

/-- A graph that has been saved can be read. Files with short names that stand next to the root are
left alone. -/
theorem Cache.of_save (htop : disk.sight [] = .folder)
    (hsave : (save (.ofWorld surroundings) root entry).run ⟨disk, sent⟩ = (.ok (), ⟨after, more⟩)) :
    after.sight [] = .folder ∧ after.hasItem (path root entry.key) = true ∧
      after.read (path root entry.key) = .ok (bytes entry) ∧
      ∀ name : String, name.length < 5 → ∀ content,
        after.sight [name] = .file content ↔ disk.sight [name] = .file content := by
  rw [run_save] at hsave
  dsimp only at hsave
  cases hfolders : disk.makeFolders (folder root) with
  | error error =>
    rw [hfolders] at hsave
    cases hsave
  | ok home =>
    rw [hfolders] at hsave
    dsimp only at hsave
    cases hwrite : home.write (path root entry.key) (bytes entry) with
    | error error =>
      rw [hwrite] at hsave
      cases hsave
    | ok written =>
      rw [hwrite] at hsave
      cases hsave
      obtain ⟨hgrows, hhome, hpath, base, hbase⟩ := of_makeFolders htop hfolders
      obtain ⟨place, hfollow, hplace, hfile, hother, -⟩ :=
        write_spec hhome (fun disk => hpath disk entry.key) hwrite
      obtain rfl := hbase entry.key place hfollow
      refine ⟨?_, ?_, read_of_place hplace hfile, fun name hname content => ?_⟩
      · rw [hother [] (by simp), hhome]
      · rw [← Bool.not_eq_false, hasItem_of_place hplace, hfile]
        nofun
      · rw [hother [name], hgrows.file [name] content]
        intro hprefix
        have hlength := hprefix.length_le
        rw [List.length_append, List.length_singleton, List.length_singleton] at hlength
        obtain rfl : base = [] := List.length_eq_zero_iff.1 (by omega)
        have hsame := hprefix.eq_of_length rfl
        exact fileName_ne_of_length hname (List.singleton_inj.1 hsame)

end

namespace Analysis

open Repository (Client Listed Locator Metadata)

variable {parse : Parse} {first later : Surroundings} {root : String} {config changed : Config}
  {locator : Repository.Locator} {refresh : Bool} {world after : World} {report : Report}

theorem ordinary_envName : Ordinary Settings.fileName where
  ne_empty := by decide
  slash := by decide
  dot := by decide
  up := by decide
  error := nameError?_eq_none (by decide) (by decide)

/-- A run that makes a new report on a repository and keeps it. -/
structure Keeps (parse : Parse) (surroundings : Surroundings) (root : String) (config : Config)
    (locator : Repository.Locator) (refresh : Bool) (world : World) (report : Report)
    (after : World) : Prop where
  run : (ofRepository parse (.ofWorld surroundings) root config locator refresh).run world =
    (.ok report, after)
  isNew : report.cached = false
  saved : (Cache.save (.ofWorld surroundings) root
    (entryOf config locator surroundings.time report)).run ⟨world.disk, after.sent⟩ = (.ok (), after)

section

variable {loaded : Except CacheError (Option CachedGraph)} {entry : CachedGraph}

theorem run_ofRepository_of_some
    (hload : (Cache.load (.ofWorld first) root locator.key).run world = (loaded, world))
    (hkept : kept? config loaded = some entry) :
    (ofRepository parse (.ofWorld first) root config locator false).run world =
      (.ok (reportOfKept entry), world) := by
  rw [ofRepository, if_neg Bool.false_ne_true, StateT.run_bind, hload]
  dsimp only [bind]
  rw [hkept]
  rfl

theorem run_ofRepository_of_none
    (hload : (Cache.load (.ofWorld first) root locator.key).run world = (loaded, world))
    (hkept : kept? config loaded = none) :
    (ofRepository parse (.ofWorld first) root config locator false).run world =
      (afresh parse (.ofWorld first) root config locator).run world := by
  rw [ofRepository, if_neg Bool.false_ne_true, StateT.run_bind, hload]
  dsimp only [bind]
  rw [hkept]

end

/-- A new report comes from a new analysis. -/
theorem Keeps.run_afresh (h : Keeps parse first root config locator refresh world report after) :
    (afresh parse (.ofWorld first) root config locator).run world = (.ok report, after) := by
  have hrun := h.run
  cases refresh with
  | true => exact hrun
  | false =>
    obtain ⟨loaded, hload⟩ : ∃ loaded,
        (Cache.load (.ofWorld first) root locator.key).run world = (loaded, world) :=
      ⟨_, Cache.run_load first root locator.key world⟩
    cases hkept : kept? config loaded with
    | none => exact (run_ofRepository_of_none hload hkept).symm.trans hrun
    | some entry =>
      have hreport := congrArg Prod.fst ((run_ofRepository_of_some hload hkept).symm.trans hrun)
      have hnew := h.isNew
      rw [← Except.ok.inj hreport] at hnew
      exact Bool.noConfusion hnew

variable (root) in
/-- A new analysis saves what it finds before it is reported. -/
theorem run_afresh_of_steady {found? : Except Failure (Repository.Metadata × Graph)}
    (h : Steady world.disk (anew parse (.ofWorld first) config locator) found?) :
    ∃ sent, (afresh parse (.ofWorld first) root config locator).run world =
      match found? with
      | .error failure => (.error failure, ⟨world.disk, sent⟩)
      | .ok found => (.ok (reportOn found), ((Cache.save (.ofWorld first) root
          (entryOf config locator first.time (reportOn found))).run ⟨world.disk, sent⟩).2) := by
  obtain ⟨sent, hrun⟩ := h world.sent
  refine ⟨sent, ?_⟩
  rw [afresh_eq, StateT.run_bind, hrun]
  cases found? <;> rfl

/-- A report is on what the analysis has found. -/
theorem eq_reportOn_of_run {found? : Except Failure (Repository.Metadata × Graph)}
    (h : Steady world.disk (anew parse (.ofWorld first) config locator) found?)
    (hreport : (afresh parse (.ofWorld first) root config locator).run world = (.ok report, after)) :
    ∃ found, found? = .ok found ∧ report = reportOn found := by
  obtain ⟨sent, hrun⟩ := run_afresh_of_steady root h
  rw [hreport] at hrun
  cases found? with
  | error failure => cases hrun
  | ok found => exact ⟨found, rfl, Except.ok.inj (congrArg Prod.fst hrun)⟩

/-- What is kept has been found by an analysis that leaves the disk as it is. -/
theorem Keeps.steady (h : Keeps parse first root config locator refresh world report after) :
    ∃ found, Steady world.disk (anew parse (.ofWorld first) config locator) (.ok found) ∧
      report = reportOn found := by
  obtain ⟨value, -, hsteady, -, -⟩ := agree_anew parse locator (Alike.refl first world.disk)
    (SameGraph.refl config)
  obtain ⟨found, rfl, hreport⟩ := eq_reportOn_of_run hsteady h.run_afresh
  exact ⟨found, hsteady, hreport⟩

theorem readable_entryOf (config : Config) (locator : Locator) (htime : first.time.Valid)
    (found : Metadata × Graph) :
    (entryOf config locator first.time (reportOn found)).Readable := by
  refine ⟨htime, fun about habout => ?_⟩
  cases habout
  exact ⟨found.1.sorted_ne_null, found.1.plain_sorted.of_le (by decide)⟩

/-- A new analysis is kept in a root without a cache. -/
theorem exists_keeps (world : World) {found : Repository.Metadata × Graph} {home : Disk}
    (hsteady : Steady world.disk (anew parse (.ofWorld first) config locator) (.ok found))
    (htop : world.disk.isFolder) (htime : first.time.Valid)
    (hmade : world.disk.makeFolders root = .ok home)
    (hfree : home.hasItem (Cache.folder root) = false) (hkey : Cache.Fits locator.key) :
    ∃ after, Keeps parse first root config locator true world (reportOn found) after := by
  obtain ⟨base, hfresh⟩ := Cache.exists_fresh (sight_nil_of_isFolder htop) hmade hfree
  obtain ⟨sent, hrun⟩ := run_afresh_of_steady root hsteady
  have hstart : Cache.Stands base world.disk home [] world.disk := .inl ⟨rfl, rfl⟩
  obtain ⟨disk, hsave, -⟩ := hstart.save first sent hfresh (readable_entryOf config locator htime found)
  rw [if_pos (show Cache.Fits (entryOf _ _ _ _).key from hkey)] at hsave
  refine ⟨⟨disk, sent⟩, ?_, rfl, hsave⟩
  rw [ofRepository, if_pos rfl, hrun]
  dsimp only
  rw [hsave]

/-- Keeping a graph changes nothing that a later run learns. -/
theorem Keeps.alike (hkeeps : Keeps parse first root config locator refresh world report after)
    (htop : world.disk.isFolder) (hanswer : later.answer = first.answer)
    (hsettings : later.settings = first.settings) :
    Alike first later world.disk after.disk := by
  have htop := sight_nil_of_isFolder htop
  obtain ⟨hroot, -, -, hfiles⟩ := Cache.of_save htop hkeeps.saved
  refine ⟨hanswer, hsettings, Option.ext fun content => ?_⟩
  rw [toOption_read ordinary_envName hroot, toOption_read ordinary_envName htop]
  exact hfiles Settings.fileName (by decide) content

/-- What has been kept is reported by a run whose health policy has the same version. -/
theorem Keeps.run_kept (hkeeps : Keeps parse first root config locator refresh world report after)
    (htop : world.disk.isFolder) (htime : first.time.Valid)
    (hversion : changed.health.version = config.health.version) :
    (ofRepository parse (.ofWorld later) root changed locator false).run after =
      (.ok { report with cached := true }, after) := by
  obtain ⟨found, -, rfl⟩ := hkeeps.steady
  obtain ⟨-, hitem, hread, -⟩ := Cache.of_save (sight_nil_of_isFolder htop) hkeeps.saved
  have hkey : (entryOf config locator first.time (reportOn found)).key = locator.key := rfl
  have hload := Cache.load_of_read later after (readable_entryOf config locator htime found) hitem hread
  rw [hkey, if_pos rfl] at hload
  exact run_ofRepository_of_some hload (if_pos hversion.symm)

/-- A repository with a file next to a folder with another one. -/
def widgets : Locator := ⟨"acme", "widgets"⟩

def widgetsMetadata : Metadata where
  name := "widgets"
  fullName := "acme/widgets"
  description? := none
  stars := 5
  forks := 1
  openIssues := 0
  license? := none
  isPrivate := false
  visibility? := none
  defaultBranch? := none
  languages := .empty
  contributors := []

def widgetsFolder (path : String) : List Listed :=
  if path = "" then [⟨"a.txt", "a.txt", "file", 0, none⟩, ⟨"d", "d", "dir", 0, none⟩]
  else [⟨"b.txt", "d/b.txt", "file", 0, none⟩]

/-- An item of a listing, without what may be left out. -/
def listedJson (item : Listed) : Json :=
  .ofMembers [("name", .string item.name), ("path", .string item.path), ("type", .string item.kind)]

/-- What the service answers with, by the paths of addresses. -/
def widgetsPages : List (List String × Json) :=
  [(["repos", "acme", "widgets"], widgetsMetadata.toJson.sorted),
    (["repos", "acme", "widgets", "contents", ""], .ofList ((widgetsFolder "").map listedJson)),
    (["repos", "acme", "widgets", "contents", "d"], .ofList ((widgetsFolder "d").map listedJson))]

/-- A service that knows this repository only. -/
def widgetsService : Surroundings where
  answer request := (widgetsPages.lookup request.url.path).map fun page =>
    ⟨200, page.pretty.toUTF8⟩
  settings := []
  time := ⟨0, 0⟩
  elapsed := 0

theorem complete_listing (items : List Listed) : (Json.ofList (items.map listedJson)).Complete := by
  refine .array fun json hjson => ?_
  obtain ⟨item, -, rfl⟩ := List.mem_map.1 hjson
  refine .object fun member hmember => ?_
  simp only [List.mem_cons, List.not_mem_nil, or_false] at hmember
  rcases hmember with rfl | rfl | rfl <;> exact .string _

theorem decode_listing (items : List Listed) :
    Json.Decode.list Listed.decode Json.Decode.maxDepth (.ofList (items.map listedJson)) =
      .ok (items.map fun item => { item with size := 0, address? := none }) := by
  refine Json.Decode.list_ofList (fun item : Listed => { item with size := 0, address? := none })
    fun item _ => ?_
  simp [Listed.decode, listedJson, Json.ofMembers, Json.Decode.record, Json.Decode.recordMembers,
    Listed.draftFields, Json.Decode.string, Json.Decode.required, bind, Except.bind, pure,
    Except.pure]

theorem steady_widgets_get {decode : Json.Decoder α} {value : α} {json : Json}
    {segments : List String} (disk : Disk) (path : String) (hordinary : path.toList.all Url.isOrdinary)
    (hpath : Url.pathOf ('/' :: path.toList) = segments)
    (hpage : widgetsPages.lookup segments = some json) (hjson : json.Complete)
    (hdecode : decode Json.Decode.maxDepth json = .ok value) :
    Steady disk (Client.get (.ofWorld widgetsService) (.ofToken none) decode
      ("https://api.github.com/" ++ String.ofList path.toList)) (.ok value) := by
  refine Client.steady_get (Client.request?_service hordinary) ?_ hjson hdecode
  unfold widgetsService
  dsimp only
  rw [hpath, hpage]
  rfl

theorem steady_widgets_metadata (disk : Disk) : ∃ metadata, Steady disk
    (Client.metadata (.ofWorld widgetsService) (.ofToken none) widgets) (.ok metadata) := by
  have hpath : Url.pathOf ('/' :: "repos/acme/widgets".toList) = ["repos", "acme", "widgets"] := by cbv
  have hdecode : Metadata.decode Json.Decode.maxDepth widgetsMetadata.toJson.sorted =
      .ok widgetsMetadata := by cbv
  have hget := steady_widgets_get disk "repos/acme/widgets" (by decide) hpath rfl
    widgetsMetadata.plain_sorted.complete hdecode
  obtain ⟨languages, -, hlanguages, -⟩ := Client.agree_get (Alike.refl widgetsService disk)
    (.ofToken none) Metadata.decodeLanguages
    (Client.address (.ofToken none) widgets ++ "/languages")
  obtain ⟨contributors, -, hcontributors, -⟩ := Client.agree_get (Alike.refl widgetsService disk)
    (.ofToken none) (Json.Decode.list Repository.Contributor.decode)
    (Client.address (.ofToken none) widgets ++ "/contributors?per_page=10")
  exact ⟨_, hget.bind (hlanguages.bind (hcontributors.bind (.pure _)))⟩

theorem steady_widgets_folder {disk : Disk} {folder : String} (h : folder = "" ∨ folder = "d") :
    Steady disk (Client.listFolder (.ofWorld widgetsService) (.ofToken none) widgets folder)
      (widgetsFolder folder) := by
  have hget : Steady disk (Client.get (.ofWorld widgetsService) (.ofToken none)
      (Json.Decode.list Listed.decode) (Client.folderAddress (.ofToken none) widgets folder))
      (.ok (widgetsFolder folder)) := by
    rcases h with rfl | rfl
    · have hpath : Url.pathOf ('/' :: "repos/acme/widgets/contents/".toList) =
          ["repos", "acme", "widgets", "contents", ""] := by cbv
      exact steady_widgets_get disk "repos/acme/widgets/contents/" (by decide) hpath rfl
        (complete_listing _) (decode_listing _)
    · have hpath : Url.pathOf ('/' :: "repos/acme/widgets/contents/d".toList) =
          ["repos", "acme", "widgets", "contents", "d"] := by cbv
      exact steady_widgets_get disk "repos/acme/widgets/contents/d" (by decide) hpath rfl
        (complete_listing _) (decode_listing _)
  exact hget.bind (.pure _)

theorem steady_widgets_level {disk : Disk} {path : String} (h : path = "" ∨ path = "d") :
    Steady disk ([path].mapM fun path => return (path, ← Client.listFolder (.ofWorld widgetsService)
      (.ofToken none) widgets path)) [(path, widgetsFolder path)] := by
  refine Steady.mapM (fun path => (path, widgetsFolder path)) fun item hitem => ?_
  rw [List.mem_singleton.1 hitem]
  exact (steady_widgets_folder h).bind (.pure _)

def widgetsListings : Nat → Repository.Listings
  | 0 => [("", widgetsFolder "")]
  | _ + 1 => [("", widgetsFolder ""), ("d", widgetsFolder "d")]

theorem steady_widgets_listings {disk : Disk} {levels : Nat} (h : levels ≤ 1) :
    Steady disk (Client.listLevels (Client.listFolder (.ofWorld widgetsService) (.ofToken none)
      widgets) levels [""] []) (widgetsListings levels) := by
  interval_cases levels
  · rw [Client.listLevels, if_neg (by decide)]
    exact (steady_widgets_level (.inl rfl)).bind (.pure _)
  · have hfolders : [("", widgetsFolder "")].flatMap (fun listing =>
        (listing.2.filter (·.isFolder)).map (·.path)) = ["d"] := by decide
    rw [Client.listLevels, if_neg (by decide)]
    refine (steady_widgets_level (.inl rfl)).bind ?_
    change Steady disk (Client.listLevels _ 0 ([("", widgetsFolder "")].flatMap fun listing =>
      (listing.2.filter (·.isFolder)).map (·.path)) _) _
    rw [hfolders, Client.listLevels, if_neg (by decide)]
    exact (steady_widgets_level (.inr rfl)).bind (.pure _)

theorem steady_widgets_tree (disk : Disk) {levels : Nat} (h : levels ≤ 1) :
    Steady disk (Client.tree (.ofWorld widgetsService) (.ofToken none) widgets (some levels))
      (widgetsListings levels).toTree :=
  (steady_widgets_listings h).bind (.pure _)

def widgetsFiles : Nat → List Entry
  | 0 => [⟨"a.txt", "a.txt", .file, 0, none, []⟩]
  | _ + 1 => [⟨"a.txt", "a.txt", .file, 0, none, []⟩, ⟨"d/b.txt", "b.txt", .file, 0, none, []⟩]

def limited (levels : Nat) : Config := { maxDepth := some levels }

theorem toTree_top : Repository.Listings.toTree [("", widgetsFolder "")] =
    [⟨"a.txt", "a.txt", .file, 0, none, []⟩, ⟨"d", "d", .folder, 0, none, []⟩] := by
  simp [widgetsFolder, Repository.Listings.toTree, Repository.Listings.entriesAt,
    Repository.Listings.entriesOf, Repository.Listings.take?, Listed.toEntry, Listed.isFolder,
    Entry.file, Entry.folder]

theorem toTree_both : Repository.Listings.toTree [("", widgetsFolder ""), ("d", widgetsFolder "d")] =
    [⟨"a.txt", "a.txt", .file, 0, none, []⟩,
      ⟨"d", "d", .folder, 0, none, [⟨"d/b.txt", "b.txt", .file, 0, none, []⟩]⟩] := by
  simp [widgetsFolder, Repository.Listings.toTree, Repository.Listings.entriesAt,
    Repository.Listings.entriesOf, Repository.Listings.take?, Listed.toEntry, Listed.isFolder,
    Entry.file, Entry.folder]

theorem files_widgets {levels : Nat} (h : levels ≤ 1) :
    ((widgetsListings levels).toTree.flatten (limited levels).maxDepth).files =
      widgetsFiles levels := by
  have ha : Path.normalize "a.txt" = "a.txt" := by cbv
  have hb : Path.normalize "d/b.txt" = "d/b.txt" := by cbv
  interval_cases levels
  · rw [widgetsListings, toTree_top]
    simp [FileTree.flatten, FlatTree.ofFiles, FileTree.filesUpTo, FileTree.filesOfEntry, limited, ha,
      widgetsFiles]
  · rw [widgetsListings, toTree_both]
    simp [FileTree.flatten, FlatTree.ofFiles, FileTree.filesUpTo, FileTree.filesOfEntry, limited, ha,
      hb, widgetsFiles]

theorem exists_steady_widgets (parse : Parse) {disk : Disk} {levels : Nat}
    (hfile : (disk.read Settings.fileName).toOption = none) (h : levels ≤ 1) : ∃ found,
      Steady disk (anew parse (.ofWorld widgetsService) (limited levels) widgets) (.ok found) ∧
        found.2.ids = ((widgetsFiles levels).map (·.path)).eraseDups := by
  have hlookup : Steady disk (Settings.lookup (.ofWorld widgetsService) tokenName) none := by
    refine (Steady.pure none).bind ?_
    have hread := Steady.look disk fun disk => (disk.read Settings.fileName).toOption
    rw [hfile] at hread
    exact hread.bind (.pure none)
  obtain ⟨metadata, hmetadata⟩ := steady_widgets_metadata disk
  have hrepository : Steady disk (Client.repository (.ofWorld widgetsService) (.ofToken none) widgets
      (some levels)) (.ok (metadata, (widgetsListings levels).toTree)) :=
    hmetadata.bind ((steady_widgets_tree disk h).bind (.pure _))
  have hfiles := files_widgets h
  have hrun := steady_run_of_noScript parse disk (.ofWeb (.ofWorld widgetsService) none) hfiles
    (by interval_cases levels <;> decide) (by interval_cases levels <;> decide)
  exact ⟨_, hlookup.bind (hrepository.bind (hrun.bind (.pure _))),
    ids_graphOf_plainOutline _ _ _⟩

def noParse : Parse := fun _ => .error default

theorem read_empty : (Disk.read .empty Settings.fileName).toOption = none := by cbv

theorem valid_widgetsTime : widgetsService.time.Valid :=
  ⟨by decide, by decide, by decide, by decide⟩

theorem exists_keeps_widgets : ∃ found after,
    Keeps noParse widgetsService "" (limited 0) widgets true ⟨.empty, []⟩ (reportOn found) after ∧
      found.2.ids = ((widgetsFiles 0).map (·.path)).eraseDups := by
  have hmade : Disk.empty.makeFolders "" = .ok .empty := by cbv
  have hfree : Disk.empty.hasItem (Cache.folder "") = false := by cbv
  have hkey : Cache.Fits widgets.key := by cbv
  obtain ⟨found, hsteady, hids⟩ := exists_steady_widgets noParse read_empty (Nat.zero_le 1)
  obtain ⟨after, hkeeps⟩ := exists_keeps ⟨.empty, []⟩ hsteady rfl valid_widgetsTime hmade hfree hkey
  exact ⟨found, after, hkeeps, hids⟩

/-- A graph that has been kept is reported by every run with the same version of the health policy,
whatever else has changed in the configuration. A new analysis that gives a report tells the same of
the repository, and as long as the configuration asks for the same graph, it reports this graph as
well, unless it takes too long. -/
theorem ofRepository_kept (changed : Config)
    (hkeeps : Keeps parse first root config locator refresh world report after)
    (htop : world.disk.isFolder) (htime : first.time.Valid) (hanswer : later.answer = first.answer)
    (hsettings : later.settings = first.settings)
    (hversion : changed.health.version = config.health.version) :
    (ofRepository parse (.ofWorld later) root changed locator false).run after =
        (.ok { report with cached := true }, after) ∧
      (∀ fresh last, (ofRepository parse (.ofWorld later) root changed locator true).run after =
        (.ok fresh, last) → fresh.repository? = report.repository?) ∧
      (SameGraph config changed → ∃ last,
        (ofRepository parse (.ofWorld later) root changed locator true).run after =
            (.ok report, last) ∨
          ∃ seconds, changed.timeout = some seconds ∧
            (ofRepository parse (.ofWorld later) root changed locator true).run after =
              (.error (.analysis (.timedOut seconds)), last)) := by
  have halike := hkeeps.alike htop hanswer hsettings
  have hkept : (ofRepository parse (.ofWorld later) root changed locator false).run after = _ :=
    hkeeps.run_kept htop htime hversion
  obtain ⟨found, hsteady, rfl⟩ := hkeeps.steady
  refine ⟨hkept, fun fresh last hfresh => ?_, fun hsame => ?_⟩
  · obtain ⟨value, result, hvalue, hresult, hmetadata⟩ :=
      agree_anew_metadata parse locator halike config changed
    obtain rfl := hvalue.unique hsteady
    obtain ⟨fresh, rfl, rfl⟩ := eq_reportOn_of_run hresult hfresh
    rw [reportOn, reportOn, hmetadata found fresh rfl rfl]
  · obtain ⟨value, result, hvalue, hresult, huptoTime⟩ := agree_anew parse locator halike hsame
    obtain rfl := hvalue.unique hsteady
    obtain ⟨sent, hrun⟩ := run_afresh_of_steady root hresult
    rcases huptoTime with rfl | ⟨_, -, herror⟩ | ⟨seconds, htimeout, rfl⟩
    · exact ⟨_, .inl hrun⟩
    · cases herror
    · exact ⟨_, .inr ⟨seconds, htimeout, hrun⟩⟩

/-- Where files are worked on one after the other, the report stays the same. -/
theorem ofRepository_kept_widgets : ∃ report after,
    Keeps noParse widgetsService "" (limited 0) widgets true ⟨.empty, []⟩ report after ∧
      (ofRepository noParse (.ofWorld widgetsService) "" { limited 0 with parallel := 1 } widgets
        false).run after = (.ok { report with cached := true }, after) ∧
      ∃ last, (ofRepository noParse (.ofWorld widgetsService) "" { limited 0 with parallel := 1 }
        widgets true).run after = (.ok report, last) := by
  obtain ⟨found, after, hkeeps, -⟩ := exists_keeps_widgets
  obtain ⟨hkept, -, hrefreshed⟩ := ofRepository_kept { limited 0 with parallel := 1 } hkeeps rfl
    valid_widgetsTime rfl rfl rfl
  refine ⟨reportOn found, after, hkeeps, hkept, ?_⟩
  obtain ⟨last, hlast | ⟨_, htimeout, -⟩⟩ := hrefreshed ⟨rfl, rfl, rfl⟩
  · exact ⟨last, hlast⟩
  · cases htimeout

/-- A kept graph lacks the file that a higher limit asks for. -/
theorem ofRepository_kept_deeper : ∃ report after fresh last,
    Keeps noParse widgetsService "" (limited 0) widgets true ⟨.empty, []⟩ report after ∧
      (limited 1).health.version = (limited 0).health.version ∧
      (ofRepository noParse (.ofWorld widgetsService) "" (limited 1) widgets false).run after =
        (.ok { report with cached := true }, after) ∧
      (ofRepository noParse (.ofWorld widgetsService) "" (limited 1) widgets true).run after =
        (.ok fresh, last) ∧
      report.graph ≠ fresh.graph := by
  obtain ⟨found, after, hkeeps, hids⟩ := exists_keeps_widgets
  have hafter := (hkeeps.alike rfl rfl rfl).file.trans read_empty
  obtain ⟨deeper, hsteady, hdeeper⟩ := exists_steady_widgets noParse hafter (Nat.le_refl 1)
  obtain ⟨sent, hrun⟩ := run_afresh_of_steady "" hsteady
  refine ⟨reportOn found, after, reportOn deeper, _, hkeeps, rfl,
    hkeeps.run_kept rfl valid_widgetsTime rfl, hrun, fun hgraph => ?_⟩
  have hpaths : ((widgetsFiles 0).map (·.path)).eraseDups =
      ((widgetsFiles 1).map (·.path)).eraseDups := by
    rw [← hids, ← hdeeper]
    exact congrArg Graph.ids hgraph
  exact absurd hpaths (by decide)

end Analysis

end CodeGraph
