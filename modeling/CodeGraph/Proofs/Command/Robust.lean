import CodeGraph.Proofs.Analysis.Run
import CodeGraph.Proofs.Command.Kept

/-! Whatever stands in a cache, a report on a repository is that of a new analysis, or it is that of
a graph that has been kept under its key. -/
namespace CodeGraph

open Disk DiskItem World

namespace Cache

variable {surroundings : Surroundings} {root key : String} {disk bare : Disk} {world : World}
  {entry : CachedGraph}

/-- The graph in the file of a key, if the file can be read and the graph is kept under this key. -/
def entryIn? (disk : Disk) (root key : String) : Option CachedGraph :=
  ((disk.read (path root key)).toOption.bind String.fromUTF8?).bind fun text =>
    (Json.Decode.text CachedGraph.decode (.ofText text)).toOption.filter (·.key = key)

/-- What is used of what has been looked up is the graph in the file, if its version is right. -/
theorem kept?_load (surroundings : Surroundings) (root key : String) (config : Config)
    (world : World) : ∃ loaded,
      (Cache.load (.ofWorld surroundings) root key).run world = (loaded, world) ∧
        Analysis.kept? config loaded =
          (entryIn? world.disk root key).filter (·.policyVersion = config.health.version) := by
  refine ⟨_, run_load surroundings root key world, ?_⟩
  unfold entryIn?
  cases hread : world.disk.read (path root key) with
  | error error => split_ifs <;> rfl
  | ok bytes =>
    rw [if_pos (hasItem_of_read hread)]
    dsimp only [Except.toOption, Option.bind_some]
    cases String.fromUTF8? bytes with
    | none => rfl
    | some text =>
      dsimp only [Option.bind_some, entryOf?]
      cases Json.Decode.text CachedGraph.decode (.ofText text) with
      | error fault => rfl
      | ok entry =>
        dsimp only [Except.toOption]
        rw [Option.filter_some]
        by_cases hkey : entry.key = key
        · rw [if_pos hkey, if_pos (decide_eq_true hkey), Option.filter_some]
          simp only [Analysis.kept?, decide_eq_true_eq]
        · rw [if_neg hkey, if_neg (by simpa using hkey)]
          rfl

theorem entryIn?_of_read (h : entry.Readable) (hkey : entry.key = key)
    (hread : disk.read (path root key) = .ok (bytes entry)) :
    entryIn? disk root key = some entry := by
  rw [entryIn?, hread]
  dsimp only [Except.toOption, Option.bind_some]
  rw [fromUTF8?_bytes, Option.bind_some, CachedGraph.text_pretty h]
  dsimp only [Except.toOption]
  rw [Option.filter_some, if_pos (decide_eq_true hkey)]

theorem entryIn?_of_not_hasItem (h : disk.hasItem (path root key) = false) :
    entryIn? disk root key = none := by
  cases hread : disk.read (path root key) with
  | error error =>
    rw [entryIn?, hread]
    rfl
  | ok content =>
    rw [hasItem_of_read hread] at h
    cases h

/-- A disk without the file of a key. From another disk it differs in caches only. -/
structure Emptied (root key : String) (disk bare : Disk) : Prop where
  free : bare.hasItem (path root key) = false
  outside : ∀ names, folderName ∉ names → bare.contentAt? names = disk.contentAt? names

/-- The file of a key stands in the folder of the cache. -/
theorem place_path_eq_ok {place : List String} (h : disk.place (path root key) = .ok place) :
    ∃ base, place = base ++ [folderName] ++ [fileName key] := by
  rw [place_path_eq_follow, follow_append, follow_append] at h
  cases hbase : follow disk [] (names root) with
  | error error =>
    rw [hbase] at h
    cases h
  | ok base =>
    rw [hbase] at h
    dsimp only [Except.bind] at h
    cases hfolder : follow disk base [folderName] with
    | error error =>
      rw [hfolder] at h
      cases h
    | ok here =>
      rw [hfolder] at h
      refine ⟨base, ?_⟩
      rw [← eq_of_follow_name ordinary_folderName.toIsName (by decide) (by decide) hfolder]
      exact eq_of_follow_name (isName_fileName key) (fileName_ne_of_length (by decide))
        (fileName_ne_of_length (by decide)) h

theorem exists_emptied (root key : String) (disk : Disk) : ∃ bare, Emptied root key disk bare := by
  cases hplace : disk.place (path root key) with
  | error error => exact ⟨disk, hasItem_of_error hplace, fun _ _ => rfl⟩
  | ok place =>
    obtain ⟨base, hbase⟩ := place_path_eq_ok hplace
    have hne : place ≠ [] := by
      rw [hbase]
      simp
    refine ⟨remove place disk, ?_, fun names hnames => Option.ext fun content => ?_⟩
    · cases hbare : Disk.place (remove place disk) (path root key) with
      | error error => exact hasItem_of_error hbare
      | ok found =>
        have hmono : ∀ names, (remove place disk).sight names = .folder →
            disk.sight names = .folder := by
          intro names hnames
          rw [sight_remove hne] at hnames
          split_ifs at hnames
          exact hnames
        have hfound : disk.place (path root key) = .ok found := by
          rw [place_path_eq_follow] at hbare ⊢
          exact follow_mono hmono hbare
        rw [hplace] at hfound
        rw [hasItem_of_place hbare, ← Except.ok.inj hfound, sight_remove hne,
          if_pos (List.prefix_refl place)]
    · rw [contentAt?_eq_some, contentAt?_eq_some, sight_remove hne, if_neg]
      intro hbelow
      exact hnames (hbelow.subset (by simp [hbase]))

theorem Emptied.alike (h : Emptied root key disk bare) (htop : disk.isFolder)
    (surroundings : Surroundings) : Alike surroundings surroundings disk bare := by
  have hbare : bare.isFolder := by
    have htopContent := h.outside [] List.not_mem_nil
    cases bare with
    | folder items => rfl
    | file content =>
      cases disk with
      | folder items => cases htopContent
      | file other => cases htop
  refine ⟨rfl, rfl, Option.ext fun content => ?_⟩
  rw [toOption_read Analysis.ordinary_envName (sight_nil_of_isFolder hbare),
    toOption_read Analysis.ordinary_envName (sight_nil_of_isFolder htop), ← contentAt?_eq_some,
    ← contentAt?_eq_some, h.outside [Settings.fileName] (by decide)]

/-- Saving leaves the files of other keys as they are. -/
theorem read_of_save {content : ByteArray} (htop : world.disk.sight [] = .folder)
    (hname : fileName entry.key ≠ fileName key)
    (hread : world.disk.read (path root key) = .ok content) :
    ((save (.ofWorld surroundings) root entry).run world).2.disk.sight [] = .folder ∧
      ((save (.ofWorld surroundings) root entry).run world).2.disk.read (path root key) =
        .ok content := by
  rw [run_save]
  cases hmade : world.disk.makeFolders (folder root) with
  | error error => exact ⟨htop, hread⟩
  | ok home =>
    obtain ⟨hgrows, hhome, hpath, here, hhere⟩ := of_makeFolders htop hmade
    obtain ⟨place, hplace, hfile⟩ := read_eq_ok.1 hread
    rw [hpath] at hplace
    have hplaceHome := follow_mono hgrows.folder hplace
    have hfileHome := (hgrows.file place content).2 hfile
    dsimp only
    cases hwrite : home.write (path root entry.key) (bytes entry) with
    | error error =>
      exact ⟨hhome, read_eq_ok.2 ⟨place, (hpath home key).trans hplaceHome, hfileHome⟩⟩
    | ok written =>
      obtain ⟨changed, hchanged, -, -, hother, hfolders⟩ :=
        write_spec hhome (fun disk => hpath disk entry.key) hwrite
      refine ⟨hfolders [] hhome, read_eq_ok.2 ⟨place, ?_, ?_⟩⟩
      · exact (hpath written key).trans (follow_mono hfolders hplaceHome)
      · rw [hother place, hfileHome]
        rw [hhere entry.key changed hchanged, hhere key place hplaceHome]
        exact mt append_isPrefix_append_iff.1 hname

end Cache

namespace Analysis

open Repository (Locator)

variable {parse : Parse} {first : Surroundings} {root : String} {config : Config}
  {locator : Locator} {refresh : Bool} {world : World} {entry : CachedGraph} {disk other : Disk}
  {tree : FileTree}

theorem agree_overrun?_eq (token? : Option String) (outlines : List Outline) :
    Agree Eq disk other (overrun? config (.ofWeb (.ofWorld first) token?) outlines)
      (overrun? config (.ofWeb (.ofWorld first) token?) outlines) := by
  have hpure : (Fetcher.ofWeb (.ofWorld first) token?).elapsed = pure first.elapsed := rfl
  unfold overrun?
  rw [hpure]
  split_ifs <;> exact .pure rfl

theorem agree_run_eq (h : Alike first first disk other) (token? : Option String) :
    Agree Eq disk other (run parse config (.ofWeb (.ofWorld first) token?) tree)
      (run parse config (.ofWeb (.ofWorld first) token?) tree) := by
  unfold run
  dsimp only
  split_ifs
  · exact .pure rfl
  · refine (Agree.mapM (agree_outlineOf h config.scope token?)).bind_eq fun outlines => ?_
    refine (agree_overrun?_eq token? outlines).bind_eq fun late? => ?_
    cases late? <;> exact .pure rfl

variable (parse config locator) in
theorem agree_anew_eq (h : Alike first first disk other) :
    Agree Eq disk other (anew parse (.ofWorld first) config locator)
      (anew parse (.ofWorld first) config locator) := by
  refine (Settings.agree_lookup h tokenName).bind_eq fun token? => ?_
  refine (Repository.Client.agree_repository h config.maxDepth).bind_eq fun result => ?_
  cases result with
  | error error => exact .pure rfl
  | ok found =>
    refine (agree_run_eq h _).bind_eq fun result => ?_
    cases result <;> exact .pure rfl

/-- A new analysis reports the same from two disks from which it learns the same. -/
theorem run_afresh_congr (h : Alike first first world.disk other) (sent : List Web.Request) :
    ((afresh parse (.ofWorld first) root config locator).run world).1 =
      ((afresh parse (.ofWorld first) root config locator).run ⟨other, sent⟩).1 := by
  obtain ⟨found?, result, hfound, hresult, rfl⟩ := agree_anew_eq parse config locator h
  have hfst : ∀ {world : World}, Steady world.disk (anew parse (.ofWorld first) config locator)
      found? → ((afresh parse (.ofWorld first) root config locator).run world).1 =
        found?.map reportOn := by
    intro world hsteady
    obtain ⟨sent, hrun⟩ := run_afresh_of_steady root hsteady
    rw [hrun]
    cases found? <;> rfl
  have hother : Steady (World.mk other sent).disk (anew parse (.ofWorld first) config locator)
      found? := hresult
  rw [hfst hfound, hfst hother]

variable (parse first) in
theorem run_ofRepository_of_entryIn?
    (hentry : Cache.entryIn? world.disk root locator.key = some entry)
    (hversion : entry.policyVersion = config.health.version) :
    (ofRepository parse (.ofWorld first) root config locator false).run world =
      (.ok (reportOfKept entry), world) := by
  obtain ⟨loaded, hload, hkept⟩ := Cache.kept?_load first root locator.key config world
  rw [hentry, Option.filter_some, if_pos (decide_eq_true hversion)] at hkept
  exact run_ofRepository_of_some hload hkept

theorem run_ofRepository_of_unkept
    (h : refresh = false → ∀ entry, Cache.entryIn? world.disk root locator.key = some entry →
      entry.policyVersion ≠ config.health.version) :
    (ofRepository parse (.ofWorld first) root config locator refresh).run world =
      (afresh parse (.ofWorld first) root config locator).run world := by
  cases refresh with
  | true => rfl
  | false =>
    obtain ⟨loaded, hload, hkept⟩ := Cache.kept?_load first root locator.key config world
    refine run_ofRepository_of_none hload (hkept.trans ?_)
    rw [Option.filter_eq_none_iff]
    intro entry hentry
    simpa using h rfl entry hentry

/-- Where nothing in a cache may be used, the cache might as well be empty. -/
theorem run_ofRepository_emptied (htop : world.disk.isFolder)
    (h : refresh = false → ∀ entry, Cache.entryIn? world.disk root locator.key = some entry →
      entry.policyVersion ≠ config.health.version) {bare : Disk}
    (hbare : Cache.Emptied root locator.key world.disk bare) :
    ((ofRepository parse (.ofWorld first) root config locator refresh).run world).1 =
      ((ofRepository parse (.ofWorld first) root config locator refresh).run
        ⟨bare, world.sent⟩).1 := by
  have hnone : refresh = false → ∀ entry, Cache.entryIn? bare root locator.key = some entry →
      entry.policyVersion ≠ config.health.version := by
    intro _ entry hentry
    rw [Cache.entryIn?_of_not_hasItem hbare.free] at hentry
    cases hentry
  have hrun : (ofRepository parse (.ofWorld first) root config locator refresh).run
      ⟨bare, world.sent⟩ = (afresh parse (.ofWorld first) root config locator).run
      ⟨bare, world.sent⟩ := run_ofRepository_of_unkept hnone
  rw [run_ofRepository_of_unkept h, hrun]
  exact run_afresh_congr (hbare.alike htop first) world.sent

variable (parse first root config locator world) in
theorem run_afresh_disk : ∃ sent,
    ((afresh parse (.ofWorld first) root config locator).run world).2 = ⟨world.disk, sent⟩ ∨
      ∃ report, ((afresh parse (.ofWorld first) root config locator).run world).2 =
        ((Cache.save (.ofWorld first) root (entryOf config locator first.time report)).run
          ⟨world.disk, sent⟩).2 := by
  obtain ⟨value, -, hsteady, -, -⟩ :=
    agree_anew_eq parse config locator (Alike.refl first world.disk)
  obtain ⟨sent, hrun⟩ := run_afresh_of_steady root hsteady
  rw [hrun]
  cases value with
  | error failure => exact ⟨sent, .inl rfl⟩
  | ok found => exact ⟨sent, .inr ⟨_, rfl⟩⟩

variable (parse first root config locator refresh world) in
/-- A call saves under the key of its repository or leaves the disk as it is. -/
theorem run_ofRepository_disk : ∃ sent,
    ((ofRepository parse (.ofWorld first) root config locator refresh).run world).2 =
        ⟨world.disk, sent⟩ ∨
      ∃ report, ((ofRepository parse (.ofWorld first) root config locator refresh).run world).2 =
        ((Cache.save (.ofWorld first) root (entryOf config locator first.time report)).run
          ⟨world.disk, sent⟩).2 := by
  cases refresh with
  | true =>
    rw [ofRepository, if_pos rfl]
    exact run_afresh_disk parse first root config locator world
  | false =>
    obtain ⟨loaded, hload, -⟩ := Cache.kept?_load first root locator.key config world
    cases hkept : kept? config loaded with
    | some entry =>
      rw [run_ofRepository_of_some hload hkept]
      exact ⟨world.sent, .inl rfl⟩
    | none =>
      rw [run_ofRepository_of_none hload hkept]
      exact run_afresh_disk parse first root config locator world

/-- A call that asks for the report on a repository, with surroundings of its own. -/
structure Visit where
  surroundings : Surroundings
  config : Config
  locator : Locator
  refresh : Bool

namespace Visit

variable {visit : Visit} {version : UInt32}

def run (parse : Parse) (root : String) (visit : Visit) : StateM World (Except Failure Report) :=
  ofRepository parse (.ofWorld visit.surroundings) root visit.config visit.locator visit.refresh

/-- Whether a visit leaves the file alone in which the graph of a repository is kept: it uses
another file, or else what is kept there. -/
def Spares (locator : Locator) (version : UInt32) (visit : Visit) : Prop :=
  Cache.fileName visit.locator.key ≠ Cache.fileName locator.key ∨
    visit.locator = locator ∧ visit.refresh = false ∧ visit.config.health.version = version

variable (parse) in
/-- A visit that spares the file of a kept graph leaves it there, and reports this graph if it asks
for this repository. -/
theorem run_of_spares (hentry : entry.Readable) (hkey : entry.key = locator.key)
    (hspares : visit.Spares locator entry.policyVersion) (htop : world.disk.sight [] = .folder)
    (hread : world.disk.read (Cache.path root locator.key) = .ok (Cache.bytes entry)) :
    (visit.locator = locator → ((visit.run parse root).run world).1 = .ok (reportOfKept entry)) ∧
      ((visit.run parse root).run world).2.disk.sight [] = .folder ∧
      ((visit.run parse root).run world).2.disk.read (Cache.path root locator.key) =
        .ok (Cache.bytes entry) := by
  rcases hspares with hname | ⟨rfl, hrefresh, hversion⟩
  · have hother : visit.locator ≠ locator := by
      rintro rfl
      exact hname rfl
    refine ⟨fun hlocator => absurd hlocator hother, ?_⟩
    obtain ⟨sent, hdisk | ⟨report, hdisk⟩⟩ := run_ofRepository_disk parse visit.surroundings root
      visit.config visit.locator visit.refresh world
    · rw [run, hdisk]
      exact ⟨htop, hread⟩
    · rw [run, hdisk]
      exact Cache.read_of_save htop hname hread
  · have hfound := Cache.entryIn?_of_read hentry hkey hread
    have hrun := run_ofRepository_of_entryIn? parse visit.surroundings hfound hversion.symm
    rw [run, hrefresh, hrun]
    exact ⟨fun _ => rfl, htop, hread⟩

/-- All visits that ask for a repository report the graph that has been kept, as long as each of
them spares its file. -/
theorem run_mapM_of_spares (hentry : entry.Readable) (hkey : entry.key = locator.key)
    {visits : List Visit} (hspares : ∀ visit ∈ visits, visit.Spares locator entry.policyVersion)
    (htop : world.disk.sight [] = .folder)
    (hread : world.disk.read (Cache.path root locator.key) = .ok (Cache.bytes entry)) :
    List.Forall₂ (fun visit result => visit.locator = locator → result = .ok (reportOfKept entry))
      visits ((visits.mapM (run parse root)).run world).1 := by
  induction visits generalizing world with
  | nil => exact .nil
  | cons visit rest ih =>
    obtain ⟨hresult, htopNext, hreadNext⟩ :=
      run_of_spares parse hentry hkey (hspares visit List.mem_cons_self) htop hread
    rw [Action.run_mapM_cons]
    exact .cons hresult (ih (fun other hother => hspares other (List.mem_cons_of_mem _ hother))
      htopNext hreadNext)

end Visit

/-- What stands in a cache cannot spoil an analysis. A graph that is kept under the key of the
repository with the right version is reported as it is, without a request, unless it must not be
used. In all other cases the report is the one that a disk without a cache would give. A new report
that has been kept is reported from then on, as long as its file is there. -/
theorem ofRepository_robust (parse : Parse) (surroundings : Surroundings) (root : String)
    (config : Config) (locator : Locator) (refresh : Bool) (world : World)
    (htop : world.disk.isFolder) :
    (∀ entry, refresh = false → Cache.entryIn? world.disk root locator.key = some entry →
      entry.policyVersion = config.health.version →
        (ofRepository parse (.ofWorld surroundings) root config locator refresh).run world =
          (.ok ⟨entry.about?, true, entry.graph⟩, world)) ∧
      ((refresh = false → ∀ entry, Cache.entryIn? world.disk root locator.key = some entry →
        entry.policyVersion ≠ config.health.version) →
          (∃ bare, Cache.Emptied root locator.key world.disk bare) ∧
            ∀ bare, Cache.Emptied root locator.key world.disk bare →
              ((ofRepository parse (.ofWorld surroundings) root config locator refresh).run
                  world).1 =
                ((ofRepository parse (.ofWorld surroundings) root config locator refresh).run
                  ⟨bare, world.sent⟩).1) ∧
      ∀ report after, surroundings.time.Valid →
        Keeps parse surroundings root config locator refresh world report after →
          (∀ later changed last, changed.health.version = config.health.version →
            last.disk.read (Cache.path root locator.key) =
                after.disk.read (Cache.path root locator.key) →
              (ofRepository parse (.ofWorld later) root changed locator false).run last =
                (.ok { report with cached := true }, last)) ∧
            ∀ visits : List Visit,
              (∀ visit ∈ visits, visit.Spares locator config.health.version) →
                List.Forall₂ (fun visit result => visit.locator = locator →
                    result = .ok { report with cached := true })
                  visits ((visits.mapM (Visit.run parse root)).run after).1 := by
  refine ⟨fun entry hrefresh hentry hversion => ?_, fun hunused => ⟨?_, fun bare hbare => ?_⟩,
    fun report after htime hkeeps => ?_⟩
  · rw [hrefresh]
    exact run_ofRepository_of_entryIn? parse surroundings hentry hversion
  · exact Cache.exists_emptied root locator.key world.disk
  · exact run_ofRepository_emptied htop hunused hbare
  · obtain ⟨found, -, rfl⟩ := hkeeps.steady
    have hentry := readable_entryOf config locator htime found
    obtain ⟨htopAfter, -, hread, -⟩ := Cache.of_save (sight_nil_of_isFolder htop) hkeeps.saved
    refine ⟨fun later changed last hversion hsame => ?_, fun visits hspares => ?_⟩
    · have hfound := Cache.entryIn?_of_read hentry rfl (hsame.trans hread)
      exact run_ofRepository_of_entryIn? parse later hfound hversion.symm
    · exact Visit.run_mapM_of_spares hentry rfl hspares htopAfter hread

/-- A disk on which the file of a repository has been cut short. -/
def spoilt : Disk :=
  .folder [(Cache.folderName, .folder [(Cache.fileName widgets.key, .file "\x7b".toUTF8)])]

def deaf : Surroundings := ⟨fun _ => none, [], ⟨0, 0⟩, 0⟩

/-- A visit to another repository, and one to a repository that has been kept. -/
def laterVisits : List Visit :=
  [⟨deaf, limited 1, ⟨"acme", "gadgets"⟩, true⟩, ⟨deaf, limited 1, widgets, false⟩]

theorem spares_laterVisits : ∀ visit ∈ laterVisits,
    visit.Spares widgets (limited 0).health.version := by
  intro visit hvisit
  simp only [laterVisits, List.mem_cons, List.not_mem_nil, or_false] at hvisit
  rcases hvisit with rfl | rfl
  · left
    have hwidgets : Cache.fileName widgets.key = "github.com_acme_widgets.json" := by cbv
    have hgadgets : Cache.fileName (Repository.Locator.key ⟨"acme", "gadgets"⟩) =
      "github.com_acme_gadgets.json" := by cbv
    dsimp only
    rw [hwidgets, hgadgets]
    decide
  · exact .inr ⟨rfl, rfl, rfl⟩

theorem entryIn?_spoilt : Cache.entryIn? spoilt "" widgets.key = none := by
  have hfits : Cache.Fits widgets.key := by cbv
  have hnames : names "" = [] := by cbv
  have hplace : spoilt.place (Cache.path "" widgets.key) =
      .ok [Cache.folderName, Cache.fileName widgets.key] := by
    have hfolder : spoilt.sight [Cache.folderName] = .folder := by
      simp [sight, at?, spoilt, List.lookup, seen]
    have htop : spoilt.sight [] = .folder := rfl
    rw [Cache.place_path_eq_follow, hnames, follow_append, List.nil_append,
      follow_ordinary Cache.ordinary_folderName htop]
    exact follow_ordinary (Cache.ordinary_fileName hfits) hfolder
  have hfile :
      spoilt.sight [Cache.folderName, Cache.fileName widgets.key] = .file "\x7b".toUTF8 := by
    simp [sight, at?, spoilt, List.lookup, seen]
  have htext : String.fromUTF8? "\x7b".toUTF8 = some "\x7b" := dif_pos "\x7b".isValidUTF8
  have hbroken : (Json.Decode.text CachedGraph.decode (.ofText "\x7b")).toOption = none := by cbv
  rw [Cache.entryIn?, read_of_place hplace hfile]
  dsimp only [Except.toOption, Option.bind_some]
  rw [htext]
  dsimp only [Option.bind_some]
  cases hdecode : Json.Decode.text CachedGraph.decode (.ofText "\x7b") with
  | error fault => rfl
  | ok entry =>
    rw [hdecode] at hbroken
    cases hbroken

theorem ofRepository_robust_widgets : (∃ bare, Cache.Emptied "" widgets.key spoilt bare ∧
      ((ofRepository noParse (.ofWorld widgetsService) "" (limited 0) widgets false).run
          ⟨spoilt, []⟩).1 =
        ((ofRepository noParse (.ofWorld widgetsService) "" (limited 0) widgets false).run
          ⟨bare, []⟩).1) ∧
    ∃ report after first,
      Keeps noParse widgetsService "" (limited 0) widgets true ⟨.empty, []⟩ report after ∧
        ((laterVisits.mapM (Visit.run noParse "")).run after).1 =
          [first, .ok { report with cached := true }] := by
  have hunused : false = false → ∀ entry, Cache.entryIn? spoilt "" widgets.key = some entry →
      entry.policyVersion ≠ (limited 0).health.version := by
    intro _ entry hentry
    rw [entryIn?_spoilt] at hentry
    cases hentry
  obtain ⟨found, after, hkeeps, -⟩ := exists_keeps_widgets
  obtain ⟨-, hemptied, -⟩ := ofRepository_robust noParse widgetsService "" (limited 0) widgets false
    ⟨spoilt, []⟩ rfl
  obtain ⟨-, -, hlater⟩ := ofRepository_robust noParse widgetsService "" (limited 0) widgets true
    ⟨.empty, []⟩ rfl
  obtain ⟨⟨bare, hbare⟩, hsame⟩ := hemptied hunused
  have hresults := (hlater (reportOn found) after valid_widgetsTime hkeeps).2 laterVisits
    spares_laterVisits
  refine ⟨⟨bare, hbare, hsame bare hbare⟩, reportOn found, after, ?_⟩
  generalize ((laterVisits.mapM (Visit.run noParse "")).run after).1 = results at hresults ⊢
  rcases hresults with _ | ⟨-, hresults⟩
  rcases hresults with _ | ⟨hresult, hresults⟩
  cases hresults
  exact ⟨_, hkeeps, by rw [hresult rfl]⟩
end Analysis

end CodeGraph
