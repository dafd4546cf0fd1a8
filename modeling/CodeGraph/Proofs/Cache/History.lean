import CodeGraph.Proofs.Cache.Store

/-! What a cache returns after any calls: the latest graph in the file of a key, if it is of just this
key. Nothing but files in the folder of the cache is changed. -/
namespace CodeGraph.Cache

open Disk DiskItem

inductive Call where
  | saveGraph (key : String) (graph : Graph) (policyVersion : UInt32)
  | save (entry : CachedGraph)
  | load (key : String)
  | clear

inductive Outcome where
  | saved (result : Except CacheError Unit)
  | loaded (result : Except CacheError (Option CachedGraph))
  | cleared (result : Except DiskError Unit)

def Call.run {m : Type → Type} [Monad m] (host : Host m) (root : String) : Call → m Outcome
  | saveGraph key graph policyVersion =>
    .saved <$> Cache.saveGraph host root key graph policyVersion
  | save entry => .saved <$> Cache.save host root entry
  | load key => .loaded <$> Cache.load host root key
  | clear => .cleared <$> Cache.clear host root

/-- Makes calls one after the other, each with surroundings of its own. -/
def run (root : String) : List (Surroundings × Call) → StateM World (List Outcome)
  | [] => return []
  | (surroundings, call) :: rest => do
    let outcome ← call.run (.ofWorld surroundings) root
    return outcome :: (← run root rest)

def Call.given? (time : Time) : Call → Option CachedGraph
  | saveGraph key graph policyVersion =>
    some { key, version := CachedGraph.currentVersion, policyVersion, time, about? := none, graph }
  | save entry => some entry
  | load _ => none
  | clear => none

/-- The graphs that are kept after a call, the latest first. -/
def Call.keeps (time : Time) (kept : List CachedGraph) (call : Call) : List CachedGraph :=
  match call with
  | clear => []
  | call => ((call.given? time).filter fun entry => Fits entry.key).toList ++ kept

def Call.outcome (root : String) (kept : List CachedGraph) : Call → Outcome
  | saveGraph key _ _ => .saved (if Fits key then .ok () else .error (.unwritable (path root key)))
  | save entry =>
    .saved (if Fits entry.key then .ok () else .error (.unwritable (path root entry.key)))
  | load key => .loaded (.ok (found? kept key))
  | clear => .cleared (.ok ())

def outcomes (root : String) : List CachedGraph → List (Surroundings × Call) → List Outcome
  | _, [] => []
  | kept, (surroundings, call) :: rest =>
    call.outcome root kept :: outcomes root (call.keeps surroundings.time kept) rest

/-- The graphs that have been saved since the cache was last cleared, the latest first. -/
def keptAfter (calls : List (Surroundings × Call)) : List CachedGraph :=
  calls.foldl (fun kept call => call.2.keeps call.1.time kept) []

/-- A disk on which a root can be made, in which there is no cache then. -/
structure Fresh (root : String) (base : List String) (start home : Disk) : Prop
    extends Root root base home where
  top : start.sight [] = .folder
  made : start.makeFolders root = .ok home
  grows : Grows start home

/-- The disk is as it was at the start, or it holds the graphs that are kept. -/
def Stands (base : List String) (start home : Disk) (kept : List CachedGraph) (disk : Disk) : Prop :=
  kept = [] ∧ disk = start ∨ Holds base home kept disk

variable {root : String} {base : List String} {start home disk : Disk} {kept : List CachedGraph}
  {entry : CachedGraph} {call : Call} {surroundings : Surroundings} {sent : List Web.Request}

theorem Stands.sight_nil (hfresh : Fresh root base start home)
    (h : Stands base start home kept disk) : disk.sight [] = .folder := by
  rcases h with ⟨-, rfl⟩ | h
  · exact hfresh.top
  · exact h.folder_of_home hfresh.toRoot [] (hfresh.grows.folder [] hfresh.top)

theorem Stands.makeFolders_root (hfresh : Fresh root base start home)
    (h : Stands base start home kept disk) :
    ∃ made, disk.makeFolders root = .ok made ∧ Holds base home kept made := by
  rcases h with ⟨rfl, rfl⟩ | h
  · exact ⟨home, hfresh.made, hfresh.toRoot.holds⟩
  · exact ⟨disk, makeFolders_of_folder (h.follow_root hfresh.toRoot)
      (h.sight_base hfresh.toRoot), h⟩

variable (surroundings sent) in
theorem Stands.save (hfresh : Fresh root base start home) (h : Stands base start home kept disk)
    (hentry : entry.Readable) :
    ∃ more, (Cache.save (.ofWorld surroundings) root entry).run ⟨disk, sent⟩ =
      (if Fits entry.key then .ok () else .error (.unwritable (path root entry.key)),
        ⟨more, sent⟩) ∧
      Stands base start home (((some entry).filter fun entry => Fits entry.key).toList ++ kept)
        more := by
  obtain ⟨made, hmade, hholds⟩ := h.makeFolders_root hfresh
  obtain ⟨more, hmore, hholds, hfolder⟩ :=
    hholds.makeFolders hfresh.toRoot (h.sight_nil hfresh) hmade
  rw [run_save]
  dsimp only
  rw [hmore]
  by_cases hkey : Fits entry.key
  · obtain ⟨written, hwritten, hholds⟩ := hholds.write hfresh.toRoot hfolder hkey hentry
    refine ⟨written, ?_, .inr ?_⟩
    · rw [if_pos hkey]
      dsimp only
      rw [hwritten]
    · rwa [Option.filter_some, if_pos (by simpa using hkey)]
  · refine ⟨more, ?_, .inr ?_⟩
    · rw [if_neg hkey]
      dsimp only
      rw [write_of_error (hholds.place_path_of_not_fits hfresh.toRoot hfolder hkey)]
    · rwa [Option.filter_some, if_neg (by simpa using hkey)]

theorem Stands.load (hfresh : Fresh root base start home) (h : Stands base start home kept disk)
    (surroundings : Surroundings) (key : String) (sent : List Web.Request) :
    (Cache.load (.ofWorld surroundings) root key).run ⟨disk, sent⟩ =
      (.ok (found? kept key), ⟨disk, sent⟩) := by
  rcases h with ⟨rfl, rfl⟩ | h
  · have hhome : home.hasItem (path root key) = false := by
      have hpath := hfresh.toRoot.holds.place_path hfresh.toRoot key
      exact hasItem_of_error (hpath.trans (follow_of_not_folder (by rw [hfresh.free]; nofun)))
    have hitem : disk.hasItem (path root key) = false :=
      hfresh.grows.hasItem (fun disk => place_path_eq_follow disk root key) hhome
    have hnone : found? [] key = none := rfl
    rw [hnone]
    exact load_of_not_hasItem surroundings hitem
  · exact h.load hfresh.toRoot surroundings key sent

theorem Stands.clear (hfresh : Fresh root base start home) (h : Stands base start home kept disk)
    (surroundings : Surroundings) (sent : List Web.Request) :
    ∃ more, (Cache.clear (.ofWorld surroundings) root).run ⟨disk, sent⟩ =
      (.ok (), ⟨more, sent⟩) ∧ Stands base start home [] more := by
  rcases h with ⟨rfl, rfl⟩ | h
  · have hhome : home.hasItem (folder root) = false :=
      (hasItem_of_place (hfresh.toRoot.holds.place_folder hfresh.toRoot)).2 hfresh.free
    have hitem : disk.hasItem (folder root) = false :=
      hfresh.grows.hasItem (fun disk => place_folder_eq_follow disk root) hhome
    refine ⟨disk, ?_, .inl ⟨rfl, rfl⟩⟩
    rw [run_clear]
    dsimp only
    rw [hitem]
    rfl
  · obtain ⟨more, hrun, hholds⟩ := h.clear hfresh.toRoot surroundings sent
    exact ⟨more, hrun, .inr hholds⟩

theorem run_map_eq {α β : Type} {action : StateM World α} {before after : World} {value : α}
    (outcome : α → β) (h : action.run before = (value, after)) :
    (outcome <$> action).run before = (outcome value, after) := by
  rw [StateT.run_map, h]
  rfl

variable (sent) in
/-- A call does what it should, and the cache stands as it should afterwards. -/
theorem Stands.step (hfresh : Fresh root base start home) (h : Stands base start home kept disk)
    (hcall : ∀ entry ∈ call.given? surroundings.time, entry.Readable) :
    ∃ more, (call.run (.ofWorld surroundings) root).run ⟨disk, sent⟩ =
      (call.outcome root kept, ⟨more, sent⟩) ∧
      Stands base start home (call.keeps surroundings.time kept) more := by
  cases call with
  | saveGraph key graph policyVersion =>
    obtain ⟨more, hrun, hstands⟩ := h.save surroundings sent hfresh (hcall _ rfl)
    exact ⟨more, run_map_eq Outcome.saved hrun, hstands⟩
  | save entry =>
    obtain ⟨more, hrun, hstands⟩ := h.save surroundings sent hfresh (hcall entry rfl)
    exact ⟨more, run_map_eq Outcome.saved hrun, hstands⟩
  | load key =>
    have hrun := h.load hfresh surroundings key sent
    exact ⟨disk, run_map_eq Outcome.loaded hrun, h⟩
  | clear =>
    obtain ⟨more, hrun, hstands⟩ := h.clear hfresh surroundings sent
    exact ⟨more, run_map_eq Outcome.cleared hrun, hstands⟩

variable (sent) in
/-- What holds along all calls, from graphs kept before. -/
theorem Stands.run {calls : List (Surroundings × Call)} (hfresh : Fresh root base start home)
    (h : Stands base start home kept disk)
    (hcalls : ∀ call ∈ calls, ∀ entry ∈ call.2.given? call.1.time, entry.Readable) :
    ∃ more, (Cache.run root calls).run ⟨disk, sent⟩ = (outcomes root kept calls, ⟨more, sent⟩) ∧
      Stands base start home
        (calls.foldl (fun kept call => call.2.keeps call.1.time kept) kept) more := by
  induction calls generalizing kept disk with
  | nil => exact ⟨disk, rfl, h⟩
  | cons first rest ih =>
    obtain ⟨surroundings, call⟩ := first
    obtain ⟨between, hfirst, hstands⟩ := h.step sent hfresh (hcalls _ List.mem_cons_self)
    obtain ⟨more, hrest, hstands⟩ := ih hstands fun call hcall =>
      hcalls call (List.mem_cons_of_mem _ hcall)
    refine ⟨more, ?_, hstands⟩
    rw [Cache.run, StateT.run_bind, hfirst]
    exact run_map_eq (call.outcome root kept :: ·) hrest

/-- A disk with no cache in a root that can be made there is a fresh one. -/
theorem exists_fresh (htop : start.sight [] = .folder) (hmade : start.makeFolders root = .ok home)
    (hfree : home.hasItem (folder root) = false) : ∃ base, Fresh root base start home := by
  obtain ⟨hgrows, base, hfollow, hfolder⟩ := makeFolders_spec htop hmade
  have hplace : home.place (folder root) = .ok (base ++ [folderName]) := by
    rw [place_folder_eq_follow, follow_append, hfollow]
    exact follow_ordinary ordinary_folderName hfolder
  exact ⟨base, ⟨hfollow, hfolder, (hasItem_of_place hplace).1 hfree⟩, htop, hmade, hgrows⟩

/-- No file but those in the folder of the cache is another than at the start. -/
theorem Stands.outside (hfresh : Fresh root base start home)
    (h : Stands base start home kept disk) {names : List String}
    (hnames : ¬ base ++ [folderName] <+: names) (content : ByteArray) :
    disk.sight names = .file content ↔ start.sight names = .file content := by
  rcases h with ⟨-, rfl⟩ | h
  · rfl
  · rw [h.outside names hnames]
    exact hfresh.grows.file names content

/-- Every file in the folder of the cache is that of a graph that is kept. -/
theorem Stands.inside (hfresh : Fresh root base start home)
    (h : Stands base start home kept disk) {names : List String} {content : ByteArray}
    (hnames : base ++ [folderName] <+: names) (hfile : disk.sight names = .file content) :
    ∃ entry, inFile? kept (fileName entry.key) = some entry ∧
      names = base ++ [folderName] ++ [fileName entry.key] ∧ content = bytes entry := by
  rcases h with ⟨-, rfl⟩ | h
  · have hhome := (hfresh.grows.file names content).2 hfile
    rw [sight_of_isPrefix hfresh.free hnames] at hhome
    cases hhome
  · exact h.inside_file hnames hfile

theorem found?_eq_some_iff {key : String} : found? kept key = some entry ↔
    inFile? kept (fileName key) = some entry ∧ entry.key = key := by
  unfold found?
  rw [Option.filter_eq_some_iff, decide_eq_true_iff]

/-- Whatever is done with a cache, each call gives what it should: under a key the latest graph in
its file is found, if it was saved under this very key. Every file in the folder of the cache is that
of a graph saved since the cache was last cleared, and no other file is changed. -/
theorem run_eq_outcomes (world : World) (calls : List (Surroundings × Call))
    (htop : world.disk.isFolder) (hmade : world.disk.makeFolders root = .ok home)
    (hfree : home.hasItem (folder root) = false)
    (hcalls : ∀ call ∈ calls, ∀ entry ∈ call.2.given? call.1.time, entry.Readable) :
    ∃ disk place, (run root calls).run world = (outcomes root [] calls, ⟨disk, world.sent⟩) ∧
      (∀ surroundings key, ∃ found?,
        (Cache.load (.ofWorld surroundings) root key).run ⟨disk, world.sent⟩ =
          (.ok found?, ⟨disk, world.sent⟩) ∧
        ∀ entry, found? = some entry ↔
          inFile? (keptAfter calls) (fileName key) = some entry ∧ entry.key = key) ∧
      home.place (folder root) = .ok place ∧
      (∀ names, ¬ place <+: names → disk.contentAt? names = world.disk.contentAt? names) ∧
      ∀ names content, place <+: names → disk.contentAt? names = some content →
        ∃ entry, inFile? (keptAfter calls) (fileName entry.key) = some entry ∧
          names = place ++ [fileName entry.key] ∧ content = bytes entry := by
  obtain ⟨base, hfresh⟩ := exists_fresh (sight_nil_of_isFolder htop) hmade hfree
  have hstart : Stands base world.disk home [] world.disk := .inl ⟨rfl, rfl⟩
  obtain ⟨disk, hrun, hstands⟩ := hstart.run world.sent hfresh hcalls
  refine ⟨disk, base ++ [folderName], hrun, fun surroundings key => ?_, ?_, fun names hnames => ?_,
    fun names content hnames hcontent => ?_⟩
  · exact ⟨_, hstands.load hfresh surroundings key world.sent, fun entry => found?_eq_some_iff⟩
  · exact hfresh.toRoot.holds.place_folder hfresh.toRoot
  · refine Option.ext fun content => ?_
    rw [contentAt?_eq_some, contentAt?_eq_some]
    exact hstands.outside hfresh hnames content
  · rw [contentAt?_eq_some] at hcontent
    exact hstands.inside hfresh hnames hcontent

def starred : CachedGraph where
  key := "a_b"
  version := "2"
  policyVersion := 1
  time := ⟨0, 0⟩
  about? := some (.ofMembers [("stars", .number (Json.Number.Value.whole 3).spelling)])
  graph := default

theorem starred_readable : starred.Readable where
  time := ⟨by decide, by decide, by decide, by decide⟩
  about about habout := by
    cases habout
    refine ⟨by nofun, .object (List.pairwise_singleton _ _) fun member hmember => ?_⟩
    rw [List.mem_singleton.1 hmember]
    exact .number (Json.Number.integral_whole (by decide))

/-- Two graphs are kept in one file, and looked for. -/
def sameFile : List (Surroundings × Call) :=
  [.saveGraph "a/b" default 1, .save starred, .load "a/b", .load "a_b"].map
    (⟨fun _ => none, [], ⟨0, 0⟩, 0⟩, ·)

theorem run_sameFile : ∃ disk, (run "r" sameFile).run ⟨.empty, []⟩ =
    ([.saved (.ok ()), .saved (.ok ()), .loaded (.ok none), .loaded (.ok (some starred))],
      ⟨disk, []⟩) := by
  have hmade : Disk.empty.makeFolders "r" = .ok (.folder [("r", .folder [])]) := by cbv
  have hfree : Disk.hasItem (.folder [("r", .folder [])]) (folder "r") = false := by cbv
  have hcalls : ∀ call ∈ sameFile, ∀ entry ∈ call.2.given? call.1.time, entry.Readable := by
    simp only [sameFile, List.map_cons, List.map_nil, List.forall_mem_cons, Call.given?]
    refine ⟨?_, ?_, ?_, ?_, ?_⟩
    · rintro entry ⟨⟩
      exact ⟨⟨by decide, by decide, by decide, by decide⟩, by rintro about ⟨⟩⟩
    · rintro entry ⟨⟩
      exact starred_readable
    · rintro entry ⟨⟩
    · rintro entry ⟨⟩
    · rintro call ⟨⟩
  have houtcomes : outcomes "r" [] sameFile =
    [.saved (.ok ()), .saved (.ok ()), .loaded (.ok none), .loaded (.ok (some starred))] := by cbv
  obtain ⟨disk, -, hrun, -⟩ := run_eq_outcomes ⟨.empty, []⟩ sameFile rfl hmade hfree hcalls
  rw [houtcomes] at hrun
  exact ⟨disk, hrun⟩

end CodeGraph.Cache
