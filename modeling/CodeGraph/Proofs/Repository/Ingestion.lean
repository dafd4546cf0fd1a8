import CodeGraph.Proofs.Action
import CodeGraph.Proofs.Repository.Crawl
import CodeGraph.Proofs.Repository.Exchange
import CodeGraph.Proofs.Web.Service

/-! The tree of a repository is put together from the listings of its folders, whatever the order in
which these are answered. -/
namespace CodeGraph.Repository

variable {σ : Type}

namespace Client

variable {host : Host (StateM σ)} {client : Client} {locator : Locator} {failing : String → Bool}
  {contents : Contents}

/-- Whether a service answers for the folders of a repository. Some requests may fail. -/
def Serves (host : Host (StateM σ)) (client : Client) (locator : Locator) (failing : String → Bool)
    (contents : Contents) : Prop :=
  ∀ folder ∈ contents.fromRoot, ∀ state,
    ((get host client (Json.Decode.list Listed.decode)
      (client.folderAddress locator folder.1)).run state).1.toOption =
        if failing folder.1 then none else some (folder.2.listing folder.1)

theorem listFolder_of_serves (h : Serves host client locator failing contents)
    {folder : String × Contents} (hfolder : folder ∈ contents.fromRoot) (state : σ) :
    ((listFolder host client locator folder.1).run state).1 =
      if failing folder.1 then [] else folder.2.listing folder.1 := by
  have hanswer := h folder hfolder state
  rw [listFolder, Action.fst_run_bind, Action.fst_run_pure, hanswer]
  split_ifs <;> rfl

section

variable {list : String → StateM σ (List Listed)} {answer : String → List Listed}
  {known paths : List String}

theorem fst_mapM_list
    (hanswer : ∀ path ∈ paths, ∀ state, ((list path).run state).1 = answer path) (state : σ) :
    ((paths.mapM fun path => return (path, ← list path)).run state).1 =
      Listings.ofAnswers answer paths := by
  refine Action.fst_run_mapM (fun path hpath state => ?_) state
  rw [Action.fst_run_bind, Action.fst_run_pure, hanswer path hpath]

/-- Where folders answer as they do, the listings are those that are gathered. -/
theorem fst_listLevels
    (hclosed : ∀ path ∈ known, ∀ item ∈ answer path, item.isFolder → item.path ∈ known)
    (hanswer : ∀ path ∈ known, ∀ state, ((list path).run state).1 = answer path) {levels : Nat}
    (hpaths : ∀ path ∈ paths, path ∈ known) (listings : Listings) (state : σ) :
    ((listLevels list levels paths listings).run state).1 =
      Listings.gathered answer levels paths listings := by
  induction levels generalizing paths listings state with
  | zero =>
    rw [listLevels]
    split_ifs with hempty
    · rw [List.isEmpty_iff.1 hempty]
      rfl
    · have hlevel := fst_mapM_list (fun path hpath => hanswer path (hpaths path hpath)) state
      change Listings.insertAll ((paths.mapM fun path => return (path, ← list path)).run state).1
        listings = _
      rw [hlevel]
      rfl
  | succ levels ih =>
    rw [listLevels]
    split_ifs with hempty
    · rw [List.isEmpty_iff.1 hempty, Listings.gathered_nil]
      rfl
    · have hlevel := fst_mapM_list (fun path hpath => hanswer path (hpaths path hpath)) state
      have hbelow := ih (fun _ => Listings.mem_known_of_mem_folders hclosed hpaths)
        (Listings.insertAll (Listings.ofAnswers answer paths) listings)
        ((paths.mapM fun path => return (path, ← list path)).run state).2
      rw [Listings.gathered, ← hbelow, ← hlevel]
      rfl

end

section

variable {limit : Option Nat} {parallel : Nat}
  {occupies : String × Option (List Listed) → Bool} {crawl : Crawl σ}

/-- What a service that serves a repository answers for its folders. -/
theorem answers_of_serves (h : Serves host client locator failing contents) (state : σ) :
    Listings.Answers failing
      (fun path => ((listFolder host client locator path).run state).1) contents.fromRoot :=
  fun _ hfolder => listFolder_of_serves h hfolder state

theorem listFolder_fixed (h : Serves host client locator failing contents) {path : String}
    (hpath : path ∈ contents.fromRoot.map (·.1)) (state other : σ) :
    ((listFolder host client locator path).run state).1 =
      ((listFolder host client locator path).run other).1 := by
  obtain ⟨folder, hfolder, rfl⟩ := List.mem_map.1 hpath
  rw [listFolder_of_serves h hfolder, listFolder_of_serves h hfolder]

theorem closed_of_serves (hnamed : contents.WellNamed)
    (h : Serves host client locator failing contents) (state : σ) :
    ∀ path ∈ contents.fromRoot.map (·.1),
      ∀ item ∈ ((listFolder host client locator path).run state).1,
        item.isFolder → item.path ∈ contents.fromRoot.map (·.1) := by
  intro path hpath item hitem hdir
  obtain ⟨folder, hfolder, rfl⟩ := List.mem_map.1 hpath
  rw [listFolder_of_serves h hfolder] at hitem
  split_ifs at hitem
  · cases hitem
  · exact Contents.path_mem_fromRoot hnamed hfolder hitem hdir

theorem tree_getD_manyLevels (hnamed : contents.WellNamed)
    (hpaths : limit = none → ∀ path ∈ contents.paths "", path.utf8ByteSize < UInt64.size) :
    contents.tree failing (some (limit.getD manyLevels)) = contents.tree failing limit := by
  cases limit with
  | some levels => rfl
  | none =>
    have hheight : contents.height ≤ manyLevels :=
      Nat.le_sub_one_of_lt (Contents.height_lt_of_paths hnamed (by decide) (hpaths rfl))
    unfold Contents.tree
    rw [Option.getD_none, Contents.visible_of_height_le hheight]

theorem tree_of_serves (hnamed : contents.WellNamed)
    (hpaths : limit = none → ∀ path ∈ contents.paths "", path.utf8ByteSize < UInt64.size)
    (h : Serves host client locator failing contents) (state : σ) :
    ((tree host client locator limit).run state).1 = contents.tree failing limit := by
  have hroot : ∀ path ∈ [""], path ∈ contents.fromRoot.map (·.1) :=
    fun _ hpath => List.mem_singleton.1 hpath ▸ List.mem_cons_self
  rw [tree, Action.fst_run_bind, Action.fst_run_pure, fst_listLevels (closed_of_serves hnamed h state)
    (fun _ hpath other => listFolder_fixed h hpath other state) hroot]
  exact (Listings.toTree_gathered hnamed (answers_of_serves h state) _).trans
    (tree_getD_manyLevels hnamed hpaths)

theorem tree_some_of_serves (hnamed : contents.WellNamed)
    (h : Serves host client locator failing contents) (levels : Nat) (state : σ) :
    ((tree host client locator (some levels)).run state).1 = contents.tree failing (some levels) := by
  have hpaths : some levels = none →
      ∀ path ∈ contents.paths "", path.utf8ByteSize < UInt64.size := nofun
  exact tree_of_serves hnamed hpaths h state

theorem toTree_of_crawl (hnamed : contents.WellNamed)
    (hpaths : limit = none → ∀ path ∈ contents.paths "", path.utf8ByteSize < UInt64.size)
    (h : Serves host client locator failing contents) {state : σ}
    (hreachable : Crawl.Reachable (listFolder host client locator) occupies (max 1 parallel)
      (limit.getD manyLevels) state crawl)
    (hend : ∀ next, ¬ Crawl.Step (listFolder host client locator) occupies (max 1 parallel)
      crawl next) : crawl.listings.toTree = contents.tree failing limit := by
  have hsound := Crawl.Sound.of_reachable List.mem_cons_self (closed_of_serves hnamed h state)
    (fun _ hpath other => listFolder_fixed h hpath other state) hreachable
  rw [hsound.listings_eq (Nat.le_max_left 1 parallel) hend]
  exact (Listings.toTree_gathered hnamed (answers_of_serves h state) _).trans
    (tree_getD_manyLevels hnamed hpaths)

/-- Only what is known of the repository must be had. -/
theorem metadata_eq_error_iff (state : σ) (error : RemoteError) :
    ((metadata host client locator).run state).1 = .error error ↔
      ((get host client Metadata.decode (client.address locator)).run state).1 = .error error := by
  rw [metadata, Action.fst_run_bind]
  cases ((get host client Metadata.decode (client.address locator)).run state).1 with
  | error other =>
    dsimp only
    rw [Action.fst_run_pure]
  | ok metadata =>
    dsimp only
    rw [Action.fst_run_bind, Action.fst_run_bind, Action.fst_run_pure]
    exact ⟨nofun, nofun⟩

theorem repository_eq_error_iff (limit : Option Nat) (state : σ) (error : RemoteError) :
    ((repository host client locator limit).run state).1 = .error error ↔
      ((get host client Metadata.decode (client.address locator)).run state).1 = .error error := by
  rw [← metadata_eq_error_iff, repository, Action.fst_run_bind]
  cases ((metadata host client locator).run state).1 with
  | error other =>
    dsimp only
    rw [Action.fst_run_pure, Except.error.injEq, Except.error.injEq]
  | ok metadata =>
    dsimp only
    rw [Action.fst_run_bind, Action.fst_run_pure]
    exact ⟨nofun, nofun⟩

theorem tree_of_repository (hnamed : contents.WellNamed)
    (hpaths : limit = none → ∀ path ∈ contents.paths "", path.utf8ByteSize < UInt64.size)
    (h : Serves host client locator failing contents) {metadata : Metadata} {found : FileTree}
    {state : σ} (hfound : ((repository host client locator limit).run state).1 =
      .ok (metadata, found)) : found = contents.tree failing limit := by
  rw [repository, Action.fst_run_bind] at hfound
  cases hmetadata : ((Client.metadata host client locator).run state).1 with
  | error error =>
    rw [hmetadata] at hfound
    cases hfound
  | ok known =>
    rw [hmetadata] at hfound
    dsimp only at hfound
    rw [Action.fst_run_bind, Action.fst_run_pure, tree_of_serves hnamed hpaths h] at hfound
    exact (congrArg Prod.snd (Except.ok.inj hfound)).symm

end

/-- The tree of a repository is what its listings say, down to a limit, with folders that cannot be
listed empty. It makes no difference in which order the folders of a level are answered: no crawl
goes on forever, and where one ends its listings make the same tree. A lower limit on the listings
gives the files that are found under it. Only a request for what is known of the repository can make
all of this fail. Where no limit is set, paths are no longer than texts in memory can be. -/
theorem repository_served (hnamed : contents.WellNamed)
    (hpaths : limit = none → ∀ path ∈ contents.paths "", path.utf8ByteSize < UInt64.size)
    (hserves : Serves host client locator failing contents) :
    (∀ state, ((tree host client locator limit).run state).1 = contents.tree failing limit) ∧
    (∀ parallel occupies state,
      let step := Crawl.Step (listFolder host client locator) occupies (max 1 parallel)
      (WellFounded fun next crawl => step crawl next) ∧
        ∀ crawl, Crawl.Reachable (listFolder host client locator) occupies (max 1 parallel)
            (limit.getD manyLevels) state crawl →
          (∀ next, ¬ step crawl next) → crawl.listings.toTree = contents.tree failing limit) ∧
    (∀ levels, (∀ most ∈ limit, levels ≤ most) → ∀ state other,
      ((tree host client locator (some levels)).run state).1.flatten none =
        ((tree host client locator limit).run other).1.flatten (some levels)) ∧
    ∀ state,
      (∀ error, ((repository host client locator limit).run state).1 = .error error ↔
        ((get host client Metadata.decode (client.address locator)).run state).1 =
          .error error) ∧
      ∀ metadata found, ((repository host client locator limit).run state).1 =
        .ok (metadata, found) → found = contents.tree failing limit := by
  have htree := tree_of_serves hnamed hpaths hserves
  refine ⟨htree, fun parallel occupies state => ⟨Crawl.wellFounded_step, fun crawl => ?_⟩,
    fun levels hlevels state other => ?_, fun state => ⟨repository_eq_error_iff limit state, ?_⟩⟩
  · exact toTree_of_crawl hnamed hpaths hserves
  · rw [htree, tree_some_of_serves hnamed hserves, Contents.flatten_tree hlevels]
  · exact fun metadata found => tree_of_repository hnamed hpaths hserves

end Client

namespace Listed

def toJson (item : Listed) : Json :=
  .ofMembers [("name", .string item.name), ("path", .string item.path), ("type", .string item.kind),
    ("size", .ofNat item.size.toNat), ("download_url", .ofOption item.address?)]

theorem decode_toJson (item : Listed) (depth : Nat) : decode (depth + 1) item.toJson = .ok item := by
  rw [decode, toJson, Json.Decode.record_ofMembers]
  simp [Json.Decode.recordMembers, draftFields, Json.Decode.string, Json.Decode.required,
    Json.Decode.optional_ofOption, bind, Except.bind, pure, Except.pure]

theorem complete_toJson (item : Listed) : item.toJson.Complete := by
  refine .object fun member hmember => ?_
  simp only [List.mem_cons, List.not_mem_nil, or_false] at hmember
  rcases hmember with rfl | rfl | rfl | rfl | rfl
  · exact .string _
  · exact .string _
  · exact .string _
  · exact Json.complete_ofNat (Nat.le_sub_one_of_lt item.size.toNat_lt_size)
  · cases item.address? with
    | none => exact .null
    | some address => exact .string address

def page (items : List Listed) : Json := .ofList (items.map toJson)

theorem decode_page (items : List Listed) :
    Json.Decode.list decode Json.Decode.maxDepth (page items) = .ok items :=
  (Json.Decode.list_ofList id fun item _ => item.decode_toJson 125).trans
    (congrArg Except.ok (List.map_id items))

theorem complete_page (items : List Listed) : (page items).Complete := by
  refine .array fun json hjson => ?_
  obtain ⟨item, -, rfl⟩ := List.mem_map.1 hjson
  exact item.complete_toJson

end Listed

namespace Client

section

variable {surroundings : Surroundings} {client : Client} {locator : Locator}
  {failing : String → Bool} {contents : Contents}

/-- Whether a service answers with the page of each folder of a repository, or refuses to. -/
def Pages (surroundings : Surroundings) (client : Client) (locator : Locator)
    (failing : String → Bool) (contents : Contents) : Prop :=
  ∀ folder ∈ contents.fromRoot, ∃ request,
    client.request? (client.folderAddress locator folder.1) = some request ∧
      if failing folder.1 then surroundings.answer request = some ⟨404, .empty⟩
      else surroundings.answer request =
        some ⟨200, (Listed.page (folder.2.listing folder.1)).pretty.toUTF8⟩

theorem steady_refused {disk : Disk} {url : String} {request : Web.Request}
    {decode : Json.Decoder α} (hrequest : client.request? url = some request)
    (hanswer : surroundings.answer request = some ⟨404, .empty⟩) :
    World.Steady disk (get (.ofWorld surroundings) client decode url)
      (.error (.refused 404 (Web.Response.text ⟨404, .empty⟩))) := by
  unfold get
  rw [hrequest]
  refine (World.Steady.send surroundings.answer request).bind ?_
  rw [hanswer]
  exact .pure _

theorem serves_of_pages (h : Pages surroundings client locator failing contents) :
    Serves (.ofWorld surroundings) client locator failing contents := by
  intro folder hfolder state
  obtain ⟨request, hrequest, hanswer⟩ := h folder hfolder
  split_ifs at hanswer ⊢ with hfailing
  · obtain ⟨more, hrun⟩ := steady_refused hrequest hanswer state.sent
    rw [hrun]
    rfl
  · obtain ⟨more, hrun⟩ := steady_get hrequest hanswer (Listed.complete_page _)
      (Listed.decode_page _) state.sent
    rw [hrun]
    rfl

end

namespace Sample

def locator : Locator := ⟨"acme", "widgets"⟩

def client : Client := .ofToken none

def deep : Contents := .file "x.js" "file" 4 (some "https://raw.example/src/deep/x.js") .empty

def sources : Contents :=
  .file "app.js" "file" 6 (some "https://raw.example/src/app.js") (.folder "deep" 0 none deep .empty)

def contents : Contents :=
  .folder "src" 0 none sources
    (.folder "broken" 0 none (.file "y.js" "file" 4 none .empty)
      (.file "index.js" "file" 8 (some "https://raw.example/index.js") .empty))

def failing (path : String) : Bool := path = "broken"

def metadata : Metadata where
  name := "widgets"
  fullName := "acme/widgets"
  description? := none
  stars := 5
  forks := 1
  openIssues := 0
  license? := none
  isPrivate := true
  visibility? := none
  defaultBranch? := none
  languages := .empty
  contributors := []

/-- What the service answers with, by the paths of addresses. -/
def pages : List (List String × Json) :=
  [(["repos", "acme", "widgets"], metadata.toJson.sorted),
    (["repos", "acme", "widgets", "contents", ""], Listed.page (contents.listing "")),
    (["repos", "acme", "widgets", "contents", "src"], Listed.page (sources.listing "src")),
    (["repos", "acme", "widgets", "contents", "src", "deep"],
      Listed.page (deep.listing "src/deep"))]

def answer (segments : List String) : Option Web.Response :=
  match pages.lookup segments with
  | some page => some ⟨200, page.pretty.toUTF8⟩
  | none => some ⟨404, .empty⟩

def surroundings : Surroundings where
  answer request := answer request.url.path
  settings := []
  time := ⟨0, 0⟩
  elapsed := 0

theorem answer_surroundings (request : Web.Request) :
    surroundings.answer request = answer request.url.path := rfl

theorem exists_request {url path : String} {segments : List String}
    (hurl : url = "https://api.github.com/" ++ path) (hordinary : path.toList.all Url.isOrdinary)
    (hpath : Url.pathOf ('/' :: path.toList) = segments) : ∃ request,
      client.request? url = some request ∧ surroundings.answer request = answer segments := by
  have hrequest := request?_service hordinary
  rw [String.ofList_toList, ← hurl] at hrequest
  exact ⟨_, hrequest, by rw [answer_surroundings, hpath]⟩

theorem folderAddress_eq (path : String) : client.folderAddress locator path =
    "https://api.github.com/" ++ ("repos/acme/widgets/contents/" ++ path) := by
  simp [folderAddress, address, client, ofToken, defaultService, locator, ← String.append_assoc]

theorem fromRoot_contents : contents.fromRoot =
    [("", contents), ("src", sources), ("src/deep", deep),
      ("broken", .file "y.js" "file" 4 none .empty)] := by
  simp [Contents.fromRoot, Contents.folders, contents, sources, deep, Path.below]

theorem pages_contents : Pages surroundings client locator failing contents := by
  intro folder hfolder
  rw [fromRoot_contents] at hfolder
  simp only [List.mem_cons, List.not_mem_nil, or_false] at hfolder
  rcases hfolder with rfl | rfl | rfl | rfl
  · have hpath : Url.pathOf ('/' :: ("repos/acme/widgets/contents/" ++ "").toList) =
        ["repos", "acme", "widgets", "contents", ""] := by cbv
    exact exists_request (folderAddress_eq _) (by decide) hpath
  · have hpath : Url.pathOf ('/' :: ("repos/acme/widgets/contents/" ++ "src").toList) =
        ["repos", "acme", "widgets", "contents", "src"] := by cbv
    exact exists_request (folderAddress_eq _) (by decide) hpath
  · have hpath : Url.pathOf ('/' :: ("repos/acme/widgets/contents/" ++ "src/deep").toList) =
        ["repos", "acme", "widgets", "contents", "src", "deep"] := by cbv
    exact exists_request (folderAddress_eq _) (by decide) hpath
  · have hpath : Url.pathOf ('/' :: ("repos/acme/widgets/contents/" ++ "broken").toList) =
        ["repos", "acme", "widgets", "contents", "broken"] := by cbv
    exact exists_request (folderAddress_eq _) (by decide) hpath

theorem get_metadata (state : World) : ((get (.ofWorld surroundings) client Metadata.decode
    (client.address locator)).run state).1 = .ok metadata := by
  have hpath : Url.pathOf ('/' :: "repos/acme/widgets".toList) = ["repos", "acme", "widgets"] := by cbv
  have hurl : client.address locator = "https://api.github.com/" ++ "repos/acme/widgets" := by
    simp [address, client, ofToken, defaultService, locator]
  obtain ⟨request, hrequest, hanswer⟩ := exists_request hurl (by decide) hpath
  obtain ⟨more, hrun⟩ := steady_get hrequest hanswer metadata.plain_sorted.complete
    (metadata.decode_arranged .byName 124) state.sent
  rw [hrun]

theorem wellNamed_contents : contents.WellNamed := by
  have hname : ∀ name ∈ ["src", "app.js", "deep", "x.js", "broken", "y.js", "index.js"],
      Disk.IsName name := fun name hname => by
    fin_cases hname <;> exact ⟨by decide, by decide⟩
  simp only [List.forall_mem_cons] at hname
  simp [contents, sources, deep, Contents.WellNamed, Contents.names, hname]

def seen : FileTree :=
  [⟨"src", "src", .folder, 0, none,
      [⟨"src/app.js", "app.js", .file, 6, some "https://raw.example/src/app.js", []⟩,
        ⟨"src/deep", "deep", .folder, 0, none, []⟩]⟩,
    ⟨"broken", "broken", .folder, 0, none, []⟩,
    ⟨"index.js", "index.js", .file, 8, some "https://raw.example/index.js", []⟩]

theorem tree_contents : contents.tree failing (some 1) = seen := by
  simp [Contents.tree, Contents.visible, Contents.entries, contents, sources, deep, seen, failing,
    Path.below]

end Sample

/-- A repository with a folder that lies too deep and one that cannot be listed, with a limit and
without one. -/
theorem repository_sample_served :
    (∃ crawl, Crawl.Reachable (listFolder (.ofWorld Sample.surroundings) Sample.client Sample.locator)
      (fun _ => true) (max 1 4) 1 ⟨.empty, []⟩ crawl ∧ crawl.listings.toTree = Sample.seen) ∧
    (∃ metadata, ((repository (.ofWorld Sample.surroundings) Sample.client Sample.locator
      (some 1)).run ⟨.empty, []⟩).1 = .ok (metadata, Sample.seen)) ∧
    ((tree (.ofWorld Sample.surroundings) Sample.client Sample.locator none).run
      ⟨.empty, []⟩).1.flatten (some 1) = Sample.seen.flatten none := by
  have hserves := serves_of_pages Sample.pages_contents
  have hlimit : some 1 = none → ∀ path ∈ Sample.contents.paths "",
      path.utf8ByteSize < UInt64.size := fun h => absurd h (Option.some_ne_none 1)
  have hpaths : (none : Option Nat) = none → ∀ path ∈ Sample.contents.paths "",
      path.utf8ByteSize < UInt64.size := by
    rw [Contents.paths, (List.cons.inj Sample.fromRoot_contents).2]
    decide
  obtain ⟨-, hcrawls, -, hrepository⟩ := repository_served Sample.wellNamed_contents hlimit hserves
  obtain ⟨-, -, hflat, -⟩ := repository_served Sample.wellNamed_contents hpaths hserves
  obtain ⟨hends, hcrawl⟩ := hcrawls 4 (fun _ => true) ⟨.empty, []⟩
  obtain ⟨hfails, hfound⟩ := hrepository ⟨.empty, []⟩
  rw [Sample.tree_contents] at hcrawl hfound
  refine ⟨?_, ?_, ?_⟩
  · obtain ⟨crawl, hreachable, hlast⟩ := hends.has_min (Crawl.Reachable _ _ _ 1 ⟨.empty, []⟩) ⟨_, .refl⟩
    exact ⟨crawl, hreachable, hcrawl crawl hreachable fun next hstep =>
      hlast next (hreachable.tail hstep) hstep⟩
  · cases hresult : ((repository (.ofWorld Sample.surroundings) Sample.client Sample.locator
        (some 1)).run ⟨.empty, []⟩).1 with
    | error error =>
      have herror := (hfails error).1 hresult
      rw [Sample.get_metadata] at herror
      cases herror
    | ok result =>
      obtain ⟨metadata, found⟩ := result
      exact ⟨metadata, by rw [hfound metadata found hresult]⟩
  · have hlower : ∀ most ∈ (none : Option Nat), 1 ≤ most :=
      fun most hmost => absurd hmost (Option.not_mem_none most)
    rw [← hflat 1 hlower ⟨.empty, []⟩, tree_some_of_serves Sample.wellNamed_contents hserves,
      Sample.tree_contents]

end Client

end CodeGraph.Repository
