import CodeGraph.Command.Analyze
import CodeGraph.Proofs.Command.Robust
import CodeGraph.Proofs.Host.Orderly

/-! What an analysis leaves behind. Everything that can fail before a report is complete only looks
and asks. Of the files, a complete report changes the one that it is handed over to, and the one that
the graph of a repository is kept in. -/
namespace CodeGraph

open CodeGraph.Action (Leaves)
open Files (OnlyAt SameFiles)

variable {σ : Type} {host : Host (StateM σ)} {files : Files σ}

theorem Host.Orderly.readText (h : host.Orderly files) (path : String) :
    Leaves files.image (host.readText path) := by
  refine (h.read path).bind fun result => ?_
  cases result with
  | error error => exact .pure _
  | ok bytes =>
    dsimp only
    cases String.fromUTF8? bytes <;> exact .pure _

namespace Settings

theorem leaves_among (h : host.Orderly files) (added : List (String × String)) (name : String) :
    Leaves files.image (among host added name) :=
  (h.setting name).bind fun _ => .pure _

theorem leaves_textOf (h : host.Orderly files) (added : List (String × String)) (piece : Piece) :
    Leaves files.image (textOf host added piece) := by
  cases piece with
  | text chars => exact .pure _
  | setting name => exact (leaves_among h added name).bind fun _ => .pure _

theorem leaves_assign (h : host.Orderly files) (added : List (String × String))
    (assignments : List Assignment) : Leaves files.image (assign host added assignments) := by
  induction assignments generalizing added with
  | nil => exact .pure _
  | cons assignment rest ih =>
    rw [assign]
    refine (leaves_among h added assignment.name).bind fun value? => ?_
    cases value? with
    | some value => exact ih added
    | none => exact (Leaves.mapM (leaves_textOf h added) _).bind fun texts => ih _

theorem leaves_lookup (h : host.Orderly files) (name : String) :
    Leaves files.image (lookup host name) := by
  refine (h.setting name).bind fun value? => ?_
  cases value? with
  | some value => exact .pure _
  | none =>
    refine (h.readNearest fileName).bind fun content? => ?_
    cases content? with
    | none => exact .pure _
    | some content => exact (leaves_assign h [] _).bind fun added => .pure _

end Settings

theorem Config.leaves_load (h : host.Orderly files) (folder : String) :
    Leaves files.image (Config.load host folder) := by
  refine (h.hasItem _).bind fun isThere => ?_
  cases isThere with
  | false => exact .pure _
  | true =>
    refine (h.readText _).bind fun result => ?_
    cases result <;> exact .pure _

namespace Repository.Client

variable {client : Client} {locator : Locator}

theorem leaves_get (h : host.Orderly files) (client : Client) (decode : Json.Decoder α)
    (url : String) : Leaves files.image (get host client decode url) := by
  unfold get
  cases client.request? url with
  | none => exact .pure _
  | some request => exact (h.send request).bind fun response? => .pure _

theorem leaves_metadata (h : host.Orderly files) :
    Leaves files.image (metadata host client locator) := by
  refine (leaves_get h client _ _).bind fun result => ?_
  cases result with
  | error error => exact .pure _
  | ok metadata =>
    refine (leaves_get h client _ _).bind fun languages => ?_
    exact (leaves_get h client _ _).bind fun contributors => .pure _

theorem leaves_listFolder (h : host.Orderly files) (path : String) :
    Leaves files.image (listFolder host client locator path) :=
  (leaves_get h client _ _).bind fun _ => .pure _

theorem leaves_listLevels {list : String → StateM σ (List Listed)}
    (h : ∀ path, Leaves files.image (list path)) (levels : Nat) (paths : List String)
    (listings : Listings) : Leaves files.image (listLevels list levels paths listings) := by
  have hlevel : ∀ paths : List String,
      Leaves files.image (paths.mapM fun path => return (path, ← list path)) :=
    fun paths => Leaves.mapM (fun path => (h path).bind fun items => .pure _) paths
  induction levels generalizing paths listings with
  | zero =>
    rw [listLevels]
    split_ifs
    · exact .pure _
    · exact (hlevel paths).bind fun level => .pure _
  | succ levels ih =>
    rw [listLevels]
    split_ifs
    · exact .pure _
    · exact (hlevel paths).bind fun level => ih _ _

theorem leaves_repository (h : host.Orderly files) (maxDepth : Option Nat) :
    Leaves files.image (repository host client locator maxDepth) := by
  refine (leaves_metadata h).bind fun result => ?_
  cases result with
  | error error => exact .pure _
  | ok metadata =>
    refine Leaves.bind ?_ fun tree => .pure _
    exact (leaves_listLevels (leaves_listFolder h) _ _ _).bind fun listings => .pure _

end Repository.Client

namespace Fetcher

theorem leaves_ofFolder (h : host.Orderly files) (folder : String) (file : Entry) :
    Leaves files.image ((ofFolder host folder).fetch file) := by
  refine (h.read _).bind fun result => ?_
  cases result <;> exact .pure _

theorem leaves_ofWeb (h : host.Orderly files) (token? : Option String) (file : Entry) :
    Leaves files.image ((ofWeb host token?).fetch file) := by
  unfold ofWeb
  dsimp only
  cases file.handle? with
  | none => exact .pure _
  | some url =>
    dsimp only
    cases request? token? url with
    | none => exact .pure _
    | some request =>
      refine (h.send request).bind fun response? => ?_
      cases response? with
      | none => exact .pure _
      | some response =>
        dsimp only
        split_ifs <;> exact .pure _

end Fetcher

namespace Analysis

open Repository (Locator)

variable {parse : Parse} {config : Config} {fetcher : Fetcher (StateM σ)}

theorem leaves_outlineOf (h : ∀ file, Leaves files.image (fetcher.fetch file))
    (scope : ComplexityScope) (file : Entry) :
    Leaves files.image (outlineOf parse scope fetcher file) := by
  unfold outlineOf
  split_ifs
  · exact (h file).map _
  · exact .pure _

theorem leaves_overrun? (h : Leaves files.image fetcher.elapsed) (outlines : List Outline) :
    Leaves files.image (overrun? config fetcher outlines) := by
  unfold overrun?
  split_ifs
  · exact h.bind fun elapsed => .pure _
  · exact .pure _

theorem leaves_run (h : ∀ file, Leaves files.image (fetcher.fetch file))
    (helapsed : Leaves files.image fetcher.elapsed) (tree : FileTree) :
    Leaves files.image (run parse config fetcher tree) := by
  unfold run
  dsimp only
  split_ifs
  · exact .pure _
  · refine (Leaves.mapM (leaves_outlineOf h config.scope) _).bind fun outlines => ?_
    refine (leaves_overrun? helapsed outlines).bind fun late? => ?_
    cases late? <;> exact .pure _

theorem leaves_ofFolder (h : host.Orderly files) (folder : String) :
    Leaves files.image (ofFolder parse host config folder) := by
  refine (h.survey folder).bind fun survey? => ?_
  cases survey? with
  | none => exact .pure _
  | some survey =>
    dsimp only
    cases Scan.tree folder survey config.maxDepth with
    | error path => exact .pure _
    | ok tree =>
      exact (leaves_run (Fetcher.leaves_ofFolder h folder) h.elapsed tree).bind fun result => .pure _

theorem leaves_ofTree (h : host.Orderly files) (path : String) (tree : FileTree) :
    Leaves files.image (ofTree parse host config path tree) := by
  unfold ofTree
  split_ifs
  · refine (Settings.leaves_lookup h tokenName).bind fun token? => ?_
    exact (leaves_run (Fetcher.leaves_ofWeb h token?) h.elapsed _).bind fun result => .pure _
  · exact (leaves_run (Fetcher.leaves_ofFolder h _) h.elapsed _).bind fun result => .pure _

theorem leaves_ofDocument (h : host.Orderly files) (path : String) :
    Leaves files.image (ofDocument parse host config path) := by
  refine (h.readText path).bind fun result => ?_
  cases result with
  | error error => exact .pure _
  | ok text =>
    dsimp only
    cases Json.Decode.text FileTree.decode (.ofText text) with
    | error fault => exact .pure _
    | ok tree => exact leaves_ofTree h path tree

theorem leaves_anew (h : host.Orderly files) (locator : Locator) :
    Leaves files.image (anew parse host config locator) := by
  refine (Settings.leaves_lookup h tokenName).bind fun token? => ?_
  refine (Repository.Client.leaves_repository h _).bind fun result => ?_
  cases result with
  | error error => exact .pure _
  | ok found =>
    refine (leaves_run (Fetcher.leaves_ofWeb h _) h.elapsed _).bind fun result => ?_
    cases result <;> exact .pure _

end Analysis

namespace Cache

variable {state start : σ} {root key : String}

theorem leaves_load (h : host.Orderly files) (root key : String) :
    Leaves files.image (load host root key) := by
  refine (h.hasItem _).bind fun isThere => ?_
  cases isThere with
  | false => exact .pure _
  | true =>
    refine (h.readText _).bind fun result => ?_
    cases result <;> exact .pure _

/-- Whether the file for a key is found at a place, once the folder for graphs has been made. -/
def FoundAt (host : Host (StateM σ)) (files : Files σ) (root key : String) (state : σ)
    (place : files.Place) : Prop :=
  ∃ start, files.image start = files.image state ∧
    files.Leads (files.image ((host.makeFolders (folder root)).run start).2) (path root key) place

theorem FoundAt.of_image (himage : files.image start = files.image state) {place : files.Place}
    (h : FoundAt host files root key start place) : FoundAt host files root key state place := by
  obtain ⟨first, hfirst, hleads⟩ := h
  exact ⟨first, hfirst.trans himage, hleads⟩

/-- Saving changes no file but the one for the key. -/
theorem onlyAt_save (h : host.Orderly files) (root : String) (entry : CachedGraph) (state : σ) :
    files.OnlyAt (FoundAt host files root entry.key state) state
      ((save host root entry).run state).2 := by
  refine OnlyAt.bind ((h.makeFolders _ state).onlyAt _) fun made => ?_
  cases made with
  | error error => exact .refl _ _
  | ok =>
    refine OnlyAt.bind ((h.write _ _ _).mono fun place hleads => ?_) fun written => ?_
    · exact ⟨state, rfl, hleads⟩
    · cases written <;> exact .refl _ _

end Cache

namespace Target

variable {root : String} {target? : Option String} {locator : Repository.Locator} {state : σ}

theorem leaves_classify (h : host.Orderly files) (root : String) (target? : Option String) :
    Leaves files.image (classify host root target?) := by
  cases target? with
  | none => exact .pure _
  | some target =>
    refine (h.hasFolder target).bind fun isFolder => ?_
    cases isFolder with
    | true => exact .pure _
    | false => cases Repository.Locator.ofText? target <;> exact .pure _

/-- Whether a target names a repository, and there is no folder of that name. -/
def Names (host : Host (StateM σ)) (target? : Option String) (locator : Repository.Locator)
    (state : σ) : Prop :=
  ∃ target, target? = some target ∧ ((host.hasFolder target).run state).1 = false ∧
    Repository.Locator.ofText? target = some locator

/-- Only a target that names a repository is taken for one. -/
theorem names_of_classify
    (h : ((classify host root target?).run state).1 = .ok (.repository locator)) :
    Names host target? locator state := by
  cases target? with
  | none => cases h
  | some target =>
    refine ⟨target, rfl, ?_⟩
    rw [classify, Action.fst_run_bind] at h
    cases hfolder : ((host.hasFolder target).run state).1 with
    | true =>
      rw [hfolder, if_pos rfl] at h
      cases h
    | false =>
      rw [hfolder, if_neg Bool.false_ne_true] at h
      cases hlocator : Repository.Locator.ofText? target with
      | none =>
        rw [hlocator] at h
        cases h
      | some found =>
        rw [hlocator] at h
        cases h
        exact ⟨rfl, rfl⟩

theorem Names.unique {other : Repository.Locator} (h : Names host target? locator state)
    (hother : Names host target? other state) : other = locator := by
  obtain ⟨target, rfl, -, hlocator⟩ := h
  obtain ⟨_, ⟨⟩, -, hsame⟩ := hother
  exact Option.some.inj (hsame.symm.trans hlocator)

end Target

namespace Analysis

open Repository (Locator)

variable {parse : Parse} {config : Config} {root : String} {locator : Locator} {refresh : Bool}
  {start state : σ} {result : Except Failure Report × σ}

/-- Whether a report on a repository is finished, and no file has changed but the one that its graph
is kept in. -/
def LeavesGraph (host : Host (StateM σ)) (files : Files σ) (root : String) (locator : Locator)
    (state : σ) (result : Except Failure Report × σ) : Prop :=
  (∃ report, result.1 = .ok report) ∧
    files.OnlyAt (Cache.FoundAt host files root locator.key state) state result.2

theorem LeavesGraph.of_image (himage : files.image start = files.image state)
    (h : LeavesGraph host files root locator start result) :
    LeavesGraph host files root locator state result :=
  ⟨h.1, ((SameFiles.of_image himage).onlyAt _).trans (h.2.mono fun _ => .of_image himage)⟩

variable (parse config root locator state) in
/-- A new analysis fails before anything is kept. -/
theorem afresh_cases (h : host.Orderly files) :
    files.image ((afresh parse host root config locator).run state).2 = files.image state ∨
      LeavesGraph host files root locator state
        ((afresh parse host root config locator).run state) := by
  have himage : files.image ((anew parse host config locator).run state).2 = files.image state :=
    leaves_anew h locator state
  rw [afresh_eq, StateT.run_bind]
  generalize (anew parse host config locator).run state = ran at himage ⊢
  obtain ⟨found?, next⟩ := ran
  dsimp only [bind] at himage ⊢
  cases found? with
  | error failure => exact .inl himage
  | ok found =>
    -- whether saving succeeds is not asked, so that nothing can fail any more
    refine .inr (.of_image himage ⟨⟨reportOn found, rfl⟩, ?_⟩)
    refine OnlyAt.bind ((SameFiles.of_image (h.now next)).onlyAt _) fun time => ?_
    refine OnlyAt.bind ?_ fun saved => .refl _ _
    exact (Cache.onlyAt_save h root _ _).mono fun _ => .of_image (h.now next)

variable (parse config root locator refresh state) in
/-- Looking for a kept graph leaves everything as it is, and so does a report on it. -/
theorem ofRepository_cases (h : host.Orderly files) :
    files.image ((ofRepository parse host root config locator refresh).run state).2 =
        files.image state ∨
      LeavesGraph host files root locator state
        ((ofRepository parse host root config locator refresh).run state) := by
  unfold ofRepository
  split_ifs
  · exact afresh_cases parse config root locator state h
  · have himage := Cache.leaves_load h root locator.key state
    rw [StateT.run_bind]
    generalize (Cache.load host root locator.key).run state = ran at himage ⊢
    obtain ⟨loaded, next⟩ := ran
    dsimp only [bind] at himage ⊢
    cases kept? config loaded with
    | some entry => exact .inl himage
    | none =>
      exact (afresh_cases parse config root locator next h).imp (·.trans himage) (.of_image himage)

end Analysis

namespace AnalyzeRequest

variable {parse : Analysis.Parse} {root : String} {config : Config} {request : AnalyzeRequest}
  {locator : Repository.Locator} {state : σ}

def AsksFor (host : Host (StateM σ)) (request : AnalyzeRequest) (locator : Repository.Locator)
    (state : σ) : Prop :=
  request.tree? = none ∧ Target.Names host request.target? locator state

variable (parse root config request state) in
/-- Making a report leaves everything as it is, unless it is a finished one on a repository. -/
theorem report_cases (h : host.Orderly files) :
    files.image ((request.report parse host root config).run state).2 = files.image state ∨
      ∃ locator, request.AsksFor host locator state ∧
        Analysis.LeavesGraph host files root locator state
          ((request.report parse host root config).run state) := by
  unfold report
  cases htree : request.tree? with
  | some path => exact .inl (Analysis.leaves_ofDocument h path state)
  | none =>
    have himage := Target.leaves_classify h root request.target? state
    have hnames : ∀ locator, ((Target.classify host root request.target?).run state).1 =
        .ok (.repository locator) → Target.Names host request.target? locator state :=
      fun locator => Target.names_of_classify
    dsimp only
    rw [StateT.run_bind]
    generalize (Target.classify host root request.target?).run state = ran at himage hnames ⊢
    obtain ⟨target?, next⟩ := ran
    dsimp only [bind] at himage ⊢
    rcases target? with failure | target
    · exact .inl himage
    · cases target with
      | folder path => exact .inl ((Analysis.leaves_ofFolder h path next).trans himage)
      | repository locator =>
        have hcases :=
          Analysis.ofRepository_cases parse config root locator request.refresh next h
        exact hcases.imp (·.trans himage) fun hgraph =>
          ⟨locator, ⟨htree, hnames locator rfl⟩, hgraph.of_image himage⟩

def WritesAt (files : Files σ) (request : AnalyzeRequest) (state : σ) (place : files.Place) :
    Prop :=
  ∃ path, request.output? = some path ∧ files.Leads (files.image state) path place

variable (request state) in
/-- Handing a report over changes the file for the output only. -/
theorem onlyAt_deliver (h : host.Orderly files) (report : Report) :
    files.OnlyAt (request.WritesAt files state) state
      ((request.deliver host report).run state).2 := by
  unfold deliver
  cases houtput : request.output? with
  | none => exact .refl _ _
  | some path =>
    refine OnlyAt.bind ((h.write path _ state).mono fun place hleads => ?_) fun written => ?_
    · exact ⟨path, houtput, hleads⟩
    · cases written <;> exact .refl _ _

section

variable {m : Type → Type} [Monad m]

/-- Everything up to the complete report. -/
def prepare (parse : Analysis.Parse) (host : Host m) (root : String) (request : AnalyzeRequest) :
    m (Except Failure Report) := do
  match ← Config.load host root with
  | .error error => return .error (.ofConfigLoad error)
  | .ok config => request.report parse host root config

/-- A run makes the report, and then hands it over. -/
theorem run_eq [LawfulMonad m] (parse : Analysis.Parse) (host : Host m) (root : String)
    (request : AnalyzeRequest) :
    request.run parse host root = (do
      match ← request.prepare parse host root with
      | .error failure => return .error failure
      | .ok report => request.deliver host report) := by
  unfold run prepare
  rw [bind_assoc]
  congr 1
  funext result
  cases result with
  | error error => simp
  | ok config => rfl

end

variable (parse root request state) in
/-- All that is read before a report is begun leaves everything as it is. -/
theorem prepare_cases (h : host.Orderly files) :
    let loaded := ((Config.load host root).run state).2
    let reported := (request.prepare parse host root).run state
    files.image reported.2 = files.image state ∨
      ∃ locator, request.AsksFor host locator loaded ∧
        Analysis.LeavesGraph host files root locator state reported := by
  intro loaded reported
  have himage := Config.leaves_load h root state
  unfold reported loaded prepare
  rw [StateT.run_bind]
  generalize (Config.load host root).run state = ran at himage ⊢
  obtain ⟨config?, next⟩ := ran
  dsimp only [bind] at himage ⊢
  cases config? with
  | error error => exact .inl himage
  | ok config =>
    refine (report_cases parse root config request next h).imp (·.trans himage) ?_
    rintro ⟨locator, hasks, hgraph⟩
    exact ⟨locator, hasks, hgraph.of_image himage⟩

variable {failure : Failure}

/-- A report that leaves a graph is a complete one. -/
theorem image_of_prepare_eq_error (h : host.Orderly files)
    (hfailure : ((request.prepare parse host root).run state).1 = .error failure) :
    files.image ((request.prepare parse host root).run state).2 = files.image state := by
  refine (prepare_cases parse root request state h).resolve_right ?_
  rintro ⟨locator, -, ⟨report, hreport⟩, -⟩
  cases hreport.symm.trans hfailure

/-- Only a file can fail to be written. -/
theorem of_deliver_eq_error {report : Report}
    (h : ((request.deliver host report).run state).1 = .error failure) :
    ∃ path, request.output? = some path ∧ failure = .unwritable path := by
  unfold deliver at h
  cases houtput : request.output? with
  | none =>
    rw [houtput] at h
    cases h
  | some path =>
    rw [houtput] at h
    dsimp only at h
    rw [Action.fst_run_bind] at h
    cases hwritten : ((host.write path report.toText.toUTF8).run state).1 with
    | ok =>
      rw [hwritten] at h
      cases h
    | error error =>
      rw [hwritten] at h
      cases h
      exact ⟨path, rfl, rfl⟩

variable (host parse root request state) in
/-- A run ends with the failure of its report, or hands the report over. -/
theorem run_cases :
    let reported := (request.prepare parse host root).run state
    let result := (request.run parse host root).run state
    (∃ failure, reported.1 = .error failure ∧ result = (.error failure, reported.2)) ∨
      ∃ report, reported.1 = .ok report ∧
        result = (request.deliver host report).run reported.2 := by
  intro reported result
  unfold result reported
  rw [run_eq, StateT.run_bind]
  obtain ⟨report?, next⟩ := (request.prepare parse host root).run state
  cases report? with
  | error failure => exact .inl ⟨failure, rfl, rfl⟩
  | ok report => exact .inr ⟨report, rfl, rfl⟩

variable (parse root request state) in
/-- Once its report has come out, a run changes the file for the output only. -/
theorem onlyAt_run (h : host.Orderly files) :
    let reported := (request.prepare parse host root).run state
    files.OnlyAt (request.WritesAt files reported.2) reported.2
      ((request.run parse host root).run state).2 := by
  intro reported
  obtain ⟨failure, -, hresult⟩ | ⟨report, -, hresult⟩ := run_cases host parse root request state
  · rw [hresult]
    exact .refl _ _
  · rw [hresult]
    exact onlyAt_deliver request reported.2 h report

/-- A run that fails before its report is complete leaves everything as it is, and a complete report
can only fail to be written. Of the files, a run on a folder or on the tree of a document changes at
most the one for its output, and a run on a repository that one and the one for its graph. -/
theorem run_traceless (h : host.Orderly files) (parse : Analysis.Parse) (root : String)
    (request : AnalyzeRequest) (state : σ) :
    let loaded := ((Config.load host root).run state).2
    let reported := (request.prepare parse host root).run state
    let result := (request.run parse host root).run state
    (∀ failure, reported.1 = .error failure →
        result.1 = .error failure ∧ files.image result.2 = files.image state) ∧
      (∀ failure, result.1 = .error failure → reported.1 = .error failure ∨
        ∃ path, request.output? = some path ∧ failure = .unwritable path) ∧
      ((∀ locator, ¬ request.AsksFor host locator loaded) →
        files.OnlyAt (request.WritesAt files state) state result.2) ∧
      ∀ locator, request.AsksFor host locator loaded →
        files.OnlyAt (fun place => request.WritesAt files reported.2 place ∨
          Cache.FoundAt host files root locator.key state place) state result.2 := by
  intro loaded reported result
  have hreported : files.image reported.2 = files.image state ∨ ∃ locator,
      request.AsksFor host locator loaded ∧
        Analysis.LeavesGraph host files root locator state reported :=
    prepare_cases parse root request state h
  have hrun : (∃ failure, reported.1 = .error failure ∧ result = (.error failure, reported.2)) ∨
      ∃ report, reported.1 = .ok report ∧ result = (request.deliver host report).run reported.2 :=
    run_cases host parse root request state
  have hwrites : files.OnlyAt (request.WritesAt files reported.2) reported.2 result.2 :=
    onlyAt_run parse root request state h
  refine ⟨fun failure hfailure => ?_, fun failure hfailure => ?_, fun hnone => ?_,
    fun locator hasks => ?_⟩
  · obtain ⟨other, hother, hresult⟩ | ⟨report, hreport, -⟩ := hrun
    · obtain rfl : failure = other := Except.error.inj (hfailure.symm.trans hother)
      rw [hresult]
      exact ⟨rfl, image_of_prepare_eq_error h hfailure⟩
    · cases hreport.symm.trans hfailure
  · obtain ⟨other, hother, hresult⟩ | ⟨report, -, hresult⟩ := hrun
    · rw [hresult] at hfailure
      cases hfailure
      exact .inl hother
    · rw [hresult] at hfailure
      exact .inr (of_deliver_eq_error hfailure)
  · have himage := hreported.resolve_right fun ⟨locator, hasks, _⟩ => hnone locator hasks
    have hsame := (SameFiles.of_image himage).onlyAt (request.WritesAt files state)
    refine hsame.trans (hwrites.mono fun place hplace => ?_)
    rwa [WritesAt, himage] at hplace
  · refine .trans ?_ (hwrites.mono fun _ => .inl)
    obtain himage | ⟨other, hother, -, hgraph⟩ := hreported
    · exact (SameFiles.of_image himage).onlyAt _
    · obtain rfl := hasks.2.unique hother.2
      exact hgraph.mono fun _ => .inr

open Analysis (deaf noParse)

def missing : AnalyzeRequest := ⟨none, some "tree.json", some "graph.json", false⟩

def here : AnalyzeRequest := ⟨none, none, some "graph.json", false⟩

def away : AnalyzeRequest :=
  ⟨some "https://github.com/acme/widgets", none, some "graph.json", false⟩

theorem ordinary_configName : Disk.Ordinary Config.fileName where
  ne_empty := by decide
  slash := by decide
  dot := by decide
  up := by decide
  error := Disk.nameError?_eq_none (by decide) (by decide)

theorem load_empty :
    (Config.load (.ofWorld deaf) "").run ⟨.empty, []⟩ = (.ok default, ⟨.empty, []⟩) := by
  have hitem : Disk.empty.hasItem (Path.joined "" Config.fileName) = false := by
    have hplace : Disk.empty.place (Path.joined "" Config.fileName) = .ok [Config.fileName] := by
      have hnames : Disk.names "" = [] := by decide
      rw [Disk.place_joined _ ordinary_configName.toIsName, hnames]
      exact Disk.follow_ordinary ordinary_configName rfl
    rw [Disk.hasItem_of_place hplace]
    rfl
  have hrun : ((Host.ofWorld deaf).hasItem (Path.joined "" Config.fileName)).run ⟨.empty, []⟩ =
      (false, ⟨.empty, []⟩) := congrArg (·, _) hitem
  unfold Config.load
  rw [StateT.run_bind, hrun]
  rfl

theorem ofDocument_empty :
    (Analysis.ofDocument noParse (.ofWorld deaf) default "tree.json").run ⟨.empty, []⟩ =
      (.error (.noTree "tree.json"), ⟨.empty, []⟩) := by
  have hread : Disk.empty.read "tree.json" = .error .missing := by cbv
  have hrun : ((Host.ofWorld deaf).read "tree.json").run ⟨.empty, []⟩ =
      (.error .missing, ⟨.empty, []⟩) := congrArg (·, _) hread
  have htext : ((Host.ofWorld deaf).readText "tree.json").run ⟨.empty, []⟩ =
      (.error .missing, ⟨.empty, []⟩) := by
    rw [Host.readText, StateT.run_bind, hrun]
    rfl
  rw [Analysis.ofDocument, StateT.run_bind, htext]
  rfl

theorem prepare_missing :
    (missing.prepare noParse (.ofWorld deaf) "").run ⟨.empty, []⟩ =
      (.error (.noTree "tree.json"), ⟨.empty, []⟩) := by
  rw [prepare, StateT.run_bind, load_empty]
  exact ofDocument_empty

theorem hasFolder_away : Disk.empty.hasFolder "https://github.com/acme/widgets" = false := by
  have hparts : Disk.parts "https://github.com/acme/widgets" =
      ["https:", "", "github.com", "acme"] ++ ["widgets"] := by decide
  have hnames : Disk.names "https://github.com/acme/widgets" =
      ["https:"] ++ ["github.com", "acme", "widgets"] := by decide
  have hfirst : Disk.Ordinary "https:" :=
    { ne_empty := by decide, slash := by decide, dot := by decide, up := by decide
      error := Disk.nameError?_eq_none (by decide) (by decide) }
  have hnothing : Disk.empty.sight ["https:"] ≠ .folder := by nofun
  have hplace : Disk.empty.place "https://github.com/acme/widgets" = .error .missing := by
    rw [Disk.place_of_parts hparts ⟨by decide, by decide⟩, hnames, Disk.follow_append,
      Disk.follow_ordinary hfirst rfl]
    change Disk.empty.follow ["https:"] ["github.com", "acme", "widgets"] = _
    exact Disk.follow_of_not_folder hnothing
  exact Disk.hasFolder_of_error hplace

theorem run_traceless_empty :
    let world : World := ⟨.empty, []⟩
    let failed := (missing.run noParse (.ofWorld deaf) "").run world
    let near := (here.run noParse (.ofWorld deaf) "").run world
    let far := (away.run noParse (.ofWorld deaf) "").run world
    let reported := (away.prepare noParse (.ofWorld deaf) "").run world
    (failed.1 = .error (.noTree "tree.json") ∧ failed.2.disk = .empty) ∧
      Files.ofDisk.OnlyAt (here.WritesAt .ofDisk world) world near.2 ∧
      Files.ofDisk.OnlyAt (fun names => away.WritesAt .ofDisk reported.2 names ∨
        Cache.FoundAt (.ofWorld deaf) .ofDisk "" "github.com/acme/widgets" world names)
        world far.2 := by
  have horderly := Host.orderly_ofWorld deaf
  have hmissing := congrArg Prod.fst prepare_missing
  obtain ⟨hfailed, -, -, -⟩ := run_traceless horderly noParse "" missing ⟨.empty, []⟩
  obtain ⟨-, -, hnear, -⟩ := run_traceless horderly noParse "" here ⟨.empty, []⟩
  obtain ⟨-, -, -, hfar⟩ := run_traceless horderly noParse "" away ⟨.empty, []⟩
  rw [load_empty] at hfar
  refine ⟨hfailed _ hmissing, hnear ?_, ?_⟩
  · rintro locator ⟨-, _, ⟨⟩, -⟩
  · exact hfar ⟨"acme", "widgets"⟩ ⟨rfl, _, rfl, hasFolder_away, by decide⟩

end AnalyzeRequest

end CodeGraph
