import CodeGraph.Command.Analyze
import CodeGraph.Proofs.Host.Agreement

/-! Analyses of a repository that learn the same give the same graph, however much time they have. -/
namespace CodeGraph

open World

variable {first second : Surroundings} {disk other : Disk}

namespace Repository.Client

variable {client : Client} {locator : Locator}

theorem agree_get (h : Alike first second disk other) (client : Client) (decode : Json.Decoder α)
    (url : String) : Agree Eq disk other (get (.ofWorld first) client decode url)
      (get (.ofWorld second) client decode url) := by
  unfold get
  cases client.request? url with
  | none => exact .pure rfl
  | some request => exact (h.send request).bind_eq fun response? => .pure rfl

theorem agree_metadata (h : Alike first second disk other) :
    Agree Eq disk other (metadata (.ofWorld first) client locator)
      (metadata (.ofWorld second) client locator) := by
  refine (agree_get h client _ _).bind_eq fun result => ?_
  cases result with
  | error error => exact .pure rfl
  | ok metadata =>
    refine (agree_get h client _ _).bind_eq fun languages => ?_
    exact (agree_get h client _ _).bind_eq fun contributors => .pure rfl

theorem agree_listFolder (h : Alike first second disk other) (path : String) :
    Agree Eq disk other (listFolder (.ofWorld first) client locator path)
      (listFolder (.ofWorld second) client locator path) :=
  (agree_get h client _ _).bind_eq fun _ => .pure rfl

theorem agree_listLevels {list then_ : String → StateM World (List Listed)}
    (h : ∀ path, Agree Eq disk other (list path) (then_ path)) (levels : Nat)
    (paths : List String) (listings : Listings) :
    Agree Eq disk other (listLevels list levels paths listings)
      (listLevels then_ levels paths listings) := by
  have hlevel : ∀ paths : List String,
      Agree Eq disk other (paths.mapM fun path => return (path, ← list path))
        (paths.mapM fun path => return (path, ← then_ path)) :=
    fun paths => .mapM fun path => (h path).bind_eq fun items => .pure rfl
  induction levels generalizing paths listings with
  | zero =>
    rw [listLevels, listLevels]
    split_ifs
    · exact .pure rfl
    · exact (hlevel paths).bind_eq fun level => .pure rfl
  | succ levels ih =>
    rw [listLevels, listLevels]
    split_ifs
    · exact .pure rfl
    · exact (hlevel paths).bind_eq fun level => ih _ _

variable (client locator) in
theorem agree_tree (h : Alike first second disk other) (maxDepth : Option Nat) :
    Agree Eq disk other (tree (.ofWorld first) client locator maxDepth)
      (tree (.ofWorld second) client locator maxDepth) :=
  (agree_listLevels (agree_listFolder h) _ _ _).bind_eq fun _ => .pure rfl

theorem agree_repository (h : Alike first second disk other) (maxDepth : Option Nat) :
    Agree Eq disk other (repository (.ofWorld first) client locator maxDepth)
      (repository (.ofWorld second) client locator maxDepth) := by
  refine (agree_metadata h).bind_eq fun result => ?_
  cases result with
  | error error => exact .pure rfl
  | ok metadata => exact (agree_tree client locator h maxDepth).bind_eq fun tree => .pure rfl

/-- What is known of a repository does not depend on how deep its folders are listed. -/
theorem agree_repository_metadata (h : Alike first second disk other)
    (maxDepth changed : Option Nat) :
    Agree (fun value result => result.map (·.1) = value.map (·.1)) disk other
      (repository (.ofWorld first) client locator maxDepth)
      (repository (.ofWorld second) client locator changed) := by
  refine (agree_metadata h).bind_eq fun result => ?_
  cases result with
  | error error => exact .pure rfl
  | ok metadata =>
    obtain ⟨tree, -, htree, -, -⟩ := agree_tree client locator (Alike.refl first disk) maxDepth
    obtain ⟨deeper, -, hdeeper, -, -⟩ := agree_tree client locator (Alike.refl second other) changed
    exact ⟨_, _, htree.bind (.pure _), hdeeper.bind (.pure _), rfl⟩

end Repository.Client

theorem Fetcher.agree_fetch (h : Alike first second disk other) (token? : Option String)
    (file : Entry) : Agree Eq disk other ((ofWeb (.ofWorld first) token?).fetch file)
      ((ofWeb (.ofWorld second) token?).fetch file) := by
  unfold ofWeb
  dsimp only
  cases file.handle? with
  | none => exact .pure rfl
  | some url =>
    dsimp only
    cases request? token? url with
    | none => exact .pure rfl
    | some request =>
      refine (h.send request).bind_eq fun response? => ?_
      cases response? with
      | none => exact .pure rfl
      | some response =>
        dsimp only
        split_ifs <;> exact .pure rfl

namespace Analysis

variable {parse : Parse} {config changed : Config} {locator : Repository.Locator} {tree : FileTree}

theorem agree_outlineOf (h : Alike first second disk other) (scope : ComplexityScope)
    (token? : Option String) (file : Entry) :
    Agree Eq disk other (outlineOf parse scope (.ofWeb (.ofWorld first) token?) file)
      (outlineOf parse scope (.ofWeb (.ofWorld second) token?) file) := by
  unfold outlineOf
  split_ifs
  · exact (Fetcher.agree_fetch h token? file).map _
  · exact .pure rfl

/-- Configurations that give the same graphs. -/
structure SameGraph (config changed : Config) : Prop where
  maxDepth : changed.maxDepth = config.maxDepth
  scope : changed.scope = config.scope
  health : changed.health = config.health

theorem SameGraph.refl (config : Config) : SameGraph config config := ⟨rfl, rfl, rfl⟩

/-- A result that is the same with more or less time. -/
def UpToTime (config changed : Config) (late : Nat → ε) (value result : Except ε α) : Prop :=
  result = value ∨ (∃ seconds, config.timeout = some seconds ∧ value = .error (late seconds)) ∨
    ∃ seconds, changed.timeout = some seconds ∧ result = .error (late seconds)

theorem exists_steady_overrun? (surroundings : Surroundings) (disk : Disk) (config : Config)
    (token? : Option String) (outlines : List Outline) : ∃ late?,
      Steady disk (overrun? config (.ofWeb (.ofWorld surroundings) token?) outlines) late? ∧
        ∀ seconds ∈ late?, config.timeout = some seconds := by
  unfold overrun?
  split_ifs
  · exact ⟨_, (Steady.pure surroundings.elapsed).bind (.pure _),
      fun seconds h => (Option.filter_eq_some_iff.1 h).1⟩
  · exact ⟨none, .pure none, nofun⟩

theorem agree_overrun? (token? : Option String) (outlines : List Outline) :
    Agree (fun late? otherLate? => (∀ seconds ∈ late?, config.timeout = some seconds) ∧
        ∀ seconds ∈ otherLate?, changed.timeout = some seconds) disk other
      (overrun? config (.ofWeb (.ofWorld first) token?) outlines)
      (overrun? changed (.ofWeb (.ofWorld second) token?) outlines) := by
  obtain ⟨late?, hsteady, hlate⟩ := exists_steady_overrun? first disk config token? outlines
  obtain ⟨otherLate?, hother, hotherLate⟩ :=
    exists_steady_overrun? second other changed token? outlines
  exact ⟨late?, otherLate?, hsteady, hother, hlate, hotherLate⟩

variable (parse tree) in
theorem agree_run (h : Alike first second disk other) (hconfig : SameGraph config changed)
    (token? : Option String) :
    Agree (UpToTime config changed .timedOut) disk other
      (run parse config (.ofWeb (.ofWorld first) token?) tree)
      (run parse changed (.ofWeb (.ofWorld second) token?) tree) := by
  unfold run
  rw [hconfig.maxDepth, hconfig.scope, hconfig.health]
  dsimp only
  split_ifs
  · exact .pure (.inl rfl)
  · refine (Agree.mapM (agree_outlineOf h config.scope token?)).bind_eq fun outlines => ?_
    refine (agree_overrun? token? outlines).bind fun late? otherLate? ⟨hlate, hother⟩ => ?_
    cases late? with
    | some seconds =>
      have hvalue := hlate seconds rfl
      cases otherLate? <;> exact .pure (.inr (.inl ⟨seconds, hvalue, rfl⟩))
    | none =>
      cases otherLate? with
      | some seconds => exact .pure (.inr (.inr ⟨seconds, hother seconds rfl, rfl⟩))
      | none => exact .pure (.inl rfl)

variable (parse) in
theorem exists_steady_run (surroundings : Surroundings) (disk : Disk) (config : Config)
    (token? : Option String) (tree : FileTree) : ∃ result,
      Steady disk (run parse config (.ofWeb (.ofWorld surroundings) token?) tree) result := by
  obtain ⟨result, -, hresult, -, -⟩ :=
    agree_run parse tree (Alike.refl surroundings disk) (SameGraph.refl config) token?
  exact ⟨result, hresult⟩

section

variable {m : Type → Type} [Monad m]

/-- What is known of a repository, and its graph, analysed anew. -/
def anew (parse : Parse) (host : Host m) (config : Config) (locator : Repository.Locator) :
    m (Except Failure (Repository.Metadata × Graph)) := do
  let client := Repository.Client.ofToken (← Settings.lookup host tokenName)
  match ← client.repository host locator config.maxDepth with
  | .error error => return .error (.remote error)
  | .ok (metadata, tree) =>
    match ← run parse config (.ofWeb host client.token?) tree with
    | .error error => return .error (.analysis error)
    | .ok graph => return .ok (metadata, graph)

def reportOn (found : Repository.Metadata × Graph) : Report :=
  ⟨some found.1.toJson.sorted, false, found.2⟩

def entryOf (config : Config) (locator : Repository.Locator) (time : Time) (report : Report) :
    CachedGraph :=
  { key := locator.key, version := CachedGraph.currentVersion
    policyVersion := config.health.version, time, about? := report.repository?
    graph := report.graph }

theorem afresh_eq [LawfulMonad m] (parse : Parse) (host : Host m) (root : String)
    (config : Config) (locator : Repository.Locator) :
    afresh parse host root config locator = do
      match ← anew parse host config locator with
      | .error failure => return .error failure
      | .ok found =>
        let _ ← Cache.save host root (entryOf config locator (← host.now) (reportOn found))
        return .ok (reportOn found) := by
  unfold afresh anew
  simp only [bind_assoc]
  congr 1
  funext token?
  congr 1
  funext result
  cases result with
  | error error => simp
  | ok found =>
    simp only [bind_assoc]
    congr 1
    funext result
    cases result <;> simp [entryOf, reportOn]

end

variable (parse locator) in
theorem agree_anew (h : Alike first second disk other) (hconfig : SameGraph config changed) :
    Agree (UpToTime config changed fun seconds => .analysis (.timedOut seconds)) disk other
      (anew parse (.ofWorld first) config locator)
      (anew parse (.ofWorld second) changed locator) := by
  unfold anew
  rw [hconfig.maxDepth]
  refine (Settings.agree_lookup h tokenName).bind_eq fun token? => ?_
  refine (Repository.Client.agree_repository h config.maxDepth).bind_eq fun result => ?_
  cases result with
  | error error => exact .pure (.inl rfl)
  | ok found =>
    refine (agree_run parse found.2 h hconfig _).bind fun value result hresult => ?_
    rcases hresult with rfl | ⟨seconds, htime, rfl⟩ | ⟨seconds, htime, rfl⟩
    · cases result <;> exact .pure (.inl rfl)
    · cases result <;> exact .pure (.inr (.inl ⟨seconds, htime, rfl⟩))
    · cases value <;> exact .pure (.inr (.inr ⟨seconds, htime, rfl⟩))

variable (parse locator) in
/-- Two analyses tell the same of a repository, whatever they are to find in it. -/
theorem agree_anew_metadata (h : Alike first second disk other) (config changed : Config) :
    Agree (fun value result => ∀ found fresh, value = .ok found → result = .ok fresh →
        fresh.1 = found.1) disk other
      (anew parse (.ofWorld first) config locator)
      (anew parse (.ofWorld second) changed locator) := by
  unfold anew
  refine (Settings.agree_lookup h tokenName).bind_eq fun token? => ?_
  refine (Repository.Client.agree_repository_metadata h config.maxDepth changed.maxDepth).bind
    fun value result hresult => ?_
  cases value with
  | error error =>
    cases result with
    | error other => exact .pure fun _ _ hvalue => by cases hvalue
    | ok found => cases hresult
  | ok found =>
    cases result with
    | error error => cases hresult
    | ok fresh =>
      obtain ⟨metadata, tree⟩ := found
      obtain ⟨same, deeper⟩ := fresh
      have hsame : same = metadata := Except.ok.inj hresult
      have hrun := exists_steady_run parse first disk config
        (Repository.Client.ofToken token?).token? tree
      have hother := exists_steady_run parse second other changed
        (Repository.Client.ofToken token?).token? deeper
      refine (Agree.of_steady hrun hother).bind fun value result _ => ?_
      cases value with
      | error error => cases result <;> exact .pure fun _ _ hvalue => by cases hvalue
      | ok graph =>
        cases result with
        | error error => exact .pure fun _ _ _ hresult => by cases hresult
        | ok twin =>
          refine .pure fun found fresh hfound hfresh => ?_
          rw [← Except.ok.inj hfound, ← Except.ok.inj hfresh]
          exact hsame

end Analysis

end CodeGraph
