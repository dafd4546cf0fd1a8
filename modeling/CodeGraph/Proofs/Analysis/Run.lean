import CodeGraph.Analysis.Run
import CodeGraph.Proofs.Action
import CodeGraph.Proofs.Tree.Table

/-! Runs of the analysis in a state of any kind. Each file gets the outline of what is fetched for
it, and the graph is that of the outlines. -/
namespace CodeGraph

namespace Resolution

variable {paths : PathTable} {importer specifier path : String}

theorem ofSpecifier_eq_inside_iff : ofSpecifier paths importer specifier = .inside path ↔
    specifier.toList.head? = some '.' ∧
      (candidates specifier importer).find? paths.contains = some path := by
  unfold ofSpecifier
  split_ifs with hdot
  · cases (candidates specifier importer).find? paths.contains <;> simp [hdot]
  · simp [hdot]

theorem ofSpecifier_eq_outside_iff {text : String} :
    ofSpecifier paths importer specifier = .outside text ↔ text = specifier ∧
      (specifier.toList.head? ≠ some '.' ∨
        (candidates specifier importer).find? paths.contains = none) := by
  unfold ofSpecifier
  split_ifs with hdot
  · cases (candidates specifier importer).find? paths.contains <;> simp [hdot, eq_comm]
  · simp [hdot, eq_comm]

theorem contains_of_inside (h : ofSpecifier paths importer specifier = .inside path) :
    paths.contains path = true :=
  List.find?_some (ofSpecifier_eq_inside_iff.1 h).2

end Resolution

namespace Analysis

variable {σ : Type} {parse : Parse} {scope : ComplexityScope}

/-- The outline of a file, given what is fetched for it in case it is a script. -/
def outlineFrom (parse : Parse) (scope : ComplexityScope) (file : Entry)
    (answer : Except FetchError ByteArray) : Outline :=
  if file.hasScriptName then outlineOfFetched parse scope file answer
  else .opaqueFile file.path file.size .notScript

def outlines {m : Type → Type} [Monad m] (parse : Parse) (config : Config) (fetcher : Fetcher m)
    (tree : FileTree) : m (List Outline) :=
  (tree.flatten config.maxDepth).files.mapM (outlineOf parse config.scope fetcher)

theorem run_outlineOf (fetcher : Fetcher (StateM σ)) (file : Entry) (state : σ) :
    ((outlineOf parse scope fetcher file).run state).1 =
      outlineFrom parse scope file ((fetcher.fetch file).run state).1 := by
  unfold outlineOf outlineFrom
  split_ifs <;> rfl

private theorem forall₂_mapM (fetcher : Fetcher (StateM σ)) (files : List Entry) (state : σ) :
    List.Forall₂ (fun file outline => ∃ state,
        outline = outlineFrom parse scope file ((fetcher.fetch file).run state).1)
      files ((files.mapM (outlineOf parse scope fetcher)).run state).1 := by
  induction files generalizing state with
  | nil => exact .nil
  | cons file rest ih =>
    rw [List.mapM_cons, Action.fst_run_bind, Action.fst_run_bind]
    exact .cons ⟨state, run_outlineOf fetcher file state⟩ (ih _)

/-- Each outline is that of its file for what is fetched in some state. -/
theorem forall₂_outlines (parse : Parse) (config : Config) (fetcher : Fetcher (StateM σ))
    (tree : FileTree) (state : σ) :
    List.Forall₂ (fun file outline => ∃ state,
        outline = outlineFrom parse config.scope file ((fetcher.fetch file).run state).1)
      (tree.flatten config.maxDepth).files ((outlines parse config fetcher tree).run state).1 :=
  forall₂_mapM fetcher _ state

/-- A file is opaque, or its outline is that of a source that the parser accepts. -/
theorem outlineFrom_cases (parse : Parse) (scope : ComplexityScope) (file : Entry)
    (answer : Except FetchError ByteArray) :
    (∃ lines status, outlineFrom parse scope file answer = .opaqueFile file.path lines status) ∨
      ∃ content parsed, parse content = .ok parsed ∧
        outlineFrom parse scope file answer = .ofParsed scope file.path content parsed := by
  unfold outlineFrom
  split_ifs
  · cases answer with
    | error error => exact .inl ⟨_, _, rfl⟩
    | ok bytes =>
      simp only [outlineOfFetched, outlineOfBytes, Outline.ofSource]
      cases hparse : parse (Text.decodeLossy bytes) with
      | error error => exact .inl ⟨_, _, rfl⟩
      | ok parsed => exact .inr ⟨_, parsed, hparse, rfl⟩
  · exact .inl ⟨_, _, rfl⟩

theorem file_outlineFrom (parse : Parse) (scope : ComplexityScope) (file : Entry)
    (answer : Except FetchError ByteArray) :
    (outlineFrom parse scope file answer).file = file.path := by
  rcases outlineFrom_cases parse scope file answer with ⟨lines, status, h⟩ | ⟨_, _, -, h⟩ <;>
    rw [h] <;> rfl

theorem map_file_outlines (parse : Parse) (config : Config) (fetcher : Fetcher (StateM σ))
    (tree : FileTree) (state : σ) :
    (((outlines parse config fetcher tree).run state).1).map (·.file) =
      (tree.flatten config.maxDepth).files.map (·.path) := by
  have hpath : List.Forall₂ (fun file outline => file.path = outline.file)
      (tree.flatten config.maxDepth).files ((outlines parse config fetcher tree).run state).1 := by
    refine (forall₂_outlines parse config fetcher tree state).imp ?_
    rintro file outline ⟨state, houtline⟩
    rw [houtline, file_outlineFrom]
  rw [← List.forall₂_map_right_iff, ← List.forall₂_map_left_iff, List.forall₂_eq_eq_eq] at hpath
  exact hpath.symm

theorem run_overrun? (config : Config) (fetcher : Fetcher (StateM σ)) (found : List Outline)
    (state : σ) : ((overrun? config fetcher found).run state).1 =
      if found.any (mustWait fetcher.waits) then
        config.timeout.filter (· ≤ (fetcher.elapsed.run state).1)
      else none := by
  unfold overrun?
  split_ifs <;> rfl

/-- The limit that has passed before all files of a tree have their outlines. -/
def late? (parse : Parse) (config : Config) (fetcher : Fetcher (StateM σ)) (tree : FileTree)
    (state : σ) : Option Nat :=
  let done := (outlines parse config fetcher tree).run state
  ((overrun? config fetcher done.1).run done.2).1

/-- Only a limit that is set can pass. -/
theorem timeout_of_late?_eq {fetcher : Fetcher (StateM σ)} {config : Config} {tree : FileTree}
    {state : σ} {seconds : Nat} (h : late? parse config fetcher tree state = some seconds) :
    config.timeout = some seconds := by
  rw [late?, run_overrun?] at h
  split_ifs at h
  exact (Option.filter_eq_some_iff.1 h).1

/-- A run fails for a tree without files and for want of time; otherwise it gives the graph of the
outlines. -/
theorem run_eq (parse : Parse) (config : Config) (fetcher : Fetcher (StateM σ)) (tree : FileTree)
    (state : σ) :
    ((run parse config fetcher tree).run state).1 =
      let flat := tree.flatten config.maxDepth
      if flat.files.isEmpty then .error .emptyTree
      else
        match late? parse config fetcher tree state with
        | some seconds => .error (.timedOut seconds)
        | none => .ok (graphOf config.health flat.paths
            ((outlines parse config fetcher tree).run state).1) := by
  unfold run late? outlines
  dsimp only
  split_ifs with hempty
  · rfl
  · rw [Action.fst_run_bind, Action.fst_run_bind]
    generalize ((tree.flatten config.maxDepth).files.mapM
      (outlineOf parse config.scope fetcher)).run state = done
    cases ((overrun? config fetcher done.1).run done.2).1 <;> rfl

theorem eq_graphOf_of_run {fetcher : Fetcher (StateM σ)} {config : Config} {tree : FileTree}
    {state : σ} {graph : Graph} (h : ((run parse config fetcher tree).run state).1 = .ok graph) :
    graph = graphOf config.health (tree.flatten config.maxDepth).paths
      ((outlines parse config fetcher tree).run state).1 := by
  rw [run_eq] at h
  dsimp only at h
  split_ifs at h
  cases hlate : late? parse config fetcher tree state with
  | some seconds =>
    rw [hlate] at h
    cases h
  | none =>
    rw [hlate] at h
    exact (Except.ok.inj h).symm

/-- A run with files and with the time it needs gives a graph. -/
theorem run_eq_ok {fetcher : Fetcher (StateM σ)} {config : Config} {tree : FileTree} {state : σ}
    (hfiles : (tree.flatten config.maxDepth).files ≠ [])
    (htime : ∀ seconds,
      ((run parse config fetcher tree).run state).1 ≠ .error (.timedOut seconds)) :
    ((run parse config fetcher tree).run state).1 =
      .ok (graphOf config.health (tree.flatten config.maxDepth).paths
        ((outlines parse config fetcher tree).run state).1) := by
  rw [run_eq] at htime ⊢
  dsimp only at htime ⊢
  rw [if_neg (by simpa using hfiles)] at htime ⊢
  cases hlate : late? parse config fetcher tree state with
  | some seconds =>
    rw [hlate] at htime
    exact absurd rfl (htime seconds)
  | none => rfl

/-- Only a run with a limit is given up. -/
theorem run_ne_timedOut {fetcher : Fetcher (StateM σ)} {config : Config} {tree : FileTree}
    {state : σ} (htimeout : config.timeout = none) (seconds : Nat) :
    ((run parse config fetcher tree).run state).1 ≠ .error (.timedOut seconds) := by
  have hlate : late? parse config fetcher tree state = none := by
    refine Option.eq_none_iff_forall_ne_some.2 fun limit h => ?_
    rw [timeout_of_late?_eq h] at htimeout
    cases htimeout
  rw [run_eq]
  dsimp only
  rw [hlate]
  split_ifs
  · intro h
    cases h
  · intro h
    cases h

private theorem exists_of_mem_right {α β : Type} {R : α → β → Prop} {as : List α} {bs : List β}
    (h : List.Forall₂ R as bs) {b : β} (hb : b ∈ bs) : ∃ a ∈ as, R a b := by
  induction h with
  | nil => cases hb
  | @cons first _ rest _ hfirst _ ih =>
    rcases List.mem_cons.1 hb with rfl | hrest
    · exact ⟨first, List.mem_cons_self, hfirst⟩
    · obtain ⟨a, ha, hab⟩ := ih hrest
      exact ⟨a, List.mem_cons_of_mem _ ha, hab⟩

theorem exists_file_of_mem_outlines (parse : Parse) (config : Config)
    (fetcher : Fetcher (StateM σ)) (tree : FileTree) (state : σ) :
    ∀ outline ∈ ((outlines parse config fetcher tree).run state).1,
      ∃ file ∈ (tree.flatten config.maxDepth).files, ∃ answer,
        outline = outlineFrom parse config.scope file answer := by
  intro outline h
  obtain ⟨file, hfile, state, houtline⟩ :=
    exists_of_mem_right (forall₂_outlines parse config fetcher tree state) h
  exact ⟨file, hfile, _, houtline⟩

end Analysis

namespace Analysis.Sample

/-- A folder of two files, both of which hold the source below. -/
def files : FileTree := [.folder "lib" [.file "lib/a.js" 57, .file "lib/b.js" 57]]

def source : String := "import './b'; function f() { if (x) g() } function g() {}"

def syntaxTree : SyntaxTree :=
  .node "program" true ⟨0, 57⟩
    [(none, .node "import_statement" true ⟨0, 13⟩
      [(some "source", .node "string" true ⟨7, 12⟩ [])]),
    (none, .node "function_declaration" true ⟨14, 41⟩
      [(some "name", .node "identifier" true ⟨23, 24⟩ []),
      (some "body", .node "statement_block" true ⟨27, 41⟩
        [(none, .node "if_statement" true ⟨29, 39⟩
          [(some "consequence", .node "call_expression" true ⟨36, 39⟩
            [(some "function", .node "identifier" true ⟨36, 37⟩ [])])])])]),
    (none, .node "function_declaration" true ⟨42, 57⟩
      [(some "name", .node "identifier" true ⟨51, 52⟩ [])])]

def parse (content : String) : Except ParseError ParsedSource :=
  if content = source then .ok ⟨default, syntaxTree⟩ else .error default

/-- Fetches the source for each file and counts how often it is asked. -/
def fetcher : Fetcher (StateM Nat) where
  fetch _ := fun count => (.ok source.toUTF8, count + 1)
  elapsed := pure 0

def failing (path : String) : Fetcher (StateM Unit) where
  fetch file := pure (if file.path = path then .error ⟨"gone"⟩ else .ok source.toUTF8)
  elapsed := pure 0

example : ((outlines parse {} fetcher files).run 0).1.map (fun outline =>
    (outline.imports, outline.functions, outline.calls.length)) =
      [(["./b"], [⟨"f", 2⟩, ⟨"g", 1⟩], 1), (["./b"], [⟨"f", 2⟩, ⟨"g", 1⟩], 1)] := by
  decide +kernel

end Analysis.Sample

end CodeGraph
