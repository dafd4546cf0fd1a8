import CodeGraph.Proofs.Analysis.Run

/-! Work on several files at the same time. Files are started in order, come on in any order and are
handed on in the order in which they were started. -/
namespace CodeGraph.Analysis

variable {σ : Type}

inductive Stage where
  | started
  | fetched (bytes : ByteArray)
  | finished (outline : Outline)

/-- A file that is worked on, or waits for those before it to be handed on. -/
structure Job where
  file : Entry
  stage : Stage := .started

namespace Job

def isFinished (job : Job) : Bool :=
  match job.stage with
  | .finished _ => true
  | _ => false

def answered (file : Entry) : Except FetchError ByteArray → Job
  | .ok bytes => ⟨file, .fetched bytes⟩
  | .error _ => ⟨file, .finished (.opaqueFile file.path 0 .fetchFailed)⟩

/-- What is done next for a file. Only scripts are fetched. -/
def advance (parse : Parse) (scope : ComplexityScope) (fetcher : Fetcher (StateM σ)) (job : Job) :
    StateM σ Job :=
  match job.stage with
  | .started =>
    if job.file.hasScriptName then answered job.file <$> fetcher.fetch job.file
    else pure ⟨job.file, .finished (.opaqueFile job.file.path job.file.size .notScript)⟩
  | .fetched bytes => pure ⟨job.file, .finished (outlineOfBytes parse scope job.file.path bytes)⟩
  | .finished _ => pure job

/-- The outline that a job comes to, given the answers of the fetcher. -/
def outcome (parse : Parse) (scope : ComplexityScope)
    (answer : Entry → Except FetchError ByteArray) (job : Job) : Outline :=
  match job.stage with
  | .started => outlineFrom parse scope job.file (answer job.file)
  | .fetched bytes => outlineOfBytes parse scope job.file.path bytes
  | .finished outline => outline

def remaining (job : Job) : Nat :=
  match job.stage with
  | .started => 3
  | .fetched _ => 2
  | .finished _ => 1

variable {parse : Parse} {scope : ComplexityScope} {fetcher : Fetcher (StateM σ)}
  {answer : Entry → Except FetchError ByteArray}

theorem outcome_answered {file : Entry} (hscript : file.hasScriptName)
    (reply : Except FetchError ByteArray) :
    (answered file reply).outcome parse scope answer = outlineFrom parse scope file reply := by
  rw [outlineFrom, if_pos hscript]
  cases reply <;> rfl

theorem outcome_advance (hanswer : ∀ file state, ((fetcher.fetch file).run state).1 = answer file)
    (job : Job) (state : σ) : ((job.advance parse scope fetcher).run state).1.outcome parse scope
      answer = job.outcome parse scope answer := by
  obtain ⟨file, stage⟩ := job
  cases stage with
  | started =>
    unfold advance
    dsimp only
    split_ifs with hscript
    · change (answered file ((fetcher.fetch file).run state).1).outcome parse scope answer = _
      rw [outcome_answered hscript, hanswer]
      rfl
    · unfold outcome outlineFrom
      rw [if_neg hscript]
      rfl
  | fetched bytes => rfl
  | finished outline => rfl

variable (parse scope fetcher) in
theorem remaining_advance {job : Job} (hbusy : job.isFinished = false) (state : σ) :
    ((job.advance parse scope fetcher).run state).1.remaining < job.remaining := by
  obtain ⟨file, stage⟩ := job
  cases stage with
  | started =>
    unfold advance
    dsimp only
    split_ifs
    · change (answered file ((fetcher.fetch file).run state).1).remaining < 3
      cases ((fetcher.fetch file).run state).1
      · exact show 1 < 3 by decide
      · exact show 2 < 3 by decide
    · exact show 1 < 3 by decide
  | fetched bytes => exact Nat.lt_succ_self 1
  | finished outline => cases hbusy

end Job

/-- The files that wait to be started with their positions in the tree, the positions of those that
were started, the jobs in the order of their start, what has been handed on and the state of the
fetcher. -/
structure Pool (σ : Type) where
  waiting : List (Entry × Nat)
  started : List Nat := []
  jobs : List Job := []
  handedOn : List Outline := []
  state : σ

namespace Pool

def ofFiles (files : List Entry) (state : σ) : Pool σ := { waiting := files.zipIdx, state }

/-- How many files are in process. A file that has finished no longer is. -/
def inProcess (pool : Pool σ) : Nat := pool.jobs.countP (!·.isFinished)

def taken (occupies : Job → Bool) (pool : Pool σ) : Nat := pool.jobs.countP occupies

def remaining (pool : Pool σ) : Nat :=
  4 * pool.waiting.length + (pool.jobs.map (·.remaining)).sum

section

variable (parse : Parse) (scope : ComplexityScope) (fetcher : Fetcher (StateM σ))
  (occupies : Job → Bool) (limit : Nat)

/-- The first file that waits is started where there is a place for it, any file in process comes on,
or the file that was started first is handed on. -/
inductive Step : Pool σ → Pool σ → Prop
  | start {pool : Pool σ} {file : Entry} {position : Nat} {rest : List (Entry × Nat)}
      (hwaiting : pool.waiting = (file, position) :: rest) (hroom : pool.taken occupies < limit) :
      Step pool { pool with
        waiting := rest
        started := pool.started ++ [position]
        jobs := pool.jobs ++ [{ file }] }
  | advance {pool : Pool σ} (before : List Job) {after : List Job} {job : Job}
      (hjobs : pool.jobs = before ++ job :: after) (hbusy : job.isFinished = false) :
      Step pool { pool with
        jobs := before ++ ((job.advance parse scope fetcher).run pool.state).1 :: after
        state := ((job.advance parse scope fetcher).run pool.state).2 }
  | handOn {pool : Pool σ} {file : Entry} {outline : Outline} {rest : List Job}
      (hjobs : pool.jobs = ⟨file, .finished outline⟩ :: rest) :
      Step pool { pool with jobs := rest, handedOn := pool.handedOn ++ [outline] }

/-- Pools that can be reached from files none of which has been started. -/
def Reachable (files : List Entry) (state : σ) : Pool σ → Prop :=
  Relation.ReflTransGen (Step parse scope fetcher occupies limit) (ofFiles files state)

/-- What holds in every pool that can be reached. -/
structure Sound (answer : Entry → Except FetchError ByteArray) (files : List Entry)
    (pool : Pool σ) : Prop where
  taken_le : pool.taken occupies ≤ limit
  started_append : pool.started ++ pool.waiting.map (·.2) = List.range files.length
  outcomes : pool.handedOn ++ pool.jobs.map (·.outcome parse scope answer) ++
    pool.waiting.map (fun file => outlineFrom parse scope file.1 (answer file.1)) =
      files.map fun file => outlineFrom parse scope file (answer file)

end

variable {parse : Parse} {scope : ComplexityScope} {fetcher : Fetcher (StateM σ)}
  {occupies : Job → Bool} {limit : Nat} {answer : Entry → Except FetchError ByteArray}
  {files : List Entry} {pool next : Pool σ} {state : σ}

theorem sound_ofFiles : (ofFiles files state).Sound parse scope occupies limit answer files where
  taken_le := Nat.zero_le limit
  started_append := by
    rw [ofFiles, List.nil_append, List.zipIdx_map_snd, List.range_eq_range']
  outcomes := by
    have hmap := List.map_map (f := (·.1)) (l := files.zipIdx)
      (g := fun file => outlineFrom parse scope file (answer file))
    rw [List.zipIdx_map_fst, Function.comp_def] at hmap
    simp only [ofFiles, List.map_nil, List.nil_append]
    exact hmap.symm

theorem Sound.step (hoccupies : ∀ job : Job, job.isFinished = false → occupies job)
    (hanswer : ∀ file state, ((fetcher.fetch file).run state).1 = answer file)
    (h : pool.Sound parse scope occupies limit answer files)
    (hstep : Step parse scope fetcher occupies limit pool next) :
    next.Sound parse scope occupies limit answer files := by
  obtain ⟨hle, hstarted, houtcomes⟩ := h
  cases hstep with
  | start hwaiting hroom =>
    rw [hwaiting] at hstarted houtcomes
    refine ⟨?_, ?_, ?_⟩
    · rw [taken, List.countP_append, List.countP_singleton]
      unfold taken at hroom
      split_ifs <;> omega
    · rw [← hstarted, List.append_assoc]
      rfl
    · rw [← houtcomes, List.map_append, List.append_assoc, List.append_assoc, List.append_assoc]
      rfl
  | @advance before after job hjobs hbusy =>
    refine ⟨Nat.le_trans ?_ hle, hstarted, ?_⟩
    · rw [taken, taken, hjobs, List.countP_append, List.countP_append, List.countP_cons,
        List.countP_cons, if_pos (hoccupies job hbusy)]
      split_ifs <;> omega
    · rw [← houtcomes, hjobs, List.map_append, List.map_append, List.map_cons, List.map_cons,
        Job.outcome_advance hanswer]
  | @handOn file outline rest hjobs =>
    refine ⟨Nat.le_trans ?_ hle, hstarted, ?_⟩
    · rw [taken, taken, hjobs, List.countP_cons]
      exact Nat.le_add_right _ _
    · rw [← houtcomes, hjobs, List.map_cons, List.append_cons pool.handedOn _ (rest.map _)]
      rfl

theorem Sound.of_reachable (hoccupies : ∀ job : Job, job.isFinished = false → occupies job)
    (hanswer : ∀ file state, ((fetcher.fetch file).run state).1 = answer file)
    (h : Reachable parse scope fetcher occupies limit files state pool) :
    pool.Sound parse scope occupies limit answer files := by
  induction h with
  | refl => exact sound_ofFiles
  | tail _ hstep ih => exact ih.step hoccupies hanswer hstep

theorem Sound.inProcess_le (hoccupies : ∀ job : Job, job.isFinished = false → occupies job)
    (h : pool.Sound parse scope occupies limit answer files) : pool.inProcess ≤ limit := by
  have hless : pool.inProcess ≤ pool.taken occupies :=
    List.countP_mono_left fun job _ hbusy => hoccupies job (by simpa using hbusy)
  exact hless.trans h.taken_le

theorem remaining_lt_of_step (h : Step parse scope fetcher occupies limit pool next) :
    next.remaining < pool.remaining := by
  cases h with
  | @start file position rest hwaiting hroom =>
    have hjob : Job.remaining { file } = 3 := rfl
    simp only [remaining, hwaiting, List.length_cons, List.map_append, List.map_cons, List.map_nil,
      List.sum_append, List.sum_cons, List.sum_nil, hjob]
    omega
  | @advance before after job hjobs hbusy =>
    have hless := Job.remaining_advance parse scope fetcher hbusy pool.state
    simp only [remaining, hjobs, List.map_append, List.map_cons, List.sum_append, List.sum_cons]
    omega
  | @handOn file outline rest hjobs =>
    have hjob : Job.remaining ⟨file, .finished outline⟩ = 1 := rfl
    simp only [remaining, hjobs, List.map_cons, List.sum_cons, hjob]
    omega

/-- No schedule goes on forever. -/
theorem wellFounded_step :
    WellFounded fun next pool : Pool σ => Step parse scope fetcher occupies limit pool next :=
  Subrelation.wf remaining_lt_of_step (measure remaining).wf

/-- No schedule stops before all files are handed on. -/
theorem exists_step (hlimit : 0 < limit) (h : pool.waiting ≠ [] ∨ pool.jobs ≠ []) :
    ∃ next, Step parse scope fetcher occupies limit pool next := by
  cases hjobs : pool.jobs with
  | cons job rest =>
    obtain ⟨file, stage⟩ := job
    cases stage with
    | started => exact ⟨_, .advance [] hjobs rfl⟩
    | fetched bytes => exact ⟨_, .advance [] hjobs rfl⟩
    | finished outline => exact ⟨_, .handOn hjobs⟩
  | nil =>
    cases hwaiting : pool.waiting with
    | nil => exact absurd h (by simp [hjobs, hwaiting])
    | cons first rest => exact ⟨_, .start hwaiting (by rwa [taken, hjobs])⟩

theorem not_step_of_done (hwaiting : pool.waiting = []) (hjobs : pool.jobs = []) :
    ¬ Step parse scope fetcher occupies limit pool next := by
  intro hstep
  cases hstep with
  | start hfirst _ =>
    rw [hwaiting] at hfirst
    cases hfirst
  | advance before hjob _ =>
    rw [hjobs] at hjob
    exact List.cons_ne_nil _ _ (List.append_eq_nil_iff.1 hjob.symm).2
  | handOn hjob =>
    rw [hjobs] at hjob
    cases hjob

/-- A pool that can go no further has handed on the outlines of all files in order. -/
theorem Sound.handedOn_eq (h : pool.Sound parse scope occupies limit answer files) (hlimit : 0 < limit)
    (hend : ∀ next, ¬ Step parse scope fetcher occupies limit pool next) :
    pool.handedOn = files.map fun file => outlineFrom parse scope file (answer file) := by
  have hdone : pool.waiting = [] ∧ pool.jobs = [] := by
    by_contra hopen
    have hstep : ∃ next, Step parse scope fetcher occupies limit pool next := exists_step hlimit (by tauto)
    exact hstep.elim hend
  rw [← h.outcomes, hdone.1, hdone.2, List.map_nil, List.map_nil, List.append_nil, List.append_nil]

end Pool

section

variable {parse : Parse} {config : Config} {fetcher : Fetcher (StateM σ)}
  {answer : Entry → Except FetchError ByteArray}

theorem outlines_eq_map
    (hanswer : ∀ file state, ((fetcher.fetch file).run state).1 = answer file) (tree : FileTree)
    (state : σ) : ((outlines parse config fetcher tree).run state).1 =
      (tree.flatten config.maxDepth).files.map fun file =>
        outlineFrom parse config.scope file (answer file) :=
  Action.fst_run_mapM (fun file _ state => by rw [run_outlineOf, hanswer]) state

end

/-- Where the answers of the fetcher depend on the file only, the order in which files come on makes
no difference. Files in process take up a place, and those that wait to be handed on may do so. No
schedule goes on forever, and none has too many files in process or starts a file twice. One that can
go no further has handed on the outlines of all files in order, of which the analysis of one file
after the other makes its graph. -/
theorem run_anyOrder (parse : Parse) (config : Config) (fetcher : Fetcher (StateM σ))
    (tree : FileTree) (state : σ) (occupies : Job → Bool)
    (hoccupies : ∀ job : Job, job.isFinished = false → occupies job)
    (hfixed : ∀ file first second,
      ((fetcher.fetch file).run first).1 = ((fetcher.fetch file).run second).1) :
    let flat := tree.flatten config.maxDepth
    let limit := max 1 config.parallel
    let step := Pool.Step parse config.scope fetcher occupies limit
    (WellFounded fun next pool => step pool next) ∧
      ∀ pool, Pool.Reachable parse config.scope fetcher occupies limit flat.files state pool →
        pool.inProcess ≤ limit ∧ pool.taken occupies ≤ limit ∧ pool.started.Nodup ∧
          pool.started <+: List.range flat.files.length ∧
          ((∀ next, ¬ step pool next) → ∀ other,
            pool.handedOn = flat.files.map (fun file =>
              ((outlineOf parse config.scope fetcher file).run other).1) ∧
            (flat.files ≠ [] → (∀ seconds,
                ((run parse config fetcher tree).run other).1 ≠ .error (.timedOut seconds)) →
              ((run parse config fetcher tree).run other).1 =
                .ok (graphOf config.health flat.paths pool.handedOn))) := by
  intro flat limit step
  have hanswer : ∀ file other,
      ((fetcher.fetch file).run other).1 = ((fetcher.fetch file).run state).1 :=
    fun file other => hfixed file other state
  refine ⟨Pool.wellFounded_step, fun pool hreachable => ?_⟩
  have hsound := Pool.Sound.of_reachable hoccupies hanswer hreachable
  have hstarted : pool.started <+: List.range flat.files.length := ⟨_, hsound.started_append⟩
  refine ⟨hsound.inProcess_le hoccupies, hsound.taken_le,
    List.nodup_range.sublist hstarted.sublist, hstarted, fun hend other => ?_⟩
  have hhanded := hsound.handedOn_eq (Nat.le_max_left 1 config.parallel) hend
  refine ⟨?_, fun hfiles htime => ?_⟩
  · rw [hhanded]
    refine List.map_congr_left fun file _ => ?_
    rw [run_outlineOf, hanswer file other]
  · rw [run_eq_ok hfiles htime, outlines_eq_map hanswer, hhanded]

/-- Two files at the same time, of which the second finishes first and keeps its place. -/
theorem run_sample_anyOrder : ∃ pool,
    Pool.Reachable Sample.parse .inclusive Sample.fetcher (fun _ => true) 2
        (Sample.files.flatten (some 3)).files 0 pool ∧
      pool.state = 2 ∧
      ((run Sample.parse { parallel := 2 } Sample.fetcher Sample.files).run 5).1 =
        .ok (graphOf .first (Sample.files.flatten (some 3)).paths pool.handedOn) := by
  have hfixed : ∀ file first second, ((Sample.fetcher.fetch file).run first).1 =
      ((Sample.fetcher.fetch file).run second).1 := fun _ _ _ => rfl
  have htime : ∀ seconds,
      ((run Sample.parse { parallel := 2 } Sample.fetcher Sample.files).run 5).1 ≠
        .error (.timedOut seconds) := run_ne_timedOut rfl
  have hreachable : Pool.Reachable Sample.parse .inclusive Sample.fetcher (fun _ => true) 2
      (Sample.files.flatten (some 3)).files 0 _ :=
    .head (.start rfl (by decide)) <| .head (.start rfl (by decide)) <|
    .head (.advance [_] rfl rfl) <| .head (.advance [_] rfl rfl) <|
    .head (.advance [] rfl rfl) <| .head (.advance [] rfl rfl) <|
    .head (.handOn rfl) <| .head (.handOn rfl) .refl
  obtain ⟨-, hpools⟩ := run_anyOrder Sample.parse { parallel := 2 } Sample.fetcher Sample.files 0
    (fun _ => true) (fun _ _ => rfl) hfixed
  obtain ⟨-, -, -, -, hend⟩ := hpools _ hreachable
  have hdone := hend (fun _ => Pool.not_step_of_done rfl rfl) 5
  exact ⟨_, hreachable, rfl, hdone.2 (by decide) htime⟩

end CodeGraph.Analysis
