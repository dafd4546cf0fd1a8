import CodeGraph.Proofs.Repository.Reassembly

/-! Several listings that are asked for at the same time. The folders of a level are asked for in
order, answered in any order and handed on in the order in which they were asked for. -/
namespace CodeGraph.Repository

/-- How far the listings of a repository have come: how many levels follow, the folders of the level
that wait, those that were asked for with their answers, what has been handed on, the listings of the
levels above and the state of the service. -/
structure Crawl (σ : Type) where
  levels : Nat
  waiting : List String
  jobs : List (String × Option (List Listed)) := []
  level : Listings := []
  listings : Listings := []
  state : σ

namespace Crawl

variable {σ : Type}

def ofLevels (levels : Nat) (state : σ) : Crawl σ := { levels, waiting := [""], state }

def paths (crawl : Crawl σ) : List String :=
  crawl.level.map (·.1) ++ crawl.jobs.map (·.1) ++ crawl.waiting

/-- What the folders of the level come to, given the answers of the service. -/
def outcome (answer : String → List Listed) (crawl : Crawl σ) : Listings :=
  crawl.level ++ crawl.jobs.map (fun job => (job.1, job.2.getD (answer job.1))) ++
    Listings.ofAnswers answer crawl.waiting

def remaining (crawl : Crawl σ) : Nat :=
  4 * crawl.waiting.length + (crawl.jobs.map fun job => if job.2.isSome then 2 else 3).sum +
    crawl.level.length

section

variable (list : String → StateM σ (List Listed))
  (occupies : String × Option (List Listed) → Bool) (limit : Nat)

/-- The first folder that waits is asked for where there is a place for it, any folder that was asked
for is answered, or the one that was asked for first is handed on. Where all folders of a level have
been handed on, those that are listed in it make the next one. -/
inductive Step : Crawl σ → Crawl σ → Prop
  | ask {crawl : Crawl σ} {path : String} {rest : List String}
      (hwaiting : crawl.waiting = path :: rest) (hroom : crawl.jobs.countP occupies < limit) :
      Step crawl { crawl with waiting := rest, jobs := crawl.jobs ++ [(path, none)] }
  | answer {crawl : Crawl σ} (before : List (String × Option (List Listed)))
      {after : List (String × Option (List Listed))} {path : String}
      (hjobs : crawl.jobs = before ++ (path, none) :: after) :
      Step crawl { crawl with
        jobs := before ++ (path, some ((list path).run crawl.state).1) :: after
        state := ((list path).run crawl.state).2 }
  | handOn {crawl : Crawl σ} {path : String} {items : List Listed}
      {rest : List (String × Option (List Listed))}
      (hjobs : crawl.jobs = (path, some items) :: rest) :
      Step crawl { crawl with jobs := rest, level := crawl.level ++ [(path, items)] }
  | descend {crawl : Crawl σ} (hwaiting : crawl.waiting = []) (hjobs : crawl.jobs = [])
      (hlevel : crawl.level ≠ []) :
      Step crawl { crawl with
        levels := crawl.levels - 1
        waiting := if crawl.levels = 0 then [] else crawl.level.folders
        level := []
        listings := Listings.insertAll crawl.level crawl.listings }

/-- Crawls that can be reached from one that has only the root to ask for. -/
def Reachable (levels : Nat) (state : σ) : Crawl σ → Prop :=
  Relation.ReflTransGen (Step list occupies limit) (ofLevels levels state)

end

/-- What holds in every crawl that can be reached. -/
structure Sound (answer : String → List Listed) (known : List String) (result : Listings)
    (crawl : Crawl σ) : Prop where
  known : ∀ path ∈ crawl.paths, path ∈ known
  outcome : crawl.outcome answer = Listings.ofAnswers answer crawl.paths
  gathered : Listings.gathered answer crawl.levels crawl.paths crawl.listings = result

variable {list : String → StateM σ (List Listed)}
  {occupies : String × Option (List Listed) → Bool} {limit levels : Nat}
  {answer : String → List Listed} {known : List String} {result : Listings}
  {crawl next : Crawl σ} {state : σ}

theorem sound_ofLevels (hroot : "" ∈ known) : (ofLevels levels state).Sound answer known
    (Listings.gathered answer levels [""] []) where
  known := fun _ hpath => List.mem_singleton.1 hpath ▸ hroot
  outcome := rfl
  gathered := rfl

theorem Sound.congr (h : crawl.Sound answer known result) (hpaths : next.paths = crawl.paths)
    (houtcome : next.outcome answer = crawl.outcome answer) (hlevels : next.levels = crawl.levels)
    (hlistings : next.listings = crawl.listings) : next.Sound answer known result where
  known := hpaths ▸ h.known
  outcome := by rw [houtcome, hpaths, h.outcome]
  gathered := by rw [hlevels, hpaths, hlistings, h.gathered]

theorem Sound.descend
    (hclosed : ∀ path ∈ known, ∀ item ∈ answer path, item.isFolder → item.path ∈ known)
    (h : crawl.Sound answer known result) (hwaiting : crawl.waiting = []) (hjobs : crawl.jobs = []) :
    Sound answer known result { crawl with
      levels := crawl.levels - 1
      waiting := if crawl.levels = 0 then [] else crawl.level.folders
      level := []
      listings := Listings.insertAll crawl.level crawl.listings } := by
  obtain ⟨hknown, houtcome, hgathered⟩ := h
  have hlevel : crawl.level = Listings.ofAnswers answer crawl.paths := by
    rw [← houtcome]
    simp [Crawl.outcome, hwaiting, hjobs, Listings.ofAnswers]
  have hbelow : ∀ path ∈ crawl.level.folders, path ∈ known :=
    fun _ hpath => Listings.mem_known_of_mem_folders hclosed hknown (hlevel ▸ hpath)
  rw [hjobs]
  -- below the last level nothing waits, and what has been gathered stays
  cases hlevels : crawl.levels with
  | zero =>
    rw [hlevels, Listings.gathered, ← hlevel] at hgathered
    refine ⟨fun _ hpath => absurd hpath List.not_mem_nil, rfl, ?_⟩
    rw [← hgathered]
    exact Listings.gathered_nil answer 0 _
  | succ fewer =>
    rw [hlevels, Listings.gathered, ← hlevel] at hgathered
    exact ⟨hbelow, rfl, hgathered⟩

theorem Sound.step
    (hclosed : ∀ path ∈ known, ∀ item ∈ answer path, item.isFolder → item.path ∈ known)
    (hanswer : ∀ path ∈ known, ∀ state, ((list path).run state).1 = answer path)
    (h : crawl.Sound answer known result) (hstep : Step list occupies limit crawl next) :
    next.Sound answer known result := by
  cases hstep with
  | ask hwaiting hroom =>
    refine h.congr ?_ ?_ rfl rfl
    · simp [paths, hwaiting]
    · simp [Crawl.outcome, hwaiting, Listings.ofAnswers]
  | @answer before after path hjobs =>
    have hpath : path ∈ known := h.known path (by simp [paths, hjobs])
    refine h.congr ?_ ?_ rfl rfl
    · simp [paths, hjobs]
    · simp [Crawl.outcome, hjobs, hanswer path hpath]
  | handOn hjobs =>
    refine h.congr ?_ ?_ rfl rfl
    · simp [paths, hjobs]
    · simp [Crawl.outcome, hjobs]
  | descend hwaiting hjobs hlevel => exact h.descend hclosed hwaiting hjobs

theorem Sound.of_reachable (hroot : "" ∈ known)
    (hclosed : ∀ path ∈ known, ∀ item ∈ answer path, item.isFolder → item.path ∈ known)
    (hanswer : ∀ path ∈ known, ∀ state, ((list path).run state).1 = answer path)
    (h : Reachable list occupies limit levels state crawl) :
    crawl.Sound answer known (Listings.gathered answer levels [""] []) := by
  induction h with
  | refl => exact sound_ofLevels hroot
  | tail _ hstep ih => exact ih.step hclosed hanswer hstep

/-- With each step fewer levels are left, or fewer steps in the level. -/
theorem lex_of_step (h : Step list occupies limit crawl next) :
    Prod.Lex (· < ·) (· < ·) (next.levels, next.remaining) (crawl.levels, crawl.remaining) := by
  cases h with
  | ask hwaiting hroom =>
    refine .right _ ?_
    simp only [remaining, hwaiting, List.length_cons, List.map_append, List.map_cons, List.map_nil,
      List.sum_append, List.sum_cons, List.sum_nil, Option.isSome_none, Bool.false_eq_true, if_false]
    omega
  | answer before hjobs =>
    refine .right _ ?_
    simp only [remaining, hjobs, List.map_append, List.map_cons, List.sum_append, List.sum_cons,
      Option.isSome_none, Option.isSome_some, Bool.false_eq_true, if_false, if_true]
    omega
  | handOn hjobs =>
    refine .right _ ?_
    simp only [remaining, hjobs, List.length_append, List.length_singleton, List.map_cons,
      List.sum_cons, Option.isSome_some, if_true]
    omega
  | descend hwaiting hjobs hlevel =>
    rcases Nat.eq_zero_or_pos crawl.levels with hlast | hmore
    · have hpos : 0 < crawl.level.length := List.length_pos_iff.2 hlevel
      rw [hlast]
      refine .right _ ?_
      simpa [remaining, hjobs, hwaiting] using hpos
    · exact .left _ _ (Nat.sub_lt hmore Nat.one_pos)

/-- No crawl goes on forever. -/
theorem wellFounded_step :
    WellFounded fun next crawl : Crawl σ => Step list occupies limit crawl next :=
  Subrelation.wf lex_of_step
    (InvImage.wf (fun crawl : Crawl σ => (crawl.levels, crawl.remaining))
      (Prod.lex Nat.lt_wfRel Nat.lt_wfRel).wf)

/-- A crawl goes on until all levels are done. -/
theorem exists_step (hlimit : 0 < limit)
    (h : crawl.waiting ≠ [] ∨ crawl.jobs ≠ [] ∨ crawl.level ≠ []) :
    ∃ next, Step list occupies limit crawl next := by
  cases hjobs : crawl.jobs with
  | cons job rest =>
    obtain ⟨path, found⟩ := job
    cases found with
    | none => exact ⟨_, .answer [] hjobs⟩
    | some items => exact ⟨_, .handOn hjobs⟩
  | nil =>
    cases hwaiting : crawl.waiting with
    | cons path rest => exact ⟨_, .ask hwaiting (by rwa [hjobs])⟩
    | nil => exact ⟨_, .descend hwaiting hjobs (by simpa [hjobs, hwaiting] using h)⟩

/-- A crawl that can go no further has all listings. -/
theorem Sound.listings_eq (h : crawl.Sound answer known result) (hlimit : 0 < limit)
    (hend : ∀ next, ¬ Step list occupies limit crawl next) : crawl.listings = result := by
  have hdone : crawl.waiting = [] ∧ crawl.jobs = [] ∧ crawl.level = [] := by
    by_contra hopen
    have hstep : ∃ next, Step list occupies limit crawl next := exists_step hlimit (by tauto)
    exact hstep.elim hend
  have hpaths : crawl.paths = [] := by rw [paths, hdone.1, hdone.2.1, hdone.2.2]; rfl
  rw [← h.gathered, hpaths, Listings.gathered_nil]

end Crawl

end CodeGraph.Repository
