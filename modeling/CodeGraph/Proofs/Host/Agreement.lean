import CodeGraph.Host.World
import CodeGraph.Settings.Lookup
import Mathlib

/-! Actions that give the same from two worlds. What they read there is the same, and they leave
both disks as they are. -/
namespace CodeGraph

namespace World

variable {α β γ δ : Type} {disk other : Disk}

/-- An action that gives a value from a disk, whatever was sent before, and leaves it as it is. -/
def Steady (disk : Disk) (action : StateM World α) (value : α) : Prop :=
  ∀ sent, ∃ more, action.run ⟨disk, sent⟩ = (value, ⟨disk, more⟩)

/-- Actions that give related values from two disks, and leave them as they are. -/
def Agree (related : α → β → Prop) (disk other : Disk) (first : StateM World α)
    (second : StateM World β) : Prop :=
  ∃ value result, Steady disk first value ∧ Steady other second result ∧ related value result

theorem Steady.pure (value : α) : Steady disk (pure value) value := fun sent => ⟨sent, rfl⟩

theorem Steady.bind {action : StateM World α} {next : α → StateM World β} {value : α} {result : β}
    (h : Steady disk action value) (hnext : Steady disk (next value) result) :
    Steady disk (action >>= next) result := by
  intro sent
  obtain ⟨between, hbetween⟩ := h sent
  obtain ⟨more, hmore⟩ := hnext between
  refine ⟨more, ?_⟩
  rw [StateT.run_bind, hbetween]
  exact hmore

theorem Steady.mapM {action : α → StateM World β} (value : α → β) {items : List α}
    (h : ∀ item ∈ items, Steady disk (action item) (value item)) :
    Steady disk (items.mapM action) (items.map value) := by
  induction items with
  | nil => exact .pure []
  | cons item rest ih =>
    have hrest := ih fun other hother => h other (List.mem_cons_of_mem _ hother)
    rw [List.mapM_cons, List.map_cons]
    exact (h item List.mem_cons_self).bind (hrest.bind (.pure (value item :: rest.map value)))

theorem Steady.look (disk : Disk) (question : Disk → α) : Steady disk (look question) (question disk) :=
  fun sent => ⟨sent, rfl⟩

theorem Steady.send (answer : Web.Request → Option Web.Response) (request : Web.Request) :
    Steady disk (send answer request) (answer request) :=
  fun sent => ⟨request :: sent, rfl⟩

theorem Steady.unique {action : StateM World α} {value result : α} (h : Steady disk action value)
    (hother : Steady disk action result) : value = result := by
  obtain ⟨more, hmore⟩ := h []
  obtain ⟨last, hlast⟩ := hother []
  rw [hmore] at hlast
  exact congrArg Prod.fst hlast

section

variable {related : α → β → Prop} {alike : γ → δ → Prop} {first : StateM World α}
  {second : StateM World β}

theorem Agree.pure {value : α} {result : β} (h : related value result) :
    Agree related disk other (pure value) (pure result) :=
  ⟨value, result, .pure value, .pure result, h⟩

theorem Agree.of_steady (h : ∃ value, Steady disk first value)
    (hother : ∃ result, Steady other second result) :
    Agree (fun _ _ => True) disk other first second :=
  let ⟨value, hvalue⟩ := h
  let ⟨result, hresult⟩ := hother
  ⟨value, result, hvalue, hresult, trivial⟩

theorem Agree.bind {next : α → StateM World γ} {then_ : β → StateM World δ}
    (h : Agree related disk other first second)
    (hnext : ∀ value result, related value result →
      Agree alike disk other (next value) (then_ result)) :
    Agree alike disk other (first >>= next) (second >>= then_) := by
  obtain ⟨value, result, hvalue, hresult, hrelated⟩ := h
  obtain ⟨last, final, hlast, hfinal, halike⟩ := hnext value result hrelated
  exact ⟨last, final, hvalue.bind hlast, hresult.bind hfinal, halike⟩

end

/-- Actions after equal values. -/
theorem Agree.bind_eq {first second : StateM World α} {next then_ : α → StateM World β}
    {alike : β → β → Prop} (h : Agree Eq disk other first second)
    (hnext : ∀ value, Agree alike disk other (next value) (then_ value)) :
    Agree alike disk other (first >>= next) (second >>= then_) := by
  refine h.bind fun value result heq => ?_
  rw [heq]
  exact hnext result

theorem Agree.map {first second : StateM World α} (change : α → β)
    (h : Agree Eq disk other first second) :
    Agree Eq disk other (change <$> first) (change <$> second) := by
  rw [map_eq_pure_bind, map_eq_pure_bind]
  exact h.bind_eq fun value => .pure rfl

theorem Agree.mapM {first second : α → StateM World β} {items : List α}
    (h : ∀ item, Agree Eq disk other (first item) (second item)) :
    Agree Eq disk other (items.mapM first) (items.mapM second) := by
  induction items with
  | nil => exact .pure rfl
  | cons item rest ih =>
    rw [List.mapM_cons, List.mapM_cons]
    exact (h item).bind_eq fun value => ih.bind_eq fun values => .pure rfl

/-- Surroundings and disks from which a run learns the same, the time apart. -/
structure Alike (first second : Surroundings) (disk other : Disk) : Prop where
  answer : second.answer = first.answer
  settings : second.settings = first.settings
  file : (other.read Settings.fileName).toOption = (disk.read Settings.fileName).toOption

variable {first second : Surroundings}

theorem Alike.refl (first : Surroundings) (disk : Disk) : Alike first first disk disk :=
  ⟨rfl, rfl, rfl⟩

theorem Alike.send (h : Alike first second disk other) (request : Web.Request) :
    Agree Eq disk other ((Host.ofWorld first).send request) ((Host.ofWorld second).send request) :=
  ⟨_, _, .send _ request, .send _ request, by rw [h.answer]⟩

theorem Alike.setting (h : Alike first second disk other) (name : String) :
    Agree Eq disk other ((Host.ofWorld first).setting name)
      ((Host.ofWorld second).setting name) :=
  ⟨_, _, .pure _, .pure _, by rw [h.settings]⟩

theorem Alike.readNearest (h : Alike first second disk other) :
    Agree Eq disk other ((Host.ofWorld first).readNearest Settings.fileName)
      ((Host.ofWorld second).readNearest Settings.fileName) :=
  let question := fun disk : Disk => (disk.read Settings.fileName).toOption
  ⟨_, _, .look disk question, .look other question, h.file.symm⟩

end World

namespace Settings

open World

variable {first second : Surroundings} {disk other : Disk}

theorem agree_among (h : Alike first second disk other) (added : List (String × String))
    (name : String) : Agree Eq disk other (among (.ofWorld first) added name)
      (among (.ofWorld second) added name) :=
  (h.setting name).bind_eq fun _ => .pure rfl

theorem agree_textOf (h : Alike first second disk other) (added : List (String × String))
    (piece : Piece) : Agree Eq disk other (textOf (.ofWorld first) added piece)
      (textOf (.ofWorld second) added piece) := by
  cases piece with
  | text chars => exact .pure rfl
  | setting name => exact (agree_among h added name).bind_eq fun _ => .pure rfl

theorem agree_assign (h : Alike first second disk other) (added : List (String × String))
    (assignments : List Assignment) :
    Agree Eq disk other (assign (.ofWorld first) added assignments)
      (assign (.ofWorld second) added assignments) := by
  induction assignments generalizing added with
  | nil => exact .pure rfl
  | cons assignment rest ih =>
    rw [assign, assign]
    refine (agree_among h added assignment.name).bind_eq fun value? => ?_
    cases value? with
    | some value => exact ih added
    | none => exact (Agree.mapM (agree_textOf h added)).bind_eq fun texts => ih _

theorem agree_lookup (h : Alike first second disk other) (name : String) :
    Agree Eq disk other (lookup (.ofWorld first) name) (lookup (.ofWorld second) name) := by
  refine (h.setting name).bind_eq fun value? => ?_
  cases value? with
  | some value => exact .pure rfl
  | none =>
    refine h.readNearest.bind_eq fun content? => ?_
    cases content? with
    | none => exact .pure rfl
    | some content => exact (agree_assign h [] _).bind_eq fun added => .pure rfl

end Settings

end CodeGraph
