import Mathlib

/-! Actions on a state, one after the other. -/
namespace CodeGraph.Action

variable {σ α β : Type}

theorem fst_run_pure (value : α) (state : σ) : ((pure value : StateM σ α).run state).1 = value := rfl

theorem fst_run_bind (first : StateM σ α) (next : α → StateM σ β) (state : σ) :
    ((first >>= next).run state).1 =
      ((next (first.run state).1).run (first.run state).2).1 := rfl

theorem snd_run_bind (first : StateM σ α) (next : α → StateM σ β) (state : σ) :
    ((first >>= next).run state).2 =
      ((next (first.run state).1).run (first.run state).2).2 := rfl

theorem run_mapM_cons (action : α → StateM σ β) (first : α) (rest : List α) (state : σ) :
    ((first :: rest).mapM action).run state =
      let head := (action first).run state
      let tail := (rest.mapM action).run head.2
      (head.1 :: tail.1, tail.2) := by
  rw [List.mapM_cons]
  rfl

/-- What comes out of several actions, each of which gives the same in any state. -/
theorem fst_run_mapM {action : α → StateM σ β} {value : α → β} {items : List α}
    (h : ∀ item ∈ items, ∀ state, ((action item).run state).1 = value item) (state : σ) :
    ((items.mapM action).run state).1 = items.map value := by
  induction items generalizing state with
  | nil => rfl
  | cons item rest ih =>
    rw [run_mapM_cons, List.map_cons]
    exact congrArg₂ List.cons (h item List.mem_cons_self state)
      (ih (fun other hother => h other (List.mem_cons_of_mem _ hother)) _)

end CodeGraph.Action
