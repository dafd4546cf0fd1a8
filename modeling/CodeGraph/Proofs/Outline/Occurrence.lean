import CodeGraph.Proofs.Outline.Closed
import CodeGraph.Proofs.Syntax.Occurrence

/-! What is found in a syntax tree, by the places of its nodes: the work list takes up the nodes in
pre-order, and a call belongs to the nearest function that is declared above it. -/
namespace CodeGraph

namespace Finding

open SyntaxTree

variable {source : String} {scope : ComplexityScope} {place : Occurrence} {name : String}
  {above : List SyntaxTree}

/-- What a node calls: its function is a plain name. -/
inductive Calls (source : String) (tree : SyntaxTree) : String → Prop where
  | intro {callee : SyntaxTree} (call : Construct.of tree = .call)
      (function : tree.field? "function" = some callee) (plain : callee.kind = "identifier") :
      Calls source tree (callee.text source)

/-- The name of the function that a node declares at its place: that of a declaration, that of what
is exported by default right above a function, or the plain name bound to a function. -/
inductive Declares (source : String) (place : Occurrence) : String → Prop where
  | declaration (function : Construct.of place.tree = .function .declaration) :
      Declares source place ((name? source place.tree).getD anonymous)
  | exported {parent : SyntaxTree} (function : Construct.of place.tree = .function .expression)
      (parent? : place.above.head? = some parent) (default : exportsDefault parent) :
      Declares source place anonymous
  | bound {binder value : SyntaxTree} (declarator : Construct.of place.tree = .declarator)
      (name? : place.tree.field? "name" = some binder) (plain : binder.kind = "identifier")
      (value? : place.tree.field? "value" = some value)
      (function : Construct.of value = .function .expression ∨
        Construct.of value = .function .arrow) :
      Declares source place (binder.text source)

/-- The nearest of the nodes above a place that declares a function gives it its name. -/
inductive Encloses (source : String) : List SyntaxTree → String → Prop where
  | nearest {tree : SyntaxTree} {above : List SyntaxTree} {name : String}
      (declares : Declares source ⟨tree, above⟩ name) : Encloses source (tree :: above) name
  | beyond {tree : SyntaxTree} {above : List SyntaxTree} {name : String}
      (transparent : ∀ other, ¬ Declares source ⟨tree, above⟩ other)
      (encloses : Encloses source above name) : Encloses source (tree :: above) name

def isDefault (above : List SyntaxTree) : Bool := above.head?.any exportsDefault

def enclosing? (source : String) : List SyntaxTree → Option String
  | [] => none
  | tree :: above =>
    ((Site.declared? source ⟨tree, none, isDefault above⟩).map (·.1)).or (enclosing? source above)

/-- A place as a site of the work list. -/
def siteOf (source : String) (place : Occurrence) : Site :=
  ⟨place.tree, enclosing? source place.above, isDefault place.above⟩

theorem children_siteOf (source : String) (place : Occurrence) :
    (siteOf source place).children source = place.children.map (siteOf source) := by
  rw [Site.children, Occurrence.children, List.map_map]
  rfl

/-- What is found at a place, apart from what is below it. -/
def findingsAt (source : String) (scope : ComplexityScope) (place : Occurrence) : List Finding :=
  (siteOf source place).findings source scope

theorem declares_iff : Declares source place name ↔
    ((siteOf source place).declared? source).map (·.1) = some name := by
  obtain ⟨tree, above⟩ := place
  constructor
  · intro h
    cases h with
    | declaration function =>
      have function : Construct.of tree = .function .declaration := function
      simp only [Site.declared?, siteOf, function, Option.map_some]
    | exported function parent? default =>
      have function : Construct.of tree = .function .expression := function
      have parent? : above.head? = _ := parent?
      simp only [Site.declared?, siteOf, function, isDefault, parent?, Option.any_some, default,
        if_true, Option.map_some]
    | bound declarator name? plain value? function =>
      have declarator : Construct.of tree = .declarator := declarator
      rcases function with function | function <;>
        simp only [Site.declared?, siteOf, declarator, binding?, name?, value?, plain, function,
          Option.bind_eq_bind, Option.bind_some, if_true, Option.map_some]
  · intro h
    rw [Option.map_eq_some_iff] at h
    obtain ⟨declared, h, rfl⟩ := h
    unfold Site.declared? siteOf at h
    dsimp only at h
    split at h
    · rename_i function
      obtain rfl := Option.some.inj h
      exact .declaration function
    · rename_i function
      split_ifs at h with hdefault
      obtain rfl := Option.some.inj h
      obtain ⟨parent, hparent, hexports⟩ := (Option.any_eq_true _ _).1 hdefault
      exact .exported function hparent hexports
    · rename_i declarator
      simp only [binding?, Option.bind_eq_bind, Option.bind_eq_some_iff] at h
      obtain ⟨binder, hbinder, value, hvalue, h⟩ := h
      split_ifs at h with hplain
      split at h
      · rename_i function
        obtain rfl := Option.some.inj h
        exact .bound declarator hbinder hplain hvalue (.inl function)
      · rename_i function
        obtain rfl := Option.some.inj h
        exact .bound declarator hbinder hplain hvalue (.inr function)
      · cases h
    · cases h

theorem encloses_iff : Encloses source above name ↔ enclosing? source above = some name := by
  have hsite : ∀ tree above,
      (Site.declared? source ⟨tree, none, isDefault above⟩).map (·.1) =
        ((siteOf source ⟨tree, above⟩).declared? source).map (·.1) := fun _ _ => rfl
  constructor
  · intro h
    induction h with
    | nearest declares => rw [enclosing?, hsite, declares_iff.1 declares, Option.some_or]
    | @beyond tree above name transparent _ ih =>
      have hnone : ((siteOf source ⟨tree, above⟩).declared? source).map (·.1) = none :=
        Option.eq_none_iff_forall_ne_some.2 fun other hother =>
          transparent other (declares_iff.2 hother)
      rw [enclosing?, hsite, hnone, Option.none_or, ih]
  · intro h
    induction above with
    | nil => cases h
    | cons tree above ih =>
      rw [enclosing?, hsite] at h
      cases hdeclared : ((siteOf source ⟨tree, above⟩).declared? source).map (·.1) with
      | some other =>
        rw [hdeclared, Option.some_or] at h
        exact .nearest (declares_iff.2 (hdeclared.trans h))
      | none =>
        rw [hdeclared, Option.none_or] at h
        refine .beyond (fun other hother => ?_) (ih h)
        rw [declares_iff.1 hother] at hdeclared
        cases hdeclared

/-- There is a function around a place just if some node above it declares one. -/
theorem exists_encloses_iff : (∃ name, Encloses source above name) ↔
    ∃ near tree far, above = near ++ tree :: far ∧ ∃ name, Declares source ⟨tree, far⟩ name := by
  constructor
  · rintro ⟨name, h⟩
    induction h with
    | nearest declares => exact ⟨[], _, _, rfl, _, declares⟩
    | @beyond tree _ _ _ _ ih =>
      obtain ⟨near, declaring, far, rfl, hdeclares⟩ := ih
      exact ⟨tree :: near, declaring, far, rfl, hdeclares⟩
  · rintro ⟨near, tree, far, rfl, name, hdeclares⟩
    induction near with
    | nil => exact ⟨name, .nearest hdeclares⟩
    | cons first near ih =>
      obtain ⟨nearest, hnearest⟩ := ih
      by_cases hfirst : ∃ other, Declares source ⟨first, near ++ tree :: far⟩ other
      · obtain ⟨other, hother⟩ := hfirst
        exact ⟨other, .nearest hother⟩
      · exact ⟨nearest, .beyond (fun other hother => hfirst ⟨other, hother⟩) hnearest⟩

def Site.recorded? (source : String) (site : Site) : Option CallSite :=
  if Construct.of site.tree = .call then
    site.enclosing?.bind fun caller => (callee? source site.tree).map fun callee => ⟨caller, callee⟩
  else none

theorem filterMap_call?_findings (site : Site) :
    (site.findings source scope).filterMap call? = (site.recorded? source).toList := by
  have himported : ∀ specifier? : Option String,
      ((specifier?.map imported).toList).filterMap call? = [] := by
    rintro (_ | specifier) <;> rfl
  rw [findings_eq, Site.recorded?]
  cases Construct.of site.tree with
  | importStatement => exact himported _
  | call =>
    rw [List.filterMap_append, himported, List.nil_append, if_pos rfl]
    cases site.enclosing? <;> cases callee? source site.tree <;> rfl
  | classDeclaration => rfl
  | classExpression => cases site.isDefault <;> rfl
  | _ => cases site.declared? source <;> rfl

theorem calls_iff {tree : SyntaxTree} {callee : String} : Calls source tree callee ↔
    Construct.of tree = .call ∧ callee? source tree = some callee := by
  unfold callee?
  constructor
  · rintro ⟨call, function, plain⟩
    rw [function]
    exact ⟨call, if_pos plain⟩
  · rintro ⟨call, h⟩
    rw [Option.bind_eq_bind, Option.bind_eq_some_iff] at h
    obtain ⟨callee, function, h⟩ := h
    split_ifs at h with hplain
    obtain rfl := Option.some.inj h
    exact .intro call function hplain

/-- A call is recorded just if it is one of a plain name and has a function around it. -/
theorem recorded?_siteOf {site : CallSite} : (siteOf source place).recorded? source = some site ↔
    Calls source place.tree site.callee ∧ Encloses source place.above site.caller := by
  rw [calls_iff, encloses_iff]
  unfold Site.recorded? siteOf
  split_ifs with hcall
  · simp only [Option.bind_eq_some_iff, Option.map_eq_some_iff]
    constructor
    · rintro ⟨caller, hcaller, callee, hcallee, rfl⟩
      exact ⟨⟨hcall, hcallee⟩, hcaller⟩
    · rintro ⟨⟨-, hcallee⟩, hcaller⟩
      exact ⟨site.caller, hcaller, site.callee, hcallee, rfl⟩
  · exact ⟨nofun, fun h => absurd h.1.1 hcall⟩

/-- The functions found at a place are those declared there. -/
theorem exists_function_mem_findingsAt :
    (∃ complexity, .function ⟨name, complexity⟩ ∈ findingsAt source scope place) ↔
      Declares source place name := by
  rw [declares_iff, Option.map_eq_some_iff]
  constructor
  · rintro ⟨complexity, h⟩
    obtain ⟨function, hdeclared, -⟩ := Site.declared?_of_mem_findings h
    exact ⟨_, hdeclared, rfl⟩
  · rintro ⟨⟨name, function⟩, hdeclared, rfl⟩
    refine ⟨function.complexity scope, ?_⟩
    rw [findingsAt, Site.findings_of_declared? hdeclared]
    exact List.mem_singleton_self _

theorem walk_siteOf (place : Occurrence) :
    (siteOf source place).walk source scope = place.reach.flatMap (findingsAt source scope) := by
  obtain ⟨tree, above⟩ := place
  induction tree using induction_children generalizing above with
  | step tree ih =>
    rw [Site.walk_eq, children_siteOf, Occurrence.reach_eq, List.flatMap_cons, List.flatMap_map,
      List.flatMap_assoc]
    refine congrArg (_ ++ ·) (List.flatMap_congr fun place hplace => ?_)
    obtain ⟨child, hchild, rfl⟩ := List.mem_map.1 hplace
    exact ih child hchild (tree :: above)

/-- One turn of the work list: the first site that is pending gives way to its children. -/
def turn (source : String) (scope : ComplexityScope) :
    List Site × List Finding → List Site × List Finding
  | ([], found) => ([], found)
  | (site :: rest, found) =>
    (site.children source ++ rest, (site.findings source scope).reverse ++ found)

def after (source : String) (scope : ComplexityScope) (tree : SyntaxTree) (turns : Nat) :
    List Site × List Finding :=
  (turn source scope)^[turns] ([⟨tree, none, false⟩], [])

/-- What is pending after some turns are places whose reaches make up the rest of the pre-order. -/
theorem after_spec (source : String) (scope : ComplexityScope) (tree : SyntaxTree) (turns : Nat) :
    ∃ places : List Occurrence, (after source scope tree turns).1 = places.map (siteOf source) ∧
      places.flatMap Occurrence.reach = (tree.occurrences []).drop turns ∧
      (after source scope tree turns).2.reverse =
        ((tree.occurrences []).take turns).flatMap (findingsAt source scope) := by
  induction turns with
  | zero => exact ⟨[⟨tree, []⟩], rfl, List.flatMap_singleton .., rfl⟩
  | succ turns ih =>
    obtain ⟨places, hpending, hrest, hfound⟩ := ih
    rw [after, Function.iterate_succ_apply']
    change ∃ places : List Occurrence,
      (turn source scope (after source scope tree turns)).1 = _ ∧ _ ∧
        (turn source scope (after source scope tree turns)).2.reverse = _
    generalize after source scope tree turns = state at hpending hfound
    obtain ⟨pending, found⟩ := state
    dsimp only at hpending hfound
    subst hpending
    cases places with
    | nil =>
      -- with nothing pending all nodes have been taken up
      have hend : (tree.occurrences []).length ≤ turns := List.drop_eq_nil_iff.1 hrest.symm
      refine ⟨[], rfl, ?_, ?_⟩
      · rw [List.drop_eq_nil_of_le (by omega), List.flatMap_nil]
      · rw [List.take_of_length_le hend] at hfound
        rw [List.take_of_length_le (by omega)]
        exact hfound
    | cons place places =>
      -- the first pending place is the next one in pre-order
      rw [List.flatMap_cons, Occurrence.reach_eq, List.cons_append] at hrest
      have hnext : (tree.occurrences [])[turns]? = some place := by
        rw [← List.head?_drop, ← hrest, List.head?_cons]
      refine ⟨place.children ++ places, ?_, ?_, ?_⟩
      · rw [List.map_append, ← children_siteOf]
        rfl
      · rw [List.flatMap_append, ← List.tail_drop, ← hrest, List.tail_cons]
      · rw [List.map_cons, turn, List.reverse_append, List.reverse_reverse, hfound,
          List.take_add_one, hnext, Option.toList_some, List.flatMap_append,
          List.flatMap_singleton]
        rfl

/-- The work list takes up each node once, in pre-order, and finds at its place what is found there.
A call is recorded once if it is one of a plain name below a declared function, for the nearest such
function, which is found as well; otherwise it is not. -/
theorem ofTree_preorder (source : String) (scope : ComplexityScope) (tree : SyntaxTree) :
    (∀ turns, (after source scope tree turns).1.head?.map (·.tree) = tree.preorder[turns]?) ∧
      after source scope tree tree.preorder.length = ([], (ofTree source scope tree).reverse) ∧
      (tree.occurrences []).map (·.tree) = tree.preorder ∧
      ofTree source scope tree = (tree.occurrences []).flatMap (findingsAt source scope) ∧
      (∀ place ∈ tree.occurrences [], ∃ recorded? : Option CallSite,
        (findingsAt source scope place).filterMap call? = recorded?.toList ∧
          ∀ site, recorded? = some site ↔
            Calls source place.tree site.callee ∧ Encloses source place.above site.caller) ∧
      (∀ place ∈ tree.occurrences [], (∃ name, Encloses source place.above name) ↔
        ∃ near declaring far, place.above = near ++ declaring :: far ∧
          ∃ name, Declares source ⟨declaring, far⟩ name) ∧
      (∀ place ∈ tree.occurrences [], ∀ name,
        (∃ complexity, .function ⟨name, complexity⟩ ∈ findingsAt source scope place) ↔
          Declares source place name) ∧
      ∀ site, .call site ∈ ofTree source scope tree →
        ∃ outline, .function outline ∈ ofTree source scope tree ∧ outline.name = site.caller := by
  have hnodes : (tree.occurrences []).map (·.tree) = tree.preorder :=
    Occurrence.map_tree_reach ⟨tree, []⟩
  have hfound : ofTree source scope tree =
      (tree.occurrences []).flatMap (findingsAt source scope) :=
    (ofTree_eq source scope tree).trans (walk_siteOf ⟨tree, []⟩)
  refine ⟨fun turns => ?_, ?_, hnodes, hfound, fun place _ => ?_, fun place _ => exists_encloses_iff,
    fun place _ name => exists_function_mem_findingsAt, fun site hsite => ?_⟩
  · obtain ⟨places, hpending, hrest, -⟩ := after_spec source scope tree turns
    rw [← hnodes, List.getElem?_map, ← List.head?_drop, ← hrest, hpending]
    cases places with
    | nil => rfl
    | cons place places =>
      rw [List.flatMap_cons, Occurrence.reach_eq]
      rfl
  · obtain ⟨places, hpending, hrest, hdone⟩ := after_spec source scope tree tree.preorder.length
    rw [← hnodes, List.length_map] at hpending hrest hdone ⊢
    rw [List.drop_length] at hrest
    rw [List.take_length, ← hfound] at hdone
    refine Prod.ext ?_ (List.reverse_eq_iff.1 hdone)
    cases places with
    | nil => exact hpending
    | cons place places =>
      rw [List.flatMap_cons, Occurrence.reach_eq] at hrest
      cases hrest
  · exact ⟨_, filterMap_call?_findings _, fun site => recorded?_siteOf⟩
  · rw [ofTree_eq] at hsite ⊢
    exact (Site.caller_of_mem_walk hsite).resolve_left nofun

end Finding

end CodeGraph
