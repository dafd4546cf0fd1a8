import CodeGraph.Outline.Extract
import CodeGraph.Proofs.Outline.Walk

/-! Outlines are closed: calls and inheritance only join functions and classes of the outline they
stand in, and each function of an outline is one of the syntax tree. -/
namespace CodeGraph

namespace Finding.Site

variable {source : String} {scope : ComplexityScope} {site child : Site} {name : String}
  {function : SyntaxTree} {outline : FunctionOutline} {call : CallSite}

theorem findings_of_declared? (h : site.declared? source = some (name, function)) :
    site.findings source scope = [.function ⟨name, function.complexity scope⟩] := by
  have hdeclared := h
  unfold declared? at h
  unfold findings
  split at h
  all_goals simp_all

theorem declared?_of_mem_findings (h : .function outline ∈ site.findings source scope) :
    ∃ function, site.declared? source = some (outline.name, function) ∧
      outline.complexity = function.complexity scope := by
  rw [findings_eq] at h
  split at h
  case h_5 =>
    obtain ⟨⟨name, function⟩, hdeclared, rfl⟩ : ∃ declared, site.declared? source = some declared ∧
        (⟨declared.1, declared.2.complexity scope⟩ : FunctionOutline) = outline := by
      simpa using h
    exact ⟨function, hdeclared, rfl⟩
  all_goals simp [Option.bind_eq_some_iff] at h

theorem enclosing?_of_mem_findings (h : .call call ∈ site.findings source scope) :
    site.enclosing? = some call.caller := by
  rw [findings_eq] at h
  split at h
  case h_2 =>
    obtain ⟨caller, hcaller, callee, -, rfl⟩ : ∃ caller, site.enclosing? = some caller ∧
        ∃ callee, callee? source site.tree = some callee ∧ (⟨caller, callee⟩ : CallSite) = call := by
      simpa [Option.bind_eq_some_iff] using h
    exact hcaller
  all_goals simp [Option.bind_eq_some_iff] at h

/-- What a node declares is the node itself or a value that it binds. -/
theorem isFunction_of_declared? (h : site.declared? source = some (name, function)) :
    function ∈ site.tree.preorder ∧ (Construct.of function).isFunction := by
  unfold declared? at h
  split at h
  · rename_i hform
    obtain ⟨-, rfl⟩ := Prod.mk.inj (Option.some.inj h)
    exact ⟨SyntaxTree.self_mem_preorder _, by rw [hform]; rfl⟩
  · rename_i hform
    split_ifs at h
    obtain ⟨-, rfl⟩ := Prod.mk.inj (Option.some.inj h)
    exact ⟨SyntaxTree.self_mem_preorder _, by rw [hform]; rfl⟩
  · simp only [binding?, Option.bind_eq_bind, Option.bind_eq_some_iff] at h
    obtain ⟨binder, -, value, hvalue, h⟩ := h
    have hbelow := SyntaxTree.mem_preorder_of_mem_children
      (SyntaxTree.mem_children_of_field? hvalue) (SyntaxTree.self_mem_preorder value)
    split_ifs at h
    split at h
    · rename_i hform
      obtain ⟨-, rfl⟩ := Prod.mk.inj (Option.some.inj h)
      exact ⟨hbelow, by rw [hform]; rfl⟩
    · rename_i hform
      obtain ⟨-, rfl⟩ := Prod.mk.inj (Option.some.inj h)
      exact ⟨hbelow, by rw [hform]; rfl⟩
    · cases h
  · cases h

theorem enclosing?_of_mem_children (h : child ∈ site.children source) :
    child.enclosing? = ((site.declared? source).map (·.1)).or site.enclosing? := by
  obtain ⟨tree, -, rfl⟩ := List.mem_map.1 h
  rfl

theorem mem_walk {finding : Finding} : finding ∈ site.walk source scope ↔
    finding ∈ site.findings source scope ∨
      ∃ child ∈ site.children source, finding ∈ child.walk source scope := by
  rw [walk_eq, List.mem_append, List.mem_flatMap]

/-- A call stands in the function around the whole site, or in one that is found in it. -/
theorem caller_of_mem_walk (h : .call call ∈ site.walk source scope) :
    site.enclosing? = some call.caller ∨
      ∃ outline, .function outline ∈ site.walk source scope ∧ outline.name = call.caller := by
  induction site using Site.walk.induct source with
  | case1 site ih =>
    rcases mem_walk.1 h with hhere | ⟨child, hchild, hbelow⟩
    · exact .inl (enclosing?_of_mem_findings hhere)
    · rcases ih ⟨child, hchild⟩ hbelow with hcaller | ⟨outline, houtline, hname⟩
      · rw [enclosing?_of_mem_children hchild] at hcaller
        cases hdeclared : site.declared? source with
        | none =>
          rw [hdeclared] at hcaller
          exact .inl hcaller
        | some declared =>
          obtain ⟨name, function⟩ := declared
          rw [hdeclared] at hcaller
          have hfound : site.findings source scope = _ := findings_of_declared? hdeclared
          refine .inr ⟨⟨name, function.complexity scope⟩, mem_walk.2 (.inl ?_), ?_⟩
          · rw [hfound]
            exact List.mem_singleton_self _
          · exact Option.some.inj hcaller
      · exact .inr ⟨outline, mem_walk.2 (.inr ⟨child, hchild, houtline⟩), hname⟩

theorem function_of_mem_walk (h : .function outline ∈ site.walk source scope) :
    ∃ function ∈ site.tree.preorder, (Construct.of function).isFunction ∧
      outline.complexity = function.complexity scope := by
  induction site using Site.walk.induct source with
  | case1 site ih =>
    rcases mem_walk.1 h with hhere | ⟨child, hchild, hbelow⟩
    · obtain ⟨function, hdeclared, hcomplexity⟩ := declared?_of_mem_findings hhere
      obtain ⟨hmem, hfunction⟩ := isFunction_of_declared? hdeclared
      exact ⟨function, hmem, hfunction, hcomplexity⟩
    · obtain ⟨function, hmem, hfunction, hcomplexity⟩ := ih ⟨child, hchild⟩ hbelow
      have hchild := tree_mem_of_mem_children hchild
      exact ⟨function, SyntaxTree.mem_preorder_of_mem_children hchild hmem, hfunction, hcomplexity⟩

end Finding.Site

namespace Outline

variable {file content : String} {scope : ComplexityScope} {parsed : ParsedSource}

/-- Calls and inheritance join functions and classes of the outline itself. -/
structure Closed (outline : Outline) : Prop where
  inheritance : ∀ edge ∈ outline.inheritance,
    ∃ type ∈ outline.types, ∃ parent ∈ outline.types,
      edge = ⟨Node.typeId outline.file type.name, Node.typeId outline.file parent.name, .inherits⟩
  calls : ∀ edge ∈ outline.calls,
    ∃ caller ∈ outline.functions, ∃ callee ∈ outline.functions, caller.name ≠ callee.name ∧
      edge = ⟨Node.functionId outline.file caller.name, Node.functionId outline.file callee.name,
        .calls⟩

theorem closed_opaqueFile (file : String) (lines : UInt64) (status : OutlineStatus) :
    (opaqueFile file lines status).Closed :=
  ⟨nofun, nofun⟩

theorem closed_ofFindings {lines : UInt64} {dialect : Dialect} {found : List Finding}
    (h : ∀ call, .call call ∈ found →
      ∃ outline, .function outline ∈ found ∧ outline.name = call.caller) :
    (ofFindings file lines dialect found).Closed where
  inheritance := by
    intro edge hedge
    obtain ⟨type, htype, hedge⟩ := List.mem_filterMap.1 hedge
    split at hedge
    · rename_i name hname
      split_ifs at hedge with hany
      obtain ⟨parent, hparent, hparentName⟩ := List.any_eq_true.1 hany
      obtain rfl := of_decide_eq_true hparentName
      exact ⟨type, htype, parent, hparent, (Option.some.inj hedge).symm⟩
    · cases hedge
  calls := by
    intro edge hedge
    obtain ⟨call, hcall, hedge⟩ := List.mem_filterMap.1 hedge
    split_ifs at hedge with hcallee
    obtain ⟨hne, hany⟩ := hcallee
    obtain ⟨callee, hcallee, hname⟩ := List.any_eq_true.1 hany
    have hname := of_decide_eq_true hname
    have hmem : .call call ∈ found := by
      obtain ⟨finding, hfinding, heq⟩ := List.mem_filterMap.1 hcall
      split at heq
      · exact Option.some.inj heq ▸ hfinding
      · cases heq
    obtain ⟨caller, hcaller, hcallerName⟩ := h call hmem
    refine ⟨caller, List.mem_filterMap.2 ⟨_, hcaller, rfl⟩, callee, hcallee, ?_, ?_⟩
    · rw [hcallerName, hname]
      exact hne
    · rw [hcallerName, hname]
      exact (Option.some.inj hedge).symm

theorem closed_ofParsed (scope : ComplexityScope) (file content : String) (parsed : ParsedSource) :
    (ofParsed scope file content parsed).Closed := by
  apply closed_ofFindings
  intro call hcall
  rw [Finding.ofTree_eq] at hcall ⊢
  exact (Finding.Site.caller_of_mem_walk hcall).resolve_left nofun

/-- Each function of an outline is a function of the syntax tree. -/
theorem function_of_mem_functions {outline : FunctionOutline}
    (h : outline ∈ (ofParsed scope file content parsed).functions) :
    ∃ function ∈ parsed.tree.preorder, (Construct.of function).isFunction ∧
      outline.complexity = function.complexity scope := by
  obtain ⟨finding, hfinding, heq⟩ := List.mem_filterMap.1 h
  split at heq
  · obtain rfl := Option.some.inj heq
    rw [Finding.ofTree_eq] at hfinding
    exact Finding.Site.function_of_mem_walk hfinding
  · cases heq

end Outline

end CodeGraph
