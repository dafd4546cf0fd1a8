import CodeGraph.Proofs.Outline.Obscured

/-! Comments and the outlines of sources: functions and calls do not depend on comments, and nothing
else does where no child is taken by its place. -/
namespace CodeGraph

namespace Finding

open SyntaxTree

variable {source : String} {scope : ComplexityScope} {tree : SyntaxTree} {site : Site}

theorem children_withoutComments (h : site.tree.CommentsApart) :
    site.withoutComments.children source =
      ((site.children source).filter (! ·.tree.isComment)).map Site.withoutComments := by
  unfold Site.children
  rw [declared?_withoutComments h, Option.map_map]
  dsimp only [Site.withoutComments]
  rw [exportsDefault_withoutComments h, SyntaxTree.children_withoutComments, List.filter_map,
    List.map_map, List.map_map]
  rfl

/-- Nothing is found in a comment. -/
theorem walk_of_isComment (h : site.tree.CommentsApart) (hcomment : site.tree.isComment) :
    site.walk source scope = [] := by
  have hdeclared : site.declared? source = none := by
    unfold Site.declared?
    rw [construct_of_isComment hcomment]
  have hchildren : site.children source = [] := by
    unfold Site.children SyntaxTree.children
    rw [h.childless _ (self_mem_preorder site.tree) hcomment]
    rfl
  rw [Site.walk_eq, hchildren, Site.findings, construct_of_isComment hcomment, hdeclared]
  rfl

variable (site) in
/-- What relates the findings at each node relates what is found in the whole tree. -/
theorem walk_withoutComments {R : List Finding → List Finding → Prop} (nil : R [] [])
    (append : ∀ {found plain others plainOthers}, R found plain → R others plainOthers →
      R (found ++ others) (plain ++ plainOthers))
    (h : site.tree.CommentsApart)
    (findings : ∀ node : Site, node.tree ∈ site.tree.preorder →
      R (node.findings source scope) (node.withoutComments.findings source scope)) :
    R (site.walk source scope) (site.withoutComments.walk source scope) := by
  induction site using Site.walk.induct source with
  | case1 site ih =>
    rw [Site.walk_eq, Site.walk_eq source scope site.withoutComments, children_withoutComments h,
      List.flatMap_map]
    refine append (findings site (self_mem_preorder _)) ?_
    have hchildren : ∀ child ∈ site.children source, child.tree.CommentsApart ∧
        R (child.walk source scope) (child.withoutComments.walk source scope) := by
      intro child hchild
      have hmem := Site.tree_mem_of_mem_children hchild
      have happart := h.of_mem_children hmem
      exact ⟨happart, ih ⟨child, hchild⟩ happart fun node hnode =>
        findings node (mem_preorder_of_mem_children hmem hnode)⟩
    generalize site.children source = children at hchildren
    induction children with
    | nil => exact nil
    | cons child rest ihrest =>
      obtain ⟨hchild, hwalk⟩ := hchildren child List.mem_cons_self
      have hrest := ihrest fun other hother => hchildren other (List.mem_cons_of_mem _ hother)
      by_cases hcomment : child.tree.isComment = true
      · rw [List.filter_cons_of_neg (by simpa using hcomment), List.flatMap_cons,
          walk_of_isComment hchild hcomment, List.nil_append]
        exact hrest
      · rw [List.filter_cons_of_pos (by simpa using hcomment), List.flatMap_cons,
          List.flatMap_cons]
        exact append hwalk hrest

theorem ofTree_obscures (h : tree.CommentsApart) :
    Obscures (ofTree source scope tree) (ofTree source scope tree.withoutComments) := by
  rw [ofTree_eq, ofTree_eq]
  exact walk_withoutComments ⟨tree, none, false⟩ (.refl _) .append h
    fun node hnode => findings_obscures (h.of_mem hnode)

theorem ofTree_unobscured (h : tree.CommentsApart)
    (hplain : ∀ node ∈ tree.preorder, Unobscured source node) :
    ofTree source scope tree = ofTree source scope tree.withoutComments := by
  rw [ofTree_eq, ofTree_eq]
  refine walk_withoutComments ⟨tree, none, false⟩ rfl (fun h hothers => by rw [h, hothers])
    h fun node hnode => (findings_unobscured (h.of_mem hnode) fun other hother => ?_).symm
  exact hplain other (preorder_subset_of_mem hnode hother)

end Finding

namespace Outline

open Finding

variable {file content : String} {scope : ComplexityScope} {parsed : ParsedSource}
  {types plain : List TypeOutline}

theorem any_name_eq (h : List.Forall₂ ObscuresType types plain) (name : String) :
    types.any (·.name = name) = plain.any (·.name = name) := by
  induction h with
  | nil => rfl
  | cons htype _ ih => rw [List.any_cons, List.any_cons, ih, htype.name]

theorem inheritanceEdges_sublist (h : List.Forall₂ ObscuresType types plain) :
    (inheritanceEdges file types).Sublist (inheritanceEdges file plain) := by
  unfold inheritanceEdges
  simp only [any_name_eq h]
  -- The names that count as declared stay those of all classes.
  generalize heq : (fun name : String => plain.any (·.name = name)) = known
  have hknown : ∀ name : String, plain.any (·.name = name) = known name := congrFun heq
  simp only [hknown]
  clear hknown heq
  induction h with
  | nil => exact .refl _
  | @cons type other _ _ htype _ ih =>
    rw [List.filterMap_cons, List.filterMap_cons, htype.name]
    rcases htype.superclass? with hnone | hsame
    · rw [hnone]
      dsimp only
      split
      · exact ih
      · exact ih.cons _
    · rw [hsame]
      split
      · exact ih
      · exact ih.cons_cons _

/-- Without its comments a source has the same functions and calls. Comments only hide what is
required, names of members and classes that are extended, and this only where they stand among the
arguments of `require` or at the beginning of a computed key or a heritage. -/
theorem ofParsed_withoutComments (scope : ComplexityScope) (file content : String)
    (parsed : ParsedSource) (h : parsed.tree.CommentsApart) :
    let outline := ofParsed scope file content parsed
    let plain := ofParsed scope file content ⟨parsed.dialect, parsed.tree.withoutComments⟩
    outline.functions = plain.functions ∧ outline.calls = plain.calls ∧
      outline.imports.Sublist plain.imports ∧
      List.Forall₂ ObscuresType outline.types plain.types ∧
      outline.inheritance.Sublist plain.inheritance ∧
      ((∀ node ∈ parsed.tree.preorder, Unobscured content node) → outline = plain) := by
  intro outline plain
  have hfound : Obscures (ofTree content scope parsed.tree)
      (ofTree content scope parsed.tree.withoutComments) := ofTree_obscures h
  have hfunctions : outline.functions = plain.functions := hfound.functions
  refine ⟨hfunctions, ?_, hfound.imports, hfound.types, inheritanceEdges_sublist hfound.types, ?_⟩
  · change callEdges file outline.functions _ = callEdges file plain.functions _
    rw [hfunctions]
    exact congrArg _ hfound.calls
  · intro hplain
    exact congrArg (ofFindings file (countLines content) parsed.dialect)
      (ofTree_unobscured h hplain)

namespace Sample

/-- A call of require with a comment before its argument. -/
def commented : SyntaxTree :=
  .node "program" true ⟨0, 20⟩
    [(none, .node "expression_statement" true ⟨0, 20⟩
      [(none, .node "call_expression" true ⟨0, 20⟩
        [(some "function", .node "identifier" true ⟨0, 7⟩ []),
        (some "arguments", .node "arguments" true ⟨7, 20⟩
          [(none, .node "(" false ⟨7, 8⟩ []),
          (none, .node "comment" true ⟨8, 15⟩ []),
          (none, .node "string" true ⟨16, 19⟩ []),
          (none, .node ")" false ⟨19, 20⟩ [])])])])]

def source : String := "require(/* c */ 'x')"

/-- The same call, with the comment before it. -/
def beside : SyntaxTree :=
  .node "program" true ⟨0, 20⟩
    [(none, .node "comment" true ⟨0, 7⟩ []),
    (none, .node "expression_statement" true ⟨8, 20⟩
      [(none, .node "call_expression" true ⟨8, 20⟩
        [(some "function", .node "identifier" true ⟨8, 15⟩ []),
        (some "arguments", .node "arguments" true ⟨15, 20⟩
          [(none, .node "(" false ⟨15, 16⟩ []),
          (none, .node "string" true ⟨16, 19⟩ []),
          (none, .node ")" false ⟨19, 20⟩ [])])])])]

def besideSource : String := "/* c */ require('x')"

theorem commentsApart : commented.CommentsApart := ⟨by decide +kernel, by decide +kernel⟩

end Sample

/-- What is required after a comment is not imported. -/
theorem ofParsed_comment_hides_import :
    ¬ ∀ (scope : ComplexityScope) (file content : String) (parsed : ParsedSource),
      parsed.tree.CommentsApart →
        (ofParsed scope file content ⟨parsed.dialect, parsed.tree.withoutComments⟩).imports =
          (ofParsed scope file content parsed).imports := by
  intro h
  have himports := h .inclusive "a.js" Sample.source ⟨.typed, Sample.commented⟩ Sample.commentsApart
  have hplain : (ofParsed .inclusive "a.js" Sample.source
      ⟨.typed, Sample.commented.withoutComments⟩).imports = ["x"] := by decide +kernel
  have hhidden : (ofParsed .inclusive "a.js" Sample.source
      ⟨.typed, Sample.commented⟩).imports = [] := by decide +kernel
  rw [hplain, hhidden] at himports
  cases himports

/-- A comment next to the call hides nothing. -/
theorem ofParsed_sample_withoutComments :
    Sample.beside.CommentsApart ∧
      (∀ node ∈ Sample.beside.preorder, Unobscured Sample.besideSource node) ∧
      ofParsed .inclusive "a.js" Sample.besideSource ⟨.typed, Sample.beside⟩ =
        ofParsed .inclusive "a.js" Sample.besideSource ⟨.typed, Sample.beside.withoutComments⟩ ∧
      (ofParsed .inclusive "a.js" Sample.besideSource ⟨.typed, Sample.beside⟩).imports = ["x"] ∧
      Sample.beside.withoutComments.preorder.length < Sample.beside.preorder.length := by
  have happart : Sample.beside.CommentsApart := ⟨by decide +kernel, by decide +kernel⟩
  have harguments : ∀ node ∈ Sample.beside.preorder,
      callee? Sample.besideSource node = some "require" →
        ∀ arguments ∈ node.field? "arguments", ∀ child ∈ arguments.namedChildren,
          ¬ child.isComment := by decide +kernel
  have hfirst : ∀ node ∈ Sample.beside.preorder,
      node.kind = "class_heritage" ∨ node.kind = "computed_property_name" →
        ∀ child ∈ node.namedChildren.head?, ¬ child.isComment := by decide +kernel
  have hplain : ∀ node ∈ Sample.beside.preorder, Unobscured Sample.besideSource node :=
    fun node hnode => ⟨harguments node hnode, hfirst node hnode⟩
  obtain ⟨-, -, -, -, -, hsame⟩ := ofParsed_withoutComments .inclusive "a.js" Sample.besideSource
    ⟨.typed, Sample.beside⟩ happart
  exact ⟨happart, hplain, hsame hplain, by decide +kernel, by decide +kernel⟩

end Outline

end CodeGraph
