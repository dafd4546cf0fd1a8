import CodeGraph.Proofs.Outline.Closed
import CodeGraph.Proofs.Syntax.Comment

/-! Comments and what one node of a syntax tree is found to be. A comment can hide what is required,
the class that is extended or the name of a member, but only where a child is taken by its place
among the others. -/
namespace CodeGraph

namespace Finding

open SyntaxTree

variable {source : String} {scope : ComplexityScope} {tree : SyntaxTree}

/-- A node has no comment where its children are taken by their places: among the arguments of
`require`, and at the beginning of a heritage or of a computed key. -/
structure Unobscured (source : String) (tree : SyntaxTree) : Prop where
  arguments : callee? source tree = some "require" → ∀ arguments ∈ tree.field? "arguments",
    ∀ child ∈ arguments.namedChildren, ¬ child.isComment
  first : tree.kind = "class_heritage" ∨ tree.kind = "computed_property_name" →
    ∀ child ∈ tree.namedChildren.head?, ¬ child.isComment

/-- The name of a member, with a comment in its key or without. -/
def ObscuresName (name plain : String) : Prop := name = plain ∨ name = unknownMember

/-- The outline of a class, with comments in its heritage and its keys or without. -/
structure ObscuresType (type plain : TypeOutline) : Prop where
  name : type.name = plain.name
  methods : List.Forall₂ ObscuresName type.methods plain.methods
  superclass? : type.superclass? = none ∨ type.superclass? = plain.superclass?

/-- What is found with comments, beside what is found without them. -/
structure Obscures (found plain : List Finding) : Prop where
  imports : (found.filterMap imported?).Sublist (plain.filterMap imported?)
  types : List.Forall₂ ObscuresType (found.filterMap type?) (plain.filterMap type?)
  functions : found.filterMap function? = plain.filterMap function?
  calls : found.filterMap call? = plain.filterMap call?

theorem ObscuresType.refl (type : TypeOutline) : ObscuresType type type :=
  ⟨rfl, List.forall₂_same.2 fun _ _ => .inl rfl, .inr rfl⟩

theorem Obscures.refl (found : List Finding) : Obscures found found :=
  ⟨List.Sublist.refl _, List.forall₂_same.2 fun type _ => .refl type, rfl, rfl⟩

theorem Obscures.append {found plain others plainOthers : List Finding} (h : Obscures found plain)
    (hothers : Obscures others plainOthers) : Obscures (found ++ others) (plain ++ plainOthers) where
  imports := by
    rw [List.filterMap_append, List.filterMap_append]
    exact h.imports.append hothers.imports
  types := by
    rw [List.filterMap_append, List.filterMap_append]
    exact List.rel_append h.types hothers.types
  functions := by rw [List.filterMap_append, List.filterMap_append, h.functions, hothers.functions]
  calls := by rw [List.filterMap_append, List.filterMap_append, h.calls, hothers.calls]

theorem exportsDefault_withoutComments (h : tree.CommentsApart) :
    exportsDefault tree.withoutComments = exportsDefault tree := by
  unfold exportsDefault
  rw [h.construct_eq, children_withoutComments, List.any_map, List.any_filter]
  refine congrArg _ (congrArg _ (funext fun child => ?_))
  simp only [Function.comp_apply, kind_withoutComments, isComment]
  by_cases hkind : child.kind = "default"
  · simp [hkind]
  · simp [hkind]

theorem name?_withoutComments (h : tree.CommentsApart) :
    name? source tree.withoutComments = name? source tree := by
  unfold name?
  rw [h.field?_eq, Option.map_map]
  exact congrArg (Option.map · _) (funext (text_withoutComments source))

theorem callee?_withoutComments (h : tree.CommentsApart) :
    callee? source tree.withoutComments = callee? source tree := by
  unfold callee?
  rw [h.field?_eq]
  cases tree.field? "function" with
  | none => rfl
  | some callee => simp only [Option.map_some, Option.bind_eq_bind, Option.bind_some,
      kind_withoutComments, text_withoutComments]

theorem binding?_withoutComments (h : tree.CommentsApart) :
    binding? source tree.withoutComments =
      (binding? source tree).map fun binding => (binding.1, binding.2.withoutComments) := by
  unfold binding?
  rw [h.field?_eq, h.field?_eq]
  cases tree.field? "name" with
  | none => rfl
  | some name =>
    cases hvalue : tree.field? "value" with
    | none => rfl
    | some value =>
      have hvalue := (h.of_mem_children (mem_children_of_field? hvalue)).construct_eq
      simp only [Option.map_some, Option.bind_eq_bind, Option.bind_some, kind_withoutComments,
        text_withoutComments, hvalue]
      split_ifs
      · split <;> rfl
      · rfl

/-- What is required, as a condition on the arguments. -/
theorem required?_eq (source : String) (tree : SyntaxTree) : required? source tree =
    if callee? source tree = some "require" then
      (tree.field? "arguments").bind fun arguments =>
        match arguments.namedChildren with
        | [argument] => argument.quoted? source
        | _ => none
    else none := by
  unfold required?
  cases callee? source tree with
  | none => rfl
  | some callee =>
    by_cases hcallee : callee = "require"
    · rw [if_pos (congrArg some hcallee)]
      exact if_pos hcallee
    · rw [if_neg (mt Option.some.inj hcallee)]
      exact if_neg hcallee

variable (source) in
/-- A comment is one more argument, which hides what is required. -/
theorem required?_obscures (h : tree.CommentsApart) : required? source tree = none ∨
    required? source tree = required? source tree.withoutComments := by
  rw [required?_eq, required?_eq, callee?_withoutComments h, h.field?_eq]
  split_ifs
  · cases tree.field? "arguments" with
    | none => exact .inl rfl
    | some arguments =>
      rw [Option.bind_some, Option.map_some, Option.bind_some, namedChildren_withoutComments]
      split
      · rename_i argument hargument
        rw [hargument]
        by_cases hcomment : argument.isComment = true
        · have hkind : argument.kind = "comment" := of_decide_eq_true hcomment
          refine .inl ?_
          rw [quoted?, hkind]
          rfl
        · rw [List.filter_cons_of_pos (by simpa using hcomment)]
          exact .inr (quoted?_withoutComments source argument).symm
      · exact .inl rfl
  · exact .inl rfl

theorem required?_withoutComments (h : tree.CommentsApart) (hplain : Unobscured source tree) :
    required? source tree.withoutComments = required? source tree := by
  rw [required?_eq, required?_eq source tree, callee?_withoutComments h, h.field?_eq]
  split_ifs with hcallee
  · cases harguments : tree.field? "arguments" with
    | none => rfl
    | some arguments =>
      have hall : arguments.namedChildren.filter (! ·.isComment) = arguments.namedChildren :=
        List.filter_eq_self.2 fun child hchild => by
          simpa using hplain.arguments hcallee arguments harguments child hchild
      rw [Option.bind_some, Option.map_some, Option.bind_some, namedChildren_withoutComments, hall]
      cases arguments.namedChildren with
      | nil => rfl
      | cons argument rest =>
        cases rest with
        | nil => exact quoted?_withoutComments source argument
        | cons _ _ => rfl
  · rfl

theorem keyName?_withoutComments (h : tree.kind = "computed_property_name" →
      ∀ child ∈ tree.namedChildren.head?, ¬ child.isComment) :
    keyName? source tree.withoutComments = keyName? source tree := by
  unfold keyName?
  rw [kind_withoutComments, text_withoutComments]
  split
  · rfl
  · rfl
  · rfl
  · rename_i hkind
    rw [head?_namedChildren_withoutComments (h hkind)]
    cases tree.namedChildren.head? with
    | none => rfl
    | some inner => simp only [Option.map_some, kind_withoutComments, text_withoutComments]
  · rfl

/-- A comment at the beginning of a computed key hides its name. -/
theorem keyName?_obscures (source : String) (tree : SyntaxTree) :
    keyName? source tree = keyName? source tree.withoutComments ∨
      keyName? source tree = some unknownMember ∧
        (keyName? source tree.withoutComments).isSome := by
  by_cases h : ∃ child, tree.namedChildren.head? = some child ∧ child.isComment
  · obtain ⟨child, hchild, hcomment⟩ := h
    have hkind : child.kind ≠ "identifier" := by
      rw [show child.kind = "comment" from of_decide_eq_true hcomment]
      decide
    unfold keyName?
    rw [kind_withoutComments, text_withoutComments, hchild]
    split
    · exact .inl rfl
    · exact .inl rfl
    · exact .inl rfl
    · refine .inr ⟨if_neg hkind, ?_⟩
      split
      · split_ifs <;> rfl
      · rfl
    · exact .inl rfl
  · refine .inl (keyName?_withoutComments fun _ child hchild hcomment => ?_).symm
    exact h ⟨child, hchild, hcomment⟩

theorem memberKey?_withoutComments (h : tree.CommentsApart) :
    memberKey? tree.withoutComments = (memberKey? tree).map (·.map withoutComments) := by
  unfold memberKey?
  rw [kind_withoutComments, h.field?_eq, h.field?_eq]
  split <;> rfl

/-- The key of a member is one of its fields. -/
theorem mem_children_of_memberKey? {member key : SyntaxTree}
    (h : memberKey? member = some (some key)) : key ∈ member.children := by
  unfold memberKey? at h
  split at h
  · exact mem_children_of_field? (Option.some.inj h)
  · exact mem_children_of_field? (Option.some.inj h)
  · exact mem_children_of_field? (Option.some.inj h)
  · cases h

variable (source) in
theorem memberName?_obscures (h : tree.CommentsApart) :
    memberName? source tree = memberName? source tree.withoutComments ∨
      memberName? source tree = some unknownMember ∧
        (memberName? source tree.withoutComments).isSome := by
  unfold memberName?
  rw [memberKey?_withoutComments h]
  rcases memberKey? tree with _ | _ | key
  · exact .inl rfl
  · exact .inl rfl
  · exact keyName?_obscures source key

theorem memberName?_withoutComments (h : tree.CommentsApart)
    (hplain : ∀ node ∈ tree.preorder, Unobscured source node) :
    memberName? source tree.withoutComments = memberName? source tree := by
  unfold memberName?
  rw [memberKey?_withoutComments h]
  cases hkey : memberKey? tree with
  | none => rfl
  | some key? =>
    cases key? with
    | none => rfl
    | some key =>
      have hmem := mem_preorder_of_mem_children (mem_children_of_memberKey? hkey)
        (self_mem_preorder key)
      exact keyName?_withoutComments fun hkind => (hplain key hmem).first (.inr hkind)

/-- A comment is no member. -/
theorem memberName?_of_isComment (h : tree.isComment) : memberName? source tree = none := by
  have hkind : tree.kind = "comment" := of_decide_eq_true h
  unfold memberName? memberKey?
  rw [hkind]
  rfl

/-- The names of some members. -/
theorem methods_obscures {members : List SyntaxTree}
    (h : ∀ member ∈ members, member.CommentsApart) :
    List.Forall₂ ObscuresName (members.filterMap (memberName? source))
      (((members.filter (! ·.isComment)).map withoutComments).filterMap (memberName? source)) := by
  induction members with
  | nil => exact .nil
  | cons member rest ih =>
    have hrest := ih fun other hother => h other (List.mem_cons_of_mem _ hother)
    by_cases hcomment : member.isComment = true
    · rw [List.filter_cons_of_neg (by simpa using hcomment),
        List.filterMap_cons_none (memberName?_of_isComment hcomment)]
      exact hrest
    · rw [List.filter_cons_of_pos (by simpa using hcomment), List.map_cons]
      rcases memberName?_obscures source (h member List.mem_cons_self) with
        hsame | ⟨hunknown, hsome⟩
      · cases hname : memberName? source member with
        | none =>
          rw [List.filterMap_cons_none hname, List.filterMap_cons_none (hsame ▸ hname)]
          exact hrest
        | some name =>
          rw [List.filterMap_cons_some hname, List.filterMap_cons_some (hsame ▸ hname)]
          exact .cons (.inl rfl) hrest
      · obtain ⟨name, hname⟩ := Option.isSome_iff_exists.1 hsome
        rw [List.filterMap_cons_some hunknown, List.filterMap_cons_some hname]
        exact .cons (.inr rfl) hrest

def extended? (source : String) (clause : SyntaxTree) : Option String :=
  (if clause.kind = "extends_clause" then clause.field? "value" else some clause).bind fun target =>
    if target.kind = "identifier" then some (target.text source) else none

theorem superclass?_eq (source : String) (tree : SyntaxTree) : superclass? source tree =
    (tree.namedChildren.find? (·.kind = "class_heritage")).bind fun heritage =>
      heritage.namedChildren.head?.bind (extended? source) := by
  unfold superclass?
  cases tree.namedChildren.find? (·.kind = "class_heritage") with
  | none => rfl
  | some heritage =>
    simp only [Option.bind_eq_bind, Option.bind_some]
    cases heritage.namedChildren.head? with
    | none => rfl
    | some clause =>
      simp only [Option.bind_some, extended?]
      split_ifs <;> simp_all

theorem extended?_withoutComments (h : tree.CommentsApart) :
    extended? source tree.withoutComments = extended? source tree := by
  unfold extended?
  rw [kind_withoutComments, h.field?_eq]
  split_ifs
  · cases tree.field? "value" with
    | none => rfl
    | some target =>
      simp only [Option.map_some, Option.bind_some, kind_withoutComments, text_withoutComments]
  · simp only [Option.bind_some, kind_withoutComments, text_withoutComments]

theorem extended?_of_isComment (h : tree.isComment) : extended? source tree = none := by
  have hkind : tree.kind = "comment" := of_decide_eq_true h
  unfold extended?
  rw [if_neg (by rw [hkind]; decide), Option.bind_some, if_neg (by rw [hkind]; decide)]

theorem mem_children_of_mem_namedChildren {child : SyntaxTree} (h : child ∈ tree.namedChildren) :
    child ∈ tree.children :=
  (List.mem_filter.1 h).1

theorem head?_bind_extended? (h : tree.CommentsApart)
    (hplain : ∀ child ∈ tree.namedChildren.head?, ¬ child.isComment) :
    tree.withoutComments.namedChildren.head?.bind (extended? source) =
      tree.namedChildren.head?.bind (extended? source) := by
  rw [head?_namedChildren_withoutComments hplain]
  cases hchild : tree.namedChildren.head? with
  | none => rfl
  | some clause =>
    have hmem := mem_children_of_mem_namedChildren (List.mem_of_head? hchild)
    exact extended?_withoutComments (h.of_mem_children hmem)

/-- A comment at the beginning of a heritage hides the class that is extended. -/
theorem superclass?_obscures (h : tree.CommentsApart) : superclass? source tree = none ∨
    superclass? source tree = superclass? source tree.withoutComments := by
  rw [superclass?_eq, superclass?_eq, find?_namedChildren_withoutComments (by decide)]
  cases hheritage : tree.namedChildren.find? (·.kind = "class_heritage") with
  | none => exact .inl rfl
  | some heritage =>
    have hmem := mem_children_of_mem_namedChildren (List.mem_of_find?_eq_some hheritage)
    rw [Option.bind_some, Option.map_some, Option.bind_some]
    by_cases hfirst : ∃ child, heritage.namedChildren.head? = some child ∧ child.isComment
    · obtain ⟨child, hchild, hcomment⟩ := hfirst
      rw [hchild]
      exact .inl (extended?_of_isComment hcomment)
    · refine .inr (head?_bind_extended? (h.of_mem_children hmem) fun child hchild hcomment => ?_).symm
      exact hfirst ⟨child, hchild, hcomment⟩

theorem superclass?_withoutComments (h : tree.CommentsApart)
    (hplain : ∀ node ∈ tree.preorder, Unobscured source node) :
    superclass? source tree.withoutComments = superclass? source tree := by
  rw [superclass?_eq, superclass?_eq, find?_namedChildren_withoutComments (by decide)]
  cases hheritage : tree.namedChildren.find? (·.kind = "class_heritage") with
  | none => rfl
  | some heritage =>
    have hmem := mem_children_of_mem_namedChildren (List.mem_of_find?_eq_some hheritage)
    have hkind := List.find?_some hheritage
    rw [decide_eq_true_eq] at hkind
    have hnode := mem_preorder_of_mem_children hmem (self_mem_preorder heritage)
    exact head?_bind_extended? (h.of_mem_children hmem) ((hplain heritage hnode).first (.inl hkind))

theorem methods_typeOutline (source name : String) (tree : SyntaxTree) :
    (typeOutline source tree name).methods =
      ((tree.field? "body").map fun body =>
        body.namedChildren.filterMap (memberName? source)).getD [] := by
  unfold typeOutline
  cases tree.field? "body" <;> rfl

theorem typeOutline_obscures (h : tree.CommentsApart) (name : String) :
    ObscuresType (typeOutline source tree name) (typeOutline source tree.withoutComments name) where
  name := rfl
  methods := by
    rw [methods_typeOutline, methods_typeOutline, h.field?_eq]
    cases hbody : tree.field? "body" with
    | none => exact .nil
    | some body =>
      have hbody := h.of_mem_children (mem_children_of_field? hbody)
      rw [Option.map_some, Option.map_some, Option.map_some, namedChildren_withoutComments]
      exact methods_obscures fun member hmember =>
        hbody.of_mem_children (mem_children_of_mem_namedChildren hmember)
  superclass? := superclass?_obscures h

theorem methods_withoutComments {members : List SyntaxTree}
    (h : ∀ member ∈ members, member.CommentsApart)
    (hplain : ∀ member ∈ members, ∀ node ∈ member.preorder, Unobscured source node) :
    ((members.filter (! ·.isComment)).map withoutComments).filterMap (memberName? source) =
      members.filterMap (memberName? source) := by
  rw [List.filterMap_eq_flatMap_toList, List.filterMap_eq_flatMap_toList, flatMap_withoutComments]
  · intro member _ hcomment
    rw [memberName?_of_isComment hcomment, Option.toList_none]
  · intro member hmember
    rw [memberName?_withoutComments (h member hmember) (hplain member hmember)]

theorem typeOutline_withoutComments (h : tree.CommentsApart)
    (hplain : ∀ node ∈ tree.preorder, Unobscured source node) (name : String) :
    typeOutline source tree.withoutComments name = typeOutline source tree name := by
  have hmethods : (typeOutline source tree.withoutComments name).methods =
      (typeOutline source tree name).methods := by
    rw [methods_typeOutline, methods_typeOutline, h.field?_eq]
    cases hbody : tree.field? "body" with
    | none => rfl
    | some body =>
      have hchild := mem_children_of_field? hbody
      have hmember : ∀ member ∈ body.namedChildren, member ∈ body.children :=
        fun member => mem_children_of_mem_namedChildren
      rw [Option.map_some, Option.map_some, Option.map_some, namedChildren_withoutComments,
        methods_withoutComments]
      · exact fun member hmem => (h.of_mem_children hchild).of_mem_children (hmember member hmem)
      · exact fun member hmem node hnode => hplain node (mem_preorder_of_mem_children hchild
          (mem_preorder_of_mem_children (hmember member hmem) hnode))
  have hsuperclass : (typeOutline source tree.withoutComments name).superclass? =
      (typeOutline source tree name).superclass? := superclass?_withoutComments h hplain
  calc
    typeOutline source tree.withoutComments name =
        ⟨name, (typeOutline source tree.withoutComments name).methods,
          (typeOutline source tree.withoutComments name).superclass?⟩ := rfl
    _ = typeOutline source tree name := by rw [hmethods, hsuperclass]; rfl

def Site.withoutComments (site : Site) : Site := { site with tree := site.tree.withoutComments }

variable {site : Site}

theorem declared?_withoutComments (h : site.tree.CommentsApart) :
    site.withoutComments.declared? source =
      (site.declared? source).map fun declared => (declared.1, declared.2.withoutComments) := by
  unfold Site.declared? Site.withoutComments
  dsimp only
  rw [h.construct_eq, name?_withoutComments h]
  split
  · rfl
  · split_ifs <;> rfl
  · exact binding?_withoutComments h
  · rfl

/-- Without comments, only what is required and the outlines of classes may be different. -/
theorem findings_withoutComments (h : site.tree.CommentsApart) :
    site.withoutComments.findings source scope =
      match Construct.of site.tree with
      | .call =>
        ((required? source site.tree.withoutComments).map imported).toList ++
          (site.enclosing?.bind fun caller =>
            (callee? source site.tree).map fun callee => call ⟨caller, callee⟩).toList
      | .classDeclaration =>
        [type (typeOutline source site.tree.withoutComments
          ((name? source site.tree).getD anonymous))]
      | .classExpression =>
        if site.isDefault then [type (typeOutline source site.tree.withoutComments anonymous)]
        else []
      | _ => site.findings source scope := by
  have hdeclared : ((site.withoutComments.declared? source).map fun declared =>
      function ⟨declared.1, declared.2.complexity scope⟩) =
      (site.declared? source).map fun declared =>
        function ⟨declared.1, declared.2.complexity scope⟩ := by
    rw [declared?_withoutComments h]
    cases hdeclared : site.declared? source with
    | none => rfl
    | some declared =>
      have hmem := (Site.isFunction_of_declared? hdeclared).1
      simp only [Option.map_some, (h.of_mem hmem).complexity_eq]
  rw [findings_eq, findings_eq site, hdeclared]
  dsimp only [Site.withoutComments]
  rw [h.construct_eq, name?_withoutComments h, callee?_withoutComments h, h.field?_eq]
  cases Construct.of site.tree with
  | importStatement =>
    cases site.tree.field? "source" with
    | none => rfl
    | some specifier =>
      simp only [Option.map_some, Option.bind_some, quoted?_withoutComments]
  | _ => rfl

/-- What is found at a node, with comments or without. -/
theorem findings_obscures (h : site.tree.CommentsApart) :
    Obscures (site.findings source scope) (site.withoutComments.findings source scope) := by
  have hclass : ∀ name, Obscures [type (typeOutline source site.tree name)]
      [type (typeOutline source site.tree.withoutComments name)] := fun name =>
    ⟨.refl _, .cons (typeOutline_obscures h name) .nil, rfl, rfl⟩
  rw [findings_withoutComments h]
  cases hconstruct : Construct.of site.tree with
  | call =>
    rw [findings_eq, hconstruct]
    refine .append ?_ (.refl _)
    rcases required?_obscures source h with hnone | hsame
    · rw [hnone]
      cases required? source site.tree.withoutComments with
      | none => exact .refl _
      | some specifier => exact ⟨List.nil_sublist _, .nil, rfl, rfl⟩
    · rw [hsame]
      exact .refl _
  | classDeclaration =>
    rw [findings_eq, hconstruct]
    exact hclass _
  | classExpression =>
    rw [findings_eq, hconstruct]
    dsimp only
    split_ifs
    · exact hclass _
    · exact .refl _
  | _ => exact .refl _

theorem findings_unobscured (h : site.tree.CommentsApart)
    (hplain : ∀ node ∈ site.tree.preorder, Unobscured source node) :
    site.withoutComments.findings source scope = site.findings source scope := by
  have hroot := hplain _ (self_mem_preorder site.tree)
  rw [findings_withoutComments h, required?_withoutComments h hroot,
    typeOutline_withoutComments h hplain, typeOutline_withoutComments h hplain, findings_eq]
  cases Construct.of site.tree with
  | _ => rfl

end Finding

end CodeGraph
