import CodeGraph.Outline.Basic
import CodeGraph.Syntax.Complexity

/-! What a syntax tree declares, imports and calls, in the order of the source. -/
namespace CodeGraph

structure CallSite where
  caller : String
  callee : String
  deriving DecidableEq, Inhabited, Repr

inductive Finding where
  | imported (specifier : String)
  | type (outline : TypeOutline)
  | function (outline : FunctionOutline)
  | call (site : CallSite)
  deriving DecidableEq, Inhabited, Repr

namespace Finding

/-- The name of what is exported by default without one. -/
def anonymous : String := "<anonymous>"

/-- The name of a member whose key is no plain name. -/
def unknownMember : String := "<unknown>"

def exportsDefault (tree : SyntaxTree) : Bool :=
  Construct.of tree = .exportStatement && tree.children.any (·.kind = "default")

def name? (source : String) (tree : SyntaxTree) : Option String :=
  (tree.field? "name").map (·.text source)

/-- The plain name that is called. -/
def callee? (source : String) (call : SyntaxTree) : Option String := do
  let callee ← call.field? "function"
  if callee.kind = "identifier" then some (callee.text source) else none

/-- What is required, if exactly one string is handed over. -/
def required? (source : String) (call : SyntaxTree) : Option String := do
  let callee ← callee? source call
  if callee = "require" then
    let arguments ← call.field? "arguments"
    match arguments.namedChildren with
    | [argument] => argument.quoted? source
    | _ => none
  else none

/-- The function that a declarator binds to a plain name. -/
def binding? (source : String) (declarator : SyntaxTree) : Option (String × SyntaxTree) := do
  let name ← declarator.field? "name"
  let value ← declarator.field? "value"
  if name.kind = "identifier" then
    match Construct.of value with
    | .function .expression => some (name.text source, value)
    | .function .arrow => some (name.text source, value)
    | _ => none
  else none

/-- The key of a member of a class; `none` if it is no member that counts. -/
def memberKey? (member : SyntaxTree) : Option (Option SyntaxTree) :=
  match member.kind with
  | "method_definition" => some (member.field? "name")
  | "public_field_definition" => some (member.field? "name")
  | "field_definition" => some (member.field? "property")
  | _ => none

/-- The name of a key; private ones have none. -/
def keyName? (source : String) (key : SyntaxTree) : Option String :=
  match key.kind with
  | "private_property_identifier" => none
  | "property_identifier" => some (key.text source)
  | "identifier" => some (key.text source)
  | "computed_property_name" =>
    match key.namedChildren.head? with
    | some inner => if inner.kind = "identifier" then some (inner.text source) else unknownMember
    | none => unknownMember
  | _ => unknownMember

def memberName? (source : String) (member : SyntaxTree) : Option String :=
  match memberKey? member with
  | none => none
  | some none => some unknownMember
  | some (some key) => keyName? source key

/-- The class that a class extends, if that is a plain name. -/
def superclass? (source : String) (type : SyntaxTree) : Option String := do
  let heritage ← type.namedChildren.find? (·.kind = "class_heritage")
  let clause ← heritage.namedChildren.head?
  let target ← if clause.kind = "extends_clause" then clause.field? "value" else some clause
  if target.kind = "identifier" then some (target.text source) else none

def typeOutline (source : String) (type : SyntaxTree) (name : String) : TypeOutline :=
  { name
    methods :=
      match type.field? "body" with
      | some body => body.namedChildren.filterMap (memberName? source)
      | none => []
    superclass? := superclass? source type }

/-- A node together with the nearest declared function around it, and whether it is exported by
default. -/
structure Site where
  tree : SyntaxTree
  enclosing? : Option String
  isDefault : Bool

namespace Site

/-- The function that a node declares: its name and its node. -/
def declared? (source : String) (site : Site) : Option (String × SyntaxTree) :=
  match Construct.of site.tree with
  | .function .declaration => some ((name? source site.tree).getD anonymous, site.tree)
  | .function .expression => if site.isDefault then some (anonymous, site.tree) else none
  | .declarator => binding? source site.tree
  | _ => none

/-- What a node is found to be, apart from what is below it. -/
def findings (source : String) (scope : ComplexityScope) (site : Site) : List Finding :=
  match Construct.of site.tree with
  | .importStatement =>
    (((site.tree.field? "source").bind (·.quoted? source)).map imported).toList
  | .call =>
    ((required? source site.tree).map imported).toList ++
      (match site.enclosing?, callee? source site.tree with
        | some caller, some callee => [call ⟨caller, callee⟩]
        | _, _ => [])
  | .classDeclaration =>
    [type (typeOutline source site.tree ((name? source site.tree).getD anonymous))]
  | .classExpression =>
    if site.isDefault then [type (typeOutline source site.tree anonymous)] else []
  | _ =>
    match site.declared? source with
    | some (name, tree) => [function ⟨name, tree.complexity scope⟩]
    | none => []

/-- The children of a node, with the function around them. -/
def children (source : String) (site : Site) : List Site :=
  let enclosing? := ((site.declared? source).map (·.1)).or site.enclosing?
  let isDefault := exportsDefault site.tree
  site.tree.children.map fun tree => { tree, enclosing?, isDefault }

end Site

/-- Collects what is found at the pending sites and below them, each before what it holds. What
has been found so far stands in reverse. -/
def collect (source : String) (scope : ComplexityScope) (pending : List Site)
    (found : List Finding) : List Finding :=
  match pending with
  | [] => found.reverse
  | site :: rest =>
    collect source scope (site.children source ++ rest)
      ((site.findings source scope).reverse ++ found)
termination_by SyntaxTree.totalSize (pending.map (·.tree))
decreasing_by
  have := site.tree.totalSize_children_lt
  have same : (site.children source).map (·.tree) = site.tree.children := by
    simp [Site.children, Function.comp_def]
  simp only [List.map_append, same, SyntaxTree.totalSize_append, List.map_cons,
    SyntaxTree.totalSize]
  omega

def ofTree (source : String) (scope : ComplexityScope) (tree : SyntaxTree) : List Finding :=
  collect source scope [⟨tree, none, false⟩] []

end Finding

end CodeGraph
