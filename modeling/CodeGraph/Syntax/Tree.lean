/-! Syntax trees of source texts. -/
namespace CodeGraph

structure Span where
  start : Nat
  stop : Nat
  deriving DecidableEq, Inhabited, Repr

/-- A syntax tree. A named node stands for a rule of the grammar, any other for a literal. Each
child may be the value of a field of its parent. -/
inductive SyntaxTree where
  | node (kind : String) (named : Bool) (span : Span) (children : List (Option String × SyntaxTree))
  deriving Inhabited, Repr

namespace SyntaxTree

def kind : SyntaxTree → String
  | node kind _ _ _ => kind

def named : SyntaxTree → Bool
  | node _ named _ _ => named

def span : SyntaxTree → Span
  | node _ _ span _ => span

/-- The children with the fields they are values of. -/
def fields : SyntaxTree → List (Option String × SyntaxTree)
  | node _ _ _ children => children

def children (tree : SyntaxTree) : List SyntaxTree := tree.fields.map (·.2)

def namedChildren (tree : SyntaxTree) : List SyntaxTree := tree.children.filter (·.named)

def field? (tree : SyntaxTree) (name : String) : Option SyntaxTree :=
  (tree.fields.find? fun child => child.1 = some name).map (·.2)

def text (source : String) (tree : SyntaxTree) : String :=
  String.Pos.Raw.extract source ⟨tree.span.start⟩ ⟨tree.span.stop⟩

/-- The text inside the quotes of a string in one of the two plain quotes. -/
def quoted? (source : String) (tree : SyntaxTree) : Option String :=
  if tree.kind = "string" then
    match (tree.text source).toList with
    | [] => none
    | quote :: rest =>
      if (quote = '"' ∨ quote = '\'') ∧ rest.getLast? = some quote then
        some (String.ofList rest.dropLast)
      else none
  else none

noncomputable def totalSize : List SyntaxTree → Nat
  | [] => 0
  | tree :: rest => sizeOf tree + totalSize rest

theorem totalSize_append (trees others : List SyntaxTree) :
    totalSize (trees ++ others) = totalSize trees + totalSize others := by
  induction trees with
  | nil => simp [totalSize]
  | cons tree rest ih => simp only [List.cons_append, totalSize, ih, Nat.add_assoc]

/-- A tree is larger than its children together. -/
theorem totalSize_children_lt (tree : SyntaxTree) : totalSize tree.children < sizeOf tree := by
  obtain ⟨kind, named, span, fields⟩ := tree
  suffices totalSize (fields.map (·.2)) < sizeOf fields by
    simp only [children, SyntaxTree.fields, node.sizeOf_spec]
    omega
  induction fields with
  | nil => simp [totalSize]
  | cons entry rest ih =>
    obtain ⟨field, child⟩ := entry
    simp only [List.map_cons, totalSize, List.cons.sizeOf_spec, Prod.mk.sizeOf_spec]
    omega

end SyntaxTree

end CodeGraph
