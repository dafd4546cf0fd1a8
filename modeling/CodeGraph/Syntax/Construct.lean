import CodeGraph.Syntax.Tree

/-! The constructs of scripts that matter for outlines and complexity. -/
namespace CodeGraph

inductive FunctionForm where
  | declaration
  | expression
  | arrow
  | method
  deriving DecidableEq, Inhabited, Repr

inductive Construct where
  | importStatement
  | call
  | classDeclaration
  | classExpression
  | declarator
  | exportStatement
  | function (form : FunctionForm)
  | conditional
  | countedLoop
  | keyLoop
  | valueLoop
  | whileLoop
  | doLoop
  | ternary
  | catchClause
  | switchCase
  | switchDefault
  | logical
  | other
  deriving DecidableEq, Inhabited, Repr

namespace FunctionForm

def name : FunctionForm → String
  | declaration => "Declaration"
  | expression => "Expression"
  | arrow => "Arrow"
  | method => "Method"

end FunctionForm

namespace Construct

def of (tree : SyntaxTree) : Construct :=
  let operator? := fun (_ : Unit) => (tree.field? "operator").map (·.kind)
  match tree.kind with
  | "import_statement" => importStatement
  | "call_expression" => call
  | "class_declaration" => classDeclaration
  | "abstract_class_declaration" => classDeclaration
  | "class" => if tree.named then classExpression else other
  | "variable_declarator" => declarator
  | "export_statement" => exportStatement
  | "function_declaration" => function .declaration
  | "generator_function_declaration" => function .declaration
  | "function_expression" => function .expression
  | "generator_function" => function .expression
  | "function" => if tree.named then function .expression else other
  | "arrow_function" => function .arrow
  | "method_definition" => function .method
  | "if_statement" => conditional
  | "for_statement" => countedLoop
  | "for_in_statement" => if operator? () = some "of" then valueLoop else keyLoop
  | "while_statement" => whileLoop
  | "do_statement" => doLoop
  | "ternary_expression" => ternary
  | "catch_clause" => catchClause
  | "switch_case" => switchCase
  | "switch_default" => switchDefault
  | "binary_expression" =>
    let operator := operator? ()
    if operator = some "&&" ∨ operator = some "||" then logical else other
  | _ => other

/-- Whether a construct adds a path to the function it stands in. -/
def isDecision : Construct → Bool
  | conditional | countedLoop | keyLoop | valueLoop | whileLoop | doLoop | ternary | catchClause
  | switchCase | logical => true
  | _ => false

def isFunction : Construct → Bool
  | function _ => true
  | _ => false

def name : Construct → String
  | importStatement => "Import"
  | call => "Call"
  | classDeclaration => "ClassDeclaration"
  | classExpression => "ClassExpression"
  | declarator => "Declarator"
  | exportStatement => "Export"
  | function form => "Function(" ++ form.name ++ ")"
  | conditional => "If"
  | countedLoop => "For"
  | keyLoop => "ForIn"
  | valueLoop => "ForOf"
  | whileLoop => "While"
  | doLoop => "DoWhile"
  | ternary => "Ternary"
  | catchClause => "Catch"
  | switchCase => "SwitchCase"
  | switchDefault => "SwitchDefault"
  | logical => "Logical"
  | other => "Other"

end Construct

namespace SyntaxTree

/-- The nodes of some trees, each before its children; those seen so far stand in reverse. -/
def preorderFrom (pending seen : List SyntaxTree) : List SyntaxTree :=
  match pending with
  | [] => seen.reverse
  | tree :: rest => preorderFrom (tree.children ++ rest) (tree :: seen)
termination_by totalSize pending
decreasing_by
  have := totalSize_children_lt tree
  simp only [totalSize_append, totalSize]
  omega

/-- The nodes of a tree that are constructs, each before those below it. -/
def constructs (tree : SyntaxTree) : List (Construct × SyntaxTree) :=
  (preorderFrom [tree] []).filterMap fun node =>
    let construct := Construct.of node
    if construct = .other then none else some (construct, node)

end SyntaxTree

end CodeGraph
