import CodeGraph.Grammar.Parser
import CodeGraph.Script.Lexer
import CodeGraph.Script.TypeScript

/-! The dialects of scripts and how a source is parsed with them. -/
namespace CodeGraph

inductive Dialect where
  | typed
  | plain
  deriving DecidableEq, Inhabited, Repr

inductive ParseError where
  | refused (dialect : Dialect)
  | exhausted (dialects : List Dialect)
  deriving DecidableEq, Inhabited, Repr

structure ParsedSource where
  dialect : Dialect
  tree : SyntaxTree
  deriving Inhabited

namespace Script

def languageOf (typed : Bool) (spec : Grammar.Spec) : Grammar.Language :=
  let tables := Grammar.Tables.ofSpec spec
  let lexer := Lexer.ofTables typed tables
  let nameToken := lexer.id "identifier"
  { tables
    next := lexer.next
    isWord := fun symbol => symbol != nameToken && Grammar.TokenSet.has lexer.wordSet symbol
    nameToken }

def plainLanguage : Grammar.Language := languageOf false javaScript

def typedLanguage : Grammar.Language := languageOf true typeScript

end Script

namespace Dialect

def all : List Dialect := [typed, plain]

def name : Dialect → String
  | typed => "tsx"
  | plain => "javascript"

def language : Dialect → Grammar.Language
  | typed => Script.typedLanguage
  | plain => Script.plainLanguage

def parse (dialect : Dialect) (source : String) : Except ParseError ParsedSource :=
  match dialect.language.parse? source with
  | some tree => .ok ⟨dialect, tree⟩
  | none => .error (.refused dialect)

end Dialect

namespace ParseError

def message : ParseError → String
  | refused dialect => s!"syntax error under {dialect.name} grammar"
  | exhausted dialects =>
    let each := dialects.map fun dialect => s!"syntax error under {dialect.name} grammar"
    let list := String.intercalate "; " each
    s!"no grammar accepted the source ({list})"

end ParseError

namespace ParsedSource

def ofDialects (parse : Dialect → Except ParseError ParsedSource) :
    List Dialect → Except (List Dialect) ParsedSource
  | [] => .error []
  | dialect :: rest =>
    match parse dialect with
    | .ok parsed => .ok parsed
    | .error _ => (ofDialects parse rest).mapError (dialect :: ·)

def ofSource (source : String) : Except ParseError ParsedSource :=
  (ofDialects (fun dialect => dialect.parse source) Dialect.all).mapError .exhausted

end ParsedSource

end CodeGraph
