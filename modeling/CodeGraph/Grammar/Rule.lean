/-! Grammar rules as data, with the precedences that settle their ambiguities. -/
namespace CodeGraph.Grammar

inductive Associativity where
  | left
  | right
  deriving DecidableEq, Inhabited, Repr

/-- The binding strength written at a rule: none, a number, or a name that the grammar orders. -/
inductive Precedence where
  | unset
  | level (value : Int)
  | named (name : String)
  deriving DecidableEq, Inhabited, Repr

/-- A right-hand side. A reference names either a rule of the grammar or one of its tokens. -/
inductive Rule where
  | blank
  | literal (text : String)
  | ref (name : String)
  | seq (parts : List Rule)
  | choice (parts : List Rule)
  | repeat1 (content : Rule)
  | field (name : String) (content : Rule)
  | renamed (name : String) (named : Bool) (content : Rule)
  | prec (precedence : Precedence) (associativity : Option Associativity) (content : Rule)
  | weigh (value : Int) (content : Rule)
  deriving Inhabited, BEq, Repr

namespace Rule

instance : Coe String Rule := ⟨literal⟩

def opt (rule : Rule) : Rule := choice [rule, blank]

def many (rule : Rule) : Rule := choice [repeat1 rule, blank]

/-- At least one occurrence, with separators between neighbours. -/
def sepBy1 (separator rule : Rule) : Rule := seq [rule, many (seq [separator, rule])]

/-- At least one occurrence, with commas between neighbours. -/
def commaSep1 (rule : Rule) : Rule := sepBy1 "," rule

/-- Any number of occurrences, with commas between neighbours. -/
def commaSep (rule : Rule) : Rule := opt (commaSep1 rule)

/-- The rule under a name that the grammar's precedence lists order. -/
def rank (name : String) (rule : Rule) : Rule := prec (.named name) none rule

def rankLeft (name : String) (rule : Rule) : Rule := prec (.named name) (some .left) rule

def rankRight (name : String) (rule : Rule) : Rule := prec (.named name) (some .right) rule

def leftward (rule : Rule) : Rule := prec (.level 0) (some .left) rule

def rightward (rule : Rule) : Rule := prec (.level 0) (some .right) rule

/-- The content under the name of another node kind. -/
def as (name : String) (rule : Rule) : Rule := renamed name true rule

/-- The content shown as the literal text. -/
def asText (text : String) (rule : Rule) : Rule := renamed text false rule

end Rule

/-- An entry of a list that orders precedences: a precedence name or the name of a rule. -/
inductive Rank where
  | name (text : String)
  | rule (text : String)
  deriving DecidableEq, Inhabited, Repr

/-- A grammar: its rules in order with the start rule first, the names of its tokens other than
literals, the tokens that may stand anywhere, the rules replaced by their content, the rules that
never show as nodes although their names do not say so, and the lists that order precedences from
strongest to weakest. -/
structure Spec where
  rules : List (String × Rule)
  tokens : List String
  extras : List String
  inlined : List String
  supertypes : List String
  orderings : List (List Rank)
  deriving Inhabited

end CodeGraph.Grammar
