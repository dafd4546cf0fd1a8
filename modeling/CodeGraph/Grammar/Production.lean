import CodeGraph.Grammar.Rule
import Std.Data.HashMap

/-! Productions: rules with repetitions, choices and inlined references worked out. -/
namespace CodeGraph.Grammar

/-- How a child shows in its parent: under another node kind, and as the value of a field. -/
structure Label where
  alias? : Option (String × Bool) := none
  field? : Option String := none
  deriving DecidableEq, Inhabited, Repr

/-- One symbol of a production with the precedence in force up to it. -/
structure Step where
  symbol : String
  literal : Bool
  precedence : Precedence := .unset
  associativity : Option Associativity := none
  label : Label := {}
  deriving DecidableEq, Inhabited, Repr

/-- A sequence of steps. Its weight decides between readings of an ambiguous text. -/
structure Production where
  steps : List Step
  weight : Int := 0
  deriving DecidableEq, Inhabited, Repr

/-- A symbol defined by productions. An auxiliary symbol stands for a repetition. -/
structure Variable where
  name : String
  auxiliary : Bool
  productions : List Production
  deriving Inhabited

namespace Rule

/-- The state of turning repetitions into auxiliary variables: equal contents share one. -/
structure Repetitions where
  owner : String := ""
  count : Nat := 0
  known : List (Rule × String) := []
  deriving Inhabited

mutual
/-- Replaces every repetition by a reference to the auxiliary variable of its content. -/
def expandRepeats : Rule → StateM Repetitions Rule
  | repeat1 content => do
    let content ← expandRepeats content
    let state ← get
    match state.known.find? (·.1 == content) with
    | some (_, name) => return ref name
    | none =>
      let name := s!"{state.owner}_repeat{state.count + 1}"
      set { state with count := state.count + 1, known := (content, name) :: state.known }
      return ref name
  | seq parts => return seq (← expandRepeatsList parts)
  | choice parts => return choice (← expandRepeatsList parts)
  | field name content => return field name (← expandRepeats content)
  | renamed name named content => return renamed name named (← expandRepeats content)
  | prec precedence associativity content =>
    return prec precedence associativity (← expandRepeats content)
  | weigh value content => return weigh value (← expandRepeats content)
  | rule => return rule

def expandRepeatsList : List Rule → StateM Repetitions (List Rule)
  | [] => return []
  | rule :: rest => do
    let rule ← expandRepeats rule
    return rule :: (← expandRepeatsList rest)
end

mutual
/-- The choice-free rules that a rule stands for, in order. A sequence with an omitted part keeps
a blank in its place. -/
def alternatives : Rule → List Rule
  | seq parts => (alternativesSeq parts).map seq
  | choice parts => alternativesChoice parts
  | field name content => (alternatives content).map (field name)
  | renamed name named content => (alternatives content).map (renamed name named)
  | prec precedence associativity content =>
    (alternatives content).map (prec precedence associativity)
  | weigh value content => (alternatives content).map (weigh value)
  | rule => [rule]

/-- Every way to pick one alternative of each part, the last part varying fastest. -/
def alternativesSeq : List Rule → List (List Rule)
  | [] => [[]]
  | part :: rest =>
    let tails := alternativesSeq rest
    (alternatives part).flatMap fun head => tails.map (head :: ·)

/-- The alternatives of all parts, one part after another. -/
def alternativesChoice : List Rule → List Rule
  | [] => []
  | part :: rest => alternatives part ++ alternativesChoice rest
end

/-- What surrounds a place in a rule while its steps are listed. -/
structure Surroundings where
  precedence : Precedence := .unset
  associativity : Option Associativity := none
  label : Label := {}

/-- The stronger of two weights, the earlier one on a tie. -/
def heavier (a b : Int) : Int := if b.natAbs > a.natAbs then b else a

/-- Gives the last step the precedence and associativity around a rule that ends before the end
of its production. -/
def restoreLast (changePrecedence changeAssociativity : Bool) (around : Surroundings) :
    List Step → List Step
  | [] => []
  | [step] =>
    [{ step with
      precedence := if changePrecedence then around.precedence else step.precedence
      associativity := if changeAssociativity then around.associativity else step.associativity }]
  | step :: rest => step :: restoreLast changePrecedence changeAssociativity around rest

mutual
/-- The steps of a choice-free rule, and its weight. `atEnd` says that nothing follows
in the production: an inner precedence then holds for its last step too. -/
def flatten (around : Surroundings) (atEnd : Bool) : Rule → List Step × Int
  | literal text => ([⟨text, true, around.precedence, around.associativity, around.label⟩], 0)
  | ref name => ([⟨name, false, around.precedence, around.associativity, around.label⟩], 0)
  | seq parts => flattenSeq around atEnd parts
  | field name content =>
    flatten { around with label := { around.label with field? := some name } } atEnd content
  | renamed name named content =>
    flatten { around with label := { around.label with alias? := some (name, named) } } atEnd
      content
  | prec precedence associativity content =>
    let inner := { around with
      precedence := if precedence = .unset then around.precedence else precedence
      associativity := associativity <|> around.associativity }
    let (steps, weight) := flatten inner atEnd content
    if atEnd then (steps, weight)
    else (restoreLast (precedence ≠ .unset) associativity.isSome around steps, weight)
  | weigh value content =>
    let (steps, inner) := flatten around atEnd content
    (steps, heavier value inner)
  | blank => ([], 0)
  | choice _ => ([], 0)
  | repeat1 _ => ([], 0)

def flattenSeq (around : Surroundings) (atEnd : Bool) : List Rule → List Step × Int
  | [] => ([], 0)
  | part :: rest =>
    let (steps, weight) := flatten around (atEnd && rest.isEmpty) part
    let (more, other) := flattenSeq around atEnd rest
    (steps ++ more, heavier weight other)
end

def productions (rule : Rule) : List Production :=
  ((alternatives rule).map fun choice =>
    let (steps, weight) := flatten {} true choice
    { steps, weight : Production }).eraseDups

end Rule

/-- Puts the production of an inlined variable in place of a step, which hands on its label and,
to the last of the steps, its precedence. -/
def Step.replaceBy (removed : Step) (inner : List Step) : List Step :=
  let relabelled := inner.map fun step => { step with
    label := ⟨removed.label.alias? <|> step.label.alias?, removed.label.field? <|> step.label.field?⟩ }
  match relabelled.getLast? with
  | none => []
  | some last =>
    relabelled.dropLast ++ [{ last with
      precedence := if last.precedence = .unset then removed.precedence else last.precedence
      associativity := last.associativity <|> removed.associativity }]

namespace Production

/-- Replaces the inlined variables of a production by their productions, one level deep. -/
def inlineOnce (bodies : Std.HashMap String (List Production)) (production : Production) :
    List Production :=
  production.steps.foldr (fun step tails =>
    match if step.literal then none else bodies[step.symbol]? with
    | none => tails.map fun tail => { tail with steps := step :: tail.steps }
    | some inner => inner.flatMap fun body => tails.map fun tail =>
      { steps := step.replaceBy body.steps ++ tail.steps
        weight := Rule.heavier tail.weight body.weight })
    [⟨[], production.weight⟩]

end Production

/-- Replaces inlined variables until none is left; `depth` bounds how deep they nest. -/
def inlineAll (bodies : Std.HashMap String (List Production)) (depth : Nat)
    (productions : List Production) : List Production :=
  match depth with
  | 0 => productions
  | depth + 1 =>
    if productions.any (·.steps.any fun step => !step.literal && bodies.contains step.symbol) then
      inlineAll bodies depth (productions.flatMap (·.inlineOnce bodies))
    else productions

namespace Spec

/-- The variables of a grammar: its rules in order, then one for each distinct repetition, which
is a single occurrence or two repetitions side by side. -/
def allVariables (spec : Spec) : List Variable :=
  let step := fun (state : List (String × Rule) × List (Rule × String)) (entry : String × Rule) =>
    let (rule, repetitions) := (Rule.expandRepeats entry.2).run ⟨entry.1, 0, state.2⟩
    ((entry.1, rule) :: state.1, repetitions.known)
  let (rules, repetitions) := spec.rules.foldl step ([], [])
  let plain := rules.reverse.map fun (name, rule) => (name, false, rule)
  let repeated := repetitions.reverse.map fun (content, name) =>
    (name, true, Rule.choice [.seq [.ref name, .ref name], content])
  let listed := (plain ++ repeated).map fun (name, auxiliary, rule) =>
    { name, auxiliary, productions := rule.productions : Variable }
  let bodies := Std.HashMap.ofList <| (listed.filter fun entry =>
    spec.inlined.contains entry.name).map fun entry => (entry.name, entry.productions)
  listed.filterMap fun entry =>
    if spec.inlined.contains entry.name then none
    else some { entry with productions := inlineAll bodies 8 entry.productions }

end Spec

end CodeGraph.Grammar
