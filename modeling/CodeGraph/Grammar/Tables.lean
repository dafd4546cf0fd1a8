import CodeGraph.Grammar.Production

/-! Tables of a grammar: numbered symbols, items, first sets and left corners. -/
namespace CodeGraph.Grammar

/-- A set of terminals: bit `n` says whether terminal `n` is in it. -/
abbrev TokenSet := Nat

namespace TokenSet

def single (token : Nat) : TokenSet := 1 <<< token

def has (set : TokenSet) (token : Nat) : Bool := set.testBit token

end TokenSet

/-- What is known of a symbol: its name, whether its nodes are named ones, and whether they show
at all. -/
structure SymbolInfo where
  name : String
  named : Bool
  hidden : Bool
  auxiliary : Bool
  deriving Inhabited

/-- What completing an item does: the weight of its production and the labels of its steps. -/
structure Completion where
  weight : Int
  labels : Array Label
  deriving Inhabited

/-- A place inside the productions of a variable, reached by `depth` steps. Productions that agree
up to there share it. `next` lists the symbols that may follow with the item after each. -/
structure Item where
  owner : Nat
  depth : Nat
  precedence : Precedence
  associativity : Option Associativity
  next : Array (Nat × Nat)
  completion? : Option Completion
  deriving Inhabited

/-- Everything the automaton needs to know of a grammar. Symbols below `terminals` are tokens,
0 is the end of the input. `corners[y][z]` tells whether a text of variable `y` may begin with
one of `z`, with the tokens that may follow that `z` inside and whether it may also stretch to the
end of the `y`. -/
structure Tables where
  symbols : Array SymbolInfo
  terminals : Nat
  tokenIds : Std.HashMap String Nat
  literalIds : Std.HashMap String Nat
  extras : TokenSet
  orderings : List (List Rank)
  items : Array Item
  roots : Array Nat
  start : Nat
  first : Array TokenSet
  ahead : Array TokenSet
  startsWith : Array (Array (Nat × Nat))
  corners : Array (Array (Option (TokenSet × Bool)))
  deriving Inhabited

namespace Tables

/-- The terminals of a grammar in order of appearance: whether a literal, and the text or name. -/
def collectTerminals (spec : Spec) (listed : List Variable) : Array (Bool × String) :=
  let add := fun (state : Array (Bool × String) × Std.HashMap (Bool × String) Unit) key =>
    if state.2.contains key then state else (state.1.push key, state.2.insert key ())
  let isToken := fun (step : Step) => step.literal || spec.tokens.contains step.symbol
  let found := listed.foldl (fun state entry =>
    entry.productions.foldl (fun state production =>
      production.steps.foldl (fun state step =>
        if isToken step then add state (step.literal, step.symbol) else state) state) state)
    (#[], {})
  (spec.tokens.foldl (fun state name => add state (false, name)) found).1

/-- The item after a step from another one, created when it is not there yet. The precedence and
label of the step are part of its identity: `same` finds an equal earlier step. -/
def insertSteps (symbolOf : Step → Nat) (owner : Nat) (weight : Int) (labels : Array Label)
    (keys : Array (Array Step)) (items : Array Item) (place : Nat) :
    List Step → Array Item × Array (Array Step)
  | [] =>
    (items.modify place fun item =>
      if item.completion?.isSome then item else { item with completion? := some ⟨weight, labels⟩ },
     keys)
  | step :: rest =>
    let siblings := keys.getD place #[]
    match siblings.findIdx? (· == step) with
    | some i =>
      let child := ((items.getD place default).next.getD i (0, 0)).2
      insertSteps symbolOf owner weight (labels.push step.label) keys items child rest
    | none =>
      let child := items.size
      let depth := (items.getD place default).depth + 1
      let items := items.modify place fun item =>
        { item with next := item.next.push (symbolOf step, child) }
      let items := items.push ⟨owner, depth, step.precedence, step.associativity, #[], none⟩
      let keys := (keys.modify place (·.push step)).push #[]
      insertSteps symbolOf owner weight (labels.push step.label) keys items child rest

/-- One round of growing the first sets of all variables. -/
def growFirst (items : Array Item) (roots : Array Nat) (terminals : Nat)
    (first : Array TokenSet) : Array TokenSet :=
  (List.range roots.size).foldl (fun first i =>
    let next := (items.getD (roots.getD i 0) default).next
    let grown := next.foldl (fun set edge => set ||| first.getD edge.1 0) (first.getD (terminals + i) 0)
    first.setIfInBounds (terminals + i) grown) first

/-- The first sets, reached when a round adds nothing; `rounds` bounds their number. -/
def closeFirst (items : Array Item) (roots : Array Nat) (terminals : Nat) :
    Nat → Array TokenSet → Array TokenSet
  | 0, first => first
  | rounds + 1, first =>
    let grown := growFirst items roots terminals first
    if grown == first then first else closeFirst items roots terminals rounds grown

/-- Adds what may follow a left corner; says whether that was news. -/
def joinCorner (old : Option (TokenSet × Bool)) (tokens : TokenSet) (through : Bool) :
    (TokenSet × Bool) × Bool :=
  match old with
  | none => ((tokens, through), true)
  | some (known, reaches) =>
    let joined := (known ||| tokens, reaches || through)
    (joined, joined != (known, reaches))

/-- Works off the variables whose left-corner entry changed. -/
def closeCorners (items : Array Item) (roots : Array Nat) (terminals : Nat)
    (ahead : Array TokenSet) : Nat → List Nat → Array (Option (TokenSet × Bool)) →
    Array (Option (TokenSet × Bool))
  | 0, _, corners => corners
  | _, [], corners => corners
  | rounds + 1, z :: pending, corners =>
    match corners.getD z none with
    | none => closeCorners items roots terminals ahead rounds pending corners
    | some (tokens, through) =>
      let step := fun (state : List Nat × Array (Option (TokenSet × Bool))) (edge : Nat × Nat) =>
        if edge.1 < terminals then state
        else
          let w := edge.1 - terminals
          let completes := (items.getD edge.2 default).completion?.isSome
          let follow := ahead.getD edge.2 0 ||| (if completes then tokens else 0)
          let (entry, news) := joinCorner (state.2.getD w none) follow (completes && through)
          if news then
            (if state.1.contains w then state.1 else w :: state.1, state.2.setIfInBounds w (some entry))
          else state
      let next := (items.getD (roots.getD z 0) default).next
      let (pending, corners) := next.foldl step (pending, corners)
      closeCorners items roots terminals ahead rounds pending corners

/-- The tables of a grammar. A last variable of no name stands for a whole input. -/
def ofSpec (spec : Spec) : Tables :=
  let listed := spec.allVariables
  let startName := ((spec.rules.head?).map (·.1)).getD ""
  let listed := listed ++ [⟨"", false, [⟨[⟨startName, false, .unset, none, {}⟩], 0⟩]⟩]
  let tokens := collectTerminals spec listed
  let terminals := tokens.size + 1
  let numbered := tokens.toList.zipIdx 1
  let literalIds := Std.HashMap.ofList (numbered.filterMap fun ((literal, text), i) =>
    if literal then some (text, i) else none)
  let tokenIds := Std.HashMap.ofList (numbered.filterMap fun ((literal, text), i) =>
    if literal then none else some (text, i))
  let variableIds := Std.HashMap.ofList ((listed.map (·.name)).zipIdx terminals)
  let symbolOf := fun (step : Step) =>
    if step.literal then literalIds.getD step.symbol 0
    else (variableIds[step.symbol]?).getD (tokenIds.getD step.symbol 0)
  let isHidden := fun (name : String) => name.startsWith "_" || spec.supertypes.contains name
  let symbols := #[⟨"end", false, true, false⟩] ++
    (tokens.map fun (literal, text) =>
      ⟨text, !literal, !literal && text.startsWith "_", false⟩) ++
    (listed.map fun entry =>
      ⟨entry.name, true, entry.auxiliary || isHidden entry.name, entry.auxiliary⟩).toArray
  let grow := fun (state : Array Item × Array (Array Step) × Array Nat) (entry : Variable × Nat) =>
    let root := state.1.size
    let items := state.1.push ⟨entry.2, 0, .unset, none, #[], none⟩
    let keys := state.2.1.push #[]
    let (items, keys) := entry.1.productions.foldl (fun (items, keys) production =>
      insertSteps symbolOf entry.2 production.weight #[] keys items root production.steps)
      (items, keys)
    (items, keys, state.2.2.push root)
  let (items, _, roots) := (listed.zipIdx terminals).foldl grow (#[], #[], #[])
  let count := terminals + listed.length
  let firstStart := Array.ofFn fun (i : Fin count) =>
    if i.val < terminals then TokenSet.single i.val else 0
  let first := closeFirst items roots terminals count firstStart
  let ahead := items.map fun item =>
    item.next.foldl (fun set edge => set ||| first.getD edge.1 0) 0
  let startsWith := (List.range roots.size).foldl (fun table z =>
    (items.getD (roots.getD z 0) default).next.foldl (fun table edge =>
      table.modify edge.1 (·.push (z, edge.2))) table) (Array.replicate count #[])
  let corners := Array.ofFn fun (y : Fin roots.size) =>
    closeCorners items roots terminals ahead (roots.size * roots.size * 4) [y.val]
      ((Array.replicate roots.size none).setIfInBounds y.val (some (0, true)))
  { symbols, terminals, tokenIds, literalIds, items, roots, first, ahead, startsWith, corners
    extras := spec.extras.foldl (fun set name =>
      set ||| TokenSet.single (tokenIds.getD name 0)) 0
    orderings := spec.orderings
    start := listed.length - 1 }

end Tables

end CodeGraph.Grammar
