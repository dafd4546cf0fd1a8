import CodeGraph.Grammar.Tables

/-! The automaton of a grammar, with one token of lookahead; its states are made when first
needed. -/
namespace CodeGraph.Grammar

/-- What to do on a token: read it into a state, or replace the last symbols by a variable. -/
inductive Action where
  | shift (state : Nat)
  | reduce (owner count : Nat) (completion : Completion)
  | accept
  deriving Inhabited

/-- A state: its items with the tokens that may follow each, the variables that may begin here
with what may follow them, and the tokens that are possible next. -/
structure State where
  kernel : Array (Nat × TokenSet)
  pending : Array (Nat × TokenSet)
  valid : TokenSet
  shiftable : TokenSet
  deriving Inhabited

/-- The states made so far, with the transitions and actions looked up so far. -/
structure Automaton where
  states : Array State
  numbers : Std.HashMap (Array (Nat × TokenSet)) Nat
  moves : Std.HashMap (Nat × Nat) Nat
  actions : Std.HashMap (Nat × Nat) (List Action)
  deriving Inhabited

namespace Tables

/-- Adds tokens to the entry of a key, in key order. -/
def join (entries : Array (Nat × TokenSet)) (key : Nat) (tokens : TokenSet) :
    Array (Nat × TokenSet) :=
  match entries.findIdx? (·.1 == key) with
  | some i => entries.modify i fun entry => (key, entry.2 ||| tokens)
  | none => entries.push (key, tokens)

def stateOf (tables : Tables) (kernel : Array (Nat × TokenSet)) : State :=
  let pending := kernel.foldl (fun pending (item, tokens) =>
    (tables.items.getD item default).next.foldl (fun pending edge =>
      if edge.1 < tables.terminals then pending
      else
        let completes := (tables.items.getD edge.2 default).completion?.isSome
        let follow := tables.ahead.getD edge.2 0 ||| (if completes then tokens else 0)
        join pending (edge.1 - tables.terminals) follow) pending) #[]
  let shiftable := kernel.foldl (fun set (item, _) => set ||| tables.ahead.getD item 0) 0
  let valid := kernel.foldl (fun set (item, tokens) =>
    if (tables.items.getD item default).completion?.isSome then set ||| tokens else set) shiftable
  { kernel, pending, valid := valid ||| tables.extras, shiftable }

/-- The kernel reached from a state over a symbol. -/
def advance (tables : Tables) (state : State) (symbol : Nat) : Array (Nat × TokenSet) :=
  let moved := state.kernel.foldl (fun kernel (item, tokens) =>
    (tables.items.getD item default).next.foldl (fun kernel edge =>
      if edge.1 == symbol then join kernel edge.2 tokens else kernel) kernel) #[]
  let opened := (tables.startsWith.getD symbol #[]).foldl (fun kernel (z, child) =>
    state.pending.foldl (fun kernel (y, follow) =>
      match (tables.corners.getD y #[]).getD z none with
      | none => kernel
      | some (tokens, through) => join kernel child (if through then tokens ||| follow else tokens))
      kernel) moved
  opened.qsort fun a b => a.1 < b.1

/-- Compares two precedences, each with the variables it belongs to. Numbers compare with numbers
and with none; else the first list that ranks both decides. -/
def comparePrecedence (tables : Tables) (left : Precedence) (leftOwners : List Nat)
    (right : Precedence) (rightOwners : List Nat) : Ordering :=
  let nameOf := fun owner => (tables.symbols.getD owner default).name
  let isAt : Rank → Precedence → List Nat → Bool := fun rank precedence owners =>
    match rank with
    | .name text => precedence == .named text
    | .rule text => owners.any fun owner => nameOf owner == text
  let rec scan (sawLeft sawRight : Bool) : List Rank → Option Ordering
    | [] => none
    | rank :: rest =>
      if isAt rank left leftOwners then
        if sawRight then some .lt else scan true sawRight rest
      else if isAt rank right rightOwners then
        if sawLeft then some .gt else scan sawLeft true rest
      else scan sawLeft sawRight rest
  let ranked := (tables.orderings.findSome? (scan false false)).getD .eq
  match left, right with
  | .level l, .level r => if l ≠ 0 || r ≠ 0 then compare l r else ranked
  | .level l, .unset => if l ≠ 0 then compare l 0 else ranked
  | .unset, .level r => if r ≠ 0 then compare 0 r else ranked
  | _, _ => ranked

/-- The reductions found so far on one token: all of the same precedence. -/
structure Reductions where
  items : List Item := []
  precedence : Precedence := .unset
  owners : List Nat := []
  left : Bool := false
  right : Bool := false
  plain : Bool := false

/-- Adds a completed item: a stronger one replaces the others, a weaker one is dropped. -/
def Reductions.add (tables : Tables) (found : Reductions) (item : Item) : Reductions :=
  let join := fun (found : Reductions) => { found with
    items := found.items ++ [item]
    precedence := item.precedence
    owners := if found.owners.contains item.owner then found.owners else item.owner :: found.owners
    left := found.left || item.associativity == some .left
    right := found.right || item.associativity == some .right
    plain := found.plain || item.associativity.isNone }
  if found.items.isEmpty then join found
  else
    match tables.comparePrecedence item.precedence [item.owner] found.precedence found.owners with
    | .gt => join {}
    | .eq => join found
    | .lt => found

/-- Items by depth, then by variable: the order in which conflicting ones are looked at. -/
def itemBefore (a b : Item) : Bool := a.depth < b.depth || (a.depth == b.depth && a.owner < b.owner)

/-- The actions of a state on a token. Precedences decide between reading on and reducing, then
the side to which equals group; what stays undecided stays a choice. -/
def resolve (tables : Tables) (state : State) (token : Nat) (target? : Option Nat) : List Action :=
  let itemOf := fun (entry : Nat × TokenSet) => tables.items.getD entry.1 default
  let finished := (state.kernel.toList.filter fun entry =>
    (itemOf entry).completion?.isSome && TokenSet.has entry.2 token).map itemOf
  let ordered := finished.mergeSort fun a b => !itemBefore b a
  let found := ordered.foldl (Reductions.add tables) {}
  let reductions := found.items.filterMap fun item => item.completion?.map fun completion =>
    if item.owner == tables.terminals + tables.start then .accept
    else .reduce item.owner item.depth completion
  match target? with
  | none => reductions
  | some target =>
    if reductions.isEmpty then [.shift target]
    else
      let reading := ((state.kernel.toList.filter fun entry =>
        (itemOf entry).depth > 0 && TokenSet.has (tables.ahead.getD entry.1 0) token).map
          itemOf).mergeSort fun a b => !itemBefore b a
      let owners := (reading ++ finished).map (·.owner)
      let isAuxiliary := fun owner => (tables.symbols.getD owner default).auxiliary
      let sameRepetition := match owners with
        | [] => false
        | owner :: rest => isAuxiliary owner && rest.all (· == owner)
      if sameRepetition then reductions
      else
        let orders := reading.map fun item =>
          tables.comparePrecedence item.precedence [item.owner] found.precedence found.owners
        let more := orders.contains .gt
        let less := orders.contains .lt
        if more && !less then [.shift target]
        else if less && !more then reductions
        else if !less && !more && found.left && !found.right && !found.plain then reductions
        else if !less && !more && found.right && !found.left && !found.plain then [.shift target]
        else reductions ++ [.shift target]

end Tables

namespace Automaton

/-- The number of a state, which is made if it is new. -/
def intern (tables : Tables) (kernel : Array (Nat × TokenSet)) (automaton : Automaton) :
    Nat × Automaton :=
  match automaton.numbers[kernel]? with
  | some number => (number, automaton)
  | none =>
    match automaton with
    | ⟨states, numbers, moves, actions⟩ =>
      let number := states.size
      (number, ⟨states.push (tables.stateOf kernel), numbers.insert kernel number, moves, actions⟩)

def start (tables : Tables) : Automaton :=
  let whole := tables.roots.getD tables.start 0
  let text := (((tables.items.getD whole default).next.getD 0 (0, 0)).1) - tables.terminals
  let kernel := #[(whole, TokenSet.single 0), (tables.roots.getD text 0, TokenSet.single 0)]
  (intern tables (kernel.qsort fun a b => a.1 < b.1) ⟨#[], {}, {}, {}⟩).2

/-- The state reached from a state over a symbol. -/
def move (tables : Tables) (state symbol : Nat) (automaton : Automaton) : Nat × Automaton :=
  match automaton.moves[(state, symbol)]? with
  | some target => (target, automaton)
  | none =>
    let kernel := tables.advance (automaton.states.getD state default) symbol
    match intern tables kernel automaton with
    | (target, ⟨states, numbers, moves, actions⟩) =>
      (target, ⟨states, numbers, moves.insert (state, symbol) target, actions⟩)

def actionsOn (tables : Tables) (state token : Nat) (automaton : Automaton) :
    List Action × Automaton :=
  match automaton.actions[(state, token)]? with
  | some actions => (actions, automaton)
  | none =>
    let entry := automaton.states.getD state default
    let (target?, automaton) :=
      if TokenSet.has entry.shiftable token then
        match move tables state token automaton with
        | (target, automaton) => (some target, automaton)
      else (none, automaton)
    let found := tables.resolve entry token target?
    match automaton with
    | ⟨states, numbers, moves, actions⟩ =>
      (found, ⟨states, numbers, moves, actions.insert (state, token) found⟩)

end Automaton

end CodeGraph.Grammar
