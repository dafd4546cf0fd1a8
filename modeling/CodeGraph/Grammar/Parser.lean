import CodeGraph.Grammar.Automaton
import CodeGraph.Grammar.Token
import CodeGraph.Syntax.Tree

/-! Parsing: where the grammar leaves a choice, the readings are followed side by side until all
but one fail or they meet again. -/
namespace CodeGraph.Grammar

/-- A reading of a stretch of the text. `parts` lists the nodes that it shows; an extra is a
comment. -/
inductive Reading where
  | mk (symbol : Nat) (origin : Nat) (start stop : Place) (extra : Bool) (weight : Int)
      (children : List Reading) (parts : Array (Option String × SyntaxTree))
  deriving Inhabited

namespace Reading

def symbol : Reading → Nat
  | mk symbol .. => symbol

/-- Where the blanks before the reading begin. -/
def origin : Reading → Nat
  | mk _ origin .. => origin

def start : Reading → Place
  | mk _ _ start .. => start

def stop : Reading → Place
  | mk _ _ _ stop .. => stop

def extra : Reading → Bool
  | mk _ _ _ _ extra .. => extra

def weight : Reading → Int
  | mk _ _ _ _ _ weight .. => weight

def children : Reading → List Reading
  | mk _ _ _ _ _ _ children _ => children

def parts : Reading → Array (Option String × SyntaxTree)
  | mk _ _ _ _ _ _ _ parts => parts

def addWeight (more : Int) : Reading → Reading
  | mk symbol origin start stop extra weight children parts =>
    mk symbol origin start stop extra (weight + more) children parts

mutual
/-- Orders readings by symbol, then by number of children, then by the children in order. -/
def compare : Reading → Reading → Ordering
  | mk symbol _ _ _ _ _ children _, other =>
    match Ord.compare symbol other.symbol with
    | .eq =>
      match Ord.compare children.length other.children.length with
      | .eq => compareAll children other.children
      | order => order
    | order => order

def compareAll : List Reading → List Reading → Ordering
  | [], _ => .eq
  | _ :: _, [] => .eq
  | a :: as, b :: bs =>
    match compare a b with
    | .eq => compareAll as bs
    | order => order
end

def isBetter (first second : Reading) : Bool :=
  second.weight > first.weight || (second.weight == first.weight && first.compare second == .gt)

/-- Whether two readings can stand for each other on the way to a common past. -/
def isLike (a b : Reading) : Bool :=
  a.symbol == b.symbol && a.start.offset - a.origin == b.start.offset - b.origin &&
    a.stop.offset - a.start.offset == b.stop.offset - b.start.offset &&
    a.children.length == b.children.length && a.extra == b.extra

/-- The nodes that a reading shows as a child with a label. -/
def shown (tables : Tables) (label : Label) (reading : Reading) :
    Array (Option String × SyntaxTree) :=
  let info := tables.symbols.getD reading.symbol default
  let span : Span := ⟨reading.start.offset, reading.stop.offset⟩
  match label.alias? with
  | some (kind, named) => #[(label.field?, .node kind named span reading.parts.toList)]
  | none =>
    if info.hidden then
      match label.field? with
      | none => reading.parts
      | some field => reading.parts.modify 0 fun part => (part.1 <|> some field, part.2)
    else #[(label.field?, .node info.name info.named span reading.parts.toList)]

def ofToken (token : Token) (origin : Nat) (extra : Bool) : Reading :=
  mk token.symbol origin token.start token.stop extra 0 [] #[]

/-- The reading of a variable made of others; comments among them take no label. -/
def ofChildren (tables : Tables) (owner : Nat) (labels : Array Label) (place : Place)
    (children : List Reading) : Reading :=
  let parts := (children.foldl (fun (parts, index) child =>
    if child.extra then (parts ++ child.shown tables {}, index)
    else (parts ++ child.shown tables (labels.getD index {}), index + 1))
    ((#[], 0) : Array (Option String × SyntaxTree) × Nat)).1
  let origin := ((children.head?).map (·.origin)).getD place.offset
  let start := ((children.head?).map (·.start)).getD place
  let stop := ((children.getLast?).map (·.stop)).getD place
  mk owner origin start stop false (children.foldl (fun sum child => sum + child.weight) 0)
    children parts

end Reading

/-- A step back from a node of the stack: the reading on the way and the node before it. -/
structure Link where
  node : Nat
  reading : Reading
  deriving Inhabited

/-- A node of the stack: readings that met here share it. -/
structure StackNode where
  state : Nat
  place : Place
  links : Array Link
  weight : Int
  deriving Inhabited

/-- How the top of a stack stands: still read, stuck on a token, or given up. -/
inductive Status where
  | active
  | stuck
  | done
  deriving DecidableEq, Inhabited

structure Head where
  node : Nat
  status : Status
  deriving Inhabited

/-- The stacks that are followed, and the best complete reading found. -/
structure Run where
  automaton : Automaton
  nodes : Array StackNode
  heads : Array Head
  finished? : Option Reading
  deriving Inhabited

/-- At most this many stacks are followed from one token to the next. -/
def maxHeads : Nat := 6

/-- At most this many are kept within one token. -/
def maxHeadsWithin : Nat := 10

/-- At most this many links lead back from a node. -/
def maxLinks : Nat := 8

/-- At most this many ways back are followed at once. -/
def maxWays : Nat := 64

namespace Run

def top (run : Run) (version : Nat) : StackNode :=
  run.nodes.getD (run.heads.getD version default).node default

def isActive (run : Run) (version : Nat) : Bool :=
  match run.heads[version]? with
  | some head => head.status = .active
  | none => false

def setStatus (run : Run) (version : Nat) (status : Status) : Run :=
  match run with
  | ⟨automaton, nodes, heads, finished?⟩ =>
    ⟨automaton, nodes, heads.modify version fun head => { head with status }, finished?⟩

def remove (run : Run) (version : Nat) : Run :=
  match run with
  | ⟨automaton, nodes, heads, finished?⟩ =>
    ⟨automaton, nodes, heads.eraseIdxIfInBounds version, finished?⟩

/-- Asks the automaton, which keeps what it had to work out. -/
def ask (run : Run) (question : Automaton → α × Automaton) : α × Run :=
  match run with
  | ⟨automaton, nodes, heads, finished?⟩ =>
    match question automaton with
    | (answer, automaton) => (answer, ⟨automaton, nodes, heads, finished?⟩)

/-- Starts a stack at a node, after the existing ones. -/
def branch (run : Run) (node : Nat) : Run :=
  match run with
  | ⟨automaton, nodes, heads, finished?⟩ =>
    ⟨automaton, nodes, heads.push ⟨node, .active⟩, finished?⟩

def push (run : Run) (version : Nat) (reading : Reading) (state : Nat) : Run :=
  match run with
  | ⟨automaton, nodes, heads, finished?⟩ =>
    let below := (heads.getD version default).node
    let weight := (nodes.getD below default).weight + reading.weight
    let fresh := nodes.size
    ⟨automaton, nodes.push ⟨state, reading.stop, #[⟨below, reading⟩], weight⟩,
      heads.modify version fun head => { head with node := fresh }, finished?⟩

/-- Adds a way back to a node. Of two readings between the same nodes the weightier is kept; nodes
behind like readings are merged in turn, at most `depth` deep. -/
def addLink (depth : Nat) (nodes : Array StackNode) (target : Nat) (link : Link) :
    Array StackNode :=
  match depth with
  | 0 => nodes
  | depth + 1 =>
    if link.node == target then nodes
    else
      let node := nodes.getD target default
      let past := nodes.getD link.node default
      let weight := past.weight + link.reading.weight
      let same := node.links.findIdx? fun other =>
        other.reading.isLike link.reading && other.node == link.node
      let alike := node.links.findIdx? fun other =>
        other.reading.isLike link.reading &&
          (other.node == link.node ||
            ((nodes.getD other.node default).state == past.state &&
              (nodes.getD other.node default).place.offset == past.place.offset))
      match alike, same with
      | some i, same =>
        if same == some i then
          if link.reading.weight > (node.links.getD i default).reading.weight then
            nodes.modify target fun node =>
              { node with links := node.links.setIfInBounds i link, weight }
          else nodes
        else
          let other := (node.links.getD i default).node
          let nodes := past.links.foldl (fun nodes link => addLink depth nodes other link) nodes
          nodes.modify target fun node => { node with weight := max node.weight weight }
      | none, _ =>
        if node.links.size ≥ maxLinks then nodes
        else nodes.modify target fun node =>
          { node with links := node.links.push link, weight := max node.weight weight }

def canMerge (run : Run) (a b : Nat) : Bool :=
  run.isActive a && run.isActive b && (run.top a).state == (run.top b).state &&
    (run.top a).place.offset == (run.top b).place.offset

def merge? (run : Run) (a b : Nat) : Option Run :=
  if run.canMerge a b then
    let links := (run.top b).links
    match run with
    | ⟨automaton, nodes, heads, finished?⟩ =>
      let target := (heads.getD a default).node
      let depth := nodes.size + 1
      let nodes := links.foldl (fun nodes link => addLink depth nodes target link) nodes
      some ⟨automaton, nodes, heads.eraseIdxIfInBounds b, finished?⟩
  else none

/-- A way back through the stack: where it has come to, how many readings it still needs, and the
readings passed. -/
structure Way where
  node : Nat
  needed : Nat
  readings : List Reading

/-- Follows ways back, one link each per round, until enough readings other than comments are
passed. The order of the answers is the order in which ways are completed. -/
def waysBack (nodes : Array StackNode) : Nat → List Way → List (Nat × List Reading)
  | 0, _ => []
  | _, [] => []
  | rounds + 1, ways =>
    let answers := ways.filterMap fun way =>
      if way.needed = 0 then some (way.node, way.readings) else none
    let pending := ways.filter fun way =>
      way.needed ≠ 0 && !(nodes.getD way.node default).links.isEmpty
    let along := fun (way : Way) (link : Link) =>
      { node := link.node
        needed := if link.reading.extra then way.needed else way.needed - 1
        readings := link.reading :: way.readings : Way }
    let onward := pending.map fun way =>
      along way ((nodes.getD way.node default).links.getD 0 default)
    let branches := pending.flatMap fun way =>
      ((nodes.getD way.node default).links.toList.drop 1).map (along way)
    answers ++ waysBack nodes rounds (onward ++ branches.take (maxWays - onward.length))

/-- Puts answers that come to the same node together, in order of first appearance. -/
def grouped : List (Nat × List Reading) → List (Nat × List (List Reading))
  | answers => answers.foldl (fun groups (node, readings) =>
    if groups.any (·.1 == node) then
      groups.map fun group => if group.1 == node then (node, group.2 ++ [readings]) else group
    else groups ++ [(node, [readings])]) []

/-- Splits comments off the end. -/
def splitExtras (readings : List Reading) : List Reading × List Reading :=
  let trailing := (readings.reverse.takeWhile (·.extra)).reverse
  (readings.take (readings.length - trailing.length), trailing)

/-- The first earlier stack other than `version` that a new one can join. -/
def joinEarlier (run : Run) (version last : Nat) : Run :=
  match (List.range last).find? fun other => other != version && run.canMerge other last with
  | some other => (run.merge? other last).getD run
  | none => run

/-- Replaces the readings on top of a stack by one of the variable they make up. Each place that
this leads back to starts a stack of its own after the existing ones. -/
def reduce (tables : Tables) (run : Run) (version owner count : Nat) (completion : Completion) :
    Run :=
  let answers := waysBack run.nodes (run.nodes.size + 1)
    [⟨(run.heads.getD version default).node, count, []⟩]
  (grouped answers).foldl (fun run (node, alternatives) =>
    if run.heads.size > maxHeadsWithin then run
    else
      let base := run.nodes.getD node default
      let build := fun (readings : List Reading) =>
        let (children, trailing) := splitExtras readings
        (Reading.ofChildren tables owner completion.labels base.place children, trailing)
      match alternatives.map build with
      | [] => run
      | first :: others =>
        let (reading, trailing) := others.foldl (fun best other =>
          if best.1.isBetter other.1 then other else best) first
        let reading := reading.addWeight completion.weight
        let (state, run) := run.ask (Automaton.move tables base.state owner)
        let fresh := run.heads.size
        let run := (run.branch node).push fresh reading state
        let run := trailing.foldl (fun run extra => run.push fresh extra state) run
        run.joinEarlier version fresh) run

/-- The readings below a node, along first links only; `depth` bounds their number. -/
def below (nodes : Array StackNode) : Nat → Nat → List Reading
  | 0, _ => []
  | depth + 1, node =>
    match (nodes.getD node default).links[0]? with
    | none => []
    | some link => below nodes depth link.node ++ [link.reading]

/-- Takes the whole stack as a reading of the text; the better of two such is kept. -/
def accept (tables : Tables) (run : Run) (version : Nat) : Run :=
  let node := (run.heads.getD version default).node
  let answers := waysBack run.nodes (run.nodes.size + 1) [⟨node, 1, []⟩]
  let whole := answers.filterMap fun (bottom, readings) =>
    readings.head?.map fun text =>
      let parts := (below run.nodes run.nodes.size bottom ++ readings).foldl (fun parts reading =>
        parts ++ (if reading.extra then reading.shown tables {} else reading.parts)) #[]
      Reading.mk text.symbol text.origin text.start text.stop false text.weight text.children parts
  let finished? := whole.foldl (fun best? reading =>
    match best? with
    | none => some reading
    | some best => if best.isBetter reading then some reading else some best) run.finished?
  { run with finished? }.setStatus version .done

def renumber (run : Run) (source target : Nat) : Run :=
  { run with heads := run.heads.setIfInBounds target (run.heads.getD source default) }.remove source

end Run

/-- What a grammar's parser needs: its tables, how the next token is found among the possible
ones, and which literals are words that may be names instead. -/
structure Language where
  tables : Tables
  next : TokenSet → Place → Option Token
  isWord : Nat → Bool
  nameToken : Nat

namespace Run

/-- Reads on with a stack until its token is taken or it is stuck; `fuel` bounds the number of
reductions. -/
def take (language : Language) : Nat → Nat → Token → Run → Run
  | 0, version, _, run => run.setStatus version .stuck
  | fuel + 1, version, token, run =>
    let state := (run.top version).state
    let origin := (run.top version).place.offset
    let (actions, run) := run.ask (Automaton.actionsOn language.tables state token.symbol)
    if actions.isEmpty then
      if TokenSet.has language.tables.extras token.symbol then
        run.push version (.ofToken token origin true) state
      else if language.isWord token.symbol then
        let (actions, run) :=
          run.ask (Automaton.actionsOn language.tables state language.nameToken)
        if actions.isEmpty then run.setStatus version .stuck
        else take language fuel version { token with symbol := language.nameToken } run
      else run.setStatus version .stuck
    else
      let shifts := actions.findSome? fun action => match action with
        | .shift target => some target
        | _ => none
      let accepts := actions.any fun action => match action with
        | .accept => true
        | _ => false
      let (run, last?) := actions.foldl (fun (run, last?) action =>
        match action with
        | .reduce owner count completion =>
          let before := run.heads.size
          let run := run.reduce language.tables version owner count completion
          (run, if run.heads.size > before then some before else last?)
        | _ => (run, last?)) ((run, none) : Run × Option Nat)
      if accepts then run.accept language.tables version
      else
        match shifts, last? with
        | some target, _ => run.push version (.ofToken token origin false) target
        | none, some last => take language fuel version token (run.renumber last version)
        | none, none => run.setStatus version .done

def step (language : Language) (fuel version : Nat) (run : Run) : Run :=
  let top := run.top version
  let valid := (run.automaton.states.getD top.state default).valid
  match language.next valid top.place with
  | none => run.setStatus version .stuck
  | some token => run.take language fuel version token

/-- Reads on with one stack until it has passed `last`, or reached it when it is not the first. -/
def stepPast (language : Language) (reductions : Nat) : Nat → Nat → Nat → Run → Nat × Run
  | 0, _, last, run => (last, run)
  | fuel + 1, version, last, run =>
    if run.isActive version then
      let run := run.step language reductions version
      let offset := (run.top version).place.offset
      if offset > last || (version > 0 && offset == last) then (offset, run)
      else stepPast language reductions fuel version last run
    else (last, run)

/-- Reads on with every stack in turn, also with those that come up meanwhile. -/
def stepAll (language : Language) (reductions : Nat) : Nat → Nat → Nat → Run → Nat × Run
  | 0, _, last, run => (last, run)
  | fuel + 1, version, last, run =>
    if version < run.heads.size then
      let (last, run) := run.stepPast language reductions reductions version last
      stepAll language reductions fuel (version + 1) last run
    else (last, run)

/-- Compares the stack at `i`, which stood with the given status and weight, with those before
it: a stuck one gives way, others merge if they can, and the weightier stands first. -/
def settle (status : Status) (weight : Int) : Nat → Nat → Nat → Run → Nat × Run
  | 0, i, _, run => (i + 1, run)
  | fuel + 1, i, j, run =>
    if j < i then
      let other := run.heads.getD j default
      if other.status = .active && status = .stuck then (i, run.remove i)
      else if other.status = .stuck && status = .active then
        settle status weight fuel (i - 1) j (run.remove j)
      else
        match run.merge? j i with
        | some run => (i, run)
        | none =>
          if weight > (run.top j).weight then
            let a := run.heads.getD i default
            let run := { run with heads := (run.heads.setIfInBounds i other).setIfInBounds j a }
            settle status weight fuel i (j + 1) run
          else settle status weight fuel i (j + 1) run
    else (i + 1, run)

/-- Settles all stacks, dropping those given up. -/
def settleAll : Nat → Nat → Run → Run
  | 0, _, run => run
  | fuel + 1, i, run =>
    match run.heads[i]? with
    | none => run
    | some head =>
      if head.status = .done then settleAll fuel i (run.remove i)
      else
        let (i, run) := run.settle head.status (run.top i).weight (run.heads.size * 2) i 0
        settleAll fuel i run

def readAll (language : Language) (reductions : Nat) : Nat → Nat → Run → Option Reading
  | 0, _, run => run.finished?
  | fuel + 1, last, run =>
    let (last, run) := run.stepAll language reductions reductions 0 last
    let run := run.settleAll (run.heads.size * 2 + 1) 0
    let run := { run with heads := run.heads.take maxHeads }
    if run.heads.any (·.status = .active) then
      readAll language reductions fuel last
        { run with heads := run.heads.filter (·.status = .active) }
    else run.finished?

end Run

namespace Language

/-- The syntax tree of a text, if the grammar has one for it. -/
def parse? (language : Language) (text : String) : Option SyntaxTree :=
  let place : Place := ⟨0, text.toList⟩
  let run : Run :=
    { automaton := Automaton.start language.tables
      nodes := #[⟨0, place, #[], 0⟩]
      heads := #[⟨0, .active⟩]
      finished? := none }
  let rounds := 4 * place.rest.length + 16
  (run.readAll language (64 * rounds) rounds 0).map fun reading =>
    let info := language.tables.symbols.getD reading.symbol default
    .node info.name true ⟨reading.start.offset, reading.stop.offset⟩ reading.parts.toList

end Language

end CodeGraph.Grammar
