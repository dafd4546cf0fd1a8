import CodeGraph.Host.Basic
import CodeGraph.Settings.Assignment

/-! Looking up settings, also those that a file in the current folder adds. -/
namespace CodeGraph.Settings

def fileName : String := ".env"

variable {m : Type → Type} [Monad m]

/-- The value of a setting, given those that the file has added so far. -/
def among (host : Host m) (added : List (String × String)) (name : String) : m (Option String) := do
  return (← host.setting name).or (added.lookup name)

/-- The text of a part of a value. What is not set is empty. -/
def textOf (host : Host m) (added : List (String × String)) : Piece → m String
  | .text chars => return String.ofList chars
  | .setting name => return (← among host added name).getD ""

/-- Makes assignments in turn. A setting that has a value already keeps it. -/
def assign (host : Host m) : List (String × String) → List Assignment → m (List (String × String))
  | added, [] => return added
  | added, ⟨name, pieces⟩ :: rest => do
    match ← among host added name with
    | some _ => assign host added rest
    | none =>
      let value := String.join (← pieces.mapM (textOf host added))
      assign host ((name, value) :: added) rest

def lookup (host : Host m) (name : String) : m (Option String) := do
  match ← host.setting name with
  | some value => return some value
  | none =>
    match ← host.readNearest fileName with
    | none => return none
    | some content => return (← assign host [] (assignments content)).lookup name

end CodeGraph.Settings
