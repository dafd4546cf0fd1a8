/-! JSON values, also those whose text breaks off or goes wrong somewhere. -/
namespace CodeGraph

namespace Json

/-- What is wrong with a JSON text: it is malformed, its value has the wrong shape, or it ends
early. -/
inductive Fault where
  | malformed
  | mismatch
  | truncated
  deriving DecidableEq, Inhabited, Repr

end Json

/-- A JSON value. A number keeps its spelling. In a text that goes wrong the value ends with the
fault: `broken` stands for a value that cannot be read, and an array or object that is not closed
says why. A string with half of a surrogate pair is `unpaired`: it can only be passed over. -/
inductive Json where
  | null
  | bool (value : Bool)
  | number (spelling : String)
  | string (text : String)
  | array (items : List Json) (fault? : Option Json.Fault)
  | object (members : List (String × Json)) (fault? : Option Json.Fault)
  | unpaired
  | broken (fault : Json.Fault)
  deriving Inhabited, Repr

namespace Json

def ofList (items : List Json) : Json := array items none

def ofMembers (members : List (String × Json)) : Json := object members none

def ofNat (n : Nat) : Json := number (toString n)

def ofOption : Option String → Json
  | none => null
  | some text => string text

def get? (name : String) : Json → Option Json
  | object members _ => (members.reverse.find? (·.1 = name)).map (·.2)
  | _ => none

end Json

end CodeGraph
