import CodeGraph.Decimal.Shortest
import CodeGraph.Dictionary
import CodeGraph.Json.Decode

/-! JSON values as such: members sorted by name, and numbers in one spelling. -/
namespace CodeGraph.Json

/-- A double: positional up to 16 digits before the point and 5 places after it, else with an
exponent. -/
def spell (x : Float) : String :=
  let sign := if 0x8000000000000000 ≤ x.toBits then "-" else ""
  if x == 0.0 then sign ++ "0.0"
  else
    let (c, p) := Decimal.shortest x
    let digits := (toString c).toList
    let point : Int := digits.length + p
    let zeros := fun (n : Int) => List.replicate n.toNat '0'
    let size :=
      if 0 ≤ p ∧ point ≤ 16 then digits ++ zeros p ++ ['.', '0']
      else if 0 < point ∧ point ≤ 16 then
        digits.take point.toNat ++ '.' :: digits.drop point.toNat
      else if -5 < point ∧ point ≤ 0 then '0' :: '.' :: zeros (-point) ++ digits
      else
        let power := 'e' :: (toString (point - 1)).toList
        match digits with
        | [digit] => digit :: power
        | digit :: more => digit :: '.' :: more ++ power
        | [] => []
    sign ++ String.ofList size

def Number.Value.spelling : Number.Value → String
  | whole n => toString n
  | below n => "-" ++ toString n
  | double x => spell x

mutual
def sorted : Json → Json
  | array items fault? => array (sortedItems items) fault?
  | object members fault? => object (Dictionary.ofList (sortedMembers members)).entries fault?
  | json => json

def sortedItems : List Json → List Json
  | [] => []
  | item :: rest => sorted item :: sortedItems rest

def sortedMembers : List (String × Json) → List (String × Json)
  | [] => []
  | (name, member) :: rest => (name, sorted member) :: sortedMembers rest
end

namespace Decode

/-- A value of any shape. -/
def any : Decoder Json
  | _, .null => .ok .null
  | _, .bool value => .ok (.bool value)
  | _, .string text => .ok (.string text)
  | _, .unpaired => .error .malformed
  | _, .broken fault => .error fault
  | _, .number spelling =>
    match Number.value? spelling with
    | some value => .ok (.number value.spelling)
    | none => .error .malformed
  | 0, .array _ _ => .error .malformed
  | 0, .object _ _ => .error .malformed
  | depth + 1, .array values fault? => do
    let read ← items (any depth) values
    match fault? with
    | none => .ok (.ofList read)
    | some fault => .error fault
  | depth + 1, .object values fault? => do
    let read ← members (any depth) values
    match fault? with
    | none => .ok (.ofMembers (Dictionary.ofList read).entries)
    | some fault => .error fault

end Decode

end CodeGraph.Json
