import CodeGraph.Json.Number
import CodeGraph.Json.Reader

/-! Reading values of a given shape out of JSON, from left to right: the first fault decides. -/
namespace CodeGraph.Json

/-- How a value of a type is read. The number says how many containers may still be entered. -/
abbrev Decoder (α : Type) := Nat → Json → Except Fault α

namespace Decode

/-- The number of containers that may nest. -/
def maxDepth : Nat := 127

mutual
/-- Passes over a value, which must be well formed. -/
def pass : Json → Except Fault Unit
  | .broken fault => .error fault
  | .array items fault? => do
    passItems items
    fault?.elim (.ok ()) .error
  | .object members fault? => do
    passMembers members
    fault?.elim (.ok ()) .error
  | _ => .ok ()

def passItems : List Json → Except Fault Unit
  | [] => .ok ()
  | item :: rest => do
    pass item
    passItems rest

def passMembers : List (String × Json) → Except Fault Unit
  | [] => .ok ()
  | (_, member) :: rest => do
    pass member
    passMembers rest
end

/-- The fault of a value that has another shape than the one asked for. -/
def unexpected : Json → Fault
  | .broken fault => fault
  | .unpaired => .malformed
  | .number spelling => if (Number.value? spelling).isSome then .mismatch else .malformed
  | _ => .mismatch

def string : Decoder String
  | _, .string text => .ok text
  | _, json => .error (unexpected json)

def bool : Decoder Bool
  | _, .bool value => .ok value
  | _, json => .error (unexpected json)

def whole (limit : Nat) : Decoder Nat
  | _, .number spelling =>
    match Number.value? spelling with
    | some (.whole n) => if n ≤ limit then .ok n else .error .mismatch
    | some _ => .error .mismatch
    | none => .error .malformed
  | _, json => .error (unexpected json)

def uint64 : Decoder UInt64 := fun depth json => (whole (UInt64.size - 1) depth json).map UInt64.ofNat

def uint32 : Decoder UInt32 := fun depth json => (whole (UInt32.size - 1) depth json).map UInt32.ofNat

def uint8 : Decoder UInt8 := fun depth json => (whole (UInt8.size - 1) depth json).map UInt8.ofNat

def optional (decode : Decoder α) : Decoder (Option α)
  | _, .null => .ok none
  | depth, json => (decode depth json).map some

def items (decode : Json → Except Fault α) : List Json → Except Fault (List α)
  | [] => .ok []
  | item :: rest => do
    let value ← decode item
    return value :: (← items decode rest)

def list (decode : Decoder α) : Decoder (List α)
  | 0, .array _ _ => .error .malformed
  | depth + 1, .array values fault? => do
    let read ← items (decode depth) values
    match fault? with
    | none => .ok read
    | some fault => .error fault
  | _, json => .error (unexpected json)

def members (decode : Json → Except Fault α) : List (String × Json) →
    Except Fault (List (String × α))
  | [] => .ok []
  | (name, member) :: rest => do
    let value ← decode member
    return (name, value) :: (← members decode rest)

/-- An object whose member names are free. -/
def entries (decode : Decoder α) : Decoder (List (String × α))
  | 0, .object _ _ => .error .malformed
  | depth + 1, .object values fault? => do
    let read ← members (decode depth) values
    match fault? with
    | none => .ok read
    | some fault => .error fault
  | _, json => .error (unexpected json)

/-- One of several words, each standing for a value. A word may also be the only member name of an
object, with null as its value. -/
def word (values : List (String × α)) : Decoder α
  | _, .string text =>
    match values.lookup text with
    | some value => .ok value
    | none => .error .mismatch
  | 0, .object _ _ => .error .malformed
  | _, .object [] fault? => .error (fault?.getD .malformed)
  | _, .object ((name, member) :: rest) fault? =>
    match values.lookup name with
    | none => .error .mismatch
    | some value =>
      match member with
      | .null =>
        if rest.isEmpty then
          match fault? with
          | none => .ok value
          | some fault => .error fault
        else .error .malformed
      | member => .error (unexpected member)
  | _, .broken fault => .error fault
  | _, _ => .error .malformed

/-- A member of a record: its names, whether it has been read, how it is read, and whether it may
be missing at the end of a record written as an array. -/
structure Slot (σ : Type) where
  names : List String
  isSet : σ → Bool
  read : Nat → Json → σ → Except Fault σ
  optional : Bool := false

/-- Reads the members of a record in the order in which they stand. Unknown ones are passed over,
a repeated one is a fault. -/
def recordMembers (fields : List (Slot σ)) (depth : Nat) :
    List (String × Json) → σ → Except Fault σ
  | [], state => .ok state
  | (name, member) :: rest, state =>
    match fields.find? (·.names.contains name) with
    | none => do
      pass member
      recordMembers fields depth rest state
    | some field =>
      if field.isSet state then .error .mismatch
      else do
        let state ← field.read depth member state
        recordMembers fields depth rest state

/-- Reads the fields of a record from the items of an array. -/
def recordItems (depth : Nat) (fault? : Option Fault) :
    List (Slot σ) → List Json → σ → Except Fault σ
  | [], [], state =>
    match fault? with
    | none => .ok state
    | some fault => .error fault
  | [], _ :: _, _ => .error .malformed
  | field :: fields, item :: rest, state => do
    let state ← field.read depth item state
    recordItems depth fault? fields rest state
  | field :: fields, [], state =>
    match fault? with
    | some fault => .error fault
    | none => if field.optional then recordItems depth fault? fields [] state else .error .mismatch

/-- A record: an object, or an array of its fields in order. -/
def record (fields : List (Slot σ)) (start : σ) : Decoder σ
  | 0, .object _ _ => .error .malformed
  | 0, .array _ _ => .error .malformed
  | depth + 1, .object values fault? => do
    let state ← recordMembers fields depth values start
    match fault? with
    | none => .ok state
    | some fault => .error fault
  | depth + 1, .array values fault? => recordItems depth fault? fields values start
  | _, json => .error (unexpected json)

/-- A field that must have been read. -/
def required : Option α → Except Fault α
  | some value => .ok value
  | none => .error .mismatch

def text (decode : Decoder α) (document : Document) : Except Fault α := do
  let value ← decode maxDepth document.value
  match document.fault? with
  | none => .ok value
  | some fault => .error fault

end Decode

end CodeGraph.Json
