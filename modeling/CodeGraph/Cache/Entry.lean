import CodeGraph.Graph.Json
import CodeGraph.Json.Value
import CodeGraph.Time

/-! Graphs that have been kept, with what is needed to judge them. -/
namespace CodeGraph

/-- A kept graph: the key it is kept under, the version of the program, that of the health policy,
the time, and what else is known of its origin. -/
structure CachedGraph where
  key : String
  version : String
  policyVersion : UInt32
  time : Time
  about? : Option Json
  graph : Graph
  deriving Inhabited

namespace CachedGraph

def currentVersion : String := "0.1.0"

/-- A kept graph as JSON: what is known of its origin only if it is given. -/
def toJson (entry : CachedGraph) : Json :=
  .ofMembers <|
    [("key", .string entry.key), ("version", .string entry.version),
      ("health_policy_version", .ofNat entry.policyVersion.toNat),
      ("cached_at", .string entry.time.toText)] ++
    (match entry.about? with
      | some about => [("metadata", about)]
      | none => []) ++
    [("graph", entry.graph.toJson)]

structure Draft where
  key? : Option String := none
  version? : Option String := none
  policyVersion? : Option UInt32 := none
  time? : Option Time := none
  about? : Option (Option Json) := none
  graph? : Option Graph := none

def decodeTime : Json.Decoder Time := fun depth json => do
  match Time.ofText? (← Json.Decode.string depth json) with
  | some time => .ok time
  | none => .error .mismatch

open Json.Decode in
def draftFields : List (Slot Draft) :=
  [{ names := ["key"], isSet := (·.key?.isSome)
     read := fun depth json draft => return { draft with key? := some (← string depth json) } },
   { names := ["version"], isSet := (·.version?.isSome)
     read := fun depth json draft =>
       return { draft with version? := some (← string depth json) } },
   { names := ["health_policy_version"], isSet := (·.policyVersion?.isSome)
     read := fun depth json draft =>
       return { draft with policyVersion? := some (← uint32 depth json) } },
   { names := ["cached_at"], isSet := (·.time?.isSome)
     read := fun depth json draft =>
       return { draft with time? := some (← decodeTime depth json) } },
   { names := ["metadata"], isSet := (·.about?.isSome), optional := true
     read := fun depth json draft =>
       return { draft with about? := some (← optional any depth json) } },
   { names := ["graph"], isSet := (·.graph?.isSome)
     read := fun depth json draft =>
       return { draft with graph? := some (← Graph.decode depth json) } }]

open Json.Decode in
def decode : Json.Decoder CachedGraph := fun depth json => do
  let draft ← record draftFields {} depth json
  return {
    key := ← required draft.key?
    version := ← required draft.version?
    policyVersion := ← required draft.policyVersion?
    time := ← required draft.time?
    about? := draft.about?.join
    graph := ← required draft.graph? }

end CachedGraph

end CodeGraph
