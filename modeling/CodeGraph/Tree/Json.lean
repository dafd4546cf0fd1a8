import CodeGraph.Json.Decode
import CodeGraph.Tree.Entry

/-! File trees as JSON. -/
namespace CodeGraph

namespace EntryKind

def word : EntryKind → String
  | file => "file"
  | folder => "folder"

def decode : Json.Decoder EntryKind :=
  Json.Decode.word [("file", file), ("folder", folder)]

end EntryKind

namespace Entry

mutual
/-- An entry as JSON: the handle only if it is set, the children only if there are any. -/
def toJson : Entry → Json
  | ⟨path, name, kind, size, handle?, children⟩ =>
    .ofMembers <|
      [("path", .string path), ("name", .string name), ("type", .string kind.word),
        ("size", .ofNat size.toNat)] ++
      (match handle? with
        | some handle => [("content_handle", .string handle)]
        | none => []) ++
      (if children.isEmpty then [] else [("children", .ofList (listToJson children))])

def listToJson : List Entry → List Json
  | [] => []
  | entry :: rest => toJson entry :: listToJson rest
end

structure Draft where
  path? : Option String := none
  name? : Option String := none
  kind? : Option EntryKind := none
  size? : Option UInt64 := none
  handle? : Option (Option String) := none
  children? : Option (List Entry) := none

open Json.Decode in
/-- The members of an entry, given how its children are read. -/
def draftFields (children : Json.Decoder (List Entry)) : List (Slot Draft) :=
  [{ names := ["path"], isSet := (·.path?.isSome)
     read := fun depth json draft => return { draft with path? := some (← string depth json) } },
   { names := ["name"], isSet := (·.name?.isSome)
     read := fun depth json draft => return { draft with name? := some (← string depth json) } },
   { names := ["type"], isSet := (·.kind?.isSome)
     read := fun depth json draft =>
       return { draft with kind? := some (← EntryKind.decode depth json) } },
   { names := ["size"], isSet := (·.size?.isSome), optional := true
     read := fun depth json draft => return { draft with size? := some (← uint64 depth json) } },
   { names := ["content_handle", "download_url"], isSet := (·.handle?.isSome), optional := true
     read := fun depth json draft =>
       return { draft with handle? := some (← optional string depth json) } },
   { names := ["children"], isSet := (·.children?.isSome), optional := true
     read := fun depth json draft =>
       return { draft with children? := some (← children depth json) } }]

def ofDraft (draft : Draft) : Except Json.Fault Entry := do
  let path ← Json.Decode.required draft.path?
  let name ← Json.Decode.required draft.name?
  let kind ← Json.Decode.required draft.kind?
  return { path, name, kind, size := draft.size?.getD 0, handle? := draft.handle?.join
           children := draft.children?.getD [] }

/-- Reads an entry. The first number bounds how deep entries may nest. -/
def decodeUpTo : Nat → Json.Decoder Entry
  | 0 => fun _ _ => .error .malformed
  | levels + 1 => fun depth json => do
    let fields := draftFields (Json.Decode.list (decodeUpTo levels))
    ofDraft (← Json.Decode.record fields {} depth json)

def decode : Json.Decoder Entry := fun depth => decodeUpTo (depth + 1) depth

end Entry

namespace FileTree

def toJson (tree : FileTree) : Json := .ofList (Entry.listToJson tree)

def decode : Json.Decoder FileTree := Json.Decode.list Entry.decode

end FileTree

end CodeGraph
