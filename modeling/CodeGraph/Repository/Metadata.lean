import CodeGraph.Json.Value

/-! What is known of a repository. -/
namespace CodeGraph.Repository

structure Contributor where
  login : String
  contributions : UInt64
  deriving DecidableEq, Inhabited, Repr

/-- What is known of a repository. The languages come with their numbers of bytes. -/
structure Metadata where
  name : String
  fullName : String
  description? : Option String
  stars : UInt64
  forks : UInt64
  openIssues : UInt64
  license? : Option String
  isPrivate : Bool
  visibility? : Option String
  defaultBranch? : Option String
  languages : Dictionary UInt64
  contributors : List Contributor
  deriving DecidableEq, Inhabited, Repr

namespace Contributor

def toJson (contributor : Contributor) : Json :=
  .ofMembers [("login", .string contributor.login),
    ("contributions", .ofNat contributor.contributions.toNat)]

structure Draft where
  login? : Option String := none
  contributions? : Option UInt64 := none

open Json.Decode in
def draftFields : List (Slot Draft) :=
  [{ names := ["login"], isSet := (·.login?.isSome)
     read := fun depth json draft => return { draft with login? := some (← string depth json) } },
   { names := ["contributions"], isSet := (·.contributions?.isSome)
     read := fun depth json draft =>
       return { draft with contributions? := some (← uint64 depth json) } }]

open Json.Decode in
def decode : Json.Decoder Contributor := fun depth json => do
  let draft ← record draftFields {} depth json
  return { login := ← required draft.login?, contributions := ← required draft.contributions? }

end Contributor

namespace License

/-- The identifier that stands for none. -/
def unknown : String := "NOASSERTION"

structure Draft where
  identifier? : Option (Option String) := none
  name? : Option (Option String) := none

def textOf : Json → Except Json.Fault (Option String)
  | .null => .ok none
  | .string text => .ok (some text)
  | _ => .error .mismatch

/-- Reads the members that matter, each at most once. -/
def ofMembers : List (String × Json) → Draft → Except Json.Fault Draft
  | [], draft => .ok draft
  | (name, member) :: rest, draft => do
    if name = "spdx_id" then
      if draft.identifier?.isSome then throw .mismatch
      ofMembers rest { draft with identifier? := some (← textOf member) }
    else if name = "name" then
      if draft.name?.isSome then throw .mismatch
      ofMembers rest { draft with name? := some (← textOf member) }
    else ofMembers rest draft

/-- Reads a license: null, its name, or an object with its identifier and its name, of which the
identifier goes first. -/
def decode : Json.Decoder (Option String)
  | _, .null => .ok none
  | depth, .object members fault? => do
    let draft ← ofMembers (← Json.Decode.entries Json.Decode.any depth (.object members fault?)) {}
    return (draft.identifier?.join.filter (· ≠ unknown)).or draft.name?.join
  | depth, json => do
    match ← Json.Decode.any depth json with
    | .string name => return some name
    | _ => throw .mismatch

end License

namespace Metadata

def languagesToJson (languages : Dictionary UInt64) : Json :=
  .ofMembers (languages.entries.map fun (name, size) => (name, .ofNat size.toNat))

def decodeLanguages : Json.Decoder (Dictionary UInt64) := fun depth json =>
  return .ofList (← Json.Decode.entries Json.Decode.uint64 depth json)

def toJson (metadata : Metadata) : Json :=
  .ofMembers
    [("name", .string metadata.name), ("full_name", .string metadata.fullName),
      ("description", .ofOption metadata.description?),
      ("stargazers_count", .ofNat metadata.stars.toNat),
      ("forks_count", .ofNat metadata.forks.toNat),
      ("open_issues_count", .ofNat metadata.openIssues.toNat),
      ("license", .ofOption metadata.license?), ("private", .bool metadata.isPrivate),
      ("visibility", .ofOption metadata.visibility?),
      ("default_branch", .ofOption metadata.defaultBranch?),
      ("languages", languagesToJson metadata.languages),
      ("contributors", .ofList (metadata.contributors.map (·.toJson)))]

structure Draft where
  name? : Option String := none
  fullName? : Option String := none
  description? : Option (Option String) := none
  stars? : Option UInt64 := none
  forks? : Option UInt64 := none
  openIssues? : Option UInt64 := none
  license? : Option (Option String) := none
  isPrivate? : Option Bool := none
  visibility? : Option (Option String) := none
  defaultBranch? : Option (Option String) := none
  languages? : Option (Dictionary UInt64) := none
  contributors? : Option (List Contributor) := none

open Json.Decode in
def draftFields : List (Slot Draft) :=
  [{ names := ["name"], isSet := (·.name?.isSome)
     read := fun depth json draft => return { draft with name? := some (← string depth json) } },
   { names := ["full_name"], isSet := (·.fullName?.isSome)
     read := fun depth json draft =>
       return { draft with fullName? := some (← string depth json) } },
   { names := ["description"], isSet := (·.description?.isSome), optional := true
     read := fun depth json draft =>
       return { draft with description? := some (← optional string depth json) } },
   { names := ["stargazers_count"], isSet := (·.stars?.isSome)
     read := fun depth json draft => return { draft with stars? := some (← uint64 depth json) } },
   { names := ["forks_count"], isSet := (·.forks?.isSome)
     read := fun depth json draft => return { draft with forks? := some (← uint64 depth json) } },
   { names := ["open_issues_count"], isSet := (·.openIssues?.isSome)
     read := fun depth json draft =>
       return { draft with openIssues? := some (← uint64 depth json) } },
   { names := ["license"], isSet := (·.license?.isSome), optional := true
     read := fun depth json draft =>
       return { draft with license? := some (← License.decode depth json) } },
   { names := ["private"], isSet := (·.isPrivate?.isSome), optional := true
     read := fun depth json draft =>
       return { draft with isPrivate? := some (← bool depth json) } },
   { names := ["visibility"], isSet := (·.visibility?.isSome), optional := true
     read := fun depth json draft =>
       return { draft with visibility? := some (← optional string depth json) } },
   { names := ["default_branch"], isSet := (·.defaultBranch?.isSome), optional := true
     read := fun depth json draft =>
       return { draft with defaultBranch? := some (← optional string depth json) } },
   { names := ["languages"], isSet := (·.languages?.isSome), optional := true
     read := fun depth json draft =>
       return { draft with languages? := some (← decodeLanguages depth json) } },
   { names := ["contributors"], isSet := (·.contributors?.isSome), optional := true
     read := fun depth json draft =>
       return { draft with contributors? := some (← list Contributor.decode depth json) } }]

open Json.Decode in
def decode : Json.Decoder Metadata := fun depth json => do
  let draft ← record draftFields {} depth json
  return {
    name := ← required draft.name?
    fullName := ← required draft.fullName?
    description? := draft.description?.join
    stars := ← required draft.stars?
    forks := ← required draft.forks?
    openIssues := ← required draft.openIssues?
    license? := draft.license?.join
    isPrivate := draft.isPrivate?.getD false
    visibility? := draft.visibility?.join
    defaultBranch? := draft.defaultBranch?.join
    languages := draft.languages?.getD .empty
    contributors := draft.contributors?.getD [] }

end Metadata

end CodeGraph.Repository
