import CodeGraph.Host.Basic
import CodeGraph.Repository.Listing
import CodeGraph.Repository.Locator
import CodeGraph.Repository.Metadata

/-! Asking for what is known of a repository and for its tree. -/
namespace CodeGraph.Repository

inductive RemoteError where
  | unsent (url : String)
  | refused (status : Nat) (body : String)
  | undecodable (url : String)
  deriving DecidableEq, Inhabited, Repr

namespace RemoteError

def message : RemoteError → String
  | unsent url => "Failed to send request to " ++ url
  | refused status body => "GitHub API error (" ++ Web.Status.text status ++ "): " ++ body
  | undecodable url => "Failed to decode response from " ++ url

end RemoteError

/-- Where requests go, and the token that they carry. -/
structure Client where
  service : String
  token? : Option String
  deriving DecidableEq, Inhabited, Repr

namespace Client

def defaultService : String := "https://api.github.com"

def userAgent : String := "codeatlas/0.1.0"

def answerKind : String := "application/vnd.github+json"

/-- A client of the default service. An empty token is none. -/
def ofToken (token? : Option String) : Client := ⟨defaultService, Web.usable token?⟩

/-- Sets the service. Slashes at the end of its address do not count. -/
def withService (client : Client) (service : String) : Client :=
  { client with
    service := String.ofList (service.toList.reverse.dropWhile (· = '/')).reverse }

def request? (client : Client) (url : String) : Option Web.Request :=
  Web.Request.make? url client.token? (some userAgent) answerKind

def read (decode : Json.Decoder α) (url : String) :
    Option Web.Response → Except RemoteError α
  | none => .error (.unsent url)
  | some response =>
    if response.isSuccess then
      match String.fromUTF8? response.body with
      | none => .error (.undecodable url)
      | some text =>
        match Json.Decode.text decode (.ofText text) with
        | .ok value => .ok value
        | .error _ => .error (.undecodable url)
    else .error (.refused response.status response.text)

variable {m : Type → Type} [Monad m]

def get (host : Host m) (client : Client) (decode : Json.Decoder α) (url : String) :
    m (Except RemoteError α) := do
  match client.request? url with
  | none => return .error (.unsent url)
  | some request => return read decode url (← host.send request)

def address (client : Client) (locator : Locator) : String :=
  client.service ++ "/repos/" ++ locator.owner ++ "/" ++ locator.name

/-- The address of the listing of a folder. -/
def folderAddress (client : Client) (locator : Locator) (path : String) : String :=
  client.address locator ++ "/contents/" ++ path

/-- Asks what is known of a repository, with its languages and ten contributors. Only the first of
these requests must succeed. -/
def metadata (host : Host m) (client : Client) (locator : Locator) :
    m (Except RemoteError Metadata) := do
  let base := client.address locator
  match ← get host client Metadata.decode base with
  | .error error => return .error error
  | .ok metadata =>
    let languages ← get host client Metadata.decodeLanguages (base ++ "/languages")
    let contributors ←
      get host client (Json.Decode.list Contributor.decode) (base ++ "/contributors?per_page=10")
    return .ok {
      metadata with
      languages := languages.toOption.getD metadata.languages
      contributors := contributors.toOption.getD metadata.contributors }

/-- Asks for the listing of a folder. One that cannot be had is empty. -/
def listFolder (host : Host m) (client : Client) (locator : Locator) (path : String) :
    m (List Listed) := do
  let listed ← get host client (Json.Decode.list Listed.decode) (client.folderAddress locator path)
  return listed.toOption.getD []

/-- Lists folders, and those below them a number of levels down, level by level. -/
def listLevels (list : String → m (List Listed)) :
    Nat → List String → Listings → m Listings
  | levels, paths, listings => do
    if paths.isEmpty then return listings
    let level ← paths.mapM fun path => return (path, ← list path)
    let listings := level.foldl (fun listings (path, items) => listings.insert path items) listings
    match levels with
    | 0 => return listings
    | levels + 1 =>
      let folders := level.flatMap fun (_, items) => (items.filter (·.isFolder)).map (·.path)
      listLevels list levels folders listings

/-- How many levels are listed where no limit is set. -/
def manyLevels : Nat := UInt64.size - 1

/-- Asks for the tree of a repository, with its folders entered up to some depth. -/
def tree (host : Host m) (client : Client) (locator : Locator) (maxDepth : Option Nat) :
    m FileTree := do
  let levels := maxDepth.getD manyLevels
  let listings ← listLevels (listFolder host client locator) levels [""] []
  return listings.toTree

def repository (host : Host m) (client : Client) (locator : Locator) (maxDepth : Option Nat) :
    m (Except RemoteError (Metadata × FileTree)) := do
  match ← metadata host client locator with
  | .error error => return .error error
  | .ok metadata => return .ok (metadata, ← tree host client locator maxDepth)

end Client

end CodeGraph.Repository
