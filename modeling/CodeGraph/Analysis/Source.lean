import CodeGraph.Analysis.Run
import CodeGraph.Host.Basic

/-! Where the contents of files come from: a folder, or the web. -/
namespace CodeGraph.Fetcher

variable {m : Type → Type} [Monad m]

/-- The path of a file below a folder: that of its handle, or its own. -/
def pathIn (folder : String) (file : Entry) : String :=
  Path.joined folder (Path.dropSlashes (file.handle?.getD file.path))

def ofFolder (host : Host m) (folder : String) : Fetcher m where
  fetch file := do
    match ← host.read (pathIn folder file) with
    | .ok bytes => return .ok bytes
    | .error _ => return .error ⟨"Failed to read " ++ pathIn folder file⟩
  elapsed := host.elapsed
  waits := true

def request? (token? : Option String) (url : String) : Option Web.Request :=
  Web.Request.make? url (Web.usable token?) none "*/*"

/-- The contents of files at the addresses that their handles give. -/
def ofWeb (host : Host m) (token? : Option String) : Fetcher m where
  fetch file := do
    match file.handle? with
    | none => return .error ⟨file.path ++ " has no download URL"⟩
    | some url =>
      let response? ← match request? token? url with
        | none => pure none
        | some request => host.send request
      match response? with
      | none => return .error ⟨"Failed to download " ++ file.path⟩
      | some response =>
        if response.isSuccess then return .ok response.body
        else
          let status := Web.Status.text response.status
          return .error ⟨"Download of " ++ file.path ++ " failed with " ++ status⟩
  elapsed := host.elapsed

end CodeGraph.Fetcher
