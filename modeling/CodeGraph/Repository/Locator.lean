/-! Repositories and the addresses that name them. -/
namespace CodeGraph.Repository

structure Locator where
  owner : String
  name : String
  deriving DecidableEq, Inhabited, Repr

namespace Locator

/-- The site that an address of a repository names, with the slash after it. -/
def site : List Char := "github.com/".toList

/-- A part of an address between two slashes. -/
structure IsSegment (part : List Char) : Prop where
  ne_nil : part ≠ []
  slash : '/' ∉ part

/-- What may follow a segment: nothing, or a slash. -/
def EndsSegment (rest : List Char) : Prop := ∀ c ∈ rest.head?, c = '/'

/-- A match of github\.com/([^/]+)/([^/]+)(/|$) behind some text, in which the owner and the name are
what the first two groups match. -/
structure NamedAt (text before owner name : List Char) : Prop where
  isOwner : IsSegment owner
  isName : IsSegment name
  split : ∃ rest, EndsSegment rest ∧ text = before ++ site ++ owner ++ '/' :: name ++ rest

/-- The leftmost match. -/
structure NamedFirst (text before owner name : List Char) : Prop
    extends NamedAt text before owner name where
  first : ∀ earlier other another, NamedAt text earlier other another →
    before.length ≤ earlier.length

/-- The ending of a name that does not count. -/
def ending : List Char := ".git".toList

def cutEnding (name : List Char) : List Char :=
  if ending.isSuffixOf name then name.take (name.length - ending.length) else name

/-- The owner and the name that follow the site. -/
def afterSite? (text : List Char) : Option (List Char × List Char) :=
  let owner := text.takeWhile (· ≠ '/')
  let rest := (text.dropWhile (· ≠ '/')).drop 1
  let name := rest.takeWhile (· ≠ '/')
  if owner.isEmpty ∨ name.isEmpty then none else some (owner, name)

/-- The owner and the name of the leftmost match, which NamedFirst states. -/
def find? : List Char → Option (List Char × List Char)
  | [] => none
  | c :: rest =>
    let here? :=
      if site.isPrefixOf (c :: rest) then afterSite? ((c :: rest).drop site.length) else none
    match here? with
    | some found => some found
    | none => find? rest

def ofText? (text : String) : Option Locator :=
  match find? text.toList with
  | none => none
  | some (owner, name) =>
    let name := cutEnding name
    if name.isEmpty then none else some ⟨String.ofList owner, String.ofList name⟩

def key (locator : Locator) : String := "github.com/" ++ locator.owner ++ "/" ++ locator.name

def toText (locator : Locator) : String := locator.owner ++ "/" ++ locator.name

end Locator

end CodeGraph.Repository
