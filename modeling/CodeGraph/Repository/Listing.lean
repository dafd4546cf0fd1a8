import CodeGraph.Json.Decode
import CodeGraph.Tree.Entry

/-! The folders of a repository, each listed for itself, and the tree they make. -/
namespace CodeGraph.Repository

structure Listed where
  name : String
  path : String
  kind : String
  size : UInt64
  address? : Option String
  deriving DecidableEq, Inhabited, Repr

abbrev Listings := List (String × List Listed)

namespace Listed

def isFolder (item : Listed) : Bool := item.kind = "dir"

/-- The entry of an item. A folder gets children; what is none is a file, found at its address. -/
def toEntry (item : Listed) (children : List Entry) : Entry :=
  if item.isFolder then { Entry.folder item.path children with name := item.name }
  else { Entry.file item.path item.size with name := item.name, handle? := item.address? }

structure Draft where
  name? : Option String := none
  path? : Option String := none
  kind? : Option String := none
  size? : Option UInt64 := none
  address? : Option (Option String) := none

open Json.Decode in
def draftFields : List (Slot Draft) :=
  [{ names := ["name"], isSet := (·.name?.isSome)
     read := fun depth json draft => return { draft with name? := some (← string depth json) } },
   { names := ["path"], isSet := (·.path?.isSome)
     read := fun depth json draft => return { draft with path? := some (← string depth json) } },
   { names := ["type"], isSet := (·.kind?.isSome)
     read := fun depth json draft => return { draft with kind? := some (← string depth json) } },
   { names := ["size"], isSet := (·.size?.isSome), optional := true
     read := fun depth json draft => return { draft with size? := some (← uint64 depth json) } },
   { names := ["download_url"], isSet := (·.address?.isSome), optional := true
     read := fun depth json draft =>
       return { draft with address? := some (← optional string depth json) } }]

open Json.Decode in
def decode : Json.Decoder Listed := fun depth json => do
  let draft ← record draftFields {} depth json
  return {
    name := ← required draft.name?
    path := ← required draft.path?
    kind := ← required draft.kind?
    size := draft.size?.getD 0
    address? := draft.address?.join }

end Listed

namespace Listings

/-- Adds a listing; it takes the place of one of the same path. -/
def insert (path : String) (items : List Listed) : Listings → Listings
  | [] => [(path, items)]
  | (other, old) :: rest =>
    if other = path then (path, items) :: rest else (other, old) :: insert path items rest

/-- Takes out the listing of a path. -/
def take? (path : String) : (listings : Listings) →
    Option (List Listed × { rest : Listings // rest.length < listings.length })
  | [] => none
  | (other, items) :: rest =>
    if other = path then some (items, ⟨rest, by simp⟩)
    else
      match take? path rest with
      | none => none
      | some (found, ⟨left, h⟩) => some (found, ⟨(other, items) :: left, by simpa using h⟩)

mutual
/-- The entries of a folder, and the listings that are left. A listing is used once; a folder whose
listing is not there has no children. -/
def entriesAt (path : String) (listings : Listings) :
    List Entry × { rest : Listings // rest.length ≤ listings.length } :=
  match take? path listings with
  | none => ([], ⟨listings, Nat.le_refl _⟩)
  | some (items, ⟨left, h⟩) =>
    let (entries, ⟨rest, hrest⟩) := entriesOf items left
    (entries, ⟨rest, by omega⟩)
termination_by (listings.length, 0)

/-- The entries of the items of a listing, and the listings that are left. -/
def entriesOf (items : List Listed) (listings : Listings) :
    List Entry × { rest : Listings // rest.length ≤ listings.length } :=
  match items with
  | [] => ([], ⟨listings, Nat.le_refl _⟩)
  | item :: more =>
    let (children, ⟨left, hleft⟩) :
        List Entry × { rest : Listings // rest.length ≤ listings.length } :=
      if item.isFolder then entriesAt item.path listings else ([], ⟨listings, Nat.le_refl _⟩)
    let (entries, ⟨rest, hrest⟩) := entriesOf more left
    (item.toEntry children :: entries, ⟨rest, by omega⟩)
termination_by (listings.length, items.length + 1)
decreasing_by
  · exact Prod.Lex.right _ (Nat.succ_pos _)
  · rcases Nat.lt_or_eq_of_le hleft with h | h
    · exact Prod.Lex.left _ _ h
    · rw [h]
      exact Prod.Lex.right _ (by simp)
end

/-- The tree that listings make, from the folder without a name down. -/
def toTree (listings : Listings) : FileTree := (entriesAt "" listings).1

end Listings

end CodeGraph.Repository
