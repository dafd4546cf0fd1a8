import CodeGraph.Toml.Scalar

/-! Reading documents of the configuration format. -/
namespace CodeGraph.Toml

namespace Read

def skipTrivia : Nat → List Char → List Char
  | 0, input => input
  | fuel + 1, input =>
    match newline? (skipComment (skip input)) with
    | some rest => skipTrivia fuel rest
    | none => skipComment (skip input)

mutual
/-- A value. The first number bounds its length, the second the arrays and tables around it. -/
def value : Nat → Nat → List Char → Option (Value × List Char)
  | 0, _, _ => none
  | fuel + 1, depth, input =>
    match input with
    | '"' :: _ => (text input).map fun (text, rest) => (.text text, rest)
    | '\'' :: _ => (text input).map fun (text, rest) => (.text text, rest)
    | '[' :: rest =>
      match depth with
      | 0 => none
      | depth + 1 => (items fuel depth rest).map fun (items, rest) => (.array items, rest)
    | '\x7b' :: rest =>
      match depth with
      | 0 => none
      | depth + 1 => do
        let (entries, rest) ← members fuel depth [] (skip rest)
        return (.table .inline entries, rest)
    | 't' :: _ => word "true" (.truth true) input
    | 'f' :: _ => word "false" (.truth false) input
    | c :: _ =>
      if c = '+' ∨ c = '-' ∨ c.isDigit ∨ c = 'i' ∨ c = 'n' then numeric input else none
    | [] => none

/-- The items of an array up to its end. A comma may follow the last one. -/
def items : Nat → Nat → List Char → Option (List Value × List Char)
  | 0, _, _ => none
  | fuel + 1, depth, input =>
    match skipTrivia input.length input with
    | ']' :: rest => some ([], rest)
    | input => do
      let (item, rest) ← value fuel depth input
      match skipTrivia rest.length rest with
      | ',' :: rest =>
        let (more, rest) ← items fuel depth rest
        return (item :: more, rest)
      | ']' :: rest => return ([item], rest)
      | _ => none

/-- The members of a table between braces up to its end, added to those before. -/
def members : Nat → Nat → Entries → List Char → Option (Entries × List Char)
  | 0, _, _, _ => none
  | fuel + 1, depth, entries, input =>
    match entries, input with
    | [], '\x7d' :: rest => some ([], rest)
    | entries, input => do
      let (path, rest) ← key input
      let (value, rest) ← value fuel depth (skip (← expect '=' rest))
      let entries ← entries.add path value .inline
      match skip rest with
      | ',' :: rest => members fuel depth entries rest
      | '\x7d' :: rest => return (entries, rest)
      | _ => none
end

/-- What may follow on a line: blanks and a comment. -/
def lineEnd (input : List Char) : Option (List Char) :=
  match skipComment (skip input) with
  | [] => some []
  | rest => newline? rest

/-- A header after its first bracket: whether it opens an item of an array, and its path. -/
def header (input : List Char) : Option ((Bool × List String) × List Char) :=
  match input with
  | '[' :: rest => do
    let (path, rest) ← key rest
    return ((true, path), ← expect ']' (← expect ']' rest))
  | _ => do
    let (path, rest) ← key input
    return ((false, path), ← expect ']' rest)

/-- The lines of a document, with the open table and all that was read before. -/
def lines : Nat → List String → Entries → List Char → Option Entries
  | 0, _, _, _ => none
  | fuel + 1, opened, entries, input =>
    match skip input with
    | [] => some entries
    | '[' :: rest => do
      let ((isItem, path), rest) ← header rest
      let rest ← lineEnd rest
      let entries ← if isItem then entries.openItem path else entries.openTable path
      lines fuel path entries rest
    | c :: rest =>
      if c = '#' ∨ c = '\n' ∨ c = '\r' then do
        lines fuel opened entries (← lineEnd (c :: rest))
      else do
        let (path, rest) ← key (c :: rest)
        let (value, rest) ← value rest.length maxParts (skip (← expect '=' rest))
        let rest ← lineEnd rest
        lines fuel opened (← entries.addBelow opened path value) rest

end Read

def ofText? (text : String) : Option Entries :=
  let input := match text.toList with
    | '\uFEFF' :: rest => rest
    | input => input
  Read.lines (input.length + 1) [] [] input

end CodeGraph.Toml
