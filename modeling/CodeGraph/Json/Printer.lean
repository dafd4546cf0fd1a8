import CodeGraph.Json.Basic

/-! Writing JSON, on one line or indented. -/
namespace CodeGraph.Json

namespace Print

def hexDigit (n : Nat) : Char := "0123456789abcdef".toList.getD n '0'

/-- A character inside a string: quotes, backslashes and control characters are escaped. -/
def character (c : Char) : List Char :=
  match c with
  | '"' => ['\\', '"']
  | '\\' => ['\\', '\\']
  | '\n' => ['\\', 'n']
  | '\r' => ['\\', 'r']
  | '\t' => ['\\', 't']
  | '\x08' => ['\\', 'b']
  | '\x0c' => ['\\', 'f']
  | c =>
    if c.val < 0x20 then ['\\', 'u', '0', '0', hexDigit (c.toNat / 16), hexDigit (c.toNat % 16)]
    else [c]

def quoted (text : String) : String :=
  "\"" ++ String.ofList (text.toList.flatMap character) ++ "\""

end Print

mutual
def compact : Json → String
  | null => "null"
  | bool true => "true"
  | bool false => "false"
  | number spelling => spelling
  | string text => Print.quoted text
  | array items _ => "[" ++ compactItems items ++ "]"
  | object members _ => "\x7b" ++ compactMembers members ++ "\x7d"
  | unpaired => "\"\""
  | broken _ => "null"

def compactItems : List Json → String
  | [] => ""
  | [item] => compact item
  | item :: rest => compact item ++ "," ++ compactItems rest

def compactMembers : List (String × Json) → String
  | [] => ""
  | [(name, member)] => Print.quoted name ++ ":" ++ compact member
  | (name, member) :: rest =>
    Print.quoted name ++ ":" ++ compact member ++ "," ++ compactMembers rest
end

/-- A new line with the indentation of a depth: two blanks for each level. -/
def newline (depth : Nat) : String := "\n" ++ String.ofList (List.replicate (2 * depth) ' ')

mutual
/-- The value with one item or member to a line; what is empty stays on its line. -/
def prettyAt (depth : Nat) : Json → String
  | array [] _ => "[]"
  | array items _ => "[" ++ prettyItems (depth + 1) items ++ newline depth ++ "]"
  | object [] _ => "\x7b\x7d"
  | object members _ => "\x7b" ++ prettyMembers (depth + 1) members ++ newline depth ++ "\x7d"
  | null => "null"
  | bool true => "true"
  | bool false => "false"
  | number spelling => spelling
  | string text => Print.quoted text
  | unpaired => "\"\""
  | broken _ => "null"

def prettyItems (depth : Nat) : List Json → String
  | [] => ""
  | [item] => newline depth ++ prettyAt depth item
  | item :: rest => newline depth ++ prettyAt depth item ++ "," ++ prettyItems depth rest

def prettyMembers (depth : Nat) : List (String × Json) → String
  | [] => ""
  | [(name, member)] => newline depth ++ Print.quoted name ++ ": " ++ prettyAt depth member
  | (name, member) :: rest =>
    newline depth ++ Print.quoted name ++ ": " ++ prettyAt depth member ++ "," ++
      prettyMembers depth rest
end

def pretty (json : Json) : String := prettyAt 0 json

end CodeGraph.Json
