/-! Tokens of a text and the places between them. -/
namespace CodeGraph.Grammar

/-- A place in a text: the bytes before it and the characters from there on. -/
structure Place where
  offset : Nat
  rest : List Char
  deriving Inhabited

namespace Place

def skip : Nat → Place → Place
  | count + 1, ⟨offset, c :: rest⟩ => skip count ⟨offset + c.utf8Size, rest⟩
  | _, place => place

end Place

structure Token where
  symbol : Nat
  start : Place
  stop : Place
  deriving Inhabited

end CodeGraph.Grammar
