import CodeGraph.Text.Letter

/-! Lower case of texts. -/
namespace CodeGraph.Text

def inRanges (ranges : List (Nat × Nat)) (n : Nat) : Bool :=
  ranges.any fun (first, last) => first ≤ n && n ≤ last

def isCased (c : Char) : Bool := inRanges casedRanges c.toNat

/-- Whether a character is passed over when the letters around a place are looked at. -/
def isPassed (c : Char) : Bool := inRanges passedRanges c.toNat

/-- The lower case of a character by itself. The capital I with a dot keeps its dot as a mark. -/
def lowerChar (c : Char) : List Char :=
  let n := c.toNat
  if n < 0x80 then [c.toLower]
  else if n = 0x130 then ['i', '\u0307']
  else
    let range? := upperRanges.find? fun (first, last, step, _) =>
      first ≤ n && n ≤ last && (n - first) % step == 0
    match range? with
    | some (first, _, _, lower) => [Char.ofNat (n - first + lower)]
    | none => [c]

/-- Whether the next letter that counts has a case. -/
def meetsCased (chars : List Char) : Bool :=
  match chars.dropWhile isPassed with
  | c :: _ => isCased c
  | [] => false

/-- Lower case of the characters that follow those in `before`, given in reverse. A capital sigma
at the end of a word has a form of its own. -/
def lowerAfter (before : List Char) : List Char → List Char
  | [] => []
  | c :: rest =>
    let lower :=
      if c = 'Σ' then if meetsCased before && !meetsCased rest then ['ς'] else ['σ']
      else lowerChar c
    lower ++ lowerAfter (c :: before) rest

def lowercase (text : String) : String := String.ofList (lowerAfter [] text.toList)

end CodeGraph.Text
