/-! Reading bytes as text. What is not well formed is replaced. -/
namespace CodeGraph.Text

/-- The character that stands for bytes that cannot be read. -/
def replacement : Char := '\uFFFD'

/-- What a leading byte says: the bits of its own, the number of bytes that follow, and the least
and the greatest value of the first of those. -/
def leading? (b : UInt8) : Option (Nat × Nat × UInt8 × UInt8) :=
  if b < 0x80 then some (b.toNat, 0, 0x80, 0xBF)
  else if b < 0xC2 then none
  else if b < 0xE0 then some (b.toNat - 0xC0, 1, 0x80, 0xBF)
  else if b = 0xE0 then some (0, 2, 0xA0, 0xBF)
  else if b = 0xED then some (0xD, 2, 0x80, 0x9F)
  else if b < 0xF0 then some (b.toNat - 0xE0, 2, 0x80, 0xBF)
  else if b = 0xF0 then some (0, 3, 0x90, 0xBF)
  else if b < 0xF4 then some (b.toNat - 0xF0, 3, 0x80, 0xBF)
  else if b = 0xF4 then some (4, 3, 0x80, 0x8F)
  else none

/-- The bytes that follow a leading one: the code point, if all are there, and the rest. -/
def following (least greatest : UInt8) (n : Nat) : Nat → List UInt8 → Option Nat × List UInt8
  | 0, bytes => (some n, bytes)
  | _ + 1, [] => (none, [])
  | more + 1, b :: rest =>
    if least ≤ b ∧ b ≤ greatest then following 0x80 0xBF (n * 64 + b.toNat % 64) more rest
    else (none, b :: rest)

/-- The first character of some bytes, and the bytes after it. -/
def decodeChar (b : UInt8) (rest : List UInt8) : Char × List UInt8 :=
  match leading? b with
  | none => (replacement, rest)
  | some (n, more, least, greatest) =>
    match following least greatest n more rest with
    | (some n, rest) => (Char.ofNat n, rest)
    | (none, rest) => (replacement, rest)

/-- Reads bytes as text, with what has been read in reverse. `fuel` bounds their number. -/
def decodeBytes : Nat → List UInt8 → List Char → List Char
  | 0, _, read => read.reverse
  | _ + 1, [], read => read.reverse
  | fuel + 1, b :: rest, read =>
    let (c, rest) := decodeChar b rest
    decodeBytes fuel rest (c :: read)

/-- Reads bytes as text. Each stretch of bytes that begins a character but does not complete it,
and each other byte that cannot be read, becomes one replacement. -/
def decodeLossy (bytes : ByteArray) : String :=
  String.ofList (decodeBytes bytes.size bytes.toList [])

end CodeGraph.Text
