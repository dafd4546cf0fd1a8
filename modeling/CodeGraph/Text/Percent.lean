import CodeGraph.Json.Reader

/-! Percent encoding of texts. -/
namespace CodeGraph.Text.Percent

def hexDigit (n : Nat) : Char := "0123456789ABCDEF".toList.getD n '0'

def escape (b : UInt8) : List Char := ['%', hexDigit (b.toNat / 16), hexDigit (b.toNat % 16)]

def isAlwaysEscaped (c : Char) : Bool := c < ' ' || '~' < c

/-- Escapes the bytes of those characters that a set contains. -/
def encode (set : Char → Bool) (text : List Char) : List Char :=
  text.flatMap fun c =>
    if isAlwaysEscaped c || set c then c.toString.toUTF8.toList.flatMap escape else [c]

/-- The bytes that a text with escapes stands for. A percent sign without two digits is left. -/
def decode : List Char → List UInt8
  | '%' :: a :: b :: rest =>
    match Json.Read.hexValue? a, Json.Read.hexValue? b with
    | some a, some b => UInt8.ofNat (a * 16 + b) :: decode rest
    | _, _ => '%'.toUInt8 :: decode (a :: b :: rest)
  | c :: rest => c.toString.toUTF8.toList ++ decode rest
  | [] => []

end CodeGraph.Text.Percent
