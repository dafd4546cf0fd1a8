/-! The spelling of numbers in JSON and what a spelling stands for. -/
namespace CodeGraph.Json.Number

/-- A spelling taken apart: sign, digits before and after the point, and the exponent with its
sign, if there is one. -/
structure Parts where
  negative : Bool
  whole : List Char
  fraction : List Char
  marked : Bool
  exponentNegative : Bool
  exponent : List Char

def parts (spelling : String) : Parts :=
  let chars := spelling.toList
  let negative := chars.head? = some '-'
  let chars := if negative then chars.drop 1 else chars
  let whole := chars.takeWhile Char.isDigit
  let rest := chars.dropWhile Char.isDigit
  let pointed := rest.head? = some '.'
  let fraction := if pointed then (rest.drop 1).takeWhile Char.isDigit else []
  let rest := if pointed then (rest.drop 1).dropWhile Char.isDigit else rest
  let power := rest.drop 1
  let signed := power.head? = some '-' || power.head? = some '+'
  { negative, whole, fraction
    marked := pointed || !rest.isEmpty
    exponentNegative := power.head? = some '-'
    exponent := if signed then power.drop 1 else power }

def ofDigits (digits : List Char) : Nat :=
  digits.foldl (fun n c => n * 10 + (c.toNat - '0'.toNat)) 0

def maxWhole : Nat := UInt64.size - 1

/-- What a spelling stands for: a whole number without a sign, one below zero, or a double. -/
inductive Value where
  | whole (n : Nat)
  | below (n : Nat)
  | double (x : Float)
  deriving Inhabited

/-- Reads digits as long as the number they make fits into 64 bits: the number, and how many
digits were left over. -/
def significand : Nat → List Char → Nat × Nat
  | n, [] => (n, 0)
  | n, c :: rest =>
    let next := n * 10 + (c.toNat - '0'.toNat)
    if next > maxWhole then (n, rest.length + 1) else significand next rest

def powerOfTen (exponent : Nat) : Float := Float.ofScientific 1 false exponent

/-- Scales a double by a power of ten of size at most 308 at a time; none if it leaves the range.
`rounds` bounds the number of steps down. -/
def scale (rounds : Nat) (x : Float) (exponent : Int) : Option Float :=
  if exponent.natAbs ≤ 308 then
    if exponent ≥ 0 then
      let scaled := x * powerOfTen exponent.natAbs
      if scaled.isInf then none else some scaled
    else some (x / powerOfTen exponent.natAbs)
  else if x == 0.0 then some x
  else if exponent ≥ 0 then none
  else
    match rounds with
    | 0 => some 0.0
    | rounds + 1 => scale rounds (x / powerOfTen 308) (exponent + 308)

/-- The double that a spelling stands for: at most the digits that fit into 64 bits count, and the
result is scaled in one rounding step after another. None if it is out of range. -/
def double? (spelling : Parts) : Option Float :=
  let (n, excess) := significand 0 spelling.whole
  let (n, used) :=
    if excess = 0 then
      let (m, left) := significand n spelling.fraction
      (m, spelling.fraction.length - left)
    else (n, 0)
  let power := ofDigits spelling.exponent
  if 2147483648 ≤ power then
    if n ≠ 0 && !spelling.exponentNegative then none
    else some (if spelling.negative then -0.0 else 0.0)
  else
    let given : Int := if spelling.exponentNegative then -power else power
    (scale 8 (Float.ofNat n) (given + excess - used)).map fun x => if spelling.negative then -x else x

/-- What a spelling stands for; none if that is out of range. Zero with a sign is a double. -/
def value? (spelling : String) : Option Value :=
  let taken := parts spelling
  let n := ofDigits taken.whole
  if taken.marked then (double? taken).map .double
  else if taken.negative then
    if n = 0 then some (.double (-0.0))
    else if n ≤ 9223372036854775808 then some (.below n)
    else (double? taken).map .double
  else if n ≤ maxWhole then some (.whole n)
  else (double? taken).map .double

end CodeGraph.Json.Number
