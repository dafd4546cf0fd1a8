/-! The shortest decimal that reads back as a given double. -/
namespace CodeGraph.Decimal

/-- The leading bit of a double, which its bits leave out. -/
def leadingBit : Nat := 0x10000000000000

/-- The size of a double as a whole number times a power of two, and whether it is the least of
those with its exponent. -/
def significand (x : Float) : Nat × Int × Bool :=
  let bits := x.toBits.toNat
  let fraction := bits % leadingBit
  let exponent : Nat := bits / leadingBit % 2048
  if exponent = 0 then (fraction, -1074, false)
  else (leadingBit + fraction, (exponent : Int) - 1075, fraction = 0 && 1 < exponent)

/-- A number in quarters of the unit of a double, with the ends of the interval that is read back
as it. The unit is `up / down`. -/
structure Target where
  low : Nat
  middle : Nat
  high : Nat
  closed : Bool
  up : Nat
  down : Nat

/-- The interval around the size of a double. -/
def target (x : Float) : Target :=
  let (m, q, least) := significand x
  let unit := q - 2
  { low := 4 * m - if least then 1 else 2
    middle := 4 * m
    high := 4 * m + 2
    closed := m % 2 = 0
    up := Nat.pow 2 unit.toNat
    down := Nat.pow 2 (-unit).toNat }

/-- The exponent of the first digit of a fraction. -/
def magnitude (a b : Nat) : Int :=
  let shift : Int := (toString b).length - (toString a).length
  if b * Nat.pow 10 (-shift).toNat ≤ a * Nat.pow 10 shift.toNat then -shift else -shift - 1

/-- Whether a whole number times a power of ten lies in the interval. -/
def Target.holds (t : Target) (c : Nat) (p : Int) : Bool :=
  let value := c * Nat.pow 10 p.toNat * t.down
  let low := t.low * t.up * Nat.pow 10 (-p).toNat
  let high := t.high * t.up * Nat.pow 10 (-p).toNat
  if t.closed then low ≤ value && value ≤ high else low < value && value < high

/-- The better of the two decimals of a number of digits next to the middle, if one of them lies in
the interval. The nearer one is better, and of two as near the even one. -/
def Target.best? (t : Target) (p : Int) : Option Nat :=
  let a := t.middle * t.up * Nat.pow 10 (-p).toNat
  let b := t.down * Nat.pow 10 p.toNat
  let c := a / b
  let below := t.holds c p && c != 0
  let above := t.holds (c + 1) p
  let nearerBelow := 2 * (a % b) < b || (2 * (a % b) = b && c % 2 = 0)
  if below && (nearerBelow || !above) then some c
  else if above then some (c + 1)
  else none

/-- The first number of digits with a decimal in the interval: the decimal and its exponent. -/
def Target.search (t : Target) (first : Int) : Nat → Nat → Nat × Int
  | _, 0 => (0, 0)
  | digits, fuel + 1 =>
    let p := first - digits + 1
    match t.best? p with
    | some c => (c, p)
    | none => t.search first (digits + 1) fuel

/-- Takes the zeros off the end. `fuel` bounds their number. -/
def dropZeros : Nat → Nat → Int → Nat × Int
  | 0, c, p => (c, p)
  | fuel + 1, c, p => if c % 10 = 0 && c ≠ 0 then dropZeros fuel (c / 10) (p + 1) else (c, p)

/-- The shortest decimal for the size of a double other than zero: its digits and the exponent of
the last one. -/
def shortest (x : Float) : Nat × Int :=
  let t := target x
  let (c, p) := t.search (magnitude (t.middle * t.up) t.down) 1 20
  dropZeros 20 c p

end CodeGraph.Decimal
