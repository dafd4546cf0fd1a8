/-! Characters beyond ASCII spelled with letters, digits and hyphens. -/
namespace CodeGraph.Text.Punycode

/-- The letter or digit for a value below 36. -/
def digit (n : Nat) : Char :=
  if n < 26 then Char.ofNat ('a'.toNat + n) else Char.ofNat ('0'.toNat + n - 26)

/-- The threshold of a digit: between 1 and 26. -/
def threshold (place bias : Nat) : Nat :=
  if place ≤ bias then 1 else if bias + 26 ≤ place then 26 else place - bias

/-- A number with digits of varying weight, at the given place and after it. `fuel` bounds the
number of digits. -/
def number (bias : Nat) : Nat → Nat → Nat → List Char
  | 0, _, _ => []
  | fuel + 1, place, n =>
    let t := threshold place bias
    if n < t then [digit n]
    else digit (t + (n - t) % (36 - t)) :: number bias fuel (place + 36) ((n - t) / (36 - t))

/-- Scales a distance down until it is small, counting the steps in places. -/
def settle : Nat → Nat → Nat → Nat
  | 0, places, delta => places + 36 * delta / (delta + 38)
  | fuel + 1, places, delta =>
    if 455 < delta then settle fuel (places + 36) (delta / 35)
    else places + 36 * delta / (delta + 38)

/-- The bias after a distance has been written. -/
def adapt (delta written : Nat) (first : Bool) : Nat :=
  let delta := if first then delta / 700 else delta / 2
  settle delta 0 (delta + delta / written)

/-- What has been written, the distance run up, the bias, and the number of characters handled. -/
structure State where
  written : List Char
  delta : Nat
  bias : Nat
  handled : Nat

/-- Passes one character of the text while those of one value are written. -/
def pass (plain value : Nat) (state : State) (c : Char) : State :=
  if c.toNat < value then { state with delta := state.delta + 1 }
  else if c.toNat = value then
    { written := state.written ++ number state.bias (state.delta + 1) 36 state.delta
      delta := 0
      bias := adapt state.delta (state.handled + 1) (state.handled = plain)
      handled := state.handled + 1 }
  else state

def writeValues (text : List Char) (plain : Nat) : List Nat → Nat → State → State
  | [], _, state => state
  | value :: rest, least, state =>
    let state := { state with delta := state.delta + (value - least) * (state.handled + 1) }
    let state := text.foldl (pass plain value) state
    writeValues text plain rest (value + 1) { state with delta := state.delta + 1 }

/-- The spelling of a text: its ASCII characters, a hyphen if there are any, and the places and
values of the others. -/
def encode (text : List Char) : List Char :=
  let plain := text.filter (·.toNat < 128)
  let values := ((text.map Char.toNat).filter (128 ≤ ·)).eraseDups.mergeSort
  let start : State := ⟨[], 0, 72, plain.length⟩
  let hyphen := if plain.isEmpty then [] else ['-']
  plain ++ hyphen ++ (writeValues text plain.length values 128 start).written

end CodeGraph.Text.Punycode
