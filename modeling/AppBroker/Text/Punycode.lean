/-!
# Punycode

Punycode writes a text with ASCII characters alone: first the ASCII characters of the text, then
the others as a chain of numbers. Each number says how far to go, in the order of code points and
then of places, to the next insertion. A number is written with letters and digits, low digit
first, and the thresholds between digits adapt to the sizes seen so far.
-/

namespace AppBroker.Text.Punycode

/-- The number of digits. -/
def base : Nat := 36

/-- The least and the greatest threshold. -/
def minThreshold : Nat := 1

/-- The greatest threshold. -/
def maxThreshold : Nat := 26

/-- A digit as a letter, or as a figure from the twenty-sixth on. -/
def digit (n : Nat) : Char :=
  if n < 26 then Char.ofNat ('a'.toNat + n) else Char.ofNat ('0'.toNat + (n - 26))

/-- The threshold at a place. -/
def threshold (place bias : Nat) : Nat :=
  if place ≤ bias + minThreshold then minThreshold
  else if bias + maxThreshold ≤ place then maxThreshold
  else place - bias

/-- Writes a number from a place on; the fuel bounds the number of digits. -/
def writeFrom (bias : Nat) : Nat → Nat → Nat → List Char
  | 0, _, _ => []
  | fuel + 1, place, n =>
    let t := threshold place bias
    if n < t then [digit n]
    else
      digit (t + (n - t) % (base - t)) :: writeFrom bias fuel (place + base) ((n - t) / (base - t))

/-- Writes a number. -/
def write (bias n : Nat) : List Char := writeFrom bias (n + 1) base n

/-- Scales a size down; the fuel bounds the number of steps. -/
def scaleDown : Nat → Nat → Nat → Nat
  | 0, k, delta => k + 36 * delta / (delta + 38)
  | fuel + 1, k, delta =>
    if 455 < delta then scaleDown fuel (k + base) (delta / 35) else k + 36 * delta / (delta + 38)

/-- The bias after a number was written when `points` characters were in place. -/
def adapt (delta points : Nat) (first : Bool) : Nat :=
  let delta := if first then delta / 700 else delta / 2
  scaleDown delta 0 (delta + delta / points)

/-- The state of writing: the distance gone so far, the bias, and the number of characters in
place. -/
structure State where
  delta : Nat
  bias : Nat
  placed : Nat
  first : Bool
  written : List Char

/-- Passes through the text, inserting one code point wherever it stands. -/
def pass (point : Nat) (s : State) : List Nat → State
  | [] => s
  | c :: cs =>
    if c < point then pass point { s with delta := s.delta + 1 } cs
    else if c = point then
      let s := { s with
        delta := 0
        bias := adapt s.delta (s.placed + 1) s.first
        placed := s.placed + 1
        first := false
        written := s.written ++ write s.bias s.delta }
      pass point s cs
    else pass point s cs

/-- Inserts code points in ascending order; `next` is the least that is still to come. -/
def passes (text : List Nat) (next : Nat) (s : State) : List Nat → State
  | [] => s
  | point :: points =>
    let s := { s with delta := s.delta + (point - next) * (s.placed + 1) }
    let s := pass point s text
    passes text (point + 1) { s with delta := s.delta + 1 } points

/-- Writes a text. -/
def encode (cs : List Char) : List Char :=
  let basic := cs.filter fun c => c.toNat < 128
  let text := cs.map Char.toNat
  let others := ((text.filter (128 ≤ ·)).eraseDups).mergeSort
  let start := { delta := 0, bias := 72, placed := basic.length, first := true, written := [] }
  let numbers := (passes text 128 start others).written
  if basic.isEmpty then numbers else basic ++ '-' :: numbers

end AppBroker.Text.Punycode
