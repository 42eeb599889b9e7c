/-!
# Binary floating point numbers

A number with a fraction is kept as the nearest multiple of a power of two with a 53 bit
significand, ties going to the even neighbour. Below the smallest exponent the significand
shrinks, and above the largest one the number is infinite. All arithmetic is exact.
-/

namespace AppBroker

/-- A binary floating point number; `finite n m e` has the magnitude `m · 2 ^ e` and is negative
when `n` holds. -/
inductive Binary64 where
  | finite (negative : Bool) (significand : Nat) (exponent : Int)
  | infinite (negative : Bool)
  | nan
  deriving DecidableEq, Repr

namespace Binary64

/-- The quotient rounded to the nearest number, a tie to the even one. -/
def roundDiv (num den : Nat) : Nat :=
  let q := num / den
  let r := num % den
  if 2 * r < den then q
  else if den < 2 * r then q + 1
  else q + q % 2

/-- The number of binary digits. -/
def bits (n : Nat) : Nat := if n = 0 then 0 else n.log2 + 1

/-- The number nearest to the ratio `num / den`. -/
def ofRatio (negative : Bool) (num den : Nat) : Binary64 :=
  if num = 0 || den = 0 then .finite negative 0 0
  else
    let scaled (e : Int) : Nat × Nat :=
      if e < 0 then (num <<< e.natAbs, den) else (num, den <<< e.natAbs)
    let guess : Int := max (-1074) ((bits num : Int) - bits den - 53)
    let wide := let (n, d) := scaled guess; 1 <<< 53 ≤ n / d
    let e := if wide then guess + 1 else guess
    let (n, d) := scaled e
    let m := roundDiv n d
    if 971 < e || (e = 971 && 1 <<< 53 ≤ m) then .infinite negative
    else .finite negative m e

/-- The number nearest to `digits · 10 ^ exponent`. -/
def ofDecimal (negative : Bool) (digits : Nat) (exponent : Int) : Binary64 :=
  if digits = 0 then .finite negative 0 0
  else
    let magnitude : Int := exponent + (Nat.toDigits 10 digits).length
    if 400 < magnitude then .infinite negative
    else if magnitude < -400 then .finite negative 0 0
    else if exponent < 0 then ofRatio negative digits (Nat.pow 10 exponent.natAbs)
    else ofRatio negative (digits * Nat.pow 10 exponent.natAbs) 1

/-- The magnitude as a quotient of natural numbers. -/
def ratio (significand : Nat) (exponent : Int) : Nat × Nat :=
  if exponent < 0 then (significand, 1 <<< exponent.natAbs)
  else (significand <<< exponent.natAbs, 1)

/-- The whole number that a number is, if it is one. -/
def toInt? : Binary64 → Option Int
  | .finite negative m e =>
    let (n, d) := ratio m e
    if n % d = 0 then some (if negative then -((n / d : Nat) : Int) else (n / d : Nat)) else none
  | _ => none

/-- The greatest whole number that is not above. -/
def floor? : Binary64 → Option Int
  | .finite negative m e =>
    let (n, d) := ratio m e
    some (if negative then -(((n + d - 1) / d : Nat) : Int) else (n / d : Nat))
  | _ => none

/-- The number with the other sign. -/
def negate : Binary64 → Binary64
  | .finite negative m e => .finite (!negative) m e
  | .infinite negative => .infinite (!negative)
  | .nan => .nan

/-- The number nearest to a multiple. -/
def scale (factor : Nat) : Binary64 → Binary64
  | .finite negative m e =>
    let (n, d) := ratio m e
    ofRatio negative (factor * n) d
  | x => x

/-- The number nearest to a sum. -/
def add : Binary64 → Binary64 → Binary64
  | .nan, _ | _, .nan => .nan
  | .infinite n, .infinite k => if n = k then .infinite n else .nan
  | .infinite n, .finite .. | .finite .., .infinite n => .infinite n
  | .finite n m e, .finite k l f =>
    let low := min e f
    let units (negative : Bool) (significand : Nat) (exponent : Int) : Int :=
      let size : Nat := significand <<< (exponent - low).toNat
      if negative then -(size : Int) else size
    let total := units n m e + units k l f
    let (num, den) := ratio total.natAbs low
    ofRatio (total < 0) num den

/-- The size of the part after the point. -/
def fraction : Binary64 → Binary64
  | .finite _ m e =>
    let (n, d) := ratio m e
    ofRatio false (n % d) d
  | _ => .finite false 0 0

/-- The whole number nearest to the size of a number, a half going up. -/
def roundNat : Binary64 → Nat
  | .finite _ m e =>
    let (n, d) := ratio m e
    (2 * n + d) / (2 * d)
  | _ => 0

/-- The millionths of the part after the point, to the nearest, the sign left out. -/
def fractionMicros (x : Binary64) : Nat := (x.fraction.scale 1000000).roundNat

/-- The number nearest to a part. -/
def divide (divisor : Nat) : Binary64 → Binary64
  | .finite negative m e =>
    let (n, d) := ratio m e
    ofRatio negative n (divisor * d)
  | x => x

/-- Whether the size of a number is greater than a whole number. -/
def exceeds (limit : Nat) : Binary64 → Bool
  | .finite _ m e =>
    let (n, d) := ratio m e
    limit * d < n
  | .infinite _ => true
  | .nan => false

/-- Whether a number is zero. -/
def isZero : Binary64 → Bool
  | .finite _ m _ => m = 0
  | _ => false

end Binary64

end AppBroker
