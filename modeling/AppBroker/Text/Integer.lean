import AppBroker.Text.Blank
import AppBroker.Text.Digit

/-!
# Whole numbers in text

A whole number is written with digits of any script, in bases up to ten; beyond that the letters
of the alphabet go on. Blanks around it, one sign, the mark of the base, and single underscores
between digits are allowed.
-/

namespace AppBroker.Text

/-- The value of a digit or letter. -/
def alphabetValue? (c : Char) : Option Nat :=
  if 'a' ≤ c ∧ c ≤ 'z' then some (c.toNat - 87)
  else if 'A' ≤ c ∧ c ≤ 'Z' then some (c.toNat - 55)
  else decimalValue? c

/-- Digits of a base with single underscores between them. -/
def digitsIn? (base : Nat) (cs : List Char) : Option (List Nat) :=
  let groups := cs.splitOn '_'
  if groups.any List.isEmpty then none
  else (groups.flatten.mapM alphabetValue?).bind fun ds =>
    if ds.all (· < base) then some ds else none

/-- The letter that marks a base after a zero. -/
def baseMark? : Nat → Option Char
  | 2 => some 'b'
  | 8 => some 'o'
  | 16 => some 'x'
  | _ => none

/-- Drops the mark of a base, and an underscore after it. -/
def dropBaseMark (base : Nat) (cs : List Char) : List Char :=
  match cs with
  | '0' :: mark :: rest =>
    if baseMark? base = some mark.toLower then
      match rest with
      | '_' :: digits => digits
      | digits => digits
    else cs
  | _ => cs

/-- The whole number that a text writes in a base. -/
def integerIn? (base : Nat) (cs : List Char) : Option Int :=
  let (negative, digits) := match trimWhile isBlank cs with
    | '-' :: rest => (true, rest)
    | '+' :: rest => (false, rest)
    | rest => (false, rest)
  match digitsIn? base (dropBaseMark base digits) with
  | none => none
  | some ds =>
    if base = 10 && maxNumeralLength < ds.length then none
    else
      let n := ds.foldl (fun n d => base * n + d) 0
      some (if negative then -(n : Int) else n)

/-- The whole number that a text writes in base ten. -/
def integer? (s : String) : Option Int := integerIn? 10 s.toList

/-- The text of a whole number in base ten; one with too many digits is not written. -/
def numeral? (n : Int) : Option String :=
  if maxNumeralLength < (Nat.toDigits 10 n.natAbs).length then none else some (toString n)

end AppBroker.Text
