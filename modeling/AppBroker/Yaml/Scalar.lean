import AppBroker.Text.Integer
import AppBroker.Value
import AppBroker.Yaml.Node

/-!
# Values of scalars

A scalar is read by the rules of its kind: truth values are words, whole numbers may be in base
two, eight, ten, sixteen or sixty, numbers with a fraction in base ten or sixty, days and moments
are stamps, and bytes are written in base 64.
-/

namespace AppBroker.Yaml

namespace Construct

open Token (malformed)

/-- A truth value. -/
def bool (cs : List Char) : Reading Value :=
  let word := String.ofList (cs.map Char.toLower)
  if word ∈ ["yes", "true", "on"] then .ok (.bool true)
  else if word ∈ ["no", "false", "off"] then .ok (.bool false)
  else .error .missingKey

/-- Sums groups in base sixty. -/
def sixtieths (groups : List Int) : Int := groups.foldl (fun n g => 60 * n + g) 0

/-- A whole number from its text in a base, or a bad value. -/
def parsed (base : Nat) (cs : List Char) : Reading Int :=
  match Text.integerIn? base cs with
  | some n => .ok n
  | none => .error .badValue

/-- A whole number in base two, eight, ten, sixteen or sixty. -/
def int (cs : List Char) : Reading Value := do
  let cs := cs.filter (· ≠ '_')
  let (sign, cs) ← match cs with
    | '-' :: rest => pure (-1, rest)
    | '+' :: rest => pure (1, rest)
    | [] => .error .outOfRange
    | rest => pure ((1 : Int), rest)
  let n ← match cs with
    | [] => .error .outOfRange
    | ['0'] => pure 0
    | '0' :: 'b' :: rest => parsed 2 rest
    | '0' :: 'x' :: rest => parsed 16 rest
    | '0' :: _ => parsed 8 cs
    | _ =>
      if ':' ∈ cs then do
        let groups ← (cs.splitOn ':').mapM (parsed 10)
        pure (sixtieths groups)
      else parsed 10 cs
  return .int (sign * n)

/-- A number with a point and an exponent, both optional. -/
def decimal? (cs : List Char) : Option Binary64 :=
  let whole := cs.takeWhile Text.isDecimal
  let rest := cs.drop whole.length
  let (fraction, rest) := match rest with
    | '.' :: more => (more.takeWhile Text.isDecimal, more.dropWhile Text.isDecimal)
    | _ => ([], rest)
  let digits := (whole ++ fraction).filterMap Text.decimalValue?
  let exponent : Option Int := match rest with
    | [] => some 0
    | 'e' :: more =>
      let (sign, ds) := match more with
        | '-' :: ds => ((-1 : Int), ds)
        | '+' :: ds => (1, ds)
        | ds => (1, ds)
      if !ds.isEmpty && ds.all Text.isDecimal then
        some (sign * (Text.ofDigits (ds.filterMap Text.decimalValue?) : Nat))
      else none
    | _ => none
  if digits.isEmpty then none
  else exponent.map fun e => .ofDecimal false (Text.ofDigits digits) (e - fraction.length)

/-- A number that is not written with digits. -/
def special? (cs : List Char) : Option Binary64 :=
  let word := String.ofList cs
  if word ∈ ["inf", "infinity"] then some (.infinite false)
  else if word = "nan" then some .nan
  else none

/-- A number with blanks around it and a sign before it. -/
def signed (cs : List Char) : Reading Binary64 :=
  let (negative, cs) := match Text.trimWhile Text.isBlank cs with
    | '-' :: rest => (true, rest)
    | '+' :: rest => (false, rest)
    | rest => (false, rest)
  match (decimal? cs).orElse fun _ => special? cs with
  | some x => .ok (if negative then x.negate else x)
  | none => .error .badValue

/-- A number with a fraction, in base ten or sixty. -/
def float (cs : List Char) : Reading Value := do
  let cs := (cs.filter (· ≠ '_')).map Char.toLower
  let (negative, cs) ← match cs with
    | '-' :: rest => pure (true, rest)
    | '+' :: rest => pure (false, rest)
    | [] => .error .outOfRange
    | rest => pure (false, rest)
  let x ←
    if cs = ".inf".toList then pure (.infinite false)
    else if cs = ".nan".toList then pure .nan
    else if ':' ∈ cs then do
      let groups ← (cs.splitOn ':').mapM signed
      pure (groups.reverse.zipIdx.foldl (fun total (x, place) => total.add (x.scale (Nat.pow 60 place)))
        (.finite false 0 0))
    else signed cs
  return .real (if negative then x.negate else x)

/-- A day or a moment. -/
def timestamp (cs : List Char) : Reading Value :=
  match Suggest.stamp? cs with
  | none => .error .missingPart
  | some s =>
    match Date.make? s.year s.month s.day with
    | none => .error .badValue
    | some date =>
      match s.time with
      | none => .ok (.date date)
      | some (hour, minute, second, fraction, offset) =>
        let micro := Text.ofDigits
          (((fraction ++ List.replicate 6 '0').take 6).map fun c => c.toNat - 48)
        let far := match offset with
          | some o => 86400 ≤ o.natAbs
          | none => false
        if 23 < hour || 59 < minute || 59 < second || far then .error .badValue
        else .ok (.moment ⟨date, hour, minute, second, micro, offset⟩)

/-- The value of a base 64 digit. -/
def base64Value? (c : Char) : Option Nat :=
  if 'A' ≤ c ∧ c ≤ 'Z' then some (c.toNat - 65)
  else if 'a' ≤ c ∧ c ≤ 'z' then some (c.toNat - 71)
  else if '0' ≤ c ∧ c ≤ '9' then some (c.toNat + 4)
  else if c = '+' then some 62
  else if c = '/' then some 63
  else none

/-- The bytes of a text in base 64, from the digits of the group that is being read, the last
first, and the number of padding signs since the last digit. Other characters are passed over.
A group ends with its fourth digit, or with padding that completes it, after which nothing is
read. -/
def base64Bytes : List Nat → Nat → List Char → Option (List UInt8)
  | group, padding, '=' :: cs =>
    if 2 ≤ group.length && 4 ≤ group.length + padding + 1 then some (groupBytes group)
    else base64Bytes group (if 2 ≤ group.length then padding + 1 else padding) cs
  | group, padding, c :: cs =>
    match base64Value? c with
    | none => base64Bytes group padding cs
    | some d =>
      if group.length = 3 then (groupBytes (d :: group) ++ ·) <$> base64Bytes [] 0 cs
      else base64Bytes (d :: group) 0 cs
  | group, _, [] => if group.isEmpty then some [] else none
where
  /-- The bytes that the digits of a group complete. -/
  groupBytes : List Nat → List UInt8
    | [d, c, b, a] =>
      let n := ((a * 64 + b) * 64 + c) * 64 + d
      [UInt8.ofNat (n / 65536), UInt8.ofNat (n / 256), UInt8.ofNat n]
    | [c, b, a] =>
      let n := (a * 64 + b) * 64 + c
      [UInt8.ofNat (n / 1024), UInt8.ofNat (n / 4)]
    | [b, a] => [UInt8.ofNat ((a * 64 + b) / 16)]
    | _ => []

/-- Bytes in base 64, written in ASCII. -/
def binary (cs : List Char) : Reading Value :=
  if cs.any fun c => 128 ≤ c.toNat then malformed
  else match base64Bytes [] 0 cs with
    | some data => .ok (.bytes data)
    | none => malformed

/-- The value of a scalar of a kind. -/
def scalar (kind : Kind) (text : Content) : Reading Value :=
  match kind with
  | .null => .ok .null
  | .bool => bool text.chars
  | .int => int text.chars
  | .float => float text.chars
  | .binary => binary text.chars
  | .timestamp => timestamp text.chars
  | .str => .ok (if text.wellFormed then .text (String.ofList text.chars)
      else .illFormed (String.ofList text.chars))
  | _ => malformed

end Construct

end AppBroker.Yaml
