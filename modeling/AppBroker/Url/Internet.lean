import AppBroker.Text.Digit

/-!
# Internet addresses

An address of version 4 is four numbers up to 255 without leading zeros, separated by dots. One of
version 6 is eight groups of up to four hexadecimal digits separated by colons; two colons once
stand for the groups of zeros that are missing, the last two groups may be written as an address
of version 4, and a zone may follow after a percent sign.
-/

namespace AppBroker.Url

/-- Whether a character is an ASCII digit. -/
def isFigure (c : Char) : Bool := '0' ≤ c && c ≤ '9'

/-- Whether a character is a hexadecimal digit. -/
def isHex (c : Char) : Bool := isFigure c || ('a' ≤ c && c ≤ 'f') || ('A' ≤ c && c ≤ 'F')

/-- Whether a text is one number of an address of version 4. -/
def isOctet (cs : List Char) : Bool :=
  !cs.isEmpty && cs.all isFigure && cs.length ≤ 3 && (cs.length = 1 || cs.head? ≠ some '0')
    && Text.ofDigits (cs.map fun c => c.toNat - 48) ≤ 255

/-- Whether a text is an address of version 4. -/
def isVersion4 (cs : List Char) : Bool :=
  let parts := cs.splitOn '.'
  parts.length = 4 && parts.all isOctet

/-- Whether a text is a group of an address of version 6. -/
def isGroup (cs : List Char) : Bool :=
  !cs.isEmpty && cs.length ≤ 4 && cs.all isHex

/-- The groups of an address of version 6; an address of version 4 at the end counts as two. -/
def groups? (cs : List Char) : Option (List (List Char)) :=
  let parts := cs.splitOn ':'
  match parts.getLast? with
  | none => none
  | some last =>
    if '.' ∈ last then
      if isVersion4 last then some (parts.dropLast ++ [['0'], ['0']]) else none
    else some parts

/-- Whether a text is an address of version 6 without a zone. -/
def isVersion6Plain (cs : List Char) : Bool :=
  if (cs.splitOn ':').length < 3 then false
  else match groups? cs with
    | none => false
    | some parts =>
      if 9 < parts.length then false
      else
        let inner := (parts.drop 1).dropLast
        match inner.findIdx? List.isEmpty with
        | none => parts.length = 8 && parts.all isGroup
        | some i =>
          let high := parts.take (i + 1)
          let low := parts.drop (i + 2)
          let trimmed (side : List (List Char)) : List (List Char) :=
            if side = [[]] then [] else side
          let high := trimmed high
          let low := trimmed low
          high.all isGroup && low.all isGroup && high.length + low.length < 8

/-- Whether a text is an address of version 6. -/
def isVersion6 (cs : List Char) : Bool :=
  match cs.splitOn '%' with
  | [address] => isVersion6Plain address
  | [address, zone] => !zone.isEmpty && isVersion6Plain address
  | _ => false

end AppBroker.Url
