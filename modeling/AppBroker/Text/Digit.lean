/-!
# Decimal digits of every script

A decimal digit has a value from zero to nine, and the ten digits of a script stand side by side
in the order of their values. Some characters are called digits but write no decimal number:
superscripts, subscripts, and circled or parenthesised digits. A text made of digits is read as a
number when all of them are decimal and there are not too many.
-/

namespace AppBroker.Text

/-- The zero of each script with decimal digits; the digits one to nine follow it. -/
def decimalZeros : List Nat :=
  [0x30, 0x660, 0x6f0, 0x7c0, 0x966, 0x9e6, 0xa66, 0xae6, 0xb66, 0xbe6, 0xc66, 0xce6, 0xd66,
   0xde6, 0xe50, 0xed0, 0xf20, 0x1040, 0x1090, 0x17e0, 0x1810, 0x1946, 0x19d0, 0x1a80, 0x1a90,
   0x1b50, 0x1bb0, 0x1c40, 0x1c50, 0xa620, 0xa8d0, 0xa900, 0xa9d0, 0xa9f0, 0xaa50, 0xabf0,
   0xff10, 0x104a0, 0x10d30, 0x11066, 0x110f0, 0x11136, 0x111d0, 0x112f0, 0x11450, 0x114d0,
   0x11650, 0x116c0, 0x11730, 0x118e0, 0x11950, 0x11c50, 0x11d50, 0x11da0, 0x16a60, 0x16ac0,
   0x16b50, 0x1d7ce, 0x1d7d8, 0x1d7e2, 0x1d7ec, 0x1d7f6, 0x1e140, 0x1e2f0, 0x1e950, 0x1fbf0]

/-- First and last code points of the runs of digits that are not decimal. -/
def otherDigitRuns : List (Nat × Nat) :=
  [(0xb2, 0xb3), (0xb9, 0xb9), (0x1369, 0x1371), (0x19da, 0x19da), (0x2070, 0x2070),
   (0x2074, 0x2079), (0x2080, 0x2089), (0x2460, 0x2468), (0x2474, 0x247c), (0x2488, 0x2490),
   (0x24ea, 0x24ea), (0x24f5, 0x24fd), (0x24ff, 0x24ff), (0x2776, 0x277e), (0x2780, 0x2788),
   (0x278a, 0x2792), (0x10a40, 0x10a43), (0x10e60, 0x10e68), (0x11052, 0x1105a),
   (0x1f100, 0x1f10a)]

/-- The value of a decimal digit of any script. -/
def decimalValue? (c : Char) : Option Nat :=
  decimalZeros.findSome? fun first =>
    if first ≤ c.toNat ∧ c.toNat < first + 10 then some (c.toNat - first) else none

/-- Whether a character is a decimal digit. -/
def isDecimal (c : Char) : Bool := (decimalValue? c).isSome

/-- Whether a character is a digit, decimal or not. -/
def isDigit (c : Char) : Bool :=
  isDecimal c || otherDigitRuns.any fun (first, last) =>
    first ≤ c.toNat && c.toNat ≤ last

/-- The number that digits write from the most significant on. -/
def ofDigits (digits : List Nat) : Nat :=
  digits.foldl (fun n d => 10 * n + d) 0

/-- A numeral longer than this is not read. -/
def maxNumeralLength : Nat := 4300

/-- What a text says as a numeral. -/
inductive Numeral where
  /-- The text is empty or has a character that is no digit. -/
  | word
  /-- The text is a decimal number. -/
  | number (value : Nat)
  /-- The text is all digits, but some are not decimal or there are too many. -/
  | unreadable
  deriving DecidableEq, Repr

/-- Reads a text as a numeral, in any mixture of scripts. -/
def numeral (cs : List Char) : Numeral :=
  if cs.isEmpty || !cs.all isDigit then .word
  else match cs.mapM decimalValue? with
    | none => .unreadable
    | some digits => if cs.length ≤ maxNumeralLength then .number (ofDigits digits) else .unreadable

end AppBroker.Text
