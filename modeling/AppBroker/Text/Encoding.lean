/-!
# Text in files

Files hold bytes. A text file is UTF-8, and each of its line ends, be it a line feed, a carriage
return or both, is read as one line feed. Output that may hold any bytes is read with a
replacement character for each part that is not UTF-8.
-/

namespace AppBroker.Text

/-- The bytes of a text. -/
def encode (s : String) : List UInt8 := s.toUTF8.toList

/-- The text of bytes, if they are UTF-8. -/
def decode? (data : List UInt8) : Option (List Char) :=
  (String.fromUTF8? (ByteArray.mk data.toArray)).map String.toList

/-- Reads every line end as a line feed. -/
def unifyLineEnds : List Char → List Char
  | [] => []
  | '\r' :: '\n' :: cs => '\n' :: unifyLineEnds cs
  | '\r' :: cs => '\n' :: unifyLineEnds cs
  | c :: cs => c :: unifyLineEnds cs

/-- How the bytes of a character may go on after a first byte: how many follow, and the range of
the first of them. -/
def leadRange? (b : Nat) : Option (Nat × Nat × Nat) :=
  if 0xc2 ≤ b ∧ b ≤ 0xdf then some (1, 0x80, 0xbf)
  else if b = 0xe0 then some (2, 0xa0, 0xbf)
  else if b = 0xed then some (2, 0x80, 0x9f)
  else if 0xe1 ≤ b ∧ b ≤ 0xef then some (2, 0x80, 0xbf)
  else if b = 0xf0 then some (3, 0x90, 0xbf)
  else if 0xf1 ≤ b ∧ b ≤ 0xf3 then some (3, 0x80, 0xbf)
  else if b = 0xf4 then some (3, 0x80, 0x8f)
  else none

/-- The longest well formed continuation of up to `need` bytes, the first in a range: the bits,
how many bytes they took, and whether the character is complete. -/
def continuation (low high : Nat) : Nat → Nat → Nat → List UInt8 → Nat × Nat × Bool
  | 0, value, taken, _ => (value, taken, true)
  | _ + 1, value, taken, [] => (value, taken, false)
  | need + 1, value, taken, b :: bs =>
    if low ≤ b.toNat && b.toNat ≤ high then
      continuation 0x80 0xbf need (64 * value + (b.toNat - 0x80)) (taken + 1) bs
    else (value, taken, false)

/-- Decodes bytes, putting one replacement character for each longest part that is the beginning
of a character but not all of it, and for each byte that begins none. -/
def decodeLossy : Nat → List UInt8 → List Char
  | 0, _ => []
  | _, [] => []
  | fuel + 1, b :: bs =>
    if b.toNat < 0x80 then Char.ofNat b.toNat :: decodeLossy fuel bs
    else match leadRange? b.toNat with
      | none => '\ufffd' :: decodeLossy fuel bs
      | some (need, low, high) =>
        let lead := b.toNat % (if need = 1 then 32 else if need = 2 then 16 else 8)
        let (value, taken, complete) := continuation low high need lead 0 bs
        (if complete then Char.ofNat value else '\ufffd') :: decodeLossy fuel (bs.drop taken)

/-- The text of bytes that may not all be UTF-8. -/
def decodeReplacing (data : List UInt8) : String :=
  String.ofList (decodeLossy data.length data)

/-- Whether text comes before another, character by character. -/
def le (s t : String) : Bool := (Ord.compare s t).isLE

end AppBroker.Text
