import AppBroker.Archive.Inflate

/-!
# Gzip

A gzip file has members, each with a header, deflated bytes, and their checksum and length. Zeros
may fill it up after a member.
-/

namespace AppBroker.Archive.Gzip

/-- Skips a text that ends with a zero. -/
def skipText (data : List UInt8) : Option (List UInt8) :=
  match data.dropWhile (· ≠ 0) with
  | [] => none
  | _ :: rest => some rest

/-- Skips some bytes. -/
def skip (n : Nat) (data : List UInt8) : Option (List UInt8) :=
  if n ≤ data.length then some (data.drop n) else none

/-- Why a header is none. -/
inductive HeaderFlaw where
  | foreign | truncated
  deriving DecidableEq, Repr

/-- Skips the header of a member. -/
def skipHeader : List UInt8 → Except HeaderFlaw (List UInt8)
  | 0x1f :: 0x8b :: rest =>
    match rest with
    | method :: flags :: _ :: _ :: _ :: _ :: _ :: _ :: rest =>
      if method ≠ 8 then .error .foreign
      else
        let has (bit : Nat) : Bool := flags.toNat.testBit bit
        let body : Option (List UInt8) := do
          let rest ← if has 2 then do
              let size := littleAt rest 0 2
              skip size (← skip 2 rest)
            else some rest
          let rest ← if has 3 then skipText rest else some rest
          let rest ← if has 4 then skipText rest else some rest
          if has 1 then skip 2 rest else some rest
        match body with
        | some rest => .ok rest
        | none => .error .truncated
    | _ => .error .truncated
  | _ => .error .foreign

/-- Unpacks the members that follow; the fuel bounds their number. -/
def members : Nat → List UInt8 → Stream
  | 0, _ => ⟨[], .damaged⟩
  | fuel + 1, data =>
    if data.isEmpty then ⟨[], .clean⟩
    else match skipHeader data with
      | .error .foreign => ⟨[], .mismatched⟩
      | .error .truncated => ⟨[], .truncated⟩
      | .ok body =>
        let (stream, rest) := Inflate.run body
        if stream.ending ≠ .clean then stream
        else if rest.length < 8 then ⟨stream.data, .truncated⟩
        else if littleAt rest 0 4 ≠ crc32 stream.data
            || littleAt rest 4 4 ≠ stream.data.length % 4294967296 then
          ⟨stream.data, .mismatched⟩
        else
          let later := members fuel ((rest.drop 8).dropWhile (· = 0))
          ⟨stream.data ++ later.data, later.ending⟩

/-- Unpacks a gzip file. -/
def unpack (data : List UInt8) : Stream := members (data.length + 1) data

end AppBroker.Archive.Gzip
