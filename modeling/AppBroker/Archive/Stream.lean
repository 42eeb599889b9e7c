/-!
# Streams of unpacked bytes

Unpacking gives bytes up to some point. There it ends, or it turns out that the packed bytes break
off, that they are damaged, or that they do not match what was noted about them. Whoever reads past
that point learns which. A checksum of 32 bits guards most packed bytes.
-/

namespace AppBroker.Archive

/-- What is after the last byte of a stream. -/
inductive StreamEnd where
  | clean | truncated | damaged | mismatched
  deriving DecidableEq, Repr

/-- Unpacked bytes, and what is after them. -/
structure Stream where
  data : List UInt8
  ending : StreamEnd := .clean
  deriving Repr

/-- How many bytes are unpacked at once. -/
def pieceSize : Nat := 8192

/-- A stream that is read piece by piece: of a piece that is damaged nothing is seen. -/
def Stream.inPieces (s : Stream) : Stream :=
  if s.ending = .damaged then { s with data := s.data.take (s.data.length / pieceSize * pieceSize) }
  else s

/-- Bytes as they are. -/
def Stream.ofBytes (data : List UInt8) : Stream := { data }

/-- A number written in some bytes, the low byte first. -/
def little : List UInt8 → Nat
  | [] => 0
  | b :: bs => b.toNat + 256 * little bs

/-- The number in `count` bytes from a place, low byte first. -/
def littleAt (data : List UInt8) (place count : Nat) : Nat := little ((data.drop place).take count)

/-- One step of the checksum for a bit. -/
def crcBit (crc : UInt32) : UInt32 :=
  if crc &&& 1 = 1 then (crc >>> 1) ^^^ 0xedb88320 else crc >>> 1

/-- The checksum after one more byte. -/
def crcByte (crc : UInt32) (b : UInt8) : UInt32 :=
  (List.range 8).foldl (fun c _ => crcBit c) (crc ^^^ b.toUInt32)

/-- The cyclic checksum of bytes. -/
def crc32 (data : List UInt8) : Nat :=
  ((data.foldl crcByte 0xffffffff) ^^^ 0xffffffff).toNat

end AppBroker.Archive
