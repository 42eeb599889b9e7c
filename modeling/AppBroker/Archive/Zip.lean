import AppBroker.Archive.Inflate
import AppBroker.Error
import AppBroker.Text.Encoding

/-!
# Zip archives

A zip archive ends with a directory of its entries and a record that tells where the directory is.
Whatever stands before the archive is skipped. An entry has a header of its own, which repeats its
name, and its bytes as they are or deflated, guarded by a checksum.
-/

namespace AppBroker.Archive.Zip

/-- The mark of the record at the end. -/
def endMark : List UInt8 := [0x50, 0x4b, 5, 6]

/-- The mark of an entry of the directory. -/
def directoryMark : List UInt8 := [0x50, 0x4b, 1, 2]

/-- The mark of an entry's own header. -/
def entryMark : List UInt8 := [0x50, 0x4b, 3, 4]

/-- The sizes of the record at the end, an entry of the directory, and an entry's header. -/
def endSize : Nat := 22

/-- The size of an entry of the directory without its texts. -/
def directorySize : Nat := 46

/-- The size of an entry's header without its texts. -/
def entrySize : Nat := 30

/-- The longest comment at the end. -/
def maxComment : Nat := 65536

/-- The last place before a bound where a mark stands. -/
def lastMark (mark data : List UInt8) : Nat → Option Nat
  | 0 => none
  | n + 1 => if mark.isPrefixOf (data.drop n) then some n else lastMark mark data n

/-- The place of the record at the end: without a comment it is the last thing in the file. -/
def endPlace? (data : List UInt8) : Option Nat :=
  let plain := data.length - endSize
  if data.length < endSize then none
  else if endMark.isPrefixOf (data.drop plain) && littleAt data (plain + 20) 2 = 0 then some plain
  else
    let start := data.length - (maxComment + endSize)
    (lastMark endMark (data.drop start) (data.length - start)).bind fun n =>
      if start + n + endSize ≤ data.length then some (start + n) else none

/-- Whether bytes are a zip archive at all. -/
def isZip (data : List UInt8) : Bool := (endPlace? data).isSome

/-- The characters of the upper half of the code page for names that are not marked as UTF-8. -/
def upperPage : String :=
  "ÇüéâäàåçêëèïîìÄÅÉæÆôöòûùÿÖÜ¢£¥₧ƒáíóúñÑªº¿⌐¬½¼¡«»░▒▓│┤╡╢╖╕╣║╗╝╜╛┐└┴┬├─┼╞╟╚╔╩╦╠═╬╧╨╤╥╙╘╒╓╫╪┘┌█▄▌▐▀"
    ++ "αßΓπΣσµτΦΘΩδ∞φε∩≡±≥≤⌠⌡÷≈°∙·√ⁿ²■\u00a0"

/-- A name from its bytes. -/
def nameOf (isUtf8 : Bool) (bytes : List UInt8) : Outcome String :=
  if isUtf8 then
    match Text.decode? bytes with
    | some cs => .ok (String.ofList cs)
    | none => fail .badValue
  else
    .ok (String.ofList (bytes.map fun b =>
      if b < 128 then Char.ofNat b.toNat else upperPage.toList.getD (b.toNat - 128) ' '))

/-- An entry of the directory. -/
structure Entry where
  /-- The name as it is given. -/
  givenName : String
  flags : Nat
  method : Nat
  checksum : Nat
  packedSize : Nat
  size : Nat
  /-- Where its header is, counted from the start of the file. -/
  place : Int
  /-- Where the next thing after its bytes starts. -/
  bound : Int := 0
  deriving Repr

/-- The name of an entry: what stands before the first zero. -/
def Entry.name (e : Entry) : String := String.ofList (e.givenName.toList.takeWhile (· ≠ '\x00'))

/-- The newest version of the format that can be read, times ten. -/
def newestVersion : Nat := 63

/-- Whether extra fields fill their place: each has a number, a length and that many bytes. The fuel
bounds their number. -/
def hasGoodExtras : Nat → List UInt8 → Bool
  | 0, _ => true
  | fuel + 1, extras =>
    let length := littleAt extras 2 2 + 4
    extras.length < 4 || (length ≤ extras.length && hasGoodExtras fuel (extras.drop length))

/-- Reads entries of the directory until it ends; `shift` is what stands before the archive. The
fuel bounds the number of entries. -/
def entriesFrom (shift : Int) : Nat → List UInt8 → Outcome (List Entry)
  | 0, _ => .ok []
  | fuel + 1, data =>
    if data.isEmpty then .ok []
    else if data.length < directorySize || !directoryMark.isPrefixOf data then fail .damagedZip
    else do
      let nameSize := littleAt data 28 2
      let flags := littleAt data 8 2
      let givenName ← nameOf (flags.testBit 11) ((data.drop directorySize).take nameSize)
      if newestVersion < littleAt data 6 1 then fail .unsupported
      let extras := (data.drop (directorySize + nameSize)).take (littleAt data 30 2)
      if !hasGoodExtras extras.length extras then fail .damagedZip
      let e : Entry :=
        { givenName, flags, method := littleAt data 10 2, checksum := littleAt data 16 4
          packedSize := littleAt data 20 4, size := littleAt data 24 4
          place := littleAt data 42 4 + shift }
      let whole := directorySize + nameSize + littleAt data 30 2 + littleAt data 32 2
      return e :: (← entriesFrom shift fuel (data.drop whole))

/-- Where the next thing after the bytes of the entry at a place of the list starts: the header that
follows most closely, or the directory. Of headers at one place all but the first are followed by
that place. -/
def boundOf (directory : Int) (entries : List Entry) (index : Nat) (e : Entry) : Int :=
  let isBehind (other : Entry × Nat) : Bool :=
    e.place < other.1.place || (e.place = other.1.place && other.2 < index)
  (entries.zipIdx.filter isBehind).foldl (fun bound other => min bound other.1.place) directory

/-- The entries of an archive, in the order of its directory. -/
def entries (data : List UInt8) : Outcome (List Entry) :=
  match endPlace? data with
  | none => fail .damagedZip
  | some place =>
    let size := littleAt data (place + 12) 4
    let offset := littleAt data (place + 16) 4
    if place < size then fail .damagedZip
    else do
      let start := place - size
      let all ← entriesFrom ((start : Int) - offset) data.length ((data.drop start).take size)
      return all.zipIdx.map fun (e, i) => { e with bound := boundOf start all i e }

/-- The packed bytes of an entry, whose header must agree with the directory and ask for nothing that
is not known. -/
def packedBytes (data : List UInt8) (e : Entry) : Outcome (List UInt8) := do
  if e.place < 0 then fail .fileSystem
  let place := e.place.toNat
  let header := (data.drop place).take entrySize
  if header.length < entrySize || !entryMark.isPrefixOf header then fail .damagedZip
  let nameSize := littleAt header 26 2
  let texts := nameSize + littleAt header 28 2
  if e.flags.testBit 5 || e.flags.testBit 6 then fail .unsupported
  let name ← nameOf ((littleAt header 6 2).testBit 11)
    ((data.drop (place + entrySize)).take nameSize)
  if name ≠ e.givenName then fail .damagedZip
  let start := min (place + entrySize + texts) data.length
  if e.bound < start + e.packedSize then fail .damagedZip
  if e.flags.testBit 0 then fail .lockedArchive
  if e.method ≠ 0 && e.method ≠ 8 then fail .unsupported
  return (data.drop start).take e.packedSize

/-- The bytes of an entry from its packed ones. -/
def unpacked (e : Entry) (packed : List UInt8) : Outcome (List UInt8) := do
  let bytes ←
    if e.method = 0 then
      if packed.length < min e.size e.packedSize then fail .truncatedStream else pure packed
    else
      let (stream, _) := Inflate.run packed
      match stream.ending with
      | .damaged => fail .damagedStream
      | _ => pure stream.data
  let bytes := bytes.take e.size
  if crc32 bytes ≠ e.checksum then fail .damagedZip
  return bytes

end AppBroker.Archive.Zip
