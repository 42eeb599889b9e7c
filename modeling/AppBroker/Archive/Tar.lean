import AppBroker.Archive.Stream
import AppBroker.Error
import AppBroker.Table
import AppBroker.Text.Encoding
import AppBroker.Text.Integer

/-!
# Tape archives

A tape archive is a row of blocks. Each member has a header block, with a checksum, and its bytes
in the blocks after it; a block of zeros ends the archive. Members may be preceded by blocks that
give a longer name or other fields for them. A member is taken out before the next one is looked
at, so what was read before an archive turned out to be damaged has been taken out.
-/

namespace AppBroker.Archive.Tar

/-- The size of a block. -/
def blockSize : Nat := 512

/-- The size of the blocks that some bytes fill. -/
def blocks (size : Nat) : Nat := (size + blockSize - 1) / blockSize * blockSize

/-- What a member is. -/
inductive Kind where
  | file (data : Outcome (List UInt8))
  | directory
  | symbolicLink (target : String)
  | hardLink (target : String)
  | special

/-- A member by the name under which it is taken out. -/
structure Member where
  name : String
  kind : Kind

/-- Why there is no header at a place. -/
inductive HeaderFlaw where
  /-- A block of zeros. -/
  | finished
  /-- No bytes are left, or less than a block. -/
  | missing
  /-- The checksum or a number is wrong. -/
  | invalid
  /-- What must follow a header for another one does not. -/
  | widowed
  /-- The stream cannot be read. -/
  | unreadable (why : Breakage)
  deriving DecidableEq, Repr

/-- The failure of reading past the end of a stream; short reads of a clean one succeed. -/
def endFailure? : StreamEnd → Option Breakage
  | .clean => none
  | .truncated => some .truncatedStream
  | .damaged => some .damagedTape
  | .mismatched => some .fileSystem

/-- Reads some bytes at a place of a stream, fewer at its end. -/
def readAt (s : Stream) (place count : Nat) : Except Breakage (List UInt8) :=
  let got := (s.data.drop place).take count
  if got.length = count then .ok got
  else match endFailure? s.ending with
    | some why => .error why
    | none => .ok got

/-- The text in a field, up to the first zero. -/
def textIn (field : List UInt8) : String :=
  let bytes := field.takeWhile (· ≠ 0)
  match Text.decode? bytes with
  | some cs => String.ofList cs
  | none => Text.decodeReplacing bytes

/-- The number in a field: octal digits, or bytes from the high one on after a mark. -/
def numberIn? (field : List UInt8) : Option Int :=
  match field with
  | [] => none
  | mark :: rest =>
    let big : Int := rest.foldl (fun n b => 256 * n + b.toNat) 0
    if mark = 0o200 then some big
    else if mark = 0o377 then some (big - (1 <<< (8 * rest.length) : Nat))
    else
      let bytes := field.takeWhile (· ≠ 0)
      if bytes.any (128 ≤ ·) then none
      else
        let cs := Text.trimWhile Text.isBlank (bytes.map fun b => Char.ofNat b.toNat)
        if cs.isEmpty then some 0 else Text.integerIn? 8 cs

/-- A header as it stands in its block. -/
structure Header where
  name : String
  link : String
  size : Nat
  type : Char
  deriving Repr

/-- A field of a header block. -/
def field (block : List UInt8) (start stop : Nat) : List UInt8 :=
  (block.drop start).take (stop - start)

/-- The checksums of a block, its bytes counted without and with a sign; the field of the checksum
itself counts as blanks. -/
def checksums (block : List UInt8) : List Int :=
  let counted := block.take 148 ++ block.drop 156
  let plain : Int := counted.foldl (fun n b => n + b.toNat) 256
  let signed : Int := counted.foldl (fun n b =>
    n + (if b.toNat < 128 then (b.toNat : Int) else (b.toNat : Int) - 256)) 256
  [plain, signed]

/-- Whether a type is a directory's. -/
def isDirectoryType (type : Char) : Bool := type = '5'

/-- Whether members of a type have bytes of their own. -/
def isRegularType (type : Char) : Bool := type = '0' || type = '\x00' || type = '7' || type = 'S'

/-- Whether a type is one of those known. -/
def isKnownType (type : Char) : Bool :=
  isRegularType type || type ∈ ['1', '2', '3', '4', '5', '6', 'L', 'K', 'x', 'g', 'X']

/-- Whether a type belongs to one dialect, whose members have no name in two parts. -/
def hasOwnNames (type : Char) : Bool := type ∈ ['L', 'K', 'S']

/-- A name without the slashes at its end. -/
def dropSlashes (name : String) : String :=
  String.ofList (Text.dropEndWhile (· = '/') name.toList)

/-- Reads a header block. -/
def Header.ofBlock (block : List UInt8) : Except HeaderFlaw Header := do
  if block.length ≠ blockSize then .error .missing
  if block.all (· = 0) then .error .finished
  let number (start stop : Nat) : Except HeaderFlaw Int :=
    match numberIn? (field block start stop) with
    | some n => .ok n
    | none => .error .invalid
  let checksum ← number 148 156
  if checksum ∉ checksums block then .error .invalid
  let _ ← number 100 108
  let _ ← number 108 116
  let _ ← number 116 124
  let size ← number 124 136
  let _ ← number 136 148
  let _ ← number 329 337
  let _ ← number 337 345
  let name := textIn (field block 0 100)
  let typeByte := Char.ofNat (block.getD 156 0).toNat
  let type := if typeByte = '\x00' && name.toList.getLast? = some '/' then '5' else typeByte
  let name := if isDirectoryType type then dropSlashes name else name
  let lead := textIn (field block 345 500)
  let name := if lead ≠ "" && !hasOwnNames type then lead ++ "/" ++ name else name
  return { name, link := textIn (field block 157 257), size := size.toNat, type }

/-- Fields that blocks before a member give for it. -/
abbrev Extras := Table String String

/-- Reads the records `LENGTH KEY=VALUE` of a block of extra fields; the fuel bounds their
number. -/
def records : Nat → List UInt8 → Except HeaderFlaw Extras
  | 0, _ => .ok []
  | fuel + 1, data =>
    let digits := data.takeWhile fun b => 0x30 ≤ b && b ≤ 0x39
    let length := digits.foldl (fun n b => 10 * n + (b.toNat - 0x30)) 0
    let body := data.drop (digits.length + 1)
    let key := body.takeWhile (· ≠ 0x3d)
    if digits.isEmpty || data.getD digits.length 0 ≠ 0x20 || key.isEmpty || key.length = body.length
    then .ok []
    else if length = 0 then .error .invalid
    else do
      let start := digits.length + 1 + key.length + 1
      let value := (data.drop start).take (length - 1 - start)
      let text (bytes : List UInt8) : String :=
        match Text.decode? bytes with
        | some cs => String.ofList cs
        | none => Text.decodeReplacing bytes
      let rest ← records fuel (data.drop length)
      return (text key, text value) :: rest

/-- A header with the extra fields in place of its own. -/
def Header.withExtras (h : Header) (extras : Extras) : Header :=
  let last (key : String) : Option String := (extras.reverse.lookup key)
  let h := match last "path" with
    | some name => { h with name := dropSlashes name }
    | none => h
  let h := match last "linkpath" with
    | some link => { h with link }
    | none => h
  match last "size" with
  | some size => { h with size := ((Text.integer? size).getD 0).toNat }
  | none => h

/-- A header found in the archive: what it says in the end, and where the bytes after it start. -/
structure Found where
  header : Header
  dataStart : Nat
  deriving Repr

/-- Where the next header is. -/
def Found.next (f : Found) : Nat :=
  if isRegularType f.header.type || !isKnownType f.header.type then
    f.dataStart + blocks f.header.size
  else f.dataStart

/-- Reads the header at a place with the blocks that belong to it; `extras` are the fields that hold
for all members. The fuel bounds the number of blocks. -/
def headerAt (s : Stream) : Nat → Extras → Nat → Except HeaderFlaw (Found × Extras)
  | 0, _, _ => .error .missing
  | fuel + 1, extras, place => do
    let read (place count : Nat) : Except HeaderFlaw (List UInt8) :=
      match readAt s place count with
      | .ok data => .ok data
      | .error why => .error (.unreadable why)
    let following (extras : Extras) (place : Nat) : Except HeaderFlaw (Found × Extras) :=
      match headerAt s fuel extras place with
      | .error (.unreadable why) => .error (.unreadable why)
      | .error _ => .error .widowed
      | .ok found => .ok found
    let h ← Header.ofBlock (← read place blockSize)
    let body := place + blockSize
    let after := body + blocks h.size
    if h.type = 'L' || h.type = 'K' then
      let text := textIn (← read body (blocks h.size))
      let (found, extras) ← following extras after
      let inner := found.header
      let inner := if h.type = 'L' then { inner with name := text } else { inner with link := text }
      let inner :=
        if isDirectoryType inner.type then { inner with name := dropSlashes inner.name } else inner
      return ({ found with header := inner }, extras)
    else if h.type = 'g' then
      let data ← read body (blocks h.size)
      following (extras ++ (← records data.length (data.take h.size))) after
    else if h.type = 'x' || h.type = 'X' then
      let data ← read body (blocks h.size)
      let own ← records data.length (data.take h.size)
      let (found, extras) ← following extras after
      return ({ found with header := found.header.withExtras own }, extras)
    else
      let h := h.withExtras extras
      let h := if isDirectoryType h.type then { h with name := dropSlashes h.name } else h
      return (⟨h, body⟩, extras)

/-- The bytes of a member; an archive that ends before them is damaged. -/
def dataOf (s : Stream) (f : Found) : Outcome (List UInt8) :=
  match readAt s f.dataStart f.header.size with
  | .error .damagedTape => fail .damagedStream
  | .error why => fail why
  | .ok data => if data.length = f.header.size then .ok data else fail .damagedTape

/-- The member that a header is of. -/
def memberOf (s : Stream) (f : Found) : Member :=
  let h := f.header
  let kind : Kind := match h.type with
    | '5' => .directory
    | '1' => .hardLink h.link
    | '2' => .symbolicLink h.link
    | '3' | '4' | '6' => .special
    | _ => .file (dataOf s f)
  ⟨h.name, kind⟩

/-- The members of an archive, and the failure that reading ends with, if it does. -/
structure Contents where
  members : List Member
  failure : Option Breakage

/-- Reads on after a member; the fuel bounds the number of members. -/
def membersFrom (s : Stream) : Nat → Extras → Found → Contents
  | 0, _, f => ⟨[memberOf s f], none⟩
  | fuel + 1, extras, f =>
    let m := memberOf s f
    let ending (why : Option Breakage) : Contents := ⟨[m], why⟩
    let reached : Except Breakage Unit :=
      if f.next = f.dataStart then .ok ()
      else match readAt s (f.next - 1) 1 with
        | .error why => .error why
        | .ok [] => .error .damagedTape
        | .ok _ => .ok ()
    match reached with
    | .error why => ending (some why)
    | .ok () =>
      match headerAt s (s.data.length + 1) extras f.next with
      | .error (.unreadable why) => ending (some why)
      | .error .widowed => ending (some .damagedTape)
      | .error _ => ending none
      | .ok (found, extras) =>
        let rest := membersFrom s fuel extras found
        ⟨m :: rest.members, rest.failure⟩

/-- Opens an archive. Bytes that do not start like one are not an archive at all, unless the stream
breaks off before it can be told. -/
def open? (s : Stream) : Outcome (Option Contents) :=
  match headerAt s (s.data.length + 1) [] 0 with
  | .ok (found, extras) => .ok (some (membersFrom s (s.data.length / blockSize + 1) extras found))
  | .error .finished => .ok (some ⟨[], none⟩)
  | .error (.unreadable .truncatedStream) => fail .truncatedStream
  | .error _ => .ok none

end AppBroker.Archive.Tar
