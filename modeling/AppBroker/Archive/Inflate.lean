import AppBroker.Archive.Stream

/-!
# Inflating

Deflated bytes are blocks of bits. A block holds plain bytes, or symbols in a prefix code that is
fixed or described in the block itself. A symbol is a byte, the end of the block, or the length of
a piece that was seen before, with the distance to it. A code is given by the lengths of its words
alone: shorter words come first, and words of one length are in the order of their symbols.
-/

namespace AppBroker.Archive.Inflate

/-- The bits of bytes, lowest first. -/
def bits (data : List UInt8) : List Bool :=
  data.flatMap fun b => (List.range 8).map fun i => b.toNat.testBit i

/-- Why inflating stops early. -/
inductive Stop where
  | truncated | damaged
  deriving DecidableEq, Repr

/-- What was read, and the bits after it. -/
abbrev Taken (α : Type) := α × List Bool

/-- The number in the next bits, lowest first. -/
def number : Nat → List Bool → Except Stop (Taken Nat)
  | 0, bs => .ok (0, bs)
  | _ + 1, [] => .error .truncated
  | n + 1, b :: bs => do
    let (high, rest) ← number n bs
    return (2 * high + b.toNat, rest)

/-- A prefix code: how many words there are of each length from one on, and the symbols in the order
of their words. -/
structure Code where
  counts : List Nat
  symbols : Array Nat
  deriving Repr

/-- The longest word. -/
def maxWord : Nat := 15

/-- The code with given lengths of words, symbol by symbol; a symbol of length zero has no word. -/
def Code.ofLengths (lengths : List Nat) : Code :=
  let counts := (List.range maxWord).map fun i => lengths.count (i + 1)
  let symbols := (List.range maxWord).flatMap fun i =>
    lengths.zipIdx.filterMap fun (length, symbol) => if length = i + 1 then some symbol else none
  ⟨counts, symbols.toArray⟩

/-- How many words of the greatest length would still fit, unless there are too many words. -/
def Code.slack (c : Code) : Option Nat :=
  c.counts.foldl (fun left count => left.bind fun left =>
    if count ≤ 2 * left then some (2 * left - count) else none) (some 1)

/-- Whether a code can be used: its words fit, and fill all places unless there is at most one word,
of one bit. -/
def Code.isUsable (c : Code) (single : Bool) : Bool :=
  match c.slack with
  | none => false
  | some left => left = 0 || c.symbols.isEmpty || (single && (c.counts.drop 1).all (· = 0))

/-- Reads a symbol, going through the lengths of words; `code` is the word read so far, `first` the
first word of its length, and `index` the place of that word's symbol. -/
def Code.readFrom (symbols : Array Nat) :
    List Nat → Nat → Nat → Nat → List Bool → Except Stop (Taken Nat)
  | [], _, _, _, _ => .error .damaged
  | _ :: _, _, _, _, [] => .error .truncated
  | count :: counts, code, first, index, b :: bs =>
    let code := code + b.toNat
    if code < first + count then
      match symbols[index + (code - first)]? with
      | some symbol => .ok (symbol, bs)
      | none => .error .damaged
    else Code.readFrom symbols counts (2 * code) (2 * (first + count)) (index + count) bs

/-- Reads a symbol. -/
def Code.read (c : Code) (bs : List Bool) : Except Stop (Taken Nat) :=
  Code.readFrom c.symbols c.counts 0 0 0 bs

/-- Bases and extra bits of the lengths of pieces. -/
def lengthBases : List (Nat × Nat) :=
  [(3, 0), (4, 0), (5, 0), (6, 0), (7, 0), (8, 0), (9, 0), (10, 0), (11, 1), (13, 1), (15, 1),
   (17, 1), (19, 2), (23, 2), (27, 2), (31, 2), (35, 3), (43, 3), (51, 3), (59, 3), (67, 4),
   (83, 4), (99, 4), (115, 4), (131, 5), (163, 5), (195, 5), (227, 5), (258, 0)]

/-- Bases and extra bits of the distances to pieces. -/
def distanceBases : List (Nat × Nat) :=
  [(1, 0), (2, 0), (3, 0), (4, 0), (5, 1), (7, 1), (9, 2), (13, 2), (17, 3), (25, 3), (33, 4),
   (49, 4), (65, 5), (97, 5), (129, 6), (193, 6), (257, 7), (385, 7), (513, 8), (769, 8),
   (1025, 9), (1537, 9), (2049, 10), (3073, 10), (4097, 11), (6145, 11), (8193, 12), (12289, 12),
   (16385, 13), (24577, 13)]

/-- Reads a number that is a base with extra bits. -/
def based (bases : List (Nat × Nat)) (symbol : Nat) (bs : List Bool) : Except Stop (Taken Nat) :=
  match bases[symbol]? with
  | none => .error .damaged
  | some (base, extra) => do
    let (n, bs) ← number extra bs
    return (base + n, bs)

/-- Copies a piece seen before; it may reach into itself. -/
def copyPiece (distance : Nat) : Nat → Array UInt8 → Array UInt8
  | 0, out => out
  | n + 1, out => copyPiece distance n (out.push (out.getD (out.size - distance) 0))

/-- What was unpacked, with the bits left or the reason to stop. -/
structure Progress where
  out : Array UInt8
  rest : Except Stop (List Bool)

/-- Unpacks symbols up to the end of a block; the fuel bounds the number of symbols. -/
def symbols (literals distances : Code) : Nat → Array UInt8 → List Bool → Progress
  | 0, out, _ => ⟨out, .error .damaged⟩
  | fuel + 1, out, bs =>
    match literals.read bs with
    | .error stop => ⟨out, .error stop⟩
    | .ok (symbol, bs) =>
      if symbol < 256 then symbols literals distances fuel (out.push symbol.toUInt8) bs
      else if symbol = 256 then ⟨out, .ok bs⟩
      else
        let piece : Except Stop (Taken (Nat × Nat)) := do
          let (length, bs) ← based lengthBases (symbol - 257) bs
          let (symbol, bs) ← distances.read bs
          let (distance, bs) ← based distanceBases symbol bs
          return ((length, distance), bs)
        match piece with
        | .error stop => ⟨out, .error stop⟩
        | .ok ((length, distance), bs) =>
          if out.size < distance then ⟨out, .error .damaged⟩
          else symbols literals distances fuel (copyPiece distance length out) bs

/-- The order in which the lengths of the words for lengths are given. -/
def lengthOrder : List Nat := [16, 17, 18, 0, 8, 7, 9, 6, 10, 5, 11, 4, 12, 3, 13, 2, 14, 1, 15]

/-- Reads some numbers of three bits. -/
def threeBits : Nat → List Bool → Except Stop (Taken (List Nat))
  | 0, bs => .ok ([], bs)
  | n + 1, bs => do
    let (first, bs) ← number 3 bs
    let (rest, bs) ← threeBits n bs
    return (first :: rest, bs)

/-- Reads lengths of words until there are enough; the fuel bounds the number of symbols. -/
def lengths (code : Code) (wanted : Nat) :
    Nat → List Nat → List Bool → Except Stop (Taken (List Nat))
  | 0, _, _ => .error .damaged
  | fuel + 1, done, bs =>
    if wanted ≤ done.length then if done.length = wanted then .ok (done, bs) else .error .damaged
    else do
      let (symbol, bs) ← code.read bs
      let again (value base extra : Nat) (bs : List Bool) : Except Stop (Taken (List Nat)) := do
        let (n, bs) ← number extra bs
        return (List.replicate (base + n) value, bs)
      let (more, bs) ← match symbol with
        | 16 => match done.getLast? with
          | some last => again last 3 2 bs
          | none => .error .damaged
        | 17 => again 0 3 3 bs
        | 18 => again 0 11 7 bs
        | n => pure ([n], bs)
      lengths code wanted fuel (done ++ more) bs

/-- The two codes that a block describes. -/
def describedCodes (bs : List Bool) : Except Stop (Taken (Code × Code)) := do
  let (literals, bs) ← number 5 bs
  let (distances, bs) ← number 5 bs
  let (given, bs) ← number 4 bs
  if 29 < literals || 29 < distances then .error .damaged
  let (short, bs) ← threeBits (given + 4) bs
  let table := lengthOrder.zip short
  let code := Code.ofLengths ((List.range 19).map fun i => (table.lookup i).getD 0)
  if !code.isUsable false || code.symbols.isEmpty then .error .damaged
  let wanted := literals + 257 + distances + 1
  let (all, bs) ← lengths code wanted (wanted + 1) [] bs
  let literalCode := Code.ofLengths (all.take (literals + 257))
  let distanceCode := Code.ofLengths (all.drop (literals + 257))
  if all[256]? = some 0 || !literalCode.isUsable true || !distanceCode.isUsable true then
    .error .damaged
  return ((literalCode, distanceCode), bs)

/-- The codes of a block that describes none. -/
def fixedCodes : Code × Code :=
  (Code.ofLengths (List.replicate 144 8 ++ List.replicate 112 9 ++ List.replicate 24 7
      ++ List.replicate 8 8),
    Code.ofLengths (List.replicate 30 5))

/-- Takes plain bytes from the bits. -/
def plain : Nat → Array UInt8 → List Bool → Progress
  | 0, out, bs => ⟨out, .ok bs⟩
  | n + 1, out, bs =>
    match number 8 bs with
    | .error stop => ⟨out, .error stop⟩
    | .ok (b, bs) => plain n (out.push b.toUInt8) bs

/-- Unpacks a block of plain bytes: skips to the next byte, and reads the length twice. -/
def stored (out : Array UInt8) (bs : List Bool) : Progress :=
  let bs := bs.drop (bs.length % 8)
  let header : Except Stop (Taken Nat) := do
    let (length, bs) ← number 16 bs
    let (check, bs) ← number 16 bs
    if length + check = 0xffff then return (length, bs) else .error .damaged
  match header with
  | .error stop => ⟨out, .error stop⟩
  | .ok (length, bs) => plain length out bs

/-- Unpacks the rest of a block of a kind. -/
def block (kind : Nat) (out : Array UInt8) (bs : List Bool) : Progress :=
  match kind with
  | 0 => stored out bs
  | 1 => symbols fixedCodes.1 fixedCodes.2 (bs.length + 1) out bs
  | 2 => match describedCodes bs with
    | .error stop => ⟨out, .error stop⟩
    | .ok ((literals, distances), bs) => symbols literals distances (bs.length + 1) out bs
  | _ => ⟨out, .error .damaged⟩

/-- Unpacks blocks up to the last; the fuel bounds their number. -/
def blocks : Nat → Array UInt8 → List Bool → Progress
  | 0, out, _ => ⟨out, .error .damaged⟩
  | fuel + 1, out, bs =>
    let header : Except Stop (Taken (Nat × Nat)) := do
      let (last, bs) ← number 1 bs
      let (kind, bs) ← number 2 bs
      return ((last, kind), bs)
    match header with
    | .error stop => ⟨out, .error stop⟩
    | .ok ((last, kind), bs) =>
      match block kind out bs with
      | ⟨out, .error stop⟩ => ⟨out, .error stop⟩
      | ⟨out, .ok bs⟩ => if last = 1 then ⟨out, .ok bs⟩ else blocks fuel out bs

/-- Inflates bytes: the stream, and the bytes after the packed ones. -/
def run (data : List UInt8) : Stream × List UInt8 :=
  let bs := bits data
  match blocks (bs.length + 1) #[] bs with
  | ⟨out, .error .truncated⟩ => (⟨out.toList, .truncated⟩, [])
  | ⟨out, .error .damaged⟩ => (⟨out.toList, .damaged⟩, [])
  | ⟨out, .ok rest⟩ => (⟨out.toList, .clean⟩, data.drop (data.length - rest.length / 8))

end AppBroker.Archive.Inflate
