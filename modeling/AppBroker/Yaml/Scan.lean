import AppBroker.Yaml.Token

/-!
# Cutting a document into tokens

The scan goes through the text once and only ever adds tokens at the end. Whether a scalar is a
key is known when its colon comes, so a place where a key may have begun is kept aside with the
number of tokens before it. When the colon comes, the place is noted as an opening, and the
openings are woven into the tokens at the end.
-/

namespace AppBroker.Yaml

/-- A place where a key may have begun. -/
structure KeyPlace where
  position : Nat
  required : Bool
  index : Nat
  line : Nat
  column : Nat
  deriving Repr

/-- Where a key turned out to begin, and whether a block mapping begins with it. -/
structure Opening where
  position : Nat
  beginsMapping : Bool
  deriving Repr

/-- A scan under way. Tokens are in reverse, and `flow` counts the open flow collections. -/
structure Scan where
  cursor : Cursor
  reversed : List Token := []
  count : Nat := 0
  openings : List Opening := []
  flow : Nat := 0
  indent : Int := -1
  indents : List Int := []
  keyAllowed : Bool := true
  places : List (Nat × KeyPlace) := []

namespace Scan

open Token (malformed)

/-- Adds a token. -/
def emit (s : Scan) (t : Token) : Scan :=
  { s with reversed := t :: s.reversed, count := s.count + 1 }

/-- Goes on at a later cursor. -/
def goto (s : Scan) (cursor : Cursor) : Scan := { s with cursor }

/-- Whether a place is too far back to begin a key here: on another line or too many characters
away. -/
def isStale (s : Scan) (place : KeyPlace) : Bool :=
  place.line ≠ s.cursor.line || 1024 < s.cursor.index - place.index

/-- Forgets the places that are too far back; one where a key had to begin is an error. -/
def dropStale (s : Scan) : Reading Scan :=
  if s.places.any fun (_, place) => place.required && s.isStale place then malformed
  else .ok { s with places := s.places.filter fun (_, place) => !s.isStale place }

/-- Forgets the place on the present level. -/
def dropPlace (s : Scan) : Reading Scan :=
  if s.places.any fun (level, place) => level = s.flow && place.required then malformed
  else .ok { s with places := s.places.filter fun (level, _) => level ≠ s.flow }

/-- Notes that a key may begin here. -/
def savePlace (s : Scan) : Reading Scan :=
  if s.keyAllowed then do
    let s ← s.dropPlace
    let c := s.cursor
    let required := s.flow = 0 && s.indent = c.column
    let place : KeyPlace := ⟨s.count, required, c.index, c.line, c.column⟩
    return { s with places := (s.flow, place) :: s.places }
  else .ok s

/-- Ends the blocks that are indented further than a column. -/
def closeBlocks (column : Int) : List Int → Scan → Scan
  | [], s => s
  | outer :: rest, s =>
    if column < s.indent then
      closeBlocks column rest { s.emit .blockEnd with indent := outer, indents := rest }
    else s

/-- Ends the blocks that are indented further than a column, outside flow collections. -/
def unwind (s : Scan) (column : Int) : Scan :=
  if s.flow = 0 then closeBlocks column s.indents s else s

/-- Whether a block would begin at a column. -/
def deepens (s : Scan) (column : Nat) : Bool := s.indent < column

/-- Begins a block at a column. -/
def deepen (s : Scan) (column : Nat) : Scan :=
  { s with indents := s.indent :: s.indents, indent := column }

/-- Begins a block of a kind at the present column, unless one is open there. -/
def beginBlock (s : Scan) (start : Token) : Scan :=
  if s.deepens s.cursor.column then (s.deepen s.cursor.column).emit start else s

/-- Skips blanks, comments and line ends; after a line end a key may begin. -/
def skipToToken : Nat → Scan → Scan
  | 0, s => s
  | fuel + 1, s =>
    let c := s.cursor.skipSpaces.skipComment
    let (ended, c') := c.lineEnd
    if ended.isEmpty then s.goto c
    else skipToToken fuel { s.goto c' with keyAllowed := s.keyAllowed || s.flow = 0 }

/-- Adds a token that a fixed mark stands for, behind which keys are allowed or not. -/
def mark (s : Scan) (t : Token) (length : Nat) (keyAllowed : Bool) : Scan :=
  { (s.emit t).goto (s.cursor.skip length) with keyAllowed }

/-- A mark or directive that ends every open block. -/
def atMargin (s : Scan) : Reading Scan := do
  let s ← (s.unwind (-1)).dropPlace
  return { s with keyAllowed := false }

/-- The start of a flow collection. -/
def openFlow (s : Scan) (t : Token) : Reading Scan := do
  let s ← s.savePlace
  return { s with flow := s.flow + 1 }.mark t 1 true

/-- The end of a flow collection. -/
def closeFlow (s : Scan) (t : Token) : Reading Scan := do
  let s ← s.dropPlace
  if s.flow = 0 then malformed
  return { s with flow := s.flow - 1 }.mark t 1 false

/-- The mark of an entry or of a key in a block, where one may begin. -/
def blockMark (s : Scan) (start t : Token) (keyAllowed : Bool) : Reading Scan := do
  let s ← if s.flow = 0 then
      if s.keyAllowed then pure (s.beginBlock start) else malformed
    else pure s
  let s ← s.dropPlace
  return s.mark t 1 keyAllowed

/-- The mark of a value: it makes a key of what began at the place on this level. -/
def valueMark (s : Scan) : Reading Scan :=
  match s.places.find? fun (level, _) => level = s.flow with
  | some (_, place) =>
    let s := { s with places := s.places.filter fun (level, _) => level ≠ s.flow }
    let begins := s.flow = 0 && s.deepens place.column
    let s := if begins then s.deepen place.column else s
    .ok ({ s with openings := ⟨place.position, begins⟩ :: s.openings }.mark .value 1 false)
  | none => s.blockMark .blockMappingStart .value (s.flow = 0)

/-- Adds what a reader has read, where a key may have begun. -/
def read (s : Scan) (reader : Cursor → Reading (Token × Cursor)) : Reading Scan := do
  let s ← s.savePlace
  let (t, c) ← reader s.cursor
  return { (s.emit t).goto c with keyAllowed := false }

/-- Adds a block scalar. -/
def readBlock (s : Scan) (folded : Bool) : Reading Scan := do
  let s ← s.dropPlace
  let (t, c) ← Token.readBlock folded s.indent s.cursor
  return { (s.emit t).goto c with keyAllowed := true }

/-- Adds a plain scalar. -/
def readPlain (s : Scan) : Reading Scan := do
  let s ← s.savePlace
  let (t, ended, c) := Token.readPlain (s.flow ≠ 0) s.indent s.cursor
  return { (s.emit t).goto c with keyAllowed := ended }

/-- Adds the token at the cursor, which is not at the end. -/
def readToken (s : Scan) (ch : Char) (rest : List Char) : Reading Scan :=
  let free := s.flow ≠ 0 || endsWith isWhite rest
  if s.cursor.column = 0 && ch = '%' then do
    let s ← s.atMargin
    let (t, c) ← Token.readDirective s.cursor
    return (s.emit t).goto c
  else if s.cursor.column = 0 && s.cursor.atMarker then do
    let s ← s.atMargin
    return s.mark (if ch = '-' then .documentStart else .documentEnd) 3 false
  else if ch = '[' then s.openFlow .flowSequenceStart
  else if ch = '\x7b' then s.openFlow .flowMappingStart
  else if ch = ']' then s.closeFlow .flowSequenceEnd
  else if ch = '\x7d' then s.closeFlow .flowMappingEnd
  else if ch = ',' then do
    let s ← s.dropPlace
    return s.mark .flowEntry 1 true
  else if ch = '-' && endsWith isWhite rest then s.blockMark .blockSequenceStart .blockEntry true
  else if ch = '?' && free then s.blockMark .blockMappingStart .key (s.flow = 0)
  else if ch = ':' && free then s.valueMark
  else if ch = '*' then s.read fun c => do
    let (name, c) ← Token.anchorName c
    return (.alias name, c)
  else if ch = '&' then s.read fun c => do
    let (name, c) ← Token.anchorName c
    return (.anchor name, c)
  else if ch = '!' then s.read Token.readTag
  else if ch = '|' && s.flow = 0 then s.readBlock false
  else if ch = '>' && s.flow = 0 then s.readBlock true
  else if ch = '\'' then s.read (Token.readQuoted false)
  else if ch = '"' then s.read (Token.readQuoted true)
  else if Token.startsPlain (s.flow ≠ 0) (ch :: rest) then s.readPlain
  else malformed

/-- Goes through the text, adding a token at each round. -/
def run : Nat → Scan → Reading Scan
  | 0, _ => malformed
  | fuel + 1, s => do
    let s := skipToToken (s.cursor.rest.length + 1) s
    let s ← s.dropStale
    let s := s.unwind s.cursor.column
    match s.cursor.rest with
    | [] => do
      let s ← s.atMargin
      return s.emit .streamEnd
    | ch :: rest => run fuel (← s.readToken ch rest)

/-- Puts the openings before the tokens at their positions. -/
def weave (openings : List Opening) : Nat → List Token → List Token
  | _, [] => []
  | i, t :: ts =>
    let opened := match openings.find? fun o => o.position = i with
      | some o => if o.beginsMapping then [Token.blockMappingStart, .key] else [.key]
      | none => []
    opened ++ t :: weave openings (i + 1) ts

end Scan

/-- The characters that a document may hold. -/
def isPrintable (c : Char) : Bool :=
  let n := c.toNat
  c = '\t' || c = '\n' || c = '\r' || (0x20 ≤ n && n ≤ 0x7e) || n = 0x85
    || (0xa0 ≤ n && n ≤ 0xd7ff) || (0xe000 ≤ n && n ≤ 0xfffd) || 0x10000 ≤ n

/-- The tokens of a document. -/
def tokens (text : List Char) : Reading (List Token) := do
  if !text.all isPrintable then Token.malformed
  let start : Cursor := match text with
    | '\ufeff' :: rest => { rest, index := 1 }
    | rest => { rest }
  let s ← Scan.run (text.length + 2) { cursor := start }
  return Scan.weave s.openings 0 s.reversed.reverse

end AppBroker.Yaml
