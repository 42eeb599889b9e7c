import AppBroker.Error
import AppBroker.Yaml.Cursor

/-!
# Tokens of a document

A document is cut into tokens: scalars, anchors, aliases and tags, the marks of flow collections,
and marks for where block collections begin and end, which the text shows by indentation only.
This module has the tokens and the readers of those that take more than a fixed mark: scalars in
their five styles, names, tags and directives.
-/

namespace AppBroker.Yaml

/-- What is read from a document, unless the reading breaks. A document is never refused. -/
abbrev Reading (α : Type) := Except Breakage α

/-- Text that may be written with halves of surrogate pairs, in which case it is not well formed. -/
structure Content where
  chars : List Char
  wellFormed : Bool := true
  deriving DecidableEq, Repr

/-- A token. A tag has a handle, unless it is written in full, and a suffix. -/
inductive Token where
  | versionDirective (major : Nat)
  | tagDirective (handle tagStart : List Char)
  | otherDirective
  | documentStart | documentEnd
  | blockSequenceStart | blockMappingStart | blockEnd
  | flowSequenceStart | flowSequenceEnd | flowMappingStart | flowMappingEnd
  | key | value | blockEntry | flowEntry
  | alias (name : List Char)
  | anchor (name : List Char)
  | tag (handle : Option (List Char)) (suffix : List Char)
  | scalar (text : Content) (plain : Bool)
  | streamEnd
  deriving DecidableEq, Repr

namespace Token

/-- Ends the reading of a text that is no document. -/
def malformed {α : Type} : Reading α := .error .malformedYaml

/-- Letters, digits, the hyphen and the underscore. -/
def isWordChar (c : Char) : Bool :=
  ('0' ≤ c && c ≤ '9') || ('A' ≤ c && c ≤ 'Z') || ('a' ≤ c && c ≤ 'z') || c = '-' || c = '_'

/-- The characters of a tag. -/
def isTagChar (c : Char) : Bool :=
  isWordChar c || c ∈ [';', '/', '?', ':', '@', '&', '=', '+', '$', ',', '.', '!', '~', '*',
    '\'', '(', ')', '[', ']', '%']

/-- The value of a hexadecimal digit. -/
def hexValue? (c : Char) : Option Nat :=
  if '0' ≤ c ∧ c ≤ '9' then some (c.toNat - 48)
  else if 'a' ≤ c ∧ c ≤ 'f' then some (c.toNat - 87)
  else if 'A' ≤ c ∧ c ≤ 'F' then some (c.toNat - 55)
  else none

/-- The number that hexadecimal digits write. -/
def ofHex? (cs : List Char) : Option Nat :=
  (cs.mapM hexValue?).map fun ds => ds.foldl (fun n d => 16 * n + d) 0

/-- Reads the name of an anchor or an alias, which stand after a one character mark. -/
def anchorName (c : Cursor) : Reading (List Char × Cursor) := do
  let (name, c) := c.next.span isWordChar
  let closes (ch : Char) : Bool :=
    isWhite ch || ch ∈ ['?', ':', ',', ']', '\x7d', '%', '@', '`']
  if name.isEmpty || !endsWith closes c.rest then malformed
  return (name, c)

/-- Reads the characters of a tag; a percent sign and two hexadecimal digits stand for a byte. -/
def tagChars : Nat → List UInt8 → List Char → Cursor → Reading (List Char × Cursor)
  | 0, _, _, _ => malformed
  | fuel + 1, bytes, read, c =>
    let flush : Reading (List Char) :=
      if bytes.isEmpty then .ok read
      else match String.fromUTF8? (ByteArray.mk bytes.reverse.toArray) with
        | some s => .ok (s.toList.reverse ++ read)
        | none => malformed
    match c.rest with
    | '%' :: a :: b :: _ =>
      match hexValue? a, hexValue? b with
      | some a, some b => tagChars fuel (UInt8.ofNat (16 * a + b) :: bytes) read (c.skip 3)
      | _, _ => malformed
    | ch :: _ => do
      let read ← flush
      if ch = '%' then malformed
      else if isTagChar ch then tagChars fuel [] (ch :: read) c.next
      else return (read.reverse, c)
    | [] => do
      let read ← flush
      return (read.reverse, c)

/-- Reads the part of a tag that must not be empty. -/
def tagSuffix (c : Cursor) : Reading (List Char × Cursor) := do
  let (suffix, c) ← tagChars (c.rest.length + 1) [] [] c
  if suffix.isEmpty then malformed
  return (suffix, c)

/-- Reads a tag handle: `!`, `!!` or a name between exclamation marks. -/
def tagHandle (c : Cursor) : Reading (List Char × Cursor) :=
  match c.rest with
  | '!' :: ' ' :: _ => .ok (['!'], c.next)
  | '!' :: _ =>
    let (name, c') := c.next.span isWordChar
    match c'.rest with
    | '!' :: _ => .ok ('!' :: name ++ ['!'], c'.next)
    | _ => malformed
  | _ => malformed

/-- Reads a tag. -/
def readTag (c : Cursor) : Reading (Token × Cursor) := do
  let (token, c) ← match c.rest with
    | _ :: '<' :: _ => do
      let (suffix, c) ← tagSuffix (c.skip 2)
      match c.rest with
      | '>' :: _ => pure (tag none suffix, c.next)
      | _ => malformed
    | _ :: rest =>
      if endsWith isWhite rest then pure (tag none ['!'], c.next)
      else do
        let word := rest.takeWhile fun ch => !(ch = ' ' || isBreak ch)
        let (handle, c) ← if '!' ∈ word then tagHandle c else pure (['!'], c.next)
        let (suffix, c) ← tagSuffix c
        pure (tag (some handle) suffix, c)
    | [] => malformed
  if !endsWith (fun ch => ch = ' ' || isBreak ch) c.rest then malformed
  return (token, c)

/-- Skips to the end of a line that may hold only a comment. -/
def endOfLine (c : Cursor) : Reading Cursor := do
  let c := c.skipSpaces.skipComment
  if !c.atLineEnd then malformed
  return c.lineEnd.2

/-- Reads a directive, which stands after a percent sign. -/
def readDirective (c : Cursor) : Reading (Token × Cursor) := do
  let ends := endsWith fun ch => ch = ' ' || isBreak ch
  let (name, c) := c.next.span isWordChar
  if name.isEmpty || !ends c.rest then malformed
  let (token, c) ←
    if name = "YAML".toList then do
      let (major, c) := c.skipSpaces.span Char.isDigit
      let c ← match c.rest with
        | '.' :: _ => pure c.next
        | _ => malformed
      let (minor, c) := c.span Char.isDigit
      if major.isEmpty || minor.isEmpty || !ends c.rest then malformed
      pure (versionDirective (major.foldl (fun n ch => 10 * n + (ch.toNat - 48)) 0), c)
    else if name = "TAG".toList then do
      let (handle, c) ← tagHandle c.skipSpaces
      match c.rest with
      | ' ' :: _ => pure ()
      | _ => malformed
      let (start, c) ← tagSuffix c.skipSpaces
      if !ends c.rest then malformed
      pure (tagDirective handle start, c)
    else pure (otherDirective, (c.span fun ch => !isBreak ch).2)
  let c ← endOfLine c
  return (token, c)

/-! ## Quoted scalars -/

/-- What a backslash and one character stand for. -/
def escape? (c : Char) : Option Char :=
  match c with
  | '0' => some '\x00' | 'a' => some '\x07' | 'b' => some '\x08' | 't' => some '\t'
  | '\t' => some '\t' | 'n' => some '\n' | 'v' => some '\x0b' | 'f' => some '\x0c'
  | 'r' => some '\r' | 'e' => some '\x1b' | ' ' => some ' ' | '"' => some '"'
  | '\\' => some '\\' | '/' => some '/' | 'N' => some '\x85' | '_' => some '\xa0'
  | 'L' => some '\u2028' | 'P' => some '\u2029' | _ => none

/-- How many hexadecimal digits follow a backslash and one character. -/
def escapeWidth? (c : Char) : Option Nat :=
  match c with
  | 'x' => some 2 | 'u' => some 4 | 'U' => some 8 | _ => none

/-- Line ends and blanks between two lines of a quoted scalar; the answer is the line ends. -/
def quotedBreaks : Nat → List Char → Cursor → Reading (List Char × Cursor)
  | 0, _, _ => malformed
  | fuel + 1, breaks, c => do
    if c.atMarker then malformed
    let c := (c.span fun ch => ch = ' ' || ch = '\t').2
    let (ended, c') := c.lineEnd
    if ended.isEmpty then return (breaks, c) else quotedBreaks fuel (breaks ++ ended) c'

/-- What blanks inside a quoted scalar stand for: on one line themselves, and a line end for a
space unless more line ends follow. -/
def quotedBlanks (c : Cursor) : Reading (List Char × Cursor) := do
  let (blanks, c) := c.span fun ch => ch = ' ' || ch = '\t'
  if c.rest.isEmpty then malformed
  let (ended, c') := c.lineEnd
  if ended.isEmpty then return (blanks, c)
  let (breaks, c) ← quotedBreaks (c'.rest.length + 1) [] c'
  if ended ≠ ['\n'] then return (ended ++ breaks, c)
  else if breaks.isEmpty then return ([' '], c)
  else return (breaks, c)

/-- The second half of a surrogate pair, if an escape writes one. -/
def secondHalf? : List Char → Option Nat
  | '\\' :: 'u' :: cs => (ofHex? (cs.take 4)).filter fun n => 0xdc00 ≤ n && n < 0xe000
  | _ => none

/-- What halves of surrogate pairs are shown as, and how many characters write them. -/
def readHalves (n width : Nat) (following : List Char) : Char × Nat :=
  match secondHalf? following with
  | some low =>
    if n < 0xdc00 then (Char.ofNat (0x10000 + (n - 0xd800) * 0x400 + (low - 0xdc00)), width + 7)
    else ('\ufffd', width + 1)
  | none => ('\ufffd', width + 1)

/-- Reads an escape, which stands after a backslash in a scalar with double quotes. The answer is
reversed, and says whether it is well formed. -/
def readEscape (c : Cursor) : Reading (List Char × Bool × Cursor) :=
  match c.rest with
  | [] => malformed
  | ch :: rest =>
    match escape? ch with
    | some d => .ok ([d], true, c.next)
    | none =>
      match escapeWidth? ch with
      | some width =>
        let digits := rest.take width
        if digits.length < width then malformed
        else match ofHex? digits with
          | none => malformed
          | some n =>
            if 0x110000 ≤ n then .error .badValue
            else if 0xd800 ≤ n && n < 0xe000 then
              let (shown, count) := readHalves n width (rest.drop width)
              .ok ([shown], false, c.skip count)
            else .ok ([Char.ofNat n], true, c.skip (width + 1))
      | none => do
        let (ended, c') := c.lineEnd
        if ended.isEmpty then malformed
        let (breaks, c) ← quotedBreaks (c'.rest.length + 1) [] c'
        return (breaks.reverse, true, c)

/-- Reads the inside of a quoted scalar up to its closing quote; `read` is reversed. -/
def quoted (double : Bool) : Nat → List Char → Bool → Cursor → Reading (Content × Cursor)
  | 0, _, _, _ => malformed
  | fuel + 1, read, sound, c =>
    match c.rest with
    | [] => malformed
    | ch :: rest =>
      if ch = ' ' || ch = '\t' || isBreak ch then do
        let (blanks, c) ← quotedBlanks c
        quoted double fuel (blanks.reverse ++ read) sound c
      else if double then
        if ch = '"' then .ok (⟨read.reverse, sound⟩, c.next)
        else if ch = '\\' then do
          let (chars, ok, c) ← readEscape c.next
          quoted double fuel (chars ++ read) (sound && ok) c
        else quoted double fuel (ch :: read) sound c.next
      else if ch = '\'' then
        if rest.head? = some '\'' then quoted double fuel ('\'' :: read) sound (c.skip 2)
        else .ok (⟨read.reverse, sound⟩, c.next)
      else quoted double fuel (ch :: read) sound c.next

/-- Reads a quoted scalar. -/
def readQuoted (double : Bool) (c : Cursor) : Reading (Token × Cursor) := do
  let (text, c) ← quoted double (c.rest.length + 1) [] true c.next
  return (scalar text false, c)

/-! ## Block scalars -/

/-- What happens to the line ends at the end of a block scalar. -/
inductive Chomping where
  | strip | clip | keep
  deriving DecidableEq

/-- Reads the indicators of a block scalar: how it ends and how far it is indented. -/
def blockIndicators (c : Cursor) : Reading (Chomping × Option Nat × Cursor) := do
  let chomping (c : Cursor) : Chomping × Cursor :=
    match c.rest with
    | '+' :: _ => (.keep, c.next)
    | '-' :: _ => (.strip, c.next)
    | _ => (.clip, c)
  let increment (c : Cursor) : Reading (Option Nat × Cursor) :=
    match c.rest with
    | ch :: _ =>
      if ch = '0' then malformed
      else if ch.isDigit then .ok (some (ch.toNat - 48), c.next)
      else .ok (none, c)
    | [] => .ok (none, c)
  let (first, c) := chomping c
  let (width, c) ← increment c
  let (last, c) := if first = .clip && width.isSome then chomping c else (first, c)
  if !endsWith (fun ch => ch = ' ' || isBreak ch) c.rest then malformed
  return (last, width, c)

/-- Skips the blank lines before a block scalar and finds its indentation. -/
def blockIndentation : Nat → List Char → Nat → Cursor → List Char × Nat × Cursor
  | 0, breaks, widest, c => (breaks, widest, c)
  | fuel + 1, breaks, widest, c =>
    match c.rest with
    | ' ' :: _ =>
      let c := c.next
      blockIndentation fuel breaks (max widest c.column) c
    | _ =>
      let (ended, c') := c.lineEnd
      if ended.isEmpty then (breaks, widest, c)
      else blockIndentation fuel (breaks ++ ended) widest c'

/-- Skips the blank lines inside a block scalar, and the indentation of the next line. -/
def blockBreaks (indent : Nat) : Nat → List Char → Cursor → List Char × Cursor
  | 0, breaks, c => (breaks, c)
  | fuel + 1, breaks, c =>
    let c := c.indent indent
    let (ended, c') := c.lineEnd
    if ended.isEmpty then (breaks, c) else blockBreaks indent fuel (breaks ++ ended) c'

/-- Reads the lines of a block scalar: what was read, the last line end, and the line ends after
it. -/
def blockLines (folded : Bool) (indent : Nat) :
    Nat → List Char → List Char → Cursor → List Char × List Char × List Char × Cursor
  | 0, read, breaks, c => (read, [], breaks, c)
  | fuel + 1, read, breaks, c =>
    if c.column ≠ indent || c.rest.isEmpty then (read, [], breaks, c)
    else
      let startsBlank (c : Cursor) : Bool :=
        c.rest.head? = some ' ' || c.rest.head? = some '\t'
      let filled := !startsBlank c
      let (line, c) := c.span fun ch => !isBreak ch
      let read := read ++ breaks ++ line
      let (ended, c) := c.lineEnd
      let (breaks, c) := blockBreaks indent (c.rest.length + 1) [] c
      if c.column = indent && !c.rest.isEmpty then
        let joint :=
          if folded && ended = ['\n'] && filled && !startsBlank c then
            if breaks.isEmpty then [' '] else []
          else ended
        blockLines folded indent fuel (read ++ joint) breaks c
      else (read, ended, breaks, c)

/-- Reads a block scalar inside a block that is indented by `parent`. -/
def readBlock (folded : Bool) (parent : Int) (c : Cursor) : Reading (Token × Cursor) := do
  let (chomping, width, c) ← blockIndicators c.next
  let c ← endOfLine c
  let least := (max (parent + 1) 1).toNat
  let fuel := c.rest.length + 1
  let (breaks, indent, c) := match width with
    | none =>
      let (breaks, widest, c) := blockIndentation fuel [] 0 c
      (breaks, max least widest, c)
    | some width =>
      let indent := least + width - 1
      let (breaks, c) := blockBreaks indent fuel [] c
      (breaks, indent, c)
  let (read, ended, breaks, c) := blockLines folded indent fuel [] breaks c
  let chars := match chomping with
    | .strip => read
    | .clip => read ++ ended
    | .keep => read ++ ended ++ breaks
  return (scalar ⟨chars, true⟩ false, c)

/-! ## Plain scalars -/

/-- Whether a plain scalar may start here. -/
def startsPlain (inFlow : Bool) : List Char → Bool
  | [] => false
  | c :: rest =>
    !(isWhite c || c ∈ ['-', '?', ':', ',', '[', ']', '\x7b', '\x7d', '#', '&', '*', '!', '|', '>',
        '\'', '"', '%', '@', '`'])
      || (!endsWith isWhite rest && (c = '-' || (!inFlow && (c = '?' || c = ':'))))

/-- The marks of flow collections. -/
def isFlowMark (c : Char) : Bool :=
  c = ',' || c = '[' || c = ']' || c = '\x7b' || c = '\x7d'

/-- The length of the part of a plain scalar that has no blanks. -/
def plainRun (inFlow : Bool) : List Char → Nat
  | [] => 0
  | c :: rest =>
    if isWhite c || (c = ':' && endsWith (fun d => isWhite d || (inFlow && isFlowMark d)) rest)
      || (inFlow && (isFlowMark c || c = '?')) then 0
    else plainRun inFlow rest + 1

/-- Line ends and spaces between two lines of a plain scalar; nothing if a marker comes. -/
def plainBreaks : Nat → List Char → Cursor → Option (List Char) × Cursor
  | 0, breaks, c => (some breaks, c)
  | fuel + 1, breaks, c =>
    match c.rest with
    | ' ' :: _ => plainBreaks fuel breaks c.next
    | _ =>
      let (ended, c') := c.lineEnd
      if ended.isEmpty then (some breaks, c)
      else if c'.atMarker then (none, c')
      else plainBreaks fuel (breaks ++ ended) c'

/-- What blanks inside a plain scalar stand for, and whether a line ended. -/
def plainBlanks (c : Cursor) : List Char × Bool × Cursor :=
  let (blanks, c) := c.span (· = ' ')
  let (ended, c') := c.lineEnd
  if ended.isEmpty then (blanks, false, c)
  else if c'.atMarker then ([], true, c')
  else
    match plainBreaks (c'.rest.length + 1) [] c' with
    | (none, c) => ([], true, c)
    | (some breaks, c) =>
      if ended ≠ ['\n'] then (ended ++ breaks, true, c)
      else if breaks.isEmpty then ([' '], true, c)
      else (breaks, true, c)

/-- Reads a plain scalar; the answer also says whether a line ended after its last word. -/
def plainWords (inFlow : Bool) (indent : Int) :
    Nat → List Char → List Char → Bool → Cursor → List Char × Bool × Cursor
  | 0, read, _, ended, c => (read, ended, c)
  | fuel + 1, read, blanks, ended, c =>
    if c.rest.head? = some '#' then (read, ended, c)
    else
      let length := plainRun inFlow c.rest
      if length = 0 then (read, ended, c)
      else
        let read := read ++ blanks ++ c.rest.take length
        let (blanks, ended, c) := plainBlanks (c.skip length)
        if blanks.isEmpty || c.rest.head? = some '#' || (!inFlow && (c.column : Int) < indent) then
          (read, ended, c)
        else plainWords inFlow indent fuel read blanks ended c

/-- Reads a plain scalar inside a block that is indented by `parent`. -/
def readPlain (inFlow : Bool) (parent : Int) (c : Cursor) : Token × Bool × Cursor :=
  let (chars, ended, c) := plainWords inFlow (parent + 1) (c.rest.length + 1) [] [] false c
  (scalar ⟨chars, true⟩ true, ended, c)

end Token

end AppBroker.Yaml
