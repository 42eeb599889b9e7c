import AppBroker.Yaml.Node

/-!
# Writing documents

A document is written in block style, two columns to a level, with sequences at the indentation of
their key. Text is written plain if that reads back as the same text, else between single quotes,
else between double quotes with escapes; only ASCII is written. Beyond column 80 text is broken at
a single space.
-/

namespace AppBroker.Yaml

/-- What can be written. -/
inductive Document where
  | text (s : String)
  | number (n : Int)
  | list (items : List Document)
  | map (entries : List (String × Document))
  deriving Repr

namespace Print

/-- A sheet that is being written: the characters so far in reverse, the column, whether a blank
was written last, and whether the line holds nothing but indentation and marks. -/
structure Sheet where
  reversed : List Char := []
  column : Nat := 0
  blank : Bool := true
  margin : Bool := true

/-- Where lines are broken. -/
def width : Nat := 80

/-- Adds characters. -/
def Sheet.put (s : Sheet) (cs : List Char) : Sheet :=
  { s with reversed := cs.reverse ++ s.reversed, column := s.column + cs.length }

/-- Ends the line. -/
def Sheet.endLine (s : Sheet) (c : Char) : Sheet :=
  ⟨c :: s.reversed, 0, true, true⟩

/-- Goes to an indentation, on a new line unless the line is still at its margin. -/
def Sheet.indentTo (s : Sheet) (indent : Nat) : Sheet :=
  let s := if !s.margin || indent < s.column || (s.column = indent && !s.blank) then s.endLine '\n'
    else s
  if s.column < indent then
    { s.put (List.replicate (indent - s.column) ' ') with blank := true }
  else s

/-- Adds a mark, after a blank if it needs one. -/
def Sheet.mark (s : Sheet) (mark : String) (needsBlank leavesBlank keepsMargin : Bool) : Sheet :=
  let s' := if s.blank || !needsBlank then s else s.put [' ']
  { s'.put mark.toList with blank := leavesBlank, margin := s.margin && keepsMargin }

/-! ## Styles of text -/

/-- Line ends inside text. -/
def isTextBreak (c : Char) : Bool := c = '\n' || c = '\x85' || c = '\u2028' || c = '\u2029'

/-- What decides how a text can be written. -/
structure Analysis where
  isEmpty : Bool
  multiline : Bool
  plain : Bool
  singleQuoted : Bool

/-- Whether a character needs double quotes. -/
def isSpecial (c : Char) : Bool := !(c = '\n' || (0x20 ≤ c.toNat && c.toNat ≤ 0x7e))

/-- Whether a character at some place of a text would be taken for a mark in a block. -/
def isBlockMark (first afterBlank beforeBlank : Bool) (c : Char) : Bool :=
  if first then
    c ∈ ['#', ',', '[', ']', '\x7b', '\x7d', '&', '*', '!', '|', '>', '\'', '"', '%', '@', '`']
      || (beforeBlank && (c = '?' || c = ':' || c = '-'))
  else (c = ':' && beforeBlank) || (c = '#' && afterBlank)

/-- Whether any character of a text would be taken for a mark. -/
def hasBlockMark : Bool → Bool → List Char → Bool
  | _, _, [] => false
  | first, afterBlank, c :: rest =>
    isBlockMark first afterBlank (endsWith isWhite rest) c
      || hasBlockMark false (isWhite c) rest

/-- Whether a character of one class follows one of another. -/
def follows (p q : Char → Bool) : List Char → Bool
  | a :: b :: rest => (p a && q b) || follows p q (b :: rest)
  | _ => false

/-- Looks at a text. -/
def analyze (cs : List Char) : Analysis :=
  let isSpace (c : Char) : Bool := c = ' '
  let atEnds (p : Char → Bool) : Bool :=
    (cs.head?.map p).getD false || (cs.getLast?.map p).getD false
  let lineBreaks := cs.any isTextBreak
  let spacedBreak := follows isSpace isTextBreak cs || cs.any isSpecial
  let brokenSpace := follows isTextBreak isSpace cs
  let marks := "---".toList.isPrefixOf cs || "...".toList.isPrefixOf cs || hasBlockMark true true cs
  { isEmpty := cs.isEmpty
    multiline := lineBreaks
    plain := !(atEnds isSpace || atEnds isTextBreak || brokenSpace || spacedBreak || lineBreaks
      || marks)
    singleQuoted := !(brokenSpace || spacedBreak) }

/-- Cuts a text into runs of spaces, of line ends and of other characters. -/
def runs : List Char → List (List Char)
  | [] => []
  | c :: rest =>
    let sort (c : Char) : Nat := if c = ' ' then 0 else if isTextBreak c then 1 else 2
    match runs rest with
    | (d :: ds) :: more =>
      if sort c = sort d then (c :: d :: ds) :: more else [c] :: (d :: ds) :: more
    | more => [c] :: more

/-- Writes plain text. -/
def plain (split : Bool) (indent : Nat) (s : Sheet) (cs : List Char) : Sheet :=
  let s := if s.blank then s else s.put [' ']
  (runs cs).foldl (fun s run =>
    if run = [' '] && width < s.column && split then
      { s.indentTo indent with blank := false, margin := false }
    else s.put run) { s with blank := false, margin := false }

/-- Writes the runs of text between single quotes; `first` tells the first run. -/
def singleRuns (split : Bool) (indent : Nat) : Bool → List (List Char) → Sheet → Sheet
  | _, [], s => s
  | first, run :: rest, s =>
    let s := match run with
      | ' ' :: _ =>
        if run = [' '] && width < s.column && split && !first && !rest.isEmpty then
          s.indentTo indent
        else s.put run
      | c :: _ =>
        if isTextBreak c then
          let s := if c = '\n' then s.endLine '\n' else s
          (run.foldl Sheet.endLine s).indentTo indent
        else s.put (run.flatMap fun c => if c = '\'' then ['\'', '\''] else [c])
      | [] => s
    singleRuns split indent false rest s

/-- Writes text between single quotes. -/
def single (split : Bool) (indent : Nat) (s : Sheet) (cs : List Char) : Sheet :=
  (singleRuns split indent true (runs cs) (s.mark "'" true false false)).mark "'" false false false

/-- Hexadecimal digits in upper case. -/
def hex (count n : Nat) : List Char :=
  let digits := (Nat.toDigits 16 n).map Char.toUpper
  List.replicate (count - digits.length) '0' ++ digits

/-- The escape of a character between double quotes, if it needs one. -/
def escape? (c : Char) : Option (List Char) :=
  let short : List (Char × Char) :=
    [('\x00', '0'), ('\x07', 'a'), ('\x08', 'b'), ('\t', 't'), ('\n', 'n'), ('\x0b', 'v'),
     ('\x0c', 'f'), ('\r', 'r'), ('\x1b', 'e'), ('"', '"'), ('\\', '\\'), ('\x85', 'N'),
     ('\xa0', '_'), ('\u2028', 'L'), ('\u2029', 'P')]
  match short.find? (·.1 = c) with
  | some (_, e) => some ['\\', e]
  | none =>
    if 0x20 ≤ c.toNat && c.toNat ≤ 0x7e then none
    else if c.toNat ≤ 0xff then some ('\\' :: 'x' :: hex 2 c.toNat)
    else if c.toNat ≤ 0xffff then some ('\\' :: 'u' :: hex 4 c.toNat)
    else some ('\\' :: 'U' :: hex 8 c.toNat)

/-- Writes text between double quotes: `place` characters of `length` are done, and `pending` has
those that are not written yet, in reverse. -/
def doubleChars (split : Bool) (indent length : Nat) :
    List Char → Nat → List Char → Sheet → Sheet
  | [], _, pending, s => s.put pending.reverse
  | c :: rest, place, pending, s =>
    let inside := 0 < place && place + 1 < length && split
    match escape? c with
    | some e =>
      let s := (s.put pending.reverse).put e
      let s := if inside && width + 1 < s.column then
          let s := { (s.put ['\\']).indentTo indent with blank := false, margin := false }
          if rest.head? = some ' ' then s.put ['\\'] else s
        else s
      doubleChars split indent length rest (place + 1) [] s
    | none =>
      if inside && (c = ' ' || pending.isEmpty) && width < s.column + pending.length then
        let s := (s.put pending.reverse).put ['\\']
        let s := { s.indentTo indent with blank := false, margin := false }
        let s := if c = ' ' then s.put ['\\'] else s
        doubleChars split indent length rest (place + 1) [c] s
      else doubleChars split indent length rest (place + 1) (c :: pending) s

/-- Writes text between double quotes. -/
def double (split : Bool) (indent : Nat) (s : Sheet) (cs : List Char) : Sheet :=
  (doubleChars split indent cs.length cs 0 [] (s.mark "\"" true false false)).mark "\"" false false
    false

/-- Writes text, as the key of an entry or as a value. -/
def text (isKey : Bool) (indent : Nat) (s : Sheet) (value : String) : Sheet :=
  let cs := value.toList
  let a := analyze cs
  if suggested true cs = .str && a.plain && !(isKey && (a.isEmpty || a.multiline)) then
    plain (!isKey) indent s cs
  else if a.singleQuoted && !(isKey && a.multiline) then single (!isKey) indent s cs
  else double (!isKey) indent s cs

/-- Whether a key is short enough to stand before its colon. -/
def isSimpleKey (key : String) : Bool :=
  let a := analyze key.toList
  key.length < 123 && !a.isEmpty && !a.multiline

/-- The indentation inside a collection or a scalar. -/
def deeper : Option Nat → Nat
  | none => 0
  | some n => n + 2

mutual

/-- Writes a document at an indentation. -/
def document (indent : Option Nat) (inMapping : Bool) (s : Sheet) : Document → Sheet
  | .text value => text false (indent.getD 0 + 2) s value
  | .number n => plain true (indent.getD 0 + 2) s (toString n).toList
  | .list [] => (s.mark "[" true true false).mark "]" false false false
  | .list (item :: rest) =>
    let indent := if inMapping && !s.margin then indent.getD 0 else deeper indent
    items indent s (item :: rest)
  | .map [] => (s.mark "\x7b" true true false).mark "\x7d" false false false
  | .map (entry :: rest) => entries (deeper indent) s (entry :: rest)

/-- Writes the items of a sequence. -/
def items (indent : Nat) (s : Sheet) : List Document → Sheet
  | [] => s
  | d :: ds =>
    let s := (s.indentTo indent).mark "-" true false true
    items indent (document (some indent) false s d) ds

/-- Writes the entries of a mapping. -/
def entries (indent : Nat) (s : Sheet) : List (String × Document) → Sheet
  | [] => s
  | (key, d) :: rest =>
    let s := s.indentTo indent
    let s :=
      if isSimpleKey key then (text true (indent + 2) s key).mark ":" false false false
      else
        let s := text false (indent + 2) (s.mark "?" true false true) key
        (s.indentTo indent).mark ":" true false true
    entries indent (document (some indent) true s d) rest

end

end Print

/-- The text of a document. -/
def print (d : Document) : String :=
  String.ofList ((Print.document none false {} d).indentTo 0).reversed.reverse

end AppBroker.Yaml
