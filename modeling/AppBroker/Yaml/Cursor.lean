/-!
# A place in a text

A cursor is the rest of a text together with how far it has come: characters read, lines begun,
and the column. A byte order mark takes no column. Every reader of the text is a function from a
cursor to a later one.
-/

namespace AppBroker.Yaml

/-- Characters that end a line. -/
def isBreak (c : Char) : Bool :=
  c = '\n' || c = '\r' || c = '\x85' || c = '\u2028' || c = '\u2029'

/-- Blanks and line ends. -/
def isWhite (c : Char) : Bool := c = ' ' || c = '\t' || isBreak c

/-- Whether the end of the text or a character of a class comes next. -/
def endsWith (p : Char → Bool) : List Char → Bool
  | [] => true
  | c :: _ => p c

/-- The rest of a text and how far it has come. -/
structure Cursor where
  rest : List Char
  index : Nat := 0
  line : Nat := 0
  column : Nat := 0
  deriving Repr

namespace Cursor

/-- The cursor behind the next character. -/
def next (c : Cursor) : Cursor :=
  match c.rest with
  | [] => c
  | ch :: rest =>
    let ends := isBreak ch && !(ch = '\r' && rest.head? = some '\n')
    if ends then ⟨rest, c.index + 1, c.line + 1, 0⟩
    else ⟨rest, c.index + 1, c.line, if ch = '\ufeff' then c.column else c.column + 1⟩

/-- The cursor behind the next `n` characters. -/
def skip (c : Cursor) : Nat → Cursor
  | 0 => c
  | n + 1 => skip c.next n

/-- The longest run of characters of a class, and the cursor behind it. -/
def span (p : Char → Bool) (c : Cursor) : List Char × Cursor :=
  let run := c.rest.takeWhile p
  (run, c.skip run.length)

/-- The cursor behind the spaces. -/
def skipSpaces (c : Cursor) : Cursor := (c.span (· = ' ')).2

/-- The cursor behind the spaces, but not beyond a column. -/
def indent (c : Cursor) (column : Nat) : Cursor :=
  c.skip (min (c.span (· = ' ')).1.length (column - c.column))

/-- A line end as it is read: a paragraph or line separator stays, and any other is a line feed.
Nothing is read where no line ends. -/
def lineEnd (c : Cursor) : List Char × Cursor :=
  match c.rest with
  | '\r' :: '\n' :: _ => (['\n'], c.skip 2)
  | ch :: _ =>
    if ch = '\n' || ch = '\r' || ch = '\x85' then (['\n'], c.next)
    else if isBreak ch then ([ch], c.next)
    else ([], c)
  | [] => ([], c)

/-- Whether a line of three dashes or three dots starts here. -/
def atMarker (c : Cursor) : Bool :=
  match c.rest with
  | '-' :: '-' :: '-' :: rest => endsWith isWhite rest
  | '.' :: '.' :: '.' :: rest => endsWith isWhite rest
  | _ => false

/-- Whether the line is at its end. -/
def atLineEnd (c : Cursor) : Bool := endsWith isBreak c.rest

/-- The cursor behind a comment, which reaches to the end of the line. -/
def skipComment (c : Cursor) : Cursor :=
  match c.rest with
  | '#' :: _ => (c.span fun ch => !isBreak ch).2
  | _ => c

end Cursor

end AppBroker.Yaml
