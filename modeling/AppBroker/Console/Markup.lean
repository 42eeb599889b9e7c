import AppBroker.Error
import AppBroker.Text.Blank

/-!
# Console markup

Tags in square brackets style the text between them and are not printed themselves. A tag with a
slash closes the last open one of its name, or just the last one; closing what is not open is an
error. Backslashes in front of a tag make it plain text, and two of them stand for one. `escape`
guards a text so that all of it is printed as it is.
-/

namespace AppBroker.Console.Markup

/-- What may stand first in a tag. -/
def opensTag (c : Char) : Bool := ('a' ≤ c && c ≤ 'z') || c = '#' || c = '/' || c = '@'

/-- A tag at the head of a text, by what is between its brackets, and what follows it. -/
def tagAt? : List Char → Option (List Char × List Char)
  | '[' :: c :: cs =>
    let body := cs.takeWhile fun d => d ≠ '[' && d ≠ ']'
    match opensTag c, cs.drop body.length with
    | true, ']' :: rest => some (c :: body, rest)
    | _, _ => none
  | _ => none

/-- Guards tags by backslashes; `slashes` is how many backslashes stand before the text. -/
def guardTags (slashes : Nat) : List Char → List Char
  | [] => []
  | c :: cs =>
    if c = '\\' then c :: guardTags (slashes + 1) cs
    else
      let guards := if (tagAt? (c :: cs)).isSome then List.replicate (slashes + 1) '\\' else []
      guards ++ c :: guardTags 0 cs

/-- Guards a text; a single backslash at its end is doubled. -/
def escape (s : String) : String :=
  let guarded := guardTags 0 s.toList
  let ends := guarded.reverse.takeWhile (· = '\\')
  String.ofList (guarded ++ if ends.length = 1 then ['\\'] else [])

/-- A part of a text: plain, or a tag by what is between its brackets. -/
inductive Piece where
  | plain (cs : List Char)
  | tag (body : List Char)
  deriving DecidableEq, Repr

/-- What backslashes and a tag after them stand for. -/
def guarded (slashes : Nat) (body : List Char) : List Piece :=
  .plain (List.replicate (slashes / 2) '\\')
    :: [if slashes % 2 = 1 then .plain ('[' :: body ++ [']']) else .tag body]

/-- Cuts a text into pieces; `run` is the plain text before it, reversed. The fuel bounds the
number of characters. -/
def piecesFrom : Nat → List Char → List Char → List Piece
  | 0, run, _ | _, run, [] => [.plain run.reverse]
  | fuel + 1, run, c :: cs =>
    let slashes := ((c :: cs).takeWhile (· = '\\')).length
    match tagAt? ((c :: cs).drop slashes) with
    | some (body, rest) => .plain run.reverse :: guarded slashes body ++ piecesFrom fuel [] rest
    | none => piecesFrom fuel (c :: run) cs

/-- The pieces of a text. -/
def pieces (cs : List Char) : List Piece := piecesFrom cs.length [] cs

/-- Plain text without the backslashes before opening brackets, and without the characters that
would move the cursor. -/
def dropGuards : List Char → List Char
  | '\\' :: '[' :: cs => '[' :: dropGuards cs
  | c :: cs => if c.toNat ∈ [7, 8, 11, 12, 13] then dropGuards cs else c :: dropGuards cs
  | [] => []

/-- The name of a style. -/
def styleName (cs : List Char) : List Char :=
  (Text.trimWhile Text.isBlank cs).map Char.toLower

/-- The styles that are open after a tag; nothing if it closes what is not open. -/
def follow (stack : List (List Char)) (body : List Char) : Option (List (List Char)) :=
  match body.takeWhile (· ≠ '=') with
  | '/' :: name =>
    let name := styleName name
    if name = [] then (if stack = [] then none else some stack.tail)
    else if name ∈ stack then some (stack.erase name)
    else none
  | name => some (styleName name :: stack)

/-- The text that pieces print; `stack` are the styles that are open, last one first. -/
def print (stack : List (List Char)) : List Piece → Option (List Char)
  | [] => some []
  | .plain cs :: rest => (print stack rest).map (dropGuards cs ++ ·)
  | .tag body :: rest => (follow stack body).bind fun stack => print stack rest

/-- The text that a text with markup prints. -/
def render (s : String) : Outcome (List Char) :=
  match print [] (pieces s.toList) with
  | some cs => .ok cs
  | none => fail .badMarkup

end AppBroker.Console.Markup
