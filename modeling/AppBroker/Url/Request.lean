import AppBroker.Text.Encoding
import AppBroker.Url
import AppBroker.Url.Label

/-!
# URLs of requests

Before a request is sent its URL is put into one form: the default port is left out, dots in the
path are followed, characters outside of the plain ones are written with percent signs, and a host
name with other letters than ASCII is written in Punycode. A URL without a host only has its path.
-/

namespace AppBroker.Url

/-- A URL that a request can be sent to; without a host it is not absolute. -/
structure Target where
  text : String
  isAbsolute : Bool
  deriving DecidableEq, Repr

/-- The longest URL. -/
def maxLength : Nat := 65536

/-- A hexadecimal digit, capital. -/
def hexDigit (n : Nat) : Char :=
  if n < 10 then Char.ofNat (48 + n) else Char.ofNat (55 + n)

/-- The bytes of a character with percent signs. -/
def percent (c : Char) : List Char :=
  (Text.encode (String.singleton c)).flatMap fun b =>
    ['%', hexDigit (b.toNat / 16), hexDigit (b.toNat % 16)]

/-- Writes the characters outside of a set with percent signs. -/
def quote (safe : Char → Bool) (cs : List Char) : List Char :=
  cs.flatMap fun c => if safe c then [c] else percent c

/-- Whether a character stands for itself in a path. -/
def isPathChar (c : Char) : Bool :=
  0x20 < c.toNat && c.toNat < 0x7f && c ∉ ['"', '#', '<', '>', '?', '\x60', '\x7b', '\x7d']

/-- Whether a character stands for itself in a query. -/
def isQueryChar (c : Char) : Bool :=
  0x20 < c.toNat && c.toNat < 0x7f && c ∉ ['"', '#', '<', '>']

/-- Whether a character stands for itself in a fragment. -/
def isFragmentChar (c : Char) : Bool :=
  0x20 < c.toNat && c.toNat < 0x7f && c ∉ ['"', '<', '>', '\x60']

/-- Whether a character stands for itself in a host name. -/
def isHostChar (c : Char) : Bool :=
  isFigure c || isSchemeStart c || c ∈ "-._~!$&'()*+,;=\"\x60\x7b\x7d%|\\".toList

/-- Whether a host name looks like an address of version 4: four runs of digits with one character
between each two. -/
def looksNumeric : Nat → Bool → List Char → Bool
  | gaps, inRun, [] => gaps = 0 && inRun
  | gaps, inRun, c :: cs =>
    (isFigure c && looksNumeric gaps true cs)
      || (match gaps with
          | 0 => false
          | gaps + 1 => inRun && looksNumeric gaps false cs)

/-- The form of a host name in a request. -/
def requestHost (cs : List Char) : Outcome (List Char) :=
  if cs.isEmpty then .ok []
  else if looksNumeric 3 false cs then if isVersion4 cs then .ok cs else fail .refusedUrl
  else if cs.all fun c => c.toNat < 128 then .ok (quote isHostChar (cs.map Char.toLower))
  else match asciiHost? (Text.lower cs) with
    | some host => .ok host
    | none => fail .refusedUrl

/-- The default port of a scheme. -/
def defaultPort? (scheme : List Char) : Option Nat :=
  [("http", 80), ("https", 443)].lookup (String.ofList scheme)

/-- The port of a request, unless it is the default one. -/
def requestPort (scheme cs : List Char) : Outcome (Option Nat) :=
  if cs.isEmpty then .ok none
  else if cs.all isFigure && cs.length ≤ Text.maxNumeralLength then
    let n := Text.ofDigits (cs.map fun c => c.toNat - 48)
    .ok (if defaultPort? scheme = some n then none else some n)
  else fail .refusedUrl

/-- Whether a part of a path is one or two dots. -/
def isDots (part : List Char) : Bool := part = ['.'] || part = ['.', '.']

/-- Follows the dots among the parts of a path. -/
def followDots (parts : List (List Char)) : List (List Char) :=
  parts.foldl (fun done part =>
    if part = ['.'] then done
    else if part = ['.', '.'] then
      if done = [] || done = [[]] then done else done.dropLast
    else done ++ [part]) []

/-- The form of a path in a request. -/
def requestPath (cs : List Char) : List Char :=
  let parts := cs.splitOn '/'
  let parts := if parts.any isDots then followDots parts else parts
  quote isPathChar (['/'].intercalate parts)

/-- Cuts a text before the first of some characters. -/
def splitBefore (ends : Char → Bool) (cs : List Char) : List Char × List Char :=
  (cs.takeWhile (!ends ·), cs.dropWhile (!ends ·))

/-- The form of a query or a fragment with the character that leads to it; nothing if it is
absent. -/
def requestPart (safe : Char → Bool) : List Char → List Char
  | [] => []
  | mark :: cs => mark :: quote safe cs

/-- The form of a URL in a request. A URL without a host loses its fragment. -/
def target (text : String) : Outcome Target := do
  let cs := text.toList
  if maxLength < cs.length || cs.any fun c => c.toNat < 0x20 || c.toNat = 0x7f then fail .refusedUrl
  let scheme := cs.takeWhile (· ≠ ':')
  let (authority, path) := splitAuthority ((cs.dropWhile (· ≠ ':')).drop 1)
  let host ← requestHost (authority.takeWhile (· ≠ ':'))
  let port ← requestPort scheme ((authority.dropWhile (· ≠ ':')).drop 1)
  let (path, rest) := splitBefore (fun c => c = '?' || c = '#') path
  let (query, fragment) := splitBefore (· = '#') rest
  let path := requestPath path
  let query := requestPart isQueryChar query
  if host.isEmpty then
    return ⟨String.ofList ('/' :: path.dropWhile (· = '/') ++ query), false⟩
  else
    let place := host ++ (match port with
      | some n => (":" ++ toString n).toList
      | none => [])
    return ⟨String.ofList (scheme ++ "://".toList ++ place ++ path ++ query
      ++ requestPart isFragmentChar fragment), true⟩

end AppBroker.Url
