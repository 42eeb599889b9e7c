import AppBroker.Error
import AppBroker.Text.Case
import AppBroker.Url.Internet

/-!
# URLs

A URL is cut into its scheme, its authority and its path; what follows a question mark, a number
sign, or a semicolon in the last part of the path, is left out. The authority has a user and a
password, the name of a host, in brackets if it is an address of version 6, and a port. A scheme
and a host are in lower case however they are written.
-/

namespace AppBroker

/-- The parts of a URL that a routing backend is found by. -/
structure Url where
  scheme : String
  authority : List Char
  path : List Char
  deriving DecidableEq, Repr

namespace Url

/-- Whether a character may be in a scheme. -/
def isSchemeChar (c : Char) : Bool :=
  isFigure c || ('a' ≤ c && c ≤ 'z') || ('A' ≤ c && c ≤ 'Z') || c = '+' || c = '-' || c = '.'

/-- Whether a scheme may start with a character. -/
def isSchemeStart (c : Char) : Bool := ('a' ≤ c && c ≤ 'z') || ('A' ≤ c && c ≤ 'Z')

/-- Takes away controls and blanks in front, and line ends and tabs everywhere. -/
def clean (cs : List Char) : List Char :=
  (cs.dropWhile fun c => c.toNat ≤ 0x20).filter fun c => c ≠ '\t' && c ≠ '\n' && c ≠ '\r'

/-- Cuts off the scheme; without one it is empty. -/
def splitScheme (cs : List Char) : List Char × List Char :=
  let first := cs.takeWhile (· ≠ ':')
  match cs.dropWhile (· ≠ ':'), first with
  | ':' :: rest, c :: _ =>
    if isSchemeStart c && first.all isSchemeChar then (Text.lower first, rest) else ([], cs)
  | _, _ => ([], cs)

/-- Whether a character ends an authority. -/
def endsAuthority (c : Char) : Bool := c = '/' || c = '?' || c = '#'

/-- Cuts off the authority, which two slashes lead to. -/
def splitAuthority : List Char → List Char × List Char
  | '/' :: '/' :: rest => (rest.takeWhile (!endsAuthority ·), rest.dropWhile (!endsAuthority ·))
  | cs => ([], cs)

/-- The schemes whose paths may have parameters. -/
def parameterSchemes : List String :=
  ["", "ftp", "hdl", "prospero", "http", "https", "shttp", "rtsp", "rtspu", "sip", "sips", "mms",
    "sftp", "tel"]

/-- Leaves the parameters of the last part out of a path. -/
def withoutParameters (cs : List Char) : List Char :=
  let last := (cs.reverse.takeWhile (· ≠ '/')).reverse
  cs.take (cs.length - last.length) ++ last.takeWhile (· ≠ ';')

/-- What follows the last at sign of an authority, or all of it. -/
def hostAndPort (authority : List Char) : List Char :=
  (authority.reverse.takeWhile (· ≠ '@')).reverse

/-- What stands before the last at sign of an authority. -/
def userInfo? (authority : List Char) : Option (List Char) :=
  if '@' ∈ authority then
    some (authority.take (authority.length - (hostAndPort authority).length - 1))
  else none

/-- The host and what follows the colon after it; brackets around a host are taken away. -/
def splitHost (cs : List Char) : List Char × List Char :=
  if '[' ∈ cs then
    let inner := (cs.dropWhile (· ≠ '[')).drop 1
    (inner.takeWhile (· ≠ ']'),
      (((inner.dropWhile (· ≠ ']')).drop 1).dropWhile (· ≠ ':')).drop 1)
  else (cs.takeWhile (· ≠ ':'), (cs.dropWhile (· ≠ ':')).drop 1)

/-- Whether a host in brackets is an address: one of version 6, or of a version to come. -/
def isBracketable (host : List Char) : Bool :=
  match host with
  | 'v' :: rest =>
    let version := rest.takeWhile isHex
    match rest.dropWhile isHex with
    | '.' :: address => !version.isEmpty && !address.isEmpty && '\n' ∉ address.dropLast
    | _ => false
  | _ => isVersion6 host

/-- Whether brackets in an authority come in both kinds, and what the first one opens is an
address. -/
def hasGoodBrackets (authority : List Char) : Bool :=
  let inner := (authority.dropWhile (· ≠ '[')).drop 1
  if '[' ∈ authority then ']' ∈ authority && isBracketable (inner.takeWhile (· ≠ ']'))
  else ']' ∉ authority

/-- Characters that stand for one with a meaning in a URL. -/
def lookalikes : List Char :=
  ['\u2047', '\u2048', '\u2049', '\u2100', '\u2101', '\u2105', '\u2106', '\u2a74', '\ufe13',
   '\ufe16', '\ufe55', '\ufe56', '\ufe5f', '\ufe6b', '\uff03', '\uff0f', '\uff1a', '\uff1f',
   '\uff20']

/-- Cuts a text into the parts of a URL. -/
def parse (text : String) : Outcome Url :=
  let (scheme, rest) := splitScheme (clean text.toList)
  let (authority, rest) := splitAuthority rest
  if !hasGoodBrackets authority || authority.any (· ∈ lookalikes) then fail .badValue
  else
    let scheme := String.ofList scheme
    let path := (rest.takeWhile (· ≠ '#')).takeWhile (· ≠ '?')
    let path := if scheme ∈ parameterSchemes then withoutParameters path else path
    .ok { scheme, authority, path }

/-- The password, if it is there and not empty. -/
def password? (u : Url) : Option String :=
  (userInfo? u.authority).bind fun info =>
    let password := (info.dropWhile (· ≠ ':')).drop 1
    if password.isEmpty then none else some (String.ofList password)

/-- The host; a zone keeps its case. -/
def host (u : Url) : List Char :=
  let host := (splitHost (hostAndPort u.authority)).1
  Text.lower (host.takeWhile (· ≠ '%')) ++ host.dropWhile (· ≠ '%')

/-- The port, if there is one. -/
def port? (u : Url) : Outcome (Option Nat) :=
  let digits := (splitHost (hostAndPort u.authority)).2
  if digits.isEmpty then .ok none
  else if digits.all isFigure && digits.length ≤ Text.maxNumeralLength then
    let n := Text.ofDigits (digits.map fun c => c.toNat - 48)
    if n ≤ 65535 then .ok (some n) else fail .badValue
  else fail .badValue

end Url

end AppBroker
