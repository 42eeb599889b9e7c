import AppBroker.Yaml.Scan

/-!
# Nodes of a document

A node is a scalar, a sequence or a mapping with a tag. Nodes are made from tokens by recursive
descent, one function per production. An alias stands for the node of its anchor; inside that very
node it is a cycle. A scalar without a tag takes the one that its text suggests, if it is plain.
-/

namespace AppBroker.Yaml

/-- What a scalar or a collection is to be read as. -/
inductive Kind where
  | null | bool | int | float | binary | timestamp | merge | value | str
  | omap | pairs | set | seq | map | other
  deriving DecidableEq, Repr

namespace Kind

/-- The names of the kinds in the common tag repository. -/
def names : List (String × Kind) :=
  [("null", null), ("bool", bool), ("int", int), ("float", float), ("binary", binary),
   ("timestamp", timestamp), ("merge", merge), ("value", value), ("str", str), ("omap", omap),
   ("pairs", pairs), ("set", set), ("seq", seq), ("map", map)]

/-- The beginning of the tags in the common repository. -/
def repository : List Char := "tag:yaml.org,2002:".toList

/-- The kind that a tag names. -/
def ofTag (tag : List Char) : Kind :=
  if repository.isPrefixOf tag then
    let name := tag.drop repository.length
    ((names.find? fun entry => entry.1.toList = name).map (·.2)).getD other
  else other

end Kind

/-! ## What a plain scalar suggests -/

namespace Suggest

/-- Digits of a base, and underscores. -/
def isDigitOrUnderscore (p : Char → Bool) (c : Char) : Bool := p c || c = '_'

/-- The rest behind an optional sign. -/
def unsigned : List Char → List Char
  | '+' :: rest | '-' :: rest => rest
  | cs => cs

/-- Whether a text is not empty and all in a class. -/
def someAll (p : Char → Bool) (cs : List Char) : Bool := !cs.isEmpty && cs.all p

/-- Groups of one or two digits below sixty, each after a colon. -/
def isSixtieths (groups : List (List Char)) : Bool :=
  !groups.isEmpty && groups.all fun
    | [a] => a.isDigit
    | [a, b] => '0' ≤ a && a ≤ '5' && b.isDigit
    | _ => false

/-- Whole numbers in base two, eight, ten, sixteen and sixty. -/
def isInt (cs : List Char) : Bool :=
  let cs := unsigned cs
  let decimal (part : List Char) : Bool :=
    match part with
    | d :: rest => '1' ≤ d && d ≤ '9' && rest.all (isDigitOrUnderscore Char.isDigit)
    | [] => false
  match cs with
  | ['0'] => true
  | '0' :: 'b' :: rest => someAll (isDigitOrUnderscore fun c => c = '0' || c = '1') rest
  | '0' :: 'x' :: rest =>
    someAll (isDigitOrUnderscore fun c => (Token.hexValue? c).isSome) rest
  | '0' :: rest => someAll (isDigitOrUnderscore fun c => '0' ≤ c && c ≤ '7') rest
  | cs =>
    match cs.splitOn ':' with
    | [whole] => decimal whole
    | whole :: groups => decimal whole && isSixtieths groups
    | [] => false

/-- An exponent with its sign, or nothing. -/
def isExponent : List Char → Bool
  | [] => true
  | 'e' :: sign :: rest | 'E' :: sign :: rest =>
    (sign = '+' || sign = '-') && someAll Char.isDigit rest
  | _ => false

/-- Numbers with a point. -/
def isFloat (cs : List Char) : Bool :=
  let number (p : Char → Bool) (part : List Char) : Bool :=
    match part with
    | d :: rest => d.isDigit && rest.all p
    | [] => false
  let inner := isDigitOrUnderscore Char.isDigit
  let signless := unsigned cs
  let whole := signless.takeWhile (· ≠ '.')
  match signless.dropWhile (· ≠ '.') with
  | [] => false
  | _ :: rest =>
    let tail := rest.dropWhile inner
    if whole.isEmpty then
      ["inf", "Inf", "INF"].any (·.toList = rest)
        || (cs = signless && ["nan", "NaN", "NAN"].any (·.toList = rest))
        || (cs = signless && (rest.head?.map Char.isDigit).getD false && isExponent tail)
    else
      match whole.splitOn ':' with
      | [part] => number inner part && isExponent tail
      | part :: groups => number inner part && isSixtieths groups && tail.isEmpty
      | [] => false

/-- The parts of a timestamp: the day and, if it has one, the time. -/
structure Stamp where
  year : Nat
  month : Nat
  day : Nat
  time : Option (Nat × Nat × Nat × List Char × Option Int)
  deriving Repr

/-- A number of one or two digits. -/
def shortNumber? : List Char → Option (Nat × List Char)
  | a :: rest =>
    if a.isDigit then
      match rest with
      | b :: more =>
        if b.isDigit then some (10 * (a.toNat - 48) + (b.toNat - 48), more)
        else some (a.toNat - 48, rest)
      | [] => some (a.toNat - 48, [])
    else none
  | [] => none

/-- A number of exactly two digits. -/
def twoDigits? : List Char → Option (Nat × List Char)
  | a :: b :: rest =>
    if a.isDigit && b.isDigit then some (10 * (a.toNat - 48) + (b.toNat - 48), rest) else none
  | _ => none

/-- The offset at the end of a timestamp: nothing, `Z`, or a signed number of hours and
minutes. -/
def zone? (cs : List Char) : Option (Option Int) :=
  let blanks := cs.dropWhile fun c => c = ' ' || c = '\t'
  let signed (sign : Int) (rest : List Char) : Option (Option Int) := do
    let (hour, rest) ← shortNumber? rest
    match rest with
    | [] => return some (sign * ((3600 * hour : Nat) : Int))
    | ':' :: rest => do
      let (minute, rest) ← twoDigits? rest
      if !rest.isEmpty then none
      return some (sign * ((3600 * hour + 60 * minute : Nat) : Int))
    | _ => none
  match cs, blanks with
  | [], _ => some none
  | _, ['Z'] => some (some 0)
  | _, '+' :: rest => signed 1 rest
  | _, '-' :: rest => signed (-1) rest
  | _, _ => none

/-- Reads a timestamp. -/
def stamp? (cs : List Char) : Option Stamp := do
  let (high, rest) ← twoDigits? cs
  let (low, rest) ← twoDigits? rest
  let '-' :: rest := rest | none
  let (month, rest) ← shortNumber? rest
  let '-' :: rest := rest | none
  let (day, rest) ← shortNumber? rest
  let date : Stamp := ⟨100 * high + low, month, day, none⟩
  match rest with
  | [] => return date
  | c :: more =>
    let rest ← if c = 'T' || c = 't' then some more
      else if c = ' ' || c = '\t' then some (more.dropWhile fun c => c = ' ' || c = '\t')
      else none
    let (hour, rest) ← shortNumber? rest
    let ':' :: rest := rest | none
    let (minute, rest) ← twoDigits? rest
    let ':' :: rest := rest | none
    let (second, rest) ← twoDigits? rest
    let (fraction, rest) := match rest with
      | '.' :: rest => (rest.takeWhile Char.isDigit, rest.dropWhile Char.isDigit)
      | rest => ([], rest)
    let offset ← zone? rest
    return { date with time := some (hour, minute, second, fraction, offset) }

/-- Whether a text suggests a timestamp; a plain day has two digits for month and day. -/
def isStamp (cs : List Char) : Bool :=
  match stamp? cs with
  | some s => s.time.isSome || cs.length = 10
  | none => false

/-- The words for truth values. -/
def truthWords : List String :=
  ["yes", "Yes", "YES", "no", "No", "NO", "true", "True", "TRUE", "false", "False", "FALSE",
   "on", "On", "ON", "off", "Off", "OFF"]

/-- The words for nothing. -/
def nullWords : List String := ["", "~", "null", "Null", "NULL"]

end Suggest

/-- The kind that the text of a plain scalar suggests. Where numbers are kept as text, a scalar
that looks like one is text. -/
def suggested (numbers : Bool) (cs : List Char) : Kind :=
  let s := String.ofList cs
  if s ∈ Suggest.truthWords then .bool
  else if s ∈ Suggest.nullWords then .null
  else if s = "<<" then .merge
  else if s = "=" then .value
  else if Suggest.isStamp cs then .timestamp
  else if numbers && Suggest.isInt cs then .int
  else if numbers && Suggest.isFloat cs then .float
  else .str

/-- A node. -/
inductive Node where
  | scalar (kind : Kind) (text : Content)
  | sequence (kind : Kind) (items : List Node)
  | mapping (kind : Kind) (entries : List (Node × Node))
  /-- An alias inside the node it stands for, which is a mapping or a sequence. -/
  | cycle (isMapping : Bool)
  deriving Repr, Inhabited

namespace Node

/-- An anchored node, or just its shape while it is being made. -/
abbrev Anchored := Node ⊕ Bool

/-- What a descent carries along: the tokens that are left, and the anchors so far. -/
structure Descent where
  rest : List Token
  anchors : List (List Char × Anchored) := []

/-- What the directives of a document say. -/
structure Directives where
  numbers : Bool
  handles : List (List Char × List Char)

/-- Nesting beyond this is refused. -/
def maxDepth : Nat := 480

/-- The node of nothing at all. -/
def empty : Node := .scalar .null ⟨[], true⟩

/-- The properties before a node: an anchor and a tag, in either order. -/
def properties (d : Descent) : Option (List Char) × Option Token × Descent :=
  match d.rest with
  | .anchor name :: t@(.tag _ _) :: rest => (some name, some t, { d with rest })
  | t@(.tag _ _) :: .anchor name :: rest => (some name, some t, { d with rest })
  | .anchor name :: rest => (some name, none, { d with rest })
  | t@(.tag _ _) :: rest => (none, some t, { d with rest })
  | _ => (none, none, d)

/-- What a tag in the text says: that it is left to the text, or a kind. -/
inductive Given where
  | none | nonSpecific | kind (k : Kind)
  deriving DecidableEq

/-- Reads a tag by the handles of the document. -/
def given (ds : Directives) : Option Token → Reading Given
  | some (.tag handle suffix) => do
    let full ← match handle with
      | Option.none => pure suffix
      | some h =>
        match ds.handles.find? fun entry => entry.1 = h with
        | some (_, start) => pure (start ++ suffix)
        | Option.none => Token.malformed
    return if full = ['!'] then .nonSpecific else .kind (Kind.ofTag full)
  | _ => .ok .none

/-- The kind of a scalar. -/
def scalarKind (ds : Directives) (g : Given) (text : Content) (plain : Bool) : Kind :=
  match g with
  | .kind k => k
  | .nonSpecific => suggested ds.numbers text.chars
  | .none => if plain then suggested ds.numbers text.chars else .str

/-- The kind of a collection. -/
def collectionKind (g : Given) (default : Kind) : Kind :=
  match g with
  | .kind k => k
  | _ => default

/-- Notes that an anchored collection is being made. -/
def Descent.open (d : Descent) (name : Option (List Char)) (isMapping : Bool) : Descent :=
  match name with
  | some n => { d with anchors := (n, .inr isMapping) :: d.anchors }
  | none => d

/-- Notes the node of an anchor. -/
def Descent.close (d : Descent) (name : Option (List Char)) (node : Node) : Descent :=
  match name with
  | some n => { d with anchors := (n, .inl node) :: d.anchors }
  | none => d

/-- Takes the next token. -/
def Descent.drop (d : Descent) : Descent := { d with rest := d.rest.drop 1 }

mutual

/-- A node, in a block or in a flow collection. A block sequence as the value of a key may stand
at the key's own indentation. -/
def node (ds : Directives) : Nat → Nat → Bool → Bool → Descent → Reading (Node × Descent)
  | 0, _, _, _, _ => Token.malformed
  | fuel + 1, depth, block, indentless, d => do
    if maxDepth < depth then .error .tooDeep
    match d.rest with
    | .alias name :: _ =>
      match d.anchors.find? fun entry => entry.1 = name with
      | some (_, .inl n) => return (n, d.drop)
      | some (_, .inr isMapping) => return (.cycle isMapping, d.drop)
      | none => Token.malformed
    | _ =>
      let (name, tag, d) := properties d
      let g ← given ds tag
      let known := match name with
        | some n => d.anchors.any fun entry => entry.1 = n
        | none => false
      if known then Token.malformed
      match d.rest with
      | .scalar text plain :: _ =>
        let n := Node.scalar (scalarKind ds g text plain) text
        return (n, d.drop.close name n)
      | .flowSequenceStart :: _ =>
        let (items, d) ← flowItems ds fuel depth true [] (d.drop.open name false)
        let n := Node.sequence (collectionKind g .seq) items
        return (n, d.close name n)
      | .flowMappingStart :: _ =>
        let (entries, d) ← flowEntries ds fuel depth true [] (d.drop.open name true)
        let n := Node.mapping (collectionKind g .map) entries
        return (n, d.close name n)
      | t :: _ =>
        if indentless && t = .blockEntry then
          let (items, d) ← indentlessItems ds fuel depth [] (d.open name false)
          let n := Node.sequence (collectionKind g .seq) items
          return (n, d.close name n)
        else if block && t = .blockSequenceStart then
          let (items, d) ← blockItems ds fuel depth [] (d.drop.open name false)
          let n := Node.sequence (collectionKind g .seq) items
          return (n, d.close name n)
        else if block && t = .blockMappingStart then
          let (entries, d) ← blockEntries ds fuel depth [] (d.drop.open name true)
          let n := Node.mapping (collectionKind g .map) entries
          return (n, d.close name n)
        else if name.isSome || tag.isSome then
          let kind := match g with
            | .kind k => k
            | _ => Kind.null
          let n := Node.scalar kind ⟨[], true⟩
          return (n, d.close name n)
        else Token.malformed
      | [] => Token.malformed

/-- A node, unless one of some tokens comes, which leaves the node out. -/
def nodeUnless (ds : Directives) :
    Nat → Nat → Bool → Bool → List Token → Descent → Reading (Node × Descent)
  | 0, _, _, _, _, _ => Token.malformed
  | fuel + 1, depth, block, indentless, stops, d =>
    match d.rest with
    | t :: _ => if t ∈ stops then .ok (empty, d) else node ds fuel depth block indentless d
    | [] => Token.malformed

/-- The items of a block sequence. -/
def blockItems (ds : Directives) :
    Nat → Nat → List Node → Descent → Reading (List Node × Descent)
  | 0, _, _, _ => Token.malformed
  | fuel + 1, depth, read, d =>
    match d.rest with
    | .blockEntry :: _ => do
      let (n, d) ← nodeUnless ds fuel (depth + 1) true false [.blockEntry, .blockEnd] d.drop
      blockItems ds fuel depth (n :: read) d
    | .blockEnd :: _ => .ok (read.reverse, d.drop)
    | _ => Token.malformed

/-- The items of a block sequence at the indentation of its key. -/
def indentlessItems (ds : Directives) :
    Nat → Nat → List Node → Descent → Reading (List Node × Descent)
  | 0, _, _, _ => Token.malformed
  | fuel + 1, depth, read, d =>
    match d.rest with
    | .blockEntry :: _ => do
      let (n, d) ← nodeUnless ds fuel (depth + 1) true false
        [.blockEntry, .key, .value, .blockEnd] d.drop
      indentlessItems ds fuel depth (n :: read) d
    | _ => .ok (read.reverse, d)

/-- The entries of a block mapping. -/
def blockEntries (ds : Directives) :
    Nat → Nat → List (Node × Node) → Descent → Reading (List (Node × Node) × Descent)
  | 0, _, _, _ => Token.malformed
  | fuel + 1, depth, read, d =>
    match d.rest with
    | .key :: _ => do
      let stops := [Token.key, .value, .blockEnd]
      let (k, d) ← nodeUnless ds fuel (depth + 1) true true stops d.drop
      match d.rest with
      | .value :: _ => do
        let (v, d) ← nodeUnless ds fuel (depth + 1) true true stops d.drop
        blockEntries ds fuel depth ((k, v) :: read) d
      | _ => blockEntries ds fuel depth ((k, empty) :: read) d
    | .blockEnd :: _ => .ok (read.reverse, d.drop)
    | _ => Token.malformed

/-- The items of a flow sequence; a key makes a mapping of one entry. -/
def flowItems (ds : Directives) :
    Nat → Nat → Bool → List Node → Descent → Reading (List Node × Descent)
  | 0, _, _, _, _ => Token.malformed
  | fuel + 1, depth, first, read, d => do
    let item (d : Descent) : Reading (List Node × Descent) :=
      match d.rest with
      | .flowSequenceEnd :: _ => .ok (read.reverse, d.drop)
      | .key :: _ => do
        let (k, d) ← nodeUnless ds fuel (depth + 2) false false
          [.value, .flowEntry, .flowSequenceEnd] d.drop
        match d.rest with
        | .value :: _ => do
          let (v, d) ← nodeUnless ds fuel (depth + 2) false false
            [.flowEntry, .flowSequenceEnd] d.drop
          flowItems ds fuel depth false (.mapping .map [(k, v)] :: read) d
        | _ => flowItems ds fuel depth false (.mapping .map [(k, empty)] :: read) d
      | _ => do
        let (n, d) ← node ds fuel (depth + 1) false false d
        flowItems ds fuel depth false (n :: read) d
    match d.rest with
    | .flowSequenceEnd :: _ => return (read.reverse, d.drop)
    | t :: _ => if first then item d else if t = .flowEntry then item d.drop else Token.malformed
    | [] => Token.malformed

/-- The entries of a flow mapping; a node without a key mark has no value. -/
def flowEntries (ds : Directives) :
    Nat → Nat → Bool → List (Node × Node) → Descent → Reading (List (Node × Node) × Descent)
  | 0, _, _, _, _ => Token.malformed
  | fuel + 1, depth, first, read, d => do
    let entry (d : Descent) : Reading (List (Node × Node) × Descent) :=
      match d.rest with
      | .flowMappingEnd :: _ => .ok (read.reverse, d.drop)
      | .key :: _ => do
        let (k, d) ← nodeUnless ds fuel (depth + 1) false false
          [.value, .flowEntry, .flowMappingEnd] d.drop
        match d.rest with
        | .value :: _ => do
          let (v, d) ← nodeUnless ds fuel (depth + 1) false false
            [.flowEntry, .flowMappingEnd] d.drop
          flowEntries ds fuel depth false ((k, v) :: read) d
        | _ => flowEntries ds fuel depth false ((k, empty) :: read) d
      | _ => do
        let (n, d) ← node ds fuel (depth + 1) false false d
        flowEntries ds fuel depth false ((n, empty) :: read) d
    match d.rest with
    | .flowMappingEnd :: _ => return (read.reverse, d.drop)
    | t :: _ => if first then entry d else if t = .flowEntry then entry d.drop else Token.malformed
    | [] => Token.malformed

end

/-- The handles that every document knows. -/
def defaultHandles : List (List Char × List Char) :=
  [(['!'], ['!']), (['!', '!'], Kind.repository)]

/-- Reads the directives of a document: at most one version, which must be 1, and each tag handle
once. -/
def directives (numbers : Bool) :
    List Token → Bool → List (List Char × List Char) → Reading (Directives × List Token)
  | .versionDirective major :: rest, versioned, handles =>
    if versioned || major ≠ 1 then Token.malformed else directives numbers rest true handles
  | .tagDirective handle start :: rest, versioned, handles =>
    if handles.any fun entry => entry.1 = handle then Token.malformed
    else directives numbers rest versioned ((handle, start) :: handles)
  | .otherDirective :: rest, versioned, handles => directives numbers rest versioned handles
  | rest, _, handles => .ok (⟨numbers, handles ++ defaultHandles⟩, rest)

/-- The tokens behind the ends of documents. -/
def skipDocumentEnds : List Token → List Token
  | .documentEnd :: rest => skipDocumentEnds rest
  | rest => rest

/-- Whether a token starts a document explicitly or ends the text. -/
def isMarginal : Token → Bool
  | .versionDirective _ | .tagDirective _ _ | .otherDirective | .documentStart | .documentEnd
  | .streamEnd => true
  | _ => false

/-- The root of the only document; a text without a document has none, and one with several is
malformed. -/
def ofTokens (numbers : Bool) (ts : List Token) : Reading (Option Node) := do
  let fuel := 4 * ts.length + 8
  let finish (n : Node) (rest : List Token) : Reading (Option Node) :=
    match skipDocumentEnds rest with
    | .streamEnd :: _ => .ok (some n)
    | _ => Token.malformed
  let explicit (ts : List Token) : Reading (Option Node) := do
    match skipDocumentEnds ts with
    | .streamEnd :: _ => return none
    | ts =>
      let (ds, rest) ← directives numbers ts false []
      match rest with
      | .documentStart :: rest =>
        match rest with
        | t :: _ =>
          if isMarginal t then finish empty rest
          else do
            let (n, d) ← node ds fuel 0 true false { rest }
            finish n d.rest
        | [] => Token.malformed
      | _ => Token.malformed
  match ts with
  | t :: _ =>
    match t with
    | .versionDirective _ | .tagDirective _ _ | .otherDirective | .documentStart
    | .streamEnd => explicit ts
    | _ => do
      let (n, d) ← node ⟨numbers, defaultHandles⟩ fuel 0 true false { rest := ts }
      finish n d.rest
  | [] => Token.malformed

end Node

end AppBroker.Yaml
