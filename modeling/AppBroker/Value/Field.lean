import AppBroker.Error
import AppBroker.Text.Blank
import AppBroker.Value

/-!
# Reading fields

A reader turns a dynamic value into a typed one or says what is wrong with it. Readers are
lenient where the meaning is clear: a whole number may be written as text, as a fraction of zero
or as a truth value, and a truth value as one of a few words. Reading a record collects the issues
of all its fields, each with the way to it.
-/

namespace AppBroker

/-- A value that was read, or all the issues in the way. -/
inductive Checked (α : Type) where
  | fit (value : α)
  | unfit (issues : List FieldIssue)
  deriving Repr

namespace Checked

/-- The issues of both parts are kept. -/
def seq {α β : Type} (f : Checked (α → β)) (x : Unit → Checked α) : Checked β :=
  match f, x () with
  | fit f, fit a => fit (f a)
  | fit _, unfit issues => unfit issues
  | unfit issues, fit _ => unfit issues
  | unfit issues, unfit more => unfit (issues ++ more)

instance : Applicative Checked where
  pure := fit
  seq := seq

/-- A single issue at the value itself. -/
def issue {α : Type} (problem : FieldProblem) : Checked α := unfit [⟨[], problem⟩]

/-- The issues seen from one level further out. -/
def «at» {α : Type} (step : String) : Checked α → Checked α
  | fit a => fit a
  | unfit issues => unfit (issues.map fun i => { i with location := step :: i.location })

/-- Checks every item of a list, located by its place from `start` on. -/
def items {α : Type} (read : Value → Checked α) (start : Nat) : List Value → Checked (List α)
  | [] => fit []
  | v :: vs => List.cons <$> (read v).at (toString start) <*> items read (start + 1) vs

/-- A value or the failure of a whole record. -/
def toOutcome {α : Type} : Checked α → Outcome α
  | fit a => .ok a
  | unfit issues => fail (.unfit issues)

end Checked

namespace Field

/-- What reads one field. -/
abbrev Reader (α : Type) := Value → Checked α

/-- Reads text. -/
def text : Reader String
  | .text s | .illFormed s => .fit s
  | .bytes data =>
    match String.fromUTF8? (ByteArray.mk data.toArray) with
    | some s => .fit s
    | none => .issue .illFormedText
  | _ => .issue .notText

/-- Reads text that is not empty and well formed. -/
def nonEmptyText : Reader String := fun v =>
  match v, text v with
  | .illFormed _, _ => .issue .illFormedText
  | _, .fit "" => .issue .tooShort
  | _, other => other

/-- Drops leading zeros, and underscores after them, but keeps the last of them where no digit
follows. -/
def dropLeadingZeros (cs : List Char) : List Char :=
  match cs with
  | '0' :: _ =>
    let zeros := cs.takeWhile fun c => c = '0' || c = '_'
    let last := (zeros.getLast?.map fun c => [c]).getD []
    match cs.drop zeros.length with
    | [] => last
    | '.' :: rest => last ++ '.' :: rest
    | rest => rest
  | _ => cs

/-- Drops a fraction made of zeros. -/
def dropZeroFraction (cs : List Char) : List Char :=
  match cs.splitOn '.' with
  | [whole, fraction] =>
    if !fraction.isEmpty && fraction.all (· = '0') then whole else cs
  | _ => cs

/-- Drops single underscores between digits. -/
def dropUnderscores (cs : List Char) : List Char :=
  if (cs.splitOn '_').all (fun part => !part.isEmpty) then cs.filter (· ≠ '_') else cs

/-- Reads a whole number from text: blanks around it, one sign, leading zeros, a fraction of
zeros and single underscores are allowed. -/
def integerOfText (s : String) : Checked Int :=
  let cs := Text.trimWhile Text.isSpace s.toList
  if Text.maxNumeralLength < s.utf8ByteSize then .issue .integerTooLong
  else
    let (negative, cs) := match cs with
      | '+' :: rest => (false, rest)
      | '-' :: rest => (true, rest)
      | rest => (false, rest)
    let digits := dropUnderscores (dropZeroFraction (dropLeadingZeros cs))
    match digits with
    | [] => .issue .unreadableInteger
    | _ =>
      match digits.mapM Moment.digit? with
      | none => .issue .unreadableInteger
      | some ds =>
        let n := Text.ofDigits ds
        .fit (if negative then -(n : Int) else n)

/-- Reads a whole number. -/
def integer : Reader Int
  | .int n => .fit n
  | .bool b => .fit (if b then 1 else 0)
  | .real x =>
    match x with
    | .nan | .infinite _ => .issue .notFinite
    | x =>
      match x.toInt? with
      | none => .issue .fractional
      | some n =>
        if n.natAbs < 1 <<< 63 then .fit n else .issue .integerTooLong
  | .text s => integerOfText s
  | .illFormed _ => .issue .illFormedText
  | .bytes data =>
    match String.fromUTF8? (ByteArray.mk data.toArray) with
    | some s => integerOfText s
    | none => .issue .unreadableInteger
  | _ => .issue .notInteger

/-- Reads a whole number with a least and, if given, a greatest value. -/
def integerIn (least : Int) (greatest : Option Int) : Reader Int := fun v =>
  match integer v with
  | .fit n =>
    if n < least then .issue .belowMinimum
    else match greatest with
      | some most => if most < n then .issue .aboveMaximum else .fit n
      | none => .fit n
  | other => other

/-- The words for true and for false. -/
def truthWords : List String × List String :=
  (["1", "on", "t", "true", "y", "yes"], ["0", "off", "f", "false", "n", "no"])

/-- Reads a truth value from text, in any case. -/
def truthOfText (s : String) : Checked Bool :=
  let word := String.ofList (s.toList.map Char.toLower)
  if word ∈ truthWords.1 then .fit true
  else if word ∈ truthWords.2 then .fit false
  else .issue .unreadableBoolean

/-- Reads a truth value from zero or one. Numbers that do not fit into 64 bits are no truth values
of any kind. -/
def truthOfInteger (n : Int) : Checked Bool :=
  if n = 0 then .fit false
  else if n = 1 then .fit true
  else if -(1 <<< 63) ≤ n ∧ n < 1 <<< 63 then .issue .unreadableBoolean
  else .issue .notBoolean

/-- Reads a truth value. -/
def boolean : Reader Bool
  | .bool b => .fit b
  | .int n => truthOfInteger n
  | .real x =>
    match x.toInt? with
    | some n => if n = -(1 <<< 63) then .issue .notBoolean else truthOfInteger n
    | none => .issue .notBoolean
  | .text s => truthOfText s
  | .illFormed _ => .issue .illFormedText
  | .bytes data =>
    match String.fromUTF8? (ByteArray.mk data.toArray) with
    | some s => truthOfText s
    | none => .issue .unreadableBoolean
  | _ => .issue .notBoolean

/-- Reads one of a few words, written as text or, where that is allowed, as bytes. -/
def choice {α : Type} (allowsBytes : Bool) (problem : FieldProblem) (words : List (String × α)) :
    Reader α := fun v =>
  let word := match v, text v with
    | .text s, _ => some s
    | .bytes _, .fit s => if allowsBytes then some s else none
    | _, _ => none
  match word.bind fun s => words.find? (·.1 = s) with
  | some (_, a) => .fit a
  | none => .issue problem

/-- Reads a decimal numeral with a point: digits are added up one by one, each to the nearest
number. -/
def pointed (whole fraction : List Nat) : Binary64 :=
  fraction.zipIdx.foldl (fun x (d, i) => x.add (.ofRatio false d (Nat.pow 10 (i + 1))))
    (.ofRatio false (Text.ofDigits whole) 1)

/-- Reads a signed decimal count since 1970, of seconds or of milliseconds, with or without a
fraction: whole units rounded down, and millionths of a second. A count with a fraction is in
seconds afterwards. -/
def countOfText? (cs : List Char) : Option (Int × Nat) := do
  let (negative, cs) := match cs with
    | '-' :: rest => (true, rest)
    | '+' :: rest => (false, rest)
    | rest => (false, rest)
  let whole := cs.takeWhile fun c => (Moment.digit? c).isSome
  if whole.isEmpty then none
  let digits := whole.filterMap Moment.digit?
  match cs.drop whole.length with
  | [] =>
    let n : Nat := Text.ofDigits digits
    return (if negative then -(n : Int) else n, 0)
  | '.' :: fraction =>
    let size := pointed digits (← fraction.mapM Moment.digit?)
    let x := if negative then size.negate else size
    let seconds := if x.exceeds Moment.millisecondLimit then x.divide 1000 else x
    let low ← seconds.floor?
    let rest := seconds.add (.ofRatio (0 < low) low.natAbs 1)
    return (low, (rest.scale 1000000).roundNat)
  | _ => none

/-- Reads a moment from text: ISO 8601, a plain date, or a count since 1970. -/
def momentOfText (s : String) : Checked Moment :=
  let cs := s.toList
  match Moment.readIso? cs with
  | some m => .fit m
  | none =>
    match countOfText? cs with
    | some (count, micros) =>
      match Moment.ofUnix? count micros with
      | some m => .fit m
      | none => .issue .unreadableMoment
    | none =>
      match Moment.readDate? cs with
      | some (d, []) => .fit (.ofDate d)
      | _ => .issue .unreadableMoment

/-- Reads a moment. -/
def moment : Reader Moment
  | .moment m => .fit m
  | .date d => .fit (.ofDate d)
  | .int n =>
    match Moment.ofUnix? n 0 with
    | some m => .fit m
    | none => .issue .momentOutOfRange
  | .real x =>
    match x.floor?.bind fun low => Moment.ofUnix? low x.fractionMicros with
    | some m => .fit m
    | none => .issue .momentOutOfRange
  | .text s => momentOfText s
  | .illFormed _ => .issue .illFormedText
  | .bytes data =>
    match String.fromUTF8? (ByteArray.mk data.toArray) with
    | some s => momentOfText s
    | none => .issue .unreadableMoment
  | _ => .issue .notAMoment

/-- Reads a list. -/
def list {α : Type} (read : Reader α) : Reader (List α)
  | .list vs | .tuple vs | .set vs => Checked.items read 0 vs
  | _ => .issue .notAList

/-- Reads a fixed sequence. -/
def sequence {α : Type} (read : Reader α) : Reader (List α)
  | .list vs | .tuple vs | .set vs => Checked.items read 0 vs
  | _ => .issue .notATuple

/-- Reads a nested record. -/
def record {α : Type} (read : List (Value × Value) → Checked α) : Reader α
  | .map entries => read entries
  | .cycle true => read []
  | _ => .issue .notARecord

/-- Reads a field that must be there. -/
def required {α : Type} (entries : List (Value × Value)) (key : String) (read : Reader α) :
    Checked α :=
  match Value.get? entries key with
  | some v => (read v).at key
  | none => .unfit [⟨[key], .missing⟩]

/-- Reads a field that has a default. -/
def optional {α : Type} (entries : List (Value × Value)) (key : String) (default : α)
    (read : Reader α) : Checked α :=
  match Value.get? entries key with
  | some v => (read v).at key
  | none => .fit default

end Field

end AppBroker
