/-!
# Invocations

A command line is one word or two for the command, and then words and options in any order. An
option has a long spelling and possibly a short one of one letter; its value is the next argument,
or stands in the same one. Letters of options without values can be joined. Two hyphens alone end
the options. An invocation that does not fit its command is none.
-/

namespace AppBroker.Console

/-- What can be done to a whole application at once. -/
inductive Control where
  | start | stop | restart
  deriving DecidableEq, Repr

/-- What can be asked for. -/
inductive Command where
  | version
  | listPlugins (category : String) (ownOnly : Bool)
  | showPlugin (tag : String)
  | installPlugin (source : String) (system : Bool)
  | removePlugin (tag : String) (system : Bool)
  | createApp (name framework : String) (services : List String) (start : Bool)
  | listApps
  | showApp (name : String)
  | controlApp (control : Control) (name : String)
  | scaleApp (name expr : String)
  | removeApp (name : String)
  | resync
  deriving DecidableEq, Repr

/-- A command with the tenant to act in and the file with the settings; empty ones are not given. -/
structure Invocation where
  command : Command
  tenant : String := ""
  config : String := ""
  deriving DecidableEq, Repr

namespace Invocation

/-- How an option is written. -/
structure Form where
  long : String
  short : Option Char := none
  takesValue : Bool := true
  deriving DecidableEq, Repr

/-- The file with the settings. -/
def configFile : Form := ⟨"config", some 'c', true⟩

/-- The tenant to act in. -/
def tenantName : Form := ⟨"namespace", some 'n', true⟩

/-- The options of most commands. -/
def common : List Form := [configFile, tenantName]

/-- The category of plugins. -/
def category : Form := ⟨"category", none, true⟩

/-- Whether to leave the system scope out. -/
def ownOnly : Form := ⟨"user", none, false⟩

/-- Whether to act in the system scope. -/
def system : Form := ⟨"system", none, false⟩

/-- A service; there may be any number of them. -/
def service : Form := ⟨"service", some 's', true⟩

/-- Whether to leave a new application as it is created. -/
def noStart : Form := ⟨"no-start", none, false⟩

/-- What arguments say: options by their long spelling, and words. -/
structure Reading where
  options : List (String × String) := []
  words : List String := []
  deriving DecidableEq, Repr

namespace Reading

/-- All values of an option. -/
def values (r : Reading) (f : Form) : List String :=
  (r.options.filter (·.1 = f.long)).map (·.2)

/-- The last value of an option, or nothing. -/
def value (r : Reading) (f : Form) : String := (r.values f).getLast?.getD ""

/-- Whether an option is there. -/
def has (r : Reading) (f : Form) : Bool := r.options.any (·.1 = f.long)

end Reading

/-- Reads the letters after one hyphen, and the next argument if the last of them needs it. -/
def readLetters (forms : List Form) :
    List Char → List String → Option (List (String × String) × List String)
  | [], args => some ([], args)
  | c :: cs, args =>
    match forms.find? (·.short = some c) with
    | none => none
    | some f =>
      if f.takesValue then
        match cs, args with
        | [], [] => none
        | [], value :: rest => some ([(f.long, value)], rest)
        | cs, args => some ([(f.long, String.ofList cs)], args)
      else (readLetters forms cs args).map fun (options, rest) => ((f.long, "") :: options, rest)

/-- Reads what follows two hyphens, and the next argument if it needs it. -/
def readLong (forms : List Form) (cs : List Char) (args : List String) :
    Option ((String × String) × List String) :=
  let name := String.ofList (cs.takeWhile (· ≠ '='))
  let given := cs.dropWhile (· ≠ '=')
  match forms.find? (·.long = name) with
  | none => none
  | some f =>
    match f.takesValue, given, args with
    | true, _ :: value, args => some ((f.long, String.ofList value), args)
    | true, [], value :: rest => some ((f.long, value), rest)
    | false, [], args => some ((f.long, ""), args)
    | _, _, _ => none

/-- Reads arguments; the fuel bounds their number. -/
def read (forms : List Form) : Nat → List String → Option Reading
  | _, [] => some {}
  | 0, _ :: _ => none
  | fuel + 1, arg :: args =>
    match arg.toList with
    | ['-', '-'] => some { words := args }
    | '-' :: '-' :: cs => do
      let (option, rest) ← readLong forms cs args
      let r ← read forms fuel rest
      return { r with options := option :: r.options }
    | '-' :: c :: cs => do
      let (options, rest) ← readLetters forms (c :: cs) args
      let r ← read forms fuel rest
      return { r with options := options ++ r.options }
    | _ => do
      let r ← read forms fuel args
      return { r with words := arg :: r.words }

/-- The invocation of a command that options and words make. -/
def make (forms : List Form) (args : List String)
    (command : Reading → List String → Option Command) : Option Invocation := do
  let r ← read forms args.length args
  return { command := ← command r r.words, tenant := r.value tenantName
           config := r.value configFile }

/-- A command without words. -/
def wordless (c : Reading → Command) (r : Reading) : List String → Option Command
  | [] => some (c r)
  | _ => none

/-- A command with one word. -/
def oneWord (c : Reading → String → Command) (r : Reading) : List String → Option Command
  | [a] => some (c r a)
  | _ => none

/-- A command with two words. -/
def twoWords (c : Reading → String → String → Command) (r : Reading) :
    List String → Option Command
  | [a, b] => some (c r a b)
  | _ => none

/-- The invocation that arguments make. -/
def parse : List String → Option Invocation
  | "version" :: args => make [] args (wordless fun _ => .version)
  | "plugin" :: "list" :: args => make (common ++ [category, ownOnly]) args
      (wordless fun r => .listPlugins (r.value category) (r.has ownOnly))
  | "plugin" :: "info" :: args => make common args (oneWord fun _ => .showPlugin)
  | "plugin" :: "install" :: args => make (common ++ [system]) args
      (oneWord fun r source => .installPlugin source (r.has system))
  | "plugin" :: "remove" :: args => make (common ++ [system]) args
      (oneWord fun r tag => .removePlugin tag (r.has system))
  | "app" :: "create" :: args => make (common ++ [service, noStart]) args
      (twoWords fun r name framework =>
        .createApp name framework (r.values service) (!r.has noStart))
  | "app" :: "list" :: args => make common args (wordless fun _ => .listApps)
  | "app" :: "info" :: args => make common args (oneWord fun _ => .showApp)
  | "app" :: "start" :: args => make common args (oneWord fun _ => .controlApp .start)
  | "app" :: "stop" :: args => make common args (oneWord fun _ => .controlApp .stop)
  | "app" :: "restart" :: args => make common args (oneWord fun _ => .controlApp .restart)
  | "app" :: "scale" :: args => make common args (twoWords fun _ => .scaleApp)
  | "app" :: "remove" :: args => make common args (oneWord fun _ => .removeApp)
  | "proxy" :: "resync" :: args => make [configFile] args (wordless fun _ => .resync)
  | _ => none

end Invocation

end AppBroker.Console
