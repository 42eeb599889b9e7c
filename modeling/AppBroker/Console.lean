import AppBroker.Catalog
import AppBroker.Console.Grid
import AppBroker.Console.Invocation
import AppBroker.Scale
import AppBroker.Setup

/-!
# The console

Every command sets up a broker of its own from the settings, acts for the operator, and ends the
broker's connections before it prints. Refusals are printed as errors. The report of a command is
its exit code, what it has printed, and whatever has ended it otherwise.
-/

namespace AppBroker.Console

/-- The name of whoever uses the console. -/
def operator : String := "operator"

/-- The version of the platform. -/
def release : String := "0.1.0"

/-- Where the settings are unless told otherwise. -/
def usualConfig : String := "~/.cumulus/cumulus.yaml"

/-! ## Printing -/

/-- Something to print. -/
inductive Printout where
  | text (markup : String)
  | grid (g : Grid)
  deriving Repr

/-- The width between two tab stops. -/
def tabStop : Nat := 8

/-- A line with blanks up to the next tab stop for every tab; `column` is where it begins. -/
def expandTabs (column : Nat) : List Char → List Char
  | [] => []
  | c :: cs =>
    if c = '\t' then
      let blanks := tabStop - column % tabStop
      List.replicate blanks ' ' ++ expandTabs (column + blanks) cs
    else c :: expandTabs (column + Text.cells c) cs

/-- The lines of a printout. -/
def Printout.lines : Printout → Outcome (List (List Char))
  | text markup => do return ((← Markup.render markup).splitOn '\n').map (expandTabs 0)
  | grid g => g.draw

/-- How a command has ended. -/
structure Report where
  exitCode : Nat := 0
  output : String := ""
  failure : Option Failure := none
  deriving Repr

namespace Report

/-- Prints one thing after the other, as long as its markup is sound. -/
def print (exitCode : Nat) : List Printout → Report
  | [] => { exitCode }
  | p :: ps =>
    match p.lines with
    | .error e => { exitCode := 1, failure := some e }
    | .ok lines =>
      let rest := print exitCode ps
      { rest with output := String.ofList (lines.flatMap (· ++ ['\n'])) ++ rest.output }

/-- Prints what a command has to tell, or why it is refused. -/
def ofOutcome : Outcome (List Printout) → Report
  | .ok printouts => print 0 printouts
  | .error (.refusal r) =>
    print 1 [.text ("[red]Error: " ++ Markup.escape r.message ++ "[/red]")]
  | .error e => { exitCode := 1, failure := some e }

/-- The report of an invocation that fits no command. -/
def misuse : Report := { exitCode := 2 }

end Report

/-! ## Wording -/

/-- Good news. -/
def good (s : String) : Printout := .text ("[green]" ++ s ++ "[/green]")

/-- News of something that is gone. -/
def gone (s : String) : Printout := .text ("[yellow]" ++ s ++ "[/yellow]")

/-- News that there is nothing. -/
def dim (s : String) : Printout := .text ("[dim]" ++ s ++ "[/dim]")

/-- A fact, indented below a heading. -/
def fact (s : String) : Printout := .text ("  " ++ s)

/-- The scope of a plugin. -/
def scopeOf (p : Plugin) : String := if p.tenant = "" then "system" else p.tenant

/-- A character in a quoted word. -/
def quotedChar (mark c : Char) : List Char :=
  if c = mark || c = '\\' then ['\\', c]
  else if c = '\n' then ['\\', 'n']
  else if c = '\r' then ['\\', 'r']
  else if c = '\t' then ['\\', 't']
  else if c.toNat < 0x20 || c.toNat = 0x7f then
    '\\' :: 'x' :: [Nat.digitChar (c.toNat / 16), Nat.digitChar (c.toNat % 16)]
  else [c]

/-- A word in single quotes, or in double ones if it has single ones in it and no double ones. -/
def quoted (s : String) : String :=
  let mark := if '\'' ∈ s.toList && '"' ∉ s.toList then '"' else '\''
  String.ofList (mark :: s.toList.flatMap (quotedChar mark) ++ [mark])

/-- The day of a moment, the year without leading zeros. -/
def dayText (m : Moment) : String :=
  toString m.date.year ++ "-" ++ Moment.padded 2 m.date.month ++ "-"
    ++ Moment.padded 2 m.date.day

/-- The table of plugins. -/
def pluginGrid (plugins : List Plugin) : Grid :=
  { title := "Installed Plugins"
    headers := ["Name", "Display Name", "Version", "Category", "Scope", "Shared"]
    rows := plugins.map fun p =>
      [p.name, p.displayName, p.version, p.category.word, scopeOf p,
        if p.shared then "yes" else "-"] }

/-- A row for an application. -/
def appRow (r : Record) : Outcome (List String) := do
  let services := ", ".intercalate r.services
  return [r.name, ← r.framework, if services = "" then "-" else services, toString r.scaling,
    dayText r.createdAt ++ " " ++ r.createdAt.minuteText]

/-- The table of applications. -/
def appGrid (records : List Record) : Outcome Grid := do
  return { title := "Applications"
           headers := ["Name", "Framework", "Services", "Scaling", "Created"]
           rows := ← records.mapM appRow }

/-- What is told about a plugin. -/
def pluginFacts (p : Plugin) : List Printout :=
  [.text ("\n[bold cyan]" ++ p.displayName ++ "[/bold cyan] (" ++ p.name ++ ") v" ++ p.version)]
    ++ (if p.description = "" then [] else [fact p.description])
    ++ (if p.vendor = "" then [] else [fact ("Vendor: " ++ p.vendor)])
    ++ [fact ("Category: " ++ p.category.word), fact ("Scope: " ++ scopeOf p),
        fact ("Shared: " ++ if p.shared then "True" else "False")]
    ++ p.endpoints.map fun e =>
        fact ("Endpoint: " ++ e.protocol ++ " :" ++ toString e.port ++ " " ++ e.path)

/-- A plugin that an application is composed of. -/
def part (role : String) (p : Plugin) : Printout :=
  fact (role ++ ": " ++ p.displayName ++ " " ++ p.version)

/-- What is told about an application. -/
def appFacts (i : Lifecycle.Info) : List Printout :=
  [.text ("\n[bold cyan]" ++ i.name ++ "[/bold cyan] (" ++ i.tenant ++ ")"),
    fact ("URL: " ++ i.url), fact ("SSH: " ++ i.sshUrl),
    fact ("Created: " ++ dayText i.createdAt ++ " " ++ i.createdAt.secondText)]
    ++ (i.framework.map (part "Framework")).toList ++ i.services.map (part "Service")
    ++ [fact ("Scaling: " ++ toString i.scaling)]

/-! ## Commands -/

/-- The category that a word names; an empty word names none. -/
def categoryOf (word : String) : Outcome (Option Category) :=
  if word = "" then .ok none
  else match Category.ofWord? word with
    | some c => .ok (some c)
    | none => refuse (.invalid (.category (quoted word)))

/-- The plugins that a caller asks for. -/
def findPlugins (caller : Caller) (category : String) (ownOnly : Bool) :
    Action World (List Plugin) := do
  let category ← categoryOf category
  if ownOnly then Catalog.ownPlugins caller category else Catalog.plugins caller category

/-- What is printed about plugins. -/
def tellPlugins (plugins : List Plugin) : List Printout :=
  if plugins.isEmpty then [dim "No plugins installed."] else [.grid (pluginGrid plugins)]

/-- What is printed about applications. -/
def tellApps (records : List Record) : Outcome (List Printout) := do
  if records.isEmpty then return [dim "No applications."] else return [.grid (← appGrid records)]

/-- Installs a plugin in the system scope or for the caller. -/
def install (caller : Caller) (source : Path) (system : Bool) : Action World Plugin :=
  if system then Catalog.change (Hub.install · "" source) else Catalog.install caller source

/-- Removes a plugin from wherever its tag says, or from the caller's tenant. -/
def remove (caller : Caller) (tag : String) (system : Bool) : Action World Unit :=
  if system then do
    let tag ← Tag.parse tag
    Catalog.change (Hub.remove · tag)
  else Catalog.remove caller tag

/-- Starts, stops or restarts an application. -/
def control (platform : PlatformSettings) (caller : Caller) (name : String) :
    Control → Program Unit
  | .start => Lifecycle.start platform caller name
  | .stop => Lifecycle.stop caller name
  | .restart => Lifecycle.restart platform caller name

/-- The word for what is done to an application. -/
def Control.word : Control → String
  | start => "start"
  | stop => "stop"
  | restart => "restart"

/-- Brings an application to the scale that an expression denotes. -/
def rescale (platform : PlatformSettings) (caller : Caller) (name expr : String) :
    Program (List Handle) := do
  let current ← Lifecycle.count caller name
  Lifecycle.scale platform caller name (← Scale.parse expr current)

/-- What a command does and has to tell. -/
def execute (caller : Caller) (platform : PlatformSettings) :
    Command → Action World (List Printout)
  | .version => pure [.text ("cumulus version " ++ release)]
  | .listPlugins category ownOnly => do
    return tellPlugins (← findPlugins caller category ownOnly)
  | .showPlugin tag => do return pluginFacts (← Catalog.pluginInfo caller tag)
  | .installPlugin source system => do
    let p ← install caller (Path.ofShown source) system
    return [good ("Installed " ++ p.name ++ ":" ++ p.version ++ " (" ++ scopeOf p ++ ").")]
  | .removePlugin tag system => do
    remove caller tag system
    return [gone ("Removed " ++ tag ++ ".")]
  | .createApp name framework services start => do
    let handles ← (Lifecycle.create platform caller name framework services 1 start).run
    return [good ("Application " ++ name ++ (if start then " started" else " created") ++ " with "
      ++ toString handles.length ++ " containers.")]
  | .listApps => do tellApps (← (Lifecycle.list caller).run)
  | .showApp name => do return appFacts (← (Lifecycle.info platform caller name).run)
  | .controlApp verb name => do
    (control platform caller name verb).run
    return [good ("Application " ++ name ++ ": " ++ verb.word ++ " done.")]
  | .scaleApp name expr => do
    let handles ← (rescale platform caller name expr).run
    return [good ("Application " ++ name ++ " now has " ++ toString handles.length
      ++ " framework containers.")]
  | .removeApp name => do
    (Lifecycle.remove caller name).run
    return [gone ("Application " ++ name ++ " removed.")]
  | .resync => do
    let count ← (Lifecycle.resync platform).run
    return [good ("Republished " ++ toString count ++ " containers.")]

/-- Does something with a broker of its own; the broker of before is put back. -/
def withBroker {α : Type} (config : String) (act : PlatformSettings → Action World α) :
    Action World α := fun w =>
  let file := if config = "" then usualConfig else config
  let opening : Action Disk Broker := do
    Broker.ofSettings (← Disk.look fun d => Settings.load d (Path.ofShown file))
  match opening w.disk with
  | (.error e, disk) => (.error e, { w with disk })
  | (.ok broker, disk) =>
    let (result, after) :=
      (act broker.platform).followedBy Lifecycle.close.run { w with disk, broker }
    (result, { after with broker := w.broker })

/-- Runs the command that arguments make. -/
def run (args : List String) (w : World) : Report × World :=
  match Invocation.parse args with
  | none => (.misuse, w)
  | some i =>
    let caller : Caller := ⟨operator, i.tenant⟩
    let (result, w) :=
      if i.command = .version then execute caller {} i.command w
      else withBroker i.config (execute caller · i.command) w
    (.ofOutcome result, w)

end AppBroker.Console
