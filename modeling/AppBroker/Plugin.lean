import AppBroker.Text.Integer
import AppBroker.Value.Field

/-!
# Plugins

A plugin is a framework or a service that applications are composed of. Its manifest names it,
gives its version, and lists the endpoints it listens on. `Plugin.ofFields` reads a manifest's
entries; the display name falls back to the name when both of its spellings are empty.
-/

namespace AppBroker

/-- What a plugin is for. -/
inductive Category where
  | framework | service
  deriving DecidableEq, Repr

namespace Category

/-- The word for a category. -/
def word : Category → String
  | framework => "framework"
  | service => "service"

/-- The category that a word stands for. -/
def ofWord? (s : String) : Option Category :=
  if s = "framework" then some framework
  else if s = "service" then some service
  else none

end Category

/-- A network endpoint of a plugin. Host and frontend are empty until the endpoint is bound to a
running container. -/
structure Endpoint where
  port : Int
  protocol : String := "http"
  path : String := "/"
  host : String := ""
  frontend : String := ""
  deriving DecidableEq, Repr

namespace Endpoint

/-- The endpoint at a container's address, under a public host name. -/
def bind (e : Endpoint) (host frontend : String) : Endpoint := { e with host, frontend }

/-- Reads an endpoint's fields. -/
def ofFields (entries : List (Value × Value)) : Checked Endpoint :=
  Endpoint.mk <$> Field.required entries "port" (Field.integerIn 1 (some 65535))
    <*> Field.optional entries "protocol" "http" Field.text
    <*> Field.optional entries "path" "/" Field.text
    <*> Field.optional entries "host" "" Field.text
    <*> Field.optional entries "frontend" "" Field.text

end Endpoint

/-- An installed plugin. The tenant is empty in the system scope, and the path is where it lies on
disk. -/
structure Plugin where
  name : String
  displayName : String
  version : String
  category : Category
  shared : Bool := false
  endpoints : List Endpoint := []
  description : String := ""
  vendor : String := ""
  tenant : String := ""
  path : String := ""
  deriving DecidableEq, Repr

namespace Plugin

/-- The plugin without its place on disk. -/
def «public» (p : Plugin) : Plugin := { p with path := "" }

/-- The two spellings of the display name. -/
def displayKey : String := "display_name"

/-- The spelling that is looked at first. -/
def displayAlias : String := "display-name"

/-- Whether a display name is given under a key. -/
def hasDisplayName (entries : List (Value × Value)) (key : String) : Bool :=
  match Value.get? entries key with
  | some v => v.isTruthy
  | none => false

/-- Without a display name the name, whatever it is, takes its place under the second spelling. -/
def withDefaultDisplayName (entries : List (Value × Value)) : List (Value × Value) :=
  if hasDisplayName entries displayKey || hasDisplayName entries displayAlias then entries
  else
    let name := (Value.get? entries "name").getD (.text "")
    Value.insert entries (.text displayKey) name

/-- Reads the display name under the first of its spellings that is there. -/
def displayName? (entries : List (Value × Value)) : Checked String :=
  match Value.get? entries displayAlias with
  | some v => (Field.text v).at displayAlias
  | none => Field.optional entries displayKey "" Field.text

/-- Reads a version; a whole number stands for its digits. -/
def versionText : Field.Reader String
  | .int n =>
    match Text.numeral? n with
    | some digits => Field.nonEmptyText (.text digits)
    | none => .issue .refusedValue
  | v => Field.nonEmptyText v

/-- Reads a category. -/
def category? : Field.Reader Category :=
  Field.choice true .notInCategory [("framework", .framework), ("service", .service)]

/-- Reads a plugin's fields; unknown ones are ignored. -/
def ofFields (entries : List (Value × Value)) : Checked Plugin :=
  let entries := withDefaultDisplayName entries
  Plugin.mk <$> Field.required entries "name" Field.nonEmptyText
    <*> displayName? entries
    <*> Field.required entries "version" versionText
    <*> Field.required entries "category" category?
    <*> Field.optional entries "shared" false Field.boolean
    <*> Field.optional entries "endpoints" [] (Field.sequence (Field.record Endpoint.ofFields))
    <*> Field.optional entries "description" "" Field.text
    <*> Field.optional entries "vendor" "" Field.text
    <*> Field.optional entries "namespace" "" Field.text
    <*> Field.optional entries "path" "" Field.text

end Plugin

end AppBroker
