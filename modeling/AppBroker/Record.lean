import AppBroker.Value.Field

/-!
# Application records

A record says which plugins an application was created from, the framework first, how many
framework containers it should have, and when it was created.
-/

namespace AppBroker

/-- What the store keeps of an application. -/
structure Record where
  name : String
  plugins : List String
  scaling : Int := 1
  createdAt : Moment
  deriving DecidableEq, Repr

namespace Record

/-- The tag of the framework. -/
def framework (r : Record) : Outcome String :=
  match r.plugins with
  | tag :: _ => .ok tag
  | [] => fail .outOfRange

/-- The tags of the services. -/
def services (r : Record) : List String := r.plugins.drop 1

/-- Whether reading the fields takes the time from the clock. -/
def needsClock (entries : List (Value × Value)) : Bool :=
  (Value.get? entries "created_at").isNone

/-- Reads a record's fields; `now` is when a record without a time was created. -/
def ofFields (now : Moment) (entries : List (Value × Value)) : Checked Record :=
  Record.mk <$> Field.required entries "name" Field.text
    <*> Field.required entries "plugins" (Field.list Field.text)
    <*> Field.optional entries "scaling" 1 (Field.integerIn 1 none)
    <*> Field.optional entries "created_at" now Field.moment

end Record

end AppBroker
