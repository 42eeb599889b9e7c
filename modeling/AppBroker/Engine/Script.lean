import AppBroker.Engine

/-!
# Scripted failures

A rule lets the calls of one verb fail, those about one key or all others, after a number of them
has gone through. From then on it fires for every call. Rules are a special case of failures that
are a function of the history: a rule looks at how many calls since it was made were under it.
-/

namespace AppBroker

/-- Lets calls about a key fail after `skip` of them went through; the key `*` stands for every
key without a rule of its own. -/
structure FaultRule where
  key : String
  fault : Fault
  skip : Nat := 0
  deriving Repr

namespace FaultRule

/-- The key of a rule for all other keys. -/
def anyKey : String := "*"

/-- The rule that covers a key. -/
def covering? (rules : List FaultRule) (key : String) : Option FaultRule :=
  (rules.find? (·.key = key)).or (rules.find? (·.key = anyKey))

/-- The failures that rules for a verb, made when the history was of some length, lead to. -/
def decide (verb : EngineVerb) (rules : List FaultRule) (since : Nat)
    (history : List EngineRequest) (request : EngineRequest) : Option Fault :=
  (covering? rules request.key).bind fun rule =>
    let earlier := (history.take (history.length - since)).filter fun r =>
      r.verb = verb && (covering? rules r.key).any (·.key = rule.key)
    if rule.skip ≤ earlier.length then some rule.fault else none

end FaultRule

/-- Replaces the rules of a verb. -/
def Engine.withRules (e : Engine) (verb : EngineVerb) (rules : List FaultRule) : Engine :=
  let since := e.history.length
  { e with faults := fun history request =>
      if request.verb = verb then FaultRule.decide verb rules since history request
      else e.faults history request }

end AppBroker
