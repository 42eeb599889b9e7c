import AppBroker.Proofs.Request
import AppBroker.Proofs.Sharing

/-!
# How operations are put together

Every lifecycle operation is put together of calls by doing one thing after another, and touches the
router in two places only: where it publishes a container and where it retracts one. What holds of
programs that do nothing, carries over to one program after another, and holds of these parts,
therefore holds of every operation.
-/

namespace AppBroker

namespace Program

variable {S : (α : Type) → Program α → Prop}

/-- What holds of whatever is put together of programs of which it holds. -/
structure Structural (S : (α : Type) → Program α → Prop) : Prop where
  done : ∀ {α : Type} (r : Outcome α), S α (.done r)
  andThen : ∀ {α β : Type} {p : Program β} {f : Outcome β → Program α},
    S β p → (∀ r, S α (f r)) → S α (p.andThen f)

namespace Structural

variable {α β : Type} (hS : Structural S)
include hS

theorem bind {p : Program β} {f : β → Program α} (hp : S β p) (hf : ∀ b, S α (f b)) :
    S α (p.bind f) :=
  hS.andThen hp fun r => by
    cases r with
    | ok b => exact hf b
    | error e => exact hS.done _

theorem attempt {p : Program α} (hp : S α p) : S (Except Refusal α) p.attempt :=
  hS.andThen hp fun r => by rcases r with (r | b) | a <;> exact hS.done _

theorem forEach {f : β → Program α} {bs : List β} (hf : ∀ b ∈ bs, S α (f b)) :
    S (List α) (Program.forEach f bs) := by
  induction bs with
  | nil => exact hS.done _
  | cons b bs ih =>
    exact hS.bind (hf b List.mem_cons_self) fun a =>
      hS.bind (ih fun b hb => hf b (List.mem_cons_of_mem _ hb)) fun as => hS.done _

end Structural

end Program

namespace Lifecycle

open Program

/-- What carries over to whole operations and holds of the parts that they are put together of. -/
structure Composable (platform : PlatformSettings) (S : (α : Type) → Program α → Prop) : Prop
    extends Structural S where
  call : ∀ c : Call, c.isUnrouted = true → S c.Value (perform c)
  publish : ∀ h, S Unit (publish platform h)
  retract : ∀ h, S Unit (retract h)

namespace Composable

variable {platform : PlatformSettings} {S : (α : Type) → Program α → Prop}
  (hS : Composable platform S)
include hS

theorem startAll (hs : List Handle) : S Unit (startAll platform hs) :=
  hS.bind (hS.forEach fun h _ => hS.bind (hS.call (.start h) rfl) fun _ => hS.publish h)
    fun _ => hS.done _

theorem restartAll (hs : List Handle) : S (List Unit) (forEach (restartOne platform) hs) :=
  hS.forEach fun h _ => hS.bind (hS.call (.restart h) rfl) fun _ => hS.publish h

theorem stopOne (h : Handle) : S Unit (stopOne h) :=
  hS.bind (hS.retract h) fun _ => hS.call (.stop h) rfl

theorem destroyOne (h : Handle) : S Unit (destroyOne h) :=
  hS.bind (hS.retract h) fun _ => hS.call (.destroy h) rfl

theorem sweep {act : Handle → Program Unit} (hact : ∀ h, S Unit (act h)) (hs : List Handle) :
    S (Option Refusal) (sweep act hs) := by
  induction hs with
  | nil => exact hS.done _
  | cons h hs ih =>
    refine hS.bind (hS.attempt (hact h)) fun r => ?_
    rcases r with r | u
    · exact hS.bind (hS.call (.warn .warning r.message) rfl) fun _ => hS.bind ih fun _ => hS.done _
    · exact ih

theorem sweepStrictly {act : Handle → Program Unit} (hact : ∀ h, S Unit (act h))
    (hs : List Handle) : S Unit (sweepStrictly act hs) :=
  hS.bind (hS.sweep hact hs) fun failure => by cases failure <;> exact hS.done _

theorem recordOf (caller : Caller) (name : String) : S Record (recordOf caller name) := by
  unfold Lifecycle.recordOf Caller.required
  split
  · exact hS.done _
  · exact hS.bind (p := perform (.record caller.tenant name)) (hS.call _ rfl) fun r => by
      cases r <;> exact hS.done _

/-- What is done to all containers of an application that has a record. -/
theorem found (caller : Caller) (name : String) {act : List Handle → Program Unit}
    (hact : ∀ hs, S Unit (act hs)) :
    S Unit ((Lifecycle.recordOf caller name).bind fun _ =>
      (perform (.find name caller.tenant none)).bind act) :=
  hS.bind (hS.recordOf caller name) fun _ => hS.bind (hS.call (.find ..) rfl) hact

theorem createAll (app tenant : String) (tags : List Tag) :
    S (List Handle) (createAll app tenant tags) :=
  hS.forEach fun _ _ => hS.call (.create ..) rfl

theorem populate (name tenant : String) (tags : List Tag) (scaling : Int) :
    S (List Handle) (populate name tenant tags scaling) :=
  hS.bind (hS.createAll name tenant _) fun _ => hS.bind (hS.createAll name tenant _) fun _ => hS.done _

theorem rollBack (name tenant : String) : S Unit (rollBack name tenant) := by
  refine hS.bind (hS.attempt (hS.bind (hS.call (.find ..) rfl) (hS.sweepStrictly hS.destroyOne)))
    fun cleaned => ?_
  rcases cleaned with r | u
  · exact hS.bind (hS.call (.warn ..) rfl) fun _ => hS.call (.removeRecord ..) rfl
  · exact hS.call (.removeRecord ..) rfl

theorem populateOrUndo (name tenant : String) (tags : List Tag) (scaling : Int) :
    S (List Handle) (populateOrUndo name tenant tags scaling) := by
  refine hS.bind (hS.attempt (hS.populate name tenant tags scaling)) fun populated => ?_
  rcases populated with r | handles
  · exact hS.bind (hS.call (.warn ..) rfl) fun _ => hS.bind (hS.rollBack name tenant) fun _ => hS.done _
  · exact hS.done _

theorem createHeld (caller : Caller) (name framework : String) (services : List String)
    (scaling : Int) (start : Bool) :
    S (List Handle) (createHeld platform caller name framework services scaling start) := by
  refine hS.bind (p := perform (.record caller.tenant name)) (hS.call _ rfl) fun found => ?_
  dsimp only
  split
  · exact hS.done _
  refine hS.bind (p := perform (.compose caller.tenant framework services)) (hS.call _ rfl)
    fun composition => ?_
  refine hS.bind (p := perform .now) (hS.call _ rfl) fun createdAt => ?_
  refine hS.bind (hS.call (.addRecord ..) rfl) fun _ =>
    hS.bind (hS.populateOrUndo name caller.tenant _ scaling) fun handles => ?_
  split
  · exact hS.bind (hS.startAll handles) fun _ => hS.done _
  · exact hS.done _

theorem adjust (caller : Caller) (r : Record) (name : String) (current : List Handle)
    (target : Int) : S Unit (adjust platform caller r name current target) := by
  unfold Lifecycle.adjust
  split
  · unfold grow
    refine hS.bind (p := .done _) (hS.done _) fun tag =>
      hS.bind (hS.createAll name caller.tenant _) fun added => ?_
    split
    · exact hS.startAll added
    · exact hS.done _
  · split
    · exact hS.sweepStrictly hS.destroyOne _
    · exact hS.done _

theorem scaleHeld (caller : Caller) (name : String) (target : Int) :
    S (List Handle) (scaleHeld platform caller name target) := by
  refine hS.bind (hS.recordOf caller name) fun r =>
    hS.bind (p := frameworkContainers caller name) (hS.call (.find ..) rfl) fun current =>
      hS.bind (hS.adjust caller r name current target) fun _ => ?_
  split
  · exact hS.bind (hS.call (.replaceRecord ..) rfl) fun _ => hS.call (.find ..) rfl
  · exact hS.call (.find ..) rfl

theorem removeHeld (name tenant : String) : S Unit (removeHeld name tenant) := by
  refine hS.bind (p := perform (.record tenant name)) (hS.call _ rfl) fun record =>
    hS.bind (hS.call (.find name tenant none) rfl) fun handles => ?_
  dsimp only
  split
  · exact hS.done _
  refine hS.bind (hS.sweep hS.destroyOne handles) fun failure => ?_
  split
  · refine hS.bind (hS.call (.removeRecord ..) rfl) fun _ => ?_
    cases failure <;> exact hS.done _
  · cases failure <;> exact hS.done _

/-- What carries over to whole operations holds of every turn of a request. -/
theorem turn (r : Request) (name : String) : S (List Handle) (r.turn platform name) := by
  obtain ⟨caller, operation⟩ := r
  have hquietly {p : Program Unit} (hp : S Unit p) : S (List Handle) (Request.quietly p) :=
    hS.andThen hp fun _ => hS.done _
  cases operation with
  | create name' framework services scaling start =>
    exact hS.createHeld caller name' framework services scaling start
  | startContainers hs => exact hquietly (hS.startAll _)
  | start name' => exact hquietly (hS.found caller name' hS.startAll)
  | stop name' => exact hquietly (hS.found caller name' (hS.sweepStrictly hS.stopOne))
  | restart name' =>
    exact hquietly (hS.found caller name' fun hs => hS.bind (hS.restartAll hs) fun _ => hS.done _)
  | scale name' target => exact hS.scaleHeld caller name' target
  | remove name' => exact hquietly (hS.removeHeld name' caller.tenant)

/-- What holds of a program as well when a lock is held around it holds of every request. -/
theorem program (hheld : ∀ {α : Type} (k : AppKey) {p : Program α}, S α p → S α (holding k p))
    (r : Request) : S (List Handle) (r.program platform) := by
  rw [Request.program_eq]
  exact hS.bind (hS.done _) fun _ =>
    hS.bind (hS.forEach fun name _ => hheld _ (hS.turn r name)) fun _ => hS.done _

/-- Routing everything anew publishes containers only, after all routes were dropped. -/
theorem resync (hclear : S Unit (perform (.route .clear))) : S Nat (resync platform) := by
  have happ (tenant : String) (r : Record) : S Nat (resyncApp platform tenant r) :=
    hS.bind (hS.call (.find ..) rfl) fun hs =>
      hS.bind (hS.forEach fun h _ => hS.publish h) fun _ => hS.done _
  have htenant (tenant : String) : S Nat (resyncTenant platform tenant) :=
    hS.bind (p := perform (.records tenant)) (hS.call _ rfl) fun rs =>
      hS.bind (hS.forEach fun r _ => happ tenant r) fun _ => hS.done _
  exact hS.bind hclear fun _ => hS.bind (p := perform .tenants) (hS.call _ rfl) fun tenants =>
    hS.bind (hS.forEach fun tenant _ => htenant tenant) fun _ => hS.done _

end Composable

end Lifecycle

end AppBroker
