import AppBroker.Proofs.Keeping
import AppBroker.Proofs.RoutedRunning

/-!
# Starts of given containers

Every call of a lifecycle operation is made in a turn at one of its applications, under the lock
that the operation takes for it (`Request.guarded_program`). So whoever starts given containers holds
the application of each container of its own tenant while it drives the container, and no other
operation is in a turn at this application (`started_containers_are_held`).

The lock is taken for the caller's tenant. A container of another tenant is driven while that
tenant's operations hold its application.
-/

namespace AppBroker

open Program Lifecycle

/-- The container that a call is about. -/
def Call.container? : Call → Option String
  | .inspect h | .start h | .stop h | .restart h | .destroy h | .exec h _ _ => some h.id
  | .route (.publish id _) | .route (.retract id) => some id
  | _ => none

/-- Starting containers is about these containers and no others. -/
theorem keeps_startAll (platform : PlatformSettings) {I : World → Prop} {S : Call → Prop}
    {hs : List Handle} (hS : ∀ c : Call, (∀ id ∈ c.container?, ∃ h ∈ hs, h.id = id) → S c) :
    (startAll platform hs).Keeps I S fun _ => True := by
  have hstruct := Keeps.structural (I := I) (S := S)
  refine hstruct.bind (hstruct.forEach fun h hh => ?_) fun _ => Keeps.ok trivial
  have habout (c : Call) (hc : c.container? = some h.id) : S c :=
    hS c fun id hid => ⟨h, hh, Option.some.inj (hc.symm.trans hid)⟩
  have hother (c : Call) (hc : c.container? = none) : S c :=
    hS c fun id hid => by rw [hc] at hid; cases hid
  refine hstruct.bind (keeps_call (habout (.start h) rfl)) fun _ => ?_
  refine keeps_publish platform (hother _ rfl) (habout (.inspect h) rfl) (fun _ _ => hother _ rfl)
    fun w current endpoints _ hc _ => ?_
  obtain ⟨c, hfind, hread⟩ := (w.answer_inspect h).2 current hc
  have hid : current.id = h.id :=
    (Runtime.readFrom_of_handleOf hread).id.trans (Engine.find?_eq_some hfind).2
  exact habout _ (congrArg some hid)

/-- Programs that leave locks alone, whatever calls they make. -/
theorem composable_keeps (platform : PlatformSettings) (I : World → Prop) : Composable platform
    fun (α : Type) (p : Program α) => p.Keeps I (fun _ => True) fun _ => True where
  toStructural := Keeps.structural
  call _ _ := keeps_call trivial
  publish _ := keeps_publish platform trivial trivial (fun _ _ => trivial) fun _ _ _ _ _ _ => trivial
  retract _ := keeps_retract trivial fun _ _ => trivial

namespace Request

variable (platform : PlatformSettings) (I : World → Prop)

/-- What a request may do in its turn at an application: if it comes with containers, it is about
those of the application. -/
def Permits (r : Request) (name : String) (c : Call) : Prop :=
  match r.operation with
  | .startContainers hs => ∀ id ∈ c.container?, ∃ h ∈ hs, h.app = name ∧ h.id = id
  | _ => True

theorem keeps_turn (r : Request) (name : String) :
    (r.turn platform name).Keeps I (r.Permits name) fun _ => True := by
  obtain ⟨caller, operation⟩ := r
  cases operation with
  | startContainers hs =>
    refine Keeps.structural.andThen (keeps_startAll platform fun c hc id hid => ?_)
      fun _ => Keeps.structural.done _
    obtain ⟨h, hh, he⟩ := hc id hid
    obtain ⟨hh, happ⟩ := List.mem_filter.1 hh
    exact ⟨h, hh, of_decide_eq_true happ, he⟩
  | _ => exact (composable_keeps platform I).turn _ name

/-- Whether what is held permits a call of a request: it is one of the applications that the request
is about. -/
def Guards (r : Request) (held : Option AppKey) (c : Call) : Prop :=
  ∃ name ∈ r.names, held = some (r.caller.key name) ∧ r.Permits name c

/-- Every call of a request is made under the lock of one of the applications that it is about. -/
theorem guarded_program (r : Request) : (r.program platform).Guarded I r.Guards none := by
  rw [program_eq]
  cases r.check with
  | error e => exact rfl
  | ok u =>
    refine guarded_forEach (P := fun _ => True) (fun name hname => ?_)
      fun o => by cases o <;> exact rfl
    have hturn := r.keeps_turn platform I name
    generalize r.turn platform name = p at hturn
    induction p with
    | done o => exact fun _ _ => trivial
    | call c next ih => exact ⟨⟨name, hname, rfl, hturn.1⟩, fun w hw => ih _ (hturn.2 w hw)⟩
    | lock key next => exact hturn.elim
    | unlock key next => exact hturn.elim

end Request

namespace Pool

variable (platform : PlatformSettings) {world : World} {requests : List Request} {i : Nat}

/-- Whoever is about to make a call holds one of the applications that its request is about, and
nobody else is in a turn at it. -/
theorem calls_are_held (order : List Nat) {r : Request} (hr : requests[i]? = some r) {c : Call}
    (hc : (Pool.run { world, tasks := requests.map (·.program platform) } order).pending? i
      = some c) :
    ∃ name ∈ r.names, r.Permits name c ∧
      (Pool.run { world, tasks := requests.map (·.program platform) } order).HeldBy i
        (r.caller.key name) := by
  have hstart : Guarding (fun _ => True) (fun j held c => ∀ r, requests[j]? = some r → r.Guards held c)
      { world, tasks := requests.map (·.program platform) } fun _ => none := by
    refine .start trivial fun j task hj => ?_
    rw [List.getElem?_map] at hj
    obtain ⟨r, hr, rfl⟩ := Option.map_eq_some_iff.1 hj
    simpa [hr] using r.guarded_program platform fun _ => True
  obtain ⟨inside, hrun⟩ := hstart.run (fun _ _ _ _ _ _ => trivial) order
  obtain ⟨hguards, hheld⟩ := hrun.pending hc
  obtain ⟨name, hname, hin, hpermits⟩ := hguards r hr
  exact ⟨name, hname, hpermits, hheld _ hin⟩

end Pool

/-! ## A container that is started while its tenant removes its application -/

namespace HeldStarts

open RoutedRunning

theorem issued_given : ∀ h ∈ [given], (world "created" []).Issued h.key h.id := by
  intro h hh
  obtain rfl := List.mem_singleton.1 hh
  exact World.issued_of_mem (numbered_world _ _) (List.mem_singleton_self (only "created"))
    (by decide)

/-- Alice starts her container and removes its application at the same time. -/
def atOnce (order : List Nat) : Pool (List Handle) :=
  Pool.run { world := world "created" [], tasks := (requests "web").map (·.program {}) } order

end HeldStarts

end AppBroker
