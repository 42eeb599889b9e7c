import AppBroker.Lifecycle
import AppBroker.Proofs.Together

/-!
# Requests

A request is a lifecycle operation and who asks for it. Its program checks it first, and then takes
a turn at each of its applications, one after the other, holding that application for the turn.
Only the start of given containers can be about several applications.
-/

namespace AppBroker

/-- An operation that may change applications. -/
inductive Operation where
  | create (name framework : String) (services : List String) (scaling : Int) (start : Bool)
  | startContainers (hs : List Handle)
  | start (name : String)
  | stop (name : String)
  | restart (name : String)
  | scale (name : String) (target : Int)
  | remove (name : String)

/-- An operation and who asks for it. -/
structure Request where
  caller : Caller
  operation : Operation

namespace Request

open Program Lifecycle

variable (platform : PlatformSettings)

/-- A program with nothing to give, as one that gives no handles. -/
def quietly (p : Program Unit) : Program (List Handle) :=
  p.andThen fun r => done (r.map fun _ => [])

/-- What a request does, as the broker does it. -/
def program (r : Request) : Program (List Handle) :=
  match r.operation with
  | .create name framework services scaling start =>
    Lifecycle.create platform r.caller name framework services scaling start
  | .startContainers hs => quietly (Lifecycle.startContainers platform r.caller hs)
  | .start name => quietly (Lifecycle.start platform r.caller name)
  | .stop name => quietly (Lifecycle.stop r.caller name)
  | .restart name => quietly (Lifecycle.restart platform r.caller name)
  | .scale name target => Lifecycle.scale platform r.caller name target
  | .remove name => quietly (Lifecycle.remove r.caller name)

/-- What is refused before anything is locked. -/
def check (r : Request) : Outcome Unit :=
  match r.operation with
  | .create name framework _ scaling _ => checkCreate r.caller name framework scaling
  | .scale _ target => if target < 1 then AppBroker.refuse (.invalid (.scaling target)) else .ok ()
  | .remove _ => r.caller.required.map fun _ => ()
  | _ => .ok ()

/-- The names of the applications that a request is about. -/
def names (r : Request) : List String :=
  match r.operation with
  | .create name .. | .start name | .stop name | .restart name | .scale name _ | .remove name =>
    [name]
  | .startContainers hs => appsOf hs

/-- The handles that come with a request. -/
def handles (r : Request) : List Handle :=
  match r.operation with
  | .startContainers hs => hs
  | _ => []

/-- Whether a request that looks for an application by its name gives a name. A name is checked when
an application is created. -/
def NamesApps (r : Request) : Prop :=
  match r.operation with
  | .create .. | .startContainers _ => True
  | .start name | .stop name | .restart name | .scale name _ | .remove name => name ≠ ""

/-- What a request does to one application while it holds it. -/
def turn (r : Request) (name : String) : Program (List Handle) :=
  match r.operation with
  | .create name framework services scaling start =>
    createHeld platform r.caller name framework services scaling start
  | .startContainers hs => quietly (startAll platform (hs.filter (·.app = name)))
  | .start name => quietly (startHeld platform r.caller name)
  | .stop name => quietly (stopHeld r.caller name)
  | .restart name => quietly (restartHeld platform r.caller name)
  | .scale name target => scaleHeld platform r.caller name target
  | .remove name => quietly (removeHeld name r.caller.tenant)

/-- Turns at several applications, one after the other. -/
def turns (r : Request) (names : List String) : Program (List Handle) :=
  (forEach (fun name => holding (r.caller.key name) (r.turn platform name)) names).bind
    fun results => done (.ok results.flatten)

theorem tenant_ne_empty {c : Caller} {tenant : String} (h : c.required = .ok tenant) :
    c.tenant ≠ "" := by
  unfold Caller.required at h
  split at h
  · cases h
  · assumption

/-- What is known of a request to create an application that was let through. -/
theorem checkCreate_eq_ok {c : Caller} {name framework : String} {scaling : Int}
    (h : checkCreate c name framework scaling = .ok ()) :
    Name.isValid name = true ∧ framework ≠ "" ∧ 1 ≤ scaling ∧ c.tenant ≠ "" := by
  unfold checkCreate Name.check at h
  by_cases hname : Name.isValid name = true
  · by_cases hframework : framework = ""
    · simp [hname, hframework, Bind.bind, Except.bind, AppBroker.refuse] at h
    · by_cases hscaling : scaling < 1
      · simp [hname, hframework, hscaling, Bind.bind, Except.bind, AppBroker.refuse] at h
      · refine ⟨hname, hframework, by omega, ?_⟩
        cases hc : c.required with
        | ok tenant => exact tenant_ne_empty hc
        | error e =>
          simp [hname, hframework, hscaling, hc, Bind.bind, Except.bind] at h
  · simp [hname, Bind.bind, Except.bind, AppBroker.refuse] at h

theorem turns_single (r : Request) (name : String) :
    r.turns platform [name] = holding (r.caller.key name) (r.turn platform name) := by
  have hone : r.turns platform [name] = ((holding (r.caller.key name) (r.turn platform name)).bind
      fun hs => done (.ok [hs])).bind fun results => done (.ok results.flatten) := rfl
  rw [hone, bind_done, bind_done, andThen_assoc]
  refine Eq.trans ?_ (andThen_done _)
  congr 1
  funext o
  cases o <;> simp [andThen, Except.map]

/-- Starting given containers gives no handles, turn by turn as at the end. -/
theorem turns_quietly (caller : Caller) (hs : List Handle) (names : List String) :
    (⟨caller, .startContainers hs⟩ : Request).turns platform names
      = quietly ((forEach (fun app => holding (caller.key app)
          (startAll platform (hs.filter (·.app = app)))) names).bind fun _ => done (.ok ())) := by
  have hturn (name : String) :
      holding (caller.key name) ((⟨caller, .startContainers hs⟩ : Request).turn platform name)
        = (holding (caller.key name) (startAll platform (hs.filter (·.app = name)))).andThen
            fun r => done (r.map fun _ => []) :=
    (holding_map _ _ _).symm
  unfold turns
  simp only [hturn, forEach_map, bind_done, quietly, andThen_assoc, andThen]
  congr 1
  funext o
  cases o with
  | error e => rfl
  | ok units => simp [Except.map]

/-- A request is checked, and then has its turns. -/
theorem program_eq (r : Request) :
    r.program platform = (done r.check).bind fun _ => r.turns platform r.names := by
  obtain ⟨caller, operation⟩ := r
  cases operation with
  | create name framework services scaling start =>
    show Lifecycle.create .. = _
    simp only [check, names, turns_single]
    rfl
  | startContainers hs =>
    exact (turns_quietly platform caller hs _).symm
  | start name =>
    simp only [check, names, turns_single]
    exact holding_map _ _ _
  | stop name =>
    simp only [check, names, turns_single]
    exact holding_map _ _ _
  | restart name =>
    simp only [check, names, turns_single]
    exact holding_map _ _ _
  | scale name target =>
    simp only [check, names, turns_single, program, Lifecycle.scale]
    split <;> rfl
  | remove name =>
    simp only [check, names, turns_single]
    show quietly (Lifecycle.remove caller name) = _
    unfold Lifecycle.remove Caller.required
    split
    · rfl
    · exact holding_map _ _ _

variable {platform} in
/-- What no turn of a request takes from a world, the request does not when it runs by itself. -/
theorem run_program_keeps {I : World → Prop} {r : Request} {w : World}
    (hturn : r.check = .ok () → ∀ name ∈ r.names, ∀ w, I w → I ((r.turn platform name).run w).2)
    (hw : I w) : I ((r.program platform).run w).2 := by
  rw [program_eq]
  cases hcheck : r.check with
  | error e => exact hw
  | ok u =>
    show I ((r.turns platform r.names).run w).2
    unfold turns
    rw [bind_done, run_andThen]
    have hturns : I ((forEach (fun name => holding (r.caller.key name) (r.turn platform name))
        r.names).run w).2 :=
      run_forEach_keeps (fun name hname w hw => by
        rw [run_holding]
        exact hturn hcheck name hname w hw) hw
    exact hturns

section Safe

variable {platform} {t : Terms} {idle : AppKey → World → Prop}

/-- Turns at applications are safe, and so is what follows them, if each turn meets its contract. -/
theorem safe_forEach {α β δ : Type} {key : δ → AppKey} {f : δ → Program β} {ds : List δ}
    (hturn : ∀ d ∈ ds, ∀ w, t.sound w → idle (key d) w →
      (f d).Meets t (key d) (fun _ => idle (key d)) w)
    {g : Outcome (List β) → Program α} (hg : ∀ r w, (g r).Safe t idle none w) (w : World) :
    ((forEach (fun d => holding (key d) (f d)) ds).andThen g).Safe t idle none w := by
  induction ds generalizing g w with
  | nil => exact hg _ w
  | cons d ds ih =>
    unfold forEach Program.bind
    rw [andThen_assoc]
    refine .holding (hturn d (by simp)) fun r w' => ?_
    cases r with
    | error e => exact hg _ w'
    | ok b =>
      simp only [andThen_assoc]
      refine ih (fun d' hd => hturn d' (by simp [hd])) (fun r' w'' => ?_) w'
      cases r' <;> exact hg _ w''

theorem safe_program {r : Request} (hturn : r.check = .ok () → ∀ name ∈ r.names, ∀ w, t.sound w →
      idle (r.caller.key name) w →
      (r.turn platform name).Meets t (r.caller.key name) (fun _ => idle (r.caller.key name)) w)
    (w : World) : (r.program platform).Safe t idle none w := by
  rw [program_eq]
  cases hc : r.check with
  | error e => exact rfl
  | ok u => exact safe_forEach (hturn hc) (fun o w' => by cases o <;> exact rfl) w

end Safe

end Request

end AppBroker
