import AppBroker.Proofs.RouteCalls
import AppBroker.Proofs.RoutedRunning
import AppBroker.Proofs.Structural

/-!
# Containers do not hang on routing

Two runs of the same operations, in worlds that differ in their routers and in what routing services
reply, go the same way. No call but those to the router looks at it, and where a container is
published or retracted a refusal by the router is warned of, and what follows is the same as after a
success. So the engine is asked for the same things in the same order, and every operation ends with
the same outcome, containers and records, whichever changes of the routes are refused.
-/

namespace AppBroker

open Program Lifecycle

/-- Whether an event is something done to containers or deployments, and no request to a routing
service or notice. -/
def Event.isDeed : Event → Bool
  | .engine _ | .deployed _ _ _ => true
  | .request _ | .notice _ _ => false

namespace World

/-- Worlds that differ at most in the router, the replies to come, and what the trace tells of
requests and warnings. -/
def Alike (w w' : World) : Prop :=
  ∃ router replies trace, w' = { w with broker := { w.broker with router }, replies, trace } ∧
    trace.filter Event.isDeed = w.trace.filter Event.isDeed

variable {w w' w₁ w₂ w₃ : World}

theorem Alike.refl (w : World) : Alike w w := ⟨_, _, _, rfl, rfl⟩

theorem Alike.symm (h : Alike w w') : Alike w' w := by
  obtain ⟨_, _, _, rfl, ht⟩ := h
  exact ⟨_, _, _, rfl, ht.symm⟩

theorem Alike.trans (h : Alike w₁ w₂) (h' : Alike w₂ w₃) : Alike w₁ w₃ := by
  obtain ⟨_, _, _, rfl, ht⟩ := h
  obtain ⟨_, _, _, rfl, ht'⟩ := h'
  exact ⟨_, _, _, rfl, ht'.trans ht⟩

theorem Alike.note (h : Alike w w') (event : Event) : Alike (w.note event) (w'.note event) := by
  obtain ⟨_, _, _, rfl, ht⟩ := h
  exact ⟨_, _, _, rfl, by simp only [World.note, List.filter_append, ht]⟩

theorem alike_note {event : Event} (he : event.isDeed = false) (w : World) :
    Alike w (w.note event) :=
  ⟨_, _, _, rfl, by simp [he]⟩

/-- Whatever becomes of a change of the routes, the rest of the world stays as it was. -/
theorem alike_route (change : RouteChange) (w : World) : Alike w (w.answer (.route change)).2 := by
  refine ⟨_, _, _, rfl, ?_⟩
  have hsent : ((w.broker.router.change w.replies change).sent.map Event.request).filter
      Event.isDeed = [] := by
    simp [List.filter_eq_nil_iff, Event.isDeed]
  simp only [List.filter_append, hsent, List.append_nil]

end World

/-- Whether an action goes the same way in worlds that differ in routing. -/
def Blind {α : Type} (m : Action World α) : Prop :=
  ∀ w w', World.Alike w w' → (m w).1 = (m w').1 ∧ World.Alike (m w).2 (m w').2

namespace Blind

open World

variable {α β : Type}

theorem bind {m : Action World α} {f : α → Action World β} (hm : Blind m) (hf : ∀ a, Blind (f a)) :
    Blind (m.bind f) := by
  intro w w' h
  obtain ⟨ho, hs⟩ := hm w w' h
  unfold Action.bind
  rcases hw : m w with ⟨o, w₁⟩
  rcases hw' : m w' with ⟨o', w₁'⟩
  rw [hw, hw'] at ho hs
  dsimp only at ho hs
  subst ho
  cases o with
  | ok a => exact hf a w₁ w₁' hs
  | error e => exact ⟨rfl, hs⟩

theorem look {f : World → Outcome α}
    (hf : ∀ w router replies trace, f { w with broker := { w.broker with router }, replies, trace }
      = f w) : Blind (World.look f) := by
  rintro w _ ⟨_, _, _, rfl, ht⟩
  exact ⟨(hf w _ _ _).symm, _, _, _, rfl, ht⟩

theorem load (tenant : String) : Blind (World.load tenant) := by
  rintro w _ ⟨_, _, _, rfl, ht⟩
  exact ⟨rfl, _, _, _, rfl, ht⟩

theorem rewrite (tenant : String) (f : Table String Record → Outcome (Table String Record)) :
    Blind (World.rewrite tenant f) := by
  refine (load tenant).bind fun records => ?_
  rintro w _ ⟨_, _, _, rfl, ht⟩
  dsimp only
  split <;> exact ⟨rfl, _, _, _, rfl, ht⟩

theorem withSource {f : SourceControl → Action World α} (hf : ∀ source, Blind (f source)) :
    Blind (World.withSource f) := by
  rintro w _ ⟨_, _, _, rfl, ht⟩
  unfold World.withSource
  dsimp only
  split
  · exact ⟨rfl, _, _, _, rfl, ht⟩
  · exact hf _ _ _ ⟨_, _, _, rfl, ht⟩

theorem connect : Blind Runtime.connect := by
  rintro w _ ⟨_, _, _, rfl, ht⟩
  unfold Runtime.connect
  dsimp only
  split
  · exact ⟨rfl, _, _, _, rfl, ht⟩
  · split <;> exact ⟨rfl, _, _, _, rfl, ht⟩

theorem blame {operation : String} {app container : Option String} {m : Action World α}
    (hm : Blind m) : Blind (Runtime.blame operation app container m) := by
  intro w w' h
  obtain ⟨ho, hs⟩ := hm w w' h
  rw [Runtime.blame_snd, Runtime.blame_snd]
  refine ⟨?_, hs⟩
  unfold Runtime.blame
  rcases hw : m w with ⟨o, w₁⟩
  rcases hw' : m w' with ⟨o', w₁'⟩
  rw [hw, hw'] at ho
  obtain rfl : o = o' := ho
  rcases o with (r | b) | a
  · rfl
  · cases b <;> rfl
  · rfl

theorem call (operation : String) (app container : Option String) (m : Runtime.EngineCall α)
    (effect : Option EngineEffect) : Blind (Runtime.call operation app container m effect) := by
  refine (blame connect).bind fun _ => ?_
  rintro w _ ⟨_, _, _, rfl, ht⟩
  dsimp only
  cases (m w.engine).1 with
  | error f => exact ⟨rfl, _, _, _, rfl, ht⟩
  | ok a =>
    cases effect with
    | none => exact ⟨rfl, _, _, _, rfl, ht⟩
    | some effect =>
      exact ⟨rfl, _, _, _, rfl, by simp only [World.note, List.filter_append, ht]⟩

/-- An action that goes by the outcome of a part of it. -/
theorem of_cases {m : Action World α} {n : Action World β} (hm : Blind m)
    (herror : ∀ e w w' w₁ w₁', m w = (.error e, w₁) → m w' = (.error e, w₁') → Alike w₁ w₁' →
      (n w).1 = (n w').1 ∧ Alike (n w).2 (n w').2)
    (hok : ∀ a w w' w₁ w₁', m w = (.ok a, w₁) → m w' = (.ok a, w₁') → Alike w₁ w₁' →
      (n w).1 = (n w').1 ∧ Alike (n w).2 (n w').2) : Blind n := by
  intro w w' h
  obtain ⟨ho, hs⟩ := hm w w' h
  rcases hw : m w with ⟨o, w₁⟩
  rcases hw' : m w' with ⟨o', w₁'⟩
  rw [hw, hw'] at ho hs
  obtain rfl : o = o' := ho
  cases o with
  | error e => exact herror e w w' w₁ w₁' hw hw' hs
  | ok a => exact hok a w w' w₁ w₁' hw hw' hs

theorem create (app tenant : String) (tag : Tag) : Blind (Runtime.create app tenant tag) := by
  refine bind (m := Runtime.nextSerial) ?_ fun given => ?_
  · rintro w _ ⟨_, _, _, rfl, ht⟩
    exact ⟨rfl, _, _, _, rfl, ht⟩
  intro w w' h
  have hruntime : w'.broker.runtime = w.broker.runtime := by
    obtain ⟨_, _, _, rfl, -⟩ := h
    rfl
  obtain ⟨ho, hs⟩ := call "create" (some app) none (·.create ⟨tenant, app⟩
    (Runtime.specOf w.broker.runtime app tenant tag given.1 given.2)) (some (.create
      (Runtime.specOf w.broker.runtime app tenant tag given.1 given.2))) w w' h
  dsimp only
  rw [hruntime]
  by_cases hnumeral : (Text.numeral? given.2).isNone = true
  · rw [if_pos hnumeral, if_pos hnumeral]
    exact ⟨rfl, h⟩
  rw [if_neg hnumeral, if_neg hnumeral]
  split <;> rename_i hw <;> split <;> rename_i hw' <;> rw [hw, hw'] at ho hs <;> cases ho
  · exact ⟨rfl, hs⟩
  · exact ⟨rfl, hs⟩

theorem find (app tenant : String) (service : Option String) :
    Blind (Runtime.find app tenant service) := by
  refine of_cases (call "find" (some app) none (·.list ⟨tenant, app⟩ (filters app tenant service))
    none) ?_ ?_ <;> intro a w w' w₁ w₁' hw hw' hs <;> unfold Runtime.find <;>
    unfold filters at hw hw' <;> dsimp only <;> rw [hw, hw']
  · exact ⟨rfl, hs⟩
  · obtain ⟨_, _, _, rfl, ht⟩ := hs
    exact ⟨rfl, _, _, _, rfl, ht⟩

theorem inspect (h : Handle) : Blind (Runtime.inspect h) := by
  refine of_cases (call "inspect" (some h.app) (some h.name) (·.get h.key h.id) none) ?_ ?_ <;>
    intro a w w' w₁ w₁' hw hw' hs <;> unfold Runtime.inspect <;> rw [hw, hw']
  · exact ⟨rfl, hs⟩
  · obtain ⟨_, _, _, rfl, ht⟩ := hs
    exact ⟨rfl, _, _, _, rfl, ht⟩

theorem change (operation : String) (h : Handle) (m : Runtime.EngineCall Unit)
    (effect : EngineEffect) : Blind (Runtime.change operation h m effect) := by
  refine of_cases (call operation (some h.app) (some h.name) (Runtime.settling m) none) ?_ ?_ <;>
    intro a w w' w₁ w₁' hw hw' hs <;> unfold Runtime.change <;> rw [hw, hw']
  · exact ⟨rfl, hs⟩
  · cases a
    · exact ⟨rfl, hs⟩
    · exact ⟨rfl, hs.note _⟩

/-- An action that reads how the runtime is set up. -/
theorem reading {f : RuntimeSettings → Action World α} (hf : ∀ settings, Blind (f settings)) :
    Blind fun w => f w.broker.runtime.settings w := by
  rintro w _ ⟨router, replies, trace, rfl, ht⟩
  exact hf _ _ _ ⟨_, _, _, rfl, ht⟩

theorem destroy (h : Handle) : Blind (Runtime.destroy h) := by
  refine of_cases (change "destroy" h (·.remove h.key h.id) (.remove h.id)) ?_ ?_ <;>
    intro a w w' w₁ w₁' hw hw' hs <;> unfold Runtime.destroy <;> rw [hw, hw']
  · rcases a with r | b
    · cases r with
      | engine f =>
        dsimp only
        split <;> exact ⟨rfl, hs⟩
      | _ => exact ⟨rfl, hs⟩
    · exact ⟨rfl, hs⟩
  · exact ⟨rfl, hs⟩

theorem exec (h : Handle) (user : String) (command : List String) :
    Blind (Runtime.exec h user command) := by
  refine of_cases (call "exec" (some h.app) (some h.name) (·.exec h.key h.id command user)
    (some (.exec h.id command user))) ?_ ?_ <;> intro a w w' w₁ w₁' hw hw' hs <;>
    unfold Runtime.exec <;> rw [hw, hw'] <;> exact ⟨rfl, hs⟩

/-- No call but those to the router looks at it. -/
theorem answer {c : Call} (hc : c.isUnrouted = true) : Blind (World.answer c) := by
  cases c with
  | record tenant name =>
    refine (load tenant).bind fun _ => ?_
    exact fun w w' h => ⟨rfl, h⟩
  | records tenant =>
    refine (load tenant).bind fun _ => ?_
    exact fun w w' h => ⟨rfl, h⟩
  | tenants | compose | plugin => exact look fun w _ _ _ => rfl
  | addRecord tenant | replaceRecord tenant | removeRecord tenant => exact rewrite tenant _
  | now =>
    rintro w _ ⟨_, _, _, rfl, ht⟩
    exact ⟨rfl, _, _, _, rfl, ht⟩
  | create app tenant tag => exact create app tenant tag
  | find app tenant service => exact find app tenant service
  | inspect h => exact inspect h
  | start h => exact change "start" h _ _
  | stop h => exact reading fun settings => change "stop" h _ (.stop h.id settings.stopTimeout)
  | restart h =>
    exact reading fun settings => change "restart" h _ (.restart h.id settings.stopTimeout)
  | destroy h => exact destroy h
  | exec h user command => exact exec h user command
  | route => cases hc
  | deploy tenant name branch =>
    refine withSource fun source => ?_
    rintro w w' h
    have hnoted := h.note (.deployed tenant name branch)
    dsimp only
    split
    · exact ⟨rfl, hnoted⟩
    · obtain ⟨_, _, _, hw, ht⟩ := hnoted
      rw [hw]
      exact ⟨rfl, _, _, _, rfl, ht⟩
  | branches => exact withSource fun source w w' h => ⟨rfl, h⟩
  | disconnect =>
    rintro w w' h
    have hnoted := h.note (.engine .close)
    obtain ⟨_, _, _, rfl, ht⟩ := h
    show _ = _ ∧ Alike (Runtime.close _).2 (Runtime.close _).2
    unfold Runtime.close Action.modify
    dsimp only
    split
    · exact ⟨rfl, hnoted⟩
    · exact ⟨rfl, _, _, _, rfl, ht⟩
  | warn => exact fun w w' h => ⟨rfl, h.note _⟩

end Blind

/-- Whether the router, asked for a change, makes it or refuses it as routers may. -/
def World.Heeds (w : World) (change : RouteChange) : Prop :=
  match (w.answer (.route change)).1 with
  | .ok _ => True
  | .error (.refusal r) => r.isRouting = true
  | .error (.breakage _) => False

instance (w : World) (change : RouteChange) : Decidable (w.Heeds change) := by
  unfold World.Heeds
  split <;> infer_instance

/-- Whether a call, if it is one to the router, ends as calls to a router may. -/
def Call.Heeded : Call → World → Prop
  | .route change, w => w.Heeds change
  | _, _ => True

instance (c : Call) (w : World) : Decidable (c.Heeded w) := by
  unfold Call.Heeded
  split <;> infer_instance

/-- A table of routes never fails. -/
theorem World.heeds_of_memory {w : World} {routes : Table String (List Endpoint)}
    (h : w.broker.router = .memory routes) (change : RouteChange) : w.Heeds change := by
  unfold Heeds
  rw [(answer_route h change).1]
  trivial

/-- Whether a program goes the same way in worlds that differ in routing, as long as their routers
end every call as they may. -/
def Unswayed (α : Type) (p : Program α) : Prop :=
  ∀ w w', World.Alike w w' → p.Along Call.Heeded w → p.Along Call.Heeded w' →
    (p.run w).1 = (p.run w').1 ∧ World.Alike (p.run w).2 (p.run w').2

namespace Unswayed

variable {platform : PlatformSettings}

theorem structural : Structural Unswayed where
  done r w w' h _ _ := ⟨rfl, h⟩
  andThen {α β p f} hp hf w w' h ha ha' := by
    rw [along_andThen] at ha ha'
    obtain ⟨ho, hs⟩ := hp w w' h ha.1 ha'.1
    rw [run_andThen, run_andThen]
    rw [← ho] at ha' ⊢
    exact hf _ _ _ hs ha.2 ha'.2

theorem unrouted {c : Call} (hc : c.isUnrouted = true) : Unswayed c.Value (perform c) :=
  fun w w' h _ _ => Blind.answer hc w w' h

/-- An attempt to change the routes succeeds or is refused, and nothing else comes of it. -/
theorem attempt_route {change : RouteChange} {w : World} (h : w.Heeds change) :
    ∃ r : Except Refusal Unit, (attempt (perform (.route change))).run w =
        (.ok r, (w.answer (.route change)).2) ∧ ∀ e, r = .error e → e.isRouting = true := by
  have hrun : (perform (.route change)).run w = w.answer (.route change) := rfl
  unfold World.Heeds at h
  rw [attempt, run_andThen, hrun]
  rcases ho : (w.answer (.route change)).1 with (r | b) | u <;> rw [ho] at h
  · exact ⟨.error r, rfl, fun e he => Except.error.inj he ▸ h⟩
  · exact h.elim
  · exact ⟨.ok u, rfl, fun e he => by cases he⟩

/-- It makes no difference whether routes could be changed if what follows is at most a warning. -/
theorem shrug {change : RouteChange} {k : Except Refusal Unit → Program Unit}
    (hk : ∀ r w, (∀ e, r = .error e → e.isRouting = true) →
      ((k r).run w).1 = .ok () ∧ World.Alike w ((k r).run w).2) :
    Unswayed Unit ((attempt (perform (.route change))).bind k) := by
  have hend {w : World} (ha : ((attempt (perform (.route change))).bind k).Along Call.Heeded w) :
      (((attempt (perform (.route change))).bind k).run w).1 = .ok () ∧
        World.Alike w (((attempt (perform (.route change))).bind k).run w).2 := by
    obtain ⟨r, hr, hrouting⟩ := attempt_route (along_andThen.1 (along_andThen.1 ha).1).1.1
    rw [run_bind, hr]
    obtain ⟨ho, hs⟩ := hk r (w.answer (.route change)).2 hrouting
    exact ⟨ho, (w.alike_route change).trans hs⟩
  intro w w' h ha ha'
  obtain ⟨ho, hs⟩ := hend ha
  obtain ⟨ho', hs'⟩ := hend ha'
  exact ⟨ho.trans ho'.symm, hs.symm.trans (h.trans hs')⟩

theorem warned (severity : Severity) (text : String) (w : World) :
    ((warn severity text).run w).1 = .ok () ∧ World.Alike w ((warn severity text).run w).2 :=
  ⟨rfl, World.alike_note rfl w⟩

theorem retract (h : Handle) : Unswayed Unit (retract h) := by
  refine shrug fun r w hr => ?_
  rcases r with r | u
  · dsimp only
    rw [if_pos (hr r rfl)]
    exact warned _ _ w
  · exact ⟨rfl, .refl w⟩

/-- The routes of a container, or a warning. -/
theorem routed (h : Handle) (p : Plugin) : Unswayed Unit
    ((attempt (routeEndpoints platform h p)).bind fun
      | .ok () => done (.ok ())
      | .error r => warn .warning
        ("Failed to publish endpoints of " ++ h.name ++ ": " ++ r.message)) := by
  unfold routeEndpoints attempt Program.bind
  change Unswayed Unit ((((perform (.inspect h)).andThen _).andThen _).andThen _)
  rw [andThen_assoc, andThen_assoc]
  refine structural.andThen (unrouted rfl) fun found => ?_
  cases found with
  | error e =>
    rcases e with r | b
    · exact unrouted (c := .warn .warning
        ("Failed to publish endpoints of " ++ h.name ++ ": " ++ r.message)) rfl
    · exact structural.done _
  | ok current =>
    refine shrug fun r w _ => ?_
    rcases r with r | u
    · exact warned _ _ w
    · exact ⟨rfl, .refl w⟩

theorem publish (h : Handle) : Unswayed Unit (publish platform h) := by
  refine structural.bind (structural.attempt (unrouted (c := .plugin h.tag.withoutService) rfl))
    fun found => ?_
  rcases found with r | p
  · dsimp only
    split
    · exact unrouted rfl
    · exact structural.done _
  · dsimp only
    split
    · exact structural.done _
    · exact routed h p

theorem composable : Composable platform Unswayed where
  toStructural := structural
  call _ := unrouted
  publish := publish
  retract := retract

theorem program (r : Request) : Unswayed (List Handle) (r.program platform) :=
  composable.program (fun k p hp w w' h ha ha' => by
    rw [run_holding, run_holding]
    exact hp w w' h (along_holding.1 ha) (along_holding.1 ha')) r

end Unswayed

/-- A service takes or refuses a change that it can be told of, as it replies. -/
theorem Router.change_at_will {base : String} {token : Option String} {change : RouteChange}
    {sent : HttpRequest} (h : request base token change = .ok (sent, true))
    (replies : List HttpReply) :
    ((service base token).change (.status 200 :: replies) change).result = .ok () ∧
      ∃ message, ((service base token).change (.refused :: replies) change).result =
        AppBroker.refuse (.routing message) := by
  simp only [Router.change, h]
  refine ⟨?_, _, rfl⟩
  cases change <;> rfl

/-- Requests one after the other, whatever becomes of each; gives how each of them ended. -/
def Request.series (platform : PlatformSettings) :
    List Request → Program (List (Outcome (List Handle)))
  | [] => done (.ok [])
  | r :: rs => (r.program platform).andThen fun o =>
      (series platform rs).bind fun os => done (.ok (o :: os))

theorem Unswayed.series (platform : PlatformSettings) (requests : List Request) :
    Unswayed (List (Outcome (List Handle))) (Request.series platform requests) := by
  induction requests with
  | nil => exact structural.done _
  | cons r rs ih =>
    exact structural.andThen (program r) fun o => structural.bind ih fun os => structural.done _

/-- Whichever changes of the routes succeed and whichever are refused, operations end as they would
with any other router, the engine gets the same calls in the same order, and the same containers and
records are there in the end. -/
theorem routers_decide_nothing (platform : PlatformSettings) (requests : List Request) (w : World)
    (router router' : Router) (replies replies' : List HttpReply)
    (h : (Request.series platform requests).Along Call.Heeded { w.setRouter router with replies })
    (h' : (Request.series platform requests).Along Call.Heeded
      { w.setRouter router' with replies := replies' }) :
    let ended := (Request.series platform requests).run { w.setRouter router with replies }
    let ended' := (Request.series platform requests).run
      { w.setRouter router' with replies := replies' }
    ended.1 = ended'.1 ∧
      ended.2.engine.history = ended'.2.engine.history ∧
      ended.2.engine.containers = ended'.2.engine.containers ∧
      (∀ k, ended.2.recordAt k = ended'.2.recordAt k) ∧ ended.2.disk = ended'.2.disk ∧
      ended.2.trace.filter Event.isDeed = ended'.2.trace.filter Event.isDeed := by
  intro ended ended'
  obtain ⟨ho, router, replies, trace, hs, ht⟩ := Unswayed.series platform requests
    { w.setRouter router with replies } { w.setRouter router' with replies := replies' }
    ⟨_, _, _, rfl, rfl⟩ h h'
  refine ⟨ho, ?_⟩
  dsimp only [ended, ended']
  rw [hs]
  exact ⟨rfl, rfl, fun k => rfl, rfl, ht.symm⟩

/-- A service that refuses every change, and a table that takes it. -/
theorem refused_routes_decide_nothing :
    let w := RoutedRunning.world "created" []
    let requests := RoutedRunning.requests "web"
    let ended := (Request.series {} requests).run { w.setRouter (.memory []) with replies := [] }
    let ended' := (Request.series {} requests).run
      { w.setRouter (.service "http://127.0.0.1:8000" none) with
        replies := [.status 500, .status 503] }
    ended.1 = ended'.1 ∧
      ended.2.engine.history = ended'.2.engine.history ∧
      ended.2.engine.containers = ended'.2.engine.containers ∧
      (∀ k, ended.2.recordAt k = ended'.2.recordAt k) ∧ ended.2.disk = ended'.2.disk ∧
      ended.2.trace.filter Event.isDeed = ended'.2.trace.filter Event.isDeed :=
  routers_decide_nothing {} (RoutedRunning.requests "web") (RoutedRunning.world "created" [])
    (.memory []) (.service "http://127.0.0.1:8000" none) [] [.status 500, .status 503]
    (by decide +kernel) (by decide +kernel)

end AppBroker
