import AppBroker.Proofs.Custody

/-!
# Routed containers run

In every state that lifecycle operations reach together, in whatever order their calls are made and
whatever calls to the engine fail, each container in the table of routes is there and runs. A
container is published only after it was started, and nobody else may stop it in between, since its
application is held; it is retracted before it is stopped or removed, and stays so if that fails.
-/

namespace AppBroker

open Program Lifecycle

/-- Whether one of an application's containers with an id runs. -/
def World.Runs (w : World) (k : AppKey) (id : String) : Prop :=
  ∃ c ∈ w.engine.containers, c.id = id ∧ c.BelongsTo k ∧ c.isRunning = true

section Contracts

variable {platform : PlatformSettings} {lenient : Bool} {given : List Handle} {k : AppKey}
  {w : World}

theorem World.Runs.after {id : String} {w' : World} (h : w.Runs k id)
    (hl : World.Leaves k w w') : w'.Runs k id := by
  obtain ⟨c, hc, hid, hk, hr⟩ := h
  exact ⟨c, (hl.own c hk).2 hc, hid, hk, hr⟩

theorem World.Runs.owned {id : String} (h : w.Runs k id) (hw : w.InOrder lenient) :
    w.Owned k id := by
  obtain ⟨c, hc, rfl, hk, -⟩ := h
  exact (World.issued_of_mem hw.numbered hc hk).2

/-- Publishing a container that runs. -/
theorem meets_publishRoute {id : String} (endpoints : List Endpoint) (h : w.Runs k id) :
    (perform (.route (.publish id endpoints))).Meets (sharing lenient given) k
      (ends (fun _ _ => True) fun _ _ => True) w := by
  refine .perform fun w' hs hr _ => ?_
  obtain ⟨routes, hm⟩ := hs.memory
  have hrun := h.after hr
  refine ⟨World.inOrder_route hs hm fun other ho => ?_, fun k' hne => ?_, fun w'' _ _ => ?_⟩
  · rcases (Table.mem_keys_insert routes id other endpoints).1 ho with rfl | ho
    · obtain ⟨c, hc, hid, -, hcr⟩ := hrun
      exact .inr ⟨c, hc, hid, hcr⟩
    · exact .inl ho
  · refine World.leaves_route hm (hrun.owned hs) hne fun other ho => ?_
    rw [RouteChange.apply, Table.mem_keys_insert]
    simp [ho]
  · rw [(World.answer_route hm _).1]
    trivial

/-- A call that has nothing to do with containers and routes. -/
theorem yields_sparing {c : Call} (hc : c.isSparing = true) :
    (perform c).Yields (sharing lenient given) k (fun _ _ => True) w :=
  .minor (minor_of_isSparing hc) fun _ _ _ _ _ _ _ _ => ends_true _ _

/-- The routes of a container that runs may be published, whatever comes of it. -/
theorem yields_publish {h : Handle} (hrun : w.Runs k h.id) :
    (publish platform h).Yields (sharing lenient given) k (fun _ _ => True) w :=
  meets_publish_of (fun _ _ _ hl hrun => hrun.after hl) (fun _ => minor_of_isSparing rfl)
    (fun _ => minor_of_isSparing rfl) (fun _ _ => minor_of_isSparing rfl)
    (fun endpoints _ hrun _ => Yields.meets (meets_publishRoute endpoints hrun)) hrun

/-- Whether a handle is known to be of a container of an application: the container was found, or
the handle was given. -/
def Known (given : List Handle) (k : AppKey) (w : World) (h : Handle) : Prop :=
  w.Issued k h.id ∨ (h ∈ given ∧ h.key = k)

theorem Known.after {h : Handle} {k' : AppKey} {w' : World} (hk : Known given k w h)
    (hl : World.Leaves k' w w') (hw' : w'.InOrder lenient) : Known given k w' h :=
  hk.imp (fun hi => hi.after hl hw') id

theorem Known.owned {h : Handle} (hk : Known given k w h)
    (ha : ∀ h ∈ given, w.Owned h.key h.id) : w.Owned k h.id := by
  rcases hk with hi | ⟨hg, rfl⟩
  · exact hi.2
  · exact ha h hg

theorem runs_changed {id : String} {c : Container} {w' : World} (hown : w.Owned k id)
    (hc : w.engine.find? id = some c)
    (hb : w.Became (Engine.changed w.engine.containers id .started) w') : w'.Runs k id := by
  obtain ⟨hmem, hid⟩ := Engine.find?_eq_some hc
  obtain ⟨_, _, _, rfl⟩ := hb
  exact ⟨c.started, List.mem_map.2 ⟨c, hmem, if_pos hid⟩, hid, hown c hmem hid, rfl⟩

theorem meets_start {h : Handle} (hk : Known given k w h) :
    (perform (.start h)).Meets (sharing lenient given) k
      (ends (fun _ w' => w'.Runs k h.id) fun _ _ => True) w := by
  refine .perform fun w' hs hr ha => ?_
  have hown := (hk.after hr hs).owned ha
  rcases w'.answer_start h hs.honest with ⟨e, he, hq⟩ | ⟨he, c, hc, ⟨hrun, hq⟩ | ⟨-, hb⟩⟩ <;> rw [he]
  · exact ⟨hq.same.inOrder hs, fun k' _ => hq.same.leaves k', fun _ _ _ => trivial⟩
  · refine ⟨hq.same.inOrder hs, fun k' _ => hq.same.leaves k', fun w'' _ hr' => ?_⟩
    obtain ⟨hmem, hid⟩ := Engine.find?_eq_some hc
    have hruns : w'.Runs k h.id := ⟨c, hmem, hid, hown c hmem hid, hrun⟩
    exact (hruns.after (hq.same.leaves k)).after hr'
  · exact ⟨hb.inOrder_changed hs (fun _ => rfl) (fun _ => rfl) fun _ _ => rfl,
      fun k' hne => hb.leaves_changed hown hne (fun _ => rfl) (fun _ => rfl) fun _ => rfl,
      fun w'' _ hr' => (runs_changed hown hc hb).after hr'⟩

theorem meets_restart {h : Handle} (hk : Known given k w h) :
    (perform (.restart h)).Meets (sharing lenient given) k
      (ends (fun _ w' => w'.Runs k h.id) fun _ _ => True) w := by
  refine .perform fun w' hs hr ha => ?_
  have hown := (hk.after hr hs).owned ha
  rcases w'.answer_restart h hs.honest with ⟨e, he, hq⟩ | ⟨he, c, hc, hb⟩ <;> rw [he]
  · exact ⟨hq.same.inOrder hs, fun k' _ => hq.same.leaves k', fun _ _ _ => trivial⟩
  · exact ⟨hb.inOrder_changed hs (fun _ => rfl) (fun _ => rfl) fun _ _ => rfl,
      fun k' hne => hb.leaves_changed hown hne (fun _ => rfl) (fun _ => rfl) fun _ => rfl,
      fun w'' _ hr' => (runs_changed hown hc hb).after hr'⟩

theorem meets_startOne {h : Handle} (hk : Known given k w h) :
    (startOne platform h).Meets (sharing lenient given) k (fun _ _ => True) w :=
  (Yields.bind (meets_start hk) fun _ _ _ hrun => yields_publish hrun :
    Yields _ _ _ (fun _ _ => True) _).meets

theorem meets_restartOne {h : Handle} (hk : Known given k w h) :
    (restartOne platform h).Meets (sharing lenient given) k (fun _ _ => True) w :=
  (Yields.bind (meets_restart hk) fun _ _ _ hrun => yields_publish hrun :
    Yields _ _ _ (fun _ _ => True) _).meets

/-- A container that is retracted has no routes. -/
theorem meets_retract {h : Handle} (hi : w.Issued k h.id) :
    (retract h).Meets (sharing lenient given) k
      (ends (fun _ w' => w'.Issued k h.id ∧ ¬ w'.Routed h.id) fun _ _ => True) w := by
  refine .bind (.attempt (.perform fun w' hs hr _ => ?_))
  obtain ⟨routes, hm⟩ := hs.memory
  have hi' := hi.after hr hs
  obtain ⟨hok, heng, hrouter⟩ := World.answer_route hm (.retract h.id)
  have hsound : (w'.answer (.route (.retract h.id))).2.InOrder lenient := by
    refine World.inOrder_route hs hm fun other ho => .inl ?_
    exact ((Table.mem_keys_erase routes h.id other).1 ho).2
  refine ⟨hsound, fun k' hne => ?_, fun w'' hs'' hr'' => ?_⟩
  · refine World.leaves_route hm hi'.2 hne fun other ho => ?_
    rw [RouteChange.apply, Table.mem_keys_erase]
    simp [ho]
  · rw [hok]
    have hissued : (w'.answer (.route (.retract h.id))).2.Issued k h.id := by
      unfold World.Issued World.Owned
      rw [heng]
      exact hi'
    have hnot : ¬ (w'.answer (.route (.retract h.id))).2.Routed h.id := by
      unfold World.Routed
      rw [World.routes_eq hrouter, RouteChange.apply, Table.mem_keys_erase]
      simp
    refine .done fun w₃ hs₃ hr₃ => ?_
    have hl := hr''.trans hr₃
    exact ⟨hissued.after hl hs₃, World.not_routed_after hissued hnot hl hs₃⟩

theorem meets_stopOne {h : Handle} (hi : w.Issued k h.id) :
    (stopOne h).Meets (sharing lenient given) k (ends (fun _ _ => True) fun _ _ => True) w := by
  refine .bind ((meets_retract hi).weaken fun r w₁ _ hr₁ => ?_)
  cases r with
  | error e => trivial
  | ok u =>
  obtain ⟨hi₁, hnot₁⟩ := hr₁
  refine .perform fun w' hs hr _ => ?_
  have hnot := World.not_routed_after hi₁ hnot₁ hr hs
  have hown := (hi₁.after hr hs).2
  rcases w'.answer_stop h hs.honest with ⟨e, he, hq⟩ | ⟨he, c, hc, ⟨-, hq⟩ | ⟨-, hb⟩⟩ <;> rw [he]
  · exact ⟨hq.same.inOrder hs, fun k' _ => hq.same.leaves k', fun _ _ _ => trivial⟩
  · exact ⟨hq.same.inOrder hs, fun k' _ => hq.same.leaves k', fun _ _ _ => trivial⟩
  · exact ⟨hb.inOrder_changed hs (fun _ => rfl) (fun _ => rfl) fun hrouted => absurd hrouted hnot,
      fun k' hne => hb.leaves_changed hown hne (fun _ => rfl) (fun _ => rfl) fun _ => rfl,
      fun _ _ _ => trivial⟩

theorem meets_destroyOne {h : Handle} (hi : w.Issued k h.id) :
    (destroyOne h).Meets (sharing lenient given) k (ends (fun _ _ => True) fun _ _ => True) w := by
  refine .bind ((meets_retract hi).weaken fun r w₁ _ hr₁ => ?_)
  cases r with
  | error e => trivial
  | ok u =>
  obtain ⟨hi₁, hnot₁⟩ := hr₁
  refine .perform fun w' hs hr _ => ?_
  have hnot := World.not_routed_after hi₁ hnot₁ hr hs
  have hown := (hi₁.after hr hs).2
  rcases w'.answer_destroy h hs.honest with ⟨hq, -⟩ | ⟨-, hb⟩
  · exact ⟨hq.same.inOrder hs, fun k' _ => hq.same.leaves k', fun _ _ _ => ends_true _ _⟩
  · exact ⟨hb.inOrder_without hs hnot, fun k' hne => hb.leaves_without hown hne,
      fun _ _ _ => ends_true _ _⟩

/-- What it takes to keep what applications share in order. Handles that are given are started only:
whether they are of a container at all is known no sooner than they are used. -/
theorem sharing_custody (k : AppKey) : Custody platform (sharing lenient given) lenient k
    (fun h w => Known given k w h) (fun h w => w.Issued k h.id) (fun _ => True) fun _ => True where
  given h k' w w' hs hl hk := hk.after hl hs
  stays h k' w w' hs hl hi := hi.after hl hs
  held h w := .inl
  start h w := meets_startOne
  restart h w hi := meets_restartOne (.inl hi)
  stop h w hi := Yields.meets (meets_stopOne hi)
  destroy h w hi := Yields.meets (meets_destroyOne hi)
  find htold service w := by
    refine .minor (minor_of_isSparing rfl) fun w' w'' hs hs'' _ _ hl _ => ?_
    cases hc : (w'.answer (.find k.name k.tenant service)).1 with
    | error e => trivial
    | ok found =>
      intro h hh
      have hissued := World.issued_of_find hs.numbered (hs.lenient_eq ▸ htold) hc h hh
      have hsame := w'.same_answer (c := .find k.name k.tenant service) rfl
      exact (hissued.after (hsame.leaves k) (hsame.inOrder hs)).after hl hs''
  create tag w _ := by
    refine .perform fun w' hs hl _ => ⟨World.inOrder_create hs tag,
      fun k' hne => World.leaves_create hs.numbered tag hne, fun w'' hs'' hl' => ?_⟩
    cases hc : (w'.answer (.create k.name k.tenant tag)).1 with
    | error e => trivial
    | ok h => exact (World.issued_of_create hs.numbered hc).after hl' hs''
  record w := (yields_sparing rfl).weaken fun _ _ _ _ _ _ => trivial
  compose framework services w := (yields_sparing rfl).weaken fun _ _ _ _ _ _ => trivial
  now _ w := (yields_sparing rfl).weaken fun _ _ _ _ _ _ _ _ => trivial
  growth _ _ _ _ _ _ _ := trivial
  addRecord r w _ := (yields_sparing rfl).meets
  rescale r scaling w _ _ := (yields_sparing rfl).meets
  removeRecord w := (yields_sparing rfl).meets
  warn severity text w := (yields_sparing rfl).meets

/-- Every turn of a request keeps what applications share in order. -/
theorem meets_turn {r : Request} (hnamed : lenient = false ∨ r.NamesApps)
    (hgiven : ∀ h ∈ r.handles, h ∈ given ∧ h.tenant = r.caller.tenant) (hcheck : r.check = .ok ())
    {name : String} (hname : name ∈ r.names) :
    (r.turn platform name).Meets (sharing lenient given) (r.caller.key name) (fun _ _ => True) w := by
  refine (sharing_custody _).turn hnamed hcheck hname fun h hh happ => .inr ⟨(hgiven h hh).1, ?_⟩
  rw [Handle.key, (hgiven h hh).2, happ]
  rfl

end Contracts

/-- Whatever lifecycle operations run together, in whatever order, and whatever calls to the engine
fail, every container that has a route is there and runs. -/
theorem routed_containers_run (platform : PlatformSettings) (requests : List Request) (w : World)
    (order : List Nat) (hmemory : ∃ routes, w.broker.router = .memory routes)
    (hrouted : w.RoutedRun)
    (hnumbered : Engine.Numbered w.engine.containers w.engine.made) (hhonest : w.engine.Honest)
    (hnamed : w.engine.lenient = false ∨ ∀ r ∈ requests, r.NamesApps)
    (hown : ∀ r ∈ requests, ∀ h ∈ r.handles, h.tenant = r.caller.tenant)
    (hgiven : Pool.Along (fun _ w => ∀ r ∈ requests, ∀ h ∈ r.handles, w.Owned h.key h.id)
      { world := w, tasks := requests.map (·.program platform) } order) :
    let reached :=
      (Pool.run { world := w, tasks := requests.map (·.program platform) } order).world
    ∃ routes, reached.broker.router = .memory routes ∧
      ∀ id ∈ routes.keys, ∃ c ∈ reached.engine.containers, c.id = id ∧ c.isRunning = true := by
  intro reached
  let t := sharing w.engine.lenient (requests.flatMap (·.handles))
  have hsound : t.sound w := ⟨hnumbered, hhonest, rfl, hmemory, hrouted⟩
  have hsafe : ∀ task ∈ requests.map (·.program platform), task.Safe t (fun _ _ => True) none w := by
    intro task htask
    obtain ⟨r, hr, rfl⟩ := List.mem_map.1 htask
    refine Request.safe_program (fun hcheck name hname w' _ _ => ?_) w
    exact meets_turn (hnamed.imp_right fun h => h r hr)
      (fun h hh => ⟨List.mem_flatMap.2 ⟨r, hr, hh⟩, hown r hr h hh⟩) hcheck hname
  have hallowed : Pool.Along t.allows { world := w, tasks := requests.map (·.program platform) }
      order := by
    refine hgiven.imp fun c w h h' hh' => ?_
    obtain ⟨r, hr, hh⟩ := List.mem_flatMap.1 hh'
    exact h r hr h' hh
  obtain ⟨inside, hkept⟩ := (Pool.Kept.start hsound hsafe fun _ => trivial).run
    (fun _ _ _ _ _ => trivial) hallowed
  obtain ⟨routes, hrouter⟩ := hkept.sound.memory
  refine ⟨routes, hrouter, fun id hid => hkept.sound.running id ?_⟩
  unfold World.Routed
  rwa [World.routes_eq hrouter]

/-! ## A container that is started while its tenant removes an application -/

namespace RoutedRunning

/-- The only container of an application, with a state. -/
def only (status : String) : Container where
  number := 1
  id := "c0001"
  name := "web-alice-app-00000001"
  status := status
  labels := [("cumulus.app", "web"), ("cumulus.namespace", "alice"), ("cumulus.service", ""),
    ("cumulus.tag", "python:3.9"), ("cumulus.sequence", "1000")]
  networks := [("cumulus", "")]

/-- The handle that its creation gave. -/
def given : Handle where
  id := "c0001"
  name := "web-alice-app-00000001"
  app := "web"
  tenant := "alice"
  service := ""
  tag := ⟨"python", "", "3.9", "", by decide⟩
  sequence := 1000

/-- A hub with the framework of the application. -/
def disk : Disk where
  entries := [(["plugins"], .directory), (["plugins", ".system"], .directory),
    (["plugins", ".system", "python"], .directory),
    (["plugins", ".system", "python", "3.9"], .directory),
    (["plugins", ".system", "python", "3.9", "manifest.yml"], .file (Text.encode
      "name: python\nversion: \"3.9\"\ncategory: framework\nendpoints: [\x7b\"port\": 8080\x7d]\n"))]

/-- An engine that has the container alone. -/
def world (status : String) (routes : Table String (List Endpoint)) : World where
  disk := disk
  engine := { containers := [only status], made := 1 }
  broker := { hub := ["plugins"], store := ["users"], router := .memory routes }

/-- The container is started while its tenant removes an application. -/
def requests (removed : String) : List Request :=
  [⟨⟨"alice", "alice"⟩, .startContainers [given]⟩, ⟨⟨"alice", "alice"⟩, .remove removed⟩]

theorem routedRun_world : (world "running" [("c0001", [])]).RoutedRun := by
  intro id hid
  obtain rfl : id = "c0001" := by
    simpa [world, World.Routed, World.routes, Table.keys] using hid
  exact ⟨_, List.mem_singleton_self _, rfl, rfl⟩

theorem numbered_world (status : String) (routes : Table String (List Endpoint)) :
    Engine.Numbered (world status routes).engine.containers
      (world status routes).engine.made where
  id_eq c hc := by
    rw [List.mem_singleton.1 hc]
    exact (by decide : "c0001" = Engine.idOf 1)
  le_made c hc := by
    rw [List.mem_singleton.1 hc]
    exact Nat.le_refl 1
  increasing := List.pairwise_singleton _ _

theorem routed_container_runs_until_removed :
    let w := world "running" [("c0001", [])]
    let reached := (Pool.run { world := w, tasks := (requests "web").map (·.program {}) }
      [0, 1, 0, 1, 0, 0, 0, 1, 1, 1, 1]).world
    ∃ routes, reached.broker.router = .memory routes ∧
      ∀ id ∈ routes.keys, ∃ c ∈ reached.engine.containers, c.id = id ∧ c.isRunning = true := by
  refine routed_containers_run {} (requests "web") (world "running" [("c0001", [])]) _
    ⟨_, rfl⟩ routedRun_world (numbered_world _ _) ?_ (.inl rfl) ?_ ?_
  · intro history r f h
    cases h
  · decide
  · decide +kernel

/-- An engine may take an empty name for any name. The removal of an application without a name then
destroys a container that somebody else starts, and its routes are published after that. -/
theorem route_outlives_container :
    let w := world "created" []
    let reached := (Pool.run
      { world := { w with engine.lenient := true }, tasks := (requests "").map (·.program {}) }
      [0, 0, 0, 0, 1, 1, 1, 1, 1, 0]).world
    reached.broker.router =
        .memory [("c0001", [⟨8080, "http", "/", "10.0.0.1", "web-alice.cumulus.local"⟩])] ∧
      reached.engine.containers = [] := by
  decide +kernel

end RoutedRunning

end AppBroker
