import AppBroker.Proofs.CarefulCodec
import AppBroker.Proofs.Custody
import AppBroker.Proofs.HubConfined
import AppBroker.Proofs.Reachable
import AppBroker.Proofs.RouteCalls
import AppBroker.Proofs.RoutedRunning

/-!
# Applications and scopes are left alone

An operation on an application changes no other application: neither its record, though that lies in
the same file as those of the tenant's other applications, nor its containers, nor their routes,
though all routes are in one table. This is so at every point of a run, however operations go on
together and whatever fails (`World.Spares`). It rests on labels: an operation touches containers only
that carry the labels of the application which it holds. So it is not so with an engine that takes an
empty label for any, and an operation on an application without a name.

In the hub, installing and removing for one tenant changes nothing that the system scope or other
tenants' scopes give (`Hub.Agree`).
-/

namespace AppBroker

open Program Lifecycle

namespace RouteChange

/-- Whether a change of the routes is about a container. -/
def IsAbout (id : String) : RouteChange → Prop
  | publish other _ | retract other => other = id
  | clear => True

/-- A change leaves the routes alone that it is not about. -/
theorem get?_apply {change : RouteChange} {id : String} (h : ¬ change.IsAbout id)
    (routes : Table String (List Endpoint)) : (change.apply routes).get? id = routes.get? id := by
  cases change with
  | publish other endpoints => exact (Table.get?_insert _ _ _ _).trans (if_neg h)
  | retract other => exact (Table.get?_erase _ _ _).trans (if_neg h)
  | clear => exact absurd trivial h

end RouteChange

/-- The routing service that a router tells of changes, if it does not keep a table. -/
def Router.service? : Router → Option (String × Option String)
  | .memory _ => none
  | .service base token => some (base, token)

namespace World

/-- Whether an application is as it was: its record, its containers, and their routes. A routing
service may have been asked for changes, but for none that is about one of the containers. -/
structure Spares (w : World) (k : AppKey) (w' : World) : Prop where
  record : k.IsFiled → w'.recordAt k = w.recordAt k
  containers : w'.lineup k = w.lineup k
  service : w'.broker.router.service? = w.broker.router.service?
  routes : ∀ c ∈ w.lineup k, w'.routes.get? c.id = w.routes.get? c.id
  requests : ∃ events, w'.trace = w.trace ++ events ∧ ∀ r, .request r ∈ events →
    ∃ base token change isAbsolute, w.broker.router.service? = some (base, token) ∧
      Router.request base token change = .ok (r, isAbsolute) ∧
      ∀ c ∈ w.lineup k, ¬ change.IsAbout c.id

variable {w w' w₁ w₂ w₃ : World} {k k' : AppKey} {id : String}

theorem Spares.refl (k : AppKey) (w : World) : w.Spares k w :=
  ⟨fun _ => rfl, rfl, rfl, fun _ _ => rfl, [], by simp⟩

theorem Spares.trans (h : w₁.Spares k w₂) (h' : w₂.Spares k w₃) : w₁.Spares k w₃ where
  record hk := (h'.record hk).trans (h.record hk)
  containers := h'.containers.trans h.containers
  service := h'.service.trans h.service
  routes c hc := (h'.routes c (h.containers ▸ hc)).trans (h.routes c hc)
  requests := by
    obtain ⟨events, ht, hall⟩ := h.requests
    obtain ⟨events', ht', hall'⟩ := h'.requests
    refine ⟨events ++ events', by rw [ht', ht, List.append_assoc], fun r hr => ?_⟩
    rcases List.mem_append.1 hr with hr | hr
    · exact hall r hr
    · rw [← h.service, ← h.containers]
      exact hall' r hr

/-! ## What single calls leave alone -/

/-- A call that is not to the router can only change records and containers. -/
theorem spares_unrouted {c : Call} (hc : c.isUnrouted = true)
    (hrecord : k.IsFiled → (w.answer c).2.recordAt k = w.recordAt k)
    (hcontainers : (w.answer c).2.lineup k = w.lineup k) : w.Spares k (w.answer c).2 where
  record := hrecord
  containers := hcontainers
  service := by rw [router_answer w hc]
  routes c' _ := by
    unfold World.routes
    rw [router_answer w hc]
  requests := by
    obtain ⟨events, ht, hno⟩ := unasked_answer hc w
    exact ⟨events, ht, fun r hr => absurd hr (hno r)⟩

/-- A change of routes is no matter of containers that it is not about. -/
theorem spares_route {change : RouteChange} (h : ∀ c ∈ w.lineup k, ¬ change.IsAbout c.id) :
    w.Spares k (w.answer (.route change)).2 where
  record _ := rfl
  containers := rfl
  service := by
    show (w.broker.router.change w.replies change).router.service? = _
    cases w.broker.router with
    | memory routes => rfl
    | service base token => rw [Router.change_service]
  routes c hc := by
    cases hrouter : w.broker.router with
    | memory routes =>
      rw [routes_eq (answer_route hrouter change).2.2, routes_eq hrouter]
      exact RouteChange.get?_apply (h c hc) routes
    | service base token =>
      have hafter : (w.answer (.route change)).2.broker.router = .service base token := by
        show (w.broker.router.change w.replies change).router = _
        rw [hrouter, Router.change_service]
      unfold World.routes
      rw [hafter, hrouter]
  requests := by
    refine ⟨(w.broker.router.change w.replies change).sent.map .request, rfl, fun r hr => ?_⟩
    obtain ⟨sent, hsent, he⟩ := List.mem_map.1 hr
    obtain ⟨base, token, isAbsolute, hrouter, hrequest⟩ := Router.request_of_sent hsent
    obtain rfl := Event.request.inj he
    exact ⟨base, token, change, isAbsolute, by rw [hrouter]; rfl, hrequest, h⟩

/-- A container of another application has another id. -/
theorem Owned.ne_id (h : w.Owned k id) (hne : k' ≠ k) {c : Container} (hc : c ∈ w.lineup k') :
    c.id ≠ id := by
  obtain ⟨hmem, hk⟩ := mem_lineup.1 hc
  rintro rfl
  exact hne (hk.unique (h c hmem rfl))

theorem Became.lineup_changed {f : Container → Container}
    (h : w.Became (Engine.changed w.engine.containers id f) w') (hown : w.Owned k id) (hne : k' ≠ k)
    (hl : ∀ c, (f c).labels = c.labels) : w'.lineup k' = w.lineup k' := by
  obtain ⟨_, _, _, rfl⟩ := h
  unfold lineup Engine.changed
  have hlabels (c : Container) :
      (if c.id = id then f c else c).BelongsTo k' ↔ c.BelongsTo k' := by
    split
    · unfold Container.BelongsTo
      rw [hl]
    · rfl
  have hsame : (w.engine.containers.filter fun c =>
      decide ((if c.id = id then f c else c).BelongsTo k')) = w.lineup k' :=
    List.filter_congr fun c _ => decide_eq_decide.2 (hlabels c)
  rw [List.filter_map, show List.filter (_ ∘ _) _ = _ from hsame]
  refine (List.map_congr_left fun c hc => if_neg ?_).trans (List.map_id _)
  exact hown.ne_id hne hc

theorem Became.lineup_spared (h : w.Became (Engine.without w.engine.containers id) w')
    (hown : w.Owned k id) (hne : k' ≠ k) : w'.lineup k' = w.lineup k' := by
  rw [h.lineup_without, List.filter_eq_self]
  exact fun c hc => decide_eq_true (hown.ne_id hne hc)

/-- Containers of other applications stay what they are when one is driven or removed. -/
theorem spares_handling {h : Handle} {c : Call}
    (hc : c = .start h ∨ c = .stop h ∨ c = .restart h ∨ c = .destroy h) (hown : w.Owned k h.id)
    (hne : k' ≠ k) : w.Spares k' (w.answer c).2 := by
  have hquiet {w' : World} (hq : w.Quiet w') : w'.lineup k' = w.lineup k' := by
    unfold lineup
    rw [hq.containers]
  rcases hc with rfl | rfl | rfl | rfl
  · exact spares_unrouted rfl (fun _ => (steady_answer rfl).recordAt k')
      ((w.handled_start h).elim hquiet (·.lineup_changed hown hne fun _ => rfl))
  · exact spares_unrouted rfl (fun _ => (steady_answer rfl).recordAt k')
      ((w.handled_stop h).elim hquiet (·.lineup_changed hown hne fun _ => rfl))
  · exact spares_unrouted rfl (fun _ => (steady_answer rfl).recordAt k')
      ((w.handled_restart h).elim hquiet (·.lineup_changed hown hne fun _ => rfl))
  · refine spares_unrouted rfl (fun _ => ?_)
      ((w.handled_destroy h).elim hquiet (·.lineup_spared hown hne))
    rcases w.handled_destroy h with ⟨_, _, _, hw⟩ | ⟨_, _, _, hw⟩ <;> rw [hw] <;> rfl

/-- Making a container, or failing to, is no matter of other applications. -/
theorem spares_create (hw : Engine.Numbered w.engine.containers w.engine.made) (tag : Tag)
    (hne : k' ≠ k) : w.Spares k' (w.answer (.create k.name k.tenant tag)).2 := by
  refine spares_unrouted rfl (fun _ => ?_) ?_
  · rcases w.answer_create k.name k.tenant tag with ⟨-, _, _, _, hw'⟩ | ⟨-, w₁, ⟨_, _, _, rfl⟩, hw'⟩ <;>
      rw [hw'] <;> rfl
  · rcases w.lineup_create hw tag with ⟨-, hq⟩ | ⟨-, -, hlineup⟩
    · unfold lineup
      rw [hq.containers]
      rfl
    · rw [hlineup, if_neg hne, List.append_nil]

/-- Looking something up is no matter of any application. -/
theorem spares_look {c : Call} (hc : c.isSteady = true) (hc' : c.isSparing = true) (k : AppKey) :
    w.Spares k (w.answer c).2 := by
  refine spares_unrouted (by cases c <;> first | rfl | cases hc')
    (fun _ => (steady_answer hc).recordAt k) ?_
  unfold lineup
  rw [(w.same_answer hc').containers]

/-- What is written of one application is no matter of others. -/
theorem spares_write {c : Call} (hc : c.isUnrouted = true) (record : Option Record)
    (h : (∃ e, w.answer c = (.error e, w)) ∨ ∃ a w', w.answer c = (.ok a, w') ∧
      w.Wrote k.tenant w' ∧ ∀ k' : AppKey, k'.IsFiled →
        w'.recordAt k' = if k' = k then record else w.recordAt k')
    (hne : k' ≠ k) : w.Spares k' (w.answer c).2 := by
  rcases h with ⟨e, ha⟩ | ⟨a, w', ha, ⟨data, rfl⟩, hrecords⟩
  · rw [ha]
    exact .refl k' w
  · refine spares_unrouted hc (fun hk => ?_) ?_ <;> rw [ha]
    · rw [hrecords k' hk, if_neg hne]
    · rfl

/-- What is always true of a world in which applications are cared for. Of given handles it is known
that they tell the application of their container. -/
structure Regular (lenient : Bool) (given : List Handle) (w : World) : Prop where
  numbered : Engine.Numbered w.engine.containers w.engine.made
  lenient_eq : w.engine.lenient = lenient
  storing : w.Storing
  given : ∀ h ∈ given, w.Issued h.key h.id

theorem Regular.answer {lenient : Bool} {given : List Handle} {c : Call}
    (hw : w.Regular lenient given) (hc : c.Fits) : (w.answer c).2.Regular lenient given := by
  have haged := aged_answer hw.numbered c
  have hnumbered := haged.numbered hw.numbered
  exact ⟨hnumbered, haged.lenient.trans hw.lenient_eq, hw.storing.answer hc,
    fun h hh => (hw.given h hh).aged haged.ages hnumbered⟩

end World

/-- The terms on which applications are left alone, whatever fails. -/
def sparing (lenient : Bool) (given : List Handle) : Terms where
  sound := World.Regular lenient given
  rely k w w' := w.Ages w' ∧ w.Spares k w'
  allows _ _ := True
  rely_refl k w := ⟨.refl w, .refl k w⟩
  rely_trans _ _ _ _ h h' := ⟨h.1.trans h'.1, h.2.trans h'.2⟩

namespace Sparing

variable {platform : PlatformSettings} {lenient : Bool} {given : List Handle} {k : AppKey}
  {w : World}

theorem minor_look {c : Call} (hc : c.isSteady = true) (hc' : c.isSparing = true) (hfits : c.Fits) :
    Minor (sparing lenient given) c :=
  fun _ hw _ => ⟨hw.answer hfits, fun k =>
    ⟨(World.aged_answer hw.numbered c).ages, World.spares_look hc hc' k⟩⟩

theorem issued_after {id : String} {k' : AppKey} (w w' : World)
    (hs : (sparing lenient given).sound w') (hr : (sparing lenient given).rely k' w w')
    (h : w.Issued k id) : w'.Issued k id :=
  h.aged hr.1 hs.numbered

/-- A call that is no matter of other applications, on a condition that nobody else takes away. -/
theorem meets_call {c : Call} {I : World → Prop} (hc : c.Fits)
    (hI : ∀ w w', (sparing lenient given).sound w' → (sparing lenient given).rely k w w' →
      I w → I w')
    (h : ∀ w', World.Regular lenient given w' → I w' → ∀ k', k' ≠ k → w'.Spares k' (w'.answer c).2)
    (hw : I w) : (perform c).Meets (sparing lenient given) k (fun _ _ => True) w :=
  .perform fun w' hs hr _ => ⟨hs.answer hc, fun k' hne =>
    ⟨(World.aged_answer hs.numbered c).ages, h w' hs (hI w w' hs hr hw) k' hne⟩, fun _ _ _ => trivial⟩

theorem meets_handling {h : Handle} {c : Call}
    (hc : c = .start h ∨ c = .stop h ∨ c = .restart h ∨ c = .destroy h) (hw : w.Issued k h.id) :
    (perform c).Meets (sparing lenient given) k (fun _ _ => True) w := by
  have hfits : c.Fits := by rcases hc with rfl | rfl | rfl | rfl <;> trivial
  exact meets_call hfits issued_after (fun _ _ hi _ hne => World.spares_handling hc hi.2 hne) hw

theorem meets_route {id : String} (change : RouteChange)
    (hchange : ∀ other, change.IsAbout other → other = id) (hw : w.Issued k id) :
    (perform (.route change)).Meets (sparing lenient given) k (fun _ _ => True) w :=
  meets_call (c := .route change) rfl issued_after (fun _ _ hi _ hne =>
    World.spares_route fun _ hc habout => hi.2.ne_id hne hc (hchange _ habout)) hw

theorem meets_warn (severity : Severity) (text : String) :
    (Program.warn severity text).Meets (sparing lenient given) k (fun _ _ => True) w :=
  .minor (minor_look rfl rfl rfl) fun _ _ _ _ _ _ _ _ => trivial

theorem meets_publish {h : Handle} (hw : w.Issued k h.id) :
    (publish platform h).Yields (sparing lenient given) k (fun _ _ => True) w :=
  meets_publish_of issued_after (fun _ => minor_look rfl rfl rfl) (fun _ => minor_look rfl rfl rfl)
    (fun _ _ => minor_look rfl rfl rfl)
    (fun endpoints _ hw _ => meets_route (.publish h.id endpoints) (fun _ habout => habout.symm) hw) hw

/-- A container of the application is still the application's after a program. -/
theorem keeps_issued {α : Type} {p : Program α} {id : String}
    (hp : p.Meets (sparing lenient given) k (fun _ _ => True) w) (hw : w.Issued k id) :
    p.Yields (sparing lenient given) k (fun _ w' => w'.Issued k id) w :=
  (Yields.frame hp.yields (fun _ => issued_after) hw).weaken fun _ _ _ h => h.2

theorem meets_retract {h : Handle} (hw : w.Issued k h.id) :
    (retract h).Meets (sparing lenient given) k (fun _ _ => True) w := by
  have hroute : (perform (.route (.retract h.id))).Yields (sparing lenient given) k
      (fun _ _ => True) w :=
    (meets_route (.retract h.id) (fun _ habout => habout.symm) hw).yields
  refine (hroute.attempt.bind fun retracted w' _ _ => ?_ : Yields _ _ _ (fun _ _ => True) _).meets
  rcases retracted with r | u
  · show Yields _ _ (if r.isRouting then _ else _) _ _
    split
    · exact (meets_warn _ _).yields
    · exact .done fun _ _ _ _ _ => trivial
  · exact .done fun _ _ _ _ _ => trivial

/-- What it takes to leave all applications alone but one. -/
theorem custody (hk : k.IsFiled) : Custody platform (sparing lenient given) lenient k
    (fun h w => w.Issued k h.id) (fun h w => w.Issued k h.id)
    (fun r => r.name = k.name ∧ Store.Fit r) fun _ => True where
  given h k' := issued_after
  stays h k' := issued_after
  held _ _ := id
  start h w hw := ((keeps_issued (meets_handling (.inl rfl) hw) hw).bind
    fun _ _ _ hw' => meets_publish hw' : Yields _ _ _ (fun _ _ => True) _).meets
  restart h w hw := ((keeps_issued (meets_handling (.inr (.inr (.inl rfl))) hw) hw).bind
    fun _ _ _ hw' => meets_publish hw' : Yields _ _ _ (fun _ _ => True) _).meets
  stop h w hw := ((keeps_issued (meets_retract hw) hw).bind
    fun _ _ _ hw' => (meets_handling (.inr (.inl rfl)) hw').yields :
      Yields _ _ _ (fun _ _ => True) _).meets
  destroy h w hw := ((keeps_issued (meets_retract hw) hw).bind
    fun _ _ _ hw' => (meets_handling (.inr (.inr (.inr rfl))) hw').yields :
      Yields _ _ _ (fun _ _ => True) _).meets
  find htold service w := by
    refine .minor (minor_look rfl rfl rfl) fun w' w'' hs hs'' _ _ hr _ => ?_
    cases hc : (w'.answer (.find k.name k.tenant service)).1 with
    | error e => trivial
    | ok found =>
      intro h hh
      have hissued := World.issued_of_find hs.numbered (hs.lenient_eq ▸ htold) hc h hh
      have haged := World.aged_answer hs.numbered (.find k.name k.tenant service)
      exact issued_after _ w'' hs'' hr (hissued.aged haged.ages (haged.numbered hs.numbered))
  create tag w _ := by
    refine .perform fun w' hs _ _ => ⟨hs.answer (c := .create ..) trivial, fun k' hne =>
      ⟨(World.aged_answer hs.numbered _).ages, World.spares_create hs.numbered tag hne⟩,
      fun w'' hs'' hr => ?_⟩
    cases hc : (w'.answer (.create k.name k.tenant tag)).1 with
    | error e => trivial
    | ok h => exact issued_after _ w'' hs'' hr (World.issued_of_create hs.numbered hc)
  record w := by
    have hsame {w' : World} (hs : w'.Storing) : (w'.answer (.record k.tenant k.name)).2 = w' := by
      rcases w'.answer_record hs hk k.name with ha | ⟨e, ha⟩ <;> rw [ha]
    have hminor : Minor (sparing lenient given) (.record k.tenant k.name) := fun w' hs _ => by
      rw [hsame hs.storing]
      exact ⟨hs, fun k' => (sparing lenient given).rely_refl k' w'⟩
    refine .minor hminor fun w' w'' hs _ _ _ _ _ => ?_
    rcases w'.answer_record hs.storing hk k.name with ha | ⟨e, ha⟩ <;> rw [ha]
    · intro r hr
      obtain ⟨hfit, hname⟩ := hs.storing.fit hk hr
      exact ⟨hname, hfit⟩
    · trivial
  compose framework services w := Yields.weaken
    (.minor (minor_look rfl rfl rfl) fun _ _ _ _ _ _ _ _ => ends_true _ _) fun _ _ _ _ _ _ => trivial
  now _ w := .minor (minor_look rfl rfl rfl) fun _ _ hs _ _ _ _ _ _ _ _ hscaling =>
    ⟨rfl, hscaling, hs.storing.real⟩
  growth _ _ _ _ _ _ _ := trivial
  addRecord r w hr := by
    refine meets_call (I := fun _ => True) (c := .addRecord k.tenant r) ⟨hk, hr.2⟩
      (fun _ _ _ _ _ => trivial) (fun w' hs _ k' hne => ?_) trivial
    refine World.spares_write rfl (some r)
      ((World.answer_addRecord hs.storing hk hr.2).imp_right ?_) hne
    rintro ⟨w'', ha, hwrote, -, -, hrecords⟩
    rw [hr.1] at hrecords
    exact ⟨(), w'', ha, hwrote, hrecords⟩
  rescale r scaling w hr hscaling := by
    have hfit : Store.Fit { r with scaling } := ⟨hscaling, hr.2.created⟩
    refine meets_call (I := fun _ => True) (c := .replaceRecord k.tenant { r with scaling })
      ⟨hk, hfit⟩ (fun _ _ _ _ _ => trivial) (fun w' hs _ k' hne => ?_) trivial
    refine World.spares_write rfl (some { r with scaling })
      ((World.answer_replaceRecord hs.storing hk hfit).imp_right ?_) hne
    rintro ⟨w'', ha, hwrote, -, hrecords⟩
    have hkey : (⟨k.tenant, r.name⟩ : AppKey) = k := by rw [hr.1]
    rw [show (⟨k.tenant, ({ r with scaling } : Record).name⟩ : AppKey) = k from hkey] at hrecords
    exact ⟨(), w'', ha, hwrote, hrecords⟩
  removeRecord w := by
    refine meets_call (I := fun _ => True) (c := .removeRecord k.tenant k.name) hk
      (fun _ _ _ _ _ => trivial) (fun w' hs _ k' hne => ?_) trivial
    refine World.spares_write rfl none
      ((World.answer_removeRecord hs.storing hk k.name).imp_right ?_) hne
    rintro ⟨w'', ha, hwrote, -, hrecords⟩
    exact ⟨(), w'', ha, hwrote, hrecords⟩
  warn severity text _ := meets_warn severity text

end Sparing

/-- The terms, and that some applications are as they were in an earlier world. -/
def Terms.since (t : Terms) (w₀ : World) (others : AppKey → Prop) : Terms :=
  { t with sound := fun w => t.sound w ∧ ∀ k, others k → t.rely k w₀ w }

/-- Who holds another application keeps that up. -/
theorem Program.Meets.since {α : Type} {t : Terms} {k : AppKey} {p : Program α}
    {Q : Outcome α → World → Prop} {w w₀ : World} {others : AppKey → Prop} (h : p.Meets t k Q w)
    (hk : ¬ others k) : p.Meets (t.since w₀ others) k Q w := by
  induction p generalizing w with
  | done r => exact fun w' hs hr => h w' hs.1 hr
  | call c next ih =>
    intro w' hs hr ha
    obtain ⟨hs', hothers, hnext⟩ := h w' hs.1 hr ha
    refine ⟨⟨hs', fun k' hk' => ?_⟩, hothers, ih _ hnext⟩
    exact t.rely_trans _ _ _ _ (hs.2 k' hk') (hothers k' fun he => hk (he ▸ hk'))
  | lock key next => exact fun w' hs => h w' hs.1
  | unlock key next => exact fun w' hs => h w' hs.1

/-- Whether a request is about an application. -/
def Request.Concerns (r : Request) (k : AppKey) : Prop := ∃ name ∈ r.names, k = r.caller.key name

/-- Whether a request comes for a tenant that has a file in the store, and with handles of containers
of that tenant only. -/
structure Request.IsGenuine (r : Request) (w : World) : Prop where
  filed : '/' ∉ r.caller.tenant.toList
  own : ∀ h ∈ r.handles, h.tenant = r.caller.tenant
  issued : ∀ h ∈ r.handles, w.Issued h.key h.id

/-- At every point of a run of operations, whatever fails, each application that none of them is
about is as it was. -/
theorem Pool.spares (platform : PlatformSettings) (requests : List Request) (w : World)
    (order : List Nat) (hnumbered : Engine.Numbered w.engine.containers w.engine.made)
    (hstoring : w.Storing) (hnamed : w.engine.lenient = false ∨ ∀ r ∈ requests, r.NamesApps)
    (hgenuine : ∀ r ∈ requests, r.IsGenuine w) {k : AppKey} (hk : ∀ r ∈ requests, ¬ r.Concerns k) :
    w.Spares k (Pool.run { world := w, tasks := requests.map (·.program platform) } order).world := by
  -- the terms say of single calls what they spare; over a run this adds up to the first world
  let others (k : AppKey) : Prop := ∀ r ∈ requests, ¬ r.Concerns k
  let given := requests.flatMap (·.handles)
  have hregular : w.Regular w.engine.lenient given := by
    refine ⟨hnumbered, rfl, hstoring, fun h hh => ?_⟩
    obtain ⟨r, hr, hh⟩ := List.mem_flatMap.1 hh
    exact (hgenuine r hr).issued h hh
  let t := (sparing w.engine.lenient given).since w others
  have hsound : t.sound w := ⟨hregular, fun k _ => (sparing w.engine.lenient given).rely_refl k w⟩
  have hfiled (r : Request) (hr : r ∈ requests) (name : String) : (r.caller.key name).IsFiled :=
    (hgenuine r hr).filed
  have hsafe : ∀ task ∈ requests.map (·.program platform), task.Safe t (fun _ _ => True) none w := by
    intro task htask
    obtain ⟨r, hr, rfl⟩ := List.mem_map.1 htask
    refine Request.safe_program (fun hcheck name hname w' hs _ => ?_) w
    refine Program.Meets.since ((Sparing.custody (hfiled r hr name)).turn (hnamed.imp_right fun h => h r hr)
      hcheck hname fun h hh happ => ?_) fun hothers => hothers r hr ⟨name, hname, rfl⟩
    have hissued := hs.1.given h (List.mem_flatMap.2 ⟨r, hr, hh⟩)
    rwa [Handle.key, (hgenuine r hr).own h hh, happ] at hissued
  obtain ⟨inside, hkept⟩ := (Pool.Kept.start hsound hsafe fun _ => trivial).run
    (fun _ _ _ _ _ => trivial) (Pool.along_true order)
  exact (hkept.sound.2 k hk).2

/-- What is not an operation's own is left alone, however the operation ends. Lifecycle operations
leave the record, the containers and the routes of every application alone that they are not about;
what a caller installs or removes leaves alone what all scopes give but the caller's. -/
theorem operations_leave_others_alone (platform : PlatformSettings) (w : World)
    (hnumbered : Engine.Numbered w.engine.containers w.engine.made) (hstoring : w.Storing)
    (hhub : Hub.Plain w.broker.hub w.disk) :
    (∀ (requests : List Request) (order : List Nat),
      (w.engine.lenient = false ∨ ∀ r ∈ requests, r.NamesApps) →
      (∀ r ∈ requests, r.IsGenuine w) → ∀ k, (∀ r ∈ requests, ¬ r.Concerns k) →
        w.Spares k
          (Pool.run { world := w, tasks := requests.map (·.program platform) } order).world) ∧
    ∀ (caller : Caller) (other : String), other ≠ caller.tenant →
      Hub.Unlinked w.broker.hub other w.disk →
        (∀ source, w.disk.isDirectory source = .ok true →
          Hub.Agree w.broker.hub other w.disk (Catalog.install caller source w).2.disk) ∧
        ∀ reference,
          Hub.Agree w.broker.hub other w.disk (Catalog.remove caller reference w).2.disk :=
  ⟨fun requests order hnamed hgenuine _ hk =>
    Pool.spares platform requests w order hnumbered hstoring hnamed hgenuine hk,
  fun caller _ hne hlinks =>
    ⟨fun _ hsource => Catalog.install_agrees caller hhub hsource hne hlinks,
      fun reference => Catalog.remove_agrees caller reference hhub hne hlinks⟩⟩

/-! ## Two tenants with an application of the same name -/

namespace Isolation

/-- A hub with a framework, a directory to install from, and an empty store. -/
def disk : Disk where
  entries := [(["users"], .directory), (["plugins"], .directory),
    (["plugins", ".system"], .directory), (["plugins", ".system", "python"], .directory),
    (["plugins", ".system", "python", "3.9"], .directory),
    (["plugins", ".system", "python", "3.9", "manifest.yml"], .file (Text.encode
      "name: python\nversion: \"3.9\"\ncategory: framework\nendpoints: [\x7b\"port\": 8080\x7d]\n")),
    (["source"], .directory),
    (["source", "manifest.yml"], .file (Text.encode
      "name: python\nversion: \"3.9\"\ncategory: service\n"))]

/-- The container of the other tenant's application. -/
def others : Container := { RoutedRunning.only "running" with
  number := 2
  id := "c0002"
  name := "web-bob-app-00000002"
  labels := [("cumulus.app", "web"), ("cumulus.namespace", "bob"), ("cumulus.service", ""),
    ("cumulus.tag", "python:3.9"), ("cumulus.sequence", "2000")] }

/-- An engine that has the containers of both. -/
noncomputable def world : World where
  disk := disk
  engine := { containers := [RoutedRunning.only "running", others], made := 2 }
  broker :=
    { hub := ["plugins"], store := ["users"], codec := .careful,
      router := .memory [("c0001", []), ("c0002", [])] }

theorem isTree_disk : disk.IsTree := .of_entries (by decide) (by decide)

theorem plain_disk : Hub.Plain ["plugins"] disk ∧ ∀ tenant, Hub.Unlinked ["plugins"] tenant disk :=
  Hub.Plain.of_linkless isTree_disk (by decide) (by simp [disk])

theorem numbered_world : Engine.Numbered world.engine.containers world.engine.made where
  id_eq := by decide
  le_made := by decide
  increasing := by decide

theorem storing_world : world.Storing where
  faithful := Yaml.Codec.faithful_careful
  has := isTree_disk.has (by decide)
  holds tenant _ := ⟨[], .inl ⟨by simp [world, disk, Disk.entry?, Table.get?], rfl⟩, Store.proper_nil⟩
  real := ⟨by decide, by decide, by decide, by decide, by decide, by decide⟩

/-- While a tenant starts a container and removes its application, another tenant's application stays,
and the system scope gives what it gave when the first tenant installs and removes plugins. -/
theorem same_name_is_left_alone :
    let alice : Caller := ⟨"alice", "alice"⟩
    let tasks := (RoutedRunning.requests "web").map (·.program {})
    world.Spares ⟨"bob", "web"⟩
        (Pool.run { world := world, tasks } [0, 1, 0, 1, 0, 0, 0, 1, 1, 1, 1]).world ∧
      Hub.Agree ["plugins"] "" disk (Catalog.install alice ["source"] world).2.disk ∧
      Hub.Agree ["plugins"] "" disk (Catalog.remove alice "python:3.9" world).2.disk := by
  intro alice tasks
  obtain ⟨hrun, hhub⟩ := operations_leave_others_alone {} world numbered_world storing_world
    plain_disk.1
  obtain ⟨hinstall, hremove⟩ := hhub alice "" (by decide) (plain_disk.2 "")
  refine ⟨hrun (RoutedRunning.requests "web") _ (.inl rfl) (fun r hr => ?_) _ (fun r hr => ?_),
    hinstall ["source"] (by decide), hremove "python:3.9"⟩
  · rcases (by simpa [RoutedRunning.requests] using hr) with rfl | rfl
    · refine ⟨by decide, by decide, fun h hh => ?_⟩
      obtain rfl := List.mem_singleton.1 hh
      exact ⟨⟨1, by decide, by decide⟩, by decide⟩
    · exact ⟨by decide, by decide, fun h hh => nomatch hh⟩
  · rintro ⟨name, -, hname⟩
    have htenant : "bob" = r.caller.tenant := congrArg AppKey.tenant hname
    rcases (by simpa [RoutedRunning.requests] using hr) with rfl | rfl <;>
      exact absurd htenant (by decide)

/-- An engine may take an empty name for any name. The removal of an application without a name then
takes the containers of another. -/
theorem nameless_removal_reaches_others :
    let w := { RoutedRunning.world "running" [("c0001", [])] with engine.lenient := true }
    let removal : Request := ⟨⟨"alice", "alice"⟩, .remove ""⟩
    ¬ removal.Concerns ⟨"alice", "web"⟩ ∧ removal.IsGenuine w ∧
      ¬ w.Spares ⟨"alice", "web"⟩
        (Pool.run { world := w, tasks := [removal.program {}] } (List.replicate 8 0)).world := by
  intro w removal
  refine ⟨?_, ⟨by decide, by decide, fun h hh => nomatch hh⟩, fun h => ?_⟩
  · rintro ⟨name, hname, hkey⟩
    obtain rfl := List.mem_singleton.1 hname
    exact absurd (congrArg AppKey.name hkey) (by decide)
  · have hgone : (Pool.run { world := w, tasks := [removal.program {}] }
        (List.replicate 8 0)).world.lineup ⟨"alice", "web"⟩ = [] := by decide +kernel
    have hthere : w.lineup ⟨"alice", "web"⟩ ≠ [] := by decide
    exact hthere (h.containers.symm.trans hgone)

end Isolation

end AppBroker
