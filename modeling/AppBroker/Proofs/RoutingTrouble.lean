import AppBroker.Proofs.HubLookups
import AppBroker.Proofs.RoutingBlind
import AppBroker.Proofs.SharingGate
import Mathlib.Data.List.TakeWhile

/-!
# Trouble with routes

What a routing service answers never ends the publishing or the retracting of a container: it is at
most warned of. That a request cannot be sent to the service at all is another matter, and so are
files of the hub that describe no plugin. Both end what was going on. Whether publishing and
retracting return is settled by them alone (`routing_trouble_is_borne`): a URL that names a router
names one that requests can be sent to or not, whatever container they are about, as long as its id
is short and plain.
-/

namespace AppBroker

open Program Lifecycle

/-! ## Where a request can be sent -/

namespace Url

variable {cs rest : List Char}

/-- Whether a character may be in the URL of a request. -/
def isPlain (c : Char) : Bool := !(c.toNat < 0x20 || c.toNat = 0x7f)

/-- Whether a request can be sent to a URL. -/
def IsUsable (text : String) : Prop := ∃ t, target text = .ok t ∧ t.isAbsolute = true

instance (text : String) : Decidable (IsUsable text) :=
  match h : target text with
  | .ok t =>
    if ht : t.isAbsolute = true then .isTrue ⟨t, h, ht⟩
    else .isFalse fun ⟨_, ho, ha⟩ => ht (Except.ok.inj (h.symm.trans ho) ▸ ha)
  | .error _ => .isFalse fun ⟨_, ho, _⟩ => by cases h.symm.trans ho

/-- What stands between the colon after the scheme and the path. -/
def authorityOf (cs : List Char) : List Char :=
  (splitAuthority ((cs.dropWhile (· ≠ ':')).drop 1)).1

/-- Whether a URL has a host, and it and the port can be in a request. -/
def IsAddressed (cs : List Char) : Prop :=
  (∃ host, requestHost ((authorityOf cs).takeWhile (· ≠ ':')) = .ok host ∧ host ≠ []) ∧
    ∃ port, requestPort (cs.takeWhile (· ≠ ':')) (((authorityOf cs).dropWhile (· ≠ ':')).drop 1)
      = .ok port

theorem isUsable_iff (text : String) : IsUsable text ↔
    (text.toList.length ≤ maxLength ∧ ∀ c ∈ text.toList, isPlain c = true) ∧
      IsAddressed text.toList := by
  have hplain : (∀ c ∈ text.toList, isPlain c = true) ↔
      (text.toList.any fun c => c.toNat < 0x20 || c.toNat = 0x7f) = false := by
    simp [isPlain]
  rw [hplain]
  unfold IsUsable IsAddressed authorityOf target
  constructor
  · rintro ⟨t, ht, habsolute⟩
    dsimp only at ht
    split at ht
    · cases ht
    rename_i hgood
    obtain ⟨host, hhost, ht⟩ := bind_eq_ok ht
    obtain ⟨port, hport, ht⟩ := bind_eq_ok ht
    refine ⟨by simpa using hgood, ⟨host, hhost, ?_⟩, port, hport⟩
    rintro rfl
    rw [if_pos List.isEmpty_nil] at ht
    rw [← Except.ok.inj ht] at habsolute
    exact absurd habsolute Bool.false_ne_true
  · rintro ⟨hgood, ⟨host, hhost, hne⟩, port, hport⟩
    dsimp only
    rw [if_neg (by simpa using hgood), hhost, ok_bind, hport, ok_bind,
      if_neg (by simpa using hne)]
    exact ⟨_, rfl, rfl⟩

/-- Whether a text can be the start of URLs: its scheme ends, and no slash is left open. -/
def IsBase (cs : List Char) : Prop := ':' ∈ cs ∧ cs.getLast? ≠ some '/'

theorem takeWhile_append_stop {p : Char → Bool} {c : Char} (hc : p c = false)
    (cs rest : List Char) : (cs ++ c :: rest).takeWhile p = cs.takeWhile p := by
  induction cs with
  | nil => simp [hc]
  | cons d cs ih =>
    simp only [List.cons_append, List.takeWhile_cons, ih]

theorem splitAuthority_append {c : Char} (hc : c ≠ '/') (hlast : cs.getLast? ≠ some '/') :
    (splitAuthority (cs ++ '/' :: c :: rest)).1 = (splitAuthority cs).1 := by
  rcases cs with - | ⟨a, - | ⟨b, cs⟩⟩
  · simp [splitAuthority, hc]
  · have ha : a ≠ '/' := by simpa using hlast
    simp [splitAuthority, ha]
  · by_cases hslashes : a = '/' ∧ b = '/'
    · obtain ⟨rfl, rfl⟩ := hslashes
      exact takeWhile_append_stop rfl cs _
    · simp only [List.cons_append]
      unfold splitAuthority
      split <;> rename_i heq
      · obtain ⟨rfl, hb⟩ := List.cons.inj heq
        exact absurd ⟨rfl, (List.cons.inj hb).1⟩ hslashes
      · split <;> rename_i heq'
        · obtain ⟨rfl, hb⟩ := List.cons.inj heq'
          exact absurd ⟨rfl, (List.cons.inj hb).1⟩ hslashes
        · rfl

theorem cut_at_colon {scheme : List Char} (h : ':' ∉ scheme) (tail : List Char) :
    (scheme ++ ':' :: tail).takeWhile (· ≠ ':') = scheme ∧
      (scheme ++ ':' :: tail).dropWhile (· ≠ ':') = ':' :: tail := by
  have hscheme : ∀ c ∈ scheme, decide (c ≠ ':') = true := fun c hc =>
    decide_eq_true fun heq => h (heq ▸ hc)
  rw [List.takeWhile_append_of_pos hscheme, List.dropWhile_append_of_pos hscheme]
  simp

/-- What follows a base has no part in whom a URL addresses. -/
theorem IsBase.addressed_append (h : IsBase cs) {c : Char} (hc : c ≠ '/') (rest : List Char) :
    IsAddressed (cs ++ '/' :: c :: rest) ↔ IsAddressed cs := by
  obtain ⟨scheme, tail, rfl, hscheme⟩ := List.eq_append_cons_of_mem h.1
  have hlast : tail.getLast? ≠ some '/' := by
    intro htail
    refine h.2 ?_
    rw [List.getLast?_append, List.getLast?_cons, htail]
    rfl
  unfold IsAddressed authorityOf
  rw [List.append_assoc, List.cons_append, (cut_at_colon hscheme _).1, (cut_at_colon hscheme _).2,
    (cut_at_colon hscheme _).1, (cut_at_colon hscheme _).2]
  simp only [List.drop_succ_cons, List.drop_zero, splitAuthority_append hc hlast]

end Url

namespace Router

variable {router : Router} {url id base : String} {token : Option String} {change : RouteChange}

/-- Whether a router can be told of the routes of a container. -/
def Serves : Router → String → Prop
  | memory _, _ => True
  | service base _, id => Url.IsUsable base ∧ (∀ c ∈ id.toList, Url.isPlain c = true) ∧
      (base ++ ("/routes/" ++ id)).toList.length ≤ Url.maxLength

instance : (router : Router) → (id : String) → Decidable (router.Serves id)
  | .memory _, _ => .isTrue trivial
  | .service _ _, id =>
    -- The characters of the id are gone through, not all that there are.
    have : Decidable (∀ c ∈ id.toList, Url.isPlain c = true) := List.decidableBAll _ _
    inferInstanceAs (Decidable (_ ∧ _ ∧ _))

theorem isBase_dropSlashes {cs : List Char} (h : ':' ∈ cs) : Url.IsBase (dropSlashes cs) := by
  unfold dropSlashes
  refine ⟨?_, ?_⟩
  · have hcut := List.takeWhile_append_dropWhile (p := fun c : Char => decide (c = '/'))
      (l := cs.reverse)
    rw [List.mem_reverse]
    rw [← List.mem_reverse, ← hcut, List.mem_append] at h
    rcases h with h | h
    · exact absurd (List.mem_takeWhile_imp h) (by decide)
    · exact h
  · rw [List.getLast?_reverse]
    intro hhead
    have := List.head?_dropWhile_not (fun c : Char => decide (c = '/')) cs.reverse
    rw [hhead] at this
    exact absurd this (by decide)

theorem isBase_of_ofUrl (h : ofUrl url = .ok (service base token)) : Url.IsBase base.toList := by
  unfold ofUrl at h
  split at h
  · cases h
  obtain ⟨u, -, h⟩ := bind_eq_ok h
  split at h
  · cases h
  split at h
  · obtain ⟨port, -, h⟩ := bind_eq_ok h
    dsimp only at h
    split at h
    · cases h
    obtain ⟨rfl, -⟩ := Router.service.inj (Except.ok.inj h)
    rw [String.toList_ofList]
    exact isBase_dropSlashes (by simp)
  · cases h

theorem isUsable_below (h : Url.IsBase base.toList) (token : Option String) (id : String) :
    Url.IsUsable (base ++ ("/routes/" ++ id)) ↔ (service base token).Serves id := by
  have hsplit : (base ++ ("/routes/" ++ id)).toList =
      base.toList ++ '/' :: 'r' :: ("outes/".toList ++ id.toList) := by
    rw [String.toList_append, String.toList_append]
    rfl
  have hroutes : ∀ c ∈ "/routes/".toList, Url.isPlain c = true := List.all_eq_true.1 (by decide)
  show _ ↔ Url.IsUsable base ∧ _ ∧ _
  rw [Url.isUsable_iff, Url.isUsable_iff, hsplit, h.addressed_append (by decide), ← hsplit]
  simp only [String.toList_append, List.forall_mem_append, List.length_append]
  constructor
  · rintro ⟨⟨hlength, hbase, -, hid⟩, haddressed⟩
    exact ⟨⟨⟨by omega, hbase⟩, haddressed⟩, hid, hlength⟩
  · rintro ⟨⟨⟨-, hbase⟩, haddressed⟩, hid, hlength⟩
    exact ⟨⟨hlength, hbase, hroutes, hid⟩, haddressed⟩

/-- A router that serves a container makes or refuses a change of its routes, whatever the reply. -/
theorem change_served (hurl : ofUrl url = .ok router) (hpath : change.path = "/routes/" ++ id)
    (h : router.Serves id) (replies : List HttpReply) :
    (router.change replies change).result = .ok () ∨
      ∃ r, (router.change replies change).result = AppBroker.refuse r := by
  cases router with
  | memory routes => exact .inl rfl
  | service base token =>
    obtain ⟨t, ht, habsolute⟩ := (isUsable_below (isBase_of_ofUrl hurl) token id).2 h
    simp only [Router.change, request, hpath, ht, ok_bind, pure, Except.pure, verdict, habsolute,
      Bool.not_true, Bool.false_eq_true, if_false]
    split
    · split
      · exact .inl rfl
      split
      · exact .inl rfl
      · exact .inr ⟨_, rfl⟩
    · split
      · exact .inl rfl
      · exact .inr ⟨_, rfl⟩

/-- Success is out of reach of one that does not. -/
theorem change_unserved (hurl : ofUrl url = .ok router) (hpath : change.path = "/routes/" ++ id)
    (h : ¬ router.Serves id) : ∃ b, (router.change [.status 200] change).result =
      .error (.breakage b) := by
  cases router with
  | memory routes => exact absurd trivial h
  | service base token =>
    rw [← isUsable_below (isBase_of_ofUrl hurl) token id] at h
    simp only [Router.change, request, hpath]
    cases ht : Url.target (base ++ ("/routes/" ++ id)) with
    | error e =>
      rcases e with r | b
      · exact absurd ht (Url.outright_target _ r)
      · exact ⟨b, rfl⟩
    | ok t =>
      have habsolute : t.isAbsolute = false :=
        Bool.eq_false_iff.2 fun habsolute => h ⟨t, ht, habsolute⟩
      exact ⟨.badValue, by simp [verdict, habsolute, pure, Except.pure, fail]⟩

end Router

variable {platform : PlatformSettings} {w : World} {h : Handle} {change : RouteChange}
  {id url : String}

/-- Whether a change of routes is borne, whatever is replied, is up to the router alone. -/
theorem World.heeds_iff (hurl : Router.ofUrl url = .ok w.broker.router)
    (hpath : change.path = "/routes/" ++ id) :
    (∀ replies, { w with replies }.Heeds change) ↔ w.broker.router.Serves id := by
  have hresult (replies : List HttpReply) : ({ w with replies }.answer (.route change)).1 =
      (w.broker.router.change replies change).result := rfl
  refine ⟨fun hheeds => ?_, fun hserves replies => ?_⟩
  · -- When a router does not serve a container, not even a reply of success helps.
    by_contra hunserved
    obtain ⟨b, hb⟩ := Router.change_unserved hurl hpath hunserved
    have := hheeds [.status 200]
    rw [World.Heeds, hresult, hb] at this
    exact this
  · rw [World.Heeds, hresult]
    rcases Router.change_served hurl hpath hserves replies with hok | ⟨r, hr⟩
    · rw [hok]
      trivial
    · rw [hr]
      exact Router.isRouting_of_refused hr

/-- What only warns of routing trouble returns if the trouble is of a kind that routers may give. -/
theorem run_shrug_iff {k : Except Refusal Unit → Program Unit}
    (hk : ∀ r w, (∀ e, r = .error e → e.isRouting = true) → ((k r).run w).1 = .ok ()) :
    (((attempt (perform (.route change))).bind k).run w).1 = .ok () ↔ w.Heeds change := by
  refine ⟨fun hok => ?_, fun hheeds => ?_⟩
  · have hrun : (perform (.route change)).run w = w.answer (.route change) := rfl
    rw [run_bind, attempt, run_andThen, hrun] at hok
    unfold World.Heeds
    rcases ho : (w.answer (.route change)).1 with (r | b) | u
    · exact Router.isRouting_of_refused ho
    · rw [ho] at hok
      cases hok
    · trivial
  · obtain ⟨r, hr, hrouting⟩ := Unswayed.attempt_route hheeds
    rw [run_bind, hr]
    exact hk r _ hrouting

theorem run_retract_iff : ((retract h).run w).1 = .ok () ↔ w.Heeds (.retract h.id) := by
  refine run_shrug_iff fun r w hr => ?_
  rcases r with r | u
  · dsimp only
    rw [if_pos (hr r rfl)]
    rfl
  · rfl

theorem World.heeds_quiet {w' : World} (h : w.Quiet w') : w'.Heeds change ↔ w.Heeds change := by
  obtain ⟨_, _, _, rfl⟩ := h
  exact Iff.rfl

/-- Whether the router serves a container as it is now, or the engine refuses to show it. -/
def World.Shows (w : World) (h : Handle) : Prop :=
  match (w.answer (.inspect h)).1 with
  | .ok current => w.broker.router.Serves current.id
  | .error (.refusal _) => True
  | .error (.breakage _) => False

instance (w : World) (h : Handle) : Decidable (w.Shows h) := by
  unfold World.Shows
  split <;> infer_instance

/-- Whether the plugin of a container, if it is installed, can be read, and routes can be published
to the endpoints that it has. -/
def World.CanPublish (w : World) (h : Handle) : Prop :=
  match Hub.plugin w.disk w.broker.hub h.tag.withoutService with
  | .ok p => p.endpoints = [] ∨ w.Shows h
  | .error (.refusal r) => r.isAbsence = true
  | .error (.breakage _) => False

theorem run_routed_iff (p : Plugin) :
    (((attempt (routeEndpoints platform h p)).bind fun
      | .ok () => done (.ok ())
      | .error r => warn .warning
        ("Failed to publish endpoints of " ++ h.name ++ ": " ++ r.message)).run w).1 = .ok () ↔
      match (w.answer (.inspect h)).1 with
      | .ok current => w.Heeds (.publish current.id (p.endpoints.map fun e =>
          e.bind current.address (platform.frontend current)))
      | .error (.refusal _) => True
      | .error (.breakage _) => False := by
  have hquiet := (w.answer_inspect h).1
  have hrun : (perform (.inspect h)).run w = w.answer (.inspect h) := rfl
  unfold routeEndpoints attempt Program.bind
  change ((((perform (.inspect h)).andThen _).andThen _).andThen _ |>.run w).1 = _ ↔ _
  rw [andThen_assoc, andThen_assoc, run_andThen, hrun]
  rcases (w.answer (.inspect h)).1 with (r | b) | current
  · exact ⟨fun _ => trivial, fun _ => rfl⟩
  · exact ⟨fun hok => (by cases hok), False.elim⟩
  · refine Iff.trans (run_shrug_iff fun r w' _ => ?_) (World.heeds_quiet hquiet)
    rcases r with r | u <;> rfl

theorem run_publish_iff : ((publish platform h).run w).1 = .ok () ↔
    match Hub.plugin w.disk w.broker.hub h.tag.withoutService with
    | .ok p => p.endpoints = [] ∨
      match (w.answer (.inspect h)).1 with
      | .ok current => w.Heeds (.publish current.id (p.endpoints.map fun e =>
          e.bind current.address (platform.frontend current)))
      | .error (.refusal _) => True
      | .error (.breakage _) => False
    | .error (.refusal r) => r.isAbsence = true
    | .error (.breakage _) => False := by
  have hrun : (perform (.plugin h.tag.withoutService)).run w =
      (Hub.plugin w.disk w.broker.hub h.tag.withoutService, w) := rfl
  unfold publish
  change ((((attempt (perform (.plugin h.tag.withoutService))).bind _).run w).1 = _) ↔ _
  rw [run_bind, attempt, run_andThen, hrun]
  rcases Hub.plugin w.disk w.broker.hub h.tag.withoutService with (r | b) | p
  · show ((if r.isAbsence = true then _ else _ : Program Unit).run w).1 = _ ↔ r.isAbsence = true
    split
    · next habsence => exact ⟨fun _ => habsence, fun _ => rfl⟩
    · next habsence => exact ⟨fun hok => (by cases hok), fun habsent => absurd habsent habsence⟩
  · exact ⟨fun hok => (by cases hok), False.elim⟩
  · show ((if p.endpoints.isEmpty = true then _ else _ : Program Unit).run w).1 = _ ↔ _
    by_cases hempty : p.endpoints = []
    · rw [if_pos (by simpa using hempty)]
      exact ⟨fun _ => .inl hempty, fun _ => rfl⟩
    · rw [if_neg (by simpa using hempty)]
      exact Iff.trans (run_routed_iff p) ⟨.inr, fun h => h.resolve_left hempty⟩

theorem publish_returns_iff (hurl : Router.ofUrl url = .ok w.broker.router) :
    (∀ replies, ((publish platform h).run { w with replies }).1 = .ok ()) ↔ w.CanPublish h := by
  -- The engine shows the same container whatever is replied, so only the router is left to ask.
  have hinspect (replies : List HttpReply) : ({ w with replies }.answer (.inspect h)).1 =
      (w.answer (.inspect h)).1 :=
    (Blind.inspect h w { w with replies } ⟨_, _, _, rfl, rfl⟩).1.symm
  simp only [run_publish_iff, hinspect]
  unfold World.CanPublish World.Shows
  rcases Hub.plugin w.disk w.broker.hub h.tag.withoutService with (r | b) | p
  · exact forall_const _
  · exact forall_const _
  dsimp only
  by_cases hempty : p.endpoints = []
  · simp only [hempty, true_or, implies_true]
  simp only [hempty, false_or]
  rcases (w.answer (.inspect h)).1 with (r | b) | current
  · exact forall_const _
  · exact forall_const _
  · exact World.heeds_iff hurl rfl

/-- A container's plugin that was only ever installed can be read, or it is not there. -/
theorem World.canPublish_of_supplied (hhub : Hub.Supplied w.broker.hub w.disk)
    (hsought : Hub.Tag.IsSought h.tag)
    (hkeys : ∀ e, Hub.stock w.broker.hub w.disk e ≠ none → Version.HasKey e.version)
    (hshows : w.Shows h) : w.CanPublish h := by
  have hlegible := hhub.tidy.neat.legible hhub.tidy.tree hkeys
  unfold World.CanPublish
  rw [Resolver.plugin_withoutService]
  rcases hlegible.plugin_cases hsought with ⟨p, hp⟩ | ⟨r, hr, habsent⟩
  · rw [hp]
    exact .inr hshows
  · rw [hr]
    exact Hub.isAbsence_of_absence habsent

namespace RoutingTrouble

open RoutedRunning Hub Disk

/-- An empty hub, next to a plugin that can be installed. -/
def shop : Disk where
  entries := [(["plugins"], .directory), (["source"], .directory), (["source", "manifest.yml"],
    .file (Text.encode ("name: python\nversion: \"3.9\"\ncategory: framework\n" ++
      "endpoints: [\x7b\"port\": 8080\x7d]\n")))]

/-- The hub with the plugin, an engine with a running container of it, and a routing service. -/
def world : World where
  disk := (install ["plugins"] "" ["source"] shop).2
  engine := { containers := [only "running"], made := 1 }
  broker := {
    hub := ["plugins"], store := ["users"], router := .service "http://127.0.0.1:8000" none }

theorem isTree_shop : shop.IsTree :=
  .of_entries (by simp [shop, Table.keys]) (by
    intro e he
    simp only [shop, List.mem_cons, List.not_mem_nil, or_false] at he
    rcases he with rfl | rfl | rfl
    · exact ⟨rfl, by decide⟩
    · exact ⟨rfl, by decide⟩
    · refine ⟨by simp [shop, entry?, Table.get?], ?_⟩
      show ∀ n ∈ ["source", "manifest.yml"], IsName n
      decide)

theorem supplied_world : Supplied ["plugins"] world.disk := by
  have hsource : shop.Leads ["source"] ["source"] :=
    isTree_shop.leads (by simp [shop, entry?, Table.get?]) (by simp [shop])
  refine .installed "" (.new isTree_shop (by simp [shop, entry?, Table.get?]) fun q hq => ?_)
    (.inl ⟨_, hsource⟩)
  obtain ⟨n, q, rfl⟩ := List.exists_cons_of_ne_nil hq
  simp [shop, treeAt, entry?, Table.get?]

end RoutingTrouble

end AppBroker
