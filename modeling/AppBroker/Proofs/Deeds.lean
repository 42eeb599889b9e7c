import AppBroker.Proofs.RoutingTrouble
import AppBroker.Proofs.ScaleRuns

/-!
# What is done to containers

The deeds of a program are what it asks the engine to make or to do to containers, in order, whether
the engine does it or not (`Program.deeds`). Starting, stopping, restarting or removing a container
does one deed to it, and what the container is then is told by the deed alone (`EngineVerb.leaves`);
a deed that fails leaves all containers as they are. Routing comes before or after it and is no deed.
-/

namespace AppBroker

open Program Lifecycle

/-- What a call asks the engine to make or to do, and for which application or to which container. -/
def Call.deed? : Call → Option (EngineVerb × String)
  | .create app _ _ => some (.create, app)
  | .start h => some (.start, h.id)
  | .stop h => some (.stop, h.id)
  | .restart h => some (.restart, h.id)
  | .destroy h => some (.remove, h.id)
  | _ => none

/-- The kind of calls that do nothing to containers. -/
abbrev Idle (c : Call) : Prop := c.deed? = none

theorem idles {c : Call} (hc : c.deed? = none) : (perform c).Makes Idle := makes_perform hc

theorem idle_of_showing {c : Call} (h : Showing c) : Idle c := by
  cases c <;> first | rfl | cases h

namespace Program

variable {α β : Type} {w : World}

/-- The deeds of a program that runs by itself. -/
def deeds : Program α → World → List (EngineVerb × String)
  | .done _, _ => []
  | .call c next, w => c.deed?.toList ++ (next (w.answer c).1).deeds (w.answer c).2
  | .lock _ next, w | .unlock _ next, w => next.deeds w

theorem deeds_andThen (p : Program α) (f : Outcome α → Program β) (w : World) :
    (p.andThen f).deeds w = p.deeds w ++ (f (p.run w).1).deeds (p.run w).2 := by
  induction p generalizing w with
  | done r => rfl
  | call c next ih =>
    simp only [andThen, deeds, ih, List.append_assoc]
    rfl
  | lock key next ih | unlock key next ih => exact ih w

theorem deeds_bind (p : Program α) (f : α → Program β) (w : World) :
    (p.bind f).deeds w = p.deeds w ++ match p.run w with
      | (.ok a, w') => (f a).deeds w'
      | (.error _, _) => [] := by
  unfold Program.bind
  rw [deeds_andThen]
  rcases p.run w with ⟨e | a, w'⟩ <;> rfl

theorem deeds_holding (key : AppKey) (p : Program α) (w : World) :
    (holding key p).deeds w = p.deeds w := by
  show (p.andThen _).deeds w = _
  rw [deeds_andThen]
  exact List.append_nil _

theorem along_bind {P : Call → World → Prop} {p : Program α} {f : α → Program β}
    (h : (p.bind f).Along P w) :
    p.Along P w ∧ ∀ a w', p.run w = (.ok a, w') → (f a).Along P w' := by
  obtain ⟨hp, hf⟩ := along_andThen.1 h
  refine ⟨hp, fun a w' hrun => ?_⟩
  rw [hrun] at hf
  exact hf

theorem Makes.deeds_eq_nil {p : Program α} (hp : p.Makes Idle) (w : World) : p.deeds w = [] := by
  induction p generalizing w with
  | done r => rfl
  | call c next ih =>
    rw [deeds, hp.1, ih _ (hp.2 _)]
    rfl
  | lock key next => exact hp.elim
  | unlock key next => exact hp.elim

end Program

/-- What a deed leaves of a container that it is done to, if anything. -/
def EngineVerb.leaves : EngineVerb → Container → Option Container
  | .start, c => some (if c.isRunning then c else c.started)
  | .stop, c => some (if c.isRunning then c.stopped else c)
  | .restart, c => some c.started
  | .remove, _ => none
  | _, c => some c

theorem EngineVerb.id_of_leaves {verb : EngineVerb} {c d : Container} (h : verb.leaves c = some d) :
    d.id = c.id := by
  cases verb <;> simp only [leaves, Option.some.injEq, reduceCtorEq] at h <;> subst h <;>
    first | rfl | (split <;> rfl)

namespace Engine

variable {verb : EngineVerb} {cs : List Container} {id : String} {ids ids' : List String}

/-- The containers after a deed was done to some of them. -/
def dealt (verb : EngineVerb) (ids : List String) (cs : List Container) : List Container :=
  cs.filterMap fun c => if c.id ∈ ids then verb.leaves c else some c

@[simp] theorem dealt_nil (verb : EngineVerb) (cs : List Container) : dealt verb [] cs = cs := by
  simp [dealt]

/-- What is done to some containers and then to others is done to all of them. -/
theorem dealt_append (h : ∀ id ∈ ids, id ∉ ids') (cs : List Container) :
    dealt verb ids' (dealt verb ids cs) = dealt verb (ids ++ ids') cs := by
  unfold dealt
  rw [List.filterMap_filterMap]
  refine List.filterMap_congr fun c _ => ?_
  by_cases hc : c.id ∈ ids
  · rw [if_pos hc, if_pos (List.mem_append_left _ hc)]
    cases hleaves : verb.leaves c with
    | none => rfl
    | some d =>
      rw [Option.bind_some, if_neg]
      rw [EngineVerb.id_of_leaves hleaves]
      exact h _ hc
  · simp [hc]

theorem dealt_remove (ids : List String) (cs : List Container) :
    dealt .remove ids cs = cs.filter (·.id ∉ ids) := by
  rw [← List.filterMap_eq_filter]
  refine List.filterMap_congr fun c _ => ?_
  by_cases hc : c.id ∈ ids <;> simp [hc, EngineVerb.leaves, Option.guard]

theorem changed_eq_dealt {f : Container → Container}
    (h : ∀ c ∈ cs, c.id = id → verb.leaves c = some (f c)) : changed cs id f = dealt verb [id] cs := by
  unfold changed dealt
  rw [← List.filterMap_eq_map]
  refine List.filterMap_congr fun c hc => ?_
  by_cases hid : c.id = id
  · simp [hid, h c hc hid]
  · simp [hid]

theorem eq_dealt (h : ∀ c ∈ cs, c.id = id → verb.leaves c = some c) : cs = dealt verb [id] cs := by
  have hsame : changed cs id (fun c => c) = dealt verb [id] cs := changed_eq_dealt h
  rw [← hsame]
  simp [changed]

end Engine

theorem World.containers_of_idle {c : Call} (hc : Idle c) (w : World) :
    (w.answer c).2.engine.containers = w.engine.containers := by
  cases c with
  | create | start | stop | restart | destroy => cases hc
  | route change => rfl
  | _ => exact (w.same_answer rfl).containers

/-! ## What programs do -/

namespace Program

variable {α β : Type} {verb : EngineVerb} {tried done tried' done' : List String}
  {p : Program α} {w w' : World}

/-- Whether a program does one deed to containers: to which it tries to, in order, and to which it
succeeds. -/
structure Does (verb : EngineVerb) (tried done : List String) (p : Program α) (w : World) :
    Prop where
  deeds : p.deeds w = tried.map (verb, ·)
  containers : (p.run w).2.engine.containers = Engine.dealt verb done w.engine.containers

theorem Makes.does (hp : p.Makes Idle) (w : World) : p.Does verb [] [] w where
  deeds := hp.deeds_eq_nil w
  containers := by
    rw [Engine.dealt_nil]
    exact hp.run (I := fun w' => w'.engine.containers = w.engine.containers)
      (fun _ w' hc hw' => (World.containers_of_idle hc w').trans hw') rfl

namespace Does

/-- What two programs do one after the other, each to containers of its own. -/
theorem andThen {f : Outcome α → Program β} (h : p.Does verb tried done w)
    (h' : (f (p.run w).1).Does verb tried' done' (p.run w).2) (hapart : ∀ id ∈ done, id ∉ done') :
    (p.andThen f).Does verb (tried ++ tried') (done ++ done') w where
  deeds := by rw [deeds_andThen, h.deeds, h'.deeds, List.map_append]
  containers := by rw [run_andThen, h'.containers, h.containers, Engine.dealt_append hapart]

theorem bind {f : α → Program β} {a : α} (hrun : p.run w = (.ok a, w'))
    (h : p.Does verb tried done w) (h' : (f a).Does verb tried' done' w')
    (hapart : ∀ id ∈ done, id ∉ done') :
    (p.bind f).Does verb (tried ++ tried') (done ++ done') w := by
  refine h.andThen ?_ hapart
  rw [hrun]
  exact h'

/-- What comes before and does nothing to containers may be left out. -/
theorem of_idle {q : Program β} {f : β → Program α} {b : β} (hq : q.Makes Idle)
    (hrun : q.run w = (.ok b, w')) (h : (f b).Does verb tried done w') :
    (q.bind f).Does verb tried done w :=
  (hq.does w).bind hrun h (by simp)

/-- What follows a program in any case and does nothing to containers may be left out. -/
theorem andThen_idle {f : Outcome α → Program β} (h : p.Does verb tried done w)
    (hf : ∀ r, (f r).Makes Idle) : (p.andThen f).Does verb tried done w := by
  have hall := h.andThen ((hf _).does _) fun _ _ => List.not_mem_nil
  rwa [List.append_nil, List.append_nil] at hall

theorem bind_idle {f : α → Program β} (h : p.Does verb tried done w)
    (hf : ∀ a, (f a).Makes Idle) : (p.bind f).Does verb tried done w :=
  h.andThen_idle fun r => match r with
    | .ok a => hf a
    | .error _ => trivial

theorem bind_error {f : α → Program β} {e : Failure} (hrun : p.run w = (.error e, w'))
    (h : p.Does verb tried done w) : (p.bind f).Does verb tried done w where
  deeds := by rw [deeds_bind, hrun, List.append_nil, h.deeds]
  containers := by
    rw [run_bind, hrun, ← h.containers, hrun]

theorem attempt (h : p.Does verb tried done w) : p.attempt.Does verb tried done w :=
  h.andThen_idle fun r => match r with
    | .ok _ => trivial
    | .error (.refusal _) => trivial
    | .error (.breakage _) => trivial

theorem holding (h : p.Does verb tried done w) (key : AppKey) :
    (holding key p).Does verb tried done w where
  deeds := (deeds_holding key p w).trans h.deeds
  containers := by rw [run_holding, h.containers]

end Does

end Program

/-! ## Deeds one by one -/

namespace World

variable {w : World} {h : Handle} {lenient : Bool}

section One

variable (hw : w.Dependable lenient)
include hw

/-- Two containers with the id of a handle are one. -/
theorem Dependable.eq_of_found {c d : Container} (hc : w.engine.find? h.id = some c)
    (hd : d ∈ w.engine.containers) (hid : d.id = h.id) : d = c := by
  obtain ⟨hmem, hfound⟩ := Engine.find?_eq_some hc
  exact hw.numbered.eq_of_id hd hmem (hid.trans hfound.symm)

theorem start_leaves (h : Handle) : (w.answer (.start h)).2.engine.containers =
    if (w.answer (.start h)).1.isOk then Engine.dealt .start [h.id] w.engine.containers
    else w.engine.containers := by
  rcases w.answer_start h hw.truthful.1 with ⟨e, he, hq⟩ | ⟨hok, c, hc, hcases⟩
  · rw [he, hq.containers]
    rfl
  rw [if_pos (by rw [hok]; rfl)]
  have hone {d : Container} := hw.eq_of_found (d := d) hc
  rcases hcases with ⟨hrun, hq⟩ | ⟨hrun, _, _, _, hb⟩
  · rw [hq.containers]
    refine Engine.eq_dealt fun d hd hid => ?_
    rw [hone hd hid, EngineVerb.leaves, if_pos hrun]
  · rw [hb]
    refine Engine.changed_eq_dealt fun d hd hid => ?_
    rw [hone hd hid, EngineVerb.leaves, if_neg (by simp [hrun])]

theorem restart_leaves (h : Handle) : (w.answer (.restart h)).2.engine.containers =
    if (w.answer (.restart h)).1.isOk then Engine.dealt .restart [h.id] w.engine.containers
    else w.engine.containers := by
  rcases w.answer_restart h hw.truthful.1 with ⟨e, he, hq⟩ | ⟨hok, c, -, _, _, _, hb⟩
  · rw [he, hq.containers]
    rfl
  · rw [if_pos (by rw [hok]; rfl), hb]
    exact Engine.changed_eq_dealt fun d _ _ => rfl

theorem stop_leaves (h : Handle) : (w.answer (.stop h)).2.engine.containers =
    if (w.answer (.stop h)).1.isOk then Engine.dealt .stop [h.id] w.engine.containers
    else w.engine.containers := by
  rcases w.answer_stop h hw.truthful.1 with ⟨e, he, hq⟩ | ⟨hok, c, hc, hcases⟩
  · rw [he, hq.containers]
    rfl
  rw [if_pos (by rw [hok]; rfl)]
  have hone {d : Container} := hw.eq_of_found (d := d) hc
  rcases hcases with ⟨hrun, hq⟩ | ⟨hrun, _, _, _, hb⟩
  · rw [hq.containers]
    refine Engine.eq_dealt fun d hd hid => ?_
    rw [hone hd hid, EngineVerb.leaves, if_neg (by simp [hrun])]
  · rw [hb]
    refine Engine.changed_eq_dealt fun d hd hid => ?_
    rw [hone hd hid, EngineVerb.leaves, if_pos hrun]

theorem destroy_leaves (h : Handle) : (w.answer (.destroy h)).2.engine.containers =
    if (w.answer (.destroy h)).1.isOk then Engine.dealt .remove [h.id] w.engine.containers
    else w.engine.containers := by
  have hwithout : Engine.dealt .remove [h.id] w.engine.containers =
      Engine.without w.engine.containers h.id := by
    rw [Engine.dealt_remove]
    simp [Engine.without]
  rw [hwithout]
  rcases w.answer_destroy h hw.truthful.1 with ⟨hq, hgone⟩ | ⟨hok, _, _, _, hb⟩
  · rw [hq.containers]
    split
    · next hok =>
      have hnone : w.engine.find? h.id = none := by
        refine hgone hw.truthful ?_
        cases ho : (w.answer (.destroy h)).1 with
        | ok u => rfl
        | error e =>
          rw [ho] at hok
          cases hok
      refine (List.filter_eq_self.2 fun d hd => ?_).symm
      simpa using List.find?_eq_none.1 hnone d hd
    · rfl
  · rw [if_pos (by rw [hok]; rfl), hb]

end One

end World

/-! ## Containers in trouble -/

/-- How what is done to a container ends: with the failure that it is in trouble by, if it is. -/
def verdict : Option EngineFailure → Outcome Unit
  | none => .ok ()
  | some f => .error (.refusal (.engine f))

/-- Whether a call goes as it does where some containers are in trouble: what is done to these fails
with what they are in trouble by, and nothing else fails. -/
def Call.Troubled (trouble : String → Option EngineFailure) : Call → World → Prop
  | .start h, w => (w.answer (.start h)).1 = verdict (trouble h.id)
  | .stop h, w => (w.answer (.stop h)).1 = verdict (trouble h.id)
  | .restart h, w => (w.answer (.restart h)).1 = verdict (trouble h.id)
  | .destroy h, w => (w.answer (.destroy h)).1 = verdict (trouble h.id)
  | c, w => w.serves c = true ∧ w.informs c = true

instance (trouble : String → Option EngineFailure) (c : Call) (w : World) :
    Decidable (c.Troubled trouble w) := by
  unfold Call.Troubled
  split <;> infer_instance

namespace Lifecycle

variable {platform : PlatformSettings} {trouble : String → Option EngineFailure} {w : World}
  {h : Handle}

theorem heeds_of_serves {change : RouteChange} (h : w.serves (.route change) = true) :
    w.Heeds change := by
  obtain ⟨u, hu⟩ := w.ok_of_serves (c := .route change) rfl h
  rw [World.Heeds, hu]
  trivial

theorem run_retract (ha : (retract h).Along (Call.Troubled trouble) w) :
    (retract h).run w = (.ok (), ((retract h).run w).2) :=
  have hserves := (along_andThen.1 (along_andThen.1 ha).1).1.1.1
  Prod.ext (run_retract_iff.2 (heeds_of_serves hserves)) rfl

theorem routed_returns {p : Plugin}
    (ha : (routeEndpoints platform h p).Along (Call.Troubled trouble) w) :
    ∃ current, (w.answer (.inspect h)).1 = .ok current ∧
      w.Heeds (.publish current.id (p.endpoints.map fun e =>
        e.bind current.address (platform.frontend current))) := by
  obtain ⟨hinspect, hroute⟩ := along_andThen.1 ha
  obtain ⟨current, hcurrent⟩ := w.ok_of_serves (c := .inspect h) rfl hinspect.1.1
  have hrun : (perform (.inspect h)).run w = w.answer (.inspect h) := rfl
  rw [hrun, hcurrent] at hroute
  exact ⟨current, hcurrent,
    (World.heeds_quiet (w.answer_inspect h).1).1 (heeds_of_serves hroute.1.1)⟩

/-- Publishing a container returns, whichever containers are in trouble. -/
theorem publish_returns (ha : (publish platform h).Along (Call.Troubled trouble) w) :
    ((publish platform h).run w).1 = .ok () := by
  obtain ⟨hlook, hrest⟩ := along_andThen.1 ha
  have hinforms : w.informs (.plugin h.tag.withoutService) = true := (along_andThen.1 hlook).1.1.2
  have hrun : (perform (.plugin h.tag.withoutService)).run w =
      (Hub.plugin w.disk w.broker.hub h.tag.withoutService, w) := rfl
  rw [attempt, run_andThen, hrun] at hrest
  simp only [World.informs] at hinforms
  refine run_publish_iff.2 ?_
  rcases hp : Hub.plugin w.disk w.broker.hub h.tag.withoutService with (r | b) | p <;>
    rw [hp] at hinforms hrest
  · exact hinforms
  · cases hinforms
  by_cases hempty : p.endpoints = []
  · exact .inl hempty
  refine .inr ?_
  change Program.Along _ (if p.endpoints.isEmpty = true then _ else _) w at hrest
  rw [if_neg (by simpa using hempty)] at hrest
  obtain ⟨current, hcurrent, hheeds⟩ :=
    routed_returns (along_andThen.1 (along_andThen.1 hrest).1).1
  rw [hcurrent]
  exact hheeds

/-- Whether a container is in no trouble. -/
def untroubled (trouble : String → Option EngineFailure) (id : String) : Bool := (trouble id).isNone

/-! ## Handling one container -/

/-- Whether what is done to a handle is one deed, with whatever routing, and goes as the trouble that
its container is in says. -/
structure Deals (act : Handle → Program Unit) (verb : EngineVerb)
    (trouble : String → Option EngineFailure) : Prop where
  fits : ∀ h, (act h).Makes Call.Fits
  does : ∀ h w lenient, w.Dependable lenient → (act h).Along (Call.Troubled trouble) w →
    (act h).Does verb [h.id] ([h.id].filter (untroubled trouble)) w
  ends : ∀ h w, (act h).Along (Call.Troubled trouble) w →
    ((act h).run w).1 = verdict (trouble h.id)

theorem isOk_verdict (o : Option EngineFailure) : (verdict o).isOk = o.isNone := by
  cases o <;> rfl

theorem fits_of_showing {c : Call} (h : Showing c) : c.Fits := by
  cases c <;> first | rfl | cases h

section

variable {act : Handle → Program Unit} {verb : EngineVerb}

theorem Deals.of_leaves (hfits : ∀ h, (act h).Makes Call.Fits)
    (hdeeds : ∀ h w, (act h).deeds w = [(verb, h.id)])
    (hends : ∀ h w, (act h).Along (Call.Troubled trouble) w →
      ((act h).run w).1 = verdict (trouble h.id))
    (hleaves : ∀ h w lenient, w.Dependable lenient → ((act h).run w).2.engine.containers =
      if ((act h).run w).1.isOk then Engine.dealt verb [h.id] w.engine.containers
      else w.engine.containers) : Deals act verb trouble where
  fits := hfits
  does h w lenient hw ha := by
    refine ⟨hdeeds h w, ?_⟩
    rw [hleaves h w lenient hw, hends h w ha, isOk_verdict]
    cases htrouble : trouble h.id <;> simp [untroubled, htrouble]
  ends := hends

/-- Publishing a container after something was done to it adds nothing to that. -/
theorem Deals.thenPublish (hact : Deals act verb trouble) :
    Deals (fun h => (act h).bind fun _ => publish platform h) verb trouble where
  fits h := (hact.fits h).bind fun _ => (shows_publish platform h).mono fun _ => fits_of_showing
  does h w lenient hw ha := (hact.does h w lenient hw (along_bind ha).1).bind_idle fun _ =>
    (shows_publish platform h).mono fun _ => idle_of_showing
  ends h w ha := by
    obtain ⟨hfirst, hrest⟩ := along_bind ha
    rw [run_bind, ← hact.ends h w hfirst]
    split
    · next u w' hrun => rw [publish_returns (hrest u w' hrun), hrun]
    · next e w' hrun => rw [hrun]

/-- Retracting a container before something is done to it adds nothing to that either. -/
theorem Deals.afterRetract (hact : Deals act verb trouble) :
    Deals (fun h => (retract h).bind fun _ => act h) verb trouble where
  fits h := ((shows_retract h).mono fun _ => fits_of_showing).bind fun _ => hact.fits h
  does h w lenient hw ha := by
    obtain ⟨hfirst, hrest⟩ := along_bind ha
    have hrun := run_retract hfirst
    have hw' : World.Dependable lenient ((retract h).run w).2 :=
      (shows_retract h).run (fun c w' hc hw' => hw'.answer (fits_of_showing hc)) hw
    exact .of_idle ((shows_retract h).mono fun _ => idle_of_showing) hrun
      (hact.does h _ lenient hw' (hrest _ _ hrun))
  ends h w ha := by
    obtain ⟨hfirst, hrest⟩ := along_bind ha
    have hrun := run_retract hfirst
    rw [run_bind, hrun]
    exact hact.ends h _ (hrest _ _ hrun)

end

theorem deals_startOne (trouble : String → Option EngineFailure) :
    Deals (startOne platform) .start trouble := by
  have hstart : Deals (fun h => perform (.start h)) .start trouble :=
    .of_leaves (fun _ => makes_perform rfl) (fun _ _ => rfl) (fun _ _ ha => ha.1)
      fun h _ _ hw => World.start_leaves hw h
  exact hstart.thenPublish

theorem deals_restartOne (trouble : String → Option EngineFailure) :
    Deals (restartOne platform) .restart trouble := by
  have hrestart : Deals (fun h => perform (.restart h)) .restart trouble :=
    .of_leaves (fun _ => makes_perform rfl) (fun _ _ => rfl) (fun _ _ ha => ha.1)
      fun h _ _ hw => World.restart_leaves hw h
  exact hrestart.thenPublish

theorem deals_stopOne (trouble : String → Option EngineFailure) :
    Deals stopOne .stop trouble := by
  have hstop : Deals (fun h => perform (.stop h)) .stop trouble :=
    .of_leaves (fun _ => makes_perform rfl) (fun _ _ => rfl) (fun _ _ ha => ha.1)
      fun h _ _ hw => World.stop_leaves hw h
  exact hstop.afterRetract

theorem deals_destroyOne (trouble : String → Option EngineFailure) :
    Deals destroyOne .remove trouble := by
  have hdestroy : Deals (fun h => perform (.destroy h)) .remove trouble :=
    .of_leaves (fun _ => makes_perform trivial) (fun _ _ => rfl) (fun _ _ ha => ha.1)
      fun h _ _ hw => World.destroy_leaves hw h
  exact hdestroy.afterRetract

end Lifecycle

end AppBroker
