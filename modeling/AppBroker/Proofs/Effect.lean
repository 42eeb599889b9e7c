import AppBroker.Program
import AppBroker.Proofs.EngineCall

/-!
# What calls do to containers

Each call to the engine is told by its outcome and by the containers that are there after it. The
engine may fail for any reason, but it does not claim that there was nothing to change when there
was: that is an answer and no failure.
-/

namespace AppBroker

namespace Engine

/-- No failure poses as the answer that nothing had to change. -/
def Honest (e : Engine) : Prop :=
  ∀ history r f, e.faults history r = some f → Runtime.isUnchanged f = false

/-- Whether faults are failures that say nothing of the container: neither that nothing had to
change, nor that it is gone. -/
def Truthful (e : Engine) : Prop :=
  e.Honest ∧ ∀ history r f, e.faults history r = some f → f.kind ≠ .notFound

/-- The engine with other containers, after some calls. -/
def having (e : Engine) (containers : List Container) (history : List EngineRequest) : Engine :=
  { e with containers, history }

theorem find?_withHistory (e : Engine) (history : List EngineRequest) (id : String) :
    (e.withHistory history).find? id = e.find? id := rfl

/-- What a fault about a container says, if faults are what they are called. -/
def Tells (e : Engine) (id : String) (f : Fault) : Prop :=
  (e.Honest → Runtime.isUnchanged f = false) ∧
    (e.Truthful → f.kind = .notFound → e.find? id = none)

theorem get_cases (e : Engine) (scope : AppKey) (id : String) :
    (∃ f history, e.get scope id = (.error f, e.withHistory history) ∧ e.Tells id f) ∨
    ∃ c history, e.find? id = some c ∧ e.get scope id = (.ok c, e.withHistory history) := by
  unfold get
  rcases e.accept_cases ⟨.get, id, scope⟩ with ⟨f, hf, ha⟩ | ⟨-, ha⟩
  · exact .inl ⟨f, _, by rw [ha], fun hon => hon _ _ _ hf, fun ht hk => absurd hk (ht.2 _ _ _ hf)⟩
  · simp only [ha, find?_withHistory]
    cases hc : e.find? id with
    | none => exact .inl ⟨_, _, rfl, fun _ => by rfl, fun _ _ => hc⟩
    | some c => exact .inr ⟨c, _, rfl, rfl⟩

theorem about_cases (e : Engine) (scope : AppKey) (verb : EngineVerb) (id : String) :
    (∃ f history, e.about scope verb id = (.error f, e.withHistory history) ∧ e.Tells id f) ∨
    ∃ c history, e.find? id = some c ∧ e.about scope verb id = (.ok c, e.withHistory history) := by
  unfold about
  rcases e.get_cases scope id with ⟨f, history, hg, hf⟩ | ⟨c, history, hc, hg⟩
  · exact .inl ⟨f, history, by rw [hg], hf⟩
  · rw [hg]
    dsimp only
    rcases (e.withHistory history).accept_cases ⟨verb, id, scope⟩ with ⟨f, hf, ha⟩ | ⟨-, ha⟩
    · exact .inl ⟨f, _, by rw [ha]; rfl, fun hon => hon _ _ _ hf,
        fun ht hk => absurd hk (ht.2 _ _ _ hf)⟩
    · exact .inr ⟨c, _, hc, by rw [ha]; rfl⟩

/-- The container that is made next. -/
def fresh (e : Engine) (spec : ContainerSpec) : Container :=
  { number := e.nextNumber, id := idOf e.nextNumber, name := spec.name, image := spec.image
    labels := spec.labels, networks := [(spec.network, "")] }

theorem create_cases (e : Engine) (scope : AppKey) (spec : ContainerSpec) :
    (∃ f history, e.create scope spec = (.error f, e.withHistory history)) ∨
    ∃ history, e.create scope spec = (.ok (e.fresh spec),
      { e.having (replaceIn (e.fresh spec) e.containers) history with made := e.nextNumber }) := by
  unfold create
  rcases e.accept_cases ⟨.create, (spec.labels.get? "cumulus.app").getD "", scope⟩ with
    ⟨f, -, ha⟩ | ⟨-, ha⟩ <;> rw [ha]
  · exact .inl ⟨f, _, rfl⟩
  · dsimp only
    split
    · exact .inl ⟨_, _, rfl⟩
    · exact .inr ⟨_, rfl⟩

/-- The containers after those with an id were changed. -/
def changed (cs : List Container) (id : String) (f : Container → Container) : List Container :=
  cs.map fun c => if c.id = id then f c else c

/-- The containers without those with an id. -/
def without (cs : List Container) (id : String) : List Container := cs.filter (·.id ≠ id)

theorem settling_start (e : Engine) (hon : e.Honest) (scope : AppKey) (id : String) :
    (∃ f history, Runtime.settling (·.start scope id) e = (.error f, e.withHistory history)) ∨
    ∃ c history, e.find? id = some c ∧
      ((c.isRunning = true ∧
        Runtime.settling (·.start scope id) e = (.ok false, e.withHistory history)) ∨
      (c.isRunning = false ∧ Runtime.settling (·.start scope id) e
        = (.ok true, e.having (changed e.containers id .started) history))) := by
  unfold Runtime.settling start
  rcases e.about_cases scope .start id with ⟨f, history, ha, hf⟩ | ⟨c, history, hc, ha⟩
  · simp only [ha, hf.1 hon]
    exact .inl ⟨f, history, rfl⟩
  · refine .inr ⟨c, history, hc, ?_⟩
    simp only [ha]
    cases hrun : c.isRunning with
    | true => exact .inl ⟨rfl, rfl⟩
    | false => exact .inr ⟨rfl, rfl⟩

theorem settling_restart (e : Engine) (hon : e.Honest) (scope : AppKey) (id : String) :
    (∃ f history, Runtime.settling (·.restart scope id) e = (.error f, e.withHistory history)) ∨
    ∃ c history, e.find? id = some c ∧ Runtime.settling (·.restart scope id) e
      = (.ok true, e.having (changed e.containers id .started) history) := by
  unfold Runtime.settling restart
  rcases e.about_cases scope .restart id with ⟨f, history, ha, hf⟩ | ⟨c, history, hc, ha⟩
  · simp only [ha, hf.1 hon]
    exact .inl ⟨f, history, rfl⟩
  · exact .inr ⟨c, history, hc, by simp only [ha]; rfl⟩

theorem settling_stop (e : Engine) (hon : e.Honest) (scope : AppKey) (id : String) :
    (∃ f history, Runtime.settling (·.stop scope id) e = (.error f, e.withHistory history)) ∨
    ∃ c history, e.find? id = some c ∧
      ((c.isRunning = false ∧
        Runtime.settling (·.stop scope id) e = (.ok false, e.withHistory history)) ∨
      (c.isRunning = true ∧ Runtime.settling (·.stop scope id) e
        = (.ok true, e.having (changed e.containers id .stopped) history))) := by
  unfold Runtime.settling stop
  rcases e.about_cases scope .stop id with ⟨f, history, ha, hf⟩ | ⟨c, history, hc, ha⟩
  · simp only [ha, hf.1 hon]
    exact .inl ⟨f, history, rfl⟩
  · refine .inr ⟨c, history, hc, ?_⟩
    simp only [ha]
    cases hrun : c.isRunning with
    | true => exact .inr ⟨rfl, rfl⟩
    | false => exact .inl ⟨rfl, rfl⟩

theorem settling_remove (e : Engine) (hon : e.Honest) (scope : AppKey) (id : String) :
    (∃ f history, Runtime.settling (·.remove scope id) e = (.error f, e.withHistory history) ∧
      e.Tells id f) ∨
    ∃ c history, e.find? id = some c ∧ Runtime.settling (·.remove scope id) e
      = (.ok true, e.having (without e.containers id) history) := by
  unfold Runtime.settling remove
  rcases e.about_cases scope .remove id with ⟨f, history, ha, hf⟩ | ⟨c, history, hc, ha⟩
  · simp only [ha, hf.1 hon]
    exact .inl ⟨f, history, rfl, hf⟩
  · exact .inr ⟨c, history, hc, by simp only [ha]; rfl⟩

end Engine

namespace Runtime

/-- How a change of a container's state may go. -/
theorem change_cases (operation : String) (h : Handle) (m : EngineCall Unit)
    (effect : EngineEffect) (w : World) :
    ∃ w₁, w.Quiet w₁ ∧ ((∃ e, e.saysGone = false ∧
      change operation h m effect w = (.error e, w₁)) ∨
      ∃ trace, change operation h m effect w =
        (((settling m w₁.engine).1.mapError (failureOf operation (some h.app) (some h.name))).map
            fun _ => (), { w₁ with engine := (settling m w₁.engine).2, trace })) := by
  obtain ⟨w₁, hq, hc⟩ :=
    call_cases operation (some h.app) (some h.name) (settling m) none w
  refine ⟨w₁, hq, ?_⟩
  unfold change
  rcases hc with ⟨e, hgone, hc⟩ | ⟨trace, hc⟩
  · exact .inl ⟨e, hgone, by rw [hc]⟩
  · refine .inr ?_
    rw [hc]
    cases (settling m w₁.engine).1 with
    | error f => exact ⟨_, rfl⟩
    | ok b => cases b <;> exact ⟨_, rfl⟩

end Runtime

/-- What was made of a value was made of one that is there. -/
theorem map_eq_ok {α β : Type} {o : Outcome α} {f : α → β} {b : β} (h : o.map f = .ok b) :
    ∃ a, o = .ok a ∧ f a = b := by
  cases o with
  | error e => cases h
  | ok a => exact ⟨a, rfl, Except.ok.inj h⟩

namespace World

open Engine

variable {w : World}

theorem Quiet.honest {w' : World} (hq : w.Quiet w') (hon : w.engine.Honest) :
    w'.engine.Honest := by
  obtain ⟨_, _, _, rfl⟩ := hq
  exact hon

theorem Quiet.truthful {w' : World} (hq : w.Quiet w') (ht : w.engine.Truthful) :
    w'.engine.Truthful := by
  obtain ⟨_, _, _, rfl⟩ := hq
  exact ht

theorem Quiet.find? {w' : World} (hq : w.Quiet w') (id : String) :
    w'.engine.find? id = w.engine.find? id := by
  obtain ⟨_, _, _, rfl⟩ := hq
  rfl

theorem Quiet.containers {w' : World} (hq : w.Quiet w') :
    w'.engine.containers = w.engine.containers := by
  obtain ⟨_, _, _, rfl⟩ := hq
  rfl

theorem quiet_withHistory {w' : World} (hq : w.Quiet w') (history : List EngineRequest)
    (trace : List Event) : w.Quiet { w' with engine := w'.engine.withHistory history, trace } :=
  hq.trans ⟨_, _, _, rfl⟩

theorem became_having {w' : World} (hq : w.Quiet w') (cs : List Container)
    (history : List EngineRequest) (trace : List Event) :
    w.Became cs { w' with engine := w'.engine.having cs history, trace } :=
  hq.became ⟨_, _, _, rfl⟩

theorem answer_start (h : Handle) (hon : w.engine.Honest) :
    (∃ e, (w.answer (.start h)).1 = .error e ∧ w.Quiet (w.answer (.start h)).2) ∨
    ((w.answer (.start h)).1 = .ok () ∧ ∃ c, w.engine.find? h.id = some c ∧
      ((c.isRunning = true ∧ w.Quiet (w.answer (.start h)).2) ∨
      (c.isRunning = false ∧
        w.Became (changed w.engine.containers h.id .started) (w.answer (.start h)).2))) := by
  show (∃ e, (Runtime.start h w).1 = _ ∧ w.Quiet (Runtime.start h w).2)
    ∨ ((Runtime.start h w).1 = _ ∧ ∃ c, _ ∧ ((_ ∧ w.Quiet (Runtime.start h w).2)
      ∨ (_ ∧ w.Became _ (Runtime.start h w).2)))
  unfold Runtime.start
  obtain ⟨w₁, hq, ⟨e, -, hc⟩ | ⟨trace, hc⟩⟩ :=
    Runtime.change_cases "start" h (·.start h.key h.id) (.start h.id) w
  · exact .inl ⟨e, by rw [hc], by rw [hc]; exact hq⟩
  rw [hc]
  rcases settling_start w₁.engine (hq.honest hon) h.key h.id with
    ⟨f, history, hs⟩ | ⟨c, history, hf, ⟨hrun, hs⟩ | ⟨hrun, hs⟩⟩ <;> rw [hs]
  · exact .inl ⟨_, rfl, quiet_withHistory hq _ _⟩
  · exact .inr ⟨rfl, c, hq.find? _ ▸ hf, .inl ⟨hrun, quiet_withHistory hq _ _⟩⟩
  · refine .inr ⟨rfl, c, hq.find? _ ▸ hf, .inr ⟨hrun, ?_⟩⟩
    rw [← hq.containers]
    exact became_having hq _ _ _

theorem answer_restart (h : Handle) (hon : w.engine.Honest) :
    (∃ e, (w.answer (.restart h)).1 = .error e ∧ w.Quiet (w.answer (.restart h)).2) ∨
    ((w.answer (.restart h)).1 = .ok () ∧ ∃ c, w.engine.find? h.id = some c ∧
      w.Became (changed w.engine.containers h.id .started) (w.answer (.restart h)).2) := by
  show (∃ e, (Runtime.restart h w).1 = _ ∧ w.Quiet (Runtime.restart h w).2)
    ∨ ((Runtime.restart h w).1 = _ ∧ ∃ c, _ ∧ w.Became _ (Runtime.restart h w).2)
  unfold Runtime.restart
  obtain ⟨w₁, hq, ⟨e, -, hc⟩ | ⟨trace, hc⟩⟩ :=
    Runtime.change_cases "restart" h (·.restart h.key h.id)
      (.restart h.id w.broker.runtime.settings.stopTimeout) w
  · exact .inl ⟨e, by rw [hc], by rw [hc]; exact hq⟩
  rw [hc]
  rcases settling_restart w₁.engine (hq.honest hon) h.key h.id with
    ⟨f, history, hs⟩ | ⟨c, history, hf, hs⟩ <;> rw [hs]
  · exact .inl ⟨_, rfl, quiet_withHistory hq _ _⟩
  · refine .inr ⟨rfl, c, hq.find? _ ▸ hf, ?_⟩
    rw [← hq.containers]
    exact became_having hq _ _ _

theorem answer_stop (h : Handle) (hon : w.engine.Honest) :
    (∃ e, (w.answer (.stop h)).1 = .error e ∧ w.Quiet (w.answer (.stop h)).2) ∨
    ((w.answer (.stop h)).1 = .ok () ∧ ∃ c, w.engine.find? h.id = some c ∧
      ((c.isRunning = false ∧ w.Quiet (w.answer (.stop h)).2) ∨
      (c.isRunning = true ∧
        w.Became (changed w.engine.containers h.id .stopped) (w.answer (.stop h)).2))) := by
  show (∃ e, (Runtime.stop h w).1 = _ ∧ w.Quiet (Runtime.stop h w).2)
    ∨ ((Runtime.stop h w).1 = _ ∧ ∃ c, _ ∧ ((_ ∧ w.Quiet (Runtime.stop h w).2)
      ∨ (_ ∧ w.Became _ (Runtime.stop h w).2)))
  unfold Runtime.stop
  obtain ⟨w₁, hq, ⟨e, -, hc⟩ | ⟨trace, hc⟩⟩ :=
    Runtime.change_cases "stop" h (·.stop h.key h.id)
      (.stop h.id w.broker.runtime.settings.stopTimeout) w
  · exact .inl ⟨e, by rw [hc], by rw [hc]; exact hq⟩
  rw [hc]
  rcases settling_stop w₁.engine (hq.honest hon) h.key h.id with
    ⟨f, history, hs⟩ | ⟨c, history, hf, ⟨hrun, hs⟩ | ⟨hrun, hs⟩⟩ <;> rw [hs]
  · exact .inl ⟨_, rfl, quiet_withHistory hq _ _⟩
  · exact .inr ⟨rfl, c, hq.find? _ ▸ hf, .inl ⟨hrun, quiet_withHistory hq _ _⟩⟩
  · refine .inr ⟨rfl, c, hq.find? _ ▸ hf, .inr ⟨hrun, ?_⟩⟩
    rw [← hq.containers]
    exact became_having hq _ _ _

/-- A removal that fails changes nothing, and neither does one that the engine takes for done: of a
container that is gone. -/
theorem answer_destroy (h : Handle) (hon : w.engine.Honest) :
    (w.Quiet (w.answer (.destroy h)).2 ∧ (w.engine.Truthful →
      (w.answer (.destroy h)).1 = .ok () → w.engine.find? h.id = none)) ∨
    ((w.answer (.destroy h)).1 = .ok () ∧
      w.Became (without w.engine.containers h.id) (w.answer (.destroy h)).2) := by
  show (w.Quiet (Runtime.destroy h w).2 ∧ (_ → (Runtime.destroy h w).1 = _ → _))
    ∨ ((Runtime.destroy h w).1 = _ ∧ w.Became _ (Runtime.destroy h w).2)
  unfold Runtime.destroy
  obtain ⟨w₁, hq, ⟨e, hgone, hc⟩ | ⟨trace, hc⟩⟩ :=
    Runtime.change_cases "destroy" h (·.remove h.key h.id) (.remove h.id) w
  · left
    rw [hc]
    split
    · rename_i f w₂ heq
      obtain ⟨he, rfl⟩ := Prod.mk.inj heq
      obtain rfl := Except.error.inj he
      rw [show f.gone = false from hgone]
      exact ⟨hq, fun _ h => by cases h⟩
    · exact ⟨hq, fun _ h => by cases h⟩
  rcases settling_remove w₁.engine (hq.honest hon) h.key h.id with
    ⟨f, history, hs, hf⟩ | ⟨c, history, hf, hs⟩
  · left
    have htells (ht : w.engine.Truthful) (hk : f.kind = .notFound) :
        w.engine.find? h.id = none := by
      rw [← hq.find?]
      exact hf.2 (hq.truthful ht) hk
    have hquiet := quiet_withHistory hq history trace
    rw [hc, hs]
    simp only [mapError_error, Except.map, Runtime.failureOf]
    cases hk : f.kind with
    | notFound => exact ⟨hquiet, fun ht _ => htells ht hk⟩
    | answered | broken | disconnected | unforeseen => exact ⟨hquiet, fun _ h => by cases h⟩
  · right
    rw [hc, hs, ← hq.containers]
    exact ⟨rfl, became_having hq _ _ _⟩

/-- An inspection finds the container as it is. -/
theorem answer_inspect (h : Handle) :
    w.Quiet (w.answer (.inspect h)).2 ∧
      ∀ current, (w.answer (.inspect h)).1 = .ok current →
        ∃ c, w.engine.find? h.id = some c ∧
          Runtime.handleOf w.broker.runtime.settings.network c = .ok current := by
  show w.Quiet (Runtime.inspect h w).2 ∧ ∀ current, (Runtime.inspect h w).1 = _ → _
  unfold Runtime.inspect
  obtain ⟨w₁, hq, ⟨e, -, hc⟩ | ⟨trace, hc⟩⟩ :=
    Runtime.call_cases "inspect" (some h.app) (some h.name) (·.get h.key h.id) none w
  · rw [hc]
    exact ⟨hq, fun current h => by cases h⟩
  rw [hc]
  rcases w₁.engine.get_cases h.key h.id with ⟨f, history, hg, -⟩ | ⟨c, history, hf, hg⟩ <;> rw [hg]
  · exact ⟨quiet_withHistory hq _ _, fun current h => by cases h⟩
  · refine ⟨quiet_withHistory hq _ _, fun current h => ⟨c, hq.find? _ ▸ hf, ?_⟩⟩
    obtain ⟨_, _, _, rfl⟩ := hq
    exact h

/-- Running a command changes no container. -/
theorem answer_exec (h : Handle) (user : String) (command : List String) :
    w.Quiet (w.answer (.exec h user command)).2 := by
  show w.Quiet (Runtime.exec h user command w).2
  unfold Runtime.exec
  obtain ⟨w₁, hq, ⟨e, -, hc⟩ | ⟨trace, hc⟩⟩ := Runtime.call_cases "exec" (some h.app) (some h.name)
    (·.exec h.key h.id command user) (some (.exec h.id command user)) w
  · rw [hc]
    exact hq
  rw [hc]
  unfold Engine.exec
  rcases w₁.engine.about_cases h.key .exec h.id with ⟨f, history, ha, -⟩ | ⟨c, history, -, ha⟩ <;>
    rw [ha] <;> exact quiet_withHistory hq _ _

/-- The labels that an application's containers are looked for by. -/
def filters (app tenant : String) (service : Option String) : List (String × String) :=
  [(Runtime.appLabel, app), (Runtime.tenantLabel, tenant)]
    ++ (service.map fun s => (Runtime.serviceLabel, s)).toList

/-- What the engine lists of an application. -/
def listing (w : World) (k : AppKey) (service : Option String) : Outcome (List Container) :=
  (Runtime.call "find" (some k.name) none (·.list k (filters k.name k.tenant service)) none w).1

theorem listing_eq_ok {k : AppKey} {service : Option String} {cs : List Container}
    (h : w.listing k service = .ok cs) : cs = w.engine.containers.reverse.filter fun c =>
      (filters k.name k.tenant service).all (c.hasLabel w.engine.lenient) := by
  unfold listing at h
  obtain ⟨w₁, ⟨_, _, _, rfl⟩, ⟨e, -, hc⟩ | ⟨trace, hc⟩⟩ := Runtime.call_cases "find" (some k.name)
    none (·.list k (filters k.name k.tenant service)) none w
  · rw [hc] at h
    cases h
  rw [hc] at h
  unfold Engine.list at h
  rcases accept_cases _ ⟨.list, "*", some k⟩ with ⟨f, -, ha⟩ | ⟨-, ha⟩ <;> rw [ha] at h
  · cases h
  · exact (Except.ok.inj h).symm

/-- A search reads what the engine lists. -/
theorem find_eq (w : World) (k : AppKey) (service : Option String) :
    (w.answer (.find k.name k.tenant service)).1 = w.listing k service >>= fun cs =>
      (Runtime.handlesOf w.broker.runtime.settings.network cs).map fun hs =>
        (hs.filter fun h => service.all (h.service = ·)).mergeSort
          fun a b => a.sequence ≤ b.sequence := by
  have hsettings := Runtime.settings_call "find" (some k.name) none
    (·.list k (filters k.name k.tenant service)) none w
  show (Runtime.find k.name k.tenant service w).1 = _
  unfold Runtime.find listing
  unfold filters at hsettings ⊢
  rcases hcall : Runtime.call "find" (some k.name) none _ none w with ⟨e | cs, w₁⟩
  · simp only [hcall]
    rfl
  · rw [hcall] at hsettings
    simp only [hcall]
    rw [ok_bind, show w₁.broker.runtime.settings = _ from hsettings]

theorem quiet_find (w : World) (k : AppKey) (service : Option String) :
    w.Quiet (w.answer (.find k.name k.tenant service)).2 := by
  show w.Quiet (Runtime.find k.name k.tenant service w).2
  unfold Runtime.find
  obtain ⟨w₁, hq, ⟨e, -, hc⟩ | ⟨trace, hc⟩⟩ := Runtime.call_cases "find" (some k.name) none
    (·.list k (filters k.name k.tenant service)) none w <;> unfold filters at hc <;> simp only [hc]
  · exact hq
  unfold Engine.list
  rcases w₁.engine.accept_cases ⟨.list, "*", some k⟩ with ⟨f, -, ha⟩ | ⟨-, ha⟩ <;>
    simp only [ha] <;> exact quiet_withHistory hq _ _

/-- A search gives the handles of the containers that carry the labels, oldest first. -/
theorem answer_find (app tenant : String) (service : Option String) :
    w.Quiet (w.answer (.find app tenant service)).2 ∧
      ∀ hs, (w.answer (.find app tenant service)).1 = .ok hs →
        ∃ all, Runtime.handlesOf w.broker.runtime.settings.network
            (w.engine.containers.reverse.filter fun c =>
              (filters app tenant service).all (c.hasLabel w.engine.lenient)) = .ok all ∧
          hs = (all.filter fun h => service.all (h.service = ·)).mergeSort
            fun a b => a.sequence ≤ b.sequence := by
  refine ⟨w.quiet_find ⟨tenant, app⟩ service, fun hs h => ?_⟩
  replace h := (w.find_eq ⟨tenant, app⟩ service).symm.trans h
  cases hlisting : w.listing ⟨tenant, app⟩ service with
  | error e =>
    rw [hlisting] at h
    cases h
  | ok cs =>
    rw [hlisting, ok_bind, listing_eq_ok hlisting] at h
    obtain ⟨all, hall, rfl⟩ := map_eq_ok h
    exact ⟨all, hall, rfl⟩

/-- The container that is made next, for a slot of an application. -/
def newcomer (w : World) (app tenant : String) (tag : Tag) : Container :=
  w.engine.fresh (Runtime.specOf w.broker.runtime app tenant tag (w.idsGiven + 1)
    (max w.clock.nanos (w.broker.runtime.lastSequence + 1)))

/-- The world after a serial was given. -/
def counted (w : World) : World := (Runtime.nextSerial w).2

/-- Making a container fails and only uses up a serial, or the engine has a new container; its
handle may still fail to be read. -/
theorem answer_create (app tenant : String) (tag : Tag) :
    ((∃ e, (w.answer (.create app tenant tag)).1 = .error e) ∧
      w.counted.Quiet (w.answer (.create app tenant tag)).2) ∨
    ((w.answer (.create app tenant tag)).1
        = Runtime.handleOf w.broker.runtime.settings.network (w.newcomer app tenant tag) ∧
      ∃ w₁, w.counted.Became (Engine.replaceIn (w.newcomer app tenant tag) w.engine.containers) w₁ ∧
        (w.answer (.create app tenant tag)).2
          = { w₁ with engine := { w₁.engine with made := w.engine.nextNumber } }) := by
  show ((∃ e, (Runtime.create app tenant tag w).1 = _) ∧
      w.counted.Quiet (Runtime.create app tenant tag w).2) ∨
    ((Runtime.create app tenant tag w).1 = _ ∧ ∃ w₁, _ ∧ (Runtime.create app tenant tag w).2 = _)
  have hnext : Runtime.nextSerial w = (.ok (w.idsGiven + 1,
      max w.clock.nanos (w.broker.runtime.lastSequence + 1)), w.counted) := rfl
  unfold Runtime.create Action.bind
  simp only [hnext]
  split
  · exact .inl ⟨⟨_, rfl⟩, .refl _⟩
  obtain ⟨w₁, hq, ⟨e, -, hc⟩ | ⟨trace, hc⟩⟩ := Runtime.call_cases "create" (some app) none
    (·.create ⟨tenant, app⟩ (Runtime.specOf w.counted.broker.runtime app tenant tag
      (w.idsGiven + 1) (max w.clock.nanos (w.broker.runtime.lastSequence + 1))))
    (some (.create (Runtime.specOf w.counted.broker.runtime app tenant tag
      (w.idsGiven + 1) (max w.clock.nanos (w.broker.runtime.lastSequence + 1))))) w.counted
  · simp only [hc]
    exact .inl ⟨⟨e, rfl⟩, hq⟩
  simp only [hc]
  obtain ⟨_, _, _, rfl⟩ := hq
  rcases Engine.create_cases _ _ _ with ⟨f, history, he⟩ | ⟨history, he⟩ <;> rw [he]
  · exact .inl ⟨⟨_, rfl⟩, _, _, _, rfl⟩
  · exact .inr ⟨rfl, _, ⟨_, _, _, rfl⟩, rfl⟩

end World

end AppBroker
