import AppBroker.Proofs.RecordCalls
import AppBroker.Proofs.Sharing

/-!
# Calls to the router

A router that refuses a change says that it has to do with routing. Dropping the routes of a
container adds none, whichever kind of router it is; what a routing service is asked for is seen in
the trace. Until containers are started, no call of a creation asks it for a route
(`World.unpublished_answer`).
-/

namespace AppBroker

namespace Url

theorem outright_requestHost (cs : List Char) : Outright (requestHost cs) := by
  unfold requestHost
  split
  · exact outright_ok _
  split
  · split
    · exact outright_ok _
    · exact outright_fail _
  split
  · exact outright_ok _
  split
  · exact outright_ok _
  · exact outright_fail _

theorem outright_requestPort (scheme cs : List Char) : Outright (requestPort scheme cs) := by
  unfold requestPort
  split
  · exact outright_ok _
  split
  · exact outright_ok _
  · exact outright_fail _

theorem outright_target (text : String) : Outright (target text) := by
  unfold target
  dsimp only
  split
  · exact outright_fail _
  refine (outright_requestHost _).bind fun host => (outright_requestPort _ _).bind fun port => ?_
  split <;> exact outright_ok _

end Url

namespace Router

/-- What a router refuses has to do with routing. -/
theorem isRouting_of_refused {router : Router} {replies : List HttpReply} {c : RouteChange}
    {r : Refusal} (h : (router.change replies c).result = .error (.refusal r)) :
    r.isRouting = true := by
  unfold change at h
  cases router with
  | memory routes => cases h
  | service base token =>
    cases hr : request base token c with
    | error e =>
      have houtright : Outright (request base token c) :=
        (Url.outright_target _).bind fun _ => outright_ok _
      simp only [hr] at h
      exact absurd hr (Except.error.inj h ▸ houtright r)
    | ok sent =>
      simp only [hr, verdict] at h
      split at h
      · split at h
        · cases h
        split at h
        · cases h
        split at h <;> cases h
        rfl
      · split at h <;> cases h
        rfl

theorem change_service (base : String) (token : Option String) (replies : List HttpReply)
    (c : RouteChange) : ((service base token).change replies c).router = service base token := by
  simp only [change]
  split <;> rfl

theorem method_of_request {base : String} {token : Option String} {c : RouteChange}
    {sent : HttpRequest × Bool} (h : request base token c = .ok sent) :
    sent.1.method = c.method := by
  unfold request at h
  cases ht : Url.target (base ++ c.path) with
  | error e =>
    rw [ht] at h
    cases h
  | ok target =>
    rw [ht] at h
    cases h
    rfl

/-- What is sent goes to a service, and is the request for the change. -/
theorem request_of_sent {router : Router} {replies : List HttpReply} {c : RouteChange}
    {r : HttpRequest} (h : r ∈ (router.change replies c).sent) :
    ∃ base token isAbsolute, router = service base token ∧
      request base token c = .ok (r, isAbsolute) := by
  unfold change at h
  cases router with
  | memory routes => cases h
  | service base token =>
    cases hr : request base token c with
    | error e =>
      simp only [hr] at h
      cases h
    | ok sent =>
      simp only [hr] at h
      rw [List.mem_singleton.1 h]
      exact ⟨base, token, sent.2, rfl, hr⟩

end Router

namespace World

/-- A container's routes are dropped, or are left to a routing service. -/
theorem answer_retract (w : World) (id : String) :
    (w.answer (.route (.retract id))).2.engine = w.engine ∧
      (∀ k, (w.answer (.route (.retract id))).2.recordAt k = w.recordAt k) ∧
      (∀ other, (w.answer (.route (.retract id))).2.Routed other → other ≠ id ∧ w.Routed other) ∧
      ∀ r, (w.answer (.route (.retract id))).1 = .error (.refusal r) → r.isRouting = true := by
  refine ⟨rfl, fun k => rfl, fun other ho => ?_, fun r hr => Router.isRouting_of_refused hr⟩
  cases hrouter : w.broker.router with
  | memory routes =>
    obtain ⟨-, -, hafter⟩ := answer_route hrouter (.retract id)
    unfold Routed at ho ⊢
    rw [routes_eq hafter, RouteChange.apply, Table.mem_keys_erase] at ho
    rwa [routes_eq hrouter]
  | service base token =>
    have hafter : (w.answer (.route (.retract id))).2.broker.router = .service base token := by
      show (w.broker.router.change w.replies (.retract id)).router = _
      rw [hrouter, Router.change_service]
    unfold Routed routes at ho
    rw [hafter] at ho
    cases ho

/-- Nothing was asked of a routing service since. -/
def Unasked (w w' : World) : Prop :=
  ∃ events, w'.trace = w.trace ++ events ∧ ∀ r, .request r ∉ events

theorem Unasked.trans {w₁ w₂ w₃ : World} (h : w₁.Unasked w₂) (h' : w₂.Unasked w₃) :
    w₁.Unasked w₃ := by
  obtain ⟨events, ht, hall⟩ := h
  obtain ⟨events', ht', hall'⟩ := h'
  refine ⟨events ++ events', by rw [ht', ht, List.append_assoc], fun r hr => ?_⟩
  exact (List.mem_append.1 hr).elim (hall r) (hall' r)

theorem unasked_of_trace {w w' : World} (h : w'.trace = w.trace) : w.Unasked w' :=
  ⟨[], by simp [h]⟩

theorem Unasked.refl (w : World) : w.Unasked w := unasked_of_trace rfl

theorem unasked_note (w : World) (event : Event) (he : ∀ r, event ≠ .request r) :
    w.Unasked (w.note event) :=
  ⟨[event], rfl, fun r hr => he r (List.mem_singleton.1 hr).symm⟩

theorem unasked_bind {α β : Type} {m : Action World α} {f : α → Action World β}
    (hm : ∀ w, Unasked w (m w).2) (hf : ∀ a w, Unasked w (f a w).2) (w : World) :
    w.Unasked (Action.bind m f w).2 := by
  have h := hm w
  unfold Action.bind
  split <;> rename_i hmw <;> rw [hmw] at h
  · exact h.trans (hf _ _)
  · exact h

theorem unasked_load (tenant : String) (w : World) : w.Unasked (load tenant w).2 :=
  unasked_of_trace rfl

theorem unasked_rewrite (tenant : String)
    (f : Table String Record → Outcome (Table String Record)) (w : World) :
    w.Unasked (rewrite tenant f w).2 := by
  refine unasked_bind (unasked_load tenant) (fun records w => ?_) w
  split <;> exact unasked_of_trace rfl

theorem unasked_withSource {α : Type} {f : SourceControl → Action World α}
    (hf : ∀ source w, Unasked w (f source w).2) (w : World) : w.Unasked (withSource f w).2 := by
  unfold withSource
  split
  · exact .refl w
  · exact hf _ w

theorem unasked_call {α : Type} (operation : String) (app container : Option String)
    (m : Runtime.EngineCall α) (effect : Option EngineEffect) (w : World) :
    w.Unasked (Runtime.call operation app container m effect w).2 := by
  have hconnect : (Runtime.connect w).2.trace = w.trace := by
    unfold Runtime.connect
    split
    · rfl
    · dsimp only
      split <;> rfl
  unfold Runtime.call Action.bind
  have hblame := Runtime.blame_snd operation app container Runtime.connect w
  cases hb : Runtime.blame operation app container Runtime.connect w with
  | mk o w₁ =>
    rw [hb] at hblame
    subst hblame
    cases o with
    | error e => exact unasked_of_trace hconnect
    | ok u =>
      refine .trans (unasked_of_trace hconnect) ?_
      dsimp only
      cases (m (Runtime.connect w).2.engine).1 with
      | error f => exact .refl _
      | ok a =>
        cases effect with
        | none => exact .refl _
        | some effect => exact unasked_note _ _ fun r h => by cases h

theorem unasked_change (operation : String) (h : Handle) (m : Runtime.EngineCall Unit)
    (effect : EngineEffect) (w : World) :
    w.Unasked (Runtime.change operation h m effect w).2 := by
  have hcall := unasked_call operation (some h.app) (some h.name) (Runtime.settling m) none w
  unfold Runtime.change
  split <;> rename_i hc <;> rw [hc] at hcall
  · exact hcall
  · split
    · exact hcall.trans (unasked_note _ _ fun r h => by cases h)
    · exact hcall

/-- No call but those to the router asks a routing service for anything. -/
theorem unasked_answer {c : Call} (hc : c.isUnrouted = true) (w : World) :
    w.Unasked (w.answer c).2 := by
  cases c with
  | record tenant name => exact unasked_bind (unasked_load tenant) (fun _ w => .refl w) w
  | records tenant => exact unasked_bind (unasked_load tenant) (fun _ w => .refl w) w
  | tenants | compose | plugin | now => exact unasked_of_trace rfl
  | addRecord | replaceRecord | removeRecord => exact unasked_rewrite _ _ w
  | create app tenant tag =>
    refine unasked_bind (m := Runtime.nextSerial) (fun w => unasked_of_trace rfl)
      (fun given w => ?_) w
    have hcall := unasked_call "create" (some app) none (·.create ⟨tenant, app⟩
      (Runtime.specOf w.broker.runtime app tenant tag given.1 given.2)) (some (.create
      (Runtime.specOf w.broker.runtime app tenant tag given.1 given.2))) w
    dsimp only
    split
    · exact .refl w
    · split <;> rename_i hm <;> rw [hm] at hcall <;> exact hcall
  | find app tenant service =>
    have hcall := unasked_call "find" (some app) none
      (·.list ⟨tenant, app⟩ (filters app tenant service)) none w
    show w.Unasked (Runtime.find app tenant service w).2
    unfold Runtime.find
    dsimp only
    split <;> rename_i hm <;> rw [filters, hm] at hcall <;> exact hcall
  | inspect h =>
    have hcall := unasked_call "inspect" (some h.app) (some h.name) (·.get h.key h.id) none w
    show w.Unasked (Runtime.inspect h w).2
    unfold Runtime.inspect
    split <;> rename_i hm <;> rw [hm] at hcall <;> exact hcall
  | start h | stop h | restart h => exact unasked_change _ h _ _ w
  | destroy h =>
    have hchange := unasked_change "destroy" h (·.remove h.key h.id) (.remove h.id) w
    show w.Unasked (Runtime.destroy h w).2
    unfold Runtime.destroy
    split
    · rename_i hm
      rw [hm] at hchange
      split <;> exact hchange
    · exact hchange
  | exec h user command =>
    have hcall := unasked_call "exec" (some h.app) (some h.name)
      (·.exec h.key h.id command user) (some (.exec h.id command user)) w
    show w.Unasked (Runtime.exec h user command w).2
    unfold Runtime.exec
    split <;> rename_i hm <;> rw [hm] at hcall <;> exact hcall
  | route => cases hc
  | deploy tenant name branch =>
    refine unasked_withSource (fun _ w => ?_) w
    dsimp only
    split <;> exact unasked_note w _ fun r h => by cases h
  | branches tenant name => exact unasked_withSource (fun _ w => .refl w) w
  | disconnect =>
    show w.Unasked (Runtime.close w).2
    unfold Runtime.close Action.modify
    dsimp only
    split
    · exact unasked_note w _ fun r h => by cases h
    · exact .refl w
  | warn => exact unasked_note w _ fun r h => by cases h

/-- No route was asked for since. -/
def Unpublished (w w' : World) : Prop :=
  ∃ events, w'.trace = w.trace ++ events ∧ ∀ r, .request r ∈ events → r.method = "DELETE"

theorem Unpublished.refl (w : World) : w.Unpublished w := ⟨[], by simp⟩

theorem Unpublished.trans {w₁ w₂ w₃ : World} (h : w₁.Unpublished w₂) (h' : w₂.Unpublished w₃) :
    w₁.Unpublished w₃ := by
  obtain ⟨events, ht, hall⟩ := h
  obtain ⟨events', ht', hall'⟩ := h'
  refine ⟨events ++ events', by rw [ht', ht, List.append_assoc], fun r hr => ?_⟩
  exact (List.mem_append.1 hr).elim (hall r) (hall' r)

theorem Unasked.unpublished {w w' : World} (h : w.Unasked w') : w.Unpublished w' := by
  obtain ⟨events, ht, hall⟩ := h
  exact ⟨events, ht, fun r hr => absurd hr (hall r)⟩

end World

/-- Whether a creation that starts nothing may make a call. -/
def Call.isPreparing : Call → Bool
  | .record .. | .compose .. | .now | .addRecord .. | .removeRecord .. | .create .. | .find ..
  | .destroy _ | .route (.retract _) | .warn .. => true
  | _ => false

namespace World

theorem unpublished_retract (w : World) (id : String) :
    w.Unpublished (w.answer (.route (.retract id))).2 := by
  refine ⟨(w.broker.router.change w.replies (.retract id)).sent.map .request, rfl, fun r hr => ?_⟩
  obtain ⟨sent, hsent, he⟩ := List.mem_map.1 hr
  obtain ⟨base, token, isAbsolute, -, hrequest⟩ := Router.request_of_sent hsent
  rw [← Event.request.inj he, Router.method_of_request hrequest]
  rfl

/-- No call of a creation that starts nothing asks for a route. -/
theorem unpublished_answer {c : Call} (hc : c.isPreparing = true) (w : World) :
    w.Unpublished (w.answer c).2 := by
  cases c with
  | route change =>
    cases change with
    | retract id => exact unpublished_retract w id
    | publish | clear => cases hc
  | _ => exact (unasked_answer rfl w).unpublished

end World

end AppBroker
