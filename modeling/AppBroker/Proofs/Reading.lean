import AppBroker.Engine.Runtime
import Mathlib.Data.List.Forall2

/-!
# Reading labels back

The handle of a container says what its labels say. A handle that was read tells of every label
how it was read, and a list of handles goes with the list of containers one by one.
-/

namespace AppBroker.Runtime

theorem labelOf_eq_ok {c : Container} {key value : String} (h : labelOf c key = .ok value) :
    c.labels.get? key = some value := by
  unfold labelOf at h
  split at h
  · rename_i v hv
    rw [hv, Except.ok.inj h]
  · cases h

/-- What a handle says of its container. -/
structure ReadFrom (network : String) (c : Container) (h : Handle) : Prop where
  id : h.id = c.id
  name : h.name = c.name
  app : c.labels.get? appLabel = some h.app
  tenant : c.labels.get? tenantLabel = some h.tenant
  service : h.service = (c.labels.get? serviceLabel).getD ""
  tag : ∃ text, c.labels.get? tagLabel = some text ∧ Tag.parse text = .ok h.tag
  sequence : Text.integer? ((c.labels.get? sequenceLabel).getD "0") = some h.sequence
  state : h.state = .ofStatus c.status
  address : h.address = addressOn network c

theorem readFrom_of_handleOf {network : String} {c : Container} {h : Handle}
    (hh : handleOf network c = .ok h) : ReadFrom network c h := by
  unfold handleOf at hh
  cases happ : labelOf c appLabel with
  | error e => rw [happ] at hh; cases hh
  | ok app =>
  cases htenant : labelOf c tenantLabel with
  | error e => rw [happ, htenant] at hh; cases hh
  | ok tenant =>
  cases htext : labelOf c tagLabel with
  | error e => rw [happ, htenant, htext] at hh; cases hh
  | ok text =>
  rw [happ, htenant, htext] at hh
  simp only [bind, Except.bind] at hh
  cases htag : Tag.parse text with
  | error e => rw [htag] at hh; cases hh
  | ok tag =>
  rw [htag] at hh
  dsimp only at hh
  split at hh
  · cases hh
  · rename_i sequence hseq
    obtain rfl := Except.ok.inj hh
    exact ⟨rfl, rfl, labelOf_eq_ok happ, labelOf_eq_ok htenant, rfl,
      ⟨text, labelOf_eq_ok htext, htag⟩, hseq, rfl, rfl⟩

theorem map_id_of_read {network : String} {cs : List Container} {hs : List Handle}
    (h : List.Forall₂ (fun c h => handleOf network c = .ok h) cs hs) :
    hs.map Handle.id = cs.map (·.id) := by
  rw [← List.forall₂_eq_eq_eq, List.forall₂_map_left_iff, List.forall₂_map_right_iff]
  exact h.flip.imp fun _ _ hh => (readFrom_of_handleOf hh).id

theorem handlesOf_cons {network : String} {c : Container} {cs : List Container} {hs : List Handle}
    (h : handlesOf network (c :: cs) = .ok hs) :
    ∃ first rest, handleOf network c = .ok first ∧ handlesOf network cs = .ok rest
      ∧ hs = first :: rest := by
  unfold handlesOf at h ⊢
  rw [List.mapM_cons] at h
  cases hc : handleOf network c with
  | error e => rw [hc] at h; cases h
  | ok first =>
  cases hcs : cs.mapM (handleOf network) with
  | error e => rw [hc, hcs] at h; cases h
  | ok rest =>
  rw [hc, hcs] at h
  exact ⟨first, rest, rfl, rfl, (Except.ok.inj h).symm⟩

theorem handlesOf_eq_ok {network : String} {cs : List Container}
    (h : ∀ c ∈ cs, ∃ handle, handleOf network c = .ok handle) :
    ∃ hs, handlesOf network cs = .ok hs := by
  induction cs with
  | nil => exact ⟨[], rfl⟩
  | cons c cs ih =>
    obtain ⟨first, hfirst⟩ := h c List.mem_cons_self
    obtain ⟨rest, hrest⟩ := ih fun c hc => h c (List.mem_cons_of_mem _ hc)
    unfold handlesOf at hrest ⊢
    rw [List.mapM_cons, hfirst, hrest]
    exact ⟨_, rfl⟩

theorem forall₂_handlesOf {network : String} {cs : List Container} {hs : List Handle}
    (h : handlesOf network cs = .ok hs) :
    List.Forall₂ (fun c h => handleOf network c = .ok h) cs hs := by
  induction cs generalizing hs with
  | nil =>
    obtain rfl := Except.ok.inj h
    exact .nil
  | cons c cs ih =>
    obtain ⟨first, rest, hc, hcs, rfl⟩ := handlesOf_cons h
    exact .cons hc (ih hcs)

theorem exists_of_mem_handlesOf {network : String} {cs : List Container} {hs : List Handle}
    (h : handlesOf network cs = .ok hs) {handle : Handle} (hm : handle ∈ hs) :
    ∃ c ∈ cs, handleOf network c = .ok handle := by
  obtain ⟨i, hi, rfl⟩ := List.mem_iff_getElem.1 hm
  have hf := forall₂_handlesOf h
  have hlen := hf.length_eq
  exact ⟨cs[i], List.getElem_mem (by omega), hf.get (by omega) hi⟩

end AppBroker.Runtime
