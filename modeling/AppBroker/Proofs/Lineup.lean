import AppBroker.Proofs.Identity
import AppBroker.Proofs.Reading
import AppBroker.Proofs.RecordCalls
import AppBroker.Proofs.Request

/-!
# The containers of an application

Which containers an application has, and with which labels, is changed by making and by removing
containers only, and by each of these for one application only. A search for the application finds
each of them once.
-/

namespace AppBroker

namespace World

/-- The containers of an application, oldest first. -/
def lineup (w : World) (k : AppKey) : List Container := w.engine.containers.filter (·.BelongsTo k)

/-- The ids and the labels of an application's containers. -/
def marks (w : World) (k : AppKey) : List (String × Table String String) :=
  (w.lineup k).map fun c => (c.id, c.labels)

theorem mem_lineup {w : World} {k : AppKey} {c : Container} :
    c ∈ w.lineup k ↔ c ∈ w.engine.containers ∧ c.BelongsTo k := by
  simp [lineup]

variable {w w' : World} {k k' : AppKey} {id : String}

theorem marks_of_labels (h : w'.engine.containers.map (fun c => (c.id, c.labels)) =
    w.engine.containers.map fun c => (c.id, c.labels)) (k : AppKey) : w'.marks k = w.marks k := by
  have hmarks (cs : List Container) : (cs.filter (·.BelongsTo k)).map (fun c => (c.id, c.labels)) =
      (cs.map fun c => (c.id, c.labels)).filter fun m =>
        m.2.get? Runtime.appLabel = some k.name ∧ m.2.get? Runtime.tenantLabel = some k.tenant := by
    rw [List.filter_map]
    rfl
  unfold marks lineup
  rw [hmarks, hmarks, h]

theorem Became.labels_changed {f : Container → Container}
    (h : w.Became (Engine.changed w.engine.containers id f) w') (hid : ∀ c, (f c).id = c.id)
    (hl : ∀ c, (f c).labels = c.labels) :
    w'.engine.containers.map (fun c => (c.id, c.labels)) =
      w.engine.containers.map fun c => (c.id, c.labels) := by
  obtain ⟨_, _, _, rfl⟩ := h
  simp only [Engine.changed, List.map_map]
  refine List.map_congr_left fun c _ => ?_
  dsimp only [Function.comp]
  split
  · rw [hid, hl]
  · rfl

theorem Became.lineup_without (h : w.Became (Engine.without w.engine.containers id) w')
    (k : AppKey) : w'.lineup k = (w.lineup k).filter (·.id ≠ id) := by
  obtain ⟨_, _, _, rfl⟩ := h
  unfold lineup Engine.without
  rw [List.filter_comm]

theorem Became.marks_without (h : w.Became (Engine.without w.engine.containers id) w')
    (k : AppKey) : w'.marks k = (w.marks k).filter (·.1 ≠ id) := by
  unfold marks
  rw [h.lineup_without, List.filter_map]
  rfl

/-- A container whose id was given out once is no other application's. -/
theorem marks_without_other (hn : Engine.Numbered w.engine.containers w.engine.made)
    (hid : id ∈ (w.marks k).map (·.1)) (hne : k' ≠ k) :
    (w.marks k').filter (·.1 ≠ id) = w.marks k' := by
  rw [List.filter_eq_self]
  intro m hm
  obtain ⟨c, hc, rfl⟩ := List.mem_map.1 hm
  obtain ⟨m', hm', rfl⟩ := List.mem_map.1 hid
  obtain ⟨d, hd, rfl⟩ := List.mem_map.1 hm'
  obtain ⟨hc, hck⟩ := mem_lineup.1 hc
  obtain ⟨hd, hdk⟩ := mem_lineup.1 hd
  simp only [ne_eq, decide_eq_true_eq]
  intro he
  obtain rfl := hn.eq_of_id hc hd he
  exact hne (hck.unique hdk)

theorem nodup_marks (hn : Engine.Numbered w.engine.containers w.engine.made) (k : AppKey) :
    ((w.marks k).map (·.1)).Nodup := by
  have hnodup : (w.engine.containers.map (·.id)).Nodup := by
    rw [List.Nodup, List.pairwise_map]
    refine hn.increasing.imp_of_mem fun hc hd hlt he => ?_
    rw [hn.id_eq _ hc, hn.id_eq _ hd] at he
    have := Engine.idOf_injective he
    omega
  unfold marks lineup
  rw [List.map_map]
  exact (List.Sublist.map _ List.filter_sublist).nodup hnodup

/-- Making a container fails and changes nothing about containers, or gives its application one
more. -/
theorem lineup_create (hn : Engine.Numbered w.engine.containers w.engine.made) (tag : Tag) :
    ((∃ e, (w.answer (.create k.name k.tenant tag)).1 = .error e) ∧
      w.counted.Quiet (w.answer (.create k.name k.tenant tag)).2) ∨
    ((w.answer (.create k.name k.tenant tag)).1 = Runtime.handleOf
        w.broker.runtime.settings.network (w.newcomer k.name k.tenant tag) ∧
      (∃ w₁, w.counted.Became (w.engine.containers ++ [w.newcomer k.name k.tenant tag]) w₁ ∧
        (w.answer (.create k.name k.tenant tag)).2 =
          { w₁ with engine := { w₁.engine with made := w.engine.made + 1 } }) ∧
      ∀ k', (w.answer (.create k.name k.tenant tag)).2.lineup k' =
        w.lineup k' ++ if k' = k then [w.newcomer k.name k.tenant tag] else []) := by
  refine (w.answer_create k.name k.tenant tag).imp_right ?_
  rintro ⟨hanswer, w₁, hb, hw⟩
  have hfresh : ∀ d ∈ w.engine.containers, d.id ≠ (w.newcomer k.name k.tenant tag).id :=
    fun d hd => hn.fresh_id hd (Nat.lt_succ_self _)
  rw [Engine.Numbered.replaceIn_fresh hfresh] at hb
  refine ⟨hanswer, ⟨w₁, hb, hw⟩, fun k' => ?_⟩
  rw [hw]
  obtain ⟨_, _, _, rfl⟩ := hb
  unfold lineup
  rw [List.filter_append]
  congr 1
  split
  · rename_i heq
    subst heq
    exact List.filter_eq_self.2 fun c hc => by
      rw [List.mem_singleton.1 hc]
      exact decide_eq_true (w.newcomer_belongsTo _ tag)
  · rename_i hne
    refine List.filter_eq_nil_iff.2 fun c hc hk => hne ?_
    rw [List.mem_singleton.1 hc] at hk
    exact (of_decide_eq_true hk).unique (w.newcomer_belongsTo k tag)

end World

/-- Whether a search for an application finds its own containers only: the engine is exact, or
neither the name nor the tenant is left open. -/
def Told (lenient : Bool) (k : AppKey) : Prop := lenient = false ∨ (k.name ≠ "" ∧ k.tenant ≠ "")

/-- One that finds its own containers only, however the engine filters. -/
theorem Told.of_true {lenient : Bool} {k : AppKey} (h : Told true k) : Told lenient k :=
  .inr (h.resolve_left nofun)

theorem told_of_tenant {lenient : Bool} {caller : Caller} {name : String}
    (hname : lenient = false ∨ name ≠ "") (htenant : caller.tenant ≠ "") :
    Told lenient (caller.key name) :=
  hname.imp_right fun h => ⟨h, htenant⟩

theorem told_of_checkCreate {lenient : Bool} {caller : Caller} {name framework : String}
    {scaling : Int} (h : Lifecycle.checkCreate caller name framework scaling = .ok ()) :
    Told lenient (caller.key name) := by
  obtain ⟨hname, -, -, htenant⟩ := Request.checkCreate_eq_ok h
  refine .inr ⟨?_, htenant⟩
  rintro rfl
  exact absurd hname (by decide)

theorem belongsTo_of_filters {lenient : Bool} {k : AppKey} {c : Container} (hk : Told lenient k)
    (service : Option String)
    (hc : (World.filters k.name k.tenant service).all (c.hasLabel lenient) = true) :
    c.BelongsTo k := by
  have hget (key value : String) (hv : lenient = false ∨ value ≠ "")
      (h : c.hasLabel lenient (key, value) = true) : c.labels.get? key = some value := by
    rcases hv with rfl | hv
    · simpa [Container.hasLabel] using h
    · simpa [Container.hasLabel, hv] using h
  rw [List.all_eq_true] at hc
  exact ⟨hget _ _ (hk.imp_right And.left) (hc _ (by simp [World.filters])),
    hget _ _ (hk.imp_right And.right) (hc _ (by simp [World.filters]))⟩

/-- The slot that a container fills. -/
def Container.slot (c : Container) : String := (c.labels.get? Runtime.serviceLabel).getD ""

theorem filters_iff {lenient : Bool} {k : AppKey} {c : Container} (hk : Told lenient k)
    (service : Option String) (hs : c.BelongsTo k → (c.labels.get? Runtime.serviceLabel).isSome) :
    ((World.filters k.name k.tenant service).all (c.hasLabel lenient) = true ∧
      service.all (c.slot = ·) = true) ↔ (c.BelongsTo k ∧ service.all (c.slot = ·) = true) := by
  refine and_congr_left fun hslot => ⟨belongsTo_of_filters hk service, fun hc => ?_⟩
  have happ : c.hasLabel lenient (Runtime.appLabel, k.name) = true := by
    simp [Container.hasLabel, hc.1]
  have htenant : c.hasLabel lenient (Runtime.tenantLabel, k.tenant) = true := by
    simp [Container.hasLabel, hc.2]
  cases service with
  | none => simp [World.filters, happ, htenant]
  | some s =>
    have hservice : c.hasLabel lenient (Runtime.serviceLabel, s) = true := by
      obtain ⟨v, hv⟩ := Option.isSome_iff_exists.1 (hs hc)
      simp only [Container.slot, hv, Option.getD_some, Option.all_some, decide_eq_true_eq] at hslot
      simp [Container.hasLabel, hv, hslot]
    simp [World.filters, happ, htenant, hservice]

theorem forall₂_filter {α β : Type} {R : α → β → Prop} {p : α → Bool} {q : β → Bool} {as : List α}
    {bs : List β} (h : List.Forall₂ R as bs) (hpq : ∀ a b, R a b → p a = q b) :
    List.Forall₂ R (as.filter p) (bs.filter q) := by
  induction h with
  | nil => exact .nil
  | cons hab _ ih =>
    rw [List.filter_cons, List.filter_cons, hpq _ _ hab]
    split
    · exact .cons hab ih
    · exact ih

/-- A search finds each container of the application and the slot once. -/
theorem World.find_handles {w : World} {k : AppKey} {service : Option String} {hs : List Handle}
    (hk : Told w.engine.lenient k)
    (hslots : ∀ c ∈ w.lineup k, (c.labels.get? Runtime.serviceLabel).isSome)
    (h : (w.answer (.find k.name k.tenant service)).1 = .ok hs) :
    ∃ handles, List.Forall₂
      (fun c h => Runtime.handleOf w.broker.runtime.settings.network c = .ok h)
      ((w.lineup k).filter fun c => service.all (c.slot = ·)) handles ∧ hs.Perm handles := by
  obtain ⟨all, hall, rfl⟩ := (w.answer_find _ _ _).2 hs h
  have hread := forall₂_filter (p := fun c => service.all (c.slot = ·))
    (q := fun h => service.all (h.service = ·)) (Runtime.forall₂_handlesOf hall) fun c h hc => by
      rw [(Runtime.readFrom_of_handleOf hc).service]
      rfl
  have hsame : (w.engine.containers.reverse.filter fun c =>
      (filters k.name k.tenant service).all (c.hasLabel w.engine.lenient)).filter
        (fun c => service.all (c.slot = ·)) =
      ((w.lineup k).filter fun c => service.all (c.slot = ·)).reverse := by
    unfold lineup
    rw [List.filter_filter, List.filter_filter, ← List.filter_reverse]
    refine List.filter_congr fun c hc => ?_
    have hiff := filters_iff hk service fun hck =>
      hslots c (mem_lineup.2 ⟨List.mem_reverse.1 hc, hck⟩)
    rw [Bool.eq_iff_iff, Bool.and_eq_true, Bool.and_eq_true, decide_eq_true_eq, and_comm, hiff,
      and_comm]
  rw [hsame] at hread
  refine ⟨(all.filter fun h => service.all (h.service = ·)).reverse, ?_, ?_⟩
  · exact List.forall₂_reverse_iff.1 (by rwa [List.reverse_reverse])
  · exact (List.mergeSort_perm _ _).trans (List.reverse_perm _).symm

end AppBroker
