import AppBroker.Proofs.Composed
import AppBroker.Proofs.Driving
import AppBroker.Proofs.Handling

/-!
# Keeping records and containers

The terms on which applications share the store and the engine: whoever does not hold an application
changes neither its record nor which containers it has, with which labels. Driving containers and
looking things up changes neither for any application. The calls that do are told one by one, each
for the application that it is made for. None of them fails.
-/

namespace AppBroker

open Program Lifecycle

/-- Whether a tenant has a file of its own in the store: there is no slash in its name. -/
def AppKey.IsFiled (k : AppKey) : Prop := '/' ∉ k.tenant.toList

/-- Whether a failure says that something is not there. -/
def Failure.isAbsence : Failure → Bool
  | .refusal r => r.isAbsence
  | .breakage _ => false

/-- Whether a call is a search, asks for the time or for a composition, or drives a container. -/
def Call.isSteady : Call → Bool
  | .compose .. | .now | .find .. => true
  | c => c.isDriving

/-- Whether a call goes to the store, to the engine or to the router. -/
def Call.isRemote : Call → Bool
  | .compose .. | .plugin _ | .now | .deploy .. | .branches .. | .disconnect | .warn .. => false
  | _ => true

namespace World

/-- Whether a call does not fail if it goes to the store, to the engine or to the router. -/
def serves (w : World) (c : Call) : Bool := !c.isRemote || (w.answer c).1.isOk

/-- Whether the hub knows the plugin that it is asked for or does not have it, and gives plugins
whose tags can be written. -/
def informs (w : World) : Call → Bool
  | .plugin tag =>
    match Hub.plugin w.disk w.broker.hub tag with
    | .ok _ => true
    | .error e => e.isAbsence
  | .compose caller framework services =>
    match Composition.resolve w.disk w.broker.hub caller framework services with
    | .ok composition => composition.all (·.2.isUnmarked)
    | .error _ => true
  | _ => true

/-- What is always true of a world in which records and containers go together. -/
structure Dependable (lenient : Bool) (w : World) : Prop where
  numbered : Engine.Numbered w.engine.containers w.engine.made
  truthful : w.engine.Truthful
  lenient_eq : w.engine.lenient = lenient
  storing : w.Storing

/-- Nothing has changed about records and about labels. -/
structure Steady (w w' : World) : Prop where
  disk : w'.disk = w.disk
  codec : w'.broker.codec = w.broker.codec
  store : w'.broker.store = w.broker.store
  lenient : w'.engine.lenient = w.engine.lenient
  faults : w'.engine.faults = w.engine.faults
  made : w'.engine.made = w.engine.made
  numbers : w'.engine.containers.map (fun c => (c.id, c.number)) =
    w.engine.containers.map fun c => (c.id, c.number)
  labels : w'.engine.containers.map (fun c => (c.id, c.labels)) =
    w.engine.containers.map fun c => (c.id, c.labels)
  real : w.clock.moment.IsReal → w'.clock.moment.IsReal

theorem Steady.refl (w : World) : Steady w w := ⟨rfl, rfl, rfl, rfl, rfl, rfl, rfl, rfl, id⟩

theorem Steady.recordAt {w w' : World} (h : Steady w w') (k : AppKey) :
    w'.recordAt k = w.recordAt k := by
  unfold World.recordAt
  rw [h.disk, h.codec, h.store]

theorem numbered_iff {cs : List Container} {made : Nat} : Engine.Numbered cs made ↔
    (∀ p ∈ cs.map (fun c => (c.id, c.number)), p.1 = Engine.idOf p.2 ∧ p.2 ≤ made) ∧
      (cs.map fun c => (c.id, c.number)).Pairwise fun a b => a.2 < b.2 := by
  rw [List.forall_mem_map, List.pairwise_map]
  exact ⟨fun h => ⟨fun c hc => ⟨h.id_eq c hc, h.le_made c hc⟩, h.increasing⟩,
    fun h => ⟨fun c hc => (h.1 c hc).1, fun c hc => (h.1 c hc).2, h.2⟩⟩

theorem Steady.storing {w w' : World} (h : Steady w w') (hs : w.Storing) : w'.Storing where
  faithful := by rw [h.codec]; exact hs.faithful
  has := by rw [h.disk, h.store]; exact hs.has
  holds := by rw [h.disk, h.store, h.codec]; exact hs.holds
  real := h.real hs.real

theorem Steady.dependable {w w' : World} {lenient : Bool} (h : Steady w w')
    (hw : w.Dependable lenient) : w'.Dependable lenient where
  numbered := by
    rw [numbered_iff, h.numbers, h.made]
    exact numbered_iff.1 hw.numbered
  truthful := by
    unfold Engine.Truthful Engine.Honest
    rw [h.faults]
    exact hw.truthful
  lenient_eq := h.lenient.trans hw.lenient_eq
  storing := h.storing hw.storing

variable {w w' : World}

theorem Quiet.steady (h : w.Quiet w') : Steady w w' := by
  obtain ⟨_, _, _, rfl⟩ := h
  exact ⟨rfl, rfl, rfl, rfl, rfl, rfl, rfl, rfl, id⟩

theorem Became.steady {id : String} {f : Container → Container}
    (h : w.Became (Engine.changed w.engine.containers id f) w') (hid : ∀ c, (f c).id = c.id)
    (hn : ∀ c, (f c).number = c.number) (hl : ∀ c, (f c).labels = c.labels) : Steady w w' := by
  have hlabels := h.labels_changed hid hl
  obtain ⟨_, _, _, rfl⟩ := h
  refine ⟨rfl, rfl, rfl, rfl, rfl, rfl, ?_, hlabels, fun h => h⟩
  simp only [Engine.changed, List.map_map]
  refine List.map_congr_left fun c _ => ?_
  dsimp only [Function.comp]
  split
  · rw [hid, hn]
  · rfl

/-- Driving a container changes no record and no label, and neither does looking for one, for a
plugin or for the time. -/
theorem steady_answer {c : Call} (hc : c.isSteady = true) : Steady w (w.answer c).2 := by
  have hhandled {h : Handle} {f : Container → Container} {w' : World}
      (hcases : w.Quiet w' ∨ w.Became (Engine.changed w.engine.containers h.id f) w')
      (hid : ∀ c, (f c).id = c.id) (hn : ∀ c, (f c).number = c.number)
      (hl : ∀ c, (f c).labels = c.labels) : Steady w w' :=
    hcases.elim (·.steady) (·.steady hid hn hl)
  cases c with
  | compose caller framework services => exact .refl w
  | plugin tag => exact .refl w
  | now => exact ⟨rfl, rfl, rfl, rfl, rfl, rfl, rfl, rfl, fun h => h.addSeconds _⟩
  | find app tenant service => exact (w.answer_find _ _ _).1.steady
  | inspect h => exact (w.answer_inspect h).1.steady
  | start h => exact hhandled (w.handled_start h) (fun _ => rfl) (fun _ => rfl) fun _ => rfl
  | stop h => exact hhandled (w.handled_stop h) (fun _ => rfl) (fun _ => rfl) fun _ => rfl
  | restart h => exact hhandled (w.handled_restart h) (fun _ => rfl) (fun _ => rfl) fun _ => rfl
  | route change => exact ⟨rfl, rfl, rfl, rfl, rfl, rfl, rfl, rfl, fun h => h⟩
  | warn severity text => exact ⟨rfl, rfl, rfl, rfl, rfl, rfl, rfl, rfl, fun h => h⟩
  | record | records | tenants | addRecord | replaceRecord | removeRecord | create | destroy | exec
  | deploy | branches | disconnect => cases hc

theorem Wrote.dependable {lenient : Bool} {tenant : String} (h : w.Wrote tenant w')
    (hw : w.Dependable lenient) (hs : w'.Storing) : w'.Dependable lenient := by
  obtain ⟨data, rfl⟩ := h
  exact ⟨hw.numbered, hw.truthful, hw.lenient_eq, hs⟩

/-- Making a container, or failing to, leaves the world dependable. -/
theorem Dependable.create {lenient : Bool} (hw : w.Dependable lenient) (k : AppKey) (tag : Tag) :
    (w.answer (.create k.name k.tenant tag)).2.Dependable lenient := by
  have hstoring := hw.storing
  rcases w.lineup_create hw.numbered tag with ⟨-, hq⟩ | ⟨-, ⟨w₁, hb, hw₁⟩, -⟩
  · have hcounted : Steady w w.counted := ⟨rfl, rfl, rfl, rfl, rfl, rfl, rfl, rfl, id⟩
    exact hq.steady.dependable (hcounted.dependable hw)
  · rw [hw₁]
    obtain ⟨_, _, _, rfl⟩ := hb
    exact ⟨hw.numbered.append rfl rfl, hw.truthful, hw.lenient_eq,
      ⟨hstoring.faithful, hstoring.has, hstoring.holds, hstoring.real⟩⟩

theorem Became.dependable_without {lenient : Bool} {id : String}
    (h : w.Became (Engine.without w.engine.containers id) w') (hw : w.Dependable lenient) :
    w'.Dependable lenient := by
  have hstoring := hw.storing
  obtain ⟨_, _, _, rfl⟩ := h
  exact ⟨hw.numbered.without, hw.truthful, hw.lenient_eq,
    ⟨hstoring.faithful, hstoring.has, hstoring.holds, hstoring.real⟩⟩

theorem Wrote.marks {tenant : String} (h : w.Wrote tenant w') (k : AppKey) :
    w'.marks k = w.marks k := by
  obtain ⟨data, rfl⟩ := h
  rfl

theorem ok_of_serves {c : Call} (hc : c.isRemote = true) (h : w.serves c = true) :
    ∃ a, (w.answer c).1 = .ok a := by
  unfold serves at h
  rw [hc, Bool.not_true, Bool.false_or] at h
  cases ha : (w.answer c).1 with
  | error e =>
    rw [ha] at h
    cases h
  | ok a => exact ⟨a, rfl⟩

end World

/-- The record of an application is looked up. -/
theorem Lifecycle.run_recordOf {w : World} {caller : Caller} {name : String} {r : Record}
    (hw : w.Storing) (hk : (caller.key name).IsFiled) (htenant : caller.tenant ≠ "")
    (hr : w.recordAt (caller.key name) = some r) : (recordOf caller name).run w = (.ok r, w) := by
  unfold recordOf Caller.required
  rw [if_neg htenant]
  have hrun : (perform (.record caller.tenant name)).run w = (.ok (some r), w) :=
    World.answer_record_of_some hw hk hr
  exact run_bind_of_ok hrun _

/-- The terms on which applications share the store and the engine. -/
def agreeing (lenient : Bool) : Terms where
  sound := World.Dependable lenient
  rely k w w' := (k.IsFiled → w'.recordAt k = w.recordAt k) ∧ w'.marks k = w.marks k
  allows c w := w.serves c = true ∧ w.informs c = true
  rely_refl _ _ := ⟨fun _ => rfl, rfl⟩
  rely_trans _ _ _ _ h h' := ⟨fun hk => (h'.1 hk).trans (h.1 hk), h'.2.trans h.2⟩

/-- What an application has in the store and in the engine. -/
structure World.Has (w : World) (k : AppKey) (record : Option Record)
    (marks : List (String × Table String String)) : Prop where
  record : w.recordAt k = record
  marks : w.marks k = marks

namespace Agreeing

variable {platform : PlatformSettings} {lenient : Bool} {k : AppKey} {w : World}
  {record : Option Record} {marks : List (String × Table String String)}

theorem after {w' : World} (h : w.Has k record marks) (hk : k.IsFiled)
    (hr : (agreeing lenient).rely k w w') : w'.Has k record marks :=
  ⟨(hr.1 hk).trans h.record, hr.2.trans h.marks⟩

theorem minor_steady {c : Call} (hc : c.isSteady = true) : Minor (agreeing lenient) c := by
  intro w hw _
  have hsteady := w.steady_answer hc
  exact ⟨hsteady.dependable hw, fun k => ⟨fun _ => hsteady.recordAt k,
    w.marks_of_labels hsteady.labels k⟩⟩

theorem minor_record {tenant : String} (ht : '/' ∉ tenant.toList) (name : String) :
    Minor (agreeing lenient) (.record tenant name) := by
  intro w hw _
  have hsame : (w.answer (.record tenant name)).2 = w := by
    rcases w.answer_record hw.storing ht name with ha | ⟨e, ha⟩ <;> rw [ha]
  rw [hsame]
  exact ⟨hw, fun k => (agreeing lenient).rely_refl k w⟩

/-- A call that changes nothing about records and labels. -/
theorem meets_steady {c : Call} (hc : c.isSteady = true) (hr : c.isRemote = true)
    (hw : w.Has k record marks) (hk : k.IsFiled) {P : c.Value → Prop}
    (h : ∀ a (w' : World), w'.Dependable lenient → w'.Has k record marks →
      (w'.answer c).1 = .ok a → P a) :
    (perform c).Meets (agreeing lenient) k
      (ends (fun a w' => P a ∧ w'.Has k record marks) fun _ _ => False) w := by
  refine .minor (minor_steady hc) fun w' w'' hs _ ha hr' _ hrr => ?_
  obtain ⟨a, ho⟩ := w'.ok_of_serves hr ha.1
  rw [ho]
  exact ⟨h a w' hs (after hw hk hr') ho, after hw hk hrr⟩

/-- A call that gives an application another record, or takes its record away. -/
theorem meets_write {c : Call} (a : c.Value) (hc : c.isRemote = true) {r : Option Record}
    (hw : w.Has k record marks) (hk : k.IsFiled)
    (h : ∀ w : World, w.Storing → w.Has k record marks →
      (∃ e, w.answer c = (.error e, w)) ∨ ∃ w' : World, w.answer c = (.ok a, w') ∧
        w.Wrote k.tenant w' ∧ w'.Storing ∧
        ∀ k' : AppKey, k'.IsFiled → w'.recordAt k' = if k' = k then r else w.recordAt k') :
    (perform c).Meets (agreeing lenient) k (ends (fun _ w' => w'.Has k r marks) fun _ _ => False)
      w := by
  refine .perform fun w' hs hr ha => ?_
  have hw' := after hw hk hr
  rcases h w' hs.storing hw' with ⟨e, he⟩ | ⟨w₁, ho, hwrote, hstoring, hrecords⟩
  · obtain ⟨a', ha'⟩ := w'.ok_of_serves hc ha.1
    rw [he] at ha'
    cases ha'
  rw [ho]
  refine ⟨hwrote.dependable hs hstoring, fun k' hne => ⟨fun hk' => ?_, hwrote.marks k'⟩, ?_⟩
  · rw [hrecords k' hk', if_neg hne]
  · intro w₂ _ hr₂
    refine after ⟨?_, (hwrote.marks k).trans hw'.marks⟩ hk hr₂
    rw [hrecords k hk, if_pos rfl]

/-- The engine has made one more container for the application. -/
theorem meets_create (hw : w.Has k record marks) (hk : k.IsFiled) (tag : Tag) :
    (perform (.create k.name k.tenant tag)).Meets (agreeing lenient) k
      (ends (fun _ w' => ∃ m, Made m.2 tag ∧ w'.Has k record (marks ++ [m])) fun _ _ => False)
      w := by
  refine .perform fun w' hs hr ha => ?_
  have hw' := after hw hk hr
  obtain ⟨h, ho⟩ := w'.ok_of_serves (c := .create k.name k.tenant tag) rfl ha.1
  rcases w'.lineup_create hs.numbered tag with ⟨⟨e, he⟩, -⟩ | ⟨hof, ⟨w₁, hb, hw₁⟩, hlineup⟩
  · rw [he] at ho
    cases ho
  have hmarks (k' : AppKey) : (w'.answer (.create k.name k.tenant tag)).2.marks k' =
      w'.marks k' ++ if k' = k then [((w'.newcomer k.name k.tenant tag).id,
        (w'.newcomer k.name k.tenant tag).labels)] else [] := by
    unfold World.marks
    rw [hlineup, List.map_append]
    split <;> rfl
  have hmade : Made (w'.newcomer k.name k.tenant tag).labels tag :=
    World.made_newcomer (hof.symm.trans ho)
  have hrecords (k' : AppKey) :
      (w'.answer (.create k.name k.tenant tag)).2.recordAt k' = w'.recordAt k' := by
    rw [hw₁]
    obtain ⟨_, _, _, rfl⟩ := hb
    rfl
  refine ⟨hs.create k tag, fun k' hne => ⟨fun _ => hrecords k', ?_⟩, ?_⟩
  · rw [hmarks, if_neg hne, List.append_nil]
  · intro w₂ _ hr₂
    rw [ho]
    refine ⟨((w'.newcomer k.name k.tenant tag).id, _), hmade,
      after ⟨(hrecords k).trans hw'.record, ?_⟩ hk hr₂⟩
    rw [hmarks, if_pos rfl, hw'.marks]

/-- A container of the application is removed. -/
theorem meets_destroy (hw : w.Has k record marks) (hk : k.IsFiled) {h : Handle}
    (hid : h.id ∈ marks.map (·.1)) :
    (perform (.destroy h)).Meets (agreeing lenient) k
      (ends (fun _ w' => w'.Has k record (marks.filter (·.1 ≠ h.id))) fun _ _ => False) w := by
  refine .perform fun w' hs hr ha => ?_
  have hw' := after hw hk hr
  obtain ⟨u, ho⟩ := w'.ok_of_serves (c := .destroy h) rfl ha.1
  rcases w'.answer_destroy h hs.truthful.1 with ⟨hq, hgone⟩ | ⟨-, hb⟩
  · -- What the engine takes for done is not there, so that nothing is to be removed.
    exfalso
    obtain ⟨m, hm, he⟩ := List.mem_map.1 hid
    rw [← hw'.marks] at hm
    obtain ⟨c, hc, rfl⟩ := List.mem_map.1 hm
    have hnone := hgone hs.truthful ho
    unfold Engine.find? at hnone
    exact absurd he (by simpa using List.find?_eq_none.1 hnone c (World.mem_lineup.1 hc).1)
  · have hrecords (k' : AppKey) : (w'.answer (.destroy h)).2.recordAt k' = w'.recordAt k' := by
      obtain ⟨_, _, _, hb⟩ := hb
      rw [hb]
      rfl
    refine ⟨hb.dependable_without hs, fun k' hne => ⟨fun _ => hrecords k', ?_⟩, ?_⟩
    · rw [hb.marks_without, World.marks_without_other hs.numbered _ hne]
      rwa [hw'.marks]
    · intro w₂ _ hr₂
      rw [ho]
      refine after ⟨(hrecords k).trans hw'.record, ?_⟩ hk hr₂
      rw [hb.marks_without, hw'.marks]

end Agreeing

end AppBroker
