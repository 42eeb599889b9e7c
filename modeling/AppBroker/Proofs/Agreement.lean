import AppBroker.Proofs.CarefulCodec
import AppBroker.Proofs.Together
import AppBroker.Proofs.Upkeep

/-!
# Records and containers agree

Whenever nobody holds an application, it has containers exactly if it has a record, and they are
those that the record tells of: so many of the framework and one for each service, in slots of their
own. An operation takes the two apart for a while, since it changes one after the other, but not
before it holds the application, and it has brought them together again when it gives it up.
-/

namespace AppBroker

open Program Lifecycle

/-- Whether the containers of an application are those that its record tells of. -/
structure World.Agrees (w : World) (k : AppKey) : Prop where
  bare : w.recordAt k = none → w.marks k = []
  manned : ∀ r, w.recordAt k = some r → ∃ framework services,
    Composed r.plugins framework services ∧
      Consists (w.marks k) framework r.scaling services

namespace Agreeing

variable {platform : PlatformSettings} {lenient : Bool} {k : AppKey} {w : World}
  {record : Option Record} {marks : List (String × Table String String)}

theorem agrees_of_has {w' : World} (h : w.Agrees k)
    (hw : w'.Has k (w.recordAt k) (w.marks k)) : w'.Agrees k := by
  refine ⟨fun hn => ?_, fun r hs => ?_⟩
  · rw [hw.marks]
    exact h.bare (by rw [← hw.record, hn])
  · rw [hw.marks]
    exact h.manned r (by rw [← hw.record, hs])

theorem agrees_after {w' : World} (h : w.Agrees k) (hk : k.IsFiled)
    (hr : (agreeing lenient).rely k w w') : w'.Agrees k :=
  agrees_of_has h (after ⟨rfl, rfl⟩ hk hr)

/-! ## Driving containers -/

theorem meets_driving {α : Type} {p : Program α} (hp : p.Makes Driving) (h : w.Agrees k)
    (hk : k.IsFiled) : p.Meets (agreeing lenient) k (fun _ w' => w'.Agrees k) w := by
  refine (hp.meets fun c hc => minor_steady ?_).weaken fun r w' _ hr => agrees_after h hk hr
  unfold Driving at hc
  cases c <;> first | exact hc | rfl

theorem meets_warn (hw : w.Has k record marks) (hk : k.IsFiled) (severity : Severity)
    (text : String) :
    (warn severity text).Meets (agreeing lenient) k
      (ends (fun _ w' => w'.Has k record marks) fun _ _ => False) w :=
  .minor (minor_steady rfl) fun _ _ _ _ _ _ _ hrr => after hw hk hrr

theorem meets_remote {c : Call} (hc : c.isSteady = true) (hr : c.isRemote = true)
    (hw : w.Has k record marks) (hk : k.IsFiled) :
    (perform c).Meets (agreeing lenient) k
      (ends (fun _ w' => w'.Has k record marks) fun _ _ => False) w := by
  refine (meets_steady hc hr hw hk (P := fun _ => True) fun _ _ _ _ _ => trivial).weaken ?_
  rintro (e | a) w' _ h
  · exact h
  · exact h.2

/-- Publishing does not fail: a plugin that is not there is only warned of. -/
theorem meets_publish (hw : w.Has k record marks) (hk : k.IsFiled) (h : Handle) :
    (publish platform h).Meets (agreeing lenient) k
      (ends (fun _ w' => w'.Has k record marks) fun _ _ => False) w := by
  unfold publish
  refine .bind (.attempt (.minor (minor_steady rfl) fun w' w₁ _ _ ha _ _ hr₁ => ?_))
  have hw₁ := after hw hk hr₁
  have hinforms := ha.2
  have hplugin : (w'.answer (.plugin h.tag.withoutService)).1 =
      Hub.plugin w'.disk w'.broker.hub h.tag.withoutService := rfl
  unfold World.informs at hinforms
  rw [hplugin]
  rcases hp : Hub.plugin w'.disk w'.broker.hub h.tag.withoutService with (r | b) | p <;>
    simp only [hp, Failure.isAbsence, Bool.false_eq_true] at hinforms
  · show Meets _ _ (if r.isAbsence then _ else _) _ _
    rw [hinforms]
    exact meets_warn hw₁ hk _ _
  · show Meets _ _ (if p.endpoints.isEmpty then _ else _) _ _
    split
    · exact .done fun _ _ hr => after hw₁ hk hr
    · have hroute : (routeEndpoints platform h p).Meets (agreeing lenient) k
          (ends (fun _ w' => w'.Has k record marks) fun _ _ => False) w₁ := by
        unfold routeEndpoints
        exact .surely (meets_remote rfl rfl hw₁ hk) fun current w₂ _ hw₂ =>
          meets_remote rfl rfl hw₂ hk
      refine .surely (.attempt_surely hroute) fun result w₂ _ h₂ => ?_
      obtain ⟨u, rfl, hw₂⟩ := h₂
      exact .done fun _ _ hr => after hw₂ hk hr

theorem meets_startAll (hw : w.Has k record marks) (hk : k.IsFiled) (hs : List Handle) :
    (startAll platform hs).Meets (agreeing lenient) k
      (ends (fun _ w' => w'.Has k record marks) fun _ _ => False) w := by
  unfold startAll
  refine .surely (.forEach (fun _ _ w' => w'.Has k record marks) ?_ [] [] fun _ _ hr =>
    after hw hk hr) fun _ _ _ hw' => .done fun _ _ hr => after hw' hk hr
  intro before units h _ w' _ hw'
  unfold startOne
  exact .surely (meets_remote rfl rfl hw' hk) fun u w₁ _ hw₁ => meets_publish hw₁ hk h

/-! ## Removing containers -/

theorem meets_destroyOne (hw : w.Has k record marks) (hk : k.IsFiled) {h : Handle}
    (hid : h.id ∈ marks.map (·.1)) :
    (destroyOne h).Meets (agreeing lenient) k
      (ends (fun _ w' => w'.Has k record (marks.filter (·.1 ≠ h.id))) fun _ _ => False) w := by
  unfold destroyOne retract
  refine .surely (P := fun _ w' => w'.Has k record marks) ?_ fun _ w' _ hw' =>
    meets_destroy hw' hk hid
  refine .surely (.attempt_surely (meets_remote rfl rfl hw hk)) fun result w₁ _ h₁ => ?_
  obtain ⟨u, rfl, hw₁⟩ := h₁
  exact .done fun _ _ hr => after hw₁ hk hr

/-- What is left while a list is swept, and the rest of it is still to be. -/
def unswept (marks : List (String × Table String String)) (hs rest : List Handle) :
    List (String × Table String String) :=
  marks.filter fun m => m.1 ∉ hs.map Handle.id ∨ m.1 ∈ rest.map Handle.id

theorem unswept_self (marks : List (String × Table String String)) (hs : List Handle) :
    unswept marks hs hs = marks := by
  unfold unswept
  refine List.filter_eq_self.2 fun m _ => decide_eq_true ?_
  by_cases h : m.1 ∈ hs.map Handle.id
  · exact .inr h
  · exact .inl h

theorem unswept_cons {h : Handle} {hs rest : List Handle} (hm : h ∈ hs)
    (hfresh : h.id ∉ rest.map Handle.id) :
    (unswept marks hs (h :: rest)).filter (·.1 ≠ h.id) = unswept marks hs rest := by
  have hall : h.id ∈ hs.map Handle.id := List.mem_map_of_mem hm
  unfold unswept
  rw [List.filter_filter]
  refine List.filter_congr fun m _ => ?_
  by_cases he : m.1 = h.id
  · simp only [he, hfresh, hall]
    simp
  · simp [he]

/-- What is left of an application's containers after some of them are removed. -/
theorem meets_sweep {hs : List Handle} (hw : w.Has k record marks) (hk : k.IsFiled)
    (hids : ∀ h ∈ hs, h.id ∈ marks.map (·.1)) (hnodup : (hs.map Handle.id).Nodup) :
    (sweep destroyOne hs).Meets (agreeing lenient) k
      (ends (fun failure w' => failure = none ∧
        w'.Has k record (marks.filter fun m => m.1 ∉ hs.map Handle.id)) fun _ _ => False) w := by
  let I (rest : List Handle) (w : World) : Prop :=
    rest <:+ hs ∧ w.Has k record (unswept marks hs rest)
  have hstep : ∀ h rest w, (agreeing lenient).sound w → I (h :: rest) w →
      (destroyOne h).Meets (agreeing lenient) k
        (ends (fun _ => I rest) fun _ _ => False) w := by
    intro h rest w' _ ⟨hrest, hw'⟩
    have hmem : h ∈ hs := hrest.subset List.mem_cons_self
    have hfresh : h.id ∉ rest.map Handle.id :=
      (List.nodup_cons.1 ((hrest.sublist.map Handle.id).nodup hnodup)).1
    have hthere : h.id ∈ (unswept marks hs (h :: rest)).map (·.1) := by
      obtain ⟨m, hm, he⟩ := List.mem_map.1 (hids h hmem)
      exact List.mem_map.2 ⟨m, List.mem_filter.2 ⟨hm, by simp [he]⟩, he⟩
    refine (meets_destroyOne hw' hk hthere).weaken fun r w'' _ hr => ?_
    cases r with
    | error e => exact hr.elim
    | ok u =>
      rw [unswept_cons hmem hfresh] at hr
      exact ⟨(List.suffix_cons h rest).trans hrest, hr⟩
  have hsweep : (sweep destroyOne hs).Meets (agreeing lenient) k
      (ends (fun failure w' => (∀ f, failure = some f → False) ∧ I [] w') fun _ _ => False) w := by
    refine .sweep I (fun _ => False) (fun _ _ => minor_steady rfl)
      (fun rest w w' _ hr h => ⟨h.1, after h.2 hk hr⟩) ?_ ⟨List.suffix_refl hs, ?_⟩
    · intro h rest w hs hI
      refine (hstep h rest w hs hI).weaken fun r w' _ hr => ?_
      cases r with
      | error e => exact hr.elim
      | ok u => exact hr
    · rwa [unswept_self]
  refine hsweep.weaken fun r w' _ h => ?_
  cases r with
  | error e => exact h
  | ok failure =>
    obtain ⟨hnone, -, hw'⟩ := h
    refine ⟨Option.eq_none_iff_forall_ne_some.2 hnone, ?_⟩
    simpa [unswept] using hw'

theorem meets_sweepStrictly {hs : List Handle} (hw : w.Has k record marks) (hk : k.IsFiled)
    (hids : ∀ h ∈ hs, h.id ∈ marks.map (·.1)) (hnodup : (hs.map Handle.id).Nodup) :
    (sweepStrictly destroyOne hs).Meets (agreeing lenient) k
      (ends (fun _ w' => w'.Has k record (marks.filter fun m => m.1 ∉ hs.map Handle.id))
        fun _ _ => False) w := by
  unfold sweepStrictly
  refine .surely (meets_sweep hw hk hids hnodup) fun failure w' _ h => ?_
  obtain ⟨rfl, hw'⟩ := h
  exact .done fun _ _ hr => after hw' hk hr

/-! ## Making containers -/

/-- The engine has made one container for each tag. -/
theorem meets_createAll (hw : w.Has k record marks) (hk : k.IsFiled) (tags : List Tag) :
    (createAll k.name k.tenant tags).Meets (agreeing lenient) k
      (ends (fun _ w' => ∃ added, List.Forall₂ (fun m t => Made m.2 t) added tags ∧
        w'.Has k record (marks ++ added)) fun _ _ => False) w := by
  unfold createAll
  let I (before : List Tag) (_ : List Handle) (w : World) : Prop := ∃ added,
    List.Forall₂ (fun m t => Made m.2 t) added before ∧ w.Has k record (marks ++ added)
  refine Meets.forEach I ?_ [] [] fun w' _ hr => ⟨[], .nil, ?_⟩
  rotate_left
  · rw [List.append_nil]
    exact after hw hk hr
  intro before handles tag _ w' _ ⟨added, hadded, hw'⟩
  refine (meets_create hw' hk tag).weaken fun r w'' _ h => ?_
  cases r with
  | error e => exact h
  | ok handle =>
    obtain ⟨m, hm, hw''⟩ := h
    refine ⟨added ++ [m], List.rel_append hadded (.cons hm .nil), ?_⟩
    rwa [← List.append_assoc]

theorem consists_append_frameworks {framework : Tag} {count : Int} {services : List Tag} {n : Nat}
    {added : List (String × Table String String)} (hs : framework.service = "")
    (h : Consists marks framework count services)
    (hadded : List.Forall₂ (fun m t => Made m.2 t) added (List.replicate n framework)) :
    Consists (marks ++ added) framework (count + n) services := by
  induction n generalizing marks added count with
  | zero =>
    cases hadded
    simpa using h
  | succ n ih =>
    rw [List.replicate_succ] at hadded
    cases hadded with
    | @cons m _ added _ hm hadded =>
      have hnext := ih (h.add_framework hm hs) hadded
      rw [List.append_assoc, List.singleton_append] at hnext
      rw [show count + ((n + 1 : Nat) : Int) = count + 1 + n by omega]
      exact hnext

theorem consists_append_services {framework : Tag} {count : Int} {services tags : List Tag}
    {added : List (String × Table String String)} (hs : ∀ t ∈ tags, t.service ≠ "")
    (h : Consists marks framework count services)
    (hadded : List.Forall₂ (fun m t => Made m.2 t) added tags) :
    Consists (marks ++ added) framework count (services ++ tags) := by
  induction hadded generalizing marks services with
  | nil => simpa using h
  | @cons m t added tags hm _ ih =>
    have hnext := ih (fun t ht => hs t (List.mem_cons_of_mem _ ht))
      (h.add_service hm (hs t List.mem_cons_self))
    rw [List.append_assoc, List.append_assoc, List.singleton_append, List.singleton_append] at hnext
    exact hnext

theorem replicas_singleton (n : Int) (tag : Tag) :
    replicas n [tag] = List.replicate n.toNat tag := by
  unfold replicas
  rw [List.flatten_replicate_singleton]

theorem meets_populate {framework : Tag} {services : List Tag} (hw : w.Has k record [])
    (hk : k.IsFiled) (hf : framework.service = "") (hs : ∀ t ∈ services, t.service ≠ "")
    {scaling : Int} (hn : 1 ≤ scaling) :
    (populate k.name k.tenant (framework :: services) scaling).Meets (agreeing lenient) k
      (ends (fun _ w' => ∃ marks, Consists marks framework scaling services ∧
        w'.Has k record marks) fun _ _ => False) w := by
  unfold populate
  refine .surely (meets_createAll hw hk _) fun frameworks w₁ _ h₁ => ?_
  obtain ⟨added, hadded, hw₁⟩ := h₁
  refine .surely (meets_createAll hw₁ hk _) fun others w₂ _ h₂ => ?_
  obtain ⟨more, hmore, hw₂⟩ := h₂
  rw [List.take_one, List.head?_cons, Option.toList_some, replicas_singleton] at hadded
  rw [List.drop_one, List.tail_cons] at hmore
  have hfirst := consists_append_frameworks hf (consists_nil framework) hadded
  have hall := consists_append_services hs hfirst hmore
  rw [show (0 : Int) + (scaling.toNat : Int) = scaling by omega, List.nil_append] at hall
  exact .done fun _ _ hr => ⟨_, hall, after hw₂ hk hr⟩

theorem meets_populateOrUndo {framework : Tag} {services : List Tag} (hw : w.Has k record [])
    (hk : k.IsFiled) (hf : framework.service = "") (hs : ∀ t ∈ services, t.service ≠ "")
    {scaling : Int} (hn : 1 ≤ scaling) :
    (populateOrUndo k.name k.tenant (framework :: services) scaling).Meets (agreeing lenient) k
      (ends (fun _ w' => ∃ marks, Consists marks framework scaling services ∧
        w'.Has k record marks) fun _ _ => False) w := by
  unfold populateOrUndo
  refine .surely (.attempt_surely (meets_populate hw hk hf hs hn)) fun result w₁ _ h₁ => ?_
  obtain ⟨handles, rfl, marks, hc, hw₁⟩ := h₁
  exact .done fun _ _ hr => ⟨marks, hc, after hw₁ hk hr⟩

/-! ## Looking things up -/

/-- A record that is looked up is the one that the store has. -/
theorem meets_record (hw : w.Has k record marks) (hk : k.IsFiled) :
    (perform (.record k.tenant k.name)).Meets (agreeing lenient) k
      (ends (fun r w' => r = record ∧ w'.Has k record marks) fun _ _ => False) w := by
  refine .minor (minor_record hk k.name) fun w' w'' hs _ ha hr' _ hrr => ?_
  have hw' := after hw hk hr'
  obtain ⟨a, ho⟩ := w'.ok_of_serves (c := .record k.tenant k.name) rfl ha.1
  rcases w'.answer_record hs.storing hk k.name with hanswer | ⟨e, hanswer⟩
  · rw [hanswer]
    exact ⟨hw'.record, after hw hk hrr⟩
  · rw [hanswer] at ho
    cases ho

theorem meets_recordOf {caller : Caller} {name : String}
    (hw : w.Has (caller.key name) record marks) (hk : (caller.key name).IsFiled) :
    (recordOf caller name).Meets (agreeing lenient) (caller.key name)
      (ends (fun r w' => caller.tenant ≠ "" ∧ record = some r ∧
        w'.Has (caller.key name) record marks) fun _ w' => w'.Has (caller.key name) record marks)
      w := by
  unfold recordOf Caller.required
  split
  · exact .done fun _ _ hr => after hw hk hr
  · rename_i htenant
    refine .surely (P := fun tenant w' => tenant = caller.tenant ∧
      w'.Has (caller.key name) record marks)
      (.done fun _ _ hr => ⟨rfl, after hw hk hr⟩) fun tenant w₁ _ h₁ => ?_
    obtain ⟨rfl, hw₁⟩ := h₁
    refine .surely (meets_record hw₁ hk) fun r w₂ _ h₂ => ?_
    obtain ⟨rfl, hw₂⟩ := h₂
    cases r with
    | none => exact .done fun _ _ hr => after hw₂ hk hr
    | some r => exact .done fun _ _ hr => ⟨htenant, rfl, after hw₂ hk hr⟩

theorem meets_find (hw : w.Has k record marks) (hk : k.IsFiled) (ht : Told lenient k)
    (hmade : ∀ m ∈ marks, ∃ t, Made m.2 t) (service : Option String) :
    (perform (.find k.name k.tenant service)).Meets (agreeing lenient) k
      (ends (fun hs w' => (Found marks service hs ∧ (marks.map (·.1)).Nodup) ∧
        w'.Has k record marks) fun _ _ => False) w := by
  refine meets_steady rfl rfl hw hk fun hs w' hs' hw' ho => ?_
  have hfound := World.found_of_find (hs'.lenient_eq ▸ ht) (hw'.marks ▸ hmade) ho
  rw [hw'.marks] at hfound
  refine ⟨hfound, ?_⟩
  rw [← hw'.marks]
  exact World.nodup_marks hs'.numbered k

/-- The tags of a composition can be written into a record. -/
theorem meets_compose (hw : w.Has k record marks) (hk : k.IsFiled) (caller framework : String)
    (services : List String) :
    (perform (.compose caller framework services)).Meets (agreeing lenient) k
      (ends (fun composition w' => (∃ first rest, composition.map (·.1) = first :: rest ∧
          Composed ((first :: rest).map Tag.format) first rest) ∧ w'.Has k record marks)
        fun _ w' => w'.Has k record marks) w := by
  refine .minor (minor_steady rfl) fun w' w'' _ _ ha _ _ hrr => ?_
  have hinforms := ha.2
  unfold World.informs at hinforms
  have hanswer : (w'.answer (.compose caller framework services)).1 =
      Composition.resolve w'.disk w'.broker.hub caller framework services := rfl
  rw [hanswer]
  cases hc : Composition.resolve w'.disk w'.broker.hub caller framework services with
  | error e => exact after hw hk hrr
  | ok composition =>
    simp only [hc] at hinforms
    exact ⟨Composition.composed_of_resolve hc hinforms, after hw hk hrr⟩

theorem meets_now (hw : w.Has k record marks) (hk : k.IsFiled) :
    (perform .now).Meets (agreeing lenient) k
      (ends (fun moment w' => moment.IsReal ∧ w'.Has k record marks) fun _ _ => False) w :=
  .minor (minor_steady rfl) fun _ _ hs _ _ _ _ hrr => ⟨hs.storing.real, after hw hk hrr⟩

/-! ## Operations -/

theorem agrees_of_none (hw : w.Has k none []) : w.Agrees k :=
  ⟨fun _ => hw.marks, fun r hr => by rw [hw.record] at hr; cases hr⟩

theorem agrees_of_some {r : Record} {framework : Tag} {services : List Tag}
    (hw : w.Has k (some r) marks) (hr : Composed r.plugins framework services)
    (hc : Consists marks framework r.scaling services) : w.Agrees k := by
  refine ⟨fun hn => ?_, fun r' hr' => ?_⟩
  · rw [hw.record] at hn
    cases hn
  · rw [hw.record] at hr'
    obtain rfl := Option.some.inj hr'
    exact ⟨framework, services, hr, hw.marks ▸ hc⟩

theorem meets_createHeld {caller : Caller} {name framework : String} {services : List String}
    {scaling : Int} {start : Bool} (hscaling : 1 ≤ scaling) (hw : w.Agrees (caller.key name))
    (hk : (caller.key name).IsFiled) :
    (createHeld platform caller name framework services scaling start).Meets (agreeing lenient)
      (caller.key name) (fun _ w' => w'.Agrees (caller.key name)) w := by
  unfold createHeld
  refine .surely (meets_record ⟨rfl, rfl⟩ hk) fun found w₁ _ h₁ => ?_
  obtain ⟨rfl, hw₁⟩ := h₁
  cases hrecord : w.recordAt (caller.key name) with
  | some r =>
    exact .done fun _ _ hr => agrees_of_has hw (after hw₁ hk hr)
  | none =>
  rw [hrecord, hw.bare hrecord] at hw₁
  refine .andThen ((meets_compose hw₁ hk _ _ _).weaken fun o w₂ _ h₂ => ?_)
  rcases o with e | composition
  · exact .done fun _ _ hr => agrees_of_none (after h₂ hk hr)
  obtain ⟨⟨first, rest, htags, hcomposed⟩, hw₂⟩ := h₂
  refine .surely (meets_now hw₂ hk) fun createdAt w₃ _ h₃ => ?_
  obtain ⟨hreal, hw₃⟩ := h₃
  dsimp only
  rw [htags]
  let r : Record := { name, plugins := (first :: rest).map Tag.format, scaling, createdAt }
  refine .surely (meets_write (r := some r) () rfl hw₃ hk fun w' hs hw' => ?_)
    fun _ w₄ _ hw₄ => ?_
  · refine (World.answer_addRecord hs hk (r := r) ⟨hscaling, hreal⟩).imp_right ?_
    rintro ⟨w'', ho, hwrote, hs', -, hrecords⟩
    exact ⟨w'', ho, hwrote, hs', hrecords⟩
  refine .surely (meets_populateOrUndo hw₄ hk hcomposed.framework_slot hcomposed.slots hscaling)
    fun handles w₅ _ h₅ => ?_
  obtain ⟨marks, hc, hw₅⟩ := h₅
  show Meets _ _ (if start then _ else _) _ _
  split
  · refine .surely (meets_startAll hw₅ hk handles) fun _ w₆ _ hw₆ => ?_
    exact .done fun _ _ hr => agrees_of_some (after hw₆ hk hr) hcomposed hc
  · exact .done fun _ _ hr => agrees_of_some (after hw₅ hk hr) hcomposed hc

/-- The framework containers of an application that has a record are brought to a number. -/
theorem meets_adjust {caller : Caller} {name : String} {r : Record} {current : List Handle}
    {framework : Tag} {services : List Tag} {count target : Int}
    (hw : w.Has (caller.key name) record marks) (hk : (caller.key name).IsFiled)
    (hc : Consists marks framework count services) (hcount : 1 ≤ count) (htarget : 1 ≤ target)
    (hf : framework.service = "") (hu : framework.IsUnmarked)
    (hfound : Found marks (some "") current) (hnodup : (marks.map (·.1)).Nodup) :
    (adjust platform caller r name current target).Meets (agreeing lenient) (caller.key name)
      (ends (fun _ w' => ∃ marks', Consists marks' framework target services ∧
        w'.Has (caller.key name) record marks') fun _ _ => False) w := by
  have hlength := hfound.length_eq hc
  unfold adjust
  split
  · rename_i hless
    unfold grow
    have htag : growthTag r current = .ok framework := by
      cases current with
      | nil => simp at hlength; omega
      | cons h hs => rw [growthTag, hfound.tag_eq hc hu List.mem_cons_self]
    rw [htag]
    refine .surely (P := fun tag w' => tag = framework ∧ w'.Has (caller.key name) record marks)
      (.done fun _ _ hr => ⟨rfl, after hw hk hr⟩) fun tag w₁ _ h₁ => ?_
    obtain ⟨rfl, hw₁⟩ := h₁
    refine .surely (meets_createAll hw₁ hk _) fun added w₂ _ h₂ => ?_
    obtain ⟨more, hmore, hw₂⟩ := h₂
    rw [replicas_singleton] at hmore
    have hgrown := consists_append_frameworks hf hc hmore
    rw [show count + ((target - current.length).toNat : Int) = target by omega] at hgrown
    show Meets _ _ (if current.any _ then _ else _) _ _
    split
    · exact (meets_startAll hw₂ hk added).weaken fun o w₃ _ h₃ => by
        cases o with
        | error e => exact h₃
        | ok u => exact ⟨_, hgrown, h₃⟩
    · exact .done fun _ _ hr => ⟨_, hgrown, after hw₂ hk hr⟩
  · split
    · rename_i hmore
      have hn : target.toNat ≤ current.length := by omega
      have hids : ∀ h ∈ current.drop target.toNat, h.id ∈ marks.map (·.1) := by
        intro h hh
        obtain ⟨m, hm, -, he⟩ := hfound.mem_ids (List.mem_of_mem_drop hh)
        exact List.mem_map.2 ⟨m, hm, he⟩
      have hdistinct : ((current.drop target.toNat).map Handle.id).Nodup :=
        ((List.drop_sublist _ _).map _).nodup (hfound.nodup hnodup)
      have hleft := hfound.consists_drop hnodup hc hn
      rw [show (target.toNat : Int) = target by omega] at hleft
      exact (meets_sweepStrictly hw hk hids hdistinct).weaken fun o w₁ _ h₁ => by
        cases o with
        | error e => exact h₁
        | ok u => exact ⟨_, hleft, h₁⟩
    · rename_i hless hmore
      obtain rfl : count = target := by omega
      exact .done fun _ _ hr => ⟨marks, hc, after hw hk hr⟩

theorem meets_scaleHeld {caller : Caller} {name : String} {target : Int}
    (hname : lenient = false ∨ name ≠ "") (htarget : 1 ≤ target) (hs : w.Dependable lenient)
    (hw : w.Agrees (caller.key name)) (hk : (caller.key name).IsFiled) :
    (scaleHeld platform caller name target).Meets (agreeing lenient) (caller.key name)
      (fun _ w' => w'.Agrees (caller.key name)) w := by
  unfold scaleHeld
  refine .andThen ((meets_recordOf ⟨rfl, rfl⟩ hk).weaken fun o w₁ hs₁ h₁ => ?_)
  rcases o with e | r
  · exact .done fun _ _ hr => agrees_of_has hw (after h₁ hk hr)
  obtain ⟨htenant, hrecord, hw₁⟩ := h₁
  obtain ⟨framework, services, hcomposed, hc⟩ := hw.manned r hrecord
  obtain ⟨hfit, hrname⟩ := hs.storing.fit hk hrecord
  have hmade : ∀ m ∈ w.marks (caller.key name), ∃ t, Made m.2 t := fun m hm => by
    obtain ⟨t, -, ht⟩ := hc.made hm
    exact ⟨t, ht⟩
  have hu : framework.IsUnmarked := hcomposed.unmarked _ List.mem_cons_self
  have ht := told_of_tenant hname htenant
  unfold frameworkContainers
  refine .surely (meets_find hw₁ hk ht hmade (some "")) fun current w₂ _ h₂ => ?_
  obtain ⟨⟨hfound, hnodup⟩, hw₂⟩ := h₂
  refine .surely (meets_adjust hw₂ hk hc hfit.scaling htarget hcomposed.framework_slot hu hfound
    hnodup) fun _ w₃ _ h₃ => ?_
  obtain ⟨marks', hc', hw₃⟩ := h₃
  have hmade' : ∀ m ∈ marks', ∃ t, Made m.2 t := fun m hm => by
    obtain ⟨t, -, ht⟩ := hc'.made hm
    exact ⟨t, ht⟩
  have hlast {w : World} {r' : Record} (hw : w.Has (caller.key name) (some r') marks')
      (hplugins : r'.plugins = r.plugins) (hscaling : r'.scaling = target) :
      (perform (.find name caller.tenant (some ""))).Meets (agreeing lenient) (caller.key name)
        (fun _ w' => w'.Agrees (caller.key name)) w := by
    refine (meets_find hw hk ht hmade' (some "")).weaken fun o w' _ h => ?_
    rcases o with e | hs
    · exact h.elim
    · exact agrees_of_some h.2 (by rw [hplugins]; exact hcomposed) (by rw [hscaling]; exact hc')
  show Meets _ _ (if r.scaling ≠ target then _ else _) _ _
  rw [hrecord] at hw₃
  split
  · refine .surely (meets_write (r := some { r with scaling := target }) () rfl hw₃ hk
      fun w' hs' hw' => ?_) fun _ w₄ _ hw₄ => ?_
    · have hkey : (⟨caller.tenant, r.name⟩ : AppKey) = caller.key name := by
        rw [hrname]
        rfl
      refine (World.answer_replaceRecord hs' hk (r := { r with scaling := target })
        ⟨htarget, hfit.created⟩).imp_right ?_
      rintro ⟨w'', ho, hwrote, hs'', hrecords⟩
      refine ⟨w'', ho, hwrote, hs'', fun k' hk' => ?_⟩
      rw [hrecords k' hk', ← hkey]
    · exact hlast hw₄ rfl rfl
  · rename_i hsame
    exact hlast hw₃ rfl (by simpa using hsame)

theorem meets_removeHeld (ht : Told lenient k) (hw : w.Agrees k) (hk : k.IsFiled) :
    (removeHeld k.name k.tenant).Meets (agreeing lenient) k (fun _ w' => w'.Agrees k) w := by
  have hmade : ∀ m ∈ w.marks k, ∃ t, Made m.2 t := by
    intro m hm
    cases hrecord : w.recordAt k with
    | none => rw [hw.bare hrecord] at hm; cases hm
    | some r =>
      obtain ⟨framework, services, -, hc⟩ := hw.manned r hrecord
      obtain ⟨t, -, ht⟩ := hc.made hm
      exact ⟨t, ht⟩
  unfold removeHeld
  refine .surely (meets_record ⟨rfl, rfl⟩ hk) fun found w₁ _ h₁ => ?_
  obtain ⟨rfl, hw₁⟩ := h₁
  refine .surely (meets_find hw₁ hk ht hmade none) fun handles w₂ _ h₂ => ?_
  obtain ⟨⟨hfound, hnodup⟩, hw₂⟩ := h₂
  cases hrecord : w.recordAt k with
  | none =>
    have hnone : handles = [] := by
      have hids := hfound.ids
      rw [hw.bare hrecord] at hids
      simpa using hids
    subst hnone
    refine .done fun _ _ hr => agrees_of_none (after ?_ hk hr)
    rwa [hrecord, hw.bare hrecord] at hw₂
  | some r =>
  have hids : ∀ h ∈ handles, h.id ∈ (w.marks k).map (·.1) := by
    intro h hh
    obtain ⟨m, hm, -, he⟩ := hfound.mem_ids hh
    exact List.mem_map.2 ⟨m, hm, he⟩
  have hnothing : ((w.marks k).filter fun m => m.1 ∉ handles.map Handle.id) = [] := by
    refine List.filter_eq_nil_iff.2 fun m hm => ?_
    have hmem : m.1 ∈ handles.map Handle.id := by
      rw [hfound.ids.mem_iff]
      exact List.mem_map_of_mem (List.mem_filter.2 ⟨hm, rfl⟩)
    simpa using hmem
  refine .surely (meets_sweep hw₂ hk hids (hfound.nodup hnodup)) fun failure w₃ _ h₃ => ?_
  obtain ⟨rfl, hw₃⟩ := h₃
  rw [hnothing, hrecord] at hw₃
  refine .surely (meets_write (r := none) () rfl hw₃ hk fun w' hs' hw' =>
    World.answer_removeRecord hs' hk k.name) fun _ w₄ _ hw₄ => ?_
  exact .done fun _ _ hr => agrees_of_none (after hw₄ hk hr)

theorem meets_quietly {p : Program Unit}
    (h : p.Meets (agreeing lenient) k (fun _ w' => w'.Agrees k) w) (hk : k.IsFiled) :
    (Request.quietly p).Meets (agreeing lenient) k (fun _ w' => w'.Agrees k) w :=
  .andThen (h.weaken fun _ _ _ hw => .done fun _ _ hr => agrees_after hw hk hr)

/-- What only drives the containers of an application leaves its record and them together. -/
theorem meets_found {caller : Caller} {name : String} {act : List Handle → Program Unit}
    (hact : ∀ hs, (act hs).Makes Driving) (hw : w.Agrees (caller.key name))
    (hk : (caller.key name).IsFiled) :
    ((recordOf caller name).bind fun _ => (perform (.find name caller.tenant none)).bind act).Meets
      (agreeing lenient) (caller.key name) (fun _ w' => w'.Agrees (caller.key name)) w := by
  refine .andThen ((meets_recordOf ⟨rfl, rfl⟩ hk).weaken fun o w₁ _ h₁ => ?_)
  rcases o with e | r
  · exact .done fun _ _ hr => agrees_of_has hw (after h₁ hk hr)
  obtain ⟨-, -, hw₁⟩ := h₁
  refine .surely (meets_remote rfl rfl hw₁ hk) fun hs w₂ _ hw₂ => ?_
  exact meets_driving (hact hs) (agrees_of_has hw hw₂) hk

/-- Every turn of a request brings record and containers together again. -/
theorem meets_turn {r : Request} (hnamed : lenient = false ∨ r.NamesApps)
    (hcheck : r.check = .ok ()) {name : String} (hname : name ∈ r.names)
    (hs : w.Dependable lenient) (hw : w.Agrees (r.caller.key name))
    (hk : (r.caller.key name).IsFiled) :
    (r.turn platform name).Meets (agreeing lenient) (r.caller.key name)
      (fun _ w' => w'.Agrees (r.caller.key name)) w := by
  obtain ⟨caller, operation⟩ := r
  cases operation with
  | create name' framework services scaling start =>
    obtain rfl := List.mem_singleton.1 hname
    exact meets_createHeld (Request.checkCreate_eq_ok hcheck).2.2.1 hw hk
  | startContainers hs =>
    exact meets_quietly (meets_driving (makes_startAll platform _) hw hk) hk
  | start name' =>
    obtain rfl := List.mem_singleton.1 hname
    exact meets_quietly (meets_found (fun hs => makes_startAll platform hs) hw hk) hk
  | stop name' =>
    obtain rfl := List.mem_singleton.1 hname
    exact meets_quietly (meets_found (fun hs =>
      makes_sweepStrictly (fun _ _ => rfl) makes_stopOne hs) hw hk) hk
  | restart name' =>
    obtain rfl := List.mem_singleton.1 hname
    exact meets_quietly (meets_found (fun hs => (makes_restartAll platform hs).bind
      fun _ => trivial) hw hk) hk
  | scale name' target =>
    obtain rfl := List.mem_singleton.1 hname
    have htarget : 1 ≤ target := by
      unfold Request.check at hcheck
      dsimp only at hcheck
      split at hcheck
      · cases hcheck
      · omega
    exact meets_scaleHeld hnamed htarget hs hw hk
  | remove name' =>
    obtain rfl := List.mem_singleton.1 hname
    obtain ⟨tenant, htenant, -⟩ := map_eq_ok hcheck
    exact meets_quietly (meets_removeHeld (told_of_tenant hnamed (Request.tenant_ne_empty htenant))
      hw hk) hk

/-- What goes with the same things, one by one, goes with each other. -/
theorem forall₂_trans {α β γ : Type} {R : α → β → Prop} {S : α → γ → Prop} {as : List α}
    {bs : List β} {cs : List γ} (hb : List.Forall₂ R as bs) (hc : List.Forall₂ S as cs) :
    List.Forall₂ (fun b c => ∃ a, R a b ∧ S a c) bs cs := by
  induction hb generalizing cs with
  | nil =>
    cases hc
    exact .nil
  | @cons a b as bs hab _ ih =>
    cases hc with
    | cons hac hrest => exact .cons ⟨a, hab, hac⟩ (ih hrest)

theorem mapM_parse_format {tags : List Tag} (h : ∀ t ∈ tags, t.IsUnmarked) :
    (tags.map Tag.format).mapM Tag.parse = .ok tags := by
  induction tags with
  | nil => rfl
  | cons t tags ih =>
    rw [List.map_cons, List.mapM_cons, Tag.parse_format (h t List.mem_cons_self),
      ih fun t ht => h t (List.mem_cons_of_mem _ ht)]
    rfl

/-- The containers of an application, read back, are those that its record tells of. -/
theorem handles_of_agrees (hw : w.Agrees k) {r : Record} (hr : w.recordAt k = some r)
    (network : String) : ∃ handles framework services,
      Runtime.handlesOf network (w.lineup k) = .ok handles ∧
      r.plugins.mapM Tag.parse = .ok (framework :: services) ∧
      ((handles.filter Handle.isFramework).length : Int) = r.scaling ∧
      (∀ h ∈ handles, h.isFramework = true → h.tag = framework) ∧
      (handles.filter fun h => !h.isFramework).map Handle.tag = services ∧
      (∀ h ∈ handles, h.service = h.tag.service) ∧
      ((handles.filter fun h => !h.isFramework).map Handle.service).Nodup := by
  obtain ⟨framework, services, hcomposed, hc⟩ := hw.manned r hr
  have hone : ∀ c ∈ w.lineup k, ∃ t ∈ framework :: services, Made c.labels t := fun c hm =>
    hc.made (List.mem_map_of_mem hm)
  obtain ⟨handles, hread⟩ : ∃ handles, Runtime.handlesOf network (w.lineup k) = .ok handles := by
    refine Runtime.handlesOf_eq_ok fun c hm => ?_
    obtain ⟨t, ht, hmade⟩ := hone c hm
    exact hmade.exists_handleOf (World.mem_lineup.1 hm).2 (hcomposed.unmarked t ht).isReadable
      network
  have hpairs := Runtime.forall₂_handlesOf hread
  have htags : ∀ h ∈ handles, ∃ c ∈ w.lineup k, ∃ t ∈ framework :: services,
      Made c.labels t ∧ h.tag = t ∧ h.service = t.service := by
    intro h hh
    obtain ⟨c, hm, hof⟩ := exists_of_mem_right hpairs hh
    obtain ⟨t, ht, hmade⟩ := hone c hm
    refine ⟨c, hm, t, ht, hmade, hmade.of_handleOf (hcomposed.unmarked t ht) hof, ?_⟩
    rw [(Runtime.readFrom_of_handleOf hof).service, hmade.service]
    rfl
  have hslot : ∀ c h, Runtime.handleOf network c = .ok h →
      decide (slotIn c.labels = "") = h.isFramework := by
    intro c h hof
    unfold Handle.isFramework slotIn
    rw [(Runtime.readFrom_of_handleOf hof).service]
  have hothers : (handles.filter fun h => !h.isFramework).map Handle.tag = services := by
    have hleft := forall₂_filter (p := fun c => !decide (slotIn c.labels = ""))
      (q := fun h => !h.isFramework) hpairs fun c h hof => by rw [hslot c h hof]
    have hmade := hc.services
    unfold World.marks at hmade
    rw [List.filter_map, List.forall₂_map_left_iff] at hmade
    have hsame : (w.lineup k).filter (fun c => !decide (slotIn c.labels = "")) =
        (w.lineup k).filter ((fun m => decide (slotIn m.2 ≠ "")) ∘ fun c => (c.id, c.labels)) :=
      List.filter_congr fun c _ => by simp
    rw [hsame] at hleft
    have hunmarked := (List.forall₂_and_left _ _).2
      ⟨fun t ht => hcomposed.unmarked t (List.mem_cons_of_mem _ ht), hmade.flip⟩
    rw [← List.forall₂_eq_eq_eq, List.forall₂_map_left_iff]
    refine (forall₂_trans hleft hunmarked.flip).imp fun h t ⟨c, hof, ht, hm⟩ => ?_
    exact Made.of_handleOf hm ht hof
  refine ⟨handles, framework, services, hread, ?_, ?_, ?_, hothers, ?_, ?_⟩
  · rw [hcomposed.written]
    exact mapM_parse_format hcomposed.unmarked
  · have hframeworks := forall₂_filter (p := fun c => decide (slotIn c.labels = ""))
      (q := Handle.isFramework) hpairs hslot
    rw [← hframeworks.length_eq, ← hc.count]
    unfold World.marks
    rw [List.filter_map, List.length_map]
    rfl
  · intro h hh hf
    obtain ⟨c, hm, t, ht, hmade, htag, hservice⟩ := htags h hh
    have hempty : t.service = "" := by
      rw [← hservice]
      exact of_decide_eq_true hf
    rcases List.mem_cons.1 ht with rfl | ht
    · exact htag
    · exact absurd hempty (hcomposed.slots t ht)
  · intro h hh
    obtain ⟨c, hm, t, ht, hmade, htag, hservice⟩ := htags h hh
    rw [hservice, htag]
  · have hservices : (handles.filter fun h => !h.isFramework).map Handle.service =
        services.map Tag.service := by
      rw [← hothers, List.map_map]
      refine List.map_congr_left fun h hh => ?_
      obtain ⟨c, hm, t, ht, hmade, htag, hservice⟩ := htags h (List.mem_filter.1 hh).1
      rw [hservice, Function.comp, htag]
    rw [hservices]
    exact hcomposed.nodup

end Agreeing

/-- Whatever lifecycle operations run together from an empty store and an empty engine, in whatever
order, as long as no call to the engine, the store or the router fails: an application that nobody
holds has containers exactly if it has a record, and then so many of its framework and one for each
of its services as the record says. -/
theorem records_and_containers_agree (platform : PlatformSettings) (requests : List Request)
    (w : World) (order : List Nat) (hempty : w.engine.containers = [])
    (hstore : w.disk.Has w.broker.store)
    (hbare : ∀ tenant : String, '/' ∉ tenant.toList →
      w.disk.entry? (w.broker.store ++ [tenant ++ Store.suffix]) = none)
    (hfaithful : Store.Faithful w.broker.codec) (hclock : w.clock.moment.IsReal)
    (htruthful : w.engine.Truthful)
    (hnamed : w.engine.lenient = false ∨ ∀ r ∈ requests, r.NamesApps)
    (htenants : ∀ r ∈ requests, '/' ∉ r.caller.tenant.toList)
    (hcalls : Pool.Along (fun c w => w.serves c = true ∧ w.informs c = true)
      { world := w, tasks := requests.map (·.program platform) } order)
    (k : AppKey) (hk : '/' ∉ k.tenant.toList) :
    let reached := Pool.run { world := w, tasks := requests.map (·.program platform) } order
    reached.locks.holder? k = none →
      ((reached.world.recordAt k).isSome ↔ reached.world.lineup k ≠ []) ∧
      ∀ r, reached.world.recordAt k = some r → ∃ handles framework services,
        Runtime.handlesOf reached.world.broker.runtime.settings.network
          (reached.world.lineup k) = .ok handles ∧
        r.plugins.mapM Tag.parse = .ok (framework :: services) ∧
        ((handles.filter Handle.isFramework).length : Int) = r.scaling ∧
        (∀ h ∈ handles, h.isFramework = true → h.tag = framework) ∧
        (handles.filter fun h => !h.isFramework).map Handle.tag = services ∧
        (∀ h ∈ handles, h.service = h.tag.service) ∧
        ((handles.filter fun h => !h.isFramework).map Handle.service).Nodup := by
  intro reached hfree
  let t := agreeing w.engine.lenient
  let idle (k : AppKey) (w : World) : Prop := k.IsFiled → w.Agrees k
  have hstoring : w.Storing := ⟨hfaithful, hstore,
    fun tenant ht => ⟨[], .inl ⟨hbare tenant ht, rfl⟩, Store.proper_nil⟩, hclock⟩
  have hsound : t.sound w := by
    refine ⟨?_, htruthful, rfl, hstoring⟩
    rw [hempty]
    exact ⟨by simp, by simp, .nil⟩
  have hidle : ∀ k, idle k w := by
    intro k hk
    refine Agreeing.agrees_of_none ⟨?_, ?_⟩
    · exact hstoring.recordAt_eq hk (.inl ⟨hbare _ hk, rfl⟩) Store.proper_nil k.name
    · unfold World.marks World.lineup
      rw [hempty]
      rfl
  have hsafe : ∀ task ∈ requests.map (·.program platform), task.Safe t idle none w := by
    intro task htask
    obtain ⟨r, hr, rfl⟩ := List.mem_map.1 htask
    refine Request.safe_program (fun hcheck name hname w' hs hi => ?_) w
    have hfiled : (r.caller.key name).IsFiled := htenants r hr
    refine (Agreeing.meets_turn (hnamed.imp_right fun h => h r hr) hcheck hname hs (hi hfiled)
      hfiled).weaken fun _ _ _ h _ => h
  have hkeep : ∀ k w w', t.rely k w w' → idle k w → idle k w' :=
    fun k w w' hr hi hk => Agreeing.agrees_after (hi hk) hk hr
  obtain ⟨inside, hkept⟩ := (Pool.Kept.start hsound hsafe hidle).run hkeep hcalls
  have hagrees : reached.world.Agrees k := hkept.idle_of_free hfree hk
  refine ⟨?_, fun r hr => Agreeing.handles_of_agrees hagrees hr _⟩
  have hmarks : reached.world.lineup k ≠ [] ↔ reached.world.marks k ≠ [] := by
    simp [World.marks]
  rw [hmarks]
  cases hrecord : reached.world.recordAt k with
  | none => simp [hagrees.bare hrecord]
  | some r =>
    obtain ⟨framework, services, -, hc⟩ := hagrees.manned r hrecord
    obtain ⟨hfit, -⟩ := hkept.sound.storing.fit hk hrecord
    refine ⟨fun _ hnil => ?_, fun _ => rfl⟩
    have hcount := hc.count
    rw [hnil] at hcount
    have hone := hfit.scaling
    simp at hcount
    omega

/-! ## An application that is created and scaled at the same time -/

namespace Agreement

/-- A hub with a framework and a service, and an empty store. -/
def disk : Disk where
  entries := [(["users"], .directory), (["plugins"], .directory),
    (["plugins", ".system"], .directory), (["plugins", ".system", "python"], .directory),
    (["plugins", ".system", "python", "3.9"], .directory),
    (["plugins", ".system", "python", "3.9", "manifest.yml"], .file (Text.encode
      "name: python\nversion: \"3.9\"\ncategory: framework\nendpoints: [\x7b\"port\": 8080\x7d]\n")),
    (["plugins", ".system", "redis"], .directory),
    (["plugins", ".system", "redis", "7"], .directory),
    (["plugins", ".system", "redis", "7", "manifest.yml"], .file (Text.encode
      "name: redis\nversion: 7\ncategory: service\n"))]

/-- An engine without containers, next to the empty store. -/
noncomputable def world (lenient : Bool) : World where
  disk := disk
  engine := { lenient }
  broker := { hub := ["plugins"], store := ["users"], codec := .careful }

/-- One request creates an application and starts it, and another one comes next to it. -/
def requests (services : List String) (other : Operation) : List Request :=
  [⟨⟨"alice", "alice"⟩, .create "web" "python" services 1 true⟩, ⟨⟨"alice", "alice"⟩, other⟩]

theorem has_disk : disk.Has ["users"] where
  names n hn := by
    rw [List.mem_singleton.1 hn]
    exact ⟨by decide, by decide, by decide, by decide, by decide⟩
  directory p hp := by
    rcases List.prefix_cons_iff.1 hp with rfl | ⟨q, rfl, hq⟩
    · rfl
    · rw [List.prefix_nil.1 hq]
      decide

theorem entry?_disk (tenant : String) :
    disk.entry? (["users"] ++ [tenant ++ Store.suffix]) = none := by
  simp [Disk.entry?, disk, Table.get?]

theorem scaled_application_agrees :
    let reached := Pool.run
      { world := world false, tasks := (requests ["cache:redis:"] (.scale "web" 2)).map (·.program {}) }
      ((List.replicate 17 [0, 1]).flatten ++ List.replicate 16 1)
    ((reached.world.recordAt ⟨"alice", "web"⟩).isSome ↔
        reached.world.lineup ⟨"alice", "web"⟩ ≠ []) ∧
      ∀ r, reached.world.recordAt ⟨"alice", "web"⟩ = some r → ∃ handles framework services,
        Runtime.handlesOf reached.world.broker.runtime.settings.network
          (reached.world.lineup ⟨"alice", "web"⟩) = .ok handles ∧
        r.plugins.mapM Tag.parse = .ok (framework :: services) ∧
        ((handles.filter Handle.isFramework).length : Int) = r.scaling ∧
        (∀ h ∈ handles, h.isFramework = true → h.tag = framework) ∧
        (handles.filter fun h => !h.isFramework).map Handle.tag = services ∧
        (∀ h ∈ handles, h.service = h.tag.service) ∧
        ((handles.filter fun h => !h.isFramework).map Handle.service).Nodup := by
  have hran :
      let pool : Pool (List Handle) := { world := world false, tasks :=
        (requests ["cache:redis:"] (.scale "web" 2)).map (·.program {}) }
      let order := (List.replicate 17 [0, 1]).flatten ++ List.replicate 16 1
      pool.Along (fun c w => w.serves c = true ∧ w.informs c = true) order ∧
        (pool.run order).locks.holder? ⟨"alice", "web"⟩ = none := by decide +kernel
  refine records_and_containers_agree {} (requests ["cache:redis:"] (.scale "web" 2)) (world false) _
    rfl has_disk (fun tenant _ => entry?_disk tenant) Yaml.Codec.faithful_careful ?_ ?_ (.inl rfl) ?_
    hran.1 ⟨"alice", "web"⟩ (by decide) hran.2
  · exact ⟨by decide, by decide, by decide, by decide, by decide, by decide⟩
  · exact ⟨fun _ _ _ h => (by cases h), fun _ _ _ h => by cases h⟩
  · decide

/-- An engine may take an empty name for any name. The removal of an application without a name then
destroys the containers of another, whose record stays. -/
theorem record_outlives_containers :
    let pool : Pool (List Handle) :=
      { world := world true, tasks := (requests [] (.remove "")).map (·.program {}) }
    let order := List.replicate 20 0 ++ List.replicate 20 1
    pool.Along (fun c w => w.serves c = true ∧ w.informs c = true) order ∧
      (pool.run order).locks.holder? ⟨"alice", "web"⟩ = none ∧
      ((pool.run order).world.recordAt ⟨"alice", "web"⟩).isSome = true ∧
      (pool.run order).world.lineup ⟨"alice", "web"⟩ = [] := by
  decide +kernel

end Agreement

end AppBroker
