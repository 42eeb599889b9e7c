import AppBroker.Lifecycle
import AppBroker.Proofs.Sequence

/-!
# Handles as they were made

The runtime keeps nothing of a container but what it wrote into the labels. Whatever the clock
says, and whichever calls fail, a search reads back from them what each container was made as
(`World.Attended.found_as_made`): its id, its application, its tenant, its slot and its tag, in the
order in which the containers were made. Engines that differ on filters without a value do not make
a difference.
-/

namespace AppBroker

open Program Lifecycle

/-! ## Engines that differ on empty filters -/

/-- The engine, exact or lenient. -/
def Engine.tolerating (e : Engine) (lenient : Bool) : Engine := { e with lenient }

/-- The world with an engine that is exact or lenient. -/
def World.tolerating (w : World) (lenient : Bool) : World :=
  { w with engine := w.engine.tolerating lenient }

theorem Engine.accept_tolerating (e : Engine) (lenient : Bool) (r : EngineRequest) :
    (e.tolerating lenient).accept r = ((e.accept r).1, (e.accept r).2.tolerating lenient) := by
  unfold accept tolerating
  dsimp only
  split <;> rfl

namespace Connecting

/-- An attempt to connect, made with another engine. -/
def tolerating (c : Connecting) (lenient : Bool) : Connecting :=
  { c with engine := c.engine.tolerating lenient }

theorem toTarget_tolerating (refusal : EngineTarget → Option String) (report : Option Value)
    (e : Engine) (lenient : Bool) (target : EngineTarget) :
    toTarget refusal report (e.tolerating lenient) target =
      (toTarget refusal report e target).tolerating lenient := by
  unfold toTarget Engine.ping Engine.version
  dsimp only
  split
  · rfl
  · split
    · rfl
    · rw [Engine.accept_tolerating]
      rcases e.accept ⟨.ping, "*", none⟩ with ⟨f | u, e'⟩
      · rfl
      · dsimp only
        rw [Engine.accept_tolerating]
        rfl

theorem firstOf_tolerating (refusal : EngineTarget → Option String) (report : Option Value)
    (e : Engine) (lenient : Bool) (targets : List EngineTarget) :
    firstOf refusal report (e.tolerating lenient) targets =
      (firstOf refusal report e targets).tolerating lenient := by
  induction targets generalizing e with
  | nil => rfl
  | cons target rest ih =>
    cases rest with
    | nil => exact toTarget_tolerating ..
    | cons next rest =>
      unfold firstOf
      dsimp only
      rw [toTarget_tolerating]
      show (if (toTarget refusal report e target).isUnreachable then _ else _) = _
      split
      · simp only [tolerating, ih]
      · rfl

end Connecting

namespace World

variable {w w' : World} {k : AppKey} {service : Option String}

theorem connect_tolerating (w : World) (lenient : Bool) :
    Runtime.connect (w.tolerating lenient) =
      ((Runtime.connect w).1, (Runtime.connect w).2.tolerating lenient) := by
  unfold Runtime.connect
  show (if w.broker.runtime.isConnected then _ else _) = _
  split
  · rfl
  · have hfirst := Connecting.firstOf_tolerating (fun _ => none) w.report w.engine lenient
      (EngineTarget.candidates w.broker.runtime.settings.engine.word {})
    simp only [tolerating, hfirst, Connecting.tolerating]
    split <;> rfl

theorem blame_tolerating (operation : String) (app container : Option String) (w : World)
    (lenient : Bool) :
    Runtime.blame operation app container Runtime.connect (w.tolerating lenient) =
      ((Runtime.blame operation app container Runtime.connect w).1,
        (Runtime.blame operation app container Runtime.connect w).2.tolerating lenient) := by
  unfold Runtime.blame
  rw [connect_tolerating]
  rcases Runtime.connect w with ⟨(r | b) | u, w₁⟩
  · rfl
  · cases b <;> rfl
  · rfl

/-- Whether an engine lists at all does not depend on how it takes filters without a value. -/
theorem listing_tolerating (w : World) (lenient : Bool) (k : AppKey) (service : Option String) :
    ((w.tolerating lenient).listing k service).map (fun _ => ()) =
      (w.listing k service).map fun _ => () := by
  unfold listing Runtime.call Action.bind
  rw [blame_tolerating]
  rcases Runtime.blame "find" (some k.name) none Runtime.connect w with ⟨e | u, w₁⟩
  · rfl
  · dsimp only
    unfold Engine.list
    rw [show (w₁.tolerating lenient).engine = w₁.engine.tolerating lenient from rfl,
      Engine.accept_tolerating]
    rcases w₁.engine.accept ⟨.list, "*", some k⟩ with ⟨f | u, e⟩ <;> rfl

/-- A search whose containers can all be read gives them in the order in which they were made,
unless the engine does not list. -/
theorem find_eq_lineup (hk : Told w.engine.lenient k) (hw : w.Sequenced)
    (hread : ∀ c ∈ w.lineup k,
      ∃ h, Runtime.handleOf w.broker.runtime.settings.network c = .ok h) :
    (w.answer (.find k.name k.tenant service)).1 = (w.listing k service).bind fun _ =>
      Runtime.handlesOf w.broker.runtime.settings.network
        ((w.lineup k).filter fun c => service.all (c.slot = ·)) := by
  rw [find_eq]
  cases hlisting : w.listing k service with
  | error e => rfl
  | ok cs =>
    have hlisted (c : Container) (hc : c ∈ cs) :
        ∃ h, Runtime.handleOf w.broker.runtime.settings.network c = .ok h := by
      rw [listing_eq_ok hlisting] at hc
      obtain ⟨hc, hfilters⟩ := List.mem_filter.1 hc
      exact hread c (mem_lineup.2 ⟨List.mem_reverse.1 hc, belongsTo_of_filters hk service hfilters⟩)
    obtain ⟨all, hall⟩ := Runtime.handlesOf_eq_ok hlisted
    have hfind := find_eq w k service
    rw [hlisting, ok_bind, hall] at hfind
    rw [ok_bind, hall]
    exact (Runtime.handlesOf_iff.2 (find_in_order hk hw hfind)).symm

end World

/-! ## What containers were made as -/

/-- A container as it was asked for: its id, the application, the slot and the tag. -/
structure Birth where
  id : String
  app : String
  tenant : String
  service : String
  tag : Tag
  deriving DecidableEq

/-- What a handle says that its container was made as. -/
def Handle.birth (h : Handle) : Birth := ⟨h.id, h.app, h.tenant, h.service, h.tag⟩

/-- Whether a container was made for an application, and for a slot if one is given. -/
def Birth.isOf (k : AppKey) (service : Option String) (b : Birth) : Bool :=
  b.app = k.name && b.tenant = k.tenant && service.all (b.service = ·)

/-- Whether an id and labels tell what a container was made as, in a way that can be read. -/
structure Birth.ToldBy (b : Birth) (id : String) (labels : Table String String) : Prop where
  id : id = b.id
  app : labels.get? Runtime.appLabel = some b.app
  tenant : labels.get? Runtime.tenantLabel = some b.tenant
  service : labels.get? Runtime.serviceLabel = some b.service
  tag : ∃ text, labels.get? Runtime.tagLabel = some text ∧ Tag.parse text = .ok b.tag
  sequence : ∃ n, Bears labels n ∧ (Text.numeral? n).isSome

namespace Birth.ToldBy

variable {b : Birth} {c : Container} {k : AppKey}

theorem handleOf (h : b.ToldBy c.id c.labels) (network : String) :
    ∃ handle, Runtime.handleOf network c = .ok handle ∧ handle.birth = b := by
  obtain ⟨text, htext, htag⟩ := h.tag
  obtain ⟨n, hn, hwritten⟩ := h.sequence
  have hinteger : Text.integer? ((c.labels.get? Runtime.sequenceLabel).getD "0") = some n := by
    obtain ⟨s, hs⟩ := Option.isSome_iff_exists.1 hwritten
    rw [show c.labels.get? Runtime.sequenceLabel = some (toString n) from hn, Option.getD_some,
      Text.integer?_toString_eq, hs]
    rfl
  unfold Runtime.handleOf Runtime.labelOf
  simp only [h.app, h.tenant, htext, htag, hinteger, h.service, ok_bind, Option.getD_some]
  refine ⟨_, rfl, ?_⟩
  unfold Handle.birth
  rw [h.id]

theorem slot (h : b.ToldBy c.id c.labels) : c.slot = b.service := by
  unfold Container.slot
  rw [h.service]
  rfl

theorem isOf (h : b.ToldBy c.id c.labels) (service : Option String) :
    (decide (c.BelongsTo k) && service.all (c.slot = ·)) = b.isOf k service := by
  rw [Bool.eq_iff_iff]
  simp only [Birth.isOf, Container.BelongsTo, h.app, h.tenant, h.slot, Option.some.injEq,
    Bool.and_eq_true, decide_eq_true_eq]

end Birth.ToldBy

/-- The handles of containers say what those were made as. -/
theorem Runtime.handlesOf_births {network : String} {cs : List Container} {births : List Birth}
    (h : List.Forall₂ (fun c b => b.ToldBy c.id c.labels) cs births) :
    ∃ hs, handlesOf network cs = .ok hs ∧ hs.map Handle.birth = births := by
  induction h with
  | nil => exact ⟨[], rfl, rfl⟩
  | cons hc _ ih =>
    obtain ⟨first, hfirst, rfl⟩ := hc.handleOf network
    obtain ⟨rest, hrest, rfl⟩ := ih
    refine ⟨first :: rest, ?_, rfl⟩
    unfold handlesOf at hrest ⊢
    rw [List.mapM_cons, hfirst, hrest]
    rfl

/-! ## The work of a runtime -/

namespace World

variable {w w' : World} {log : List Birth} {k : AppKey} {service : Option String}

/-- What may happen beside a runtime: the clock is set in any way, the engine fails in another way,
and containers come to be in other states. -/
structure Aside (w w' : World) : Prop where
  lastSequence : w'.broker.runtime.lastSequence = w.broker.runtime.lastSequence
  made : w'.engine.made = w.engine.made
  numbers : w'.engine.containers.map (fun c => (c.id, c.number)) =
    w.engine.containers.map fun c => (c.id, c.number)
  labels : w'.engine.containers.map (fun c => (c.id, c.labels)) =
    w.engine.containers.map fun c => (c.id, c.labels)
  truthful : w'.engine.Truthful

/-- The worlds that the calls of a runtime lead to from an empty engine, with what the containers
that are there were made as. Each call may fail, and between calls the clock may be set. -/
inductive Attended : World → List Birth → Prop
  | new {w : World} : w.engine.containers = [] → w.engine.Truthful → Attended w []
  | aside {w w' : World} {log : List Birth} : Attended w log → w.Aside w' → Attended w' log
  | created {w w' : World} {log : List Birth} {app tenant : String} {tag : Tag} {h : Handle} :
      Attended w log → Tag.parse tag.format = .ok tag →
      w.answer (.create app tenant tag) = (.ok h, w') →
      Attended w' (log ++ [⟨h.id, app, tenant, tag.service, tag⟩])
  | notCreated {w w' : World} {log : List Birth} {app tenant : String} {tag : Tag} {e : Failure} :
      Attended w log → Tag.parse tag.format = .ok tag →
      w.answer (.create app tenant tag) = (.error e, w') → Attended w' log
  | destroyed {w w' : World} {log : List Birth} {h : Handle} : Attended w log →
      w.answer (.destroy h) = (.ok (), w') → Attended w' (log.filter (·.id ≠ h.id))
  | notDestroyed {w w' : World} {log : List Birth} {h : Handle} {e : Failure} : Attended w log →
      w.answer (.destroy h) = (.error e, w') → Attended w' log

/-- Whether containers are told apart by ids, bear growing numbers up to the last that was given,
and tell one by one what they were made as. -/
structure Faithful (w : World) (log : List Birth) : Prop where
  truthful : w.engine.Truthful
  numbered : Engine.Numbered w.engine.containers w.engine.made
  inSequence :
    InSequence (w.engine.containers.map (·.labels)) (w.broker.runtime.lastSequence + 1)
  told : List.Forall₂ (fun c b => b.ToldBy c.id c.labels) w.engine.containers log

/-- What is told of containers is told of their ids and labels. -/
theorem told_iff {cs : List Container} : List.Forall₂ (fun c b => b.ToldBy c.id c.labels) cs log ↔
    List.Forall₂ (fun m b => b.ToldBy m.1 m.2) (cs.map fun c => (c.id, c.labels)) log := by
  rw [List.forall₂_map_left_iff]

theorem Faithful.sequenced (h : w.Faithful log) : w.Sequenced :=
  h.inSequence.sublist (.refl _) (Int.le_max_right ..)

theorem Faithful.aside (h : w.Faithful log) (haside : w.Aside w') : w'.Faithful log where
  truthful := haside.truthful
  numbered := by
    rw [numbered_iff, haside.numbers, haside.made]
    exact numbered_iff.1 h.numbered
  inSequence := by
    have hlabels : w'.engine.containers.map (·.labels) = w.engine.containers.map (·.labels) := by
      simpa [Function.comp_def] using congrArg (List.map Prod.snd) haside.labels
    rw [hlabels, haside.lastSequence]
    exact h.inSequence
  told := by
    rw [told_iff, haside.labels]
    exact told_iff.1 h.told

theorem Quiet.aside (hq : w.Quiet w') (ht : w.engine.Truthful) : w.Aside w' := by
  obtain ⟨_, _, _, rfl⟩ := hq
  exact ⟨rfl, rfl, rfl, rfl, ht⟩

theorem Faithful.quiet (h : w.Faithful log) (hq : w.Quiet w') : w'.Faithful log :=
  h.aside (hq.aside h.truthful)

/-- The number that is given next is greater than the last. -/
theorem Faithful.inSequence_next (h : w.Faithful log) :
    InSequence (w.engine.containers.map (·.labels)) w.nextSequence :=
  h.inSequence.sublist (.refl _) (Int.le_max_right ..)

theorem Faithful.counted (h : w.Faithful log) : w.counted.Faithful log where
  truthful := h.truthful
  numbered := h.numbered
  inSequence := h.inSequence_next.sublist (.refl _) (Int.le_of_lt (Int.lt_succ _))
  told := h.told

theorem newcomer_toldBy {tag : Tag} (htag : Tag.parse tag.format = .ok tag)
    (h : (Text.numeral? w.nextSequence).isSome = true) (app tenant : String) :
    (⟨(w.newcomer app tenant tag).id, app, tenant, tag.service, tag⟩ : Birth).ToldBy
      (w.newcomer app tenant tag).id (w.newcomer app tenant tag).labels where
  id := rfl
  app := rfl
  tenant := rfl
  service := rfl
  tag := ⟨tag.format, rfl, htag⟩
  sequence := ⟨w.nextSequence, rfl, h⟩

/-- Making a container of a tag that reads back fails, or gives a handle that says what the
container was made as. -/
theorem Faithful.create (h : w.Faithful log) {tag : Tag} (htag : Tag.parse tag.format = .ok tag)
    (app tenant : String) :
    ((∃ e, (w.answer (.create app tenant tag)).1 = .error e) ∧
      (w.answer (.create app tenant tag)).2.Faithful log) ∨
    ∃ handle, (w.answer (.create app tenant tag)).1 = .ok handle ∧
      handle.birth = ⟨handle.id, app, tenant, tag.service, tag⟩ ∧
      (w.answer (.create app tenant tag)).2.Faithful
        (log ++ [⟨handle.id, app, tenant, tag.service, tag⟩]) := by
  cases hwritten : Text.numeral? w.nextSequence with
  | none =>
    rw [answer_create_of_unwritable hwritten]
    exact .inl ⟨⟨_, rfl⟩, h.counted⟩
  | some text =>
  have htold := newcomer_toldBy htag (Option.isSome_of_eq_some hwritten) app tenant
  obtain ⟨handle, hhandle, hbirth⟩ := htold.handleOf w.broker.runtime.settings.network
  have hid : handle.id = (w.newcomer app tenant tag).id := congrArg Birth.id hbirth
  rcases w.lineup_create (k := ⟨tenant, app⟩) h.numbered tag with ⟨he, hq⟩ | ⟨hok, ⟨w₁, hb, hw⟩, -⟩
  · exact .inl ⟨he, h.counted.quiet hq⟩
  · refine .inr ⟨handle, hok.trans hhandle, by rw [hbirth, hid], ?_⟩
    rw [hid]
    show ((w.answer (.create (⟨tenant, app⟩ : AppKey).name (⟨tenant, app⟩ : AppKey).tenant
      tag)).2).Faithful _
    rw [hw]
    obtain ⟨_, _, _, rfl⟩ := hb
    exact {
      truthful := h.truthful
      numbered := h.numbered.append rfl rfl
      inSequence := by
        rw [List.map_append]
        exact h.inSequence_next.append rfl rfl (Int.lt_succ _)
      told := List.rel_append h.told (.cons htold .nil) }

/-- Removing a container fails and changes nothing, or it is gone. -/
theorem Faithful.destroy (h : w.Faithful log) (handle : Handle) :
    ((∃ e, (w.answer (.destroy handle)).1 = .error e) ∧
      (w.answer (.destroy handle)).2.Faithful log) ∨
    ((w.answer (.destroy handle)).1 = .ok () ∧
      (w.answer (.destroy handle)).2.Faithful (log.filter (·.id ≠ handle.id))) := by
  have hwithout : List.Forall₂ (fun c b => b.ToldBy c.id c.labels)
      (Engine.without w.engine.containers handle.id) (log.filter (·.id ≠ handle.id)) :=
    forall₂_filter h.told fun c b hb => by rw [hb.id]
  rcases w.answer_destroy handle h.truthful.1 with ⟨hq, hgone⟩ | ⟨hok, hb⟩
  · cases ha : (w.answer (.destroy handle)).1 with
    | error e => exact .inl ⟨⟨e, rfl⟩, h.quiet hq⟩
    | ok u =>
      refine .inr ⟨rfl, ?_⟩
      have hnone := hgone h.truthful ha
      have hall : Engine.without w.engine.containers handle.id = w.engine.containers := by
        refine List.filter_eq_self.2 fun c hc => ?_
        simpa using List.find?_eq_none.1 hnone c hc
      exact { h.quiet hq with
        told := by
          rw [hq.containers, ← hall]
          exact hwithout }
  · refine .inr ⟨hok, ?_⟩
    obtain ⟨_, _, _, hw⟩ := hb
    rw [hw]
    exact {
      truthful := h.truthful
      numbered := h.numbered.without
      inSequence := h.inSequence.sublist (List.filter_sublist.map _) (Int.le_refl _)
      told := hwithout }

theorem Attended.faithful (h : Attended w log) : w.Faithful log := by
  induction h with
  | new hnone ht =>
    refine ⟨ht, ?_, ?_, ?_⟩ <;> rw [hnone]
    · exact ⟨by simp, by simp, .nil⟩
    · exact ⟨by simp, by simp, .nil⟩
    · exact .nil
  | aside _ haside ih => exact ih.aside haside
  | @created w w' log app tenant tag handle _ htag ha ih =>
    rcases ih.create htag app tenant with ⟨⟨e, he⟩, -⟩ | ⟨handle', hok, -, hf⟩
    · rw [ha] at he
      cases he
    · rw [ha] at hok hf
      rwa [Except.ok.inj hok]
  | @notCreated w w' log app tenant tag e _ htag ha ih =>
    rcases ih.create htag app tenant with ⟨-, hf⟩ | ⟨handle', hok, -, -⟩
    · rwa [ha] at hf
    · rw [ha] at hok
      cases hok
  | @destroyed w w' log handle _ ha ih =>
    rcases ih.destroy handle with ⟨⟨e, he⟩, -⟩ | ⟨-, hf⟩
    · rw [ha] at he
      cases he
    · rwa [ha] at hf
  | @notDestroyed w w' log handle e _ ha ih =>
    rcases ih.destroy handle with ⟨-, hf⟩ | ⟨hok, -⟩
    · rwa [ha] at hf
    · rw [ha] at hok
      cases hok

/-- What the containers are made as that a run of creations makes, up to the first that fails. -/
def births (k : AppKey) : List Tag → World → List Birth
  | [], _ => []
  | tag :: tags, w =>
    match w.answer (.create k.name k.tenant tag) with
    | (.ok h, w') => ⟨h.id, k.name, k.tenant, tag.service, tag⟩ :: births k tags w'
    | (.error _, _) => []

theorem run_createAll_cons (app tenant : String) (tag : Tag) (tags : List Tag) (w : World) :
    (createAll app tenant (tag :: tags)).run w = match w.answer (.create app tenant tag) with
      | (.ok h, w') => (((createAll app tenant tags).run w').1.map (h :: ·),
          ((createAll app tenant tags).run w').2)
      | (.error e, w') => (.error e, w') := by
  show ((perform (.create app tenant tag)).bind fun h =>
    (createAll app tenant tags).bind fun hs => done (.ok (h :: hs))).run w = _
  rw [run_bind, show (perform (.create app tenant tag)).run w =
    w.answer (.create app tenant tag) from rfl]
  rcases w.answer (.create app tenant tag) with ⟨e | h, w'⟩
  · rfl
  · dsimp only
    rw [run_bind]
    rcases (createAll app tenant tags).run w' with ⟨e | hs, w''⟩ <;> rfl

/-- Making several containers makes one after the other, and what was made before a failure
stays. -/
theorem Attended.after_createAll (h : Attended w log) {tags : List Tag}
    (htags : ∀ tag ∈ tags, Tag.parse tag.format = .ok tag) :
    Attended ((createAll k.name k.tenant tags).run w).2 (log ++ births k tags w) := by
  induction tags generalizing w log with
  | nil =>
    rw [births, List.append_nil]
    exact h
  | cons tag tags ih =>
    have htag := htags tag List.mem_cons_self
    rw [run_createAll_cons, births]
    rcases ha : w.answer (.create k.name k.tenant tag) with ⟨e | handle, w'⟩
    · rw [List.append_nil]
      exact h.notCreated htag ha
    · have hrest := ih (h.created htag ha) fun t ht => htags t (List.mem_cons_of_mem _ ht)
      rwa [List.append_assoc] at hrest

/-- The handles that making several containers gives say what those were made as. -/
theorem Attended.births_eq (h : Attended w log) {tags : List Tag} {hs : List Handle}
    (htags : ∀ tag ∈ tags, Tag.parse tag.format = .ok tag)
    (hrun : ((createAll k.name k.tenant tags).run w).1 = .ok hs) :
    births k tags w = hs.map Handle.birth := by
  induction tags generalizing w log hs with
  | nil =>
    obtain rfl := Except.ok.inj hrun
    rfl
  | cons tag tags ih =>
    have htag := htags tag List.mem_cons_self
    rw [run_createAll_cons] at hrun
    rw [births]
    rcases ha : w.answer (.create k.name k.tenant tag) with ⟨e | handle, w'⟩ <;> rw [ha] at hrun
    · cases hrun
    · obtain ⟨rest, hrest, rfl⟩ := map_eq_ok hrun
      rcases h.faithful.create htag k.name k.tenant with ⟨⟨e, he⟩, -⟩ | ⟨handle', hok, hbirth, -⟩
      · rw [ha] at he
        cases he
      · rw [ha] at hok
        obtain rfl := Except.ok.inj hok
        rw [List.map_cons, hbirth]
        exact congrArg _ (ih (h.created htag ha)
          (fun t ht => htags t (List.mem_cons_of_mem _ ht)) hrest)

/-- What containers were made as is read of those of an application. -/
theorem Faithful.handlesOf_lineup (h : w.Faithful log) (k : AppKey) (service : Option String) :
    ∃ hs, Runtime.handlesOf w.broker.runtime.settings.network
        ((w.lineup k).filter fun c => service.all (c.slot = ·)) = .ok hs ∧
      hs.map Handle.birth = log.filter (·.isOf k service) := by
  refine Runtime.handlesOf_births ?_
  unfold lineup
  rw [List.filter_filter]
  refine forall₂_filter h.told fun c b hb => ?_
  rw [Bool.and_comm]
  exact hb.isOf service

theorem Faithful.find_eq (h : w.Faithful log) (hk : Told w.engine.lenient k)
    (service : Option String) :
    (w.answer (.find k.name k.tenant service)).1 = (w.listing k service).bind fun _ =>
      Runtime.handlesOf w.broker.runtime.settings.network
        ((w.lineup k).filter fun c => service.all (c.slot = ·)) := by
  have hread := ((List.forall₂_and_left _ _).1 (h.told.imp fun c b hb =>
    ⟨(hb.handleOf w.broker.runtime.settings.network).imp fun _ hh => hh.1, hb⟩)).1
  exact find_eq_lineup hk h.sequenced fun c hc => hread c (mem_lineup.1 hc).1

theorem Faithful.tolerating (h : w.Faithful log) (lenient : Bool) :
    (w.tolerating lenient).Faithful log := ⟨h.truthful, h.numbered, h.inSequence, h.told⟩

/-- A connected engine lists unless it fails to. -/
theorem listing_of_connected (hconnected : w.broker.runtime.isConnected = true)
    (hfaults : w.engine.faults w.engine.history ⟨.list, "*", some k⟩ = none)
    (service : Option String) : ∃ cs, w.listing k service = .ok cs := by
  unfold listing Runtime.call Runtime.blame Runtime.connect Action.bind Engine.list Engine.accept
  simp only [hconnected, hfaults, if_true]
  exact ⟨_, rfl⟩

theorem bind_const_of_map {α β γ : Type} {o : Outcome α} {o' : Outcome β}
    (h : o.map (fun _ => ()) = o'.map fun _ => ()) (x : Outcome γ) :
    o.bind (fun _ => x) = o'.bind fun _ => x := by
  have hunit {α : Type} (o : Outcome α) :
      o.bind (fun _ => x) = (o.map fun _ => ()).bind fun _ => x := by
    cases o <;> rfl
  rw [hunit o, h, ← hunit o']

/-- A search for an application finds its containers that are there, each as it was made, oldest
first: all of them, or those of a slot. It fails only if the engine does not list, and does not
depend on how the engine takes filters without a value. Making several containers is no more than
making one after the other, and gives handles that say the same. -/
theorem Attended.found_as_made (h : Attended w log) (hname : k.name ≠ "") (htenant : k.tenant ≠ "")
    (service : Option String) :
    (w.answer (.find k.name k.tenant service)).1.map (List.map Handle.birth) =
      (w.listing k service).map (fun _ => log.filter (·.isOf k service)) ∧
    (w.broker.runtime.isConnected = true →
      w.engine.faults w.engine.history ⟨.list, "*", some k⟩ = none →
      ∃ hs, (w.answer (.find k.name k.tenant service)).1 = .ok hs) ∧
    (∀ lenient : Bool, ((w.tolerating lenient).answer (.find k.name k.tenant service)).1 =
      (w.answer (.find k.name k.tenant service)).1) ∧
    ∀ (count : Int) (tags : List Tag), (∀ tag ∈ tags, Tag.parse tag.format = .ok tag) →
      Attended ((Lifecycle.createAll k.name k.tenant (replicas count tags)).run w).2
        (log ++ births k (replicas count tags) w) ∧
      ∀ hs, ((Lifecycle.createAll k.name k.tenant (replicas count tags)).run w).1 = .ok hs →
        births k (replicas count tags) w = hs.map Handle.birth := by
  have hf := h.faithful
  have hk (lenient : Bool) : Told lenient k := .inr ⟨hname, htenant⟩
  have hfind := hf.find_eq (hk _) service
  obtain ⟨hs, hread, hbirths⟩ := hf.handlesOf_lineup k service
  refine ⟨?_, fun hconnected hfaults => ?_, fun lenient => ?_, fun count tags htags => ?_⟩
  · rw [hfind, hread, ← hbirths]
    cases w.listing k service <;> rfl
  · obtain ⟨cs, hcs⟩ := listing_of_connected hconnected hfaults service
    exact ⟨hs, by rw [hfind, hcs, hread]; rfl⟩
  · rw [hfind, (hf.tolerating lenient).find_eq (hk _) service]
    exact bind_const_of_map (w.listing_tolerating lenient k service) _
  · have hreplicas := Custody.forall_mem_replicas htags count
    exact ⟨h.after_createAll hreplicas, fun hs hrun => h.births_eq hreplicas hrun⟩

/-! ## Containers made while the clock goes back -/

namespace Standstill

/-- A lenient engine next to a clock that stands still. -/
def start : World :=
  { broker := { hub := ["hub"], store := ["store"] }, engine.lenient := true, clock.tick := 0 }

/-- The application. -/
def shop : AppKey := ⟨"alice", "shop"⟩

theorem name_python : "python" ≠ "" := by decide

theorem name_mysql : "mysql" ≠ "" := by decide

/-- What the framework containers run from. -/
def python : Tag := ⟨"python", "", "3.9", "", name_python⟩

/-- What the service container runs from. -/
def mysql : Tag := ⟨"mysql", "", "5.7", "db", name_mysql⟩

/-- After two framework containers were made. -/
def manned : World := ((createAll shop.name shop.tenant (replicas 2 [python])).run start).2

/-- The clock set back. -/
def setBack : World := { manned with clock := { manned.clock with nanos := 5 } }

/-- After a service container was made as well. -/
def served : World := ((createAll shop.name shop.tenant [mysql]).run setBack).2

/-- A handle of the first container. -/
def first : Handle :=
  { id := "c0001", name := "", app := "shop", tenant := "alice", service := "", tag := python
    sequence := 0, state := .ofStatus "", address := "" }

/-- After the first container was removed. -/
def left : World := (served.answer (.destroy first)).2

theorem truthful_start : start.engine.Truthful :=
  ⟨fun _ _ _ h => (by cases h), fun _ _ _ h => by cases h⟩

theorem attended_left : left.Attended
    [⟨"c0002", "shop", "alice", "", python⟩, ⟨"c0003", "shop", "alice", "db", mysql⟩] := by
  have hreadable (tag : Tag) (htag : tag = python ∨ tag = mysql) :
      Tag.parse tag.format = .ok tag := by
    rcases htag with rfl | rfl <;> decide +kernel
  have hmanned : manned.Attended _ := (Attended.new rfl truthful_start).after_createAll
    fun tag htag => hreadable tag (.inl (by simpa [replicas] using htag))
  have hback : setBack.Attended _ :=
    hmanned.aside ⟨rfl, rfl, rfl, rfl, hmanned.faithful.truthful⟩
  have hserved : served.Attended _ := hback.after_createAll
    fun tag htag => hreadable tag (.inr (List.mem_singleton.1 htag))
  have hleft : left.Attended _ := hserved.destroyed (h := first) (Prod.ext (by decide +kernel) rfl)
  have hlog : ([] ++ births shop (replicas 2 [python]) start ++ births shop [mysql] setBack).filter
      (fun b : Birth => b.id ≠ first.id) =
        [⟨"c0002", "shop", "alice", "", python⟩, ⟨"c0003", "shop", "alice", "db", mysql⟩] := by
    decide +kernel
  rwa [hlog] at hleft

theorem found_in_order_of_making :
    (left.answer (.find "shop" "alice" none)).1.map (List.map Handle.birth) =
      .ok [⟨"c0002", "shop", "alice", "", python⟩, ⟨"c0003", "shop", "alice", "db", mysql⟩] :=
  (attended_left.found_as_made (k := shop) (by decide) (by decide) none).1.trans
    (by decide +kernel)

end Standstill

end World

end AppBroker
