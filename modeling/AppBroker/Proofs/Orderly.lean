import AppBroker.Proofs.HubStaging
import AppBroker.Proofs.Reachable
import AppBroker.Proofs.StoreRefinement

/-!
# Orderly worlds

While operations go on, every container is of an application that has a record (`World.Orderly`): a
container is made only for an application with a record, and a record is removed only when no
container is left. The hub lies apart from the store, so it gives what it gave, whatever is written
into the store (`Orderly.plugin_eq`). What a program may rely on while others go on is little: ids
stand for what they stood for, and an application that it holds keeps its record and gets no
containers (`World.Follows`).
-/

namespace AppBroker

namespace Container

/-- Whether a container runs, as the broker sees it. -/
def IsUp (c : Container) : Prop := ContainerState.ofStatus c.status = .running

instance (c : Container) : Decidable c.IsUp := inferInstanceAs (Decidable (_ = _))

/-- Whether the labels of a container tell the tag that it runs from. -/
def Says (c : Container) (tag : Tag) : Prop :=
  ∃ text, c.labels.get? Runtime.tagLabel = some text ∧ Tag.parse text = .ok tag

theorem isUp_of_isRunning {c : Container} (h : c.isRunning = true) : c.IsUp := by
  rw [IsUp, show c.status = Container.runningStatus from of_decide_eq_true h]
  decide

theorem Says.unique {c : Container} {tag tag' : Tag} (h : c.Says tag) (h' : c.Says tag') :
    tag = tag' := by
  obtain ⟨text, hlabel, hparse⟩ := h
  obtain ⟨text', hlabel', hparse'⟩ := h'
  obtain rfl := Option.some.inj (hlabel.symm.trans hlabel')
  exact Except.ok.inj (hparse.symm.trans hparse')

end Container

/-- Whether a call stops or removes the container with an id. -/
def Call.takesDown (id : String) : Call → Bool
  | .stop h | .destroy h => h.id = id
  | _ => false

/-- The application that a call makes a container for, or whose record it removes. -/
def Call.claim? : Call → Option AppKey
  | .create app tenant _ => some ⟨tenant, app⟩
  | .removeRecord tenant name => some ⟨tenant, name⟩
  | _ => none

/-- Whether a call only looks something up or tells something. -/
def Call.isLooking : Call → Bool
  | .record .. | .records _ | .tenants | .compose .. | .plugin _ | .now | .find .. | .inspect _
  | .warn .. => true
  | _ => false

namespace World

variable {w w' w₀ w₁ w₂ w₃ : World} {id : String} {c : Call} {calm : String → Prop} {k : AppKey}
  {held : Option AppKey}

/-- Whether there is a container with an id that runs, as the broker sees it. -/
def Up (w : World) (id : String) : Prop := ∃ c ∈ w.engine.containers, c.id = id ∧ c.IsUp

instance (w : World) (id : String) : Decidable (w.Up id) :=
  inferInstanceAs (Decidable (∃ c ∈ w.engine.containers, c.id = id ∧ c.IsUp))

/-- Whether a handle has an id that was given out and stands for no container but one whose tag the
handle tells. -/
def Knows (w : World) (h : Handle) : Prop :=
  (∃ n ≤ w.engine.made, h.id = Engine.idOf n) ∧
    ∀ c ∈ w.engine.containers, c.id = h.id → c.Says h.tag

/-- Ids are never used again, so what is known of a handle stays known. -/
theorem Knows.aged {h : Handle} (hk : w.Knows h) (hages : w.Ages w')
    (hw' : Engine.Numbered w'.engine.containers w'.engine.made) : w'.Knows h := by
  obtain ⟨⟨n, hn, hid⟩, hsays⟩ := hk
  refine ⟨⟨n, hn.trans hages.made_le, hid⟩, fun c hc he => ?_⟩
  obtain ⟨d, hd, hdid, hlabels⟩ := hages.exists_older hw' hn hc (he.trans hid)
  have := hsays d hd (hdid.trans hid.symm)
  rwa [Container.Says, hlabels] at this

/-- What others leave alone of an application that is held: it keeps its record and gets no
containers. -/
structure Secures (k : AppKey) (w w' : World) : Prop where
  record : k.IsFiled → (w.recordAt k).isSome → (w'.recordAt k).isSome
  containers : ∀ c' ∈ w'.engine.containers, c'.BelongsTo k →
    ∃ c ∈ w.engine.containers, c.id = c'.id ∧ c.BelongsTo k

theorem Secures.refl (k : AppKey) (w : World) : w.Secures k w :=
  ⟨fun _ h => h, fun c hc hk => ⟨c, hc, rfl, hk⟩⟩

theorem Secures.trans (h : Secures k w₁ w₂) (h' : Secures k w₂ w₃) : Secures k w₁ w₃ where
  record hk := h'.record hk ∘ h.record hk
  containers c hc hck := by
    obtain ⟨c₂, hc₂, hid₂, hk₂⟩ := h'.containers c hc hck
    obtain ⟨c₁, hc₁, hid₁, hk₁⟩ := h.containers c₂ hc₂ hk₂
    exact ⟨c₁, hc₁, hid₁.trans hid₂, hk₁⟩

/-- How the world may change while others go on. Some ids are those of containers that nobody takes
down, and if one of them runs, it goes on running. -/
structure LeadsTo (calm : String → Prop) (held : Option AppKey) (w w' : World) : Prop where
  ages : w.Ages w'
  up : ∀ id, calm id → w.Up id → w'.Up id
  secures : ∀ k, held = some k → w.Secures k w'

namespace LeadsTo

theorem refl (w : World) : w.LeadsTo calm held w := ⟨.refl w, fun _ _ h => h, fun k _ => .refl k w⟩

theorem trans (h : w₁.LeadsTo calm held w₂) (h' : w₂.LeadsTo calm held w₃) :
    w₁.LeadsTo calm held w₃ where
  ages := h.ages.trans h'.ages
  up id hcalm := h'.up id hcalm ∘ h.up id hcalm
  secures k hk := (h.secures k hk).trans (h'.secures k hk)

theorem unheld (h : w.LeadsTo calm held w') : w.LeadsTo calm none w' := ⟨h.ages, h.up, nofun⟩

theorem knows {handle : Handle} (h : w.LeadsTo calm held w')
    (hw' : Engine.Numbered w'.engine.containers w'.engine.made) (hk : w.Knows handle) :
    w'.Knows handle := hk.aged h.ages hw'

end LeadsTo

/-- Nothing has changed but the engine's history, the clock, what the runtime remembers and the
trace. -/
structure Still (w w' : World) : Prop where
  disk : w'.disk = w.disk
  hub : w'.broker.hub = w.broker.hub
  store : w'.broker.store = w.broker.store
  codec : w'.broker.codec = w.broker.codec
  router : w'.broker.router = w.broker.router
  containers : w'.engine.containers = w.engine.containers

theorem Quiet.still (h : w.Quiet w') : w.Still w' := by
  obtain ⟨_, _, _, rfl⟩ := h
  exact ⟨rfl, rfl, rfl, rfl, rfl, rfl⟩

theorem Still.recordAt (h : w.Still w') (k : AppKey) : w'.recordAt k = w.recordAt k := by
  unfold World.recordAt
  rw [h.disk, h.codec, h.store]

/-- Telling the time changes nothing else. -/
theorem still_clock (w : World) (clock : Clock) : w.Still { w with clock := clock } :=
  ⟨rfl, rfl, rfl, rfl, rfl, rfl⟩

theorem still_load {α : Type} (tenant : String) (f : Table String Record → α) (w : World) :
    w.Still (Action.bind (load tenant) (fun records => pure (f records)) w).2 := by
  have hload : w.Still (load tenant w).2 := w.still_clock _
  unfold Action.bind
  split <;> rename_i heq <;> rw [heq] at hload <;> exact hload

theorem still_answer (hc : c.isLooking = true) (w : World) : w.Still (w.answer c).2 := by
  cases c with
  | record tenant name => exact still_load tenant _ w
  | records tenant => exact still_load tenant _ w
  | find app tenant service => exact (w.answer_find app tenant service).1.still
  | inspect h => exact (w.answer_inspect h).1.still
  | now => exact w.still_clock _
  | tenants | compose | plugin | warn => exact ⟨rfl, rfl, rfl, rfl, rfl, rfl⟩
  | _ => cases hc

end World

namespace Store

/-- Reading records moves the clock on, to a moment that it can show. -/
theorem real_readRecords {clock : Clock} (h : clock.moment.IsReal)
    (entries : List (Value × Value)) : (readRecords clock entries).2.moment.IsReal := by
  induction entries generalizing clock with
  | nil => exact h
  | cons entry rest ih =>
    obtain ⟨name, value⟩ := entry
    unfold readRecords
    split
    · exact h
    · rename_i fields _
      have hlater : (if Record.needsClock fields then clock.afterNow else clock).moment.IsReal := by
        split
        · exact h.addSeconds _
        · exact h
      have hrest := ih hlater
      dsimp only
      split
      · exact hlater
      · split <;> rename_i heq <;> rw [heq] at hrest <;> exact hrest

theorem real_load {codec : Yaml.Codec} {d : Disk} {root : Path} {clock : Clock}
    (h : clock.moment.IsReal) (tenant : String) :
    (load codec d root clock tenant).2.moment.IsReal := by
  unfold load
  dsimp only
  split
  · exact h
  · exact real_readRecords h _

end Store

namespace World

variable {w w' w₀ w₁ w₂ w₃ : World} {id : String} {c : Call}

/-- Looking things up leaves records where they can be found, be the tenant any. -/
theorem Storing.look (h : w.Storing) (hc : c.isLooking = true) : (w.answer c).2.Storing := by
  have hload {α : Type} (tenant : String) (f : Table String Record → α) :
      (Action.bind (load tenant) (fun records => pure (f records)) w).2.Storing := by
    have hread : (load tenant w).2.Storing := ⟨h.faithful, h.has, h.holds, Store.real_load h.real tenant⟩
    unfold Action.bind
    split <;> rename_i heq <;> rw [heq] at hread <;> exact hread
  cases c with
  | record tenant name => exact hload tenant _
  | records tenant => exact hload tenant _
  | tenants => exact h
  | compose | plugin | now | find | inspect | warn => exact h.answer rfl
  | _ => cases hc

/-- A call that does the store no harm, or looks something up, leaves a world dependable. -/
theorem Dependable.called {lenient : Bool} (h : w.Dependable lenient)
    (hc : c.Fits ∨ c.isLooking = true) : (w.answer c).2.Dependable lenient := by
  have haged := aged_answer h.numbered c
  refine ⟨haged.numbered h.numbered, ?_, haged.lenient.trans h.lenient_eq,
    hc.elim h.storing.answer h.storing.look⟩
  unfold Engine.Truthful Engine.Honest
  rw [haged.faults]
  exact h.truthful

/-- Whether a call keeps worlds orderly: what it writes can be kept, it makes a container only for
an application that has a record, and removes a record only if there is no container. -/
def Suits (w : World) : Call → Prop
  | .create app tenant _ => (w.recordAt ⟨tenant, app⟩).isSome
  | .removeRecord tenant name => '/' ∉ tenant.toList ∧
      ∀ c ∈ w.engine.containers, ¬ c.BelongsTo ⟨tenant, name⟩
  | .records _ | .tenants => True
  | c => c.Fits

/-- Whether the hub and the store lie apart, with no symbolic link where the hub has its plugins. -/
structure Apart (w : World) : Prop where
  plain : Hub.Plain w.broker.hub w.disk
  unlinked : ∀ tenant, Hub.Unlinked w.broker.hub tenant w.disk
  hub_outside : ¬ w.broker.store <+: w.broker.hub
  store_outside : ¬ w.broker.hub <+: w.broker.store

/-- What stays true of a world while operations go on, of what they begin with. -/
structure Orderly (w₀ w : World) : Prop where
  apart : w₀.Apart
  dependable : w.Dependable w₀.engine.lenient
  memory : ∃ routes, w.broker.router = .memory routes
  manned : ∀ c ∈ w.engine.containers, ∀ k : AppKey, k.IsFiled → c.BelongsTo k →
    (w.recordAt k).isSome
  hub : w.broker.hub = w₀.broker.hub
  store : w.broker.store = w₀.broker.store
  kept : Hub.Kept w₀.broker.hub (Disk.isWithin w₀.broker.store) w₀.disk w.disk

/-- The hub and the store are where they were, apart from each other, and the hub is as it was. -/
structure Sited (w₀ w : World) : Prop where
  apart : w₀.Apart
  dependable : w.Dependable w₀.engine.lenient
  memory : ∃ routes, w.broker.router = .memory routes
  hub : w.broker.hub = w₀.broker.hub
  store : w.broker.store = w₀.broker.store
  kept : Hub.Kept w₀.broker.hub (Disk.isWithin w₀.broker.store) w₀.disk w.disk

theorem Orderly.sited (h : w₀.Orderly w) : w₀.Sited w :=
  ⟨h.apart, h.dependable, h.memory, h.hub, h.store, h.kept⟩

theorem Sited.orderly (h : w₀.Sited w) (hmanned : ∀ c ∈ w.engine.containers, ∀ k : AppKey,
    k.IsFiled → c.BelongsTo k → (w.recordAt k).isSome) : w₀.Orderly w :=
  ⟨h.apart, h.dependable, h.memory, hmanned, h.hub, h.store, h.kept⟩

/-! ## What a call does to an orderly world -/

/-- Nothing has changed about the hub and the store but at most one file of the store, and routes
are still kept in memory if they were. -/
structure Housed (w w' : World) : Prop where
  hub : w'.broker.hub = w.broker.hub
  store : w'.broker.store = w.broker.store
  memory : (∃ routes, w.broker.router = .memory routes) →
    ∃ routes, w'.broker.router = .memory routes
  disk : w'.disk = w.disk ∨ ∃ name data, Disk.IsName name ∧
    w.disk.entry? (w.broker.store ++ [name]) ≠ some .directory ∧
    w'.disk = w.disk.put (w.broker.store ++ [name]) (.file data)

theorem Still.housed (h : w.Still w') : w.Housed w' :=
  ⟨h.hub, h.store, by rw [h.router]; exact id, .inl h.disk⟩

theorem Became.housed {cs : List Container} (h : w.Became cs w') : w.Housed w' := by
  obtain ⟨_, _, _, rfl⟩ := h
  exact ⟨rfl, rfl, id, .inl rfl⟩

theorem Wrote.housed {tenant : String} (h : w.Wrote tenant w') (ht : '/' ∉ tenant.toList)
    (hs : w.Storing) (hs' : w'.Storing) : w.Housed w' := by
  obtain ⟨data, rfl⟩ := h
  obtain ⟨records, hbefore, -⟩ := hs.holds tenant ht
  obtain ⟨records', hafter, -⟩ := hs'.holds tenant ht
  refine ⟨rfl, rfl, id, .inr ⟨_, data, ?_, ?_, rfl⟩⟩
  · rcases hafter with ⟨hnone, -⟩ | ⟨-, hname⟩
    · rw [Disk.entry?_put _ _ _ _ (by simp), if_pos rfl] at hnone
      cases hnone
    · exact hname
  · rcases hbefore with ⟨hnone, -⟩ | ⟨hfile, -⟩
    · simp [hnone]
    · simp [hfile]

/-- Whether a container is the one that was there before: its id, its name and its labels last. -/
structure Remains (c c' : Container) : Prop where
  id : c.id = c'.id
  name : c.name = c'.name
  labels : c.labels = c'.labels

theorem exists_of_mem_changed (f : Container → Container) (hf : ∀ c, Remains c (f c))
    {cs : List Container} : ∀ c' ∈ Engine.changed cs id f, ∃ c ∈ cs, Remains c c' := by
  intro c' hc'
  obtain ⟨c, hc, rfl⟩ := List.mem_map.1 hc'
  refine ⟨c, hc, ?_⟩
  split
  · exact hf c
  · exact ⟨rfl, rfl, rfl⟩

theorem exists_of_mem_without {cs : List Container} :
    ∀ c' ∈ Engine.without cs id, ∃ c ∈ cs, Remains c c' :=
  fun c' hc' => ⟨c', (List.mem_filter.1 hc').1, rfl, rfl, rfl⟩

/-- Making a container fails or adds a new one, and records stay as they are. -/
theorem create_cases (hw : Engine.Numbered w.engine.containers w.engine.made) (k : AppKey)
    (tag : Tag) : let w' := (w.answer (.create k.name k.tenant tag)).2
    w.Housed w' ∧ (∀ k', w'.recordAt k' = w.recordAt k') ∧
      (w'.engine.containers = w.engine.containers ∨
        w'.engine.containers = w.engine.containers ++ [w.newcomer k.name k.tenant tag]) := by
  intro w'
  rcases w.lineup_create hw tag with ⟨-, hq⟩ | ⟨-, ⟨w₁, hb, hw₁⟩, -⟩
  · have hstill := hq.still
    exact ⟨⟨hstill.hub, hstill.store, by rw [hstill.router]; exact id, .inl hstill.disk⟩,
      fun k' => hstill.recordAt k', .inl hstill.containers⟩
  · show w.Housed (w.answer _).2 ∧ _
    simp only [w']
    rw [hw₁]
    obtain ⟨_, _, _, rfl⟩ := hb
    exact ⟨⟨rfl, rfl, id, .inl rfl⟩, fun _ => rfl, .inr rfl⟩

theorem Suits.fits (hc : w.Suits c) : c.Fits ∨ c.isLooking = true := by
  cases c with
  | create | records | tenants => first | exact .inl trivial | exact .inr rfl
  | removeRecord => exact .inl hc.1
  | _ => exact .inl hc

section Answer

variable {lenient : Bool} (hw : w.Dependable lenient)
include hw

/-- A call leaves the hub and the store where they are. -/
theorem housed_answer (hc : c.Fits ∨ c.isLooking = true) : w.Housed (w.answer c).2 := by
  have hhandled {cs : List Container} (h : w.Quiet (w.answer c).2 ∨ w.Became cs (w.answer c).2) :
      w.Housed (w.answer c).2 := h.elim (fun hq => hq.still.housed) fun hb => hb.housed
  have hrefl : w.Housed w := ⟨rfl, rfl, id, .inl rfl⟩
  cases c with
  | create app tenant tag => exact (create_cases hw.numbered ⟨tenant, app⟩ tag).1
  | start h => exact hhandled (w.handled_start h)
  | restart h => exact hhandled (w.handled_restart h)
  | stop h => exact hhandled (w.handled_stop h)
  | destroy h => exact hhandled (w.handled_destroy h)
  | addRecord tenant r =>
    obtain ⟨ht, hr⟩ := hc.resolve_right nofun
    rcases answer_addRecord hw.storing ht hr with ⟨e, ha⟩ | ⟨w', ha, hwrote, hs', -⟩ <;>
      rw [ha]
    exacts [hrefl, hwrote.housed ht hw.storing hs']
  | replaceRecord tenant r =>
    obtain ⟨ht, hr⟩ := hc.resolve_right nofun
    rcases answer_replaceRecord hw.storing ht hr with ⟨e, ha⟩ | ⟨w', ha, hwrote, hs', -⟩ <;>
      rw [ha]
    exacts [hrefl, hwrote.housed ht hw.storing hs']
  | removeRecord tenant name =>
    have ht := hc.resolve_right nofun
    rcases answer_removeRecord hw.storing ht name with ⟨e, ha⟩ | ⟨w', ha, hwrote, hs', -⟩ <;>
      rw [ha]
    exacts [hrefl, hwrote.housed ht hw.storing hs']
  | route change =>
    exact ⟨rfl, rfl, fun ⟨routes, hm⟩ => ⟨_, (answer_route hm change).2.2⟩, .inl rfl⟩
  | record | records | tenants | compose | plugin | now | find | inspect | warn =>
    exact (still_answer rfl w).housed
  | exec | deploy | branches | disconnect => rcases hc with hc | hc <;> cases hc

omit hw in
/-- A container that is there after a call was there before, or it is the one that the call made. -/
theorem exists_of_mem_answer (hn : Engine.Numbered w.engine.containers w.engine.made) (c : Call) :
    ∀ c' ∈ (w.answer c).2.engine.containers, (∃ d ∈ w.engine.containers, Remains d c') ∨
      ∃ app tenant tag, c = .create app tenant tag ∧ c' = w.newcomer app tenant tag := by
  intro c' hc'
  have hsame {w' : World} (h : w'.engine.containers = w.engine.containers)
      (hc' : c' ∈ w'.engine.containers) : ∃ d ∈ w.engine.containers, Remains d c' :=
    ⟨c', h ▸ hc', rfl, rfl, rfl⟩
  have hhandled {cs : List Container} {w' : World} (h : w.Quiet w' ∨ w.Became cs w')
      (hcs : ∀ c' ∈ cs, ∃ d ∈ w.engine.containers, Remains d c')
      (hc' : c' ∈ w'.engine.containers) : ∃ d ∈ w.engine.containers, Remains d c' := by
    rcases h with hq | ⟨_, _, _, rfl⟩
    · exact hsame hq.containers hc'
    · exact hcs c' hc'
  cases c with
  | create app tenant tag =>
    obtain ⟨-, -, h | h⟩ := create_cases hn ⟨tenant, app⟩ tag
    · exact .inl (hsame h hc')
    · rw [h] at hc'
      rcases List.mem_append.1 hc' with hc' | hc'
      · exact .inl ⟨c', hc', rfl, rfl, rfl⟩
      · exact .inr ⟨app, tenant, tag, rfl, List.mem_singleton.1 hc'⟩
  | start h =>
    exact .inl (hhandled (w.handled_start h)
      (exists_of_mem_changed .started fun _ => ⟨rfl, rfl, rfl⟩) hc')
  | restart h =>
    exact .inl (hhandled (w.handled_restart h)
      (exists_of_mem_changed .started fun _ => ⟨rfl, rfl, rfl⟩) hc')
  | stop h =>
    exact .inl (hhandled (w.handled_stop h)
      (exists_of_mem_changed .stopped fun _ => ⟨rfl, rfl, rfl⟩) hc')
  | destroy h => exact .inl (hhandled (w.handled_destroy h) exists_of_mem_without hc')
  | route => exact .inl ⟨c', hc', rfl, rfl, rfl⟩
  | _ => exact .inl (hsame (w.same_answer rfl).containers hc')

omit hw in
/-- A record stays as it is unless a call writes it or takes it away. -/
theorem recordAt_answer (hn : Engine.Numbered w.engine.containers w.engine.made) (hs : w.Storing)
    (hc : c.Fits ∨ c.isLooking = true) (hk : k.IsFiled) :
    (w.answer c).2.recordAt k = w.recordAt k ∨
    (∃ r, (c = .addRecord k.tenant r ∨ c = .replaceRecord k.tenant r) ∧
      (w.answer c).2.recordAt k = some r) ∨
    c = .removeRecord k.tenant k.name ∧ (w.answer c).2.recordAt k = none := by
  have hhandled {cs : List Container} (h : w.Quiet (w.answer c).2 ∨ w.Became cs (w.answer c).2) :
      (w.answer c).2.recordAt k = w.recordAt k := by
    rcases h with hq | ⟨_, _, _, hb⟩
    · exact hq.still.recordAt k
    · rw [hb]
      rfl
  cases c with
  | create app tenant tag => exact .inl ((create_cases hn ⟨tenant, app⟩ tag).2.1 k)
  | start h => exact .inl (hhandled (w.handled_start h))
  | restart h => exact .inl (hhandled (w.handled_restart h))
  | stop h => exact .inl (hhandled (w.handled_stop h))
  | destroy h => exact .inl (hhandled (w.handled_destroy h))
  | addRecord tenant r =>
    obtain ⟨ht, hr⟩ := hc.resolve_right nofun
    rcases answer_addRecord hs ht hr with ⟨e, ha⟩ | ⟨w', ha, -, -, -, hat⟩ <;> rw [ha]
    · exact .inl rfl
    · rw [hat k hk]
      split
      · rename_i heq
        exact .inr (.inl ⟨r, .inl (by rw [heq]), rfl⟩)
      · exact .inl rfl
  | replaceRecord tenant r =>
    obtain ⟨ht, hr⟩ := hc.resolve_right nofun
    rcases answer_replaceRecord hs ht hr with ⟨e, ha⟩ | ⟨w', ha, -, -, hat⟩ <;> rw [ha]
    · exact .inl rfl
    · rw [hat k hk]
      split
      · rename_i heq
        exact .inr (.inl ⟨r, .inr (by rw [heq]), rfl⟩)
      · exact .inl rfl
  | removeRecord tenant name =>
    have ht := hc.resolve_right nofun
    rcases answer_removeRecord hs ht name with ⟨e, ha⟩ | ⟨w', ha, -, -, hat⟩ <;> rw [ha]
    · exact .inl rfl
    · rw [hat k hk]
      split
      · rename_i heq
        exact .inr (.inr ⟨by rw [heq], rfl⟩)
      · exact .inl rfl
  | route change => exact .inl rfl
  | record | records | tenants | compose | plugin | now | find | inspect | warn =>
    exact .inl ((still_answer rfl w).recordAt k)
  | exec | deploy | branches | disconnect => rcases hc with hc | hc <;> cases hc

/-- A call leaves all applications alone but the one that it claims. -/
theorem secures_answer (hc : c.Fits ∨ c.isLooking = true) (hclaim : c.claim? ≠ some k) :
    w.Secures k (w.answer c).2 where
  record hk hr := by
    rcases recordAt_answer hw.numbered hw.storing hc hk with h | ⟨r, -, h⟩ | ⟨rfl, -⟩
    · rwa [h]
    · rw [h]
      rfl
    · exact absurd rfl hclaim
  containers c' hc' hck := by
    rcases exists_of_mem_answer hw.numbered c c' hc' with
      ⟨d, hd, hid, -, hlabels⟩ | ⟨app, tenant, tag, rfl, rfl⟩
    · exact ⟨d, hd, hid, by rwa [Container.BelongsTo, hlabels]⟩
    · exact absurd (congrArg some ((w.newcomer_belongsTo ⟨tenant, app⟩ tag).unique hck)) hclaim

end Answer

/-- What runs goes on running unless it is taken down. -/
theorem up_answer {lenient : Bool} (hw : w.Dependable lenient) (hc : c.takesDown id = false)
    (hup : w.Up id) : (w.answer c).2.Up id := by
  have hsame {w' : World} (h : w'.engine.containers = w.engine.containers) : w'.Up id := by
    unfold Up
    rwa [h]
  -- whatever is done to one container, others are left alone
  have hchanged {id' : String} {f : Container → Container} {w' : World}
      (hf : id' = id → ∀ c, (f c).id = c.id ∧ (f c).IsUp)
      (hcases : w.Quiet w' ∨ w.Became (Engine.changed w.engine.containers id' f) w') :
      w'.Up id := by
    rcases hcases with hq | ⟨_, _, _, rfl⟩
    · exact hsame hq.containers
    · obtain ⟨e, he, rfl, hup⟩ := hup
      refine ⟨_, List.mem_map.2 ⟨e, he, rfl⟩, ?_⟩
      split
      · rename_i heq
        exact hf heq.symm e
      · exact ⟨rfl, hup⟩
  have hstarted (h : Handle) : h.id = id → ∀ c : Container, c.started.id = c.id ∧ c.started.IsUp :=
    fun _ _ => ⟨rfl, Container.isUp_of_isRunning rfl⟩
  cases c with
  | create app tenant tag =>
    obtain ⟨-, -, h | h⟩ := create_cases hw.numbered ⟨tenant, app⟩ tag
    · exact hsame h
    · obtain ⟨e, he, hid, hup⟩ := hup
      exact ⟨e, by rw [h]; exact List.mem_append_left _ he, hid, hup⟩
  | start h => exact hchanged (hstarted h) (w.handled_start h)
  | restart h => exact hchanged (hstarted h) (w.handled_restart h)
  | stop h => exact hchanged (fun heq => absurd heq (of_decide_eq_false hc)) (w.handled_stop h)
  | destroy h =>
    rcases w.handled_destroy h with hq | ⟨_, _, _, hw'⟩
    · exact hsame hq.containers
    · obtain ⟨e, he, rfl, hup⟩ := hup
      refine ⟨e, ?_, rfl, hup⟩
      rw [hw']
      exact List.mem_filter.2 ⟨he, by simpa using Ne.symm (of_decide_eq_false hc)⟩
  | route => exact hup
  | _ => exact hsame (w.same_answer rfl).containers

/-- What was started was there; it ran before, or it is changed to run. -/
theorem started_cases {h : Handle} (hc : c = .start h ∨ c = .restart h)
    (hhonest : w.engine.Honest) (hok : ∃ u, (w.answer c).1 = .ok u) :
    ∃ e ∈ w.engine.containers, e.id = h.id ∧
      (e.isRunning = true ∧ w.Quiet (w.answer c).2 ∨
        w.Became (Engine.changed w.engine.containers h.id .started) (w.answer c).2) := by
  obtain ⟨u, hok⟩ := hok
  rcases hc with rfl | rfl
  · rcases w.answer_start h hhonest with ⟨e, he, -⟩ | ⟨-, e, he, hcases⟩
    · cases he.symm.trans hok
    · obtain ⟨hmem, hid⟩ := Engine.find?_eq_some he
      exact ⟨e, hmem, hid, hcases.imp_right And.right⟩
  · rcases w.answer_restart h hhonest with ⟨e, he, -⟩ | ⟨-, e, he, hb⟩
    · cases he.symm.trans hok
    · obtain ⟨hmem, hid⟩ := Engine.find?_eq_some he
      exact ⟨e, hmem, hid, .inr hb⟩

/-- What was started runs. -/
theorem up_of_started {h : Handle} (hc : c = .start h ∨ c = .restart h)
    (hhonest : w.engine.Honest) (hok : ∃ u, (w.answer c).1 = .ok u) : (w.answer c).2.Up h.id := by
  obtain ⟨e, he, hid, ⟨hrun, hq⟩ | ⟨_, _, _, hw'⟩⟩ := started_cases hc hhonest hok
  · exact ⟨e, by rwa [hq.containers], hid, Container.isUp_of_isRunning hrun⟩
  · rw [hw']
    exact ⟨e.started, List.mem_map.2 ⟨e, he, if_pos hid⟩, hid, Container.isUp_of_isRunning rfl⟩

/-- The application that a call claims still has a record for each container. -/
theorem manned_answer (hw : w₀.Orderly w) (hc : w.Suits c) :
    ∀ c' ∈ (w.answer c).2.engine.containers, ∀ k : AppKey, k.IsFiled → c'.BelongsTo k →
      ((w.answer c).2.recordAt k).isSome := by
  intro c' hc' k hk hck
  by_cases hclaim : c.claim? = some k
  · cases c with
    | create app tenant tag =>
      obtain rfl := Option.some.inj hclaim
      obtain ⟨-, hrecords, -⟩ := create_cases hw.dependable.numbered ⟨tenant, app⟩ tag
      rw [hrecords]
      exact hc
    | removeRecord tenant name =>
      obtain rfl := Option.some.inj hclaim
      rw [(w.same_answer (c := .removeRecord tenant name) rfl).containers] at hc'
      exact absurd hck (hc.2 c' hc')
    | _ => cases hclaim
  · have hsecures := secures_answer hw.dependable hc.fits hclaim
    obtain ⟨d, hd, -, hdk⟩ := hsecures.containers c' hc' hck
    exact hsecures.record hk (hw.manned d hd k hk hdk)

theorem Sited.answer (hw : w₀.Sited w) (hc : c.Fits ∨ c.isLooking = true) :
    w₀.Sited (w.answer c).2 := by
  have hhoused := housed_answer hw.dependable hc
  refine ⟨hw.apart, hw.dependable.called hc, hhoused.memory hw.memory, hhoused.hub.trans hw.hub,
    hhoused.store.trans hw.store, ?_⟩
  rcases hhoused.disk with h | ⟨name, data, -, -, h⟩ <;> rw [h]
  · exact hw.kept
  · rw [hw.store]
    exact hw.kept.put (Disk.isWithin_iff.2 (List.prefix_append _ _))
      (.inl fun _ heq => by cases heq)

theorem Orderly.answer (hw : w₀.Orderly w) (hc : w.Suits c) : w₀.Orderly (w.answer c).2 :=
  (hw.sited.answer hc.fits).orderly (manned_answer hw hc)

theorem leadsTo_answer (hw : w₀.Orderly w) (hc : w.Suits c)
    (hdown : ∀ id, calm id → c.takesDown id = false)
    (hclaim : ∀ k, held = some k → c.claim? ≠ some k) : w.LeadsTo calm held (w.answer c).2 where
  ages := (aged_answer hw.dependable.numbered c).ages
  up id hcalm := up_answer hw.dependable (hdown id hcalm)
  secures k hk := secures_answer hw.dependable hc.fits (hclaim k hk)

/-- What operations begin with. -/
theorem Apart.orderly {lenient : Bool} (h : w.Apart) (hw : w.Dependable lenient)
    (hmemory : ∃ routes, w.broker.router = .memory routes)
    (hmanned : ∀ c ∈ w.engine.containers, ∀ k : AppKey, k.IsFiled → c.BelongsTo k →
      (w.recordAt k).isSome) : w.Orderly w :=
  ⟨h, hw.lenient_eq ▸ hw, hmemory, hmanned, rfl, rfl,
    h.plain.kept (Hub.isPart_within h.hub_outside)⟩

/-- What is written into the store is not on the way to a scope of the hub, nor in it. -/
theorem Apart.isWithin_eq (h : w.Apart) (tenant : String) {q : Path}
    (hq : q <+: w.broker.hub ++ [Hub.scopeName tenant] ∨
      w.broker.hub ++ [Hub.scopeName tenant] <+: q) : Disk.isWithin w.broker.store q = false := by
  have hscope : w.broker.hub <+: w.broker.hub ++ [Hub.scopeName tenant] := List.prefix_append _ _
  have hupper : ¬ w.broker.store <+: w.broker.hub ++ [Hub.scopeName tenant] := fun hin =>
    (List.prefix_concat_iff.1 hin).elim (fun heq => h.store_outside (heq ▸ hscope)) h.hub_outside
  rw [Bool.eq_false_iff, ne_eq, Disk.isWithin_iff]
  intro hstore
  rcases hq with hq | hq
  · exact hupper (hstore.trans hq)
  · rcases List.prefix_or_prefix_of_prefix hstore hq with hin | hin
    · exact hupper hin
    · exact h.store_outside (hscope.trans hin)

/-- The hub gives what it gave. -/
theorem Sited.plugin_eq (hw : w₀.Sited w) (tag : Tag) :
    Hub.plugin w.disk w.broker.hub tag = Hub.plugin w₀.disk w₀.broker.hub tag := by
  rw [hw.hub]
  exact (hw.kept.agree hw.apart.plain (fun _ _ => hw.apart.isWithin_eq tag.tenant)
    (hw.apart.unlinked tag.tenant)).plugin tag rfl

theorem Orderly.plugin_eq (hw : w₀.Orderly w) (tag : Tag) :
    Hub.plugin w.disk w.broker.hub tag = Hub.plugin w₀.disk w₀.broker.hub tag :=
  hw.sited.plugin_eq tag

/-! ## What is found -/

theorem knows_of_read (hw : Engine.Numbered w.engine.containers w.engine.made) {network : String}
    {c : Container} {h : Handle} (hc : c ∈ w.engine.containers)
    (hread : Runtime.handleOf network c = .ok h) : w.Knows h := by
  have hfrom := Runtime.readFrom_of_handleOf hread
  refine ⟨⟨c.number, hw.le_made c hc, hfrom.id.trans (hw.id_eq c hc)⟩, fun d hd hid => ?_⟩
  obtain rfl := hw.eq_of_id hd hc (hid.trans hfrom.id)
  exact hfrom.tag

theorem exists_of_found {app tenant : String} {service : Option String} {hs : List Handle}
    (hfind : (w.answer (.find app tenant service)).1 = .ok hs) {h : Handle} (hh : h ∈ hs) :
    ∃ c ∈ w.engine.containers, Runtime.handleOf w.broker.runtime.settings.network c = .ok h := by
  obtain ⟨all, hall, rfl⟩ := (w.answer_find _ _ _).2 hs hfind
  have hmem : h ∈ all := (List.mem_filter.1 ((List.mergeSort_perm _ _).mem_iff.1 hh)).1
  obtain ⟨c, hc, hread⟩ := Runtime.exists_of_mem_handlesOf hall hmem
  exact ⟨c, List.mem_reverse.1 (List.mem_filter.1 hc).1, hread⟩

/-- A search for all containers of an application finds each of them, and in its state. -/
theorem exists_found {k : AppKey} {c : Container} (hc : c ∈ w.engine.containers)
    (hk : c.BelongsTo k) {hs : List Handle}
    (hfind : (w.answer (.find k.name k.tenant none)).1 = .ok hs) :
    ∃ h ∈ hs, h.id = c.id ∧ (c.IsUp → h.state = .running) := by
  obtain ⟨all, hall, rfl⟩ := (w.answer_find _ _ _).2 hs hfind
  have hlisted : c ∈ w.engine.containers.reverse.filter fun c =>
      (filters k.name k.tenant none).all (c.hasLabel w.engine.lenient) := by
    refine List.mem_filter.2 ⟨List.mem_reverse.2 hc, ?_⟩
    simp [filters, Container.hasLabel, hk.1, hk.2]
  obtain ⟨h, hh, hread⟩ := exists_of_mem_right (Runtime.forall₂_handlesOf hall).flip hlisted
  have hfrom := Runtime.readFrom_of_handleOf hread
  refine ⟨h, ?_, hfrom.id, fun hup => hfrom.state.trans hup⟩
  rw [(List.mergeSort_perm _ _).mem_iff]
  exact List.mem_filter.2 ⟨hh, rfl⟩

theorem knows_of_create (hw : Engine.Numbered w.engine.containers w.engine.made) {k : AppKey}
    {tag : Tag} {h : Handle} (hc : (w.answer (.create k.name k.tenant tag)).1 = .ok h) :
    (w.answer (.create k.name k.tenant tag)).2.Knows h := by
  have hw' := (aged_answer hw (.create k.name k.tenant tag)).numbered hw
  rcases w.lineup_create hw tag with ⟨⟨e, he⟩, -⟩ | ⟨hread, ⟨w₁, hb, hw₁⟩, -⟩
  · rw [he] at hc
    cases hc
  · rw [hread] at hc
    refine knows_of_read hw' ?_ hc
    rw [hw₁]
    obtain ⟨_, _, _, rfl⟩ := hb
    exact List.mem_append_right _ (List.mem_singleton_self _)

/-- The records of a tenant tell of each application that has one. -/
theorem Storing.exists_record (hw : w.Storing) {k : AppKey} (hk : k.IsFiled)
    (hr : (w.recordAt k).isSome) {rs : List Record}
    (hlist : (w.answer (.records k.tenant)).1 = .ok rs) : ∃ r ∈ rs, r.name = k.name := by
  replace hlist :
      ((load k.tenant).bind (fun records => pure (Store.sorted records)) w).1 = .ok rs := hlist
  rw [Action.bind] at hlist
  obtain ⟨records, -, hp, hat, hl | ⟨-, e, hl⟩⟩ := hw.load_cases hk <;> rw [hl] at hlist
  · obtain ⟨r, hr⟩ := Option.isSome_iff_exists.1 hr
    have hmem := (Table.get?_eq_some_iff hp.nodup k.name r).1 (by rw [← hat]; exact hr)
    obtain rfl := Except.ok.inj hlist
    refine ⟨r, List.mem_map.2 ⟨(k.name, r), ?_, rfl⟩, hp.named _ hmem⟩
    rw [(List.mergeSort_perm _ _).mem_iff]
    exact (Store.perm_arranged records).mem_iff.2 hmem
  · cases hlist

end World

/-- Whether the store lists the tenant of an application when it has records: its name does not
start with a dot. -/
def AppKey.IsListed (k : AppKey) : Prop :=
  k.IsFiled ∧ k.tenant ≠ "" ∧ k.tenant.toList.head? ≠ some '.'

namespace World

variable {w : World}

theorem Storing.mem_tenants (hw : w.Storing) {k : AppKey} (hk : k.IsListed)
    (hr : (w.recordAt k).isSome) {ts : List String} (hlist : (w.answer .tenants).1 = .ok ts) :
    k.tenant ∈ ts := by
  replace hlist : Store.tenants w.disk w.broker.store = .ok ts := hlist
  unfold Store.tenants at hlist
  rw [Disk.isDirectory_self hw.has, Disk.list_self hw.has] at hlist
  obtain rfl := Except.ok.inj hlist
  rw [(List.mergeSort_perm _ _).mem_iff, List.mem_filterMap]
  refine ⟨k.tenant ++ Store.suffix, Disk.mem_names.2 fun hnone => ?_,
    tenantOf?_eq_some.2 ⟨rfl, ?_⟩⟩
  · obtain ⟨records, hh, hp⟩ := hw.holds k.tenant hk.1
    have hat := hw.recordAt_eq hk.1 hh hp k.name
    rcases hh with ⟨-, rfl⟩ | ⟨hfile, -⟩
    · rw [hat] at hr
      cases hr
    · rw [hnone] at hfile
      cases hfile
  · rw [String.toList_append]
    cases hcs : k.tenant.toList with
    | nil => exact absurd (String.toList_inj.1 hcs) hk.2.1
    | cons c cs => simpa [hcs] using hk.2.2

end World

end AppBroker
