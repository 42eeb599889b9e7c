import AppBroker.Proofs.Agreement
import AppBroker.Proofs.Reachable
import AppBroker.Proofs.RouteCalls

/-!
# Creations that fail

A creation that fails before its containers are started undoes itself: the records are those that
were there before, and what it gives up with is what it would give up with if it undid nothing,
whatever fails of the clean-up. If searches and removals succeed, the containers that it made are
gone, and no routes lead to them.

The proof follows the creation: an application is recorded (`Proposed`), containers are made that
are all its own (`Ventured`), and if one of them cannot be made they are found and swept away
(`Swept`, `Cleared`). What is relied on is that the store works and that the engine and the router
do not fail but by refusals. A router that fails in another way ends a creation in the middle of
its clean-up.
-/

namespace AppBroker

open Program Lifecycle

namespace Lifecycle

/-- Records an application that can be created, and gives the tags that it is composed of. -/
def propose (caller : Caller) (name framework : String) (services : List String) (scaling : Int) :
    Program (List Tag) := do
  if (← perform (.record caller.tenant name)).isSome then
    refuse (.applicationExists name caller.tenant)
  let composition ← perform (.compose caller.tenant framework services)
  let tags := composition.map (·.1)
  let createdAt ← perform .now
  perform (.addRecord caller.tenant { name, plugins := tags.map Tag.format, scaling, createdAt })
  return tags

/-- A creation that undoes nothing if it fails. -/
def createOutright (caller : Caller) (name framework : String) (services : List String)
    (scaling : Int) : Program (List Handle) := do
  checkCreate caller name framework scaling
  let tags ← propose caller name framework services scaling
  populate name caller.tenant tags scaling

theorem createHeld_eq (platform : PlatformSettings) (caller : Caller) (name framework : String)
    (services : List String) (scaling : Int) (start : Bool) :
    createHeld platform caller name framework services scaling start =
      (propose caller name framework services scaling).bind fun tags =>
        (populateOrUndo name caller.tenant tags scaling).bind fun handles =>
          if start then (startAll platform handles).bind fun _ => done (.ok handles)
          else done (.ok handles) := by
  unfold createHeld propose
  have hbind {α β : Type} (p : Program α) (f : α → Program β) : p >>= f = p.bind f := rfl
  simp only [hbind, bind_assoc]
  congr 1
  funext found
  cases found.isSome
  · simp only [Bool.false_eq_true, if_false, bind_assoc]
    rfl
  · simp only [if_true, bind_assoc]
    rfl

/-- A creation that fails when nothing is to be started fails alike when something is. -/
theorem run_createHeld_of_failed {platform : PlatformSettings} {caller : Caller}
    {name framework : String} {services : List String} {scaling : Int} {w w' : World} {e : Failure}
    (h : (createHeld platform caller name framework services scaling false).run w = (.error e, w'))
    (start : Bool) :
    (createHeld platform caller name framework services scaling start).run w = (.error e, w') := by
  rw [createHeld_eq, run_bind] at h ⊢
  cases hpropose : (propose caller name framework services scaling).run w with
  | mk r w₁ =>
  rw [hpropose] at h
  cases r with
  | error f => exact h
  | ok tags =>
    dsimp only at h ⊢
    rw [run_bind] at h ⊢
    cases hpopulate : (populateOrUndo name caller.tenant tags scaling).run w₁ with
    | mk r w₂ =>
    rw [hpopulate] at h
    cases r with
    | error f => exact h
    | ok handles => cases h

end Lifecycle

/-! ## What a creation rests on -/

/-- Whether a call goes to the store. -/
def Call.isStoring : Call → Bool
  | .record .. | .records _ | .tenants | .addRecord .. | .replaceRecord .. | .removeRecord .. =>
    true
  | _ => false

/-- Whether a call looks for containers or removes one. -/
def Call.isClearing : Call → Bool
  | .find .. | .destroy _ => true
  | _ => false

/-- Whether a call does not fail if it goes to the store, and fails by a refusal if it goes to the
engine or to the router. -/
def World.endures (w : World) (c : Call) : Bool :=
  match (w.answer c).1 with
  | .ok _ => true
  | .error (.refusal _) => !c.isStoring
  | .error (.breakage _) => !c.isRemote

/-- Whether a call succeeds if it clears up. -/
def World.clears (w : World) (c : Call) : Bool := !c.isClearing || (w.answer c).1.isOk

namespace World

/-- At most a container has gone, with all else as it was. -/
structure Lessened (id : String) (w w' : World) : Prop where
  records : ∀ k, w'.recordAt k = w.recordAt k
  made : w'.engine.made = w.engine.made
  routed : ∀ other, w'.Routed other ↔ w.Routed other
  containers : ∀ c ∈ w'.engine.containers, c ∈ w.engine.containers

variable {w : World} {h : Handle}

theorem lessened_destroy (ht : w.engine.Truthful) : Lessened h.id w (w.answer (.destroy h)).2 := by
  rcases w.answer_destroy h ht.1 with ⟨⟨_, _, _, hq⟩, -⟩ | ⟨-, _, _, _, hb⟩
  · rw [hq]
    exact ⟨fun _ => rfl, rfl, fun _ => .rfl, fun _ hc => hc⟩
  · rw [hb]
    exact ⟨fun _ => rfl, rfl, fun _ => .rfl, fun _ hc => (List.mem_filter.1 hc).1⟩

/-- A container that was removed is gone, and one that the engine took for removed was so. -/
theorem gone_of_destroy (ht : w.engine.Truthful) (h' : (w.answer (.destroy h)).1 = .ok ()) :
    ∀ c ∈ (w.answer (.destroy h)).2.engine.containers, c.id ≠ h.id := by
  rcases w.answer_destroy h ht.1 with ⟨⟨_, _, _, hq⟩, hgone⟩ | ⟨-, _, _, _, hb⟩
  · rw [hq]
    simpa using List.find?_eq_none.1 (hgone ht h')
  · rw [hb]
    exact fun c hc => by simpa using (List.mem_filter.1 hc).2

end World

/-- The terms of a program that works alone from a world on, starting nothing: while it holds an
application, nothing changes but by its own calls. It may be known that they clear up. -/
def undisturbed (v : World) (lenient : Bool) (clean : Prop) (k : AppKey) : Terms where
  sound w := w.Dependable lenient ∧ v.Unpublished w
  rely k' w w' := k' = k → w' = w
  allows c w := w.endures c = true ∧ (clean → w.clears c = true)
  rely_refl _ _ _ := rfl
  rely_trans _ _ _ _ := unchanged_trans

namespace Undoing

variable {lenient : Bool} {clean : Prop} {k : AppKey} {v w w₀ w₁ : World}

section Rules

variable {α : Type} {Q : Outcome α → World → Prop}

theorem meets_done {r : Outcome α} (h : Q r w) :
    (Program.done r).Meets (undisturbed v lenient clean k) k Q w :=
  .done fun _ _ hr => hr rfl ▸ h

theorem meets_call {c : Call} {Q : Outcome c.Value → World → Prop} (hc : c.Fits)
    (hp : c.isPreparing = true)
    (h : w.Dependable lenient → w.endures c = true → (clean → w.clears c = true) →
      Q (w.answer c).1 (w.answer c).2) :
    (perform c).Meets (undisturbed v lenient clean k) k Q w := by
  refine .perform fun w' hs hr ha => ?_
  obtain rfl := hr rfl
  exact ⟨⟨hs.1.answer hc, hs.2.trans (World.unpublished_answer hp w')⟩,
    fun k' hne he => absurd he hne, fun w'' _ hr' => hr' rfl ▸ h hs.1 ha.1 ha.2⟩

/-- A program that works alone ends as it does when it is run. -/
theorem meets_exactly {p : Program α} (h : p.Meets (undisturbed v lenient clean k) k Q w) :
    p.Meets (undisturbed v lenient clean k) k (fun r w' => p.run w = (r, w') ∧ Q r w') w := by
  induction p generalizing w with
  | done r =>
    intro w' hs hr
    obtain rfl := hr rfl
    exact ⟨rfl, h _ hs fun _ => rfl⟩
  | call c next ih =>
    intro w' hs hr ha
    obtain rfl := hr rfl
    obtain ⟨hs', hothers, hnext⟩ := h _ hs (fun _ => rfl) ha
    exact ⟨hs', hothers, ih _ hnext⟩
  | lock key next => exact h
  | unlock key next => exact h

end Rules

theorem ok_of_endures {c : Call} (hc : c.isStoring = true) (hr : c.isRemote = true)
    (h : w.endures c = true) : ∃ a, (w.answer c).1 = .ok a := by
  unfold World.endures at h
  split at h
  · exact ⟨_, by assumption⟩
  · simp [hc] at h
  · simp [hr] at h

theorem refused_of_endures {c : Call} {e : Failure} (hr : c.isRemote = true)
    (h : w.endures c = true) (he : (w.answer c).1 = .error e) : ∃ r, e = .refusal r := by
  unfold World.endures at h
  rw [he] at h
  cases e with
  | refusal r => exact ⟨r, rfl⟩
  | breakage b => simp [hr] at h

theorem ok_of_clears {c : Call} (hc : c.isClearing = true) (h : w.clears c = true) {e : Failure} :
    (w.answer c).1 ≠ .error e := by
  intro he
  simp [World.clears, hc, he, Except.isOk, Except.toBool] at h

/-! ## Making containers -/

/-- What has come about while containers of an application were made: nothing is recorded anew, and
every new container is the application's. -/
structure Ventured (k : AppKey) (w₀ w : World) : Prop where
  made_le : w₀.engine.made ≤ w.engine.made
  records : ∀ k' : AppKey, w.recordAt k' = w₀.recordAt k'
  containers : ∀ c ∈ w.engine.containers, c ∈ w₀.engine.containers ∨ c.BelongsTo k
  there : ∀ n, w₀.engine.made < n → n ≤ w.engine.made →
    ∃ c ∈ w.engine.containers, c.number = n ∧ c.BelongsTo k

theorem Ventured.refl (k : AppKey) (w : World) : Ventured k w w :=
  ⟨Nat.le_refl _, fun _ => rfl, fun _ hc => .inl hc, fun n h h' => by omega⟩

theorem Ventured.create (h : Ventured k w₀ w)
    (hn : Engine.Numbered w.engine.containers w.engine.made) (tag : Tag) :
    Ventured k w₀ (w.answer (.create k.name k.tenant tag)).2 := by
  rcases w.lineup_create (k := k) hn tag with ⟨-, hq⟩ | ⟨-, ⟨w', hb, hw'⟩, -⟩
  · obtain ⟨_, _, _, hq⟩ := hq
    rw [hq]
    exact ⟨h.made_le, h.records, h.containers, h.there⟩
  · rw [hw']
    obtain ⟨_, _, _, rfl⟩ := hb
    have hmade := h.made_le
    refine ⟨Nat.le_succ_of_le hmade, h.records, fun c hc => ?_, fun n hlt hle => ?_⟩
    · rcases List.mem_append.1 hc with hc | hc
      · exact h.containers c hc
      · rw [List.mem_singleton.1 hc]
        exact .inr (w.newcomer_belongsTo k tag)
    · rcases Nat.lt_or_ge w.engine.made n with hnew | hold
      · refine ⟨w.newcomer k.name k.tenant tag, List.mem_append.2 (.inr (by simp)), ?_,
          w.newcomer_belongsTo k tag⟩
        exact Nat.le_antisymm hnew hle
      · obtain ⟨c, hc, hrest⟩ := h.there n hlt hold
        exact ⟨c, List.mem_append.2 (.inl hc), hrest⟩

theorem meets_createAll (h : Ventured k w₀ w) (tags : List Tag) :
    (createAll k.name k.tenant tags).Meets (undisturbed v lenient clean k) k
      (ends (fun _ => Ventured k w₀) (unlessRefused (fun _ => Ventured k w₀) fun _ _ => False))
      w := by
  refine Meets.forEach (fun _ _ => Ventured k w₀) (fun _ _ tag _ w' _ h' => ?_) [] []
    fun w' _ hr => hr rfl ▸ h
  refine meets_call trivial rfl fun hw hendures _ => ?_
  have hnext := h'.create hw.numbered tag
  cases ha : (w'.answer (.create k.name k.tenant tag)).1 with
  | ok handle => exact hnext
  | error e =>
    obtain ⟨r, rfl⟩ := refused_of_endures rfl hendures ha
    exact hnext

theorem meets_populate (h : Ventured k w₀ w) (tags : List Tag) (scaling : Int) :
    (populate k.name k.tenant tags scaling).Meets (undisturbed v lenient clean k) k
      (ends (fun _ => Ventured k w₀) (unlessRefused (fun _ => Ventured k w₀) fun _ _ => False))
      w := by
  refine .bind ((meets_createAll h _).weaken fun r w' _ h' => ?_)
  cases r with
  | error e => exact h'
  | ok made =>
    refine .bind ((meets_createAll h' _).weaken fun r w'' _ h'' => ?_)
    cases r with
    | error e => exact h''
    | ok more => exact meets_done h''

/-! ## Clearing up -/

/-- What is left of a world while containers are swept away and some of them still are to be. -/
structure Swept (clean : Prop) (k : AppKey) (w₁ : World) (hs rest : List Handle) (w : World) :
    Prop where
  records : ∀ k' : AppKey, w.recordAt k' = w₁.recordAt k'
  made : w.engine.made = w₁.engine.made
  old : clean → ∀ c ∈ w.engine.containers, c ∈ w₁.engine.containers
  left : clean → ∀ c ∈ w.engine.containers, c.BelongsTo k → c.id ∈ rest.map Handle.id
  unrouted : ∀ id ∈ hs.map Handle.id, id ∈ rest.map Handle.id ∨ ¬ w.Routed id

theorem meets_retract (w : World) (h : Handle) :
    (retract h).Meets (undisturbed v lenient clean k) k
      (ends (fun _ w' => w'.engine = w.engine ∧ (∀ k, w'.recordAt k = w.recordAt k) ∧
        ∀ other, w'.Routed other → other ≠ h.id ∧ w.Routed other) fun _ _ => False) w := by
  refine .bind (.attempt (meets_call rfl rfl fun _ hendures _ => ?_))
  obtain ⟨hengine, hrecords, hrouted, hrefused⟩ := w.answer_retract h.id
  cases ha : (w.answer (.route (.retract h.id))).1 with
  | ok u => exact meets_done ⟨hengine, hrecords, hrouted⟩
  | error e =>
    obtain ⟨r, rfl⟩ := refused_of_endures rfl hendures ha
    show Meets _ _ (if r.isRouting then _ else _) _ _
    rw [if_pos (hrefused r ha)]
    exact meets_call rfl rfl fun _ _ _ => ⟨hengine, hrecords, hrouted⟩

/-- Once a container is retracted and removed, it is no longer to be swept away. -/
theorem Swept.step {hs rest : List Handle} {h : Handle} {w₂ w₃ : World}
    (hw : Swept clean k w₁ hs (h :: rest) w)
    (hretracted : w₂.engine = w.engine ∧ (∀ k', w₂.recordAt k' = w.recordAt k') ∧
      ∀ id, w₂.Routed id → id ≠ h.id ∧ w.Routed id)
    (hremoved : w₂.Lessened h.id w₃)
    (hgone : clean → ∀ c ∈ w₃.engine.containers, c.id ≠ h.id) : Swept clean k w₁ hs rest w₃ := by
  obtain ⟨hengine, hrecords, hrouted⟩ := hretracted
  have hsub (c : Container) (hc : c ∈ w₃.engine.containers) : c ∈ w.engine.containers :=
    hengine ▸ hremoved.containers c hc
  refine ⟨fun k' => ?_, ?_, fun hclean c hc => hw.old hclean c (hsub c hc),
    fun hclean c hc hk => ?_, fun id hid => ?_⟩
  · rw [hremoved.records, hrecords, hw.records]
  · rw [hremoved.made, hengine, hw.made]
  · exact (List.mem_cons.1 (hw.left hclean c (hsub c hc) hk)).resolve_left (hgone hclean c hc)
  · rw [hremoved.routed]
    by_cases hroute : w₂.Routed id
    · obtain ⟨hne, hbefore⟩ := hrouted id hroute
      have hin := (hw.unrouted id hid).resolve_right (not_not_intro hbefore)
      exact .inl ((List.mem_cons.1 hin).resolve_left hne)
    · exact .inr hroute

theorem meets_destroyOne {hs rest : List Handle} {h : Handle}
    (hw : Swept clean k w₁ hs (h :: rest) w) :
    (destroyOne h).Meets (undisturbed v lenient clean k) k
      (ends (fun _ => Swept clean k w₁ hs rest)
        (unlessRefused (fun _ w' => True ∧ Swept clean k w₁ hs rest w') fun _ _ => False)) w := by
  refine .bind ((meets_retract w h).weaken fun r w₂ _ h₂ => ?_)
  cases r with
  | error e => exact h₂.elim
  | ok u =>
  refine meets_call trivial rfl fun hw₂ hendures hclears => ?_
  have hlessened := World.lessened_destroy (h := h) hw₂.truthful
  cases ha : (w₂.answer (.destroy h)).1 with
  | ok u => exact hw.step h₂ hlessened fun _ => World.gone_of_destroy hw₂.truthful ha
  | error e =>
    obtain ⟨r, rfl⟩ := refused_of_endures rfl hendures ha
    exact ⟨trivial, hw.step h₂ hlessened fun hclean => absurd ha (ok_of_clears rfl (hclears hclean))⟩

/-- What is left of a world when an application's containers are cleared away, if that was done. -/
structure Cleared (clean : Prop) (k : AppKey) (records : AppKey → Option Record) (w₁ w : World) :
    Prop where
  records : ∀ k' : AppKey, k'.IsFiled → w.recordAt k' = records k'
  made : w.engine.made = w₁.engine.made
  containers : clean → ∀ c ∈ w.engine.containers, c ∈ w₁.engine.containers ∧ ¬ c.BelongsTo k
  unrouted : clean → ∀ c ∈ w₁.engine.containers, c.BelongsTo k → ¬ w.Routed c.id

theorem meets_sweepStrictly {hs : List Handle}
    (hall : clean → ∀ c ∈ w.engine.containers, c.BelongsTo k → c.id ∈ hs.map Handle.id) :
    (sweepStrictly destroyOne hs).Meets (undisturbed v lenient clean k) k
      (ends (fun _ => Cleared clean k w.recordAt w)
        (unlessRefused (fun _ => Cleared clean k w.recordAt w) fun _ _ => False)) w := by
  have hsweep : (sweep destroyOne hs).Meets (undisturbed v lenient clean k) k
      (ends (fun failure w' => (∀ f, failure = some f → True) ∧ Swept clean k w hs [] w')
        fun _ _ => False) w := by
    refine .sweep_noting (fun severity text rest w' _ h' => ?_) (fun _ _ _ _ hr h' => hr rfl ▸ h')
      (fun h rest w' _ h' => meets_destroyOne h') ?_
    · exact meets_call rfl rfl fun _ _ _ => ⟨h'.records, h'.made, h'.old, h'.left, h'.unrouted⟩
    · exact ⟨fun _ => rfl, rfl, fun _ _ hc => hc, hall, fun _ hid => .inl hid⟩
  refine .bind (hsweep.weaken fun r w' _ h' => ?_)
  cases r with
  | error e => exact h'.elim
  | ok failure =>
    have hcleared : Cleared clean k w.recordAt w w' := by
      obtain ⟨-, hrecords, hmade, hold, hleft, hunrouted⟩ := h'
      refine ⟨fun k' _ => hrecords k', hmade, fun hclean c hc => ⟨hold hclean c hc, fun hk => ?_⟩,
        fun hclean c hc hk => ?_⟩
      · exact absurd (hleft hclean c hc hk) (by simp)
      · exact (hunrouted _ (hall hclean c hc hk)).resolve_left (by simp)
    cases failure <;> exact meets_done hcleared

/-- A search finds all containers of an application. -/
theorem found_of_find {hs : List Handle} (h : (w.answer (.find k.name k.tenant none)).1 = .ok hs) :
    ∀ c ∈ w.engine.containers, c.BelongsTo k → c.id ∈ hs.map Handle.id := by
  intro c hc hk
  obtain ⟨all, hall, rfl⟩ := (w.answer_find k.name k.tenant none).2 hs h
  have hmem : c ∈ w.engine.containers.reverse.filter fun c =>
      (World.filters k.name k.tenant none).all (c.hasLabel w.engine.lenient) := by
    refine List.mem_filter.2 ⟨List.mem_reverse.2 hc, ?_⟩
    simp [World.filters, Container.hasLabel, hk.1, hk.2]
  obtain ⟨handle, hhandle, hof⟩ := exists_of_mem_right (Runtime.forall₂_handlesOf hall).flip hmem
  refine List.mem_map.2 ⟨handle, ?_, (Runtime.readFrom_of_handleOf hof).id⟩
  simpa using hhandle

theorem Cleared.of_quiet {w' : World} (h : Cleared clean k w.recordAt w w') (hq : w₁.Quiet w) :
    Cleared clean k w₁.recordAt w₁ w' := by
  obtain ⟨_, _, _, rfl⟩ := hq
  exact ⟨h.records, h.made, h.containers, h.unrouted⟩

/-- The containers of an application are found and swept away, as far as that goes. -/
theorem meets_sweepFound (w : World) (k : AppKey) :
    (attempt (perform (.find k.name k.tenant none) >>= sweepStrictly destroyOne)).Meets
      (undisturbed v lenient clean k) k
      (ends (fun _ => Cleared clean k w.recordAt w) fun _ _ => False) w := by
  refine .attempt (.bind (meets_call rfl rfl fun _ hendures hclears => ?_))
  have hquiet := (w.answer_find k.name k.tenant none).1
  cases ha : (w.answer (.find k.name k.tenant none)).1 with
  | error e =>
    obtain ⟨r, rfl⟩ := refused_of_endures rfl hendures ha
    have hnot : ¬ clean := fun hclean => ok_of_clears rfl (hclears hclean) ha
    obtain ⟨_, _, _, hquiet⟩ := hquiet
    rw [hquiet]
    exact ⟨fun _ _ => rfl, rfl, fun hclean => absurd hclean hnot, fun hclean => absurd hclean hnot⟩
  | ok hs =>
    refine Meets.weaken (meets_sweepStrictly (w := (w.answer (.find k.name k.tenant none)).2) ?_)
      fun r w' _ h' => ?_
    · rw [hquiet.containers]
      exact fun _ => found_of_find ha
    · rcases r with (r | b) | u
      · exact h'.of_quiet hquiet
      · exact h'.elim
      · exact h'.of_quiet hquiet

/-- A creation that failed is undone, whatever fails of that. -/
theorem meets_rollBack (hk : k.IsFiled) :
    (rollBack k.name k.tenant).Meets (undisturbed v lenient clean k) k
      (ends (fun _ => Cleared clean k (fun k' => if k' = k then none else w.recordAt k') w)
        fun _ _ => False) w := by
  have hremove {w' : World} (h' : Cleared clean k w.recordAt w w') :
      (perform (.removeRecord k.tenant k.name)).Meets (undisturbed v lenient clean k) k
        (ends (fun _ => Cleared clean k (fun k' => if k' = k then none else w.recordAt k') w)
          fun _ _ => False) w' := by
    refine meets_call hk rfl fun hw hendures _ => ?_
    obtain ⟨u, hok⟩ := ok_of_endures rfl rfl hendures
    rcases World.answer_removeRecord hw.storing hk k.name with ⟨e, he⟩ |
      ⟨w₂, he, ⟨data, hwrote⟩, -, hrecords⟩
    · rw [he] at hok
      cases hok
    · rw [he]
      refine ⟨fun k' hk' => ?_, ?_, ?_, ?_⟩
      · rw [hrecords k' hk', h'.records k' hk']
      · rw [hwrote]
        exact h'.made
      · rw [hwrote]
        exact h'.containers
      · rw [hwrote]
        exact h'.unrouted
  refine .surely (meets_sweepFound w k) fun cleaned w' _ h' => ?_
  rcases cleaned with r | u
  · refine .surely (P := fun _ => Cleared clean k w.recordAt w) (meets_call rfl rfl fun _ _ _ => ?_)
      fun _ w₂ _ h₂ => hremove h₂
    exact ⟨h'.records, h'.made, h'.containers, h'.unrouted⟩
  · exact hremove h'

/-! ## The whole creation -/

/-- What has come about when an application is recorded that was not there before. -/
structure Proposed (k : AppKey) (w w' : World) : Prop where
  records : ∀ k' : AppKey, k'.IsFiled →
    (if k' = k then none else w'.recordAt k') = w.recordAt k'
  containers : w'.engine.containers = w.engine.containers
  made : w'.engine.made = w.engine.made

theorem Proposed.of_clock {w' : World} {clock : Clock}
    (h : Proposed k { w with clock := clock } w') : Proposed k w w' :=
  ⟨h.records, h.containers, h.made⟩

/-- What a creation that failed leaves: the records that were there before and, if all was cleared
up, neither a container that it made nor a route to one. -/
structure Undone (clean : Prop) (w w' : World) : Prop where
  records : ∀ k : AppKey, k.IsFiled → w'.recordAt k = w.recordAt k
  containers : clean → ∀ c ∈ w'.engine.containers, c.number ≤ w.engine.made
  unrouted : clean → ∀ n, w.engine.made < n → n ≤ w'.engine.made →
    ¬ w'.Routed (Engine.idOf n)

theorem undone_of_unchanged {w' : World} (hn : Engine.Numbered w.engine.containers w.engine.made)
    (hrecords : ∀ k, w'.recordAt k = w.recordAt k) (hengine : w'.engine = w.engine) :
    Undone clean w w' where
  records k _ := hrecords k
  containers _ c hc := hn.le_made c (hengine ▸ hc)
  unrouted _ n hlt hle := by
    rw [hengine] at hle
    omega

/-- What was tried after an application was recorded is undone when it is cleared away. -/
theorem undone_of_cleared {w₂ w₃ : World} (hn : Engine.Numbered w.engine.containers w.engine.made)
    (hn₂ : Engine.Numbered w₂.engine.containers w₂.engine.made) (h₁ : Proposed k w w₁)
    (h₂ : Ventured k w₁ w₂)
    (h₃ : Cleared clean k (fun k' => if k' = k then none else w₂.recordAt k') w₂ w₃) :
    Undone clean w w₃ where
  records k' hk' := by
    rw [h₃.records k' hk', h₂.records, h₁.records k' hk']
  containers hclean c hc := by
    obtain ⟨hc, hnot⟩ := h₃.containers hclean c hc
    have hold := (h₂.containers c hc).resolve_right hnot
    rw [h₁.containers] at hold
    exact hn.le_made c hold
  unrouted hclean n hlt hle := by
    rw [← h₁.made] at hlt
    rw [h₃.made] at hle
    obtain ⟨c, hc, rfl, hk⟩ := h₂.there n hlt hle
    rw [← hn₂.id_eq c hc]
    exact h₃.unrouted hclean c hc hk

/-- An application that is not recorded is recorded, when the store is asked to. -/
theorem meets_recorded {tenant : String} {record : Record} {tags : List Tag}
    (ht : '/' ∉ tenant.toList) (hfit : Store.Fit record)
    (hnone : w.recordAt ⟨tenant, record.name⟩ = none) :
    ((perform (.addRecord tenant record)).bind fun _ => done (.ok tags)).Meets
      (undisturbed v lenient clean ⟨tenant, record.name⟩) ⟨tenant, record.name⟩
      (ends (fun _ => Proposed ⟨tenant, record.name⟩ w) fun _ _ => False) w := by
  refine .bind (meets_call (And.intro ht hfit) rfl fun hw hendures _ => ?_)
  obtain ⟨u, hok⟩ := ok_of_endures rfl rfl hendures
  rcases World.answer_addRecord hw.storing ht hfit with ⟨e, ha⟩ | ⟨w', ha, ⟨data, hwrote⟩, -, -,
    hrecords⟩
  · rw [ha] at hok
    cases hok
  rw [ha]
  refine meets_done ⟨fun k' hk' => ?_, by rw [hwrote], by rw [hwrote]⟩
  rw [hrecords k' hk']
  split
  · rename_i hsame
    rw [hsame, hnone]
  · rfl

theorem meets_propose {caller : Caller} {name framework : String} {services : List String}
    {scaling : Int} (hscaling : 1 ≤ scaling) (ht : '/' ∉ caller.tenant.toList)
    (hn : Engine.Numbered w.engine.containers w.engine.made) :
    (propose caller name framework services scaling).Meets (undisturbed v lenient clean
      (caller.key name)) (caller.key name)
      (ends (fun _ => Proposed (caller.key name) w) fun _ => Undone clean w) w := by
  refine .bind (meets_call ht rfl fun hw hendures _ => ?_)
  obtain ⟨found, hok⟩ := ok_of_endures rfl rfl hendures
  rcases World.answer_record hw.storing ht name with ha | ⟨e, ha⟩
  swap
  · rw [ha] at hok
    cases hok
  rw [ha]
  show Meets _ _ (if (w.recordAt ⟨caller.tenant, name⟩).isSome then _ else _) _ _
  split
  · exact meets_done (undone_of_unchanged hn (fun _ => rfl) rfl)
  rename_i hnone
  refine .bind (meets_call (c := .compose ..) rfl rfl fun _ _ _ => ?_)
  cases (w.answer (.compose caller.tenant framework services)).1 with
  | error e => exact undone_of_unchanged hn (fun _ => rfl) rfl
  | ok composition =>
  refine .bind (meets_call (c := .now) rfl rfl fun hw₁ _ _ => ?_)
  let record : Record := { name, plugins := (composition.map (·.1)).map Tag.format, scaling,
                           createdAt := w.clock.moment }
  have hfit : Store.Fit record := ⟨hscaling, hw₁.storing.real⟩
  have hlater (clock : Clock) : World.recordAt { w with clock := clock } ⟨caller.tenant, name⟩ =
      w.recordAt ⟨caller.tenant, name⟩ := rfl
  have habsent := (hlater w.clock.afterNow).trans (Option.not_isSome_iff_eq_none.1 hnone)
  refine Meets.weaken (meets_recorded ht hfit habsent) fun r w₂ _ h₂ => ?_
  cases r with
  | error e => exact h₂.elim
  | ok tags => exact h₂.of_clock

theorem meets_populateOrUndo (hk : k.IsFiled) (h : Proposed k w₀ w)
    (hn : Engine.Numbered w₀.engine.containers w₀.engine.made) (tags : List Tag) (scaling : Int) :
    (populateOrUndo k.name k.tenant tags scaling).Meets (undisturbed v lenient clean k) k
      (ends (fun _ _ => True) fun e w' =>
        ((populate k.name k.tenant tags scaling).run w).1 = .error e ∧ Undone clean w₀ w') w := by
  refine .bind (.attempt ((meets_exactly (meets_populate (.refl k w) tags scaling)).weaken
    fun r w₁ _ h₁ => ?_))
  obtain ⟨hrun, h₁⟩ := h₁
  rcases r with (r | b) | handles
  · refine .surely (P := fun _ => Ventured k w) (meets_call rfl rfl fun _ _ _ => ?_)
      fun _ w₂ hs₂ h₂ => .surely (meets_rollBack hk) fun _ w₃ _ h₃ => meets_done ?_
    · exact ⟨h₁.made_le, h₁.records, h₁.containers, h₁.there⟩
    · exact ⟨by rw [hrun], undone_of_cleared hn hs₂.1.numbered h h₂ h₃⟩
  · exact h₁.elim
  · exact meets_done trivial

/-- What a creation gives up with is what it would give up with if it undid nothing. -/
theorem meets_createHeld {platform : PlatformSettings} {caller : Caller} {name framework : String}
    {services : List String} {scaling : Int} (hscaling : 1 ≤ scaling)
    (ht : '/' ∉ caller.tenant.toList)
    (hn : Engine.Numbered w.engine.containers w.engine.made) :
    (createHeld platform caller name framework services scaling false).Meets
      (undisturbed v lenient clean (caller.key name)) (caller.key name)
      (ends (fun _ _ => True) fun e w' =>
        (((propose caller name framework services scaling).bind fun tags =>
          populate name caller.tenant tags scaling).run w).1 = .error e ∧ Undone clean w w') w := by
  rw [createHeld_eq]
  refine .bind ((meets_exactly (meets_propose hscaling ht hn)).weaken fun r w₁ _ h₁ => ?_)
  obtain ⟨hrun, h₁⟩ := h₁
  cases r with
  | error e => exact ⟨by rw [run_bind, hrun], h₁⟩
  | ok tags =>
    refine .bind (Meets.weaken (meets_populateOrUndo (k := caller.key name) ht h₁ hn tags scaling)
      fun r w₂ _ h₂ => ?_)
    cases r with
    | error e =>
      refine ⟨?_, h₂.2⟩
      rw [run_bind, hrun]
      exact h₂.1
    | ok handles => exact meets_done trivial

end Undoing

/-- In every world that is reached, a creation that fails before anything is started leaves the
records as they were and asks for no route, and it fails with what went wrong first, whether or not
something was to be started. Its containers are gone with all their routes, if searches for
containers and removals of them succeed. -/
theorem failed_creation_is_undone (platform : PlatformSettings) (caller : Caller)
    (name framework : String) (services : List String) (scaling : Int) (start : Bool) (w : World)
    (e : Failure) (hreached : w.Reachable platform) (ht : '/' ∉ caller.tenant.toList)
    (hcalls : (create platform caller name framework services scaling false).Along
      (fun c w => w.endures c = true) w)
    (hfails : ((create platform caller name framework services scaling false).run w).1 = .error e) :
    let w' := ((create platform caller name framework services scaling false).run w).2
    (create platform caller name framework services scaling start).run w = (.error e, w') ∧
      ((createOutright caller name framework services scaling).run w).1 = .error e ∧
      (∀ k : AppKey, k.IsFiled → w'.recordAt k = w.recordAt k) ∧
      w.Unpublished w' ∧
      ((create platform caller name framework services scaling false).Along
          (fun c w => w.clears c = true) w →
        (∀ c ∈ w'.engine.containers, c.number ≤ w.engine.made) ∧
          ∀ n, w.engine.made < n → n ≤ w'.engine.made → ¬ w'.Routed (Engine.idOf n)) := by
  intro w'
  have hw := hreached.dependable
  have hcreate (start : Bool) : create platform caller name framework services scaling start =
      (Program.done (checkCreate caller name framework scaling)).bind fun _ =>
        holding (caller.key name)
          (createHeld platform caller name framework services scaling start) := rfl
  have houtright : createOutright caller name framework services scaling =
      (Program.done (checkCreate caller name framework scaling)).bind fun _ =>
        (propose caller name framework services scaling).bind fun tags =>
          populate name caller.tenant tags scaling := rfl
  simp only [hcreate, houtright, w'] at hcalls hfails ⊢
  cases hcheck : checkCreate caller name framework scaling with
  | error r =>
    rw [hcheck] at hfails
    obtain rfl : r = e := Except.error.inj hfails
    refine ⟨rfl, rfl, fun _ _ => rfl, .refl w, fun _ => ⟨hw.numbered.le_made, fun n hlt hle => ?_⟩⟩
    exact absurd hle (Nat.not_le.2 hlt)
  | ok u =>
    obtain ⟨-, -, hscaling, -⟩ := Request.checkCreate_eq_ok hcheck
    rw [hcheck] at hcalls hfails
    have hheld (start : Bool) : ((Program.done (.ok u)).bind fun _ => holding (caller.key name)
          (createHeld platform caller name framework services scaling start)).run w =
        (createHeld platform caller name framework services scaling start).run w :=
      run_holding _ _ w
    simp only [hheld] at hfails ⊢
    have halong := along_and_of (R := fun c w => w.clears c = true) (along_holding.1 hcalls) id
    obtain ⟨⟨-, hunpublished⟩, -, hends⟩ :=
      (Undoing.meets_createHeld hscaling ht hw.numbered).run _ ⟨hw, .refl w⟩ halong
    rw [hfails] at hends
    obtain ⟨herror, hrecords, hcontainers, hunrouted⟩ := hends
    refine ⟨run_createHeld_of_failed (Prod.ext hfails rfl) start, herror, hrecords, hunpublished,
      fun hclears => ?_⟩
    have hclean := along_holding.1 hclears
    exact ⟨hcontainers hclean, hunrouted hclean⟩

theorem Agreement.isNew_world : (Agreement.world false).IsNew where
  containers := rfl
  truthful := ⟨fun _ _ _ h => (by cases h), fun _ _ _ h => by cases h⟩
  has := Agreement.has_disk
  bare tenant _ := Agreement.entry?_disk tenant
  faithful := Yaml.Codec.faithful_careful
  real := ⟨by decide, by decide, by decide, by decide, by decide, by decide⟩

/-! ## A creation that the engine has no room for -/

namespace FailedCreation

/-- An engine that has room for one container, next to an empty store. -/
noncomputable def world (router : Router) : World :=
  { Agreement.world false with engine.limit := some 1, broker.router := router }

/-- A creation that needs two containers. -/
def request (start : Bool) : Program (List Handle) :=
  create {} ⟨"alice", "alice"⟩ "web" "python" [] 2 start

/-- How the engine refuses the second one. -/
def noRoom : Failure :=
  .refusal (.engine { operation := "create", message := "quota exceeded", app := some "web" })

theorem isNew_world (router : Router) : (world router).IsNew := { Agreement.isNew_world with }

theorem creation_without_room_is_undone :
    let w := world (.memory [])
    let w' := ((request false).run w).2
    (request true).run w = (.error noRoom, w') ∧
      ((createOutright ⟨"alice", "alice"⟩ "web" "python" [] 2).run w).1 = .error noRoom ∧
      (∀ k : AppKey, k.IsFiled → w'.recordAt k = w.recordAt k) ∧
      w.Unpublished w' ∧
      ((request false).Along (fun c w => w.clears c = true) w →
        (∀ c ∈ w'.engine.containers, c.number ≤ w.engine.made) ∧
          ∀ n, w.engine.made < n → n ≤ w'.engine.made → ¬ w'.Routed (Engine.idOf n)) := by
  have hran : (request false).Along (fun c w => w.endures c = true) (world (.memory [])) ∧
      ((request false).run (world (.memory []))).1 = .error noRoom := by decide +kernel
  exact failed_creation_is_undone {} ⟨"alice", "alice"⟩ "web" "python" [] 2 true
    (world (.memory [])) noRoom (.new (isNew_world _)) (by decide) hran.1 hran.2

/-- The address of a routing service may be one that no request can be sent to. Then dropping the
routes of a container is no refusal: the creation gives up with that, and its record and its
container stay. -/
theorem unusable_router_leaves_record :
    let w := world (.service "http://::1" none)
    let w' := ((request false).run w).2
    w.Reachable {} ∧ Router.ofUrl "http://[::1]" = .ok w.broker.router ∧
      (request false).Along (fun c w => (c.isStoring || c.isClearing) = true →
        (w.answer c).1.isOk = true) w ∧
      ((createOutright ⟨"alice", "alice"⟩ "web" "python" [] 2).run w).1 = .error noRoom ∧
      ((request false).run w).1 = .error (.breakage .refusedUrl) ∧
      w.recordAt ⟨"alice", "web"⟩ = none ∧ (w'.recordAt ⟨"alice", "web"⟩).isSome = true ∧
      w'.engine.containers.map Container.id = ["c0001"] := by
  refine ⟨.new (isNew_world _), ?_⟩
  decide +kernel

end FailedCreation

end AppBroker
