import AppBroker.Proofs.Handling
import AppBroker.Proofs.Lineup

/-!
# Custody of an application

An operation that holds an application finds the application's containers or makes them, or starts
some that it is given; it drives, retracts and removes these and no others, and writes the
application's record. If each of these parts
keeps to the terms on which applications share the world, so does every turn of a request
(`Custody.turn`), whatever answers it gets: this is proved once, for any terms.
-/

namespace AppBroker

open Program Lifecycle

/-- Whether what is known of a handle stays so, whoever does something on the terms. -/
def Terms.Upholds (t : Terms) (H : Handle → World → Prop) : Prop :=
  ∀ h k' w w', t.sound w' → t.rely k' w w' → H h w → H h w'

namespace Program

variable {α β : Type} {t : Terms} {k : AppKey} {w : World}

/-- Whether a program keeps to the terms and, unless it fails, gives what is promised. -/
def Yields (t : Terms) (k : AppKey) (p : Program α) (P : α → World → Prop) (w : World) : Prop :=
  p.Meets t k (ends P fun _ _ => True) w

theorem Meets.yields {p : Program α} (h : p.Meets t k (fun _ _ => True) w) :
    p.Yields t k (fun _ _ => True) w :=
  h.weaken fun r w' _ _ => ends_true r w'

/-- What nobody changes, the program included, is still true at the end, however it ends. -/
theorem Meets.framed {p : Program α} {Q : Outcome α → World → Prop} {I : World → Prop}
    (h : p.Meets t k Q w) (hI : ∀ k' w w', t.sound w' → t.rely k' w w' → I w → I w') (hw : I w) :
    p.Meets t k (fun r w' => Q r w' ∧ I w') w := by
  have hother : (⟨k.tenant ++ "x", k.name⟩ : AppKey) ≠ k := by
    intro he
    have hlength := congrArg (fun k : AppKey => k.tenant.length) he
    simp at hlength
  exact Meets.frame h (hI k) (fun w w' hs hr => hI _ w w' hs (hr _ hother)) hw

namespace Yields

variable {P P' : α → World → Prop}

theorem meets {p : Program α} (h : p.Yields t k P w) : p.Meets t k (fun _ _ => True) w :=
  Meets.weaken h fun _ _ _ _ => trivial

theorem weaken {p : Program α} (h : p.Yields t k P w)
    (hP : ∀ a w', t.sound w' → P a w' → P' a w') : p.Yields t k P' w :=
  Meets.weaken h fun r w' hs hr => by
    cases r with
    | ok a => exact hP a w' hs hr
    | error e => trivial

theorem done {o : Outcome α} (h : ∀ a w', o = .ok a → t.sound w' → t.rely k w w' → P a w') :
    (Program.done o).Yields t k P w := by
  cases o with
  | ok a => exact fun w' hs hr => h a w' rfl hs hr
  | error e => exact fun _ _ _ => trivial

theorem bind {p : Program β} {f : β → Program α} {R : β → World → Prop} (h : p.Yields t k R w)
    (hf : ∀ b w', t.sound w' → R b w' → (f b).Yields t k P w') : (p.bind f).Yields t k P w :=
  Meets.bind (Meets.weaken h fun r w' hs hr => by
    cases r with
    | ok b => exact hf b w' hs hr
    | error e => trivial)

theorem attempt {p : Program α} (h : p.Yields t k P w) :
    p.attempt.Yields t k (fun r w' => ∀ a, r = .ok a → P a w') w := by
  refine Meets.attempt (Meets.weaken h fun r w' _ hr => ?_)
  rcases r with (r | b) | a
  · rintro a ⟨⟩
  · trivial
  · rintro _ ⟨⟩
    exact hr

/-- What neither others nor the program itself can change is still true at the end. -/
theorem frame {p : Program α} {I : World → Prop} (h : p.Yields t k P w)
    (hI : ∀ k' w w', t.sound w' → t.rely k' w w' → I w → I w') (hw : I w) :
    p.Yields t k (fun a w' => P a w' ∧ I w') w := by
  refine (Meets.framed h hI hw).weaken ?_
  rintro (e | a) w' - ⟨hr, hI'⟩
  · trivial
  · exact ⟨hr, hI'⟩

end Yields

/-! ## Doing something with each of several handles -/

namespace Yields

variable {H : Handle → World → Prop} {hs : List Handle} (hH : t.Upholds H)
include hH

/-- What is known of handles is still known after a program. -/
theorem keeps {p : Program α} {P : α → World → Prop} (h : p.Yields t k P w)
    (hheld : ∀ h ∈ hs, H h w) : p.Yields t k (fun a w' => P a w' ∧ ∀ h ∈ hs, H h w') w :=
  h.frame (fun k' w w' hs' hr hall h hh => hH h k' w w' hs' hr (hall h hh)) hheld

theorem forEach {act : Handle → Program Unit}
    (hact : ∀ h w, H h w → (act h).Meets t k (fun _ _ => True) w) (hheld : ∀ h ∈ hs, H h w) :
    (Program.forEach act hs).Yields t k (fun _ _ => True) w := by
  induction hs generalizing w with
  | nil => exact .done fun _ _ _ _ _ => trivial
  | cons h hs ih =>
    have hfirst := (hact h w (hheld h List.mem_cons_self)).yields
    refine (keeps hH hfirst fun h' hh => hheld h' (List.mem_cons_of_mem h hh)).bind ?_
    rintro u w' - ⟨-, hrest⟩
    exact (ih hrest).bind fun _ _ _ _ => .done fun _ _ _ _ _ => trivial

end Yields

end Program

namespace World

variable {w : World} {k : AppKey}

/-- What a search for an application finds was issued to it. -/
theorem issued_of_find (hw : Engine.Numbered w.engine.containers w.engine.made)
    (hk : Told w.engine.lenient k) {service : Option String} {hs : List Handle}
    (h : (w.answer (.find k.name k.tenant service)).1 = .ok hs) : ∀ h ∈ hs, w.Issued k h.id := by
  obtain ⟨all, hall, rfl⟩ := (w.answer_find _ _ _).2 hs h
  intro h hh
  have hmem : h ∈ all := (List.mem_filter.1 ((List.mergeSort_perm _ _).mem_iff.1 hh)).1
  obtain ⟨c, hc, hread⟩ := Runtime.exists_of_mem_handlesOf hall hmem
  rw [(Runtime.readFrom_of_handleOf hread).id]
  obtain ⟨hc, hlabels⟩ := List.mem_filter.1 hc
  exact issued_of_mem hw (List.mem_reverse.1 hc) (belongsTo_of_filters hk service hlabels)

/-- What is made for an application is issued to it. -/
theorem issued_of_create (hw : Engine.Numbered w.engine.containers w.engine.made) {tag : Tag}
    {h : Handle} (hc : (w.answer (.create k.name k.tenant tag)).1 = .ok h) :
    (w.answer (.create k.name k.tenant tag)).2.Issued k h.id := by
  rcases w.lineup_create hw tag with ⟨⟨e, he⟩, -⟩ | ⟨hread, -, hlineup⟩
  · rw [he] at hc
    cases hc
  · rw [hread] at hc
    rw [(Runtime.readFrom_of_handleOf hc).id]
    have hmem : w.newcomer k.name k.tenant tag ∈
        (w.answer (.create k.name k.tenant tag)).2.lineup k := by
      rw [hlineup, if_pos rfl]
      exact List.mem_append_right _ (List.mem_singleton_self _)
    obtain ⟨hthere, hbelongs⟩ := mem_lineup.1 hmem
    exact issued_of_mem ((aged_create hw k.name k.tenant tag).numbered hw) hthere hbelongs

end World

section Publishing

variable {platform : PlatformSettings} {t : Terms} {k : AppKey} {w : World} {h : Handle}
  {I : World → Prop}

/-- Whether endpoints are those of a handle's plugin, bound to its container as it was found. -/
def Binds (platform : PlatformSettings) (t : Terms) (I : World → Prop) (h : Handle)
    (endpoints : List Endpoint) : Prop :=
  ∃ p w₁ current w₂, t.sound w₁ ∧ I w₁ ∧ (w₁.answer (.plugin h.tag.withoutService)).1 = .ok p ∧
    p.endpoints.isEmpty = false ∧ t.sound w₂ ∧ I w₂ ∧ (w₂.answer (.inspect h)).1 = .ok current ∧
    endpoints = p.endpoints.map fun e => e.bind current.address (platform.frontend current)

/-- Whoever may change the routes of a container to what is found for it may publish it: the rest is
looking things up and warning. -/
theorem meets_publish_of (hI : ∀ w w', t.sound w' → t.rely k w w' → I w → I w')
    (hplugin : ∀ tag, Minor t (.plugin tag)) (hinspect : ∀ h, Minor t (.inspect h))
    (hwarn : ∀ severity text, Minor t (.warn severity text))
    (hroute : ∀ endpoints w, I w → Binds platform t I h endpoints →
      (perform (.route (.publish h.id endpoints))).Meets t k (fun _ _ => True) w)
    (hw : I w) : (publish platform h).Yields t k (fun _ _ => True) w := by
  have htold (severity : Severity) (text : String) (w : World) :
      (warn severity text).Yields t k (fun _ _ => True) w :=
    .minor (hwarn severity text) fun _ _ _ _ _ _ _ _ => ends_true _ _
  -- the plugin is that of some earlier world, and the container that of a later one
  have hrouted (p : Plugin) (w₁ w : World) (hs₁ : t.sound w₁) (hw₁ : I w₁)
      (hp : (w₁.answer (.plugin h.tag.withoutService)).1 = .ok p) (hne : p.endpoints.isEmpty = false)
      (hw : I w) : (routeEndpoints platform h p).Yields t k (fun _ _ => True) w := by
    refine Yields.bind (R := fun current w' => I w' ∧ current.id = h.id ∧
        ∃ w₂, t.sound w₂ ∧ I w₂ ∧ (w₂.answer (.inspect h)).1 = .ok current)
      (.minor (hinspect h) fun w' w'' hs' hs'' _ hr' _ hr => ?_) fun current w' _ hcurrent => ?_
    · cases hc : (w'.answer (.inspect h)).1 with
      | error e => trivial
      | ok current =>
        obtain ⟨c, hfind, hread⟩ := (w'.answer_inspect h).2 current hc
        refine ⟨hI w w'' hs'' hr hw, ?_, w', hs', hI w w' hs' hr' hw, hc⟩
        rw [(Runtime.readFrom_of_handleOf hread).id, (Engine.find?_eq_some hfind).2]
    · obtain ⟨hw', hid, w₂, hs₂, hw₂, hread⟩ := hcurrent
      have := hroute (p.endpoints.map fun e => e.bind current.address (platform.frontend current))
        w' hw' ⟨p, w₁, current, w₂, hs₁, hw₁, hp, hne, hs₂, hw₂, hread, rfl⟩
      rw [← hid] at this
      exact this.yields
  refine Yields.bind (R := fun found w' => I w' ∧ ∀ p, found = .ok p →
      ∃ w₁, t.sound w₁ ∧ I w₁ ∧ (w₁.answer (.plugin h.tag.withoutService)).1 = .ok p)
    (Meets.attempt (.minor (hplugin _) fun w' w'' hs' hs'' _ hr' _ hr => ?_))
    fun found w' _ hfound => ?_
  · have hI' := hI w w'' hs'' hr hw
    cases ha : (w'.answer (.plugin h.tag.withoutService)).1 with
    | error e =>
      cases e with
      | refusal r => exact ⟨hI', nofun⟩
      | breakage b => trivial
    | ok p => exact ⟨hI', fun p' hp => ⟨w', hs', hI w w' hs' hr' hw, Except.ok.inj hp ▸ ha⟩⟩
  obtain ⟨hw', hp⟩ := hfound
  rcases found with r | p
  · show Yields _ _ (if r.isAbsence then _ else _) _ _
    split
    · exact htold _ _ _
    · exact .done fun _ _ _ _ _ => trivial
  · show Yields _ _ (if p.endpoints.isEmpty then _ else _) _ _
    split
    · exact .done fun _ _ _ _ _ => trivial
    · rename_i hne
      obtain ⟨w₁, hs₁, hw₁, hp⟩ := hp p rfl
      refine (hrouted p w₁ w' hs₁ hw₁ hp (Bool.eq_false_iff.2 hne) hw').attempt.bind
        fun routed w'' _ _ => ?_
      rcases routed with r | u
      · exact htold _ _ _
      · exact .done fun _ _ _ _ _ => trivial

end Publishing

/-- What it takes to keep to the terms with an application that is held: what may be done with
handles that are given and with those of containers that are found or made, which records are the
application's own, and which tags containers are made for. -/
structure Custody (platform : PlatformSettings) (t : Terms) (lenient : Bool) (k : AppKey)
    (Given Held : Handle → World → Prop) (Own : Record → Prop) (Apt : Tag → Prop) : Prop where
  given : t.Upholds Given
  stays : t.Upholds Held
  held : ∀ h w, Held h w → Given h w
  start : ∀ h w, Given h w → (startOne platform h).Meets t k (fun _ _ => True) w
  restart : ∀ h w, Held h w → (restartOne platform h).Meets t k (fun _ _ => True) w
  stop : ∀ h w, Held h w → (stopOne h).Meets t k (fun _ _ => True) w
  destroy : ∀ h w, Held h w → (destroyOne h).Meets t k (fun _ _ => True) w
  find : Told lenient k → ∀ service w, (perform (.find k.name k.tenant service)).Yields t k
    (fun hs w' => ∀ h ∈ hs, Held h w') w
  create : ∀ tag w, Apt tag → (perform (.create k.name k.tenant tag)).Yields t k Held w
  record : ∀ w, (perform (.record k.tenant k.name)).Yields t k
    (fun r _ => ∀ r', r = some r' → Own r') w
  compose : ∀ framework services w, (perform (.compose k.tenant framework services)).Yields t k
    (fun composition _ => ∀ tag ∈ composition.map (·.1), Apt tag) w
  now : Told true k → ∀ w, (perform .now).Yields t k (fun createdAt _ =>
    ∀ (tags : List Tag) (scaling : Int), (∀ tag ∈ tags, Apt tag) → 1 ≤ scaling →
      Own { name := k.name, plugins := tags.map Tag.format, scaling, createdAt }) w
  growth : ∀ r hs w tag, Own r → (∀ h ∈ hs, Held h w) → growthTag r hs = .ok tag → Apt tag
  addRecord : ∀ r w, Own r → (perform (.addRecord k.tenant r)).Meets t k (fun _ _ => True) w
  rescale : ∀ r scaling w, Own r → 1 ≤ scaling →
    (perform (.replaceRecord k.tenant { r with scaling })).Meets t k (fun _ _ => True) w
  removeRecord : ∀ w, (perform (.removeRecord k.tenant k.name)).Meets t k (fun _ _ => True) w
  warn : ∀ severity text w, (Program.warn severity text).Meets t k (fun _ _ => True) w

namespace Custody

variable {platform : PlatformSettings} {t : Terms} {lenient : Bool} {k : AppKey}
  {Given Held : Handle → World → Prop} {Own : Record → Prop} {Apt : Tag → Prop} {w : World}
  {hs : List Handle}

theorem forall_mem_replicas {tags : List Tag} (h : ∀ tag ∈ tags, Apt tag) (count : Int) :
    ∀ tag ∈ replicas count tags, Apt tag := by
  intro tag htag
  obtain ⟨l, hl, htag⟩ := List.mem_flatten.1 htag
  rw [List.eq_of_mem_replicate hl] at htag
  exact h tag htag

section Containers

variable (hc : Custody platform t lenient k Given Held Own Apt)
include hc

theorem startAll (hgiven : ∀ h ∈ hs, Given h w) :
    (startAll platform hs).Yields t k (fun _ _ => True) w :=
  (Yields.forEach hc.given hc.start hgiven).bind fun _ _ _ _ => .done fun _ _ _ _ _ => trivial

theorem startHeld (hheld : ∀ h ∈ hs, Held h w) :
    (Lifecycle.startAll platform hs).Yields t k (fun _ _ => True) w :=
  hc.startAll fun h hh => hc.held h w (hheld h hh)

/-- A sweep may do with every container what may be done with any, going on after refusals. -/
theorem sweep {act : Handle → Program Unit}
    (hact : ∀ h w, Held h w → (act h).Meets t k (fun _ _ => True) w) (hheld : ∀ h ∈ hs, Held h w) :
    (sweep act hs).Yields t k (fun _ _ => True) w := by
  induction hs generalizing w with
  | nil => exact .done fun _ _ _ _ _ => trivial
  | cons h hs ih =>
    have hfirst := (hact h w (hheld h List.mem_cons_self)).yields.attempt
    refine (Yields.keeps hc.stays hfirst fun h' hh => hheld h' (List.mem_cons_of_mem h hh)).bind ?_
    rintro (r | u) w' - ⟨-, hrest⟩
    · refine (Yields.keeps hc.stays (hc.warn .warning r.message w').yields hrest).bind ?_
      rintro _ w'' - ⟨-, hrest'⟩
      exact (ih hrest').bind fun _ _ _ _ => .done fun _ _ _ _ _ => trivial
    · exact ih hrest

theorem sweepStrictly {act : Handle → Program Unit}
    (hact : ∀ h w, Held h w → (act h).Meets t k (fun _ _ => True) w) (hheld : ∀ h ∈ hs, Held h w) :
    (sweepStrictly act hs).Yields t k (fun _ _ => True) w :=
  (hc.sweep hact hheld).bind fun failure _ _ _ => by
    cases failure <;> exact .done fun _ _ _ _ _ => trivial

/-- All containers that are made are the application's. -/
theorem createAll {tags : List Tag} (htags : ∀ tag ∈ tags, Apt tag) :
    (createAll k.name k.tenant tags).Yields t k (fun hs w' => ∀ h ∈ hs, Held h w') w := by
  induction tags generalizing w with
  | nil =>
    refine .done fun all _ hall _ _ h hh => ?_
    obtain rfl := Except.ok.inj hall
    cases hh
  | cons tag tags ih =>
    refine (hc.create tag w (htags tag List.mem_cons_self)).bind fun made w' _ hmade => ?_
    have hfirst : ∀ h ∈ [made], Held h w' := fun h hh => List.mem_singleton.1 hh ▸ hmade
    have hrest := ih (w := w') fun t ht => htags t (List.mem_cons_of_mem _ ht)
    refine (Yields.keeps hc.stays hrest hfirst).bind ?_
    rintro more w'' - ⟨hmore, hmade'⟩
    refine .done fun all w₃ hall hs hr h hh => ?_
    obtain rfl := Except.ok.inj hall
    rcases List.mem_cons.1 hh with rfl | hh
    · exact hc.stays _ k _ _ hs hr (hmade' _ (List.mem_singleton_self _))
    · exact hc.stays _ k _ _ hs hr (hmore h hh)

theorem populate {tags : List Tag} (htags : ∀ tag ∈ tags, Apt tag) (scaling : Int) :
    (populate k.name k.tenant tags scaling).Yields t k (fun hs w' => ∀ h ∈ hs, Held h w') w := by
  have hframework : ∀ tag ∈ replicas scaling (tags.take 1), Apt tag :=
    forall_mem_replicas (fun tag htag => htags tag (List.mem_of_mem_take htag)) scaling
  have hservices : ∀ tag ∈ tags.drop 1, Apt tag :=
    fun tag htag => htags tag (List.mem_of_mem_drop htag)
  refine (hc.createAll hframework).bind fun made w₁ _ hmade => ?_
  refine (Yields.keeps hc.stays (hc.createAll hservices) hmade).bind ?_
  rintro more w₂ - ⟨hmore, hmade'⟩
  refine .done fun all w₃ hall hs hr h hh => ?_
  obtain rfl := Except.ok.inj hall
  refine hc.stays _ k _ _ hs hr ?_
  exact (List.mem_append.1 hh).elim (hmade' h) (hmore h)

theorem rollBack (hk : Told lenient k) :
    (rollBack k.name k.tenant).Yields t k (fun _ _ => True) w := by
  have hcleaned : Yields t k
      ((perform (.find k.name k.tenant none)).bind fun hs => Lifecycle.sweepStrictly destroyOne hs)
      (fun _ _ => True) w :=
    (hc.find hk none w).bind fun hs w' _ hheld => hc.sweepStrictly hc.destroy hheld
  refine hcleaned.attempt.bind fun cleaned w' _ _ => ?_
  rcases cleaned with r | u
  · exact (hc.warn .error _ w').yields.bind fun _ w'' _ _ => (hc.removeRecord w'').yields
  · exact (hc.removeRecord w').yields

theorem populateOrUndo (hk : Told lenient k) {tags : List Tag} (htags : ∀ tag ∈ tags, Apt tag)
    (scaling : Int) : (populateOrUndo k.name k.tenant tags scaling).Yields t k
      (fun hs w' => ∀ h ∈ hs, Held h w') w := by
  refine (hc.populate htags scaling).attempt.bind fun populated w' _ hheld => ?_
  rcases populated with r | handles
  · exact (hc.warn .error _ w').yields.bind fun _ w₁ _ _ => (hc.rollBack hk).bind fun _ w₂ _ _ =>
      .done fun _ _ ho _ _ => by cases ho
  · refine .done fun made w'' hmade hs hr h hh => ?_
    obtain rfl := Except.ok.inj hmade
    exact hc.stays h k _ _ hs hr (hheld _ rfl h hh)

end Containers

section Operations

variable {caller : Caller} {name : String}

theorem createHeld (hc : Custody platform t lenient (caller.key name) Given Held Own Apt)
    (hk : Told true (caller.key name)) (framework : String) (services : List String)
    {scaling : Int} (hscaling : 1 ≤ scaling) (start : Bool) :
    (createHeld platform caller name framework services scaling start).Yields t (caller.key name)
      (fun _ _ => True) w := by
  refine (hc.record w).bind fun found w₁ _ _ => ?_
  show Yields _ _ (if found.isSome then _ else _) _ _
  split
  · exact .done fun _ _ _ _ _ => trivial
  refine (hc.compose framework services w₁).bind fun composition w₂ _ htags => ?_
  refine (hc.now hk w₂).bind fun createdAt w₃ _ hown => ?_
  refine (hc.addRecord _ w₃ (hown _ scaling htags hscaling)).yields.bind fun _ w₄ _ _ => ?_
  refine (hc.populateOrUndo hk.of_true htags scaling).bind fun handles w₅ _ hheld => ?_
  show Yields _ _ (if start then _ else _) _ _
  split
  · exact (hc.startHeld hheld).bind fun _ _ _ _ => .done fun _ _ _ _ _ => trivial
  · exact .done fun _ _ _ _ _ => trivial

/-- A record that is found is the application's, and its caller has a tenant. -/
theorem recordOf (hc : Custody platform t lenient (caller.key name) Given Held Own Apt) :
    (recordOf caller name).Yields t (caller.key name) (fun r _ => Own r ∧ caller.tenant ≠ "") w := by
  unfold Lifecycle.recordOf Caller.required
  split
  · exact .done fun _ _ ho _ _ => by cases ho
  · rename_i htenant
    refine (hc.record w).bind fun r w' _ hown => ?_
    cases r with
    | none => exact .done fun _ _ ho _ _ => by cases ho
    | some r =>
      refine .done fun found _ hfound _ _ => ⟨?_, htenant⟩
      obtain rfl := Except.ok.inj hfound
      exact hown r rfl

variable (hc : Custody platform t lenient (caller.key name) Given Held Own Apt)
  (hname : lenient = false ∨ name ≠ "")
include hc hname

/-- What is done to all containers of an application that has a record. -/
theorem found {act : List Handle → Program Unit}
    (hact : ∀ hs w, (∀ h ∈ hs, Held h w) →
      (act hs).Yields t (caller.key name) (fun _ _ => True) w) :
    ((Lifecycle.recordOf caller name).bind fun _ =>
      (perform (.find name caller.tenant none)).bind act).Yields t (caller.key name)
      (fun _ _ => True) w :=
  hc.recordOf.bind fun _ w₁ _ hr =>
    (hc.find (told_of_tenant hname hr.2) none w₁).bind fun hs w₂ _ hheld => hact hs w₂ hheld

omit hname in
theorem grow {r : Record} {current : List Handle} (hown : Own r) (hcurrent : ∀ h ∈ current, Held h w)
    (target : Int) :
    (grow platform caller r name current target).Yields t (caller.key name) (fun _ _ => True) w := by
  unfold Lifecycle.grow
  refine Yields.bind (R := fun tag _ => Apt tag)
    (.done fun tag _ htag _ _ => hc.growth r current w tag hown hcurrent htag) fun tag w₁ _ htag => ?_
  have htags : ∀ t ∈ [tag], Apt t := fun t ht => List.mem_singleton.1 ht ▸ htag
  refine (hc.createAll (forall_mem_replicas htags _)).bind fun added w₂ _ hheld => ?_
  split
  · exact hc.startHeld hheld
  · exact .done fun _ _ _ _ _ => trivial

theorem scaleHeld {target : Int} (htarget : 1 ≤ target) :
    (scaleHeld platform caller name target).Yields t (caller.key name) (fun _ _ => True) w := by
  refine hc.recordOf.bind fun r w₁ _ ⟨hown, htenant⟩ => ?_
  have hfind (w : World) := hc.find (told_of_tenant hname htenant) (some "") w
  refine (hfind w₁).bind fun current w₂ _ hheld => ?_
  have hadjust : (adjust platform caller r name current target).Yields t (caller.key name)
      (fun _ _ => True) w₂ := by
    unfold adjust
    split
    · exact hc.grow hown hheld target
    · split
      · exact hc.sweepStrictly hc.destroy fun h hh => hheld h (List.mem_of_mem_drop hh)
      · exact .done fun _ _ _ _ _ => trivial
  refine hadjust.bind fun _ w₃ _ _ => ?_
  show Yields _ _ (if r.scaling ≠ target then _ else _) _ _
  split
  · exact (hc.rescale r target w₃ hown htarget).yields.bind fun _ w₄ _ _ =>
      (hfind w₄).meets.yields
  · exact (hfind w₃).meets.yields

theorem removeHeld (htenant : caller.tenant ≠ "") :
    (removeHeld name caller.tenant).Yields t (caller.key name) (fun _ _ => True) w := by
  refine (hc.record w).bind fun record w₁ _ _ => ?_
  refine (hc.find (told_of_tenant hname htenant) none w₁).bind fun handles w₂ _ hheld => ?_
  show Yields _ _ (if (record.isNone && handles.isEmpty) = true then _ else _) _ _
  split
  · exact .done fun _ _ _ _ _ => trivial
  refine (hc.sweep hc.destroy hheld).bind fun failure w₃ _ _ => ?_
  show Yields _ _ (if record.isSome then _ else _) _ _
  split
  · refine (hc.removeRecord w₃).yields.bind fun _ w₄ _ _ => ?_
    cases failure <;> exact .done fun _ _ _ _ _ => trivial
  · cases failure <;> exact .done fun _ _ _ _ _ => trivial

end Operations

/-- Every turn of a request keeps to the terms. -/
theorem turn {r : Request} {name : String}
    (hc : Custody platform t lenient (r.caller.key name) Given Held Own Apt)
    (hnamed : lenient = false ∨ r.NamesApps) (hcheck : r.check = .ok ()) (hname : name ∈ r.names)
    (hgiven : ∀ h ∈ r.handles, h.app = name → Given h w) :
    (r.turn platform name).Meets t (r.caller.key name) (fun _ _ => True) w := by
  obtain ⟨caller, operation⟩ := r
  have hquietly {p : Program Unit} (h : p.Yields t (caller.key name) (fun _ _ => True) w) :
      (Request.quietly p).Meets t (caller.key name) (fun _ _ => True) w :=
    .andThen (h.meets.weaken fun _ _ _ _ => .done fun _ _ _ => trivial)
  cases operation with
  | create name' framework services scaling start =>
    obtain rfl := List.mem_singleton.1 hname
    exact (hc.createHeld (told_of_checkCreate hcheck) framework services
      (Request.checkCreate_eq_ok hcheck).2.2.1 start).meets
  | startContainers hs =>
    refine hquietly (hc.startAll fun h hh => ?_)
    obtain ⟨hmem, happ⟩ := List.mem_filter.1 hh
    exact hgiven h hmem (of_decide_eq_true happ)
  | start name' =>
    obtain rfl := List.mem_singleton.1 hname
    exact hquietly (hc.found hnamed fun hs w => hc.startHeld)
  | stop name' =>
    obtain rfl := List.mem_singleton.1 hname
    exact hquietly (hc.found hnamed fun hs w => hc.sweepStrictly hc.stop)
  | restart name' =>
    obtain rfl := List.mem_singleton.1 hname
    exact hquietly (hc.found hnamed fun hs w hheld =>
      (Yields.forEach hc.stays hc.restart hheld).bind fun _ _ _ _ => .done fun _ _ _ _ _ => trivial)
  | scale name' target =>
    obtain rfl := List.mem_singleton.1 hname
    have htarget : 1 ≤ target := by
      unfold Request.check at hcheck
      dsimp only at hcheck
      split at hcheck
      · cases hcheck
      · omega
    exact (hc.scaleHeld hnamed htarget).meets
  | remove name' =>
    obtain rfl := List.mem_singleton.1 hname
    obtain ⟨tenant, htenant, -⟩ := map_eq_ok hcheck
    exact hquietly (hc.removeHeld hnamed (Request.tenant_ne_empty htenant))

end Custody

end AppBroker
