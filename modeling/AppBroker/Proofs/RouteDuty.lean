import AppBroker.Proofs.Orderly

/-!
# Who owes a container its routes

The routes of a container are astray if it is to have some and has none, or if nobody takes it down,
if it has some and does not run. A program that starts a container owes it to put its routes right
until it has published them, and one that drops its routes until it has stopped it. What is owed is
followed through the calls of a program, for one container at a time, while others go on
(`Program.Tends`): no call leads routes astray without owing them, and none ceases to owe them while
they are astray.
-/

namespace AppBroker

open Program Lifecycle

/-- Whether a container is to have routes: it runs, its application is one that the store lists, and
its plugin is installed and has endpoints. -/
def Container.IsPublic (w₀ : World) (c : Container) : Prop :=
  c.isRunning = true ∧ (∃ k : AppKey, k.IsListed ∧ c.BelongsTo k) ∧ ∃ tag p, c.Says tag ∧
    Hub.plugin w₀.disk w₀.broker.hub tag.withoutService = .ok p ∧ p.endpoints ≠ []

/-- Whether a call leaves alone which containers run and which have routes. -/
def Call.isModest : Call → Bool
  | .start _ | .stop _ | .restart _ | .destroy _ | .route _ => false
  | _ => true

/-- A container that is watched by its id, from some world on, and which containers nobody takes
down. -/
structure Watch where
  start : World
  calm : String → Prop
  id : String

/-- Whether a call succeeds if it goes to the engine, to the store or to the router, is told of a
plugin or that there is none, and takes down none of the containers that nobody does. -/
def World.Lets (calm : String → Prop) (w : World) (c : Call) : Prop :=
  w.serves c = true ∧ w.informs c = true ∧ ∀ id, calm id → c.takesDown id = false

/-- What is left after a container was removed. -/
theorem World.mem_of_destroyed (w : World) (ht : w.engine.Truthful) {h : Handle} {u : Unit}
    (hok : (w.answer (.destroy h)).1 = .ok u) {c : Container}
    (hc : c ∈ (w.answer (.destroy h)).2.engine.containers) :
    c.id ≠ h.id ∧ c ∈ w.engine.containers := by
  rcases w.answer_destroy h ht.1 with ⟨hq, hnone⟩ | ⟨-, _, _, _, hw'⟩
  · rw [hq.containers] at hc
    refine ⟨fun heq => ?_, hc⟩
    have := List.find?_eq_none.1 (hnone ht hok) c hc
    simp [heq] at this
  · rw [hw'] at hc
    obtain ⟨hmem, hne⟩ := List.mem_filter.1 hc
    exact ⟨by simpa using hne, hmem⟩

namespace Watch

variable {d : Watch} {w w' : World} {c : Call} {owed owed' : Bool}

/-- Whether the container is to have routes. -/
def Wants (d : Watch) (w : World) : Prop :=
  ∃ c ∈ w.engine.containers, c.id = d.id ∧ c.IsPublic d.start

/-- Whether the container is to have routes and has none, or if nobody takes it down, has routes and
does not run. -/
def Astray (d : Watch) (w : World) : Prop :=
  (¬ d.calm d.id ∧ d.Wants w ∧ ¬ w.Routed d.id) ∨ (d.calm d.id ∧ w.Routed d.id ∧ ¬ w.Up d.id)

/-- How a call may change who owes it to put routes right: `owed` tells whether the caller did
before the call, and `owed'` whether it does after it. -/
def Pays (d : Watch) (owed owed' : Bool) (w w' : World) : Prop :=
  owed' = false → d.Astray w' → owed = false ∧ d.Astray w

/-- If routes were astray only where they were owed, they still are. -/
theorem Pays.still_owed (h : d.Pays owed owed' w w') (howed : d.Astray w → owed = true) :
    d.Astray w' → owed' = true := by
  intro hastray
  by_contra hnot
  obtain ⟨hfalse, hbefore⟩ := h (Bool.not_eq_true _ ▸ hnot) hastray
  rw [howed hbefore] at hfalse
  cases hfalse

theorem Pays.refl : d.Pays owed owed w w := fun ho h => ⟨ho, h⟩

/-- A call after which no container runs that did not run before, and which changes no routes. -/
theorem Pays.of_older (hrouted : w'.Routed d.id → w.Routed d.id)
    (hunrouted : ¬ w'.Routed d.id → ¬ w.Routed d.id) (hwants : d.Wants w' → d.Wants w)
    (hup : d.calm d.id → w.Up d.id → w'.Up d.id) : d.Pays owed owed w w' := by
  refine fun ho hastray => ⟨ho, ?_⟩
  rcases hastray with ⟨hcalm, hw, hnot⟩ | ⟨hcalm, hr, hdown⟩
  · exact .inl ⟨hcalm, hwants hw, hunrouted hnot⟩
  · exact .inr ⟨hcalm, hrouted hr, mt (hup hcalm) hdown⟩

theorem routed_unrouted (hc : c.isUnrouted = true) (id : String) :
    (w.answer c).2.Routed id ↔ w.Routed id := by
  unfold World.Routed World.routes
  rw [World.router_answer w hc]

/-- A modest call makes no container run that did not. -/
theorem exists_older (hw : d.start.Orderly w) (hc : c.isModest = true) {e : Container}
    (he : e ∈ (w.answer c).2.engine.containers) (hrun : e.isRunning = true) :
    e ∈ w.engine.containers := by
  have hsparing (hc : c.isSparing = true) : e ∈ w.engine.containers := by
    rwa [(w.same_answer hc).containers] at he
  cases c with
  | create app tenant tag =>
    obtain ⟨-, -, h | h⟩ := World.create_cases hw.dependable.numbered ⟨tenant, app⟩ tag <;>
      rw [h] at he
    · exact he
    · refine (List.mem_append.1 he).resolve_right fun hnew => ?_
      rw [List.mem_singleton.1 hnew] at hrun
      cases hrun
  | start | stop | restart | destroy | route => cases hc
  | _ => exact hsparing rfl

theorem pays_modest (hw : d.start.Orderly w) (hl : w.Lets d.calm c) (hc : c.isModest = true) :
    d.Pays owed owed w (w.answer c).2 := by
  have hrouted := routed_unrouted (w := w) (c := c) (by cases c <;> first | rfl | cases hc) d.id
  refine .of_older hrouted.1 (mt hrouted.2) ?_
    fun hcalm => World.up_answer hw.dependable (hl.2.2 _ hcalm)
  rintro ⟨e, he, hid, hpublic⟩
  exact ⟨e, exists_older hw hc he hpublic.1, hid, hpublic⟩

/-- A container that was started runs, and its routes are to be put right. -/
theorem pays_started {h : Handle} (hc : c = .start h ∨ c = .restart h) (hw : d.start.Orderly w)
    (hl : w.Lets d.calm c) :
    d.Pays false (decide (h.id = d.id)) w (w.answer c).2 ∧ (w.answer c).2.Up h.id := by
  have hrouted := routed_unrouted (w := w) (c := c) (by rcases hc with rfl | rfl <;> rfl) d.id
  have hok := w.ok_of_serves (c := c) (by rcases hc with rfl | rfl <;> rfl) hl.1
  have hhonest := hw.dependable.truthful.1
  have hother {e : Container} (he : e ∈ (w.answer c).2.engine.containers) (hne : e.id ≠ h.id) :
      e ∈ w.engine.containers := by
    obtain ⟨-, -, -, ⟨-, hq⟩ | ⟨_, _, _, hw'⟩⟩ := World.started_cases hc hhonest hok
    · rwa [hq.containers] at he
    · rw [hw'] at he
      obtain ⟨f, hf, rfl⟩ := List.mem_map.1 he
      by_cases heq : f.id = h.id
      · rw [if_pos heq] at hne
        exact absurd heq hne
      · rwa [if_neg heq]
  refine ⟨fun ho hastray => ⟨rfl, ?_⟩, World.up_of_started hc hhonest hok⟩
  rcases hastray with ⟨hcalm, ⟨e, he, hid, hpublic⟩, hnot⟩ | ⟨hcalm, hr, hdown⟩
  · have hne : e.id ≠ h.id := fun heq => of_decide_eq_false ho (heq.symm.trans hid)
    exact .inl ⟨hcalm, ⟨e, hother he hne, hid, hpublic⟩, mt hrouted.2 hnot⟩
  · exact .inr ⟨hcalm, hrouted.1 hr, mt (World.up_answer hw.dependable (hl.2.2 _ hcalm)) hdown⟩

/-- A container that was stopped or removed is not to have routes. -/
theorem pays_withdrawn {h : Handle} (hc : c = .stop h ∨ c = .destroy h) (hw : d.start.Orderly w)
    (hl : w.Lets d.calm c) :
    d.Pays owed (owed && decide (h.id ≠ d.id)) w (w.answer c).2 := by
  have hrouted := routed_unrouted (w := w) (c := c) (by rcases hc with rfl | rfl <;> rfl) d.id
  obtain ⟨u, hok⟩ := w.ok_of_serves (c := c) (by rcases hc with rfl | rfl <;> rfl) hl.1
  have hleft {e : Container} (he : e ∈ (w.answer c).2.engine.containers)
      (hrun : e.isRunning = true) : e.id ≠ h.id ∧ e ∈ w.engine.containers := by
    rcases hc with rfl | rfl
    · rcases w.answer_stop h hw.dependable.truthful.1 with
        ⟨f, hf, -⟩ | ⟨-, f, hf, ⟨hstopped, hq⟩ | ⟨-, _, _, _, hw'⟩⟩
      · rw [hf] at hok
        cases hok
      · rw [hq.containers] at he
        refine ⟨fun heq => ?_, he⟩
        obtain ⟨hmem, hid⟩ := Engine.find?_eq_some hf
        obtain rfl := hw.dependable.numbered.eq_of_id he hmem (heq.trans hid.symm)
        rw [hrun] at hstopped
        cases hstopped
      · rw [hw'] at he
        obtain ⟨g, hg, rfl⟩ := List.mem_map.1 he
        by_cases heq : g.id = h.id
        · rw [if_pos heq] at hrun
          cases hrun
        · rw [if_neg heq]
          exact ⟨heq, hg⟩
    · exact w.mem_of_destroyed hw.dependable.truthful hok he
  intro ho hastray
  rcases hastray with ⟨hcalm, ⟨e, he, hid, hpublic⟩, hnot⟩ | ⟨hcalm, hr, hdown⟩
  · obtain ⟨hne, hmem⟩ := hleft he hpublic.1
    have hne' : h.id ≠ d.id := fun heq => hne (hid.trans heq.symm)
    exact ⟨by simpa [hne'] using ho, .inl ⟨hcalm, ⟨e, hmem, hid, hpublic⟩, mt hrouted.2 hnot⟩⟩
  · have hspared := hl.2.2 _ hcalm
    have hne : h.id ≠ d.id := by rcases hc with rfl | rfl <;> exact of_decide_eq_false hspared
    exact ⟨by simpa [hne] using ho,
      .inr ⟨hcalm, hrouted.1 hr, mt (World.up_answer hw.dependable hspared) hdown⟩⟩

/-- Who drops the routes of a container owes them. -/
theorem pays_retracted {h : Handle} (hw : d.start.Orderly w) :
    d.Pays owed (owed || decide (h.id = d.id)) w (w.answer (.route (.retract h.id))).2 := by
  obtain ⟨routes, hm⟩ := hw.memory
  have hrouted (hne : h.id ≠ d.id) :
      (w.answer (.route (.retract h.id))).2.Routed d.id ↔ w.Routed d.id := by
    unfold World.Routed
    rw [World.routes_eq (World.answer_route hm _).2.2, World.routes_eq hm, RouteChange.apply,
      Table.mem_keys_erase]
    exact and_iff_right (Ne.symm hne)
  intro ho hastray
  obtain ⟨ho, hne⟩ := Bool.or_eq_false_iff.1 ho
  have hrouted := hrouted (of_decide_eq_false hne)
  rcases hastray with ⟨hcalm, hwants, hnot⟩ | ⟨hcalm, hr, hdown⟩
  · exact ⟨ho, .inl ⟨hcalm, hwants, mt hrouted.2 hnot⟩⟩
  · exact ⟨ho, .inr ⟨hcalm, hrouted.1 hr, hdown⟩⟩

/-- The routes of a container are put right by publishing them, if it runs or may be taken down. -/
theorem pays_published {h : Handle} (hw : d.start.Orderly w) (hup : d.calm h.id → w.Up h.id)
    (endpoints : List Endpoint) : d.Pays owed (owed && decide (h.id ≠ d.id)) w
      (w.answer (.route (.publish h.id endpoints))).2 := by
  obtain ⟨routes, hm⟩ := hw.memory
  have hrouted : (w.answer (.route (.publish h.id endpoints))).2.Routed d.id ↔
      d.id = h.id ∨ w.Routed d.id := by
    unfold World.Routed
    rw [World.routes_eq (World.answer_route hm _).2.2, World.routes_eq hm, RouteChange.apply,
      Table.mem_keys_insert]
  intro ho hastray
  rcases hastray with ⟨hcalm, hwants, hnot⟩ | ⟨hcalm, hr, hdown⟩
  · rw [hrouted, not_or] at hnot
    have hne : h.id ≠ d.id := fun heq => hnot.1 heq.symm
    exact ⟨by simpa [hne] using ho, .inl ⟨hcalm, hwants, hnot.2⟩⟩
  · have hne : h.id ≠ d.id := fun heq => hdown (heq ▸ hup (heq ▸ hcalm))
    refine ⟨by simpa [hne] using ho, .inr ⟨hcalm, ?_, hdown⟩⟩
    exact (hrouted.1 hr).resolve_left fun heq => hne heq.symm

/-- A container that has no plugin with endpoints is not to have routes. -/
theorem not_wants {h : Handle} (hk : w.Knows h) (hid : h.id = d.id)
    (hnone : ∀ p, Hub.plugin d.start.disk d.start.broker.hub h.tag.withoutService = .ok p →
      p.endpoints = []) : ¬ d.Wants w := by
  rintro ⟨c, hc, hcid, -, -, tag, p, htag, hp, hne⟩
  obtain rfl := htag.unique (hk.2 c hc (hcid.trans hid.symm))
  exact hne (hnone p hp)

/-- What is not astray need not be put right. -/
theorem pays_excused (h : owed = true → owed' = false → ¬ d.Astray w) : d.Pays owed owed' w w := by
  intro ho hastray
  refine ⟨?_, hastray⟩
  cases owed with
  | false => rfl
  | true => exact absurd hastray (h rfl ho)

end Watch

namespace Program

variable {α β : Type} (d : Watch) (held : Option AppKey)

/-- Whether a program that holds an application or none, be something owed or not, makes only calls
that keep the world orderly, claims only what it holds, pays with each call, and ends as promised.
It takes no further lock. -/
def Tends (Q : Bool → Outcome α → World → Prop) : Program α → Bool → World → Prop
  | .done r, owed, w => ∀ w', d.start.Orderly w' → w.LeadsTo d.calm held w' → Q owed r w'
  | .call c next, owed, w => ∀ w', d.start.Orderly w' → w.LeadsTo d.calm held w' →
      w'.Lets d.calm c → w'.Suits c ∧ (∀ k, c.claim? = some k → held = some k) ∧
        ∃ owed', d.Pays owed owed' w' (w'.answer c).2 ∧
          (next (w'.answer c).1).Tends Q owed' (w'.answer c).2
  | .lock _ _, _, w | .unlock _ _, _, w => ∀ w', d.start.Orderly w' → ¬ w.LeadsTo d.calm held w'

variable {d held} {Q R : Bool → Outcome α → World → Prop} {p : Program α} {owed : Bool}
  {w w' : World}

namespace Tends

theorem after (h : p.Tends d held Q owed w) (hw : w.LeadsTo d.calm held w') :
    p.Tends d held Q owed w' := by
  cases p <;> exact fun w'' hs hr => h w'' hs (hw.trans hr)

/-- Nothing has to hold before the others have had their turn. -/
theorem of_after (h : ∀ w', d.start.Orderly w' → w.LeadsTo d.calm held w' →
    p.Tends d held Q owed w') : p.Tends d held Q owed w := by
  cases p <;> exact fun w' hs hr => h w' hs hr w' hs (.refl w')

theorem weaken (h : p.Tends d held Q owed w)
    (hQ : ∀ owed r w', d.start.Orderly w' → Q owed r w' → R owed r w') :
    p.Tends d held R owed w := by
  induction p generalizing owed w with
  | done r => exact fun w' hs hr => hQ owed r w' hs (h w' hs hr)
  | call c next ih =>
    intro w' hs hr hl
    obtain ⟨hsuits, hclaim, owed', hpays, hnext⟩ := h w' hs hr hl
    exact ⟨hsuits, hclaim, owed', hpays, ih _ hnext⟩
  | lock key next => exact h
  | unlock key next => exact h

theorem andThen {p : Program β} {f : Outcome β → Program α}
    (h : p.Tends d held (fun owed r w' => (f r).Tends d held Q owed w') owed w) :
    (p.andThen f).Tends d held Q owed w := by
  induction p generalizing owed w with
  | done r => exact of_after h
  | call c next ih =>
    intro w' hs hr hl
    obtain ⟨hsuits, hclaim, owed', hpays, hnext⟩ := h w' hs hr hl
    exact ⟨hsuits, hclaim, owed', hpays, ih _ hnext⟩
  | lock key next => exact h
  | unlock key next => exact h

/-- A program that does not fail, and what follows it. -/
theorem surely {p : Program β} {f : β → Program α} {P : Bool → β → World → Prop}
    (h : p.Tends d held (fun owed r w' => ∃ b, r = .ok b ∧ P owed b w') owed w)
    (hf : ∀ owed b w', d.start.Orderly w' → P owed b w' → (f b).Tends d held Q owed w') :
    (p.bind f).Tends d held Q owed w :=
  andThen (h.weaken fun owed r w' hs hr => by
    obtain ⟨b, rfl, hb⟩ := hr
    exact hf owed b w' hs hb)

/-- What is promised at the end stays so while others go on. -/
theorem lasting (h : p.Tends d held Q owed w) : p.Tends d held (fun owed r w' =>
    ∀ w'', d.start.Orderly w'' → w'.LeadsTo d.calm held w'' → Q owed r w'') owed w := by
  induction p generalizing owed w with
  | done r => exact fun w' _ hr w'' hs hr' => h w'' hs (hr.trans hr')
  | call c next ih =>
    intro w' hs hr hl
    obtain ⟨hsuits, hclaim, owed', hpays, hnext⟩ := h w' hs hr hl
    exact ⟨hsuits, hclaim, owed', hpays, ih _ hnext⟩
  | lock key next => exact h
  | unlock key next => exact h

/-- What the whole run of a program leads to from where it begins, whatever the program claims. -/
theorem leads (h : p.Tends d held Q owed w) (hw : w'.LeadsTo d.calm none w) :
    p.Tends d held (fun owed r w'' => Q owed r w'' ∧ w'.LeadsTo d.calm none w'') owed w := by
  induction p generalizing owed w with
  | done r => exact fun w'' hs hr => ⟨h w'' hs hr, hw.trans hr.unheld⟩
  | call c next ih =>
    intro w'' hs hr hl
    obtain ⟨hsuits, hclaim, owed', hpays, hnext⟩ := h w'' hs hr hl
    refine ⟨hsuits, hclaim, owed', hpays, ih _ hnext ?_⟩
    exact hw.trans (hr.unheld.trans (World.leadsTo_answer hs hsuits hl.2.2 nofun))
  | lock key next => exact fun w'' hs hr => absurd hr (h w'' hs)
  | unlock key next => exact fun w'' hs hr => absurd hr (h w'' hs)

/-- A program that runs by itself keeps the world orderly, and routes are astray in the end only if
it still owes them. -/
theorem run (h : p.Tends d held Q owed w) (hw : d.start.Orderly w)
    (hl : p.Along (fun c w => w.Lets d.calm c) w) (howed : d.Astray w → owed = true) :
    d.start.Orderly (p.run w).2 ∧ ∃ owed', (d.Astray (p.run w).2 → owed' = true) ∧
      Q owed' (p.run w).1 (p.run w).2 := by
  induction p generalizing owed w with
  | done r => exact ⟨hw, owed, howed, h w hw (.refl w)⟩
  | call c next ih =>
    obtain ⟨hsuits, -, owed', hpays, hnext⟩ := h w hw (.refl w) hl.1
    exact ih _ hnext (hw.answer hsuits) hl.2 (Watch.Pays.still_owed hpays howed)
  | lock key next => exact absurd (.refl w) (h w hw)
  | unlock key next => exact absurd (.refl w) (h w hw)

/-- A call that claims nothing. -/
theorem perform {c : Call} {Q : Bool → Outcome c.Value → World → Prop} (hc : c.claim? = none)
    (hsuits : ∀ w', d.start.Orderly w' → w.LeadsTo d.calm held w' → w'.Suits c)
    (h : ∀ w', d.start.Orderly w' → w.LeadsTo d.calm held w' → w'.Lets d.calm c → ∃ owed',
      d.Pays owed owed' w' (w'.answer c).2 ∧ ∀ w'', d.start.Orderly w'' →
        (w'.answer c).2.LeadsTo d.calm held w'' → w'.LeadsTo d.calm held w'' →
        Q owed' (w'.answer c).1 w'') : (perform c).Tends d held Q owed w := by
  intro w' hs hr hl
  obtain ⟨owed', hpays, hQ⟩ := h w' hs hr hl
  refine ⟨hsuits w' hs hr, fun k hk => ?_, owed', hpays, fun w'' hs'' hr'' =>
    hQ w'' hs'' hr'' ((World.leadsTo_answer hs (hsuits w' hs hr) hl.2.2 fun k _ => ?_).trans hr'')⟩
  · rw [hc] at hk
    cases hk
  · rw [hc]
    nofun

/-- A modest call that claims nothing, of whose answer something is known. -/
theorem modest {c : Call} {Q : Bool → Outcome c.Value → World → Prop} (hc : c.claim? = none)
    (hmodest : c.isModest = true)
    (hsuits : ∀ w', d.start.Orderly w' → w.LeadsTo d.calm held w' → w'.Suits c)
    (h : ∀ w' w'', d.start.Orderly w' → w.LeadsTo d.calm held w' → w'.Lets d.calm c →
      d.start.Orderly w'' → (w'.answer c).2.LeadsTo d.calm held w'' → w'.LeadsTo d.calm held w'' →
      Q owed (w'.answer c).1 w'') : (Program.perform c).Tends d held Q owed w :=
  perform hc hsuits fun w' hs hr hl => ⟨owed, Watch.pays_modest hs hl hmodest,
    fun w'' hs'' hr' hr'' => h w' w'' hs hr hl hs'' hr' hr''⟩

end Tends

/-! ## Driving a container -/

section Driving

variable {platform : PlatformSettings} {h : Handle}

/-- A container is started, or restarted, and its routes are to be put right. -/
theorem tends_start {c : Call} (hc : c = .start h ∨ c = .restart h) : (perform c).Tends d held
    (fun owed r w' => (∃ u, r = .ok u) ∧ owed = decide (h.id = d.id) ∧ (d.calm h.id → w'.Up h.id))
    false w := by
  refine .perform (by rcases hc with rfl | rfl <;> rfl)
    (fun _ _ _ => by rcases hc with rfl | rfl <;> rfl) fun w' hs hr hl => ?_
  obtain ⟨u, hok⟩ := w'.ok_of_serves (c := c) (by rcases hc with rfl | rfl <;> rfl) hl.1
  obtain ⟨hpays, hup⟩ := Watch.pays_started hc hs hl
  exact ⟨_, hpays, fun w'' _ hr' _ => ⟨⟨u, hok⟩, rfl, fun hcalm => hr'.up _ hcalm hup⟩⟩

/-- A container is stopped, and is not to have routes any more. -/
theorem tends_stop : (perform (.stop h)).Tends d held
    (fun owed' r _ => (∃ u, r = .ok u) ∧ owed' = (owed && decide (h.id ≠ d.id))) owed w := by
  refine .perform rfl (fun _ _ _ => rfl) fun w' hs hr hl => ?_
  obtain ⟨u, hok⟩ := w'.ok_of_serves (c := .stop h) rfl hl.1
  exact ⟨_, Watch.pays_withdrawn (.inl rfl) hs hl, fun _ _ _ _ => ⟨⟨u, hok⟩, rfl⟩⟩

/-- A container is inspected, and its routes are published. -/
theorem tends_routeEndpoints (p : Plugin) (hup : d.calm h.id → w.Up h.id) :
    (routeEndpoints platform h p).Tends d held
      (fun owed' r _ => r = .ok () ∧ owed' = (owed && decide (h.id ≠ d.id))) owed w := by
  refine .surely (P := fun owed' current w' => owed' = owed ∧ current.id = h.id ∧
      (d.calm h.id → w'.Up h.id)) (.modest rfl rfl (fun _ _ _ => rfl)
    fun w' w'' _ hr hl _ _ hr' => ?_) fun owed' current w' _ h' => ?_
  · obtain ⟨current, hok⟩ := w'.ok_of_serves (c := .inspect h) rfl hl.1
    obtain ⟨c, hfind, hread⟩ := (w'.answer_inspect h).2 current hok
    refine ⟨current, hok, rfl, ?_, fun hcalm => (hr.trans hr').up _ hcalm (hup hcalm)⟩
    rw [(Runtime.readFrom_of_handleOf hread).id, (Engine.find?_eq_some hfind).2]
  · obtain ⟨rfl, hid, hup'⟩ := h'
    refine .perform rfl (fun _ _ _ => rfl) fun w'' hs hr hl => ?_
    obtain ⟨u, hok⟩ := w''.ok_of_serves (c := .route (.publish current.id _)) rfl hl.1
    rw [hid] at hok ⊢
    exact ⟨_, Watch.pays_published hs (fun hcalm => hr.up _ hcalm (hup' hcalm)) _,
      fun _ _ _ _ => ⟨hok, rfl⟩⟩

/-- What a look at the plugin of a container leads to: nothing is to be put right, or the plugin has
endpoints. -/
def IsFound (d : Watch) (h : Handle) (owed owed' : Bool) (found : Except Refusal Plugin)
    (w : World) : Prop :=
  (∃ r, found = .error r ∧ r.isAbsence = true ∧ owed' = (owed && decide (h.id ≠ d.id))) ∨
  (∃ p, found = .ok p ∧ p.endpoints = [] ∧ owed' = (owed && decide (h.id ≠ d.id))) ∨
  ∃ p, found = .ok p ∧ p.endpoints ≠ [] ∧ owed' = owed ∧ (d.calm h.id → w.Up h.id)

theorem tends_lookUp (hup : d.calm h.id → w.Up h.id) (hk : w.Knows h) :
    (attempt (Program.perform (.plugin h.tag.withoutService))).Tends d held
      (fun owed' r w' => ∃ found, r = .ok found ∧ IsFound d h owed owed' found w') owed w := by
  refine .andThen (.perform rfl (fun _ _ _ => rfl) fun w' hs hr hl => ?_)
  have hinforms := hl.2.1
  have hsame := hs.plugin_eq h.tag.withoutService
  have hanswer : w'.answer (.plugin h.tag.withoutService) =
      (Hub.plugin w'.disk w'.broker.hub h.tag.withoutService, w') := rfl
  have hexcused (hnone : ∀ p, Hub.plugin d.start.disk d.start.broker.hub h.tag.withoutService
      = .ok p → p.endpoints = []) : d.Pays owed (owed && decide (h.id ≠ d.id)) w' w' := by
    refine Watch.pays_excused fun htrue hfalse => ?_
    have hid : h.id = d.id := by simpa [htrue] using hfalse
    rintro (⟨-, hwants, -⟩ | ⟨hcalm, -, hdown⟩)
    · exact Watch.not_wants (hr.knows hs.dependable.numbered hk) hid hnone hwants
    · rw [← hid] at hcalm hdown
      exact hdown (hr.up _ hcalm (hup hcalm))
  unfold World.informs at hinforms
  dsimp only at hinforms
  rw [hanswer]
  cases hp : Hub.plugin w'.disk w'.broker.hub h.tag.withoutService with
  | error e =>
    rw [hp] at hsame hinforms
    cases e with
    | breakage b => cases hinforms
    | refusal r =>
      refine ⟨_, hexcused fun p hp' => ?_, fun w'' _ _ _ w₃ _ _ => ?_⟩
      · rw [← hsame] at hp'
        cases hp'
      · exact ⟨_, rfl, .inl ⟨r, rfl, hinforms, rfl⟩⟩
  | ok p =>
    rw [hp] at hsame
    by_cases hempty : p.endpoints = []
    · refine ⟨_, hexcused fun p' hp' => ?_, fun w'' _ _ _ w₃ _ _ => ?_⟩
      · obtain rfl := Except.ok.inj (hsame.trans hp')
        exact hempty
      · exact ⟨_, rfl, .inr (.inl ⟨p, rfl, hempty, rfl⟩)⟩
    · refine ⟨owed, .refl, fun w'' _ hr'' _ w₃ _ hr₃ =>
        ⟨_, rfl, .inr (.inr ⟨p, rfl, hempty, rfl, ?_⟩)⟩⟩
      exact fun hcalm => (hr.trans (hr''.trans hr₃)).up _ hcalm (hup hcalm)

/-- Publishing a container gives it its routes, if it is to have any. -/
theorem tends_publish (hup : d.calm h.id → w.Up h.id) (hk : w.Knows h) :
    (publish platform h).Tends d held
      (fun owed' r _ => r = .ok () ∧ owed' = (owed && decide (h.id ≠ d.id))) owed w := by
  unfold publish
  refine .surely (tends_lookUp hup hk) fun owed' found w' _ hfound => ?_
  rcases hfound with ⟨r, rfl, habsent, rfl⟩ | ⟨p, rfl, hempty, rfl⟩ | ⟨p, rfl, hne, rfl, hup'⟩
  · show Tends _ _ _ (if r.isAbsence then _ else _) _ _
    rw [habsent]
    exact .modest rfl rfl (fun _ _ _ => rfl) fun _ _ _ _ _ _ _ _ => ⟨rfl, rfl⟩
  · show Tends _ _ _ (if p.endpoints.isEmpty then _ else _) _ _
    rw [hempty]
    exact fun _ _ _ => ⟨rfl, rfl⟩
  · show Tends _ _ _ (if p.endpoints.isEmpty then _ else _) _ _
    rw [if_neg (by simpa using hne)]
    refine .surely (P := fun owed'' routed _ => routed = .ok () ∧
      owed'' = (owed' && decide (h.id ≠ d.id))) (.andThen ?_) fun owed'' routed w'' _ h'' => ?_
    · refine (tends_routeEndpoints p hup').weaken fun owed'' r w'' _ h'' => ?_
      obtain ⟨rfl, rfl⟩ := h''
      exact fun _ _ _ => ⟨_, rfl, rfl, rfl⟩
    · obtain ⟨rfl, rfl⟩ := h''
      exact fun _ _ _ => ⟨rfl, rfl⟩

/-- Who drops the routes of a container owes them. -/
theorem tends_retract : (retract h).Tends d held (fun owed' r w' => r = .ok () ∧
    owed' = (owed || decide (h.id = d.id)) ∧ w.LeadsTo d.calm held w') owed w := by
  unfold retract
  refine .surely (P := fun owed' dropped w' => dropped = .ok () ∧
    owed' = (owed || decide (h.id = d.id)) ∧ w.LeadsTo d.calm held w') (.andThen ?_)
    fun owed' dropped w' _ h' => ?_
  · refine .perform rfl (fun _ _ _ => rfl) fun w' hs hr hl => ?_
    obtain ⟨u, hok⟩ := w'.ok_of_serves (c := .route (.retract h.id)) rfl hl.1
    refine ⟨_, Watch.pays_retracted hs, fun w'' _ _ hr'' => ?_⟩
    rw [hok]
    exact fun _ _ hr₃ => ⟨_, rfl, rfl, rfl, hr.trans (hr''.trans hr₃)⟩
  · obtain ⟨rfl, rfl, hleads⟩ := h'
    exact fun _ _ hr => ⟨rfl, rfl, hleads.trans hr⟩

end Driving

end Program

end AppBroker
