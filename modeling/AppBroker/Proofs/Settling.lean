import AppBroker.Proofs.Request
import AppBroker.Proofs.RouteDuty

/-!
# Operations owe no routes in the end

An operation that goes on without failures publishes each container right after it started it, and
drops the routes of a container right before it stops or removes it. So it owes nobody any routes
between two of its steps with containers, and none in the end, even if it is refused
(`Request.attends_program`). It makes containers only once it has added the record or found it, and
removes a record only after it has removed all containers.
-/

namespace AppBroker

open Program Lifecycle

namespace World

/-- Whether some handles are of all containers of an application, and perhaps of others. -/
def AllOf (w : World) (k : AppKey) (hs : List Handle) : Prop :=
  ∀ c ∈ w.engine.containers, c.BelongsTo k → ∃ h ∈ hs, h.id = c.id

theorem LeadsTo.allOf {calm : String → Prop} {k : AppKey} {w w' : World} {hs : List Handle}
    (h : w.LeadsTo calm (some k) w') (hall : w.AllOf k hs) : w'.AllOf k hs := by
  intro c' hc' hck
  obtain ⟨c, hc, hid, hk⟩ := (h.secures k rfl).containers c' hc' hck
  obtain ⟨handle, hh, hhid⟩ := hall c hc hk
  exact ⟨handle, hh, hhid.trans hid⟩

theorem LeadsTo.recorded {calm : String → Prop} {k : AppKey} {w w' : World}
    (h : w.LeadsTo calm (some k) w') (hk : k.IsFiled) (hr : (w.recordAt k).isSome) :
    (w'.recordAt k).isSome := (h.secures k rfl).record hk hr

end World

namespace Program

variable {α β : Type} (d : Watch) (k : AppKey)

/-- Whether a program that holds an application and owes no routes owes none in the end, and gives
what is promised unless it fails. -/
def Settles (p : Program α) (P : α → World → Prop) (w : World) : Prop :=
  p.Tends d (some k) (fun owed r w' => owed = false ∧ ∀ a, r = .ok a → P a w') false w

/-- Whether such a program does not fail, and gives what is promised. -/
def Completes (p : Program α) (P : α → World → Prop) (w : World) : Prop :=
  p.Tends d (some k) (fun owed r w' => owed = false ∧ ∃ a, r = .ok a ∧ P a w') false w

variable {d k} {p : Program α} {P R : α → World → Prop} {w : World}

theorem Completes.settles (h : p.Completes d k P w) : p.Settles d k P w :=
  Tends.weaken h fun _ _ _ _ hr => ⟨hr.1, fun a ha => by
    obtain ⟨b, hb, hP⟩ := hr.2
    obtain rfl := Except.ok.inj (ha.symm.trans hb)
    exact hP⟩

theorem Completes.done {a : α}
    (h : ∀ w', d.start.Orderly w' → w.LeadsTo d.calm (some k) w' → P a w') :
    (Program.done (.ok a)).Completes d k P w := fun w' hs hr => ⟨rfl, a, rfl, h w' hs hr⟩

/-- What follows a program that does not fail. -/
theorem Completes.bind {Q : Bool → Outcome α → World → Prop} {p : Program β} {f : β → Program α}
    {R : β → World → Prop} (h : p.Completes d k R w)
    (hf : ∀ b w', d.start.Orderly w' → R b w' → (f b).Tends d (some k) Q false w') :
    (p.bind f).Tends d (some k) Q false w :=
  Tends.surely (P := fun owed b w' => owed = false ∧ R b w')
    (Tends.weaken h fun owed r w' _ hr => by
      obtain ⟨ho, b, hb, hR⟩ := hr
      exact ⟨b, hb, ho, hR⟩)
    fun owed b w' hs hb => by
      obtain ⟨rfl, hR⟩ := hb
      exact hf b w' hs hR

theorem Completes.attempt (h : p.Completes d k P w) :
    p.attempt.Completes d k (fun r w' => ∃ a, r = .ok a ∧ P a w') w :=
  Tends.andThen ((Tends.lasting h).weaken fun owed r w' hs hr => by
    obtain ⟨rfl, a, rfl, hP⟩ := hr w' hs (.refl w')
    exact fun w'' hs'' hr'' => ⟨rfl, _, rfl, a, rfl, by
      obtain ⟨-, b, hb, hP'⟩ := hr w'' hs'' hr''
      obtain rfl := Except.ok.inj hb
      exact hP'⟩)

namespace Settles

theorem done {o : Outcome α}
    (h : ∀ a w', o = .ok a → d.start.Orderly w' → w.LeadsTo d.calm (some k) w' → P a w') :
    (Program.done o).Settles d k P w :=
  fun w' hs hr => ⟨rfl, fun a ha => h a w' ha hs hr⟩

theorem weaken (h : p.Settles d k P w) (hP : ∀ a w', d.start.Orderly w' → P a w' → R a w') :
    p.Settles d k R w :=
  Tends.weaken h fun _ _ w' hs hr => ⟨hr.1, fun a ha => hP a w' hs (hr.2 a ha)⟩

theorem andThen {p : Program β} {f : Outcome β → Program α} {R : β → World → Prop}
    (h : p.Settles d k R w)
    (hf : ∀ r w', d.start.Orderly w' → (∀ b, r = .ok b → R b w') → (f r).Settles d k P w') :
    (p.andThen f).Settles d k P w :=
  Tends.andThen (Tends.weaken h fun owed r w' hs hr => by
    obtain ⟨rfl, hb⟩ := hr
    exact hf r w' hs hb)

theorem bind {p : Program β} {f : β → Program α} {R : β → World → Prop} (h : p.Settles d k R w)
    (hf : ∀ b w', d.start.Orderly w' → R b w' → (f b).Settles d k P w') :
    (p.bind f).Settles d k P w :=
  andThen h fun r w' hs hb => by
    cases r with
    | ok b => exact hf b w' hs (hb b rfl)
    | error e => exact done fun a _ ha _ _ => by cases ha

theorem attempt (h : p.Settles d k P w) :
    p.attempt.Settles d k (fun r w' => ∀ a, r = .ok a → P a w') w :=
  Tends.andThen ((Tends.lasting h).weaken fun owed r w' _ hr => by
    rcases r with (r | b) | a
    · exact fun w'' hs'' hr'' => ⟨(hr w'' hs'' hr'').1, by rintro _ ⟨⟩ a ⟨⟩⟩
    · exact fun w'' hs'' hr'' => ⟨(hr w'' hs'' hr'').1, by rintro _ ⟨⟩⟩
    · refine fun w'' hs'' hr'' => ⟨(hr w'' hs'' hr'').1, ?_⟩
      rintro _ ⟨⟩ _ ⟨⟩
      exact (hr w'' hs'' hr'').2 a rfl)

/-- What nobody changes, the program included, still holds in the end. -/
theorem keeping {I : World → Prop} (h : p.Settles d k P w)
    (hI : ∀ w w', d.start.Orderly w' → w.LeadsTo d.calm none w' → I w → I w') (hw : I w) :
    p.Settles d k (fun a w' => I w' ∧ P a w') w :=
  (Tends.leads h (.refl w)).weaken fun _ _ w' hs hr =>
    ⟨hr.1.1, fun a ha => ⟨hI w w' hs hr.2 hw, hr.1.2 a ha⟩⟩

/-- What is done for each in turn, where each turn finds something as the one before it did. -/
theorem forEach {f : β → Program α} {bs : List β} {I : World → Prop}
    (hI : ∀ w w', d.start.Orderly w' → w.LeadsTo d.calm (some k) w' → I w → I w')
    (hP : ∀ a w w', d.start.Orderly w' → w.LeadsTo d.calm none w' → P a w → P a w')
    (hf : ∀ b ∈ bs, ∀ w', I w' → (f b).Settles d k (fun a w'' => I w'' ∧ P a w'') w') (hw : I w) :
    (Program.forEach f bs).Settles d k (fun as w' => I w' ∧ ∀ a ∈ as, P a w') w := by
  induction bs generalizing w with
  | nil =>
    refine done fun as w' has hs hr => ⟨hI _ _ hs hr hw, fun a ha => ?_⟩
    obtain rfl := Except.ok.inj has
    cases ha
  | cons b bs ih =>
    refine bind (hf b List.mem_cons_self w hw) fun a w₂ _ h₂ => ?_
    refine bind ((ih (fun b' hb' => hf b' (List.mem_cons_of_mem b hb')) h₂.1).keeping (hP a) h₂.2)
      fun as w₃ _ h₃ => ?_
    refine done fun all w₄ hall hs₄ hr₄ => ⟨hI _ _ hs₄ hr₄ h₃.2.1, fun a' ha' => ?_⟩
    obtain rfl := Except.ok.inj hall
    rcases List.mem_cons.1 ha' with rfl | ha'
    · exact hP _ _ _ hs₄ hr₄.unheld h₃.1
    · exact hP _ _ _ hs₄ hr₄.unheld (h₃.2.2 _ ha')

/-- A modest call that claims nothing, of whose answer something is known. -/
theorem modest {c : Call} {P : c.Value → World → Prop} (hc : c.claim? = none)
    (hmodest : c.isModest = true)
    (hsuits : ∀ w', d.start.Orderly w' → w.LeadsTo d.calm (some k) w' → w'.Suits c)
    (h : ∀ a w' w'', d.start.Orderly w' → d.start.Orderly w'' → (w'.answer c).1 = .ok a →
      w.LeadsTo d.calm (some k) w' → (w'.answer c).2.LeadsTo d.calm (some k) w'' →
      w'.LeadsTo d.calm (some k) w'' → P a w'') : (perform c).Settles d k P w :=
  Tends.modest hc hmodest hsuits fun w' w'' hs hr _ hs'' hr' hr'' =>
    ⟨rfl, fun a ha => h a w' w'' hs hs'' ha hr hr' hr''⟩

end Settles

end Program

namespace Settling

variable {platform : PlatformSettings} {d : Watch} {w : World} {k : AppKey}

/-! ## Containers -/

theorem knows_after {hs : List Handle} {w w' : World} (hw' : d.start.Orderly w')
    (hr : w.LeadsTo d.calm none w') (hk : ∀ h ∈ hs, w.Knows h) : ∀ h ∈ hs, w'.Knows h :=
  fun h hh => hr.knows hw'.dependable.numbered (hk h hh)

/-- What was owed for one container and has been put right for it is not owed any more. -/
theorem met (id id' : String) : (decide (id = id') && decide (id ≠ id')) = false := by simp

/-- A container that a program has made run is published by the same program. -/
theorem published {h : Handle} {p : Program Unit} (hp : p.Tends d (some k)
      (fun owed r w' => (∃ u, r = .ok u) ∧ owed = decide (h.id = d.id) ∧ (d.calm h.id → w'.Up h.id))
      false w) (hk : w.Knows h) :
    (p.bind fun _ => publish platform h).Settles d k (fun _ _ => True) w := by
  refine Tends.surely (P := fun owed _ w' => owed = decide (h.id = d.id) ∧
      (d.calm h.id → w'.Up h.id) ∧ w'.Knows h)
    ((hp.leads (.refl w)).weaken fun owed r w' hs hr => ?_) fun owed u w' _ hr => ?_
  · obtain ⟨⟨⟨u, rfl⟩, rfl, hup⟩, hleads⟩ := hr
    exact ⟨u, rfl, rfl, hup, hleads.knows hs.dependable.numbered hk⟩
  · obtain ⟨rfl, hup, hknows⟩ := hr
    refine (tends_publish hup hknows).weaken fun owed r w'' _ hr => ⟨?_, fun _ _ => trivial⟩
    rw [hr.2, met]

theorem startOne {h : Handle} (hk : w.Knows h) :
    (startOne platform h).Settles d k (fun _ _ => True) w :=
  published (tends_start (.inl rfl)) hk

theorem restartOne {h : Handle} (hk : w.Knows h) :
    (restartOne platform h).Settles d k (fun _ _ => True) w :=
  published (tends_start (.inr rfl)) hk

/-- Something is done for each of some handles. -/
theorem forEach_known {act : Handle → Program Unit} {hs : List Handle}
    (hact : ∀ (h : Handle) w, w.Knows h → (act h).Settles d k (fun _ _ => True) w)
    (hk : ∀ h ∈ hs, w.Knows h) :
    ((forEach act hs).bind fun _ => done (.ok ())).Settles d k (fun _ _ => True) w :=
  (Settles.forEach (I := fun w' => ∀ h ∈ hs, w'.Knows h)
    (fun _ _ hs hr => knows_after hs hr.unheld) (fun _ _ _ _ _ h => h)
    (fun h hh w' hknows => (hact h w' (hknows h hh)).keeping (fun _ _ => knows_after) hknows)
    hk).bind fun _ _ _ _ => .done fun _ _ _ _ _ => trivial

theorem startAll {hs : List Handle} (hk : ∀ h ∈ hs, w.Knows h) :
    (startAll platform hs).Settles d k (fun _ _ => True) w :=
  forEach_known (fun _ _ => startOne) hk

theorem find (app tenant : String) (service : Option String) :
    (perform (.find app tenant service)).Settles d k
      (fun hs w' => (∀ h ∈ hs, w'.Knows h) ∧ w.LeadsTo d.calm (some k) w') w := by
  refine .modest rfl rfl (fun _ _ _ => rfl) fun hs w' w'' hs' hs'' hfind hr _ hr'' =>
    ⟨knows_after hs'' hr''.unheld fun h hh => ?_, hr.trans hr''⟩
  obtain ⟨c, hc, hread⟩ := World.exists_of_found hfind hh
  exact World.knows_of_read hs'.dependable.numbered hc hread

/-- A search for all containers of an application that is held finds all that there are from then
on. -/
theorem find_all : (perform (.find k.name k.tenant none)).Completes d k
    (fun hs w' => w'.AllOf k hs) w := by
  refine Tends.modest rfl rfl (fun _ _ _ => rfl) fun w' w'' _ _ hl _ _ hr => ⟨rfl, ?_⟩
  obtain ⟨hs, hok⟩ := w'.ok_of_serves (c := .find k.name k.tenant none) rfl hl.1
  refine ⟨hs, hok, hr.allOf fun c hc hck => ?_⟩
  obtain ⟨h, hh, hid, -⟩ := World.exists_found hc hck hok
  exact ⟨h, hh, hid⟩

theorem create (hk : k.IsFiled) (hr : (w.recordAt k).isSome) (tag : Tag) :
    (perform (.create k.name k.tenant tag)).Settles d k
      (fun h w' => (w'.recordAt k).isSome ∧ w'.Knows h) w := by
  intro w' hs hr' hl
  have hrecorded := hr'.recorded hk hr
  refine ⟨hrecorded, fun _ h => h, false, Watch.pays_modest hs hl rfl, fun w'' hs'' hr'' =>
    ⟨rfl, fun h hok => ⟨hr''.recorded hk ?_, ?_⟩⟩⟩
  · rw [(World.create_cases hs.dependable.numbered k tag).2.1]
    exact hrecorded
  · exact hr''.knows hs''.dependable.numbered (World.knows_of_create hs.dependable.numbered hok)

theorem createAll (hk : k.IsFiled) (hr : (w.recordAt k).isSome) (tags : List Tag) :
    (createAll k.name k.tenant tags).Settles d k
      (fun hs w' => (w'.recordAt k).isSome ∧ ∀ h ∈ hs, w'.Knows h) w :=
  .forEach (fun _ _ _ hr => hr.recorded hk)
    (fun _ _ _ hs hr hknows => hr.knows hs.dependable.numbered hknows)
    (fun tag _ _ hr => create hk hr tag) hr

/-- A sweep goes on to its end. -/
theorem sweep {act : Handle → Program Unit} {J : List Handle → World → Prop}
    (hact : ∀ h hs w, J (h :: hs) w → (act h).Completes d k (fun _ => J hs) w)
    (hJ : ∀ w w', d.start.Orderly w' → w.LeadsTo d.calm (some k) w' → J [] w → J [] w')
    {hs : List Handle} (hw : J hs w) :
    (sweep act hs).Completes d k (fun r w' => r = none ∧ J [] w') w := by
  induction hs generalizing w with
  | nil => exact .done fun w' hs hr => ⟨rfl, hJ _ _ hs hr hw⟩
  | cons h hs ih =>
    refine (hact h hs w hw).attempt.bind fun r w' _ hr => ?_
    obtain ⟨u, rfl, hJ⟩ := hr
    exact ih hJ

theorem sweepStrictly {act : Handle → Program Unit} {J : List Handle → World → Prop}
    (hact : ∀ h hs w, J (h :: hs) w → (act h).Completes d k (fun _ => J hs) w)
    (hJ : ∀ w w', d.start.Orderly w' → w.LeadsTo d.calm (some k) w' → J [] w → J [] w')
    {hs : List Handle} (hw : J hs w) :
    (sweepStrictly act hs).Completes d k (fun _ => J []) w :=
  (sweep hact hJ hw).bind fun r w' _ hr => by
    obtain ⟨rfl, hJ'⟩ := hr
    exact Completes.done fun w'' hs hr => hJ _ _ hs hr hJ'

theorem stopOne (h : Handle) : (stopOne h).Completes d k (fun _ _ => True) w :=
  Tends.surely (P := fun owed _ _ => owed = decide (h.id = d.id))
    (tends_retract.weaken fun owed r _ _ hr => ⟨(), hr.1, by simpa using hr.2.1⟩)
    fun owed _ w' _ ho => tends_stop.weaken fun owed' r _ _ hr => by
      obtain ⟨⟨u, rfl⟩, rfl⟩ := hr
      refine ⟨?_, u, rfl, trivial⟩
      rw [ho, met]

/-- A container is removed, and then some handles are of all containers of an application if they
were so with its own. -/
theorem destroy {owed : Bool} (h : Handle) (hs : List Handle) :
    (perform (.destroy h)).Tends d (some k) (fun owed' r w' => (∃ u, r = .ok u) ∧
      owed' = (owed && decide (h.id ≠ d.id)) ∧ (w.AllOf k (h :: hs) → w'.AllOf k hs)) owed w := by
  refine .perform rfl (fun _ _ _ => trivial) fun w' hs' hr hl => ?_
  obtain ⟨u, hok⟩ := w'.ok_of_serves (c := .destroy h) rfl hl.1
  refine ⟨_, Watch.pays_withdrawn (.inr rfl) hs' hl, fun w'' _ hr'' _ => ⟨⟨u, hok⟩, rfl,
    fun hall => hr''.allOf fun c hc hck => ?_⟩⟩
  obtain ⟨hne, hmem⟩ := w'.mem_of_destroyed hs'.dependable.truthful hok hc
  obtain ⟨handle, hh, hid⟩ := hr.allOf hall c hmem hck
  refine ⟨handle, (List.mem_cons.1 hh).resolve_left ?_, hid⟩
  rintro rfl
  exact hne hid.symm

theorem destroyOne (h : Handle) (hs : List Handle) : (destroyOne h).Completes d k
    (fun _ w' => w.AllOf k (h :: hs) → w'.AllOf k hs) w :=
  Tends.surely (P := fun owed _ w' => owed = decide (h.id = d.id) ∧
      (w.AllOf k (h :: hs) → w'.AllOf k (h :: hs)))
    (tends_retract.weaken fun owed r _ _ hr =>
      ⟨(), hr.1, by simpa using hr.2.1, hr.2.2.allOf⟩)
    fun owed _ w' _ ho => (destroy h hs).weaken fun owed' r w'' _ hr => by
      obtain ⟨⟨u, rfl⟩, rfl, hall⟩ := hr
      refine ⟨?_, u, rfl, hall ∘ ho.2⟩
      rw [ho.1, met]

/-- No containers of an application are left when all have been removed. -/
theorem sweep_all {hs : List Handle} (hall : w.AllOf k hs) :
    (Lifecycle.sweep Lifecycle.destroyOne hs).Completes d k
      (fun r w' => r = none ∧ w'.AllOf k []) w :=
  sweep (J := fun hs w => w.AllOf k hs) (fun h hs _ hall => (destroyOne h hs).weaken
    fun _ _ _ _ hr => ⟨hr.1, by
      obtain ⟨a, ha, hgone⟩ := hr.2
      exact ⟨a, ha, hgone hall⟩⟩) (fun _ _ _ hr => hr.allOf) hall

theorem removeRecord (hk : k.IsFiled) (hall : w.AllOf k []) :
    (perform (.removeRecord k.tenant k.name)).Settles d k (fun _ _ => True) w := by
  intro w' hs hr hl
  refine ⟨⟨hk, fun c hc hck => ?_⟩, fun _ h => h, false, Watch.pays_modest hs hl rfl,
    fun _ _ _ => ⟨rfl, fun _ _ => trivial⟩⟩
  obtain ⟨h, hh, -⟩ := hr.allOf hall c hc hck
  cases hh

theorem warn (severity : Severity) (text : String) :
    (warn severity text).Settles d k (fun _ _ => True) w :=
  .modest rfl rfl (fun _ _ _ => rfl) fun _ _ _ _ _ _ _ _ _ => trivial

/-! ## Records -/

theorem record (hk : k.IsFiled) : (perform (.record k.tenant k.name)).Settles d k
    (fun found w' => ∀ r, found = some r → Store.Fit r ∧ (w'.recordAt k).isSome) w := by
  refine .modest rfl rfl (fun _ _ _ => hk) fun found w' w'' hs _ hfound _ _ hr r hsome => ?_
  have hstoring := hs.dependable.storing
  rcases World.answer_record hstoring hk k.name with ha | ⟨e, ha⟩ <;> rw [ha] at hfound
  · have hat : w'.recordAt k = some r := (Except.ok.inj hfound).trans hsome
    exact ⟨(hstoring.fit hk hat).1, hr.recorded hk (by rw [hat]; rfl)⟩
  · cases hfound

theorem addRecord (hk : k.IsFiled) {r : Record} (hname : r.name = k.name) (hfit : Store.Fit r) :
    (perform (.addRecord k.tenant r)).Settles d k (fun _ w' => (w'.recordAt k).isSome) w := by
  refine .modest rfl rfl (fun _ _ _ => ⟨hk, hfit⟩) fun u w' w'' hs _ hok _ hr _ =>
    hr.recorded hk ?_
  rcases World.answer_addRecord hs.dependable.storing hk hfit with ⟨e, ha⟩ | ⟨w₁, ha, -, -, -, hat⟩
  · rw [ha] at hok
    cases hok
  · rw [ha, hat k hk, if_pos (by rw [hname])]
    rfl

theorem replaceRecord (hk : k.IsFiled) {r : Record} (hfit : Store.Fit r) :
    (perform (.replaceRecord k.tenant r)).Settles d k (fun _ _ => True) w :=
  .modest rfl rfl (fun _ _ _ => ⟨hk, hfit⟩) fun _ _ _ _ _ _ _ _ _ => trivial

variable {caller : Caller} {name : String}

theorem recordOf (hk : (caller.key name).IsFiled) :
    (recordOf caller name).Settles d (caller.key name)
      (fun r w' => Store.Fit r ∧ (w'.recordAt (caller.key name)).isSome) w := by
  unfold Lifecycle.recordOf Caller.required
  split
  · exact .done fun _ _ ho _ _ => by cases ho
  · refine (record hk).bind fun found w' _ hfound => ?_
    cases found with
    | none => exact .done fun _ _ ho _ _ => by cases ho
    | some r =>
      refine .done fun r' w'' hr' _ hleads => ?_
      obtain rfl := Except.ok.inj hr'
      obtain ⟨hfit, hsome⟩ := hfound r rfl
      exact ⟨hfit, hleads.recorded hk hsome⟩

/-! ## Turns -/

theorem quietly {p : Program Unit} (h : p.Settles d k (fun _ _ => True) w) :
    (Request.quietly p).Settles d k (fun _ _ => True) w :=
  h.andThen fun _ _ _ _ => .done fun _ _ _ _ _ => trivial

theorem rollBack (hk : k.IsFiled) :
    (rollBack k.name k.tenant).Settles d k (fun _ _ => True) w := by
  have hcleaned : ((perform (.find k.name k.tenant none)).bind fun hs =>
      Lifecycle.sweepStrictly Lifecycle.destroyOne hs).Completes d k
        (fun _ w' => w'.AllOf k []) w :=
    find_all.bind fun hs w' _ hall => (sweep_all hall).bind fun r w'' _ hr => by
      obtain ⟨rfl, hnone⟩ := hr
      exact Completes.done fun _ _ hr => hr.allOf hnone
  refine Completes.bind hcleaned.attempt fun cleaned w' _ hr => ?_
  obtain ⟨u, rfl, hnone⟩ := hr
  exact removeRecord hk hnone

theorem populateOrUndo (hk : k.IsFiled) (hr : (w.recordAt k).isSome) (tags : List Tag)
    (scaling : Int) : (populateOrUndo k.name k.tenant tags scaling).Settles d k
      (fun hs w' => ∀ h ∈ hs, w'.Knows h) w := by
  have hpopulate : (populate k.name k.tenant tags scaling).Settles d k
      (fun hs w' => ∀ h ∈ hs, w'.Knows h) w := by
    refine (createAll hk hr _).bind fun made w₁ _ h₁ => ?_
    refine ((createAll hk h₁.1 _).keeping (fun _ _ => knows_after) h₁.2).bind fun more w₂ _ h₂ => ?_
    refine .done fun all w₃ hall hs₃ hr₃ h hh => ?_
    obtain rfl := Except.ok.inj hall
    refine hr₃.unheld.knows hs₃.dependable.numbered ?_
    rcases List.mem_append.1 hh with hh | hh
    · exact h₂.1 h hh
    · exact h₂.2.2 h hh
  refine hpopulate.attempt.bind fun populated w₁ _ hmade => ?_
  rcases populated with r | handles
  · exact (warn .error _).bind fun _ _ _ _ => (rollBack hk).bind fun _ _ _ _ =>
      .done fun _ _ ho _ _ => by cases ho
  · refine .done fun all w₂ hall hs₂ hr₂ => ?_
    obtain rfl := Except.ok.inj hall
    exact knows_after hs₂ hr₂.unheld (hmade _ rfl)

theorem createHeld (hk : (caller.key name).IsFiled) (framework : String) (services : List String)
    {scaling : Int} (hscaling : 1 ≤ scaling) (start : Bool) :
    (createHeld platform caller name framework services scaling start).Settles d (caller.key name)
      (fun _ _ => True) w := by
  refine (record hk).bind fun found w₁ _ _ => ?_
  show Settles _ _ (if found.isSome then _ else _) _ _
  split
  · exact .done fun _ _ _ _ _ => trivial
  refine Settles.bind (R := fun _ _ => True) (.modest rfl rfl (fun _ _ _ => rfl)
    fun _ _ _ _ _ _ _ _ _ => trivial) fun composition w₂ _ _ => ?_
  refine Settles.bind (R := fun (createdAt : Moment) _ => createdAt.IsReal) (.modest rfl rfl
    (fun _ _ _ => rfl) fun createdAt w' _ hs _ hnow _ _ _ => ?_) fun createdAt w₃ _ hreal => ?_
  · obtain rfl := Except.ok.inj hnow
    exact hs.dependable.storing.real
  refine (addRecord (k := caller.key name) hk rfl ⟨hscaling, hreal⟩).bind fun _ w₄ _ hr => ?_
  refine (populateOrUndo hk hr _ scaling).bind fun handles w₅ _ hmade => ?_
  show Settles _ _ (if start then _ else _) _ _
  split
  · exact (startAll hmade).bind fun _ _ _ _ => .done fun _ _ _ _ _ => trivial
  · exact .done fun _ _ _ _ _ => trivial

/-- What is done with all containers of an application that has a record. -/
theorem found (hk : (caller.key name).IsFiled) {act : List Handle → Program Unit}
    (hact : ∀ hs (w' : World), (∀ h ∈ hs, w'.Knows h) →
      (act hs).Settles d (caller.key name) (fun _ _ => True) w') :
    ((Lifecycle.recordOf caller name).bind fun _ =>
      (perform (.find name caller.tenant none)).bind act).Settles d (caller.key name)
        (fun _ _ => True) w :=
  (recordOf hk).bind fun _ _ _ _ => (find name caller.tenant none).bind fun hs w' _ hknows =>
    hact hs w' hknows.1

theorem grow (hk : (caller.key name).IsFiled) (hr : (w.recordAt (caller.key name)).isSome)
    (r : Record) (current : List Handle) (target : Int) :
    (grow platform caller r name current target).Settles d (caller.key name)
      (fun _ _ => True) w := by
  unfold Lifecycle.grow
  refine Settles.bind (R := fun _ w' => (w'.recordAt (caller.key name)).isSome)
    (.done fun _ _ _ _ hleads => hleads.recorded hk hr) fun tag w₁ _ hr₁ => ?_
  refine (createAll hk hr₁ _).bind fun added w₂ _ hmade => ?_
  split
  · exact startAll hmade.2
  · exact .done fun _ _ _ _ _ => trivial

theorem scaleHeld (hk : (caller.key name).IsFiled) {target : Int} (htarget : 1 ≤ target) :
    (scaleHeld platform caller name target).Settles d (caller.key name) (fun _ _ => True) w := by
  refine (recordOf hk).bind fun r w₁ _ hfound => ?_
  obtain ⟨hfit, hr⟩ := hfound
  refine (find name caller.tenant (some "")).bind fun current w₂ _ hfound => ?_
  have hadjust : (adjust platform caller r name current target).Settles d (caller.key name)
      (fun _ _ => True) w₂ := by
    unfold adjust
    split
    · exact grow hk (hfound.2.recorded hk hr) r current target
    split
    · exact (sweepStrictly (J := fun _ _ => True) (fun h hs _ _ => (destroyOne h hs).weaken
        fun _ _ _ _ hr => ⟨hr.1, hr.2.imp fun _ ha => ⟨ha.1, trivial⟩⟩) (fun _ _ _ _ h => h)
        trivial).settles
    · exact .done fun _ _ _ _ _ => trivial
  refine hadjust.bind fun _ w₃ _ _ => ?_
  have hend (w : World) :
      (frameworkContainers caller name).Settles d (caller.key name) (fun _ _ => True) w :=
    (find name caller.tenant (some "")).weaken fun _ _ _ _ => trivial
  show Settles _ _ (if r.scaling ≠ target then _ else _) _ _
  split
  · exact (replaceRecord (k := caller.key name) (r := { r with scaling := target }) hk
      ⟨htarget, hfit.created⟩).bind fun _ w₄ _ _ => hend w₄
  · exact hend w₃

theorem removeHeld (hk : (caller.key name).IsFiled) :
    (removeHeld name caller.tenant).Settles d (caller.key name) (fun _ _ => True) w := by
  refine (record hk).bind fun record w₁ _ _ => ?_
  refine Completes.bind (find_all (k := caller.key name)) fun handles w₂ _ hall => ?_
  show Settles _ _ (if (record.isNone && handles.isEmpty) = true then _ else _) _ _
  split
  · exact .done fun _ _ _ _ _ => trivial
  refine Completes.bind (sweep_all hall) fun failure w₃ _ hr => ?_
  obtain ⟨rfl, hnone⟩ := hr
  show Settles _ _ (if record.isSome then _ else _) _ _
  split
  · exact (removeRecord (k := caller.key name) hk hnone).bind fun _ w₄ _ _ =>
      .done fun _ _ _ _ _ => trivial
  · exact .done fun _ _ _ _ _ => trivial

theorem turn {r : Request} (hk : ∀ name, (r.caller.key name).IsFiled)
    (hcheck : r.check = .ok ()) (hgiven : ∀ h ∈ r.handles, w.Knows h) (hname : name ∈ r.names) :
    (r.turn platform name).Settles d (r.caller.key name) (fun _ _ => True) w := by
  obtain ⟨caller, operation⟩ := r
  cases operation with
  | create name' framework services scaling start =>
    obtain rfl := List.mem_singleton.1 hname
    exact createHeld (hk name) framework services (Request.checkCreate_eq_ok hcheck).2.2.1 start
  | startContainers hs => exact quietly (startAll fun h hh => hgiven h (List.mem_filter.1 hh).1)
  | start name' =>
    obtain rfl := List.mem_singleton.1 hname
    exact quietly (found (hk name) fun hs _ hknows => startAll hknows)
  | stop name' =>
    obtain rfl := List.mem_singleton.1 hname
    exact quietly (found (hk name) fun hs _ _ => (sweepStrictly (J := fun _ _ => True)
      (fun h _ _ _ => stopOne h) (fun _ _ _ _ h => h) trivial).settles)
  | restart name' =>
    obtain rfl := List.mem_singleton.1 hname
    exact quietly (found (hk name) fun hs _ hknows => forEach_known (fun _ _ => restartOne) hknows)
  | scale name' target =>
    obtain rfl := List.mem_singleton.1 hname
    have htarget : 1 ≤ target := by
      unfold Request.check at hcheck
      dsimp only at hcheck
      split at hcheck
      · cases hcheck
      · omega
    exact scaleHeld (hk name) htarget
  | remove name' =>
    obtain rfl := List.mem_singleton.1 hname
    exact quietly (removeHeld (hk name))

end Settling

/-! ## Whole programs -/

namespace Program

variable {α β : Type} (d : Watch)

/-- Whether what is left of a program, holding an application or none, be something owed or not,
tends its duty, gives up what it holds and owes nothing in the end. -/
def Attends : Program α → Option AppKey → Bool → World → Prop
  | .done _, held, owed, _ => held = none ∧ owed = false
  | .call c next, held, owed, w => ∀ w', d.start.Orderly w' → w.LeadsTo d.calm held w' →
      w'.Lets d.calm c → w'.Suits c ∧ (∀ k, c.claim? = some k → held = some k) ∧
        ∃ owed', d.Pays owed owed' w' (w'.answer c).2 ∧
          (next (w'.answer c).1).Attends held owed' (w'.answer c).2
  | .lock k next, none, owed, w => ∀ w', d.start.Orderly w' → w.LeadsTo d.calm none w' →
      next.Attends (some k) owed w'
  | .unlock k next, some k', owed, w => k = k' ∧ ∀ w', d.start.Orderly w' →
      w.LeadsTo d.calm none w' → next.Attends none owed w'
  | _, _, _, _ => False

variable {d} {p : Program α} {held : Option AppKey} {owed : Bool} {w w' : World} {k : AppKey}

namespace Attends

theorem after (h : p.Attends d held owed w) (hw : w.LeadsTo d.calm held w') :
    p.Attends d held owed w' := by
  cases p with
  | done r => exact h
  | call c next => exact fun w'' hs hr => h w'' hs (hw.trans hr)
  | lock key next =>
    cases held with
    | none => exact fun w'' hs hr => h w'' hs (hw.trans hr)
    | some k => exact h
  | unlock key next =>
    cases held with
    | none => exact h
    | some k => exact ⟨h.1, fun w'' hs hr => h.2 w'' hs (hw.unheld.trans hr)⟩

/-- A program that attends and runs by itself leaves no routes astray. -/
theorem run (h : p.Attends d held owed w) (hw : d.start.Orderly w)
    (hl : p.Along (fun c w => w.Lets d.calm c) w) (howed : d.Astray w → owed = true) :
    d.start.Orderly (p.run w).2 ∧ ¬ d.Astray (p.run w).2 := by
  induction p generalizing held owed w with
  | done r => exact ⟨hw, fun hastray => absurd (howed hastray) (by simp [h.2])⟩
  | call c next ih =>
    obtain ⟨hsuits, -, owed', hpays, hnext⟩ := h w hw (.refl w) hl.1
    exact ih _ hnext (hw.answer hsuits) hl.2 (Watch.Pays.still_owed hpays howed)
  | lock key next ih =>
    cases held with
    | none => exact ih (h w hw (.refl w)) hw hl howed
    | some k => exact h.elim
  | unlock key next ih =>
    cases held with
    | none => exact h.elim
    | some k => exact ih (h.2 w hw (.refl w)) hw hl howed

/-- A program without locks attends if it owes nothing in the end. -/
theorem of_tends (hw : d.start.Orderly w)
    (h : p.Tends d none (fun owed _ _ => owed = false) owed w) : p.Attends d none owed w := by
  induction p generalizing owed w with
  | done r => exact ⟨rfl, h w hw (.refl w)⟩
  | call c next ih =>
    intro w' hs hr hl
    obtain ⟨hsuits, hclaim, owed', hpays, hnext⟩ := h w' hs hr hl
    exact ⟨hsuits, hclaim, owed', hpays, ih _ (hs.answer hsuits) hnext⟩
  | lock key next => exact absurd (.refl w) (h w hw)
  | unlock key next => exact absurd (.refl w) (h w hw)

/-- What is done while an application is held, and what follows it. -/
theorem inside {p : Program β} {f : Outcome β → Program α} {w₁ : World} (hw : d.start.Orderly w)
    (h : p.Tends d (some k) (fun owed _ _ => owed = false) owed w)
    (hleads : w₁.LeadsTo d.calm none w)
    (hf : ∀ r w', d.start.Orderly w' → w₁.LeadsTo d.calm none w' → (f r).Attends d none false w') :
    (p.andThen fun r => unlock k (f r)).Attends d (some k) owed w := by
  induction p generalizing owed w with
  | done r =>
    obtain rfl := h w hw (.refl w)
    exact ⟨rfl, fun w' hs hr => hf r w' hs (hleads.trans hr)⟩
  | call c next ih =>
    intro w' hs hr hl
    obtain ⟨hsuits, hclaim, owed', hpays, hnext⟩ := h w' hs hr hl
    refine ⟨hsuits, hclaim, owed', hpays, ih _ (hs.answer hsuits) hnext ?_⟩
    exact hleads.trans (hr.unheld.trans (World.leadsTo_answer hs hsuits hl.2.2 nofun))
  | lock key next => exact absurd (.refl w) (h w hw)
  | unlock key next => exact absurd (.refl w) (h w hw)

theorem holding {p : Program β} {f : Outcome β → Program α}
    (h : ∀ w', d.start.Orderly w' → w.LeadsTo d.calm none w' →
      p.Settles d k (fun _ _ => True) w')
    (hf : ∀ r w', d.start.Orderly w' → w.LeadsTo d.calm none w' → (f r).Attends d none false w') :
    ((Program.holding k p).andThen f).Attends d none false w := by
  rw [holding_andThen]
  exact fun w' hs hr => inside hs (Tends.weaken (h w' hs hr) fun _ _ _ _ h => h.1) hr hf

end Attends

end Program

namespace Request

variable {platform : PlatformSettings} {d : Watch} {w : World}

/-- Turns at applications attend, and so does what follows them, if each turn settles. -/
theorem attends_forEach {α β δ : Type} {key : δ → AppKey} {f : δ → Program β} {ds : List δ}
    {g : Outcome (List β) → Program α} (hturn : ∀ e ∈ ds, ∀ w', d.start.Orderly w' →
      w.LeadsTo d.calm none w' → (f e).Settles d (key e) (fun _ _ => True) w')
    (hg : ∀ r w', d.start.Orderly w' → w.LeadsTo d.calm none w' → (g r).Attends d none false w')
    (hdone : (g (.ok [])).Attends d none false w) :
    ((forEach (fun e => holding (key e) (f e)) ds).andThen g).Attends d none false w := by
  induction ds generalizing g w with
  | nil => exact hdone
  | cons e ds ih =>
    unfold forEach Program.bind
    rw [andThen_assoc]
    refine .holding (hturn e List.mem_cons_self) fun r w' hs hr => ?_
    cases r with
    | error e => exact hg _ w' hs hr
    | ok b =>
      simp only [andThen_assoc]
      refine ih
        (fun e' he w'' hs' hr' => hturn e' (List.mem_cons_of_mem e he) w'' hs' (hr.trans hr'))
        (fun r' w'' hs' hr' => ?_) ?_
      · cases r' <;> exact hg _ w'' hs' (hr.trans hr')
      · exact hg _ w' hs hr

/-- A request of a tenant with a file of its own attends, if the handles that it is given are of
containers that are there or were. -/
theorem attends_program {r : Request} (hk : '/' ∉ r.caller.tenant.toList)
    (hgiven : ∀ h ∈ r.handles, w.Knows h) : (r.program platform).Attends d none false w := by
  rw [program_eq]
  cases hcheck : r.check with
  | error e => exact ⟨rfl, rfl⟩
  | ok u =>
    refine attends_forEach (fun name hname w' hs hr => ?_) (fun o w' _ _ => ?_) ⟨rfl, rfl⟩
    · exact Settling.turn (fun _ => hk) hcheck
        (fun h hh => hr.knows hs.dependable.numbered (hgiven h hh)) hname
    · cases o <;> exact ⟨rfl, rfl⟩

end Request

end AppBroker
