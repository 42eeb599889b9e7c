import AppBroker.Proofs.Isolation
import AppBroker.Proofs.Settling

/-!
# Routing everything anew while operations go on

To route everything anew drops all routes and then goes through the tenants, their records and the
containers of each. It holds no lock, so it may publish a container by what it saw long before. It
owes each container that runs its routes from the moment it has dropped them until it has published
it; what is started meanwhile is owed its routes by who starts it, and what is stopped meanwhile is
owed none. So whatever goes on, a container that runs in the end has its routes, unless its tenant
is one that the store does not list. A container that has routes in the end runs if nobody has taken
it down meanwhile (`routes_follow_containers`), and one that was stopped may get its routes back
(`Resync.stopped_container_is_routed`).
-/

namespace AppBroker

open Program Lifecycle

namespace Program

variable {α β : Type} (d : Watch)

/-- Whether a program does not fail and takes on no duty, and owes nothing in the end if a condition
is met. -/
def Clears (D : Prop) (p : Program α) (owed : Bool) (w : World) : Prop :=
  p.Tends d none (fun owed' r _ => (∃ a, r = .ok a) ∧ (owed' = true → owed = true ∧ ¬ D)) owed w

namespace Clears

variable {d} {D : Prop} {owed : Bool} {w : World}

theorem done (a : α) : (Program.done (.ok a)).Clears d False owed w :=
  fun _ _ _ => ⟨⟨a, rfl⟩, fun h => ⟨h, not_false⟩⟩

/-- One program after the other, where the duty may be met by either. -/
theorem bind {D' : Prop} {p : Program β} {f : β → Program α} (h : p.Clears d D owed w)
    (hf : ∀ owed' b w', (owed' = true → owed = true) → d.start.Orderly w' →
      w.LeadsTo d.calm none w' → (f b).Clears d D' owed' w') :
    (p.bind f).Clears d (D ∨ D') owed w := by
  refine .surely (P := fun owed' _ w' => (owed' = true → owed = true ∧ ¬ D) ∧
      w.LeadsTo d.calm none w')
    ((Tends.leads h (.refl w)).weaken fun owed' r w' _ hr => ?_) fun owed' b w' hs hb => ?_
  · obtain ⟨⟨⟨a, rfl⟩, howed⟩, hleads⟩ := hr
    exact ⟨a, rfl, howed, hleads⟩
  · obtain ⟨howed, hleads⟩ := hb
    refine (hf owed' b w' (fun h => (howed h).1) hs hleads).weaken fun owed'' r _ _ hr => ?_
    refine ⟨hr.1, fun h => ?_⟩
    obtain ⟨h', hD'⟩ := hr.2 h
    exact ⟨(howed h').1, not_or.2 ⟨(howed h').2, hD'⟩⟩

theorem imp {D' : Prop} {p : Program α} (h : p.Clears d D owed w)
    (hD : owed = true → D' → D) : p.Clears d D' owed w :=
  Tends.weaken h fun _ _ _ _ hr => ⟨hr.1, fun ho => ⟨(hr.2 ho).1, mt (hD (hr.2 ho).1) (hr.2 ho).2⟩⟩

/-- What is done for each in turn meets the duty if it does so for one of them. -/
theorem forEach {f : β → Program α} {D : β → Prop} {bs : List β}
    (hf : ∀ b ∈ bs, ∀ owed' w', (owed' = true → owed = true) → d.start.Orderly w' →
      w.LeadsTo d.calm none w' → (f b).Clears d (D b) owed' w') :
    (Program.forEach f bs).Clears d (∃ b ∈ bs, D b) owed w := by
  induction bs generalizing owed w with
  | nil => exact (done []).imp fun _ ⟨b, hb, _⟩ => by cases hb
  | cons b bs ih =>
    refine Tends.of_after fun w₁ hs₁ hr₁ => ?_
    have hfirst := hf b List.mem_cons_self owed w₁ (fun h => h) hs₁ hr₁
    have hrest (owed' : Bool) (w₂ : World) (ho : owed' = true → owed = true)
        (hr₂ : w₁.LeadsTo d.calm none w₂) :
        (Program.forEach f bs).Clears d (∃ b ∈ bs, D b) owed' w₂ :=
      ih fun b' hb' owed'' w₃ ho' hs₃ hr₃ =>
        hf b' (List.mem_cons_of_mem b hb') owed'' w₃ (ho ∘ ho') hs₃ (hr₁.trans (hr₂.trans hr₃))
    refine (bind hfirst fun owed' a w₂ ho _ hr₂ => bind (hrest owed' w₂ ho hr₂)
      fun _ as _ _ _ _ => done (a :: as)).imp ?_
    rintro - ⟨b', hb', hD⟩
    rcases List.mem_cons.1 hb' with rfl | hb'
    · exact .inl hD
    · exact .inr (.inl ⟨b', hb', hD⟩)

/-- What is made of the outcomes in the end is no call. -/
theorem forEach_done {γ : Type} {f : β → Program α} {g : List α → γ} {D : β → Prop} {bs : List β}
    (hf : ∀ b ∈ bs, ∀ owed' w', (owed' = true → owed = true) → d.start.Orderly w' →
      w.LeadsTo d.calm none w' → (f b).Clears d (D b) owed' w') :
    ((Program.forEach f bs).bind fun as => Program.done (.ok (g as))).Clears d
      (∃ b ∈ bs, D b) owed w :=
  (bind (forEach hf) fun _ _ _ _ _ _ => done _).imp fun _ => .inl

end Clears

end Program

section Resync

variable {platform : PlatformSettings} {d : Watch} {w : World} {k : AppKey} {owed : Bool}

/-- Whether routes that are owed are those of a container of an application that the store lists,
which may run without them. -/
def Watch.Owes (d : Watch) (k : AppKey) (owed : Bool) (w : World) : Prop :=
  owed = true → ¬ d.calm d.id ∧ k.IsListed ∧ w.Issued k d.id

theorem Watch.Owes.after {w' : World} {owed' : Bool} (h : d.Owes k owed w)
    (ho : owed' = true → owed = true) (hw' : d.start.Orderly w') (hr : w.LeadsTo d.calm none w') :
    d.Owes k owed' w' :=
  fun h' => (h (ho h')).imp_right fun h => ⟨h.1, h.2.aged hr.ages hw'.dependable.numbered⟩

theorem World.Still.astray {w' : World} (h : w.Still w') : d.Astray w' ↔ d.Astray w := by
  unfold Watch.Astray Watch.Wants World.Up World.Routed World.routes
  rw [h.containers, h.router]

/-- What is found by a look at some world, before now: if routes are still owed, the container ran
at that moment. -/
structure Watch.Found (d : Watch) (k : AppKey) (owed : Bool) (c : Call) (b : c.Value)
    (w₁ w : World) : Prop where
  orderly : d.start.Orderly w₁
  leads : w₁.LeadsTo d.calm none w
  answer : (w₁.answer c).1 = .ok b
  owes : d.Owes k owed w
  runs : owed = true → ∃ e ∈ w₁.engine.containers, e.id = d.id ∧ e.BelongsTo k ∧ e.isRunning = true

/-- A look at what there is, and what follows it. If the container does not run at that moment, no
routes are owed any more. -/
theorem clears_look {α : Type} {c : Call} {f : c.Value → Program α} {D : Prop}
    (hc : c.claim? = none) (hlooking : c.isLooking = true) (hremote : c.isRemote = true)
    (hsuits : ∀ w', d.start.Orderly w' → w'.Suits c) (hk : d.Owes k owed w)
    (hf : ∀ owed' b w₁ w', d.start.Orderly w' → d.Found k owed' c b w₁ w' →
      (f b).Clears d D owed' w') : ((perform c).bind f).Clears d D owed w := by
  classical
  refine .surely
    (P := fun owed' b w' => (owed' = true → owed = true) ∧ ∃ w₁, d.Found k owed' c b w₁ w')
    (.perform hc (fun w' hs _ => hsuits w' hs) fun w' hs hr hl => ?_) fun owed' b w' hs hP => ?_
  · obtain ⟨b, hok⟩ := w'.ok_of_serves hremote hl.1
    have howes := hk.after (fun h => h) hs hr
    refine ⟨owed && decide (d.Wants w'), fun ho hastray => ?_, fun w'' hs'' _ hr'' => ⟨b, hok, ?_⟩⟩
    · rw [(w'.still_answer hlooking).astray] at hastray
      cases owed with
      | false => exact ⟨rfl, hastray⟩
      | true =>
        rcases hastray with ⟨-, hwants, -⟩ | ⟨hcalm, -⟩
        · exact absurd hwants (of_decide_eq_false ho)
        · exact absurd hcalm (howes rfl).1
    · have hstill (ho : (owed && decide (d.Wants w')) = true) := (Bool.and_eq_true_iff.1 ho).1
      refine ⟨hstill, w', hs, hr'', hok, howes.after hstill hs'' hr'', fun ho => ?_⟩
      obtain ⟨e, he, hid, hpublic⟩ := of_decide_eq_true (Bool.and_eq_true_iff.1 ho).2
      exact ⟨e, he, hid, (howes (hstill ho)).2.2.2 e he hid, hpublic.1⟩
  · obtain ⟨ho, w₁, hfound⟩ := hP
    exact (hf owed' b w₁ w' hs hfound).weaken fun _ _ _ _ hr =>
      ⟨hr.1, fun h => (hr.2 h).imp_left ho⟩

/-- The containers of an application that run are published. -/
theorem clears_resyncApp (tenant : String) (r : Record) (hk : d.Owes k owed w) :
    (resyncApp platform tenant r).Clears d (k = ⟨tenant, r.name⟩) owed w := by
  unfold resyncApp
  refine clears_look (c := .find r.name tenant none) rfl rfl rfl (fun _ _ => rfl) hk
    fun owed' hs w₁ w' hs' hfound => ?_
  refine Clears.imp (Clears.forEach_done (D := fun h => h.id = d.id)
    fun h hh owed'' w'' _ hs'' hr => ?_) ?_
  · obtain ⟨hmem, hstate⟩ := List.mem_filter.1 hh
    obtain ⟨c, hc, hread⟩ := World.exists_of_found hfound.answer hmem
    have hfrom := Runtime.readFrom_of_handleOf hread
    have hleads := hfound.leads.trans hr
    have hup : w₁.Up h.id :=
      ⟨c, hc, hfrom.id.symm, hfrom.state.symm.trans (of_decide_eq_true hstate)⟩
    have hknows := hleads.knows hs''.dependable.numbered
      (World.knows_of_read hfound.orderly.dependable.numbered hc hread)
    refine (tends_publish (fun hcalm => hleads.up _ hcalm hup) hknows).weaken fun _ _ _ _ hr => ?_
    obtain ⟨rfl, rfl⟩ := hr
    exact ⟨⟨(), rfl⟩, by simp⟩
  · rintro ho rfl
    obtain ⟨e, he, hid, hek, hrun⟩ := hfound.runs ho
    obtain ⟨h, hh, hhid, hstate⟩ := World.exists_found he hek hfound.answer
    exact ⟨h, List.mem_filter.2 ⟨hh, decide_eq_true (hstate (Container.isUp_of_isRunning hrun))⟩,
      hhid.trans hid⟩

/-- The applications of a tenant are gone through. -/
theorem clears_resyncTenant (tenant : String) (hk : d.Owes k owed w) :
    (resyncTenant platform tenant).Clears d (k.tenant = tenant) owed w := by
  unfold resyncTenant
  refine clears_look (c := .records tenant) rfl rfl rfl (fun _ _ => trivial) hk
    fun owed' rs w₁ w' _ hfound => ?_
  refine (Clears.forEach_done fun r _ _ _ ho hs hr =>
    clears_resyncApp tenant r (hfound.owes.after ho hs hr)).imp ?_
  rintro ho rfl
  obtain ⟨e, he, -, hek, -⟩ := hfound.runs ho
  obtain ⟨-, hlisted, -⟩ := hfound.owes ho
  obtain ⟨r, hr, hname⟩ := hfound.orderly.dependable.storing.exists_record hlisted.1
    (hfound.orderly.manned e he k hlisted.1 hek) hfound.answer
  exact ⟨r, hr, congrArg₂ AppKey.mk rfl hname.symm⟩

/-- All tenants are gone through that the store lists. -/
theorem clears_republish (hk : d.Owes k owed w) :
    ((perform .tenants).bind fun ts => (forEach (resyncTenant platform) ts).bind fun counts =>
      done (.ok (total counts))).Clears d True owed w := by
  refine clears_look (c := .tenants) rfl rfl rfl (fun _ _ => trivial) hk
    fun owed' ts w₁ w' _ hfound => ?_
  refine (Clears.forEach_done fun tenant _ _ _ ho hs hr =>
    clears_resyncTenant tenant (hfound.owes.after ho hs hr)).imp fun ho _ => ?_
  obtain ⟨e, he, -, hek, -⟩ := hfound.runs ho
  obtain ⟨-, hlisted, -⟩ := hfound.owes ho
  exact ⟨_, hfound.orderly.dependable.storing.mem_tenants hlisted
    (hfound.orderly.manned e he k hlisted.1 hek) hfound.answer, rfl⟩

/-- When all routes have been dropped, those of a container that is to have some are owed. -/
theorem tends_clear : (perform (.route .clear)).Tends d none
    (fun owed r w' => ∃ u, r = .ok u ∧ ∃ k, d.Owes k owed w') true w := by
  classical
  refine .perform rfl (fun _ _ _ => rfl) fun w' hs _ hl => ?_
  obtain ⟨u, hok⟩ := w'.ok_of_serves (c := .route .clear) rfl hl.1
  obtain ⟨routes, hm⟩ := hs.memory
  have hnone : ¬ (w'.answer (.route .clear)).2.Routed d.id := by
    unfold World.Routed
    rw [World.routes_eq (World.answer_route hm .clear).2.2]
    exact List.not_mem_nil
  refine ⟨decide (d.Astray (w'.answer (.route .clear)).2), fun ho hastray =>
    absurd hastray (of_decide_eq_false ho), fun w'' hs'' _ hr => ⟨u, hok, ?_⟩⟩
  by_cases hastray : d.Astray (w'.answer (.route .clear)).2
  · obtain ⟨hcalm, ⟨c, hc, hid, -, ⟨k, hk, hck⟩, -⟩, -⟩ | ⟨-, hrouted, -⟩ := hastray
    · have hissued : w'.Issued k c.id := World.issued_of_mem hs.dependable.numbered hc hck
      exact ⟨k, fun _ => ⟨hcalm, hk, hid ▸ hissued.aged hr.ages hs''.dependable.numbered⟩⟩
    · exact absurd hrouted hnone
  · exact ⟨⟨"", ""⟩, fun ho => absurd (of_decide_eq_true ho) hastray⟩

/-- To route everything anew does not fail, and owes nobody any routes in the end. -/
theorem tends_resync : (resync platform).Tends d none
    (fun owed r _ => (∃ n, r = .ok n) ∧ owed = false) true w := by
  unfold resync
  refine .surely (P := fun owed _ w' => ∃ k, d.Owes k owed w') tends_clear fun owed _ w' _ hP => ?_
  obtain ⟨k, hk⟩ := hP
  exact Tends.weaken (clears_republish hk) fun owed' _ _ _ hr =>
    ⟨hr.1, Bool.eq_false_iff.2 fun ho => (hr.2 ho).2 trivial⟩

end Resync

/-! ## Programs that run together -/

namespace Pool

variable {α : Type} {d : Watch} {inside : Nat → Option AppKey} {owes : Nat → Bool} {p : Pool α}
  {i : Nat}

/-- What stays true of a pool of programs that attend: while routes are astray, one of them owes it
to put them right. -/
structure Covered (d : Watch) (inside : Nat → Option AppKey) (owes : Nat → Bool) (p : Pool α) :
    Prop where
  ordered : p.Ordered inside
  orderly : d.start.Orderly p.world
  due : d.Astray p.world → ∃ i < p.tasks.length, owes i = true
  attends : ∀ (i : Nat) (task : Program α), p.tasks[i]? = some task →
    task.Attends d (inside i) (owes i) p.world

namespace Covered

theorem call (h : p.Covered d inside owes) {c : Call} {next : Outcome c.Value → Program α}
    (ht : p.tasks[i]? = some (.call c next)) (hl : p.world.Lets d.calm c) :
    ∃ owes', (p.step i).Covered d inside owes' := by
  obtain ⟨hsuits, hclaim, owed', hpays, hnext⟩ := h.attends i _ ht p.world h.orderly (.refl _) hl
  have hi : i < p.tasks.length := (List.getElem?_eq_some_iff.1 ht).1
  have hordered := h.ordered.call ht
  rw [step_call ht] at hordered ⊢
  refine ⟨Function.update owes i owed', hordered, h.orderly.answer hsuits, fun hastray => ?_,
    fun j task hj => ?_⟩
  · show ∃ j < (p.tasks.set i _).length, _
    rw [List.length_set]
    cases howed : owed' with
    | true => exact ⟨i, hi, Function.update_self ..⟩
    | false =>
      obtain ⟨hnot, hbefore⟩ := hpays howed hastray
      obtain ⟨j, hj, howes⟩ := h.due hbefore
      have hne : j ≠ i := by
        rintro rfl
        exact absurd (howes.symm.trans hnot) (by decide)
      exact ⟨j, hj, by rwa [Function.update_of_ne hne]⟩
  · rw [getElem?_advance (by simp [ht])] at hj
    split at hj
    · rename_i hij
      obtain rfl := Option.some.inj hj
      rw [← hij, Function.update_self]
      exact hnext
    · rename_i hij
      rw [Function.update_of_ne (Ne.symm hij)]
      -- who calls claims only what it holds, and nobody else holds that
      refine (h.attends j task hj).after (World.leadsTo_answer h.orderly hsuits hl.2.2 ?_)
      intro k hk hck
      exact hij (h.ordered.holder_unique (hclaim k hck) hk)

/-- A program that comes to hold an application or gives it up goes on as it attends. -/
theorem advanced {p' : Pool α} {rest : Program α} {held : Option AppKey}
    (h : p.Covered d inside owes) (hi : (p'.tasks[i]?).isSome) (hworld : p'.world = p.world)
    (htasks : p'.tasks = p.tasks)
    (hordered : (p'.advance i rest).Ordered (Function.update inside i held))
    (hrest : rest.Attends d held (owes i) p.world) :
    (p'.advance i rest).Covered d (Function.update inside i held) owes where
  ordered := hordered
  orderly := by
    show d.start.Orderly p'.world
    rw [hworld]
    exact h.orderly
  due := by
    show d.Astray p'.world → ∃ j < (p'.tasks.set i rest).length, _
    rw [hworld, List.length_set, htasks]
    exact h.due
  attends j task hj := by
    show task.Attends _ _ _ p'.world
    rw [hworld]
    rw [getElem?_advance hi] at hj
    split at hj
    · rename_i hij
      obtain rfl := Option.some.inj hj
      rw [← hij, Function.update_self]
      exact hrest
    · rename_i hij
      rw [Function.update_of_ne (Ne.symm hij)]
      rw [htasks] at hj
      exact h.attends j task hj

theorem step (h : p.Covered d inside owes)
    (hl : ∀ c next, p.tasks[i]? = some (.call c next) → p.world.Lets d.calm c) :
    ∃ inside' owes', (p.step i).Covered d inside' owes' := by
  cases ht : p.tasks[i]? with
  | none => exact ⟨inside, owes, by rwa [step_none ht]⟩
  | some task =>
    have hattends := h.attends i task ht
    cases task with
    | done r => exact ⟨inside, owes, by rwa [step_done ht]⟩
    | call c next => exact ⟨inside, h.call ht (hl c next ht)⟩
    | lock k next =>
      cases hin : inside i with
      | some k' =>
        rw [hin] at hattends
        exact hattends.elim
      | none =>
        rw [hin] at hattends
        rw [step_lock ht]
        split
        · rename_i hold
          exact ⟨_, owes, h.advanced (by simp [ht]) (ask_world k) (ask_tasks k)
            (h.ordered.enter ht hin hold) (hattends _ h.orderly (.refl _))⟩
        · exact ⟨inside, owes, h.ordered.ask ht, by simpa using h.orderly, by simpa using h.due,
            by simpa using h.attends⟩
    | unlock k next =>
      cases hin : inside i with
      | none =>
        rw [hin] at hattends
        exact hattends.elim
      | some k' =>
        rw [hin] at hattends
        obtain ⟨rfl, hleft⟩ := hattends
        have hordered := h.ordered.leave ht hin
        rw [step_unlock ht] at hordered ⊢
        exact ⟨_, owes, h.advanced (by simp [ht]) rfl rfl hordered
          (hleft _ h.orderly (.refl _))⟩

theorem run {order : List Nat} (h : p.Covered d inside owes)
    (hl : p.Along (fun c w => w.Lets d.calm c) order) :
    ∃ inside' owes', (p.run order).Covered d inside' owes' := by
  induction order generalizing p inside owes with
  | nil => exact ⟨inside, owes, h⟩
  | cons i order ih =>
    obtain ⟨hi, hrest⟩ := hl
    obtain ⟨inside', owes', h'⟩ := h.step hi
    exact ih h' hrest

/-- When all programs have ended, no routes are astray. -/
theorem settled (h : p.Covered d inside owes) (hfinished : p.isFinished = true) :
    ¬ d.Astray p.world := by
  intro hastray
  obtain ⟨i, hi, howes⟩ := h.due hastray
  have hdone := List.all_eq_true.1 hfinished _ (List.getElem_mem hi)
  have hattends := h.attends i _ (List.getElem?_eq_getElem hi)
  cases ht : p.tasks[i] with
  | done r =>
    rw [ht, howes] at hattends
    cases hattends.2
  | call | lock | unlock =>
    rw [ht] at hdone
    cases hdone

end Covered

end Pool

theorem Pool.Along.and {α : Type} {P P' : Call → World → Prop} {p : Pool α} {order : List Nat}
    (h : p.Along P order) (h' : p.Along P' order) :
    p.Along (fun c w => P c w ∧ P' c w) order := by
  induction order generalizing p with
  | nil => trivial
  | cons i order ih => exact ⟨fun c next hc => ⟨h.1 c next hc, h'.1 c next hc⟩, ih h.2 h'.2⟩

/-- The programs of requests, and before them one that routes everything anew. -/
def Request.besideResync (platform : PlatformSettings) (requests : List Request) :
    List (Program (List Handle)) :=
  ((resync platform).andThen fun r => done (r.map fun _ => [])) ::
    requests.map (·.program platform)

/-- Each program owes nothing in the end, and at the start only the first one owes anything. -/
theorem Pool.Covered.start {platform : PlatformSettings} {requests : List Request} (d : Watch)
    (hw : d.start.Orderly d.start)
    (hrequests : ∀ r ∈ requests, '/' ∉ r.caller.tenant.toList ∧ ∀ h ∈ r.handles, d.start.Knows h) :
    ({ world := d.start, tasks := Request.besideResync platform requests } : Pool _).Covered d
      (fun _ => none) fun i => i == 0 where
  ordered := ⟨fun _ _ h => by simp at h, fun _ _ h => by simp [LockTable.queue] at h,
    fun _ => by simp [LockTable.queue]⟩
  orderly := hw
  due _ := ⟨0, Nat.succ_pos _, rfl⟩
  attends i task hi := by
    cases i with
    | zero =>
      obtain rfl := Option.some.inj hi
      exact .of_tends hw (.andThen (tends_resync.weaken fun _ _ _ _ h _ _ _ => h.2))
    | succ i =>
      obtain ⟨r, hr, rfl⟩ := List.mem_map.1 (List.mem_of_getElem? hi)
      obtain ⟨hk, hgiven⟩ := hrequests r hr
      exact Request.attends_program hk hgiven

/-- Whether containers that run have routes if their application is one that the store lists and
their plugin has endpoints. -/
def World.RoutesRunning (w : World) : Prop :=
  ∀ c ∈ w.engine.containers, c.isRunning = true → ∀ k : AppKey, k.IsListed → c.BelongsTo k →
    ∀ tag p, c.Says tag → Hub.plugin w.disk w.broker.hub tag.withoutService = .ok p →
      p.endpoints ≠ [] → w.Routed c.id

namespace World

variable {w w₀ : World}

/-- Where no routes are astray, whatever container is watched, each that runs has its routes. -/
theorem Orderly.routesRunning (ho : w₀.Orderly w)
    (hs : ∀ id, ¬ (⟨w₀, fun _ => False, id⟩ : Watch).Astray w) : w.RoutesRunning := by
  intro c hc hrun k hk hck tag p htag hp hne
  rw [ho.plugin_eq] at hp
  by_contra hnot
  exact hs c.id (.inl ⟨not_false, ⟨c, hc, rfl, hrun, ⟨k, hk, hck⟩, tag, p, htag, hp, hne⟩, hnot⟩)

theorem RoutesRunning.not_astray (hr : w.RoutesRunning) (ho : w₀.Orderly w) (id : String) :
    ¬ (⟨w₀, fun _ => False, id⟩ : Watch).Astray w := by
  rintro (⟨-, ⟨c, hc, rfl, hrun, ⟨k, hk, hck⟩, tag, p, htag, hp, hne⟩, hnot⟩ | ⟨hcalm, -⟩)
  · rw [← ho.plugin_eq] at hp
    exact hnot (hr c hc hrun k hk hck tag p htag hp hne)
  · exact hcalm

end World

/-- When everything is routed anew while operations go on, then in the end every container that runs
has its routes, and every container that has routes runs if nobody has taken it down meanwhile. -/
theorem routes_follow_containers (platform : PlatformSettings) (requests : List Request) (w : World)
    (order : List Nat) {lenient : Bool} (hmemory : ∃ routes, w.broker.router = .memory routes)
    (hw : w.Dependable lenient) (hapart : w.Apart)
    (hmanned : ∀ c ∈ w.engine.containers, ∀ k : AppKey, k.IsFiled → c.BelongsTo k →
      (w.recordAt k).isSome)
    (hrequests : ∀ r ∈ requests, '/' ∉ r.caller.tenant.toList ∧ ∀ h ∈ r.handles, w.Knows h) :
    let start : Pool _ := { world := w, tasks := Request.besideResync platform requests }
    let reached := (start.run order).world
    start.Along (fun c w => w.serves c = true ∧ w.informs c = true) order →
      (start.run order).isFinished = true →
        reached.RoutesRunning ∧ ∀ id, start.Along (fun c _ => c.takesDown id = false) order →
          reached.Routed id → reached.Up id := by
  intro start reached hcalls hfinished
  have hworld : w.Orderly w := hapart.orderly hw hmemory hmanned
  have hcovered (d : Watch) (hd : d.start = w)
      (hl : start.Along (fun c w => w.Lets d.calm c) order) :
      w.Orderly reached ∧ ¬ d.Astray reached := by
    subst hd
    obtain ⟨_, _, h⟩ := (Pool.Covered.start d hworld hrequests).run hl
    exact ⟨h.orderly, h.settled hfinished⟩
  constructor
  · -- whatever may be taken down
    have hkept (id : String) := hcovered ⟨w, fun _ => False, id⟩ rfl
      (hcalls.imp fun _ _ h => ⟨h.1, h.2, fun _ => False.elim⟩)
    exact (hkept "").1.routesRunning fun id => (hkept id).2
  · intro id hspared hrouted
    obtain ⟨-, hsettled⟩ := hcovered ⟨w, (· = id), id⟩ rfl
      ((hcalls.and hspared).imp fun _ _ h => ⟨h.1.1, h.1.2, fun _ hid => hid ▸ h.2⟩)
    by_contra hdown
    exact hsettled (.inr ⟨rfl, hrouted, hdown⟩)

/-! ## Applications that are created and stopped while everything is routed anew -/

namespace Resync

/-- A broker with a framework, and neither records nor containers. -/
noncomputable def world : World :=
  { Isolation.world with engine := {}, broker.router := .memory [] }

/-- An application is created and started. -/
def creation (caller : Caller) : Request := ⟨caller, .create "web" "python" [] 1 true⟩

theorem dependable_world : world.Dependable false where
  numbered := ⟨nofun, nofun, .nil⟩
  truthful := ⟨fun _ _ _ h => (by cases h), fun _ _ _ h => by cases h⟩
  lenient_eq := rfl
  storing := ⟨Isolation.storing_world.faithful, Isolation.storing_world.has,
    Isolation.storing_world.holds, Isolation.storing_world.real⟩

theorem apart_world : world.Apart where
  plain := Isolation.plain_disk.1
  unlinked := Isolation.plain_disk.2
  hub_outside := by decide
  store_outside := by decide

/-- A tenant comes after the tenants were listed, and starts a container that is not gone through.
The container that is gone through is stopped meanwhile. -/
theorem created_containers_are_routed :
    let alice : Caller := ⟨"alice", "alice"⟩
    let requests := [creation alice, creation ⟨"bob", "bob"⟩, ⟨alice, .stop "web"⟩]
    let start : Pool _ := { world := world, tasks := Request.besideResync {} requests }
    let order := List.replicate 11 1 ++ List.replicate 4 0 ++ List.replicate 11 2 ++
      List.replicate 6 3 ++ List.replicate 3 0
    (start.run order).world.RoutesRunning ∧ (start.run order).world.Routed "c0002" ∧
      (start.run order).world.Up "c0002" := by
  intro alice requests start order
  obtain ⟨hcalls, hspared, hfinished, hrouted⟩ :
      start.Along (fun c w => w.serves c = true ∧ w.informs c = true) order ∧
        start.Along (fun c _ => c.takesDown "c0002" = false) order ∧
        (start.run order).isFinished = true ∧
        "c0002" ∈ (start.run order).world.routes.keys := by decide +kernel
  obtain ⟨hroutes, hruns⟩ := routes_follow_containers {} requests world order ⟨_, rfl⟩
    dependable_world apart_world nofun (fun r hr => by
      rcases (by simpa [requests] using hr) with rfl | rfl | rfl <;> exact ⟨by decide, nofun⟩)
    hcalls hfinished
  exact ⟨hroutes, hrouted, hruns "c0002" hspared hrouted⟩

/-- A container is found running, and stopped before its routes are published. -/
theorem stopped_container_is_routed :
    let alice : Caller := ⟨"alice", "alice"⟩
    let requests := [creation alice, ⟨alice, .stop "web"⟩]
    let start : Pool _ := { world := world, tasks := Request.besideResync {} requests }
    let order :=
      List.replicate 11 1 ++ List.replicate 4 0 ++ List.replicate 6 2 ++ List.replicate 3 0
    start.Along (fun c w => w.serves c = true ∧ w.informs c = true) order ∧
      (start.run order).isFinished = true ∧ (start.run order).world.Routed "c0001" ∧
      ¬ (start.run order).world.Up "c0001" := by
  intro alice requests start order
  have hran : start.Along (fun c w => w.serves c = true ∧ w.informs c = true) order ∧
      (start.run order).isFinished = true ∧ "c0001" ∈ (start.run order).world.routes.keys ∧
      ¬ (start.run order).world.Up "c0001" := by decide +kernel
  exact hran

end Resync

end AppBroker
