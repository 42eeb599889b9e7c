import AppBroker.Proofs.ScaleSteps

/-!
# Scaling from beginning to end

What a scaling comes to that nobody else works next to, whether it ends well or stops at a call that
fails: the framework containers are brought towards their number (`World.Adjusted`), and then the
record is written (`Scaling.meets_scaleHeld`). If no call fails, all is done that was to be done.
-/

namespace AppBroker

open Program Lifecycle

namespace World

/-! ## What a scaling is to come to -/

variable {platform : PlatformSettings} {k : AppKey} {r : Record} {tag : Tag} {target : Int}
  {full done : Prop} {w w' w₀ : World} {added : List Container} {hs : List Handle}

/-- Whether one of an application's framework containers runs, as the broker sees it. -/
def Active (w : World) (k : AppKey) : Prop := ∃ c ∈ w.frameworks k, c.IsUp

instance (w : World) (k : AppKey) : Decidable (w.Active k) :=
  inferInstanceAs (Decidable (∃ c ∈ w.frameworks k, c.IsUp))

/-- The framework containers that are one too many if there are to be no more than a number: the
newest. -/
def surplus (w : World) (k : AppKey) (target : Int) : List Container :=
  (w.frameworks k).drop target.toNat

/-- Whether a tag is what new framework containers are made for: what the oldest one tells, or else
the first that the record tells. -/
def Breeds (w : World) (k : AppKey) (r : Record) (tag : Tag) : Prop :=
  match w.frameworks k with
  | c :: _ => c.Says tag
  | [] => ∃ text, r.framework = .ok text ∧ Tag.parse text = .ok tag

/-- What growing an application by some number has come to: for which tag containers were added, how
many, and whether they run. -/
structure Raised (platform : PlatformSettings) (k : AppKey) (r : Record) (count : Nat)
    (full done : Prop) (w₀ : World) (tag : Tag) (added : List Container) (w : World) : Prop
    extends Grown platform k tag w₀ added w where
  breeds : added ≠ [] → w₀.Breeds k r tag
  length_le : added.length ≤ count
  length_eq : full → added.length = count
  idle : ¬ w₀.Active k → ∀ c ∈ added, c.isRunning = false
  active : done → w₀.Active k → ∀ c ∈ added, c.isRunning = true ∧ Serves platform w₀ c w

/-- What bringing an application's framework containers to a number has come to. All that were to be
made may be there, and all may be done that was to be done. -/
structure Adjusted (platform : PlatformSettings) (k : AppKey) (r : Record) (target : Int)
    (full done : Prop) (w₀ w : World) : Prop where
  raised : ((w₀.frameworks k).length : Int) ≤ target → ∃ tag added,
    Raised platform k r (target - (w₀.frameworks k).length).toNat full done w₀ tag added w
  shrunk : target ≤ (w₀.frameworks k).length → ∃ gone,
    Shrunk ((w₀.surplus k target).map (·.id)) w₀ gone w ∧
      (done → (w₀.surplus k target).map (·.id) ⊆ gone)

/-- Where nothing was made, nothing is known of the tag that it was to be made for. -/
theorem exists_raised_nil (hq : w₀.Quiet w) {count : Nat} (hfull : full → count = 0) :
    ∃ tag added, Raised platform k r count full done w₀ tag added w :=
  ⟨⟨"app", "", "", "", by decide⟩, [], (Grown.refl w₀).quiet hq, fun h => absurd rfl h,
    Nat.zero_le _, fun h => (hfull h).symm, nofun, nofun⟩

theorem Quiet.shrunk (hq : w₀.Quiet w) (dropped : List String) : Shrunk dropped w₀ [] w := by
  refine (Shrunk.refl dropped w₀).still hq.unwritten hq.containers ?_ ?_ <;>
    obtain ⟨_, _, _, rfl⟩ := hq <;> rfl

/-- What was given up before anything was done. -/
theorem Quiet.adjusted (hq : w₀.Quiet w) : Adjusted platform k r target False False w₀ w :=
  ⟨fun _ => exists_raised_nil hq False.elim, fun _ => ⟨[], hq.shrunk _, False.elim⟩⟩

theorem Adjusted.unwritten (h : Adjusted platform k r target full done w₀ w) : w₀.Unwritten w := by
  rcases Int.le_total (w₀.frameworks k).length target with hle | hle
  · obtain ⟨tag, added, hraised⟩ := h.raised hle
    exact hraised.toUnwritten
  · obtain ⟨gone, hshrunk, -⟩ := h.shrunk hle
    exact hshrunk.toUnwritten

/-- What is done may be forgotten. -/
theorem Adjusted.undone (h : Adjusted platform k r target full done w₀ w) :
    Adjusted platform k r target full False w₀ w where
  raised hle := by
    obtain ⟨tag, added, hraised⟩ := h.raised hle
    exact ⟨tag, added, { hraised with active := False.elim }⟩
  shrunk hle := by
    obtain ⟨gone, hshrunk, -⟩ := h.shrunk hle
    exact ⟨gone, hshrunk, False.elim⟩

/-- The application is active if one of the handles that are read from its framework containers
tells so. -/
theorem any_running_iff (hread : List.Forall₂ (fun c h =>
      Runtime.handleOf w.broker.runtime.settings.network c = .ok h) (w.frameworks k) hs) :
    hs.any (·.state = .running) = true ↔ w.Active k := by
  simp only [List.any_eq_true, decide_eq_true_eq]
  constructor
  · rintro ⟨h, hh, hstate⟩
    obtain ⟨c, hc, hof⟩ := exists_of_mem_right hread hh
    exact ⟨c, hc, (Runtime.readFrom_of_handleOf hof).state.symm.trans hstate⟩
  · rintro ⟨c, hc, hup⟩
    obtain ⟨h, hh, hof⟩ := exists_of_mem_right hread.flip hc
    exact ⟨h, hh, (Runtime.readFrom_of_handleOf hof).state.trans hup⟩

theorem growthTag_iff (hread : List.Forall₂ (fun c h =>
      Runtime.handleOf w.broker.runtime.settings.network c = .ok h) (w.frameworks k) hs) :
    growthTag r hs = .ok tag ↔ w.Breeds k r tag := by
  unfold Breeds
  generalize w.frameworks k = cs at hread
  cases hread with
  | nil =>
    show (r.framework >>= fun text => Tag.parse text) = .ok tag ↔ _
    cases r.framework with
    | error e => exact iff_of_false nofun nofun
    | ok text => exact ⟨fun h => ⟨text, rfl, h⟩, fun ⟨_, htext, h⟩ => Except.ok.inj htext ▸ h⟩
  | @cons c h cs hs hof hrest =>
    have htells : c.Says h.tag := (Runtime.readFrom_of_handleOf hof).tag
    exact ⟨fun h => Except.ok.inj h ▸ htells, fun h => congrArg _ (htells.unique h)⟩

/-- What follows an adjustment leaves containers and routes as they are. -/
structure Unmoved (w w' : World) : Prop extends SetUp w w' where
  containers : w'.engine.containers = w.engine.containers
  made : w'.engine.made = w.engine.made
  router : w'.broker.router = w.broker.router

theorem Unmoved.refl (w : World) : w.Unmoved w := ⟨⟨rfl, rfl, rfl, rfl, .rfl⟩, rfl, rfl, rfl⟩

theorem Unmoved.trans {w₁ w₂ w₃ : World} (h : w₁.Unmoved w₂) (h' : w₂.Unmoved w₃) : w₁.Unmoved w₃ :=
  ⟨⟨h'.hub.trans h.hub, h'.store.trans h.store, h'.codec.trans h.codec,
    h'.settings.trans h.settings, h'.table.trans h.table⟩, h'.containers.trans h.containers,
    h'.made.trans h.made, h'.router.trans h.router⟩

theorem Unmoved.routes_eq (h : w.Unmoved w') : w'.routes = w.routes := by
  unfold routes
  rw [h.router]

theorem Unmoved.frameworks_eq (h : w.Unmoved w') (k : AppKey) :
    w'.frameworks k = w.frameworks k := by
  unfold frameworks lineup
  rw [h.containers]

theorem Quiet.unmoved (hq : w.Quiet w') : w.Unmoved w' := by
  obtain ⟨_, _, _, rfl⟩ := hq
  exact ⟨⟨rfl, rfl, rfl, rfl, .rfl⟩, rfl, rfl, rfl⟩

theorem Wrote.unmoved {tenant : String} (h : w.Wrote tenant w') : w.Unmoved w' := by
  obtain ⟨data, rfl⟩ := h
  exact ⟨⟨rfl, rfl, rfl, rfl, .rfl⟩, rfl, rfl, rfl⟩

/-- The record of an application tells another number now, and all else is recorded as it was. -/
def Rescaled (k : AppKey) (r : Record) (target : Int) (w w' : World) : Prop :=
  ∀ k' : AppKey, k'.IsFiled →
    w'.recordAt k' = if k' = k then some { r with scaling := target } else w.recordAt k'

/-- What a scaling that ends well has come to: the containers were adjusted, the record tells their
number, and the handles are those of all framework containers, oldest first. -/
def Scaled (platform : PlatformSettings) (k : AppKey) (target : Int) (done : Prop) (w : World)
    (hs : List Handle) (w' : World) : Prop :=
  ∃ r wₐ, w.recordAt k = some r ∧ Adjusted platform k r target True done w wₐ ∧ wₐ.Unmoved w' ∧
    Rescaled k r target w w' ∧ List.Forall₂ (fun c h =>
      Runtime.handleOf w.broker.runtime.settings.network c = .ok h) (w'.frameworks k) hs

/-- What a scaling that fails has come to: nothing, or the containers were adjusted in part. The
record is not written before all containers are there that were to be made. -/
def HalfScaled (platform : PlatformSettings) (k : AppKey) (target : Int) (w w' : World) : Prop :=
  w.Unmoved w' ∧ w'.disk = w.disk ∨ ∃ r full wₐ, w.recordAt k = some r ∧
    Adjusted platform k r target full False w wₐ ∧ wₐ.Unmoved w' ∧
    (w'.disk = w.disk ∨ full ∧ Rescaled k r target w w')

end World

/-! ## Programs that work alone -/

/-- The terms of a program that works alone: while it holds an application, nothing changes but by
its own calls. It may be known that none of them fails. -/
def alone (lenient : Bool) (clean : Prop) (k : AppKey) : Terms where
  sound w := w.Dependable lenient ∧ w.Sequenced
  rely k' w w' := k' = k → w' = w
  allows c w := clean → w.serves c = true ∧ w.informs c = true
  rely_refl _ _ _ := rfl
  rely_trans _ _ _ _ := unchanged_trans

namespace Scaling

open World

variable {α : Type} {platform : PlatformSettings} {lenient : Bool} {clean : Prop} {k : AppKey}
  {tag : Tag} {w w₀ : World} {added : List Container}

section Rules

variable {Q : Outcome α → World → Prop}

theorem meets_done {r : Outcome α} (h : Q r w) :
    (Program.done r).Meets (alone lenient clean k) k Q w :=
  .done fun _ _ hr => hr rfl ▸ h

theorem meets_call {c : Call} {Q : Outcome c.Value → World → Prop} (hc : c.Fits)
    (h : w.Dependable lenient → w.Sequenced →
      (clean → w.serves c = true ∧ w.informs c = true) → Q (w.answer c).1 (w.answer c).2) :
    (perform c).Meets (alone lenient clean k) k Q w := by
  refine .perform fun w' hs hr ha => ?_
  obtain rfl := hr rfl
  exact ⟨⟨hs.1.answer hc, hs.2.answer hs.1.numbered c⟩, fun k' hne he => absurd he hne,
    fun w'' _ hr' => hr' rfl ▸ h hs.1 hs.2 ha⟩

/-- A call that fails is none of a program that is known to make none such. -/
theorem not_clean {c : Call} {e : Failure} (hc : c.isRemote = true)
    (ha : clean → w.serves c = true ∧ w.informs c = true) (he : (w.answer c).1 = .error e) :
    ¬ clean := by
  intro hclean
  obtain ⟨a, hok⟩ := ok_of_serves hc (ha hclean).1
  rw [he] at hok
  cases hok

/-- What is asked of calls on a condition is asked of a run on that condition. -/
theorem along_of {P : Call → World → Prop} {p : Program α} (h : clean → p.Along P w) :
    p.Along (fun c w => clean → P c w) w := by
  induction p generalizing w with
  | done r => trivial
  | call c next ih => exact ⟨fun hclean => (h hclean).1, ih _ fun hclean => (h hclean).2⟩
  | lock key next ih => exact ih h
  | unlock key next ih => exact ih h

end Rules

/-! ## Growing -/

theorem meets_createAll (m : Nat) (h : Grown platform k tag w₀ added w) :
    (createAll k.name k.tenant (List.replicate m tag)).Meets (alone lenient clean k) k
      (ends (fun hs w' => ∃ more, more.length = m ∧ (∀ c ∈ more, c.isRunning = false) ∧
          Grown platform k tag w₀ (added ++ more) w' ∧ List.Forall₂ (fun c h =>
            Runtime.handleOf w₀.broker.runtime.settings.network c = .ok h) more hs)
        fun _ w' => ¬ clean ∧ ∃ more, more.length ≤ m ∧ (∀ c ∈ more, c.isRunning = false) ∧
          Grown platform k tag w₀ (added ++ more) w') w := by
  induction m generalizing w added with
  | zero =>
    refine meets_done ⟨[], rfl, by simp, ?_, .nil⟩
    rwa [List.append_nil]
  | succ m ih =>
    refine .bind (meets_call trivial fun hw _ ha => ?_)
    rcases h.create hw.numbered with ⟨⟨e, he⟩, h'⟩ | ⟨c, hnew, hof, h'⟩
    · rw [he]
      refine ⟨not_clean (c := .create ..) rfl ha he, [], Nat.zero_le _, by simp, ?_⟩
      rwa [List.append_nil]
    cases ho : (w.answer (.create k.name k.tenant tag)).1 with
    | error e =>
      exact ⟨not_clean (c := .create ..) rfl ha ho, [c], by simp, by simpa using hnew, h'⟩
    | ok handle =>
    refine .bind ((ih h').weaken fun r w' _ hr => ?_)
    cases r with
    | error e =>
      obtain ⟨hclean, more, hlength, hall, hgrown⟩ := hr
      refine ⟨hclean, c :: more, Nat.succ_le_succ hlength, List.forall_mem_cons.2 ⟨hnew, hall⟩, ?_⟩
      rwa [← List.append_cons] at hgrown
    | ok hs =>
      obtain ⟨more, hlength, hall, hgrown, hread⟩ := hr
      refine meets_done ⟨c :: more, congrArg (· + 1) hlength, List.forall_mem_cons.2 ⟨hnew, hall⟩,
        ?_, .cons (hof.symm.trans ho) hread⟩
      rwa [← List.append_cons] at hgrown

theorem meets_warn (severity : Severity) (text : String) {c : Container}
    (h : Published platform w₀ c w) :
    (Program.warn severity text).Meets (alone lenient clean k) k
      (ends (fun _ w' => Published platform w₀ c w' ∧ w'.routes = w.routes) fun _ _ => False) w :=
  meets_call rfl fun _ _ _ => ⟨h.still (w.unwritten_answer rfl) rfl rfl rfl, rfl⟩

/-- A container whose plugin gives no endpoints is served when nothing is done. -/
theorem serves_of_none {c : Container} {w' : World} (h : w.routeOf platform c = none) :
    Serves platform w c w' := fun _ endpoints hof => by
  rw [h] at hof
  cases hof

theorem routeOf_of_plugin {c : Container} {h : Handle} (htells : c.Says h.tag)
    (hplugin : ∀ p, Hub.plugin w.disk w.broker.hub h.tag.withoutService = .ok p →
      p.endpoints.isEmpty = true) : w.routeOf platform c = none := by
  unfold routeOf
  split
  · rfl
  rename_i h' hread
  have htag : h'.tag = h.tag :=
    Container.Says.unique (Runtime.readFrom_of_handleOf hread).tag htells
  rw [htag]
  split
  · rfl
  · rename_i p hp
    rw [if_pos (hplugin p hp)]

/-- Routing a container's endpoints changes its routes at most, and gives it those endpoints if no
call fails. -/
theorem meets_routeEndpoints {c : Container} {h : Handle} {p : Plugin}
    (hn : Engine.Numbered w.engine.containers w.engine.made) (hc : c ∈ w.engine.containers)
    (hid : h.id = c.id) (htells : c.Says h.tag)
    (hp : Hub.plugin w.disk w.broker.hub h.tag.withoutService = .ok p)
    (hne : p.endpoints.isEmpty = false) :
    (routeEndpoints platform h p).Meets (alone lenient clean k) k
      (ends (fun _ w' => Published platform w c w' ∧ Serves platform w c w')
        fun _ w' => ¬ clean ∧ Published platform w c w') w := by
  refine .bind (meets_call rfl fun _ _ ha => ?_)
  obtain ⟨hq, hfound⟩ := w.answer_inspect h
  have hstill : Published platform w c (w.answer (.inspect h)).2 :=
    .of_still hq.unwritten hq.containers hq.same.made (by rw [routes, routes, hq.same.router])
  cases ho : (w.answer (.inspect h)).1 with
  | error e => exact ⟨not_clean (c := .inspect h) rfl ha ho, hstill⟩
  | ok current =>
  obtain ⟨c', hfind, hread⟩ := hfound current ho
  obtain ⟨hc', hid'⟩ := Engine.find?_eq_some hfind
  obtain rfl : c' = c := hn.eq_of_id hc' hc (hid'.trans hid)
  have hsame := Runtime.readFrom_of_handleOf hread
  have hof : w.routeOf platform c' = some (p.endpoints.map fun e =>
      e.bind current.address (platform.frontend current)) := by
    have htag : current.tag = h.tag := Container.Says.unique hsame.tag htells
    unfold routeOf
    simp only [hread, htag, hp, hne, Bool.false_eq_true, if_false]
  refine meets_call rfl fun _ _ ha₁ => ?_
  have hroutes : (w.answer (.inspect h)).2.routes = w.routes := by
    rw [routes, routes, hq.same.router]
  obtain ⟨hothers, hown, htable⟩ := (w.answer (.inspect h)).2.get?_publish current.id
    (p.endpoints.map fun e => e.bind current.address (platform.frontend current))
  rw [hsame.id, hroutes] at hothers hown
  rw [hsame.id] at htable
  have hu : w.Unwritten _ := hq.unwritten.trans ((w.answer (.inspect h)).2.unwritten_answer
    (c := .route (.publish c'.id (p.endpoints.map fun e =>
      e.bind current.address (platform.frontend current)))) rfl)
  have hpublished : Published platform w c' ((w.answer (.inspect h)).2.answer
      (.route (.publish c'.id (p.endpoints.map fun e =>
        e.bind current.address (platform.frontend current))))).2 :=
    ⟨hu, hq.containers, hq.same.made, hothers, hown.imp_right fun hown => ⟨_, hof, hown⟩⟩
  rw [hsame.id] at ha₁ ⊢
  cases hr : ((w.answer (.inspect h)).2.answer (.route (.publish c'.id (p.endpoints.map fun e =>
      e.bind current.address (platform.frontend current))))).1 with
  | error e => exact ⟨not_clean (c := .route _) rfl ha₁ hr, hpublished⟩
  | ok u =>
    refine ⟨hpublished, fun hasTable endpoints hendpoints => ?_⟩
    rw [hof] at hendpoints
    rw [← hendpoints]
    exact htable (hq.unwritten.table.2 hasTable)

/-- Publishing a container changes its routes at most, and gives it its routes if no call fails. -/
theorem meets_publish {c : Container} {h : Handle}
    (hn : Engine.Numbered w.engine.containers w.engine.made) (hc : c ∈ w.engine.containers)
    (hid : h.id = c.id) (htells : c.Says h.tag) :
    (publish platform h).Meets (alone lenient clean k) k
      (ends (fun _ w' => Published platform w c w' ∧ (clean → Serves platform w c w'))
        fun _ w' => ¬ clean ∧ Published platform w c w') w := by
  have hnothing : Published platform w c w := .of_still (.refl w) rfl rfl rfl
  have hwarned {w' : World} (severity : Severity) (text : String)
      (h' : Published platform w c w') (hserves : clean → Serves platform w c w') :
      (Program.warn severity text).Meets (alone lenient clean k) k
        (ends (fun _ w' => Published platform w c w' ∧ (clean → Serves platform w c w'))
          fun _ w' => ¬ clean ∧ Published platform w c w') w' := by
    refine (meets_warn severity text h').weaken fun r w'' _ hr => ?_
    cases r with
    | error e => exact hr.elim
    | ok u =>
      refine ⟨hr.1, fun hclean htable endpoints hof => ?_⟩
      rw [hr.2]
      exact hserves hclean htable endpoints hof
  refine .bind (.attempt (meets_call rfl fun _ _ ha => ?_))
  have hanswer : (w.answer (.plugin h.tag.withoutService)).1 =
      Hub.plugin w.disk w.broker.hub h.tag.withoutService := rfl
  rcases hp : Hub.plugin w.disk w.broker.hub h.tag.withoutService with e | p
  · -- A plugin that is absent is warned of; any other failure is none that a clean run knows.
    have hunless : e.isAbsence = false → ¬ clean := fun he hclean => by
      have hinforms := (ha hclean).2
      simp only [informs, hp, he, Bool.false_eq_true] at hinforms
    have hnone : w.routeOf platform c = none :=
      routeOf_of_plugin htells fun p hp' => by
        rw [hp] at hp'
        cases hp'
    rw [hanswer, hp]
    rcases e with r | b
    · show Meets _ _ (if r.isAbsence then _ else _) _ _
      split
      · exact hwarned _ _ hnothing fun _ => serves_of_none hnone
      · rename_i hr
        exact meets_done ⟨hunless (Bool.not_eq_true r.isAbsence ▸ hr), hnothing⟩
    · exact ⟨hunless rfl, hnothing⟩
  · rw [hanswer, hp]
    show Meets _ _ (if p.endpoints.isEmpty then _ else _) _ _
    split
    · rename_i hempty
      refine meets_done
        ⟨hnothing, fun _ => serves_of_none (routeOf_of_plugin htells fun p' hp' => ?_)⟩
      rw [hp] at hp'
      rwa [← Except.ok.inj hp']
    · rename_i hempty
      refine .bind (.attempt ((meets_routeEndpoints hn hc hid htells hp
        (by simpa using hempty)).weaken fun r w' _ hr => ?_))
      rcases r with (r | b) | u
      · exact hwarned _ _ hr.2 fun hclean => absurd hclean hr.1
      · exact hr
      · exact meets_done ⟨hr.1, fun _ => hr.2⟩

/-- What starting the containers that were added has come to: the same containers are there, and
some of them are known to be started and, if no call failed, to be routed. -/
structure Started (platform : PlatformSettings) (k : AppKey) (tag : Tag) (clean : Prop)
    (w₀ : World) (added : List Container) (done : List String) (now : List Container)
    (w : World) : Prop where
  ids : now.map (·.id) = added.map (·.id)
  grown : Grown platform k tag w₀ now w
  running : ∀ c ∈ now, c.id ∈ done → c.isRunning = true
  served : clean → ∀ c ∈ now, c.id ∈ done → Serves platform w₀ c w

theorem meets_startOne {done : List String} {now : List Container} {h : Handle}
    (hw : Started platform k tag clean w₀ added done now w) (hid : h.id ∈ added.map (·.id))
    (htag : Tag.parse tag.format = .ok h.tag) :
    (startOne platform h).Meets (alone lenient clean k) k
      (ends (fun _ w' => ∃ now', Started platform k tag clean w₀ added (done ++ [h.id]) now' w')
        fun _ w' => ¬ clean ∧ ∃ now', Started platform k tag clean w₀ added done now' w') w := by
  rw [← hw.ids] at hid
  obtain ⟨c, hc, hcid⟩ := List.mem_map.1 hid
  -- Once the container runs, publishing it is all that is left to be done.
  have hpublish {now' : List Container} {c' : Container} {w' : World}
      (h' : Started platform k tag clean w₀ added done now' w') (hc' : c' ∈ now')
      (hid' : h.id = c'.id) (hrun : c'.isRunning = true) (hw' : w'.Dependable lenient) :
      (publish platform h).Meets (alone lenient clean k) k
        (ends (fun _ w' => ∃ now', Started platform k tag clean w₀ added (done ++ [h.id]) now' w')
          fun _ w' => ¬ clean ∧ ∃ now', Started platform k tag clean w₀ added done now' w') w' := by
    obtain ⟨n, hreplica⟩ := h'.grown.replica hc'
    have hone {d : Container} (hd : d ∈ now') (he : d.id = c'.id) : d = c' :=
      hw'.numbered.eq_of_id (h'.grown.mem hd) (h'.grown.mem hc') he
    have hkeeps {w'' : World} (hp : Published platform w' c' w'') :
        clean → ∀ d ∈ now', d.id ≠ c'.id → d.id ∈ done → Serves platform w₀ d w'' :=
      fun hclean d hd hne hdone htable endpoints hof => by
        rw [hp.others d.id hne]
        exact h'.served hclean d hd hdone htable endpoints hof
    refine (meets_publish hw'.numbered (h'.grown.mem hc') hid'
      ⟨_, hreplica.tag_label, htag⟩).weaken fun r w'' _ hr => ?_
    have hserved (hp : Published platform w' c' w'') (hs : clean → Serves platform w' c' w'') :
        Started platform k tag clean w₀ added (done ++ [h.id]) now' w'' := by
      refine ⟨h'.ids, h'.grown.published hw'.numbered hc' hrun hp, fun d hd hmem => ?_,
        fun hclean d hd hmem => ?_⟩
      all_goals
        rw [List.mem_append, List.mem_singleton, hid'] at hmem
        by_cases he : d.id = c'.id
      · rw [hone hd he]
        exact hrun
      · exact h'.running d hd (hmem.resolve_right he)
      · rw [hone hd he]
        exact .of_unwritten h'.grown.toUnwritten (hs hclean)
      · exact hkeeps hp hclean d hd he (hmem.resolve_right he)
    cases r with
    | ok u => exact ⟨now', hserved hr.1 hr.2⟩
    | error e =>
      refine ⟨hr.1, now', h'.ids, h'.grown.published hw'.numbered hc' hrun hr.2, h'.running,
        fun hclean => absurd hclean hr.1⟩
  refine .bind (meets_call rfl fun hwd _ ha => ?_)
  have hroutes {cs : List Container} {w' : World} (hb : w.Became cs w') : w'.routes = w.routes := by
    obtain ⟨_, _, _, rfl⟩ := hb
    rfl
  have hquiet (hq : w.Quiet (w.answer (.start h)).2) :
      Started platform k tag clean w₀ added done now (w.answer (.start h)).2 :=
    ⟨hw.ids, hw.grown.quiet hq, hw.running, fun hclean d hd hdone htable endpoints hof => by
      rw [hroutes hq]
      exact hw.served hclean d hd hdone htable endpoints hof⟩
  rcases w.answer_start h hwd.truthful.1 with ⟨e, he, hq⟩ | ⟨hok, d, hfind, hcases⟩
  · rw [he]
    exact ⟨not_clean (c := .start h) rfl ha he, now, hquiet hq⟩
  rw [hok]
  obtain ⟨hd, hdid⟩ := Engine.find?_eq_some hfind
  obtain rfl : d = c := hwd.numbered.eq_of_id hd (hw.grown.mem hc) (hdid.trans hcid.symm)
  have hwd' : (w.answer (.start h)).2.Dependable lenient := hwd.answer (c := .start h) rfl
  rcases hcases with ⟨hrun, hq⟩ | ⟨hstopped, hb⟩
  · exact hpublish (hquiet hq) hc hcid.symm hrun hwd'
  · rw [← hcid] at hb
    have hmem : d.started ∈ Engine.changed now d.id .started :=
      List.mem_map.2 ⟨d, hc, if_pos rfl⟩
    refine hpublish ⟨?_, hw.grown.changed hwd.numbered hc hstopped hb, fun c' hc' hdone => ?_,
      fun hclean c' hc' hdone => ?_⟩ hmem hcid.symm rfl hwd'
    · rw [← hw.ids, Engine.changed, List.map_map]
      refine List.map_congr_left fun c' _ => ?_
      dsimp only [Function.comp]
      split <;> rfl
    · obtain ⟨b, hb', rfl⟩ := List.mem_map.1 hc'
      by_cases he : b.id = d.id
      · rw [if_pos he]
        rfl
      · rw [if_neg he] at hdone ⊢
        exact hw.running b hb' hdone
    · obtain ⟨b, hb', rfl⟩ := List.mem_map.1 hc'
      intro htable endpoints hof
      rw [hroutes hb]
      by_cases he : b.id = d.id
      · -- The container did not run before, so it was not one of those that are done.
        rw [if_pos he] at hdone
        have hrun := hw.running b hb' hdone
        rw [hwd.numbered.eq_of_id (hw.grown.mem hb') hd he, hstopped] at hrun
        cases hrun
      · rw [if_neg he] at hdone hof ⊢
        exact hw.served hclean b hb' hdone htable endpoints hof

/-- Starting all containers that were added ends with all of them started, or fails. -/
theorem meets_startAll {hs : List Handle} (h : Grown platform k tag w₀ added w)
    (hread : List.Forall₂ (fun c h =>
      Runtime.handleOf w₀.broker.runtime.settings.network c = .ok h) added hs) :
    (startAll platform hs).Meets (alone lenient clean k) k
      (ends (fun _ w' => ∃ now, Started platform k tag clean w₀ added (added.map (·.id)) now w')
        fun _ w' => ¬ clean ∧ ∃ now, now.length = added.length ∧
          Grown platform k tag w₀ now w') w := by
  have hids : hs.map Handle.id = added.map (·.id) := Runtime.map_id_of_read hread
  have htags : ∀ h ∈ hs, Tag.parse tag.format = .ok h.tag := by
    intro handle hh
    obtain ⟨c, hc, hof⟩ := exists_of_mem_right hread hh
    obtain ⟨n, hreplica⟩ := h.replica hc
    obtain ⟨text, hlabel, hparse⟩ := (Runtime.readFrom_of_handleOf hof).tag
    rwa [Option.some.inj (hreplica.tag_label.symm.trans hlabel)]
  have hlength {now : List Container} (hn : now.map (·.id) = added.map (·.id)) :
      now.length = added.length := by
    simpa using congrArg List.length hn
  refine .bind ((Meets.forEach (fun before _ w' => ∃ now,
      Started platform k tag clean w₀ added (before.map Handle.id) now w')
    (E := fun _ w' => ¬ clean ∧ ∃ now, now.length = added.length ∧ Grown platform k tag w₀ now w')
    (fun before units handle hh w' _ ⟨now, hnow⟩ => ?_) [] [] fun w' _ hr => ?_).weaken
      fun r w' _ hr => ?_)
  · have hid : handle.id ∈ added.map (·.id) := by
      rw [← hids]
      exact List.mem_map_of_mem hh
    refine (meets_startOne hnow hid (htags handle hh)).weaken fun r w'' _ hr => ?_
    cases r with
    | ok u =>
      rw [List.map_append]
      exact hr
    | error e =>
      obtain ⟨hclean, now', hnow'⟩ := hr
      exact ⟨hclean, now', hlength hnow'.ids, hnow'.grown⟩
  · obtain rfl := hr rfl
    exact ⟨added, rfl, h, by simp, by simp⟩
  · cases r with
    | error e => exact hr
    | ok units =>
      rw [List.nil_append, hids] at hr
      exact meets_done hr

/-! ## Shrinking -/

section Shrinking

variable {dropped gone : List String}

theorem meets_retract {h : Handle} (hw : Shrunk dropped w₀ gone w) (hid : h.id ∈ dropped) :
    (retract h).Meets (alone lenient clean k) k
      (ends (fun _ w' => Shrunk dropped w₀ gone w' ∧ w'.routes.get? h.id = none)
        fun _ w' => ¬ clean ∧ Shrunk dropped w₀ gone w') w := by
  refine .bind (.attempt (meets_call rfl fun _ _ ha => ?_))
  obtain ⟨hshrunk, hnone⟩ := hw.retract hid
  cases ho : (w.answer (.route (.retract h.id))).1 with
  | ok u => exact meets_done ⟨hshrunk, hnone⟩
  | error e =>
    have hfailed := not_clean (c := .route _) rfl ha ho
    cases e with
    | breakage b => exact ⟨hfailed, hshrunk⟩
    | refusal r =>
      show Meets _ _ (if r.isRouting then _ else _) _ _
      rw [if_pos ((w.answer_retract h.id).2.2.2 r ho)]
      exact meets_call rfl fun _ _ _ => ⟨hshrunk.still (unwritten_answer rfl _) rfl rfl rfl, hnone⟩

theorem meets_destroyOne {h : Handle} (hw : Shrunk dropped w₀ gone w) (hid : h.id ∈ dropped) :
    (destroyOne h).Meets (alone lenient clean k) k
      (ends (fun _ w' => Shrunk dropped w₀ (h.id :: gone) w')
        fun _ w' => ¬ clean ∧ Shrunk dropped w₀ gone w') w := by
  refine .bind ((meets_retract hw hid).weaken fun r w₁ _ h₁ => ?_)
  cases r with
  | error e => exact h₁
  | ok u =>
  obtain ⟨hshrunk, hnone⟩ := h₁
  refine meets_call trivial fun hw₁ _ ha => ?_
  rcases hshrunk.destroy hw₁.truthful hid hnone with ⟨hstill, e, he⟩ | ⟨hok, hgone⟩
  · rw [he]
    exact ⟨not_clean (c := .destroy h) rfl ha he, hstill⟩
  · rw [hok]
    exact hgone

/-- What a sweep has come to while some containers are still to be dropped: all others are gone if
no call failed. -/
structure Sweeping (clean : Prop) (dropped : List String) (w₀ : World) (rest : List Handle)
    (gone : List String) (w : World) : Prop where
  shrunk : Shrunk dropped w₀ gone w
  due : ∀ h ∈ rest, h.id ∈ dropped
  settled : clean → ∀ id ∈ dropped, id ∈ gone ∨ id ∈ rest.map Handle.id

/-- Destroying containers goes on after failures, and destroys all of them if no call fails. -/
theorem meets_sweepStrictly {hs : List Handle}
    (hw : Shrunk (hs.map Handle.id) w₀ [] w) :
    (sweepStrictly destroyOne hs).Meets (alone lenient clean k) k
      (ends (fun _ w' => ∃ gone, Shrunk (hs.map Handle.id) w₀ gone w' ∧
          (clean → hs.map Handle.id ⊆ gone))
        fun _ w' => ¬ clean ∧ ∃ gone, Shrunk (hs.map Handle.id) w₀ gone w') w := by
  let I (rest : List Handle) (w : World) : Prop :=
    ∃ gone, Sweeping clean (hs.map Handle.id) w₀ rest gone w
  let E (_ : Failure) (w : World) : Prop :=
    ¬ clean ∧ ∃ gone, Shrunk (hs.map Handle.id) w₀ gone w
  have hnote : ∀ severity text rest w, (alone lenient clean k).sound w → I rest w →
      (Program.warn severity text).Meets (alone lenient clean k) k
        (ends (fun _ => I rest) E) w := by
    intro severity text rest w _ ⟨gone, hshrunk, hdue, hsettled⟩
    exact meets_call rfl fun _ _ _ =>
      ⟨gone, hshrunk.still (unwritten_answer rfl _) rfl rfl rfl, hdue, hsettled⟩
  have hstep : ∀ h rest w, (alone lenient clean k).sound w → I (h :: rest) w →
      (destroyOne h).Meets (alone lenient clean k) k
        (ends (fun _ => I rest) (unlessRefused (fun _ w' => ¬ clean ∧ I rest w') E)) w := by
    intro h rest w _ ⟨gone, hshrunk, hdue, hsettled⟩
    refine (meets_destroyOne hshrunk (hdue h List.mem_cons_self)).weaken fun r w' _ hr => ?_
    have hdue' : ∀ d ∈ rest, d.id ∈ hs.map Handle.id := fun d hd =>
      hdue d (List.mem_cons_of_mem _ hd)
    rcases r with (f | b) | u
    · exact ⟨hr.1, gone, hr.2, hdue', fun hclean => absurd hclean hr.1⟩
    · exact ⟨hr.1, gone, hr.2⟩
    · refine ⟨h.id :: gone, hr, hdue', fun hclean id hid => ?_⟩
      have := hsettled hclean id hid
      rw [List.map_cons, List.mem_cons] at this
      rw [List.mem_cons]
      tauto
  refine .bind ((Meets.sweep_noting (I := I) (A := fun _ => ¬ clean) (E := E) hnote
    (fun rest w w' _ hr hI => hr rfl ▸ hI) hstep ⟨[], hw, fun h hh => List.mem_map_of_mem hh,
      fun _ id hid => .inr hid⟩).weaken fun r w' _ hr => ?_)
  cases r with
  | error e => exact hr
  | ok failure =>
    obtain ⟨hfailed, gone, hshrunk, -, hsettled⟩ := hr
    cases failure with
    | some f => exact meets_done ⟨hfailed f rfl, gone, hshrunk⟩
    | none =>
      refine meets_done ⟨gone, hshrunk, fun hclean id hid => ?_⟩
      exact (hsettled hclean id hid).resolve_right (by simp)

end Shrinking

/-! ## Scaling -/

section Scale

variable {caller : Caller} {name : String} {r : Record} {target : Int} {current : List Handle}

/-- Growing makes so many containers for the tag that it finds, and starts them if the application
is active, or fails. -/
theorem meets_grow (hq : w₀.Quiet w)
    (hread : List.Forall₂ (fun c h =>
      Runtime.handleOf w₀.broker.runtime.settings.network c = .ok h)
      (w₀.frameworks (caller.key name)) current)
    (hbreeds : clean → ∃ tag, w₀.Breeds (caller.key name) r tag) :
    let count := (target - (w₀.frameworks (caller.key name)).length).toNat
    (grow platform caller r name current target).Meets (alone lenient clean (caller.key name))
      (caller.key name)
      (ends (fun _ w' => ∃ tag added,
          Raised platform (caller.key name) r count True clean w₀ tag added w')
        fun _ w' => ¬ clean ∧ ∃ tag added,
          Raised platform (caller.key name) r count False False w₀ tag added w') w := by
  intro count
  refine .bind (meets_done ?_)
  cases htag : growthTag r current with
  | error e =>
    refine ⟨fun hclean => ?_, exists_raised_nil hq False.elim⟩
    obtain ⟨tag, h⟩ := hbreeds hclean
    rw [(growthTag_iff hread).2 h] at htag
    cases htag
  | ok tag =>
  have htag' : w₀.Breeds (caller.key name) r tag := (growthTag_iff hread).1 htag
  have hreplicas : replicas (target - current.length) [tag] = List.replicate count tag := by
    rw [Agreeing.replicas_singleton, ← hread.length_eq]
  have hnone : Grown platform (caller.key name) tag w₀ [] w := (Grown.refl w₀).quiet hq
  refine .bind ?_
  rw [hreplicas]
  refine (meets_createAll (k := caller.key name) count hnone).weaken fun result w₁ _ h₁ => ?_
  cases result with
  | error e =>
    obtain ⟨hfailed, more, hlength, hidle, hgrown⟩ := h₁
    exact ⟨hfailed, tag, more, hgrown, fun _ => htag', hlength, False.elim, fun _ => hidle,
      False.elim⟩
  | ok hs =>
  obtain ⟨more, hlength, hidle, hgrown, hmore⟩ := h₁
  show Meets _ _ (if current.any (·.state = .running) then _ else _) _ _
  split
  · rename_i hany
    have hactive := (any_running_iff hread).1 hany
    refine (meets_startAll hgrown hmore).weaken fun result w₂ _ h₂ => ?_
    cases result with
    | error e =>
      obtain ⟨hfailed, now, hnow, hgrown'⟩ := h₂
      exact ⟨hfailed, tag, now, hgrown', fun _ => htag', (hnow.trans hlength).le, False.elim,
        fun h => absurd hactive h, False.elim⟩
    | ok u =>
      obtain ⟨now, hstarted⟩ := h₂
      have hnow : now.length = more.length := by
        simpa using congrArg List.length hstarted.ids
      have hdone (c : Container) (hc : c ∈ now) : c.id ∈ more.map (·.id) :=
        hstarted.ids ▸ List.mem_map_of_mem hc
      exact ⟨tag, now, hstarted.grown, fun _ => htag', (hnow.trans hlength).le,
        fun _ => hnow.trans hlength, fun h => absurd hactive h, fun hclean _ c hc =>
          ⟨hstarted.running c hc (hdone c hc), hstarted.served hclean c hc (hdone c hc)⟩⟩
  · rename_i hany
    exact meets_done ⟨tag, more, hgrown, fun _ => htag', hlength.le, fun _ => hlength,
      fun _ => hidle, fun _ hactive => absurd ((any_running_iff hread).2 hactive) hany⟩

/-- Framework containers are brought to their number, or a call fails on the way. -/
theorem meets_adjust (hq : w₀.Quiet w)
    (hread : List.Forall₂ (fun c h =>
      Runtime.handleOf w₀.broker.runtime.settings.network c = .ok h)
      (w₀.frameworks (caller.key name)) current)
    (hbreeds : clean → ∃ tag, w₀.Breeds (caller.key name) r tag) :
    (adjust platform caller r name current target).Meets (alone lenient clean (caller.key name))
      (caller.key name)
      (ends (fun _ w' => Adjusted platform (caller.key name) r target True clean w₀ w')
        fun _ w' => ¬ clean ∧ Adjusted platform (caller.key name) r target False False w₀ w')
      w := by
  have hlength := hread.length_eq
  unfold adjust
  split
  · rename_i hless
    refine (meets_grow hq hread hbreeds).weaken fun result w' _ h => ?_
    cases result with
    | ok u => exact ⟨fun _ => h, fun hle => by omega⟩
    | error e => exact ⟨h.1, fun _ => h.2, fun hle => by omega⟩
  split
  · rename_i hmore
    have hids : (current.drop target.toNat).map Handle.id =
        (w₀.surplus (caller.key name) target).map (·.id) :=
      Runtime.map_id_of_read (List.forall₂_drop _ hread)
    refine (meets_sweepStrictly (hq.shrunk _)).weaken fun result w' _ h => ?_
    rw [hids] at h
    cases result with
    | ok u => exact ⟨fun hle => by omega, fun _ => h⟩
    | error e =>
      obtain ⟨hfailed, gone, hshrunk⟩ := h
      exact ⟨hfailed, fun hle => by omega, fun _ => ⟨gone, hshrunk, False.elim⟩⟩
  · have hequal : target = (w₀.frameworks (caller.key name)).length := by omega
    have hnone : w₀.surplus (caller.key name) target = [] := by
      unfold surplus
      rw [hequal, Int.toNat_natCast, List.drop_length]
    refine meets_done
      ⟨fun _ => exists_raised_nil hq fun _ => by omega, fun _ => ⟨[], hq.shrunk _, ?_⟩⟩
    rw [hnone]
    exact fun _ => List.nil_subset _

theorem meets_recordOf (hk : (caller.key name).IsFiled) :
    (recordOf caller name).Meets (alone lenient clean (caller.key name)) (caller.key name)
      (ends (fun r w' => w' = w ∧ caller.tenant ≠ "" ∧ w.recordAt (caller.key name) = some r)
        fun _ w' => w' = w ∧ (clean → caller.tenant = "" ∨ w.recordAt (caller.key name) = none))
      w := by
  unfold recordOf Caller.required
  split
  · rename_i htenant
    exact meets_done ⟨rfl, fun _ => .inl htenant⟩
  rename_i htenant
  refine .bind (meets_done (.bind (meets_call (c := .record caller.tenant name) hk
    fun hw _ ha => ?_)))
  have hcases : w.answer (.record caller.tenant name) = (.ok (w.recordAt (caller.key name)), w) ∨
      ∃ e, w.answer (.record caller.tenant name) = (.error e, w) :=
    World.answer_record hw.storing hk name
  rcases hcases with hanswer | ⟨e, hanswer⟩
  · rw [hanswer]
    cases hr : w.recordAt (caller.key name) with
    | some r => exact meets_done ⟨rfl, htenant, rfl⟩
    | none => exact meets_done ⟨rfl, fun _ => .inr rfl⟩
  · have hfailed : ¬ clean := not_clean (c := .record caller.tenant name) rfl ha (by rw [hanswer])
    rw [hanswer]
    exact ⟨rfl, fun hclean => absurd hclean hfailed⟩

/-- Looking for an application's framework containers gives all of them, oldest first, or fails. -/
theorem meets_frameworkContainers (hk : Told lenient (caller.key name)) :
    (frameworkContainers caller name).Meets (alone lenient clean (caller.key name))
      (caller.key name)
      (ends (fun hs w' => w.Quiet w' ∧ List.Forall₂ (fun c h =>
          Runtime.handleOf w.broker.runtime.settings.network c = .ok h)
          (w.frameworks (caller.key name)) hs)
        fun _ w' => ¬ clean ∧ w.Quiet w') w := by
  refine meets_call (c := .find name caller.tenant (some "")) rfl fun hw hseq ha => ?_
  have hq := (w.answer_find name caller.tenant (some "")).1
  cases ho : (w.answer (.find name caller.tenant (some ""))).1 with
  | error e => exact ⟨not_clean (c := .find ..) rfl ha ho, hq⟩
  | ok hs => exact ⟨hq, find_frameworks (k := caller.key name) (hw.lenient_eq ▸ hk) hseq ho⟩

/-- Writing the number into a record that tells another one. -/
theorem meets_rescale (hk : (caller.key name).IsFiled) (htarget : 1 ≤ target)
    (hrecord : w.recordAt (caller.key name) = some r) :
    (perform (.replaceRecord caller.tenant { r with scaling := target })).Meets
      (alone lenient clean (caller.key name)) (caller.key name)
      (ends (fun _ w' => w.Unmoved w' ∧ Rescaled (caller.key name) r target w w')
        fun _ w' => ¬ clean ∧ w' = w) w := by
  refine .of_after fun w₁ hs hr => ?_
  obtain rfl := hr rfl
  obtain ⟨hfit, hrname⟩ := hs.1.storing.fit hk hrecord
  have hkey : (⟨caller.tenant, r.name⟩ : AppKey) = caller.key name := by
    rw [hrname]
    rfl
  have htenant : '/' ∉ caller.tenant.toList := hk
  have hfit' : Store.Fit { r with scaling := target } := ⟨htarget, hfit.created⟩
  refine meets_call (c := .replaceRecord caller.tenant { r with scaling := target })
    ⟨htenant, hfit'⟩ fun hw _ ha => ?_
  rcases World.answer_replaceRecord hw.storing htenant hfit' with
    ⟨e, hanswer⟩ | ⟨w', hanswer, hwrote, -, hrecords⟩
  · have hfailed := not_clean (c := .replaceRecord ..) rfl ha (by rw [hanswer])
    rw [hanswer]
    exact ⟨hfailed, rfl⟩
  · rw [hanswer]
    rw [hkey] at hrecords
    exact ⟨hwrote.unmoved, hrecords⟩

/-- A scaling comes to all that was to be done, or to a part of it. -/
theorem meets_scaleHeld (hk : (caller.key name).IsFiled) (hname : lenient = false ∨ name ≠ "")
    (htarget : 1 ≤ target)
    (hready : clean → caller.tenant ≠ "" ∧ ∃ r tag, w.recordAt (caller.key name) = some r ∧
      w.Breeds (caller.key name) r tag) :
    (scaleHeld platform caller name target).Meets (alone lenient clean (caller.key name))
      (caller.key name)
      (ends (fun hs w' => Scaled platform (caller.key name) target clean w hs w')
        fun _ w' => ¬ clean ∧ HalfScaled platform (caller.key name) target w w') w := by
  refine .bind ((meets_recordOf hk).weaken fun result w₁ _ h₁ => ?_)
  cases result with
  | error e =>
    obtain ⟨rfl, hnone⟩ := h₁
    refine ⟨fun hclean => ?_, .inl ⟨.refl _, rfl⟩⟩
    obtain ⟨htenant, r, tag, hr, -⟩ := hready hclean
    rcases hnone hclean with h | h
    · exact htenant h
    · rw [hr] at h
      cases h
  | ok r =>
  obtain ⟨rfl, htenant, hr⟩ := h₁
  have hbreeds : clean → ∃ tag, w₁.Breeds (caller.key name) r tag := fun hclean => by
    obtain ⟨-, r', tag, hr', htag⟩ := hready hclean
    obtain rfl := Option.some.inj (hr'.symm.trans hr)
    exact ⟨tag, htag⟩
  have ht := told_of_tenant hname htenant
  refine .bind ((meets_frameworkContainers ht).weaken fun result w₂ _ h₂ => ?_)
  cases result with
  | error e => exact ⟨h₂.1, .inl ⟨h₂.2.unmoved, h₂.2.unwritten.disk⟩⟩
  | ok current =>
  obtain ⟨hq, hread⟩ := h₂
  refine .bind ((meets_adjust hq hread hbreeds).weaken fun result w₃ _ h₃ => ?_)
  cases result with
  | error e =>
    exact ⟨h₃.1, .inr ⟨r, False, w₃, hr, h₃.2, .refl w₃, .inl h₃.2.unwritten.disk⟩⟩
  | ok u =>
  have hu := h₃.unwritten
  -- Whether or not the record had to be written, what is left is to find the containers.
  have hfind {w₄ : World} (hunmoved : w₃.Unmoved w₄)
      (hrecords : Rescaled (caller.key name) r target w₁ w₄) :
      (frameworkContainers caller name).Meets (alone lenient clean (caller.key name))
        (caller.key name)
        (ends (fun hs w' => Scaled platform (caller.key name) target clean w₁ hs w')
          fun _ w' => ¬ clean ∧ HalfScaled platform (caller.key name) target w₁ w') w₄ := by
    refine (meets_frameworkContainers ht).weaken fun result w₅ _ h₅ => ?_
    have hlast {w₅ : World} (hq' : w₄.Quiet w₅) : w₃.Unmoved w₅ ∧
        Rescaled (caller.key name) r target w₁ w₅ :=
      ⟨hunmoved.trans hq'.unmoved,
        fun k' hk' => (hq'.unwritten.recordAt k').trans (hrecords k' hk')⟩
    cases result with
    | error e =>
      obtain ⟨hunmoved', hrecords'⟩ := hlast h₅.2
      exact ⟨h₅.1, .inr ⟨r, True, w₃, hr, h₃.undone, hunmoved', .inr ⟨trivial, hrecords'⟩⟩⟩
    | ok hs =>
      obtain ⟨hunmoved', hrecords'⟩ := hlast h₅.1
      refine ⟨r, w₃, hr, h₃, hunmoved', hrecords', ?_⟩
      rw [h₅.1.unmoved.frameworks_eq, ← hu.settings, ← hunmoved.settings]
      exact h₅.2
  show Meets _ _ (if r.scaling ≠ target then _ else _) _ _
  split
  · refine .bind ((meets_rescale hk htarget ((hu.recordAt _).trans hr)).weaken
      fun result w₄ _ h₄ => ?_)
    cases result with
    | error e =>
      obtain ⟨hfailed, rfl⟩ := h₄
      exact ⟨hfailed, .inr ⟨r, True, w₄, hr, h₃.undone, .refl w₄, .inl hu.disk⟩⟩
    | ok u =>
      refine hfind h₄.1 fun k' hk' => ?_
      rw [h₄.2 k' hk', hu.recordAt]
  · rename_i hsame
    have hsame : { r with scaling := target } = r := by
      rw [← not_not.1 hsame]
    refine hfind (.refl w₃) fun k' _ => ?_
    rw [hu.recordAt, hsame]
    split
    · rename_i he
      rw [he, hr]
    · rfl

theorem scale_eq (htarget : 1 ≤ target) : scale platform caller name target =
    holding (caller.key name) (scaleHeld platform caller name target) := by
  unfold scale
  rw [if_neg (Int.not_lt.2 htarget)]

/-- A scaling that is run by itself comes to all that was to be done, or to a part of it; if it is
known that no call fails, it comes to all. -/
theorem run_scale (platform : PlatformSettings) (clean : Prop) (hw : w.Dependable lenient)
    (hseq : w.Sequenced) (hk : (caller.key name).IsFiled) (hname : lenient = false ∨ name ≠ "")
    (htarget : 1 ≤ target)
    (hready : clean → caller.tenant ≠ "" ∧ ∃ r tag, w.recordAt (caller.key name) = some r ∧
      w.Breeds (caller.key name) r tag)
    (hcalls : clean → (scale platform caller name target).Along
      (fun c w => w.serves c = true ∧ w.informs c = true) w) :
    let result := (scale platform caller name target).run w
    (result.2.Dependable lenient ∧ result.2.Sequenced) ∧
      ends (fun hs w' => Scaled platform (caller.key name) target clean w hs w')
        (fun _ w' => ¬ clean ∧ HalfScaled platform (caller.key name) target w w')
        result.1 result.2 := by
  rw [scale_eq htarget] at hcalls ⊢
  rw [run_holding]
  obtain ⟨hsound, -, hends⟩ := (meets_scaleHeld hk hname htarget hready).run _ ⟨hw, hseq⟩
    (along_of fun hclean => along_holding.1 (hcalls hclean))
  exact ⟨hsound, hends⟩

/-- A scaling in which no call fails ends well, with all done that was to be done. -/
theorem run_scale_cleanly (platform : PlatformSettings) (hw : w.Dependable lenient)
    (hseq : w.Sequenced) (hk : (caller.key name).IsFiled) (htenant : caller.tenant ≠ "")
    (hname : lenient = false ∨ name ≠ "") (htarget : 1 ≤ target)
    (hrecord : w.recordAt (caller.key name) = some r) (htag : w.Breeds (caller.key name) r tag)
    (hcalls : (scale platform caller name target).Along
      (fun c w => w.serves c = true ∧ w.informs c = true) w) :
    let result := (scale platform caller name target).run w
    ∃ hs, result.1 = .ok hs ∧ Scaled platform (caller.key name) target True w hs result.2 := by
  intro result
  have hends := (run_scale platform True hw hseq hk hname htarget
    (fun _ => ⟨htenant, r, tag, hrecord, htag⟩) fun _ => hcalls).2
  cases hresult : result.1 with
  | error e =>
    rw [hresult] at hends
    exact absurd trivial hends.1
  | ok hs =>
    rw [hresult] at hends
    exact ⟨hs, rfl, hends⟩

end Scale

end Scaling

end AppBroker
