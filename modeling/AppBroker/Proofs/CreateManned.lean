import AppBroker.Proofs.CompositionTags
import AppBroker.Proofs.CreateUndone

/-!
# Creations that succeed

A creation that gives handles has recorded the application and added to its containers so many of
the framework and one for each service, whatever calls failed before and whatever containers there
were (`created_application_is_manned`). If there were none, those are all, and a count of them
gives the scaling of the record.

It does not look for containers that are there without a record. A removal that could not remove one
of them leaves such a container behind, and the next creation under the name takes it up
(`Manning.creation_takes_up_remains`).
-/

namespace AppBroker

open Program Lifecycle

namespace Manning

variable {lenient : Bool} {k : AppKey} {tags tags' : List Tag} {w w' w₁ w₂ : World}

/-! ## Making containers -/

/-- Containers for some tags have been added to those of an application, and its record is what it
was. -/
structure Added (k : AppKey) (tags : List Tag) (w w' : World) : Prop where
  record : w'.recordAt k = w.recordAt k
  marks : ∃ added, List.Forall₂ (fun m t => Made m.2 t ∧ t.IsReadable) added tags ∧
    w'.marks k = w.marks k ++ added

theorem Added.refl (k : AppKey) (w : World) : Added k [] w w := ⟨rfl, [], .nil, by simp⟩

theorem Added.append (h : Added k tags w w₁) (h' : Added k tags' w₁ w₂) :
    Added k (tags ++ tags') w w₂ := by
  obtain ⟨added, hadded, hmarks⟩ := h.marks
  obtain ⟨added', hadded', hmarks'⟩ := h'.marks
  refine ⟨h'.record.trans h.record, added ++ added', List.rel_append hadded hadded', ?_⟩
  rw [hmarks', hmarks, List.append_assoc]

theorem Added.of_steady (h : w.Steady w') : Added k [] w w' :=
  ⟨h.recordAt k, [], .nil, by rw [List.append_nil, World.marks_of_labels h.labels k]⟩

theorem added_create {h : Handle} {tag : Tag} (hw : w.Dependable lenient)
    (hok : w.answer (.create k.name k.tenant tag) = (.ok h, w')) : Added k [tag] w w' := by
  rcases w.lineup_create (k := k) hw.numbered tag with ⟨⟨e, he⟩, -⟩ |
    ⟨hof, ⟨w₁, hb, hw₁⟩, hlineup⟩
  · rw [hok] at he
    cases he
  · rw [hok] at hof hw₁ hlineup
    have hread := hof.symm
    obtain ⟨text, htext, hparse⟩ := (Runtime.readFrom_of_handleOf hread).tag
    have hmade : Made (w.newcomer k.name k.tenant tag).labels tag := World.made_newcomer hread
    rw [hmade.tag] at htext
    refine ⟨?_, [((w.newcomer k.name k.tenant tag).id, (w.newcomer k.name k.tenant tag).labels)],
      .cons ⟨hmade, h.tag, ?_⟩ .nil, ?_⟩
    · dsimp only at hw₁
      rw [hw₁]
      obtain ⟨_, _, _, rfl⟩ := hb
      rfl
    · rw [Option.some.inj htext]
      exact hparse
    · unfold World.marks
      rw [hlineup, if_pos rfl, List.map_append]
      rfl

theorem run_createAll {handles : List Handle} (hw : w.Dependable lenient)
    (h : (createAll k.name k.tenant tags).run w = (.ok handles, w')) :
    w'.Dependable lenient ∧ Added k tags w w' := by
  induction tags generalizing w handles with
  | nil =>
    cases h
    exact ⟨hw, .refl k _⟩
  | cons tag tags ih =>
    obtain ⟨handle, w₁, hcreate, h⟩ := run_bind_eq_ok h
    obtain ⟨rest, w₂, hrest, h⟩ := run_bind_eq_ok h
    cases h
    have hw₁ : w₁.Dependable lenient := by
      have hanswer := hw.answer (c := .create k.name k.tenant tag) trivial
      rwa [show w.answer (.create k.name k.tenant tag) = _ from hcreate] at hanswer
    obtain ⟨hw₂, hadded⟩ := ih hw₁ hrest
    exact ⟨hw₂, (added_create hw hcreate).append hadded⟩

/-- The containers that are made for an application's tags, when all of them can be. -/
theorem run_populate {first : Tag} {rest : List Tag} {scaling : Int} {handles : List Handle}
    (hw : w.Dependable lenient)
    (h : (populate k.name k.tenant (first :: rest) scaling).run w = (.ok handles, w')) :
    w'.Dependable lenient ∧ Added k (List.replicate scaling.toNat first ++ rest) w w' := by
  obtain ⟨made, w₁, hmade, h⟩ := run_bind_eq_ok h
  obtain ⟨more, w₂, hmore, h⟩ := run_bind_eq_ok h
  cases h
  obtain ⟨hw₁, hframeworks⟩ := run_createAll hw hmade
  obtain ⟨hw₂, hservices⟩ := run_createAll hw₁ hmore
  rw [List.take_one, List.head?_cons, Option.toList_some,
    Agreeing.replicas_singleton] at hframeworks
  exact ⟨hw₂, hframeworks.append hservices⟩

/-- A creation that ends well did not have to be undone. -/
theorem run_populateOrUndo {scaling : Int} {handles : List Handle}
    (h : (populateOrUndo k.name k.tenant tags scaling).run w = (.ok handles, w')) :
    (populate k.name k.tenant tags scaling).run w = (.ok handles, w') := by
  obtain ⟨populated, w₁, hpopulated, h⟩ := run_bind_eq_ok h
  rw [attempt, run_andThen] at hpopulated
  rcases hrun : (populate k.name k.tenant tags scaling).run w with ⟨(r | b) | made, w₂⟩ <;>
    rw [hrun] at hpopulated <;> cases hpopulated
  · obtain ⟨-, w₂, -, h⟩ := run_bind_eq_ok h
    obtain ⟨-, w₃, -, h⟩ := run_bind_eq_ok h
    cases h
  · cases h
    rfl

theorem consists_of_added {first : Tag} {rest : List Tag} {scaling : Int}
    (hslots : Slotted first rest) (hscaling : 1 ≤ scaling)
    {added : List (String × Table String String)}
    (hadded : List.Forall₂ (fun m t => Made m.2 t) added
      (List.replicate scaling.toNat first ++ rest)) : Consists added first scaling rest := by
  have hframeworks := List.forall₂_take_append _ _ _ hadded
  have hservices := List.forall₂_drop_append _ _ _ hadded
  have hall := Agreeing.consists_append_services hslots.slots
    (Agreeing.consists_append_frameworks hslots.framework_slot (consists_nil first) hframeworks)
    hservices
  rw [List.nil_append, List.nil_append, List.take_append_drop] at hall
  rwa [show (0 : Int) + (scaling.toNat : Int) = scaling by omega] at hall

/-! ## What is recorded -/

theorem run_propose {caller : Caller} {name framework : String} {services : List String}
    {scaling : Int} (hscaling : 1 ≤ scaling) (ht : '/' ∉ caller.tenant.toList)
    (hw : w.Dependable lenient)
    (h : (propose caller name framework services scaling).run w = (.ok tags, w')) :
    ∃ first rest createdAt, tags = first :: rest ∧ Slotted first rest ∧
      w'.Dependable lenient ∧ w'.marks (caller.key name) = w.marks (caller.key name) ∧
      w'.recordAt (caller.key name) =
        some { name, plugins := tags.map Tag.format, scaling, createdAt } := by
  obtain ⟨found, w₁, hfound, hrest⟩ := run_bind_eq_ok h
  obtain rfl : w₁ = w := by
    have hanswer : w.answer (.record caller.tenant name) = (.ok found, w₁) := hfound
    rcases World.answer_record hw.storing ht name with ha | ⟨e, ha⟩ <;> rw [hanswer] at ha <;>
      cases ha
    rfl
  split at hrest
  · cases hrest
  obtain ⟨composition, w₂, hcompose, hrest⟩ := run_bind_eq_ok hrest
  obtain ⟨hresolve, rfl⟩ : Composition.resolve w₁.disk w₁.broker.hub caller.tenant framework
      services = .ok composition ∧ w₁ = w₂ := Prod.mk.inj hcompose
  obtain ⟨createdAt, w₃, hnow, hrest⟩ := run_bind_eq_ok hrest
  have hreal : createdAt.IsReal := Except.ok.inj (Prod.mk.inj hnow).1 ▸ hw.storing.real
  have hsteady : w₁.Steady w₃ := by
    have hanswer := World.steady_answer (w := w₁) (c := .now) rfl
    rwa [show w₁.answer .now = _ from hnow] at hanswer
  have hw₃ := hsteady.dependable hw
  obtain ⟨u, w₄, hadd, hrest⟩ := run_bind_eq_ok hrest
  cases hrest
  obtain ⟨first, rest, htags, hslotted⟩ := Composition.slotted_of_resolve hresolve
  rw [htags] at hadd ⊢
  let r : Record := { name, plugins := (first :: rest).map Tag.format, scaling, createdAt }
  have hanswer : w₃.answer (.addRecord caller.tenant r) = (.ok u, w') := hadd
  rcases World.answer_addRecord hw₃.storing ht (r := r) ⟨hscaling, hreal⟩ with ⟨e, ha⟩ |
    ⟨w₄, ha, hwrote, hstoring, -, hrecords⟩ <;> rw [hanswer] at ha <;> cases ha
  refine ⟨first, rest, createdAt, rfl, hslotted, hwrote.dependable hw₃ hstoring, ?_, ?_⟩
  · rw [hwrote.marks, World.marks_of_labels hsteady.labels]
  · exact (hrecords _ ht).trans (if_pos rfl)

/-! ## What is counted -/

/-- A count gives how many of the containers that the engine lists are the framework's. -/
theorem run_count (caller : Caller) (name : String) (w : World) :
    ((count caller name).run w).1 = w.listing (caller.key name) (some "") >>= fun cs =>
      (Runtime.handlesOf w.broker.runtime.settings.network cs).map fun hs =>
        (hs.filter fun h => h.service = "").length := by
  show (((perform (.find name caller.tenant (some ""))).bind fun hs => done (.ok hs.length)).run
    w).1 = _
  rw [bind_done, run_andThen]
  show (w.answer (.find (caller.key name).name (caller.key name).tenant (some ""))).1.map _ = _
  rw [World.find_eq]
  cases w.listing (caller.key name) (some "") with
  | error e => rfl
  | ok cs =>
    rw [ok_bind, ok_bind]
    cases Runtime.handlesOf w.broker.runtime.settings.network cs with
    | error e => rfl
    | ok hs => exact congrArg Except.ok (List.length_mergeSort _)

/-- A count of containers that can all be read gives how many there are of the framework, as soon as
the engine lists them. -/
theorem count_of_readable {caller : Caller} {name : String}
    (hk : Told w.engine.lenient (caller.key name))
    (hread : ∀ m ∈ w.marks (caller.key name), ∃ t, Made m.2 t ∧ t.IsReadable) :
    ((count caller name).run w).1 = (w.listing (caller.key name) (some "")).map
      fun _ => ((w.lineup (caller.key name)).filter (·.slot = "")).length := by
  rw [run_count]
  cases hlisting : w.listing (caller.key name) (some "") with
  | error e => rfl
  | ok cs =>
    obtain ⟨hs, hhandles⟩ :
        ∃ hs, Runtime.handlesOf w.broker.runtime.settings.network cs = .ok hs := by
      rw [World.listing_eq_ok hlisting]
      refine Runtime.handlesOf_eq_ok fun c hcs => ?_
      obtain ⟨hcs, hlabels⟩ := List.mem_filter.1 hcs
      have hown := belongsTo_of_filters hk _ hlabels
      obtain ⟨t, hmade, ht⟩ := hread (c.id, c.labels)
        (List.mem_map_of_mem (World.mem_lineup.2 ⟨List.mem_reverse.1 hcs, hown⟩))
      exact hmade.exists_handleOf hown ht _
    have hfind := w.find_eq (caller.key name) (some "")
    rw [hlisting, ok_bind, hhandles] at hfind
    obtain ⟨handles, hpairs, hperm⟩ := World.find_handles hk (fun c hc => by
      obtain ⟨t, hmade, -⟩ := hread _ (List.mem_map_of_mem hc)
      rw [hmade.service]
      rfl) hfind
    have hlength := hperm.length_eq.trans hpairs.length_eq.symm
    rw [List.length_mergeSort] at hlength
    rw [ok_bind, hhandles]
    exact congrArg Except.ok hlength

theorem count_of_consists {caller : Caller} {name : String} {first : Tag} {rest : List Tag}
    {n : Nat} (hk : Told w.engine.lenient (caller.key name))
    (hc : Consists (w.marks (caller.key name)) first n rest)
    (hread : ∀ m ∈ w.marks (caller.key name), ∃ t, Made m.2 t ∧ t.IsReadable) :
    ((count caller name).run w).1 = (w.listing (caller.key name) (some "")).map fun _ => n := by
  have hcount : ((w.lineup (caller.key name)).filter (·.slot = "")).length = n := by
    have hmarks := hc.count
    rw [World.marks, List.filter_map, List.length_map] at hmarks
    exact Int.ofNat.inj hmarks
  rw [count_of_readable hk hread, hcount]

/-! ## The whole creation -/

/-- Starting containers adds none. -/
theorem run_started {platform : PlatformSettings} {hs handles : List Handle} {start : Bool}
    (hw : w.Dependable lenient)
    (h : (if start then (startAll platform hs).bind fun _ => done (.ok hs)
      else done (.ok hs)).run w = (.ok handles, w')) :
    w'.Dependable lenient ∧ Added k [] w w' := by
  cases start with
  | false =>
    cases h
    exact ⟨hw, .refl k _⟩
  | true =>
    obtain ⟨u, w₁, hstart, h⟩ := run_bind_eq_ok h
    cases h
    have hkept := (makes_startAll platform hs).run
      (I := fun w' => w'.Dependable lenient ∧ Added k [] w w') (fun c w' hc ⟨hw', h⟩ => by
        have hsteady : w'.Steady (w'.answer c).2 :=
          World.steady_answer (by
            unfold Driving at hc
            cases c <;> first | exact hc | rfl)
        exact ⟨hsteady.dependable hw', h.append (.of_steady hsteady)⟩) ⟨hw, .refl k w⟩
    rwa [hstart] at hkept

end Manning

open Manning

/-- In every world that is reached, whatever failed on the way, a creation that gives handles adds
to the containers of the application so many of the framework and one for each service, as it
records them. If there were none before, a count of them gives the scaling of the record. -/
theorem created_application_is_manned (platform : PlatformSettings) (caller : Caller)
    (name framework : String) (services : List String) (scaling : Int) (start : Bool)
    (w w' : World) (handles : List Handle) (hreached : w.Reachable platform)
    (ht : '/' ∉ caller.tenant.toList)
    (hrun : (create platform caller name framework services scaling start).run w =
      (.ok handles, w')) :
    ∃ record first rest added, w'.recordAt (caller.key name) = some record ∧
      record.scaling = scaling ∧ record.plugins = (first :: rest).map Tag.format ∧
      Slotted first rest ∧
      w'.marks (caller.key name) = w.marks (caller.key name) ++ added ∧
      Consists added first record.scaling rest ∧
      (w.lineup (caller.key name) = [] →
        Consists (w'.marks (caller.key name)) first record.scaling rest ∧
          ((count caller name).run w').1 =
            (w'.listing (caller.key name) (some "")).map fun _ => record.scaling.toNat) := by
  have hw := hreached.dependable
  obtain ⟨u, w₀, hdone, hheld⟩ := run_bind_eq_ok (p := Program.done _) hrun
  obtain ⟨hcheck, rfl⟩ :
      checkCreate caller name framework scaling = .ok () ∧ w = w₀ := Prod.mk.inj hdone
  obtain ⟨-, -, hscaling, -⟩ := Request.checkCreate_eq_ok hcheck
  rw [run_holding, createHeld_eq] at hheld
  obtain ⟨tags, w₁, hpropose, hmake⟩ := run_bind_eq_ok hheld
  obtain ⟨made, w₂, hpopulate, hstart⟩ := run_bind_eq_ok hmake
  obtain ⟨first, rest, createdAt, rfl, hslotted, hw₁, hmarks, hrecord⟩ :=
    run_propose hscaling ht hw hpropose
  obtain ⟨hw₂, hpopulated⟩ := run_populate (k := caller.key name) hw₁ (run_populateOrUndo hpopulate)
  obtain ⟨hw', hstarted⟩ := run_started (k := caller.key name) hw₂ hstart
  have hall := hpopulated.append hstarted
  rw [List.append_nil] at hall
  obtain ⟨added, hadded, hmarks'⟩ := hall.marks
  have hconsists := consists_of_added hslotted hscaling (hadded.imp fun _ _ h => h.1)
  rw [hmarks] at hmarks'
  refine ⟨_, first, rest, added, hall.record.trans hrecord, rfl, rfl, hslotted, hmarks', hconsists,
    fun hnone => ?_⟩
  have hown : w'.marks (caller.key name) = added := by
    rw [hmarks', World.marks, hnone]
    rfl
  have htold : Told w'.engine.lenient (caller.key name) := by
    rw [hw'.lenient_eq]
    exact told_of_checkCreate hcheck
  have hcount : Consists (w'.marks (caller.key name)) first (scaling.toNat : Int) rest := by
    rw [hown, show (scaling.toNat : Int) = scaling by omega]
    exact hconsists
  refine ⟨hown ▸ hconsists, count_of_consists htold hcount fun m hm => ?_⟩
  rw [hown] at hm
  obtain ⟨t, -, ht⟩ := exists_of_mem_right hadded.flip hm
  exact ⟨t, ht⟩

namespace Manning

def caller : Caller := ⟨"alice", "alice"⟩

theorem created_web_is_manned : ∃ handles w' record first rest,
    (create {} caller "web" "python" [] 1 false).run (FailedCreation.world (.memory [])) =
        (.ok handles, w') ∧
      w'.recordAt (caller.key "web") = some record ∧ record.scaling = 1 ∧
      Consists (w'.marks (caller.key "web")) first record.scaling rest ∧
      ((count caller "web").run w').1 =
        (w'.listing (caller.key "web") (some "")).map fun _ => record.scaling.toNat := by
  have hok : ((create {} caller "web" "python" [] 1 false).run
      (FailedCreation.world (.memory []))).1.isOk = true := by decide +kernel
  rcases hrun : (create {} caller "web" "python" [] 1 false).run
    (FailedCreation.world (.memory [])) with ⟨e | handles, w'⟩
  · rw [hrun] at hok
    cases hok
  · obtain ⟨record, first, rest, -, hrecord, hscaling, -, -, -, -, hall⟩ :=
      created_application_is_manned {} caller "web" "python" [] 1 false
        (FailedCreation.world (.memory [])) w' handles (.new (FailedCreation.isNew_world _))
        (by decide) hrun
    exact ⟨handles, w', record, first, rest, rfl, hrecord, hscaling, hall rfl⟩

/-! ## An application that was not quite removed -/

/-- An engine that removes no container, next to an empty store. -/
noncomputable def clinging : World :=
  { Agreement.world false with
    engine.faults := fun _ request =>
      if request.verb = .remove then some ⟨.answered (some 500), "busy"⟩ else none }

theorem isNew_clinging : clinging.IsNew :=
  { Agreement.isNew_world with
    truthful := by
      constructor <;> intro history r f h <;>
        simp only [clinging, Option.ite_none_right_eq_some] at h <;>
        obtain ⟨-, h⟩ := h <;> cases h <;> decide }

/-- An application is created, and then it is removed. -/
def requests : List Request :=
  [⟨caller, .create "web" "python" [] 1 false⟩, ⟨caller, .remove "web"⟩]

/-- What the two come to, in some order. -/
noncomputable def remains (order : List Nat) : World :=
  (Pool.run { world := clinging, tasks := requests.map (·.program {}) } order).world

theorem reachable_remains (order : List Nat) : (remains order).Reachable {} :=
  .operated order (.new isNew_clinging) (by decide)

/-- First the creation, and then the removal. -/
def inTurn : List Nat := List.replicate 8 0 ++ List.replicate 8 1

/-- What comes of another creation. -/
noncomputable def recreated : Outcome (List Handle) × World :=
  (create {} caller "web" "python" [] 1 false).run (remains inTurn)

/-- A creation of a single container ends with two of them, if the application's last removal failed
of the container that it had. -/
theorem creation_takes_up_remains : (remains inTurn).Reachable {} ∧ recreated.1.isOk = true ∧
    ((count caller "web").run recreated.2).1 = .ok 2 := by
  rw [run_count]
  refine ⟨reachable_remains inTurn, ?_⟩
  decide +kernel

end Manning

end AppBroker
