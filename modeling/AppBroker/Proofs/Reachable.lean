import AppBroker.Proofs.Custody
import AppBroker.Proofs.Upkeep

/-!
# Reachable worlds

What lifecycle operations lead to, run together in any order and with calls that fail in any way,
from an empty engine and an empty store. Between runs anything else may happen that neither makes
nor removes containers and leaves records fit to be read. Every world that is reached is dependable
(`World.Reachable.dependable`): no call of an operation ever does harm to that, because what is
written into the store is always fit to be kept.
-/

namespace AppBroker

open Program Lifecycle

/-- Whether a call does the store no harm: the tenant has a file of its own, and what is written can
be kept. -/
def Call.Fits : Call → Prop
  | .record tenant _ | .removeRecord tenant _ => '/' ∉ tenant.toList
  | .addRecord tenant r | .replaceRecord tenant r => '/' ∉ tenant.toList ∧ Store.Fit r
  | .create .. | .destroy _ => True
  | c => c.isSteady = true

namespace World

/-- Records can still be kept and found again, whether calls fail or not. -/
theorem Storing.answer {w : World} {c : Call} (hs : w.Storing) (hc : c.Fits) :
    (w.answer c).2.Storing := by
  cases c with
  | record tenant name =>
    rcases answer_record hs hc name with ha | ⟨e, ha⟩ <;> rw [ha] <;> exact hs
  | addRecord tenant r =>
    rcases answer_addRecord hs hc.1 hc.2 with ⟨e, ha⟩ | ⟨w', ha, -, hs', -⟩ <;> rw [ha]
    · exact hs
    · exact hs'
  | replaceRecord tenant r =>
    rcases answer_replaceRecord hs hc.1 hc.2 with ⟨e, ha⟩ | ⟨w', ha, -, hs', -⟩ <;> rw [ha]
    · exact hs
    · exact hs'
  | removeRecord tenant name =>
    rcases answer_removeRecord hs hc name with ⟨e, ha⟩ | ⟨w', ha, -, hs', -⟩ <;> rw [ha]
    · exact hs
    · exact hs'
  | create app tenant tag =>
    have hcounted : w.counted.Storing := ⟨hs.faithful, hs.has, hs.holds, hs.real⟩
    rcases w.answer_create app tenant tag with ⟨-, hq⟩ | ⟨-, w₁, ⟨_, _, _, rfl⟩, hw⟩
    · exact hq.steady.storing hcounted
    · rw [hw]
      exact ⟨hs.faithful, hs.has, hs.holds, hs.real⟩
  | destroy h =>
    rcases w.handled_destroy h with hq | ⟨_, _, _, hw⟩
    · exact hq.steady.storing hs
    · rw [hw]
      exact ⟨hs.faithful, hs.has, hs.holds, hs.real⟩
  | compose | plugin | now | find | inspect | start | stop | restart | route | warn =>
    exact (steady_answer rfl).storing hs
  | records | tenants | exec | deploy | branches | disconnect => cases hc

/-- A world stays dependable, whether calls fail or not. -/
theorem Dependable.answer {w : World} {lenient : Bool} {c : Call} (hw : w.Dependable lenient)
    (hc : c.Fits) : (w.answer c).2.Dependable lenient where
  numbered := (aged_answer hw.numbered c).numbered hw.numbered
  truthful := by
    unfold Engine.Truthful Engine.Honest
    rw [(aged_answer hw.numbered c).faults]
    exact hw.truthful
  lenient_eq := (aged_answer hw.numbered c).lenient.trans hw.lenient_eq
  storing := hw.storing.answer hc

end World

/-- The terms of a world of which something is known that stays true, and nothing else. -/
def lasting (sound : World → Prop) : Terms where
  sound := sound
  rely _ _ _ := True
  allows _ _ := True
  rely_refl _ _ := trivial
  rely_trans _ _ _ _ _ _ := trivial

theorem Pool.along_true {α : Type} {p : Pool α} (order : List Nat) :
    p.Along (fun _ _ => True) order := by
  induction order generalizing p with
  | nil => trivial
  | cons i order ih => exact ⟨fun _ _ _ => trivial, ih⟩

namespace Lasting

variable {platform : PlatformSettings} {sound : World → Prop} {S : Call → Prop} {lenient : Bool}
  {k : AppKey} {w : World}

/-- A program whose calls all keep what is known. -/
theorem meets_makes {α : Type} {p : Program α}
    (hS : ∀ c w, S c → sound w → sound (w.answer c).2) (hp : p.Makes S) :
    p.Meets (lasting sound) k (fun _ _ => True) w :=
  (hp.meets fun c hc w' hw' _ => ⟨hS c w' hc hw', fun _ => trivial⟩).weaken fun _ _ _ _ => trivial

/-- A call that keeps what is known, and what is known of its answer. -/
theorem meets_call {c : Call} {Q : Outcome c.Value → World → Prop}
    (hc : ∀ w, sound w → sound (w.answer c).2)
    (h : ∀ w' w'', sound w' → sound w'' → Q (w'.answer c).1 w'') :
    (perform c).Meets (lasting sound) k Q w :=
  .minor (fun w' hw' _ => ⟨hc w' hw', fun _ => trivial⟩) fun w' w'' hs hs'' _ _ _ _ => h w' w'' hs hs''

/-- What every turn of every request keeps is kept when requests are worked on together. -/
theorem run {requests : List Request} (hturn : ∀ r ∈ requests, r.check = .ok () →
      ∀ name ∈ r.names, ∀ w, (r.turn platform name).Meets (lasting sound) (r.caller.key name)
        (fun _ _ => True) w)
    (order : List Nat) (hw : sound w) :
    sound (Pool.run { world := w, tasks := requests.map (·.program platform) } order).world := by
  let t := lasting sound
  have hsafe : ∀ task ∈ requests.map (·.program platform), task.Safe t (fun _ _ => True) none w := by
    intro task htask
    obtain ⟨r, hr, rfl⟩ := List.mem_map.1 htask
    exact Request.safe_program (fun hcheck name hname w' _ _ => hturn r hr hcheck name hname w') w
  obtain ⟨inside, hkept⟩ := (Pool.Kept.start (t := t) hw hsafe fun _ => trivial).run
    (fun _ _ _ _ _ => trivial) (Pool.along_true order)
  exact hkept.sound

/-- A program whose calls all do no harm. -/
theorem meets_fitting {α : Type} {p : Program α} (hp : p.Makes Call.Fits) :
    p.Meets (lasting (World.Dependable lenient)) k (fun _ _ => True) w :=
  meets_makes (fun _ _ hc hw => hw.answer hc) hp

theorem meets_driving {α : Type} {p : Program α} (hp : p.Makes Driving) :
    p.Meets (lasting (World.Dependable lenient)) k (fun _ _ => True) w :=
  meets_fitting (hp.mono fun c hc => by cases c <;> first | exact hc | cases hc)

theorem meets_fit {c : Call} (hc : c.Fits) :
    (perform c).Meets (lasting (World.Dependable lenient)) k (fun _ _ => True) w :=
  meets_fitting (makes_perform hc)

/-- What it takes to leave the world dependable: nothing but that records can be kept. -/
theorem custody (hk : k.IsFiled) : Custody platform (lasting (World.Dependable lenient)) false k
    (fun _ _ => True) (fun _ _ => True) Store.Fit fun _ => True where
  given _ _ _ _ _ _ _ := trivial
  stays _ _ _ _ _ _ _ := trivial
  held _ _ _ := trivial
  start h w _ := meets_driving (makes_startOne platform h)
  restart h w _ := meets_driving (makes_restartOne platform h)
  stop h w _ := meets_driving (makes_stopOne h)
  destroy h w _ :=
    ((meets_driving (makes_retract h)).yields.bind fun _ _ _ _ => (meets_fit (c := .destroy h) trivial).yields :
      Yields _ _ _ (fun _ _ => True) _).meets
  find _ service w := (meets_fit (c := .find ..) rfl).yields.weaken fun _ _ _ _ _ _ => trivial
  create tag w _ := (meets_fit (c := .create ..) trivial).yields.weaken fun _ _ _ _ => trivial
  record w := by
    refine meets_call (fun _ hw => hw.answer hk) fun w' _ hs _ => ?_
    rcases World.answer_record hs.storing hk k.name with ha | ⟨e, ha⟩ <;> rw [ha]
    · exact fun r hr => (hs.storing.fit hk hr).1
    · trivial
  compose framework services w :=
    (meets_fit (c := .compose ..) rfl).yields.weaken fun _ _ _ _ _ _ => trivial
  now _ w := meets_call (fun _ hw => hw.answer rfl) fun _ _ hs _ _ _ _ hscaling =>
    ⟨hscaling, hs.storing.real⟩
  growth _ _ _ _ _ _ _ := trivial
  addRecord r w hr := meets_fit ⟨hk, hr⟩
  rescale r scaling w hr hscaling := meets_fit ⟨hk, hscaling, hr.created⟩
  removeRecord w := meets_fit hk
  warn severity text w := meets_fit rfl

/-- Every turn of a request leaves the world dependable. -/
theorem meets_turn {r : Request} {name : String} (hcheck : r.check = .ok ())
    (hfiled : (r.caller.key name).IsFiled) (hname : name ∈ r.names) :
    (r.turn platform name).Meets (lasting (World.Dependable lenient)) (r.caller.key name)
      (fun _ _ => True) w :=
  (custody hfiled).turn (.inl rfl) hcheck hname fun _ _ _ => trivial

end Lasting

namespace World

/-- An empty engine and an empty store, which can keep records. -/
structure IsNew (w : World) : Prop where
  containers : w.engine.containers = []
  truthful : w.engine.Truthful
  has : w.disk.Has w.broker.store
  bare : ∀ tenant : String, '/' ∉ tenant.toList →
    w.disk.entry? (w.broker.store ++ [tenant ++ Store.suffix]) = none
  faithful : Store.Faithful w.broker.codec
  real : w.clock.moment.IsReal

theorem IsNew.dependable {w : World} (h : w.IsNew) : w.Dependable w.engine.lenient where
  numbered := by
    rw [h.containers]
    exact ⟨by simp, by simp, .nil⟩
  truthful := h.truthful
  lenient_eq := rfl
  storing := ⟨h.faithful, h.has,
    fun tenant ht => ⟨[], .inl ⟨h.bare tenant ht, rfl⟩, Store.proper_nil⟩, h.real⟩

/-- What may happen beside lifecycle operations: containers stay what they are, whatever state they
come to be in, and records can still be kept and read. -/
structure Beside (w w' : World) : Prop where
  made : w'.engine.made = w.engine.made
  numbers : w'.engine.containers.map (fun c => (c.id, c.number)) =
    w.engine.containers.map fun c => (c.id, c.number)
  labels : w'.engine.containers.map (fun c => (c.id, c.labels)) =
    w.engine.containers.map fun c => (c.id, c.labels)
  truthful : w'.engine.Truthful
  storing : w'.Storing

/-- What lifecycle operations of tenants with files of their own lead to. -/
inductive Reachable (platform : PlatformSettings) : World → Prop
  | new {w : World} : w.IsNew → Reachable platform w
  | operated {w : World} {requests : List Request} (order : List Nat) : Reachable platform w →
      (∀ r ∈ requests, '/' ∉ r.caller.tenant.toList) →
      Reachable platform
        (Pool.run { world := w, tasks := requests.map (·.program platform) } order).world
  | beside {w w' : World} : Reachable platform w → w.Beside w' → Reachable platform w'

/-- Requests that are worked on together leave a world dependable. -/
theorem Dependable.operated {w : World} {lenient : Bool} (hw : w.Dependable lenient)
    (platform : PlatformSettings) {requests : List Request} (order : List Nat)
    (hrequests : ∀ r ∈ requests, '/' ∉ r.caller.tenant.toList) :
    (Pool.run { world := w, tasks := requests.map (·.program platform) } order).world.Dependable
      lenient :=
  Lasting.run (fun r hr hcheck _ hname _ => Lasting.meets_turn hcheck (hrequests r hr) hname) order hw

/-- What happens beside leaves a world dependable. -/
theorem Beside.dependable {w w' : World} (h : w.Beside w')
    (hn : Engine.Numbered w.engine.containers w.engine.made) : w'.Dependable w'.engine.lenient := by
  refine ⟨?_, h.truthful, rfl, h.storing⟩
  rw [numbered_iff, h.numbers, h.made]
  exact numbered_iff.1 hn

theorem Reachable.dependable {platform : PlatformSettings} {w : World}
    (h : w.Reachable platform) : w.Dependable w.engine.lenient := by
  induction h with
  | new hw => exact hw.dependable
  | operated order _ hrequests ih =>
    have hsound := ih.operated platform order hrequests
    exact hsound.lenient_eq ▸ hsound
  | beside _ hbeside ih => exact hbeside.dependable ih.numbered

end World

end AppBroker
