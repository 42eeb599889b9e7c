import AppBroker.Proofs.Deeds
import AppBroker.Proofs.ScaleRetry

/-!
# Operations on containers of which some are in trouble

Two ways of going through containers of which some cannot be started, stopped or removed. One stops
at the first that is in trouble (`Program.StopsAtTrouble`), the other goes on to the end
(`Program.PassesOver`); both end with the failure of the first. The loops that operations are made of
go one way or the other (`Lifecycle.Deals.forEach`, `Lifecycle.Deals.sweep`), and so do the
operations, since nothing else that they do touches containers.
-/

namespace AppBroker

open Program Lifecycle

namespace Program

variable {α β : Type} {verb : EngineVerb} {tried done : List String}
  {failure : Option EngineFailure} {p : Program α} {w w' : World}

/-- How a program fares that does one deed to containers: to which it tries to and to which it
succeeds, and by what it fails, if it does. -/
structure Fares (verb : EngineVerb) (tried done : List String) (failure : Option EngineFailure)
    (p : Program α) (w : World) : Prop extends Does verb tried done p w where
  outcome : (p.run w).1.map (fun _ => ()) = verdict failure

/-- Whether a program does a deed to containers up to the first that is in trouble: it succeeds with
those before it, tries that one as well, and fails by its trouble. -/
def StopsAtTrouble (verb : EngineVerb) (ids : List String) (trouble : String → Option EngineFailure)
    (p : Program α) (w : World) : Prop :=
  p.Fares verb (ids.take ((ids.takeWhile (untroubled trouble)).length + 1))
    (ids.takeWhile (untroubled trouble)) (ids.findSome? trouble) w

/-- Whether a program tries to do a deed to each of some containers, succeeds with all that are in no
trouble, and fails by the trouble of the first of the others. -/
def PassesOver (verb : EngineVerb) (ids : List String) (trouble : String → Option EngineFailure)
    (p : Program α) (w : World) : Prop :=
  p.Fares verb ids (ids.filter (untroubled trouble)) (ids.findSome? trouble) w

namespace Fares

/-- What comes before and only looks at things does not matter. -/
theorem after {q : Program β} {f : β → Program α} {b : β} (hq : q.Makes Idle)
    (hrun : q.run w = (.ok b, w')) (h : (f b).Fares verb tried done failure w') :
    (q.bind f).Fares verb tried done failure w where
  toDoes := .of_idle hq hrun h.toDoes
  outcome := by
    rw [run_bind_of_ok hrun]
    exact h.outcome

/-- Neither does what comes afterwards, does nothing to containers and ends well. -/
theorem before {f : α → Program β} (h : p.Fares verb tried done failure w)
    (hf : ∀ a, (f a).Makes Idle)
    (hok : ∀ a w', p.run w = (.ok a, w') → ∃ b, ((f a).run w').1 = .ok b) :
    (p.bind f).Fares verb tried done failure w where
  toDoes := h.toDoes.bind_idle hf
  outcome := by
    rw [run_bind, ← h.outcome]
    split
    · next a w' hrun =>
      obtain ⟨b, hb⟩ := hok a w' hrun
      rw [hrun, hb]
      rfl
    · next e w' hrun =>
      rw [hrun]
      rfl

theorem holding (h : p.Fares verb tried done failure w) (key : AppKey) :
    (holding key p).Fares verb tried done failure w where
  toDoes := h.toDoes.holding key
  outcome := by rw [run_holding, h.outcome]

end Fares

end Program

/-! ## Loops -/

namespace Lifecycle

variable {act : Handle → Program Unit} {verb : EngineVerb} {failure : EngineFailure}
  {trouble : String → Option EngineFailure} {lenient : Bool} {w : World} {h : Handle}
  {hs : List Handle}

/-- To warn of a refusal and go on does what is done when going on, and gives the refusal. -/
theorem sweep_on {tried dealt : List String} {found : Option Refusal} {r : Refusal} {w' : World}
    (hwarn : (Program.warn .warning r.message).run w = (.ok (), w'))
    (hdoes : (sweep act hs).Does verb tried dealt w')
    (hfound : ((sweep act hs).run w').1 = .ok found) :
    let p := (Program.warn .warning r.message).bind fun _ =>
      (sweep act hs).bind fun _ => done (.ok (some r))
    p.Does verb tried dealt w ∧ (p.run w).1 = .ok (some r) := by
  have hrun : (sweep act hs).run w' = (.ok found, ((sweep act hs).run w').2) := Prod.ext hfound rfl
  refine ⟨.of_idle (idles rfl) hwarn (hdoes.bind_idle fun _ => trivial), ?_⟩
  rw [run_bind_of_ok hwarn, run_bind_of_ok hrun]
  rfl

namespace Deals

variable (hact : Deals act verb trouble)
include hact

theorem dependable (hw : w.Dependable lenient) (h : Handle) :
    ((act h).run w).2.Dependable lenient :=
  (hact.fits h).run (fun _ _ hc hw => hw.answer hc) hw

section One

variable (hw : w.Dependable lenient) (ha : (act h).Along (Call.Troubled trouble) w)
include hw ha

theorem of_trouble (htrouble : trouble h.id = some failure) :
    (act h).run w = (.error (.refusal (.engine failure)), ((act h).run w).2) ∧
      (act h).Does verb [h.id] [] w := by
  have hends := hact.ends h w ha
  have hdoes := hact.does h w lenient hw ha
  rw [htrouble] at hends
  simp only [untroubled, htrouble, Option.isNone_some, Bool.false_eq_true, not_false_eq_true,
    List.filter_cons_of_neg, List.filter_nil] at hdoes
  exact ⟨Prod.ext hends rfl, hdoes⟩

theorem of_untroubled (htrouble : trouble h.id = none) :
    (act h).run w = (.ok (), ((act h).run w).2) ∧ (act h).Does verb [h.id] [h.id] w := by
  have hends := hact.ends h w ha
  have hdoes := hact.does h w lenient hw ha
  rw [htrouble] at hends
  simp only [untroubled, htrouble, Option.isNone_none, List.filter_cons_of_pos,
    List.filter_nil] at hdoes
  exact ⟨Prod.ext hends rfl, hdoes⟩

end One

/-- A loop that fails with the first that does stops at the first that is in trouble. -/
theorem forEach (hw : w.Dependable lenient) (hnodup : (hs.map Handle.id).Nodup)
    (ha : (forEach act hs).Along (Call.Troubled trouble) w) :
    (forEach act hs).StopsAtTrouble verb (hs.map Handle.id) trouble w := by
  -- Each container is dealt with in the world that the ones before it left, which is dependable too.
  induction hs generalizing w with
  | nil => exact ⟨⟨rfl, (Engine.dealt_nil ..).symm⟩, rfl⟩
  | cons h hs ih =>
    obtain ⟨hfirst, hrest⟩ := along_bind ha
    obtain ⟨hnew, hnodup⟩ := List.nodup_cons.1 hnodup
    unfold StopsAtTrouble
    rw [List.map_cons, List.takeWhile_cons, List.findSome?_cons]
    cases htrouble : trouble h.id with
    | some failure =>
      obtain ⟨hrun, hdoes⟩ := hact.of_trouble hw hfirst htrouble
      rw [if_neg (by simp [untroubled, htrouble])]
      refine ⟨hdoes.bind_error hrun, ?_⟩
      rw [Program.forEach, run_bind_of_error hrun]
      rfl
    | none =>
      obtain ⟨hrun, hdoes⟩ := hact.of_untroubled hw hfirst htrouble
      rw [if_pos (by simp [untroubled, htrouble])]
      have hothers := ih (hact.dependable hw h) hnodup (along_bind (hrest _ _ hrun)).1
      have hlast := hothers.before (f := fun as => done (.ok (() :: as))) (fun _ => trivial)
        fun as _ _ => ⟨() :: as, rfl⟩
      refine ⟨hdoes.bind hrun hlast.toDoes fun id hid hmem => ?_, ?_⟩
      · rw [List.mem_singleton.1 hid] at hmem
        exact hnew ((List.takeWhile_sublist _).subset hmem)
      · rw [Program.forEach, run_bind_of_ok hrun]
        exact hlast.outcome

/-- A loop that goes on after refusals gives the trouble of the first that is in any. -/
theorem sweep (hw : w.Dependable lenient) (hnodup : (hs.map Handle.id).Nodup)
    (ha : (sweep act hs).Along (Call.Troubled trouble) w) :
    (sweep act hs).Does verb (hs.map Handle.id) ((hs.map Handle.id).filter (untroubled trouble)) w ∧
      ((sweep act hs).run w).1 = .ok (((hs.map Handle.id).findSome? trouble).map .engine) := by
  -- A container in trouble costs a warning before the rest, and its failure is kept over theirs.
  induction hs generalizing w with
  | nil => exact ⟨⟨rfl, (Engine.dealt_nil ..).symm⟩, rfl⟩
  | cons h hs ih =>
    obtain ⟨hfirst, hrest⟩ := along_bind ha
    have hact' := (along_andThen.1 hfirst).1
    have hw' := hact.dependable hw h
    obtain ⟨hnew, hnodup⟩ := List.nodup_cons.1 hnodup
    have hapart : ∀ id ∈ [h.id], id ∉ (hs.map Handle.id).filter (untroubled trouble) := by
      intro id hid hmem
      rw [List.mem_singleton.1 hid] at hmem
      exact hnew (List.mem_of_mem_filter hmem)
    rw [List.map_cons, List.findSome?_cons]
    cases htrouble : trouble h.id with
    | some failure =>
      obtain ⟨hrun, hdoes⟩ := hact.of_trouble hw hact' htrouble
      have hattempt := run_attempt_of_refusal hrun
      obtain ⟨-, hgoes⟩ := along_bind (hrest _ _ hattempt)
      obtain ⟨hsweep, hfound⟩ := ih
        (hw'.answer (c := .warn .warning (Refusal.engine failure).message) rfl) hnodup
        (along_bind (hgoes () _ rfl)).1
      obtain ⟨hsweep, hfound⟩ := sweep_on rfl hsweep hfound
      rw [List.filter_cons_of_neg (by simp [untroubled, htrouble])]
      refine ⟨hdoes.attempt.bind hattempt hsweep (by simp), ?_⟩
      exact (congrArg Prod.fst (run_bind_of_ok hattempt _)).trans hfound
    | none =>
      obtain ⟨hrun, hdoes⟩ := hact.of_untroubled hw hact' htrouble
      have hattempt := run_attempt_of_ok hrun
      obtain ⟨hsweep, hfound⟩ := ih hw' hnodup (hrest _ _ hattempt)
      rw [List.filter_cons_of_pos (by simp [untroubled, htrouble])]
      refine ⟨hdoes.attempt.bind hattempt hsweep hapart, ?_⟩
      exact (congrArg Prod.fst (run_bind_of_ok hattempt _)).trans hfound

theorem sweepStrictly (hw : w.Dependable lenient) (hnodup : (hs.map Handle.id).Nodup)
    (ha : (sweepStrictly act hs).Along (Call.Troubled trouble) w) :
    (sweepStrictly act hs).PassesOver verb (hs.map Handle.id) trouble w := by
  obtain ⟨hdoes, hfound⟩ := hact.sweep hw hnodup (along_bind ha).1
  have hrun : (Lifecycle.sweep act hs).run w = (.ok _, ((Lifecycle.sweep act hs).run w).2) :=
    Prod.ext hfound rfl
  refine ⟨hdoes.bind_idle fun failure => by cases failure <;> trivial, ?_⟩
  show (((Lifecycle.sweep act hs).bind _).run w).1.map _ = _
  rw [run_bind_of_ok hrun]
  cases (hs.map Handle.id).findSome? trouble <;> rfl

end Deals

end Lifecycle

/-! ## Operations -/

/-- The ids of an application's containers are given once each. -/
theorem World.nodup_ids {w : World} (hn : Engine.Numbered w.engine.containers w.engine.made)
    (k : AppKey) : ((w.lineup k).map (·.id)).Nodup := by
  have hnodup := nodup_marks hn k
  unfold marks at hnodup
  rwa [List.map_map] at hnodup

namespace Lifecycle

section Operations

variable {platform : PlatformSettings} {caller : Caller} {name : String} {r : Record} {k : AppKey}
  {verb : EngineVerb} {trouble : String → Option EngineFailure} {w : World}

theorem run_served {c : Call} (hc : c.isRemote = true) (h : w.serves c = true) :
    ∃ a w', (perform c).run w = (.ok a, w') := by
  obtain ⟨a, hok⟩ := w.ok_of_serves hc h
  exact ⟨a, _, Prod.ext hok rfl⟩

/-- A record is found where there is one. -/
theorem run_record {tenant : String} (hw : w.Storing) (ht : '/' ∉ tenant.toList)
    (ha : (perform (.record tenant name)).Along (Call.Troubled trouble) w) :
    (perform (.record tenant name)).run w = (.ok (w.recordAt ⟨tenant, name⟩), w) := by
  rcases World.answer_record hw ht name with hanswer | ⟨e, hanswer⟩
  · exact hanswer
  · obtain ⟨a, w', hrun⟩ := run_served (c := .record tenant name) rfl ha.1.1
    cases hanswer.symm.trans hrun

/-- A record that is removed is gone. -/
theorem run_removeRecord {tenant : String} (hw : w.Storing) (ht : '/' ∉ tenant.toList)
    (ha : (perform (.removeRecord tenant name)).Along (Call.Troubled trouble) w) :
    ∃ w', (perform (.removeRecord tenant name)).run w = (.ok (), w') ∧
      w'.recordAt ⟨tenant, name⟩ = none := by
  rcases World.answer_removeRecord hw ht name with ⟨e, hanswer⟩ | ⟨w', hanswer, -, -, hrecords⟩
  · obtain ⟨a, w', hrun⟩ := run_served (c := .removeRecord tenant name) rfl ha.1.1
    cases hanswer.symm.trans hrun
  · exact ⟨w', hanswer, by rw [hrecords _ ht, if_pos rfl]⟩

/-- A search finds the containers in the order in which they were made. -/
theorem run_find {service : Option String} (hk : Told w.engine.lenient k) (hseq : w.Sequenced)
    (ha : (perform (.find k.name k.tenant service)).Along (Call.Troubled trouble) w) :
    ∃ (hs : List Handle) (w' : World),
      (perform (.find k.name k.tenant service)).run w = (.ok hs, w') ∧ w.Quiet w' ∧
      hs.map Handle.id = ((w.lineup k).filter fun c => service.all (c.slot = ·)).map (·.id) := by
  obtain ⟨hs, hok⟩ := w.ok_of_serves (c := .find k.name k.tenant service) rfl ha.1.1
  exact ⟨hs, _, Prod.ext hok rfl, (w.answer_find ..).1,
    Runtime.map_id_of_read (World.find_in_order hk hseq hok)⟩

theorem makes_recordOf (caller : Caller) (name : String) : (recordOf caller name).Makes Idle := by
  unfold recordOf Caller.required
  split
  · trivial
  · refine Makes.bind (p := done _) trivial fun tenant => ?_
    refine (idles rfl).bind fun found => ?_
    cases found <;> trivial

/-- The end of a scaling: the number is recorded if it is a new one, and the containers are looked
for. -/
def conclude (caller : Caller) (name : String) (r : Record) (target : Int) :
    Program (List Handle) :=
  if r.scaling ≠ target then
    (perform (.replaceRecord caller.tenant { r with scaling := target })).bind fun _ =>
      frameworkContainers caller name
  else frameworkContainers caller name

theorem makes_conclude (caller : Caller) (name : String) (r : Record) (target : Int) :
    (conclude caller name r target).Makes Idle := by
  unfold conclude
  split
  · exact (idles rfl).bind fun _ => idles rfl
  · exact idles rfl

theorem run_conclude {target : Int}
    (ha : (conclude caller name r target).Along (Call.Troubled trouble) w) :
    ∃ hs, ((conclude caller name r target).run w).1 = .ok hs := by
  have hframeworks {v : World}
      (hv : (frameworkContainers caller name).Along (Call.Troubled trouble) v) :
      ∃ hs, ((frameworkContainers caller name).run v).1 = .ok hs :=
    v.ok_of_serves (c := .find name caller.tenant (some "")) rfl hv.1.1
  unfold conclude at ha ⊢
  split at ha
  · next hnew =>
    obtain ⟨hreplace, hrest⟩ := along_bind ha
    obtain ⟨u, v, hrun⟩ := run_served (c := .replaceRecord ..) rfl hreplace.1.1
    rw [if_pos hnew, run_bind_of_ok hrun]
    exact hframeworks (hrest u v hrun)
  · next hsame =>
    rw [if_neg hsame]
    exact hframeworks ha

section Whole

variable (hw : w.Dependable w.engine.lenient) (hseq : w.Sequenced)
  (hk : (caller.key name).IsFiled) (htenant : caller.tenant ≠ "")
  (hname : w.engine.lenient = false ∨ name ≠ "")
  (hrecord : w.recordAt (caller.key name) = some r)
include hw hseq hk htenant hname hrecord

/-- What is done to the containers in a slot, or to all, of an application that has a record. -/
theorem fares_found {service : Option String} {body : Record → List Handle → Program α}
    {tried dealt : List String} {failure : Option EngineFailure}
    (hbody : ∀ hs w', w'.Dependable w.engine.lenient → (hs.map Handle.id).Nodup →
      hs.map Handle.id =
        ((w.lineup (caller.key name)).filter fun c => service.all (c.slot = ·)).map (·.id) →
      (body r hs).Along (Call.Troubled trouble) w' → (body r hs).Fares verb tried dealt failure w') :
    let p := (recordOf caller name).bind fun r =>
      (perform (.find name caller.tenant service)).bind (body r)
    p.Along (Call.Troubled trouble) w → p.Fares verb tried dealt failure w := by
  intro p ha
  obtain ⟨-, hrest⟩ := along_bind ha
  have hrun := run_recordOf hw.storing hk htenant hrecord
  obtain ⟨hfind, hrest⟩ := along_bind (hrest _ _ hrun)
  obtain ⟨hs, w', hrun', hq, hids⟩ :=
    run_find (k := caller.key name) (told_of_tenant hname htenant) hseq hfind
  refine .after (makes_recordOf caller name) hrun (.after (idles rfl) hrun' ?_)
  refine hbody hs w' (hq.steady.dependable hw) ?_ hids (hrest _ _ hrun')
  rw [hids]
  exact (List.filter_sublist.map _).nodup (World.nodup_ids hw.numbered _)

/-- What goes through all containers and gives up at the first that fails. -/
theorem stopsAtTrouble_all {act : Handle → Program Unit} (hact : Deals act verb trouble) :
    let p := (recordOf caller name).bind fun _ =>
      (perform (.find name caller.tenant none)).bind fun hs =>
        (forEach act hs).bind fun _ => done (.ok ())
    p.Along (Call.Troubled trouble) w →
      p.StopsAtTrouble verb ((w.lineup (caller.key name)).map (·.id)) trouble w := by
  refine fares_found hw hseq hk htenant hname hrecord fun hs w' hw' hnodup hids ha => ?_
  simp only [Option.all_none, List.filter_true] at hids
  rw [← hids]
  exact (hact.forEach hw' hnodup (along_bind ha).1).before (fun _ => trivial) fun _ _ _ => ⟨(), rfl⟩

theorem stopsAtTrouble_start (ha : (start platform caller name).Along (Call.Troubled trouble) w) :
    (start platform caller name).StopsAtTrouble .start
      ((w.lineup (caller.key name)).map (·.id)) trouble w :=
  (stopsAtTrouble_all hw hseq hk htenant hname hrecord (deals_startOne trouble)
    (along_holding.1 ha)).holding _

theorem stopsAtTrouble_restart
    (ha : (restart platform caller name).Along (Call.Troubled trouble) w) :
    (restart platform caller name).StopsAtTrouble .restart
      ((w.lineup (caller.key name)).map (·.id)) trouble w :=
  (stopsAtTrouble_all hw hseq hk htenant hname hrecord (deals_restartOne trouble)
    (along_holding.1 ha)).holding _

theorem passesOver_stop (ha : (stop caller name).Along (Call.Troubled trouble) w) :
    (stop caller name).PassesOver .stop ((w.lineup (caller.key name)).map (·.id)) trouble w := by
  refine (fares_found hw hseq hk htenant hname hrecord (fun hs w' hw' hnodup hids ha => ?_)
    (along_holding.1 ha)).holding _
  simp only [Option.all_none, List.filter_true] at hids
  rw [← hids]
  exact (deals_stopOne trouble).sweepStrictly hw' hnodup ha

/-- Shrinking an application goes through the containers that are one too many. -/
theorem passesOver_scale {target : Int} (htarget : 1 ≤ target)
    (hfewer : target < (w.frameworks (caller.key name)).length)
    (ha : (scale platform caller name target).Along (Call.Troubled trouble) w) :
    (scale platform caller name target).PassesOver .remove
      ((w.surplus (caller.key name) target).map (·.id)) trouble w := by
  rw [Scaling.scale_eq htarget] at ha ⊢
  refine (fares_found hw hseq hk htenant hname hrecord (fun hs w' hw' hnodup hids ha => ?_)
    (along_holding.1 ha)).holding _
  obtain ⟨hadjust, hrest⟩ := along_bind ha
  have hlength : hs.length = (w.frameworks (caller.key name)).length := by
    have hlengths := congrArg List.length hids
    rwa [List.length_map, List.length_map] at hlengths
  have hshrinks : adjust platform caller r name hs target =
      Lifecycle.sweepStrictly destroyOne (hs.drop target.toNat) := by
    unfold adjust
    rw [if_neg (by omega), if_pos (by omega)]
  have hsurplus : (hs.drop target.toNat).map Handle.id =
      (w.surplus (caller.key name) target).map (·.id) := by
    rw [List.map_drop, hids, World.surplus, List.map_drop]
    rfl
  rw [hshrinks] at hadjust hrest ⊢
  rw [← hsurplus]
  refine ((deals_destroyOne trouble).sweepStrictly hw'
    (((List.drop_sublist ..).map _).nodup hnodup) hadjust).before
    (fun _ => makes_conclude caller name r target) fun u w'' hrun => run_conclude (hrest u w'' hrun)

end Whole

section Removal

variable {tenant : String} {hs : List Handle} {lenient : Bool} {w' : World}
  (hw : w.Dependable lenient) (ht : '/' ∉ tenant.toList)
  (ha : (removeHeld name tenant).Along (Call.Troubled trouble) w)
include hw ht ha

theorem along_find : (perform (.find name tenant none)).Along (Call.Troubled trouble) w := by
  obtain ⟨hrecord, hrest⟩ := along_bind (p := perform _) ha
  exact (along_bind (p := perform _) (hrest _ _ (run_record hw.storing ht hrecord))).1

section Found

variable (hfind : (perform (.find name tenant none)).run w = (.ok hs, w')) (hq : w.Quiet w')
  (hnodup : (hs.map Handle.id).Nodup)
include hfind hq hnodup

/-- Removing an application goes through all containers that are found, whether or not there is a
record. -/
theorem does_removeHeld : (removeHeld name tenant).Does .remove (hs.map Handle.id)
    ((hs.map Handle.id).filter (untroubled trouble)) w := by
  obtain ⟨hrecord, hrest⟩ := along_bind (p := perform _) ha
  have hrun := run_record hw.storing ht hrecord
  obtain ⟨-, hrest⟩ := along_bind (p := perform _) (hrest _ _ hrun)
  replace hrest := hrest _ _ hfind
  refine .of_idle (idles rfl) hrun (.of_idle (idles rfl) hfind ?_)
  by_cases hnone : ((w.recordAt ⟨tenant, name⟩).isNone && hs.isEmpty) = true
  · obtain rfl : hs = [] := by simpa using (Bool.and_eq_true_iff.1 hnone).2
    refine Makes.does ?_ w'
    show Program.Makes _ (if _ then _ else _)
    rw [if_pos hnone]
    trivial
  · change Program.Along _ (if _ then _ else _) w' at hrest
    show Program.Does _ _ _ (if _ then _ else _) w'
    rw [if_neg hnone] at hrest ⊢
    have hsweep := (deals_destroyOne trouble).sweep (hq.steady.dependable hw) hnodup
      (along_bind (p := Lifecycle.sweep _ _) hrest).1
    refine hsweep.1.bind_idle fun failure => ?_
    show Program.Makes _ (if _ then _ else _)
    split
    · refine (idles rfl).bind fun _ => ?_
      cases failure <;> trivial
    · cases failure <;> trivial

/-- The record of an application that is removed is gone afterwards, whatever is left. -/
theorem run_removeHeld (hrecord : w.recordAt ⟨tenant, name⟩ = some r) :
    ((removeHeld name tenant).run w).1 = verdict ((hs.map Handle.id).findSome? trouble) ∧
      ((removeHeld name tenant).run w).2.recordAt ⟨tenant, name⟩ = none := by
  obtain ⟨hlook, hrest⟩ := along_bind (p := perform _) ha
  have hrun := run_record hw.storing ht hlook
  rw [hrecord] at hrun
  obtain ⟨-, hrest⟩ := along_bind (p := perform _) (hrest _ _ hrun)
  obtain ⟨hsweep, hrest⟩ := along_bind (p := Lifecycle.sweep _ _) (hrest _ _ hfind)
  have hw' := hq.steady.dependable hw
  have hswept := ((deals_destroyOne trouble).sweep hw' hnodup hsweep).2
  have hrun₂ : (Lifecycle.sweep destroyOne hs).run w' =
    (.ok _, ((Lifecycle.sweep destroyOne hs).run w').2) := Prod.ext hswept rfl
  have hfits : (Lifecycle.sweep destroyOne hs).Makes Call.Fits :=
    makes_sweep (fun _ _ => rfl) (deals_destroyOne trouble).fits hs
  have hw₁ : ((Lifecycle.sweep destroyOne hs).run w').2.Dependable lenient :=
    hfits.run (fun _ _ hc hv => hv.answer hc) hw'
  -- Whichever containers are left, the record is taken away before the failure is told.
  obtain ⟨hremove, -⟩ := along_bind (p := perform _) (hrest _ _ hrun₂)
  obtain ⟨w₂, hrun₃, hgone⟩ := run_removeRecord hw₁.storing ht hremove
  have hall : (removeHeld name tenant).run w =
      (verdict ((hs.map Handle.id).findSome? trouble), w₂) := by
    refine (run_bind_of_ok hrun _).trans <| (run_bind_of_ok hfind _).trans <|
      (run_bind_of_ok hrun₂ _).trans <| (run_bind_of_ok hrun₃ _).trans ?_
    cases (hs.map Handle.id).findSome? trouble <;> rfl
  rw [hall]
  exact ⟨rfl, hgone⟩

end Found

end Removal

/-- Removing an application leaves the world dependable, whatever fails. -/
theorem fits_removeHeld {tenant : String} (ht : '/' ∉ tenant.toList) :
    (removeHeld name tenant).Makes Call.Fits := by
  refine Makes.bind (p := perform _) (makes_perform ht) fun record => ?_
  refine Makes.bind (p := perform _) (makes_perform rfl) fun handles => ?_
  show Program.Makes _ (if _ then _ else _)
  split
  · trivial
  refine Makes.bind (makes_sweep (fun _ _ => rfl) (deals_destroyOne fun _ => none).fits _)
    fun failure => ?_
  show Program.Makes _ (if _ then _ else _)
  split
  · refine Makes.bind (p := perform _) (makes_perform ht) fun _ => ?_
    cases failure <;> trivial
  · cases failure <;> trivial

theorem remove_eq (htenant : caller.tenant ≠ "") :
    remove caller name = holding (caller.key name) (removeHeld name caller.tenant) := by
  unfold remove Caller.required
  rw [if_neg htenant]
  rfl

theorem passesOver_remove (hw : w.Dependable w.engine.lenient) (hseq : w.Sequenced)
    (hk : (caller.key name).IsFiled) (htenant : caller.tenant ≠ "")
    (hname : w.engine.lenient = false ∨ name ≠ "")
    (hrecord : w.recordAt (caller.key name) = some r)
    (ha : (remove caller name).Along (Call.Troubled trouble) w) :
    (remove caller name).PassesOver .remove ((w.lineup (caller.key name)).map (·.id)) trouble w ∧
      ((remove caller name).run w).2.recordAt (caller.key name) = none := by
  rw [remove_eq htenant] at ha ⊢
  replace ha := along_holding.1 ha
  obtain ⟨hs, w', hfind, hq, hids⟩ := run_find (k := caller.key name)
    (told_of_tenant hname htenant) hseq (along_find hw hk ha)
  simp only [Option.all_none, List.filter_true] at hids
  have hnodup : (hs.map Handle.id).Nodup := by
    rw [hids]
    exact World.nodup_ids hw.numbered _
  obtain ⟨hresult, hgone⟩ := run_removeHeld hw hk ha hfind hq hnodup hrecord
  have hdoes := does_removeHeld hw hk ha hfind hq hnodup
  rw [hids] at hresult hdoes
  rw [run_holding]
  refine ⟨.holding ⟨hdoes, ?_⟩ _, hgone⟩
  rw [hresult]
  cases ((w.lineup (caller.key name)).map (·.id)).findSome? trouble <;> rfl

/-- Where no container is in trouble, none is left of an application that is removed, whether or not
there is a record. -/
theorem lineup_remove (hw : w.Dependable w.engine.lenient) (hk : (caller.key name).IsFiled)
    (htenant : caller.tenant ≠ "") (hname : w.engine.lenient = false ∨ name ≠ "")
    (hslots : ∀ c ∈ w.lineup (caller.key name), (c.labels.get? Runtime.serviceLabel).isSome)
    (ha : (remove caller name).Along (Call.Troubled fun _ => none) w) :
    ((remove caller name).run w).2.lineup (caller.key name) = [] := by
  rw [remove_eq htenant] at ha ⊢
  replace ha := along_holding.1 ha
  have ht : '/' ∉ caller.tenant.toList := hk
  obtain ⟨hs, hok⟩ := w.ok_of_serves (c := .find name caller.tenant none) rfl
    (along_find hw ht ha).1.1
  obtain ⟨handles, hread, hperm⟩ := World.find_handles (k := caller.key name)
    (told_of_tenant hname htenant) hslots hok
  have hids := hperm.map Handle.id
  rw [Runtime.map_id_of_read hread] at hids
  simp only [Option.all_none, List.filter_true] at hids
  have hdoes := does_removeHeld hw ht ha (Prod.ext hok rfl) (w.answer_find ..).1
    (hids.nodup_iff.2 (World.nodup_ids hw.numbered _))
  have hall : (hs.map Handle.id).filter (untroubled fun _ => none) = hs.map Handle.id :=
    List.filter_eq_self.2 fun _ _ => rfl
  -- A container that is left was not found, so it is none of the application's.
  rw [run_holding, World.lineup, hdoes.containers, hall, Engine.dealt_remove, List.filter_filter,
    List.filter_eq_nil_iff]
  intro c hc hboth
  simp only [Bool.and_eq_true, decide_eq_true_eq] at hboth
  exact hboth.2 (hids.mem_iff.2 (List.mem_map_of_mem (World.mem_lineup.2 ⟨hc, hboth.1⟩)))

end Operations

end Lifecycle

/-- Whichever containers of an application are in trouble, starting and restarting it stop at the
first of them, in the order in which they were made, while stopping, shrinking and removing it pass
over them. An application that is removed has no record any more, and when it is removed again after
the trouble is over, whatever happened in between, no container is left. -/
theorem trouble_stops_or_is_passed_over (platform : PlatformSettings) (caller : Caller)
    (name : String) (r : Record) (w : World) (trouble : String → Option EngineFailure)
    (hreached : w.Timely platform) (ht : '/' ∉ caller.tenant.toList) (htenant : caller.tenant ≠ "")
    (hname : w.engine.lenient = false ∨ name ≠ "")
    (hrecord : w.recordAt (caller.key name) = some r) :
    let k := caller.key name
    let ids := (w.lineup k).map (·.id)
    ((start platform caller name).Along (Call.Troubled trouble) w →
      (start platform caller name).StopsAtTrouble .start ids trouble w) ∧
    ((restart platform caller name).Along (Call.Troubled trouble) w →
      (restart platform caller name).StopsAtTrouble .restart ids trouble w) ∧
    ((stop caller name).Along (Call.Troubled trouble) w →
      (stop caller name).PassesOver .stop ids trouble w) ∧
    (∀ target : Int, 1 ≤ target → target < (w.frameworks k).length →
      (scale platform caller name target).Along (Call.Troubled trouble) w →
      (scale platform caller name target).PassesOver .remove
        ((w.surplus k target).map (·.id)) trouble w) ∧
    ((remove caller name).Along (Call.Troubled trouble) w →
      let w₁ := ((remove caller name).run w).2
      (remove caller name).PassesOver .remove ids trouble w ∧ w₁.recordAt k = none ∧
      ∀ w₂ : World, w₁.Beside w₂ → (w₂.engine.lenient = false ∨ name ≠ "") →
        (remove caller name).Along (Call.Troubled fun _ => none) w₂ →
        ((remove caller name).run w₂).2.lineup k = []) := by
  have hw := hreached.dependable
  have hseq := hreached.sequenced
  refine ⟨stopsAtTrouble_start hw hseq ht htenant hname hrecord,
    stopsAtTrouble_restart hw hseq ht htenant hname hrecord,
    passesOver_stop hw hseq ht htenant hname hrecord,
    fun target => passesOver_scale hw hseq ht htenant hname hrecord, fun ha => ?_⟩
  obtain ⟨hpasses, hgone⟩ := passesOver_remove hw hseq ht htenant hname hrecord ha
  refine ⟨hpasses, hgone, fun w₂ hbeside hname₂ ha₂ => ?_⟩
  have hordered : ((remove caller name).run w).2.Ordered :=
    run_keeps (I := World.Ordered) (fun c _ h => h.answer c) _ ⟨hseq, hw.numbered⟩
  refine lineup_remove (hbeside.dependable hordered.numbered) ht htenant hname₂ (fun c hc => ?_) ha₂
  have hlabels : w₂.engine.containers.map (·.labels) =
      ((remove caller name).run w).2.engine.containers.map (·.labels) := by
    simpa [Function.comp_def] using congrArg (List.map Prod.snd) hbeside.labels
  have hmem : c.labels ∈ w₂.engine.containers.map (·.labels) :=
    List.mem_map_of_mem (World.mem_lineup.1 hc).1
  rw [hlabels] at hmem
  exact hordered.sequenced.slotted _ hmem

namespace World

variable {w : World}

/-- That calls do not fail any more may happen beside. -/
theorem Dependable.beside_relieved {lenient : Bool} (h : w.Dependable lenient) :
    w.Beside w.relieved :=
  ⟨rfl, rfl, rfl, h.relieved.truthful, h.relieved.storing⟩

theorem Ordered.relieved (h : w.Ordered) : w.relieved.Ordered := ⟨h.sequenced, h.numbered⟩

end World

namespace PartialFailure

open Rescaling

/-- An engine that can neither start, stop nor remove one of its containers. -/
noncomputable def stuck : World :=
  { Agreement.world false with
    engine.faults := fun _ request =>
      if request.key = "c0002" ∧ request.verb ∈ [.start, .stop, .restart, .remove] then
        some ⟨.answered (some 500), "stuck"⟩
      else none }

theorem isNew_stuck : stuck.IsNew :=
  { Agreement.isNew_world with
    truthful := by
      refine ⟨fun _ _ f hf => ?_, fun _ _ f hf => ?_⟩ <;>
        simp only [stuck, Option.ite_none_right_eq_some, Option.some.injEq] at hf <;>
        rw [← hf.2]
      · decide
      · decide }

/-- An application of three containers, the second of which is stuck. -/
noncomputable def jammed : World := after [.create "web" "python" [] 3 false] stuck

/-- The trouble of the second container. -/
def trouble (operation id : String) : Option EngineFailure :=
  if id = "c0002" then
    some { operation, message := "stuck", app := some "web", container := some "web-alice-app-00000002" }
  else none

/-- Nothing else fails, and nothing at all when the application is removed again. -/
theorem jammed_calls : jammed.engine.lenient = false ∧ (jammed.recordAt web).isSome = true ∧
    (jammed.lineup web).map (·.id) = ["c0001", "c0002", "c0003"] ∧
    (start {} caller "web").alongInOrder (Call.Troubled (trouble "start")) jammed = true ∧
    (remove caller "web").alongInOrder (Call.Troubled (trouble "destroy")) jammed = true ∧
    (remove caller "web").alongInOrder (Call.Troubled fun _ => none)
      ((remove caller "web").runInOrder jammed).2.relieved = true := by
  decide +kernel

/-- Starting stops at the second of three containers, removing passes over it, and removing again
leaves none. -/
theorem second_container_is_stuck :
    (start {} caller "web").StopsAtTrouble .start ["c0001", "c0002", "c0003"] (trouble "start")
        jammed ∧
      (remove caller "web").PassesOver .remove ["c0001", "c0002", "c0003"] (trouble "destroy")
        jammed ∧
      ((remove caller "web").run ((remove caller "web").run jammed).2.relieved).2.lineup web =
        [] := by
  obtain ⟨hexact, hrecord, hids, hstart, hremove, hagain⟩ := jammed_calls
  obtain ⟨r, hr⟩ := Option.isSome_iff_exists.1 hrecord
  have htimely : jammed.Timely {} := timely_after _ isNew_stuck
  have hordered : jammed.Ordered := ⟨htimely.sequenced, htimely.dependable.numbered⟩
  have hall (operation : String) := trouble_stops_or_is_passed_over {} caller "web" r jammed
    (trouble operation) htimely (by decide) (by decide) (.inr (by decide)) hr
  rw [runInOrder_eq _ hexact hordered.sequenced hordered.numbered] at hagain
  have hafter : ((remove caller "web").run jammed).2.Dependable jammed.engine.lenient := by
    rw [remove_eq (by decide), run_holding]
    exact (fits_removeHeld (by decide)).run (fun _ _ hc hw => hw.answer hc) htimely.dependable
  have hordered' : ((remove caller "web").run jammed).2.Ordered :=
    run_keeps (I := World.Ordered) (fun c _ h => h.answer c) _ hordered
  rw [← hids]
  obtain ⟨hpasses, -, hleft⟩ := (hall "destroy").2.2.2.2 (along_of_inOrder hexact hordered hremove)
  exact ⟨(hall "start").1 (along_of_inOrder hexact hordered hstart), hpasses,
    hleft _ hafter.beside_relieved (.inr (by decide))
      (along_of_inOrder (hafter.relieved.lenient_eq.trans hexact) hordered'.relieved hagain)⟩

end PartialFailure

end AppBroker
