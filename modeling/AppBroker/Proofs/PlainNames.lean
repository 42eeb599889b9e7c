import AppBroker.Proofs.CreateUndone
import AppBroker.Proofs.Keeping
import AppBroker.Proofs.Orderly

/-!
# Names of applications

A plain name is a lower case letter followed by lower case letters, digits and underscores. Of texts
without a line end at their end the check lets exactly the plain names pass, and an application is
only created under a name that was let through. From there the name goes unchecked into the record, the
labels and the name of every container, and the public hosts. Each call of an operation keeps these
names plain (`World.Named.answer`), and operations that look a name up find nothing under one that is not
plain, so the names are plain after every history (`World.Tended.named`).

One line end after a name is not noticed by the check, and is then part of all of these.
-/

namespace AppBroker

open Program Lifecycle

namespace Name

/-- Whether a text is a lower case letter followed by lower case letters, digits and underscores. -/
def IsPlain (name : String) : Prop :=
  ∃ c cs, name.toList = c :: cs ∧ ('a' ≤ c ∧ c ≤ 'z') ∧
    ∀ d ∈ cs, ('a' ≤ d ∧ d ≤ 'z') ∨ ('0' ≤ d ∧ d ≤ '9') ∨ d = '_'

/-- Whether a text ends with a line end. -/
def EndsLine (name : String) : Prop := name.toList.getLast? = some '\n'

instance (name : String) : Decidable (EndsLine name) := inferInstanceAs (Decidable (_ = _))

theorem isLower_iff (c : Char) : isLower c = true ↔ 'a' ≤ c ∧ c ≤ 'z' := by
  simp [isLower]

theorem isInner_iff (c : Char) : isInner c = true ↔
    ('a' ≤ c ∧ c ≤ 'z') ∨ ('0' ≤ c ∧ c ≤ '9') ∨ c = '_' := by
  simp [isInner, isLower_iff, or_assoc]

variable {name : String} (h : ¬ EndsLine name)
include h

theorem isValid_iff : isValid name = true ↔ IsPlain name := by
  have hkept : dropLineEnd name.toList = name.toList := if_neg h
  unfold isValid IsPlain
  rw [hkept]
  cases name.toList with
  | nil => simp
  | cons c cs =>
    simp only [Bool.and_eq_true, List.all_eq_true, isLower_iff, isInner_iff]
    exact ⟨fun ⟨hc, hcs⟩ => ⟨c, cs, rfl, hc, hcs⟩, by rintro ⟨_, _, ⟨⟩, hc, hcs⟩; exact ⟨hc, hcs⟩⟩

/-- Of texts without a line end at their end, the plain names pass the check. -/
theorem check_iff : check name = .ok () ↔ IsPlain name := by
  rw [← isValid_iff h]
  unfold check
  split <;> simp_all [AppBroker.refuse]

/-- What is not plain is refused with what was asked for. -/
theorem check_of_not_plain (hn : ¬ IsPlain name) :
    check name = AppBroker.refuse (.invalid (.applicationName name)) := by
  rw [← isValid_iff h] at hn
  unfold check
  rw [if_neg hn]

omit h in
theorem IsPlain.isValid (hn : IsPlain name) : isValid name = true := by
  refine (isValid_iff fun hend => ?_).2 hn
  obtain ⟨c, cs, hcs, hc, hall⟩ := hn
  have hmem : '\n' ∈ c :: cs := by
    rw [← hcs]
    exact List.mem_of_getLast? hend
  rcases List.mem_cons.1 hmem with rfl | hmem
  · revert hc; decide
  · rcases hall _ hmem with hd | hd | hd <;> revert hd <;> decide

end Name

/-- A request to create an application under a name that is not plain is refused before anything is
called. -/
theorem create_of_not_plain (platform : PlatformSettings) (caller : Caller) {name : String}
    (h : ¬ Name.EndsLine name) (hn : ¬ Name.IsPlain name) (framework : String)
    (services : List String) (scaling : Int) (start : Bool) :
    Lifecycle.create platform caller name framework services scaling start =
      Program.refuse (.invalid (.applicationName name)) := by
  unfold Lifecycle.create checkCreate
  rw [Name.check_of_not_plain h hn]
  rfl

/-! ## Names that calls carry -/

/-- Whether endpoints are public under the host of a container of an application with a plain
name. -/
def PlainHosts (platform : PlatformSettings) (endpoints : List Endpoint) : Prop :=
  ∃ h : Handle, Name.IsPlain h.app ∧ ∀ e ∈ endpoints, e.frontend = platform.frontend h

/-- Whether the names that a call gives to a container, a record or a host are plain. -/
def Call.IsNamed (platform : PlatformSettings) : Call → Prop
  | .create app _ _ => Name.IsPlain app
  | .addRecord _ r | .replaceRecord _ r => Name.IsPlain r.name
  | .route (.publish _ endpoints) => PlainHosts platform endpoints
  | _ => True

/-- Whether a call gives plain names only and does the store no harm. -/
def Call.Names (platform : PlatformSettings) (c : Call) : Prop :=
  (c.Fits ∨ c.isLooking = true) ∧ c.IsNamed platform

/-- Whether a container is of an application with a plain name, and is named for it. -/
def Container.IsNamed (c : Container) : Prop :=
  ∃ app rest, Name.IsPlain app ∧ c.labels.get? Runtime.appLabel = some app ∧
    c.name = app ++ "-" ++ rest

namespace World

variable {w w' : World} {platform : PlatformSettings} {c : Call}

/-- Whether every record, every container and every public host has a plain name. -/
structure Named (platform : PlatformSettings) (w : World) : Prop where
  records : ∀ k : AppKey, k.IsFiled → ∀ r, w.recordAt k = some r → Name.IsPlain r.name
  containers : ∀ c ∈ w.engine.containers, c.IsNamed
  hosts : ∀ entry ∈ w.routes, PlainHosts platform entry.2

/-- A world in which names are plain, records can be kept and found again, and ids are never used
again. -/
structure Tidy (platform : PlatformSettings) (w : World) : Prop where
  numbered : Engine.Numbered w.engine.containers w.engine.made
  storing : w.Storing
  named : w.Named platform

theorem isNamed_newcomer {app : String} (happ : Name.IsPlain app) (tenant : String) (tag : Tag) :
    (w.newcomer app tenant tag).IsNamed := by
  refine ⟨app, tenant ++ "-" ++ (if tag.service = "" then "app" else tag.service) ++ "-"
    ++ Runtime.serial (w.idsGiven + 1), happ, rfl, ?_⟩
  simp only [← String.append_assoc]
  rfl

/-- No call that gives plain names brings others into the world, whether calls fail or not. -/
theorem Named.answer (h : w.Named platform) (hn : Engine.Numbered w.engine.containers w.engine.made)
    (hs : w.Storing) (hc : c.Names platform) : (w.answer c).2.Named platform := by
  refine ⟨fun k hk r hr => ?_, fun c' hc' => ?_, fun entry he => ?_⟩
  · rcases recordAt_answer hn hs hc.1 hk with hat | ⟨r', hwrites, hat⟩ | ⟨-, hat⟩ <;> rw [hat] at hr
    · exact h.records k hk r hr
    · obtain rfl := Option.some.inj hr
      rcases hwrites with rfl | rfl <;> exact hc.2
    · cases hr
  · rcases exists_of_mem_answer hn c c' hc' with ⟨d, hd, hsame⟩ | ⟨app, tenant, tag, rfl, rfl⟩
    · unfold Container.IsNamed
      rw [← hsame.labels, ← hsame.name]
      exact h.containers d hd
    · exact isNamed_newcomer hc.2 tenant tag
  · cases c with
    | route change =>
      rcases mem_routes_route he with he | rfl
      · exact h.hosts entry he
      · exact hc.2
    | _ =>
      unfold routes at he
      rw [router_answer w rfl] at he
      exact h.hosts entry he

theorem Tidy.answer (h : w.Tidy platform) (hc : c.Names platform) :
    (w.answer c).2.Tidy platform where
  numbered := (aged_answer h.numbered c).numbered h.numbered
  storing := hc.1.elim h.storing.answer h.storing.look
  named := h.named.answer h.numbered h.storing hc

/-- The application of a container that is read has a plain name. -/
theorem Tidy.isPlain_app (h : w.Tidy platform) {network : String} {c : Container} {handle : Handle}
    (hc : c ∈ w.engine.containers) (hread : Runtime.handleOf network c = .ok handle) :
    Name.IsPlain handle.app := by
  obtain ⟨app, -, happ, hlabel, -⟩ := h.named.containers c hc
  rwa [Option.some.inj ((Runtime.readFrom_of_handleOf hread).app.symm.trans hlabel)]

end World

/-! ## What operations call -/

namespace Naming

variable {platform : PlatformSettings} {caller : Caller} {name : String}

/-- Whether a program makes calls that give plain names, and gives what is promised. -/
abbrev Keeps {α : Type} (platform : PlatformSettings) (p : Program α) (P : α → Prop) : Prop :=
  p.Keeps (World.Tidy platform) (Call.Names platform) P

theorem structural : Structural fun (α : Type) (p : Program α) =>
    Keeps platform p fun _ => True := Program.Keeps.structural

theorem keeps_steady {c : Call} (hc : c.isSteady = true) (hn : c.IsNamed platform) :
    Keeps platform (perform c) fun _ => True :=
  keeps_call ⟨.inl (by cases c <;> first | exact hc | cases hc), hn⟩

theorem keeps_warn (severity : Severity) (text : String) :
    Keeps platform (warn severity text) fun _ => True := keeps_steady rfl trivial

theorem keeps_publish (h : Handle) : Keeps platform (publish platform h) fun _ => True :=
  Program.keeps_publish platform ⟨.inl rfl, trivial⟩ ⟨.inl rfl, trivial⟩
    (fun _ _ => ⟨.inl rfl, trivial⟩) fun w current endpoints hw hc hhosts => by
      obtain ⟨c, hfind, hread⟩ := (w.answer_inspect h).2 current hc
      exact ⟨.inl rfl, current, hw.isPlain_app (Engine.find?_eq_some hfind).1 hread, hhosts⟩

theorem keeps_retract (h : Handle) : Keeps platform (retract h) fun _ => True :=
  Program.keeps_retract ⟨.inl rfl, trivial⟩ fun _ _ => ⟨.inl rfl, trivial⟩

theorem keeps_startAll (hs : List Handle) : Keeps platform (startAll platform hs) fun _ => True :=
  structural.bind (structural.forEach fun h _ =>
    structural.bind (keeps_steady (c := .start h) rfl trivial) fun _ => keeps_publish h)
    fun _ => structural.done _

theorem keeps_restartAll (hs : List Handle) :
    Keeps platform (forEach (restartOne platform) hs) fun _ => True :=
  structural.forEach fun h _ =>
    structural.bind (keeps_steady (c := .restart h) rfl trivial) fun _ => keeps_publish h

theorem keeps_stopOne (h : Handle) : Keeps platform (stopOne h) fun _ => True :=
  structural.bind (keeps_retract h) fun _ => keeps_steady (c := .stop h) rfl trivial

theorem keeps_destroyOne (h : Handle) : Keeps platform (destroyOne h) fun _ => True :=
  structural.bind (keeps_retract h) fun _ => keeps_call (c := .destroy h) ⟨.inl trivial, trivial⟩

theorem keeps_sweep {act : Handle → Program Unit}
    (hact : ∀ h, Keeps platform (act h) fun _ => True) (hs : List Handle) :
    Keeps platform (sweep act hs) fun _ => True := by
  induction hs with
  | nil => exact structural.done _
  | cons h hs ih =>
    refine structural.bind (structural.attempt (hact h)) fun r => ?_
    rcases r with r | u
    · exact structural.bind (keeps_warn _ _) fun _ => structural.bind ih fun _ => structural.done _
    · exact ih

theorem keeps_sweepStrictly {act : Handle → Program Unit}
    (hact : ∀ h, Keeps platform (act h) fun _ => True) (hs : List Handle) :
    Keeps platform (sweepStrictly act hs) fun _ => True :=
  structural.bind (keeps_sweep hact hs) fun failure => by cases failure <;> exact structural.done _

theorem keeps_find (name tenant : String) (service : Option String) :
    Keeps platform (perform (.find name tenant service)) fun _ => True := keeps_steady rfl trivial

section Creating

variable (hname : Name.IsPlain name)
include hname

theorem keeps_createAll (tenant : String) (tags : List Tag) :
    Keeps platform (createAll name tenant tags) fun _ => True :=
  structural.forEach fun _ _ => keeps_call ⟨.inl trivial, hname⟩

theorem keeps_populate (tenant : String) (tags : List Tag) (scaling : Int) :
    Keeps platform (populate name tenant tags scaling) fun _ => True :=
  structural.bind (keeps_createAll hname tenant _) fun _ =>
    structural.bind (keeps_createAll hname tenant _) fun _ => structural.done _

end Creating

theorem keeps_rollBack {tenant : String} (hfiled : '/' ∉ tenant.toList) :
    Keeps platform (rollBack name tenant) fun _ => True := by
  have hremove : Keeps platform (perform (.removeRecord tenant name)) fun _ => True :=
    keeps_call ⟨.inl hfiled, trivial⟩
  refine structural.bind (structural.attempt (structural.bind (keeps_find _ _ _)
    (keeps_sweepStrictly keeps_destroyOne))) fun cleaned => ?_
  rcases cleaned with r | u
  · exact structural.bind (keeps_warn _ _) fun _ => hremove
  · exact hremove

variable (hfiled : (caller.key name).IsFiled)
include hfiled

/-- What is found under a name is a record with this name, which is plain. -/
theorem keeps_record : Keeps platform (perform (.record caller.tenant name)) fun found =>
    ∀ r, found = some r → Store.Fit r ∧ r.name = name ∧ Name.IsPlain name := by
  refine keeps_perform ⟨.inl hfiled, trivial⟩ fun w found hw hfound r hr => ?_
  have hat : w.recordAt (caller.key name) = some r := by
    rcases World.answer_record hw.storing hfiled name with ha | ⟨e, ha⟩
    · exact (Except.ok.inj ((congrArg Prod.fst ha).symm.trans hfound)).trans hr
    · cases (congrArg Prod.fst ha).symm.trans hfound
  obtain ⟨hfit, hname⟩ := hw.storing.fit hfiled hat
  have hplain := hw.named.records (caller.key name) hfiled r hat
  exact ⟨hfit, hname, (show r.name = name from hname) ▸ hplain⟩

theorem keeps_recordOf : Keeps platform (recordOf caller name) fun r =>
    Store.Fit r ∧ r.name = name ∧ Name.IsPlain name := by
  unfold Lifecycle.recordOf Caller.required
  split
  · exact Program.Keeps.failed
  · refine (keeps_record hfiled).bind fun found hfound => ?_
    cases found with
    | none => exact Program.Keeps.failed
    | some r => exact Program.Keeps.ok (hfound r rfl)

/-- What is done to all containers of an application that has a record. -/
theorem keeps_found {act : List Handle → Program Unit}
    (hact : ∀ hs, Keeps platform (act hs) fun _ => True) :
    Keeps platform ((recordOf caller name).bind fun _ =>
      (perform (.find name caller.tenant none)).bind act) fun _ => True :=
  (keeps_recordOf hfiled).bind fun _ _ => structural.bind (keeps_find _ _ _) hact

theorem keeps_createHeld (hname : Name.IsPlain name) (framework : String) (services : List String)
    {scaling : Int} (hscaling : 1 ≤ scaling) (start : Bool) :
    Keeps platform (createHeld platform caller name framework services scaling start)
      fun _ => True := by
  refine (keeps_record hfiled).bind fun found _ => ?_
  dsimp only
  split
  · exact Program.Keeps.failed
  refine structural.bind (keeps_steady (c := .compose caller.tenant framework services) rfl trivial)
    fun composition => ?_
  -- The clock shows a time that can be written into the record.
  refine Program.Keeps.bind (R := Moment.IsReal) (keeps_perform (c := .now) ⟨.inl rfl, trivial⟩
    fun w a hw ha => ?_) fun createdAt hreal => ?_
  · exact Except.ok.inj ha ▸ hw.storing.real
  refine structural.bind (keeps_call (c := .addRecord ..) ⟨.inl ⟨hfiled, hscaling, hreal⟩, hname⟩)
    fun _ => ?_
  have hpopulated (tags : List Tag) :
      Keeps platform (populateOrUndo name caller.tenant tags scaling) fun _ => True := by
    refine structural.bind (structural.attempt (keeps_populate hname caller.tenant tags scaling))
      fun populated => ?_
    rcases populated with r | handles
    · exact structural.bind (keeps_warn _ _) fun _ =>
        structural.bind (keeps_rollBack hfiled) fun _ => Program.Keeps.failed
    · exact structural.done _
  refine structural.bind (hpopulated _) fun handles => ?_
  split
  · exact structural.bind (keeps_startAll handles) fun _ => structural.done _
  · exact structural.done _

theorem keeps_scaleHeld {target : Int} (htarget : 1 ≤ target) :
    Keeps platform (scaleHeld platform caller name target) fun _ => True := by
  refine (keeps_recordOf hfiled).bind fun r ⟨hfit, hr, hname⟩ => ?_
  refine structural.bind (keeps_find name caller.tenant (some "")) fun current => ?_
  have hadjust : Keeps platform (adjust platform caller r name current target) fun _ => True := by
    unfold adjust
    split
    · unfold grow
      refine structural.bind (structural.done _) fun tag =>
        structural.bind (keeps_createAll hname caller.tenant _) fun added => ?_
      split
      · exact keeps_startAll added
      · exact structural.done _
    · split
      · exact keeps_sweepStrictly keeps_destroyOne _
      · exact structural.done _
  refine structural.bind hadjust fun _ => ?_
  dsimp only
  split
  · have hreplace : Keeps platform
        (perform (.replaceRecord caller.tenant { r with scaling := target })) fun _ => True :=
      keeps_call ⟨.inl ⟨hfiled, htarget, hfit.created⟩, show Name.IsPlain r.name from hr ▸ hname⟩
    exact structural.bind hreplace fun _ => keeps_find _ _ _
  · exact keeps_find _ _ _

theorem keeps_removeHeld : Keeps platform (removeHeld name caller.tenant) fun _ => True := by
  refine (keeps_record hfiled).bind fun record _ => structural.bind (keeps_find _ _ _) fun handles => ?_
  dsimp only
  split
  · exact Program.Keeps.failed
  refine structural.bind (keeps_sweep keeps_destroyOne handles) fun failure => ?_
  split
  · refine structural.bind (keeps_call (c := .removeRecord caller.tenant name)
      ⟨.inl hfiled, trivial⟩) fun _ => ?_
    cases failure <;> exact structural.done _
  · cases failure <;> exact structural.done _

end Naming

namespace Request

variable {platform : PlatformSettings}

/-- Whether a request is of a tenant with a file of its own, and asks for no new application with a
line end after its name. -/
structure IsTidy (r : Request) : Prop where
  filed : '/' ∉ r.caller.tenant.toList
  unended : ∀ name framework services scaling start,
    r.operation = .create name framework services scaling start → ¬ Name.EndsLine name

theorem IsTidy.keeps_turn {r : Request} (h : r.IsTidy) (hcheck : r.check = .ok ()) {name : String}
    (hname : name ∈ r.names) : Naming.Keeps platform (r.turn platform name) fun _ => True := by
  obtain ⟨caller, operation⟩ := r
  have hfiled : (caller.key name).IsFiled := h.filed
  have hquietly {p : Program Unit} (hp : Naming.Keeps platform p fun _ => True) :
      Naming.Keeps platform (quietly p) fun _ => True :=
    Naming.structural.andThen hp fun _ => Naming.structural.done _
  cases operation with
  | create name' framework services scaling start =>
    obtain rfl := List.mem_singleton.1 hname
    obtain ⟨hvalid, -, hscaling, -⟩ := checkCreate_eq_ok hcheck
    have hplain := (Name.isValid_iff (h.unended _ _ _ _ _ rfl)).1 hvalid
    exact Naming.keeps_createHeld hfiled hplain framework services hscaling start
  | startContainers hs => exact hquietly (Naming.keeps_startAll _)
  | start name' =>
    obtain rfl := List.mem_singleton.1 hname
    exact hquietly (Naming.keeps_found hfiled Naming.keeps_startAll)
  | stop name' =>
    obtain rfl := List.mem_singleton.1 hname
    exact hquietly (Naming.keeps_found hfiled (Naming.keeps_sweepStrictly Naming.keeps_stopOne))
  | restart name' =>
    obtain rfl := List.mem_singleton.1 hname
    exact hquietly (Naming.keeps_found hfiled fun hs =>
      Naming.structural.bind (Naming.keeps_restartAll hs) fun _ => Naming.structural.done _)
  | scale name' target =>
    obtain rfl := List.mem_singleton.1 hname
    have htarget : 1 ≤ target := by
      unfold Request.check at hcheck
      dsimp only at hcheck
      split at hcheck
      · cases hcheck
      · omega
    exact Naming.keeps_scaleHeld hfiled htarget
  | remove name' =>
    obtain rfl := List.mem_singleton.1 hname
    exact hquietly (Naming.keeps_removeHeld hfiled)

theorem IsTidy.guarded_program {r : Request} (h : r.IsTidy) : (r.program platform).Guarded
    (World.Tidy platform) (fun _ => Call.Names platform) none := by
  rw [program_eq]
  cases hcheck : r.check with
  | error e => exact rfl
  | ok u =>
    exact guarded_forEach (fun name hname => h.keeps_turn hcheck hname)
      fun o => by cases o <;> exact rfl

end Request

theorem Naming.keeps_resync (platform : PlatformSettings) :
    Naming.Keeps platform (resync platform) fun _ => True := by
  have happ (tenant : String) (r : Record) :
      Naming.Keeps platform (resyncApp platform tenant r) fun _ => True :=
    structural.bind (keeps_find _ _ _) fun hs =>
      structural.bind (structural.forEach fun h _ => keeps_publish h) fun _ => structural.done _
  have htenant (tenant : String) :
      Naming.Keeps platform (resyncTenant platform tenant) fun _ => True :=
    structural.bind (p := perform (.records tenant)) (keeps_call ⟨.inr rfl, trivial⟩) fun rs =>
      structural.bind (structural.forEach fun r _ => happ tenant r) fun _ => structural.done _
  refine structural.bind (p := perform (.route .clear)) (keeps_call ⟨.inl rfl, trivial⟩) fun _ => ?_
  refine structural.bind (p := perform .tenants) (keeps_call ⟨.inr rfl, trivial⟩) fun tenants => ?_
  exact structural.bind (structural.forEach fun tenant _ => htenant tenant) fun _ => structural.done _

/-! ## Histories -/

namespace World

variable {platform : PlatformSettings} {w w' : World}

theorem Tidy.guarding (h : w.Tidy platform) {requests : List Request}
    (hrequests : ∀ r ∈ requests, r.IsTidy) (resyncs : Nat) (order : List Nat) :
    ∃ inside, (Pool.run { world := w, tasks := Request.withResyncs platform requests resyncs }
      order).Guarding (Tidy platform) (fun _ _ => Call.Names platform) inside := by
  refine (Pool.Guarding.start h fun i task ht => ?_).run (fun _ _ _ _ hc hw => hw.answer hc) order
  rcases List.mem_append.1 (List.mem_of_getElem? ht) with ht | ht
  · obtain ⟨r, hr, rfl⟩ := List.mem_map.1 ht
    exact (hrequests r hr).guarded_program
  · rw [(List.mem_replicate.1 ht).2]
    exact (Naming.keeps_resync platform).guarded fun _ => rfl

/-- What may happen between operations: containers come to be in other states or are lost, routes are
dropped, and records stay as they are. -/
structure Rests (w w' : World) : Prop where
  made : w'.engine.made = w.engine.made
  containers : (w'.engine.containers.map fun c => (c.id, c.number, c.name, c.labels)).Sublist
    (w.engine.containers.map fun c => (c.id, c.number, c.name, c.labels))
  storing : w'.Storing
  records : ∀ k : AppKey, k.IsFiled → w'.recordAt k = w.recordAt k
  routes : ∀ entry ∈ w'.routes, entry ∈ w.routes

theorem Tidy.rests (h : w.Tidy platform) (hw : w.Rests w') : w'.Tidy platform := by
  have hnumbers : (w'.engine.containers.map fun c => (c.id, c.number)).Sublist
      (w.engine.containers.map fun c => (c.id, c.number)) := by
    simpa [Function.comp_def] using hw.containers.map fun m => (m.1, m.2.1)
  refine ⟨?_, hw.storing, fun k hk r hr => ?_, fun c hc => ?_, fun entry he => ?_⟩
  · obtain ⟨hids, hincreasing⟩ := numbered_iff.1 h.numbered
    rw [numbered_iff, hw.made]
    exact ⟨fun p hp => hids p (hnumbers.mem hp), hincreasing.sublist hnumbers⟩
  · exact h.named.records k hk r (hw.records k hk ▸ hr)
  · obtain ⟨d, hd, hsame⟩ := List.mem_map.1 (hw.containers.mem (List.mem_map_of_mem hc))
    obtain ⟨-, -, hname, hlabels⟩ :
        d.id = c.id ∧ d.number = c.number ∧ d.name = c.name ∧ d.labels = c.labels := by
      simpa using hsame
    unfold Container.IsNamed
    rw [← hname, ← hlabels]
    exact h.named.containers d hd
  · exact h.named.hosts entry (hw.routes entry he)

/-- What lifecycle operations lead to from an empty engine, an empty store and no routes, run together
in any order and next to any number of programs that route everything anew. -/
inductive Tended (platform : PlatformSettings) : World → Prop
  | new {w : World} : w.engine.containers = [] → w.Storing →
      (∀ k : AppKey, k.IsFiled → w.recordAt k = none) → w.routes = [] → Tended platform w
  | operated {w : World} {requests : List Request} (resyncs : Nat) (order : List Nat) :
      Tended platform w → (∀ r ∈ requests, r.IsTidy) → Tended platform (Pool.run
        { world := w, tasks := Request.withResyncs platform requests resyncs } order).world
  | rested {w w' : World} : Tended platform w → w.Rests w' → Tended platform w'

theorem IsNew.tended (h : w.IsNew) (hroutes : w.routes = []) : w.Tended platform :=
  .new h.containers h.dependable.storing (fun k hk => h.dependable.storing.recordAt_eq hk
    (.inl ⟨h.bare k.tenant hk, rfl⟩) Store.proper_nil k.name) hroutes

theorem Tended.tidy (h : w.Tended platform) : w.Tidy platform := by
  induction h with
  | new hcontainers hstoring hrecords hroutes =>
    refine ⟨by rw [hcontainers]; exact ⟨by simp, by simp, .nil⟩, hstoring, fun k hk r hr => ?_, ?_, ?_⟩
    · cases (hrecords k hk).symm.trans hr
    · simp [hcontainers]
    · simp [hroutes]
  | operated resyncs order _ hrequests ih =>
    obtain ⟨inside, hrun⟩ := ih.guarding hrequests resyncs order
    exact hrun.now
  | rested _ hw ih => exact ih.rests hw

end World

/-- Of texts without a line end at their end exactly the plain names pass the check. An application
with another one is not created: it is refused, and nothing is called. So in every world that
operations lead to, each record, each container and each public host has a plain name, and no call
ever gives another one. -/
theorem names_are_plain (platform : PlatformSettings) :
    (∀ name, ¬ Name.EndsLine name →
      (Name.check name = .ok () ↔ Name.IsPlain name) ∧
      (¬ Name.IsPlain name →
        Name.check name = AppBroker.refuse (.invalid (.applicationName name)) ∧
        ∀ caller framework services scaling start,
          Lifecycle.create platform caller name framework services scaling start =
            Program.refuse (.invalid (.applicationName name)))) ∧
    ∀ w : World, w.Tended platform → w.Named platform ∧
      ∀ (requests : List Request) (resyncs : Nat) (order : List Nat),
        (∀ r ∈ requests, r.IsTidy) → ∀ i c,
        (Pool.run { world := w, tasks := Request.withResyncs platform requests resyncs }
          order).pending? i = some c → c.IsNamed platform := by
  refine ⟨fun name h => ⟨Name.check_iff h, fun hn => ⟨Name.check_of_not_plain h hn, ?_⟩⟩,
    fun w hw => ⟨hw.tidy.named, fun requests resyncs order hrequests i c hc => ?_⟩⟩
  · exact fun caller => create_of_not_plain platform caller h hn
  · obtain ⟨inside, hrun⟩ := hw.tidy.guarding hrequests resyncs order
    exact (hrun.pending hc).1.2

/-! ## Names with and without a line end -/

namespace PlainNames

/-- Alice asks for an application to be created and started. -/
def request (name : String) : Request := ⟨⟨"alice", "alice"⟩, .create name "python" [] 1 true⟩

/-- A world in which nothing was done yet, after her request. -/
noncomputable def created (name : String) : World :=
  (Pool.run { world := FailedCreation.world (.memory []), tasks := Request.withResyncs {} [request name] 0 }
    (List.replicate 14 0)).world

theorem not_isPlain_of_capital : ¬ Name.IsPlain "Web" := by
  rintro ⟨c, cs, hcs, hc, -⟩
  obtain ⟨rfl, -⟩ : 'W' = c ∧ _ := List.cons.inj hcs
  revert hc
  decide

theorem capital_is_refused : Name.check "web" = .ok () ∧
    Name.check "Web" = AppBroker.refuse (.invalid (.applicationName "Web")) ∧
    (created "web").Named {} ∧
    (created "web").engine.containers.map Container.name = ["web-alice-app-00000001"] := by
  obtain ⟨hcheck, hworlds⟩ := names_are_plain {}
  have hrequests : ∀ r ∈ [request "web"], r.IsTidy := by
    intro r hr
    obtain rfl := List.mem_singleton.1 hr
    refine ⟨by decide, ?_⟩
    rintro _ _ _ _ _ ⟨⟩
    decide
  have hplain : Name.IsPlain "web" := by
    refine ⟨'w', ['e', 'b'], rfl, by decide, fun d hd => ?_⟩
    rcases List.mem_pair.1 hd with rfl | rfl <;> decide
  have hnew : (FailedCreation.world (.memory [])).Tended {} :=
    (FailedCreation.isNew_world _).tended rfl
  refine ⟨((hcheck "web" (by decide)).1).2 hplain,
    ((hcheck "Web" (by decide)).2 not_isPlain_of_capital).1, ?_, by decide +kernel⟩
  rw [created]
  exact (hworlds _ (.operated 0 _ hnew hrequests)).1

/-- A line end after a name is let through, and is part of the record, the labels, the container's
name and the public host. -/
theorem line_end_is_taken_for_plain : Name.check "web\n" = .ok () ∧ ¬ Name.IsPlain "web\n" ∧
    ((created "web\n").recordAt ⟨"alice", "web\n"⟩).map Record.name = some "web\n" ∧
    (created "web\n").engine.containers.map (fun c => (c.name, c.labels.get? Runtime.appLabel)) =
      [("web\n-alice-app-00000001", some "web\n")] ∧
    (created "web\n").routes.values.flatten.map Endpoint.frontend =
      ["web\n-alice.cumulus.local"] := by
  refine ⟨by decide, ?_, by decide +kernel⟩
  rintro ⟨c, cs, hcs, -, hall⟩
  obtain ⟨-, rfl⟩ : 'w' = c ∧ ['e', 'b', '\n'] = cs := List.cons.inj hcs
  rcases hall '\n' (by simp) with h | h | h <;> revert h <;> decide

end PlainNames

end AppBroker
