import AppBroker.Program
import AppBroker.Proofs.CompositionTags
import AppBroker.Proofs.EngineCall

/-!
# What a caller gets to see

A lookup fails as one of three: the hub has no such plugin, has it in other versions only, or breaks
off. What breaks off is never told as an absence (`Hub.tells_plugin`), so an absence says which of
the first two it was. In a hub that can be read throughout, nothing breaks off, and a reference is
resolved just if its plugin is the caller's, the system's or shared (`Resolver.sharing_gate`).

Towards a stranger the second absence, and a plugin that is not shared, are told as the first, but
under the whole reference where the first has the plugin's name. The two read the same only where
the reference asks for no version (`Resolver.unversioned_refusals_agree`).
-/

namespace AppBroker

/-- Whether all that an outcome may tell as absent is as given. -/
def Tells {α : Type} (P : Refusal → Prop) (o : Outcome α) : Prop :=
  ∀ r, o = .error (.refusal r) → r.isAbsence → P r

section

variable {α β : Type} {P : Refusal → Prop}

theorem Outright.tells {o : Outcome α} (h : Outright o) : Tells P o := fun r he => absurd he (h r)

theorem Tells.bind {o : Outcome α} {f : α → Outcome β} (ho : Tells P o)
    (hf : ∀ a, Tells P (f a)) : Tells P (o >>= f) := by
  cases o with
  | ok a => exact hf a
  | error e => exact fun r he => ho r (by cases he; rfl)

theorem tells_ok (a : α) : Tells P (.ok a : Outcome α) := (outright_ok a).tells

theorem tells_refuse {r : Refusal} (h : r.isAbsence → P r) : Tells P (refuse r : Outcome α) := by
  intro r' he
  cases he
  exact h

end

namespace Disk

variable {α : Type} (d : Disk) (p : Path)

theorem outright_orBreak (a : Answer α) : Outright (orBreak a) := by
  cases a with
  | ok a => exact outright_ok a
  | error fault => exact outright_fail _

theorem outright_test (holds : Entry → Bool) : Outright (d.test p holds) := by
  unfold test
  split
  · exact outright_ok _
  · split
    · exact outright_ok _
    · exact outright_fail _

theorem outright_readText : Outright (d.readText p) := by
  refine (outright_orBreak _).bind fun data => ?_
  split
  · exact outright_ok _
  · exact outright_fail _

/-- Nothing is looked for under a name that is too long. -/
theorem locate_overlong {dir : Path} {n : String} {rest : List String} (h : d.Has dir)
    (hn : maxName < n.utf8ByteSize) (hnull : ∀ m ∈ n :: rest, '\x00' ∉ m.toList) (follow : Bool) :
    d.locate (dir ++ n :: rest) follow = .error .nameTooLong := by
  have hlong (m : String) (hm : m.utf8ByteSize ≤ maxName) : n ≠ m := fun heq => by
    rw [heq] at hn
    omega
  have hwalk := @walk_names d dir [] follow (1001 + rest.length) (n :: rest) h.names
    fun p hp => h.directory p hp
  have hany : (dir ++ n :: rest).any (fun name => '\x00' ∈ name.toList) = false := by
    rw [List.any_append, h.no_null, Bool.false_or, List.any_eq_false]
    simpa using hnull
  rw [locate, hany, if_neg (by simp),
    show (dir ++ n :: rest).length + 1000 = 1001 + rest.length + dir.length by simp; omega, hwalk,
    List.nil_append, show 1001 + rest.length = (1000 + rest.length) + 1 by omega, walk, h.at]
  simp [hlong "" (by decide), hlong "." (by decide), hlong ".." (by decide), hn]

end Disk

theorem Yaml.outright_load (numbers : Bool) (text : List Char) : Outright (load numbers text) := by
  unfold load
  cases read numbers text with
  | ok v => exact outright_ok v
  | error b => exact outright_fail b

namespace Manifest

variable {P : Refusal → Prop} (d : Disk) (dir : Path)

theorem tells_find : Tells P (find d dir) := by
  have hnone : Tells P (refuse (.manifest (.absent dir.text)) : Outcome Path) :=
    tells_refuse (by simp [Refusal.isAbsence])
  refine (d.outright_test _ _).tells.bind fun top => ?_
  split
  · exact tells_ok _
  refine (Disk.outright_orBreak _).tells.bind fun names => ?_
  split
  · refine (d.outright_test _ _).tells.bind fun inside => ?_
    split
    · refine (d.outright_test _ _).tells.bind fun there => ?_
      split
      · exact tells_ok _
      · exact hnone
    · exact hnone
  · exact hnone

theorem tells_ofText (path : Path) (cs : List Char) : Tells P (ofText path cs) := by
  unfold ofText
  have hload := Yaml.outright_load false cs
  split
  · exact tells_refuse (by simp [Refusal.isAbsence])
  · next e _ he =>
    intro r hr
    cases hr
    exact absurd he (hload r)
  · dsimp only
    split
    · exact (outright_fail _).tells
    · split
      · exact tells_ok _
      · exact tells_refuse (by simp [Refusal.isAbsence])
  · exact tells_refuse (by simp [Refusal.isAbsence])

theorem tells_read : Tells P (read d dir) :=
  (tells_find d dir).bind fun path =>
    (d.outright_readText path).tells.bind fun cs => tells_ofText path cs

end Manifest

theorem Outright.mapM {α β : Type} {f : α → Outcome β} (hf : ∀ a, Outright (f a)) (as : List α) :
    Outright (as.mapM f) := by
  induction as with
  | nil => exact outright_ok []
  | cons a as ih =>
    rw [List.mapM_cons]
    exact (hf a).bind fun b => ih.bind fun bs => outright_ok _

namespace Version

theorem outright_component (cs : List Char) : Outright (component cs) := by
  unfold component
  split
  · exact outright_ok _
  · exact outright_ok _
  · exact outright_fail _

theorem outright_keyed (versions : List String) : Outright (keyed versions) :=
  .mapM (fun _ => (Outright.mapM outright_component _).bind fun _ => outright_ok _) versions

theorem outright_select (versions : List String) (requested : String) :
    Outright (select versions requested) := by
  unfold select
  split
  · exact (outright_keyed versions).bind fun keys => outright_ok _
  · exact outright_ok _

/-- The latest of some versions is there, unless they have no order. -/
theorem select_latest {versions : List String} (hne : versions ≠ []) :
    select versions "" ≠ .ok none := by
  rw [select, if_pos rfl]
  rcases latest_cases hne with ⟨v, hlatest, -⟩ | ⟨⟨e, hlatest⟩, -⟩ <;> simp [hlatest]

end Version

namespace Hub

open Disk

variable {d : Disk} {root : Path} {tag : Tag}

theorem outright_visibleDirectories (d : Disk) (base : Path) (names : List String) :
    Outright (visibleDirectories d base names) := by
  induction names with
  | nil => exact outright_ok _
  | cons name names ih =>
    exact (d.outright_test _ _).bind fun b => ih.bind fun rest => outright_ok _

theorem outright_versionsIn (d : Disk) (base : Path) : Outright (versionsIn d base) :=
  (outright_orBreak _).bind fun names => outright_visibleDirectories d base names

/-- What a hub tells as absent of a tag. -/
def Absence (tag : Tag) (r : Refusal) : Prop :=
  r = .pluginAbsent tag.qualifiedName ∨
    tag.version ≠ "" ∧ r = .versionAbsent tag.qualifiedName tag.version

theorem tells_pluginPath {P : Refusal → Prop} (root : Path) (tenant name : String) :
    Tells P (pluginPath root tenant name) := by
  by_cases hs : IsScope tenant
  · by_cases hn : isComponent name
    · rw [pluginPath_eq root hs hn]
      exact tells_ok _
    · rw [pluginPath_refused_name hs hn]
      exact tells_refuse (by simp [Refusal.isAbsence])
  · rw [pluginPath_refused hs]
    exact tells_refuse (by simp [Refusal.isAbsence])

theorem tells_find (d : Disk) (root : Path) (tag : Tag) :
    Tells (Absence tag) (find d root tag) := by
  have hnone : Tells (Absence tag) (refuse (.pluginAbsent tag.qualifiedName) : Outcome Path) :=
    tells_refuse fun _ => .inl rfl
  refine (tells_pluginPath root _ _).bind fun base => ?_
  refine (d.outright_test _ _).tells.bind fun there => ?_
  split
  · exact hnone
  refine (outright_versionsIn d base).tells.bind fun versions => ?_
  split
  · exact hnone
  next hne =>
  cases hselect : Version.select versions tag.version with
  | error e =>
    exact fun r he _ => absurd (hselect.trans (by cases he; rfl)) (Version.outright_select _ _ r)
  | ok chosen =>
    cases chosen with
    | some version => exact tells_ok _
    | none =>
      refine tells_refuse fun _ => .inr ⟨fun hv => ?_, rfl⟩
      rw [hv] at hselect
      exact Version.select_latest (by simpa using hne) hselect

theorem tells_plugin (d : Disk) (root : Path) (tag : Tag) :
    Tells (Absence tag) (plugin d root tag) :=
  (tells_find d root tag).bind fun path => (Manifest.tells_read d path).bind fun _ => tells_ok _

/-- A scope that no directory can have breaks a lookup off. -/
theorem plugin_overlong (h : d.Has root) (hscope : isComponent tag.tenant)
    (hname : isComponent tag.name) (hlong : maxName < tag.tenant.utf8ByteSize)
    (hnull : ∀ m ∈ [tag.tenant, tag.name], '\x00' ∉ m.toList) :
    plugin d root tag = .error (.breakage .fileSystem) := by
  have htenant : tag.tenant ≠ "" := (isComponent_iff.1 hscope).1
  rw [plugin, find, pluginPath_eq root (.inr hscope) hname, ok_bind, scopeName, if_neg htenant,
    isDirectory, test, stat, locate_overlong d h hlong hnull]
  rfl

theorem isAbsence_of_absence {r : Refusal} (h : Absence tag r) : r.isAbsence := by
  rcases h with rfl | ⟨-, rfl⟩ <;> rfl

theorem tenant_of_plugin {p : Plugin} (h : plugin d root tag = .ok p) : p.tenant = tag.tenant := by
  obtain ⟨path, -, h⟩ := bind_eq_ok h
  obtain ⟨q, -, h⟩ := bind_eq_ok h
  cases h
  rfl

/-- Whether all of a hub can be read: looking for a plugin gives an answer, its versions have an
order, and their manifests describe plugins. -/
structure Legible (root : Path) (d : Disk) : Prop where
  looked : ∀ tag, Tag.IsSought tag →
    ∃ there, d.isDirectory (root ++ [scopeName tag.tenant, tag.name]) = .ok there
  listed : ∀ tag, Tag.IsSought tag →
    d.isDirectory (root ++ [scopeName tag.tenant, tag.name]) = .ok true →
    ∃ versions, versionsIn d (root ++ [scopeName tag.tenant, tag.name]) = .ok versions ∧
      ∀ v ∈ versions, Version.HasKey v ∧
        ∃ p, Manifest.read d (root ++ [scopeName tag.tenant, tag.name] ++ [v]) = .ok p

theorem Legible.plugin_cases (h : Legible root d) (hsought : Tag.IsSought tag) :
    (∃ p, plugin d root tag = .ok p) ∨
      ∃ r, plugin d root tag = .error (.refusal r) ∧ Absence tag r := by
  unfold plugin find
  rw [pluginPath_eq root hsought.scope hsought.name, ok_bind]
  have hgone : Absence tag (.pluginAbsent tag.qualifiedName) := .inl rfl
  obtain ⟨there, hthere⟩ := h.looked tag hsought
  rw [hthere]
  cases there with
  | false => exact .inr ⟨_, rfl, hgone⟩
  | true =>
    obtain ⟨versions, hversions, hall⟩ := h.listed tag hsought hthere
    simp only [ok_bind, Bool.not_true, Bool.false_eq_true, if_false, hversions]
    by_cases hempty : versions = []
    · rw [hempty]
      exact .inr ⟨_, rfl, hgone⟩
    have hread (v : String) (hv : v ∈ versions) :
        ∃ p, Manifest.read d (root ++ [scopeName tag.tenant, tag.name] ++ [v]) = .ok p :=
      (hall v hv).2
    rw [if_neg (by simpa using hempty)]
    by_cases hversion : tag.version = ""
    · rw [Version.select, if_pos hversion]
      rcases Version.latest_cases hempty with ⟨v, hlatest, hv, -⟩ | ⟨-, v, hv, hkey⟩
      · obtain ⟨p, hp⟩ := hread v hv
        rw [hlatest]
        simp only [ok_bind, pure, Except.pure, hp]
        exact .inl ⟨_, rfl⟩
      · exact absurd (hall v hv).1 hkey
    · rw [Version.select, if_neg hversion]
      split
      · next hv =>
        obtain ⟨p, hp⟩ := hread _ hv
        simp only [ok_bind, pure, Except.pure, hp]
        exact .inl ⟨_, rfl⟩
      · exact .inr ⟨_, rfl, .inr ⟨hversion, rfl⟩⟩

theorem Neat.legible {admits : String → Prop} (h : Neat admits (d.treeAt root)) (htree : d.IsTree)
    (hkeys : ∀ e, stock root d e ≠ none → Version.HasKey e.version) : Legible root d := by
  refine ⟨fun tag hsought => ⟨_, h.isDirectory_sought htree hsought⟩, fun tag hsought hdir => ?_⟩
  have hbase : d.treeAt root [scopeName tag.tenant, tag.name] ≠ none := by
    rw [h.isDirectory_sought htree hsought] at hdir
    simpa using hdir
  refine ⟨_, h.versionsIn_eq htree hbase, fun v hv => ?_⟩
  have hthere := (mem_names_plugin d root _ _ v).1 hv
  obtain ⟨p, hread, -⟩ := h.read_eq htree hthere
  refine ⟨hkeys _ ((h.stock_ne_none hsought.scope hsought.name).2 hthere), p, ?_⟩
  simpa using hread

theorem Reached.legible {admits : String → Prop} (h : Reached root admits d)
    (hkeys : ∀ v, admits v → Version.HasKey v) : Legible root d := by
  obtain ⟨htree, hneat, -⟩ := h.neat
  refine hneat.legible htree fun e he => ?_
  obtain ⟨payload, hpayload⟩ := Option.ne_none_iff_exists'.1 he
  obtain ⟨-, hdir, -⟩ := stock_eq_some hpayload
  exact hkeys _ (hneat.versions _ _ _ (by rw [← Edition.shelf, hdir]; exact Option.some_ne_none _)).2.2.1

end Hub

namespace Resolver

variable {d : Disk} {root : Path} {caller : String} {reference : Tag} {p : Plugin}

/-- How a stranger's reference is named when it is turned down. -/
def whole (reference : Tag) : Refusal := .pluginAbsent reference.withoutService.format

/-- The slot of a reference is not looked at. -/
theorem plugin_withoutService (d : Disk) (root : Path) (reference : Tag) :
    Hub.plugin d root reference.withoutService = Hub.plugin d root reference := rfl

theorem resolve_foreign (ht : reference.tenant ≠ "") (hf : reference.tenant ≠ caller) :
    resolve d root caller reference = match Hub.plugin d root reference with
      | .ok p => if p.shared then .ok p else refuse (whole reference)
      | .error (.refusal (.versionAbsent _ _)) => refuse (whole reference)
      | .error e => .error e := by
  unfold resolve
  dsimp only
  rw [plugin_withoutService, if_pos (show reference.withoutService.tenant ≠ "" from ht),
    show reference.withoutService.tenant = reference.tenant from rfl]
  rcases Hub.plugin d root reference with (r | b) | p
  · cases r <;> simp [hf, whole]
  · rfl
  · cases hp : p.shared <;> simp [hf, hp, whole]

theorem resolve_own (ht : reference.tenant ≠ "") (hf : reference.tenant = caller) :
    resolve d root caller reference = Hub.plugin d root reference := by
  unfold resolve
  dsimp only
  rw [plugin_withoutService, if_pos (show reference.withoutService.tenant ≠ "" from ht),
    show reference.withoutService.tenant = reference.tenant from rfl]
  rcases Hub.plugin d root reference with (r | b) | p
  · cases r <;> simp [hf, refuse]
  · rfl
  · simp [hf]

theorem resolve_unnamed (ht : reference.tenant = "") :
    resolve d root caller reference =
      if caller = "" then Hub.plugin d root reference
      else match Hub.plugin d root (reference.withTenant caller) with
        | .error (.refusal r) =>
          if r.isAbsence then Hub.plugin d root reference else .error (.refusal r)
        | other => other := by
  unfold resolve
  dsimp only
  rw [plugin_withoutService,
    if_neg (show ¬ reference.withoutService.tenant ≠ "" from fun h => h ht)]
  by_cases hc : caller = ""
  · simp only [hc, ne_eq, not_true_eq_false, if_false, if_true]
  · simp only [hc, ne_eq, not_false_eq_true, if_true, if_false]
    rfl

theorem foreign_absence {r : Refusal} (ht : reference.tenant ≠ "") (hf : reference.tenant ≠ caller)
    (h : resolve d root caller reference = .error (.refusal r)) (ha : r.isAbsence) :
    r = .pluginAbsent reference.qualifiedName ∨ r = whole reference := by
  have htold := Hub.tells_plugin d root reference
  rw [resolve_foreign ht hf] at h
  split at h
  · split at h <;> cases h
    exact .inr rfl
  · cases h
    exact .inr rfl
  · next e hversion hplugin =>
    cases h
    rcases htold r hplugin ha with rfl | ⟨-, rfl⟩
    · exact .inl rfl
    · exact absurd rfl (hversion _ _)

/-- What is told of a stranger's plugin is the same in any two hubs if no version is asked for. -/
theorem unversioned_refusals_agree {d' : Disk} {root' : Path} {r r' : Refusal}
    (ht : reference.tenant ≠ "") (hf : reference.tenant ≠ caller)
    (hversion : reference.version = "")
    (h : resolve d root caller reference = .error (.refusal r)) (ha : r.isAbsence)
    (h' : resolve d' root' caller reference = .error (.refusal r')) (ha' : r'.isAbsence) :
    r = r' := by
  have hwhole : whole reference = .pluginAbsent reference.qualifiedName := by
    simp [whole, Tag.format, Tag.formatParts, Tag.qualifiedName, Tag.withoutService, ht, hversion]
  have hsame {r : Refusal} (h : r = .pluginAbsent reference.qualifiedName ∨ r = whole reference) :
      r = .pluginAbsent reference.qualifiedName := h.elim id fun h => h.trans hwhole
  rw [hsame (foreign_absence ht hf h ha), hsame (foreign_absence ht hf h' ha')]

/-- What a caller gets to see. -/
theorem visible_of_resolve (h : resolve d root caller reference = .ok p) :
    p.tenant = caller ∨ p.tenant = "" ∨ p.shared := by
  by_cases ht : reference.tenant = ""
  · rw [resolve_unnamed ht] at h
    split at h
    · exact .inr (.inl ((Hub.tenant_of_plugin h).trans ht))
    split at h
    · split at h
      · exact .inr (.inl ((Hub.tenant_of_plugin h).trans ht))
      · cases h
    · exact .inl (Hub.tenant_of_plugin h)
  by_cases hf : reference.tenant = caller
  · rw [resolve_own ht hf] at h
    exact .inl ((Hub.tenant_of_plugin h).trans hf)
  · rw [resolve_foreign ht hf] at h
    split at h
    · split at h
      · next hshared =>
        cases h
        exact .inr (.inr hshared)
      · cases h
    · cases h
    · cases h

theorem resolved_of_composition {framework : String} {services : List String}
    {composition : List (Tag × Plugin)}
    (h : Composition.resolve d root caller framework services = .ok composition) :
    ∀ pair ∈ composition, ∃ reference, resolve d root caller reference = .ok pair.2 := by
  obtain ⟨first, pairs, rest, rfl, hfill, -, -, tags, hall⟩ := Composition.parts_of_resolve h
  have hresolved := resolved_of_mem hall
  refine List.forall_mem_cons.2 ⟨hresolved _ List.mem_cons_self, fun pair hpair => ?_⟩
  obtain ⟨resolved, hmem, hsame, -⟩ := Composition.slotted_of_mem hfill pair hpair
  rw [hsame]
  exact hresolved resolved (List.mem_cons_of_mem _ hmem)

/-- A stranger's reference shows a shared plugin, or is told as an absence. -/
theorem foreign_cases (h : Hub.Legible root d) (hsought : Hub.Tag.IsSought reference)
    (ht : reference.tenant ≠ "") (hf : reference.tenant ≠ caller) :
    (∃ p, Hub.plugin d root reference = .ok p ∧ p.shared ∧
      resolve d root caller reference = .ok p) ∨
    ((∀ p, Hub.plugin d root reference = .ok p → ¬ p.shared) ∧
      ∃ text, resolve d root caller reference = .error (.refusal (.pluginAbsent text))) := by
  rw [resolve_foreign ht hf]
  rcases h.plugin_cases hsought with ⟨q, hq⟩ | ⟨r, hr, rfl | ⟨-, rfl⟩⟩
  · rw [hq]
    by_cases hshared : q.shared
    · exact .inl ⟨q, rfl, hshared, if_pos hshared⟩
    · exact .inr ⟨fun p hp => Except.ok.inj hp ▸ hshared, _, if_neg hshared⟩
  all_goals
    rw [hr]
    exact .inr ⟨nofun, _, rfl⟩

/-- A reference that names a tenant is resolved to its plugin there, if the caller may see it. -/
theorem resolve_named_iff (h : Hub.Legible root d) (hsought : Hub.Tag.IsSought reference)
    (ht : reference.tenant ≠ "") : resolve d root caller reference = .ok p ↔
      Hub.plugin d root reference = .ok p ∧ (reference.tenant = caller ∨ p.shared) := by
  by_cases hf : reference.tenant = caller
  · rw [resolve_own ht hf]
    simp [hf]
  rcases foreign_cases h hsought ht hf with ⟨q, hq, hshared, hresolve⟩ | ⟨hhidden, _, hresolve⟩
  · rw [hresolve, hq]
    refine ⟨fun hp => ⟨hp, .inr (Except.ok.inj hp ▸ hshared)⟩, And.left⟩
  · rw [hresolve]
    exact ⟨nofun, fun ⟨hp, hmay⟩ => absurd (hmay.resolve_left hf) (hhidden p hp)⟩

/-- A reference that names no tenant is resolved to the caller's plugin, or else to the system's. -/
theorem resolve_unnamed_iff (h : Hub.Legible root d)
    (hsought : Hub.Tag.IsSought (reference.withTenant caller)) (ht : reference.tenant = "") :
    resolve d root caller reference = .ok p ↔
      (caller ≠ "" ∧ Hub.plugin d root (reference.withTenant caller) = .ok p) ∨
      (Hub.plugin d root reference = .ok p ∧
        (caller = "" ∨ ∀ q, Hub.plugin d root (reference.withTenant caller) ≠ .ok q)) := by
  rw [resolve_unnamed ht]
  by_cases hc : caller = ""
  · simp [hc]
  rcases h.plugin_cases hsought with ⟨q, hq⟩ | ⟨r, hr, habsent⟩
  · simp [hc, hq]
  · simp [hc, hr, Hub.isAbsence_of_absence habsent]

theorem sharing_gate (w : World) (h : Hub.Legible w.broker.hub w.disk) (caller : String) :
    (∀ reference, Hub.Tag.IsSought reference →
      (reference.tenant = "" → Hub.Tag.IsSought (reference.withTenant caller)) →
      (∀ p, resolve w.disk w.broker.hub caller reference = .ok p ↔
        (reference.tenant ≠ "" ∧ Hub.plugin w.disk w.broker.hub reference = .ok p ∧
          (reference.tenant = caller ∨ p.shared)) ∨
        (reference.tenant = "" ∧ caller ≠ "" ∧
          Hub.plugin w.disk w.broker.hub (reference.withTenant caller) = .ok p) ∨
        (reference.tenant = "" ∧ Hub.plugin w.disk w.broker.hub reference = .ok p ∧
          (caller = "" ∨
            ∀ q, Hub.plugin w.disk w.broker.hub (reference.withTenant caller) ≠ .ok q))) ∧
      (reference.tenant ≠ "" → reference.tenant ≠ caller →
        ∀ e, resolve w.disk w.broker.hub caller reference = .error e →
          ∃ text, e = .refusal (.pluginAbsent text))) ∧
    ∀ framework services composition,
      (w.answer (.compose caller framework services)).1 = .ok composition →
      ∀ pair ∈ composition, Names pair.1 pair.2 ∧
        (∃ tag, Hub.plugin w.disk w.broker.hub tag = .ok pair.2) ∧
        (pair.2.tenant = caller ∨ pair.2.tenant = "" ∨ pair.2.shared) := by
  refine ⟨fun reference hsought hcaller => ⟨fun p => ?_, fun ht hf e he => ?_⟩,
    fun framework services composition hcompose pair hpair => ?_⟩
  · by_cases ht : reference.tenant = ""
    · rw [resolve_unnamed_iff h (hcaller ht) ht]
      simp [ht]
    · rw [resolve_named_iff h hsought ht]
      simp [ht]
  · rcases foreign_cases h hsought ht hf with ⟨q, -, -, hresolve⟩ | ⟨-, text, hresolve⟩ <;>
      rw [hresolve] at he <;> cases he
    exact ⟨text, rfl⟩
  · obtain ⟨reference, hresolve⟩ := resolved_of_composition hcompose pair hpair
    obtain ⟨hnames, hlooked, -⟩ := (Composition.resolve_eq_ok hcompose).2 pair hpair
    exact ⟨hnames, hlooked, visible_of_resolve hresolve⟩

section System

open Hub Storeroom

/-- A hub with a framework in the system scope. -/
def offered : Disk := (install ["plugins"] "" ["source"] (bare "3.9")).2

def anyPython (tenant : String) : Tag := ⟨"python", tenant, "", "", name_python ""⟩

theorem legible_offered : Legible ["plugins"] offered :=
  reached_stocked.legible hasKey_of_isThreeNine

/-- What is found there for all tenants, for one, and for one whose name is none for a directory. -/
theorem lookups_in_offered :
    plugin offered ["plugins"] (anyPython "") = .ok (Composition.storedPython "3.9").2 ∧
      plugin offered ["plugins"] (anyPython "alice") =
        .error (.refusal (.pluginAbsent "alice/python")) ∧
      plugin offered ["plugins"] (anyPython ".alice") =
        .error (.refusal (.invalid (.component "namespace" ".alice"))) := by
  decide +kernel

theorem system_plugin_is_seen :
    let w : World := { disk := offered, broker := { hub := ["plugins"], store := ["users"] } }
    Legible w.broker.hub w.disk ∧ Hub.Tag.IsSought (anyPython "") ∧
      Hub.Tag.IsSought (anyPython "alice") ∧
      resolve w.disk w.broker.hub "alice" (anyPython "") =
        .ok (Composition.storedPython "3.9").2 := by
  intro w
  have hsystem : Hub.Tag.IsSought (anyPython "") := ⟨by decide, by decide, by decide, by decide⟩
  have hown : Hub.Tag.IsSought (anyPython "alice") := ⟨by decide, by decide, by decide, by decide⟩
  obtain ⟨hfound, hnone, -⟩ := lookups_in_offered
  refine ⟨legible_offered, hsystem, hown, ?_⟩
  refine (((sharing_gate w legible_offered "alice").1 _ hsystem fun _ => hown).1 _).2
    (.inr (.inr ⟨rfl, hfound, .inr fun q hq => ?_⟩))
  cases hnone.symm.trans hq

/-- A tenant whose name is as long as it is told to be. -/
def drawn (n : Nat) : String := String.ofList (List.replicate n 'n')

theorem utf8ByteSize_drawn (n : Nat) : (drawn n).utf8ByteSize = n := by
  unfold drawn
  induction n with
  | zero => rfl
  | succ n ih =>
    rw [List.replicate_succ', String.ofList_append, String.utf8ByteSize_append, ih]
    rfl

theorem isComponent_drawn (n : Nat) : isComponent (drawn (n + 1)) :=
  isComponent_iff.2 ⟨by simp [drawn], by simp [drawn], by simp [drawn], by
    simp [drawn, List.replicate_succ]⟩

/-- A tenant with a name that is too long is not told to be unknown. -/
theorem resolve_drawn {n : Nat} (hn : Disk.maxName ≤ n) :
    resolve offered ["plugins"] "alice" (anyPython (drawn (n + 1))) =
      .error (.breakage .fileSystem) := by
  have hroot : offered.Has ["plugins"] :=
    reached_stocked.neat.1.has (by simpa [Disk.treeAt] using reached_stocked.neat.2.1.home)
  have hlong : Disk.maxName < (drawn (n + 1)).utf8ByteSize := by
    rw [utf8ByteSize_drawn]
    omega
  have hfound : plugin offered ["plugins"] (anyPython (drawn (n + 1))) =
      .error (.breakage .fileSystem) :=
    plugin_overlong hroot (isComponent_drawn n) (show isComponent "python" by decide) hlong
      (by simp [anyPython, drawn])
  have hforeign : drawn (n + 1) ≠ "alice" := fun heq => by
    rw [heq] at hlong
    revert hlong
    decide
  rw [resolve_foreign (isComponent_iff.1 (isComponent_drawn n)).1 hforeign, hfound]

/-- A caller whose name cannot be that of a directory is turned down before the system scope is
looked at, and so is one who asks for a tenant with a name that is too long. -/
theorem unusable_scopes_are_turned_down :
    Legible ["plugins"] offered ∧
      plugin offered ["plugins"] (anyPython "") = .ok (Composition.storedPython "3.9").2 ∧
      (∀ q, plugin offered ["plugins"] (anyPython ".alice") ≠ .ok q) ∧
      resolve offered ["plugins"] ".alice" (anyPython "") =
        .error (.refusal (.invalid (.component "namespace" ".alice"))) ∧
      isComponent (drawn 256) ∧
      resolve offered ["plugins"] "alice" (anyPython (drawn 256)) =
        .error (.breakage .fileSystem) := by
  obtain ⟨hfound, -, hnone⟩ := lookups_in_offered
  refine ⟨legible_offered, hfound, fun q hq => ?_, ?_, isComponent_drawn 255,
    resolve_drawn (Nat.le_refl 255)⟩
  · cases hnone.symm.trans hq
  · rw [resolve_unnamed rfl, if_neg (by decide),
      show (anyPython "").withTenant ".alice" = anyPython ".alice" from rfl, hnone]
    rfl

end System

section Strangers

open Hub Storeroom

/-- A hub in which another tenant keeps a plugin to itself. -/
def kept : Disk := (install ["plugins"] "bob" ["source"] (bare "3.9")).2

def bobs (version : String) : Tag := ⟨"python", "bob", version, "", name_python version⟩

theorem unversioned_refusals_of_kept : ∃ r r',
    resolve kept ["plugins"] "alice" (bobs "") = .error (.refusal r) ∧ r.isAbsence ∧
      resolve (bare "3.9") ["plugins"] "alice" (bobs "") = .error (.refusal r') ∧ r'.isAbsence ∧
      r = r' := by
  have hkept : resolve kept ["plugins"] "alice" (bobs "") =
      .error (.refusal (.pluginAbsent "bob/python")) := by decide +kernel
  have hbare : resolve (bare "3.9") ["plugins"] "alice" (bobs "") =
      .error (.refusal (.pluginAbsent "bob/python")) := by decide +kernel
  exact ⟨_, _, hkept, rfl, hbare, rfl,
    unversioned_refusals_agree (by decide) (by decide) rfl hkept rfl hbare rfl⟩

/-- With a version, the refusal tells whether the other tenant has the plugin. -/
theorem versioned_refusals_differ :
    resolve (bare "3.9") ["plugins"] "alice" (bobs "9.9") =
        .error (.refusal (.pluginAbsent "bob/python")) ∧
      resolve kept ["plugins"] "alice" (bobs "9.9") =
        .error (.refusal (.pluginAbsent "bob/python:9.9")) ∧
      resolve kept ["plugins"] "alice" (bobs "3.9") =
        .error (.refusal (.pluginAbsent "bob/python:3.9")) := by
  decide +kernel

end Strangers

end Resolver
end AppBroker
