import AppBroker.Proofs.SealedStaging

/-!
# Archives that stay in their directory

An archive is unpacked in the staging directory, member by member, at the places that the members'
names lead to. Zip entries that step back are passed over, so a zip archive stays there whatever it
holds. The members of a tape archive are not looked at like that: one whose name steps back is taken
out where it is named (`Hub.Storeroom.tape_reaches_outside`), and one whose name leads through a link
that was taken out before goes where the link does. If it has none of these it stays in its directory
as well (`Archive.brings_unpack`), and installing it changes nothing but the edition that its manifest
names (`Hub.archive_is_contained`).
-/

namespace AppBroker

/-- A piece of a text that is split is a part of it. -/
theorem infix_of_mem_splitOn {α : Type} [DecidableEq α] {a : α} {xs l : List α} (h : l ∈ xs.splitOn a) :
    l <:+: xs := by
  have hin {ys : List (List α)} (hl : l ∈ ys) : l <:+: [a].intercalate ys := by
    induction ys with
    | nil => cases hl
    | cons y ys ih =>
      cases ys with
      | nil =>
        obtain rfl := List.mem_singleton.1 hl
        simp [List.intercalate]
      | cons z ys =>
        rw [List.intercalate_cons_cons]
        rcases List.mem_cons.1 hl with rfl | hl
        · exact (List.prefix_append _ _).isInfix.trans (List.prefix_append _ _).isInfix
        · exact (ih hl).trans (List.suffix_append _ _).isInfix
  have hjoined : [a].intercalate (xs.splitOn a) = xs := List.intercalate_splitOn a
  exact hjoined ▸ hin h

theorem mem_zip_drop {α : Type} {x y : α} {l : List α} (h : [x, y] <:+: l) :
    (x, y) ∈ l.zip (l.drop 1) := by
  obtain ⟨before, after, rfl⟩ := h
  induction before with
  | nil => simp
  | cons c before ih =>
    cases before with
    | nil => simp
    | cons c' before => exact List.mem_cons_of_mem _ ih

namespace Action

variable {σ α β : Type} {I J K : σ → Prop} {m : Action σ α} {f : Outcome α → Action σ β}

/-- What is done after an action, however that ended. -/
theorem Brings.outcome_bind (hm : m.Brings I J) (hf : ∀ o, (f o).Brings J K) :
    (m.outcome >>= f).Brings I K := fun s hs => hf (m s).1 (m s).2 (hm s hs)

end Action

namespace Archive

open Disk Hub

variable {d d₀ s s' : Disk} {root lead place : Path} {names : List String} {m : Tar.Member}

/-- An entry that is not passed over does not step back. -/
theorem not_mem_namesOf {name : String} (h : staysBelow name = true) : ".." ∉ namesOf name := by
  intro hin
  obtain ⟨piece, hpiece, heq⟩ := List.mem_map.1 (List.mem_filter.1 hin).1
  have hdots : piece = ['.', '.'] := by
    rw [← String.toList_ofList (l := piece), heq]
    rfl
  subst hdots
  have hpair := mem_zip_drop (infix_of_mem_splitOn hpiece)
  simp only [staysBelow, Bool.and_eq_true, Bool.not_eq_true', List.any_eq_false] at h
  exact h.2 _ hpair (by simp)

/-! ## Taking out -/

/-- The directory in which an installation unpacks an archive. -/
def basePath (root : Path) : Path := stagingPath root ++ [extractName]

theorem basePath_append (root names : Path) :
    basePath root ++ names = stagingPath root ++ extractName :: names := by
  simp [basePath]

section Enclosing

variable {I : Disk → Prop} (hI : Enclosing root d₀ I)
include hI

theorem brings_write (hnames : ".." ∉ names) (data : List UInt8) :
    (Disk.update (·.write (basePath root ++ names) data)).Brings I I :=
  brings_update (fun _ h => h) fun _ _ h hm =>
    hI.write h hnames (by rwa [basePath_append] at hm)

theorem brings_makeDirectories (hnames : ".." ∉ names) :
    (Disk.update (·.makeDirectories (basePath root ++ names))).Brings I I :=
  brings_update (fun _ h => h) fun _ _ h hm =>
    hI.makeDirectories h hnames (by rwa [basePath_append] at hm)

theorem brings_ensureDirectory (hnames : ".." ∉ names) :
    (ensureDirectory (basePath root ++ names)).Brings I I := by
  intro s h
  unfold ensureDirectory
  split
  · exact h
  · exact h
  · exact brings_makeDirectories hI hnames s h

theorem brings_ensure (hnames : ".." ∉ names) : (ensure (basePath root ++ names)).Brings I I := by
  intro s h
  unfold ensure
  split
  · exact h
  · exact h
  · exact brings_makeDirectories hI hnames s h

/-- The staging directory itself is there. -/
theorem brings_ensure_staging : (ensure (stagingPath root)).Brings I I := by
  intro s h
  have hhas := (hI.sealed h).has
  have hthere : s.exists? (stagingPath root) = .ok true := by
    rw [exists?, test, stat, locate_self hhas true, ok_bind, hhas.at]
    rfl
  unfold ensure
  rw [hthere]
  exact h

theorem brings_makeDirectory (hnames : ".." ∉ names) :
    (makeDirectory (basePath root ++ names)).Brings I I := by
  refine brings_update (fun _ h => h) fun s s' h hm => ?_
  split at hm
  · cases hm
    exact h
  · rw [basePath_append] at hm
    exact hI.makeDirectory h hnames hm

theorem brings_makeSpecial (hnames : ".." ∉ names) :
    (makeSpecial (basePath root ++ names)).Brings I I := by
  refine brings_update (fun _ h => h) fun s s' h hm => ?_
  cases hl : s.locate (basePath root ++ names) false with
  | error fault => rw [hl] at hm; cases hm
  | ok place =>
    rw [hl, ok_bind] at hm
    rw [basePath_append] at hl
    split at hm <;> cases hm
    next hfree =>
      refine hI.put h hnames hl (fun hdir => hfree ?_) fun _ => nofun
      rw [hdir]
      rfl

/-- A second name is one for something in the staging directory, so it is none for a link. -/
theorem brings_makeSecondName {sourceNames : List String} (hsource : ".." ∉ sourceNames)
    (hnames : ".." ∉ names) :
    (makeSecondName (basePath root ++ sourceNames) (basePath root ++ names)).Brings I I := by
  refine brings_update (fun _ h => h) fun s s' h hm => ?_
  cases hl : s.locate (basePath root ++ sourceNames) false with
  | error fault => rw [hl] at hm; cases hm
  | ok source =>
  cases hl' : s.locate (basePath root ++ names) false with
  | error fault => rw [hl, hl'] at hm; cases hm
  | ok place =>
    rw [hl, hl', ok_bind, ok_bind] at hm
    rw [basePath_append] at hl hl'
    split at hm <;> cases hm
    next e _ hthere hnone =>
      have hsealed := hI.sealed h
      obtain ⟨r, rfl, -⟩ := locate_below hsealed.has hsealed.linkless leadless_extract hsource hl
      refine hI.put h hnames hl' (by simp [hnone]) fun target heq => ?_
      exact hsealed.linkless (extractName :: r) target (by rw [hthere, heq])

/-! ## Zip archives -/

theorem brings_takeEntries (data : List UInt8) (all entries : List Zip.Entry) :
    (takeEntries data (basePath root) all entries).Brings I I := by
  induction entries with
  | nil => exact Action.brings_pure _ fun _ h => h
  | cons e rest ih =>
    rw [takeEntries]
    dsimp only
    split
    swap
    · exact ih
    next hbelow =>
    have hnames := not_mem_namesOf hbelow
    have hlead : ".." ∉ (namesOf e.name).dropLast := fun hin => hnames (List.dropLast_subset _ hin)
    refine .bind ?_ (fun _ h => h) fun _ => ?_
    · split
      · exact brings_ensureDirectory hI hnames
      · exact brings_ensureDirectory hI hlead
    split
    swap
    · exact ih
    refine .given (fun _ h => h) fun packed _ => ?_
    refine .bind (brings_write hI hnames _) (fun _ h => h) fun _ => ?_
    refine .given (fun _ h => h) fun unpacked _ => ?_
    exact .bind (brings_write hI hnames _) (fun _ h => h) fun _ => ih

end Enclosing

/-! ## Tape archives -/

/-- Whether a member is no symbolic link, and if it is a second name then for something below the
directory. -/
def LinksBelow : Tar.Kind → Prop
  | .symbolicLink _ => False
  | .hardLink target => target.toList.head? ≠ some '/' ∧ ".." ∉ namesOf target
  | _ => True

instance : DecidablePred LinksBelow
  | .symbolicLink _ => instDecidableFalse
  | .hardLink _ => inferInstanceAs (Decidable (_ ∧ _))
  | .file _ | .directory | .special => instDecidableTrue

/-- Whether a member goes below the directory that it is taken out to: it does not step back. -/
def GoesBelow (m : Tar.Member) : Prop :=
  m.name.toList.head? ≠ some '/' ∧ ".." ∉ namesOf m.name ∧ LinksBelow m.kind

instance (m : Tar.Member) : Decidable (GoesBelow m) := inferInstanceAs (Decidable (_ ∧ _ ∧ _))

/-- Where such a member goes. -/
theorem memberPlace_below (hm : GoesBelow m)
    (h : memberPlace (basePath root) m.name = .ok (lead, place)) :
    (∃ names, place = basePath root ++ names ∧ ".." ∉ names) ∧
      (lead = stagingPath root ∨ ∃ names, lead = basePath root ++ names ∧ ".." ∉ names) := by
  unfold memberPlace at h
  rw [if_neg hm.1] at h
  dsimp only at h
  split at h <;> cases h
  · exact ⟨⟨[], by simp, by simp⟩, .inl (by rw [basePath, Path.parent, List.dropLast_concat])⟩
  · exact ⟨⟨_, rfl, hm.2.1⟩, .inr ⟨_, rfl, fun hin => hm.2.1 (List.dropLast_subset _ hin)⟩⟩

theorem mem_of_dropWhile {before earlier : List Tar.Member} {found : Tar.Member} {skip : Tar.Member → Bool}
    (h : before.dropWhile skip = found :: earlier) : ∀ m ∈ found :: earlier, m ∈ before := fun _ hm =>
  (List.dropWhile_suffix skip).subset (h ▸ hm)

/-- Whether an archive has no member that would leave its directory. Only tape archives can have one
that is taken out. -/
def IsHarmless (name : String) (data : List UInt8) : Prop :=
  formatOf? name = some .tape → ∀ contents, openTape data = .ok (some contents) →
    ∀ m ∈ contents.members, GoesBelow m

instance (name : String) (data : List UInt8) : Decidable (IsHarmless name data) :=
  if hformat : formatOf? name = some .tape then
    match hopened : openTape data with
    | .ok (some contents) => decidable_of_iff (∀ m ∈ contents.members, GoesBelow m)
        ⟨fun h _ _ hother => by cases hopened.symm.trans hother; exact h, fun h => h hformat _ hopened⟩
    | .ok none => isTrue fun _ _ hother => by cases hopened.symm.trans hother
    | .error _ => isTrue fun _ _ hother => by cases hopened.symm.trans hother
  else isTrue fun htape => absurd htape hformat

section Enclosing

variable {I : Disk → Prop} (hI : Enclosing root d₀ I)
include hI

theorem brings_takeMember {failure : Option Breakage} {all : List Tar.Member} (fuel : Nat)
    (before : List Tar.Member) (m : Tar.Member) (hbefore : ∀ m ∈ before, GoesBelow m) (hm : GoesBelow m)
    (hlead : lead = stagingPath root ∨ ∃ names, lead = basePath root ++ names ∧ ".." ∉ names)
    (hnames : ".." ∉ names) :
    (takeMember (basePath root) failure all lead (basePath root ++ names) fuel before m).Brings I I := by
  induction fuel generalizing before m with
  | zero => exact Action.brings_ofOutcome _ fun _ h => h
  | succ fuel ih =>
    rw [takeMember]
    refine .bind ?_ (fun _ h => h) fun _ => ?_
    · rcases hlead with rfl | ⟨leadNames, rfl, hlead⟩
      · exact brings_ensure_staging hI
      · exact brings_ensure hI hlead
    extract_lets named fallBack orFallBack
    have hkind := hm.2.2
    cases hk : m.kind with
    | symbolicLink target => rw [hk] at hkind; cases hkind
    | directory => exact brings_makeDirectory hI hnames
    | special => exact brings_makeSpecial hI hnames
    | file data =>
      refine .bind (brings_write hI hnames _) (fun _ h => h) fun _ => ?_
      exact .given (fun _ h => h) fun unpacked _ => brings_write hI hnames _
    | hardLink target =>
      rw [hk] at hkind
      obtain ⟨-, htarget⟩ : _ ∧ _ := hkind
      have hfallBack (absence : Action Disk Unit)
          (habsence : absence.Brings I I) :
          (fallBack absence).Brings I I := by
        have hlink : linkNames? m = some (plainNames target, true) := by rw [linkNames?, hk]
        unfold fallBack named
        rw [hlink, Option.bind_some]
        dsimp only
        rw [if_pos rfl]
        split
        · exact Action.brings_ofOutcome _ fun _ h => h
        · next found earlier heq =>
          split at heq <;> cases heq
          next hfound =>
            have hin := mem_of_dropWhile hfound
            exact ih earlier found (fun m hm => hbefore m (hin m (List.mem_cons_of_mem _ hm)))
              (hbefore found (hin found List.mem_cons_self))
        · exact habsence
      dsimp only
      refine brings_look (fun _ h => h) fun there => ?_
      split
      · refine .outcome_bind (brings_makeSecondName hI htarget hnames) fun made => ?_
        split
        · exact Action.brings_pure _ fun _ h => h
        · exact hfallBack _ (Action.brings_pure _ fun _ h => h)
      · exact hfallBack _ (Action.brings_ofOutcome _ fun _ h => h)

theorem brings_takeMembers {failure : Option Breakage} {all : List Tar.Member}
    (before members : List Tar.Member) (hbefore : ∀ m ∈ before, GoesBelow m)
    (hmembers : ∀ m ∈ members, GoesBelow m) :
    (takeMembers (basePath root) failure all before members).Brings I I := by
  induction members generalizing before with
  | nil => exact Action.brings_pure _ fun _ h => h
  | cons m rest ih =>
    have hm := hmembers m List.mem_cons_self
    rw [takeMembers]
    refine .given (fun _ h => h) fun lead hplace => ?_
    obtain ⟨lead, place⟩ := lead
    have hplace : memberPlace (basePath root) m.name = .ok (lead, place) := by
      unfold orBreak at hplace
      split at hplace <;> cases hplace
      assumption
    obtain ⟨⟨names, rfl, hnames⟩, hlead⟩ := memberPlace_below hm hplace
    refine .bind (brings_takeMember hI _ before m hbefore hm hlead hnames) (fun _ h => h) fun _ => ?_
    exact ih (m :: before) (List.forall_mem_cons.2 ⟨hm, hbefore⟩)
      fun m' hm' => hmembers m' (List.mem_cons_of_mem _ hm')

/-- A harmless archive is unpacked in the staging directory, whatever it holds. -/
theorem brings_unpack {shown name : String} {data : List UInt8} (h : IsHarmless name data) :
    (unpack shown name data (basePath root)).Brings I I := by
  unfold unpack
  dsimp only
  cases hformat : formatOf? name with
  | none => exact Action.brings_ofOutcome _ fun _ h => h
  | some format =>
  cases format with
  | zip =>
    refine .whether (fun _ h => h) (fun _ => Action.brings_ofOutcome _ fun _ h => h) fun _ => ?_
    exact .given (fun _ h => h) fun entries _ => brings_takeEntries hI data entries entries
  | tape =>
    refine .given (fun _ h => h) fun opened hopened => ?_
    cases opened with
    | none => exact Action.brings_ofOutcome _ fun _ h => h
    | some contents =>
      refine .bind (brings_takeMembers hI [] contents.members (by simp) (h hformat contents hopened))
        (fun _ h => h) fun _ => ?_
      split
      · exact Action.brings_ofOutcome _ fun _ h => h
      · exact Action.brings_pure _ fun _ h => h

end Enclosing

end Archive

namespace Hub

open Disk Archive

variable {d d₁ s s' : Disk} {root source : Path} {tenant : String}

/-- A manifest that is found where an archive was unpacked is a file in a directory there. -/
theorem Sealed.manifest_cases {manifest : Path} (h : Sealed root d s)
    (hfind : Manifest.find s (basePath root) = .ok manifest) :
    ∃ way data, manifest = stagingPath root ++ extractName :: way ++ [Manifest.fileName] ∧
      (∀ n ∈ extractName :: way, Leadless n) ∧
      s.entry? (stagingPath root ++ extractName :: way) = some .directory ∧
      s.entry? (stagingPath root ++ extractName :: way ++ [Manifest.fileName]) = some (.file data) := by
  obtain ⟨way, rfl, hfile, hway⟩ := Manifest.find_ok hfind
  rw [basePath_append] at hfile ⊢
  have hleadless : ∀ n ∈ extractName :: way, Leadless n := by
    refine List.forall_mem_cons.2 ⟨leadless_extract, ?_⟩
    rcases hway with rfl | ⟨only, names, rfl, hlist, honly⟩
    · simp
    · unfold Disk.list at hlist
      cases hl : s.locate (basePath root) with
      | error fault => rw [hl] at hlist; cases hlist
      | ok place =>
        rw [hl, ok_bind] at hlist
        obtain rfl := h.place_eq (by simpa using leadless_extract) hl
        split at hlist <;> cases hlist
        have hthere := mem_names.1 honly
        rw [List.append_assoc] at hthere
        simpa using (h.clean _ hthere).1 only (by simp)
  obtain ⟨e, hstat, hholds⟩ := stat_of_test hfile
  obtain ⟨place, hl, hentry⟩ := stat_ok hstat
  have hdir := directory_of_locate (h.leadless hleadless) (fun q hq => h.no_link hq) hl
  rw [List.append_assoc] at hl
  obtain rfl := h.place_eq (fun n hn => (List.mem_append.1 hn).elim (hleadless n)
    fun hn => List.mem_singleton.1 hn ▸ Manifest.leadless_fileName) hl
  cases e with
  | directory => cases hholds
  | link target => cases hholds
  | file data => exact ⟨way, data, rfl, hleadless, hdir, by rw [List.append_assoc, hentry]⟩

/-- What an archive was unpacked to becomes the payload. -/
theorem Sealed.moved {way : List String} {data : List UInt8} (h : Sealed root d s)
    (hway : ∀ n ∈ extractName :: way, Leadless n)
    (hdir : s.entry? (stagingPath root ++ extractName :: way) = some .directory)
    (hfile : s.entry? (stagingPath root ++ extractName :: way ++ [Manifest.fileName]) = some (.file data))
    (hm : s.move (stagingPath root ++ extractName :: way) (stagingPath root ++ [payloadName]) = .ok s') :
    Working root d s' ∧ Loaded root data s' := by
  obtain ⟨source, target, hs, ht, rfl⟩ := move_ok hm
  obtain rfl := h.place_eq hway hs
  obtain rfl := h.kept.place_staged isName_payload ht
  have hwork : Working root d (s.carried (stagingPath root ++ extractName :: way)
      (stagingPath root ++ [payloadName])) :=
    (h.toWorking.cut (List.cons_ne_nil _ _)).graft (List.cons_ne_nil _ _) _
  have hin {q : Path} {e : Entry} (he : s.entry? (stagingPath root ++ extractName :: way ++ q) = some e) :=
    carried_inside h.once (by simp) (by simp : stagingPath root ++ [payloadName] ≠ []) he
  refine ⟨hwork, hwork.has, hwork.once, ?_, ?_⟩
  · simpa using hin (q := []) (by simpa using hdir)
  · simpa using hin hfile

/-- A harmless archive is unpacked and its payload is moved, or it is not staged. -/
theorem stage_archive_cases {I : Disk → Prop} (hI : Enclosing root d I) (h : I s)
    (hfile : s.isDirectory source ≠ .ok true)
    (hharmless : ∀ data, s.read source = .ok data → IsHarmless source.name data) :
    (∃ e s', stage (stagingPath root) source s = (.error e, s') ∧ I s') ∨
    ∃ manifest s₁ s', I s₁ ∧ Manifest.find s₁ (basePath root) = .ok manifest ∧
      s₁.move manifest.parent (stagingPath root ++ [payloadName]) = .ok s' ∧
      stage (stagingPath root) source s = (.ok (), s') := by
  cases hdirectory : s.isDirectory source with
  | error e => exact .inl ⟨e, s, look_bind_error hdirectory, h⟩
  | ok isDirectory =>
  obtain rfl : isDirectory = false := by
    cases isDirectory with
    | false => rfl
    | true => exact absurd hdirectory hfile
  have hstage : stage (stagingPath root) source s =
      (look (fun d => orBreak (d.read source)) >>= fun data =>
        unpack source.text source.name data (basePath root) >>= fun _ =>
          look (fun d => Manifest.find d (basePath root)) >>= fun manifest =>
            Disk.update (·.move manifest.parent (stagingPath root ++ [payloadName]))) s := by
    unfold stage
    dsimp only
    rw [look_bind hdirectory, if_neg Bool.false_ne_true]
    rfl
  cases hread : s.read source with
  | error fault =>
    refine .inl ⟨.breakage fault.breakage, s, hstage.trans (look_bind_error ?_), h⟩
    rw [hread]
    rfl
  | ok data =>
  rw [look_bind (a := data) (by rw [hread]; rfl)] at hstage
  have hunpacks : (unpack source.text source.name data (basePath root)).Brings I I :=
    brings_unpack hI (hharmless data hread)
  have hunpack := hunpacks s h
  cases hrun : unpack source.text source.name data (basePath root) s with
  | mk o s₁ =>
  rw [hrun] at hunpack
  cases o with
  | error e => exact .inl ⟨e, s₁, hstage.trans (Action.bind_error hrun), hunpack⟩
  | ok u =>
  rw [Action.bind_ok hrun] at hstage
  cases hfind : Manifest.find s₁ (basePath root) with
  | error e => exact .inl ⟨e, s₁, hstage.trans (look_bind_error hfind), hunpack⟩
  | ok manifest =>
  rw [look_bind hfind] at hstage
  cases hmove : s₁.move manifest.parent (stagingPath root ++ [payloadName]) with
  | error fault =>
    refine .inl ⟨.breakage fault.breakage, s₁, hstage.trans ?_, hunpack⟩
    rw [Disk.update, hmove]
    rfl
  | ok s' => exact .inr ⟨manifest, s₁, s', hunpack, hfind, hmove, hstage.trans (update_ok hmove)⟩

/-- A harmless archive is staged, or it is not; it changes nothing outside of the staging directory. -/
theorem Working.stages_archive (h : Working root d s)
    (hempty : ∀ q, q ≠ [] → s.entry? (stagingPath root ++ q) = none)
    (hfile : s.isDirectory source ≠ .ok true)
    (hharmless : ∀ data, s.read source = .ok data → IsHarmless source.name data) :
    Stages root source d s := by
  have hsealed : Sealed root d s := by
    refine ⟨h, fun q hq => ?_⟩
    by_cases hnil : q = []
    · subst hnil
      rw [List.append_nil, h.has.at]
      exact ⟨by simp, by rintro target ⟨⟩⟩
    · exact absurd (hempty q hnil) hq
  rcases stage_archive_cases Sealed.enclosing hsealed hfile hharmless with ⟨e, s', hstage, hsealed'⟩ |
    ⟨manifest, s₁, s', hsealed₁, hfind, hmove, hstage⟩
  · exact .inl ⟨e, s', hstage, hsealed'.toWorking⟩
  · obtain ⟨way, data, rfl, hway, hdir, hdata⟩ := hsealed₁.manifest_cases hfind
    rw [Path.parent, List.dropLast_concat] at hmove
    obtain ⟨hwork, hload⟩ := hsealed₁.moved hway hdir hdata hmove
    exact .inr ⟨data, s', hstage, hwork, hload⟩

/-- An installation from a harmless archive ends well or undone. -/
theorem Plain.archive_ends (h : Plain root d) (hfree : d.entry? (stagingPath root) = none)
    (hsource : d.isDirectory source ≠ .ok true)
    (hharmless : ∀ data, d.read source = .ok data → IsHarmless source.name data) (tenant : String) :
    Ending root tenant d (install root tenant source d) := by
  refine h.install_ends hfree fun hexists d₁ s hwork hnew hempty => ?_
  obtain ⟨e, hstat, -⟩ := stat_of_test hexists
  have hmore (p : Path) (e : Entry) (hp : d.entry? p = some e) : s.entry? p = some e := by
    rcases hnew p with hsame | ⟨hnone, -⟩
    · rw [hsame, hp]
    · exact absurd (hp.symm.trans hnone) (by simp)
  have hstat' : s.stat source = d.stat source := (stat_more hmore hstat).trans hstat.symm
  refine hwork.stages_archive hempty ?_ fun data hread => hharmless data ?_
  · rwa [isDirectory, test, hstat']
  · rwa [Disk.read, ← hstat']

namespace Storeroom

/-- A field of a header, filled up. -/
def field (size : Nat) (s : String) : List UInt8 :=
  Text.encode s ++ List.replicate (size - (Text.encode s).length) 0

def octal (n : Nat) : String := String.ofList (Nat.toDigits 8 n)

/-- A member of a tape archive. -/
def member (name : String) (data : List UInt8) : List UInt8 :=
  let before := field 100 name ++ field 24 "" ++ field 12 (octal data.length) ++ field 12 ""
  let after := field 356 ""
  let sum := (before ++ Text.encode "        " ++ after).foldl (fun n b => n + b.toNat) 0
  before ++ field 8 (octal sum) ++ after ++ data ++
    List.replicate (Tar.blocks data.length - data.length) 0

def text (version : String) : List UInt8 :=
  Text.encode ("name: python\nversion: \"" ++ version ++ "\"\ncategory: framework\n")

/-- An archive with a manifest and one more member. -/
def archive (name : String) : List UInt8 :=
  member "manifest.yml" (Text.encode "name: python\nversion: \"3.9\"\ncategory: framework\n") ++
    member name [0x65] ++ List.replicate (2 * Tar.blockSize) 0

/-- An empty hub beside such an archive. -/
def packed (name : String) : Disk where
  entries := [(["plugins"], .directory), (["py.tar"], .file (archive name))]

theorem isTree_packed (name : String) : (packed name).IsTree :=
  .of_entries (by simp [packed, Table.keys]) (by
    intro e he
    simp only [packed, List.mem_cons, List.not_mem_nil, or_false] at he
    rcases he with rfl | rfl
    · exact ⟨rfl, by decide⟩
    · refine ⟨rfl, ?_⟩
      show ∀ n ∈ ["py.tar"], IsName n
      decide)

theorem isHarmless_notes : IsHarmless "py.tar" (archive "notes") := by decide +kernel

end Storeroom

end Hub

end AppBroker
