import AppBroker.Manifest
import AppBroker.Proofs.PluginFields

/-!
# Display names

A plugin is shown under the first text that is not empty among the two spellings of the display name
and the name. A manifest that leaves both spellings open is as good as one without them. Both hold as
long as the spelling that is looked at first is left out or says something
(`Manifest.first_name_is_shown`): where it is there and empty, nothing is shown, and where it is null
the manifest is refused.
-/

namespace AppBroker

namespace Value

variable {entries : List (Value × Value)} {key other s : String} {v : Value}

/-- The text that a value gives, unless it is empty; bytes give the text that they encode. -/
def fullText? : Value → Option String
  | text s => if s = "" then none else some s
  | illFormed shown => some shown
  | bytes data => if data.isEmpty then none else String.fromUTF8? (ByteArray.mk data.toArray)
  | _ => none

/-- Whether a value is null or an empty text. -/
def isBlank : Value → Bool
  | null => true
  | text s => s = ""
  | bytes data => data.isEmpty
  | _ => false

theorem fullText?_of_truthy (h : Field.text v = .fit s) (htruthy : v.isTruthy = true) :
    fullText? v = some s := by
  cases v with
  | text t =>
    cases h
    exact if_neg (of_decide_eq_true htruthy)
  | illFormed t =>
    cases h
    rfl
  | bytes data =>
    have hdata : data.isEmpty = false := by simpa [isTruthy] using htruthy
    simp only [Field.text] at h
    split at h
    · cases h
      simpa [fullText?, hdata] using ‹_›
    · cases h
  | _ => cases h

theorem fullText?_of_not_truthy (h : v.isTruthy = false) : fullText? v = none := by
  cases v with
  | text t => exact if_pos (by simpa [isTruthy] using h)
  | bytes data => exact if_pos (by simpa [isTruthy] using h)
  | illFormed t => cases h
  | _ => rfl

/-- Of the texts just the empty ones are blank. -/
theorem isBlank_of_fit (h : Field.text v = .fit s) : v.isBlank = !v.isTruthy := by
  cases v with
  | text t => simp [isBlank, isTruthy]
  | bytes data => simp [isBlank, isTruthy]
  | illFormed t => rfl
  | _ => cases h

theorem not_isTruthy_of_isBlank (h : v.isBlank = true) : v.isTruthy = false := by
  cases v with
  | text t => simpa [isBlank, isTruthy] using h
  | bytes data => simpa [isBlank, isTruthy] using h
  | null => rfl
  | _ => cases h

/-- A blank value is read as an empty text, unless it is null. -/
theorem text_of_isBlank (h : v.isBlank = true) (hnull : v ≠ .null) : Field.text v = .fit "" := by
  cases v with
  | text t =>
    obtain rfl : t = "" := of_decide_eq_true h
    rfl
  | bytes data =>
    obtain rfl : data = [] := List.isEmpty_iff.1 h
    rfl
  | null => exact absurd rfl hnull
  | _ => cases h

theorem text_of_nonEmptyText (h : Field.nonEmptyText v = .fit s) :
    Field.text v = .fit s ∧ v.isTruthy = true := by
  cases v with
  | text t =>
    by_cases ht : t = ""
    · subst ht
      cases h
    · exact ⟨by simpa [Field.nonEmptyText, Field.text, ht] using h, by simpa [isTruthy] using ht⟩
  | bytes data =>
    rcases data with _ | ⟨b, data⟩
    · cases h
    · refine ⟨?_, rfl⟩
      unfold Field.nonEmptyText at h
      split at h
      · cases h
      · cases h
      · exact h
  | _ => cases h

theorem erase_comm (entries : List (Value × Value)) (key other : String) :
    erase (erase entries key) other = erase (erase entries other) key := by
  unfold erase
  simp only [List.filter_filter, Bool.and_comm]

theorem hasTextKeys_erase : hasTextKeys (erase entries key) = hasTextKeys entries := by
  induction entries with
  | nil => rfl
  | cons entry rest ih =>
    obtain ⟨k, v⟩ := entry
    unfold hasTextKeys erase at ih ⊢
    cases k with
    | text t => by_cases ht : t = key <;> simp_all
    | _ => simp_all

end Value

namespace Plugin

variable {entries : List (Value × Value)} {p : Plugin} {s : String} {v : Value}

/-- The keys of what a plugin may be shown under, the first one first. -/
def nameKeys : List String := ["display-name", "display_name", "name"]

/-- The first text that is not empty under these keys. -/
def firstName? (entries : List (Value × Value)) : Option String :=
  nameKeys.findSome? fun key => (Value.get? entries key).bind Value.fullText?

theorem firstName?_congr {entries' : List (Value × Value)}
    (h : ∀ key ∈ nameKeys, Value.get? entries key = Value.get? entries' key) :
    firstName? entries = firstName? entries' := by
  simp only [nameKeys, List.forall_mem_cons] at h
  simp only [firstName?, nameKeys, List.findSome?_cons, List.findSome?_nil, h]

/-- Whether a key is not there, or nothing but null or an empty text is under it. -/
def leavesOpen (entries : List (Value × Value)) (key : String) : Bool :=
  (Value.get? entries key).all Value.isBlank

/-- Entries without both spellings of the display name. -/
def withoutDisplayName (entries : List (Value × Value)) : List (Value × Value) :=
  Value.erase (Value.erase entries "display-name") "display_name"

theorem get?_withoutDisplayName {key : String} (halias : key ≠ displayAlias) (hkey : key ≠ displayKey) :
    Value.get? (withoutDisplayName entries) key = Value.get? entries key :=
  (Value.get?_erase_ne hkey).trans (Value.get?_erase_ne halias)

theorem displayName?_of_alias (h : Value.get? entries displayAlias = some v) :
    displayName? (withDefaultDisplayName entries) = (Field.text v).at displayAlias := by
  rw [displayName?, get?_withDefaultDisplayName (by decide), h]

theorem not_hasDisplayName_of_leavesOpen {key : String} (h : leavesOpen entries key = true) :
    hasDisplayName entries key = false := by
  unfold leavesOpen at h
  unfold hasDisplayName
  split
  · rename_i v hv
    rw [hv] at h
    exact Value.not_isTruthy_of_isBlank h
  · rfl

/-- Without a display name the name is read in its place. -/
theorem displayName?_of_unnamed (halias : Value.get? entries displayAlias = none)
    (hkey : hasDisplayName entries displayKey = false) :
    displayName? (withDefaultDisplayName entries) =
      (Field.text ((Value.get? entries "name").getD (.text ""))).at displayKey := by
  have hdefault : withDefaultDisplayName entries =
      Value.insert entries (.text displayKey) ((Value.get? entries "name").getD (.text "")) := by
    unfold withDefaultDisplayName
    rw [if_neg (by simp [hasDisplayName, halias] at hkey ⊢; simp [hkey])]
  rw [displayName?, get?_withDefaultDisplayName (by decide), halias, hdefault, Field.optional,
    Value.get?_insert_self]

theorem name_of_read (h : IsReadFrom (withDefaultDisplayName entries) p) :
    ∃ name, Value.get? entries "name" = some name ∧ Field.text name = .fit p.name ∧
      name.fullText? = some p.name := by
  obtain ⟨name, hname, hnamed⟩ := Field.required_fit h.name
  rw [get?_withDefaultDisplayName (by decide)] at hname
  obtain ⟨htext, htruthy⟩ := Value.text_of_nonEmptyText hnamed
  exact ⟨name, hname, htext, Value.fullText?_of_truthy htext htruthy⟩

/-- The name is the last of the names. -/
theorem firstName?_of_read (h : IsReadFrom (withDefaultDisplayName entries) p) :
    firstName? entries = ((Value.get? entries displayAlias).bind Value.fullText?).or
      (((Value.get? entries displayKey).bind Value.fullText?).or (some p.name)) := by
  obtain ⟨name, hname, -, hfull⟩ := name_of_read h
  rw [firstName?, nameKeys, ← displayAlias, ← displayKey]
  simp only [List.findSome?_cons, hname, Option.bind_some, hfull]
  cases (Value.get? entries displayAlias).bind Value.fullText? <;>
    cases (Value.get? entries displayKey).bind Value.fullText? <;> rfl

/-- What is under the spelling that is looked at first is shown, be it empty. -/
theorem shown_under_alias (h : IsReadFrom (withDefaultDisplayName entries) p)
    (halias : Value.get? entries displayAlias = some v) :
    (v.isBlank = false → v.fullText? = some p.displayName) ∧ (v.isBlank = true → p.displayName = "") := by
  have hshown := h.displayName
  rw [displayName?_of_alias halias] at hshown
  have htext := Checked.fit_of_at hshown
  refine ⟨fun hfull => Value.fullText?_of_truthy htext ?_, fun hblank => ?_⟩
  · simpa [Value.isBlank_of_fit htext] using hfull
  · have hnull : v ≠ .null := by
      rintro rfl
      cases htext
    exact Checked.fit.inj (htext.symm.trans (Value.text_of_isBlank hblank hnull))

theorem shown_under_key (h : IsReadFrom (withDefaultDisplayName entries) p)
    (halias : Value.get? entries displayAlias = none) (hkey : hasDisplayName entries displayKey = true) :
    (Value.get? entries displayKey).bind Value.fullText? = some p.displayName := by
  have hdefault : withDefaultDisplayName entries = entries := by
    rw [withDefaultDisplayName, hkey, Bool.true_or, if_pos rfl]
  have hshown := h.displayName
  rw [displayName?, hdefault, halias] at hshown
  unfold hasDisplayName at hkey
  split at hkey
  · rename_i v hv
    have htext : Field.text v = .fit p.displayName := by
      rw [Field.optional, hv] at hshown
      exact Checked.fit_of_at hshown
    rw [hv, Option.bind_some, Value.fullText?_of_truthy htext hkey]
  · cases hkey

theorem shown_under_name (h : IsReadFrom (withDefaultDisplayName entries) p)
    (halias : Value.get? entries displayAlias = none) (hkey : hasDisplayName entries displayKey = false) :
    (Value.get? entries displayKey).bind Value.fullText? = none ∧ p.displayName = p.name := by
  constructor
  · unfold hasDisplayName at hkey
    split at hkey
    · rename_i v hv
      rw [hv, Option.bind_some, Value.fullText?_of_not_truthy hkey]
    · rename_i hv
      rw [hv, Option.bind_none]
  · obtain ⟨name, hname, htext, -⟩ := name_of_read h
    have hshown := h.displayName
    rw [displayName?_of_unnamed halias hkey, hname, Option.getD_some, htext] at hshown
    exact (Checked.fit.inj hshown).symm

/-- What a plugin is shown under: the first text, unless the spelling that is looked at first is
there and empty. -/
theorem displayName_of_fit (h : ofFields entries = .fit p) :
    ((Value.get? entries displayAlias).any Value.isBlank = false →
      firstName? entries = some p.displayName) ∧
    ((Value.get? entries displayAlias).any Value.isBlank = true → p.displayName = "") := by
  have hread := ofFields_eq_fit_iff.1 h
  rw [firstName?_of_read hread]
  cases halias : Value.get? entries displayAlias with
  | some v =>
    obtain ⟨hfull, hblank⟩ := shown_under_alias hread halias
    refine ⟨fun hsome => ?_, hblank⟩
    rw [Option.bind_some, hfull hsome]
    rfl
  | none =>
    refine ⟨fun _ => ?_, nofun⟩
    rw [Option.bind_none, Option.none_or]
    cases hkey : hasDisplayName entries displayKey with
    | true =>
      rw [shown_under_key hread halias hkey]
      rfl
    | false =>
      obtain ⟨hnone, hname⟩ := shown_under_name hread halias hkey
      rw [hnone, Option.none_or, hname]

/-- Entries that leave both spellings open give a plugin if they do so without them, unless the
spelling that is looked at first is null. -/
theorem ofFields_of_unnamed (halias : leavesOpen entries displayAlias = true)
    (hkey : leavesOpen entries displayKey = true)
    (h : ofFields (withoutDisplayName entries) = .fit p) :
    ((∃ q, ofFields entries = .fit q) ↔ Value.get? entries displayAlias ≠ some .null) ∧
      (Value.get? entries displayAlias = none → ofFields entries = .fit p) := by
  have hread := ofFields_eq_fit_iff.1 h
  have hsame (key : String) (halias : key ≠ displayAlias) (hkey : key ≠ displayKey) :
      Value.get? (withDefaultDisplayName entries) key =
        Value.get? (withDefaultDisplayName (withoutDisplayName entries)) key := by
    rw [get?_withDefaultDisplayName hkey, get?_withDefaultDisplayName hkey,
      get?_withoutDisplayName halias hkey]
  have hrenamed {s : String} (hshown : displayName? (withDefaultDisplayName entries) = .fit s) :
      ofFields entries = .fit { p with displayName := s } :=
    ofFields_eq_fit_iff.2 (hread.renamed hsame hshown)
  cases hgiven : Value.get? entries displayAlias with
  | some v =>
    refine ⟨⟨?_, fun hnull => ?_⟩, nofun⟩
    · rintro ⟨q, hq⟩ heq
      have hshown := (ofFields_eq_fit_iff.1 hq).displayName
      rw [displayName?_of_alias hgiven, Option.some.inj heq] at hshown
      cases hshown
    · rw [leavesOpen, hgiven] at halias
      have htext := Value.text_of_isBlank halias fun hv => hnull (congrArg some hv)
      exact ⟨_, hrenamed ((displayName?_of_alias hgiven).trans (congrArg _ htext))⟩
  | none =>
    have hunnamed : displayName? (withDefaultDisplayName entries) = .fit p.displayName := by
      have hshown := hread.displayName
      rw [displayName?_of_unnamed ?_ ?_, get?_withoutDisplayName (by decide) (by decide)] at hshown
      · rw [displayName?_of_unnamed hgiven (not_hasDisplayName_of_leavesOpen hkey), hshown]
      · exact (Value.get?_erase_ne (by decide)).trans Value.get?_erase_self
      · rw [hasDisplayName, show Value.get? (withoutDisplayName entries) displayKey = none from
          Value.get?_erase_self]
    have hp := hrenamed hunnamed
    exact ⟨⟨fun _ => nofun, fun _ => ⟨_, hp⟩⟩, fun _ => hp⟩

end Plugin

namespace Manifest

variable {d : Disk} {dir path : Path} {entries : List (Value × Value)} {p : Plugin}

/-- The fields of a plugin that a mapping has: where the plugin lies is not for it to say. -/
def fieldsOf (entries : List (Value × Value)) : List (Value × Value) :=
  Value.erase (Value.erase entries "namespace") "path"

/-- Reads a plugin from the mapping of its manifest. -/
def ofEntries (path : Path) (entries : List (Value × Value)) : Outcome Plugin :=
  if !Value.hasTextKeys (fieldsOf entries) then fail .wrongType
  else match Plugin.ofFields (fieldsOf entries) with
    | .fit p => .ok { p with path := path.parent.text }
    | .unfit issues => refuse (.manifest (.unfit path.text issues))

theorem ofEntries_eq_ok_iff : ofEntries path entries = .ok p ↔
    Value.hasTextKeys entries = true ∧
      ∃ q, Plugin.ofFields (fieldsOf entries) = .fit q ∧ p = { q with path := path.parent.text } := by
  have hkeys : Value.hasTextKeys (fieldsOf entries) = Value.hasTextKeys entries :=
    Value.hasTextKeys_erase.trans Value.hasTextKeys_erase
  unfold ofEntries
  rw [hkeys]
  cases Value.hasTextKeys entries with
  | false => simp [fail]
  | true =>
    cases Plugin.ofFields (fieldsOf entries) with
    | fit q => simp [eq_comm]
    | unfit issues => simp [refuse]

theorem get?_fieldsOf {key : String} (htenant : key ≠ "namespace") (hpath : key ≠ "path") :
    Value.get? (fieldsOf entries) key = Value.get? entries key :=
  (Value.get?_erase_ne hpath).trans (Value.get?_erase_ne htenant)

theorem firstName?_fieldsOf : Plugin.firstName? (fieldsOf entries) = Plugin.firstName? entries := by
  refine Plugin.firstName?_congr fun key hkey => get?_fieldsOf ?_ ?_ <;>
  · rintro rfl
    revert hkey
    decide

theorem leavesOpen_fieldsOf {key : String} (htenant : key ≠ "namespace") (hpath : key ≠ "path") :
    Plugin.leavesOpen (fieldsOf entries) key = Plugin.leavesOpen entries key := by
  rw [Plugin.leavesOpen, Plugin.leavesOpen, get?_fieldsOf htenant hpath]

theorem fieldsOf_withoutDisplayName :
    fieldsOf (Plugin.withoutDisplayName entries) = Plugin.withoutDisplayName (fieldsOf entries) := by
  unfold fieldsOf Plugin.withoutDisplayName
  rw [Value.erase_comm _ "display_name", Value.erase_comm _ "display-name",
    Value.erase_comm _ "display_name", Value.erase_comm _ "display-name"]

/-- Whether the manifest of a directory lies at a path and is a mapping. -/
structure Describes (d : Disk) (dir path : Path) (entries : List (Value × Value)) : Prop where
  found : find d dir = .ok path
  loaded : ∃ cs, d.readText path = .ok cs ∧ Yaml.load false cs = .ok (.map entries)

theorem Describes.read_eq (h : Describes d dir path entries) : read d dir = ofEntries path entries := by
  obtain ⟨cs, hcs, hload⟩ := h.loaded
  rw [read, h.found, ok_bind, hcs, ok_bind, ofText, hload]
  rfl

/-- A plugin is read from a mapping. -/
theorem exists_describes (h : read d dir = .ok p) : ∃ path entries, Describes d dir path entries := by
  unfold read at h
  cases hfind : find d dir with
  | error e =>
    rw [hfind] at h
    cases h
  | ok path =>
  rw [hfind, ok_bind] at h
  cases htext : d.readText path with
  | error e =>
    rw [htext] at h
    cases h
  | ok cs =>
  rw [htext, ok_bind] at h
  unfold ofText at h
  split at h
  · cases h
  · cases h
  · exact ⟨path, _, hfind, cs, htext, ‹_›⟩
  · cases h

/-- What is accepted is a mapping. Its plugin is shown under the first text that is not empty among
the two spellings of the display name and the name, and a mapping that leaves both spellings open is
accepted if it is so without them, as the same plugin. Both hold just if the first spelling is not
there or says something: where it is there and empty nothing is shown, and where it is null the
mapping is not accepted. -/
theorem first_name_is_shown (d : Disk) (dir : Path) :
    (∀ p, read d dir = .ok p → ∃ path entries, Describes d dir path entries) ∧
    ∀ path entries, Describes d dir path entries →
      (∀ p, read d dir = .ok p →
        ((Value.get? entries "display-name").any Value.isBlank = false →
          Plugin.firstName? entries = some p.displayName) ∧
        ((Value.get? entries "display-name").any Value.isBlank = true → p.displayName = "")) ∧
      ∀ p, Plugin.leavesOpen entries "display-name" = true →
        Plugin.leavesOpen entries "display_name" = true →
        ofEntries path (Plugin.withoutDisplayName entries) = .ok p →
          ((∃ q, read d dir = .ok q) ↔ Value.get? entries "display-name" ≠ some .null) ∧
          (Value.get? entries "display-name" = none → read d dir = .ok p) := by
  refine ⟨fun p => exists_describes, fun path entries hdescribes => ?_⟩
  rw [hdescribes.read_eq]
  refine ⟨fun p hp => ?_, fun p halias hkey hwithout => ?_⟩
  · obtain ⟨-, q, hq, rfl⟩ := ofEntries_eq_ok_iff.1 hp
    have hshown := Plugin.displayName_of_fit hq
    rwa [firstName?_fieldsOf, get?_fieldsOf (by decide) (by decide)] at hshown
  · obtain ⟨hkeys, q, hq, rfl⟩ := ofEntries_eq_ok_iff.1 hwithout
    rw [Plugin.withoutDisplayName, Value.hasTextKeys_erase, Value.hasTextKeys_erase] at hkeys
    rw [fieldsOf_withoutDisplayName] at hq
    have haccepted := Plugin.ofFields_of_unnamed
      ((leavesOpen_fieldsOf (by decide) (by decide)).trans halias)
      ((leavesOpen_fieldsOf (by decide) (by decide)).trans hkey) hq
    rw [get?_fieldsOf (by decide) (by decide)] at haccepted
    refine ⟨⟨?_, fun hnull => ?_⟩, fun hnone => ?_⟩
    · rintro ⟨r, hr⟩
      obtain ⟨-, r', hr', -⟩ := ofEntries_eq_ok_iff.1 hr
      exact haccepted.1.1 ⟨r', hr'⟩
    · obtain ⟨r, hr⟩ := haccepted.1.2 hnull
      exact ⟨_, ofEntries_eq_ok_iff.2 ⟨hkeys, r, hr, rfl⟩⟩
    · exact ofEntries_eq_ok_iff.2 ⟨hkeys, q, haccepted.2 hnone, rfl⟩

namespace DisplayNames

/-- A manifest with some lines about the display name. -/
def manifest (lines : String) : List Char :=
  "name: py\nversion: 3\ncategory: service\n".toList ++ lines.toList

/-- A directory with such a manifest. -/
def disk (lines : String) : Disk where
  entries := [(["source"], .directory),
    (["source", "manifest.yml"], .file (Text.encode (String.ofList (manifest lines))))]

/-- The plugin that the manifest describes. -/
def plugin (displayName : String) : Plugin where
  name := "py"
  displayName := displayName
  version := "3"
  category := .service
  path := "<root>/source"

/-- The mapping that the manifest is. -/
def mapping (lines : String) : List (Value × Value) :=
  match Yaml.load false (manifest lines) with
  | .ok (.map entries) => entries
  | _ => []

theorem describes_mapping {lines : String} (hfind : find (disk lines) ["source"] = .ok ["source", fileName])
    (htext : (disk lines).readText ["source", fileName] = .ok (manifest lines))
    (hmapping : (mapping lines).isEmpty = false) :
    Describes (disk lines) ["source"] ["source", fileName] (mapping lines) := by
  refine ⟨hfind, manifest lines, htext, ?_⟩
  unfold mapping at hmapping ⊢
  split at hmapping
  · rename_i entries hload
    rw [hload]
  · cases hmapping

/-- The second spelling is read where the first is not there, and where it is null the name is. -/
theorem second_spelling_is_read :
    Describes (disk "display_name: Py\n") ["source"] ["source", fileName]
        (mapping "display_name: Py\n") ∧
      read (disk "display_name: Py\n") ["source"] = .ok (plugin "Py") ∧
      Plugin.firstName? (mapping "display_name: Py\n") = some "Py" ∧
    Describes (disk "display_name:\n") ["source"] ["source", fileName] (mapping "display_name:\n") ∧
      Plugin.leavesOpen (mapping "display_name:\n") "display-name" = true ∧
      Plugin.leavesOpen (mapping "display_name:\n") "display_name" = true ∧
      ofEntries ["source", fileName] (Plugin.withoutDisplayName (mapping "display_name:\n")) =
        .ok (plugin "py") ∧
      read (disk "display_name:\n") ["source"] = .ok (plugin "py") := by
  obtain ⟨hfind, htext, hmapping, hread, hblank⟩ :
      find (disk "display_name: Py\n") ["source"] = .ok ["source", fileName] ∧
        (disk "display_name: Py\n").readText ["source", fileName] = .ok (manifest "display_name: Py\n") ∧
        (mapping "display_name: Py\n").isEmpty = false ∧
        ofEntries ["source", fileName] (mapping "display_name: Py\n") = .ok (plugin "Py") ∧
        (Value.get? (mapping "display_name: Py\n") "display-name").any Value.isBlank = false := by
    decide +kernel
  have hnamed := describes_mapping hfind htext hmapping
  rw [← hnamed.read_eq] at hread
  have hfirst := (((first_name_is_shown _ _).2 _ _ hnamed).1 _ hread).1 hblank
  obtain ⟨hfind, htext, hmapping, halias, hkey, hwithout, hnone⟩ :
      find (disk "display_name:\n") ["source"] = .ok ["source", fileName] ∧
        (disk "display_name:\n").readText ["source", fileName] = .ok (manifest "display_name:\n") ∧
        (mapping "display_name:\n").isEmpty = false ∧
        Plugin.leavesOpen (mapping "display_name:\n") "display-name" = true ∧
        Plugin.leavesOpen (mapping "display_name:\n") "display_name" = true ∧
        ofEntries ["source", fileName] (Plugin.withoutDisplayName (mapping "display_name:\n")) =
          .ok (plugin "py") ∧
        (Value.get? (mapping "display_name:\n") "display-name").isNone = true := by
    decide +kernel
  have hopen := describes_mapping hfind htext hmapping
  exact ⟨hnamed, hread, hfirst, hopen, halias, hkey, hwithout,
    (((first_name_is_shown _ _).2 _ _ hopen).2 _ halias hkey hwithout).2
      (Option.isNone_iff_eq_none.1 hnone)⟩

/-- Where the first spelling is there and empty nothing is shown, though the manifest says a name, and
where it is null the manifest is refused, though it is accepted without this line. -/
theorem empty_spelling_hides_name :
    read (disk "") ["source"] = .ok (plugin "py") ∧
      read (disk "display-name: ''\n") ["source"] = .ok (plugin "") ∧
      Plugin.firstName? (mapping "display-name: ''\n") = some "py" ∧
      read (disk "display-name:\n") ["source"] =
        refuse (.manifest (.unfit "<root>/source/manifest.yml" [⟨["display-name"], .notText⟩])) := by
  decide +kernel

end DisplayNames

end Manifest

end AppBroker
