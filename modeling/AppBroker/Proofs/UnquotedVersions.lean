import AppBroker.Proofs.HubInstall
import AppBroker.Proofs.PluginFields
import AppBroker.Proofs.UnquotedWords

/-!
# Versions without quotes

A manifest that gives its version without quotes is read as if the version stood in quotes, so
that no number loses its zeros and no two texts become one version. This holds of every text that
starts with a digit but a day, which is read as a date and refused (`unquoted_version_kept`).
-/

namespace AppBroker.Yaml

/-- Whether a text starts with a digit and has no blank, quote, colon or mark of a path in it. -/
abbrev IsVersionText : List Char → Prop := IsWordOf Text.isDigit [':', '"', '\\', '/', '\ufeff']

/-- The key of a version. -/
def versionKey : List Char := ['v', 'e', 'r', 's', 'i', 'o', 'n']

theorem isWord_versionKey : IsWord versionKey := by decide

/-- A word in double quotes. -/
def quoted (w : List Char) : List Char := '"' :: w ++ ['"']

/-- A text with a line for a version, as it is given there. -/
def withVersion (before value tail : List Char) : List Char :=
  before ++ (versionKey ++ ':' :: ' ' :: (value ++ tail))

/-- Whether a text is a day: four digits, two and two, with dashes between them. -/
def isDay : List Char → Bool
  | [a, b, c, d, '-', e, f, '-', g, h] => [a, b, c, d, e, f, g, h].all Char.isDigit
  | _ => false

theorem startsWord_of_isDigit {ch : Char} (h : Text.isDigit ch = true) : startsWord ch = true := by
  have hblanks : ([' ', '\t', '\n', '\r', '\x85', '\u2028', '\u2029'].all
      fun ch => !Text.isDigit ch) = true := by decide
  have hindicators : (indicators.all fun ch => !Text.isDigit ch) = true := by decide
  by_contra hstart
  simp only [startsWord, Bool.not_eq_true', Bool.not_eq_false, Bool.or_eq_true, decide_eq_true_eq]
    at hstart
  obtain hwhite | hmem := hstart
  · have hmem : ch ∈ [' ', '\t', '\n', '\r', '\x85', '\u2028', '\u2029'] := by
      simpa [isWhite, isBreak, or_assoc] using hwhite
    simpa [h] using List.all_eq_true.1 hblanks ch hmem
  · simpa [h] using List.all_eq_true.1 hindicators ch hmem

theorem IsVersionText.isWord {v : List Char} (h : IsVersionText v) : IsWord v where
  starts := by
    obtain ⟨ch, rest, hv, hch⟩ := h.starts
    exact ⟨ch, rest, hv, startsWord_of_isDigit hch⟩
  inner ch hch := by
    obtain ⟨hwhite, hmarks⟩ := h.inner ch hch
    simp only [List.mem_cons, List.not_mem_nil, or_false, not_or] at hmarks ⊢
    tauto

namespace Suggest

theorem shortNumber?_some {cs rest : List Char} {n : Nat} (h : shortNumber? cs = some (n, rest)) :
    ∃ ds, cs = ds ++ rest ∧ ds.all Char.isDigit = true ∧ (ds.length = 1 ∨ ds.length = 2) := by
  rcases cs with _ | ⟨a, _ | ⟨b, more⟩⟩
  · cases h
  · by_cases ha : a.isDigit
    · simp only [shortNumber?, if_pos ha, Option.some.injEq, Prod.mk.injEq] at h
      exact ⟨[a], by simp [← h.2], by simp [ha], .inl rfl⟩
    · simp [shortNumber?, ha] at h
  · by_cases ha : a.isDigit
    · by_cases hb : b.isDigit
      · simp only [shortNumber?, if_pos ha, if_pos hb, Option.some.injEq, Prod.mk.injEq] at h
        exact ⟨[a, b], by simp [← h.2], by simp [ha, hb], .inr rfl⟩
      · simp only [shortNumber?, if_pos ha, if_neg hb, Option.some.injEq, Prod.mk.injEq] at h
        exact ⟨[a], by simp [← h.2], by simp [ha], .inl rfl⟩
    · simp [shortNumber?, ha] at h

theorem twoDigits?_some {cs rest : List Char} {n : Nat} (h : twoDigits? cs = some (n, rest)) :
    ∃ a b, cs = a :: b :: rest ∧ a.isDigit = true ∧ b.isDigit = true := by
  rcases cs with _ | ⟨a, _ | ⟨b, more⟩⟩
  · cases h
  · cases h
  · by_cases hab : (a.isDigit && b.isDigit) = true
    · simp only [twoDigits?, if_pos hab, Option.some.injEq, Prod.mk.injEq] at h
      rw [Bool.and_eq_true] at hab
      exact ⟨a, b, by rw [h.2], hab⟩
    · simp [twoDigits?, hab] at h

theorem stamp?_some {cs : List Char} {s : Stamp} (h : stamp? cs = some s) (hcolon : ':' ∉ cs) :
    s.time = none ∧ ∃ a b c d month day, cs = a :: b :: c :: d :: '-' :: month ++ '-' :: day ∧
      [a, b, c, d].all Char.isDigit = true ∧ month.all Char.isDigit = true ∧ day.all Char.isDigit = true ∧
      (month.length = 1 ∨ month.length = 2) ∧ (day.length = 1 ∨ day.length = 2) := by
  unfold stamp? at h
  obtain ⟨⟨high, rest⟩, hhigh, h⟩ := Option.bind_eq_some_iff.1 h
  obtain ⟨a, b, hcs, ha, hb⟩ := twoDigits?_some hhigh
  obtain ⟨⟨low, rest⟩, hlow, h⟩ := Option.bind_eq_some_iff.1 h
  obtain ⟨c, d, hrest, hc, hd⟩ := twoDigits?_some hlow
  dsimp only at h
  split at h
  swap
  · cases h
  obtain ⟨⟨month, rest⟩, hmonth, h⟩ := Option.bind_eq_some_iff.1 h
  obtain ⟨months, hmore, hmonths, hmonthWidth⟩ := shortNumber?_some hmonth
  dsimp only at h
  split at h
  swap
  · cases h
  obtain ⟨⟨day, rest⟩, hday, h⟩ := Option.bind_eq_some_iff.1 h
  obtain ⟨days, hlast, hdays, hdayWidth⟩ := shortNumber?_some hday
  rw [hrest, hmore, hlast] at hcs
  dsimp only at h
  split at h
  · cases h
    refine ⟨rfl, a, b, c, d, months, days, ?_, ?_, hmonths, hdays, hmonthWidth, hdayWidth⟩
    · simpa using hcs
    · simp [ha, hb, hc, hd]
  · rename_i c' more
    exfalso
    -- Whatever stands between the day and the time, a colon comes after the hour.
    have hhour {r r' : List Char} {n : Nat} (hr : ∀ x ∈ r, x ∈ more)
        (hhour : shortNumber? r = some (n, ':' :: r')) : False := by
      obtain ⟨ds, rfl, -, -⟩ := shortNumber?_some hhour
      refine hcolon ?_
      have hcolon := hr ':' (by simp)
      simp [hcs, hcolon]
    split at h
    · obtain ⟨r, hr, h⟩ := Option.bind_eq_some_iff.1 h
      cases hr
      obtain ⟨⟨hour, r'⟩, hread, h⟩ := Option.bind_eq_some_iff.1 h
      dsimp only at h
      split at h
      · exact hhour (fun _ hx => hx) hread
      · cases h
    split at h
    · obtain ⟨r, hr, h⟩ := Option.bind_eq_some_iff.1 h
      cases hr
      obtain ⟨⟨hour, r'⟩, hread, h⟩ := Option.bind_eq_some_iff.1 h
      dsimp only at h
      split at h
      · exact hhour (fun _ hx => (List.dropWhile_sublist _).mem hx) hread
      · cases h
    · cases h

/-- A timestamp without a time is a day. -/
theorem isDay_of_isStamp {cs : List Char} (h : isStamp cs = true) (hcolon : ':' ∉ cs) :
    isDay cs = true := by
  unfold isStamp at h
  split at h
  swap
  · cases h
  rename_i s hs
  obtain ⟨htime, a, b, c, d, month, day, rfl, hyear, hmonth, hday, hmonthWidth, hdayWidth⟩ :=
    stamp?_some hs hcolon
  rw [htime] at h
  have hlength : month.length + day.length = 4 := by
    have := of_decide_eq_true h
    simp only [List.length_append, List.length_cons] at this
    omega
  obtain ⟨e, f, rfl⟩ := List.length_eq_two.1 (show month.length = 2 by omega)
  obtain ⟨g, i, rfl⟩ := List.length_eq_two.1 (show day.length = 2 by omega)
  simp only [List.all_cons, List.all_nil, Bool.and_true, Bool.and_eq_true] at hyear hmonth hday
  simp [isDay, hyear, hmonth, hday]

end Suggest

/-- A version is text, unless it is a day. -/
theorem IsVersionText.suggested {v : List Char} (h : IsVersionText v) (hday : isDay v = false) :
    suggested false v = .str := by
  obtain ⟨ch, rest, hv, hch⟩ := h.starts
  have hwords : ((Suggest.truthWords ++ Suggest.nullWords ++ ["<<", "="]).all fun word =>
      word.toList.head?.all fun ch => !Text.isDigit ch) = true := by decide
  have hword {word : String} (hmem : word ∈ Suggest.truthWords ++ Suggest.nullWords ++ ["<<", "="]) :
      String.ofList v ≠ word := by
    rintro rfl
    have hhead := List.all_eq_true.1 hwords _ hmem
    rw [String.toList_ofList, hv] at hhead
    simp [hch] at hhead
  have hcolon : ':' ∉ v := fun hmem => (h.inner ':' hmem).2 (by simp)
  have hstamp : Suggest.isStamp v = false := by
    by_contra hstamp
    rw [Suggest.isDay_of_isStamp (by simpa using hstamp) hcolon] at hday
    cases hday
  unfold Yaml.suggested
  dsimp only
  rw [if_neg fun hmem => hword (by simp [hmem]) rfl, if_neg fun hmem => hword (by simp [hmem]) rfl,
    if_neg (hword (by simp)), if_neg (hword (by simp)), hstamp]
  rfl

/-- A version can name a directory. -/
theorem IsVersionText.isComponent {v : List Char} (h : IsVersionText v) :
    Hub.isComponent (String.ofList v) = true := by
  obtain ⟨ch, rest, hv, hch⟩ := h.starts
  have hmarks : (v.any fun ch => ch = '/' || ch = '\\') = false := by
    rw [List.any_eq_false]
    intro ch hmem
    have := (h.inner ch hmem).2
    simp only [List.mem_cons, List.not_mem_nil, or_false, not_or] at this
    simp [this]
  have hdot : ch ≠ '.' := by
    rintro rfl
    exact absurd hch (by decide)
  unfold Hub.isComponent Manifest.isHidden
  rw [String.toList_ofList, hmarks]
  simp [hv, hdot]

end AppBroker.Yaml

namespace AppBroker

open Yaml

namespace Manifest

/-- Whether a manifest gives a text as its version. -/
def gives (cs v : List Char) : Bool :=
  match Yaml.load false cs with
  | .ok (.map entries) =>
    match Value.get? entries "version" with
    | some (.text s) => s = String.ofList v
    | _ => false
  | _ => false

theorem versionText_text {s : String} (h : s ≠ "") : Plugin.versionText (.text s) = .fit s := by
  show Field.nonEmptyText (.text s) = _
  unfold Field.nonEmptyText
  split
  · rename_i heq
    cases heq
  · rename_i heq _
    cases heq
    exact absurd rfl h
  · rfl

theorem version_of_fit {entries : List (Value × Value)} {p : Plugin} {s : String}
    (h : Plugin.ofFields entries = .fit p) (hs : Value.get? entries "version" = some (.text s)) :
    p.version = s := by
  have hread := (Plugin.ofFields_eq_fit_iff.1 h).version
  rw [Field.required, Plugin.get?_withDefaultDisplayName (by decide), hs] at hread
  by_cases hempty : s = ""
  · subst hempty
    cases hread
  · dsimp only at hread
    rw [versionText_text hempty] at hread
    cases hread
    rfl

theorem version_of_gives {cs v : List Char} {path : Path} {p : Plugin} (hgives : gives cs v = true)
    (h : ofText path cs = .ok p) : p.version = String.ofList v := by
  unfold gives at hgives
  unfold ofText at h
  split at hgives
  swap
  · cases hgives
  rename_i entries hload
  split at hgives
  swap
  · cases hgives
  rename_i s hversion
  rw [← of_decide_eq_true hgives]
  rw [hload] at h
  dsimp only at h
  split at h
  · cases h
  split at h
  · rename_i q hfit
    cases h
    rw [← Value.get?_erase_ne (show "version" ≠ "namespace" by decide),
      ← Value.get?_erase_ne (show "version" ≠ "path" by decide)] at hversion
    show q.version = s
    exact version_of_fit hfit hversion
  · cases h

end Manifest

/-- A manifest with a line for a version without quotes is read as if the version stood in quotes,
if that is a manifest and says this version, which starts with a digit and is no day: the plugin has
the version as it is written. It can name a directory, and no plugin of another version has the same
one. -/
theorem unquoted_version_kept {d : Disk} {dir path : Path} {before v tail : List Char} {p : Plugin}
    (hv : IsVersionText v) (hday : isDay v = false) (hbefore : LineBegins before)
    (htail : EndsLine tail) (hfind : Manifest.find d dir = .ok path)
    (htext : d.readText path = .ok (withVersion before v tail))
    (hgives : Manifest.gives (withVersion before (quoted v) tail) v = true)
    (hvalid : Manifest.ofText path (withVersion before (quoted v) tail) = .ok p) :
    Manifest.read d dir = .ok p ∧ p.version = String.ofList v ∧
      Hub.checkComponent "version" p.version = .ok () ∧
      ∀ w q tenant, q.version = String.ofList w → w ≠ v →
        (Hub.editionOf tenant q).shelf ≠ (Hub.editionOf tenant p).shelf := by
  have hversion := Manifest.version_of_gives hgives hvalid
  have hread : Yaml.read false (withVersion before v tail) =
      Yaml.read false (withVersion before (quoted v) tail) := by
    have hsame := read_unquoted hbefore isWord_versionKey (by decide) hv.isWord (hv.suggested hday) htail
    simpa [withVersion, quoted] using hsame
  refine ⟨?_, hversion, ?_, fun w q tenant hq hne hshelf => ?_⟩
  · rw [Manifest.read, hfind]
    show (d.readText path >>= fun cs => Manifest.ofText path cs) = _
    rw [htext]
    show Manifest.ofText path _ = _
    rw [← hvalid, Manifest.ofText, Manifest.ofText, Yaml.load, Yaml.load, hread]
  · have hcomponent : Hub.isComponent p.version = true := by
      rw [hversion]
      exact hv.isComponent
    rw [Hub.checkComponent, if_pos hcomponent]
  · have hsame : q.version = p.version := by
      simp only [Hub.Edition.shelf, Hub.editionOf, List.cons.injEq, and_true] at hshelf
      exact hshelf.2.2
    rw [hq, hversion] at hsame
    exact hne (String.ofList_injective hsame)

namespace UnquotedVersions

/-- The line before the version. -/
def before : List Char := ['n', 'a', 'm', 'e', ':', ' ', 'p', 'y', '\n']

/-- The line behind the version. -/
def tail : List Char := "\ncategory: framework\n".toList

/-- A directory with a manifest that gives a version. -/
def disk (value : List Char) : Disk where
  entries := [(["source"], .directory),
    (["source", "manifest.yml"], .file (Text.encode (String.ofList (withVersion before value tail))))]

/-- The plugin that the manifest describes. -/
def plugin (version : String) : Plugin where
  name := "py"
  displayName := "py"
  version := version
  category := .framework
  path := "<root>/source"

theorem lineBegins_before : LineBegins before :=
  LineBegins.nil.line (k := ['n', 'a', 'm', 'e']) (w := ['p', 'y']) (by decide) (by decide)
    (by decide)

theorem endsLine_tail : EndsLine tail := by decide

/-- A zero at the end of a version is kept. -/
theorem trailing_zero_is_kept :
    IsVersionText ['1', '.', '1', '0'] ∧ isDay ['1', '.', '1', '0'] = false ∧ LineBegins before ∧
      EndsLine tail ∧ Manifest.read (disk ['1', '.', '1', '0']) ["source"] = .ok (plugin "1.10") ∧
      ∀ w q tenant, q.version = String.ofList w → w ≠ ['1', '.', '1', '0'] →
        (Hub.editionOf tenant q).shelf ≠ (Hub.editionOf tenant (plugin "1.10")).shelf := by
  have hv : IsVersionText ['1', '.', '1', '0'] := by decide +kernel
  have hfind : Manifest.find (disk ['1', '.', '1', '0']) ["source"] = .ok ["source", "manifest.yml"] := by
    decide +kernel
  have hgives : Manifest.gives (withVersion before (quoted ['1', '.', '1', '0']) tail)
      ['1', '.', '1', '0'] = true := by decide +kernel
  have hvalid : Manifest.ofText ["source", "manifest.yml"]
      (withVersion before (quoted ['1', '.', '1', '0']) tail) = .ok (plugin "1.10") := by decide +kernel
  obtain ⟨hread, -, -, hshelf⟩ := unquoted_version_kept hv rfl lineBegins_before endsLine_tail hfind
    (by decide +kernel) hgives hvalid
  exact ⟨hv, rfl, lineBegins_before, endsLine_tail, hread, hshelf⟩

/-- A day is no text: a manifest that is valid with its version in quotes is refused without, and
where the calendar has no such day, reading it breaks off. -/
theorem day_is_refused :
    IsVersionText "2024-01-02".toList ∧ LineBegins before ∧ EndsLine tail ∧
      Manifest.read (disk (quoted "2024-01-02".toList)) ["source"] = .ok (plugin "2024-01-02") ∧
      Manifest.read (disk "2024-01-02".toList) ["source"] =
        refuse (.manifest (.unfit "<root>/source/manifest.yml" [⟨["version"], .notText⟩])) ∧
      Manifest.read (disk (quoted "2024-13-45".toList)) ["source"] = .ok (plugin "2024-13-45") ∧
      Manifest.read (disk "2024-13-45".toList) ["source"] = fail .badValue := by
  refine ⟨by decide +kernel, lineBegins_before, endsLine_tail, ?_, ?_, ?_, ?_⟩ <;> decide +kernel

end UnquotedVersions

end AppBroker
