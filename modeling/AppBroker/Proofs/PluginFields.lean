import AppBroker.Plugin
import AppBroker.Proofs.RealMoments

/-!
# Fields of plugins

A mapping is a plugin just when each field can be read from it by itself
(`Plugin.ofFields_eq_fit_iff`). What is written or left out under one key changes nothing under the
others.
-/

namespace AppBroker

namespace Value

variable {entries : List (Value × Value)} {key other : String} {v : Value}

theorem get?_erase_ne (h : other ≠ key) : get? (erase entries key) other = get? entries other := by
  unfold get? erase
  rw [List.find?_filter]
  refine congrArg (Option.map (·.2)) (congrArg (List.find? · entries) (funext fun entry => ?_))
  rcases entry with ⟨k, v⟩
  cases k <;> simp
  rintro rfl
  exact h

theorem get?_erase_self : get? (erase entries key) key = none := by
  unfold get? erase
  rw [Option.map_eq_none_iff, List.find?_eq_none]
  rintro ⟨k, v⟩ hmem
  have hkept := (List.mem_filter.1 hmem).2
  cases k <;> simp_all

theorem eq_of_sameKey_text {k : Value} (h : sameKey k (.text key) = true) : k = .text key := by
  unfold sameKey at h
  cases k with
  | real x => cases hx : x.toInt? <;> simp [keyNumber?, hx] at h
  | _ => simp_all [keyNumber?]

theorem get?_insert_ne (h : other ≠ key) : get? (insert entries (.text key) v) other = get? entries other := by
  induction entries with
  | nil => simp [insert, get?, h.symm]
  | cons entry rest ih =>
    obtain ⟨k, u⟩ := entry
    unfold insert
    split
    · rename_i hsame
      obtain rfl := eq_of_sameKey_text hsame
      simp [get?, h.symm]
    · simp only [get?, List.find?_cons] at ih ⊢
      split
      · rfl
      · exact ih

theorem sameKey_text_self : sameKey (.text key) (.text key) = true := by
  simp [sameKey, keyNumber?]

theorem get?_insert_self : get? (insert entries (.text key) v) key = some v := by
  induction entries with
  | nil => simp [insert, get?]
  | cons entry rest ih =>
    obtain ⟨k, u⟩ := entry
    unfold insert
    split
    · rename_i hsame
      obtain rfl := eq_of_sameKey_text hsame
      simp [get?]
    · rename_i hsame
      have hk : k ≠ .text key := by
        rintro rfl
        exact hsame sameKey_text_self
      simp only [get?, List.find?_cons] at ih ⊢
      split
      · rename_i heq
        cases k <;> simp_all
      · exact ih

end Value

theorem Checked.fit_of_at {α : Type} {step : String} {c : Checked α} {a : α}
    (h : c.at step = .fit a) : c = .fit a := by
  cases c <;> cases h
  rfl

theorem Field.required_fit {α : Type} {entries : List (Value × Value)} {key : String} {a : α}
    {read : Reader α} (h : required entries key read = .fit a) :
    ∃ v, Value.get? entries key = some v ∧ read v = .fit a := by
  unfold required at h
  split at h
  · exact ⟨_, ‹_›, Checked.fit_of_at h⟩
  · cases h

namespace Plugin

variable {entries entries' : List (Value × Value)} {p : Plugin} {key : String}

/-- Whether every field of a plugin is read from entries. -/
structure IsReadFrom (entries : List (Value × Value)) (p : Plugin) : Prop where
  name : Field.required entries "name" Field.nonEmptyText = .fit p.name
  displayName : displayName? entries = .fit p.displayName
  version : Field.required entries "version" versionText = .fit p.version
  category : Field.required entries "category" category? = .fit p.category
  shared : Field.optional entries "shared" false Field.boolean = .fit p.shared
  endpoints : Field.optional entries "endpoints" []
    (Field.sequence (Field.record Endpoint.ofFields)) = .fit p.endpoints
  description : Field.optional entries "description" "" Field.text = .fit p.description
  vendor : Field.optional entries "vendor" "" Field.text = .fit p.vendor
  tenant : Field.optional entries "namespace" "" Field.text = .fit p.tenant
  path : Field.optional entries "path" "" Field.text = .fit p.path

/-- A plugin is read just when each of its fields is. -/
theorem ofFields_eq_fit_iff :
    ofFields entries = .fit p ↔ IsReadFrom (withDefaultDisplayName entries) p := by
  constructor
  · intro h
    unfold ofFields at h
    obtain ⟨_, _, hplaced, hpath, rfl⟩ := Checked.seq_fit h
    obtain ⟨_, _, howned, htenant, rfl⟩ := Checked.seq_fit hplaced
    obtain ⟨_, _, hsold, hvendor, rfl⟩ := Checked.seq_fit howned
    obtain ⟨_, _, hdescribed, hdescription, rfl⟩ := Checked.seq_fit hsold
    obtain ⟨_, _, hreached, hendpoints, rfl⟩ := Checked.seq_fit hdescribed
    obtain ⟨_, _, hopened, hshared, rfl⟩ := Checked.seq_fit hreached
    obtain ⟨_, _, hsorted, hcategory, rfl⟩ := Checked.seq_fit hopened
    obtain ⟨_, _, hversioned, hversion, rfl⟩ := Checked.seq_fit hsorted
    obtain ⟨_, _, hentitled, hshown, rfl⟩ := Checked.seq_fit hversioned
    obtain ⟨_, _, hmk, hname, rfl⟩ := Checked.seq_fit hentitled
    cases hmk
    exact ⟨hname, hshown, hversion, hcategory, hshared, hendpoints, hdescription, hvendor, htenant,
      hpath⟩
  · intro h
    unfold ofFields
    dsimp only
    rw [h.name, h.displayName, h.version, h.category, h.shared, h.endpoints, h.description, h.vendor,
      h.tenant, h.path]
    rfl

theorem get?_withDefaultDisplayName (h : key ≠ displayKey) :
    Value.get? (withDefaultDisplayName entries) key = Value.get? entries key := by
  unfold withDefaultDisplayName
  split
  · rfl
  · exact Value.get?_insert_ne h

/-- Entries that differ in the display name give the same plugin but for that. -/
theorem IsReadFrom.renamed {s : String} (h : IsReadFrom entries p)
    (hsame : ∀ key, key ≠ displayAlias → key ≠ displayKey →
      Value.get? entries' key = Value.get? entries key)
    (hshown : displayName? entries' = .fit s) :
    IsReadFrom entries' { p with displayName := s } := by
  have hrequired {α : Type} {key : String} {read : Field.Reader α} (halias : key ≠ displayAlias)
      (hkey : key ≠ displayKey) : Field.required entries' key read = Field.required entries key read := by
    rw [Field.required, Field.required, hsame key halias hkey]
  have hoptional {α : Type} {key : String} {default : α} {read : Field.Reader α}
      (halias : key ≠ displayAlias) (hkey : key ≠ displayKey) :
      Field.optional entries' key default read = Field.optional entries key default read := by
    rw [Field.optional, Field.optional, hsame key halias hkey]
  exact {
    name := (hrequired (by decide) (by decide)).trans h.name
    displayName := hshown
    version := (hrequired (by decide) (by decide)).trans h.version
    category := (hrequired (by decide) (by decide)).trans h.category
    shared := (hoptional (by decide) (by decide)).trans h.shared
    endpoints := (hoptional (by decide) (by decide)).trans h.endpoints
    description := (hoptional (by decide) (by decide)).trans h.description
    vendor := (hoptional (by decide) (by decide)).trans h.vendor
    tenant := (hoptional (by decide) (by decide)).trans h.tenant
    path := (hoptional (by decide) (by decide)).trans h.path }

end Plugin

end AppBroker
