/-!
# Tables

A table maps keys to values and remembers the order in which its keys came. Writing a key that is
there keeps its place, and writing a new one puts it last.
-/

namespace AppBroker

/-- Pairs of keys and values, oldest key first. -/
abbrev Table (κ α : Type) := List (κ × α)

namespace Table

variable {κ α : Type} [DecidableEq κ]

/-- The value under a key. -/
def get? : Table κ α → κ → Option α
  | [], _ => none
  | (k, a) :: t, key => if k = key then some a else get? t key

/-- Writes a value in the place of the key, or last. -/
def insert : Table κ α → κ → α → Table κ α
  | [], key, value => [(key, value)]
  | (k, a) :: t, key, value => if k = key then (key, value) :: t else (k, a) :: insert t key value

/-- Takes a key away. -/
def erase (t : Table κ α) (key : κ) : Table κ α :=
  t.filter fun entry => entry.1 ≠ key

/-- Whether a key is there. -/
def contains (t : Table κ α) (key : κ) : Bool := (t.get? key).isSome

/-- The keys, oldest first. -/
def keys (t : Table κ α) : List κ := t.map (·.1)

/-- The values, oldest key first. -/
def values (t : Table κ α) : List α := t.map (·.2)

@[simp] theorem get?_nil (key : κ) : get? ([] : Table κ α) key = none := rfl

theorem get?_insert (t : Table κ α) (key k : κ) (value : α) :
    (t.insert key value).get? k = if key = k then some value else t.get? k := by
  induction t with
  | nil => simp [insert, get?]
  | cons entry t ih =>
    obtain ⟨k', a⟩ := entry
    by_cases hk : k' = key
    · subst hk; simp only [insert, if_true, get?]; split <;> rfl
    · by_cases hj : k' = k
      · subst hj; simp [insert, hk, get?, Ne.symm hk]
      · simp [insert, hk, get?, hj, ih]

theorem get?_erase (t : Table κ α) (key k : κ) :
    (t.erase key).get? k = if key = k then none else t.get? k := by
  induction t with
  | nil => simp [erase, get?]
  | cons entry t ih =>
    obtain ⟨k', a⟩ := entry
    unfold erase at ih ⊢
    by_cases hk : k' = key
    · subst hk
      by_cases hj : k' = k <;> simp_all [get?]
    · by_cases hj : k' = k
      · subst hj; simp [hk, get?, Ne.symm hk]
      · simpa [hk, get?, hj] using ih

theorem contains_iff_mem_keys (t : Table κ α) (key : κ) : t.contains key ↔ key ∈ t.keys := by
  induction t with
  | nil => simp [contains, keys]
  | cons entry t ih =>
    obtain ⟨k, a⟩ := entry
    unfold contains keys at ih ⊢
    by_cases hk : k = key
    · subst hk; simp [get?]
    · simpa [get?, hk, Ne.symm hk] using ih

theorem get?_eq_some_iff {t : Table κ α} (h : t.keys.Nodup) (key : κ) (a : α) :
    t.get? key = some a ↔ (key, a) ∈ t := by
  induction t with
  | nil => simp
  | cons entry t ih =>
    obtain ⟨k, b⟩ := entry
    obtain ⟨hk, ht⟩ := List.nodup_cons.1 h
    unfold get?
    split
    · rename_i heq
      subst heq
      have hnot : (k, a) ∉ t := fun hm => hk (List.mem_map.2 ⟨(k, a), hm, rfl⟩)
      simp [hnot, eq_comm]
    · rename_i hne
      rw [ih ht]
      simp [Ne.symm hne]

theorem mem_keys_insert (t : Table κ α) (key k : κ) (value : α) :
    k ∈ (t.insert key value).keys ↔ k = key ∨ k ∈ t.keys := by
  induction t with
  | nil => simp [insert, keys]
  | cons entry t ih =>
    obtain ⟨k', a⟩ := entry
    unfold keys at ih ⊢
    by_cases hk : k' = key
    · subst hk; simp [insert]
    · simp only [insert, hk, if_false, List.map_cons, List.mem_cons, ih]
      grind

theorem nodup_keys_insert {t : Table κ α} (h : t.keys.Nodup) (key : κ) (value : α) :
    (t.insert key value).keys.Nodup := by
  induction t with
  | nil => simp [insert, keys]
  | cons entry t ih =>
    obtain ⟨k, a⟩ := entry
    obtain ⟨hk, ht⟩ := List.nodup_cons.1 h
    unfold insert
    split
    · rename_i heq
      subst heq
      exact h
    · rename_i hne
      refine List.nodup_cons.2 ⟨fun hmem => ?_, ih ht⟩
      rcases (mem_keys_insert t key k value).1 hmem with heq | hmem
      · exact hne heq
      · exact hk hmem

theorem mem_of_mem_insert {t : Table κ α} {key : κ} {value : α} {entry : κ × α}
    (h : entry ∈ t.insert key value) : entry = (key, value) ∨ entry ∈ t := by
  induction t with
  | nil => simpa [insert] using h
  | cons first t ih =>
    obtain ⟨k, a⟩ := first
    unfold insert at h
    split at h
    · exact (List.mem_cons.1 h).imp_right (List.mem_cons_of_mem _)
    · rcases List.mem_cons.1 h with rfl | h
      · exact .inr List.mem_cons_self
      · exact (ih h).imp_right (List.mem_cons_of_mem _)

/-- Writing a key leaves the rest of the table as it is. -/
theorem filter_insert {keep : κ → Bool} {key : κ} (h : keep key = false) (value : α)
    (t : Table κ α) :
    (t.insert key value).filter (fun entry => keep entry.1) =
      t.filter fun entry => keep entry.1 := by
  induction t with
  | nil => simp [insert, h]
  | cons first t ih =>
    obtain ⟨k, a⟩ := first
    unfold insert
    split
    · rename_i heq
      simp [heq, h]
    · rw [List.filter_cons, List.filter_cons, ih]

theorem mem_keys_erase (t : Table κ α) (key k : κ) :
    k ∈ (t.erase key).keys ↔ k ≠ key ∧ k ∈ t.keys := by
  simp only [keys, erase, List.mem_map, List.mem_filter, decide_eq_true_eq]
  grind

end Table

end AppBroker
