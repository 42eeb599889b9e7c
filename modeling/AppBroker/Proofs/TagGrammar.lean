import AppBroker.Proofs.ReadBack

/-!
# The grammar of tags

`Tag.parse` reads exactly the texts that `Tag.format` writes for tags without marks in their parts,
and gives the tag that was written: every text is the written form of at most one such tag, which is
the tag that is read from it, and a text that is none is refused under its own name. A text is put
together again from the pieces that it was split into, on each side of the slash and then as a
whole.
-/

namespace AppBroker

/-- A text that is split is its pieces with the mark between them. -/
theorem eq_of_splitOn {α : Type} [DecidableEq α] {a : α} {xs : List α} {pieces : List (List α)}
    (h : xs.splitOn a = pieces) : xs = [a].intercalate pieces := by
  rw [← h, List.intercalate_splitOn]

theorem eq_of_splitOn_one {α : Type} [DecidableEq α] {a : α} {xs l : List α}
    (h : xs.splitOn a = [l]) : xs = l := by
  simpa using eq_of_splitOn h

theorem eq_of_splitOn_two {α : Type} [DecidableEq α] {a : α} {xs l m : List α}
    (h : xs.splitOn a = [l, m]) : xs = l ++ a :: m := by
  simpa [List.intercalate] using eq_of_splitOn h

theorem eq_of_splitOn_three {α : Type} [DecidableEq α] {a : α} {xs l m n : List α}
    (h : xs.splitOn a = [l, m, n]) : xs = l ++ a :: (m ++ a :: n) := by
  simpa [List.intercalate] using eq_of_splitOn h

namespace Tag

/-- A name and a version are written as they were read. -/
theorem versioned_eq_ok {cs name version : List Char} (h : versioned cs = .ok (name, version)) :
    name ≠ [] ∧ cs = if version = [] then name else name ++ ':' :: version := by
  unfold versioned at h
  split at h
  · rename_i n hn
    split at h <;> cases h
    exact ⟨‹_›, by simp [eq_of_splitOn_one hn]⟩
  · rename_i n v hn
    split at h
    · cases h
    · rename_i hname
      split at h
      · cases h
      · rename_i hversion
        cases h
        exact ⟨hname, by rw [if_neg hversion]; exact eq_of_splitOn_two hn⟩
  · cases h

/-- A service and a tenant are written as they were read. -/
theorem inScope_eq_ok {cs service tenant : List Char} (h : inScope cs = .ok (service, tenant)) :
    tenant ≠ [] ∧ cs = if service = [] then tenant else service ++ ':' :: tenant := by
  unfold inScope at h
  split at h
  · rename_i t ht
    simp only [pure_bind] at h
    split at h <;> cases h
    exact ⟨‹_›, by simp [eq_of_splitOn_one ht]⟩
  · rename_i s t ht
    split at h
    · cases h
    · rename_i hservice
      simp only [pure_bind] at h
      split at h <;> cases h
      exact ⟨‹_›, by rw [if_neg hservice]; exact eq_of_splitOn_two ht⟩
  · split at h <;> cases h
  · cases h

/-- The parts that a text was split into are written as that text. -/
theorem split_eq_ok {cs name tenant version service : List Char}
    (h : split cs = .ok (name, tenant, version, service)) :
    name ≠ [] ∧ cs =
      let versioned := if version = [] then name else name ++ ':' :: version
      if tenant ≠ [] then
        (if service = [] then tenant else service ++ ':' :: tenant) ++ '/' :: versioned
      else if service ≠ [] then service ++ ':' :: (name ++ ':' :: version)
      else versioned := by
  unfold split at h
  split at h
  · cases h
  split at h
  · rename_i whole hwhole
    obtain rfl := eq_of_splitOn_one hwhole
    split at h
    · rename_i s n v hparts
      split at h
      · cases h
      · rename_i hservice
        split at h <;> cases h
        exact ⟨‹_›, by simpa [hservice] using eq_of_splitOn_three hparts⟩
    · cases hv : versioned cs with
      | error flaw => rw [hv] at h; cases h
      | ok parts =>
        rw [hv] at h
        cases h
        simpa using versioned_eq_ok hv
  · rename_i head rest hsides
    cases hs : inScope head with
    | error flaw => rw [hs] at h; cases h
    | ok scope =>
      cases hv : versioned rest with
      | error flaw => rw [hs, hv] at h; cases h
      | ok parts =>
        rw [hs, hv] at h
        cases h
        obtain ⟨htenant, hhead⟩ := inScope_eq_ok hs
        obtain ⟨hname, hrest⟩ := versioned_eq_ok hv
        refine ⟨hname, ?_⟩
        rw [eq_of_splitOn_two hsides, hhead, hrest]
        simp [htenant]
  · cases h

/-- A text that was read is what the tag is written as. -/
theorem format_of_parse {text : String} {t : Tag} (h : parse text = .ok t) : t.format = text :=
  String.toList_inj.1 (by rw [toList_format, (split_eq_ok (parse_eq_ok h)).2])

/-- A text is read as a tag, or it is refused under its own name. -/
theorem parse_cases (text : String) :
    (∃ t, parse text = .ok t) ∨ ∃ flaw, parse text = refuse (.malformedTag text flaw) := by
  unfold parse
  split
  · rename_i flaw _
    exact .inr ⟨flaw, rfl⟩
  · rename_i name tenant version service hsplit
    have hname : String.ofList name ≠ "" := by
      intro hempty
      exact (split_eq_ok hsplit).1 (by simpa using congrArg String.toList hempty)
    exact .inl ⟨_, by rw [ofParts, dif_neg hname]⟩

/-- A text is read as a tag exactly if it is the written form of that tag and none of the tag's
parts has a mark; every other text is refused under its own name. So a tag reads back exactly if
its parts are without marks, and a text that is read is written again as it was. -/
theorem parse_inverts_format (text : String) :
    (∀ t, parse text = .ok t ↔ t.name ≠ "" ∧ t.IsUnmarked ∧ t.format = text) ∧
      ((∃ t : Tag, t.name ≠ "" ∧ t.IsUnmarked ∧ t.format = text) ∨
        ∃ flaw, parse text = refuse (.malformedTag text flaw)) ∧
      (∀ t : Tag, parse t.format = .ok t ↔ t.IsUnmarked) ∧
      ((parse text).map format = .ok text ∨
        ∃ flaw, parse text = refuse (.malformedTag text flaw)) := by
  have hread {s : String} {t : Tag} :
      parse s = .ok t ↔ t.name ≠ "" ∧ t.IsUnmarked ∧ t.format = s := by
    constructor
    · intro h
      exact ⟨t.name_ne_empty, isUnmarked_of_parse h, format_of_parse h⟩
    · rintro ⟨-, h, rfl⟩
      exact parse_format h
  refine ⟨fun t => hread, ?_, fun t => ⟨isUnmarked_of_parse, parse_format⟩, ?_⟩
  · rcases parse_cases text with ⟨t, h⟩ | hflaw
    · exact .inl ⟨t, hread.1 h⟩
    · exact .inr hflaw
  · rcases parse_cases text with ⟨t, h⟩ | hflaw
    · exact .inl (by rw [h, Except.map, format_of_parse h])
    · exact .inr hflaw

end Tag

end AppBroker
