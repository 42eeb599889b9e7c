import AppBroker.Text.Blank
import AppBroker.Text.Digit
import Mathlib.Data.List.Induction

/-!
# Numerals

Decimal digits of any scripts write a number, one after the other (`Text.Writes`). A text of digits is
read as the number that they write if all of them are decimal and there are not too many
(`Text.numeral_eq_number_iff`). No digit is a blank, so trimming leaves digits alone
(`Text.IsPadded.trimWhile_eq`).
-/

namespace AppBroker.Text

variable {c : Char} {cs ds : List Char} {n : Nat}

/-- Whether decimal digits write a number: the first one is the most significant. -/
inductive Writes : List Char → Nat → Prop where
  | digit {c : Char} {d : Nat} (h : decimalValue? c = some d) : Writes [c] d
  | more {cs : List Char} {n : Nat} {c : Char} {d : Nat} (hcs : Writes cs n)
      (h : decimalValue? c = some d) : Writes (cs ++ [c]) (10 * n + d)

theorem ofDigits_concat (digits : List Nat) (d : Nat) :
    ofDigits (digits ++ [d]) = 10 * ofDigits digits + d := by
  rw [ofDigits, ofDigits, List.foldl_append]
  rfl

theorem mapM_concat_eq_some {digits : List Nat} : (cs ++ [c]).mapM decimalValue? = some digits ↔
    ∃ before d, cs.mapM decimalValue? = some before ∧ decimalValue? c = some d ∧
      digits = before ++ [d] := by
  rw [List.mapM_append, List.mapM_cons, List.mapM_nil]
  cases cs.mapM decimalValue? <;> cases decimalValue? c <;> simp [eq_comm]

theorem writes_iff :
    Writes cs n ↔ cs ≠ [] ∧ ∃ digits, cs.mapM decimalValue? = some digits ∧ ofDigits digits = n := by
  constructor
  · intro h
    induction h with
    | @digit c d h =>
      exact ⟨List.cons_ne_nil _ _, [d], by simp [h], by simp [ofDigits]⟩
    | @more cs n c d hcs h ih =>
      obtain ⟨-, digits, hdigits, rfl⟩ := ih
      exact ⟨by simp, digits ++ [d], mapM_concat_eq_some.2 ⟨digits, d, hdigits, h, rfl⟩,
        ofDigits_concat digits d⟩
  · rintro ⟨hne, digits, hdigits, rfl⟩
    induction cs using List.reverseRecOn generalizing digits with
    | nil => exact absurd rfl hne
    | append_singleton cs c ih =>
      obtain ⟨before, d, hbefore, hd, rfl⟩ := mapM_concat_eq_some.1 hdigits
      rw [ofDigits_concat]
      by_cases hcs : cs = []
      · subst hcs
        cases hbefore
        simpa [ofDigits] using Writes.digit hd
      · exact .more (ih hcs _ hbefore) hd

theorem Writes.ne_nil (h : Writes cs n) : cs ≠ [] := (writes_iff.1 h).1

theorem isDigit_of_isDecimal (h : isDecimal c = true) : isDigit c = true := by
  rw [isDigit, h, Bool.true_or]

/-- A text is a number if it is made of decimal digits. -/
theorem exists_writes_iff : (∃ n, Writes cs n) ↔ cs ≠ [] ∧ ∀ c ∈ cs, isDecimal c = true := by
  have hmap : (∃ digits, cs.mapM decimalValue? = some digits) ↔ ∀ c ∈ cs, isDecimal c = true := by
    induction cs with
    | nil => exact ⟨fun _ => nofun, fun _ => ⟨[], rfl⟩⟩
    | cons c cs ih =>
      rw [List.forall_mem_cons, ← ih, List.mapM_cons, isDecimal, Option.isSome_iff_exists]
      cases decimalValue? c <;> cases cs.mapM decimalValue? <;> simp
  simp only [writes_iff, ← hmap]
  exact ⟨fun ⟨_, hne, digits, h, _⟩ => ⟨hne, digits, h⟩, fun ⟨hne, digits, h⟩ => ⟨_, hne, digits, h, rfl⟩⟩

/-! ## What a text says as a numeral -/

theorem numeral_eq_word_iff : numeral cs = .word ↔ cs = [] ∨ ∃ c ∈ cs, isDigit c = false := by
  unfold numeral
  split
  · rename_i h
    simpa [List.all_eq_true] using h
  · rename_i h
    refine ⟨fun heq => ?_, fun hword => absurd ?_ h⟩
    · split at heq
      · cases heq
      · split at heq <;> cases heq
    · simpa using hword

theorem numeral_eq_number_iff :
    numeral cs = .number n ↔ Writes cs n ∧ cs.length ≤ maxNumeralLength := by
  rw [writes_iff]
  unfold numeral
  split
  · rename_i h
    refine ⟨nofun, fun ⟨⟨hne, digits, hdigits, _⟩, _⟩ => ?_⟩
    have hdecimal := (exists_writes_iff.1 ⟨_, writes_iff.2 ⟨hne, digits, hdigits, rfl⟩⟩).2
    have hdigit : cs.all isDigit = true :=
      List.all_eq_true.2 fun c hc => isDigit_of_isDecimal (hdecimal c hc)
    simp [hne, hdigit] at h
  · rename_i h
    have hne : cs ≠ [] := by
      rintro rfl
      simp at h
    cases hdigits : cs.mapM decimalValue? with
    | none => simp
    | some digits =>
      dsimp only
      split <;> rename_i hlength <;> simp [hne, hlength]

theorem numeral_eq_unreadable_iff : numeral cs = .unreadable ↔
    cs ≠ [] ∧ (∀ c ∈ cs, isDigit c = true) ∧
      ((∃ c ∈ cs, isDecimal c = false) ∨ maxNumeralLength < cs.length) := by
  cases h : numeral cs with
  | word =>
    refine ⟨nofun, fun ⟨hne, hdigits, _⟩ => ?_⟩
    rcases numeral_eq_word_iff.1 h with rfl | ⟨c, hc, hnot⟩
    · exact absurd rfl hne
    · exact absurd (hdigits c hc) (by simp [hnot])
  | number n =>
    refine ⟨nofun, fun ⟨_, _, hbad⟩ => ?_⟩
    obtain ⟨hwrites, hlength⟩ := numeral_eq_number_iff.1 h
    rcases hbad with ⟨c, hc, hnot⟩ | hlong
    · exact absurd ((exists_writes_iff.1 ⟨n, hwrites⟩).2 c hc) (by simp [hnot])
    · omega
  | unreadable =>
    refine ⟨fun _ => ?_, fun _ => rfl⟩
    have hword : ¬ (cs = [] ∨ ∃ c ∈ cs, isDigit c = false) := by simp [← numeral_eq_word_iff, h]
    obtain ⟨hne, hdigits⟩ := not_or.1 hword
    refine ⟨hne, by simpa using hdigits, ?_⟩
    by_contra hbad
    obtain ⟨hdecimal, hlength⟩ := not_or.1 hbad
    obtain ⟨n, hwrites⟩ := exists_writes_iff.2 ⟨hne, by simpa using hdecimal⟩
    rw [numeral_eq_number_iff.2 ⟨hwrites, by omega⟩] at h
    cases h

/-! ## Digits between blanks -/

/-- First and last code points of the runs of blanks. -/
def blankRuns : List (Nat × Nat) :=
  [(9, 13), (0x1c, 0x20), (0x85, 0x85), (0xa0, 0xa0), (0x1680, 0x1680), (0x2000, 0x200a),
   (0x2028, 0x2029), (0x202f, 0x202f), (0x205f, 0x205f), (0x3000, 0x3000)]

/-- First and last code points of the runs of digits. -/
def digitRuns : List (Nat × Nat) := decimalZeros.map (fun first => (first, first + 9)) ++ otherDigitRuns

theorem mem_blankRuns (h : isBlank c = true) : ∃ run ∈ blankRuns, run.1 ≤ c.toNat ∧ c.toNat ≤ run.2 := by
  simp only [isBlank, isSpace, Bool.or_eq_true, Bool.and_eq_true, decide_eq_true_eq] at h
  simp only [blankRuns, List.mem_cons, List.not_mem_nil, or_false, exists_eq_or_imp, exists_eq_left]
  omega

theorem mem_digitRuns (h : isDigit c = true) : ∃ run ∈ digitRuns, run.1 ≤ c.toNat ∧ c.toNat ≤ run.2 := by
  rw [isDigit, Bool.or_eq_true] at h
  rcases h with h | h
  · obtain ⟨d, hd⟩ := Option.isSome_iff_exists.1 h
    obtain ⟨first, hfirst, hd⟩ := List.exists_of_findSome?_eq_some hd
    split at hd
    · refine ⟨(first, first + 9), List.mem_append_left _ (List.mem_map_of_mem hfirst), ?_⟩
      dsimp only
      omega
    · cases hd
  · obtain ⟨run, hrun, hc⟩ := List.any_eq_true.1 h
    exact ⟨run, List.mem_append_right _ hrun, by simpa using hc⟩

/-- No digit is a blank. -/
theorem isBlank_eq_false (h : isDigit c = true) : isBlank c = false := by
  have hapart : ∀ run ∈ digitRuns, ∀ blank ∈ blankRuns, run.2 < blank.1 ∨ blank.2 < run.1 := by decide
  by_contra hblank
  obtain ⟨run, hrun, hc⟩ := mem_digitRuns h
  obtain ⟨blank, hmem, hc'⟩ := mem_blankRuns (by simpa using hblank)
  have := hapart run hrun blank hmem
  omega

/-! ## What stands between blanks -/

section Padded

variable {body : List Char}

/-- Whether a text is another one with nothing but blanks around it. -/
def IsPadded (cs body : List Char) : Prop :=
  ∃ before after, cs = before ++ body ++ after ∧ ∀ c ∈ before ++ after, isBlank c = true

theorem isPadded_trimWhile (cs : List Char) : IsPadded cs (trimWhile isBlank cs) := by
  refine ⟨cs.takeWhile isBlank, ((cs.dropWhile isBlank).reverse.takeWhile isBlank).reverse, ?_, ?_⟩
  · rw [trimWhile, dropEndWhile, List.append_assoc, ← List.reverse_append, List.takeWhile_append_dropWhile,
      List.reverse_reverse, List.takeWhile_append_dropWhile]
  · intro c hc
    rcases List.mem_append.1 hc with hc | hc
    · exact List.all_eq_true.1 List.all_takeWhile c hc
    · exact List.all_eq_true.1 List.all_takeWhile c (List.mem_reverse.1 hc)

theorem dropWhile_padded {before rest : List Char} (hbefore : ∀ c ∈ before, isBlank c = true)
    (hne : body ≠ []) (hbody : ∀ c ∈ body, isBlank c = false) :
    (before ++ (body ++ rest)).dropWhile isBlank = body ++ rest := by
  obtain ⟨c, cs, rfl⟩ := List.exists_cons_of_ne_nil hne
  rw [List.dropWhile_append_of_pos hbefore, List.cons_append, List.dropWhile_cons,
    hbody c List.mem_cons_self, if_neg Bool.false_ne_true]

/-- Trimming leaves a text without blanks of what it is padded to. -/
theorem IsPadded.trimWhile_eq (h : IsPadded cs body) (hne : body ≠ [])
    (hbody : ∀ c ∈ body, isBlank c = false) : trimWhile isBlank cs = body := by
  obtain ⟨before, after, rfl, hblank⟩ := h
  rw [List.forall_mem_append] at hblank
  have hend : (after.reverse ++ (body.reverse ++ [])).dropWhile isBlank = body.reverse ++ [] :=
    dropWhile_padded (by simpa using hblank.2) (by simpa using hne) (by simpa using hbody)
  rw [trimWhile, dropEndWhile, List.append_assoc, dropWhile_padded hblank.1 hne hbody,
    List.reverse_append, ← List.append_nil body.reverse, hend, List.append_nil, List.reverse_reverse]

end Padded

end AppBroker.Text
