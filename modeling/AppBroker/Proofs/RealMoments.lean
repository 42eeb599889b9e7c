import AppBroker.Proofs.RecordCalls
import Mathlib.Data.List.Induction

/-!
# Moments that are read

Every moment that is read from text, from bytes or from a number is one that a clock can show: the
day exists, and the offset is in whole minutes and less than a day. So a record whose fields are
read from these can be kept, whatever they say.
-/

namespace AppBroker

theorem Date.make?_eq_some {year month day : Nat} {d : Date} (h : make? year month day = some d) :
    make? d.year d.month d.day = some d := by
  have hd := h
  unfold make? at h
  split at h
  · obtain rfl := Option.some.inj h
    exact hd
  · cases h

namespace Moment

theorem digit?_le {c : Char} {d : Nat} (h : digit? c = some d) : d ≤ 9 := by
  unfold digit? at h
  split at h
  · rename_i hc
    have hle : c.toNat ≤ '9'.toNat := hc.2
    have hnine : '9'.toNat = 57 := rfl
    obtain rfl := Option.some.inj h
    omega
  · cases h

theorem ofDigits_lt (ds : List Nat) (h : ∀ d ∈ ds, d ≤ 9) : Text.ofDigits ds < 10 ^ ds.length := by
  induction ds using List.reverseRecOn with
  | nil => simp [Text.ofDigits]
  | append_singleton ds d ih =>
    have hlast := h d (by simp)
    have hlead := ih fun d hd => h d (by simp [hd])
    unfold Text.ofDigits at hlead ⊢
    rw [List.foldl_append, List.length_append, List.length_singleton, Nat.pow_succ]
    simp only [List.foldl_cons, List.foldl_nil]
    omega

theorem readDate?_date {cs rest : List Char} {d : Date} (h : readDate? cs = some (d, rest)) :
    Date.make? d.year d.month d.day = some d := by
  unfold readDate? at h
  simp only [Option.bind_eq_bind, Option.bind_eq_some_iff] at h
  obtain ⟨_, -, _, -, h⟩ := h
  split at h <;> try cases h
  obtain ⟨_, -, h⟩ := Option.bind_eq_some_iff.1 h
  split at h <;> try cases h
  obtain ⟨_, -, h⟩ := Option.bind_eq_some_iff.1 h
  obtain ⟨date, hdate, h⟩ := Option.bind_eq_some_iff.1 h
  cases h
  exact Date.make?_eq_some hdate

theorem readFraction?_lt {cs rest : List Char} {micro : Nat}
    (h : readFraction? cs = some (micro, rest)) : micro < 1000000 := by
  unfold readFraction? at h
  split at h
  · dsimp only at h
    split at h
    · split at h
      · cases h
      · obtain ⟨rfl, -⟩ := Prod.mk.inj (Option.some.inj h)
        have hlength (digits : List Char) : ((digits.take 6).filterMap digit?).length ≤ 6 :=
          Nat.le_trans (List.length_filterMap_le _ _) (List.length_take_le _ _)
        refine Nat.lt_of_lt_of_le (ofDigits_lt _ fun d hd => ?_)
          (Nat.pow_le_pow_right (by omega) (hlength _))
        obtain ⟨c, -, hc⟩ := List.mem_filterMap.1 hd
        exact digit?_le hc
    · obtain ⟨rfl, -⟩ := Prod.mk.inj (Option.some.inj h)
      omega
  · obtain ⟨rfl, -⟩ := Prod.mk.inj (Option.some.inj h)
    omega

theorem readTime?_lt {cs rest : List Char} {hour minute second micro : Nat}
    (h : readTime? cs = some (hour, minute, second, micro, rest)) :
    hour < 24 ∧ minute < 60 ∧ second < 60 ∧ micro < 1000000 := by
  simp only [readTime?, Option.bind_eq_bind, Option.bind_eq_some_iff] at h
  obtain ⟨⟨hour', cs'⟩, -, h⟩ := h
  split at h <;> try cases h
  obtain ⟨⟨minute', cs'⟩, -, h⟩ := Option.bind_eq_some_iff.1 h
  dsimp only at h
  split at h
  · cases h
  rename_i hbounds
  simp only [Bool.or_eq_true, decide_eq_true_eq, not_or, Nat.not_lt] at hbounds
  split at h
  · obtain ⟨⟨second', cs'⟩, -, h⟩ := Option.bind_eq_some_iff.1 h
    dsimp only at h
    split at h
    · cases h
    · obtain ⟨⟨micro', cs'⟩, hfraction, h⟩ := Option.bind_eq_some_iff.1 h
      cases h
      have := readFraction?_lt hfraction
      omega
  · cases h
    omega

theorem readOffset?_bounds {cs : List Char} {o : Int} (h : readOffset? cs = some (some o)) :
    o % 60 = 0 ∧ o.natAbs < 86400 := by
  have hsigned {hour minute : Nat} {isBad : Bool} {sign : Int} (hsign : sign.natAbs = 1)
      (h : (if (23 < hour || 59 < minute || isBad) = true then none
        else some (some (sign * ((hour * 3600 + minute * 60 : Nat) : Int)))) = some (some o)) :
      o % 60 = 0 ∧ o.natAbs < 86400 := by
    split at h
    · cases h
    · rename_i hbounds
      simp only [Bool.or_eq_true, decide_eq_true_eq, not_or, Nat.not_lt] at hbounds
      obtain rfl := Option.some.inj (Option.some.inj h)
      rcases Int.natAbs_eq_iff.1 hsign with rfl | rfl <;> omega
  unfold readOffset? at h
  split at h
  case h_1 => cases h
  case h_2 | h_3 => cases h; omega
  case h_7 => cases h
  all_goals
    simp only [Option.bind_eq_bind, Option.bind_eq_some_iff] at h
    obtain ⟨_, -, _, -, h⟩ := h
    exact hsigned rfl h

/-- A moment that is read from ISO 8601 text is real. -/
theorem IsReal.of_readIso? {cs : List Char} {m : Moment} (h : readIso? cs = some m) : m.IsReal := by
  unfold readIso? at h
  simp only [Option.bind_eq_bind, Option.bind_eq_some_iff] at h
  obtain ⟨⟨date, cs'⟩, hdate, h⟩ := h
  dsimp only at h
  split at h
  · rename_i separator rest
    split at h
    · cases h
    · obtain ⟨⟨hour, minute, second, micro, rest⟩, htime, h⟩ := Option.bind_eq_some_iff.1 h
      obtain ⟨offset, hoffset, h⟩ := Option.bind_eq_some_iff.1 h
      cases h
      obtain ⟨hh, hm, hs, hu⟩ := readTime?_lt htime
      refine ⟨readDate?_date hdate, hh, hm, hs, hu, ?_⟩
      rintro o rfl
      exact readOffset?_bounds hoffset
  · cases h

theorem IsReal.ofDate {d : Date} (h : Date.make? d.year d.month d.day = some d) :
    (Moment.ofDate d).IsReal :=
  ⟨h, Nat.zero_lt_succ _, Nat.zero_lt_succ _, Nat.zero_lt_succ _, Nat.zero_lt_succ _, nofun⟩

/-- A moment that is counted from 1970 on is real. -/
theorem IsReal.of_ofUnix? {count : Int} {micros : Nat} {m : Moment}
    (h : ofUnix? count micros = some m) : m.IsReal := by
  unfold ofUnix? at h
  generalize (if count.natAbs ≤ millisecondLimit then (count, 0)
    else (Int.fdiv count 1000, (Int.fmod count 1000).toNat * 1000)) = split at h
  obtain ⟨seconds, extra⟩ := split
  dsimp only at h
  split at h
  · cases h
  · obtain ⟨date, hdate, rfl⟩ := Option.map_eq_some_iff.1 h
    have hmod := Int.fmod_lt_of_pos (seconds + ((micros + extra) / 1000000 : Nat))
      (show (0 : Int) < 86400 by decide)
    refine ⟨make?_of_ofOrdinal? hdate, ?_, ?_, ?_, ?_, ?_⟩
    · dsimp only
      omega
    · dsimp only
      omega
    · dsimp only
      omega
    · dsimp only
      omega
    · intro o ho
      obtain rfl := Option.some.inj ho
      decide

end Moment

namespace Field

theorem momentOfText_real {s : String} {m : Moment} (h : momentOfText s = .fit m) : m.IsReal := by
  unfold momentOfText at h
  dsimp only at h
  split at h
  · rename_i hm
    cases h
    exact .of_readIso? hm
  · split at h
    · split at h <;> cases h
      exact .of_ofUnix? ‹_›
    · split at h <;> cases h
      exact .ofDate (Moment.readDate?_date ‹_›)

/-- What is read as a moment, and was none before, is real. -/
theorem moment_real {v : Value} {m : Moment} (hm : ∀ m, v ≠ .moment m) (hd : ∀ d, v ≠ .date d)
    (h : moment v = .fit m) : m.IsReal := by
  cases v with
  | moment m => exact absurd rfl (hm m)
  | date d => exact absurd rfl (hd d)
  | int n =>
    simp only [moment] at h
    split at h <;> cases h
    exact .of_ofUnix? ‹_›
  | real x =>
    simp only [moment] at h
    split at h <;> cases h
    obtain ⟨low, -, hlow⟩ := Option.bind_eq_some_iff.1 ‹_›
    exact .of_ofUnix? hlow
  | text s => exact momentOfText_real h
  | bytes data =>
    simp only [moment] at h
    split at h
    · exact momentOfText_real h
    · cases h
  | _ => cases h

theorem integerIn_ge {least n : Int} {greatest : Option Int} {v : Value}
    (h : integerIn least greatest v = .fit n) : least ≤ n := by
  unfold integerIn at h
  split at h
  · split at h
    · cases h
    · split at h
      · split at h <;> cases h
        omega
      · cases h
        omega
  · rename_i hother
    exact absurd h (hother n)

theorem optional_fit {α : Type} {entries : List (Value × Value)} {key : String} {default a : α}
    {read : Reader α} (h : optional entries key default read = .fit a) :
    (Value.get? entries key = none ∧ a = default) ∨
      ∃ v, Value.get? entries key = some v ∧ read v = .fit a := by
  unfold optional at h
  split at h
  · rename_i v hv
    refine .inr ⟨v, hv, ?_⟩
    cases hread : read v with
    | fit b => rw [hread] at h; exact h
    | unfit issues => rw [hread] at h; cases h
  · rename_i hv
    cases h
    exact .inl ⟨hv, rfl⟩

end Field

theorem Checked.seq_fit {α β : Type} {f : Checked (α → β)} {x : Checked α} {b : β}
    (h : f <*> x = .fit b) : ∃ g a, f = .fit g ∧ x = .fit a ∧ b = g a := by
  cases f <;> cases x <;> cases h
  exact ⟨_, _, rfl, rfl, rfl⟩

/-- A record can be kept whose time is the clock's or is not yet given as a moment. -/
theorem Store.fit_of_ofFields {entries : List (Value × Value)} {now : Moment} {r : Record}
    (hnow : now.IsReal) (hm : ∀ m, Value.get? entries "created_at" ≠ some (.moment m))
    (hd : ∀ d, Value.get? entries "created_at" ≠ some (.date d))
    (h : Record.ofFields now entries = .fit r) : Fit r := by
  unfold Record.ofFields at h
  obtain ⟨_, created, hscaled, hcreated, rfl⟩ := Checked.seq_fit h
  obtain ⟨_, scaling, hlisted, hscaling, rfl⟩ := Checked.seq_fit hscaled
  obtain ⟨_, plugins, hnamed, -, rfl⟩ := Checked.seq_fit hlisted
  obtain ⟨_, name, hmk, -, rfl⟩ := Checked.seq_fit hnamed
  cases hmk
  refine ⟨?_, ?_⟩
  · rcases Field.optional_fit hscaling with ⟨-, rfl⟩ | ⟨v, -, hv⟩
    · exact Int.le_refl 1
    · exact Field.integerIn_ge hv
  · rcases Field.optional_fit hcreated with ⟨-, rfl⟩ | ⟨v, hget, hv⟩
    · exact hnow
    · exact Field.moment_real (fun m he => hm m (he ▸ hget)) (fun d he => hd d (he ▸ hget)) hv

end AppBroker
