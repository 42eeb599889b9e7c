import AppBroker.Tag
import AppBroker.Value.Field
import AppBroker.Text.Encoding
import Mathlib.Algebra.Group.Nat.Defs

/-!
# What is written reads back

Tags, moments and text are kept in writing: tags in labels and records, moments in records, text in
files. A tag without marks in its parts reads back as it was, and so does a moment that a clock can
show.
-/

namespace AppBroker

/-! ## Pieces of a text -/

/-- The pieces of a text that is split hold what the text holds, but not what it is split at. -/
theorem mem_splitOn {α : Type} [DecidableEq α] {a : α} {xs l : List α} (h : l ∈ xs.splitOn a) :
    a ∉ l ∧ l ⊆ xs := by
  induction xs generalizing l with
  | nil => simp_all
  | cons x xs ih =>
    rw [List.splitOn_cons_eq_if_modifyHead] at h
    split at h
    · rcases List.mem_cons.1 h with rfl | h
      · simp
      · exact ⟨(ih h).1, fun c hc => List.mem_cons_of_mem _ ((ih h).2 hc)⟩
    · rename_i hne
      cases hp : xs.splitOn a with
      | nil => exact absurd hp (List.splitOn_ne_nil a xs)
      | cons first rest =>
        rw [hp, List.modifyHead_cons] at h
        have hne' : a ≠ x := by
          rintro rfl
          simp at hne
        rcases List.mem_cons.1 h with rfl | h
        · obtain ⟨hn, hs⟩ := ih (by rw [hp]; exact List.mem_cons_self)
          refine ⟨by simp [hn, hne'], fun c hc => ?_⟩
          rcases List.mem_cons.1 hc with rfl | hc
          · exact List.mem_cons_self
          · exact List.mem_cons_of_mem _ (hs hc)
        · obtain ⟨hn, hs⟩ := ih (by rw [hp]; exact List.mem_cons_of_mem _ h)
          exact ⟨hn, fun c hc => List.mem_cons_of_mem _ (hs hc)⟩

/-! ## Tags -/

namespace Tag

/-- Whether a text has none of the marks that part a tag. -/
def Unmarked (cs : List Char) : Prop := ':' ∉ cs ∧ '/' ∉ cs

theorem unmarked_of_pieces {cs part piece : List Char} (hpart : part ∈ cs.splitOn '/')
    (hpiece : piece ∈ part.splitOn ':') : Unmarked piece :=
  ⟨(mem_splitOn hpiece).1, fun h => (mem_splitOn hpart).1 ((mem_splitOn hpiece).2 h)⟩

theorem unmarked_of_versioned {cs part name version : List Char} (hpart : part ∈ cs.splitOn '/')
    (h : versioned part = .ok (name, version)) : Unmarked name ∧ Unmarked version := by
  unfold versioned at h
  split at h
  · rename_i n hn
    split at h <;> cases h
    exact ⟨unmarked_of_pieces hpart (by simp [hn]), by simp [Unmarked]⟩
  · rename_i n v hn
    split at h
    · cases h
    split at h <;> cases h
    exact ⟨unmarked_of_pieces hpart (by simp [hn]), unmarked_of_pieces hpart (by simp [hn])⟩
  · cases h

theorem unmarked_of_inScope {cs part service tenant : List Char} (hpart : part ∈ cs.splitOn '/')
    (h : inScope part = .ok (service, tenant)) : Unmarked service ∧ Unmarked tenant := by
  unfold inScope at h
  split at h
  · rename_i t ht
    simp only [pure_bind] at h
    split at h <;> cases h
    exact ⟨by simp [Unmarked], unmarked_of_pieces hpart (by simp [ht])⟩
  · rename_i s t ht
    split at h
    · cases h
    · simp only [pure_bind] at h
      split at h <;> cases h
      exact ⟨unmarked_of_pieces hpart (by simp [ht]), unmarked_of_pieces hpart (by simp [ht])⟩
  · split at h <;> cases h
  · cases h

/-- The parts of a tag that was read are without marks. -/
theorem unmarked_of_split {cs name tenant version service : List Char}
    (h : split cs = .ok (name, tenant, version, service)) :
    Unmarked name ∧ Unmarked tenant ∧ Unmarked version ∧ Unmarked service := by
  have hnone : Unmarked [] := by simp [Unmarked]
  unfold split at h
  split at h
  · cases h
  split at h
  · rename_i whole hw
    have hmem : whole ∈ cs.splitOn '/' := by simp [hw]
    split at h
    · rename_i s n v hsn
      split at h
      · cases h
      split at h <;> cases h
      exact ⟨unmarked_of_pieces hmem (by simp [hsn]), hnone,
        unmarked_of_pieces hmem (by simp [hsn]), unmarked_of_pieces hmem (by simp [hsn])⟩
    · cases hv : versioned whole with
      | error e => rw [hv] at h; cases h
      | ok parts =>
        rw [hv] at h
        cases h
        obtain ⟨hn, hv⟩ := unmarked_of_versioned hmem hv
        exact ⟨hn, hnone, hv, hnone⟩
  · rename_i head rest hw
    cases hs : inScope head with
    | error e => rw [hs] at h; cases h
    | ok scope =>
      cases hv : versioned rest with
      | error e => rw [hs, hv] at h; cases h
      | ok parts =>
        rw [hs, hv] at h
        cases h
        have hrest : rest ∈ cs.splitOn '/' := by simp [hw]
        have hhead : head ∈ cs.splitOn '/' := by simp [hw]
        obtain ⟨hn, hv⟩ := unmarked_of_versioned hrest hv
        obtain ⟨hs, ht⟩ := unmarked_of_inScope hhead hs
        exact ⟨hn, ht, hv, hs⟩
  · cases h

theorem versioned_eq {name version : List Char} (hname : name ≠ []) (hn : ':' ∉ name)
    (hv : ':' ∉ version) :
    versioned (if version = [] then name else name ++ ':' :: version) = .ok (name, version) := by
  unfold versioned
  by_cases h : version = []
  · simp [h, List.splitOn_eq_singleton hn, hname]
  · simp [h, List.splitOn_append_cons_self_of_not_mem hn, List.splitOn_eq_singleton hv, hname]

theorem inScope_eq {service tenant : List Char} (htenant : tenant ≠ []) (hs : ':' ∉ service)
    (ht : ':' ∉ tenant) :
    inScope (if service = [] then tenant else service ++ ':' :: tenant) = .ok (service, tenant) := by
  unfold inScope
  by_cases h : service = []
  · simp [h, List.splitOn_eq_singleton ht, htenant]
    rfl
  · simp [h, List.splitOn_append_cons_self_of_not_mem hs, List.splitOn_eq_singleton ht, htenant]
    rfl

/-- The characters of a written tag. -/
theorem toList_format (t : Tag) :
    t.format.toList =
      let name := t.name.toList
      let version := t.version.toList
      let versioned := if version = [] then name else name ++ ':' :: version
      if t.tenant.toList ≠ [] then
        (if t.service.toList = [] then t.tenant.toList
          else t.service.toList ++ ':' :: t.tenant.toList) ++ '/' :: versioned
      else if t.service.toList ≠ [] then t.service.toList ++ ':' :: (name ++ ':' :: version)
      else versioned := by
  unfold format formatParts
  simp only [String.toList_eq_nil_iff]
  split <;> split <;> split <;> simp_all

/-- Whether none of a tag's parts has a mark. -/
def IsUnmarked (t : Tag) : Prop :=
  Unmarked t.name.toList ∧ Unmarked t.tenant.toList ∧ Unmarked t.version.toList ∧
    Unmarked t.service.toList

theorem split_format {t : Tag} (h : t.IsUnmarked) :
    split t.format.toList =
      .ok (t.name.toList, t.tenant.toList, t.version.toList, t.service.toList) := by
  obtain ⟨⟨hn, hn'⟩, ⟨ht, ht'⟩, ⟨hv, hv'⟩, ⟨hs, hs'⟩⟩ := h
  have hname : t.name.toList ≠ [] := by simpa using t.name_ne_empty
  rw [toList_format]
  generalize t.name.toList = name at *
  generalize t.version.toList = version at *
  generalize t.tenant.toList = tenant at *
  generalize t.service.toList = service at *
  have hversioned := versioned_eq hname hn hv
  have hplain : '/' ∉ (if version = [] then name else name ++ ':' :: version) := by
    split <;> simp [hn', hv']
  unfold split
  dsimp only
  by_cases htenant : tenant = []
  · by_cases hservice : service = []
    · simp only [htenant, hservice, ne_eq, not_true, if_false]
      have hne : (if version = [] then name else name ++ ':' :: version) ≠ [] := by
        split <;> simp [hname]
      rw [if_neg hne, List.splitOn_eq_singleton hplain]
      dsimp only
      split
      · rename_i s n v hsplit
        rw [versioned, hsplit] at hversioned
        cases hversioned
      · rw [hversioned]
        rfl
    · have hw : '/' ∉ service ++ ':' :: (name ++ ':' :: version) := by simp [hn', hv', hs']
      simp only [htenant, hservice, ne_eq, not_true, not_false_iff, if_false, if_true]
      rw [if_neg (by simp), List.splitOn_eq_singleton hw]
      simp [List.splitOn_append_cons_self_of_not_mem hs, List.splitOn_append_cons_self_of_not_mem hn,
        List.splitOn_eq_singleton hv, hservice, hname]
  · have hscope := inScope_eq htenant hs ht
    have hhead : '/' ∉ (if service = [] then tenant else service ++ ':' :: tenant) := by
      split <;> simp [ht', hs']
    simp only [htenant, ne_eq, not_false_iff, if_true]
    rw [if_neg (by simp), List.splitOn_append_cons_self_of_not_mem hhead,
      List.splitOn_eq_singleton hplain]
    dsimp only
    rw [hscope]
    show (versioned _ >>= fun _ => _) = _
    rw [hversioned]
    rfl

theorem ofParts_self (t : Tag) : ofParts t.name t.tenant t.version t.service = .ok t := by
  simp [ofParts, t.name_ne_empty]

/-- A tag without marks in its parts reads back. -/
theorem parse_format {t : Tag} (h : t.IsUnmarked) : parse t.format = .ok t := by
  simp [parse, split_format h, ofParts_self]

/-- What was read is what its parts say. -/
theorem parse_eq_ok {text : String} {t : Tag} (h : parse text = .ok t) :
    split text.toList =
      .ok (t.name.toList, t.tenant.toList, t.version.toList, t.service.toList) := by
  unfold parse at h
  split at h
  · cases h
  · rename_i name tenant version service hsplit
    unfold ofParts at h
    split at h
    · cases h
    · cases h
      simpa using hsplit

/-- A tag that was read has no marks in its parts. -/
theorem isUnmarked_of_parse {text : String} {t : Tag} (h : parse text = .ok t) : t.IsUnmarked :=
  unmarked_of_split (parse_eq_ok h)

end Tag

/-! ## Moments -/

namespace Moment

/-- The last digits of a number, as many as asked for. -/
def lastDigits : Nat → Nat → List Char
  | 0, _ => []
  | width + 1, n => lastDigits width (n / 10) ++ [Nat.digitChar (n % 10)]

theorem length_lastDigits (width n : Nat) : (lastDigits width n).length = width := by
  induction width generalizing n with
  | zero => rfl
  | succ width ih => simp [lastDigits, ih]

theorem lastDigits_zero (width : Nat) : lastDigits width 0 = List.replicate width '0' := by
  induction width with
  | zero => rfl
  | succ width ih => simp [lastDigits, ih, List.replicate_succ']

theorem toList_padded {width n : Nat} (hw : 0 < width) (hn : n < 10 ^ width) :
    (padded width n).toList = lastDigits width n := by
  induction width generalizing n with
  | zero => omega
  | succ width ih =>
    by_cases hsmall : n < 10
    · have h0 : n / 10 = 0 := by omega
      have hmod : n % 10 = n := Nat.mod_eq_of_lt hsmall
      simp [padded, Nat.toDigits_of_lt_base hsmall, lastDigits, h0, hmod, lastDigits_zero]
    · have hw' : 0 < width := by
        rcases Nat.eq_zero_or_pos width with rfl | h
        · simp at hn; omega
        · exact h
      have hdiv : n / 10 < 10 ^ width := by
        rw [Nat.div_lt_iff_lt_mul (by omega)]
        rwa [Nat.pow_succ] at hn
      have hdigits : Nat.toDigits 10 n = Nat.toDigits 10 (n / 10) ++ [Nat.digitChar (n % 10)] :=
        Nat.toDigits_of_base_le (by omega) (by omega)
      have := ih hw' hdiv
      simp only [padded, String.toList_ofList] at this
      simp [padded, hdigits, lastDigits, ← this]

theorem digit?_digitChar {d : Nat} (h : d < 10) : digit? (Nat.digitChar d) = some d := by
  have : ∀ d < 10, digit? (Nat.digitChar d) = some d := by decide
  exact this d h

theorem twoDigits?_padded {n : Nat} (h : n < 100) (cs : List Char) :
    twoDigits? ((padded 2 n).toList ++ cs) = some (n, cs) := by
  rw [toList_padded (by omega) h]
  have h1 : n / 10 % 10 < 10 := by omega
  have h2 : n % 10 < 10 := by omega
  simp only [lastDigits, List.nil_append, List.cons_append, twoDigits?, digit?_digitChar h1,
    digit?_digitChar h2]
  simp
  omega

theorem toList_padded_four {n : Nat} (h : n < 10000) :
    (padded 4 n).toList = (padded 2 (n / 100)).toList ++ (padded 2 (n % 100)).toList := by
  rw [toList_padded (by omega) h, toList_padded (by omega) (show n / 100 < 10 ^ 2 by omega),
    toList_padded (by omega) (show n % 100 < 10 ^ 2 by omega)]
  have h1 : n / 10 / 10 = n / 100 := by omega
  have h3 : n % 100 / 10 % 10 = n / 10 % 10 := by omega
  have h4 : n % 100 % 10 = n % 10 := by omega
  simp [lastDigits, h1, h3, h4]

theorem readDate?_dateText {m : Moment} (h : Date.make? m.date.year m.date.month m.date.day = some m.date)
    (cs : List Char) : readDate? (m.dateText.toList ++ cs) = some (m.date, cs) := by
  have hb : m.date.year ≤ 9999 ∧ m.date.month ≤ 12 ∧ m.date.day ≤ 31 := by
    unfold Date.make? at h
    split at h
    · rename_i hb
      have : Date.daysIn m.date.year m.date.month ≤ 31 := by
        unfold Date.daysIn
        split
        · split <;> omega
        · split <;> omega
      omega
    · cases h
  obtain ⟨hy, hm, hd⟩ := hb
  unfold readDate? dateText
  simp only [String.toList_append, toList_padded_four (show m.date.year < 10000 by omega),
    List.append_assoc]
  rw [twoDigits?_padded (by omega)]
  simp only [Option.bind_eq_bind, Option.bind_some]
  rw [twoDigits?_padded (by omega)]
  simp only [Option.bind_some]
  rw [show ("-" : String).toList = ['-'] from rfl]
  simp only [List.cons_append, List.nil_append]
  rw [twoDigits?_padded (by omega)]
  simp only [Option.bind_some]
  rw [twoDigits?_padded (by omega)]
  simp only [Option.bind_some]
  rw [show 100 * (m.date.year / 100) + m.date.year % 100 = m.date.year by omega, h]
  rfl

/-- Whether a moment is one that a clock can show: its offset is in whole minutes and less than a
day. -/
structure IsReal (m : Moment) : Prop where
  date : Date.make? m.date.year m.date.month m.date.day = some m.date
  hour : m.hour < 24
  minute : m.minute < 60
  second : m.second < 60
  micro : m.micro < 1000000
  offset : ∀ o, m.offset = some o → o % 60 = 0 ∧ o.natAbs < 86400

theorem digit?_lastDigits (width n : Nat) : ∀ c ∈ lastDigits width n, (digit? c).isSome = true := by
  induction width generalizing n with
  | zero => simp [lastDigits]
  | succ width ih =>
    intro c hc
    rcases List.mem_append.1 hc with hc | hc
    · exact ih _ c hc
    · rw [List.mem_singleton.1 hc, digit?_digitChar (Nat.mod_lt _ (by omega))]
      rfl

theorem ofDigits_lastDigits {width n : Nat} (h : n < 10 ^ width) :
    Text.ofDigits ((lastDigits width n).filterMap digit?) = n := by
  induction width generalizing n with
  | zero => simp at h; simp [lastDigits, h, Text.ofDigits]
  | succ width ih =>
    have hdiv : n / 10 < 10 ^ width := by
      rw [Nat.div_lt_iff_lt_mul (by omega)]
      rwa [Nat.pow_succ] at h
    have := ih hdiv
    unfold Text.ofDigits at this ⊢
    simp only [lastDigits, List.filterMap_append, List.foldl_append, this]
    rw [List.filterMap_cons_some (digit?_digitChar (Nat.mod_lt n (by omega)))]
    simp
    omega

/-- Whether a text goes on with something other than a digit, a point or a comma. -/
def Breaks (cs : List Char) : Prop :=
  ∀ c rest, cs = c :: rest → digit? c = none ∧ c ≠ '.' ∧ c ≠ ',' ∧ c ≠ ':'

theorem readFraction?_text {micro : Nat} (h : micro < 1000000) {cs : List Char} (hcs : Breaks cs) :
    readFraction? ((fractionText micro).toList ++ cs) = some (micro, cs) := by
  unfold fractionText
  split
  · subst micro
    cases cs with
    | nil => rfl
    | cons c rest =>
      obtain ⟨-, hp, hc, -⟩ := hcs c rest rfl
      simp [readFraction?, hp, hc]
  · rw [String.toList_append, toList_padded (by omega) h]
    have hdigits := digit?_lastDigits 6 micro
    have hstop : cs.takeWhile (fun c => (digit? c).isSome) = [] ∧
        cs.dropWhile (fun c => (digit? c).isSome) = cs := by
      cases cs with
      | nil => simp
      | cons c rest => simp [(hcs c rest rfl).1]
    have htake : (lastDigits 6 micro ++ cs).takeWhile (fun c => (digit? c).isSome) =
        lastDigits 6 micro := by
      rw [List.takeWhile_append_of_pos hdigits, hstop.1, List.append_nil]
    have hdrop : (lastDigits 6 micro ++ cs).dropWhile (fun c => (digit? c).isSome) = cs := by
      rw [List.dropWhile_append_of_pos hdigits, hstop.2]
    have hne : (lastDigits 6 micro).isEmpty = false := by simp [lastDigits]
    have hsix (more : List Char) : (lastDigits 6 micro ++ more).take 6 = lastDigits 6 micro :=
      List.take_left' (length_lastDigits 6 micro)
    show readFraction? ('.' :: (lastDigits 6 micro ++ cs)) = _
    have hread := ofDigits_lastDigits (show micro < 10 ^ 6 from h)
    simp [readFraction?, htake, hdrop, hne, hsix, hread]

theorem readTime?_text {m : Moment} (h : m.IsReal) {cs : List Char} (hcs : Breaks cs) :
    readTime? (m.secondText.toList ++ ((fractionText m.micro).toList ++ cs)) =
      some (m.hour, m.minute, m.second, m.micro, cs) := by
  have hh := h.hour
  have hm := h.minute
  have hs := h.second
  unfold readTime? secondText minuteText
  simp only [String.toList_append, List.append_assoc]
  rw [twoDigits?_padded (by omega)]
  simp only [Option.bind_eq_bind, Option.bind_some]
  rw [show (":" : String).toList = [':'] from rfl]
  simp only [List.cons_append, List.nil_append]
  rw [twoDigits?_padded (by omega)]
  simp only [Option.bind_some]
  rw [if_neg (by simp; omega), twoDigits?_padded (by omega)]
  simp only [Option.bind_some]
  rw [if_neg (by omega), readFraction?_text h.micro hcs]
  rfl

theorem readOffset?_offsetText {o : Int} (hmin : o % 60 = 0) (hday : o.natAbs < 86400) :
    readOffset? (offsetText o).toList = some (some o) := by
  unfold offsetText
  split
  · subst o
    rfl
  · rename_i hne
    generalize hn : o.natAbs = n at hday
    have hread := twoDigits?_padded (show n / 60 / 60 < 100 by omega)
      (':' :: (padded 2 (n / 60 % 60)).toList)
    have hread' := twoDigits?_padded (show n / 60 % 60 < 100 by omega) []
    rw [List.append_nil] at hread'
    have hh : ¬ 23 < n / 60 / 60 := by omega
    have hm : ¬ 59 < n / 60 % 60 := by omega
    have hsize : n / 60 / 60 * 3600 + n / 60 % 60 * 60 = n := by omega
    simp only [String.toList_append, List.append_assoc]
    split
    · simp only [String.reduceToList, List.cons_append, List.nil_append, readOffset?, hread]
      simp only [Option.bind_eq_bind, Option.bind_some, hread', hsize]
      simp [hh, hm]
      omega
    · simp only [String.reduceToList, List.cons_append, List.nil_append, readOffset?, hread]
      simp only [Option.bind_eq_bind, Option.bind_some, hread', hsize]
      simp [hh, hm]
      omega

theorem breaks_zoneText (offset : Option Int) : Breaks (zoneText offset).toList := by
  intro c rest hc
  cases offset with
  | none => cases hc
  | some o =>
    have : c = 'Z' ∨ c = '-' ∨ c = '+' := by
      unfold zoneText offsetText at hc
      dsimp only at hc
      split at hc
      · exact .inl (List.cons.inj hc).1.symm
      · split at hc <;> rw [String.append_assoc, String.append_assoc, String.toList_append] at hc
        · exact .inr (.inl (List.cons.inj hc).1.symm)
        · exact .inr (.inr (List.cons.inj hc).1.symm)
    rcases this with rfl | rfl | rfl <;> decide

/-- A moment that a clock can show reads back. -/
theorem readIso?_toText {m : Moment} (h : m.IsReal) : readIso? m.toText.toList = some m := by
  have hzone : readOffset? (zoneText m.offset).toList = some m.offset := by
    cases ho : m.offset with
    | none => rfl
    | some o =>
      obtain ⟨hmin, hday⟩ := h.offset o ho
      exact readOffset?_offsetText hmin hday
  unfold readIso? toText
  simp only [String.toList_append, List.append_assoc]
  rw [readDate?_dateText h.date]
  simp only [Option.bind_eq_bind, Option.bind_some]
  rw [show ("T" : String).toList = ['T'] from rfl]
  simp only [List.cons_append, List.nil_append]
  rw [if_neg (by simp), readTime?_text h (breaks_zoneText m.offset)]
  simp only [Option.bind_some, hzone]
  rfl

theorem momentOfText_toText {m : Moment} (h : m.IsReal) :
    Field.momentOfText m.toText = .fit m := by
  simp [Field.momentOfText, readIso?_toText h]

theorem make?_of_ofOrdinal? {n : Nat} {d : Date} (h : Date.ofOrdinal? n = some d) :
    Date.make? d.year d.month d.day = some d := by
  unfold Date.ofOrdinal? at h
  dsimp only at h
  unfold Date.make? at h ⊢
  split at h
  · obtain rfl := Option.some.inj h
    rename_i hd
    simp [hd]
  · cases h

/-- A clock that shows the time goes on showing it. -/
theorem IsReal.addSeconds {m : Moment} (h : m.IsReal) (seconds : Nat) :
    (m.addSeconds seconds).IsReal := by
  unfold Moment.addSeconds
  dsimp only
  split
  · exact h
  · rename_i date hdate
    exact ⟨make?_of_ofOrdinal? hdate, by dsimp only; omega, by dsimp only; omega,
      by dsimp only; omega, h.micro, h.offset⟩

end Moment

/-! ## Bytes -/

namespace Text

theorem data_toList (bs : ByteArray) : bs.toList = bs.data.toList := by
  have hloop (n i : Nat) (acc : List UInt8) (hn : bs.size - i = n) :
      ByteArray.toList.loop bs i acc = acc.reverse ++ bs.data.toList.drop i := by
    induction n generalizing i acc with
    | zero =>
      rw [ByteArray.toList.loop, if_neg (by omega), List.drop_eq_nil_of_le]
      · simp
      · exact Nat.le_of_sub_eq_zero hn
    | succ n ih =>
      have hi : i < bs.size := by omega
      have hi' : i < bs.data.toList.length := hi
      have hget : bs.get! i = bs.data.toList[i] := getElem!_pos bs.data i hi
      rw [ByteArray.toList.loop, if_pos hi, ih _ _ (by omega), List.drop_eq_getElem_cons hi', hget]
      simp
  simpa [ByteArray.toList] using hloop bs.size 0 [] (by simp)

/-- A text is what its bytes decode to. -/
theorem decode?_encode (s : String) : decode? (encode s) = some s.toList := by
  unfold decode? encode
  rw [data_toList]
  show (String.fromUTF8? s.toUTF8).map String.toList = some s.toList
  unfold String.fromUTF8?
  rw [dif_pos (show s.toUTF8.IsValidUTF8 from s.isValidUTF8)]
  rfl
end Text

end AppBroker
