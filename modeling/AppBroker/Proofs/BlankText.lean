import AppBroker.Proofs.Scanning

/-!
# Words and the blank text around them

Between two tokens a scan passes over blanks, comments and line ends (`Scan.skipped`). A plain
scalar passes over those behind it on its own; then the scan goes on as from the next line
(`Token.plainBlanks_over`). A word is all of a plain scalar where nothing of one comes behind it, and
all of a quoted one.
-/

namespace AppBroker.Yaml

namespace Cursor

section

variable {c : Cursor} {ch : Char} {rest : List Char}

theorem span_stop {p : Char → Bool} (hrest : c.rest = ch :: rest) (hch : p ch = false) :
    c.span p = ([], c) := by
  unfold span
  rw [hrest, List.takeWhile_cons_of_neg (by simp [hch])]
  rfl

theorem skipSpaces_stop (hrest : c.rest = ch :: rest) (hch : ch ≠ ' ') : c.skipSpaces = c :=
  congrArg Prod.snd (span_stop hrest (by simpa using hch))

theorem skipSpaces_next (hrest : c.rest = ' ' :: rest) : c.next.skipSpaces = c.skipSpaces := by
  have hnext : c.next.rest = rest := by rw [rest_next, hrest]; rfl
  unfold skipSpaces span
  rw [hnext, hrest, List.takeWhile_cons_of_pos (by simp)]
  rfl

theorem skipComment_stop (hrest : c.rest = ch :: rest) (hch : ch ≠ '#') : c.skipComment = c := by
  unfold skipComment
  rw [hrest]
  split
  · rename_i heq
    cases heq
    exact absurd rfl hch
  · rfl

theorem lineEnd_nil (hrest : c.rest = []) : c.lineEnd = ([], c) := by
  unfold lineEnd
  rw [hrest]

theorem lineEnd_stop (hrest : c.rest = ch :: rest) (hch : isBreak ch = false) : c.lineEnd = ([], c) := by
  unfold lineEnd
  rw [hrest]
  split
  · rename_i heq
    cases heq
    cases hch
  · rename_i heq
    cases heq
    rw [if_neg, if_neg]
    · simp [hch]
    · intro hend
      simp only [Bool.or_eq_true, decide_eq_true_eq] at hend
      obtain (rfl | rfl) | rfl := hend <;> cases hch
  · rfl

theorem atMarker_stop (hrest : c.rest = ch :: rest) (hdash : ch ≠ '-') (hdot : ch ≠ '.') :
    c.atMarker = false := by
  unfold atMarker
  rw [hrest]
  split
  · rename_i heq
    cases heq
    exact absurd rfl hdash
  · rename_i heq
    cases heq
    exact absurd rfl hdot
  · rfl

theorem next_break (hrest : c.rest = ch :: rest) (hch : isBreak ch = true)
    (hpair : ch = '\r' → rest.head? ≠ some '\n') : c.next = ⟨rest, c.index + 1, c.line + 1, 0⟩ := by
  unfold next
  split
  · rename_i heq
    rw [heq] at hrest
    cases hrest
  · rename_i heq
    cases heq.symm.trans hrest
    have hends : (isBreak ch && !(ch = '\r' && rest.head? = some '\n')) = true := by
      simpa [hch, ← imp_iff_not_or] using hpair
    dsimp only
    rw [if_pos hends]

/-- A line end is read the same in any column, and a line begins behind it. -/
theorem lineEnd_break (hrest : c.rest = ch :: rest) (hch : isBreak ch = true) :
    ∃ ended left index, ended ≠ [] ∧ (left = rest ∨ ∃ ch', isBreak ch' = true ∧ rest = ch' :: left) ∧
      ∀ m, ({ c with column := m } : Cursor).lineEnd = (ended, ⟨left, index, c.line + 1, 0⟩) := by
  obtain ⟨text, index, line, column⟩ := c
  cases hrest
  by_cases hpair : ch = '\r' ∧ rest.head? = some '\n'
  · obtain ⟨rfl, hhead⟩ := hpair
    cases rest with
    | nil => cases hhead
    | cons ch' left =>
      cases hhead
      exact ⟨['\n'], left, index + 2, by simp, .inr ⟨'\n', rfl, rfl⟩, fun m => rfl⟩
  · have hnext (m : Nat) : (⟨ch :: rest, index, line, m⟩ : Cursor).next = ⟨rest, index + 1, line + 1, 0⟩ :=
      next_break rfl hch fun hcr hhead => hpair ⟨hcr, hhead⟩
    refine ⟨if ch = '\n' || ch = '\r' || ch = '\x85' then ['\n'] else [ch], rest, index + 1,
      by split <;> simp, .inl rfl, fun m => ?_⟩
    unfold lineEnd
    split
    · rename_i heq
      cases heq
      exact absurd ⟨rfl, rfl⟩ hpair
    · rename_i heq
      cases heq
      dsimp only
      rw [hnext m]
      split <;> rfl
    · rename_i heq
      cases heq

theorem exists_break (h : ¬c.lineEnd.1.isEmpty) : ∃ ch rest, c.rest = ch :: rest ∧ isBreak ch = true := by
  cases hrest : c.rest with
  | nil => simp [lineEnd_nil hrest] at h
  | cons ch rest =>
    cases hch : isBreak ch with
    | false => simp [lineEnd_stop hrest hch] at h
    | true => exact ⟨ch, rest, rfl, hch⟩

theorem length_lineEnd_lt (h : ¬c.lineEnd.1.isEmpty) : c.lineEnd.2.rest.length < c.rest.length := by
  obtain ⟨ch, rest, hrest, hch⟩ := exists_break h
  obtain ⟨ended, left, index, -, hleft, hline⟩ := lineEnd_break hrest hch
  rw [show c.lineEnd = _ from hline c.column, hrest]
  show left.length < rest.length + 1
  obtain rfl | ⟨ch', -, rfl⟩ := hleft
  · omega
  · simp only [List.length_cons]
    omega

/-- Characters that stay on a line and take a column each are passed over one by one. -/
theorem skip_inline {w : List Char} (hw : ∀ ch ∈ w, isBreak ch = false ∧ ch ≠ '\ufeff')
    (index line column : Nat) :
    (⟨w ++ rest, index, line, column⟩ : Cursor).skip w.length =
      ⟨rest, index + w.length, line, column + w.length⟩ := by
  induction w generalizing index column with
  | nil => rfl
  | cons ch w ih =>
    obtain ⟨hbreak, hmark⟩ := hw ch (List.mem_cons_self ..)
    have hnext : (⟨ch :: w ++ rest, index, line, column⟩ : Cursor).next =
        ⟨w ++ rest, index + 1, line, column + 1⟩ := by
      simp [next, hbreak, hmark]
    rw [List.length_cons, skip, hnext, ih fun c hc => hw c (List.mem_cons_of_mem _ hc)]
    simp only [Nat.add_assoc, Nat.add_comm 1]

end

end Cursor

/-! ## Blank text -/

namespace Scan

open Cursor

variable {s : Scan} {c : Cursor} {ch : Char} {rest : List Char}

theorem skipToToken_congr {n m : Nat} (hn : s.cursor.rest.length < n) (hm : s.cursor.rest.length < m) :
    skipToToken n s = skipToToken m s := by
  induction n generalizing m s with
  | zero => omega
  | succ n ih =>
    obtain ⟨m, rfl⟩ : ∃ k, m = k + 1 := ⟨m - 1, by omega⟩
    have hblank := length_skipComment (length_skipSpaces (Nat.le_refl s.cursor.rest.length))
    unfold skipToToken
    dsimp only
    generalize s.cursor.skipSpaces.skipComment = c at hblank ⊢
    split
    · rfl
    · rename_i hended
      have hshort := length_lineEnd_lt hended
      exact ih (by simp only [goto]; omega) (by simp only [goto]; omega)

/-- A scan behind the blank text that is next. -/
def skipped (s : Scan) : Scan := skipToToken (s.cursor.rest.length + 1) s

theorem skipped_eq (hc : s.cursor.skipSpaces.skipComment = c) :
    s.skipped = if c.lineEnd.1.isEmpty then s.goto c
      else { s.goto c.lineEnd.2 with keyAllowed := s.keyAllowed || s.flow = 0 }.skipped := by
  have hblank := length_skipComment (length_skipSpaces (Nat.le_refl s.cursor.rest.length))
  rw [hc] at hblank
  rw [skipped, skipToToken]
  dsimp only
  rw [hc]
  split
  · rfl
  · rename_i hended
    have hshort := length_lineEnd_lt hended
    exact skipToToken_congr (by simp only [goto]; omega) (Nat.lt_succ_self _)

theorem skipped_space (hrest : c.rest = ' ' :: rest) :
    (s.goto c.next).skipped = (s.goto c).skipped := by
  have hspaces : (s.goto c.next).cursor.skipSpaces = (s.goto c).cursor.skipSpaces :=
    skipSpaces_next hrest
  exact (skipped_eq (congrArg skipComment hspaces)).trans (skipped_eq (s := s.goto c) rfl).symm

theorem skipped_lineEnd (h : ¬c.lineEnd.1.isEmpty) :
    (s.goto c).skipped =
      { s.goto c.lineEnd.2 with keyAllowed := s.keyAllowed || s.flow = 0 }.skipped := by
  obtain ⟨ch, rest, hrest, hch⟩ := exists_break h
  have hsame : (s.goto c).cursor.skipSpaces.skipComment = c := by
    show c.skipSpaces.skipComment = c
    rw [skipSpaces_stop hrest, skipComment_stop hrest] <;> rintro rfl <;> cases hch
  rw [skipped_eq hsame, if_neg h]
  rfl

theorem skipped_stop (hrest : s.cursor.rest = ch :: rest) (hspace : ch ≠ ' ') (hcomment : ch ≠ '#')
    (hbreak : isBreak ch = false) : s.skipped = s := by
  have hsame : s.cursor.skipSpaces.skipComment = s.cursor := by
    rw [skipSpaces_stop hrest hspace, skipComment_stop hrest hcomment]
  rw [skipped_eq hsame, lineEnd_stop hrest hbreak]
  rfl

theorem settle_eq (s : Scan) :
    s.settle = s.skipped.dropStale >>= fun s => .ok (s.unwind s.cursor.column) := rfl

theorem settle_congr {t : Scan} (h : s.skipped = t.skipped) : s.settle = t.settle := by
  rw [settle_eq, settle_eq, h]

theorem dropStale_fresh (hplaces : ∀ place ∈ s.places, s.isStale place.2 = false) :
    s.dropStale = .ok s := by
  have hany : (s.places.any fun place => place.2.required && s.isStale place.2) = false :=
    List.any_eq_false.2 fun place hplace => by simp [hplaces place hplace]
  have hfilter : (s.places.filter fun place => !s.isStale place.2) = s.places :=
    List.filter_eq_self.2 fun place hplace => by simp [hplaces place hplace]
  unfold dropStale
  rw [hany, hfilter]
  rfl

theorem unwind_self {column : Int} (h : s.indent ≤ column) : s.unwind column = s := by
  unfold unwind
  split
  · cases hindents : s.indents with
    | nil => rfl
    | cons outer rest =>
      rw [closeBlocks, if_neg (Int.not_lt.2 h)]
  · rfl

/-- Where a token is next, nothing is skipped. -/
theorem settle_stop (hrest : s.cursor.rest = ch :: rest) (hspace : ch ≠ ' ') (hcomment : ch ≠ '#')
    (hbreak : isBreak ch = false) (hplaces : ∀ place ∈ s.places, s.isStale place.2 = false)
    (hindent : s.indent ≤ s.cursor.column) : s.settle = .ok s := by
  rw [settle_eq, skipped_stop hrest hspace hcomment hbreak, dropStale_fresh hplaces]
  exact congrArg Except.ok (unwind_self hindent)

/-- The blank lines behind a plain scalar may as well be skipped. -/
theorem skipped_plainBreaks (hkey : s.keyAllowed = true) (fuel : Nat) (breaks : List Char) (c : Cursor) :
    (s.goto (Token.plainBreaks fuel breaks c).2).skipped = (s.goto c).skipped := by
  induction fuel generalizing breaks c with
  | zero => rfl
  | succ fuel ih =>
    unfold Token.plainBreaks
    split
    · rename_i rest hrest
      exact (ih _ _).trans (skipped_space hrest)
    · dsimp only
      split
      · rfl
      · rename_i hended
        have hskip : (s.goto c.lineEnd.2).skipped = (s.goto c).skipped := by
          rw [skipped_lineEnd hended, show (s.keyAllowed || s.flow = 0) = s.keyAllowed by simp [hkey]]
          rfl
        split
        · exact hskip
        · exact (ih _ _).trans hskip

end Scan

/-- Whether nothing of a plain scalar comes next: behind blanks the text is at its end, or at a
comment, or at a line that is not indented. -/
def isOver : Bool → List Char → Bool
  | _, [] => true
  | fresh, ch :: rest =>
    if ch = ' ' then isOver false rest
    else if isBreak ch then isOver true rest
    else ch = '#' || fresh

namespace Token

open Cursor

variable {c : Cursor} {ch : Char} {rest : List Char} {fresh : Bool}

theorem isOver_lineEnd (h : ¬c.lineEnd.1.isEmpty) (hover : isOver fresh c.rest = true) :
    isOver true c.lineEnd.2.rest = true ∧ c.lineEnd.2.column = 0 := by
  obtain ⟨ch, rest, hrest, hch⟩ := exists_break h
  obtain ⟨ended, left, index, -, hleft, hline⟩ := lineEnd_break hrest hch
  have hspace (ch : Char) (hch : isBreak ch = true) : ch ≠ ' ' := by rintro rfl; cases hch
  rw [hrest, isOver, if_neg (hspace ch hch), if_pos hch] at hover
  rw [show c.lineEnd = _ from hline c.column]
  refine ⟨?_, rfl⟩
  obtain rfl | ⟨ch', hch', rfl⟩ := hleft
  · exact hover
  · rwa [isOver, if_neg (hspace ch' hch'), if_pos hch'] at hover

/-- Behind the blank lines, a plain scalar stops. -/
def Stops (c : Cursor) : Prop := c.rest = [] ∨ c.rest.head? = some '#' ∨ c.column = 0

theorem stops_plainBreaks {fuel : Nat} (breaks : List Char) (hfuel : c.rest.length < fuel)
    (hover : isOver fresh c.rest = true) (hfresh : fresh = true → c.column = 0) :
    Stops (plainBreaks fuel breaks c).2 := by
  induction fuel generalizing breaks c fresh with
  | zero => omega
  | succ fuel ih =>
    unfold plainBreaks
    split
    · rename_i rest hrest
      have hnext : c.next.rest = rest := by rw [rest_next, hrest]; rfl
      rw [hrest, isOver, if_pos rfl] at hover
      rw [hrest, List.length_cons] at hfuel
      rw [← hnext] at hover
      exact ih _ (by rw [hnext]; omega) hover (fun h => by cases h)
    · rename_i hspace
      dsimp only
      split
      · rename_i hended
        cases hrest : c.rest with
        | nil => exact .inl hrest
        | cons ch rest =>
          have hch : isBreak ch = false := by
            by_contra hbreak
            obtain ⟨ended, left, index, hne, -, hline⟩ := lineEnd_break hrest (by simpa using hbreak)
            rw [show c.lineEnd = _ from hline c.column] at hended
            exact hne (List.isEmpty_iff.1 hended)
          rw [hrest, isOver, if_neg (fun h : ch = ' ' => hspace rest (h ▸ hrest)), if_neg (by simp [hch])] at hover
          rcases Bool.or_eq_true_iff.1 hover with hcomment | hcolumn
          · exact .inr (.inl (by rw [hrest]; exact congrArg some (of_decide_eq_true hcomment)))
          · exact .inr (.inr (hfresh hcolumn))
      · rename_i hended
        have hshort := length_lineEnd_lt hended
        obtain ⟨hmore, hcolumn⟩ := isOver_lineEnd hended hover
        split
        · exact .inr (.inr hcolumn)
        · exact ih _ (by omega) hmore fun _ => hcolumn

/-- Behind a last word, where a line ends, a plain scalar stops, and a scan goes on as from the next
line. -/
theorem plainBlanks_over (hrest : c.rest = ch :: rest) (hch : isBreak ch = true)
    (hover : isOver false c.rest = true) :
    (plainBlanks c).2.1 = true ∧ ((plainBlanks c).1.isEmpty = true ∨ Stops (plainBlanks c).2.2) ∧
      ∀ s : Scan, s.keyAllowed = true →
        (s.goto (plainBlanks c).2.2).skipped = (s.goto c.lineEnd.2).skipped := by
  have hended : ¬c.lineEnd.1.isEmpty := by
    obtain ⟨ended, left, index, hne, -, hline⟩ := lineEnd_break hrest hch
    rw [show c.lineEnd = _ from hline c.column]
    exact fun h => hne (List.isEmpty_iff.1 h)
  obtain ⟨hmore, hcolumn⟩ := isOver_lineEnd hended hover
  have hstops := stops_plainBreaks [] (Nat.lt_succ_self _) hmore fun _ => hcolumn
  have hskips (s : Scan) (hs : s.keyAllowed = true) :=
    Scan.skipped_plainBreaks hs (c.lineEnd.2.rest.length + 1) [] c.lineEnd.2
  have hspan : c.span (· = ' ') = ([], c) := by
    refine span_stop hrest ?_
    rw [decide_eq_false_iff_not]
    rintro rfl
    cases hch
  unfold plainBlanks
  rw [hspan]
  dsimp only
  rw [if_neg hended]
  split
  · exact ⟨rfl, .inl rfl, fun _ _ => rfl⟩
  generalize plainBreaks (c.lineEnd.2.rest.length + 1) [] c.lineEnd.2 = read at hstops hskips
  obtain ⟨_ | breaks, c'⟩ := read
  · exact ⟨rfl, .inl rfl, hskips⟩
  · dsimp only
    split_ifs <;> exact ⟨rfl, .inr hstops, hskips⟩

theorem plainWords_nil (inFlow : Bool) (indent : Int) (fuel : Nat) (read blanks : List Char)
    (ended : Bool) (hrest : c.rest = []) :
    plainWords inFlow indent fuel read blanks ended c = (read, ended, c) := by
  cases fuel with
  | zero => rfl
  | succ fuel =>
    rw [plainWords, hrest]
    rfl

/-- A word at the end of a line is all of a plain scalar. -/
theorem readPlain_word {w : List Char} (hrest : c.rest = w ++ ch :: rest) (hch : isBreak ch = true)
    (hw : w ≠ []) (hcomment : w.head? ≠ some '#') (hrun : plainRun false c.rest = w.length)
    (hover : isOver false (ch :: rest) = true) :
    readPlain false 0 c = (.scalar ⟨w, true⟩ true, true, (plainBlanks (c.skip w.length)).2.2) := by
  have hleft : (c.skip w.length).rest = ch :: rest := by rw [rest_skip, hrest, List.drop_left]
  obtain ⟨hended, hstops, -⟩ := plainBlanks_over hleft hch (hleft ▸ hover)
  have hhead : c.rest.head? ≠ some '#' := by
    rwa [hrest, List.head?_append_of_ne_nil _ hw]
  have hlength : w.length ≠ 0 := mt List.eq_nil_of_length_eq_zero hw
  have htake : c.rest.take w.length = w := by rw [hrest, List.take_left]
  rw [readPlain, plainWords, if_neg hhead]
  dsimp only
  rw [hrun, if_neg hlength, htake, List.append_nil, List.nil_append]
  generalize plainBlanks (c.skip w.length) = read at hended hstops ⊢
  obtain ⟨blanks, ended, c'⟩ := read
  cases hended
  dsimp only at hstops ⊢
  split
  · rfl
  · rename_i hgo
    simp only [Bool.or_eq_true, decide_eq_true_eq, not_or] at hgo
    obtain hblank | hnil | hmark | hcolumn := hstops
    · exact absurd hblank hgo.1.1
    · rw [plainWords_nil _ _ _ _ _ _ hnil]
    · exact absurd hmark hgo.1.2
    · exact absurd (by simp [hcolumn]) hgo.2

theorem plainBlanks_nil (hrest : c.rest = []) : plainBlanks c = ([], false, c) := by
  have hspan : c.span (· = ' ') = ([], c) := by
    rw [span, hrest]
    rfl
  rw [plainBlanks, hspan]
  dsimp only
  rw [lineEnd_nil hrest]
  rfl

theorem plainBlanks_stop (hrest : c.rest = ch :: rest) (hspace : ch ≠ ' ') (hbreak : isBreak ch = false) :
    plainBlanks c = ([], false, c) := by
  rw [plainBlanks, span_stop hrest (by simpa using hspace)]
  dsimp only
  rw [lineEnd_stop hrest hbreak]
  rfl

/-- A word is all of a plain scalar, if neither blanks nor a line end come behind it. -/
theorem readPlain_inline {w tail : List Char} (parent : Int) (hrest : c.rest = w ++ tail) (hw : w ≠ [])
    (hcomment : w.head? ≠ some '#') (hrun : plainRun false c.rest = w.length)
    (hblanks : plainBlanks (c.skip w.length) = ([], false, c.skip w.length)) :
    readPlain false parent c = (.scalar ⟨w, true⟩ true, false, c.skip w.length) := by
  have hhead : c.rest.head? ≠ some '#' := by
    rwa [hrest, List.head?_append_of_ne_nil _ hw]
  have hlength : w.length ≠ 0 := mt List.eq_nil_of_length_eq_zero hw
  have htake : c.rest.take w.length = w := by rw [hrest, List.take_left]
  rw [readPlain, plainWords, if_neg hhead]
  dsimp only
  rw [hrun, if_neg hlength, hblanks, htake]
  rfl

end Token

/-! ## A word in quotes -/

namespace Token

open Cursor

variable {c : Cursor} {rest : List Char}

/-- Whether a character stands for itself in double quotes. -/
def isPlainQuoted (ch : Char) : Bool :=
  !(ch = ' ' || ch = '\t' || isBreak ch || ch = '"' || ch = '\\')

theorem quoted_word {w : List Char} (hw : w.all isPlainQuoted = true) (hrest : c.rest = w ++ '"' :: rest)
    {fuel : Nat} (hfuel : w.length < fuel) (read : List Char) :
    quoted true fuel read true c = .ok (⟨read.reverse ++ w, true⟩, c.skip (w.length + 1)) := by
  induction w generalizing c fuel read with
  | nil =>
    obtain ⟨fuel, rfl⟩ : ∃ k, fuel = k + 1 := ⟨fuel - 1, by omega⟩
    rw [quoted, hrest]
    simp [skip, isBreak]
  | cons ch w ih =>
    obtain ⟨fuel, rfl⟩ : ∃ k, fuel = k + 1 := ⟨fuel - 1, by omega⟩
    rw [List.all_cons, Bool.and_eq_true] at hw
    obtain ⟨hch, hw⟩ := hw
    simp only [isPlainQuoted, Bool.not_eq_true', Bool.or_eq_false_iff, decide_eq_false_iff_not] at hch
    have hnext : c.next.rest = w ++ '"' :: rest := by rw [rest_next, hrest]; rfl
    rw [List.length_cons] at hfuel
    have hmore := ih hw hnext (Nat.lt_of_succ_lt_succ hfuel) (ch :: read)
    rw [quoted, hrest]
    simp [hch, hmore, skip]

/-- A word in double quotes is read as it stands. -/
theorem readQuoted_word {w : List Char} (hw : w.all isPlainQuoted = true)
    (hrest : c.rest = '"' :: w ++ '"' :: rest) :
    readQuoted true c = .ok (.scalar ⟨w, true⟩ false, c.skip (w.length + 2)) := by
  have hnext : c.next.rest = w ++ '"' :: rest := by rw [rest_next, hrest]; rfl
  have hfuel : w.length < c.rest.length + 1 := by simp [hrest]; omega
  rw [readQuoted, quoted_word hw hnext hfuel]
  rfl

end Token

end AppBroker.Yaml
