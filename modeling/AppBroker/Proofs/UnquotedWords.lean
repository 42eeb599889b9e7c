import AppBroker.Proofs.BlankText
import AppBroker.Proofs.Quoting

/-!
# Words with and without quotes

A line `key: word` of the outermost block reads the same with the word in quotes, if the word is
text all the same (`read_unquoted`).
-/

namespace AppBroker.Yaml

/-- The characters that something else than a plain scalar may start with, and the byte order
mark. -/
def indicators : List Char :=
  ['-', '.', '?', ':', ',', '[', ']', '\x7b', '\x7d', '#', '&', '*', '!', '|', '>', '\'', '"', '%',
   '@', '`', '\ufeff']

/-- Whether a plain scalar starts with a character, whatever follows it. -/
def startsWord (ch : Char) : Bool := !(isWhite ch || ch ∈ indicators)

theorem startsWord_stop {ch : Char} (h : startsWord ch = true) :
    ch ≠ ' ' ∧ ch ≠ '#' ∧ isBreak ch = false := by
  simp only [startsWord, indicators, Bool.not_eq_true', Bool.or_eq_false_iff, decide_eq_false_iff_not,
    List.mem_cons, List.not_mem_nil, or_false, not_or, isWhite] at h
  tauto

/-- Whether a text starts with a character of a kind and has no blank in it and none of some other
characters. -/
structure IsWordOf (starts : Char → Bool) (barred w : List Char) : Prop where
  starts : ∃ ch rest, w = ch :: rest ∧ starts ch = true
  inner : ∀ ch ∈ w, isWhite ch = false ∧ ch ∉ barred

section

variable {starts : Char → Bool} {barred : List Char}

theorem isWordOf_iff {w : List Char} : IsWordOf starts barred w ↔
    (w.head?.any starts && w.all fun ch => !isWhite ch && ch ∉ barred) = true := by
  rw [Bool.and_eq_true, List.all_eq_true]
  constructor
  · rintro ⟨⟨ch, rest, rfl, hch⟩, hinner⟩
    exact ⟨hch, fun ch hmem => by simpa using hinner ch hmem⟩
  · rintro ⟨hstarts, hinner⟩
    obtain _ | ⟨ch, rest⟩ := w
    · cases hstarts
    · exact ⟨⟨ch, rest, rfl, hstarts⟩, fun ch hmem => by simpa using hinner ch hmem⟩

instance : DecidablePred (IsWordOf starts barred) := fun _ => decidable_of_iff' _ isWordOf_iff

end

/-- Whether a text can be a key or its value both as it is and in double quotes. -/
abbrev IsWord : List Char → Prop := IsWordOf startsWord [':', '"', '\\', '\ufeff']

namespace IsWord

variable {w tail : List Char} (hw : IsWord w)
include hw

theorem ne_nil : w ≠ [] := by
  obtain ⟨ch, rest, rfl, -⟩ := hw.starts
  exact List.cons_ne_nil _ _

theorem no_comment : w.head? ≠ some '#' := by
  obtain ⟨ch, rest, rfl, hch⟩ := hw.starts
  rintro ⟨⟩
  cases hch

theorem isPlainQuoted : w.all Token.isPlainQuoted = true := by
  rw [List.all_eq_true]
  intro ch hch
  obtain ⟨hwhite, hmarks⟩ := hw.inner ch hch
  simp only [isWhite, Bool.or_eq_false_iff, decide_eq_false_iff_not] at hwhite
  simp only [List.mem_cons, List.not_mem_nil, or_false, not_or] at hmarks
  simp [Token.isPlainQuoted, hwhite, hmarks]

theorem inline : ∀ ch ∈ w, isBreak ch = false ∧ ch ≠ '\ufeff' := by
  intro ch hch
  obtain ⟨hwhite, hmarks⟩ := hw.inner ch hch
  simp only [isWhite, Bool.or_eq_false_iff] at hwhite
  exact ⟨hwhite.2, fun h => hmarks (by simp [h])⟩

/-- All of a word is read at once, where no more of a plain scalar comes. -/
theorem plainRun_eq (htail : Token.plainRun false tail = 0) :
    Token.plainRun false (w ++ tail) = w.length := by
  have hinner := hw.inner
  clear hw
  induction w with
  | nil => exact htail
  | cons ch w ih =>
    obtain ⟨hwhite, hmarks⟩ := hinner ch (List.mem_cons_self ..)
    have hcolon : ch ≠ ':' := fun h => hmarks (by simp [h])
    rw [List.cons_append, Token.plainRun, ih fun c hc => hinner c (List.mem_cons_of_mem _ hc)]
    simp [hwhite, hcolon]

end IsWord

theorem Token.plainRun_break {ch : Char} (rest : List Char) (hch : isBreak ch = true) :
    plainRun false (ch :: rest) = 0 := by
  simp [plainRun, isWhite, hch]

namespace Scan

section

variable {s : Scan} {ch : Char} {rest : List Char}

theorem readToken_word (hrest : s.cursor.rest = ch :: rest) (hch : startsWord ch = true) :
    s.readToken ch rest = s.readPlain := by
  simp only [startsWord, indicators, Bool.not_eq_true', Bool.or_eq_false_iff, decide_eq_false_iff_not,
    List.mem_cons, List.not_mem_nil, or_false, not_or] at hch
  have hmarker := Cursor.atMarker_stop hrest hch.2.1 hch.2.2.1
  have hstart (inFlow : Bool) : Token.startsPlain inFlow (ch :: rest) = true := by
    simp [Token.startsPlain, hch]
  unfold readToken
  simp [hch, hmarker, hstart]

theorem readToken_quotes (hrest : s.cursor.rest = '"' :: rest) :
    s.readToken '"' rest = s.read (Token.readQuoted true) := by
  have hmarker := Cursor.atMarker_stop hrest (by decide) (by decide)
  unfold readToken
  simp [hmarker]

end

/-! ## A line with a key -/

/-- A scan at another text. -/
def facing (s : Scan) (text : List Char) : Scan := { s with cursor := { s.cursor with rest := text } }

/-- Whether a scan is where a line may begin with a key of the outermost block. -/
structure AtLine (s : Scan) : Prop where
  flow : s.flow = 0
  keyAllowed : s.keyAllowed = true
  places : s.places = []
  column : s.cursor.column = 0
  indent : s.indent ≤ 0

/-- A scan behind a word at the beginning of a line, which may turn out to be a key. -/
def behindKey (s : Scan) (k text : List Char) : Scan :=
  { s with
    cursor := ⟨text, s.cursor.index + k.length, s.cursor.line, k.length⟩
    reversed := .scalar ⟨k, true⟩ true :: s.reversed
    count := s.count + 1
    keyAllowed := false
    places := [(0, ⟨s.count, s.indent = 0, s.cursor.index, s.cursor.line, 0⟩)] }

/-- A scan at the value of a key. -/
def atValue (s : Scan) (k text : List Char) : Scan where
  cursor := ⟨text, s.cursor.index + k.length + 2, s.cursor.line, k.length + 2⟩
  reversed := .value :: .scalar ⟨k, true⟩ true :: s.reversed
  count := s.count + 2
  openings := ⟨s.count, s.indent < 0⟩ :: s.openings
  flow := 0
  indent := 0
  indents := if s.indent < 0 then s.indent :: s.indents else s.indents
  keyAllowed := false

section

variable {s : Scan} {k v rest : List Char} {ch : Char}

theorem AtLine.readToken_key (h : AtLine s) (hk : IsWord k) (hstart : k ++ ':' :: ' ' :: v = ch :: rest) :
    (s.facing (k ++ ':' :: ' ' :: v)).readToken ch rest = .ok (s.behindKey k (':' :: ' ' :: v)) := by
  obtain ⟨⟨text, index, line, column⟩, reversed, count, openings, flow, indent, indents, keyAllowed,
    places⟩ := s
  obtain ⟨hflow, hkeyAllowed, hplaces, hcolumn, -⟩ := h
  dsimp only at hflow hkeyAllowed hplaces hcolumn
  subst hflow hkeyAllowed hplaces hcolumn
  have hskip : (⟨k ++ ':' :: ' ' :: v, index, line, 0⟩ : Cursor).skip k.length =
      ⟨':' :: ' ' :: v, index + k.length, line, k.length⟩ := by
    rw [Cursor.skip_inline hk.inline, Nat.zero_add]
  have hread : Token.readPlain false indent ⟨k ++ ':' :: ' ' :: v, index, line, 0⟩ =
      (.scalar ⟨k, true⟩ true, false, ⟨':' :: ' ' :: v, index + k.length, line, k.length⟩) := by
    rw [Token.readPlain_inline indent rfl hk.ne_nil hk.no_comment (hk.plainRun_eq rfl), hskip]
    rw [hskip]
    exact Token.plainBlanks_stop rfl (by decide) (by decide)
  obtain ⟨first, more, rfl, hfirst⟩ := hk.starts
  cases hstart
  let saved : Scan := ⟨⟨ch :: more ++ ':' :: ' ' :: v, index, line, 0⟩, reversed, count, openings, 0,
    indent, indents, true, [(0, ⟨count, decide (indent = 0), index, line, 0⟩)]⟩
  have hsave : (Scan.facing ⟨⟨text, index, line, 0⟩, reversed, count, openings, 0, indent, indents, true,
      []⟩ (ch :: more ++ ':' :: ' ' :: v)).savePlace = .ok saved := rfl
  have hplain : Token.readPlain (saved.flow ≠ 0) saved.indent saved.cursor = _ := hread
  rw [readToken_word rfl hfirst, Scan.readPlain]
  rw [hsave]
  dsimp only [bind, Except.bind]
  rw [hplain]
  rfl

theorem AtLine.settle_key (h : AtLine s) (hlength : k.length ≤ 1024) :
    (s.behindKey k (':' :: v)).settle = .ok (s.behindKey k (':' :: v)) := by
  have hrest : (s.behindKey k (':' :: v)).cursor.rest = ':' :: v := rfl
  refine settle_stop hrest (by decide) (by decide) (by decide) ?_ ?_
  · intro place hplace
    cases List.mem_singleton.1 hplace
    show (decide (s.cursor.line ≠ s.cursor.line) ||
      decide (1024 < s.cursor.index + k.length - s.cursor.index)) = false
    rw [Nat.add_sub_cancel_left]
    simpa using hlength
  · have hindent := h.indent
    show s.indent ≤ (k.length : Int)
    omega

theorem AtLine.readToken_colon (h : AtLine s) (hk : k ≠ []) :
    (s.behindKey k (':' :: ' ' :: v)).readToken ':' (' ' :: v) =
      .ok { s.atValue k v with cursor := ⟨' ' :: v, s.cursor.index + k.length + 1, s.cursor.line,
        k.length + 1⟩ } := by
  obtain ⟨⟨text, index, line, column⟩, reversed, count, openings, flow, indent, indents, keyAllowed,
    places⟩ := s
  obtain ⟨hflow, -, -, -, hindent⟩ := h
  dsimp only at hflow hindent
  subst hflow
  obtain ⟨first, more, rfl⟩ := List.exists_cons_of_ne_nil hk
  have hopened : Scan.readToken (Scan.behindKey ⟨⟨text, index, line, column⟩, reversed, count, openings, 0,
      indent, indents, keyAllowed, places⟩ (first :: more) (':' :: ' ' :: v)) ':' (' ' :: v) =
      .ok (Scan.opened (Scan.behindKey ⟨⟨text, index, line, column⟩, reversed, count, openings, 0, indent,
        indents, keyAllowed, places⟩ (first :: more) (':' :: ' ' :: v)) (indent < 0)
        ⟨count, indent = 0, index, line, 0⟩) := rfl
  rw [hopened]
  by_cases hopens : indent < 0
  · simp only [opened, atValue, hopens, decide_true, if_true]
    rfl
  · obtain rfl : indent = 0 := by omega
    rfl

/-- A scan comes from the beginning of a line to the value of its key. -/
theorem AtLine.comes (h : AtLine s) (hk : IsWord k) (hlength : k.length ≤ 1024) (hv : v = ch :: rest)
    (hspace : ch ≠ ' ') (hcomment : ch ≠ '#') (hbreak : isBreak ch = false) :
    Comes (s.facing (k ++ ':' :: ' ' :: v)) (s.atValue k v) := by
  obtain ⟨first, more, hfirst⟩ := List.exists_cons_of_ne_nil hk.ne_nil
  have hstart : k ++ ':' :: ' ' :: v = first :: (more ++ ':' :: ' ' :: v) := by rw [hfirst]; rfl
  have hvalue : Scan.settle { s.atValue k v with cursor := ⟨' ' :: v, s.cursor.index + k.length + 1,
      s.cursor.line, k.length + 1⟩ } = .ok (s.atValue k v) := by
    have hskipped := skipped_space (s := s.atValue k v)
      (c := ⟨' ' :: v, s.cursor.index + k.length + 1, s.cursor.line, k.length + 1⟩) rfl
    refine (settle_congr hskipped.symm).trans ?_
    exact settle_stop hv hspace hcomment hbreak (fun _ h => by cases h) (Int.natCast_nonneg _)
  exact (Comes.refl.step hstart (h.readToken_key hk hstart) (h.settle_key hlength)).step rfl
    (h.readToken_colon hk.ne_nil) hvalue

end

/-! ## The value of the key -/

section

variable {s : Scan} {k w tail : List Char} (hw : IsWord w)

/-- A scan behind the value of a key, which is a word with or without quotes. -/
def behindValue (s : Scan) (k w : List Char) (plain : Bool) (cursor : Cursor) (ended : Bool) : Scan :=
  { (s.atValue k []).emit (.scalar ⟨w, true⟩ plain) with cursor, keyAllowed := ended }

include hw

theorem finish_quoted (s : Scan) (k tail : List Char) :
    (s.atValue k ('"' :: w ++ '"' :: tail)).finish =
      (s.behindValue k w false ⟨tail, s.cursor.index + k.length + 2 + w.length + 2, s.cursor.line,
        k.length + 2 + w.length + 2⟩ false).settle >>= finish := by
  refine finish_step rfl ?_
  rw [readToken_quotes rfl]
  have hread : Token.readQuoted true (s.atValue k ('"' :: w ++ '"' :: tail)).cursor = _ :=
    Token.readQuoted_word hw.isPlainQuoted rfl
  have hskip : (s.atValue k ('"' :: w ++ '"' :: tail)).cursor.skip (w.length + 2) =
      ⟨tail, s.cursor.index + k.length + 2 + w.length + 2, s.cursor.line,
        k.length + 2 + w.length + 2⟩ := by
    have hinline : ∀ ch ∈ '"' :: w ++ ['"'], isBreak ch = false ∧ ch ≠ '\ufeff' := by
      intro ch hch
      simp only [List.cons_append, List.mem_cons, List.mem_append, List.not_mem_nil, or_false] at hch
      obtain rfl | hch | rfl := hch
      · decide
      · exact hw.inline ch hch
      · decide
    have hskip : (⟨'"' :: w ++ ['"'] ++ tail, s.cursor.index + k.length + 2, s.cursor.line,
        k.length + 2⟩ : Cursor).skip _ = _ := Cursor.skip_inline hinline ..
    simpa [Nat.add_assoc, atValue] using hskip
  rw [hskip] at hread
  unfold Scan.read
  rw [show (s.atValue k ('"' :: w ++ '"' :: tail)).savePlace = .ok _ from rfl]
  show (Token.readQuoted true (s.atValue k ('"' :: w ++ '"' :: tail)).cursor >>= _) = _
  rw [hread]
  rfl

theorem readToken_value (s : Scan) (k : List Char) {ended : Bool} {c : Cursor} {ch : Char}
    {rest : List Char} (hstart : w ++ tail = ch :: rest)
    (hread : Token.readPlain false 0
      ⟨w ++ tail, s.cursor.index + k.length + 2, s.cursor.line, k.length + 2⟩ =
        (.scalar ⟨w, true⟩ true, ended, c)) :
    (s.atValue k (w ++ tail)).readToken ch rest = .ok (s.behindValue k w true c ended) := by
  obtain ⟨first, more, hfirst, hstarts⟩ := hw.starts
  have hch : first = ch := by
    rw [hfirst] at hstart
    exact (List.cons.inj hstart).1
  rw [readToken_word hstart (hch ▸ hstarts), Scan.readPlain]
  rw [show (s.atValue k (w ++ tail)).savePlace = .ok _ from rfl]
  have hsame : Token.readPlain ((s.atValue k (w ++ tail)).flow ≠ 0) (s.atValue k (w ++ tail)).indent
      (s.atValue k (w ++ tail)).cursor = _ := hread
  dsimp only [bind, Except.bind]
  rw [hsame]
  rfl

theorem finish_unquoted (s : Scan) (k : List Char) {ended : Bool} {c : Cursor}
    (hread : Token.readPlain false 0
      ⟨w ++ tail, s.cursor.index + k.length + 2, s.cursor.line, k.length + 2⟩ =
        (.scalar ⟨w, true⟩ true, ended, c)) :
    (s.atValue k (w ++ tail)).finish = (s.behindValue k w true c ended).settle >>= finish := by
  obtain ⟨ch, rest, hhead, -⟩ := hw.starts
  have hstart : w ++ tail = ch :: (rest ++ tail) := by rw [hhead]; rfl
  exact finish_step hstart (readToken_value hw s k hstart hread)

section

variable {ch : Char} {rest : List Char} (hch : isBreak ch = true) (hover : isOver false (ch :: rest) = true)
include hch hover

theorem readPlain_line (index line column : Nat) :
    Token.readPlain false 0 ⟨w ++ ch :: rest, index, line, column⟩ =
      (.scalar ⟨w, true⟩ true, true,
        (Token.plainBlanks ⟨ch :: rest, index + w.length, line, column + w.length⟩).2.2) := by
  have hread := Token.readPlain_word (c := ⟨w ++ ch :: rest, index, line, column⟩) rfl hch hw.ne_nil
    hw.no_comment (hw.plainRun_eq (Token.plainRun_break rest hch)) hover
  rwa [Cursor.skip_inline hw.inline] at hread

omit hw in
/-- Behind a word without quotes at the end of a line, a scan goes on as from the next line. -/
theorem settle_line (s : Scan) (k w : List Char) (index line column : Nat) :
    (s.behindValue k w true (Token.plainBlanks ⟨ch :: rest, index, line, column⟩).2.2 true).settle =
      (s.behindValue k w true (⟨ch :: rest, index, line, column⟩ : Cursor).lineEnd.2 true).settle := by
  obtain ⟨-, -, hblanks⟩ :=
    Token.plainBlanks_over (c := ⟨ch :: rest, index, line, column⟩) rfl hch hover
  exact settle_congr (hblanks (s.behindValue k w true ⟨ch :: rest, index, line, column⟩ true) rfl)

end

/-- The tokens of a scan that is through, with quotes around all plain scalars that are text. -/
def woven (o : Reading Scan) : Reading (List Token) := do
  let s ← o
  return (weave s.openings 0 s.reversed.reverse).map Token.quote

omit hw in
theorem Follows.woven_eq {n : Nat} {base base' : List Token} {o o' : Reading Scan}
    (h : Follows n base base' o o') (hbase : base.map Token.quote = base'.map Token.quote) :
    woven o = woven o' := by
  obtain ⟨b, rfl, rfl⟩ | ⟨s, s', rfl, rfl, fresh, hs, rfl⟩ := h
  · rfl
  have hreversed : (fresh ++ base).reverse.map Token.quote = (fresh ++ base').reverse.map Token.quote := by
    simp only [List.map_reverse, List.map_append, hbase]
  show Except.ok _ = Except.ok _
  rw [hs, ← weave_quote, hreversed, weave_quote]
  rfl

/-- Where the line ends behind the value of a key, quotes around it change nothing. -/
theorem woven_line (s : Scan) (k : List Char) (hstr : suggested false w = .str) {ch : Char}
    {rest : List Char} (hch : isBreak ch = true) (hover : isOver false (ch :: rest) = true) :
    woven (s.atValue k (w ++ ch :: rest)).finish =
      woven (s.atValue k ('"' :: w ++ '"' :: ch :: rest)).finish := by
  let c : Cursor := ⟨ch :: rest, s.cursor.index + k.length + 2 + w.length, s.cursor.line,
    k.length + 2 + w.length⟩
  have hquoted : (s.behindValue k w false ⟨ch :: rest, s.cursor.index + k.length + 2 + w.length + 2,
      s.cursor.line, k.length + 2 + w.length + 2⟩ false).settle =
      (s.behindValue k w false (c.lineEnd.2.shift 2) true).settle := by
    obtain ⟨ended, left, index, hended, -, hline⟩ := Cursor.lineEnd_break (c := c) rfl hch
    have hsame : ({ c with column := c.column + 2 } : Cursor).lineEnd = c.lineEnd :=
      (hline _).trans (hline c.column).symm
    have hshift : (⟨ch :: rest, s.cursor.index + k.length + 2 + w.length + 2, s.cursor.line,
        k.length + 2 + w.length + 2⟩ : Cursor).lineEnd = (c.lineEnd.1, c.lineEnd.2.shift 2) := by
      rw [← hsame]
      exact Cursor.lineEnd_shift { c with column := c.column + 2 } 2
    refine settle_congr ((skipped_lineEnd (s := s.behindValue k w false c false) ?_).trans ?_)
    · rw [hshift, show c.lineEnd = _ from hline c.column]
      exact fun h => hended (List.isEmpty_iff.1 h)
    · rw [hshift]
      rfl
  rw [finish_unquoted hw s k (readPlain_line hw hch hover ..), finish_quoted hw s k,
    settle_line hch hover, hquoted]
  have halike : Alike 2 (.scalar ⟨w, true⟩ true :: (s.atValue k []).reversed)
      (.scalar ⟨w, true⟩ false :: (s.atValue k []).reversed)
      (s.behindValue k w true c.lineEnd.2 true) (s.behindValue k w false (c.lineEnd.2.shift 2) true) :=
    ⟨[], rfl, rfl⟩
  refine (halike.settle.bind fun _ _ => Alike.finish).woven_eq ?_
  simp [Token.quote, hstr]

omit hw in
theorem closeBlocks_goto (column : Int) (indents : List Int) (s : Scan) (c : Cursor) :
    closeBlocks column indents (s.goto c) = (closeBlocks column indents s).goto c := by
  induction indents generalizing s with
  | nil => rfl
  | cons outer rest ih =>
    rw [closeBlocks, closeBlocks]
    show (if column < s.indent then _ else _) = _
    split
    · exact ih { s.emit .blockEnd with indent := outer, indents := rest }
    · rfl

omit hw in
/-- At the end of the text it does not matter where that is. -/
theorem woven_end (hrest : s.cursor.rest = []) {c : Cursor} (hc : c.rest = []) :
    woven (s.goto c).finish = woven s.finish := by
  have hunwind : (s.goto c).unwind (-1) = (s.unwind (-1)).goto c := by
    unfold unwind
    rw [apply_ite (Scan.goto · c), ← closeBlocks_goto]
    rfl
  have hdrop (s : Scan) : (s.goto c).dropPlace = s.dropPlace.map (Scan.goto · c) := by
    unfold dropPlace
    rw [apply_ite (Except.map (Scan.goto · c))]
    rfl
  unfold finish
  rw [goOn_nil (s := s.goto c) _ hc, goOn_nil _ hrest, atMargin, atMargin, hunwind, hdrop]
  cases (s.unwind (-1)).dropPlace <;> rfl

omit hw in
theorem settle_end (hrest : s.cursor.rest = []) (hplaces : s.places = [])
    (hindent : s.indent ≤ s.cursor.column) : s.settle = .ok s := by
  have hsame : s.cursor.skipSpaces.skipComment = s.cursor := by
    have hspaces : s.cursor.skipSpaces = s.cursor := by
      rw [Cursor.skipSpaces, Cursor.span, hrest]
      rfl
    rw [hspaces, Cursor.skipComment, hrest]
  have hskipped : s.skipped = s := by
    rw [skipped_eq hsame, Cursor.lineEnd_nil hrest]
    rfl
  rw [settle_eq, hskipped, dropStale_fresh (by simp [hplaces])]
  exact congrArg Except.ok (unwind_self hindent)

/-- Where the text ends behind the value of a key, quotes around it change nothing. -/
theorem woven_last (s : Scan) (k : List Char) (hstr : suggested false w = .str) :
    woven (s.atValue k (w ++ [])).finish = woven (s.atValue k ('"' :: w ++ ['"'])).finish := by
  let c : Cursor := ⟨[], s.cursor.index + k.length + 2 + w.length, s.cursor.line,
    k.length + 2 + w.length⟩
  have hskip : (⟨w ++ [], s.cursor.index + k.length + 2, s.cursor.line, k.length + 2⟩ : Cursor).skip
      w.length = c := Cursor.skip_inline hw.inline ..
  have hread := Token.readPlain_inline
    (c := ⟨w ++ [], s.cursor.index + k.length + 2, s.cursor.line, k.length + 2⟩) 0 rfl hw.ne_nil
    hw.no_comment (hw.plainRun_eq rfl) (hskip ▸ Token.plainBlanks_nil rfl)
  rw [hskip] at hread
  have hindent (n : Nat) : (0 : Int) ≤ (n : Int) := Int.natCast_nonneg n
  rw [finish_unquoted hw s k hread, finish_quoted hw s k,
    settle_end (s := s.behindValue k w true c false) rfl rfl (hindent _),
    settle_end (s := s.behindValue k w false ⟨[], _, _, _⟩ false) rfl rfl (hindent _)]
  have halike : Alike 2 (.scalar ⟨w, true⟩ true :: (s.atValue k []).reversed)
      (.scalar ⟨w, true⟩ false :: (s.atValue k []).reversed)
      (s.behindValue k w true c false) (s.behindValue k w false (c.shift 2) false) := ⟨[], rfl, rfl⟩
  refine (halike.finish.woven_eq (by simp [Token.quote, hstr])).trans ?_
  exact (woven_end (s := s.behindValue k w false (c.shift 2) false) rfl
    (c := ⟨[], s.cursor.index + k.length + 2 + w.length + 2, s.cursor.line,
      k.length + 2 + w.length + 2⟩) rfl).symm

end

end Scan

/-! ## Texts with such a line -/

/-- Whether a line with a key may stand behind a text: a scan comes to where the line begins, in the
outermost block and outside everything else, whatever the line is. -/
def LineBegins (before : List Char) : Prop :=
  ∃ s : Scan, s.AtLine ∧ ∀ ch rest, startsWord ch = true →
    ∃ t, (Scan.start (before ++ ch :: rest)).settle = .ok t ∧ Scan.Comes t (s.facing (ch :: rest))

/-- Whether a line ends at the beginning of a text, and the next line does not go on with a plain
scalar. -/
def EndsLine (tail : List Char) : Prop := endsWith isBreak tail = true ∧ isOver false tail = true

instance : DecidablePred EndsLine := fun _ => inferInstanceAs (Decidable (_ ∧ _))

theorem LineBegins.nil : LineBegins [] := by
  refine ⟨Scan.start [], ⟨rfl, rfl, rfl, rfl, by decide⟩, fun ch rest hch => ⟨_, ?_, .refl⟩⟩
  obtain ⟨hspace, hcomment, hbreak⟩ := startsWord_stop hch
  have hmark : ch ≠ '\ufeff' := by
    rintro rfl
    cases hch
  have hstart : Scan.start ([] ++ ch :: rest) = (Scan.start []).facing (ch :: rest) := by
    unfold Scan.start Scan.facing
    split
    · rename_i heq
      cases heq
      exact absurd rfl hmark
    · rfl
  rw [hstart]
  exact Scan.settle_stop rfl hspace hcomment hbreak (fun _ h => by cases h)
    (show (-1 : Int) ≤ 0 by decide)

section

variable {before k w : List Char} (hbefore : LineBegins before) (hk : IsWord k) (hlength : k.length ≤ 1024)
  (hw : IsWord w)
include hbefore hk hlength hw

theorem LineBegins.line : LineBegins (before ++ (k ++ ':' :: ' ' :: (w ++ ['\n']))) := by
  obtain ⟨s, hline, hcomes⟩ := hbefore
  let next (text : List Char) : Cursor :=
    ⟨text, s.cursor.index + k.length + 2 + w.length + 1, s.cursor.line + 1, 0⟩
  refine ⟨s.behindValue k w true (next []) true, ⟨rfl, rfl, rfl, rfl, Int.le_refl 0⟩,
    fun ch rest hch => ?_⟩
  obtain ⟨hspace, hcomment, hbreak⟩ := startsWord_stop hch
  obtain ⟨first, more, hfirst, hstarts⟩ := hk.starts
  obtain ⟨t, hsettle, hfrom⟩ := hcomes first (more ++ ':' :: ' ' :: (w ++ '\n' :: ch :: rest)) hstarts
  have htext : before ++ (k ++ ':' :: ' ' :: (w ++ ['\n'])) ++ ch :: rest =
      before ++ first :: (more ++ ':' :: ' ' :: (w ++ '\n' :: ch :: rest)) := by
    simp [hfirst]
  have hfacing : first :: (more ++ ':' :: ' ' :: (w ++ '\n' :: ch :: rest)) =
      k ++ ':' :: ' ' :: (w ++ '\n' :: ch :: rest) := by
    rw [hfirst]
    rfl
  rw [hfacing] at hfrom
  rw [htext]
  refine ⟨t, hsettle, ?_⟩
  have hover : isOver false ('\n' :: ch :: rest) = true := by
    rw [isOver, if_neg (by decide), if_pos (by decide), isOver, if_neg hspace, hbreak]
    simp
  obtain ⟨head, left, hhead, hheads⟩ := hw.starts
  have hvalue : w ++ '\n' :: ch :: rest = head :: (left ++ '\n' :: ch :: rest) := by rw [hhead]; rfl
  obtain ⟨hspace', hcomment', hbreak'⟩ := startsWord_stop hheads
  refine ((hfrom.trans (hline.comes hk hlength hvalue hspace' hcomment' hbreak')).step hvalue
    (Scan.readToken_value hw s k hvalue (Scan.readPlain_line hw rfl hover ..))) ?_
  rw [Scan.settle_line rfl hover]
  exact Scan.settle_stop rfl hspace hcomment hbreak (fun _ h => by cases h) (Int.le_refl 0)

end

section

variable {before k w tail : List Char} (hbefore : LineBegins before) (hk : IsWord k)
  (hlength : k.length ≤ 1024)
include hbefore hk hlength

/-- The tokens of a text with a line for a key are those before it and those from its value on. -/
theorem tokens_line :
    ∃ s : Scan, ∀ ch rest, ch ≠ ' ' → ch ≠ '#' → isBreak ch = false →
      (tokens (before ++ (k ++ ':' :: ' ' :: ch :: rest))).map (·.map Token.quote) =
        if (before ++ (k ++ ':' :: ' ' :: ch :: rest)).all isPrintable
        then Scan.woven (s.atValue k (ch :: rest)).finish else Token.malformed := by
  obtain ⟨s, hline, hcomes⟩ := hbefore
  refine ⟨s, fun ch rest hspace hcomment hbreak => ?_⟩
  split
  · rename_i hprintable
    obtain ⟨first, more, hfirst, hstarts⟩ := hk.starts
    obtain ⟨t, hsettle, hfrom⟩ := hcomes first (more ++ ':' :: ' ' :: ch :: rest) hstarts
    have hfacing : first :: (more ++ ':' :: ' ' :: ch :: rest) = k ++ ':' :: ' ' :: ch :: rest := by
      rw [hfirst]
      rfl
    rw [hfacing] at hsettle hfrom
    rw [tokens_eq hprintable, hsettle]
    show Except.map _ (t.finish >>= _) = _
    rw [hfrom.finish_eq, (hline.comes hk hlength rfl hspace hcomment hbreak).finish_eq]
    cases (s.atValue k (ch :: rest)).finish <;> rfl
  · rename_i hprintable
    unfold tokens
    rw [(Bool.not_eq_true _).mp hprintable]
    rfl

variable (hw : IsWord w) (hstr : suggested false w = .str) (htail : EndsLine tail)
include hw hstr htail

theorem tokens_unquoted :
    (tokens (before ++ (k ++ ':' :: ' ' :: (w ++ tail)))).map (·.map Token.quote) =
      (tokens (before ++ (k ++ ':' :: ' ' :: ('"' :: w ++ '"' :: tail)))).map (·.map Token.quote) := by
  obtain ⟨s, htokens⟩ := tokens_line hbefore hk hlength
  have hwoven : Scan.woven (s.atValue k (w ++ tail)).finish =
      Scan.woven (s.atValue k ('"' :: w ++ '"' :: tail)).finish := by
    obtain ⟨hend, hover⟩ := htail
    cases tail with
    | nil => exact Scan.woven_last hw s k hstr
    | cons ch rest => exact Scan.woven_line hw s k hstr hend hover
  have hprintable : (before ++ (k ++ ':' :: ' ' :: (w ++ tail))).all isPrintable =
      (before ++ (k ++ ':' :: ' ' :: ('"' :: w ++ '"' :: tail))).all isPrintable := by
    have hmark : isPrintable '"' = true := by decide
    simp [List.all_append, hmark]
  obtain ⟨ch, rest, hhead, hch⟩ := hw.starts
  obtain ⟨hspace, hcomment, hbreak⟩ := startsWord_stop hch
  have hunquoted := htokens ch (rest ++ tail) hspace hcomment hbreak
  have hquoted := htokens '"' (w ++ '"' :: tail) (by decide) (by decide) (by decide)
  have hvalue : ch :: (rest ++ tail) = w ++ tail := by rw [hhead]; rfl
  rw [hvalue] at hunquoted
  rw [hunquoted, hprintable, hwoven]
  exact hquoted.symm

/-- Quotes around the value of a key that is text all the same change nothing. -/
theorem read_unquoted :
    Yaml.read false (before ++ (k ++ ':' :: ' ' :: (w ++ tail))) =
      Yaml.read false (before ++ (k ++ ':' :: ' ' :: ('"' :: w ++ '"' :: tail))) := by
  have hquote (o : Reading (List Token)) : (o >>= Node.ofTokens false) =
      (o.map (·.map Token.quote) >>= Node.ofTokens false) := by
    cases o with
    | error b => rfl
    | ok ts => exact (Node.ofTokens_quote ts).symm
  have hread {text text' : List Char}
      (h : (tokens text >>= Node.ofTokens false) = (tokens text' >>= Node.ofTokens false)) :
      Yaml.read false text = Yaml.read false text' := by
    unfold Yaml.read
    rw [← bind_assoc, ← bind_assoc, h]
  refine hread ?_
  rw [hquote, tokens_unquoted hbefore hk hlength hw hstr htail, ← hquote]

end

end AppBroker.Yaml
