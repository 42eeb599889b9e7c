import AppBroker.Proofs.Readers

/-!
# Scans side by side

Two scans that are at the same text, however they came there, add the same tokens from then on
(`Scan.Alike.run`). A scan gets the same tokens from whatever fuel is enough (`Scan.goOn_congr`).
-/

namespace AppBroker.Yaml

namespace Scan

open Token (malformed)

/-- One round of the scan up to where the next token begins. -/
def settle (s : Scan) : Reading Scan := do
  let s ← (skipToToken (s.cursor.rest.length + 1) s).dropStale
  return s.unwind s.cursor.column

/-- What a scan does from where a token begins. -/
def goOn (fuel : Nat) (s : Scan) : Reading Scan :=
  match s.cursor.rest with
  | [] => do
    let s ← s.atMargin
    return s.emit .streamEnd
  | ch :: rest => do run fuel (← s.readToken ch rest)

theorem run_succ (fuel : Nat) (s : Scan) : run (fuel + 1) s = s.settle >>= goOn fuel := by
  rw [run, settle]
  cases (skipToToken (s.cursor.rest.length + 1) s).dropStale <;> rfl

theorem goOn_nil {s : Scan} (fuel : Nat) (h : s.cursor.rest = []) :
    s.goOn fuel = s.atMargin >>= fun s => pure (s.emit .streamEnd) := by
  unfold goOn
  rw [h]

theorem goOn_cons {s : Scan} (fuel : Nat) {ch : Char} {rest : List Char} (h : s.cursor.rest = ch :: rest) :
    s.goOn fuel = s.readToken ch rest >>= run fuel := by
  unfold goOn
  rw [h]

/-- Without the place on the present level. -/
def leave (s : Scan) : Scan := { s with places := s.places.filter fun (level, _) => level ≠ s.flow }

/-- What a colon makes of the place where its key began. -/
def opened (s : Scan) (begins : Bool) (place : KeyPlace) : Scan :=
  let s := if begins then s.leave.deepen place.column else s.leave
  { s with openings := ⟨place.position, begins⟩ :: s.openings }.mark .value 1 false

/-! ## At the same text -/

/-- A place for a key with more characters in front. -/
def shiftPlace (k : Nat) : Nat × KeyPlace → Nat × KeyPlace
  | (level, place) => (level, { place with index := place.index + k })

/-- A scan with more characters in front of its text and other tokens so far. -/
def moved (k : Nat) (reversed : List Token) (s : Scan) : Scan :=
  { s with cursor := s.cursor.shift k, reversed, places := s.places.map (shiftPlace k) }

section

variable (k : Nat) (r : List Token) (s : Scan)

theorem isStale_moved (place : Nat × KeyPlace) :
    (s.moved k r).isStale (shiftPlace k place).2 = s.isStale place.2 := by
  show (decide _ || decide (1024 < s.cursor.index + k - (place.2.index + k))) = _
  rw [Nat.add_sub_add_right]
  rfl

theorem dropStale_moved : (s.moved k r).dropStale = s.dropStale.map (moved k r) := by
  have hany : ((s.moved k r).places.any fun place => place.2.required && (s.moved k r).isStale place.2)
      = s.places.any fun place => place.2.required && s.isStale place.2 := by
    simp only [moved, List.any_map]
    exact congrArg s.places.any (funext fun place => congrArg _ (isStale_moved k r s place))
  have hfilter : ((s.moved k r).places.filter fun place => !(s.moved k r).isStale place.2)
      = (s.places.filter fun place => !s.isStale place.2).map (shiftPlace k) := by
    conv_lhs => unfold moved
    rw [List.filter_map]
    exact congrArg _ (congrArg (s.places.filter ·)
      (funext fun place => congrArg _ (isStale_moved k r s place)))
  unfold dropStale
  rw [hany, hfilter]
  split <;> rfl

theorem dropPlace_moved : (s.moved k r).dropPlace = s.dropPlace.map (moved k r) := by
  have hany : ((s.moved k r).places.any fun place =>
      place.1 = (s.moved k r).flow && place.2.required) =
      s.places.any fun place => place.1 = s.flow && place.2.required := by
    simp only [moved, List.any_map]
    rfl
  have hfilter : ((s.moved k r).places.filter fun place => place.1 ≠ (s.moved k r).flow) =
      (s.places.filter fun place => place.1 ≠ s.flow).map (shiftPlace k) := by
    conv_lhs => unfold moved
    rw [List.filter_map]
    rfl
  unfold dropPlace
  rw [hany, hfilter]
  split <;> rfl

end

/-- Whether two scans differ in what they read up to a place only. -/
def Alike (k : Nat) (base base' : List Token) (s s' : Scan) : Prop :=
  ∃ fresh, s.reversed = fresh ++ base ∧ s' = s.moved k (fresh ++ base')

/-- Whether two readings break off alike or go on alike. -/
def Follows (k : Nat) (base base' : List Token) (o o' : Reading Scan) : Prop :=
  (∃ b, o = .error b ∧ o' = .error b) ∨ ∃ s s', o = .ok s ∧ o' = .ok s' ∧ Alike k base base' s s'

section

variable {k : Nat} {base base' : List Token} {s s' : Scan} {o o' : Reading Scan}

theorem Alike.ok (h : Alike k base base' s s') : Follows k base base' (.ok s) (.ok s') :=
  .inr ⟨s, s', rfl, rfl, h⟩

theorem follows_error (b : Breakage) : Follows k base base' (.error b) (.error b) :=
  .inl ⟨b, rfl, rfl⟩

theorem follows_malformed : Follows k base base' malformed malformed := follows_error _

theorem Follows.bind {f f' : Scan → Reading Scan} (ho : Follows k base base' o o')
    (hf : ∀ s s', Alike k base base' s s' → Follows k base base' (f s) (f' s')) :
    Follows k base base' (o >>= f) (o' >>= f') := by
  obtain ⟨b, rfl, rfl⟩ | ⟨s, s', rfl, rfl, h⟩ := ho
  · exact follows_error b
  · exact hf s s' h

theorem Follows.ite {p : Prop} {d d' : Decidable p} {q q' : Reading Scan}
    (ho : Follows k base base' o o') (hq : Follows k base base' q q') :
    Follows k base base' (@ite _ p d o q) (@ite _ p d' o' q') := by
  by_cases hp : p
  · rwa [if_pos hp, if_pos hp]
  · rwa [if_neg hp, if_neg hp]

namespace Alike

variable (h : Alike k base base' s s')
include h

theorem emit (t : Token) : Alike k base base' (s.emit t) (s'.emit t) := by
  obtain ⟨fresh, hs, rfl⟩ := h
  exact ⟨t :: fresh, by rw [Scan.emit, hs]; rfl, rfl⟩

theorem goto {c c' : Cursor} (hc : c' = c.shift k) : Alike k base base' (s.goto c) (s'.goto c') := by
  obtain ⟨fresh, hs, rfl⟩ := h
  exact ⟨fresh, hs, by rw [hc]; rfl⟩

theorem mark (t : Token) (length : Nat) (keyAllowed : Bool) :
    Alike k base base' (s.mark t length keyAllowed) (s'.mark t length keyAllowed) := by
  obtain ⟨fresh, hs, rfl⟩ := h
  refine ⟨t :: fresh, by rw [Scan.mark]; exact congrArg (t :: ·) hs, ?_⟩
  unfold Scan.mark Scan.moved
  rw [Cursor.skip_shift]
  rfl

omit h in
/-- What adds no tokens. -/
theorem of_moved {f : Scan → Reading Scan} (hf : ∀ r, f (s.moved k r) = (f s).map (Scan.moved k r))
    (hsame : ∀ t, f s = .ok t → t.reversed = s.reversed) (h : Alike k base base' s s') :
    Follows k base base' (f s) (f s') := by
  obtain ⟨fresh, hs, rfl⟩ := h
  rw [hf]
  cases ht : f s with
  | error b => exact follows_error b
  | ok t => exact (Alike.ok ⟨fresh, (hsame t ht).trans hs, rfl⟩)

theorem dropStale : Follows k base base' s.dropStale s'.dropStale := by
  refine of_moved (fun r => dropStale_moved k r s) (fun t ht => ?_) h
  unfold Scan.dropStale at ht
  split at ht <;> cases ht
  rfl

theorem dropPlace : Follows k base base' s.dropPlace s'.dropPlace := by
  refine of_moved (fun r => dropPlace_moved k r s) (fun t ht => ?_) h
  unfold Scan.dropPlace at ht
  split at ht <;> cases ht
  rfl

theorem savePlace : Follows k base base' s.savePlace s'.savePlace := by
  have hdrop := h.dropPlace
  obtain ⟨fresh, hs, rfl⟩ := h
  refine Follows.ite (hdrop.bind fun t t' ht => ?_) (Alike.ok ⟨fresh, hs, rfl⟩)
  obtain ⟨fresh, ht, rfl⟩ := ht
  exact Alike.ok ⟨fresh, ht, rfl⟩

theorem closeBlocks (column : Int) (indents : List Int) :
    Alike k base base' (closeBlocks column indents s) (Scan.closeBlocks column indents s') := by
  induction indents generalizing s s' with
  | nil => exact h
  | cons outer rest ih =>
    obtain ⟨fresh, hs, rfl⟩ := h
    unfold Scan.closeBlocks
    show Alike k base base' _ (if column < s.indent then _ else _)
    split
    · exact ih ⟨.blockEnd :: fresh, congrArg (Token.blockEnd :: ·) hs, rfl⟩
    · exact ⟨fresh, hs, rfl⟩

theorem unwind (column : Int) : Alike k base base' (s.unwind column) (s'.unwind column) := by
  have hclose := h.closeBlocks column s.indents
  obtain ⟨fresh, hs, rfl⟩ := h
  unfold Scan.unwind
  show Alike k base base' _ (if s.flow = 0 then Scan.closeBlocks column s.indents _ else _)
  split
  · exact hclose
  · exact ⟨fresh, hs, rfl⟩

theorem beginBlock (start : Token) : Alike k base base' (s.beginBlock start) (s'.beginBlock start) := by
  obtain ⟨fresh, hs, rfl⟩ := h
  unfold Scan.beginBlock
  show Alike k base base' _ (if s.deepens s.cursor.column then _ else _)
  split
  · exact ⟨start :: fresh, congrArg (start :: ·) hs, rfl⟩
  · exact ⟨fresh, hs, rfl⟩

theorem skipToToken (fuel : Nat) :
    Alike k base base' (Scan.skipToToken fuel s) (Scan.skipToToken fuel s') := by
  induction fuel generalizing s s' with
  | zero => exact h
  | succ fuel ih =>
    obtain ⟨fresh, hs, rfl⟩ := h
    unfold Scan.skipToToken
    have hcursor : (s.moved k (fresh ++ base')).cursor.skipSpaces.skipComment =
        s.cursor.skipSpaces.skipComment.shift k := by
      simp [moved]
    dsimp only
    rw [hcursor, Cursor.lineEnd_shift]
    dsimp only
    split
    · exact ⟨fresh, hs, rfl⟩
    · exact ih ⟨fresh, hs, rfl⟩

theorem atMargin : Follows k base base' s.atMargin s'.atMargin := by
  refine (h.unwind (-1)).dropPlace.bind fun t t' ht => ?_
  obtain ⟨fresh, ht, rfl⟩ := ht
  exact Alike.ok ⟨fresh, ht, rfl⟩

theorem openFlow (t : Token) : Follows k base base' (s.openFlow t) (s'.openFlow t) := by
  refine h.savePlace.bind fun u u' hu => ?_
  obtain ⟨fresh, hu, rfl⟩ := hu
  have hflow : Alike k base base' { u with flow := u.flow + 1 }
      { u.moved k (fresh ++ base') with flow := u.flow + 1 } := ⟨fresh, hu, rfl⟩
  exact (hflow.mark t 1 true).ok

theorem closeFlow (t : Token) : Follows k base base' (s.closeFlow t) (s'.closeFlow t) := by
  refine h.dropPlace.bind fun u u' hu => ?_
  obtain ⟨fresh, hu, rfl⟩ := hu
  have hflow : Alike k base base' { u with flow := u.flow - 1 }
      { u.moved k (fresh ++ base') with flow := u.flow - 1 } := ⟨fresh, hu, rfl⟩
  exact Follows.ite follows_malformed (hflow.mark t 1 false).ok

theorem blockMark (start t : Token) (keyAllowed : Bool) :
    Follows k base base' (s.blockMark start t keyAllowed) (s'.blockMark start t keyAllowed) := by
  have hblock := h.beginBlock start
  obtain ⟨fresh, hs, rfl⟩ := h
  have hend {u u' : Scan} (hu : Alike k base base' u u') : Follows k base base'
      (do let u ← u.dropPlace; return u.mark t 1 keyAllowed)
      (do let u ← u'.dropPlace; return u.mark t 1 keyAllowed) :=
    hu.dropPlace.bind fun _ _ hu => (hu.mark t 1 keyAllowed).ok
  refine Follows.ite (Follows.ite (hend hblock) follows_malformed) (hend ⟨fresh, hs, rfl⟩)

theorem opened (begins : Bool) (place : KeyPlace) :
    Alike k base base' (s.opened begins place) (s'.opened begins (shiftPlace k (0, place)).2) := by
  obtain ⟨fresh, hs, rfl⟩ := h
  have hfilter : (s.moved k (fresh ++ base')).places.filter (fun place => place.1 ≠ s.flow) =
      (s.places.filter fun place => place.1 ≠ s.flow).map (shiftPlace k) := List.filter_map ..
  have hplaces : (s.moved k (fresh ++ base')).leave = s.leave.moved k (fresh ++ base') :=
    congrArg (fun places => { s.moved k (fresh ++ base') with places }) hfilter
  unfold Scan.opened
  rw [hplaces]
  refine Alike.mark ?_ .value 1 false
  cases begins <;> exact ⟨fresh, hs, rfl⟩

theorem valueMark : Follows k base base' s.valueMark s'.valueMark := by
  have hblock := h.blockMark .blockMappingStart .value (s.flow = 0)
  have hopened := h.opened
  obtain ⟨fresh, hs, rfl⟩ := h
  have hfind : (s.moved k (fresh ++ base')).places.find? (fun place => place.1 = s.flow) =
      (s.places.find? fun place => place.1 = s.flow).map (shiftPlace k) := List.find?_map ..
  unfold Scan.valueMark
  split
  · rename_i level place hplace
    split
    · rename_i level' place' hplace'
      cases hplace'.symm.trans (hfind.trans (congrArg (Option.map _) hplace))
      exact (hopened (s.flow = 0 && s.deepens place.column) place).ok
    · rename_i hplace'
      cases hplace'.symm.trans (hfind.trans (congrArg (Option.map _) hplace))
  · rename_i hplace
    split
    · rename_i hplace'
      cases hplace'.symm.trans (hfind.trans (congrArg (Option.map _) hplace))
    · exact hblock

theorem read {reader : Cursor → Reading (Token × Cursor)}
    (hreader : ∀ c, reader (c.shift k) = Placed.shift k (reader c)) :
    Follows k base base' (s.read reader) (s'.read reader) := by
  refine h.savePlace.bind fun u u' hu => ?_
  obtain ⟨fresh, hu, rfl⟩ := hu
  show Follows k base base' _ (reader (u.cursor.shift k) >>= _)
  rw [hreader]
  rcases reader u.cursor with b | ⟨t, c⟩
  · exact follows_error b
  · exact Alike.ok ⟨t :: fresh, congrArg (t :: ·) hu, rfl⟩

theorem readBlock (folded : Bool) : Follows k base base' (s.readBlock folded) (s'.readBlock folded) := by
  refine h.dropPlace.bind fun u u' hu => ?_
  obtain ⟨fresh, hu, rfl⟩ := hu
  show Follows k base base' _ (Token.readBlock folded u.indent (u.cursor.shift k) >>= _)
  rw [Token.readBlock_shift]
  rcases Token.readBlock folded u.indent u.cursor with b | ⟨t, c⟩
  · exact follows_error b
  · exact Alike.ok ⟨t :: fresh, congrArg (t :: ·) hu, rfl⟩

theorem readPlain : Follows k base base' s.readPlain s'.readPlain := by
  refine h.savePlace.bind fun u u' hu => ?_
  obtain ⟨fresh, hu, rfl⟩ := hu
  have hplain : Token.readPlain ((u.moved k (fresh ++ base')).flow ≠ 0)
      (u.moved k (fresh ++ base')).indent (u.moved k (fresh ++ base')).cursor =
      Placed.shift k (Token.readPlain (u.flow ≠ 0) u.indent u.cursor) := Token.readPlain_shift ..
  rw [hplain]
  rcases Token.readPlain (u.flow ≠ 0) u.indent u.cursor with ⟨t, ended, c⟩
  exact Alike.ok ⟨t :: fresh, congrArg (t :: ·) hu, rfl⟩

theorem readToken (ch : Char) (rest : List Char) :
    Follows k base base' (s.readToken ch rest) (s'.readToken ch rest) := by
  have hsame := h
  obtain ⟨fresh, hs, rfl⟩ := hsame
  unfold Scan.readToken
  refine Follows.ite (h.atMargin.bind fun u u' hu => ?_) ?_
  · obtain ⟨fresh, hu, rfl⟩ := hu
    show Follows k base base' _ (Token.readDirective (u.cursor.shift k) >>= _)
    rw [Token.readDirective_shift]
    rcases Token.readDirective u.cursor with b | ⟨t, c⟩
    · exact follows_error b
    · exact Alike.ok ⟨t :: fresh, congrArg (t :: ·) hu, rfl⟩
  refine Follows.ite (h.atMargin.bind fun u u' hu => (hu.mark _ _ _).ok) ?_
  refine Follows.ite (h.openFlow _) ?_
  refine Follows.ite (h.openFlow _) ?_
  refine Follows.ite (h.closeFlow _) ?_
  refine Follows.ite (h.closeFlow _) ?_
  refine Follows.ite (h.dropPlace.bind fun u u' hu => (hu.mark _ _ _).ok) ?_
  refine Follows.ite (h.blockMark _ _ _) ?_
  refine Follows.ite (h.blockMark _ _ _) ?_
  refine Follows.ite h.valueMark ?_
  refine Follows.ite (h.read fun c => Token.readNamed_shift c k .alias) ?_
  refine Follows.ite (h.read fun c => Token.readNamed_shift c k .anchor) ?_
  refine Follows.ite (h.read fun c => Token.readTag_shift c k) ?_
  refine Follows.ite (h.readBlock _) ?_
  refine Follows.ite (h.readBlock _) ?_
  refine Follows.ite (h.read fun c => Token.readQuoted_shift c k _) ?_
  refine Follows.ite (h.read fun c => Token.readQuoted_shift c k _) ?_
  exact Follows.ite h.readPlain follows_malformed

theorem settle : Follows k base base' s.settle s'.settle := by
  have hskip := h.skipToToken (s.cursor.rest.length + 1)
  obtain ⟨fresh, hs, rfl⟩ := h
  refine hskip.dropStale.bind fun u u' hu => ?_
  have hclose := hu.unwind u.cursor.column
  obtain ⟨fresh, hu, rfl⟩ := hu
  exact hclose.ok

omit h in
theorem goOn_of_run {fuel : Nat}
    (hrun : ∀ t t', Alike k base base' t t' → Follows k base base' (run fuel t) (run fuel t'))
    (h : Alike k base base' s s') : Follows k base base' (s.goOn fuel) (s'.goOn fuel) := by
  have hend := h.atMargin.bind fun t t' ht => (ht.emit .streamEnd).ok
  have htoken := fun ch rest => (h.readToken ch rest).bind hrun
  obtain ⟨fresh, hs, rfl⟩ := h
  cases hrest : s.cursor.rest with
  | nil =>
    rw [goOn_nil fuel hrest, goOn_nil (s := s.moved k (fresh ++ base')) fuel hrest]
    exact hend
  | cons ch rest =>
    rw [goOn_cons fuel hrest, goOn_cons (s := s.moved k (fresh ++ base')) fuel hrest]
    exact htoken ch rest

theorem run (fuel : Nat) : Follows k base base' (Scan.run fuel s) (Scan.run fuel s') := by
  induction fuel generalizing s s' with
  | zero => exact follows_malformed
  | succ fuel ih =>
    rw [run_succ, run_succ]
    exact h.settle.bind fun u u' => goOn_of_run fun t t' => ih

theorem goOn (fuel : Nat) : Follows k base base' (s.goOn fuel) (s'.goOn fuel) :=
  goOn_of_run (fun _ _ h => h.run fuel) h

end Alike

end

/-! ## Enough fuel -/

instance : Placed Scan := ⟨fun k s => s.moved k s.reversed, (·.cursor.rest)⟩

section

open Token Cursor

variable {s : Scan} {n : Nat}

theorem leaves_dropStale (h : s.cursor.rest.length ≤ n) : Leaves n s.dropStale := by
  unfold dropStale
  split
  · exact nofun
  · exact leaves_ok h

theorem leaves_dropPlace (h : s.cursor.rest.length ≤ n) : Leaves n s.dropPlace := by
  unfold dropPlace
  split
  · exact nofun
  · exact leaves_ok h

theorem leaves_savePlace (h : s.cursor.rest.length ≤ n) : Leaves n s.savePlace := by
  unfold savePlace
  split
  · exact Leaves.bind (leaves_dropPlace h) fun s hs => leaves_ok hs
  · exact leaves_ok h

theorem cursor_closeBlocks (column : Int) (indents : List Int) (s : Scan) :
    (closeBlocks column indents s).cursor = s.cursor := by
  induction indents generalizing s with
  | nil => rfl
  | cons outer rest ih =>
    unfold closeBlocks
    split
    · exact ih _
    · rfl

theorem cursor_unwind (s : Scan) (column : Int) : (s.unwind column).cursor = s.cursor := by
  unfold unwind
  split
  · exact cursor_closeBlocks ..
  · rfl

theorem cursor_beginBlock (s : Scan) (start : Token) : (s.beginBlock start).cursor = s.cursor := by
  unfold beginBlock
  split <;> rfl

theorem leaves_atMargin (h : s.cursor.rest.length ≤ n) : Leaves n s.atMargin :=
  Leaves.bind (leaves_dropPlace (by rwa [cursor_unwind])) fun s hs => leaves_ok hs

theorem length_skipToToken (fuel : Nat) (h : s.cursor.rest.length ≤ n) :
    (skipToToken fuel s).cursor.rest.length ≤ n := by
  induction fuel generalizing s with
  | zero => exact h
  | succ fuel ih =>
    have hblank := length_skipComment (length_skipSpaces h)
    unfold skipToToken
    dsimp only
    split
    · exact hblank
    · exact ih (length_lineEnd hblank)

theorem leaves_settle (h : s.cursor.rest.length ≤ n) : Leaves n s.settle :=
  Leaves.bind (leaves_dropStale (length_skipToToken _ h)) fun s hs =>
    leaves_ok (by rwa [show Placed.rest (s.unwind _) = s.cursor.rest from
      congrArg Cursor.rest (cursor_unwind ..)])

theorem leaves_mark {length : Nat} {t : Token} {keyAllowed : Bool} (h : s.cursor.rest.length ≤ n + 1)
    (hlength : 0 < length) : Leaves n (.ok (s.mark t length keyAllowed)) := by
  refine leaves_ok ?_
  show (s.cursor.skip length).rest.length ≤ n
  rw [rest_skip, List.length_drop]
  omega

theorem leaves_blockMark (start t : Token) (keyAllowed : Bool) (h : s.cursor.rest.length ≤ n + 1) :
    Leaves n (s.blockMark start t keyAllowed) := by
  have hend (s : Scan) (hs : s.cursor.rest.length ≤ n + 1) :
      Leaves n (do let s ← s.dropPlace; return s.mark t 1 keyAllowed) :=
    Leaves.bind (leaves_dropPlace hs) fun s hs => leaves_mark hs Nat.one_pos
  unfold blockMark
  split
  · split
    · exact hend _ (by rwa [cursor_beginBlock])
    · exact nofun
  · exact hend _ h

theorem leaves_openFlow (t : Token) (h : s.cursor.rest.length ≤ n + 1) : Leaves n (s.openFlow t) :=
  Leaves.bind (leaves_savePlace h) fun s hs =>
    leaves_mark (s := { s with flow := s.flow + 1 }) hs Nat.one_pos

theorem leaves_closeFlow (t : Token) (h : s.cursor.rest.length ≤ n + 1) : Leaves n (s.closeFlow t) := by
  refine Leaves.bind (leaves_dropPlace h) fun s hs => ?_
  dsimp only
  split
  · exact nofun
  · exact leaves_mark (s := { s with flow := s.flow - 1 }) hs Nat.one_pos

theorem leaves_opened (begins : Bool) (place : KeyPlace) (h : s.cursor.rest.length ≤ n + 1) :
    Leaves n (.ok (s.opened begins place)) := by
  unfold opened
  refine leaves_mark ?_ Nat.one_pos
  cases begins <;> exact h

theorem leaves_valueMark (h : s.cursor.rest.length ≤ n + 1) : Leaves n s.valueMark := by
  unfold valueMark
  split
  · rename_i level place hplace
    exact leaves_opened (s.flow = 0 && s.deepens place.column) place h
  · exact leaves_blockMark _ _ _ h

theorem leaves_read {reader : Cursor → Reading (Token × Cursor)} (h : s.cursor.rest.length ≤ n + 1)
    (hreader : ∀ c : Cursor, c.rest.length ≤ n + 1 → Leaves n (reader c)) : Leaves n (s.read reader) :=
  Leaves.bind (leaves_savePlace h) fun s hs => Leaves.bind (hreader s.cursor hs) fun _ hc => leaves_ok hc

theorem leaves_readBlock (folded : Bool) (h : s.cursor.rest.length ≤ n + 1) :
    Leaves n (s.readBlock folded) :=
  Leaves.bind (leaves_dropPlace h) fun _ hs =>
    Leaves.bind (Token.leaves_readBlock folded _ hs) fun _ hc => leaves_ok hc

theorem dropPlace_eq {t : Scan} (h : s.dropPlace = .ok t) : t = s.leave := by
  unfold dropPlace at h
  split at h
  · cases h
  · exact (Except.ok.inj h).symm

theorem savePlace_same {t : Scan} (h : s.savePlace = .ok t) : t.cursor = s.cursor ∧ t.flow = s.flow := by
  unfold savePlace at h
  split at h
  · cases hdrop : s.dropPlace with
    | error b => rw [hdrop] at h; cases h
    | ok u =>
      rw [hdrop] at h
      cases h
      rw [dropPlace_eq hdrop]
      exact ⟨rfl, rfl⟩
  · cases h
    exact ⟨rfl, rfl⟩

theorem leaves_readPlain (hstart : startsPlain (s.flow ≠ 0) s.cursor.rest = true)
    (h : s.cursor.rest.length ≤ n + 1) : Leaves n s.readPlain := by
  unfold readPlain
  cases hsave : s.savePlace with
  | error b => exact nofun
  | ok t =>
    obtain ⟨hcursor, hflow⟩ := savePlace_same hsave
    rw [← hcursor, ← hflow] at hstart
    rw [← hcursor] at h
    exact leaves_ok (length_readPlain hstart h)

theorem leaves_readToken {ch : Char} {rest : List Char} (hrest : s.cursor.rest = ch :: rest)
    (h : s.cursor.rest.length ≤ n + 1) : Leaves n (s.readToken ch rest) := by
  unfold readToken
  refine leaves_ite (Leaves.bind (leaves_atMargin h) fun s hs =>
    Leaves.bind (leaves_readDirective hs) fun _ hc => leaves_ok hc) ?_
  refine leaves_ite (Leaves.bind (leaves_atMargin h) fun s hs => leaves_mark hs (by decide)) ?_
  refine leaves_ite (leaves_openFlow _ h) ?_
  refine leaves_ite (leaves_openFlow _ h) ?_
  refine leaves_ite (leaves_closeFlow _ h) ?_
  refine leaves_ite (leaves_closeFlow _ h) ?_
  refine leaves_ite (Leaves.bind (leaves_dropPlace h) fun s hs => leaves_mark hs Nat.one_pos) ?_
  refine leaves_ite (leaves_blockMark _ _ _ h) ?_
  refine leaves_ite (leaves_blockMark _ _ _ h) ?_
  refine leaves_ite (leaves_valueMark h) ?_
  refine leaves_ite (leaves_read h fun c hc => leaves_readNamed .alias hc) ?_
  refine leaves_ite (leaves_read h fun c hc => leaves_readNamed .anchor hc) ?_
  refine leaves_ite (leaves_read h fun c hc => leaves_readTag hc) ?_
  refine leaves_ite (leaves_readBlock _ h) ?_
  refine leaves_ite (leaves_readBlock _ h) ?_
  refine leaves_ite (leaves_read h fun c hc => leaves_readQuoted _ hc) ?_
  refine leaves_ite (leaves_read h fun c hc => leaves_readQuoted _ hc) ?_
  split
  · rename_i hstart
    exact leaves_readPlain (hrest ▸ hstart) h
  · exact nofun

/-- Every token takes some of the text, so that fuel for each character is enough. -/
theorem goOn_congr {m : Nat} (hn : s.cursor.rest.length ≤ n) (hm : s.cursor.rest.length ≤ m) :
    s.goOn n = s.goOn m := by
  induction n generalizing m s with
  | zero =>
    have hrest := List.eq_nil_of_length_eq_zero (Nat.le_zero.mp hn)
    rw [goOn_nil _ hrest, goOn_nil _ hrest]
  | succ n ih =>
    cases hrest : s.cursor.rest with
    | nil => rw [goOn_nil _ hrest, goOn_nil _ hrest]
    | cons ch rest =>
      have hlength : s.cursor.rest.length = rest.length + 1 := by rw [hrest]; rfl
      obtain ⟨m, rfl⟩ : ∃ k, m = k + 1 := ⟨m - 1, by omega⟩
      rw [goOn_cons _ hrest, goOn_cons _ hrest]
      cases htoken : s.readToken ch rest with
      | error b => rfl
      | ok t =>
        have ht : t.cursor.rest.length ≤ rest.length :=
          leaves_readToken hrest (Nat.le_of_eq hlength) t htoken
        show run (n + 1) t = run (m + 1) t
        rw [run_succ, run_succ]
        cases hsettle : t.settle with
        | error b => rfl
        | ok u =>
          have hu : u.cursor.rest.length ≤ rest.length := leaves_settle ht u hsettle
          exact ih (by omega) (by omega)

/-- What a scan does from where a token begins, with fuel enough. -/
def finish (s : Scan) : Reading Scan := s.goOn s.cursor.rest.length

theorem Alike.finish {k : Nat} {base base' : List Token} {s s' : Scan} (h : Alike k base base' s s') :
    Follows k base base' s.finish s'.finish := by
  have hgoOn := h.goOn s.cursor.rest.length
  obtain ⟨fresh, -, rfl⟩ := h
  exact hgoOn

/-- From where a scan settles on, it finishes alike with any fuel that is enough. -/
theorem settle_goOn (h : s.cursor.rest.length ≤ n) : s.settle >>= goOn n = s.settle >>= finish := by
  cases hsettle : s.settle with
  | error b => rfl
  | ok t => exact goOn_congr (leaves_settle h t hsettle) (Nat.le_refl _)

/-- A scan finishes by finishing what is left behind its next token. -/
theorem finish_step {ch : Char} {rest : List Char} {t : Scan} (hrest : s.cursor.rest = ch :: rest)
    (htoken : s.readToken ch rest = .ok t) : s.finish = t.settle >>= finish := by
  have hlength : s.cursor.rest.length = rest.length + 1 := by rw [hrest]; rfl
  unfold finish
  rw [goOn_cons _ hrest, htoken, hlength]
  show run (rest.length + 1) t = _
  rw [run_succ]
  exact settle_goOn (leaves_readToken hrest (Nat.le_of_eq hlength) t htoken)

/-- A scan comes by whole tokens from where one token begins to where another does. -/
inductive Comes (s : Scan) : Scan → Prop
  | refl : Comes s s
  | step {t u v : Scan} {ch : Char} {rest : List Char} (before : Comes s t)
      (hrest : t.cursor.rest = ch :: rest) (htoken : t.readToken ch rest = .ok u)
      (hsettle : u.settle = .ok v) : Comes s v

theorem Comes.trans {t u : Scan} (hst : Comes s t) (htu : Comes t u) : Comes s u := by
  induction htu with
  | refl => exact hst
  | step before hrest htoken hsettle ih => exact ih.step hrest htoken hsettle

theorem Comes.finish_eq {t : Scan} (h : Comes s t) : s.finish = t.finish := by
  induction h with
  | refl => rfl
  | step before hrest htoken hsettle ih =>
    rw [ih, finish_step hrest htoken, hsettle]
    rfl

/-- The scan of a text before its first token; a byte order mark in front is passed over. -/
def start (text : List Char) : Scan :=
  { cursor := match text with
      | '\ufeff' :: rest => { rest, index := 1 }
      | rest => { rest } }

theorem length_start (text : List Char) : (start text).cursor.rest.length ≤ text.length := by
  unfold start
  dsimp only
  split
  · exact Nat.le_succ _
  · exact Nat.le_refl _

end

end Scan

/-- The tokens of a text are those of its whole scan. -/
theorem tokens_eq {text : List Char} (h : text.all isPrintable = true) :
    tokens text = (Scan.start text).settle >>= Scan.finish >>= fun s =>
      .ok (Scan.weave s.openings 0 s.reversed.reverse) := by
  have hrun : Scan.run (text.length + 2) (Scan.start text) =
      (Scan.start text).settle >>= Scan.finish :=
    (Scan.run_succ _ _).trans (Scan.settle_goOn (Nat.le_succ_of_le (Scan.length_start text)))
  unfold tokens
  rw [h, ← hrun]
  rfl

end AppBroker.Yaml
