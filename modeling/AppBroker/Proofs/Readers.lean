import AppBroker.Yaml.Scan
import Mathlib.Data.List.Basic

/-!
# Readers of tokens

What a reader finds does not depend on how many characters came before (`Placed.shift`), and it
leaves less of the text than it was given (`Leaves`).
-/

namespace AppBroker.Yaml

namespace Cursor

section

variable (c : Cursor) (k n : Nat) (p : Char → Bool)

/-- The same place in a text that has more characters in front. -/
def shift (k : Nat) (c : Cursor) : Cursor := { c with index := c.index + k }

@[simp] theorem rest_shift : (c.shift k).rest = c.rest := rfl
@[simp] theorem column_shift : (c.shift k).column = c.column := rfl

@[simp]
theorem next_shift : (c.shift k).next = c.next.shift k := by
  obtain ⟨rest, index, line, column⟩ := c
  cases rest with
  | nil => rfl
  | cons ch rest =>
    simp only [next, shift]
    split <;> simp [Nat.add_right_comm]

@[simp]
theorem skip_shift : (c.shift k).skip n = (c.skip n).shift k := by
  induction n generalizing c with
  | zero => rfl
  | succ n ih => rw [skip, skip, next_shift, ih]

@[simp]
theorem span_shift : (c.shift k).span p = ((c.span p).1, (c.span p).2.shift k) := by
  simp [span]

@[simp]
theorem skipSpaces_shift : (c.shift k).skipSpaces = c.skipSpaces.shift k := by
  simp [skipSpaces]

@[simp]
theorem indent_shift : (c.shift k).indent n = (c.indent n).shift k := by
  simp [indent]

@[simp]
theorem lineEnd_shift : (c.shift k).lineEnd = (c.lineEnd.1, c.lineEnd.2.shift k) := by
  unfold lineEnd
  rw [rest_shift]
  split
  · simp
  · split
    · simp
    · split <;> simp
  · rfl

@[simp] theorem atMarker_shift : (c.shift k).atMarker = c.atMarker := rfl
@[simp] theorem atLineEnd_shift : (c.shift k).atLineEnd = c.atLineEnd := rfl

@[simp]
theorem skipComment_shift : (c.shift k).skipComment = c.skipComment.shift k := by
  unfold skipComment
  rw [rest_shift]
  split <;> simp

@[simp]
theorem rest_next : c.next.rest = c.rest.tail := by
  unfold next
  split
  · simp [*]
  · rename_i ch rest h
    dsimp only
    rw [h]
    split <;> rfl

@[simp]
theorem rest_skip : (c.skip n).rest = c.rest.drop n := by
  induction n generalizing c with
  | zero => rfl
  | succ n ih => rw [skip, ih, rest_next, List.drop_tail]

end

section

variable {c : Cursor} {n : Nat}

theorem length_next (h : c.rest.length ≤ n) : c.next.rest.length ≤ n := by
  rw [rest_next, List.length_tail]
  omega

theorem length_next_lt (h : c.rest.length ≤ n + 1) : c.next.rest.length ≤ n := by
  rw [rest_next, List.length_tail]
  omega

theorem length_skip {m : Nat} (h : c.rest.length ≤ n) : (c.skip m).rest.length ≤ n := by
  rw [rest_skip, List.length_drop]
  omega

theorem length_span {p : Char → Bool} (h : c.rest.length ≤ n) : (c.span p).2.rest.length ≤ n :=
  length_skip h

theorem length_skipSpaces (h : c.rest.length ≤ n) : c.skipSpaces.rest.length ≤ n := length_skip h

theorem length_indent {column : Nat} (h : c.rest.length ≤ n) : (c.indent column).rest.length ≤ n :=
  length_skip h

theorem length_lineEnd (h : c.rest.length ≤ n) : c.lineEnd.2.rest.length ≤ n := by
  unfold lineEnd
  split
  · exact length_skip h
  · split_ifs
    · exact length_next h
    · exact length_next h
    · exact h
  · exact h

theorem length_skipComment (h : c.rest.length ≤ n) : c.skipComment.rest.length ≤ n := by
  unfold skipComment
  split
  · exact length_span h
  · exact h

end

end Cursor

/-- What has a place in a text. -/
class Placed (α : Type) where
  /-- The same with more characters in front. -/
  shift : Nat → α → α
  /-- What is left of the text. -/
  rest : α → List Char

namespace Placed

variable {α β γ : Type} [Placed α] [Placed β] {k : Nat}

instance : Placed Cursor := ⟨Cursor.shift, Cursor.rest⟩

instance : Placed (γ × α) := ⟨fun k (c, a) => (c, shift k a), fun (_, a) => rest a⟩

-- A reading that broke off leaves nothing.
instance : Placed (Reading α) where
  shift k o := o.map (shift k)
  rest o := match o with
    | .ok a => rest a
    | .error _ => []

@[simp] theorem shift_cursor (c : Cursor) : shift k c = c.shift k := rfl
@[simp] theorem shift_mk (c : γ) (a : α) : shift k (c, a) = (c, shift k a) := rfl

theorem shift_ite {p : Prop} {d d' : Decidable p} {a a' b b' : α} (ha : a' = shift k a)
    (hb : b' = shift k b) : @ite _ p d' a' b' = shift k (@ite _ p d a b) := by
  by_cases hp : p
  · rw [if_pos hp, if_pos hp, ha]
  · rw [if_neg hp, if_neg hp, hb]

/-- What goes on from a place that was read goes on from the shifted place. -/
theorem shift_bind {o : Reading α} {f : α → Reading β} (hf : ∀ a, f (shift k a) = shift k (f a)) :
    (shift k o >>= f) = shift k (o >>= f) := by
  cases o with
  | error b => rfl
  | ok a => exact hf a

theorem bind_shift {o : Reading γ} {f f' : γ → Reading β} (hf : ∀ a, f' a = shift k (f a)) :
    (o >>= f') = shift k (o >>= f) := by
  cases o with
  | error b => rfl
  | ok a => exact hf a

end Placed

namespace Token

open Placed

variable (c : Cursor) (k fuel : Nat)

theorem anchorName_shift : anchorName (c.shift k) = shift k (anchorName c) := by
  unfold anchorName
  simp only [Cursor.next_shift, Cursor.span_shift, Cursor.rest_shift]
  split <;> rfl

/-- Reads a name and makes a token of it. -/
def readNamed (make : List Char → Token) (c : Cursor) : Reading (Token × Cursor) :=
  anchorName c >>= fun found => pure (make found.1, found.2)

theorem readNamed_shift (make : List Char → Token) :
    readNamed make (c.shift k) = shift k (readNamed make c) := by
  rw [readNamed, anchorName_shift]
  exact shift_bind fun _ => rfl

theorem tagChars_shift (bytes : List UInt8) (read : List Char) :
    tagChars fuel bytes read (c.shift k) = shift k (tagChars fuel bytes read c) := by
  induction fuel generalizing bytes read c with
  | zero => rfl
  | succ fuel ih =>
    unfold tagChars
    simp only [Cursor.next_shift, Cursor.skip_shift, Cursor.rest_shift]
    split
    · split
      · exact ih ..
      · rfl
    · refine bind_shift fun read => ?_
      split
      · rfl
      · split
        · exact ih ..
        · rfl
    · exact bind_shift fun read => rfl

theorem tagSuffix_shift : tagSuffix (c.shift k) = shift k (tagSuffix c) := by
  unfold tagSuffix
  rw [Cursor.rest_shift, tagChars_shift]
  refine shift_bind fun (suffix, c) => ?_
  dsimp only [shift_mk]
  split <;> rfl

theorem tagHandle_shift : tagHandle (c.shift k) = shift k (tagHandle c) := by
  unfold tagHandle
  simp only [Cursor.next_shift, Cursor.span_shift, Cursor.rest_shift]
  split
  · rfl
  · split <;> rfl
  · rfl

theorem readTag_shift : readTag (c.shift k) = shift k (readTag c) := by
  unfold readTag
  simp only [Cursor.next_shift, Cursor.skip_shift, Cursor.rest_shift, tagSuffix_shift,
    tagHandle_shift, pure_bind]
  split
  · refine shift_bind fun (suffix, c) => ?_
    simp only [shift_mk, shift_cursor, Cursor.rest_shift]
    split
    · simp only [Cursor.next_shift, Cursor.rest_shift]
      exact shift_ite rfl rfl
    · rfl
  · split
    · exact shift_ite rfl rfl
    · split
      · refine shift_bind fun (handle, c) => ?_
        dsimp only [shift_mk, shift_cursor]
        rw [tagSuffix_shift]
        refine shift_bind fun (suffix, c) => ?_
        simp only [shift_mk, shift_cursor, Cursor.rest_shift]
        exact shift_ite rfl rfl
      · refine shift_bind fun (suffix, c) => ?_
        simp only [shift_mk, shift_cursor, Cursor.rest_shift]
        exact shift_ite rfl rfl
  · rfl

theorem endOfLine_shift : endOfLine (c.shift k) = shift k (endOfLine c) := by
  unfold endOfLine
  simp only [Cursor.skipSpaces_shift, Cursor.skipComment_shift, Cursor.atLineEnd_shift,
    Cursor.lineEnd_shift]
  split <;> rfl

theorem readDirective_shift : readDirective (c.shift k) = shift k (readDirective c) := by
  unfold readDirective
  generalize "YAML".toList = version, "TAG".toList = handle
  simp only [Cursor.next_shift, Cursor.span_shift, Cursor.rest_shift, Cursor.skipSpaces_shift,
    pure_bind, tagHandle_shift, endOfLine_shift]
  split
  · rfl
  split
  · split
    · split
      · rfl
      · exact shift_bind fun _ => rfl
    · rfl
  split
  · refine shift_bind fun (handle, c) => ?_
    simp only [shift_mk, shift_cursor, Cursor.rest_shift]
    split
    · rw [Cursor.skipSpaces_shift, tagSuffix_shift]
      refine shift_bind fun (start, c) => ?_
      simp only [shift_mk, shift_cursor, Cursor.rest_shift, endOfLine_shift]
      exact shift_ite rfl (shift_bind fun _ => rfl)
    · rfl
  · exact shift_bind fun _ => rfl

theorem quotedBreaks_shift (breaks : List Char) :
    quotedBreaks fuel breaks (c.shift k) = shift k (quotedBreaks fuel breaks c) := by
  induction fuel generalizing breaks c with
  | zero => rfl
  | succ fuel ih =>
    unfold quotedBreaks
    simp only [Cursor.atMarker_shift, Cursor.span_shift, Cursor.lineEnd_shift]
    split
    · rfl
    · split
      · rfl
      · exact ih ..

theorem quotedBlanks_shift : quotedBlanks (c.shift k) = shift k (quotedBlanks c) := by
  unfold quotedBlanks
  simp only [Cursor.rest_shift, Cursor.span_shift, Cursor.lineEnd_shift, quotedBreaks_shift]
  split
  · rfl
  · split
    · rfl
    · refine shift_bind fun (breaks, c) => ?_
      dsimp only [shift_mk]
      split
      · rfl
      · split <;> rfl

theorem readEscape_shift : readEscape (c.shift k) = shift k (readEscape c) := by
  unfold readEscape
  simp only [Cursor.rest_shift, Cursor.next_shift, Cursor.skip_shift, Cursor.lineEnd_shift,
    quotedBreaks_shift]
  split
  · rfl
  · split
    · rfl
    · split
      · split
        · rfl
        · split
          · rfl
          · split
            · rfl
            · split <;> rfl
      · split
        · rfl
        · exact shift_bind fun (breaks, c) => rfl

theorem quoted_shift (double : Bool) (read : List Char) (sound : Bool) :
    quoted double fuel read sound (c.shift k) = shift k (quoted double fuel read sound c) := by
  induction fuel generalizing read sound c with
  | zero => rfl
  | succ fuel ih =>
    unfold quoted
    simp only [Cursor.rest_shift, Cursor.next_shift, Cursor.skip_shift, quotedBlanks_shift,
      readEscape_shift]
    split
    · rfl
    · split
      · exact shift_bind fun (blanks, c) => ih ..
      · split
        · split
          · rfl
          · split
            · exact shift_bind fun (chars, ok, c) => ih ..
            · exact ih ..
        · split
          · split
            · exact ih ..
            · rfl
          · exact ih ..

theorem readQuoted_shift (double : Bool) :
    readQuoted double (c.shift k) = shift k (readQuoted double c) := by
  unfold readQuoted
  simp only [Cursor.rest_shift, Cursor.next_shift, quoted_shift]
  exact shift_bind fun (text, c) => rfl

theorem blockIndicators_shift : blockIndicators (c.shift k) = shift k (blockIndicators c) := by
  unfold blockIndicators
  extract_lets chomping increment
  have hchomping (c : Cursor) : chomping (c.shift k) = shift k (chomping c) := by
    unfold chomping
    rw [Cursor.rest_shift, Cursor.next_shift]
    split <;> rfl
  have hincrement (c : Cursor) : increment (c.shift k) = shift k (increment c) := by
    unfold increment
    rw [Cursor.rest_shift, Cursor.next_shift]
    split
    · exact shift_ite rfl (shift_ite rfl rfl)
    · rfl
  clear_value chomping increment
  rw [hchomping]
  obtain ⟨first, c⟩ := chomping c
  dsimp only [shift_mk, shift_cursor]
  rw [hincrement]
  refine shift_bind fun (width, c) => ?_
  have hlast : (if first = .clip && width.isSome then chomping (c.shift k) else (first, c.shift k)) =
      shift k (if first = .clip && width.isSome then chomping c else (first, c)) :=
    shift_ite (hchomping c) rfl
  simp only [shift_mk, shift_cursor, hlast]
  exact shift_ite rfl rfl

theorem blockIndentation_shift (breaks : List Char) (widest : Nat) :
    blockIndentation fuel breaks widest (c.shift k) =
      shift k (blockIndentation fuel breaks widest c) := by
  induction fuel generalizing breaks widest c with
  | zero => rfl
  | succ fuel ih =>
    unfold blockIndentation
    simp only [Cursor.rest_shift, Cursor.next_shift, Cursor.lineEnd_shift, Cursor.column_shift]
    split
    · exact ih ..
    · split
      · rfl
      · exact ih ..

theorem blockBreaks_shift (indent : Nat) (breaks : List Char) :
    blockBreaks indent fuel breaks (c.shift k) = shift k (blockBreaks indent fuel breaks c) := by
  induction fuel generalizing breaks c with
  | zero => rfl
  | succ fuel ih =>
    unfold blockBreaks
    simp only [Cursor.indent_shift, Cursor.lineEnd_shift]
    split
    · rfl
    · exact ih ..

theorem blockLines_shift (folded : Bool) (indent : Nat) (read breaks : List Char) :
    blockLines folded indent fuel read breaks (c.shift k) =
      shift k (blockLines folded indent fuel read breaks c) := by
  induction fuel generalizing read breaks c with
  | zero => rfl
  | succ fuel ih =>
    unfold blockLines
    simp only [Cursor.rest_shift, Cursor.column_shift, Cursor.span_shift, Cursor.lineEnd_shift,
      blockBreaks_shift]
    refine shift_ite rfl (shift_ite ?_ rfl)
    exact ih ..

theorem readBlock_shift (folded : Bool) (parent : Int) :
    readBlock folded parent (c.shift k) = shift k (readBlock folded parent c) := by
  unfold readBlock
  rw [Cursor.next_shift, blockIndicators_shift]
  refine shift_bind fun (chomping, width, c) => ?_
  dsimp only [shift_mk, shift_cursor]
  rw [endOfLine_shift]
  refine shift_bind fun c => ?_
  cases width with
  | none =>
    simp only [shift_cursor, Cursor.rest_shift, blockIndentation_shift]
    obtain ⟨breaks, widest, c⟩ := blockIndentation (c.rest.length + 1) [] 0 c
    simp only [shift_mk, shift_cursor, blockLines_shift]
    rfl
  | some width =>
    simp only [shift_cursor, Cursor.rest_shift, blockBreaks_shift]
    obtain ⟨breaks, c⟩ := blockBreaks _ (c.rest.length + 1) [] c
    simp only [shift_mk, shift_cursor, blockLines_shift]
    rfl

theorem plainBreaks_shift (breaks : List Char) :
    plainBreaks fuel breaks (c.shift k) = shift k (plainBreaks fuel breaks c) := by
  induction fuel generalizing breaks c with
  | zero => rfl
  | succ fuel ih =>
    unfold plainBreaks
    simp only [Cursor.rest_shift, Cursor.next_shift, Cursor.lineEnd_shift, Cursor.atMarker_shift]
    split
    · exact ih ..
    · split
      · rfl
      · split
        · rfl
        · exact ih ..

theorem plainBlanks_shift : plainBlanks (c.shift k) = shift k (plainBlanks c) := by
  unfold plainBlanks
  simp only [Cursor.span_shift, Cursor.lineEnd_shift, Cursor.rest_shift, Cursor.atMarker_shift,
    plainBreaks_shift]
  obtain ⟨blanks, c⟩ := c.span (· = ' ')
  obtain ⟨ended, c'⟩ := c.lineEnd
  dsimp only
  split
  · rfl
  · split
    · rfl
    · obtain ⟨o, c⟩ := plainBreaks _ [] c'
      cases o with
      | none => rfl
      | some breaks => exact shift_ite rfl (shift_ite rfl rfl)

theorem plainWords_shift (inFlow : Bool) (indent : Int) (read blanks : List Char) (ended : Bool) :
    plainWords inFlow indent fuel read blanks ended (c.shift k) =
      shift k (plainWords inFlow indent fuel read blanks ended c) := by
  induction fuel generalizing read blanks ended c with
  | zero => rfl
  | succ fuel ih =>
    unfold plainWords
    simp only [Cursor.rest_shift, Cursor.skip_shift, plainBlanks_shift]
    split
    · rfl
    · split
      · rfl
      · refine shift_ite rfl ?_
        exact ih ..

theorem readPlain_shift (inFlow : Bool) (parent : Int) :
    readPlain inFlow parent (c.shift k) = shift k (readPlain inFlow parent c) := by
  unfold readPlain
  rw [Cursor.rest_shift, plainWords_shift]
  rfl

end Token

/-! ## Going on -/

/-- Whether what is read leaves at most so much of the text. -/
def Leaves {α : Type} [Placed α] (n : Nat) (o : Reading α) : Prop :=
  ∀ a, o = .ok a → (Placed.rest a).length ≤ n

namespace Token

section

variable {α β γ : Type} [Placed α] [Placed β] {n : Nat}

theorem leaves_ok {a : α} (h : (Placed.rest a).length ≤ n) : Leaves n (.ok a) := by
  rintro _ ⟨⟩
  exact h

theorem leaves_pure {a : α} (h : (Placed.rest a).length ≤ n) : Leaves n (pure a : Reading α) :=
  leaves_ok h

theorem Leaves.bind {m : Nat} {o : Reading α} {f : α → Reading β} (ho : Leaves m o)
    (hf : ∀ a, (Placed.rest a).length ≤ m → Leaves n (f a)) : Leaves n (o >>= f) := by
  cases o with
  | error b => exact nofun
  | ok a => exact hf a (ho a rfl)

theorem leaves_ite {p : Prop} [Decidable p] {o o' : Reading α} (ho : Leaves n o) (ho' : Leaves n o') :
    Leaves n (if p then o else o') := by
  split
  · exact ho
  · exact ho'

theorem leaves_bind {o : Reading γ} {f : γ → Reading β} (hf : ∀ a, Leaves n (f a)) :
    Leaves n (o >>= f) := by
  cases o with
  | error b => exact nofun
  | ok a => exact hf a

end

variable {c : Cursor} {n : Nat} (fuel : Nat)

open Cursor

theorem leaves_anchorName (h : c.rest.length ≤ n + 1) : Leaves n (anchorName c) := by
  unfold anchorName
  dsimp only
  split
  · exact nofun
  · exact leaves_ok (length_span (length_next_lt h))

theorem leaves_readNamed (make : List Char → Token) (h : c.rest.length ≤ n + 1) :
    Leaves n (readNamed make c) :=
  Leaves.bind (leaves_anchorName h) fun _ hc => leaves_ok hc

theorem leaves_tagChars (bytes : List UInt8) (read : List Char) (h : c.rest.length ≤ n) :
    Leaves n (tagChars fuel bytes read c) := by
  induction fuel generalizing bytes read c with
  | zero => exact nofun
  | succ fuel ih =>
    unfold tagChars
    extract_lets flush
    split
    · split
      · exact ih _ _ (length_skip h)
      · exact nofun
    · refine leaves_bind fun read => ?_
      split_ifs
      · exact nofun
      · exact ih _ _ (length_next h)
      · exact leaves_ok h
    · exact leaves_bind fun read => leaves_ok h

theorem leaves_tagSuffix (h : c.rest.length ≤ n) : Leaves n (tagSuffix c) := by
  unfold tagSuffix
  refine Leaves.bind (leaves_tagChars _ _ _ h) fun (suffix, c) hc => ?_
  dsimp only
  split
  · exact nofun
  · exact leaves_ok hc

theorem leaves_tagHandle (h : c.rest.length ≤ n + 1) : Leaves n (tagHandle c) := by
  unfold tagHandle
  have hnext := length_next_lt h
  split
  · exact leaves_ok hnext
  · dsimp only
    split
    · exact leaves_ok (length_next (length_span hnext))
    · exact nofun
  · exact nofun

theorem leaves_readTag (h : c.rest.length ≤ n + 1) : Leaves n (readTag c) := by
  have hnext := length_next_lt h
  have htag (t : Token) (c : Cursor) (hc : c.rest.length ≤ n) : Leaves n
      (if !endsWith (fun ch => ch = ' ' || isBreak ch) c.rest then do malformed; return (t, c)
        else return (t, c)) := by
    split
    · exact nofun
    · exact leaves_ok hc
  unfold readTag
  simp only [pure_bind]
  split
  · have hskip : (c.skip 2).rest.length ≤ n := length_skip (c := c.next) (m := 1) hnext
    refine Leaves.bind (leaves_tagSuffix hskip) fun (suffix, c) hc => ?_
    dsimp only
    split
    · exact htag _ _ (length_next hc)
    · exact nofun
  · split
    · exact htag _ _ hnext
    · split
      · refine Leaves.bind (leaves_tagHandle h) fun (handle, c) hc => ?_
        refine Leaves.bind (leaves_tagSuffix hc) fun (suffix, c) hc => ?_
        exact htag _ _ hc
      · refine Leaves.bind (leaves_tagSuffix hnext) fun (suffix, c) hc => ?_
        exact htag _ _ hc
  · exact nofun

theorem leaves_endOfLine (h : c.rest.length ≤ n) : Leaves n (endOfLine c) := by
  unfold endOfLine
  dsimp only
  split
  · exact nofun
  · exact leaves_ok (length_lineEnd (length_skipComment (length_skipSpaces h)))

theorem leaves_readDirective (h : c.rest.length ≤ n + 1) : Leaves n (readDirective c) := by
  have hend (t : Token) (c : Cursor) (hc : c.rest.length ≤ n) :
      Leaves n (do let c ← endOfLine c; return (t, c)) :=
    Leaves.bind (leaves_endOfLine hc) fun c hc => leaves_ok hc
  unfold readDirective
  generalize "YAML".toList = version, "TAG".toList = handle
  simp only [pure_bind]
  have hname : (c.next.span isWordChar).2.rest.length ≤ n :=
    length_span (length_next_lt h)
  have hspaces := length_skipSpaces hname
  split
  · exact nofun
  split
  · split
    · split
      · exact nofun
      · exact hend _ _ (length_span (length_next (length_span hspaces)))
    · exact nofun
  split
  · refine Leaves.bind (leaves_tagHandle (Nat.le_succ_of_le hspaces)) fun (handle, c) hc => ?_
    dsimp only
    split
    · refine Leaves.bind (leaves_tagSuffix (length_skipSpaces hc)) fun (start, c) hc => ?_
      dsimp only
      split
      · exact nofun
      · exact hend _ _ hc
    · exact nofun
  · exact hend _ _ (length_span hname)

theorem leaves_quotedBreaks (breaks : List Char) (h : c.rest.length ≤ n) :
    Leaves n (quotedBreaks fuel breaks c) := by
  induction fuel generalizing breaks c with
  | zero => exact nofun
  | succ fuel ih =>
    unfold quotedBreaks
    dsimp only
    have hspan := length_span (p := fun ch => ch = ' ' || ch = '\t') h
    split
    · exact nofun
    split
    · exact leaves_ok hspan
    · exact ih _ (length_lineEnd hspan)

theorem leaves_quotedBlanks (h : c.rest.length ≤ n) : Leaves n (quotedBlanks c) := by
  unfold quotedBlanks
  dsimp only
  have hspan := length_span (p := fun ch => ch = ' ' || ch = '\t') h
  split
  · exact nofun
  split
  · exact leaves_ok hspan
  · refine Leaves.bind (leaves_quotedBreaks _ _ (length_lineEnd hspan))
      fun (breaks, c) hc => ?_
    dsimp only
    split_ifs <;> exact leaves_ok hc

theorem leaves_readEscape (h : c.rest.length ≤ n) : Leaves n (readEscape c) := by
  unfold readEscape
  split
  · exact nofun
  split
  · exact leaves_ok (length_next h)
  split
  · dsimp only
    split
    · exact nofun
    split
    · exact nofun
    · split_ifs
      · exact nofun
      · exact leaves_ok (length_skip h)
      · exact leaves_ok (length_skip h)
  · dsimp only
    split
    · exact nofun
    · exact Leaves.bind (leaves_quotedBreaks _ _ (length_lineEnd h))
        fun (breaks, c) hc => leaves_ok hc

theorem leaves_quoted (double : Bool) (read : List Char) (sound : Bool) (h : c.rest.length ≤ n) :
    Leaves n (quoted double fuel read sound c) := by
  induction fuel generalizing read sound c with
  | zero => exact nofun
  | succ fuel ih =>
    have hnext := length_next h
    unfold quoted
    split
    · exact nofun
    split
    · exact Leaves.bind (leaves_quotedBlanks h) fun (blanks, c) hc => ih _ _ hc
    split
    · split
      · exact leaves_ok hnext
      split
      · exact Leaves.bind (leaves_readEscape hnext) fun (chars, ok, c) hc => ih _ _ hc
      · exact ih _ _ hnext
    · split
      · split
        · exact ih _ _ (length_skip h)
        · exact leaves_ok hnext
      · exact ih _ _ hnext

theorem leaves_readQuoted (double : Bool) (h : c.rest.length ≤ n + 1) :
    Leaves n (readQuoted double c) :=
  Leaves.bind (leaves_quoted _ _ _ _ (length_next_lt h)) fun _ hc => leaves_ok hc

theorem leaves_blockIndicators (h : c.rest.length ≤ n) : Leaves n (blockIndicators c) := by
  unfold blockIndicators
  extract_lets chomping increment
  have hchomping {c : Cursor} (hc : c.rest.length ≤ n) : (chomping c).2.rest.length ≤ n := by
    unfold chomping
    split
    · exact length_next hc
    · exact length_next hc
    · exact hc
  have hincrement {c : Cursor} (hc : c.rest.length ≤ n) : Leaves n (increment c) := by
    unfold increment
    split
    · split_ifs
      · exact nofun
      · exact leaves_ok (length_next hc)
      · exact leaves_ok hc
    · exact leaves_ok hc
  clear_value chomping increment
  have hchosen := hchomping h
  rcases hfirst : chomping c with ⟨first, c⟩
  rw [hfirst] at hchosen
  refine Leaves.bind (hincrement hchosen) fun (width, c) hc => ?_
  have hlast : (if first = .clip && width.isSome then chomping c else (first, c)).2.rest.length ≤ n := by
    split
    · exact hchomping hc
    · exact hc
  dsimp only
  generalize (if first = .clip && width.isSome then chomping c else (first, c)) = last at hlast
  split
  · exact nofun
  · exact leaves_ok hlast

theorem length_blockIndentation (breaks : List Char) (widest : Nat) (h : c.rest.length ≤ n) :
    (blockIndentation fuel breaks widest c).2.2.rest.length ≤ n := by
  induction fuel generalizing breaks widest c with
  | zero => exact h
  | succ fuel ih =>
    unfold blockIndentation
    split
    · exact ih _ _ (length_next h)
    · dsimp only
      split
      · exact h
      · exact ih _ _ (length_lineEnd h)

theorem length_blockBreaks (indent : Nat) (breaks : List Char) (h : c.rest.length ≤ n) :
    (blockBreaks indent fuel breaks c).2.rest.length ≤ n := by
  induction fuel generalizing breaks c with
  | zero => exact h
  | succ fuel ih =>
    have hindent : (c.indent indent).rest.length ≤ n := length_indent h
    unfold blockBreaks
    dsimp only
    split
    · exact hindent
    · exact ih _ (length_lineEnd hindent)

theorem length_blockLines (folded : Bool) (indent : Nat) (read breaks : List Char)
    (h : c.rest.length ≤ n) : (blockLines folded indent fuel read breaks c).2.2.2.rest.length ≤ n := by
  induction fuel generalizing read breaks c with
  | zero => exact h
  | succ fuel ih =>
    unfold blockLines
    split
    · exact h
    · have hbreaks := length_blockBreaks ((c.span (!isBreak ·)).2.lineEnd.2.rest.length + 1) indent []
        (length_lineEnd (length_span (p := (!isBreak ·)) h))
      dsimp only
      split
      · exact ih _ _ hbreaks
      · exact hbreaks

theorem leaves_readBlock (folded : Bool) (parent : Int) (h : c.rest.length ≤ n + 1) :
    Leaves n (readBlock folded parent c) := by
  unfold readBlock
  refine Leaves.bind (leaves_blockIndicators (length_next_lt h)) ?_
  rintro ⟨chomping, width, c⟩ hc
  refine Leaves.bind (leaves_endOfLine hc) fun c hleft => ?_
  cases width with
  | none =>
    have hfrom := length_blockIndentation (c.rest.length + 1) [] 0 hleft
    dsimp only
    generalize blockIndentation (c.rest.length + 1) [] 0 c = found at hfrom ⊢
    exact leaves_pure (length_blockLines (c.rest.length + 1) folded _ [] found.1 hfrom)
  | some width =>
    have hfrom := length_blockBreaks (c.rest.length + 1) ((max (parent + 1) 1).toNat + width - 1) [] hleft
    dsimp only
    generalize blockBreaks _ (c.rest.length + 1) [] c = found at hfrom ⊢
    exact leaves_pure (length_blockLines (c.rest.length + 1) folded _ [] found.1 hfrom)

theorem length_plainBreaks (breaks : List Char) (h : c.rest.length ≤ n) :
    (plainBreaks fuel breaks c).2.rest.length ≤ n := by
  induction fuel generalizing breaks c with
  | zero => exact h
  | succ fuel ih =>
    unfold plainBreaks
    split
    · exact ih _ (length_next h)
    · have hended := length_lineEnd h
      dsimp only
      split_ifs
      · exact h
      · exact hended
      · exact ih _ hended

theorem length_plainBlanks (h : c.rest.length ≤ n) : (plainBlanks c).2.2.rest.length ≤ n := by
  unfold plainBlanks
  have hspan := length_span (p := (· = ' ')) h
  have hended := length_lineEnd hspan
  have hbreaks := length_plainBreaks ((c.span (· = ' ')).2.lineEnd.2.rest.length + 1) [] hended
  dsimp only
  split
  · exact hspan
  split
  · exact hended
  split
  · rename_i heq
    rw [heq] at hbreaks
    exact hbreaks
  · rename_i heq
    rw [heq] at hbreaks
    split_ifs <;> exact hbreaks

theorem length_plainWords (inFlow : Bool) (indent : Int) (read blanks : List Char) (ended : Bool)
    (h : c.rest.length ≤ n) :
    (plainWords inFlow indent fuel read blanks ended c).2.2.rest.length ≤ n := by
  induction fuel generalizing read blanks ended c with
  | zero => exact h
  | succ fuel ih =>
    unfold plainWords
    dsimp only
    split
    · exact h
    split
    · exact h
    have hblanks := length_plainBlanks (length_skip (m := plainRun inFlow c.rest) h)
    split
    · exact hblanks
    · exact ih _ _ _ hblanks

/-- Where a plain scalar may start, there is a first word. -/
theorem plainRun_pos {inFlow : Bool} {cs : List Char} (h : startsPlain inFlow cs = true) :
    0 < plainRun inFlow cs := by
  cases cs with
  | nil => cases h
  | cons ch rest =>
    unfold plainRun
    split
    · rename_i hstop
      exfalso
      have hmarks : isWhite '-' = false ∧ isWhite '?' = false ∧ isWhite ':' = false := by decide
      cases inFlow <;> cases rest <;>
        simp [startsPlain, endsWith, isFlowMark] at h hstop <;> grind
    · exact Nat.succ_pos _

theorem length_readPlain {inFlow : Bool} {parent : Int} (hstart : startsPlain inFlow c.rest = true)
    (h : c.rest.length ≤ n + 1) : (readPlain inFlow parent c).2.2.rest.length ≤ n := by
  have hrun := plainRun_pos hstart
  have hword : (c.skip (plainRun inFlow c.rest)).rest.length ≤ n := by
    rw [rest_skip, List.length_drop]
    omega
  have hblanks := length_plainBlanks hword
  have hmark : c.rest.head? ≠ some '#' := by
    intro hhead
    cases hrest : c.rest with
    | nil => simp [hrest] at hhead
    | cons ch rest =>
      rw [hrest] at hhead hstart
      cases hhead
      simp [startsPlain] at hstart
  unfold readPlain plainWords
  dsimp only
  rw [if_neg hmark, if_neg (Nat.ne_of_gt hrun)]
  split
  · exact hblanks
  · exact length_plainWords _ _ _ _ _ _ hblanks

end Token

end AppBroker.Yaml
