import AppBroker.Yaml.Construct

/-!
# How a document breaks off

Whoever reads a document expects to be told if it is malformed. A text breaks off in few other ways:
it has an escape for a character beyond the last one, or it is nested too deeply, or there is a scalar
in it that is not what its kind asks for, such as a day that no month has. A text in which none of these
is found has a value or is malformed (`Yaml.breaksAs_read`).
-/

namespace AppBroker.Yaml

/-- Whether a reading that breaks off does so in one of the given ways. -/
def BreaksAs {α : Type} (causes : List Breakage) (o : Reading α) : Prop :=
  ∀ b, o = .error b → b ∈ causes

section

variable {α β : Type} {causes : List Breakage}

@[grind .]
theorem breaksAs_ok (a : α) : BreaksAs causes (.ok a) := nofun

@[grind .]
theorem breaksAs_pure (a : α) : BreaksAs causes (pure a : Reading α) := nofun

@[grind .]
theorem breaksAs_error {b : Breakage} (h : b ∈ causes) :
    BreaksAs causes (.error b : Reading α) := by
  rintro _ ⟨⟩
  exact h

@[grind ←]
theorem BreaksAs.bind {o : Reading α} {f : α → Reading β} (ho : BreaksAs causes o)
    (hf : ∀ a, BreaksAs causes (f a)) : BreaksAs causes (o >>= f) := by
  cases o with
  | ok a => exact hf a
  | error e =>
    rintro _ ⟨⟩
    exact ho e rfl

theorem BreaksAs.ite {c : Prop} [Decidable c] {o o' : Reading α} (h : BreaksAs causes o)
    (h' : BreaksAs causes o') : BreaksAs causes (if c then o else o') := by
  split
  · exact h
  · exact h'

end

/-! ## Tokens -/

/-- What can be wrong with a text that is cut into tokens. -/
abbrev tokenFaults : List Breakage := [.malformedYaml, .badValue]

namespace Token

variable (c : Cursor) (fuel : Nat)

@[grind .]
theorem breaksAs_malformed {α : Type} : BreaksAs tokenFaults (malformed : Reading α) :=
  breaksAs_error (by simp)

@[grind .]
theorem breaksAs_badValue {α : Type} :
    BreaksAs tokenFaults (.error .badValue : Reading α) :=
  breaksAs_error (by simp)

@[grind .]
theorem breaksAs_anchorName : BreaksAs tokenFaults (anchorName c) := by
  unfold anchorName
  grind

@[grind .]
theorem breaksAs_tagChars (bytes : List UInt8) (read : List Char) :
    BreaksAs tokenFaults (tagChars fuel bytes read c) := by
  induction fuel generalizing bytes read c with
  | zero => exact breaksAs_malformed
  | succ fuel ih =>
    unfold tagChars
    grind

@[grind .]
theorem breaksAs_tagSuffix : BreaksAs tokenFaults (tagSuffix c) := by
  unfold tagSuffix
  grind

@[grind .]
theorem breaksAs_tagHandle : BreaksAs tokenFaults (tagHandle c) := by
  unfold tagHandle
  grind

@[grind .]
theorem breaksAs_readTag : BreaksAs tokenFaults (readTag c) := by
  unfold readTag
  grind

@[grind .]
theorem breaksAs_endOfLine : BreaksAs tokenFaults (endOfLine c) := by
  unfold endOfLine
  grind

@[grind .]
theorem breaksAs_readDirective : BreaksAs tokenFaults (readDirective c) := by
  unfold readDirective
  generalize "YAML".toList = version, "TAG".toList = handle
  dsimp only
  split
  · exact breaksAs_malformed.bind fun _ => by grind
  · split <;> grind

@[grind .]
theorem breaksAs_quotedBreaks (breaks : List Char) :
    BreaksAs tokenFaults (quotedBreaks fuel breaks c) := by
  induction fuel generalizing breaks c with
  | zero => exact breaksAs_malformed
  | succ fuel ih =>
    unfold quotedBreaks
    grind

@[grind .]
theorem breaksAs_quotedBlanks : BreaksAs tokenFaults (quotedBlanks c) := by
  unfold quotedBlanks
  grind

@[grind .]
theorem breaksAs_readEscape : BreaksAs tokenFaults (readEscape c) := by
  unfold readEscape
  grind

@[grind .]
theorem breaksAs_quoted (double : Bool) (read : List Char) (sound : Bool) :
    BreaksAs tokenFaults (quoted double fuel read sound c) := by
  induction fuel generalizing read sound c with
  | zero => exact breaksAs_malformed
  | succ fuel ih =>
    unfold quoted
    grind

@[grind .]
theorem breaksAs_readQuoted (double : Bool) : BreaksAs tokenFaults (readQuoted double c) := by
  unfold readQuoted
  grind

@[grind .]
theorem breaksAs_blockIndicators : BreaksAs tokenFaults (blockIndicators c) := by
  unfold blockIndicators
  grind

@[grind .]
theorem breaksAs_readBlock (folded : Bool) (parent : Int) :
    BreaksAs tokenFaults (readBlock folded parent c) := by
  unfold readBlock
  grind

end Token

namespace Scan

variable (s : Scan)

@[grind .]
theorem breaksAs_dropStale : BreaksAs tokenFaults s.dropStale := by
  unfold dropStale
  grind

@[grind .]
theorem breaksAs_dropPlace : BreaksAs tokenFaults s.dropPlace := by
  unfold dropPlace
  grind

@[grind .]
theorem breaksAs_savePlace : BreaksAs tokenFaults s.savePlace := by
  unfold savePlace
  grind

@[grind .]
theorem breaksAs_atMargin : BreaksAs tokenFaults s.atMargin := by
  unfold atMargin
  grind

@[grind .]
theorem breaksAs_openFlow (t : Token) : BreaksAs tokenFaults (s.openFlow t) := by
  unfold openFlow
  grind

@[grind .]
theorem breaksAs_closeFlow (t : Token) : BreaksAs tokenFaults (s.closeFlow t) := by
  unfold closeFlow
  grind

@[grind .]
theorem breaksAs_blockMark (start t : Token) (keyAllowed : Bool) :
    BreaksAs tokenFaults (s.blockMark start t keyAllowed) := by
  unfold blockMark
  grind

@[grind .]
theorem breaksAs_valueMark : BreaksAs tokenFaults s.valueMark := by
  unfold valueMark
  grind

@[grind ←]
theorem breaksAs_read {reader : Cursor → Reading (Token × Cursor)}
    (h : ∀ c, BreaksAs tokenFaults (reader c)) : BreaksAs tokenFaults (s.read reader) := by
  unfold Scan.read
  grind

@[grind .]
theorem breaksAs_readBlock (folded : Bool) : BreaksAs tokenFaults (s.readBlock folded) := by
  unfold Scan.readBlock
  grind

@[grind .]
theorem breaksAs_readPlain : BreaksAs tokenFaults s.readPlain := by
  unfold Scan.readPlain
  grind

@[grind .]
theorem breaksAs_readToken (ch : Char) (rest : List Char) :
    BreaksAs tokenFaults (s.readToken ch rest) := by
  unfold readToken
  dsimp only
  repeat' apply BreaksAs.ite
  all_goals grind

@[grind .]
theorem breaksAs_run (fuel : Nat) : BreaksAs tokenFaults (s.run fuel) := by
  induction fuel generalizing s with
  | zero => exact Token.breaksAs_malformed
  | succ fuel ih =>
    unfold run
    grind

end Scan

theorem breaksAs_tokens (text : List Char) : BreaksAs tokenFaults (tokens text) := by
  unfold tokens
  grind

/-! ## Nodes -/

/-- What can be wrong with the tokens of a document. -/
abbrev nodeFaults : List Breakage := [.malformedYaml, .tooDeep]

namespace Node

variable (ds : Directives)

@[grind .]
theorem breaksAs_malformed {α : Type} : BreaksAs nodeFaults (Token.malformed : Reading α) :=
  breaksAs_error (by simp)

@[grind .]
theorem breaksAs_tooDeep {α : Type} : BreaksAs nodeFaults (.error .tooDeep : Reading α) :=
  breaksAs_error (by simp)

@[grind .]
theorem breaksAs_given (tag : Option Token) : BreaksAs nodeFaults (given ds tag) := by
  unfold given
  grind

/-- Whether all productions break off in the ways of nodes, with as much fuel as is given. -/
structure DescentsBreak (fuel : Nat) : Prop where
  node : ∀ depth block indentless d, BreaksAs nodeFaults (node ds fuel depth block indentless d)
  nodeUnless : ∀ depth block indentless stops d,
    BreaksAs nodeFaults (nodeUnless ds fuel depth block indentless stops d)
  blockItems : ∀ depth read d, BreaksAs nodeFaults (blockItems ds fuel depth read d)
  indentlessItems : ∀ depth read d, BreaksAs nodeFaults (indentlessItems ds fuel depth read d)
  blockEntries : ∀ depth read d, BreaksAs nodeFaults (blockEntries ds fuel depth read d)
  flowItems : ∀ depth first read d, BreaksAs nodeFaults (flowItems ds fuel depth first read d)
  flowEntries : ∀ depth first read d, BreaksAs nodeFaults (flowEntries ds fuel depth first read d)

theorem descentsBreak (fuel : Nat) : DescentsBreak ds fuel := by
  induction fuel with
  | zero =>
    constructor <;> intros <;>
      simp only [Node.node, Node.nodeUnless, Node.blockItems, Node.indentlessItems,
        Node.blockEntries, Node.flowItems, Node.flowEntries] <;>
      exact breaksAs_malformed
  | succ fuel ih =>
    obtain ⟨hnode, hunless, hblock, hindentless, hentries, hitems, hpairs⟩ := ih
    constructor
    · intro depth block indentless d
      unfold Node.node
      grind
    · intro depth block indentless stops d
      unfold Node.nodeUnless
      grind
    · intro depth read d
      unfold Node.blockItems
      grind
    · intro depth read d
      unfold Node.indentlessItems
      grind
    · intro depth read d
      unfold Node.blockEntries
      grind
    · intro depth first read d
      unfold Node.flowItems
      extract_lets item
      have hitem (d : Descent) : BreaksAs nodeFaults (item d) := by
        unfold item
        grind
      clear_value item
      grind
    · intro depth first read d
      unfold Node.flowEntries
      extract_lets entry
      have hentry (d : Descent) : BreaksAs nodeFaults (entry d) := by
        unfold entry
        grind
      clear_value entry
      grind

@[grind .]
theorem breaksAs_directives (numbers : Bool) (ts : List Token) (versioned : Bool)
    (handles : List (List Char × List Char)) :
    BreaksAs nodeFaults (directives numbers ts versioned handles) := by
  fun_induction directives numbers ts versioned handles <;> grind

theorem breaksAs_ofTokens (numbers : Bool) (ts : List Token) :
    BreaksAs nodeFaults (ofTokens numbers ts) := by
  have hnode (ds : Directives) (fuel depth : Nat) (block indentless : Bool) (d : Descent) :
      BreaksAs nodeFaults (Node.node ds fuel depth block indentless d) :=
    (descentsBreak ds fuel).node depth block indentless d
  unfold ofTokens
  extract_lets fuel finish explicit
  have hfinish (n : Node) (rest : List Token) : BreaksAs nodeFaults (finish n rest) := by
    unfold finish
    grind
  clear_value finish
  have hexplicit (ts : List Token) : BreaksAs nodeFaults (explicit ts) := by
    unfold explicit
    grind
  clear_value explicit
  grind

end Node

/-! ## Values -/

/-- Whether what is made is malformed if it cannot be made. -/
def Making.IsFair {α : Type} (m : Making α) : Prop :=
  ∀ round b, m = .failed round b → b = .malformedYaml

namespace Making

variable {α β : Type}

theorem isFair_pure (a : α) : IsFair (pure a) := nofun

theorem isFair_malformed : IsFair (now Token.malformed : Making α) := by
  rintro _ _ ⟨⟩
  rfl

theorem isFair_now {o : Reading α} (h : BreaksAs [.malformedYaml] o) : IsFair (now o) := by
  cases o with
  | ok a => nofun
  | error e =>
    rintro _ _ ⟨⟩
    exact List.mem_singleton.1 (h e rfl)

theorem IsFair.later {m : Making α} (h : IsFair m) : IsFair m.later := by
  cases m with
  | made a => nofun
  | failed round cause =>
    rintro _ _ ⟨⟩
    exact h round cause rfl

theorem IsFair.seq {f : Making (α → β)} {m : Making α} (hf : IsFair f) (hm : IsFair m) :
    IsFair (f <*> m) := by
  show IsFair (Making.seq f fun _ => m)
  unfold Making.seq
  cases f <;> cases m <;> grind [IsFair]

theorem IsFair.map {m : Making α} (f : α → β) (h : IsFair m) : IsFair (f <$> m) :=
  (isFair_pure f).seq h

theorem IsFair.breaksAs_toReading {m : Making α} (h : IsFair m) :
    BreaksAs [.malformedYaml] m.toReading := by
  cases m with
  | made a => exact breaksAs_ok a
  | failed round cause => exact breaksAs_error (List.mem_singleton.2 (h round cause rfl))

end Making

namespace Construct

/-- Whether a text is read as a kind, or is malformed. -/
def suits (kind : Kind) (text : Content) : Bool :=
  match scalar kind text with
  | .ok _ => true
  | .error b => b = .malformedYaml

theorem breaksAs_scalar {kind : Kind} {text : Content} (h : suits kind text) :
    BreaksAs [.malformedYaml] (scalar kind text) := by
  intro b hb
  simpa [suits, hb] using h

theorem suits_str (text : Content) : suits .str text := rfl

end Construct

mutual

/-- Whether every scalar in a node suits its kind, and the default entry of every mapping the kind
of the mapping. -/
def Node.suits : Node → Bool
  | .scalar kind text => Construct.suits kind text
  | .sequence _ items => itemsSuit items
  | .mapping kind entries => entriesSuit entries &&
    (Construct.defaultEntry entries).all fun text =>
      kind ≠ .timestamp && Construct.suits kind text
  | .cycle _ => true

/-- Whether several nodes suit. -/
def Node.itemsSuit : List Node → Bool
  | [] => true
  | n :: ns => n.suits && itemsSuit ns

/-- Whether several keys and values suit. -/
def Node.entriesSuit : List (Node × Node) → Bool
  | [] => true
  | (k, v) :: rest => k.suits && v.suits && entriesSuit rest

end

namespace Construct

open Making

theorem isFair_mismatch {α : Type} (kind : Kind) : IsFair (mismatch kind : Making α) := by
  unfold mismatch
  split
  · exact isFair_malformed.later
  · exact isFair_malformed

theorem isFair_checkedKey {m : Making Value} (h : IsFair m) : IsFair (checkedKey m) := by
  unfold checkedKey
  split
  · split
    · exact isFair_pure _
    · exact isFair_malformed
  · exact h
  · exact isFair_malformed

theorem isFair_allEntries {entries : List (Node × Node)} {merged own : Making (List (Value × Value))}
    (hmerged : IsFair merged) (hown : IsFair own) : IsFair (allEntries entries merged own) := by
  unfold allEntries
  split
  · exact (hmerged.map _).seq hown
  · exact isFair_malformed

mutual

theorem isFair_value : (n : Node) → n.suits → IsFair (value n)
  | .scalar kind text, h => by
    unfold value
    split
    · exact isFair_now (breaksAs_scalar (by simpa [Node.suits] using h))
    · exact isFair_mismatch kind
  | .cycle isMapping, _ => isFair_pure _
  | .sequence kind items, h => by
    rw [Node.suits] at h
    unfold value
    split
    · exact ((isFair_values items h).map _).later
    · exact ((isFair_pairs items h).map _).later
    · exact ((isFair_pairs items h).map _).later
    · exact isFair_mismatch kind
  | .mapping kind entries, h => by
    rw [Node.suits, Bool.and_eq_true] at h
    unfold value
    split
    · exact ((isFair_allEntries (isFair_mergedEntries entries h.1)
        (isFair_ownEntries entries h.1)).map _).later
    · exact ((isFair_allEntries (isFair_mergedEntries entries h.1)
        (isFair_ownEntries entries h.1)).map _).later
    · split
      · next text htext =>
        obtain ⟨-, hdefault⟩ := h
        simp only [htext, Option.all_some, Bool.and_eq_true, decide_eq_true_eq] at hdefault
        rw [if_neg hdefault.1]
        split
        · exact isFair_now (breaksAs_scalar hdefault.2)
        · exact isFair_mismatch kind
      · exact isFair_mismatch kind

theorem isFair_values : (ns : List Node) → Node.itemsSuit ns → IsFair (values ns)
  | [], _ => by
    unfold values
    exact isFair_pure _
  | n :: ns, h => by
    rw [Node.itemsSuit, Bool.and_eq_true] at h
    unfold values
    exact ((isFair_value n h.1).map _).seq (isFair_values ns h.2)

theorem isFair_pairs : (ns : List Node) → Node.itemsSuit ns → IsFair (pairs ns)
  | [], _ => by
    unfold pairs
    exact isFair_pure _
  | n :: ns, h => by
    rw [Node.itemsSuit, Bool.and_eq_true] at h
    unfold pairs
    exact ((isFair_pair n h.1).map _).seq (isFair_pairs ns h.2)

theorem isFair_pair : (n : Node) → n.suits → IsFair (pair n)
  | .mapping _ [(k, v)], h => by
    simp only [Node.suits, Node.entriesSuit, Bool.and_eq_true] at h
    unfold pair
    exact ((isFair_value k h.1.1.1).map _).seq (isFair_value v h.1.1.2)
  | .mapping _ [], _ | .mapping _ (_ :: _ :: _), _ | .scalar _ _, _ | .sequence _ _, _
  | .cycle _, _ => by
    unfold pair
    exact isFair_malformed

theorem isFair_mergedEntries : (entries : List (Node × Node)) → Node.entriesSuit entries →
    IsFair (mergedEntries entries)
  | [], _ => by
    unfold mergedEntries
    exact isFair_pure _
  | (k, v) :: rest, h => by
    simp only [Node.entriesSuit, Bool.and_eq_true] at h
    unfold mergedEntries
    split
    · exact ((isFair_brought v h.1.2).map _).seq (isFair_mergedEntries rest h.2)
    · exact isFair_mergedEntries rest h.2

theorem isFair_brought : (n : Node) → n.suits → IsFair (brought n)
  | .mapping _ entries, h => by
    rw [Node.suits, Bool.and_eq_true] at h
    unfold brought
    exact isFair_allEntries (isFair_mergedEntries entries h.1) (isFair_ownEntries entries h.1)
  | .sequence _ items, h => by
    rw [Node.suits] at h
    unfold brought
    exact isFair_broughtByItems items h
  | .scalar _ _, _ | .cycle _, _ => by
    unfold brought
    exact isFair_pure _

theorem isFair_broughtByItems : (ns : List Node) → Node.itemsSuit ns → IsFair (broughtByItems ns)
  | [], _ => by
    unfold broughtByItems
    exact isFair_pure _
  | n :: ns, h => by
    rw [Node.itemsSuit, Bool.and_eq_true] at h
    unfold broughtByItems
    exact ((isFair_broughtByItems ns h.2).map _).seq (isFair_brought n h.1)

theorem isFair_ownEntries : (entries : List (Node × Node)) → Node.entriesSuit entries →
    IsFair (ownEntries entries)
  | [], _ => by
    unfold ownEntries
    exact isFair_pure _
  | (k, v) :: rest, h => by
    simp only [Node.entriesSuit, Bool.and_eq_true] at h
    unfold ownEntries
    split
    · exact isFair_ownEntries rest h.2
    · refine IsFair.seq (IsFair.seq (IsFair.map _ ?_) (isFair_value v h.1.2))
        (isFair_ownEntries rest h.2)
      split
      · exact isFair_now (breaksAs_scalar (suits_str _))
      · exact isFair_checkedKey (isFair_value k h.1.1)

end

end Construct

/-! ## Documents -/

/-- Whether a text has no escape for a character beyond the last one, is not nested too deeply, and
has only scalars that suit their kinds. Whether it is malformed is not asked. -/
def isSound (numbers : Bool) (text : List Char) : Bool :=
  match tokens text with
  | .error b => b ≠ .badValue
  | .ok ts =>
    match Node.ofTokens numbers ts with
    | .error b => b ≠ .tooDeep
    | .ok root => root.all Node.suits

/-- A sound text has a value or is malformed. -/
theorem breaksAs_read {numbers : Bool} {text : List Char} (h : isSound numbers text) :
    BreaksAs [.malformedYaml] (read numbers text) := by
  unfold isSound at h
  unfold read
  cases htokens : tokens text with
  | error b =>
    rw [htokens] at h
    have hb := breaksAs_tokens text b htokens
    exact breaksAs_error (by simp_all)
  | ok ts =>
    rw [htokens] at h
    rw [ok_bind]
    dsimp only at h
    cases hroot : Node.ofTokens numbers ts with
    | error b =>
      rw [hroot] at h
      have hb := Node.breaksAs_ofTokens numbers ts b hroot
      exact breaksAs_error (by simp_all)
    | ok root =>
      rw [hroot] at h
      cases root with
      | none => exact breaksAs_ok _
      | some n => exact (Construct.isFair_value n h).breaksAs_toReading

end AppBroker.Yaml
