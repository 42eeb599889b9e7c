import AppBroker.Yaml.Construct

/-!
# Quotes that change nothing

A plain scalar that is text all the same may as well be in quotes: the tokens of a document make
the same node when all such scalars are quoted (`Node.ofTokens_quote`). Numbers are kept as text
here.
-/

namespace AppBroker.Yaml

/-- A token in quotes, if it is a plain scalar that is text where numbers are kept as text. -/
def Token.quote : Token → Token
  | .scalar text plain => .scalar text (plain && suggested false text.chars ≠ .str)
  | t => t

theorem Scan.weave_quote (openings : List Opening) (i : Nat) (ts : List Token) :
    weave openings i (ts.map Token.quote) = (weave openings i ts).map Token.quote := by
  induction ts generalizing i with
  | nil => rfl
  | cons t ts ih =>
    rw [List.map_cons, weave, weave, ih, List.map_append, List.map_cons]
    refine congrArg (· ++ _) ?_
    split
    · split <;> rfl
    · rfl

namespace Node

/-- A descent whose tokens that are left are in quotes. -/
def Descent.quote (d : Descent) : Descent := { d with rest := d.rest.map Token.quote }

/-- What a production has read, with the tokens that are left in quotes. -/
def quoted {α : Type} (o : Reading (α × Descent)) : Reading (α × Descent) :=
  o.map fun (a, d) => (a, d.quote)

section

variable {α β : Type} {d : Descent}

theorem quote_drop (d : Descent) : d.quote.drop = d.drop.quote :=
  congrArg (Descent.mk · d.anchors) List.map_drop.symm

theorem quote_open (d : Descent) (name : Option (List Char)) (isMapping : Bool) :
    d.quote.open name isMapping = (d.open name isMapping).quote := by
  cases name <;> rfl

theorem quote_close (d : Descent) (name : Option (List Char)) (node : Node) :
    d.quote.close name node = (d.close name node).quote := by
  cases name <;> rfl

theorem properties_quote (d : Descent) :
    properties d.quote = ((properties d).1, (properties d).2.1, (properties d).2.2.quote) := by
  rcases d with ⟨_ | ⟨t, rest⟩, anchors⟩
  · rfl
  cases t with
  | anchor name =>
    rcases rest with _ | ⟨u, rest⟩
    · rfl
    · cases u <;> rfl
  | tag handle suffix =>
    rcases rest with _ | ⟨u, rest⟩
    · rfl
    · cases u <;> rfl
  | _ => rfl

theorem quoted_bind {o o' : Reading (α × Descent)} {f f' : α × Descent → Reading (β × Descent)}
    (ho : o' = quoted o) (hf : ∀ a d, f' (a, d.quote) = quoted (f (a, d))) :
    (o' >>= f') = quoted (o >>= f) := by
  subst ho
  rcases o with b | ⟨a, d⟩
  · rfl
  · exact hf a d

theorem bind_quoted {o : Reading α} {f f' : α → Reading (β × Descent)}
    (hf : ∀ a, f' a = quoted (f a)) : (o >>= f') = quoted (o >>= f) := by
  cases o with
  | error b => rfl
  | ok a => exact hf a

theorem quoted_ite {p : Prop} {h h' : Decidable p} {o o' q q' : Reading (α × Descent)}
    (ho : o' = quoted o) (hq : q' = quoted q) :
    @ite _ p h' o' q' = quoted (@ite _ p h o q) := by
  by_cases hp : p
  · rw [if_pos hp, if_pos hp, ho]
  · rw [if_neg hp, if_neg hp, hq]

/-- Whether a token is a scalar. -/
def isScalar : Token → Bool
  | .scalar _ _ => true
  | _ => false

theorem quote_mem {stops : List Token} (h : stops.any isScalar = false) (t : Token) :
    t.quote ∈ stops ↔ t ∈ stops := by
  cases t with
  | scalar text plain =>
    have hno (p : Bool) : Token.scalar text p ∉ stops := fun hmem => by
      simpa [isScalar] using List.any_eq_false.1 h _ hmem
    exact ⟨fun hmem => (hno _ hmem).elim, fun hmem => (hno _ hmem).elim⟩
  | _ => rfl

end

section

variable {ds : Directives} (hds : ds.numbers = false)
include hds

theorem scalarKind_quote (g : Given) (text : Content) (plain : Bool) :
    scalarKind ds g text (plain && suggested false text.chars ≠ .str) = scalarKind ds g text plain := by
  cases g with
  | none =>
    rw [scalarKind, scalarKind, hds]
    by_cases hstr : suggested false text.chars = .str <;> cases plain <;> simp [hstr]
  | nonSpecific => rfl
  | kind k => rfl

/-- The node that an alias names. -/
def named (name : List Char) (d : Descent) : Reading (Node × Descent) :=
  match d.anchors.find? fun entry => entry.1 = name with
  | some (_, .inl n) => .ok (n, d.drop)
  | some (_, .inr isMapping) => .ok (.cycle isMapping, d.drop)
  | none => Token.malformed

omit hds in
theorem named_quote (name : List Char) (d : Descent) : named name d.quote = quoted (named name d) := by
  unfold named
  rw [quote_drop, show d.quote.anchors = d.anchors from rfl]
  generalize d.anchors.find? _ = found
  rcases found with _ | ⟨_, n | isMapping⟩ <;> rfl

/-- A node behind its properties. -/
def content (ds : Directives) (fuel depth : Nat) (block indentless : Bool) (name : Option (List Char))
    (tag : Option Token) (d : Descent) : Reading (Node × Descent) := do
  let g ← given ds tag
  let known := match name with
    | some n => d.anchors.any fun entry => entry.1 = n
    | none => false
  if known then Token.malformed
  match d.rest with
  | .scalar text plain :: _ =>
    let n := Node.scalar (scalarKind ds g text plain) text
    return (n, d.drop.close name n)
  | .flowSequenceStart :: _ =>
    let (items, d) ← flowItems ds fuel depth true [] (d.drop.open name false)
    let n := Node.sequence (collectionKind g .seq) items
    return (n, d.close name n)
  | .flowMappingStart :: _ =>
    let (entries, d) ← flowEntries ds fuel depth true [] (d.drop.open name true)
    let n := Node.mapping (collectionKind g .map) entries
    return (n, d.close name n)
  | t :: _ =>
    if indentless && t = .blockEntry then
      let (items, d) ← indentlessItems ds fuel depth [] (d.open name false)
      let n := Node.sequence (collectionKind g .seq) items
      return (n, d.close name n)
    else if block && t = .blockSequenceStart then
      let (items, d) ← blockItems ds fuel depth [] (d.drop.open name false)
      let n := Node.sequence (collectionKind g .seq) items
      return (n, d.close name n)
    else if block && t = .blockMappingStart then
      let (entries, d) ← blockEntries ds fuel depth [] (d.drop.open name true)
      let n := Node.mapping (collectionKind g .map) entries
      return (n, d.close name n)
    else if name.isSome || tag.isSome then
      let kind := match g with
        | .kind k => k
        | _ => Kind.null
      let n := Node.scalar kind ⟨[], true⟩
      return (n, d.close name n)
    else Token.malformed
  | [] => Token.malformed

omit hds in
theorem node_succ (fuel depth : Nat) (block indentless : Bool) (d : Descent) :
    node ds (fuel + 1) depth block indentless d =
      if maxDepth < depth then .error .tooDeep
      else match d.rest with
        | .alias name :: _ => named name d
        | _ => content ds fuel depth block indentless (properties d).1 (properties d).2.1
            (properties d).2.2 := by
  unfold Node.node
  rfl

/-- Whether all productions read alike in quotes, with as much fuel as is given. -/
structure DescentsQuoted (ds : Directives) (fuel : Nat) : Prop where
  node : ∀ depth block indentless d,
    node ds fuel depth block indentless d.quote = quoted (node ds fuel depth block indentless d)
  nodeUnless : ∀ depth block indentless stops d, stops.any isScalar = false →
    nodeUnless ds fuel depth block indentless stops d.quote =
      quoted (nodeUnless ds fuel depth block indentless stops d)
  blockItems : ∀ depth read d,
    blockItems ds fuel depth read d.quote = quoted (blockItems ds fuel depth read d)
  indentlessItems : ∀ depth read d,
    indentlessItems ds fuel depth read d.quote = quoted (indentlessItems ds fuel depth read d)
  blockEntries : ∀ depth read d,
    blockEntries ds fuel depth read d.quote = quoted (blockEntries ds fuel depth read d)
  flowItems : ∀ depth first read d,
    flowItems ds fuel depth first read d.quote = quoted (flowItems ds fuel depth first read d)
  flowEntries : ∀ depth first read d,
    flowEntries ds fuel depth first read d.quote = quoted (flowEntries ds fuel depth first read d)

theorem content_quote {fuel : Nat} (h : DescentsQuoted ds fuel) (depth : Nat) (block indentless : Bool)
    (name : Option (List Char)) (tag : Option Token) (d : Descent) :
    content ds fuel depth block indentless name tag d.quote =
      quoted (content ds fuel depth block indentless name tag d) := by
  have hclose (n : Node) (d : Descent) :
      (.ok (n, d.quote.close name n) : Reading (Node × Descent)) = quoted (.ok (n, d.close name n)) := by
    rw [quote_close]
    rfl
  have hread {α : Type} {o o' : Reading (α × Descent)} (make : α → Node) (ho : o' = quoted o) :
      (do let (a, d) ← o'; return (make a, d.close name (make a))) =
        quoted (do let (a, d) ← o; return (make a, d.close name (make a))) :=
    quoted_bind ho fun a d => hclose (make a) d
  unfold content
  refine bind_quoted fun g => quoted_ite rfl ?_
  rcases d with ⟨_ | ⟨t, rest⟩, anchors⟩
  · rfl
  cases t with
  | scalar text plain =>
    show (.ok (Node.scalar (scalarKind ds g text _) text, _) : Reading (Node × Descent)) = _
    rw [scalarKind_quote hds]
    exact hclose _ ⟨rest, anchors⟩
  | flowSequenceStart =>
    refine hread (.sequence _) ?_
    rw [quote_drop, quote_open]
    exact h.flowItems ..
  | flowMappingStart =>
    refine hread (.mapping _) ?_
    rw [quote_drop, quote_open]
    exact h.flowEntries ..
  | _ =>
    refine quoted_ite (hread (.sequence _) ?_) (quoted_ite (hread (.sequence _) ?_)
      (quoted_ite (hread (.mapping _) ?_) (quoted_ite (hclose ..) rfl)))
    · rw [quote_open]
      exact h.indentlessItems ..
    · rw [quote_drop, quote_open]
      exact h.blockItems ..
    · rw [quote_drop, quote_open]
      exact h.blockEntries ..

theorem descentsQuoted (fuel : Nat) : DescentsQuoted ds fuel := by
  induction fuel with
  | zero =>
    constructor <;> intros <;>
      simp only [Node.node, Node.nodeUnless, Node.blockItems, Node.indentlessItems,
        Node.blockEntries, Node.flowItems, Node.flowEntries] <;> rfl
  | succ fuel ih =>
    obtain ⟨hnode, hunless, hblock, hindentless, hentries, hitems, hpairs⟩ := ih
    constructor
    · intro depth block indentless d
      have hbehind : content ds fuel depth block indentless (properties d.quote).1
          (properties d.quote).2.1 (properties d.quote).2.2 =
          quoted (content ds fuel depth block indentless (properties d).1 (properties d).2.1
            (properties d).2.2) := by
        rw [properties_quote]
        exact content_quote hds ⟨hnode, hunless, hblock, hindentless, hentries, hitems, hpairs⟩ ..
      rw [node_succ, node_succ]
      refine quoted_ite rfl ?_
      rcases d with ⟨_ | ⟨t, rest⟩, anchors⟩
      · exact hbehind
      cases t with
      | «alias» name =>
        have hnamed := named_quote name ⟨.alias name :: rest, anchors⟩
        exact hnamed
      | _ => exact hbehind
    · intro depth block indentless stops d hstops
      unfold Node.nodeUnless
      rcases d with ⟨_ | ⟨t, rest⟩, anchors⟩
      · rfl
      have hmem := quote_mem hstops t
      show (if t.quote ∈ stops then _ else _) = quoted (if t ∈ stops then _ else _)
      by_cases hstop : t ∈ stops
      · rw [if_pos hstop, if_pos (hmem.2 hstop)]
        rfl
      · rw [if_neg hstop, if_neg (mt hmem.1 hstop)]
        exact hnode ..
    · intro depth read d
      unfold Node.blockItems
      rcases d with ⟨_ | ⟨t, rest⟩, anchors⟩
      · rfl
      cases t with
      | blockEntry =>
        exact quoted_bind (hunless _ _ _ _ ⟨rest, anchors⟩ rfl) fun _ _ => hblock ..
      | _ => rfl
    · intro depth read d
      unfold Node.indentlessItems
      rcases d with ⟨_ | ⟨t, rest⟩, anchors⟩
      · rfl
      cases t with
      | blockEntry =>
        exact quoted_bind (hunless _ _ _ _ ⟨rest, anchors⟩ rfl) fun _ _ => hindentless ..
      | _ => rfl
    · intro depth read d
      unfold Node.blockEntries
      rcases d with ⟨_ | ⟨t, rest⟩, anchors⟩
      · rfl
      cases t with
      | key =>
        refine quoted_bind (hunless _ _ _ _ ⟨rest, anchors⟩ rfl) fun k d => ?_
        rcases d with ⟨_ | ⟨t, rest⟩, anchors⟩
        · exact hentries ..
        cases t with
        | value => exact quoted_bind (hunless _ _ _ _ ⟨rest, anchors⟩ rfl) fun _ _ => hentries ..
        | _ => exact hentries ..
      | _ => rfl
    · intro depth first read d
      unfold Node.flowItems
      extract_lets item
      have hitem (d : Descent) : item d.quote = quoted (item d) := by
        unfold item
        rcases d with ⟨_ | ⟨t, rest⟩, anchors⟩
        · exact quoted_bind (hnode ..) fun _ _ => hitems ..
        cases t with
        | flowSequenceEnd => rfl
        | key =>
          refine quoted_bind (hunless _ _ _ _ ⟨rest, anchors⟩ rfl) fun k d => ?_
          rcases d with ⟨_ | ⟨t, rest⟩, anchors⟩
          · exact hitems ..
          cases t with
          | value => exact quoted_bind (hunless _ _ _ _ ⟨rest, anchors⟩ rfl) fun _ _ => hitems ..
          | _ => exact hitems ..
        | _ => exact quoted_bind (hnode ..) fun _ _ => hitems ..
      clear_value item
      rcases d with ⟨_ | ⟨t, rest⟩, anchors⟩
      · rfl
      cases t with
      | flowSequenceEnd => rfl
      | flowEntry => exact quoted_ite (hitem _) (hitem ⟨rest, anchors⟩)
      | _ => exact quoted_ite (hitem _) rfl
    · intro depth first read d
      unfold Node.flowEntries
      extract_lets entry
      have hentry (d : Descent) : entry d.quote = quoted (entry d) := by
        unfold entry
        rcases d with ⟨_ | ⟨t, rest⟩, anchors⟩
        · exact quoted_bind (hnode ..) fun _ _ => hpairs ..
        cases t with
        | flowMappingEnd => rfl
        | key =>
          refine quoted_bind (hunless _ _ _ _ ⟨rest, anchors⟩ rfl) fun k d => ?_
          rcases d with ⟨_ | ⟨t, rest⟩, anchors⟩
          · exact hpairs ..
          cases t with
          | value => exact quoted_bind (hunless _ _ _ _ ⟨rest, anchors⟩ rfl) fun _ _ => hpairs ..
          | _ => exact hpairs ..
        | _ => exact quoted_bind (hnode ..) fun _ _ => hpairs ..
      clear_value entry
      rcases d with ⟨_ | ⟨t, rest⟩, anchors⟩
      · rfl
      cases t with
      | flowMappingEnd => rfl
      | flowEntry => exact quoted_ite (hentry _) (hentry ⟨rest, anchors⟩)
      | _ => exact quoted_ite (hentry _) rfl

omit hds in
theorem skipDocumentEnds_quote (ts : List Token) :
    skipDocumentEnds (ts.map Token.quote) = (skipDocumentEnds ts).map Token.quote := by
  fun_induction skipDocumentEnds ts with
  | case1 rest ih => exact ih
  | case2 rest hend =>
    cases rest with
    | nil => rfl
    | cons t rest =>
      cases t with
      | documentEnd => exact (hend rest rfl).elim
      | _ => rfl

end

theorem directives_quote (numbers : Bool) (ts : List Token) (versioned : Bool)
    (handles : List (List Char × List Char)) :
    directives numbers (ts.map Token.quote) versioned handles =
      (directives numbers ts versioned handles).map fun (ds, rest) => (ds, rest.map Token.quote) := by
  induction ts generalizing versioned handles with
  | nil => rfl
  | cons t rest ih =>
    cases t with
    | versionDirective major =>
      show (if versioned || major ≠ 1 then Token.malformed
          else directives numbers (rest.map Token.quote) true handles) =
        Except.map _ (if versioned || major ≠ 1 then Token.malformed
          else directives numbers rest true handles)
      split
      · rfl
      · exact ih ..
    | tagDirective handle start =>
      show (if handles.any fun entry => entry.1 = handle then Token.malformed
          else directives numbers (rest.map Token.quote) versioned ((handle, start) :: handles)) =
        Except.map _ (if handles.any fun entry => entry.1 = handle then Token.malformed
          else directives numbers rest versioned ((handle, start) :: handles))
      split
      · rfl
      · exact ih ..
    | otherDirective => exact ih ..
    | _ => rfl

theorem numbers_directives {numbers : Bool} {ts rest : List Token} {versioned : Bool}
    {handles : List (List Char × List Char)} {ds : Directives}
    (h : directives numbers ts versioned handles = .ok (ds, rest)) : ds.numbers = numbers := by
  induction ts generalizing versioned handles with
  | nil =>
    cases h
    rfl
  | cons t more ih =>
    cases t with
    | versionDirective major =>
      replace h : (if versioned || major ≠ 1 then Token.malformed
        else directives numbers more true handles) = .ok (ds, rest) := h
      split at h
      · cases h
      · exact ih h
    | tagDirective handle start =>
      replace h : (if handles.any fun entry => entry.1 = handle then Token.malformed
        else directives numbers more versioned ((handle, start) :: handles)) = .ok (ds, rest) := h
      split at h
      · cases h
      · exact ih h
    | otherDirective => exact ih h
    | _ =>
      cases h
      rfl

/-- The root of a document behind which only ends of documents come. -/
def finished (n : Node) (rest : List Token) : Reading (Option Node) :=
  match skipDocumentEnds rest with
  | .streamEnd :: _ => .ok (some n)
  | _ => Token.malformed

theorem finished_quote (n : Node) (rest : List Token) :
    finished n (rest.map Token.quote) = finished n rest := by
  unfold finished
  rw [skipDocumentEnds_quote]
  rcases skipDocumentEnds rest with _ | ⟨t, rest⟩
  · rfl
  · cases t <;> rfl

/-- The root of a document from its first token on. -/
def root (ds : Directives) (fuel : Nat) (rest : List Token) : Reading (Option Node) := do
  let (n, d) ← node ds fuel 0 true false { rest }
  finished n d.rest

theorem root_quote {ds : Directives} (hds : ds.numbers = false) (fuel : Nat) (rest : List Token) :
    root ds fuel (rest.map Token.quote) = root ds fuel rest := by
  unfold root
  rw [show (⟨rest.map Token.quote, []⟩ : Descent) = Descent.quote ⟨rest, []⟩ from rfl,
    (descentsQuoted hds fuel).node]
  rcases node ds fuel 0 true false ⟨rest, []⟩ with b | ⟨n, d⟩
  · rfl
  · exact finished_quote n d.rest

/-- The root of a document behind its directives. -/
def explicitRoot (fuel : Nat) : Directives × List Token → Reading (Option Node) := fun (ds, rest) =>
  match rest with
  | .documentStart :: rest =>
    match rest with
    | t :: _ => if isMarginal t then finished empty rest else root ds fuel rest
    | [] => Token.malformed
  | _ => Token.malformed

theorem explicitRoot_quote {ds : Directives} (hds : ds.numbers = false) (fuel : Nat)
    (rest : List Token) : explicitRoot fuel (ds, rest.map Token.quote) = explicitRoot fuel (ds, rest) := by
  rcases rest with _ | ⟨t, _ | ⟨u, rest⟩⟩
  · rfl
  · cases t <;> rfl
  have hroot := root_quote hds fuel (u :: rest)
  have hempty := finished_quote empty (u :: rest)
  cases t with
  | documentStart => cases u <;> first | exact hroot | exact hempty
  | _ => rfl

/-- Where numbers are kept as text, a document with quotes around all plain scalars that are text
has the same root. -/
theorem ofTokens_quote (ts : List Token) : ofTokens false (ts.map Token.quote) = ofTokens false ts := by
  unfold ofTokens
  rw [List.length_map]
  extract_lets fuel finish explicit
  have hexplicit (ts : List Token) : explicit (ts.map Token.quote) = explicit ts := by
    unfold explicit
    rw [skipDocumentEnds_quote]
    have hbehind (ts : List Token) :
        (directives false (ts.map Token.quote) false [] >>= explicitRoot fuel) =
          (directives false ts false [] >>= explicitRoot fuel) := by
      rw [directives_quote]
      cases hdirectives : directives false ts false [] with
      | error b => rfl
      | ok read => exact explicitRoot_quote (numbers_directives hdirectives) fuel read.2
    rcases skipDocumentEnds ts with _ | ⟨t, rest⟩
    · rfl
    have hrest := hbehind (t :: rest)
    cases t with
    | streamEnd => rfl
    | _ => exact hrest
  clear_value explicit
  rcases ts with _ | ⟨t, rest⟩
  · rfl
  have hmarked := hexplicit (t :: rest)
  have hroot := root_quote (show (⟨false, defaultHandles⟩ : Directives).numbers = false from rfl) fuel (t :: rest)
  cases t with
  | versionDirective | tagDirective | otherDirective | documentStart | streamEnd => exact hmarked
  | _ => exact hroot

end Node

end AppBroker.Yaml
