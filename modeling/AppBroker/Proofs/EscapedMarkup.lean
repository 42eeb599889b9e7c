import AppBroker.Console
import Mathlib.Data.List.TakeWhile

/-!
# Escaped text on the console

A tag in an escaped text has an odd number of backslashes before it and is plain text
(`Markup.prints_guardTags`). So nothing in a text that was escaped closes a style, and a refusal is
always printed, whatever it quotes (`Report.ofOutcome_refusal`).
-/

namespace AppBroker.Console

namespace Markup

variable {stack : List (List Char)} {c : Char} {cs s rest tail body : List Char} {k m : Nat}

/-! ## Tags at the head of a text -/

/-- Whether no bracket is among some characters. -/
def Unbracketed (cs : List Char) : Prop := ∀ c ∈ cs, c ≠ '[' ∧ c ≠ ']'

theorem drop_takeWhile (p : Char → Bool) (cs : List Char) :
    cs.drop (cs.takeWhile p).length = cs.dropWhile p :=
  List.append_cancel_left ((List.prefix_iff_eq_append.1 (List.takeWhile_prefix p)).trans
    List.takeWhile_append_dropWhile.symm)

theorem opensTag_unbracketed (h : opensTag c = true) : c ≠ '[' ∧ c ≠ ']' := by
  constructor <;>
  · rintro rfl
    revert h
    decide

/-- A tag is an opening bracket, then something that opens a tag and has no bracket in it, and a
closing bracket. -/
theorem tagAt?_eq_some_iff : tagAt? cs = some (body, rest) ↔
    (∃ d inner, body = d :: inner ∧ opensTag d = true) ∧ Unbracketed body ∧
      cs = '[' :: (body ++ ']' :: rest) := by
  constructor
  · intro h
    unfold tagAt? at h
    split at h
    · rename_i d ds
      dsimp only at h
      split at h
      · rename_i hopens hrest
        cases h
        refine ⟨⟨d, _, rfl, hopens⟩, ?_, ?_⟩
        · refine List.forall_mem_cons.2 ⟨opensTag_unbracketed hopens, fun c hc => ?_⟩
          simpa using List.mem_takeWhile_imp hc
        · rw [← hrest, List.cons_append, List.prefix_iff_eq_append.1 (List.takeWhile_prefix _)]
      · cases h
    · cases h
  · rintro ⟨⟨d, inner, rfl, hopens⟩, hbody, rfl⟩
    obtain ⟨-, hinner⟩ := List.forall_mem_cons.1 hbody
    have htake : (inner ++ ']' :: rest).takeWhile (fun d => d ≠ '[' && d ≠ ']') = inner := by
      rw [List.takeWhile_append_of_pos (by simpa using hinner)]
      simp
    unfold tagAt?
    simp only [List.cons_append]
    rw [htake, hopens, List.drop_left]
    rfl

theorem tagAt?_of_ne (hc : c ≠ '[') : tagAt? (c :: cs) = none := by
  cases h : tagAt? (c :: cs) with
  | none => rfl
  | some found =>
    obtain ⟨-, -, heq⟩ := tagAt?_eq_some_iff.1 h
    exact absurd (List.cons.inj heq).1 hc

/-! ## Guarded tags -/

theorem guardTags_plain (hc : c ≠ '\\') (h : tagAt? (c :: cs) = none) :
    guardTags k (c :: cs) = c :: guardTags 0 cs := by
  rw [guardTags, if_neg hc, h]
  rfl

theorem guardTags_tag {found : List Char × List Char} (h : tagAt? (c :: cs) = some found) :
    guardTags k (c :: cs) = List.replicate (k + 1) '\\' ++ c :: guardTags 0 cs := by
  have hc : c ≠ '\\' := by
    rintro rfl
    rw [tagAt?_of_ne (by decide)] at h
    cases h
  rw [guardTags, if_neg hc, h]
  rfl

theorem guardTags_slashes (k m : Nat) (s : List Char) :
    guardTags k (List.replicate m '\\' ++ s) = List.replicate m '\\' ++ guardTags (k + m) s := by
  induction m generalizing k with
  | zero => rfl
  | succ m ih =>
    rw [List.replicate_succ, List.cons_append, guardTags, if_pos rfl, ih, List.cons_append,
      Nat.add_right_comm, Nat.add_assoc]

/-- Up to a closing bracket nothing is guarded where no bracket opens. -/
theorem guardTags_unbracketed (h : Unbracketed body) (k : Nat) (rest : List Char) :
    guardTags k (body ++ ']' :: rest) = body ++ ']' :: guardTags 0 rest := by
  induction body generalizing k with
  | nil => exact guardTags_plain (by decide) (tagAt?_of_ne (by decide))
  | cons c cs ih =>
    obtain ⟨hc, hcs⟩ := List.forall_mem_cons.1 h
    rw [List.cons_append, List.cons_append]
    by_cases hslash : c = '\\'
    · rw [guardTags, if_pos hslash, ih hcs]
    · rw [guardTags_plain hslash (tagAt?_of_ne hc.1), ih hcs]

/-- Whether an opening bracket is the first thing in a text, after backslashes. -/
def Opens (cs : List Char) : Prop := ∃ m rest, cs = List.replicate m '\\' ++ '[' :: rest

theorem Opens.not_closed (h : Opens cs) (hbody : Unbracketed body) : cs ≠ body ++ ']' :: rest := by
  obtain ⟨m, more, rfl⟩ := h
  induction m generalizing body with
  | zero =>
    rintro heq
    cases body with
    | nil => exact absurd (List.cons.inj heq).1 (by decide)
    | cons c cs => exact (List.forall_mem_cons.1 hbody).1.1 (List.cons.inj heq).1.symm
  | succ m ih =>
    rintro heq
    cases body with
    | nil => exact absurd (List.cons.inj heq).1 (by decide)
    | cons c cs => exact ih (List.forall_mem_cons.1 hbody).2 (List.cons.inj heq).2

/-- What is closed in a guarded text was closed before it was guarded. -/
theorem closed_of_guarded (htail : Opens tail) (hbody : Unbracketed body)
    (h : guardTags k s ++ tail = body ++ ']' :: rest) : ∃ rest', s = body ++ ']' :: rest' := by
  induction s generalizing k body with
  | nil => exact absurd h (htail.not_closed hbody)
  | cons c cs ih =>
    by_cases hslash : c = '\\'
    · subst hslash
      rw [guardTags, if_pos rfl, List.cons_append] at h
      cases body with
      | nil => exact absurd (List.cons.inj h).1 (by decide)
      | cons d body =>
        obtain ⟨rfl, hmore⟩ := List.cons.inj h
        obtain ⟨rest', rfl⟩ := ih (List.forall_mem_cons.1 hbody).2 hmore
        exact ⟨rest', rfl⟩
    cases htag : tagAt? (c :: cs) with
    | some found =>
      obtain ⟨-, -, heq⟩ := tagAt?_eq_some_iff.1 htag
      obtain ⟨rfl, -⟩ := List.cons.inj heq
      rw [guardTags_tag htag, List.append_assoc, List.cons_append] at h
      exact absurd h (Opens.not_closed ⟨_, _, rfl⟩ hbody)
    | none =>
      rw [guardTags_plain hslash htag, List.cons_append] at h
      cases body with
      | nil =>
        obtain ⟨rfl, -⟩ := List.cons.inj h
        exact ⟨cs, rfl⟩
      | cons d body =>
        obtain ⟨rfl, hmore⟩ := List.cons.inj h
        obtain ⟨rest', rfl⟩ := ih (List.forall_mem_cons.1 hbody).2 hmore
        exact ⟨rest', rfl⟩

/-- The tags of a guarded text are those that it had before. -/
theorem tagAt?_guarded (htail : Opens tail) : tagAt? (c :: (guardTags 0 cs ++ tail)) =
    (tagAt? (c :: cs)).map fun found => (found.1, guardTags 0 found.2 ++ tail) := by
  cases htag : tagAt? (c :: cs) with
  | some found =>
    obtain ⟨hopens, hbody, heq⟩ := tagAt?_eq_some_iff.1 htag
    obtain ⟨rfl, rfl⟩ := List.cons.inj heq
    exact tagAt?_eq_some_iff.2 ⟨hopens, hbody, by
      rw [guardTags_unbracketed hbody, List.append_assoc, List.cons_append]⟩
  | none =>
    cases hfound : tagAt? (c :: (guardTags 0 cs ++ tail)) with
    | none => rfl
    | some found =>
      obtain ⟨hopens, hbody, heq⟩ := tagAt?_eq_some_iff.1 hfound
      obtain ⟨rfl, hclosed⟩ := List.cons.inj heq
      obtain ⟨rest', rfl⟩ := closed_of_guarded htail hbody hclosed
      rw [tagAt?_eq_some_iff.2 ⟨hopens, hbody, rfl⟩] at htag
      cases htag

/-! ## Printing -/

/-- Whether a text can be printed while some styles are open. -/
def Prints (stack : List (List Char)) (cs : List Char) : Prop :=
  ∀ fuel run, (print stack (piecesFrom fuel run cs)).isSome = true

theorem prints_nil : Prints stack [] := by
  intro fuel run
  cases fuel <;> rfl

theorem Prints.cons (h : Prints stack cs)
    (hplain : tagAt? ((c :: cs).dropWhile (· = '\\')) = none) : Prints stack (c :: cs) := by
  intro fuel run
  cases fuel with
  | zero => rfl
  | succ fuel =>
    rw [piecesFrom, drop_takeWhile, hplain]
    exact h fuel (c :: run)

theorem Prints.slashes (h : Prints stack (c :: cs)) (hc : c ≠ '\\') (hplain : tagAt? (c :: cs) = none)
    (m : Nat) : Prints stack (List.replicate m '\\' ++ c :: cs) := by
  induction m with
  | zero => exact h
  | succ m ih =>
    refine ih.cons ?_
    rw [← List.cons_append, ← List.replicate_succ, List.dropWhile_append_of_pos (by simp),
      List.dropWhile_cons_of_neg (by simpa using hc)]
    exact hplain

theorem piecesFrom_tag (h : tagAt? cs = some (body, rest)) (m fuel : Nat) (run : List Char) :
    piecesFrom (fuel + 1) run (List.replicate m '\\' ++ cs) =
      .plain run.reverse :: guarded m body ++ piecesFrom fuel [] rest := by
  obtain ⟨-, -, rfl⟩ := tagAt?_eq_some_iff.1 h
  have htake : (List.replicate m '\\' ++ '[' :: (body ++ ']' :: rest)).takeWhile (· = '\\') =
      List.replicate m '\\' := by
    rw [List.takeWhile_append_of_pos (by simp)]
    simp
  obtain ⟨c, cs, hcs⟩ := List.exists_cons_of_ne_nil
    (show List.replicate m '\\' ++ '[' :: (body ++ ']' :: rest) ≠ [] by simp)
  rw [hcs, piecesFrom, ← hcs, htake, List.drop_left, h, List.length_replicate]

theorem exists_pieces_tag (h : tagAt? cs = some (body, rest)) :
    ∃ fuel, pieces cs = .plain [] :: guarded 0 body ++ piecesFrom fuel [] rest := by
  obtain ⟨-, -, hcs⟩ := tagAt?_eq_some_iff.1 h
  obtain ⟨fuel, hfuel⟩ : ∃ fuel, cs.length = fuel + 1 := Nat.exists_eq_add_one.2 (by simp [hcs])
  refine ⟨fuel, ?_⟩
  rw [pieces, hfuel]
  exact piecesFrom_tag h 0 fuel []

/-- A tag behind an odd number of backslashes is printed as it is. -/
theorem Prints.tag (h : Prints stack rest) (htag : tagAt? cs = some (body, rest)) (hodd : m % 2 = 1) :
    Prints stack (List.replicate m '\\' ++ cs) := by
  intro fuel run
  cases fuel with
  | zero =>
    cases List.replicate m '\\' ++ cs <;> rfl
  | succ fuel =>
    rw [piecesFrom_tag htag, guarded, if_pos hodd]
    simpa [print] using h fuel []

theorem exists_slashes (s : List Char) : ∃ m rest, s = List.replicate m '\\' ++ rest ∧
    ∀ c ∈ rest.head?, c ≠ '\\' := by
  refine ⟨(s.takeWhile (· = '\\')).length, s.dropWhile (· = '\\'), ?_, fun c hc => ?_⟩
  · have hslashes : s.takeWhile (· = '\\') = List.replicate (s.takeWhile (· = '\\')).length '\\' :=
      List.eq_replicate_of_mem fun c hc => by simpa using List.mem_takeWhile_imp hc
    rw [← hslashes, List.takeWhile_append_dropWhile]
  · have hhead := List.head?_dropWhile_not (fun c => decide (c = '\\')) s
    rw [hc] at hhead
    simpa using hhead

/-- A guarded text can be printed if what comes behind it can, after any number of backslashes. -/
theorem prints_guardTags (htail : Opens tail)
    (h : ∀ m, Prints stack (List.replicate m '\\' ++ tail)) (s : List Char) :
    Prints stack (guardTags 0 s ++ tail) := by
  induction hlength : s.length using Nat.strongRecOn generalizing s with
  | _ n ih =>
  subst hlength
  obtain ⟨m, rest, hs, hrest⟩ := exists_slashes s
  rw [hs, guardTags_slashes, List.append_assoc, Nat.zero_add]
  cases rest with
  | nil => exact h m
  | cons c cs =>
    have hc : c ≠ '\\' := hrest c rfl
    have hshort : cs.length < s.length := by
      rw [hs, List.length_append, List.length_cons]
      omega
    have hguarded : tagAt? (c :: (guardTags 0 cs ++ tail)) = _ := tagAt?_guarded htail
    cases htag : tagAt? (c :: cs) with
    | none =>
      rw [htag, Option.map_none] at hguarded
      rw [guardTags_plain hc htag]
      refine Prints.slashes ((ih _ hshort cs rfl).cons ?_) hc hguarded m
      rwa [List.dropWhile_cons_of_neg (by simpa using hc)]
    | some found =>
      rw [htag, Option.map_some] at hguarded
      have hlength : found.2.length < s.length := by
        obtain ⟨-, -, heq⟩ := tagAt?_eq_some_iff.1 htag
        rw [hs, heq]
        simp only [List.length_append, List.length_cons]
        omega
      rw [guardTags_tag htag, List.append_assoc, ← List.append_assoc, List.replicate_append_replicate]
      exact (ih _ hlength _ rfl).tag hguarded (by omega)

theorem guardTags_word {word : List Char} (h : ∀ c ∈ word, c ≠ '\\' ∧ c ≠ '[') :
    guardTags 0 (word ++ cs) = word ++ guardTags 0 cs := by
  induction word with
  | nil => rfl
  | cons c word ih =>
    obtain ⟨⟨hslash, hbracket⟩, hword⟩ := List.forall_mem_cons.1 h
    rw [List.cons_append, guardTags_plain hslash (tagAt?_of_ne hbracket), ih hword, List.cons_append]

theorem exists_toList_escape (s : String) :
    ∃ m, (escape s).toList = guardTags 0 s.toList ++ List.replicate m '\\' := by
  unfold escape
  rw [String.toList_ofList]
  split
  · exact ⟨1, rfl⟩
  · exact ⟨0, rfl⟩

/-- The name of the style of errors. -/
def red : List Char := ['r', 'e', 'd']

/-- The end of a red text. -/
def closing : List Char := '[' :: '/' :: red ++ [']']

theorem tagAt?_closing : tagAt? closing = some ('/' :: red, []) := rfl

/-- The end of a red text can be printed, be it a tag or not. -/
theorem prints_closing (m : Nat) : Prints [red] (List.replicate m '\\' ++ closing) := by
  intro fuel run
  cases fuel with
  | zero => cases List.replicate m '\\' ++ closing <;> rfl
  | succ fuel =>
    rw [piecesFrom_tag tagAt?_closing, guarded]
    have hfollow : follow [red] ('/' :: red) = some [] := by decide
    split
    · simpa [print] using prints_nil fuel []
    · simp only [List.cons_append, List.nil_append, print, hfollow, Option.bind_some]
      simpa using prints_nil fuel []

/-- An error can be printed, whatever it says. -/
theorem exists_render_error (s : String) :
    ∃ cs, render ("[red]Error: " ++ escape s ++ "[/red]") = .ok cs := by
  obtain ⟨m, hescape⟩ := exists_toList_escape s
  have hprints : Prints [red]
      (guardTags 0 ("Error: ".toList ++ s.toList) ++ (List.replicate m '\\' ++ closing)) := by
    refine prints_guardTags ⟨m, _, rfl⟩ (fun k => ?_) _
    rw [← List.append_assoc, List.replicate_append_replicate]
    exact prints_closing _
  have htag : tagAt? ("[red]Error: " ++ escape s ++ "[/red]").toList = some (red,
      guardTags 0 ("Error: ".toList ++ s.toList) ++ (List.replicate m '\\' ++ closing)) := by
    rw [guardTags_word (by simp), String.toList_append, String.toList_append, hescape]
    refine tagAt?_eq_some_iff.2 ⟨⟨_, _, rfl, rfl⟩, by simp [Unbracketed, red], ?_⟩
    simp [closing, red]
  obtain ⟨fuel, hpieces⟩ := exists_pieces_tag htag
  have hopen : follow [] red = some [red] := by decide
  obtain ⟨cs, hcs⟩ := Option.isSome_iff_exists.1 (hprints fuel [])
  refine ⟨cs, ?_⟩
  simp only [render, hpieces, guarded, if_neg (show ¬ 0 % 2 = 1 by decide), List.cons_append,
    List.nil_append, print, hopen, Option.bind_some, hcs]
  rfl

end Markup

/-- A refusal is printed, and the command ends with it. -/
theorem Report.ofOutcome_refusal (r : Refusal) :
    ∃ output, Report.ofOutcome (refuse r) = { exitCode := 1, output } := by
  obtain ⟨cs, hcs⟩ := Markup.exists_render_error r.message
  have hlines : (Printout.text ("[red]Error: " ++ Markup.escape r.message ++ "[/red]")).lines =
      .ok ((cs.splitOn '\n').map (expandTabs 0)) := by
    rw [Printout.lines, hcs]
    rfl
  rw [refuse, Report.ofOutcome, Report.print, hlines]
  exact ⟨_, rfl⟩

end AppBroker.Console
