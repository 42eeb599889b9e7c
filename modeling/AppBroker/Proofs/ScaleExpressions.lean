import AppBroker.Proofs.EscapedMarkup
import AppBroker.Proofs.Laws
import AppBroker.Proofs.Numerals

/-!
# What scale expressions denote

A scale expression denotes a number of containers if it is a number, with or without a sign, and has
nothing but blanks around it. Reading it gives that number, and any other expression is refused, except
for a run of digits that is no number: there reading breaks off (`Scale.parse_eq_fail_iff`).

So a command that is to scale an application and knows how many containers there are either scales it
to what the expression denotes or prints that the expression is refused (`scale_expression_settled`).
-/

namespace AppBroker

namespace Scale

open Text

variable {current k : Int} {expr : String} {cs digits : List Char} {n : Nat} {mode : Mode}

/-- Whether a number, with or without a sign, leads to a scale. -/
inductive Reads (current : Int) : List Char → Int → Prop where
  | absolute {digits : List Char} {n : Nat} (h : Writes digits n) : Reads current digits n
  | more {digits : List Char} {n : Nat} (h : Writes digits n) :
      Reads current ('+' :: digits) (current + n)
  | fewer {digits : List Char} {n : Nat} (h : Writes digits n) :
      Reads current ('-' :: digits) (current - n)

/-- Whether an expression denotes a scale when there are `current` containers. -/
def Denotes (current : Int) (expr : String) (k : Int) : Prop :=
  ∃ body, IsPadded expr.toList body ∧ Reads current body k

/-- How the sign of a number is written. -/
def Mode.sign : Mode → List Char
  | absolute => []
  | more => ['+']
  | fewer => ['-']

/-- Whether an expression is made of digits, with or without a sign, that cannot be read: some are not
decimal or there are too many. -/
def IsUnreadable (expr : String) : Prop :=
  ∃ mode digits, IsPadded expr.toList (Mode.sign mode ++ digits) ∧ digits ≠ [] ∧
    (∀ c ∈ digits, isDigit c = true) ∧
      ((∃ c ∈ digits, isDecimal c = false) ∨ maxNumeralLength < digits.length)

/-! ## Signs -/

theorem reads_iff : Reads current cs k ↔
    ∃ mode digits n, cs = Mode.sign mode ++ digits ∧ Writes digits n ∧ k = mode.apply current n := by
  constructor
  · rintro (h | h | h)
    · exact ⟨.absolute, _, _, rfl, h, rfl⟩
    · exact ⟨.more, _, _, rfl, h, rfl⟩
    · exact ⟨.fewer, _, _, rfl, h, rfl⟩
  · rintro ⟨mode, digits, n, rfl, h, rfl⟩
    cases mode with
    | absolute => exact .absolute h
    | more => exact .more h
    | fewer => exact .fewer h

theorem sign_splitSign (cs : List Char) : (splitSign cs).1.sign ++ (splitSign cs).2 = cs := by
  unfold splitSign
  split <;> rfl

/-- Digits do not begin with a sign. -/
theorem splitSign_sign (mode : Mode) (h : ∀ c ∈ digits, isDigit c = true) :
    splitSign (mode.sign ++ digits) = (mode, digits) := by
  cases mode with
  | absolute =>
    simp only [Mode.sign, List.nil_append]
    unfold splitSign
    split
    · exact absurd (h '+' List.mem_cons_self) (by decide)
    · exact absurd (h '-' List.mem_cons_self) (by decide)
    · rfl
  | more => rfl
  | fewer => rfl

theorem isBlank_signed (h : ∀ c ∈ digits, isDigit c = true) :
    ∀ c ∈ mode.sign ++ digits, isBlank c = false := by
  have hsign : ∀ c ∈ mode.sign, isBlank c = false := by cases mode <;> simp [Mode.sign, isBlank, isSpace]
  exact List.forall_mem_append.2 ⟨hsign, fun c hc => isBlank_eq_false (h c hc)⟩

/-! ## Reading -/

/-- What a numeral leads to. -/
def Mode.outcome (expr : String) (current : Int) (mode : Mode) : Numeral → Outcome Int
  | .word => refuse (.invalid (.scaleExpression expr))
  | .number n => .ok (mode.apply current n)
  | .unreadable => fail .badValue

/-- The sign and the digits of an expression. -/
def parts (expr : String) : Mode × List Char := splitSign (trimWhile isBlank expr.toList)

theorem parse_eq (expr : String) (current : Int) :
    parse expr current = (parts expr).1.outcome expr current (numeral (parts expr).2) := by
  rw [parse, trim, String.toList_ofList, ← parts]
  generalize parts expr = p
  obtain ⟨mode, digits⟩ := p
  dsimp only
  cases numeral digits <;> rfl

theorem isPadded_parts (expr : String) :
    IsPadded expr.toList ((parts expr).1.sign ++ (parts expr).2) := by
  rw [parts, sign_splitSign]
  exact isPadded_trimWhile _

theorem parts_of_padded (h : IsPadded expr.toList (mode.sign ++ digits)) (hne : digits ≠ [])
    (hdigits : ∀ c ∈ digits, isDigit c = true) : parts expr = (mode, digits) := by
  rw [parts, h.trimWhile_eq (List.append_ne_nil_of_right_ne_nil _ hne) (isBlank_signed hdigits),
    splitSign_sign mode hdigits]

/-- Reading breaks off just at digits that cannot be read, whatever there is to scale. -/
theorem parse_eq_fail_iff : parse expr current = fail .badValue ↔ IsUnreadable expr := by
  have hread : parse expr current = fail .badValue ↔ numeral (parts expr).2 = .unreadable := by
    rw [parse_eq]
    cases numeral (parts expr).2 <;> simp [Mode.outcome, refuse, fail]
  rw [hread]
  constructor
  · intro h
    exact ⟨_, _, isPadded_parts expr, numeral_eq_unreadable_iff.1 h⟩
  · rintro ⟨mode, digits, hpadded, h⟩
    rw [parts_of_padded hpadded h.1 h.2.1]
    exact numeral_eq_unreadable_iff.2 h

theorem denotes_of_parse (h : parse expr current = .ok k) : Denotes current expr k := by
  rw [parse_eq] at h
  cases hnumeral : numeral (parts expr).2 with
  | number n =>
    rw [hnumeral] at h
    exact ⟨_, isPadded_parts expr,
      reads_iff.2 ⟨_, _, n, rfl, (numeral_eq_number_iff.1 hnumeral).1, (Except.ok.inj h).symm⟩⟩
  | _ =>
    rw [hnumeral] at h
    cases h

theorem parse_of_denotes (hexpr : ¬ IsUnreadable expr) (h : Denotes current expr k) :
    parse expr current = .ok k := by
  obtain ⟨body, hpadded, hreads⟩ := h
  obtain ⟨mode, digits, n, rfl, hwrites, rfl⟩ := reads_iff.1 hreads
  have hdigits : ∀ c ∈ digits, isDigit c = true := fun c hc =>
    isDigit_of_isDecimal ((exists_writes_iff.1 ⟨n, hwrites⟩).2 c hc)
  have hlength : digits.length ≤ maxNumeralLength := by
    by_contra hlong
    exact hexpr ⟨mode, digits, hpadded, hwrites.ne_nil, hdigits, .inr (by omega)⟩
  rw [parse_eq, parts_of_padded hpadded hwrites.ne_nil hdigits,
    numeral_eq_number_iff.2 ⟨hwrites, hlength⟩]
  rfl

/-- Where reading does not break off, it gives what the expression denotes. -/
theorem parse_eq_ok_iff (hexpr : ¬ IsUnreadable expr) :
    parse expr current = .ok k ↔ Denotes current expr k :=
  ⟨denotes_of_parse, parse_of_denotes hexpr⟩

/-- Reading gives a number, refuses the expression or breaks off. -/
theorem parse_cases (expr : String) (current : Int) : (∃ k, parse expr current = .ok k) ∨
    parse expr current = refuse (.invalid (.scaleExpression expr)) ∨
      parse expr current = fail .badValue := by
  rw [parse_eq]
  cases numeral (parts expr).2 with
  | word => exact .inr (.inl rfl)
  | number n => exact .inl ⟨_, rfl⟩
  | unreadable => exact .inr (.inr rfl)

theorem parse_eq_refuse (hexpr : ¬ IsUnreadable expr) (h : ∀ k, ¬ Denotes current expr k) :
    parse expr current = refuse (.invalid (.scaleExpression expr)) := by
  rcases parse_cases expr current with ⟨k, hk⟩ | hrefuse | hfail
  · exact absurd (denotes_of_parse hk) (h k)
  · exact hrefuse
  · exact absurd (parse_eq_fail_iff.1 hfail) hexpr

/-- Decimal digits denote a scale however many they are, but too many are not read. -/
theorem parse_of_long (h : ∀ c ∈ digits, isDecimal c = true) (hlong : maxNumeralLength < digits.length) :
    (∃ k, Denotes current (String.ofList digits) k) ∧
      parse (String.ofList digits) current = fail .badValue := by
  have hne : digits ≠ [] := List.ne_nil_of_length_pos (by omega)
  have hpadded : IsPadded (String.ofList digits).toList digits := ⟨[], [], by simp, nofun⟩
  obtain ⟨n, hwrites⟩ := exists_writes_iff.2 ⟨hne, h⟩
  exact ⟨⟨n, digits, hpadded, .absolute hwrites⟩, parse_eq_fail_iff.2 ⟨.absolute, digits, hpadded, hne,
    fun c hc => isDigit_of_isDecimal (h c hc), .inr hlong⟩⟩

end Scale

namespace Console

variable {platform : PlatformSettings} {caller : Caller} {config name expr : String} {w w' : World}
  {broker : Broker} {disk : Disk} {e : Failure} {n : Nat} {k : Int}

/-! ## The broker of a command -/

/-- Sets up the broker of a command. -/
def opening (config : String) : Action Disk Broker := do
  Broker.ofSettings (← Disk.look fun d =>
    Settings.load d (Path.ofShown (if config = "" then usualConfig else config)))

/-- The world of a command whose broker is set up. -/
def withOpened (w : World) (broker : Broker) (disk : Disk) : World := { w with disk, broker }

variable {α : Type}

/-- Ending the connections of the broker never fails. -/
theorem followedBy_close (act : Action World α) (w : World) :
    (act.followedBy Lifecycle.close.run w).1 = (act w).1 := rfl

theorem withBroker_of_error (h : opening config w.disk = (.error e, disk))
    (act : PlatformSettings → Action World α) : (withBroker config act w).1 = .error e := by
  unfold opening at h
  rw [withBroker, h]

theorem withBroker_of_ok (h : opening config w.disk = (.ok broker, disk))
    (act : PlatformSettings → Action World α) :
    (withBroker config act w).1 = (act broker.platform (withOpened w broker disk)).1 := by
  unfold opening at h
  rw [withBroker, h]
  exact followedBy_close _ _

/-! ## Scaling from the console -/

/-- What is told about an application that is scaled. -/
def tellScaled (name : String) (handles : List Handle) : List Printout :=
  [good ("Application " ++ name ++ " now has " ++ toString handles.length
    ++ " framework containers.")]

theorem execute_scaleApp (w : World) : (execute caller platform (.scaleApp name expr) w).1 =
    ((rescale platform caller name expr).run w).1.map (tellScaled name) := by
  have hexecute : execute caller platform (.scaleApp name expr) w =
      Action.bind (rescale platform caller name expr).run
        (fun handles => Action.pure (tellScaled name handles)) w := rfl
  rw [hexecute, Action.bind]
  rcases (rescale platform caller name expr).run w with ⟨e | handles, w'⟩ <;> rfl

theorem rescale_of_count (hcount : (Lifecycle.count caller name).run w = (.ok n, w')) :
    (rescale platform caller name expr).run w =
      (Program.bind (.done (Scale.parse expr n)) (Lifecycle.scale platform caller name)).run w' :=
  Program.run_bind_of_ok hcount _

theorem rescale_of_ok (hcount : (Lifecycle.count caller name).run w = (.ok n, w'))
    (hk : Scale.parse expr n = .ok k) :
    (rescale platform caller name expr).run w = (Lifecycle.scale platform caller name k).run w' := by
  rw [rescale_of_count hcount, hk]
  rfl

theorem rescale_of_error (hcount : (Lifecycle.count caller name).run w = (.ok n, w'))
    (he : Scale.parse expr n = .error e) :
    (rescale platform caller name expr).run w = (.error e, w') := by
  rw [rescale_of_count hcount, he]
  rfl

/-- How a command ends that is to scale an application, in a world `w`. -/
inductive Rescaled (config : String) (caller : Caller) (name expr : String) (w : World) : Report → Prop
  where
  /-- There is no broker. -/
  | unopened {e : Failure} {disk : Disk} (hopen : opening config w.disk = (.error e, disk)) :
      Rescaled config caller name expr w (.ofOutcome (.error e))
  /-- The containers of the application cannot be counted. -/
  | uncounted {broker : Broker} {disk : Disk} {e : Failure} {w' : World}
      (hopen : opening config w.disk = (.ok broker, disk))
      (hcount : (Lifecycle.count caller name).run (withOpened w broker disk) = (.error e, w')) :
      Rescaled config caller name expr w (.ofOutcome (.error e))
  /-- The application is scaled to what the expression denotes; what is reported is how that ends. -/
  | scaled {broker : Broker} {disk : Disk} {n : Nat} {k : Int} {w' : World}
      (hopen : opening config w.disk = (.ok broker, disk))
      (hcount : (Lifecycle.count caller name).run (withOpened w broker disk) = (.ok n, w'))
      (hk : Scale.Denotes n expr k) :
      Rescaled config caller name expr w (.ofOutcome
        (((Lifecycle.scale broker.platform caller name k).run w').1.map (tellScaled name)))
  /-- The expression denotes nothing, and it is printed that it is refused. -/
  | refused {broker : Broker} {disk : Disk} {n : Nat} {w' : World} {output : String}
      (hopen : opening config w.disk = (.ok broker, disk))
      (hcount : (Lifecycle.count caller name).run (withOpened w broker disk) = (.ok n, w'))
      (hnone : ∀ k, ¬ Scale.Denotes n expr k)
      (hprinted : Report.ofOutcome (refuse (.invalid (.scaleExpression expr))) =
        { exitCode := 1, output }) :
      Rescaled config caller name expr w { exitCode := 1, output }

theorem rescaled (hexpr : ¬ Scale.IsUnreadable expr) (config : String) (caller : Caller) (name : String)
    (w : World) : Rescaled config caller name expr w
      (.ofOutcome (withBroker config (execute caller · (.scaleApp name expr)) w).1) := by
  rcases hopen : opening config w.disk with ⟨e | broker, disk⟩
  · rw [withBroker_of_error hopen]
    exact .unopened hopen
  rw [withBroker_of_ok hopen, execute_scaleApp]
  rcases hcount : (Lifecycle.count caller name).run (withOpened w broker disk) with ⟨e | n, w'⟩
  · rw [show (rescale _ caller name expr).run _ = _ from Program.run_bind_of_error hcount _]
    exact .uncounted hopen hcount
  by_cases hdenotes : ∃ k, Scale.Denotes n expr k
  · obtain ⟨k, hk⟩ := hdenotes
    rw [rescale_of_ok hcount (Scale.parse_of_denotes hexpr hk)]
    exact .scaled hopen hcount hk
  · have hnone := not_exists.1 hdenotes
    obtain ⟨output, houtput⟩ := Report.ofOutcome_refusal (.invalid (.scaleExpression expr))
    rw [rescale_of_error hcount (Scale.parse_eq_refuse hexpr hnone)]
    exact houtput ▸ .refused hopen hcount hnone houtput

theorem run_scaleApp {args : List String} {i : Invocation} (hargs : Invocation.parse args = some i)
    (hi : i.command = .scaleApp name expr) : (run args w).1 =
      .ofOutcome (withBroker i.config (execute ⟨operator, i.tenant⟩ · (.scaleApp name expr)) w).1 := by
  obtain ⟨command, tenant, config⟩ := i
  subst hi
  rw [run, hargs]
  rfl

end Console

open Console

/-- Reading a scale expression breaks off just if it is made of digits that are no number. Any other
expression is read as what it denotes, whatever there is to scale, or refused if it denotes nothing, and
a command that is to scale an application ends accordingly. -/
theorem scale_expression_settled (expr : String) :
    (∀ current, Scale.parse expr current = fail .badValue ↔ Scale.IsUnreadable expr) ∧
    (¬ Scale.IsUnreadable expr →
      (∀ current k, Scale.parse expr current = .ok k ↔ Scale.Denotes current expr k) ∧
      (∀ current, (∃ k, Scale.parse expr current = .ok k) ∨
        Scale.parse expr current = refuse (.invalid (.scaleExpression expr))) ∧
      ∀ args i name w, Invocation.parse args = some i → i.command = .scaleApp name expr →
        Rescaled i.config ⟨operator, i.tenant⟩ name expr w (Console.run args w).1) := by
  refine ⟨fun current => Scale.parse_eq_fail_iff, fun hexpr =>
    ⟨fun current k => Scale.parse_eq_ok_iff hexpr, fun current => ?_, fun args i name w hargs hi => ?_⟩⟩
  · by_cases h : ∃ k, Scale.Denotes current expr k
    · obtain ⟨k, hk⟩ := h
      exact .inl ⟨k, Scale.parse_of_denotes hexpr hk⟩
    · exact .inr (Scale.parse_eq_refuse hexpr (not_exists.1 h))
  · rw [run_scaleApp hargs hi]
    exact rescaled hexpr _ _ _ _

namespace ScaleExpressions

/-- The console acts in a tenant. -/
def caller : Caller := ⟨operator, "alice"⟩

/-- A container of an application. -/
def container : Container where
  number := 1
  id := "c0001"
  name := "web-alice-app-00000001"
  labels := [(Runtime.appLabel, "web"), (Runtime.tenantLabel, "alice"), (Runtime.serviceLabel, ""),
    (Runtime.tagLabel, "python:3.9"), (Runtime.sequenceLabel, "1000")]

/-- An engine that has the container, and nothing on the disk. -/
def world : World where
  broker := { hub := [], store := [] }
  engine := { containers := [container] }

/-- The arguments that ask for a scale. -/
def arguments (expr : String) : List String := ["app", "scale", "-n", "alice", "web", expr]

/-- How many containers a command counts. -/
def counted : Outcome Nat :=
  match opening "" world.disk with
  | (.ok broker, disk) => ((Lifecycle.count caller "web").run (withOpened world broker disk)).1
  | (.error e, _) => .error e

theorem counted_eq : counted = .ok 1 := by decide +kernel

theorem opening_ne_error {e : Failure} {disk : Disk} : opening "" world.disk ≠ (.error e, disk) := by
  intro hopen
  have hcounted := counted_eq
  rw [counted, hopen] at hcounted
  cases hcounted

theorem count_eq {broker : Broker} {disk : Disk} (hopen : opening "" world.disk = (.ok broker, disk)) :
    ((Lifecycle.count caller "web").run (withOpened world broker disk)).1 = .ok 1 := by
  rw [← counted_eq, counted, hopen]

/-- Three more than one, by a digit of another script and with a blank before it. -/
theorem three_more_are_read :
    Scale.Denotes 1 " +٣" 4 ∧
      ∃ (broker : Broker) (w : World),
        (run (arguments " +٣") world).1 = .ofOutcome
          (((Lifecycle.scale broker.platform caller "web" 4).run w).1.map (tellScaled "web")) := by
  have hfour : Scale.parse " +٣" 1 = .ok 4 := by decide +kernel
  have hargs : Invocation.parse (arguments " +٣") = some ⟨.scaleApp "web" " +٣", "alice", ""⟩ := by
    decide +kernel
  obtain ⟨hfail, hsettled⟩ := scale_expression_settled " +٣"
  obtain ⟨hok, -, hrun⟩ := hsettled fun h => by
    rw [(hfail 1).2 h] at hfour
    cases hfour
  refine ⟨(hok 1 4).1 hfour, ?_⟩
  have hrescaled : Rescaled "" caller "web" " +٣" world (run (arguments " +٣") world).1 :=
    hrun _ _ _ world hargs rfl
  generalize (run (arguments " +٣") world).1 = report at hrescaled
  cases hrescaled with
  | unopened hopen => exact absurd hopen opening_ne_error
  | uncounted hopen hcount => cases (congrArg Prod.fst hcount).symm.trans (count_eq hopen)
  | scaled hopen hcount hk =>
    obtain rfl := Except.ok.inj ((congrArg Prod.fst hcount).symm.trans (count_eq hopen))
    obtain rfl := Except.ok.inj (((hok 1 _).2 hk).symm.trans hfour)
    exact ⟨_, _, rfl⟩
  | refused hopen hcount hnone _ =>
    obtain rfl := Except.ok.inj ((congrArg Prod.fst hcount).symm.trans (count_eq hopen))
    exact absurd ((hok 1 4).1 hfour) (hnone 4)

/-- A superscript breaks the command off, and so do too many digits, though they denote a scale. -/
theorem superscript_breaks_off :
    Scale.parse "²" 1 = fail .badValue ∧
      (run (arguments "²") world).1.failure = some (.breakage .badValue) ∧
      (∃ k, Scale.Denotes 1 (String.ofList (List.replicate 4301 '1')) k) ∧
      Scale.parse (String.ofList (List.replicate 4301 '1')) 1 = fail .badValue := by
  refine ⟨by decide +kernel, by decide +kernel, Scale.parse_of_long (fun c hc => ?_) ?_⟩
  · rw [List.eq_of_mem_replicate hc]
    decide
  · rw [List.length_replicate]
    decide

end ScaleExpressions

end AppBroker
