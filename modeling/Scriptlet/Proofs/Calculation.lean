import Scriptlet.Proofs.Arithmetic
import Scriptlet.Proofs.Division
import Scriptlet.Proofs.Operators
import Scriptlet.Proofs.Settling

/-!
# Calculations

A text that prints a formula prints its value. The operators of the formula are calls of the
functions that the global frame has under their symbols, so the evaluation goes down some levels for
each of them, and some more for the call of `print`. How many it takes depends on the stack and on
the formula, but not on how the formula is written. With these it ends with the value, or by a
division by zero. With fewer it is cut off, and then nothing is written.

## Main definitions

* `Formula.outcome`: how the evaluation of a formula ends.
* `Formula.Prints`: how a statement ends that prints a formula, and what is written.

## Main results

* `Arithmetic.apply_operator`: an operator computes what it should.
* `Formula.exists_takes`: a node that means a formula computes it.
* `Formula.exists_takes_print`: so does a call of `print`, and writes it.
* `execute_print_formula`: what becomes of a text that prints a formula.
-/

namespace Scriptlet

open Source (Arithmetic Formula Spaced)
open Eval (Takes)
open Filter (atTop eventually_ge_atTop)

/-! ### Operators -/

/-- An operator computes what it should, and dividing by zero is a fault. -/
theorem Source.Arithmetic.apply_operator (op : Arithmetic) (m n : Int) :
    op.operator.apply (.integer m) (.integer n) =
      match op.compute? m n with
      | some k => .ok (.integer k)
      | none => .error .zeroDivisor := by
  cases op with
  | plus | minus | times => rfl
  | divide =>
      rw [Arithmetic.compute?, ← Arithmetic.tdiv_eq_sign_mul]
      show Value.quotient (.integer m) (.integer n) = _
      rw [Value.quotient_integer]
      by_cases h : n = 0
      · rw [if_pos h, if_pos h]
      · rw [if_neg h, if_neg h]
  | remainder =>
      rw [Arithmetic.compute?, ← Arithmetic.tmod_eq_sign_mul]
      show Value.remainder (.integer m) (.integer n) = _
      rw [Value.remainder_integer]
      by_cases h : n = 0
      · rw [if_pos h, if_pos h]
      · rw [if_neg h, if_neg h]

/-! ### Formulas -/

namespace Source.Formula

/-- How the evaluation of a formula ends. -/
def outcome (e : Formula) : Except Exit Value :=
  match e.value? with
  | some m => .ok (.integer m)
  | none => .error (.fault .zeroDivisor)

/-- What an operator makes of the outcomes of its operands. -/
theorem outcome_operation (op : Arithmetic) (a b : Formula) (line : Int) :
    (a.outcome >>= fun v => b.outcome >>= fun w =>
      (op.operator.apply v w).mapError .fault).mapError (Exit.onLine line) =
        (operation op a b).outcome := by
  rw [outcome, outcome, outcome, value?]
  cases a.value? with
  | none => rfl
  | some m =>
      cases b.value? with
      | none => rfl
      | some n =>
          dsimp only [bind, Except.bind, Option.bind]
          rw [op.apply_operator]
          cases op.compute? m n <;> rfl

/-- A minus sign subtracts from zero. -/
theorem outcome_negative (a : Formula) (line : Int) :
    ((.ok (.integer 0) : Except Exit Value) >>= fun v => a.outcome >>= fun w =>
      (Operator.minus.apply v w).mapError .fault).mapError (Exit.onLine line) =
        (negative a).outcome := by
  rw [outcome, outcome, value?]
  cases a.value? with
  | none => rfl
  | some m => exact congrArg (fun k => Except.ok (Value.integer k)) (Int.zero_sub m)

/-- **A node that means a formula computes it** wherever operators are out of reach, and changes
nothing. What it takes is the same wherever that is, and each operator and sign on the way down to
the value adds to it. -/
theorem exists_takes (stack : Stack) (e : Formula) :
    ∃ need, (∀ m, e.value? = some m → e.height * (stack.part .argument + 1) ≤ need) ∧
      ∀ {P : Session → Prop} {n : Node} {frame g : Ref} {s : Session}, P s → e.Means n →
        s.store.Sealed g → s.store.Guarded g → s.store.IsFrame frame →
        Takes P s (fun levels => evaluate stack levels n frame) (need + 1) e.outcome s := by
  induction e with
  | numeral digits hdigits =>
      refine ⟨stack.rule "Literal", fun m _ => by simp [height], fun hs hn _ _ _ => ?_⟩
      cases hn with
      | numeral => exact takes_literal hs _ _ _ 0
  | negative a ih =>
      obtain ⟨more, hmore, hoperand⟩ := ih
      obtain ⟨need, hneed, hnode⟩ := exists_takes_operation stack .minus (stack.rule "Literal") more
        (.ok (.integer 0)) a.outcome
      refine ⟨need, fun m hm => ?_, fun hs hn hsealed hg hf => ?_⟩
      · obtain ⟨k, hk, -⟩ := Option.map_eq_some_iff.mp hm
        have hdeeper := hneed ⟨_, rfl⟩ ⟨.integer k, by rw [outcome, hk]⟩
        have hlow := hmore k hk
        rw [height, Nat.succ_mul]
        omega
      · cases hn with
        | negative ha place line =>
            rw [← outcome_negative a line]
            exact hnode line hs (hg.read_symbol hsealed hf _) (hg.installed _)
              (takes_literal hs _ _ _ 0) (hoperand hs ha hsealed hg hf)
  | operation op a b iha ihb =>
      obtain ⟨more, hmore, hleft⟩ := iha
      obtain ⟨more', hmore', hright⟩ := ihb
      obtain ⟨need, hneed, hnode⟩ := exists_takes_operation stack op.operator more more' a.outcome
        b.outcome
      refine ⟨need, fun m hm => ?_, fun hs hn hsealed hg hf => ?_⟩
      · obtain ⟨k, hk, hrest⟩ := Option.bind_eq_some_iff.mp hm
        obtain ⟨l, hl, -⟩ := Option.bind_eq_some_iff.mp hrest
        have hdeeper := hneed ⟨.integer k, by rw [outcome, hk]⟩ ⟨.integer l, by rw [outcome, hl]⟩
        have hlow := hmore k hk
        have hlow' := hmore' l hl
        have hheight : max a.height b.height * (stack.part .argument + 1) ≤ max more more' := by
          rcases Nat.le_total a.height b.height with hle | hle
          · rw [Nat.max_eq_right hle]
            omega
          · rw [Nat.max_eq_left hle]
            omega
        rw [height, Nat.succ_mul]
        omega
      · cases hn with
        | operation _ ha hb line =>
            rw [← outcome_operation op a b line]
            exact hnode line hs (hg.read_symbol hsealed hf _) (hg.installed _)
              (hleft hs ha hsealed hg hf) (hright hs hb hsealed hg hf)

end Source.Formula

/-! ### Printing -/

/-- With enough levels, an integer is printed as its numeral, if there is one. -/
theorem Store.eventually_printed_integer (s : Store) (depth : TextDepth) (m : Int) :
    ∀ᶠ levels in atTop, [Value.integer m].mapM (s.printed depth levels) =
      (NoText.numeral m).map fun text => [text] := by
  filter_upwards [eventually_ge_atTop (depth.atom "int")] with levels hle
  have hprinted : s.printed depth levels (.integer m) = NoText.numeral m := if_pos hle
  rw [List.mapM_cons, hprinted]
  cases NoText.numeral m <;> rfl

namespace Source.Formula

/-- How a statement ends that prints a formula, and what it writes. The value is written if it does
not have too many digits. -/
inductive Prints (e : Formula) : Except Exit Value → String → Prop
  | written {m : Int} (hm : e.value? = some m) (hs : m.natAbs < Text.numeralBound) :
      Prints e (.ok .undefined) (toString m ++ "\n")
  | oversized {m : Int} (hm : e.value? = some m) (hs : Text.numeralBound ≤ m.natAbs) :
      Prints e (.error (.fault .oversizedNumeral)) ""
  | fault (he : e.value? = none) : Prints e (.error (.fault .zeroDivisor)) ""

/-- What `print` takes for the value of a formula. -/
theorem exists_takes_value (stack : Stack) {e : Formula} {m : Int} (hm : e.value? = some m)
    {g : Ref} {s : Session} (hs : s.store.Sealed g) :
    ∃ need result t text, e.Prints result text ∧ t.output = s.output ++ text ∧
      Takes (·.output = s.output) s (fun levels => Builtin.print.apply stack levels [.integer m])
        need result t := by
  have hpublic : ∀ v ∈ [Value.integer m], s.store.Public v := List.forall_mem_singleton.mpr trivial
  obtain ⟨t, -, houtput, hrun⟩ :=
    Builtin.eventually_print hs stack hpublic (s.store.eventually_printed_integer stack.text m)
  rcases Nat.lt_or_ge m.natAbs Text.numeralBound with hsmall | hlarge
  · simp only [NoText.numeral_of_lt hsmall] at hrun
    have hwritten : ∀ᶠ levels in atTop, (Builtin.print.apply stack levels [.integer m]).runIn s =
        (.ok .undefined, { t with output := t.output ++ (toString m ++ "\n") }) := hrun
    obtain ⟨need, htakes⟩ := Builtin.exists_takes_print stack _ hwritten nofun
    exact ⟨need, _, _, _, .written hm hsmall, congrArg (· ++ (toString m ++ "\n")) houtput, htakes⟩
  · simp only [NoText.numeral_of_le hlarge] at hrun
    have hleft : ∀ᶠ levels in atTop, (Builtin.print.apply stack levels [.integer m]).runIn s =
        (.error (.fault .oversizedNumeral), t) := hrun
    obtain ⟨need, htakes⟩ := Builtin.exists_takes_print stack _ hleft nofun
    exact ⟨need, _, _, _, .oversized hm hlarge, by rw [houtput, String.append_empty], htakes⟩

/-- What is left by a fault, or not left early at all, has no line. -/
theorem Prints.onLine {e : Formula} {result : Except Exit Value} {text : String}
    (h : e.Prints result text) (line : Int) : result.mapError (Exit.onLine line) = result := by
  cases h <;> rfl

/-- **A call of `print` with a formula prints the formula**, or is cut off before it writes
anything. -/
theorem exists_takes_print (stack : Stack) (e : Formula) {frame f g : Ref} {s : Session}
    (hs : s.store.Sealed g) (hg : s.store.Guarded g) (hf : s.store.IsFrame frame)
    (hread : s.store.read frame "print" = .object f)
    (haction : s.store.action? f = some (.builtin .print)) :
    ∃ need result t text, e.Prints result text ∧ t.output = s.output ++ text ∧
      (∀ m, e.value? = some m → e.height * (stack.part .argument + 1) ≤ need) ∧
      ∀ {n : Node} (place line : Int), e.Means n → Takes (·.output = s.output) s
        (fun levels => evaluate stack levels (.call (.name "print" place) [n] line) frame)
        (need + 1) result t := by
  obtain ⟨more, hmore, hoperand⟩ := e.exists_takes stack
  have hsame : (fun u : Session => u.output = s.output) s := rfl
  have node {n : Node} {place line : Int} {need : Nat} {result : Except Exit Value} {t : Session}
      (h : Takes (·.output = s.output) s (fun levels => do
        let values ← [n].mapM fun n => evaluateParts stack levels .argument n frame
        invoke (evaluateParts stack levels) f .undefined values) need result t) :
      Takes (·.output = s.output) s
        (fun levels => evaluate stack levels (.call (.name "print" place) [n] line) frame)
        (max (max (stack.rule "LocalVarAccess" + 1 + stack.part .operand) need)
          (stack.rule "FunCall") + 1) (result.mapError (Exit.onLine line)) t :=
    takes_evaluateSpaced (n := .call (.name "print" place) [n] line) hsame
      (takes_call hsame hread haction h) 0
  cases hvalue : e.value? with
  | none =>
      have houtcome : e.outcome = .error (.fault .zeroDivisor) := by rw [outcome, hvalue]
      rw [houtcome] at hoperand
      exact ⟨_, _, s, "", .fault hvalue, String.append_empty.symm, nofun, fun place line hn =>
        node (.bind_error (.bind_error ((hoperand hsame hn hs hg hf).part .argument)))⟩
  | some m =>
      have houtcome : e.outcome = .ok (.integer m) := by rw [outcome, hvalue]
      rw [houtcome] at hoperand
      obtain ⟨printed, result, t, text, hprints, houtput, htakes⟩ :=
        exists_takes_value stack hvalue hs
      have hlow := hmore m hvalue
      exact ⟨_, result, t, text, hprints, houtput, fun k _ => by omega, fun place line hn =>
        hprints.onLine line ▸ node (.bind (takes_operand (hoperand hsame hn hs hg hf))
          (takes_invoke_of_builtin haction htakes))⟩

end Source.Formula

/-! ### Texts that print a formula -/

/-- A text is a statement that prints a formula if the formula is written, with any blanks, between
the parentheses of `print`. -/
theorem Source.Spaced.printing {ts : List Source.Token} {text : String}
    (h : Spaced ts text.toList) :
    Spaced (Source.printing ts) ("print(" ++ text ++ ");").toList := by
  have hnone : Source.Blank [] := List.forall_mem_nil _
  have hopening : Spaced [.name "print", .punctuation .openParen] "print(".toList :=
    .cons hnone (.cons hnone (.nil hnone))
  have hclosing : Spaced [.punctuation .closeParen, .punctuation .semicolon] ");".toList :=
    .cons hnone (.cons hnone (.nil hnone))
  rw [String.toList_append, String.toList_append, List.append_assoc]
  exact hopening.append (h.append hclosing)

/-- What becomes of a text that prints a formula: it is what is printed, or nothing is. -/
theorem Source.Formula.exists_executes (stack : Stack) (e : Formula) :
    ∃ need result written, e.Prints result written ∧
      (∀ m, e.value? = some m → e.height * (stack.part .argument + 1) < need) ∧
      ∀ {ts : List Source.Token} {text : String}, e.Spells 0 ts → Spaced ts text.toList →
        ∀ on : Platform, on.stack = stack →
          (on.HasRoom ("print(" ++ text ++ ");") need →
            (execute on ("print(" ++ text ++ ");")).ending = .ofResult result ∧
              (execute on ("print(" ++ text ++ ");")).output = written) ∧
          (¬on.HasRoom ("print(" ++ text ++ ");") need →
            (execute on ("print(" ++ text ++ ");")).ending = .tooDeep ∧
              (execute on ("print(" ++ text ++ ");")).output = "") := by
  -- all programs of one statement begin in the same session
  let s := Session.empty.started (.block [.name "print" 0] 0)
  -- the function of `print` is the first object behind the global frame
  have hread : s.store.read Store.empty.fresh "print" = .object ⟨1⟩ := rfl
  have haction : s.store.action? ⟨1⟩ = some (.builtin .print) := rfl
  obtain ⟨need, result, t, written, hprints, houtput, hlow, htakes⟩ := e.exists_takes_print stack
    Store.sealed_addGlobal Store.guarded_addGlobal Store.sealed_addGlobal.isFrame hread haction
  refine ⟨max (need + 1 + stack.part .statement) (stack.rule "Block") + 1, result, written, hprints,
    fun m hm => ?_, fun {ts text} h hs on hon => ?_⟩
  · have hneed := hlow m hm
    omega
  obtain ⟨n, line, hmeans, hprogram⟩ := h.exists_program hs.printing
  let program : Node := .block [.call (.name "print" line) [n] line] line
  have hsame : (fun u : Session => u.output = s.output) s := rfl
  have hblock : Takes (·.output = s.output) s
      (fun levels => evaluate stack levels program Store.empty.fresh)
      (max (need + 1 + stack.part .statement) (stack.rule "Block") + 1)
      ((result.map fun _ => .undefined).mapError (Exit.onLine line)) t :=
    takes_evaluateSpaced (n := program) hsame (takes_block (htakes line line hmeans)) 0
  have hreturned (v : Value) : (result.map fun _ => Value.undefined).mapError (Exit.onLine line) ≠
      .error (.returned v) := by
    cases hprints <;> exact nofun
  have hending : Ending.ofResult ((result.map fun _ => Value.undefined).mapError
      (Exit.onLine line)) = .ofResult result := by
    cases hprints <;> rfl
  subst hon
  obtain ⟨hdone, hcut⟩ := hblock.executes hprogram hreturned
  refine ⟨fun hroom => ?_, fun hroom => ?_⟩
  · obtain ⟨hends, hwritten⟩ := hdone hroom
    exact ⟨hends.trans hending, hwritten.trans (houtput.trans String.empty_append)⟩
  · obtain ⟨hends, hwritten | ⟨u, hu, hwritten⟩⟩ := hcut hroom
    · exact ⟨hends, hwritten⟩
    · exact ⟨hends, hwritten.trans hu⟩

/-- Whether a report says what a formula is worth: the numeral of its value, if that does not have
too many digits, and nothing but a fault exactly if something in it is divided by zero. -/
structure Report.Answers (r : Report) (e : Formula) : Prop where
  value : ∀ m, e.value? = some m → m.natAbs < Text.numeralBound →
    r.ending = .finished ∧ r.output = toString m ++ "\n"
  fault : r.ending = .faulted .zeroDivisor ∧ r.output = "" ↔ e.DividesByZero

/-- What is printed of a formula says what it is worth. -/
theorem Source.Formula.Prints.answers {e : Formula} {result : Except Exit Value} {written : String}
    (h : e.Prints result written) {r : Report} (hending : r.ending = .ofResult result)
    (houtput : r.output = written) : r.Answers e := by
  cases h with
  | @written m hm hsmall =>
      refine ⟨fun k hk _ => ?_, ?_⟩
      · obtain rfl := Option.some.inj (hm.symm.trans hk)
        exact ⟨hending, houtput⟩
      · rw [← Formula.value?_eq_none_iff, hm, hending]
        exact ⟨fun h => (nomatch h.1), nofun⟩
  | @oversized m hm hlarge =>
      refine ⟨fun k hk hsmall => ?_, ?_⟩
      · obtain rfl := Option.some.inj (hm.symm.trans hk)
        exact absurd hlarge (Nat.not_le.mpr hsmall)
      · rw [← Formula.value?_eq_none_iff, hm, hending]
        exact ⟨fun h => (nomatch h.1), nofun⟩
  | fault he =>
      refine ⟨fun k hk _ => ?_, ?_⟩
      · cases he.symm.trans hk
      · exact ⟨fun _ => Formula.value?_eq_none_iff.mp he, fun _ => ⟨hending, houtput⟩⟩

/-- **Arithmetic is right from text to output.** A formula takes so many levels, on every stack.
Printing it, however it is spaced and whatever parentheses stand in it beyond those it needs, says
what it is worth where there is room for these, and for making a program of the text. Otherwise it
ends too deep, and nothing is written. -/
theorem execute_print_formula (stack : Stack) (e : Formula) :
    ∃ need, ∀ {ts : List Source.Token} {text : String}, e.Spells 0 ts → Spaced ts text.toList →
      ∀ on : Platform, on.stack = stack →
        (on.HasRoom ("print(" ++ text ++ ");") need →
          (execute on ("print(" ++ text ++ ");")).Answers e) ∧
        (¬on.HasRoom ("print(" ++ text ++ ");") need →
          (execute on ("print(" ++ text ++ ");")).ending = .tooDeep ∧
            (execute on ("print(" ++ text ++ ");")).output = "") := by
  obtain ⟨need, result, written, hprints, -, hexecutes⟩ := e.exists_executes stack
  refine ⟨need, fun h hs on hon => ?_⟩
  obtain ⟨hdone, hcut⟩ := hexecutes h hs on hon
  refine ⟨fun hroom => ?_, hcut⟩
  obtain ⟨hending, houtput⟩ := hdone hroom
  exact hprints.answers hending houtput

namespace Calculation

open Source (Token)

theorem readable_one : (Token.integer "1").Readable :=
  Token.readable_integer ⟨by decide, List.all_eq_true.mp rfl⟩ (by decide)

theorem readable_seven : (Token.integer "7").Readable :=
  Token.readable_integer ⟨by decide, List.all_eq_true.mp rfl⟩ (by decide)

/-- Seven less what seven leaves of the half of minus seven. -/
def formula : Formula :=
  .operation .minus (.numeral "7" readable_seven)
    (.operation .remainder (.operation .divide (.negative (.numeral "7" readable_seven))
      (.operation .plus (.numeral "1" readable_one) (.numeral "1" readable_one)))
      (.numeral "7" readable_seven))

/-- Its tokens, with the only parentheses that it needs. -/
def tokens : List Token :=
  [.integer "7", .operator .minus, .operator .minus, .integer "7", .operator .divide,
    .punctuation .openParen, .integer "1", .operator .plus, .integer "1",
    .punctuation .closeParen, .operator .remainder, .integer "7"]

theorem spells_formula : formula.Spells 0 tokens := by
  have hsum : Formula.Spells 2 (.operation .plus (.numeral "1" readable_one)
      (.numeral "1" readable_one)) [.punctuation .openParen, .integer "1", .operator .plus,
        .integer "1", .punctuation .closeParen] :=
    .parentheses (.operation (Nat.zero_le _) (.numeral _) (.numeral _))
  have hquotient := Formula.Spells.operation (Nat.le_refl Arithmetic.divide.rank)
    (.negative (.numeral readable_seven)) hsum
  have hremainder := Formula.Spells.operation (Nat.le_refl Arithmetic.remainder.rank) hquotient
    (.numeral readable_seven)
  exact .operation (Nat.le_refl Arithmetic.minus.rank) (.numeral readable_seven) hremainder

/-- A text of these tokens. -/
def text : String := "7- -7/\n(1+1 )%7"

theorem spaced_text : Spaced tokens text.toList := by
  have hnone : Source.Blank [] := List.forall_mem_nil _
  have hspace : Source.Blank [' '] := List.forall_mem_singleton.mpr rfl
  have hline : Source.Blank ['\n'] := List.forall_mem_singleton.mpr rfl
  exact .cons hnone <| .cons hnone <| .cons hspace <| .cons hnone <| .cons hnone <| .cons hline <|
    .cons hnone <| .cons hnone <| .cons hnone <| .cons hspace <| .cons hnone <| .cons hnone <|
    .nil hnone

end Calculation

/-- The half of minus seven is minus three, of which seven leaves all. -/
theorem execute_print_negativeQuotient :
    Calculation.formula.Spells 0 Calculation.tokens ∧
    Spaced Calculation.tokens Calculation.text.toList ∧
    (execute .standard "print(7- -7/\n(1+1 )%7);").ending = .finished ∧
    (execute .standard "print(7- -7/\n(1+1 )%7);").output = "10\n" := by
  have hfinished : (execute .standard "print(7- -7/\n(1+1 )%7);").ending = .finished := by
    decide +kernel
  obtain ⟨need, hexecutes⟩ := execute_print_formula .standard Calculation.formula
  obtain ⟨hdone, hcut⟩ :=
    hexecutes Calculation.spells_formula Calculation.spaced_text .standard rfl
  have hanswers : (execute .standard "print(7- -7/\n(1+1 )%7);").Answers Calculation.formula := by
    by_cases hroom : Platform.standard.HasRoom "print(7- -7/\n(1+1 )%7);" need
    · exact hdone hroom
    · cases hfinished.symm.trans (hcut hroom).1
  have hsmall : (10 : Int).natAbs < Text.numeralBound :=
    Nat.lt_of_lt_of_le (by decide) (Source.pow_le_numeralBound (n := 2) (by decide))
  exact ⟨Calculation.spells_formula, Calculation.spaced_text, hanswers.value 10 rfl hsmall⟩

/-! ### Too many signs -/

namespace Calculation

open Source (Token)

/-- One, behind so many minus signs. -/
def signed : Nat → Formula
  | 0 => .numeral "1" readable_one
  | k + 1 => .negative (signed k)

/-- Its tokens. -/
def signedTokens (k : Nat) : List Token := List.replicate k (.operator .minus) ++ [.integer "1"]

/-- The text without blanks. -/
def signedText (k : Nat) : List Char := List.replicate k '-' ++ ['1']

/-- The tokens of a formula with so many signs. -/
theorem spells_signed {r : Nat} (k : Nat) : (signed k).Spells r (signedTokens k) := by
  induction k generalizing r with
  | zero => exact .numeral readable_one
  | succ k ih => exact .negative ih

/-- They may stand in a text without blanks. -/
theorem spaced_signed (k : Nat) : Spaced (signedTokens k) (signedText k) := by
  have hnone : Source.Blank [] := List.forall_mem_nil _
  induction k with
  | zero => exact .cons hnone (.nil hnone)
  | succ k ih => exact .cons hnone ih

/-- Two signs take one another back. -/
theorem value?_signed (k : Nat) : (signed (2 * k)).value? = some 1 := by
  induction k with
  | zero => rfl
  | succ k ih =>
      rw [Nat.mul_succ, signed, signed, Formula.value?, Formula.value?, ih]
      rfl

/-- Each sign makes a formula higher. -/
theorem height_signed (k : Nat) : (signed k).height = k := by
  induction k with
  | zero => rfl
  | succ k ih => rw [signed, Formula.height, ih]

/-- A statement with so many signs that its formula is higher than the limit ends too deep. -/
theorem tooDeep_signed (on : Platform) {k : Nat}
    (h : on.limit ≤ 2 * k * (on.stack.part .argument + 1)) :
    (execute on ("print(" ++ String.ofList (signedText (2 * k)) ++ ");")).ending = .tooDeep := by
  have hspaced : Spaced (signedTokens (2 * k)) (String.ofList (signedText (2 * k))).toList := by
    rw [String.toList_ofList]
    exact spaced_signed (2 * k)
  obtain ⟨need, result, written, -, hlow, hexecutes⟩ := (signed (2 * k)).exists_executes on.stack
  have hneed := hlow 1 (value?_signed k)
  rw [height_signed] at hneed
  refine ((hexecutes (spells_signed (2 * k)) hspaced on rfl).2 fun hroom => ?_).1
  have hlimit := hroom.2
  omega

end Calculation

/-- Three thousand signs are too many: their number is even, and yet one is not printed. -/
theorem not_answers_signed :
    (Calculation.signed 3000).Spells 0 (Calculation.signedTokens 3000) ∧
    Spaced (Calculation.signedTokens 3000) (Calculation.signedText 3000) ∧
    (Calculation.signed 3000).value? = some 1 ∧ (1 : Int).natAbs < Text.numeralBound ∧
    (execute .standard
      ("print(" ++ String.ofList (Calculation.signedText 3000) ++ ");")).ending = .tooDeep ∧
    ¬(execute .standard ("print(" ++ String.ofList (Calculation.signedText 3000) ++ ");")).Answers
      (Calculation.signed 3000) := by
  have hdeep := Calculation.tooDeep_signed .standard (k := 1500) (by decide)
  have hvalue : (Calculation.signed 3000).value? = some 1 := Calculation.value?_signed 1500
  have hsmall : (1 : Int).natAbs < Text.numeralBound :=
    Nat.lt_of_lt_of_le (by decide) (Source.pow_le_numeralBound (n := 1) (by decide))
  refine ⟨Calculation.spells_signed 3000, Calculation.spaced_signed 3000, hvalue, hsmall, hdeep,
    fun hanswers => ?_⟩
  cases hdeep.symm.trans (hanswers.value 1 hvalue hsmall).1

end Scriptlet
