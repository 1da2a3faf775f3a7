import Scriptlet.Proofs.Accumulation
import Scriptlet.Proofs.Sameness

/-!
# How Values Compare

Every two values can be compared for equality, and that never fails. Two integers and two strings
also have an order: the four operators that ask for it give a truth value then, and what they give
fits together with equality. Of all other values the four report the types.

An operator is looked at as the function that a script calls, with two arguments and in any
session, which it leaves as it was. Like everything that is called it may find too few levels left,
and is cut off then; what is said here of an operator it does with as many levels as it takes.

## Main definitions

* `Operator.Gives`, `Operator.Holds`: what an operator makes of two values.
* `Value.Orderable`: values that have an order.
* `Value.Ordered`: how the operators fit together on two values.
* `Value.Before`: the order itself, which for strings goes by code points.

## Main results

* `Value.Orderable.ordered`: the operators fit together on values that have an order.
* `Operator.less_holds_iff`: the first of two values is less if it comes before the second.
* `Operator.gives_notOrdered`: the operators fail on all other values.
* `Value.comparison_laws`: equality and order of all values.
-/

namespace Scriptlet

/-! ### Operators as functions -/

namespace Operator

variable {op : Operator} {a b : Value} {result : Except Fault Value}

/-- Whether an operator that is called with two values ends with this result in any session, and
leaves the session as it was. On any stack it takes some levels, and is cut off exactly if there are
fewer. -/
def Gives (op : Operator) (a b : Value) (result : Except Fault Value) : Prop :=
  ∀ stack : Stack, ∃ enough, ∀ (levels : Nat) (s : Session),
    ((Builtin.operator op).apply stack levels [a, b]).runIn s =
      (if enough ≤ levels then result.mapError .fault else .error .tooDeep, s)

/-- Whether an operator that is called with two values gives true. -/
def Holds (op : Operator) (a b : Value) : Prop := op.Gives a b (.ok (.integer 1))

/-- Results are told apart by what becomes of them. -/
theorem mapError_fault_inj {r r' : Except Fault Value}
    (h : r.mapError Exit.fault = r'.mapError .fault) : r = r' := by
  cases r with
  | ok v =>
      cases r' with
      | ok w => exact congrArg _ (Except.ok.inj h)
      | error _ => cases h
  | error f =>
      cases r' with
      | ok _ => cases h
      | error g => exact congrArg _ (Exit.fault.inj (Except.error.inj h))

/-- What an operator gives is what it computes. -/
theorem gives_iff : op.Gives a b result ↔ op.apply a b = result := by
  constructor
  · intro h
    obtain ⟨enough, hrun⟩ := h .standard
    -- With as many levels as both take, the operator has the one result and the other.
    have hboth := hrun (enough + Stack.standard.operation op [a, b] (op.applyTo [a, b])) .empty
    rw [Builtin.runIn_operator, if_pos (by omega), if_pos (by omega)] at hboth
    exact mapError_fault_inj (Prod.mk.inj hboth).1
  · rintro rfl stack
    exact ⟨_, fun levels s => Builtin.runIn_operator stack levels [a, b] s op⟩

/-- Where an operator answers a truth value, it gives one if that is true, and zero if not. -/
theorem gives_integer_of_apply {c d : Bool} (h : op.apply a b = .ok (.ofBool c)) :
    op.Gives a b (.ok (.ofBool d)) ↔ c = d := by
  rw [gives_iff, h]
  cases c <;> cases d <;> simp [Value.ofBool]

/-- The operators that ask for the order of two values. -/
def comparisons : List Operator := [less, lessEqual, greater, greaterEqual]

/-- Whether an operator accepts that its operands stand to each other in this way. -/
def accepts : Operator → Ordering → Bool
  | equal, o => o.isEq
  | less, o => o.isLT
  | lessEqual, o => o.isLE
  | greater, o => o.isGT
  | greaterEqual, o => o.isGE
  | unequal, o => o.isNe
  | _, _ => false

/-- The operator that accepts one ordering only. -/
def ofOrdering : Ordering → Operator
  | .lt => less
  | .eq => equal
  | .gt => greater

/-- Every ordering is accepted by one of the three operators. -/
theorem accepts_iff_eq_ofOrdering (hop : op ∈ [less, equal, greater]) {o : Ordering} :
    op.accepts o = true ↔ op = ofOrdering o := by
  simp only [List.mem_cons, List.not_mem_nil, or_false] at hop
  rcases hop with rfl | rfl | rfl <;> cases o <;> decide

end Operator

/-! ### Values that have an order -/

namespace Value

/-- Whether two values have an order: they are two integers or two strings. -/
inductive Orderable : Value → Value → Prop
  | integers (m n : Int) : Orderable (.integer m) (.integer n)
  | strings (s t : String) : Orderable (.string s) (.string t)

/-- Whether a value comes before another one. Strings go by their code points, from the front. -/
inductive Before : Value → Value → Prop
  | integers {m n : Int} (h : m < n) : Before (.integer m) (.integer n)
  | strings {s t : String} (h : List.Lex (fun c d : Char => c.toNat < d.toNat) s.toList t.toList) :
      Before (.string s) (.string t)

variable {a b : Value}

/-- Strings are compared by their code points. -/
theorem codePoints_iff {s t : String} :
    s < t ↔ List.Lex (fun c d : Char => c.toNat < d.toNat) s.toList t.toList := String.lt_iff

/-- A value before another one can be ordered with it. -/
theorem Before.orderable (h : a.Before b) : a.Orderable b := by
  cases h with
  | integers _ => exact .integers _ _
  | strings _ => exact .strings _ _

/-- What is before what is before a value is before it. -/
theorem Before.trans {c : Value} (h : a.Before b) (h' : b.Before c) : a.Before c := by
  cases h with
  | integers hmn =>
      cases h' with
      | integers hnk => exact .integers (Int.lt_trans hmn hnk)
  | strings hst =>
      cases h' with
      | strings htu =>
          rw [← codePoints_iff] at hst htu
          exact .strings (codePoints_iff.mp (String.lt_trans hst htu))

/-- Whether two values stand to each other as an ordering says, for every operator that asks. -/
structure Compares (a b : Value) (o : Ordering) : Prop where
  order (op : Operator) : op.order a b = .ok o
  swap (op : Operator) : op.order b a = .ok o.swap
  same_iff : a.same b ↔ o = .eq
  before_iff : a.Before b ↔ o = .lt

/-- Two values that can be ordered are in one of three orders. -/
theorem Orderable.exists_compares (h : a.Orderable b) : ∃ o, a.Compares b o := by
  cases h with
  | integers m n =>
      refine ⟨compare m n, fun _ => rfl, fun _ => ?_, ?_, ?_⟩
      · exact congrArg _ Std.OrientedCmp.eq_swap
      · rw [Std.LawfulEqCmp.compare_eq_iff_eq]
        exact beq_iff_eq
      · rw [Int.compare_eq_lt]
        exact ⟨fun h => by cases h with | integers h => exact h, .integers⟩
  | strings s t =>
      refine ⟨compare s t, fun _ => rfl, fun _ => ?_, ?_, ?_⟩
      · exact congrArg _ Std.OrientedCmp.eq_swap
      · rw [Std.LawfulEqCmp.compare_eq_iff_eq]
        exact beq_iff_eq
      · rw [show compare s t = compareOfLessAndEq s t from rfl, compareOfLessAndEq_eq_lt,
          codePoints_iff]
        exact ⟨fun h => by cases h with | strings h => exact h, .strings⟩

namespace Compares

variable {o : Ordering} {op : Operator}

/-- A comparison accepts an ordering or does not. -/
theorem apply (h : a.Compares b o) (hop : op ∈ Operator.equal :: Operator.comparisons) :
    op.apply a b = .ok (.ofBool (op.accepts o)) := by
  simp only [Operator.comparisons, List.mem_cons, List.not_mem_nil, or_false] at hop
  rcases hop with rfl | rfl | rfl | rfl | rfl
  · have hsame : a.same b = o.isEq := by
      rw [Bool.eq_iff_iff, h.same_iff, Ordering.isEq_iff_eq_eq]
    rw [Operator.apply, hsame]
    rfl
  all_goals
    rw [Operator.apply, h.order]
    rfl

/-- A comparison holds if it accepts the ordering. -/
theorem holds_iff (h : a.Compares b o) (hop : op ∈ Operator.equal :: Operator.comparisons) :
    op.Holds a b ↔ op.accepts o = true :=
  Operator.gives_integer_of_apply (d := true) (h.apply hop)

end Compares

/-- How the operators fit together on two values. -/
structure Ordered (a b : Value) : Prop where
  /-- All four operators give a truth value. -/
  answers : ∀ op ∈ Operator.comparisons, ∃ c : Bool, op.Gives a b (.ok (.ofBool c))
  /-- One value is less than the other one, or the values are equal. -/
  trichotomy : ∃! op, op ∈ [Operator.less, .equal, .greater] ∧ op.Holds a b
  lessEqual_iff : Operator.lessEqual.Holds a b ↔ Operator.less.Holds a b ∨ Operator.equal.Holds a b
  greaterEqual_iff (result : Except Fault Value) :
    Operator.greaterEqual.Gives a b result ↔ Operator.lessEqual.Gives b a result

/-- The operators fit together on values that have an order. -/
theorem Orderable.ordered (h : a.Orderable b) : a.Ordered b := by
  obtain ⟨o, ho⟩ := h.exists_compares
  refine ⟨fun op hop => ?_, ⟨.ofOrdering o, ⟨?_, ?_⟩, ?_⟩, ?_, fun result => ?_⟩
  · exact ⟨op.accepts o, Operator.gives_iff.mpr (ho.apply (List.mem_cons_of_mem _ hop))⟩
  · cases o <;> decide
  · rw [ho.holds_iff (by cases o <;> decide)]
    cases o <;> decide
  · rintro op ⟨hop, hholds⟩
    have hsubset : ∀ op ∈ [Operator.less, .equal, .greater],
        op ∈ Operator.equal :: Operator.comparisons := by decide
    exact (Operator.accepts_iff_eq_ofOrdering hop).mp ((ho.holds_iff (hsubset op hop)).mp hholds)
  · rw [ho.holds_iff (by decide), ho.holds_iff (by decide), ho.holds_iff (by decide)]
    cases o <;> decide
  · have hswap : Operator.greaterEqual.apply a b = Operator.lessEqual.apply b a := by
      rw [Operator.apply, Operator.apply, ho.order, ho.swap]
      cases o <;> rfl
    rw [Operator.gives_iff, Operator.gives_iff, hswap]

end Value

namespace Operator

variable {op : Operator} {a b : Value}

/-- Other values have no order, which is a fault. -/
theorem order_of_not_orderable (h : ¬ a.Orderable b) :
    op.order a b = .error (.notOrdered op a.typeName b.typeName) := by
  unfold order
  split
  · exact absurd (.integers _ _) h
  · exact absurd (.strings _ _) h
  · rfl

/-- The operators that ask for an order fail where there is none, and name the types. -/
theorem gives_notOrdered (h : ¬ a.Orderable b) (hop : op ∈ comparisons) :
    op.Gives a b (.error (.notOrdered op a.typeName b.typeName)) := by
  rw [gives_iff]
  simp only [comparisons, List.mem_cons, List.not_mem_nil, or_false] at hop
  rcases hop with rfl | rfl | rfl | rfl
  all_goals
    rw [apply, order_of_not_orderable h]
    rfl

/-- The first of two values is less if it comes before the second. -/
theorem less_holds_iff : less.Holds a b ↔ a.Before b := by
  by_cases h : a.Orderable b
  · obtain ⟨o, ho⟩ := h.exists_compares
    rw [ho.holds_iff (by decide), ho.before_iff]
    exact Ordering.isLT_iff_eq_lt
  · refine iff_of_false (fun hless => ?_) fun hbefore => h hbefore.orderable
    have hmem : less ∈ comparisons := by decide
    have hfails := gives_iff.mp (gives_notOrdered h hmem)
    rw [Holds, gives_iff, hfails] at hless
    cases hless

/-- Equality gives whether two values are the same. -/
theorem equal_gives : equal.Gives a b (.ok (.ofBool (a.same b))) := gives_iff.mpr rfl

/-- Being unequal is given where being equal is not. -/
theorem unequal_holds_iff : unequal.Holds a b ↔ equal.Gives a b (.ok (.integer 0)) := by
  have hunequal : unequal.Holds a b ↔ (!a.same b) = true := gives_integer_of_apply (d := true) rfl
  have hequal : equal.Gives a b (.ok (.integer 0)) ↔ a.same b = false :=
    gives_integer_of_apply (d := false) rfl
  rw [hunequal, hequal, Bool.not_eq_true']

end Operator

/-- **Equality and order of all values.** Being equal is an equivalence, for nodes that of kind and
fields. On two integers and on two strings the operators that ask for the order give truth values
that fit together and with equality; on all other values they report the types. -/
theorem Value.comparison_laws :
    (Equivalence fun a b : Value => a.same b) ∧
    (∀ a b : Value, a.same b ↔ a.Equal b) ∧
    (∀ a b : Value, Operator.equal.Gives a b (.ok (.ofBool (a.same b))) ∧
      (Operator.unequal.Holds a b ↔ Operator.equal.Gives a b (.ok (.integer 0)))) ∧
    (∀ a b : Value, a.Orderable b → a.Ordered b) ∧
    (∀ a b : Value, Operator.less.Holds a b ↔ a.Before b) ∧
    (∀ a b c : Value, Operator.less.Holds a b → Operator.less.Holds b c →
      Operator.less.Holds a c) ∧
    (∀ a b : Value, ¬ a.Orderable b → ∀ op ∈ Operator.comparisons, ∃ f : Fault,
      op.Gives a b (.error f) ∧ f = .notOrdered op a.typeName b.typeName ∧
        f.message = "'" ++ op.symbol ++ "' not supported between instances of '" ++
          a.typeName ++ "' and '" ++ b.typeName ++ "'") := by
  refine ⟨equivalence_same, fun _ _ => same_iff_equal, fun _ _ => ?_, fun _ _ h => h.ordered,
    fun _ _ => Operator.less_holds_iff, fun _ _ _ => ?_, fun _ _ h op hop => ?_⟩
  · exact ⟨Operator.equal_gives, Operator.unequal_holds_iff⟩
  · rw [Operator.less_holds_iff, Operator.less_holds_iff, Operator.less_holds_iff]
    exact .trans
  · exact ⟨_, Operator.gives_notOrdered h hop, rfl, rfl⟩

/-- The laws at two object literals that differ in the order of their entries only, at strings and
at values of two types. -/
theorem Value.comparison_laws_mixed :
    (Value.node (.record [("a", .name "x" 1), ("b", .name "y" 1)] 1)).Equal
        (.node (.record [("b", .name "y" 1), ("a", .name "x" 1)] 1)) ∧
      (Value.string "a").Ordered (.string "b") ∧
      Operator.less.Holds (.string "B") (.string "b") ∧
      ∃ f : Fault, Operator.less.Gives (.integer 1) (.string "a") (.error f) ∧
        f.message = "'<' not supported between instances of 'int' and 'str'" := by
  obtain ⟨-, hequal, -, hordered, hless, htrans, hfails⟩ := comparison_laws
  refine ⟨?_, hordered _ _ (.strings _ _), htrans _ (.string "a") _ ?_ ?_, ?_⟩
  · exact (hequal _ _).mp (by decide)
  · exact (hless _ _).mpr (.strings (.rel (by decide)))
  · exact (hless _ _).mpr (.strings (.rel (by decide)))
  · obtain ⟨f, hf, -, hmessage⟩ :=
      hfails (.integer 1) (.string "a") nofun .less (by decide)
    exact ⟨f, hf, hmessage.trans (by decide)⟩

end Scriptlet
