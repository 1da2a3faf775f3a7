import Scriptlet.Eval.Operation

/-!
# Division Toward Zero

Of all quotients and remainders that make up a dividend, with a remainder smaller than the divisor,
division toward zero takes those with a remainder that is not on the other side of zero than the
dividend (`Truncates`). There is one such pair for every divisor but zero, so whatever is shown to
divide two integers is their quotient and remainder. How they change with the signs of dividend and
divisor follows without looking at how they are computed.

They are computed from magnitudes: the quotient of these, rounded down, gets the sign that it should
have, and the remainder is what the quotient leaves. `truncDivide_eq` goes through the signs that
dividend and divisor can have, once.

## Main definitions

* `Truncates`: what division toward zero demands of a quotient and a remainder.
* `Value.Divided`: the quotient and the remainder of two integers, as values.

## Main results

* `Truncates.unique`: no other pair divides two integers.
* `truncates_tdiv`: every divisor but zero has a pair.
* `Value.truncDivide_eq`: the quotient that is computed from magnitudes is the one of such a pair.
* `Value.truncating_division`: quotient and remainder as values, and the fault for a zero divisor.
-/

namespace Scriptlet

/-- Whether `q` and `r` divide `a` by `b` toward zero: they make up the dividend, the remainder is
smaller than the divisor, and it is zero or has the sign of the dividend. -/
structure Truncates (a b q r : Int) : Prop where
  total : a = b * q + r
  small : r.natAbs < b.natAbs
  sign : r = 0 ∨ r.sign = a.sign

namespace Truncates

variable {a b q r : Int}

/-- Nothing is divided by zero. -/
theorem divisor_ne_zero (h : Truncates a b q r) : b ≠ 0 := by
  rintro rfl
  exact absurd h.small (Nat.not_lt_zero _)

/-- The remainder lies between zero and the dividend, or on zero. -/
theorem same_side (h : Truncates a b q r) : (0 ≤ a → 0 ≤ r) ∧ (a ≤ 0 → r ≤ 0) := by
  rcases h.sign with rfl | hs
  · exact ⟨fun _ => Int.le_refl 0, fun _ => Int.le_refl 0⟩
  · refine ⟨fun ha => ?_, fun ha => ?_⟩
    · rw [← Int.sign_nonneg_iff, hs]
      exact Int.sign_nonneg_iff.mpr ha
    · rw [← Int.sign_nonpos_iff, hs]
      exact Int.sign_nonpos_iff.mpr ha

/-- No other pair divides the two integers: the remainders of two pairs differ by a multiple of the
divisor, and lie on the same side of zero, too close to each other for that. -/
theorem unique {q' r' : Int} (h : Truncates a b q r) (h' : Truncates a b q' r') :
    q' = q ∧ r' = r := by
  have hdifference : b * (q - q') = r' - r := by
    have htotal : b * q + r = b * q' + r' := h.total.symm.trans h'.total
    rw [Int.mul_sub]
    omega
  have hclose : (r' - r).natAbs < b.natAbs := by
    obtain ⟨hpos, hneg⟩ := h.same_side
    obtain ⟨hpos', hneg'⟩ := h'.same_side
    have hsmall := h.small
    have hsmall' := h'.small
    rcases Int.le_total 0 a with ha | ha
    · have := hpos ha
      have := hpos' ha
      omega
    · have := hneg ha
      have := hneg' ha
      omega
  have hr : r' - r = 0 :=
    Int.eq_zero_of_dvd_of_natAbs_lt_natAbs ⟨q - q', hdifference.symm⟩ hclose
  rw [hr] at hdifference
  have hq : q - q' = 0 := (Int.mul_eq_zero.mp hdifference).resolve_left h.divisor_ne_zero
  omega

/-- The other sign of the dividend is the other sign of quotient and remainder. -/
theorem neg_dividend (h : Truncates a b q r) : Truncates (-a) b (-q) (-r) where
  total := by
    rw [h.total, Int.neg_add, Int.mul_neg]
  small := by
    rw [Int.natAbs_neg]
    exact h.small
  sign := by
    rcases h.sign with rfl | hs
    · exact .inl Int.neg_zero
    · exact .inr (by rw [Int.sign_neg, Int.sign_neg, hs])

/-- The other sign of the divisor is the other sign of the quotient, and the same remainder. -/
theorem neg_divisor (h : Truncates a b q r) : Truncates a (-b) (-q) r where
  total := by
    rw [Int.neg_mul_neg]
    exact h.total
  small := by
    rw [Int.natAbs_neg]
    exact h.small
  sign := h.sign

end Truncates

/-- Every divisor but zero has a quotient and a remainder. -/
theorem truncates_tdiv {a b : Int} (hb : b ≠ 0) : Truncates a b (a.tdiv b) (a.tmod b) where
  total := (Int.mul_tdiv_add_tmod a b).symm
  small := by
    rw [Int.natAbs_tmod]
    exact Nat.mod_lt _ (Int.natAbs_pos.mpr hb)
  sign := by
    rw [← Int.sign_eq_zero_iff_zero, Int.sign_tmod]
    split
    · exact .inl rfl
    · exact .inr rfl

namespace Truncates

variable {a b q r : Int}

/-- The magnitude of the quotient is the quotient of the magnitudes, rounded down. -/
theorem natAbs_quotient (h : Truncates a b q r) : q.natAbs = a.natAbs / b.natAbs := by
  rw [((truncates_tdiv h.divisor_ne_zero).unique h).1]
  exact Int.natAbs_tdiv a b

/-- The quotient is zero, or has the sign that a product has. -/
theorem sign_quotient (h : Truncates a b q r) : q = 0 ∨ q.sign = (a * b).sign := by
  rw [((truncates_tdiv h.divisor_ne_zero).unique h).1, ← Int.sign_eq_zero_iff_zero, Int.sign_tdiv,
    Int.sign_mul]
  split
  · exact .inl rfl
  · exact .inr rfl

end Truncates

namespace Value

/-- Whether two integers have this quotient and this remainder, as values. -/
def Divided (a b q r : Int) : Prop :=
  quotient (.integer a) (.integer b) = .ok (.integer q) ∧
    remainder (.integer a) (.integer b) = .ok (.integer r)

/-- The quotient that is computed from magnitudes is the one toward zero: whatever the signs are, it
has the right magnitude, and it is turned around where just one of them is negative. -/
theorem truncDivide_eq (m n : Int) :
    truncDivide m n = if n = 0 then .error .zeroDivisor else .ok (m.tdiv n) := by
  rw [truncDivide, floorDivide]
  by_cases hn : n = 0
  · rw [if_pos hn, if_pos (by omega)]
    rfl
  rw [if_neg hn, if_neg (by omega)]
  refine congrArg Except.ok ?_
  obtain ⟨a, rfl | rfl⟩ := Int.eq_nat_or_neg m <;> obtain ⟨b, rfl | rfl⟩ := Int.eq_nat_or_neg n <;>
    simp only [Int.natAbs_neg, Int.natAbs_natCast, Int.neg_tdiv, Int.tdiv_neg, Int.neg_neg,
      ← Int.ofNat_tdiv, ← Int.ofNat_fdiv]
  · rw [if_pos (by omega)]
  · rw [if_neg (by omega)]
  -- zero is not negative, so the sign of a quotient that is zero may come out either way
  · rcases Nat.eq_zero_or_pos a with rfl | ha
    · simp
    · rw [if_neg (by omega)]
  · rcases Nat.eq_zero_or_pos a with rfl | ha
    · simp
    · rw [if_pos (by omega)]

/-- The quotient of two integers as values. -/
theorem quotient_integer (m n : Int) : quotient (.integer m) (.integer n) =
    if n = 0 then .error .zeroDivisor else .ok (.integer (m.tdiv n)) := by
  show (truncDivide m n >>= fun q => .ok (integer q)) = _
  rw [truncDivide_eq]
  split <;> rfl

/-- What the quotient of two integers leaves, as values. -/
theorem remainder_integer (m n : Int) : remainder (.integer m) (.integer n) =
    if n = 0 then .error .zeroDivisor else .ok (.integer (m.tmod n)) := by
  show (truncDivide m n >>= fun q => .ok (integer (m - n * q))) = _
  rw [truncDivide_eq, Int.tmod_def]
  split <;> rfl

/-- The pair that divides two integers is their quotient and remainder. -/
theorem divided_of_truncates {a b q r : Int} (h : Truncates a b q r) : Divided a b q r := by
  obtain ⟨rfl, rfl⟩ := (truncates_tdiv h.divisor_ne_zero).unique h
  rw [Divided, quotient_integer, remainder_integer, if_neg h.divisor_ne_zero,
    if_neg h.divisor_ne_zero]
  exact ⟨rfl, rfl⟩

/-- **Quotients are rounded toward zero, and remainders have the sign of the dividend.** This is
what the operators for them compute. A zero divisor is a fault, and the only one. For any other
divisor there are a quotient and a remainder, which are the only pair that divides the two integers
toward zero; the quotient has the sign and the magnitude that this leaves it. The other sign of the
dividend changes the signs of both, and the other sign of the divisor that of the quotient alone. -/
theorem truncating_division (a b : Int) :
    (Operator.divide.apply (.integer a) (.integer b) = quotient (.integer a) (.integer b) ∧
      Operator.remainder.apply (.integer a) (.integer b) =
        remainder (.integer a) (.integer b)) ∧
    (quotient (.integer a) (.integer b) = .error .zeroDivisor ↔ b = 0) ∧
    (remainder (.integer a) (.integer b) = .error .zeroDivisor ↔ b = 0) ∧
    (b ≠ 0 → ∃ q r, Divided a b q r ∧ Truncates a b q r ∧
      (q = 0 ∨ q.sign = (a * b).sign) ∧ q.natAbs = a.natAbs / b.natAbs ∧
      (∀ q' r', Truncates a b q' r' → q' = q ∧ r' = r) ∧
      Divided (-a) b (-q) (-r) ∧ Divided a (-b) (-q) r) := by
  refine ⟨⟨rfl, rfl⟩, ?_⟩
  by_cases hb : b = 0
  · subst hb
    exact ⟨⟨fun _ => rfl, fun _ => rfl⟩, ⟨fun _ => rfl, fun _ => rfl⟩, fun h => absurd rfl h⟩
  · have h := truncates_tdiv (a := a) hb
    have hdivided := divided_of_truncates h
    refine ⟨⟨fun hzero => ?_, fun hzero => absurd hzero hb⟩,
      ⟨fun hzero => ?_, fun hzero => absurd hzero hb⟩, fun _ => ⟨_, _, hdivided, h, ?_⟩⟩
    · rw [hdivided.1] at hzero
      cases hzero
    · rw [hdivided.2] at hzero
      cases hzero
    · exact ⟨h.sign_quotient, h.natAbs_quotient, fun _ _ h' => h.unique h',
        divided_of_truncates h.neg_dividend, divided_of_truncates h.neg_divisor⟩

/-- Minus seven by two is minus three, and minus one is left over. -/
theorem divided_minusSeven : (2 : Int) ≠ 0 ∧ Divided (-7) 2 (-3) (-1) ∧ Divided 7 2 3 1 := by
  have hb : (2 : Int) ≠ 0 := by decide
  obtain ⟨q, r, hdivided, -, -, -, hunique, hneg, -⟩ := (truncating_division (-7) 2).2.2.2 hb
  obtain ⟨rfl, rfl⟩ := hunique (-3) (-1) ⟨by decide, by decide, .inr (by decide)⟩
  exact ⟨hb, hdivided, hneg⟩

end Value

end Scriptlet
