import Mathlib.Data.Int.Init
import ScriptEngine.Operator

/-!
Division of integers. Words of 64 bits are divided toward zero, and what wraps in the quotient wraps
back when it is multiplied again, so quotient and remainder restore the dividend without exception
(`tdiv_mul_add_tmod`). Main statement: `division_restores_dividend`.
-/

namespace ScriptEngine

/-! ### Words -/

namespace Word

/-- The one pair of words whose quotient is no word. -/
def Overflows (a b : Int64) : Prop :=
  a = Int64.minValue ∧ b = -1

instance (a b : Int64) : Decidable (Overflows a b) :=
  inferInstanceAs (Decidable (_ ∧ _))

variable {a b : Int64}

theorem toInt_ne_zero (h : b ≠ 0) : b.toInt ≠ 0 :=
  fun h0 => h (Int64.toInt_inj.mp h0)

/-- A quotient that does not fit wraps, and its product with the divisor wraps back. -/
theorem tdiv_mul_add_tmod (a b : Int64) : a / b * b + a % b = a := by
  apply Int64.toInt_inj.mp
  calc (a / b * b + a % b).toInt
      = (a.toInt.tdiv b.toInt * b.toInt + a.toInt.tmod b.toInt).bmod (2 ^ 64) := by
        rw [Int64.toInt_add, Int64.toInt_mul, Int64.toInt_div, Int64.toInt_mod, Int.bmod_add_bmod,
          ← Int.bmod_add_bmod, Int.bmod_mul_bmod, Int.bmod_add_bmod]
    _ = a.toInt.bmod (2 ^ 64) := by rw [Int.tdiv_mul_add_tmod]
    _ = a.toInt := Int64.toInt_bmod a

theorem mod_eq_zero_or_sign (a b : Int64) : a % b = 0 ∨ (a % b).toInt.sign = a.toInt.sign := by
  rw [← Int64.toInt_inj, Int64.toInt_mod, Int.sign_tmod]
  by_cases h : b.toInt ∣ a.toInt
  · exact .inl (Int.tmod_eq_zero_of_dvd h)
  · exact .inr (if_neg h)

theorem natAbs_mod_lt (h : b ≠ 0) : (a % b).toInt.natAbs < b.toInt.natAbs := by
  rw [Int64.toInt_mod, Int.natAbs_tmod]
  exact Nat.mod_lt _ (Int.natAbs_pos.mpr (toInt_ne_zero h))

theorem toInt_div_of_fits (h : ¬ Overflows a b) : (a / b).toInt = a.toInt.tdiv b.toInt := by
  by_cases ha : a = Int64.minValue
  · exact Int64.toInt_div_of_ne_right a b fun hb => h ⟨ha, hb⟩
  · exact Int64.toInt_div_of_ne_left a b ha

theorem div_of_overflows (h : Overflows a b) : a / b = Int64.minValue := by
  rw [h.1, h.2]
  rfl

end Word

/-! ### Quotient and remainder -/

/-- `q` and `r` are quotient and remainder of `a` by `b`, on words of 64 bits: together they restore
`a` by the language's own operators, the remainder is smaller than `b` and has the sign of `a`, and
the quotient is cut off toward zero, but wraps to the smallest integer where it is no word. -/
structure Divides (a b q r : Int64) : Prop where
  restores : (do
    let product ← BinaryOp.mul.apply (.int q) (.int b)
    BinaryOp.add.apply product (.int r)) = .ok (.int a)
  sign : r = 0 ∨ r.toInt.sign = a.toInt.sign
  smaller : r.toInt.natAbs < b.toInt.natAbs
  fits : ¬ Word.Overflows a b → q.toInt = a.toInt.tdiv b.toInt
  wraps : Word.Overflows a b → q = Int64.minValue

theorem divides_of_ne_zero {a b : Int64} (h : b ≠ 0) : Divides a b (a / b) (a % b) where
  restores := congrArg (fun n => Except.ok (Value.int n)) (Word.tdiv_mul_add_tmod a b)
  sign := Word.mod_eq_zero_or_sign a b
  smaller := Word.natAbs_mod_lt h
  fits := Word.toInt_div_of_fits
  wraps := Word.div_of_overflows

section Apply

variable {a b : Int64}

/-- `/` and `%` fail alike. -/
theorem BinaryOp.apply_of_zero {op : BinaryOp} (hop : op = .div ∨ op = .rem) :
    op.apply (.int a) (.int 0) = .error .divisionByZero := by
  rcases hop with rfl | rfl <;> rfl

theorem BinaryOp.div_apply_of_ne_zero (h : b ≠ 0) :
    BinaryOp.div.apply (.int a) (.int b) = .ok (.int (a / b)) :=
  if_neg h

theorem BinaryOp.rem_apply_of_ne_zero (h : b ≠ 0) :
    BinaryOp.rem.apply (.int a) (.int b) = .ok (.int (a % b)) :=
  if_neg h

end Apply

/-- **Division of integers is total but for zero, and consistent.** `/` and `%` fail exactly if the
divisor is zero, by that cause; otherwise both have a value, and the two values are quotient and
remainder. -/
theorem division_restores_dividend (a b : Int64) :
    (∀ cause, BinaryOp.div.apply (.int a) (.int b) = .error cause ↔
      cause = .divisionByZero ∧ b = 0) ∧
    (∀ cause, BinaryOp.rem.apply (.int a) (.int b) = .error cause ↔
      cause = .divisionByZero ∧ b = 0) ∧
    (b ≠ 0 ↔ ∃ q r, BinaryOp.div.apply (.int a) (.int b) = .ok (.int q) ∧
      BinaryOp.rem.apply (.int a) (.int b) = .ok (.int r) ∧ Divides a b q r) := by
  by_cases h : b = 0
  · subst h
    rw [BinaryOp.apply_of_zero (.inl rfl), BinaryOp.apply_of_zero (.inr rfl)]
    refine ⟨fun cause => ?_, fun cause => ?_, fun hne => absurd rfl hne, ?_⟩
    · simp [eq_comm]
    · simp [eq_comm]
    · rintro ⟨q, r, hq, -⟩
      cases hq
  · rw [BinaryOp.div_apply_of_ne_zero h, BinaryOp.rem_apply_of_ne_zero h]
    refine ⟨fun cause => ?_, fun cause => ?_, fun hne => ?_, fun _ => h⟩
    · simp [h]
    · simp [h]
    · exact ⟨_, _, rfl, rfl, divides_of_ne_zero hne⟩

/-- The smallest integer by minus one: the quotient wraps to the dividend, and nothing remains. -/
example : BinaryOp.div.apply (.int Int64.minValue) (.int (-1)) = .ok (.int Int64.minValue) ∧
    BinaryOp.rem.apply (.int Int64.minValue) (.int (-1)) = .ok (.int 0) :=
  ⟨rfl, rfl⟩

end ScriptEngine
