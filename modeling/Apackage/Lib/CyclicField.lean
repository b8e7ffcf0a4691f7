import Mathlib.Algebra.Field.Defs
import Mathlib.Algebra.Field.Basic
import Mathlib.Algebra.Group.Hom.End
import Mathlib.Data.Fintype.EquivFin
import Mathlib.Data.Fintype.Option
import Mathlib.Dynamics.PeriodicPts.Defs
import Mathlib.SetTheory.Cardinal.Finite
import Mathlib.Tactic.Ring
import Mathlib.Tactic.Push

/-
  Fields built from one cyclic additive map.

  Let `A` be an additive group of `period + 1` elements with an additive map `step` that returns to
  `one` after `period` steps and not before. The iterates of `step` on `one` run through all nonzero
  elements, multiplication by `step^[i] one` is `step^[i]`, and `A` is a field
  (`CyclicStep.toField`). This is how software represents GF(2^w): `step` is the shift with the
  reduction mask, the iterates of `one` the exponent table.
-/

namespace Apackage.Lib

/-- An additive map of period `card A - 1` on `one`. -/
structure CyclicStep (A : Type*) [AddCommGroup A] where
  step : A →+ A
  one : A
  period : ℕ
  one_ne : one ≠ 0
  period_pos : 0 < period
  card_eq : Nat.card A = period + 1
  step_period : step^[period] one = one
  inj : ∀ i < period, step^[i] one = one → i = 0

namespace CyclicStep

variable {A : Type*} [AddCommGroup A] (c : CyclicStep A)

/-- The exponent table: the `i`-th iterate on `one`. -/
def exp (i : ℕ) : A := c.step^[i] c.one

theorem exp_zero : c.exp 0 = c.one := rfl

theorem step_iterate_exp (i j : ℕ) : c.step^[i] (c.exp j) = c.exp (i + j) :=
  (Function.iterate_add_apply _ i j _).symm

variable (i : ℕ)

theorem step_iterate_zero : c.step^[i] 0 = 0 := iterate_map_zero c.step i

theorem step_iterate_add (a b : A) : c.step^[i] (a + b) = c.step^[i] a + c.step^[i] b :=
  iterate_map_add c.step i a b

theorem exp_mod : c.exp (i % c.period) = c.exp i :=
  Function.IsPeriodicPt.iterate_mod_apply c.step_period i

theorem exp_ne_zero : c.exp i ≠ 0 := by
  intro h
  -- `i * period` further steps lead from `exp i` back to `one`
  have hk : i * (c.period - 1) + i = i * c.period := by
    rw [← Nat.mul_succ, Nat.succ_eq_add_one, Nat.sub_add_cancel c.period_pos]
  have h0 : c.exp (i * c.period) = 0 := by rw [← hk, ← c.step_iterate_exp, h, c.step_iterate_zero]
  rw [← c.exp_mod, Nat.mul_mod_left, c.exp_zero] at h0
  exact c.one_ne h0

theorem exp_injOn {i j : ℕ} (hi : i < c.period) (hj : j < c.period) (h : c.exp i = c.exp j) :
    i = j := by
  wlog hij : i ≤ j generalizing i j
  · exact (this hj hi h.symm (by omega)).symm
  have hback : c.exp (c.period - j + i) = c.one := by
    rw [← c.step_iterate_exp, h, c.step_iterate_exp, Nat.sub_add_cancel hj.le]
    exact c.step_period
  by_contra hne
  have := c.inj (c.period - j + i) (by omega) hback
  omega

variable (a : A)

/-- Every nonzero element is an iterate: `0` and the `period` iterates are as many
    elements as `A` has. -/
theorem surj (ha : a ≠ 0) : ∃ i < c.period, c.exp i = a := by
  have : Finite A := Nat.finite_of_card_ne_zero (by rw [c.card_eq]; omega)
  have := Fintype.ofFinite A
  let f : Option (Fin c.period) → A := fun o => o.elim 0 (fun i => c.exp i)
  have hf : Function.Injective f := by
    rintro (_ | i) (_ | j) h
    · rfl
    · exact absurd h.symm (c.exp_ne_zero j)
    · exact absurd h (c.exp_ne_zero i)
    · exact congrArg some (Fin.ext (c.exp_injOn i.isLt j.isLt h))
  have hcard : Fintype.card (Option (Fin c.period)) = Fintype.card A := by
    rw [Fintype.card_option, Fintype.card_fin, ← Nat.card_eq_fintype_card, c.card_eq]
  obtain ⟨o, ho⟩ := ((Fintype.bijective_iff_injective_and_card f).mpr ⟨hf, hcard⟩).2 a
  cases o with
  | none => exact absurd ho.symm ha
  | some i => exact ⟨i, i.isLt, ho⟩

open Classical in
/-- The logarithm table: the index below `period` of a nonzero element. -/
noncomputable def log (a : A) : ℕ :=
  if h : a = 0 then 0 else (c.surj a h).choose

theorem log_lt {a : A} (h : a ≠ 0) : c.log a < c.period := by
  rw [log, dif_neg h]
  exact (c.surj a h).choose_spec.1

theorem exp_log {a : A} (h : a ≠ 0) : c.exp (c.log a) = a := by
  rw [log, dif_neg h]
  exact (c.surj a h).choose_spec.2

theorem log_exp : c.log (c.exp i) = i % c.period := by
  refine c.exp_injOn (c.log_lt (c.exp_ne_zero i)) (Nat.mod_lt _ c.period_pos) ?_
  rw [c.exp_log (c.exp_ne_zero i), c.exp_mod]

/-! ## Multiplication -/

open Classical in
/-- Multiplication by a nonzero `a` is `log a` steps. -/
noncomputable def mul (a b : A) : A := if a = 0 then 0 else c.step^[c.log a] b

/-- Multiplication on the exponent table adds the indices. -/
theorem mul_exp (i j : ℕ) : c.mul (c.exp i) (c.exp j) = c.exp (i + j) := by
  rw [mul, if_neg (c.exp_ne_zero i), c.step_iterate_exp, c.log_exp,
    ← c.exp_mod, Nat.mod_add_mod, c.exp_mod]

theorem mul_of_ne {a b : A} (ha : a ≠ 0) (hb : b ≠ 0) : c.mul a b = c.exp (c.log a + c.log b) := by
  conv_lhs => rw [← c.exp_log ha, ← c.exp_log hb]
  exact c.mul_exp _ _

theorem zero_mul (b : A) : c.mul 0 b = 0 := if_pos rfl

theorem mul_zero : c.mul a 0 = 0 := by rw [mul, c.step_iterate_zero, ite_self]

theorem eq_zero_or_exp : a = 0 ∨ ∃ i, a = c.exp i := by
  by_cases h : a = 0
  · exact .inl h
  · exact .inr ⟨c.log a, (c.exp_log h).symm⟩

theorem mul_comm (a b : A) : c.mul a b = c.mul b a := by
  rcases c.eq_zero_or_exp a with rfl | ⟨i, rfl⟩
  · rw [c.zero_mul, c.mul_zero]
  rcases c.eq_zero_or_exp b with rfl | ⟨j, rfl⟩
  · rw [c.zero_mul, c.mul_zero]
  · rw [c.mul_exp, c.mul_exp, Nat.add_comm]

theorem mul_assoc (a b d : A) : c.mul (c.mul a b) d = c.mul a (c.mul b d) := by
  rcases c.eq_zero_or_exp a with rfl | ⟨i, rfl⟩
  · simp only [c.zero_mul]
  rcases c.eq_zero_or_exp b with rfl | ⟨j, rfl⟩
  · simp only [c.zero_mul, c.mul_zero]
  rcases c.eq_zero_or_exp d with rfl | ⟨k, rfl⟩
  · simp only [c.mul_zero]
  · simp only [c.mul_exp, Nat.add_assoc]

theorem mul_add (a b d : A) : c.mul a (b + d) = c.mul a b + c.mul a d := by
  by_cases h : a = 0
  · simp only [h, c.zero_mul, add_zero]
  · simp [mul, if_neg h, c.step_iterate_add]

theorem add_mul (a b d : A) : c.mul (a + b) d = c.mul a d + c.mul b d := by
  rw [c.mul_comm, c.mul_add, c.mul_comm d a, c.mul_comm d b]

theorem one_mul : c.mul c.one a = a := by
  rcases c.eq_zero_or_exp a with rfl | ⟨i, rfl⟩
  · exact c.mul_zero _
  · rw [← c.exp_zero, c.mul_exp, Nat.zero_add]

open Classical in
/-- The inverse of `exp i` is `exp (period - i)`. -/
noncomputable def inv (a : A) : A := if a = 0 then 0 else c.exp (c.period - c.log a)

theorem inv_zero : c.inv 0 = 0 := by rw [inv, if_pos rfl]

theorem mul_inv_cancel {a : A} (h : a ≠ 0) : c.mul a (c.inv a) = c.one := by
  rw [inv, if_neg h]
  conv_lhs => rw [← c.exp_log h]
  rw [c.log_exp, Nat.mod_eq_of_lt (c.log_lt h), c.mul_exp, Nat.add_sub_cancel' (c.log_lt h).le]
  exact c.step_period

/-- The field whose multiplication by `exp i` is `step^[i]`, over the given addition. -/
@[reducible] noncomputable def toField : Field A :=
  { ‹AddCommGroup A› with
    mul := c.mul
    one := c.one
    inv := c.inv
    left_distrib := c.mul_add
    right_distrib := c.add_mul
    zero_mul := c.zero_mul
    mul_zero := c.mul_zero
    mul_assoc := c.mul_assoc
    mul_comm := c.mul_comm
    one_mul := c.one_mul
    mul_one := fun a => (c.mul_comm a c.one).trans (c.one_mul a)
    exists_pair_ne := ⟨0, c.one, c.one_ne.symm⟩
    mul_inv_cancel := fun _ h => c.mul_inv_cancel h
    inv_zero := c.inv_zero
    nnqsmul := _
    nnqsmul_def := fun _ _ => rfl
    qsmul := _
    qsmul_def := fun _ _ => rfl }

end CyclicStep

end Apackage.Lib
