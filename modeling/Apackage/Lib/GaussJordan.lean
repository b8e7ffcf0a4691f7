import Mathlib.LinearAlgebra.Matrix.NonsingularInverse
import Mathlib.LinearAlgebra.Matrix.ToLinearEquiv
import Mathlib.LinearAlgebra.Matrix.Determinant.Basic

/-
  In-place Gauss-Jordan inversion with full pivoting, over any field.

  The matrix is overwritten column by column: after pivots in the columns `P`, a column of `P` holds
  a column of the accumulated inverse and every other column holds what is left of the input.
  `Reduced P M B` states this: `lhs P M = rhs P M * B`, where `lhs` reads the columns of `P` as unit
  columns and `rhs` the others. A row swap moves the two rows of `B` as well, so at the end `M * B =
  1` for a row permutation `B` of the input, and swapping the columns back in reverse order
  (`unscramble`) gives the inverse.
-/

namespace Apackage.Lib.GaussJordan

open Matrix

variable {ι F : Type*} [Fintype ι] [DecidableEq ι] [Field F]

def swapRows (M : Matrix ι ι F) (r c : ι) : Matrix ι ι F := fun i => M (Equiv.swap r c i)

def swapCols (M : Matrix ι ι F) (r c : ι) : Matrix ι ι F := fun i j => M i (Equiv.swap r c j)

variable (M : Matrix ι ι F)

omit [Fintype ι] [Field F] in
@[simp] theorem swapRows_self (r : ι) : swapRows M r r = M := by
  funext i
  rw [swapRows, Equiv.swap_self, Equiv.refl_apply]

omit [Fintype ι] [Field F] in
@[simp] theorem swapCols_self (r : ι) : swapCols M r r = M := by
  funext i j
  rw [swapCols, Equiv.swap_self, Equiv.refl_apply]

/-- Pivot on the diagonal entry `c`: divide row `c` by it, clear column `c` in the other
    rows, and leave in column `c` the multipliers used. -/
def pivotStep (M : Matrix ι ι F) (c : ι) : Matrix ι ι F := fun i j =>
  let row := (if j = c then 1 else M c j) * (M c c)⁻¹
  if i = c then row else (if j = c then 0 else M i j) - M i c * row

/-- The unknowns' side: the columns of `P` are solved. -/
def lhs (P : Finset ι) (M : Matrix ι ι F) : Matrix ι ι F := fun i j =>
  if j ∈ P then (1 : Matrix ι ι F) i j else M i j

/-- The right-hand side: the columns outside `P` are untouched. -/
def rhs (P : Finset ι) (M : Matrix ι ι F) : Matrix ι ι F := fun i j =>
  if j ∈ P then M i j else (1 : Matrix ι ι F) i j

/-- The loop invariant: `M` is `B` reduced in the columns `P`. -/
def Reduced (P : Finset ι) (M B : Matrix ι ι F) : Prop := lhs P M = rhs P M * B

theorem reduced_empty (A : Matrix ι ι F) : Reduced ∅ A A := by
  have h1 : lhs ∅ A = A := by ext i j; simp [lhs]
  have h2 : rhs ∅ A = 1 := by ext i j; simp [rhs]
  rw [Reduced, h1, h2, Matrix.one_mul]

theorem reduced_univ {M B : Matrix ι ι F} (h : Reduced Finset.univ M B) : M * B = 1 := by
  have h1 : lhs Finset.univ M = 1 := by ext i j; simp [lhs]
  have h2 : rhs Finset.univ M = M := by ext i j; simp [rhs]
  rw [Reduced, h1, h2] at h
  exact h.symm

variable {P : Finset ι}

theorem Reduced.apply {M B : Matrix ι ι F} (h : Reduced P M B) (i j : ι) :
    lhs P M i j = ∑ k, rhs P M i k * B k j := by
  rw [h, Matrix.mul_apply]

omit [Fintype ι] in
/-- The unit columns of `P` do not see an exchange of rows outside `P`. -/
theorem one_swap_apply {r c : ι} (hr : r ∉ P) (hc : c ∉ P) {i j : ι} (hj : j ∈ P) :
    (1 : Matrix ι ι F) (Equiv.swap r c i) j = (1 : Matrix ι ι F) i j := by
  have hjr : j ≠ r := fun h => hr (h ▸ hj)
  have hjc : j ≠ c := fun h => hc (h ▸ hj)
  have hfix : Equiv.swap r c j = j := Equiv.swap_apply_of_ne_of_ne hjr hjc
  have hiff : Equiv.swap r c i = j ↔ i = j := by
    constructor
    · intro h
      exact (Equiv.swap r c).injective (h.trans hfix.symm)
    · rintro rfl
      exact hfix
  simp only [Matrix.one_apply, hiff]

theorem reduced_swapRows {M B : Matrix ι ι F} (h : Reduced P M B) {r c : ι} (hr : r ∉ P)
    (hc : c ∉ P) : Reduced P (swapRows M r c) (swapRows B r c) := by
  have hmem : ∀ k, Equiv.swap r c k ∈ P ↔ k ∈ P := by
    intro k
    by_cases hkr : k = r
    · subst hkr; simp [hr, hc]
    by_cases hkc : k = c
    · subst hkc; simp [hr, hc]
    · rw [Equiv.swap_apply_of_ne_of_ne hkr hkc]
  ext i j
  have hl : lhs P (swapRows M r c) i j = lhs P M (Equiv.swap r c i) j := by
    by_cases hj : j ∈ P
    · simp [lhs, if_pos hj, one_swap_apply hr hc hj]
    · simp only [lhs, if_neg hj, swapRows]
  have hrhs : ∀ k, rhs P (swapRows M r c) i (Equiv.swap r c k) = rhs P M (Equiv.swap r c i) k := by
    intro k
    by_cases hk : k ∈ P
    · have hkr : k ≠ r := fun e => hr (e ▸ hk)
      have hkc : k ≠ c := fun e => hc (e ▸ hk)
      rw [Equiv.swap_apply_of_ne_of_ne hkr hkc]
      simp only [rhs, if_pos hk, swapRows]
    · simp [rhs, if_neg ((hmem k).not.mpr hk), if_neg hk, Matrix.one_apply, Equiv.swap_apply_eq_iff]
  rw [hl, h.apply, Matrix.mul_apply]
  refine Fintype.sum_equiv (Equiv.swap r c) _ _ fun k => ?_
  rw [hrhs, swapRows, Equiv.swap_apply_self]

theorem reduced_pivotStep {M B : Matrix ι ι F} (h : Reduced P M B) {c : ι} (hc : c ∉ P)
    (hp : M c c ≠ 0) : Reduced (insert c P) (pivotStep M c) B := by
  -- row `c` is divided by the pivot, and row `i` loses `M i c` times the result
  have hl : ∀ i j, lhs (insert c P) (pivotStep M c) i j = if i = c then lhs P M c j * (M c c)⁻¹
      else lhs P M i j - M i c * (lhs P M c j * (M c c)⁻¹) := by
    intro i j
    by_cases hjc : j = c
    · subst hjc
      by_cases hi : i = j <;> simp [lhs, hc, hi, Matrix.one_apply, mul_inv_cancel₀ hp]
    · by_cases hj : j ∈ P <;> by_cases hi : i = c <;>
        simp [lhs, pivotStep, hj, hjc, hi, Ne.symm hjc, Matrix.one_apply]
  have hr : ∀ i j, rhs (insert c P) (pivotStep M c) i j = if i = c then rhs P M c j * (M c c)⁻¹
      else rhs P M i j - M i c * (rhs P M c j * (M c c)⁻¹) := by
    intro i j
    by_cases hjc : j = c
    · subst hjc
      by_cases hi : i = j <;> simp [rhs, pivotStep, hc, hi]
    · by_cases hj : j ∈ P <;> by_cases hi : i = c <;>
        simp [rhs, pivotStep, hj, hjc, hi, Ne.symm hjc, Matrix.one_apply]
  ext i j
  rw [hl, Matrix.mul_apply]
  simp only [hr]
  by_cases hi : i = c
  · simp only [if_pos hi, h.apply, Finset.sum_mul]
    exact Finset.sum_congr rfl fun k _ => by ring
  · simp only [if_neg hi, h.apply, Finset.sum_mul, Finset.mul_sum, ← Finset.sum_sub_distrib]
    exact Finset.sum_congr rfl fun k _ => by ring

/-! ## Runs of pivots -/

/-- Pivots `(r, c)` in order: bring row `r` to `c`, then pivot on `c`. -/
def applyPivots : List (ι × ι) → Matrix ι ι F → Matrix ι ι F
  | [], M => M
  | (r, c) :: ps, M => applyPivots ps (pivotStep (swapRows M r c) c)

/-- The row exchanges of a list of pivots, without the elimination. -/
def permuteRows : List (ι × ι) → Matrix ι ι F → Matrix ι ι F
  | [], B => B
  | (r, c) :: ps, B => permuteRows ps (swapRows B r c)

/-- Undo the exchanges on the columns, the last one first. -/
def unscramble : List (ι × ι) → Matrix ι ι F → Matrix ι ι F
  | [], M => M
  | (r, c) :: ps, M => swapCols (unscramble ps M) r c

/-- The pivots avoid used rows and columns, and none is zero. -/
def Admissible : List (ι × ι) → Finset ι → Matrix ι ι F → Prop
  | [], _, _ => True
  | (r, c) :: ps, P, M => r ∉ P ∧ c ∉ P ∧ M r c ≠ 0 ∧
      Admissible ps (insert c P) (pivotStep (swapRows M r c) c)

/-- The columns used after a list of pivots. -/
def usedCols : List (ι × ι) → Finset ι → Finset ι
  | [], P => P
  | (_, c) :: ps, P => usedCols ps (insert c P)

omit [Fintype ι] [Field F] in
theorem swapRows_pivot (r c : ι) : swapRows M r c c c = M r c := by
  rw [swapRows, Equiv.swap_apply_right]

omit [Fintype ι] in
theorem applyPivots_append (ps : List (ι × ι)) (r c : ι) (M : Matrix ι ι F) :
    applyPivots (ps ++ [(r, c)]) M = pivotStep (swapRows (applyPivots ps M) r c) c := by
  induction ps generalizing M with
  | nil => rfl
  | cons p ps ih => exact ih _

omit [Fintype ι] in
theorem admissible_append {ps : List (ι × ι)} {r c : ι} {M : Matrix ι ι F} (h : Admissible ps P M)
    (hr : r ∉ usedCols ps P) (hc : c ∉ usedCols ps P) (hp : applyPivots ps M r c ≠ 0) :
    Admissible (ps ++ [(r, c)]) P M := by
  induction ps generalizing P M with
  | nil => exact ⟨hr, hc, hp, trivial⟩
  | cons p ps ih =>
    obtain ⟨h1, h2, h3, h4⟩ := h
    exact ⟨h1, h2, h3, ih h4 hr hc hp⟩

omit [Fintype ι] in
theorem usedCols_append (ps : List (ι × ι)) (r c : ι) (P : Finset ι) :
    usedCols (ps ++ [(r, c)]) P = insert c (usedCols ps P) := by
  induction ps generalizing P with
  | nil => rfl
  | cons p ps ih => exact ih _

theorem reduced_applyPivots (ps : List (ι × ι)) {M B : Matrix ι ι F} (h : Reduced P M B)
    (ha : Admissible ps P M) : Reduced (usedCols ps P) (applyPivots ps M) (permuteRows ps B) := by
  induction ps generalizing P M B with
  | nil => exact h
  | cons p ps ih =>
    obtain ⟨hr, hc, hp, ha⟩ := ha
    exact ih (reduced_pivotStep (reduced_swapRows h hr hc) hc (by rwa [swapRows_pivot])) ha

theorem swapCols_mul (M A : Matrix ι ι F) (r c : ι) : swapCols M r c * A = M * swapRows A r c := by
  ext i j
  simp only [Matrix.mul_apply, swapCols, swapRows]
  exact Fintype.sum_equiv (Equiv.swap r c) _ _ fun k => by rw [Equiv.swap_apply_self]

theorem unscramble_mul (ps : List (ι × ι)) (M A : Matrix ι ι F) :
    unscramble ps M * A = M * permuteRows ps A := by
  induction ps generalizing A with
  | nil => rfl
  | cons p ps ih => rw [unscramble, swapCols_mul, ih, permuteRows]

/-- A run that uses every column leaves, after unscrambling, the inverse. -/
theorem unscramble_applyPivots_mul (ps : List (ι × ι)) (A : Matrix ι ι F)
    (ha : Admissible ps ∅ A) (hall : usedCols ps ∅ = Finset.univ) :
    unscramble ps (applyPivots ps A) * A = 1 := by
  rw [unscramble_mul]
  have h := reduced_applyPivots ps (reduced_empty A) ha
  rw [hall] at h
  exact reduced_univ h

/-! ## Pivots exist -/

theorem det_swapRows_ne (B : Matrix ι ι F) (r c : ι) (h : B.det ≠ 0) :
    (swapRows B r c).det ≠ 0 := by
  have := Matrix.det_permute (Equiv.swap r c) B
  change (swapRows B r c).det = _ at this
  rw [this]
  exact mul_ne_zero (by rcases Int.units_eq_one_or (Equiv.Perm.sign (Equiv.swap r c)) with e | e <;>
    simp [e]) h

theorem det_permuteRows_ne (ps : List (ι × ι)) {B : Matrix ι ι F} (h : B.det ≠ 0) :
    (permuteRows ps B).det ≠ 0 := by
  induction ps generalizing B with
  | nil => exact h
  | cons p ps ih => exact ih (det_swapRows_ne B p.1 p.2 h)

/-- While a row is unused, a nonsingular matrix offers a nonzero pivot in it. -/
theorem exists_pivot {M B : Matrix ι ι F} (h : Reduced P M B) (hB : B.det ≠ 0) {i : ι} (hi : i ∉ P) :
    ∃ j, j ∉ P ∧ M i j ≠ 0 := by
  by_contra hno
  push Not at hno
  have hrow : Matrix.vecMul (rhs P M i) B = 0 := by
    ext j
    have hz : lhs P M i j = 0 := by
      by_cases hj : j ∈ P
      · have : i ≠ j := fun e => hi (e ▸ hj)
        simp [lhs, hj, this]
      · simp [lhs, hj, hno j hj]
    rw [h.apply] at hz
    exact hz
  have h1 : rhs P M i i = 0 := congrFun (Matrix.eq_zero_of_vecMul_eq_zero hB hrow) i
  simp [rhs, hi] at h1

end Apackage.Lib.GaussJordan
