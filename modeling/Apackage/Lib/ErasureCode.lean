import Mathlib.LinearAlgebra.Vandermonde
import Mathlib.LinearAlgebra.Matrix.NonsingularInverse

/-
  Linear erasure codes over a field: decoding from any `k` rows of a generator.

  When the received rows form a matrix with a left inverse, that inverse applied to the received
  symbols returns the data (`decode_eq`). When every row times one fixed matrix is a row of powers
  of its node, `k` rows with distinct nodes are independent (`det_ne_zero_of_vandermonde`): the
  maximum distance property of Reed-Solomon codes. `pushUpTo` is the collection loop such decoders
  share.
-/

namespace Apackage.Lib.ErasureCode

open List Matrix

variable {F : Type*} [Field F] {k : ℕ}

variable {G I : Matrix (Fin k) (Fin k) F}

/-- The left inverse of the received rows recovers the data from the received symbols. -/
theorem decode_eq (h : I * G = 1) {d v : Fin k → F} (hv : ∀ l, v l = ∑ j, G l j * d j) (i : Fin k) :
    ∑ l, I i l * v l = d i := by
  have hvec : v = G *ᵥ d := funext hv
  have : I *ᵥ v = d := by rw [hvec, Matrix.mulVec_mulVec, h, Matrix.one_mulVec]
  exact congrFun this i

theorem row_ne_zero (h : I * G = 1) (l : Fin k) : G l ≠ 0 := by
  intro h0
  have hdet : G.det = 0 := Matrix.det_eq_zero_of_row_eq_zero l (fun j => congrFun h0 j)
  have := congrArg Matrix.det h
  rw [Matrix.det_mul, hdet, mul_zero, Matrix.det_one] at this
  exact zero_ne_one this

theorem det_ne_zero_of_mul (h : (I * G).det ≠ 0) : I.det ≠ 0 := by
  rw [Matrix.det_mul] at h
  exact left_ne_zero_of_mul h

/-- Rows that become powers of distinct nodes after multiplication by `R` are
    independent. -/
theorem det_ne_zero_of_vandermonde {R : Matrix (Fin k) (Fin k) F} {n : Fin k → F}
    (h : G * R = Matrix.vandermonde n) (hinj : Function.Injective n) : G.det ≠ 0 :=
  det_ne_zero_of_mul (I := G) (G := R) (by
    rw [h]
    exact Matrix.det_vandermonde_ne_zero_iff.mpr hinj)

/-- Append `f i` for the items `i` that satisfy `p`, up to `k` in all. -/
def pushUpTo {α β : Type*} (p : α → Prop) [DecidablePred p] (f : α → β) (k : ℕ) (acc : List β)
    (i : α) : List β :=
  if p i ∧ acc.length < k then acc ++ [f i] else acc

theorem foldl_pushUpTo {α β : Type*} (p : α → Prop) [DecidablePred p] (f : α → β) (k : ℕ)
    (l : List α) (acc : List β) (h : acc.length ≤ k) :
    l.foldl (pushUpTo p f k) acc = (acc ++ (l.filter p).map f).take k := by
  induction l generalizing acc with
  | nil => simp [take_of_length_le h]
  | cons i l ih =>
    rw [foldl_cons, pushUpTo]
    by_cases hp : p i
    · rw [filter_cons_of_pos (by simpa using hp), map_cons]
      by_cases hlt : acc.length < k
      · rw [if_pos ⟨hp, hlt⟩, ih _ (by simp; omega), append_assoc, singleton_append]
      · grind
    · rw [if_neg (by simp [hp]), filter_cons_of_neg (by simpa using hp), ih _ h]

end Apackage.Lib.ErasureCode
