import Mathlib.Algebra.Order.Ring.Nat

/-
  A sweep over a table by a cursor.

  Each call looks at the places from the cursor to `step` places on, as far as the table goes, and
  leaves the cursor on the last of these. From the end of the table the next call starts over.
  `calls c b` bounds the calls from the cursor `c` until the place `b` is looked at; it is at most
  one more than the table has steps (`calls_le`).
-/

namespace Apackage.Lib.Sweep

def next (size step c : ℕ) : ℕ := if size ≤ c + step + 1 then 0 else c + step

/-- The call at the cursor `c` looks at `b`. -/
def Looks (step c b : ℕ) : Prop := c ≤ b ∧ b ≤ c + step
  deriving Decidable

def calls (size step c b : ℕ) : ℕ :=
  if c ≤ b then (b - c) / step + 1 else (size - c + step - 1) / step + b / step + 1

variable {size step c b : ℕ}

theorem calls_next (hstep : 0 < step) (hc : c < size) (hb : b < size)
    (hlook : ¬ Looks step c b) : calls size step (next size step c) b < calls size step c b := by
  rw [Looks, not_and, not_le] at hlook
  by_cases hcb : c ≤ b
  · have hfar := hlook hcb
    have hnext : next size step c = c + step := by rw [next, if_neg (by omega)]
    have hdiv : (b - c) / step = (b - (c + step)) / step + 1 := by
      rw [← Nat.add_div_right _ hstep]
      congr 1
      omega
    rw [hnext, calls, calls, if_pos hfar.le, if_pos hcb, hdiv]
    exact Nat.lt_succ_self _
  · rw [calls, calls, if_neg hcb]
    by_cases hend : size ≤ c + step + 1
    · have hone : 1 ≤ (size - c + step - 1) / step := (Nat.one_le_div_iff hstep).2 (by omega)
      rw [next, if_pos hend, if_pos (Nat.zero_le b), Nat.sub_zero]
      omega
    · have hdiv : (size - c + step - 1) / step = (size - (c + step) + step - 1) / step + 1 := by
        rw [← Nat.add_div_right _ hstep]
        congr 1
        omega
      rw [next, if_neg hend, if_neg (by omega), hdiv]
      omega

theorem calls_pos : 0 < calls size step c b := by
  rw [calls]
  split_ifs <;> exact Nat.succ_pos _

theorem calls_le (hc : c < size) (hb : b < size) :
    calls size step c b ≤ (size + step - 1) / step + 1 := by
  rw [calls]
  split_ifs with hcb
  · exact Nat.succ_le_succ (Nat.div_le_div_right (by omega))
  · refine Nat.succ_le_succ (Nat.div_add_div_le_add_div.trans ?_)
    exact Nat.div_le_div_right (by omega)

end Apackage.Lib.Sweep
