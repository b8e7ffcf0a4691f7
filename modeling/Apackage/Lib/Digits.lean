import Mathlib.Algebra.Ring.Nat
import Mathlib.Data.List.Induction
import Mathlib.Data.Nat.Log

/-
  Numbers written with digits, most significant digit first.

  `fixed b w n` are the last `w` digits of `n` in base `b`, `shortest b n` its digits without
  leading zeros, and `value b ds` is the number that digits denote. Reading what was written
  gives the number (`value_fixed`, `value_shortest`).
-/

namespace Apackage.Lib.Digits

open List

def value (b : ℕ) (ds : List ℕ) : ℕ := ds.foldl (fun n d => b * n + d) 0

def fixed (b : ℕ) : ℕ → ℕ → List ℕ
  | 0, _ => []
  | w + 1, n => fixed b w (n / b) ++ [n % b]

def shortest (b n : ℕ) : List ℕ := fixed b (Nat.log b n + 1) n

variable {b : ℕ}

@[simp] theorem value_nil : value b [] = 0 := rfl

@[simp] theorem value_concat (ds : List ℕ) (d : ℕ) : value b (ds ++ [d]) = b * value b ds + d := by
  simp [value]

@[simp] theorem length_fixed (b w n : ℕ) : (fixed b w n).length = w := by
  induction w generalizing n with
  | zero => rfl
  | succ w ih => rw [fixed, length_append, ih, length_singleton]

theorem fixed_lt (hb : 0 < b) {w n d : ℕ} (h : d ∈ fixed b w n) : d < b := by
  induction w generalizing n with
  | zero => cases h
  | succ w ih =>
    rcases mem_append.1 h with h | h
    · exact ih h
    · rw [mem_singleton.1 h]
      exact Nat.mod_lt n hb

theorem value_lt {ds : List ℕ} (h : ∀ d ∈ ds, d < b) : value b ds < b ^ ds.length := by
  induction ds using List.reverseRecOn with
  | nil => exact Nat.one_pos
  | append_singleton ds d ih =>
    have hinit := ih fun d' hd' => h d' (mem_append_left _ hd')
    have hlast := h d (mem_append_right _ (mem_singleton_self d))
    rw [value_concat, length_append, length_singleton, Nat.pow_succ']
    calc b * value b ds + d < b * value b ds + b := Nat.add_lt_add_left hlast _
      _ = b * (value b ds + 1) := (Nat.mul_succ b _).symm
      _ ≤ b * b ^ ds.length := Nat.mul_le_mul_left b hinit

theorem value_fixed (b w n : ℕ) : value b (fixed b w n) = n % b ^ w := by
  induction w generalizing n with
  | zero => simp [fixed, Nat.mod_one]
  | succ w ih => rw [fixed, value_concat, ih, Nat.pow_succ', Nat.mod_mul, Nat.add_comm]

theorem value_fixed_of_lt {w n : ℕ} (h : n < b ^ w) : value b (fixed b w n) = n := by
  rw [value_fixed, Nat.mod_eq_of_lt h]

theorem fixed_value {ds : List ℕ} (h : ∀ d ∈ ds, d < b) : fixed b ds.length (value b ds) = ds := by
  induction ds using List.reverseRecOn with
  | nil => rfl
  | append_singleton ds d ih =>
    have hinit := ih fun d' hd' => h d' (mem_append_left _ hd')
    have hlast := h d (mem_append_right _ (mem_singleton_self d))
    rw [length_append, length_singleton, value_concat, fixed,
      Nat.mul_add_div (Nat.pos_of_ne_zero (Nat.ne_zero_of_lt hlast)), Nat.div_eq_of_lt hlast,
      Nat.add_zero, hinit, Nat.mul_add_mod, Nat.mod_eq_of_lt hlast]

theorem value_shortest (hb : 1 < b) (n : ℕ) : value b (shortest b n) = n :=
  value_fixed_of_lt (Nat.lt_pow_succ_log_self hb n)

theorem shortest_ne_nil (b n : ℕ) : shortest b n ≠ [] :=
  ne_nil_of_length_eq_add_one (length_fixed b _ n)

end Apackage.Lib.Digits
