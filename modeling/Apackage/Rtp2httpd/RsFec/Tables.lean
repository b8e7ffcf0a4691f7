import Mathlib.Data.UInt
import Mathlib.Data.List.Nodup
import Mathlib.Data.Fintype.Card
import Apackage.Lib.CyclicField

/-
  `rs_fec.c`: the exponent and logarithm tables of GF(256), and the arithmetic they carry.

  `gfStep` is the body of the loop of `generate_gf_tables` (shift, reduce by `RS_MODULUS`, keep
  eight bits); `rsExp` and `rsLog` read the two tables it fills. On bytes the step is an additive
  map of order 255 (`gfCyclic`), so `GF256` is a field by `CyclicStep.toField` and the table
  products of the code are products there (`gf_rsMac`, `gf_rsScale`).
-/

namespace Apackage.Rtp2httpd

open List Lib

/-- `RS_MODULUS`: x^8 = x^4 + x^3 + x^2 + 1. -/
def rsModulus : UInt16 := 0x1d

/-- `RS_SIZE`: the order of the multiplicative group. -/
def rsSize : ℕ := 0xFF

/-- One round of the loop of `generate_gf_tables`: the next value of `y`. -/
def gfStep (y : UInt16) : UInt16 :=
  let y := y <<< 1
  let y := if y &&& 0x100 ≠ 0 then y ^^^ rsModulus else y
  y % 0x100

/-- The values `n` rounds store, starting at `y`. -/
def gfRounds : ℕ → UInt16 → List UInt8
  | 0, _ => []
  | n + 1, y => y.toUInt8 :: gfRounds n (gfStep y)

/-- `rs_exp` after `generate_gf_tables`: 255 powers, then the 0 at `RS_SIZE`. -/
def rsExpTable : List UInt8 := gfRounds rsSize 1 ++ [0]

/-- `rs_exp[i]`. -/
def rsExp (i : ℕ) : UInt8 := rsExpTable.getD i 0

/-- `rs_log` after the second loop of `generate_gf_tables`. -/
def rsLogTable : List ℕ :=
  (List.range (rsSize + 1)).foldl (fun log i => log.set (rsExp i).toNat i)
    (List.replicate (rsSize + 1) 0)

/-- `rs_log[b]`. -/
def rsLog (b : UInt8) : ℕ := rsLogTable.getD b.toNat 0

/-- Multiply-accumulate, the guarded `c ^= rs_exp[(rs_log[a] + rs_log[b]) % RS_SIZE]`. -/
def rsMac (c a b : UInt8) : UInt8 :=
  if a ≠ 0 ∧ b ≠ 0 then c ^^^ rsExp ((rsLog a + rsLog b) % rsSize) else c

/-- Division of a row entry by the pivot, `pivinv = RS_SIZE - rs_log[pivot]`. -/
def rsScale (pivinv : ℕ) (a : UInt8) : UInt8 :=
  if a ≠ 0 then rsExp ((rsLog a + pivinv) % rsSize) else a

/-! ## Bytes under xor -/

/-- A byte read as an element of GF(256): bit `i` is the coefficient of `x^i`. -/
@[ext] structure GF256 where
  byte : UInt8
  deriving DecidableEq

/-- The field element of a byte. -/
def gf (b : UInt8) : GF256 := ⟨b⟩

instance : Zero GF256 := ⟨gf 0⟩
instance : Add GF256 := ⟨fun a b => gf (a.byte ^^^ b.byte)⟩
instance : Neg GF256 := ⟨id⟩
instance : Sub GF256 := ⟨fun a b => gf (a.byte ^^^ b.byte)⟩

@[simp] theorem gf_zero : gf 0 = 0 := rfl
theorem gf_xor (a b : UInt8) : gf (a ^^^ b) = gf a + gf b := rfl

theorem gf_inj {a b : UInt8} : gf a = gf b ↔ a = b :=
  ⟨fun h => congrArg GF256.byte h, fun h => congrArg gf h⟩

theorem gf_eq_zero {a : UInt8} : gf a = 0 ↔ a = 0 := gf_inj

instance : AddCommGroup GF256 where
  add_assoc a b c := GF256.ext (UInt8.xor_assoc a.byte b.byte c.byte)
  add_comm a b := GF256.ext (UInt8.xor_comm a.byte b.byte)
  zero_add a := GF256.ext UInt8.zero_xor
  add_zero a := GF256.ext UInt8.xor_zero
  neg_add_cancel a := GF256.ext UInt8.xor_self
  sub_eq_add_neg _ _ := rfl
  nsmul := nsmulRec
  zsmul := zsmulRec

/-! ## The step on bytes -/

/-- The loop body on a stored byte. -/
def xtime (b : UInt8) : UInt8 := (gfStep b.toUInt16).toUInt8

theorem forall_byte {P : UInt8 → Prop} (h : ∀ i : Fin 256, P (UInt8.ofFin i)) (b : UInt8) :
    P b := h b.toFin

variable (b : UInt8)

theorem gfStep_toUInt16 : gfStep b.toUInt16 = (xtime b).toUInt16 := by
  revert b
  exact forall_byte (by decide +kernel)

theorem xtime_eq :
    xtime b = (b <<< 1) ^^^ ((b >>> 7) ^^^ ((b >>> 7) <<< 2) ^^^ ((b >>> 7) <<< 3) ^^^
      ((b >>> 7) <<< 4)) := by
  revert b
  exact forall_byte (by decide +kernel)

theorem xtime_xor (a b : UInt8) : xtime (a ^^^ b) = xtime a ^^^ xtime b := by
  simp only [xtime_eq, UInt8.shiftLeft_xor, UInt8.shiftRight_xor]
  ac_rfl

theorem xtime_ne_one : ∀ i : Fin 255, i ≠ 0 → xtime^[i] 1 ≠ 1 := by decide +kernel

/-- The step as an additive map. -/
def gfShift : GF256 →+ GF256 where
  toFun a := gf (xtime a.byte)
  map_zero' := by decide
  map_add' a b := GF256.ext (xtime_xor a.byte b.byte)

variable (i : ℕ)

theorem gfShift_iterate : gfShift^[i] (gf b) = gf (xtime^[i] b) :=
  ((Function.Semiconj.iterate_right (f := gf) (fun _ => rfl) i) b).symm

def gfEquivFin : GF256 ≃ Fin 256 where
  toFun a := a.byte.toFin
  invFun i := gf (UInt8.ofFin i)
  left_inv _ := rfl
  right_inv _ := rfl

/-- The powers of x run through the 255 nonzero bytes. -/
def gfCyclic : CyclicStep GF256 where
  step := gfShift
  one := gf 1
  period := rsSize
  one_ne := by decide
  period_pos := by decide
  card_eq := by
    rw [Nat.card_congr gfEquivFin, Nat.card_eq_fintype_card, Fintype.card_fin]
    rfl
  step_period := by rw [gfShift_iterate]; decide +kernel
  inj i hi h := by
    by_contra hne
    rw [gfShift_iterate, gf_inj] at h
    exact xtime_ne_one ⟨i, hi⟩ (by simpa [Fin.ext_iff] using hne) h

noncomputable instance : Field GF256 := gfCyclic.toField

theorem gf_one : gf 1 = 1 := rfl

theorem gf_mul_def (a b : GF256) : a * b = gfCyclic.mul a b := rfl

theorem exp_mul_exp (j : ℕ) : gfCyclic.exp i * gfCyclic.exp j = gfCyclic.exp (i + j) :=
  gfCyclic.mul_exp i j

/-! ## The tables -/

theorem gfRounds_getElem? (n : ℕ) (b : UInt8) (i : ℕ) (hi : i < n) :
    (gfRounds n b.toUInt16)[i]? = some (xtime^[i] b) := by
  induction n generalizing b i with
  | zero => omega
  | succ n ih =>
    rw [gfRounds, gfStep_toUInt16]
    cases i with
    | zero => simp
    | succ i => rw [getElem?_cons_succ, ih _ _ (by omega), Function.iterate_succ_apply]

theorem gfRounds_length (n : ℕ) (y : UInt16) : (gfRounds n y).length = n := by
  induction n generalizing y with
  | zero => rfl
  | succ n ih => rw [gfRounds, length_cons, ih]

theorem gf_rsExp {i : ℕ} (hi : i < rsSize) : gf (rsExp i) = gfCyclic.exp i := by
  have h : rsExp i = xtime^[i] 1 := by
    rw [rsExp, rsExpTable, getD_eq_getElem?_getD, getElem?_append_left (by rwa [gfRounds_length]),
      show (1 : UInt16) = (1 : UInt8).toUInt16 from rfl, gfRounds_getElem? _ _ _ hi,
      Option.getD_some]
  rw [h, ← gfShift_iterate]
  rfl

theorem rsExp_rsSize : rsExp rsSize = 0 := by
  rw [rsExp, rsExpTable, getD_eq_getElem?_getD, getElem?_append_right (by rw [gfRounds_length])]
  simp [gfRounds_length]

theorem rsExp_inj {i j : ℕ} (hi : i ≤ rsSize) (hj : j ≤ rsSize) (h : rsExp i = rsExp j) :
    i = j := by
  have hpos : ∀ k, k < rsSize → rsExp k ≠ 0 := fun k hk h0 =>
    gfCyclic.exp_ne_zero k (by rw [← gf_rsExp hk, h0, gf_zero])
  rcases Nat.lt_or_eq_of_le hi with hi | rfl <;> rcases Nat.lt_or_eq_of_le hj with hj | rfl
  · refine gfCyclic.exp_injOn hi hj ?_
    rw [← gf_rsExp hi, ← gf_rsExp hj, h]
  · exact absurd (h.trans rsExp_rsSize) (hpos i hi)
  · exact absurd (h.symm.trans rsExp_rsSize) (hpos j hj)
  · rfl

theorem foldl_set_getD (f : ℕ → ℕ) (l : List ℕ) (t : List ℕ) (hf : (l.map f).Nodup)
    {x : ℕ} (hx : x ∈ l) (hlen : f x < t.length) :
    (l.foldl (fun t i => t.set (f i) i) t).getD (f x) 0 = x := by
  induction l using List.reverseRecOn with
  | nil => exact absurd hx not_mem_nil
  | append_singleton l a ih =>
    have hlen' : ∀ l' : List ℕ, (l'.foldl (fun t i => t.set (f i) i) t).length = t.length := by
      intro l'
      induction l' using List.reverseRecOn with
      | nil => rfl
      | append_singleton l' b ih' => simp [foldl_append, ih']
    rw [map_append, nodup_append] at hf
    rw [foldl_append, foldl_cons, foldl_nil, getD_eq_getElem?_getD]
    by_cases hxa : x = a
    · subst hxa
      rw [getElem?_set_self (by rwa [hlen']), Option.getD_some]
    · have hxl : x ∈ l := by simpa [hxa] using hx
      have hne : f a ≠ f x := fun h => hf.2.2 (f x) (List.mem_map_of_mem hxl) (f a) (by simp) h.symm
      rw [getElem?_set_ne hne, ← getD_eq_getElem?_getD]
      exact ih hf.1 hxl

theorem rsLog_rsExp {i : ℕ} (hi : i ≤ rsSize) : rsLog (rsExp i) = i := by
  refine foldl_set_getD (fun i => (rsExp i).toNat) (List.range (rsSize + 1)) _ ?_
    (mem_range.mpr (by omega)) ?_
  · refine List.Nodup.map_on ?_ nodup_range
    intro x hx y hy h
    rw [mem_range] at hx hy
    exact rsExp_inj (by omega) (by omega) (UInt8.toNat_inj.mp h)
  · rw [length_replicate]
    exact UInt8.toNat_lt _

theorem rsLog_eq {b : UInt8} (hb : b ≠ 0) : rsLog b = gfCyclic.log (gf b) := by
  have hne : gf b ≠ 0 := fun h => hb (gf_eq_zero.mp h)
  have hlt := gfCyclic.log_lt hne
  have hexp : rsExp (gfCyclic.log (gf b)) = b := by
    rw [← gf_inj, gf_rsExp hlt, gfCyclic.exp_log hne]
  rw [← hexp, rsLog_rsExp (Nat.le_of_lt hlt), hexp]

theorem gf_rsExp_mod : gf (rsExp (i % rsSize)) = gfCyclic.exp i := by
  rw [gf_rsExp (Nat.mod_lt _ (by decide))]
  exact gfCyclic.exp_mod i

/-! ## The code's products -/

/-- `rsMac c a b` is `c + a * b`. -/
theorem gf_rsMac (c a b : UInt8) : gf (rsMac c a b) = gf c + gf a * gf b := by
  unfold rsMac
  by_cases ha : a = 0
  · simp [ha]
  by_cases hb : b = 0
  · simp [hb]
  have ha' : gf a ≠ 0 := fun h => ha (gf_eq_zero.mp h)
  have hb' : gf b ≠ 0 := fun h => hb (gf_eq_zero.mp h)
  rw [if_pos ⟨ha, hb⟩, gf_xor, gf_rsExp_mod, rsLog_eq ha, rsLog_eq hb, gf_mul_def,
    gfCyclic.mul_of_ne ha' hb']

/-- Scaling a row by `RS_SIZE - rs_log[p]` divides it by `p`. -/
theorem gf_rsScale {p : UInt8} (hp : p ≠ 0) (a : UInt8) :
    gf (rsScale (rsSize - rsLog p) a) = gf a * (gf p)⁻¹ := by
  unfold rsScale
  by_cases ha : a = 0
  · simp [ha]
  have ha' : gf a ≠ 0 := fun h => ha (gf_eq_zero.mp h)
  have hp' : gf p ≠ 0 := fun h => hp (gf_eq_zero.mp h)
  have hinv : (gf p)⁻¹ = gfCyclic.exp (rsSize - rsLog p) := by
    rw [rsLog_eq hp]
    exact if_neg hp'
  rw [if_pos ha, gf_rsExp_mod, hinv, ← exp_mul_exp, rsLog_eq ha, gfCyclic.exp_log ha']

/-- The class of x. -/
def alpha : GF256 := gf 2

theorem alpha_eq : alpha = gfCyclic.exp 1 := by
  rw [← gf_rsExp (by decide)]
  decide

theorem alpha_pow : alpha ^ i = gfCyclic.exp i := by
  induction i with
  | zero => rfl
  | succ i ih => rw [pow_succ, ih, alpha_eq, exp_mul_exp]

theorem alpha_pow_inj {i j : ℕ} (hi : i < rsSize) (hj : j < rsSize)
    (h : alpha ^ i = alpha ^ j) : i = j :=
  gfCyclic.exp_injOn hi hj (by rwa [alpha_pow, alpha_pow] at h)

end Apackage.Rtp2httpd
