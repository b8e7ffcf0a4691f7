import Mathlib.Data.Nat.ModEq

/-
  16-bit serial numbers and the power-of-two rings they index.

  `seqDiff a b` is the signed difference `(int16_t)(a - b)`; `ahead b x` is the distance
  from `b` up to `x` modulo 2^16. `SerialLt a b` is the comparison `(int16_t)(a - b) < 0`:
  `a` lies at most 2^15 before `b`.

  A `Ring` is a table of 2^bits places, indexed by `seq & mask`. Two numbers less than the
  ring's size ahead of a common base share a place only if they are equal (`slot_inj`).
-/

namespace Apackage.Lib.Serial

abbrev Seq := BitVec 16

def seqDiff (a b : Seq) : ℤ := (a - b).toInt

/-- Distance from `b` up to `x`, modulo 2^16. -/
def ahead (b x : Seq) : ℕ := (x - b).toNat

/-- `a` is serially before `b`: `(int16_t)(a - b) < 0`. -/
def SerialLt (a b : Seq) : Prop := seqDiff a b < 0
  deriving Decidable

theorem ahead_lt (b x : Seq) : ahead b x < 65536 := (x - b).isLt

theorem seqDiff_eq (a b : Seq) :
    seqDiff a b = if ahead b a < 32768 then (ahead b a : ℤ) else (ahead b a : ℤ) - 65536 := by
  rw [seqDiff, ahead, BitVec.toInt_eq_toNat_cond]
  split <;> split <;> first | rfl | omega

theorem serialLt_iff (a b : Seq) : SerialLt a b ↔ 1 ≤ ahead a b ∧ ahead a b ≤ 32768 := by
  rw [SerialLt, seqDiff_eq]
  unfold ahead
  constructor
  · intro h
    split at h <;> bv_omega
  · intro h
    split <;> bv_omega

theorem ahead_eq_zero (b x : Seq) : ahead b x = 0 ↔ x = b := by
  unfold ahead
  constructor <;> intro h <;> bv_omega

@[simp] theorem ahead_self (b : Seq) : ahead b b = 0 := (ahead_eq_zero b b).mpr rfl

variable {b : Seq}

/-- Moving the base over a number that is not `x` brings it one closer. -/
theorem ahead_succ {x : Seq} (h : x ≠ b) : ahead (b + 1) x + 1 = ahead b x := by
  unfold ahead
  bv_omega

theorem ahead_add (b : Seq) {n : ℕ} (h : n < 65536) : ahead b (b + BitVec.ofNat 16 n) = n := by
  unfold ahead
  bv_omega

variable {a : Seq}

theorem ahead_add_ahead (h : a ≠ b) : ahead a b + ahead b a = 65536 := by
  unfold ahead
  bv_omega

/-- Distances add up as long as they stay below a full circle. -/
theorem ahead_trans {c : Seq} (h : ahead a b + ahead b c < 65536) :
    ahead a c = ahead a b + ahead b c := by
  unfold ahead at *
  bv_omega

theorem ahead_of_le {c : Seq} (h : ahead a b ≤ ahead a c) : ahead b c = ahead a c - ahead a b := by
  unfold ahead at *
  bv_omega

theorem eq_of_seqDiff_succ {e : Seq} (h : 0 < seqDiff (b + 1) e) (h' : ¬ 0 < seqDiff b e) :
    b = e := by
  rw [seqDiff_eq] at h h'
  unfold ahead at h h'
  split at h <;> split at h' <;> bv_omega

theorem ahead_succ_right (h : ahead a b < 65535) : ahead a (b + 1) = ahead a b + 1 := by
  unfold ahead at *
  bv_omega

theorem ahead_inj {x y : Seq} (h : ahead b x = ahead b y) : x = y := by
  unfold ahead at h
  bv_omega

theorem seqDiff_eq_zero (a b : Seq) : seqDiff a b = 0 ↔ a = b := by
  rw [seqDiff_eq, ← ahead_eq_zero b a]
  have := ahead_lt b a
  split <;> omega

theorem seqDiff_pos (h : 0 < seqDiff a b) :
    seqDiff a b = (ahead b a : ℤ) ∧ 0 < ahead b a ∧ ahead b a < 32768 := by
  rw [seqDiff_eq] at h ⊢
  have := ahead_lt b a
  split at h
  · omega
  · omega

/-- One of two numbers lies less than `W` ahead of the other. -/
def Close (W : ℕ) (a b : Seq) : Prop := ahead a b < W ∨ ahead b a < W
  deriving Decidable

/-- A number close to the base and not before it lies within reach of it. -/
theorem Close.ahead_lt {W : ℕ} {q : Seq} (h : Close W b q) (hW : W ≤ 8192) (hq : 0 ≤ seqDiff q b) :
    ahead b q < W := by
  have hlt : ahead b q < 32768 := by
    rw [seqDiff_eq] at hq
    have := Serial.ahead_lt b q
    split at hq <;> omega
  rcases h with h | h
  · exact h
  · unfold ahead at *
    bv_omega

/-- With the base moved back to a close number, what was within reach of the base and is
    close to that number is within its reach. -/
theorem Close.ahead_lt_of_before {W : ℕ} {p q : Seq} (hb : Close W b q) (hp : Close W p q)
    (hW : W ≤ 8192) (hq : SerialLt q b) (hbp : ahead b p < W) : ahead q p < W := by
  have hqb := (serialLt_iff q b).mp hq
  rcases hp with hp | hp
  · rcases hb with hb | hb
    · unfold ahead at *
      bv_omega
    · unfold ahead at *
      bv_omega
  · exact hp

/-! ## Rings -/

/-- A table of `2 ^ bits` places for serial numbers: at least 8, and at most an eighth of all
    numbers. -/
structure Ring where
  bits : ℕ
  bits_ge : 3 ≤ bits
  bits_le : bits ≤ 13

namespace Ring

def size (w : Ring) : ℕ := 2 ^ w.bits

def mask (w : Ring) : Seq := BitVec.ofNat 16 (w.size - 1)

/-- `seq & mask`. -/
def slot (w : Ring) (x : Seq) : ℕ := (x &&& w.mask).toNat

variable (w : Ring)

theorem eight_le_size : 8 ≤ w.size :=
  calc 8 = 2 ^ 3 := rfl
    _ ≤ 2 ^ w.bits := Nat.pow_le_pow_right (by decide) w.bits_ge

theorem size_le : w.size ≤ 8192 :=
  calc 2 ^ w.bits ≤ 2 ^ 13 := Nat.pow_le_pow_right (by decide) w.bits_le
    _ = 8192 := rfl

theorem size_dvd : w.size ∣ 65536 := pow_dvd_pow 2 (w.bits_le.trans (by decide : 13 ≤ 16))

theorem slot_eq_mod (x : Seq) : w.slot x = x.toNat % w.size := by
  have hle := w.size_le
  rw [slot, BitVec.toNat_and, mask, BitVec.toNat_ofNat, Nat.mod_eq_of_lt (by omega), size,
    Nat.and_two_pow_sub_one_eq_mod]

theorem slot_lt (x : Seq) : w.slot x < w.size := by
  rw [slot_eq_mod]
  exact Nat.mod_lt _ (by have := w.eight_le_size; omega)

/-- The place of `x` depends only on the base's place and the distance. -/
theorem slot_eq_ahead (b x : Seq) : w.slot x = (b.toNat + ahead b x) % w.size := by
  have h : x.toNat = (b.toNat + ahead b x) % 65536 := by
    unfold ahead
    bv_omega
  rw [slot_eq_mod, h, Nat.mod_mod_of_dvd _ w.size_dvd]

variable {b x : Seq}

/-- Numbers in one place lie a multiple of the ring's size apart. -/
theorem ahead_mod_of_slot_eq (h : w.slot x = w.slot b) : ahead b x % w.size = 0 := by
  rw [slot_eq_ahead w b x, slot_eq_mod] at h
  have hmod : b.toNat + ahead b x ≡ b.toNat + 0 [MOD w.size] := h
  have := Nat.ModEq.add_left_cancel' b.toNat hmod
  rwa [Nat.ModEq, Nat.zero_mod] at this

theorem slot_of_ahead_size (h : ahead x b = w.size) : w.slot b = w.slot x := by
  rw [slot_eq_ahead w x b, h, Nat.add_mod_right, slot_eq_mod]

theorem slot_inj {y : Seq} (hx : ahead b x < w.size) (hy : ahead b y < w.size)
    (h : w.slot x = w.slot y) : x = y := by
  rw [slot_eq_ahead w b x, slot_eq_ahead w b y] at h
  have := Nat.ModEq.add_left_cancel' b.toNat h
  rw [Nat.ModEq, Nat.mod_eq_of_lt hx, Nat.mod_eq_of_lt hy] at this
  exact ahead_inj this

end Ring

end Apackage.Lib.Serial
