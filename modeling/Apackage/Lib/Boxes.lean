import Mathlib.Data.List.Basic
import Apackage.Lib.Region

/-
  Boxes: a size of 32 bits, a type of four bytes and a payload, one box behind the other.

  `readBoxes` reads a row of boxes up to its end. It reads what `encode` wrote as long as no box
  has 2^32 bytes (`readBoxes_encode`). `cut` cuts bytes into pieces of the given sizes.
-/

namespace Apackage.Lib.Boxes

open List Option Lib.Region

structure Box where
  type : List UInt8
  payload : List UInt8

namespace Box

def size (b : Box) : ℕ := 8 + b.payload.length

def encode (b : Box) : List UInt8 := bytesOf 4 b.size ++ (b.type ++ b.payload)

/-- A type of four bytes, and a size that fits its field. -/
def Fits (b : Box) : Prop := b.type.length = 4 ∧ b.size < 256 ^ 4

theorem length_encode {b : Box} (h : b.type.length = 4) : b.encode.length = b.size := by
  rw [encode, length_append, length_append, length_bytesOf, h, size]
  omega

end Box

/-- The first box and what follows it. -/
def readBox (data : List UInt8) : Option (Box × List UInt8) := do
  let size ← loadNat data 0 4
  let type ← load data 4 4
  let payload ← if 8 ≤ size then load data 8 (size - 8) else none
  return (⟨type, payload⟩, data.drop size)

/-- A row of boxes; the number bounds how many there are. -/
def readBoxes : ℕ → List UInt8 → Option (List Box)
  | 0, data => if data = [] then some [] else none
  | n + 1, data =>
    if data = [] then some []
    else (readBox data).bind fun r => (readBoxes n r.2).map (r.1 :: ·)

theorem readBox_encode {b : Box} (h : b.Fits) (rest : List UInt8) :
    readBox (b.encode ++ rest) = some (b, rest) := by
  obtain ⟨htype, hsize⟩ := h
  have hlength := loadNat_behind [] (b.type ++ b.payload ++ rest) hsize
  have htypes := load_behind (bytesOf 4 b.size) b.type (b.payload ++ rest)
  have hpayload := load_behind (bytesOf 4 b.size ++ b.type) b.payload rest
  rw [length_bytesOf, htype] at htypes
  rw [length_append, length_bytesOf, htype] at hpayload
  have hdata : b.encode ++ rest = bytesOf 4 b.size ++ (b.type ++ (b.payload ++ rest)) := by
    rw [Box.encode, append_assoc, append_assoc]
  have hrest : (b.encode ++ rest).drop b.size = rest := by rw [← Box.length_encode htype, drop_left]
  rw [nil_append, append_assoc, length_nil, ← hdata] at hlength
  rw [← hdata] at htypes
  rw [append_assoc, ← hdata, show 4 + 4 = 8 from rfl] at hpayload
  have hminus : b.size - 8 = b.payload.length := Nat.add_sub_cancel_left 8 b.payload.length
  rw [readBox, hlength, htypes]
  simp only [bind_eq_bind, bind_some]
  rw [if_pos (show 8 ≤ b.size from Nat.le_add_right 8 b.payload.length), hminus, hpayload, hrest]
  rfl

variable {boxes : List Box}

theorem readBoxes_encode (h : ∀ b ∈ boxes, b.Fits) {n : ℕ} (hn : boxes.length ≤ n) :
    readBoxes n (boxes.flatMap Box.encode) = some boxes := by
  induction boxes generalizing n with
  | nil =>
    cases n with
    | zero => rfl
    | succ n => rfl
  | cons b boxes ih =>
    cases n with
    | zero => cases hn
    | succ n =>
      have hb := h b mem_cons_self
      have hne : b.encode ++ boxes.flatMap Box.encode ≠ [] := by
        refine ne_nil_of_length_pos ?_
        rw [length_append, Box.length_encode hb.1, Box.size]
        omega
      have hrest := ih (fun b' hb' => h b' (mem_cons_of_mem b hb')) (Nat.le_of_succ_le_succ hn)
      rw [flatMap_cons, readBoxes, if_neg hne, readBox_encode hb, bind_some, hrest, map_some]

theorem readBoxes_all (h : ∀ b ∈ boxes, b.Fits) :
    readBoxes (boxes.flatMap Box.encode).length (boxes.flatMap Box.encode) = some boxes := by
  refine readBoxes_encode h ?_
  induction boxes with
  | nil => exact Nat.zero_le _
  | cons b boxes ih =>
    have hrest := ih fun b' hb' => h b' (mem_cons_of_mem b hb')
    rw [flatMap_cons, length_append, Box.length_encode (h b mem_cons_self).1, Box.size, length_cons]
    omega

theorem size_lt_of_readBox {data rest : List UInt8} {b : Box}
    (h : readBox data = some (b, rest)) : b.size < 256 ^ 4 := by
  rw [readBox] at h
  simp only [bind_eq_bind, bind_eq_some_iff] at h
  obtain ⟨size, hsize, type, -, hrest⟩ := h
  split_ifs at hrest with hhead
  · obtain ⟨payload, hpayload, hbox⟩ := bind_eq_some_iff.1 hrest
    obtain ⟨rfl, -⟩ := Prod.mk.inj (some.inj hbox)
    have hlength := length_load hpayload
    have hlt := loadNat_lt hsize
    show 8 + payload.length < 256 ^ 4
    omega
  · tauto

theorem size_lt_of_readBoxes {n : ℕ} {data : List UInt8} (h : readBoxes n data = some boxes) :
    ∀ b ∈ boxes, b.size < 256 ^ 4 := by
  induction n generalizing data boxes with
  | zero =>
    rw [readBoxes] at h
    split_ifs at h
    obtain rfl := some.inj h
    exact fun b hb => absurd hb not_mem_nil
  | succ n ih =>
    rw [readBoxes] at h
    split_ifs at h
    · obtain rfl := some.inj h
      exact fun b hb => absurd hb not_mem_nil
    · obtain ⟨⟨first, rest⟩, hfirst, hrest⟩ := bind_eq_some_iff.1 h
      obtain ⟨others, hothers, rfl⟩ := map_eq_some_iff.1 hrest
      exact forall_mem_cons.2 ⟨size_lt_of_readBox hfirst, ih hothers⟩

/-! ## Pieces -/

def cut {α : Type*} : List ℕ → List α → List (List α)
  | [], _ => []
  | n :: sizes, data => data.take n :: cut sizes (data.drop n)

theorem cut_flatten {α : Type*} (pieces : List (List α)) :
    cut (pieces.map List.length) pieces.flatten = pieces := by
  induction pieces with
  | nil => rfl
  | cons piece pieces ih => rw [map_cons, flatten_cons, cut, take_left, drop_left, ih]

theorem flatten_cut {α : Type*} {sizes : List ℕ} {data : List α} (h : sizes.sum = data.length) :
    (cut sizes data).flatten = data := by
  induction sizes generalizing data with
  | nil => exact (eq_nil_of_length_eq_zero h.symm).symm
  | cons n sizes ih =>
    rw [sum_cons] at h
    rw [cut, flatten_cons, ih (by rw [length_drop]; omega), take_append_drop]

end Apackage.Lib.Boxes
