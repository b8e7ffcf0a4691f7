import Mathlib.Algebra.Ring.Nat
import Mathlib.Data.List.Basic
import Mathlib.Data.Int.Basic
import Mathlib.Order.Basic

/-
  Views of a buffer.

  A view is a stretch of a buffer that it shares with other views; it carries the proof that it lies
  inside. `subarray` is a view of a view between two indices: an index below zero counts from the
  end, and one outside is moved to the nearest end. `assembled` copies views one behind the other
  into an array of a given size.
-/

namespace Apackage.Lib

open List

/-- A view of `size` elements of a buffer from `start` on. -/
structure ArrayView (α : Type*) where
  buffer : List α
  start : ℕ
  size : ℕ
  within : start + size ≤ buffer.length

namespace ArrayView

variable {α : Type*}

/-- The view of a whole buffer. -/
def whole (buffer : List α) : ArrayView α := ⟨buffer, 0, buffer.length, by rw [Nat.zero_add]⟩

def toList (v : ArrayView α) : List α := (v.buffer.drop v.start).take v.size

/-- The element at an index, none behind the end. -/
def get? (v : ArrayView α) (i : ℕ) : Option α := v.toList[i]?

/-- Where an index into `size` elements comes to lie. -/
def clamp (size : ℕ) (i : ℤ) : ℕ :=
  if i < 0 then (size + i).toNat else min i.toNat size

theorem clamp_le (size : ℕ) (i : ℤ) : clamp size i ≤ size := by
  unfold clamp
  split <;> omega

theorem clamp_of_le {size i : ℕ} (h : i ≤ size) : clamp size i = i := by
  unfold clamp
  rw [if_neg (by omega)]
  omega

theorem clamp_natCast (size i : ℕ) : clamp size i = min i size := by
  unfold clamp
  rw [if_neg (by omega), Int.toNat_natCast]

/-- The view between two indices of a view; empty if the second is not behind the first. -/
def subarray (v : ArrayView α) (start stop : ℤ) : ArrayView α where
  buffer := v.buffer
  start := v.start + clamp v.size start
  size := clamp v.size stop - clamp v.size start
  within := by
    have hstart := clamp_le v.size start
    have hstop := clamp_le v.size stop
    have hwithin := v.within
    omega

variable (v : ArrayView α)

@[simp] theorem length_toList : v.toList.length = v.size := by
  have hwithin := v.within
  rw [toList, length_take, length_drop]
  omega

@[simp] theorem toList_whole (buffer : List α) : (whole buffer).toList = buffer := by
  rw [toList, whole, drop_zero, take_length]

theorem toList_subarray (start stop : ℤ) : (v.subarray start stop).toList =
      (v.toList.drop (clamp v.size start)).take (clamp v.size stop - clamp v.size start) := by
  have hstop := clamp_le v.size stop
  rw [toList, toList, drop_take, drop_drop, take_take]
  congr 1
  show clamp v.size stop - clamp v.size start =
    min (clamp v.size stop - clamp v.size start) (v.size - clamp v.size start)
  omega

theorem toList_subarray_of_le {start stop : ℕ} (h : stop ≤ v.size) (hle : start ≤ stop) :
    (v.subarray start stop).toList = (v.toList.drop start).take (stop - start) := by
  rw [toList_subarray, clamp_of_le h, clamp_of_le (hle.trans h)]

theorem get?_eq_none_iff {v : ArrayView α} {i : ℕ} : v.get? i = none ↔ v.size ≤ i := by
  rw [get?, List.getElem?_eq_none_iff, length_toList]

/-! ## Copying -/

/-- `set`: the elements written over an array from an index on. -/
def setAt (data : List α) (offset : ℕ) (items : List α) : List α :=
  data.take offset ++ items ++ data.drop (offset + items.length)

/-- The views copied one behind the other over an array, from an index on. -/
def copyFrom (data : List α) (offset : ℕ) : List (ArrayView α) → List α
  | [] => data
  | v :: views => copyFrom (setAt data offset v.toList) (offset + v.size) views

/-- The views copied into a new array of `size` elements, which holds `a` everywhere. -/
def assembled (a : α) (size : ℕ) (views : List (ArrayView α)) : List α :=
  copyFrom (List.replicate size a) 0 views

theorem copyFrom_append (done rest : List α) (views : List (ArrayView α))
    (h : rest.length = (views.map size).sum) :
    copyFrom (done ++ rest) done.length views = done ++ (views.map toList).flatten := by
  induction views generalizing done rest with
  | nil =>
    rw [length_eq_zero_iff.mp h]
    rfl
  | cons v views ih =>
    rw [map_cons, sum_cons] at h
    have hset : setAt (done ++ rest) done.length v.toList =
        (done ++ v.toList) ++ rest.drop v.size := by
      rw [setAt, take_left, length_toList, drop_length_add_append]
    have hnext := ih (done ++ v.toList) (rest.drop v.size) (by rw [length_drop]; omega)
    rw [length_append, length_toList] at hnext
    rw [copyFrom, hset, hnext, append_assoc, map_cons, flatten_cons]

theorem assembled_eq_flatten (a : α) {n : ℕ} {views : List (ArrayView α)}
    (h : n = (views.map size).sum) : assembled a n views = (views.map toList).flatten :=
  copyFrom_append [] (List.replicate n a) views (by rw [length_replicate, h])

end ArrayView

end Apackage.Lib
