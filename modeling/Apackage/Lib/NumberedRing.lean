import Mathlib.Data.List.Basic
import Mathlib.Data.Nat.ModEq

/-
  A ring of `n` slots that keeps the last `n` items of a growing list.

  Items are numbered from 1, and the item of number `k + 1` goes to the slot `k % n`. A slot knows
  the number of its item, and 0 says that it has none. Reading around the ring from the oldest slot
  gives the last items in order, and so does looking for consecutive numbers.
-/

namespace Apackage.Lib.NumberedRing

open List

variable {α : Type*}

structure Slot (α : Type*) where
  number : ℕ
  item : α

/-- The item of the given number, if its slot still has it. -/
def find (n : ℕ) (slots : List (Slot α)) (number : ℕ) : Option α :=
  (slots[(number - 1) % n]?).bind fun slot => if slot.number = number then some slot.item else none

/-- The slots around the ring, starting behind the item of the given number. -/
def contents (n : ℕ) (slots : List (Slot α)) (number : ℕ) : List α :=
  (List.range n).filterMap fun i =>
    (slots[(number + i) % n]?).bind fun slot => if slot.number = 0 then none else some slot.item

/-- The slots hold the last items of the list. -/
structure HoldsLast (n : ℕ) (items : List α) (slots : List (Slot α)) : Prop where
  size : slots.length = n
  last : ∀ k x, items[k]? = some x → items.length ≤ k + n → slots[k % n]? = some ⟨k + 1, x⟩
  free : ∀ i, items.length ≤ i → i < n → ∃ x, slots[i]? = some ⟨0, x⟩

section HoldsLast

variable {n : ℕ} {items : List α} {slots : List (Slot α)}

theorem HoldsLast.find (h : HoldsLast n items slots) {k : ℕ} {x : α} (hx : items[k]? = some x)
    (hk : items.length ≤ k + n) : find n slots (k + 1) = some x := by
  unfold NumberedRing.find
  rw [Nat.add_sub_cancel, h.last k x hx hk, Option.bind_some, if_pos rfl]

theorem keeps_nil (slots : List (Slot α)) (hfree : ∀ slot ∈ slots, slot.number = 0) :
    HoldsLast slots.length [] slots where
  size := rfl
  last k x hx := by cases hx
  free i _ hi := by
    refine ⟨slots[i].item, ?_⟩
    rw [getElem?_eq_getElem hi, ← hfree slots[i] (getElem_mem hi)]

section

variable (h : HoldsLast n items slots)

include h

theorem HoldsLast.put (hn : 0 < n) (x : α) :
    HoldsLast n (items ++ [x]) (slots.set (items.length % n) ⟨items.length + 1, x⟩) where
  size := by rw [length_set, h.size]
  last k y hy hk := by
    rw [length_append, length_singleton] at hk
    rcases Nat.lt_trichotomy k items.length with hlt | heq | hgt
    · rw [getElem?_append_left hlt] at hy
      have hne : items.length % n ≠ k % n := fun hmod => by
        have hdvd : n ∣ items.length - k := (Nat.modEq_iff_dvd' hlt.le).1 hmod.symm
        have := Nat.le_of_dvd (by omega) hdvd
        omega
      rw [getElem?_set_ne hne]
      exact h.last k y hy (by omega)
    · rw [heq, getElem?_concat_length] at hy
      cases hy
      rw [heq, getElem?_set_self (by rw [h.size]; exact Nat.mod_lt _ hn)]
    · rw [getElem?_eq_none (by rw [length_append, length_singleton]; omega)] at hy
      cases hy
  free i hi hin := by
    rw [length_append, length_singleton] at hi
    have hne : items.length % n ≠ i := by
      rw [Nat.mod_eq_of_lt (by omega)]
      omega
    rw [getElem?_set_ne hne]
    exact h.free i (by omega) hin

/-- Consecutive numbers are found from any item on that is among the last `n`. -/
theorem HoldsLast.lookup {first : ℕ} (hfirst : items.length ≤ first + n) :
    (List.range' (first + 1) (items.length - first)).filterMap (NumberedRing.find n slots) =
      items.drop first := by
  have hall : ∀ count first, items.length = first + count → items.length ≤ first + n →
      (List.range' (first + 1) count).filterMap (NumberedRing.find n slots) = items.drop first := by
    intro count
    induction count with
    | zero =>
      simp
    | succ count ih =>
      intro first hlen hlast
      have hlt : first < items.length := by omega
      have hget := getElem?_eq_getElem hlt
      rw [range'_succ, filterMap_cons_some (h.find hget hlast),
        ih (first + 1) (by omega) (by omega), ← drop_eq_getElem_cons hlt]
  rcases Nat.le_total first items.length with hle | hle
  · exact hall _ first (by omega) hfirst
  · simp [*]

/-- Around the ring come the free slots and then the last items, the oldest first. -/
theorem HoldsLast.contents (hn : 0 < n) :
    contents n slots items.length = items.drop (items.length - n) := by
  set kept := min items.length n
  have hsplit : List.range n = List.range (n - kept) ++ List.range' (n - kept) kept := by
    have hn : n = n - kept + kept := by omega
    have happend := range'_append_1 (s := 0) (m := n - kept) (n := kept)
    rw [Nat.zero_add, ← hn] at happend
    rw [range_eq_range', range_eq_range', happend]
  have hfree : (List.range (n - kept)).filterMap (fun i =>
      (slots[(items.length + i) % n]?).bind fun slot =>
        if slot.number = 0 then none else some slot.item) = [] := by
    rw [filterMap_eq_nil_iff]
    intro i hi
    rw [mem_range] at hi
    obtain ⟨x, hx⟩ := h.free (items.length + i) (by omega) (by omega)
    rw [Nat.mod_eq_of_lt (by omega), hx]
    rfl
  have hlast : (List.range' (n - kept) kept).filterMap (fun i =>
      (slots[(items.length + i) % n]?).bind fun slot =>
        if slot.number = 0 then none else some slot.item) =
      (List.range' (items.length - kept + 1) kept).filterMap (NumberedRing.find n slots) := by
    have hshift : List.range' (items.length - kept + 1) kept =
        (List.range' (n - kept) kept).map (fun i => items.length + i - n + 1) := by
      rw [range'_eq_map_range, range'_eq_map_range, List.map_map]
      refine map_congr_left fun i hi => ?_
      rw [mem_range] at hi
      show items.length - kept + 1 + i = items.length + (n - kept + i) - n + 1
      omega
    rw [hshift, filterMap_map]
    refine filterMap_congr fun i hi => ?_
    rw [mem_range'_1] at hi
    have hlt : items.length + i - n < items.length := by omega
    have hget := getElem?_eq_getElem hlt
    have hmod : (items.length + i) % n = (items.length + i - n) % n := by
      rw [Nat.mod_eq_sub_mod (by omega)]
    show ((slots[(items.length + i) % n]?).bind fun slot =>
      if slot.number = 0 then none else some slot.item) =
        NumberedRing.find n slots (items.length + i - n + 1)
    rw [h.find hget (by omega), hmod, h.last _ _ hget (by omega)]
    rfl
  unfold NumberedRing.contents
  rw [hsplit, filterMap_append, hfree, hlast, nil_append]
  have hfirst : items.length - n = items.length - kept := by omega
  have hcount : items.length - (items.length - kept) = kept := by omega
  rw [hfirst, ← h.lookup (by omega), hcount]

end

end HoldsLast

end Apackage.Lib.NumberedRing
