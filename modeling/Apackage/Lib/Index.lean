import Mathlib.Data.List.Nodup
import Mathlib.Logic.Function.Basic

/-
  A map that indexes a list by a key.

  `Indexes key val m l` says that the map `m` finds, under the key of each entry of `l`, the
  value of that entry, and nothing else. Adding an entry at the end of the list and to the map,
  and removing one with a key of its own from both, keep the index.
-/

namespace Apackage.Lib.Index

open Function List

variable {α κ β : Type*} {key : α → κ} {val : α → β} {m : κ → Option β} {l : List α}

def Indexes (key : α → κ) (val : α → β) (m : κ → Option β) (l : List α) : Prop :=
  ∀ k b, m k = some b ↔ ∃ a ∈ l, key a = k ∧ val a = b

theorem indexes_nil : Indexes key val (fun _ => none) [] := fun _ _ => by simp

variable [DecidableEq κ]

theorem Indexes.concat (h : Indexes key val m l) {a : α} (hnew : key a ∉ l.map key) :
    Indexes key val (Function.update m (key a) (some (val a))) (l ++ [a]) := by
  intro k b
  by_cases hk : k = key a
  · subst hk
    rw [update_self, Option.some.injEq]
    constructor
    · intro hb
      exact ⟨a, by simp, rfl, hb⟩
    · rintro ⟨c, hc, hkey, hval⟩
      rcases mem_append.1 hc with hc | hc
      · exact absurd (hkey ▸ List.mem_map_of_mem hc) hnew
      · rw [← hval, mem_singleton.1 hc]
  · rw [update_of_ne hk, h k b]
    constructor
    · rintro ⟨c, hc, hcb⟩
      exact ⟨c, mem_append_left _ hc, hcb⟩
    · rintro ⟨c, hc, hkey, hval⟩
      rcases mem_append.1 hc with hc | hc
      · exact ⟨c, hc, hkey, hval⟩
      · rw [mem_singleton.1 hc] at hkey
        exact absurd hkey.symm hk

theorem Indexes.erase {xs ys : List α} {a : α} (h : Indexes key val m (xs ++ a :: ys))
    (hkeys : ((xs ++ a :: ys).map key).Nodup) :
    Indexes key val (Function.update m (key a) none) (xs ++ ys) := by
  have hother : ∀ c ∈ xs ++ ys, key c ≠ key a := by
    grind
  have hmem : ∀ c, c ∈ xs ++ a :: ys ↔ c = a ∨ c ∈ xs ++ ys := fun c =>
    perm_middle.mem_iff.trans List.mem_cons
  intro k b
  by_cases hk : k = key a
  · grind
  · rw [update_of_ne hk, h k b]
    constructor
    · rintro ⟨c, hc, hkey, hval⟩
      rcases (hmem c).1 hc with rfl | hc
      · exact absurd hkey.symm hk
      · exact ⟨c, hc, hkey, hval⟩
    · rintro ⟨c, hc, hcb⟩
      exact ⟨c, (hmem c).2 (.inr hc), hcb⟩

end Apackage.Lib.Index
