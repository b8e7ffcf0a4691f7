import Mathlib.Data.Finset.Card
import Mathlib.Data.List.Nodup

/-
  A hash table of chains: a key is put in front of its chain, and the first node with a key is taken
  out of it.

  `Placed hash n t` says that each key of the table `t` is in the chain of its hash, and that there
  are `n` chains. What a table holds is then the set `keys`: adding a key inserts it, and removing
  the one node of a key erases it. While no chain has a key twice, there are as many nodes as keys.
-/

namespace Apackage.Lib.HashChain

open Function List

variable {κ : Type*}

/-- The chains of a table. -/
abbrev Chains (κ : Type*) := ℕ → List κ

def Chains.add (i : ℕ) (k : κ) (t : Chains κ) : Chains κ := Function.update t i (k :: t i)

/-- Empties the first `n` chains. -/
def Chains.flush (n : ℕ) (t : Chains κ) : Chains κ := fun i => if i < n then [] else t i

/-- Each key is in the chain of its hash, one of the first `n`. -/
def Placed (hash : κ → ℕ) (n : ℕ) (t : Chains κ) : Prop := ∀ i, ∀ k ∈ t i, hash k = i ∧ i < n

/-- The nodes of the first `n` chains. -/
def nodes (n : ℕ) (t : Chains κ) : List κ := (List.range n).flatMap t

variable {hash : κ → ℕ} {n : ℕ} {t : Chains κ} {k : κ}

theorem placed_empty : Placed hash n (fun _ => [] : Chains κ) := fun _ _ h => (nomatch h)

theorem Placed.add (h : Placed hash n t) (hk : hash k < n) : Placed hash n (t.add (hash k) k) := by
  intro i x hx
  by_cases hi : i = hash k
  · subst hi
    rw [Chains.add, update_self] at hx
    rcases List.mem_cons.1 hx with rfl | hx
    · exact ⟨rfl, hk⟩
    · exact h _ x hx
  · rw [Chains.add, update_of_ne hi] at hx
    exact h i x hx

theorem Placed.flush (h : Placed hash n t) : t.flush n = fun _ => [] := by
  funext i
  unfold Chains.flush
  split
  · rfl
  · rename_i hi
    exact eq_nil_iff_forall_not_mem.2 fun x hx => hi (h i x hx).2

theorem Placed.nodup_nodes (h : Placed hash n t) (hn : ∀ i, (t i).Nodup) : (nodes n t).Nodup := by
  refine nodup_flatMap.2 ⟨fun i _ => hn i, nodup_range.imp fun hne x hx hy => hne ?_⟩
  exact (h _ x hx).1.symm.trans (h _ x hy).1

theorem nodup_add {i : ℕ} (hn : ∀ i, (t i).Nodup) (hk : k ∉ t i) (j : ℕ) :
    ((t.add i k) j).Nodup := by
  unfold Chains.add
  by_cases hj : j = i
  · simp [*]
  · rw [update_of_ne hj]
    exact hn j

variable [DecidableEq κ]

def Chains.remove (i : ℕ) (k : κ) (t : Chains κ) : Chains κ := Function.update t i ((t i).erase k)

/-- The keys of the first `n` chains. -/
def keys (n : ℕ) (t : Chains κ) : Finset κ := (nodes n t).toFinset

theorem mem_keys {x : κ} : x ∈ keys n t ↔ ∃ i < n, x ∈ t i := by
  unfold keys nodes
  rw [List.mem_toFinset, mem_flatMap]
  simp only [mem_range]

theorem Placed.length_nodes (h : Placed hash n t) (hn : ∀ i, (t i).Nodup) :
    (nodes n t).length = (keys n t).card :=
  (toFinset_card_of_nodup (h.nodup_nodes hn)).symm

theorem nodup_remove {i : ℕ} (hn : ∀ i, (t i).Nodup) (k : κ) (j : ℕ) :
    ((t.remove i k) j).Nodup := by
  unfold Chains.remove
  by_cases hj : j = i
  · subst hj
    rw [update_self]
    exact (hn j).erase k
  · rw [update_of_ne hj]
    exact hn j

theorem Placed.remove (h : Placed hash n t) (k : κ) : Placed hash n (t.remove (hash k) k) := by
  intro i x hx
  by_cases hi : i = hash k
  · subst hi
    rw [Chains.remove, update_self] at hx
    exact h _ x (mem_of_mem_erase hx)
  · rw [Chains.remove, update_of_ne hi] at hx
    exact h i x hx

theorem Placed.mem_keys (h : Placed hash n t) : k ∈ keys n t ↔ k ∈ t (hash k) := by
  rw [HashChain.mem_keys]
  constructor
  · rintro ⟨i, -, hk⟩
    rwa [(h i k hk).1]
  · exact fun hk => ⟨hash k, (h _ k hk).2, hk⟩

theorem keys_empty : keys n (fun _ => [] : Chains κ) = ∅ := by
  ext x
  simp [mem_keys]

theorem keys_eq_empty : keys n t = ∅ ↔ ∀ i < n, t i = [] := by
  simp only [Finset.eq_empty_iff_forall_notMem, mem_keys, not_exists, not_and,
    eq_nil_iff_forall_not_mem]
  exact ⟨fun h i hi x hx => h x i hi hx, fun h x i hi hx => h i hi x hx⟩

theorem Placed.keys_add (h : Placed hash n t) (hk : hash k < n) :
    keys n (t.add (hash k) k) = insert k (keys n t) := by
  ext x
  rw [(h.add hk).mem_keys, Finset.mem_insert, h.mem_keys]
  by_cases hx : hash x = hash k
  · rw [hx, Chains.add, update_self, List.mem_cons]
  · rw [Chains.add, update_of_ne hx]
    exact ⟨.inr, fun hm => hm.resolve_left fun he => hx (he ▸ rfl)⟩

theorem Placed.keys_remove (h : Placed hash n t) (hone : (t (hash k)).count k ≤ 1) :
    keys n (t.remove (hash k) k) = (keys n t).erase k := by
  ext x
  rw [(h.remove k).mem_keys, Finset.mem_erase, h.mem_keys]
  by_cases hx : hash x = hash k
  · rw [hx, Chains.remove, update_self]
    by_cases he : x = k
    · subst he
      refine iff_of_false (fun hm => ?_) fun hm => hm.1 rfl
      have := count_pos_iff.2 hm
      rw [count_erase_self] at this
      omega
    · simp [*]
  · rw [Chains.remove, update_of_ne hx]
    exact ⟨fun hm => ⟨fun he => hx (he ▸ rfl), hm⟩, And.right⟩

end Apackage.Lib.HashChain
