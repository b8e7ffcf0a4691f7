import Mathlib.Logic.Basic

/-
  Programs that may fail, as values of `Option`.

  `Yields x P` says that `x` does not fail and that its result satisfies `P`. There is one rule for
  each way to put programs together; `Yields.foldlM` is the rule for a loop over a list, with an
  invariant.
-/

namespace Apackage.Lib

open List

universe u

def Yields {α : Type u} (x : Option α) (P : α → Prop) : Prop := ∃ a, x = some a ∧ P a

namespace Yields

variable {α β : Type u} {x : Option α} {P Q : α → Prop} {R : β → Prop}

theorem some {a : α} (h : P a) : Yields (.some a) P := ⟨a, rfl, h⟩

theorem mono (h : Yields x P) (hPQ : ∀ a, P a → Q a) : Yields x Q :=
  h.imp fun a ha => ⟨ha.1, hPQ a ha.2⟩

theorem bind {f : α → Option β} (h : Yields x P) (hf : ∀ a, P a → Yields (f a) R) :
    Yields (x >>= f) R := by
  obtain ⟨a, rfl, ha⟩ := h
  exact hf a ha

theorem map {f : α → β} (h : Yields x P) (hf : ∀ a, P a → R (f a)) : Yields (x.map f) R := by
  obtain ⟨a, rfl, ha⟩ := h
  exact ⟨f a, rfl, hf a ha⟩

theorem ite {p : Prop} [Decidable p] {y : Option α} (hx : p → Yields x P)
    (hy : ¬ p → Yields y P) : Yields (if p then x else y) P := by
  split
  · next h => exact hx h
  · next h => exact hy h

theorem foldlM {f : β → α → Option β} {l : List α} {b : β} (hb : R b)
    (hf : ∀ b, R b → ∀ a ∈ l, Yields (f b a) R) : Yields (l.foldlM f b) R := by
  induction l generalizing b with
  | nil => exact .some hb
  | cons a l ih =>
    rw [foldlM_cons]
    refine .bind (hf b hb a mem_cons_self) fun b' hb' => ih hb' fun c hc d hd => ?_
    exact hf c hc d (mem_cons_of_mem _ hd)

end Yields

end Apackage.Lib
