import Mathlib.Computability.Language

/-
  Languages of sequences of letter classes, each with a quantifier behind it.

  A class is the letters `c` with `S c`. A word of a sequence is split at its head by `mem_cons`,
  and larger classes have more words (`lang_mono`).
-/

namespace Apackage.Lib.Letters

open List Computability

variable {α : Type*}

/-- The words of one letter from the class. -/
def letters (S : α → Bool) : Language α := {w | ∃ c, S c = true ∧ w = [c]}

inductive Quantifier
  | one | star | plus | ques
  deriving DecidableEq

/-- The words of a class with its quantifier. -/
def Quantifier.lang (q : Quantifier) (S : α → Bool) : Language α :=
  match q with
  | .one => letters S
  | .star => (letters S)∗
  | .plus => letters S * (letters S)∗
  | .ques => 1 + letters S

/-- The words of a sequence. -/
def lang (xs : List ((α → Bool) × Quantifier)) : Language α := (xs.map fun x => x.2.lang x.1).prod

variable {w : List α} {S : α → Bool}

theorem mem_letters_kstar : w ∈ (letters S)∗ ↔ ∀ c ∈ w, S c = true := by
  rw [Language.mem_kstar]
  constructor
  · rintro ⟨words, rfl, hwords⟩ c hc
    obtain ⟨word, hword, hc⟩ := mem_flatten.1 hc
    obtain ⟨d, hd, rfl⟩ := hwords word hword
    rw [mem_singleton.1 hc]
    exact hd
  · intro h
    refine ⟨w.map fun c => [c], ?_, ?_⟩
    · rw [← flatMap_def, flatMap_singleton']
    · intro word hword
      obtain ⟨c, hc, rfl⟩ := List.mem_map.1 hword
      exact ⟨c, h c hc, rfl⟩

theorem mem_plus : w ∈ Quantifier.plus.lang S ↔ w ≠ [] ∧ ∀ c ∈ w, S c = true := by
  refine Language.mem_mul.trans ⟨?_, ?_⟩
  · rintro ⟨_, ⟨c, hc, rfl⟩, rest, hrest, rfl⟩
    refine ⟨cons_ne_nil c rest, forall_mem_cons.2 ⟨hc, mem_letters_kstar.1 hrest⟩⟩
  · rintro ⟨hne, h⟩
    obtain ⟨c, rest, rfl⟩ := exists_cons_of_ne_nil hne
    obtain ⟨hc, hrest⟩ := forall_mem_cons.1 h
    exact ⟨[c], ⟨c, hc, rfl⟩, rest, mem_letters_kstar.2 hrest, rfl⟩

@[simp] theorem mem_nil : w ∈ lang ([] : List ((α → Bool) × Quantifier)) ↔ w = [] :=
  Language.mem_one w

theorem mem_cons {q : Quantifier} {xs : List ((α → Bool) × Quantifier)} :
    w ∈ lang ((S, q) :: xs) ↔ ∃ a ∈ q.lang S, ∃ b ∈ lang xs, a ++ b = w := by
  rw [lang, map_cons, prod_cons]
  exact Language.mem_mul

theorem Quantifier.lang_mono {q : Quantifier} {S T : α → Bool} (h : ∀ c, S c = true → T c = true)
    (hw : w ∈ q.lang S) : w ∈ q.lang T := by
  have hall {w : List α} (hw : ∀ c ∈ w, S c = true) : ∀ c ∈ w, T c = true :=
    fun c hc => h c (hw c hc)
  cases q with
  | one =>
    obtain ⟨c, hc, rfl⟩ := hw
    exact ⟨c, h c hc, rfl⟩
  | star => exact mem_letters_kstar.2 (hall (mem_letters_kstar.1 hw))
  | plus =>
    obtain ⟨hne, hw⟩ := mem_plus.1 hw
    exact mem_plus.2 ⟨hne, hall hw⟩
  | ques =>
    obtain hnil | ⟨c, hc, rfl⟩ := (Language.mem_add _ _ _).1 hw
    · exact (Language.mem_add _ _ _).2 (.inl hnil)
    · exact (Language.mem_add _ _ _).2 (.inr ⟨c, h c hc, rfl⟩)

theorem lang_mono {xs ys : List ((α → Bool) × Quantifier)}
    (h : List.Forall₂ (fun x y => x.2 = y.2 ∧ ∀ c, x.1 c = true → y.1 c = true) xs ys)
    (hw : w ∈ lang xs) : w ∈ lang ys := by
  induction h generalizing w with
  | nil => exact hw
  | cons hxy _ ih =>
    obtain ⟨a, ha, b, hb, rfl⟩ := mem_cons.1 hw
    refine mem_cons.2 ⟨a, ?_, b, ih hb, rfl⟩
    rw [← hxy.1]
    exact Quantifier.lang_mono hxy.2 ha

end Apackage.Lib.Letters
