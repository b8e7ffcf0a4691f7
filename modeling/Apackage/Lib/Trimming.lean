import Mathlib.Data.List.DropRight

/-
  Texts without the letters of a kind at their ends, such as blanks.

  `trim p s` is what is left of `s`. A text that only adds such letters at the ends is trimmed to
  the same (`trim_append`), and trimming at an end stops at every other letter
  (`dropWhile_append_cons`, `rdropWhile_append_cons`).
-/

namespace Apackage.Lib.Trimming

open List

variable {α : Type*} {p : α → Bool}

def trim (p : α → Bool) (s : List α) : List α := (s.dropWhile p).rdropWhile p

theorem dropWhile_append_of_all {pre : List α} (h : ∀ a ∈ pre, p a = true) (s : List α) :
    (pre ++ s).dropWhile p = s.dropWhile p := dropWhile_append_of_pos h

theorem rdropWhile_append_of_all {post : List α} (h : ∀ a ∈ post, p a = true) (s : List α) :
    (s ++ post).rdropWhile p = s.rdropWhile p := by
  unfold List.rdropWhile
  rw [reverse_append, dropWhile_append_of_all fun a ha => h a (mem_reverse.1 ha)]

theorem dropWhile_append_cons {c : α} (hc : p c = false) (s t : List α) :
    (s ++ c :: t).dropWhile p = s.dropWhile p ++ c :: t := by
  induction s with
  | nil =>
    simp [*]
  | cons a s ih =>
    by_cases ha : p a = true
    · rw [cons_append, dropWhile_cons_of_pos ha, dropWhile_cons_of_pos ha, ih]
    · rw [cons_append, dropWhile_cons_of_neg ha, dropWhile_cons_of_neg ha, cons_append]

theorem rdropWhile_append_cons {c : α} (hc : p c = false) (s t : List α) :
    (s ++ c :: t).rdropWhile p = s ++ c :: t.rdropWhile p := by
  unfold List.rdropWhile
  rw [reverse_append, reverse_cons, append_assoc, singleton_append, dropWhile_append_cons hc]
  simp

theorem trim_append {pre post : List α} (hpre : ∀ a ∈ pre, p a = true)
    (hpost : ∀ a ∈ post, p a = true) (s : List α) : trim p (pre ++ (s ++ post)) = trim p s := by
  unfold trim
  rw [dropWhile_append_of_all hpre, dropWhile_append]
  split
  · next hempty => rw [List.isEmpty_iff.1 hempty, dropWhile_eq_nil_iff.2 hpost]
  · exact rdropWhile_append_of_all hpost _

theorem exists_trimmed (p : α → Bool) (s : List α) : ∃ pre post, s = pre ++ (trim p s ++ post) ∧
    (∀ a ∈ pre, p a = true) ∧ ∀ a ∈ post, p a = true := by
  refine ⟨s.takeWhile p, (s.dropWhile p).rtakeWhile p, ?_, fun a ha => ?_, fun a ha => ?_⟩
  · rw [trim, rdropWhile_append_rtakeWhile, takeWhile_append_dropWhile]
  · exact mem_takeWhile_imp ha
  · exact mem_rtakeWhile_imp ha

theorem trim_eq_nil_iff {s : List α} : trim p s = [] ↔ ∀ a ∈ s, p a = true := by
  constructor
  · intro h
    obtain ⟨pre, post, hs, hpre, hpost⟩ := exists_trimmed p s
    rw [h, nil_append] at hs
    rw [hs]
    exact forall_mem_append.2 ⟨hpre, hpost⟩
  · intro h
    rw [trim, dropWhile_eq_nil_iff.2 h, rdropWhile_nil]

/-- What is left does not end with a letter of the kind. -/
theorem eq_nil_of_trim_eq_append {s t post : List α} (h : trim p s = t ++ post)
    (hpost : ∀ a ∈ post, p a = true) : post = [] := by
  have hfix : (trim p s).rdropWhile p = trim p s := rdropWhile_idempotent p _
  rw [h, rdropWhile_append_of_all hpost] at hfix
  have hlen := (congrArg List.length hfix).symm
  have hle := ( rdropWhile_prefix p t).length_le
  rw [length_append] at hlen
  exact length_eq_zero_iff.1 (by omega)

end Apackage.Lib.Trimming
