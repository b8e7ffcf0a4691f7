import Mathlib.Data.List.Infix

/-
  Replacing a separator in a text.

  `Replaced sep by text out`: the text is cut at every occurrence of the separator, and `out` is the
  pieces with the other text between them. Where the separator starts with an element that it has
  nowhere else, the result is read off from the start of the text (`replaced_of_prefix`,
  `replaced_cons`).
-/

namespace Apackage.Lib.Replacement

open List

variable {α : Type*}

/-- `out` is the text with each `sep` as `new`. -/
def Replaced (sep new text out : List α) : Prop :=
  ∃ pieces : List (List α), pieces ≠ [] ∧ (∀ p ∈ pieces, ¬ sep <:+: p) ∧
    text = sep.intercalate pieces ∧ out = new.intercalate pieces

theorem intercalate_cons (sep p : List α) (ps : List (List α)) :
    sep.intercalate (p :: ps) = p ++ if ps = [] then [] else sep ++ sep.intercalate ps := by
  cases ps with
  | nil => simp
  | cons q ps => simp [List.intercalate, List.intersperse]

section

variable {a : α} {tail new text out : List α} (ha : a ∉ tail)

theorem replaced_nil : Replaced (a :: tail) new [] out ↔ out = [] := by
  constructor
  · rintro ⟨pieces, hne, hpieces, htext, rfl⟩
    obtain ⟨p, ps, rfl⟩ := exists_cons_of_ne_nil hne
    rw [intercalate_cons] at htext
    obtain ⟨rfl, hrest⟩ := append_eq_nil_iff.mp htext.symm
    by_cases hps : ps = []
    · rw [hps, intercalate_cons, if_pos rfl]
      rfl
    · rw [if_neg hps] at hrest
      cases hrest
  · rintro rfl
    refine ⟨[[]], by simp, ?_, by simp, by simp⟩
    rintro p hp h
    obtain rfl := mem_singleton.mp hp
    exact cons_ne_nil a tail (eq_nil_of_infix_nil h)

include ha

theorem not_prefix_of_piece {c : α} {p : List α} (hp : ¬ a :: tail <:+: c :: p) (ps : List α)
    (hps : ps = [] ∨ ∃ rest, ps = a :: tail ++ rest) : ¬ a :: tail <+: c :: p ++ ps := by
  intro h
  by_cases hle : (a :: tail).length ≤ (c :: p).length
  · exact hp (prefix_of_prefix_length_le h (prefix_append _ _) hle).isInfix
  · obtain rfl | ⟨rest, rfl⟩ := hps
    · exact hle (by simpa using h.length_le)
    · -- the separator behind the piece would start within this one
      have hat : (a :: tail)[(c :: p).length]? = some a := by
        obtain ⟨t, ht⟩ := h
        have hstart : (a :: tail ++ t)[(c :: p).length]? = (a :: tail)[(c :: p).length]? :=
          getElem?_append_left (by omega)
        rw [← hstart, ht, getElem?_append_right (le_refl _), Nat.sub_self]
        rfl
      rw [length_cons, getElem?_cons_succ] at hat
      exact ha (mem_of_getElem? hat)

omit ha in
theorem behind_piece (ps : List (List α)) :
    (if ps = [] then [] else a :: tail ++ (a :: tail).intercalate ps) = [] ∨
      ∃ rest, (if ps = [] then [] else a :: tail ++ (a :: tail).intercalate ps) =
        a :: tail ++ rest := by
  by_cases hps : ps = []
  · exact .inl (if_pos hps)
  · exact .inr ⟨_, if_neg hps⟩

theorem replaced_of_prefix : Replaced (a :: tail) new (a :: tail ++ text) out ↔
      ∃ out', out = new ++ out' ∧ Replaced (a :: tail) new text out' := by
  constructor
  · rintro ⟨pieces, hne, hpieces, htext, rfl⟩
    obtain ⟨p, ps, rfl⟩ := exists_cons_of_ne_nil hne
    rw [intercalate_cons] at htext
    cases p with
    | cons c p =>
      refine absurd ?_ (not_prefix_of_piece ha (hpieces _ mem_cons_self) _ (behind_piece ps))
      rw [← htext]
      exact prefix_append _ _
    | nil =>
      by_cases hps : ps = []
      · rw [if_pos hps] at htext
        cases htext
      · rw [if_neg hps, nil_append] at htext
        refine ⟨new.intercalate ps, ?_, ps, hps, fun q hq => hpieces q (mem_cons_of_mem _ hq),
          append_cancel_left htext, rfl⟩
        rw [intercalate_cons, if_neg hps, nil_append]
  · rintro ⟨_, rfl, pieces, hne, hpieces, rfl, rfl⟩
    refine ⟨[] :: pieces, cons_ne_nil _ _, ?_, ?_, ?_⟩
    · rintro p hp h
      obtain rfl | hp := List.mem_cons.mp hp
      · exact cons_ne_nil a tail (eq_nil_of_infix_nil h)
      · exact hpieces p hp h
    · rw [intercalate_cons, if_neg hne, nil_append]
    · rw [intercalate_cons, if_neg hne, nil_append]

omit ha in
theorem replaced_cons {c : α} (h : ¬ a :: tail <+: c :: text) :
    Replaced (a :: tail) new (c :: text) out ↔
      ∃ out', out = c :: out' ∧ Replaced (a :: tail) new text out' := by
  constructor
  · rintro ⟨pieces, hne, hpieces, htext, rfl⟩
    obtain ⟨p, ps, rfl⟩ := exists_cons_of_ne_nil hne
    rw [intercalate_cons] at htext
    cases p with
    | nil =>
      by_cases hps : ps = []
      · rw [if_pos hps] at htext
        cases htext
      · rw [if_neg hps, nil_append] at htext
        exact absurd (htext ▸ prefix_append _ _) h
    | cons d p =>
      obtain ⟨rfl, rfl⟩ := List.cons.inj htext
      refine ⟨new.intercalate (p :: ps), ?_, p :: ps, cons_ne_nil _ _, ?_, ?_, rfl⟩
      · rw [intercalate_cons, intercalate_cons, cons_append]
      · intro q hq hin
        obtain rfl | hq := List.mem_cons.mp hq
        · exact hpieces _ mem_cons_self (infix_cons hin)
        · exact hpieces q (mem_cons_of_mem _ hq) hin
      · exact (intercalate_cons _ _ _).symm
  · rintro ⟨_, rfl, pieces, hne, hpieces, rfl, rfl⟩
    obtain ⟨p, ps, rfl⟩ := exists_cons_of_ne_nil hne
    refine ⟨(c :: p) :: ps, cons_ne_nil _ _, ?_, ?_, ?_⟩
    · intro q hq hin
      obtain rfl | hq := List.mem_cons.mp hq
      · obtain hstart | hin := infix_cons_iff.mp hin
        · refine h (hstart.trans ?_)
          rw [intercalate_cons, ← cons_append]
          exact prefix_append _ _
        · exact hpieces p mem_cons_self hin
      · exact hpieces q (mem_cons_of_mem _ hq) hin
    · rw [intercalate_cons, intercalate_cons]
      rfl
    · rw [intercalate_cons, intercalate_cons]
      rfl

end

end Apackage.Lib.Replacement
