import Mathlib.Data.List.Basic

/-
  Merging two lists whose elements have a key, where one list overrides the other.

  The elements of `above` with a key of `base` stand where the key occurs first in `base`, in place
  of all elements of `base` with the key; the rest of `above` follows. So a key of `above` has the
  elements of `above`, every other key those of `base` (`valuesOf_merge`), and what one list has
  alone keeps its order.
-/

namespace Apackage.Lib.KeyedMerge

open List

variable {α κ : Type*} [DecidableEq κ] (key : α → κ)

def occurs (k : κ) (l : List α) : Bool := l.any fun a => key a = k

/-- The elements with a key. -/
def valuesOf (k : κ) (l : List α) : List α := l.filter fun a => key a = k

/-- What an element of `base` turns into, after the elements `seen`. -/
def replacement (above seen : List α) (a : α) : List α :=
  if occurs key (key a) above then
    if occurs key (key a) seen then [] else valuesOf key (key a) above
  else [a]

def replaceFrom (above : List α) : (seen : List α) → List α → List α
  | _, [] => []
  | seen, a :: rest => replacement key above seen a ++ replaceFrom above (seen ++ [a]) rest

def merge (base above : List α) : List α :=
  replaceFrom key above [] base ++ above.filter fun a => !occurs key (key a) base

variable {key} {k : κ} {l base above : List α}

theorem occurs_iff : occurs key k l = true ↔ ∃ a ∈ l, key a = k := by
  simp [occurs, List.any_eq_true]

theorem valuesOf_eq_nil (h : occurs key k l = false) : valuesOf key k l = [] := by
  refine filter_eq_nil_iff.2 fun a ha hk => ?_
  rw [occurs_iff.2 ⟨a, ha, of_decide_eq_true hk⟩] at h
  cases h

theorem occurs_of_mem_valuesOf {a : α} (h : a ∈ valuesOf key k l) : key a = k :=
  of_decide_eq_true (mem_filter.1 h).2

theorem occurs_append (l m : List α) :
    occurs key k (l ++ m) = (occurs key k l || occurs key k m) := any_append

theorem valuesOf_append (l m : List α) :
    valuesOf key k (l ++ m) = valuesOf key k l ++ valuesOf key k m := filter_append ..

theorem valuesOf_valuesOf (k' : κ) (l : List α) :
    valuesOf key k (valuesOf key k' l) = if k' = k then valuesOf key k l else [] := by
  split
  · rename_i h
    subst h
    exact filter_eq_self.2 fun a ha => (mem_filter.1 ha).2
  · rename_i h
    refine filter_eq_nil_iff.2 fun a ha hk => h ?_
    exact (occurs_of_mem_valuesOf ha).symm.trans (of_decide_eq_true hk)

theorem mem_replaceFrom {a : α} {seen : List α} (h : a ∈ replaceFrom key above seen base) :
    a ∈ above ∨ a ∈ base := by
  induction base generalizing seen with
  | nil => cases h
  | cons b rest ih =>
    rw [replaceFrom, mem_append] at h
    rcases h with h | h
    · unfold replacement at h
      split at h
      · split at h
        · cases h
        · exact .inl (mem_of_mem_filter h)
      · exact .inr (mem_singleton.1 h ▸ mem_cons_self)
    · exact (ih h).imp_right (mem_cons_of_mem b)

theorem mem_merge {a : α} (h : a ∈ merge key base above) : a ∈ above ∨ a ∈ base := by
  rcases mem_append.1 h with h | h
  · exact mem_replaceFrom h
  · exact .inl (mem_of_mem_filter h)

/-! ## Keys that are overridden -/

theorem valuesOf_replacement (seen : List α) (a : α) :
    valuesOf key k (replacement key above seen a) = if key a = k then
        if occurs key k above then if occurs key k seen then [] else valuesOf key k above else [a]
      else [] := by
  unfold replacement
  by_cases hk : key a = k
  · subst hk
    rw [if_pos rfl]
    split
    · split
      · rfl
      · rw [valuesOf_valuesOf, if_pos rfl]
    · exact filter_eq_self.2 fun b hb => by simp [mem_singleton.1 hb]
  · rw [if_neg hk]
    split
    · split
      · rfl
      · rw [valuesOf_valuesOf, if_neg hk]
    · exact filter_eq_nil_iff.2 fun b hb => by simpa [mem_singleton.1 hb] using hk

theorem valuesOf_replaceFrom (seen : List α) : valuesOf key k (replaceFrom key above seen base) =
      if occurs key k above then
        if occurs key k seen then [] else if occurs key k base then valuesOf key k above else []
      else valuesOf key k base := by
  induction base generalizing seen with
  | nil =>
    rw [replaceFrom]
    split
    · split <;> rfl
    · rfl
  | cons a rest ih =>
    rw [replaceFrom, valuesOf_append, valuesOf_replacement, ih, occurs_append]
    by_cases hk : key a = k
    · have hself : occurs key k [a] = true := occurs_iff.2 ⟨a, mem_singleton_self a, hk⟩
      have hcons : occurs key k (a :: rest) = true := occurs_iff.2 ⟨a, mem_cons_self, hk⟩
      rw [if_pos hk, hself, hcons, Bool.or_true, if_pos rfl, if_pos rfl]
      by_cases hover : occurs key k above = true
      · rw [if_pos hover, if_pos hover, if_pos hover, append_nil]
      · rw [if_neg hover, if_neg hover, if_neg hover]
        exact (filter_cons_of_pos (by simpa using hk)).symm
    · have hself : occurs key k [a] = false := by simp [occurs, hk]
      have hcons : occurs key k (a :: rest) = occurs key k rest := by simp [occurs, hk]
      have hvalues : valuesOf key k (a :: rest) = valuesOf key k rest :=
        filter_cons_of_neg (by simpa using hk)
      rw [if_neg hk, hself, hcons, hvalues, Bool.or_false, nil_append]

/-- A key of `above` has the elements of `above`, another key those of `base`. -/
theorem valuesOf_merge : valuesOf key k (merge key base above) =
    if occurs key k above then valuesOf key k above else valuesOf key k base := by
  have hnew : valuesOf key k (above.filter fun a => !occurs key (key a) base) =
      if occurs key k base then [] else valuesOf key k above := by
    unfold valuesOf
    rw [List.filter_filter]
    split
    · rename_i h
      refine filter_eq_nil_iff.2 fun a _ hk => ?_
      rw [Bool.and_eq_true, decide_eq_true_eq] at hk
      rw [hk.1, h] at hk
      exact absurd hk.2 (by decide)
    · rename_i h
      refine filter_congr fun a _ => ?_
      by_cases hk : key a = k
      · simp [hk, h]
      · simp [hk]
  rw [merge, valuesOf_append, valuesOf_replaceFrom, hnew]
  by_cases hover : occurs key k above = true
  · rw [if_pos hover, if_pos hover, if_neg (show ¬ occurs key k [] = true from Bool.false_ne_true)]
    by_cases hbase : occurs key k base = true
    · rw [if_pos hbase, if_pos hbase, append_nil]
    · rw [if_neg hbase, if_neg hbase, nil_append]
  · have hnone : valuesOf key k above = [] := valuesOf_eq_nil (by simpa using hover)
    rw [if_neg hover, if_neg hover, hnone, ite_self, append_nil]

/-! ## What one list has alone -/

variable {p : α → Bool}

/-- The elements of `base` that are not overridden keep their order. -/
theorem filter_merge_base (hp : ∀ a, p a = true → occurs key (key a) above = false) :
    (merge key base above).filter p = base.filter p := by
  have hover : ∀ m : List α, (∀ a ∈ m, a ∈ above) → m.filter p = [] := by
    intro m hm
    refine filter_eq_nil_iff.2 fun a ha hpa => ?_
    have hoccurs : occurs key (key a) above = true := occurs_iff.2 ⟨a, hm a ha, rfl⟩
    rw [hp a hpa] at hoccurs
    cases hoccurs
  have hreplace : ∀ seen, (replaceFrom key above seen base).filter p = base.filter p := by
    induction base with
    | nil => exact fun _ => rfl
    | cons a rest ih =>
      intro seen
      rw [replaceFrom, filter_append, ih]
      unfold replacement
      split
      · rename_i hoccurs
        have hpa : ¬ p a = true := fun hpa => by
          rw [hp a hpa] at hoccurs
          cases hoccurs
        rw [filter_cons_of_neg hpa]
        split
        · rfl
        · rw [hover (valuesOf key (key a) above) fun b hb => mem_of_mem_filter hb, nil_append]
      · rw [← filter_append, singleton_append]
  rw [merge, filter_append, hreplace, hover _ fun b hb => mem_of_mem_filter hb, append_nil]

theorem filter_merge_over (hp : ∀ a, p a = true → occurs key (key a) base = false) :
    (merge key base above).filter p = above.filter p := by
  have hkeys : ∀ seen, ∀ b ∈ replaceFrom key above seen base, occurs key (key b) base = true := by
    induction base with
    | nil => exact fun _ b hb => absurd hb not_mem_nil
    | cons a rest ih =>
      have hp' : ∀ b, p b = true → occurs key (key b) rest = false := fun b hb => by
        have hcons := hp b hb
        unfold occurs at hcons ⊢
        rw [any_cons, Bool.or_eq_false_iff] at hcons
        exact hcons.2
      intro seen b hb
      rw [replaceFrom, mem_append] at hb
      rcases hb with hb | hb
      · have hkey : key a = key b := by
          unfold replacement at hb
          split at hb
          · split at hb
            · cases hb
            · exact (occurs_of_mem_valuesOf hb).symm
          · rw [mem_singleton.1 hb]
        exact occurs_iff.2 ⟨a, mem_cons_self, hkey⟩
      · obtain ⟨c, hc, hkey⟩ := occurs_iff.1 (ih hp' _ b hb)
        exact occurs_iff.2 ⟨c, mem_cons_of_mem a hc, hkey⟩
  have hnone : (replaceFrom key above [] base).filter p = [] := by
    refine filter_eq_nil_iff.2 fun b hb hpb => ?_
    have hoccurs := hkeys [] b hb
    rw [hp b hpb] at hoccurs
    cases hoccurs
  rw [merge, filter_append, hnone, nil_append, List.filter_filter]
  refine filter_congr fun a _ => ?_
  cases hpa : p a with
  | false => rfl
  | true => simp [hp a hpa]

end Apackage.Lib.KeyedMerge
