import Mathlib.Algebra.Ring.Nat
import Mathlib.Data.List.Basic

/-
  Texts made of fields with a separator between them.

  `l.splitOn x` are the fields of `l`, `sep.intercalate fs` writes fields down. `appendField` writes
  the separator only behind a text that is not empty, so empty fields in front of all others are
  lost (`foldl_appendField`). `writeFields` copies the fields to keep, but no empty ones, into a
  buffer of bounded size (`writeFields_eq`).
-/

namespace Apackage.Lib.Fields

open List

section Writing

variable {α : Type*} {sep : List α}

variable {fs : List (List α)}

theorem intercalate_concat (h : fs ≠ []) (f : List α) :
    sep.intercalate (fs ++ [f]) = sep.intercalate fs ++ sep ++ f := by
  induction fs with
  | nil => exact absurd rfl h
  | cons g fs ih =>
    cases fs with
    | nil => simp
    | cons g' fs =>
      have hrest := ih (cons_ne_nil _ _)
      rw [cons_append, cons_append, intercalate_cons_cons,
        intercalate_cons_cons, ← cons_append, hrest]
      simp

theorem intercalate_ne_nil (h : fs ≠ []) (hne : [] ∉ fs) : sep.intercalate fs ≠ [] := by
  cases fs with
  | nil => exact absurd rfl h
  | cons f fs =>
    have hf : f ≠ [] := fun h => hne (h ▸ mem_cons_self)
    cases fs with
    | nil => simpa using hf
    | cons g fs => simp [hf]

theorem mem_intercalate {a : α} (h : a ∈ sep.intercalate fs) : a ∈ sep ∨ ∃ f ∈ fs, a ∈ f := by
  induction fs with
  | nil => cases h
  | cons f fs ih =>
    cases fs with
    | nil =>
      rw [intercalate_singleton] at h
      exact .inr ⟨f, mem_cons_self, h⟩
    | cons g fs =>
      rw [intercalate_cons_cons, mem_append, mem_append] at h
      rcases h with (h | h) | h
      · exact .inr ⟨f, mem_cons_self, h⟩
      · exact .inl h
      · exact (ih h).imp_right fun ⟨f', hf', ha⟩ => ⟨f', mem_cons_of_mem _ hf', ha⟩

theorem prefix_intercalate (sep : List α) (fs gs : List (List α)) :
    sep.intercalate fs <+: sep.intercalate (fs ++ gs) := by
  induction gs generalizing fs with
  | nil => simp
  | cons g gs ih =>
    have hone : sep.intercalate fs <+: sep.intercalate (fs ++ [g]) := by
      by_cases h : fs = []
      · rw [h]
        exact nil_prefix
      · rw [intercalate_concat h, append_assoc]
        exact prefix_append _ _
    have hrest := ih (fs ++ [g])
    rw [append_assoc, singleton_append] at hrest
    exact hone.trans hrest

theorem length_intercalate (x : α) (fs : List (List α)) :
    ([x].intercalate fs).length = (fs.map List.length).sum + (fs.length - 1) := by
  induction fs with
  | nil => rfl
  | cons f fs ih =>
    cases fs with
    | nil => simp
    | cons g fs =>
      rw [intercalate_cons_cons, length_append, length_append, ih]
      simp only [map_cons, sum_cons, length_cons, length_nil]
      omega

theorem length_intercalate_le {x : α} {fs gs : List (List α)} (h : fs.Sublist gs) :
    ([x].intercalate fs).length ≤ ([x].intercalate gs).length := by
  have hsum : (fs.map List.length).sum ≤ (gs.map List.length).sum := by
    induction h with
    | slnil => exact Nat.le_refl _
    | cons g _ ih =>
      rw [map_cons, sum_cons]
      omega
    | cons_cons g _ ih =>
      simp [*]
  have hlen := h.length_le
  rw [length_intercalate, length_intercalate]
  omega

/-- A longer separator is a separator and a beginning of each field but the first. -/
theorem intercalate_pad (x : α) (pad f : List α) (fs : List (List α)) :
    (x :: pad).intercalate (f :: fs) = [x].intercalate (f :: fs.map (pad ++ ·)) := by
  induction fs generalizing f with
  | nil => rfl
  | cons g fs ih =>
    have hpad : ∀ gs : List (List α),
        pad ++ [x].intercalate (g :: gs) = [x].intercalate ((pad ++ g) :: gs) := by
      intro gs
      cases gs <;> simp
    rw [intercalate_cons_cons, ih g, map_cons, intercalate_cons_cons, ← hpad]
    simp

def appendField (sep output field : List α) : List α :=
  if output = [] then field else output ++ sep ++ field

theorem length_appendField (sep output field : List α) :
    output.length ≤ (appendField sep output field).length := by
  unfold appendField
  split
  · simp [*]
  · simp

theorem length_foldl_appendField (fs : List (List α)) (output : List α) :
    output.length ≤ (fs.foldl (appendField sep) output).length := by
  induction fs generalizing output with
  | nil => exact Nat.le_refl _
  | cons f fs ih => exact Nat.le_trans (length_appendField sep output f) (ih _)

theorem foldl_appendField_ne_nil {output : List α} (h : output ≠ []) (fs : List (List α)) :
    fs.foldl (appendField sep) output = sep.intercalate (output :: fs) := by
  induction fs generalizing output with
  | nil => simp
  | cons f fs ih =>
    have hstep : appendField sep output f = output ++ sep ++ f := if_neg h
    have hne : output ++ sep ++ f ≠ [] := by simp [h]
    rw [foldl_cons, hstep, ih hne]
    cases fs with
    | nil => simp
    | cons g fs => simp [intercalate_cons_cons]

theorem foldl_appendField (fs : List (List α)) :
    fs.foldl (appendField sep) [] = sep.intercalate (fs.dropWhile List.isEmpty) := by
  induction fs with
  | nil => rfl
  | cons f fs ih =>
    rw [foldl_cons]
    cases f with
    | nil => exact ih
    | cons a f => exact foldl_appendField_ne_nil (cons_ne_nil a f) fs

end Writing

section Reading

variable {α : Type*} [DecidableEq α] {x : α}

/-- A field stands between separators or the ends of the text. -/
theorem exists_of_mem_splitOn {l f : List α} (h : f ∈ l.splitOn x) :
    x ∉ f ∧ ∃ s t, l = s ++ (f ++ t) ∧ (s = [] ∨ s.getLast? = some x) ∧
      (t = [] ∨ t.head? = some x) := by
  induction hn : l.length using Nat.strongRecOn generalizing l with
  | ind n ih =>
    by_cases hx : x ∈ l
    · obtain ⟨a, b, rfl, ha⟩ := eq_append_cons_of_mem hx
      rw [splitOn_append_cons_self_of_not_mem ha, List.mem_cons] at h
      rcases h with rfl | h
      · exact ⟨ha, [], x :: b, rfl, .inl rfl, .inr rfl⟩
      · have hlt : b.length < n := by
          rw [← hn, length_append, length_cons]
          omega
        obtain ⟨hf, s, t, rfl, hs, ht⟩ := ih b.length hlt h rfl
        refine ⟨hf, a ++ x :: s, t, by simp, .inr ?_, ht⟩
        rcases hs with rfl | hs
        · simp
        · cases s with
          | nil => cases hs
          | cons c s => simpa using hs
    · rw [splitOn_eq_singleton hx, mem_singleton] at h
      subst h
      exact ⟨hx, [], [], by simp, .inl rfl, .inl rfl⟩

theorem intercalate_filter_eq_iff (l : List α) :
    [x].intercalate ((l.splitOn x).filter (· ≠ [])) = l ↔ l = [] ∨ [] ∉ l.splitOn x := by
  constructor
  · intro h
    by_cases hnil : (l.splitOn x).filter (· ≠ []) = []
    · left
      rw [← h, hnil]
      rfl
    · right
      have hfields : l.splitOn x = (l.splitOn x).filter (· ≠ []) := by
        conv_lhs => rw [← h]
        exact splitOn_intercalate x
          (fun f hf => (exists_of_mem_splitOn (mem_of_mem_filter hf)).1) hnil
      rw [hfields]
      simp
  · rintro (rfl | h)
    · simp
    · rw [filter_eq_self.2 fun f hf => ?_, intercalate_splitOn]
      rw [decide_eq_true_eq]
      rintro rfl
      exact h hf

end Reading

section Buffer

variable {α : Type*}

/-- One field: none if it does not fit into the buffer of `size`, with a byte to spare. -/
def writeField (keep : List α → Bool) (sep : List α) (size : ℕ) (output field : List α) :
    Option (List α) :=
  if keep field = false ∨ field = [] then some output
  else if output = [] then if size ≤ field.length then none else some field
  else if size ≤ output.length + sep.length then none
  else if size ≤ output.length + sep.length + field.length then none
  else some (output ++ sep ++ field)

def writeFields (keep : List α → Bool) (sep : List α) (size : ℕ) (fields : List (List α)) :
    Option (List α) :=
  fields.foldlM (writeField keep sep size) []

variable {keep : List α → Bool} {sep : List α} {size : ℕ}

/-- The fields that are written. -/
def kept (keep : List α → Bool) (fields : List (List α)) : List (List α) :=
  fields.filter fun f => keep f && f ≠ []

theorem writeField_kept {done : List (List α)} (hdone : [] ∉ done) (f : List α) :
    writeField keep sep size (sep.intercalate done) f =
      if kept keep [f] ≠ [] ∧ size ≤ (sep.intercalate (done ++ kept keep [f])).length then none
      else some (sep.intercalate (done ++ kept keep [f])) := by
  unfold writeField
  by_cases hskip : keep f = false ∨ f = []
  · have hnone : kept keep [f] = [] := filter_cons_of_neg (by rcases hskip with h | h <;> simp [h])
    rw [if_pos hskip, hnone, append_nil, if_neg fun h => h.1 rfl]
  · have hone : kept keep [f] = [f] := filter_cons_of_pos (by
      rw [not_or, Bool.not_eq_false] at hskip
      simp [hskip])
    rw [if_neg hskip, hone]
    simp only [ne_eq, cons_ne_nil, not_false_eq_true, true_and]
    by_cases hd : done = []
    · simp [*]
    · rw [if_neg (intercalate_ne_nil hd hdone), intercalate_concat hd, length_append, length_append]
      split
      · rw [if_pos (by omega)]
      · rfl

/-- The loop: it stops only if the fields do not fit. -/
theorem foldlM_writeField {fields : List (List α)} (done : List (List α)) (hdone : [] ∉ done) :
    (∀ out, fields.foldlM (writeField keep sep size) (sep.intercalate done) = some out →
      out = sep.intercalate (done ++ kept keep fields)) ∧
    ((sep.intercalate (done ++ kept keep fields)).length < size →
      fields.foldlM (writeField keep sep size) (sep.intercalate done) =
        some (sep.intercalate (done ++ kept keep fields))) := by
  induction fields generalizing done with
  | nil =>
    refine ⟨fun out h => ?_, fun _ => ?_⟩
    · rw [← Option.some.inj h]
      simp [kept]
    · simp [kept]
  | cons f fields ih =>
    have hsplit : done ++ kept keep (f :: fields) =
        (done ++ kept keep [f]) ++ kept keep fields := by
      rw [append_assoc, kept, kept, kept, ← filter_append, singleton_append]
    have hnext : [] ∉ done ++ kept keep [f] := by
      rw [mem_append, not_or]
      refine ⟨hdone, fun h => ?_⟩
      have := (mem_filter.1 h).2
      simp at this
    obtain ⟨ih1, ih2⟩ := ih _ hnext
    rw [hsplit, foldlM_cons, writeField_kept hdone f]
    split
    · rename_i hfull
      refine ⟨fun out h => (by cases h), fun hsize => ?_⟩
      have hle := (prefix_intercalate sep (done ++ kept keep [f]) (kept keep fields)).length_le
      omega
    · exact ⟨ih1, ih2⟩

theorem writeFields_eq {fields : List (List α)} {out : List α}
    (h : writeFields keep sep size fields = some out) :
    out = sep.intercalate (kept keep fields) :=
  (foldlM_writeField [] not_mem_nil).1 out h

theorem writeFields_fits {fields : List (List α)}
    (h : (sep.intercalate (kept keep fields)).length < size) :
    writeFields keep sep size fields = some (sep.intercalate (kept keep fields)) :=
  (foldlM_writeField [] not_mem_nil).2 h

end Buffer

end Apackage.Lib.Fields
