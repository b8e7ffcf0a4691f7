import Mathlib.Data.List.Basic

/-
  Stuffing: a marker is put into a text so that a forbidden sequence never appears in it.

  The forbidden sequences are two zeros and a guarded symbol. Before the guarded symbol the marker
  is inserted, which is guarded itself and not a zero. The reader drops each marker behind two
  zeros, looking back in the stuffed text.
-/

namespace Apackage.Lib.Stuffing

variable {α : Type*} [DecidableEq α] (zero marker : α) (guarded : α → Bool)

/-- The stuffed text; the number counts the zeros before it. -/
def stuff : ℕ → List α → List α
  | _, [] => []
  | zeros, a :: as =>
    if zeros = 2 ∧ guarded a = true then
      marker :: a :: stuff (if a = zero then 1 else 0) as
    else a :: stuff (if a = zero then zeros + 1 else 0) as

/-- The text without markers; the first two arguments are the symbols before it. -/
def unstuff : Option α → Option α → List α → List α
  | _, _, [] => []
  | before, last, a :: as =>
    if a = marker ∧ last = some zero ∧ before = some zero then unstuff last (some a) as
    else a :: unstuff last (some a) as

/-- The symbols before the text end with as many zeros as are counted. -/
def Counts (before last : Option α) (zeros : ℕ) : Prop :=
  zeros ≤ 2 ∧ (last = some zero ↔ 1 ≤ zeros) ∧ (last = some zero → (before = some zero ↔ zeros = 2))

variable {zero marker guarded}

theorem length_le_stuff (zeros : ℕ) (as : List α) :
    as.length ≤ (stuff zero marker guarded zeros as).length := by
  induction as generalizing zeros with
  | nil => exact Nat.zero_le _
  | cons a as ih =>
    rw [stuff]
    by_cases hstuffed : zeros = 2 ∧ guarded a = true
    · rw [if_pos hstuffed]
      exact Nat.succ_le_succ (Nat.le_succ_of_le (ih _))
    · rw [if_neg hstuffed]
      exact Nat.succ_le_succ (ih _)

omit [DecidableEq α] in
theorem counts_start {last before : Option α} (h : last ≠ some zero) : Counts zero before last 0 :=
  ⟨Nat.zero_le 2, ⟨fun hlast => absurd hlast h, fun hone => absurd hone (by omega)⟩,
    fun hlast => absurd hlast h⟩

theorem unstuff_stuff (hmarker : marker ≠ zero) (hzero : guarded zero = true)
    (hguarded : guarded marker = true) {before last : Option α} {zeros : ℕ}
    (h : Counts zero before last zeros) (as : List α) :
    unstuff zero marker before last (stuff zero marker guarded zeros as) = as := by
  induction as generalizing before last zeros with
  | nil => rfl
  | cons a as ih =>
    obtain ⟨hle, hlast, hbefore⟩ := h
    have hnot : some marker ≠ some zero := fun heq => hmarker (Option.some.inj heq)
    rw [stuff]
    split_ifs with hstuffed hz hz
    · have hlast' := hlast.2 (by omega)
      rw [unstuff, if_pos ⟨rfl, hlast', (hbefore hlast').2 hstuffed.1⟩, unstuff,
        if_neg fun hdrop => hnot hdrop.2.1]
      refine congrArg _ (ih ⟨by omega, ?_, ?_⟩)
      · rw [hz]
        exact ⟨fun _ => Nat.le_refl 1, fun _ => rfl⟩
      · exact fun _ => ⟨fun hbad => absurd hbad hnot, fun hbad => absurd hbad (by omega)⟩
    · have hlast' := hlast.2 (by omega)
      rw [unstuff, if_pos ⟨rfl, hlast', (hbefore hlast').2 hstuffed.1⟩, unstuff,
        if_neg fun hdrop => hnot hdrop.2.1]
      exact congrArg _ (ih (counts_start fun hbad => hz (Option.some.inj hbad)))
    · have htwo : zeros ≠ 2 := fun htwo => hstuffed ⟨htwo, by rw [hz]; exact hzero⟩
      rw [unstuff, if_neg fun hdrop => hmarker (hdrop.1.symm.trans hz)]
      refine congrArg _ (ih ⟨by omega, ?_, fun _ => hlast.trans ?_⟩)
      · rw [hz]
        exact ⟨fun _ => by omega, fun _ => rfl⟩
      · omega
    · rw [unstuff, if_neg]
      · exact congrArg _ (ih (counts_start fun hbad => hz (Option.some.inj hbad)))
      · rintro ⟨rfl, hlast', hbefore'⟩
        exact hstuffed ⟨(hbefore hlast').1 hbefore', hguarded⟩

end Apackage.Lib.Stuffing
