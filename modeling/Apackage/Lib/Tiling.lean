import Mathlib.Order.Basic
import Mathlib.Data.List.Chain

/-
  Tilings of a range.

  `Tiles a b ws`: the windows `ws` follow each other from `a` to `b` without a gap and none of
  them is empty. `refine f` puts the windows `f a b` between any two points that follow each
  other in a list; if each of them tiles its range, the whole tiles the range from the first
  point to the last (`tiles_refine`).
-/

namespace Apackage.Lib.Tiling

open List

variable {α : Type*}

structure Window (α : Type*) where
  start : α
  stop : α

/-- The windows between the points of a list. -/
def refine (f : α → α → List (Window α)) : List α → List (Window α)
  | a :: b :: points => f a b ++ refine f (b :: points)
  | _ => []

variable (f : α → α → List (Window α))

theorem refine_singleton (a : α) : refine f [a] = [] := rfl

theorem refine_cons_cons (a b : α) (points : List α) :
    refine f (a :: b :: points) = f a b ++ refine f (b :: points) := rfl

theorem mem_refine {f : α → α → List (Window α)} {points : List α} {w : Window α}
    (h : w ∈ refine f points) :
    ∃ before a b after, points = before ++ a :: b :: after ∧ w ∈ f a b := by
  induction points with
  | nil => cases h
  | cons a points ih =>
    cases points with
    | nil => cases h
    | cons b points =>
      rcases mem_append.1 h with h | h
      · exact ⟨[], a, b, points, rfl, h⟩
      · grind

theorem subset_refine (before after : List α) (a b : α) :
    f a b ⊆ refine f (before ++ a :: b :: after) := by
  induction before with
  | nil => exact subset_append_left _ _
  | cons c before ih =>
    intro w hw
    cases before with
    | nil => exact mem_append_right _ (ih hw)
    | cons d before => exact mem_append_right _ (ih hw)

variable [Preorder α]

/-- The windows tile the range. -/
inductive Tiles : α → α → List (Window α) → Prop
  | nil (a : α) : Tiles a a []
  | cons {a b c : α} {ws : List (Window α)} (hlt : a < b) (rest : Tiles b c ws) :
    Tiles a c (⟨a, b⟩ :: ws)

namespace Tiles

variable {a b c : α} {ws vs : List (Window α)}

theorem append (h : Tiles a b ws) (h' : Tiles b c vs) : Tiles a c (ws ++ vs) := by
  induction h with
  | nil => exact h'
  | cons hlt _ ih => exact cons hlt (ih h')

theorem le (h : Tiles a b ws) : a ≤ b := by
  induction h with
  | nil => exact le_rfl
  | cons hlt _ ih => exact hlt.le.trans ih

theorem within (h : Tiles a b ws) : ∀ w ∈ ws, a ≤ w.start ∧ w.start < w.stop ∧ w.stop ≤ b := by
  induction h with
  | nil => simp
  | cons hlt rest ih =>
    intro w hw
    rcases List.mem_cons.1 hw with rfl | hw
    · exact ⟨le_rfl, hlt, rest.le⟩
    · exact ⟨hlt.le.trans (ih w hw).1, (ih w hw).2⟩

theorem first (h : Tiles a b ws) (hne : a < b) : ∃ w ∈ ws, w.start = a := by
  cases h with
  | nil => exact absurd hne (lt_irrefl a)
  | cons _ _ => exact ⟨_, mem_cons_self, rfl⟩

end Tiles

theorem tiles_refine {f : α → α → List (Window α)} {a b : α} {points : List α}
    (hchain : (a :: points).IsChain (· < ·)) (hlast : (a :: points).getLast? = some b)
    (hf : ∀ x y, x < y → Tiles x y (f x y)) : Tiles a b (refine f (a :: points)) := by
  induction points generalizing a with
  | nil =>
    obtain rfl := Option.some.inj hlast
    exact Tiles.nil a
  | cons c points ih =>
    obtain ⟨hlt, hchain⟩ := isChain_cons_cons.1 hchain
    exact (hf a c hlt).append (ih hchain (by rwa [getLast?_cons_cons] at hlast))

end Apackage.Lib.Tiling
