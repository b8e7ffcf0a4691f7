import Mathlib.Data.List.FinRange
import Mathlib.Tactic.Cases
import Apackage.Lib.GaussJordan
import Apackage.Rtp2httpd.RsFec.Tables

/-
  `matrix_inv_gf256` (`rs_fec.c`): in-place inversion over GF(256).

  `matrixInvGf256` is the function (`none` is the return value -1). One round of its outer loop is
  `invStep`: search the largest entry outside the used rows and columns (`pivotSearch`), bring its
  row to the diagonal, then `eliminate`. Over GF(256) a round is the pivot step of `Lib.GaussJordan`
  (`gfM_eliminate`), which carries the proofs.
-/

namespace Apackage.Rtp2httpd

open List Option Lib.GaussJordan

/-- A square `uint8_t **` of size `n`. -/
abbrev ByteMatrix (n : ℕ) := Matrix (Fin n) (Fin n) UInt8

/-- A byte matrix over the field. -/
def gfM {n : ℕ} (m : ByteMatrix n) : Matrix (Fin n) (Fin n) GF256 := fun i j => gf (m i j)

/-- The locals `big`, `irow` and `icol` of the pivot search. -/
structure Pivot (n : ℕ) where
  big : UInt8
  irow : Fin n
  icol : Fin n

/-- The body of the inner search loop: entry `(j, k)` against the best so far. -/
def pivotCell {n : ℕ} (m : ByteMatrix n) (ipiv : Fin n → ℕ) (j : Fin n) (s : Pivot n)
    (k : Fin n) : Option (Pivot n) :=
  if ipiv k = 0 then
    if m j k ≥ s.big then some ⟨m j k, j, k⟩ else some s
  else if ipiv k > 1 then none
  else some s

/-- The search for the largest entry; the last of several equal ones wins. -/
def pivotSearch {n : ℕ} (m : ByteMatrix n) (ipiv : Fin n → ℕ) (s : Pivot n) : Option (Pivot n) :=
  (List.finRange n).foldlM (fun s j =>
    if ipiv j ≠ 1 then (List.finRange n).foldlM (pivotCell m ipiv j) s else some s) s

/-- Divide row `icol` by the pivot and clear column `icol` in the other rows, in place. -/
def eliminate {n : ℕ} (m : ByteMatrix n) (icol : Fin n) : ByteMatrix n :=
  let pivinv := rsSize - rsLog (m icol icol)
  let row : Fin n → UInt8 := fun l => rsScale pivinv (if l = icol then 0x1 else m icol l)
  fun ll l =>
    if ll ≠ icol then
      let dum := m ll icol
      rsMac (if l = icol then 0 else m ll l) (row l) dum
    else row l

/-- The locals of `matrix_inv_gf256` that live across rounds; `indx` lists the pairs
    `(indxr[i], indxc[i])`. -/
structure InvState (n : ℕ) where
  m : ByteMatrix n
  ipiv : Fin n → ℕ
  irow : Fin n
  icol : Fin n
  indx : List (Fin n × Fin n)

/-- One round of the outer loop. -/
def invStep {n : ℕ} (st : InvState n) : Option (InvState n) :=
  match pivotSearch st.m st.ipiv ⟨0, st.irow, st.icol⟩ with
  | none => none
  | some p =>
    let ipiv := fun k => if k = p.icol then st.ipiv k + 1 else st.ipiv k
    let m := if p.irow ≠ p.icol then swapRows st.m p.irow p.icol else st.m
    if m p.icol p.icol = 0 then none
    else some ⟨eliminate m p.icol, ipiv, p.irow, p.icol, st.indx ++ [(p.irow, p.icol)]⟩

/-- `t` rounds. -/
def invLoop {n : ℕ} : ℕ → InvState n → Option (InvState n)
  | 0, st => some st
  | t + 1, st => (invStep st).bind (invLoop t)

/-- The closing loop: exchange the columns back, last pair first. -/
def restoreColumns {n : ℕ} (indx : List (Fin n × Fin n)) (m : ByteMatrix n) : ByteMatrix n :=
  indx.foldr (fun p m => if p.1 ≠ p.2 then swapCols m p.1 p.2 else m) m

/-- `matrix_inv_gf256`; `none` is -1. -/
def matrixInvGf256 (n : ℕ) (m : ByteMatrix n) : Option (ByteMatrix n) :=
  if h : n ≥ 0x100 ∨ n = 0 then none
  else
    let zero : Fin n := ⟨0, by omega⟩
    (invLoop n ⟨m, fun _ => 0, zero, zero, []⟩).map (fun st => restoreColumns st.indx st.m)

/-! ## The pivot search -/

variable {n : ℕ}

/-- `ipiv` marks the used columns. -/
def Marks (P : Finset (Fin n)) (ipiv : Fin n → ℕ) : Prop := ∀ k, ipiv k = if k ∈ P then 1 else 0

variable {m : ByteMatrix n} {P : Finset (Fin n)} {ipiv : Fin n → ℕ}

theorem pivotCell_marks (hm : Marks P ipiv) (j : Fin n) (s : Pivot n) (k : Fin n) :
    pivotCell m ipiv j s k = some (if k ∉ P ∧ m j k ≥ s.big then ⟨m j k, j, k⟩ else s) := by
  rw [pivotCell, hm k]
  by_cases hk : k ∈ P
  · simp [hk]
  · by_cases hb : m j k ≥ s.big <;> simp [hk, hb]

/-- What a search over the cells satisfying `V` leaves: the start, when every cell is below
    it, or a largest cell. -/
def Searched (m : ByteMatrix n) (V : Fin n → Fin n → Prop) (s s' : Pivot n) : Prop :=
  (s' = s ∧ ∀ j k, V j k → m j k < s.big) ∨
  (V s'.irow s'.icol ∧ s'.big = m s'.irow s'.icol ∧ s.big ≤ s'.big ∧ ∀ j k, V j k → m j k ≤ s'.big)

theorem Searched.trans {V W : Fin n → Fin n → Prop} {s s' s'' : Pivot n} (h1 : Searched m V s s')
    (h2 : Searched m W s' s'') : Searched m (fun j k => V j k ∨ W j k) s s'' := by
  simp only [Searched, UInt8.lt_iff_toNat_lt, UInt8.le_iff_toNat_le] at *
  rcases h1 with ⟨rfl, hlt1⟩ | ⟨hV, hb1, hle1, hall1⟩ <;>
    rcases h2 with ⟨rfl, hlt2⟩ | ⟨hW, hb2, hle2, hall2⟩
  · exact .inl ⟨rfl, fun j k h => h.elim (hlt1 j k) (hlt2 j k)⟩
  · refine .inr ⟨.inr hW, hb2, hle2, fun j k h => ?_⟩
    rcases h with h | h
    · have := hlt1 j k h; omega
    · exact hall2 j k h
  · refine .inr ⟨.inl hV, hb1, hle1, fun j k h => ?_⟩
    rcases h with h | h
    · exact hall1 j k h
    · have := hlt2 j k h; omega
  · refine .inr ⟨.inr hW, hb2, by omega, fun j k h => ?_⟩
    rcases h with h | h
    · have := hall1 j k h; omega
    · exact hall2 j k h

theorem Searched.congr {V W : Fin n → Fin n → Prop} {s s' : Pivot n} (h : Searched m V s s')
    (hVW : ∀ j k, V j k ↔ W j k) : Searched m W s s' := by
  simpa only [Searched, hVW] using h

theorem searched_none (m : ByteMatrix n) (s : Pivot n) : Searched m (fun _ _ => False) s s :=
  .inl ⟨rfl, fun _ _ h => h.elim⟩

theorem searched_cell (j : Fin n) (s : Pivot n) (k : Fin n) :
    Searched m (fun j' k' => j' = j ∧ k' = k ∧ k ∉ P) s
      (if k ∉ P ∧ m j k ≥ s.big then ⟨m j k, j, k⟩ else s) := by
  by_cases h : k ∉ P ∧ m j k ≥ s.big
  · rw [if_pos h]
    refine .inr ⟨⟨rfl, rfl, h.1⟩, rfl, h.2, ?_⟩
    rintro _ _ ⟨rfl, rfl, -⟩
    exact UInt8.le_refl _
  · rw [if_neg h]
    refine .inl ⟨rfl, ?_⟩
    rintro _ _ ⟨rfl, rfl, hk⟩
    exact UInt8.not_le.mp fun hb => h ⟨hk, hb⟩

theorem searched_row (hm : Marks P ipiv) (j : Fin n) (ks : List (Fin n)) (s : Pivot n) :
    ∃ s', ks.foldlM (pivotCell m ipiv j) s = some s' ∧
      Searched m (fun j' k' => j' = j ∧ k' ∈ ks ∧ k' ∉ P) s s' := by
  induction ks generalizing s with
  | nil => exact ⟨s, rfl, (searched_none m s).congr (by simp)⟩
  | cons k ks ih =>
    obtain ⟨s', hs', h⟩ := ih (if k ∉ P ∧ m j k ≥ s.big then ⟨m j k, j, k⟩ else s)
    refine ⟨s', ?_, ((searched_cell j s k).trans h).congr fun j' k' => ?_⟩
    · rw [foldlM_cons, pivotCell_marks hm]
      exact hs'
    · simp only [List.mem_cons]
      constructor
      · rintro (⟨rfl, rfl, h⟩ | ⟨rfl, h1, h2⟩)
        · exact ⟨rfl, .inl rfl, h⟩
        · exact ⟨rfl, .inr h1, h2⟩
      · rintro ⟨rfl, rfl | h1, h2⟩
        · exact .inl ⟨rfl, rfl, h2⟩
        · exact .inr ⟨rfl, h1, h2⟩

theorem searched_rows (hm : Marks P ipiv) (js : List (Fin n)) (s : Pivot n) :
    ∃ s', js.foldlM (fun s j => if ipiv j ≠ 1 then
        (List.finRange n).foldlM (pivotCell m ipiv j) s else some s) s = some s' ∧
      Searched m (fun j k => j ∈ js ∧ j ∉ P ∧ k ∉ P) s s' := by
  induction js generalizing s with
  | nil => exact ⟨s, rfl, (searched_none m s).congr (by simp)⟩
  | cons j js ih =>
    by_cases hj : j ∈ P
    · obtain ⟨s', hs', h⟩ := ih s
      refine ⟨s', ?_, h.congr fun j' k => ?_⟩
      · rw [foldlM_cons, hm j, if_neg (by simp [hj])]
        exact hs'
      · rw [List.mem_cons]
        constructor
        · tauto
        · rintro ⟨rfl | h1, h2, h3⟩
          · exact absurd hj h2
          · exact ⟨h1, h2, h3⟩
    · obtain ⟨s1, hs1, h1⟩ := searched_row (m := m) hm j (List.finRange n) s
      obtain ⟨s', hs', h⟩ := ih s1
      refine ⟨s', ?_, (h1.trans h).congr fun j' k => ?_⟩
      · rw [foldlM_cons, hm j, if_pos (by simp [hj]), hs1]
        exact hs'
      · simp only [List.mem_cons, mem_finRange, true_and]
        constructor
        · rintro (⟨rfl, h⟩ | ⟨h1, h2⟩)
          · exact ⟨.inl rfl, hj, h⟩
          · exact ⟨.inr h1, h2⟩
        · rintro ⟨rfl | h1, h2, h3⟩
          · exact .inl ⟨rfl, h3⟩
          · exact .inr ⟨h1, h2, h3⟩

/-- The search succeeds while a column is free, and its entry is zero only when every
    free entry is. -/
theorem pivotSearch_spec (hm : Marks P ipiv) (irow icol : Fin n) {i : Fin n} (hi : i ∉ P) :
    ∃ p, pivotSearch m ipiv ⟨0, irow, icol⟩ = some p ∧ p.irow ∉ P ∧ p.icol ∉ P ∧
      (m p.irow p.icol = 0 → ∀ j k, j ∉ P → k ∉ P → m j k = 0) := by
  obtain ⟨p, hp, h⟩ := searched_rows (m := m) hm (List.finRange n) ⟨0, irow, icol⟩
  refine ⟨p, hp, ?_⟩
  rcases h with ⟨-, hlt⟩ | ⟨⟨-, hr, hc⟩, hb, -, hall⟩
  · exact absurd (hlt i i ⟨mem_finRange i, hi, hi⟩) (UInt8.not_lt.mpr (UInt8.le_iff_toNat_le.mpr
      (Nat.zero_le _)))
  · grind

/-! ## One round over the field -/

theorem gfM_eliminate {c : Fin n} (hp : m c c ≠ 0) : gfM (eliminate m c) = pivotStep (gfM m) c := by
  ext1 i j
  have hrow : gf (rsScale (rsSize - rsLog (m c c)) (if j = c then 0x1 else m c j)) =
      (if j = c then 1 else gfM m c j) * (gfM m c c)⁻¹ := by
    rw [gf_rsScale hp]
    by_cases hj : j = c <;> simp [hj, gfM, gf_one]
  simp only [gfM, eliminate, pivotStep]
  by_cases hi : i = c
  · rw [if_neg (by simpa using hi), if_pos hi, hrow]
    rfl
  · rw [if_pos hi, if_neg hi, gf_rsMac, hrow, sub_eq_add_neg, mul_comm (gf (m i c))]
    by_cases hj : j = c <;> simp [hj, gfM] <;> rfl

theorem gfM_swapRows (m : ByteMatrix n) (r c : Fin n) :
    gfM (if r ≠ c then swapRows m r c else m) = swapRows (gfM m) r c := by
  by_cases h : r = c
  · rw [if_neg (by simpa using h), h, swapRows_self]
  · rw [if_pos h]
    rfl

theorem gfM_restoreColumns (indx : List (Fin n × Fin n)) (m : ByteMatrix n) :
    gfM (restoreColumns indx m) = unscramble indx (gfM m) := by
  induction indx with
  | nil => rfl
  | cons p indx ih =>
    rw [unscramble, ← ih, restoreColumns, foldr_cons]
    by_cases h : p.1 = p.2
    · rw [if_neg (by simpa using h), h, swapCols_self]
      rfl
    · rw [if_pos h]
      rfl

/-! ## The loop -/

/-- The state after the pivots `st.indx` on the input `a`. -/
structure InvReached (a : ByteMatrix n) (st : InvState n) : Prop where
  admissible : Admissible st.indx ∅ (gfM a)
  reduced : gfM st.m = applyPivots st.indx (gfM a)
  marks : Marks (usedCols st.indx ∅) st.ipiv

variable {a : ByteMatrix n} {st : InvState n}

/-- What one round does while a column is free: it fails on a zero pivot, or it appends a
    pivot in a free row and column. -/
theorem invStep_spec (h : InvReached a st) {i : Fin n} (hi : i ∉ usedCols st.indx ∅) :
    (invStep st = none ∧ (gfM a).det = 0) ∨
    ∃ st' r c, invStep st = some st' ∧ InvReached a st' ∧ st'.indx = st.indx ++ [(r, c)] ∧
      c ∉ usedCols st.indx ∅ := by
  obtain ⟨p, hp, hr, hc, hz⟩ := pivotSearch_spec (m := st.m) h.marks st.irow st.icol hi
  have hpiv : (if p.irow ≠ p.icol then swapRows st.m p.irow p.icol else st.m) p.icol p.icol =
      st.m p.irow p.icol := by
    by_cases e : p.irow = p.icol
    · rw [if_neg (by simpa using e), e]
    · rw [if_pos e, swapRows_pivot]
  simp only [invStep, hp, hpiv]
  by_cases h0 : st.m p.irow p.icol = 0
  · refine .inl ⟨if_pos h0, ?_⟩
    -- a zero maximum leaves no pivot in row `i`, which a nonsingular input always has
    by_contra hdet
    have hred := reduced_applyPivots st.indx (reduced_empty (gfM a)) h.admissible
    obtain ⟨j, hj, hne⟩ := exists_pivot hred (det_permuteRows_ne st.indx hdet) hi
    rw [← h.reduced] at hne
    exact hne (by rw [gfM, hz h0 i j hi hj, gf_zero])
  · have hne : applyPivots st.indx (gfM a) p.irow p.icol ≠ 0 := by
      rw [← h.reduced]
      exact fun e => h0 (gf_eq_zero.mp e)
    refine .inr ⟨_, p.irow, p.icol, if_neg h0, ⟨?_, ?_, ?_⟩, rfl, hc⟩
    · exact admissible_append h.admissible hr hc hne
    · rw [gfM_eliminate (by rw [hpiv]; exact h0), gfM_swapRows, h.reduced, applyPivots_append]
    · intro k
      simp only [usedCols_append, Finset.mem_insert]
      by_cases hk : k = p.icol
      · subst hk
        simp [h.marks p.icol, hc]
      · simp [hk, h.marks k]

theorem usedCols_card_append {indx : List (Fin n × Fin n)} {r c : Fin n}
    (hc : c ∉ usedCols indx ∅) :
    (usedCols (indx ++ [(r, c)]) ∅).card = (usedCols indx ∅).card + 1 := by
  rw [usedCols_append, Finset.card_insert_of_notMem hc]

theorem invLoop_spec (t : ℕ) (h : InvReached a st) (ht : (usedCols st.indx ∅).card + t = n) :
    (invLoop t st = none ∧ (gfM a).det = 0) ∨
    ∃ st', invLoop t st = some st' ∧ InvReached a st' ∧ usedCols st'.indx ∅ = Finset.univ := by
  induction t generalizing st with
  | zero =>
    refine .inr ⟨st, rfl, h, ?_⟩
    rw [← Finset.card_eq_iff_eq_univ, Fintype.card_fin]
    omega
  | succ t ih =>
    obtain ⟨i, hi⟩ : ∃ i, i ∉ usedCols st.indx ∅ := by
      by_contra hno
      push Not at hno
      rw [Finset.eq_univ_iff_forall.mpr hno, Finset.card_univ, Fintype.card_fin] at ht
      omega
    rw [invLoop]
    rcases invStep_spec h hi with ⟨hn, hd⟩ | ⟨st', r, c, hs, h', hix, hc⟩
    · exact .inl ⟨by rw [hn]; rfl, hd⟩
    · rw [hs]
      refine ih h' ?_
      rw [hix, usedCols_card_append hc]
      omega

theorem invReached_init (a : ByteMatrix n) (zero : Fin n) :
    InvReached a ⟨a, fun _ => 0, zero, zero, []⟩ :=
  ⟨trivial, rfl, fun k => by simp [usedCols]⟩

theorem matrixInvGf256_spec (h0 : 0 < n) (hn : n < 0x100) (a : ByteMatrix n) :
    (matrixInvGf256 n a = none ∧ (gfM a).det = 0) ∨
    ∃ r, matrixInvGf256 n a = some r ∧ gfM r * gfM a = 1 := by
  rw [matrixInvGf256, dif_neg (by omega)]
  rcases invLoop_spec n (invReached_init a ⟨0, h0⟩) (by simp [usedCols]) with
    ⟨hnone, hd⟩ | ⟨st, hs, h, huniv⟩
  · exact .inl ⟨by simp [hnone], hd⟩
  · refine .inr ⟨restoreColumns st.indx st.m, by simp [hs], ?_⟩
    rw [gfM_restoreColumns, h.reduced]
    exact unscramble_applyPivots_mul st.indx (gfM a) h.admissible huniv

theorem matrixInvGf256_size {a r : ByteMatrix n} (h : matrixInvGf256 n a = some r) :
    0 < n ∧ n < 0x100 := by
  by_contra hno
  rw [matrixInvGf256, dif_pos (by omega)] at h
  cases h

theorem matrixInvGf256_mul {a r : ByteMatrix n} (h : matrixInvGf256 n a = some r) :
    gfM r * gfM a = 1 := by
  obtain ⟨h0, hn⟩ := matrixInvGf256_size h
  rcases matrixInvGf256_spec h0 hn a with ⟨hnone, -⟩ | ⟨r', hr', hmul⟩
  · rw [hnone] at h
    cases h
  · rw [hr', some_inj] at h
    rwa [← h]

theorem matrixInvGf256_isSome (h0 : 0 < n) (hn : n < 0x100) (hdet : (gfM a).det ≠ 0) :
    ∃ r, matrixInvGf256 n a = some r := by
  rcases matrixInvGf256_spec h0 hn a with ⟨-, hd⟩ | ⟨r, hr, -⟩
  · exact absurd hd hdet
  · exact ⟨r, hr⟩

/-- It returns 0 for the invertible matrices, and leaves the inverse in place. Every row and column
    that it reads or writes is one of the `n`. -/
theorem matrixInvGf256_exact (h0 : 1 ≤ n) (hn : n ≤ 255) (a : ByteMatrix n) :
    ((matrixInvGf256 n a).isSome ↔ IsUnit (gfM a)) ∧
      ∀ r, matrixInvGf256 n a = some r → gfM r = (gfM a)⁻¹ := by
  refine ⟨⟨fun h => ?_, fun h => ?_⟩, fun r hr => ?_⟩
  · obtain ⟨r, hr⟩ := isSome_iff_exists.mp h
    have hdet := Matrix.isUnit_det_of_left_inverse (matrixInvGf256_mul hr)
    exact (Matrix.isUnit_iff_isUnit_det (gfM a)).mpr hdet
  · have hdet := ((Matrix.isUnit_iff_isUnit_det (gfM a)).mp h).ne_zero
    exact isSome_iff_exists.mpr (matrixInvGf256_isSome h0 (by omega) hdet)
  · exact (Matrix.inv_eq_left_inv (matrixInvGf256_mul hr)).symm

/-- The pivot of the first column is in the second row. -/
theorem matrixInvGf256_exact_swap : IsUnit (gfM ![![0, 1], ![2, 0]]) ∧
      gfM ![![0, 0x8e], ![1, 0]] = (gfM ![![0, 1], ![2, 0]])⁻¹ := by
  obtain ⟨hunit, hinverse⟩ :=
    matrixInvGf256_exact (by decide) (by decide) (![![0, 1], ![2, 0]] : ByteMatrix 2)
  exact ⟨hunit.mp (by decide +kernel), hinverse _ (by decide +kernel)⟩

end Apackage.Rtp2httpd
