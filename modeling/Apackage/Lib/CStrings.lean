import Mathlib.Algebra.Ring.Int.Defs
import Mathlib.Algebra.Ring.Nat
import Mathlib.Data.List.Basic
import Mathlib.Data.List.TakeWhile

/-
  Zero terminated strings in checked memory.

  A pointer into a string is the memory from there on; a read or write outside the memory is none.
  `scan` is the loop `while (*p++)` that looks for a separator, and so never compares the first
  character with it. On a terminated string it stays inside and runs over the pieces between the
  separators (`scan_eq`).
-/

namespace Apackage.Lib.CStrings

open List Option

/-- The string that begins a memory. -/
def stringAt (mem : List UInt8) : Option (List UInt8) :=
  if 0 ∈ mem then some (mem.takeWhile (· != 0)) else none

/-- `strncpy`: `n` bytes are written, with zeros behind the end of the string. -/
def strncpy (dst src : List UInt8) (n : ℕ) : Option (List UInt8) :=
  if dst.length < n ∨ src.length < n ∧ 0 ∉ src then none
  else
    let copied := (src.take n).takeWhile (· != 0)
    some (copied ++ List.replicate (n - copied.length) 0 ++ dst.drop n)

/-- `strncpy` of what stands between two pointers, whose difference is a `size_t`. -/
def strncpyBetween (dst mem : List UInt8) (first last : ℕ) : Option (List UInt8) :=
  strncpy dst (mem.drop first) (((last : ℤ) - first) % 2 ^ 64).toNat

def strcpy (dst src : List UInt8) : Option (List UInt8) :=
  (stringAt src).bind fun text =>
    if text.length < dst.length then some (text ++ 0 :: dst.drop (text.length + 1)) else none

/-- A buffer of `n` bytes that was zero before the text was copied to it. -/
def fill (n : ℕ) (text : List UInt8) : List UInt8 := text ++ List.replicate (n - text.length) 0

/-! ## Strings -/

variable {text : List UInt8}

theorem nonzero_of_mem (h : 0 ∉ text) : ∀ c ∈ text, (c != 0) = true := by
  intro c hc
  rw [bne_iff_ne]
  rintro rfl
  exact h hc

theorem takeWhile_append_zero (h : 0 ∉ text) (post : List UInt8) :
    (text ++ 0 :: post).takeWhile (· != 0) = text := by
  rw [takeWhile_append_of_pos (nonzero_of_mem h), takeWhile_cons_of_neg (by decide), append_nil]

theorem stringAt_append (h : 0 ∉ text) (post : List UInt8) :
    stringAt (text ++ 0 :: post) = some text := by
  have hmem : 0 ∈ text ++ 0 :: post := mem_append_right _ mem_cons_self
  rw [stringAt, if_pos hmem, takeWhile_append_zero h]

variable {n : ℕ}

theorem length_fill (h : text.length ≤ n) : (fill n text).length = n := by
  rw [fill, length_append, length_replicate]
  omega

theorem fill_of_lt (h : text.length < n) :
    fill n text = text ++ 0 :: List.replicate (n - (text.length + 1)) 0 := by
  rw [fill, show n - text.length = n - (text.length + 1) + 1 by omega, replicate_succ]

theorem zero_mem_fill (h : text.length < n) : 0 ∈ fill n text := by
  rw [fill_of_lt h]
  exact mem_append_right _ mem_cons_self

theorem fill_of_length (h : text.length = n) : fill n text = text := by
  rw [fill, h, Nat.sub_self, replicate_zero, append_nil]

theorem stringAt_fill (hzero : 0 ∉ text) (h : text.length ≤ n) :
    stringAt (fill n text) = if text.length < n then some text else none := by
  by_cases hlt : text.length < n
  · rw [fill_of_lt hlt, stringAt_append hzero, if_pos hlt]
  · rw [fill_of_length (by omega), stringAt, if_neg hzero, if_neg hlt]

/-! ## Copies -/

theorem strncpy_append (hzero : 0 ∉ text) (dst rest : List UInt8) :
    strncpy dst (text ++ rest) text.length =
      if text.length ≤ dst.length then some (text ++ dst.drop text.length) else none := by
  have hcopied : ((text ++ rest).take text.length).takeWhile (· != 0) = text := by
    rw [take_left, takeWhile_eq_self_iff]
    exact nonzero_of_mem hzero
  unfold strncpy
  by_cases h : text.length ≤ dst.length
  · rw [if_neg (by rw [length_append]; omega), if_pos h]
    dsimp only
    rw [hcopied, Nat.sub_self, replicate_zero, append_nil]
  · rw [if_pos (by omega), if_neg h]

theorem strncpy_last (hzero : 0 ∉ text) (dst rest : List UInt8) :
    strncpy dst (text ++ 0 :: rest) (text.length + 1) =
      if text.length < dst.length then some (text ++ 0 :: dst.drop (text.length + 1))
      else none := by
  have hcopied : ((text ++ 0 :: rest).take (text.length + 1)).takeWhile (· != 0) = text := by
    rw [take_length_add_append, take_succ_cons, take_zero, takeWhile_append_zero hzero]
  unfold strncpy
  by_cases h : text.length < dst.length
  · rw [if_neg (by rw [length_append, length_cons]; omega), if_pos h]
    dsimp only
    rw [hcopied, Nat.add_sub_cancel_left, replicate_one, append_assoc, singleton_append]
  · rw [if_pos (by omega), if_neg h]

theorem strncpyBetween_eq {dst mem : List UInt8} {first last : ℕ} (h : first ≤ last)
    (hlast : last < 2 ^ 64) :
    strncpyBetween dst mem first last = strncpy dst (mem.drop first) (last - first) := by
  have hcount : (((last : ℤ) - first) % 2 ^ 64).toNat = last - first := by omega
  rw [strncpyBetween, hcount]

theorem strncpyBetween_of_lt {dst mem : List UInt8} {first last : ℕ} (h : last < first)
    (hfirst : first - last < 2 ^ 63) (hdst : dst.length < 2 ^ 63) :
    strncpyBetween dst mem first last = none := by
  unfold strncpyBetween strncpy
  rw [if_pos (by omega)]

variable {pre rest : List UInt8}

theorem copy_piece (hzero : 0 ∉ text) (h : pre.length + text.length < 2 ^ 64)
    (dst : List UInt8) :
    strncpyBetween dst (pre ++ (text ++ rest)) pre.length (pre.length + text.length) =
      if text.length ≤ dst.length then some (text ++ dst.drop text.length) else none := by
  rw [strncpyBetween_eq (Nat.le_add_right _ _) h, drop_left, Nat.add_sub_cancel_left,
    strncpy_append hzero]

theorem copy_last (hzero : 0 ∉ text) (h : pre.length + (text.length + 1) < 2 ^ 64)
    (dst : List UInt8) :
    strncpyBetween dst (pre ++ (text ++ 0 :: rest)) pre.length
        (pre.length + (text.length + 1)) =
      if text.length < dst.length then some (text ++ 0 :: dst.drop (text.length + 1))
      else none := by
  rw [strncpyBetween_eq (Nat.le_add_right _ _) h, drop_left, Nat.add_sub_cancel_left,
    strncpy_last hzero]

/-! ## Buffers of zeros -/

theorem append_drop_fill (n : ℕ) (text : List UInt8) :
    text ++ (fill n []).drop text.length = fill n text := by
  rw [fill, fill, nil_append, drop_replicate, length_nil, Nat.sub_zero]

theorem append_zero_drop_fill (h : text.length < n) :
    text ++ 0 :: (fill n []).drop (text.length + 1) = fill n text := by
  rw [fill_of_lt h, fill, nil_append, drop_replicate, length_nil, Nat.sub_zero]

theorem copy_piece_fill (hzero : 0 ∉ text) (h : pre.length + text.length < 2 ^ 64) (n : ℕ) :
    strncpyBetween (fill n []) (pre ++ (text ++ rest)) pre.length (pre.length + text.length) =
      if text.length ≤ n then some (fill n text) else none := by
  rw [copy_piece hzero h, length_fill (Nat.zero_le n), append_drop_fill]

theorem copy_last_fill (hzero : 0 ∉ text) (h : pre.length + (text.length + 1) < 2 ^ 64) (n : ℕ) :
    strncpyBetween (fill n []) (pre ++ (text ++ 0 :: rest)) pre.length
        (pre.length + (text.length + 1)) =
      if text.length < n then some (fill n text) else none := by
  rw [copy_last hzero h, length_fill (Nat.zero_le n)]
  by_cases hlt : text.length < n
  · rw [if_pos hlt, if_pos hlt, append_zero_drop_fill hlt]
  · rw [if_neg hlt, if_neg hlt]

theorem strcpy_fill {src : List UInt8} (hsrc : stringAt src = some text) (n : ℕ) :
    strcpy (fill n []) src = if text.length < n then some (fill n text) else none := by
  rw [strcpy, hsrc, bind_some, length_fill (Nat.zero_le n)]
  by_cases hlt : text.length < n
  · rw [if_pos hlt, if_pos hlt, append_zero_drop_fill hlt]
  · rw [if_neg hlt, if_neg hlt]

theorem strncpy_take (hzero : 0 ∉ text) {k n : ℕ} (h : k ≤ n) :
    strncpy (fill n []) (text ++ [0]) k = some (fill n (text.take k)) := by
  have hlength : (fill n []).length = n := length_fill (Nat.zero_le n)
  have hcopied : ((text ++ [0]).take k).takeWhile (· != 0) = text.take k := by
    have hkept := nonzero_of_mem fun h : 0 ∈ text.take k => hzero (mem_of_mem_take h)
    rw [take_append]
    by_cases hk : k ≤ text.length
    · rw [Nat.sub_eq_zero_of_le hk, take_zero, append_nil]
      exact takeWhile_eq_self_iff.2 hkept
    · have hone : ([0] : List UInt8).take (k - text.length) = [0] :=
        take_of_length_le (by rw [length_singleton]; omega)
      rw [hone, takeWhile_append_of_pos hkept, takeWhile_cons_of_neg (by decide), append_nil]
  have hmem : ¬ ((fill n []).length < k ∨ (text ++ [0]).length < k ∧ 0 ∉ text ++ [0]) := by
    rintro (h | h)
    · omega
    · exact h.2 (mem_append_right _ mem_cons_self)
  rw [strncpy, if_neg hmem]
  dsimp only
  rw [hcopied, fill, fill, nil_append, drop_replicate, append_assoc,
    replicate_append_replicate, length_take, length_nil]
  congr 3
  omega

/-! ## Pieces -/

section Pieces

variable {α : Type*} [DecidableEq α]

/-- The pieces that a separator ends, from the one that has begun. -/
def closedFrom (sep : α) (begun : List α) : List α → List (List α)
  | [] => []
  | c :: rest =>
    if c = sep then begun :: closedFrom sep [] rest else closedFrom sep (begun ++ [c]) rest

/-- The piece behind the last separator. -/
def lastFrom (sep : α) (begun : List α) : List α → List α
  | [] => begun
  | c :: rest => if c = sep then lastFrom sep [] rest else lastFrom sep (begun ++ [c]) rest

/-- The first character is not compared. -/
def closed (sep : α) : List α → List (List α)
  | [] => []
  | c :: rest => closedFrom sep [c] rest

def last (sep : α) : List α → List α
  | [] => []
  | c :: rest => lastFrom sep [c] rest

theorem not_mem_from {a sep : α} {text : List α} (htext : a ∉ text) {begun : List α}
    (hbegun : a ∉ begun) :
    (∀ piece ∈ closedFrom sep begun text, a ∉ piece) ∧ a ∉ lastFrom sep begun text := by
  induction text generalizing begun with
  | nil => exact ⟨fun _ h => absurd h not_mem_nil, hbegun⟩
  | cons c rest ih =>
    obtain ⟨hc, hrest⟩ := not_or.1 (fun h => htext (List.mem_cons.2 h))
    rw [closedFrom, lastFrom]
    split
    · grind
    · exact ih hrest (by simp [hbegun, hc])

theorem length_from (sep : α) (begun text : List α) :
    (∀ piece ∈ closedFrom sep begun text, piece.length < begun.length + text.length) ∧
      (lastFrom sep begun text).length ≤ begun.length + text.length := by
  induction text generalizing begun with
  | nil => exact ⟨fun _ h => absurd h not_mem_nil, le_rfl⟩
  | cons c rest ih =>
    rw [closedFrom, lastFrom, length_cons]
    split
    · grind
    · grind

theorem not_mem_pieces {a : α} {text : List α} (h : a ∉ text) (sep : α) :
    (∀ piece ∈ closed sep text, a ∉ piece) ∧ a ∉ last sep text := by
  cases text with
  | nil => exact ⟨fun _ h => absurd h not_mem_nil, h⟩
  | cons c rest =>
    obtain ⟨hc, hrest⟩ := not_or.1 (fun hmem => h (List.mem_cons.2 hmem))
    exact not_mem_from hrest (by simp [hc])

theorem length_pieces (sep : α) (text : List α) :
    (∀ piece ∈ closed sep text, piece.length < text.length) ∧
      (last sep text).length ≤ text.length := by
  cases text with
  | nil => exact ⟨fun _ h => absurd h not_mem_nil, le_rfl⟩
  | cons c rest =>
    obtain ⟨hclosed, hlast⟩ := length_from sep [c] rest
    rw [length_singleton, Nat.add_comm] at hclosed hlast
    exact ⟨hclosed, hlast⟩

end Pieces

/-! ## The loop -/

/-- The loop `while (*p++)` over the memory from `p`: at a separator `body` is run with the pointer
    `first` behind the separator before. It may end the loop and leave a value in `first`. -/
def scan {σ : Type*} (sep : UInt8) (body : σ → ℕ → ℕ → Option (σ × Option ℕ)) (s : σ)
    (first p : ℕ) : List UInt8 → Option (σ × ℕ × ℕ)
  | [] => none
  | c :: rest =>
    if c = 0 then some (s, first, p + 1)
    else if rest.head? = none then none
    else if rest.head? = some sep then
      match body s first (p + 1) with
      | none => none
      | some (s, none) => scan sep body s (p + 2) (p + 1) rest
      | some (s, some first) => some (s, first, p + 1)
    else scan sep body s first (p + 1) rest

/-- The loop over the pieces and what comes behind it: `f` is run for each piece that a separator
    ends, and then `g` for the last one, or `left` if a run of `f` ended the loop. -/
def runPieces {σ ρ : Type*} (f : σ → List UInt8 → Option (σ × Bool)) (left : σ → Option ρ)
    (g : σ → List UInt8 → Option ρ) (last : List UInt8) (s : σ) : List (List UInt8) → Option ρ
  | [] => g s last
  | piece :: pieces =>
    (f s piece).bind fun r => if r.2 then left r.1 else runPieces f left g last r.1 pieces

section Scan

variable {σ ρ : Type*} {sep : UInt8} {mem : List UInt8}

/-- The body and the code behind the loop do for the offsets what is done for the pieces. -/
structure Runs (sep : UInt8) (mem : List UInt8) (body : σ → ℕ → ℕ → Option (σ × Option ℕ))
    (after : σ × ℕ × ℕ → Option ρ) (f : σ → List UInt8 → Option (σ × Bool)) (left : σ → Option ρ)
    (g : σ → List UInt8 → Option ρ) : Prop where
  body : ∀ s pre piece rest, mem = pre ++ (piece ++ sep :: rest) → 0 ∉ piece →
    (f s piece = none ∧ body s pre.length (pre.length + piece.length) = none) ∨
    (∃ s', f s piece = some (s', false) ∧
      body s pre.length (pre.length + piece.length) = some (s', none)) ∨
    ∃ s' first, f s piece = some (s', true) ∧
      body s pre.length (pre.length + piece.length) = some (s', some first) ∧
      after (s', first, pre.length + piece.length) = left s'
  after : ∀ s pre piece rest, mem = pre ++ (piece ++ 0 :: rest) → 0 ∉ piece →
    after (s, pre.length, pre.length + (piece.length + 1)) = g s piece

variable {body : σ → ℕ → ℕ → Option (σ × Option ℕ)} {after : σ × ℕ × ℕ → Option ρ}
  {f : σ → List UInt8 → Option (σ × Bool)} {left : σ → Option ρ} {g : σ → List UInt8 → Option ρ}

theorem Runs.from (h : Runs sep mem body after f left g) (hsep : sep ≠ 0) {text post : List UInt8}
    (htext : 0 ∉ text) :
    ∀ (s : σ) (pre begun : List UInt8) (c : UInt8) (p : ℕ), c ≠ 0 → 0 ∉ begun →
      mem = pre ++ (begun ++ (text ++ 0 :: post)) → p + 1 = pre.length + begun.length →
      (scan sep body s pre.length p (c :: (text ++ 0 :: post))).bind after =
        runPieces f left g (lastFrom sep begun text) s (closedFrom sep begun text) := by
  induction text with
  | nil =>
    intro s pre begun c p hc hbegun hmem hp
    have hzero : ¬ some (0 : UInt8) = some sep := fun h => hsep (some.inj h).symm
    have hafter := h.after s pre begun post hmem hbegun
    rw [← Nat.add_assoc, ← hp] at hafter
    rw [nil_append, scan, if_neg hc, head?_cons, if_neg (some_ne_none _),
      if_neg hzero, scan, if_pos rfl, bind_some, hafter, closedFrom, lastFrom, runPieces]
  | cons d rest ih =>
    intro s pre begun c p hc hbegun hmem hp
    obtain ⟨hd, hrest⟩ := not_or.1 (fun h => htext (List.mem_cons.2 h))
    have hd : d ≠ 0 := Ne.symm hd
    rw [cons_append, scan, if_neg hc, head?_cons, if_neg (some_ne_none _)]
    by_cases hdsep : d = sep
    · subst hdsep
      rw [if_pos rfl, hp, closedFrom, lastFrom, if_pos rfl, if_pos rfl, runPieces]
      obtain ⟨hf, hbody⟩ | ⟨s', hf, hbody⟩ | ⟨s', first, hf, hbody, hleft⟩ :=
        h.body s pre begun (rest ++ 0 :: post) hmem hbegun
      · rw [hf, hbody]
        rfl
      · have hmem' : mem = (pre ++ (begun ++ [d])) ++ ([] ++ (rest ++ 0 :: post)) := by
          rw [hmem]
          simp
        have hlength : (pre ++ (begun ++ [d])).length = pre.length + begun.length + 1 := by
          simp [Nat.add_assoc]
        have hstep := ih hrest s' (pre ++ (begun ++ [d])) [] d (pre.length + begun.length) hd
          not_mem_nil hmem' (by rw [hlength, length_nil, Nat.add_zero])
        rw [hlength] at hstep
        rw [hf, hbody, show p + 2 = pre.length + begun.length + 1 by omega]
        exact hstep
      · rw [hf, hbody]
        exact hleft
    · rw [if_neg (fun h => hdsep (some.inj h)), closedFrom, lastFrom, if_neg hdsep, if_neg hdsep]
      refine ih hrest s pre (begun ++ [d]) d (p + 1) hd ?_ ?_ ?_
      · simp [hbegun, Ne.symm hd]
      · rw [hmem]
        simp
      · rw [length_append, length_singleton]
        omega

/-- On a terminated string the loop is one over its pieces. -/
theorem Runs.scan_eq (h : Runs sep mem body after f left g) (hsep : sep ≠ 0)
    {text post : List UInt8} (htext : 0 ∉ text) (hmem : mem = text ++ 0 :: post) (s : σ) :
    (scan sep body s 0 0 mem).bind after =
      runPieces f left g (last sep text) s (closed sep text) := by
  cases text with
  | nil =>
    have hafter := h.after s [] [] post hmem htext
    rw [hmem]
    exact hafter
  | cons c rest =>
    obtain ⟨hc, hrest⟩ := not_or.1 (fun h => htext (List.mem_cons.2 h))
    have hfrom := h.from hsep hrest s [] [c] c 0 (Ne.symm hc) (by simp [hc]) (by rw [hmem]; rfl) rfl
    rw [hmem]
    exact hfrom

end Scan

end Apackage.Lib.CStrings
