import Mathlib.Order.ConditionallyCompleteLattice.Finset
import Mathlib.Data.Int.ConditionallyCompleteOrder
import Mathlib.Data.Finset.Sort
import Apackage.Lib.Tiling

/-
  Catch-up windows (`catchup-windows.ts`).

  `planCatchupSegmentWindows` cuts the time from a seek back in time up to eight hours ahead
  into the ranges of the requests it will make: on programme edges up to ten seconds ago, in
  chunks of half the duration from there on.

  Model. Times are milliseconds, valid and small enough for exact numbers (the first 140000
  years). The cap of the chunks ahead may be half a millisecond, so the loop that cuts a range
  counts in halves, and `newDate` drops a half as `new Date` does. The bounds of a programme
  may be invalid dates. No programmes are an empty list.
-/

namespace Apackage.Rtp2httpd.CatchupWindows

open List Lib.Tiling

def catchupMinDurationMs : ℤ := 30000
def catchupLiveSplitOffsetMs : ℤ := 10000
def catchupFutureHorizonMs : ℤ := 8 * 60 * 60 * 1000
def catchupMaxSegmentMs : ℤ := 5 * 60 * 60 * 1000

/-- `CatchupProgramBound`; none is an invalid date. -/
structure CatchupProgramBound where
  start : Option ℤ
  stop : Option ℤ

abbrev CatchupTimeWindow := Window ℤ

def clampCatchupStartTime (seekTime now : ℤ) : ℤ := min seekTime (now - catchupMinDurationMs)

def splitPointMs (now : ℤ) : ℤ := now - catchupLiveSplitOffsetMs

def endingFutureMs (now : ℤ) : ℤ := now + catchupFutureHorizonMs

def addBoundary (boundaries : Finset ℤ) (timeMs rangeStartMs rangeEndMs : ℤ) : Finset ℤ :=
  if timeMs > rangeStartMs ∧ timeMs < rangeEndMs then insert timeMs boundaries else boundaries

def nearLiveCatchup (startMs now : ℤ) : Prop :=
  max 0 (splitPointMs now - startMs) ≤ catchupMinDurationMs
  deriving Decidable

def useEpgPastSplits (startMs now : ℤ) (programs : List CatchupProgramBound) : Prop :=
  programs ≠ [] ∧ ¬ nearLiveCatchup startMs now
  deriving Decidable

def addProgram (startMs now : ℤ) (boundaries : Finset ℤ) (program : CatchupProgramBound) :
    Finset ℤ :=
  match program.start, program.stop with
  | some programStartMs, some programEndMs =>
    if programEndMs ≤ programStartMs then boundaries
    else if programEndMs ≤ startMs ∨ programStartMs ≥ splitPointMs now then boundaries
    else
      addBoundary (addBoundary boundaries programStartMs startMs (splitPointMs now))
        programEndMs startMs (splitPointMs now)
  | _, _ => boundaries

/-- `boundaries` when they are sorted. -/
def boundaries (startMs now : ℤ) (programs : List CatchupProgramBound) : Finset ℤ :=
  let initial := addBoundary {startMs, endingFutureMs now} (splitPointMs now) startMs
    (endingFutureMs now)
  if useEpgPastSplits startMs now programs then
    programs.foldl (addProgram startMs now) initial
  else initial

def times (startMs now : ℤ) (programs : List CatchupProgramBound) : List ℤ :=
  (boundaries startMs now programs).sort (· ≤ ·)

def fallbackDurationMs (startMs now : ℤ) : ℤ :=
  min (max (now - startMs) catchupMinDurationMs) catchupMaxSegmentMs

def pastCapMs (startMs now : ℤ) (programs : List CatchupProgramBound) : ℤ :=
  if useEpgPastSplits startMs now programs then catchupMaxSegmentMs
  else fallbackDurationMs startMs now

/-- `new Date` of a number of half milliseconds. -/
def newDate (halves : ℤ) : ℤ := if 0 ≤ halves then halves / 2 else -(-halves / 2)

/-- The `while` loop in half milliseconds, with fuel. -/
def cutRange (cap rangeEnd : ℤ) : ℕ → ℤ → List CatchupTimeWindow
  | 0, _ => []
  | fuel + 1, cursor =>
    if cursor < rangeEnd then
      let next := min (cursor + cap) rangeEnd
      (if next > cursor then [⟨newDate cursor, newDate next⟩] else []) ++
        cutRange cap rangeEnd fuel next
    else []

/-- The cap of a range in half milliseconds: `pastCapMs`, or `futureCapMs`, which is half of
    `fallbackDurationMs`. -/
def capHalves (startMs now : ℤ) (programs : List CatchupProgramBound) (rangeStartMs : ℤ) : ℤ :=
  if rangeStartMs ≥ splitPointMs now then fallbackDurationMs startMs now
  else 2 * pastCapMs startMs now programs

/-- One turn of the loop over `times`. -/
def rangeWindows (startMs now : ℤ) (programs : List CatchupProgramBound)
    (rangeStartMs rangeEndMs : ℤ) : List CatchupTimeWindow :=
  if rangeEndMs ≤ rangeStartMs then []
  else
    cutRange (capHalves startMs now programs rangeStartMs) (2 * rangeEndMs)
      (2 * rangeEndMs - 2 * rangeStartMs).toNat (2 * rangeStartMs)

def planCatchupSegmentWindows (startTimeArg now : ℤ) (programs : List CatchupProgramBound) :
    List CatchupTimeWindow :=
  let startMs := clampCatchupStartTime startTimeArg now
  if endingFutureMs now ≤ startMs then []
  else refine (rangeWindows startMs now programs) (times startMs now programs)

/-! ## The points of a plan -/

/-- `t` is an edge of a valid programme strictly between the start and the split point. -/
def ProgramEdge (startMs now : ℤ) (program : CatchupProgramBound) (t : ℤ) : Prop :=
  ∃ s e, program.start = some s ∧ program.stop = some e ∧ s < e ∧ (t = s ∨ t = e) ∧
    startMs < t ∧ t < splitPointMs now

variable {b : Finset ℤ}

theorem mem_addBoundary {t x lo hi : ℤ} :
    t ∈ addBoundary b x lo hi ↔ t ∈ b ∨ (t = x ∧ lo < t ∧ t < hi) := by
  rw [addBoundary]
  split_ifs with h
  · rw [Finset.mem_insert]
    constructor
    · rintro (rfl | ht)
      · exact .inr ⟨rfl, h⟩
      · exact .inl ht
    · rintro (ht | ⟨rfl, -⟩)
      · exact .inr ht
      · exact .inl rfl
  · refine ⟨.inl, ?_⟩
    rintro (ht | ⟨rfl, hlt⟩)
    · exact ht
    · exact absurd hlt h

variable {now startMs : ℤ}

theorem mem_addProgram {t : ℤ} {program : CatchupProgramBound} :
    t ∈ addProgram startMs now b program ↔ t ∈ b ∨ ProgramEdge startMs now program t := by
  obtain ⟨start, stop⟩ := program
  rw [ProgramEdge]
  cases start with
  | none => simp [addProgram]
  | some s =>
    cases stop with
    | none => simp [addProgram]
    | some e =>
      simp only [addProgram, Option.some.injEq, exists_eq_left', exists_and_left]
      split_ifs with h1 h2
      · exact ⟨.inl, fun h => h.elim id fun hedge => absurd hedge.1 (by omega)⟩
      · refine ⟨.inl, fun h => h.elim id ?_⟩
        rintro ⟨hlt, rfl | rfl, hlo, hhi⟩ <;> omega
      · rw [mem_addBoundary, mem_addBoundary]
        constructor
        · rintro ((ht | ⟨rfl, ht⟩) | ⟨rfl, ht⟩)
          · exact .inl ht
          · exact .inr ⟨by omega, .inl rfl, ht⟩
          · exact .inr ⟨by omega, .inr rfl, ht⟩
        · rintro (ht | ⟨-, rfl | rfl, ht⟩)
          · exact .inl (.inl ht)
          · exact .inl (.inr ⟨rfl, ht⟩)
          · exact .inr ⟨rfl, ht⟩

variable {programs : List CatchupProgramBound}

theorem mem_foldl_addProgram {t : ℤ} : t ∈ programs.foldl (addProgram startMs now) b ↔
      t ∈ b ∨ ∃ p ∈ programs, ProgramEdge startMs now p t := by
  induction programs generalizing b with
  | nil => simp
  | cons p programs ih =>
    rw [foldl_cons, ih, mem_addProgram]
    simp [or_assoc]

theorem split_lt_end (now : ℤ) : splitPointMs now < endingFutureMs now := by
  simp only [splitPointMs, endingFutureMs, catchupLiveSplitOffsetMs, catchupFutureHorizonMs]
  omega

theorem times_chain (startMs now : ℤ) (programs : List CatchupProgramBound) :
    (times startMs now programs).IsChain (· < ·) :=
  isChain_iff_pairwise.2 (Finset.sortedLT_sort (boundaries startMs now programs)).pairwise

section

variable {startMs now : ℤ} {programs : List CatchupProgramBound}
  (hstart : startMs ≤ now - catchupMinDurationMs)

include hstart

theorem start_lt_split : startMs < splitPointMs now := by
  simp only [splitPointMs, catchupMinDurationMs, catchupLiveSplitOffsetMs] at *
  omega

theorem mem_boundaries {t : ℤ} : t ∈ boundaries startMs now programs ↔
      t = startMs ∨ t = splitPointMs now ∨ t = endingFutureMs now ∨
        (useEpgPastSplits startMs now programs ∧ ∃ p ∈ programs, ProgramEdge startMs now p t) := by
  have hlo := start_lt_split hstart
  have hhi := split_lt_end now
  have hinitial : t ∈ addBoundary {startMs, endingFutureMs now} (splitPointMs now) startMs
      (endingFutureMs now) ↔
      t = startMs ∨ t = splitPointMs now ∨ t = endingFutureMs now := by
    rw [mem_addBoundary, Finset.mem_insert, Finset.mem_singleton]
    constructor
    · rintro ((h | h) | ⟨h, -⟩)
      · exact .inl h
      · exact .inr (.inr h)
      · exact .inr (.inl h)
    · rintro (h | h | h)
      · exact .inl (.inl h)
      · exact .inr ⟨h, by omega, by omega⟩
      · exact .inl (.inr h)
  rw [boundaries]
  split_ifs with huse
  · rw [mem_foldl_addProgram, hinitial]
    tauto
  · rw [hinitial]
    tauto

theorem start_le_boundary {t : ℤ} (h : t ∈ boundaries startMs now programs) : startMs ≤ t := by
  have hlo := start_lt_split hstart
  have hhi := split_lt_end now
  rcases (mem_boundaries hstart).1 h with rfl | rfl | rfl | ⟨-, -, -, -, -, -, -, -, -, hlt, -⟩ <;>
    omega

theorem boundary_behind_split {t : ℤ} (h : t ∈ boundaries startMs now programs)
    (hlt : splitPointMs now < t) : t = endingFutureMs now := by
  have hlo := start_lt_split hstart
  rcases (mem_boundaries hstart).1 h with rfl | rfl | rfl | ⟨-, -, -, -, -, -, -, -, -, -, hlt⟩ <;>
    omega

theorem times_eq (programs : List CatchupProgramBound) : ∃ past, times startMs now programs =
      startMs :: past ++ [splitPointMs now, endingFutureMs now] ∧
    ∀ t ∈ startMs :: past, t < splitPointMs now := by
  have hsorted : (times startMs now programs).Pairwise (· < ·) :=
    (Finset.sortedLT_sort (boundaries startMs now programs)).pairwise
  have hmem : ∀ t, t ∈ times startMs now programs ↔ t ∈ boundaries startMs now programs :=
    fun t => Finset.mem_sort _
  have hlo := start_lt_split hstart
  have hhi := split_lt_end now
  have hsplit := (hmem (splitPointMs now)).2 ((mem_boundaries hstart).2 (.inr (.inl rfl)))
  obtain ⟨past, after, htimes⟩ := List.append_of_mem hsplit
  rw [htimes] at hsorted hmem
  rw [htimes]
  obtain ⟨hpast, hafter, hbetween⟩ := pairwise_append.1 hsorted
  obtain ⟨hbehind, hafter⟩ := pairwise_cons.1 hafter
  have hbefore : ∀ t ∈ past, t < splitPointMs now := fun t ht => hbetween t ht _ mem_cons_self
  have hend : endingFutureMs now ∈ after := by
    have h := (hmem (endingFutureMs now)).2 ((mem_boundaries hstart).2 (.inr (.inr (.inl rfl))))
    rcases mem_append.1 h with h | h
    · exact absurd (hbefore _ h) (by omega)
    · exact (List.mem_cons.1 h).resolve_left (by omega)
  have hlast : ∀ t ∈ after, t = endingFutureMs now := fun t ht =>
    boundary_behind_split hstart
      ((hmem t).1 (mem_append_right _ (mem_cons_of_mem _ ht))) (hbehind t ht)
  have hstarts : startMs ∈ past := by
    rcases mem_append.1 ((hmem startMs).2 ((mem_boundaries hstart).2 (.inl rfl))) with h | h
    · exact h
    · rcases List.mem_cons.1 h with h | h
      · exact absurd h (by omega)
      · exact absurd (hbehind _ h) (by omega)
  obtain rfl : after = [endingFutureMs now] := by
    cases after with
    | nil => cases hend
    | cons t rest =>
      have ht := hlast t mem_cons_self
      cases rest with
      | nil => rw [ht]
      | cons u rest =>
        grind
  obtain ⟨first, past, rfl⟩ := exists_cons_of_ne_nil (ne_nil_of_mem hstarts)
  obtain rfl : first = startMs := by
    have hle := start_le_boundary hstart ((hmem first).1 (by simp))
    rcases List.mem_cons.1 hstarts with h | h
    · exact h.symm
    · have hlt := rel_of_pairwise_cons hpast h
      omega
  exact ⟨past, rfl, hbefore⟩

theorem consecutive_side {before after : List ℤ} {a b : ℤ}
    (h : times startMs now programs = before ++ a :: b :: after) :
    a < b ∧ (b ≤ splitPointMs now ∨ splitPointMs now ≤ a) := by
  have hsorted := (Finset.sortedLT_sort (boundaries startMs now programs)).pairwise
  change (times startMs now programs).Pairwise (· < ·) at hsorted
  have hsplit : splitPointMs now ∈ times startMs now programs :=
    (Finset.mem_sort _).2 ((mem_boundaries hstart).2 (.inr (.inl rfl)))
  rw [h] at hsorted hsplit
  obtain ⟨-, hrest, hbetween⟩ := pairwise_append.1 hsorted
  obtain ⟨ha, hrest⟩ := pairwise_cons.1 hrest
  obtain ⟨hb, -⟩ := pairwise_cons.1 hrest
  refine ⟨ha b mem_cons_self, ?_⟩
  rcases mem_append.1 hsplit with hs | hs
  · exact .inr (hbetween _ hs a mem_cons_self).le
  rcases List.mem_cons.1 hs with hs | hs
  · exact .inr hs.le
  rcases List.mem_cons.1 hs with hs | hs
  · exact .inl hs.ge
  · exact .inl (hb _ hs).le

end

/-! ## One range -/

theorem newDate_even (t : ℤ) : newDate (2 * t) = t := by
  rw [newDate]
  split_ifs <;> omega

theorem cutRange_tiles {cap a b : ℤ} {n : ℕ} (hcap : 0 < cap) (hab : a ≤ b)
    (hfuel : 2 * b - 2 * a ≤ n) :
    Tiles a b (cutRange (2 * cap) (2 * b) n (2 * a)) ∧
      ∀ w ∈ cutRange (2 * cap) (2 * b) n (2 * a), w.stop - w.start ≤ cap := by
  induction n generalizing a with
  | zero =>
    obtain rfl : a = b := by omega
    exact ⟨Tiles.nil a, by simp [cutRange]⟩
  | succ n ih =>
    rw [cutRange]
    split_ifs with hlt
    · have hnext : min (2 * a + 2 * cap) (2 * b) = 2 * min (a + cap) b := by omega
      dsimp only
      rw [hnext, if_pos (by omega), newDate_even, newDate_even, singleton_append]
      have hrest := ih (a := min (a + cap) b) (by omega) (by omega)
      refine ⟨Tiles.cons (by omega) hrest.1, ?_⟩
      intro w hw
      rcases List.mem_cons.1 hw with rfl | hw
      · change min (a + cap) b - a ≤ cap
        omega
      · exact hrest.2 w hw
    · obtain rfl : a = b := by omega
      exact ⟨Tiles.nil a, by simp⟩

theorem cutRange_single {cap a b : ℤ} {fuel : ℕ} (hab : a < b) (hcap : b - a ≤ cap) :
    cutRange (2 * cap) (2 * b) (fuel + 1) (2 * a) = [⟨a, b⟩] := by
  have hnext : min (2 * a + 2 * cap) (2 * b) = 2 * b := by omega
  rw [cutRange, if_pos (by omega)]
  dsimp only
  rw [hnext, if_pos (by omega), newDate_even, newDate_even]
  cases fuel with
  | zero => rfl
  | succ fuel => rw [cutRange, if_neg (lt_irrefl _)]; rfl

/-! ## The plan -/

theorem clamp_le (startTimeArg now : ℤ) :
    clampCatchupStartTime startTimeArg now ≤ now - catchupMinDurationMs := min_le_right _ _

theorem plan_eq (startTimeArg now : ℤ) (programs : List CatchupProgramBound) :
    planCatchupSegmentWindows startTimeArg now programs =
      refine (rangeWindows (clampCatchupStartTime startTimeArg now) now programs)
        (times (clampCatchupStartTime startTimeArg now) now programs) := by
  have hlo := start_lt_split (clamp_le startTimeArg now)
  have hhi := split_lt_end now
  rw [planCatchupSegmentWindows, if_neg (by omega)]

section

variable (startTimeArg now : ℤ) (programs : List CatchupProgramBound)

/-- What the windows of a plan are for. -/
structure Planned : Prop where
  /-- They are not empty, contiguous, and cover the time from the clamped start to the horizon. -/
  tiles : Tiles (clampCatchupStartTime startTimeArg now) (endingFutureMs now)
    (planCatchupSegmentWindows startTimeArg now programs)
  /-- None crosses the split point. -/
  sides : ∀ w ∈ planCatchupSegmentWindows startTimeArg now programs,
    w.stop ≤ splitPointMs now ∨ splitPointMs now ≤ w.start
  /-- None before the split point is longer than `pastCapMs`. -/
  past : ∀ w ∈ planCatchupSegmentWindows startTimeArg now programs, w.start < splitPointMs now →
    w.stop - w.start ≤ pastCapMs (clampCatchupStartTime startTimeArg now) now programs
  /-- None behind it is longer than half of `fallbackDurationMs`. -/
  future : ∀ w ∈ planCatchupSegmentWindows startTimeArg now programs, splitPointMs now ≤ w.start →
    2 * (w.stop - w.start) ≤ fallbackDurationMs (clampCatchupStartTime startTimeArg now) now
  /-- A window starts at each programme edge between start and split point. -/
  edges : useEpgPastSplits (clampCatchupStartTime startTimeArg now) now programs →
    ∀ p ∈ programs, ∀ t, ProgramEdge (clampCatchupStartTime startTimeArg now) now p t →
      ∃ w ∈ planCatchupSegmentWindows startTimeArg now programs, w.start = t
  /-- A near-live request has one window in the past, of the minimal duration at least. -/
  nearLive : nearLiveCatchup (clampCatchupStartTime startTimeArg now) now →
    ∃ w, (planCatchupSegmentWindows startTimeArg now programs).filter
        (fun w => w.start < splitPointMs now) = [w] ∧
      catchupMinDurationMs ≤ w.stop - w.start

/-- The seek is back far enough for the minimal duration before the split point, and half of the
    duration is a whole number of milliseconds. -/
def WholeChunks : Prop :=
  startTimeArg ≤ now - catchupMinDurationMs - catchupLiveSplitOffsetMs ∧
    (2 ∣ now - startTimeArg ∨ catchupMaxSegmentMs ≤ now - startTimeArg)

end

theorem fallback_le (startMs now : ℤ) : catchupMinDurationMs ≤ fallbackDurationMs startMs now ∧
    fallbackDurationMs startMs now ≤ catchupMaxSegmentMs := by
  simp only [fallbackDurationMs, catchupMinDurationMs, catchupMaxSegmentMs]
  omega

theorem pastCap_le (startMs now : ℤ) (programs : List CatchupProgramBound) :
    catchupMinDurationMs ≤ pastCapMs startMs now programs := by
  rw [pastCapMs]
  split_ifs
  · decide
  · exact (fallback_le startMs now).1

theorem rangeWindows_tiles (heven : 2 ∣ fallbackDurationMs startMs now)
    (programs : List CatchupProgramBound) {a b : ℤ} (hab : a < b) :
    Tiles a b (rangeWindows startMs now programs a b) ∧ ∀ w ∈ rangeWindows startMs now programs a b,
        2 * (w.stop - w.start) ≤ capHalves startMs now programs a := by
  have hmin : 0 < catchupMinDurationMs := by decide
  have hfallback := fallback_le startMs now
  have hpast := pastCap_le startMs now programs
  obtain ⟨cap, hpos, hcap⟩ : ∃ cap, 0 < cap ∧ capHalves startMs now programs a = 2 * cap := by
    rw [capHalves]
    split_ifs
    · obtain ⟨cap, hcap⟩ := heven
      exact ⟨cap, by omega, hcap⟩
    · exact ⟨_, by omega, rfl⟩
  have htiles := cutRange_tiles (n := (2 * b - 2 * a).toNat) hpos hab.le (by omega)
  rw [rangeWindows, if_neg (by omega), hcap]
  exact ⟨htiles.1, fun w hw => by have := htiles.2 w hw; omega⟩

theorem times_nearLive (hstart : startMs ≤ now - catchupMinDurationMs)
    (hnear : nearLiveCatchup startMs now) :
    times startMs now programs = [startMs, splitPointMs now, endingFutureMs now] := by
  obtain ⟨past, htimes, hbefore⟩ := times_eq hstart programs
  have hchain := isChain_iff_pairwise.1 (times_chain startMs now programs)
  rw [htimes, cons_append, pairwise_cons] at hchain
  obtain rfl : past = [] := by
    refine eq_nil_iff_forall_not_mem.2 fun t ht => ?_
    have hgt := hchain.1 t (mem_append_left _ ht)
    have hlt := hbefore t (mem_cons_of_mem _ ht)
    have hhi := split_lt_end now
    have hmem : t ∈ boundaries startMs now programs := by
      refine (Finset.mem_sort (· ≤ ·)).1 ?_
      change t ∈ times startMs now programs
      rw [htimes]
      simp [ht]
    rcases (mem_boundaries hstart).1 hmem with rfl | rfl | rfl | ⟨huse, -⟩
    · omega
    · omega
    · omega
    · exact huse.2 hnear
  exact htimes

variable {startTimeArg : ℤ}

section

variable (h : WholeChunks startTimeArg now)

include h

theorem fallback_even : 2 ∣ fallbackDurationMs (clampCatchupStartTime startTimeArg now) now := by
  obtain ⟨hback, heven⟩ := h
  simp only [fallbackDurationMs, clampCatchupStartTime, catchupMinDurationMs,
    catchupLiveSplitOffsetMs, catchupMaxSegmentMs] at *
  omega

theorem clamp_of_whole : clampCatchupStartTime startTimeArg now = startTimeArg := by
  have hback := h.1
  simp only [clampCatchupStartTime, catchupMinDurationMs, catchupLiveSplitOffsetMs] at *
  omega

theorem planned_of_whole (programs : List CatchupProgramBound) :
    Planned startTimeArg now programs := by
  have heven := fallback_even h
  have hstart := clamp_le startTimeArg now
  have hplan := plan_eq startTimeArg now programs
  have hs := clamp_of_whole h
  rw [hs] at heven hstart hplan
  obtain ⟨past, htimes, hbefore⟩ := times_eq hstart programs
  have hchain := times_chain startTimeArg now programs
  -- every window lies between two points that follow each other
  have hplace : ∀ w ∈ planCatchupSegmentWindows startTimeArg now programs, ∃ a b, a < b ∧
      (b ≤ splitPointMs now ∨ splitPointMs now ≤ a) ∧ a ≤ w.start ∧ w.start < w.stop ∧
        w.stop ≤ b ∧ 2 * (w.stop - w.start) ≤ capHalves startTimeArg now programs a := by
    intro w hw
    rw [hplan] at hw
    obtain ⟨before, a, b, after, hpoints, hw⟩ := mem_refine hw
    obtain ⟨hab, hside⟩ := consecutive_side hstart hpoints
    obtain ⟨htiles, hcap⟩ := rangeWindows_tiles heven programs hab
    obtain ⟨hlo, hlt, hhi⟩ := htiles.within w hw
    exact ⟨a, b, hab, hside, hlo, hlt, hhi, hcap w hw⟩
  constructor
  · rw [hs, hplan, htimes]
    rw [htimes] at hchain
    have hlast : (startTimeArg :: past ++ [splitPointMs now, endingFutureMs now]).getLast? =
        some (endingFutureMs now) := getLast?_append_of_ne_nil _ (cons_ne_nil _ _)
    exact tiles_refine hchain hlast fun a b hab => (rangeWindows_tiles heven programs hab).1
  · intro w hw
    obtain ⟨a, b, hab, hside, hlo, hlt, hhi, -⟩ := hplace w hw
    omega
  · intro w hw hpast
    obtain ⟨a, b, hab, hside, hlo, hlt, hhi, hcap⟩ := hplace w hw
    rw [capHalves, if_neg (by omega)] at hcap
    rw [hs]
    omega
  · intro w hw hfuture
    obtain ⟨a, b, hab, hside, hlo, hlt, hhi, hcap⟩ := hplace w hw
    rwa [capHalves, if_pos (by omega), ← hs] at hcap
  · rw [hs, hplan]
    intro huse p hp t ht
    have hmem : t ∈ times startTimeArg now programs :=
      (Finset.mem_sort _).2 ((mem_boundaries hstart).2 (.inr (.inr (.inr ⟨huse, p, hp, ht⟩))))
    obtain ⟨-, -, -, -, -, -, -, hlt⟩ := ht
    have hpast : t ∈ startTimeArg :: past := by
      rw [htimes] at hmem
      rcases mem_append.1 hmem with hmem | hmem
      · exact hmem
      · have hhi := split_lt_end now
        simp only [List.mem_cons, not_mem_nil, or_false] at hmem
        omega
    obtain ⟨before, after, hsplit⟩ := List.append_of_mem hpast
    obtain ⟨next, rest, hnext⟩ := exists_cons_of_ne_nil
      (show after ++ [splitPointMs now, endingFutureMs now] ≠ [] by simp)
    have hpoints : times startTimeArg now programs = before ++ t :: next :: rest := by
      rw [htimes, hsplit, append_assoc, cons_append, hnext]
    have hab := (consecutive_side hstart hpoints).1
    obtain ⟨w, hw, hfirst⟩ := (rangeWindows_tiles heven programs hab).1.first hab
    rw [hpoints]
    exact ⟨w, subset_refine _ _ _ _ _ hw, hfirst⟩
  · rw [hs, hplan]
    intro hnear
    have hsplit := start_lt_split hstart
    have hhi := split_lt_end now
    have hfits : splitPointMs now - startTimeArg ≤ pastCapMs startTimeArg now programs := by
      have hmin := pastCap_le startTimeArg now programs
      have := hnear
      rw [nearLiveCatchup] at this
      omega
    have hone : rangeWindows startTimeArg now programs startTimeArg (splitPointMs now) =
        [⟨startTimeArg, splitPointMs now⟩] := by
      obtain ⟨fuel, hfuel⟩ : ∃ fuel, (2 * splitPointMs now - 2 * startTimeArg).toNat = fuel + 1 :=
        ⟨(2 * splitPointMs now - 2 * startTimeArg).toNat - 1, by omega⟩
      rw [rangeWindows, if_neg (by omega), capHalves, if_neg (by omega), hfuel,
        cutRange_single hsplit hfits]
    have hbehind : (rangeWindows startTimeArg now programs (splitPointMs now)
        (endingFutureMs now)).filter (fun w => w.start < splitPointMs now) = [] := by
      refine filter_eq_nil_iff.2 fun w hw => ?_
      have hlo := ((rangeWindows_tiles heven programs hhi).1.within w hw).1
      simpa using hlo
    refine ⟨⟨startTimeArg, splitPointMs now⟩, ?_, ?_⟩
    · rw [times_nearLive hstart hnear, refine_cons_cons, refine_cons_cons, refine_singleton, hone,
        append_nil, filter_append, hbehind]
      simp [hsplit]
    · have hback := h.1
      simp only [splitPointMs, catchupMinDurationMs, catchupLiveSplitOffsetMs] at *
      omega

end

/-- An odd duration: the first or the second chunk behind the split point is half a millisecond
    too long. -/
theorem odd_chunk (hodd : ¬ 2 ∣ fallbackDurationMs startMs now)
    (programs : List CatchupProgramBound) :
    ∃ w ∈ rangeWindows startMs now programs (splitPointMs now) (endingFutureMs now),
      splitPointMs now ≤ w.start ∧ fallbackDurationMs startMs now < 2 * (w.stop - w.start) := by
  have hfallback := fallback_le startMs now
  have hrange : endingFutureMs now = splitPointMs now + catchupFutureHorizonMs +
      catchupLiveSplitOffsetMs := by
    simp only [splitPointMs, endingFutureMs]
    omega
  simp only [catchupMinDurationMs, catchupMaxSegmentMs, catchupFutureHorizonMs,
    catchupLiveSplitOffsetMs] at hfallback hrange
  generalize endingFutureMs now = horizon at *
  obtain ⟨fuel, hfuel⟩ : ∃ fuel, (2 * horizon - 2 * splitPointMs now).toNat = fuel + 1 + 1 :=
    ⟨(2 * horizon - 2 * splitPointMs now).toNat - 2, by omega⟩
  have hcap : capHalves startMs now programs (splitPointMs now) = fallbackDurationMs startMs now :=
    if_pos le_rfl
  rw [rangeWindows, if_neg (by omega), hcap, hfuel]
  generalize splitPointMs now = split at *
  generalize fallbackDurationMs startMs now = d at *
  have hfirst : min (2 * split + d) (2 * horizon) = 2 * split + d := by omega
  have hsecond : min (2 * split + d + d) (2 * horizon) = 2 * (split + d) := by omega
  rw [cutRange, if_pos (by omega)]
  dsimp only
  rw [hfirst, if_pos (by omega), cutRange, if_pos (by omega)]
  dsimp only
  rw [hsecond, if_pos (by omega), newDate_even, newDate_even]
  by_cases hneg : 0 ≤ 2 * split + d
  · refine ⟨⟨newDate (2 * split + d), split + d⟩, by simp, ?_, ?_⟩ <;>
      simp only [newDate, if_pos hneg] <;> omega
  · refine ⟨⟨split, newDate (2 * split + d)⟩, by simp, le_rfl, ?_⟩
    simp only [newDate, if_neg hneg]
    omega

theorem whole_of_planned (h : Planned startTimeArg now programs) :
    WholeChunks startTimeArg now := by
  have hstart := clamp_le startTimeArg now
  have hback : clampCatchupStartTime startTimeArg now ≤
      now - catchupMinDurationMs - catchupLiveSplitOffsetMs := by
    by_contra hlate
    have hnear : nearLiveCatchup (clampCatchupStartTime startTimeArg now) now := by
      simp only [nearLiveCatchup, splitPointMs, catchupMinDurationMs, catchupLiveSplitOffsetMs] at *
      omega
    obtain ⟨w, hone, hlong⟩ := h.nearLive hnear
    have hw : w ∈ (planCatchupSegmentWindows startTimeArg now programs).filter
        (fun w => w.start < splitPointMs now) := by rw [hone]; exact mem_cons_self
    obtain ⟨hw, hpast⟩ := mem_filter.1 hw
    have hpast := of_decide_eq_true hpast
    have hside := h.sides w hw
    have hwithin := h.tiles.within w hw
    simp only [splitPointMs] at *
    omega
  have hs : clampCatchupStartTime startTimeArg now = startTimeArg := by
    simp only [clampCatchupStartTime, catchupMinDurationMs, catchupLiveSplitOffsetMs] at *
    omega
  refine ⟨hs ▸ hback, ?_⟩
  by_contra hodd
  have hfallback : ¬ 2 ∣ fallbackDurationMs (clampCatchupStartTime startTimeArg now) now := by
    rw [hs]
    rw [hs] at hstart
    simp only [fallbackDurationMs, catchupMinDurationMs, catchupMaxSegmentMs] at *
    omega
  obtain ⟨w, hw, hfuture, hlong⟩ := odd_chunk hfallback programs
  obtain ⟨past, htimes, -⟩ := times_eq hstart programs
  have hmem : w ∈ planCatchupSegmentWindows startTimeArg now programs := by
    rw [plan_eq, htimes]
    exact subset_refine _ _ [] _ _ hw
  have hcap := h.future w hmem hfuture
  omega

/-- A plan is what it is for exactly when its chunks are whole. -/
theorem catchup_windows_planned_iff (startTimeArg now : ℤ) (programs : List CatchupProgramBound) :
    Planned startTimeArg now programs ↔ WholeChunks startTimeArg now :=
  ⟨whole_of_planned, fun h => planned_of_whole h programs⟩

/-- A seek to now, without programmes: the past window has 20 seconds. -/
theorem short_past_window : ¬ Planned 0 0 [] := by
  intro h
  have hback := (whole_of_planned h).1
  revert hback
  decide

end Apackage.Rtp2httpd.CatchupWindows
