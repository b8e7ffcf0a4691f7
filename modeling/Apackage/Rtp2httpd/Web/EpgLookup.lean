import Mathlib.Algebra.Ring.Nat
import Apackage.Rtp2httpd.Web.EpgGaps

/-
  The programme on air (`epg-timeline.ts`, `epg-parser.ts`).

  `findEpgProgramAt` halves the list to the last row that has started and walks back to one that is
  still running; `getCurrentProgram` looks at all rows from the end.

  Model. `low`, `high` and `index` are numbers, and `>> 1` takes the 32 bits of their sum. None is
  the exception of reading a field of no row, and a search that does not end.
-/

namespace Apackage.Rtp2httpd.Epg

open List Option

/-- `p.start <= time && p.end > time`. -/
def onAir (time : ℤ) (p : EPGProgram) : Bool := p.start ≤ time && p.stop > time

def getCurrentProgram (channelId : String) (epgData : EPGData) (time : ℤ) : Option EPGProgram :=
  (epgData channelId).bind fun programs => programs.reverse.find? (onAir time)

def rowAt (programs : List EPGProgram) (i : ℤ) : Option EPGProgram :=
  if i < 0 then none else programs[i.toNat]?

def searchLoop (programs : List EPGProgram) (timeMs : ℤ) : ℕ → ℤ → ℤ → ℤ → Option ℤ
  | 0, low, high, index => if low ≤ high then none else some index
  | n + 1, low, high, index =>
    if low ≤ high then
      let mid := (low + high).bmod (2 ^ 32) / 2
      match rowAt programs mid with
      | none => none
      | some p =>
        if p.start ≤ timeMs then searchLoop programs timeMs n (mid + 1) high mid
        else searchLoop programs timeMs n low (mid - 1) index
    else some index

/-- The loop over `candidate`, with the rows before it. -/
def walkBack (programs : List EPGProgram) (timeMs : ℤ) : ℕ → Option EPGProgram
  | 0 => none
  | candidate + 1 =>
    match programs[candidate]? with
    | none => none
    | some p =>
      if p.start > timeMs then none
      else if p.stop > timeMs then some p
      else walkBack programs timeMs candidate

def findEpgProgramAt (programs : List EPGProgram) (timeMs : ℤ) : Option (Option EPGProgram) :=
  (searchLoop programs timeMs programs.length 0 (programs.length - 1) (-1)).map fun index =>
    walkBack programs timeMs (index + 1).toNat

/-! ## Rows that have started -/

/-- The rows that have started. -/
def started (programs : List EPGProgram) (t : ℤ) : ℕ :=
  (programs.takeWhile fun p => p.start ≤ t).length

variable {programs : List EPGProgram} {t : ℤ}

theorem started_iff (h : SortedByStart programs) {i : ℕ} {p : EPGProgram}
    (hp : programs[i]? = some p) : p.start ≤ t ↔ i < started programs t := by
  unfold started
  induction programs generalizing i with
  | nil => cases hp
  | cons q programs ih =>
    obtain ⟨hq, hsorted⟩ := pairwise_cons.1 h
    by_cases hstart : q.start ≤ t
    · rw [takeWhile_cons_of_pos (by simpa using hstart), length_cons]
      cases i with
      | zero =>
        obtain rfl := some.inj hp
        exact iff_of_true hstart (Nat.succ_pos _)
      | succ i => rw [ih hsorted hp, Nat.succ_lt_succ_iff]
    · rw [takeWhile_cons_of_neg (by simpa using hstart)]
      refine iff_of_false (fun hp' => hstart ?_) (Nat.not_lt_zero i)
      cases i with
      | zero =>
        obtain rfl := some.inj hp
        exact hp'
      | succ i => exact (hq p (mem_of_getElem? hp)).trans hp'

/-! ## The search -/

/-- Below 2^31 the shift halves the sum. -/
theorem middle_eq {sum : ℕ} (h : sum < 2 ^ 31) : (sum : ℤ).bmod (2 ^ 32) / 2 = (sum / 2 : ℕ) := by
  rw [Int.bmod_def]
  split_ifs <;> omega

theorem searchLoop_spec (h : SortedByStart programs) (n : ℕ) {low stop : ℕ} (hn : stop - low ≤ n)
    (hlow : low ≤ started programs t) (hstop : started programs t ≤ stop)
    (hle : stop ≤ programs.length) (hlt : stop ≤ 2 ^ 30) :
    searchLoop programs t n low (stop - 1) (low - 1) = some ((started programs t : ℤ) - 1) := by
  induction n generalizing low stop with
  | zero =>
    obtain rfl : low = started programs t := by omega
    rw [searchLoop, if_neg (by omega)]
  | succ n ih =>
    rw [searchLoop]
    by_cases hrows : low < stop
    · have hsum : (low : ℤ) + (stop - 1) = ((low + (stop - 1) : ℕ) : ℤ) := by omega
      rw [if_pos (by omega), hsum, middle_eq (by omega)]
      dsimp only
      have hfirst : (low + (stop - 1)) / 2 < stop := by omega
      have hsecond : low ≤ (low + (stop - 1)) / 2 := by omega
      generalize (low + (stop - 1)) / 2 = mid at hfirst hsecond ⊢
      obtain ⟨p, hp⟩ : ∃ p, programs[mid]? = some p := ⟨_, getElem?_eq_getElem (by omega)⟩
      have hrow : rowAt programs mid = some p := by
        rw [rowAt, if_neg (by omega), Int.toNat_natCast, hp]
      have hstarted := @started_iff programs t h mid p hp
      rw [hrow]
      dsimp only
      by_cases hbefore : mid < started programs t
      · have hstep := @ih (mid + 1) stop (by omega) hbefore hstop hle (by omega)
        rw [if_pos (hstarted.2 hbefore)]
        simpa using hstep
      · have hstep := @ih low mid (by omega) hlow (by omega) (by omega) (by omega)
        rw [if_neg (mt hstarted.1 hbefore)]
        exact hstep
    · obtain rfl : low = started programs t := by omega
      rw [if_neg (by omega)]

theorem walkBack_eq (h : SortedByStart programs) {k : ℕ} (hk : k ≤ started programs t) :
    walkBack programs t k = (programs.take k).reverse.find? (onAir t) := by
  induction k with
  | zero => rfl
  | succ k ih =>
    have hlt : k < programs.length := by
      have hle := (programs.takeWhile_sublist fun p => p.start ≤ t).length_le
      rw [started] at hk
      omega
    have hp := getElem?_eq_getElem hlt
    have hstart := (@started_iff programs t h k _ hp).2 hk
    rw [walkBack, hp, take_succ_eq_append_getElem hlt, reverse_append,
      reverse_singleton, singleton_append, find?_cons, ← ih (by omega), onAir,
      decide_eq_true hstart, Bool.true_and]
    dsimp only
    rw [if_neg (by omega)]
    by_cases hstop : programs[k].stop > t
    · rw [if_pos hstop, decide_eq_true hstop]
    · rw [if_neg hstop, decide_eq_false hstop]

theorem started_le (programs : List EPGProgram) (t : ℤ) : started programs t ≤ programs.length :=
  (takeWhile_sublist _).length_le

theorem find_started (h : SortedByStart programs) : programs.reverse.find? (onAir t) =
      (programs.take (started programs t)).reverse.find? (onAir t) := by
  have hlater : (programs.drop (started programs t)).reverse.find? (onAir t) = none := by
    rw [find?_eq_none]
    intro p hp
    obtain ⟨i, hi⟩ := mem_iff_getElem?.1 (mem_reverse.1 hp)
    rw [getElem?_drop] at hi
    have hstart := mt (@started_iff programs t h _ p hi).1 (by omega)
    simp [onAir, hstart]
  conv_lhs => rw [← take_append_drop (started programs t) programs]
  rw [reverse_append, find?_append, hlater, none_or]

theorem findEpgProgramAt_eq (h : SortedByStart programs) (hlen : programs.length ≤ 2 ^ 30) :
    findEpgProgramAt programs t = some (programs.reverse.find? (onAir t)) := by
  have hsearch := @searchLoop_spec programs t h programs.length 0 programs.length (by omega)
    (Nat.zero_le _) (started_le programs t) le_rfl (by omega)
  rw [show ((0 : ℕ) : ℤ) = 0 from rfl, show (0 : ℤ) - 1 = -1 from rfl] at hsearch
  have hcount : ((started programs t : ℤ) - 1 + 1).toNat = started programs t := by omega
  rw [findEpgProgramAt, hsearch, map_some, hcount, walkBack_eq h le_rfl, find_started h]

/-- The halving search ends, on every sorted list, with the row that the plain search finds. -/
theorem find_program_right (hsorted : SortedByStart programs) (hlen : programs.length ≤ 2 ^ 30)
    {channelId : String} {epgData : EPGData} (hdata : epgData channelId = some programs) (t : ℤ) :
    findEpgProgramAt programs t = some (getCurrentProgram channelId epgData t) := by
  rw [findEpgProgramAt_eq hsorted hlen, getCurrentProgram, hdata, bind_some]

/-- A long row over three others, two with the same start, one that ends before it starts. -/
def overlapping : List EPGProgram :=
  [⟨"a", none, 0, 100⟩, ⟨"b", none, 10, 20⟩, ⟨"c", none, 10, 5⟩, ⟨"d", none, 30, 40⟩]

/-- After the two inner rows the walk goes back to the first. -/
theorem find_program_right_overlapping :
    findEpgProgramAt overlapping 25 = some (some ⟨"a", none, 0, 100⟩) ∧
      findEpgProgramAt overlapping 25 =
        some (getCurrentProgram "x" (fun _ => some overlapping) 25) :=
  ⟨by decide, find_program_right (by unfold SortedByStart overlapping; decide) (by decide) rfl 25⟩

end Apackage.Rtp2httpd.Epg
