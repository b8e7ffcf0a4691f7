import Mathlib.Data.List.Pairwise
import Mathlib.Data.List.TakeWhile
import Mathlib.Data.List.Sort
import Mathlib.Logic.Function.Basic
import Apackage.Lib.Run

/-
  Gaps in the programme guide (`epg-parser.ts`).

  `generateFallbackPrograms` walks over two-hour slots with two cursors into the programmes of a
  channel and puts a placeholder into each slot that none of them overlaps. `fillEPGGaps` merges
  the placeholders of one channel after another into the guide.

  A malformed programme, one that does not end after its start, is meant to overlap nothing, but
  the third test of the scan takes it for one inside the slot.

  Model. Times are milliseconds. A guide maps a key to the list under it. No name of a channel is
  one that every JavaScript object inherits.
-/

namespace Apackage.Rtp2httpd.Epg

open Function List Lib.Run

structure EPGProgram where
  id : String
  title : Option String
  start : ℤ
  stop : ℤ
  deriving DecidableEq

/-- The entries of a guide. -/
abbrev EPGData := String → Option (List EPGProgram)

/-- The names that every object inherits. -/
def objectNames : List String :=
  ["constructor", "__defineGetter__", "__defineSetter__", "hasOwnProperty", "__lookupGetter__",
    "__lookupSetter__", "isPrototypeOf", "propertyIsEnumerable", "toString", "valueOf", "__proto__",
    "toLocaleString"]

def twoHoursMs : ℤ := 2 * 60 * 60 * 1000

/-- The first slot: `startTime` rounded down to an even hour. -/
def firstSlot (now lookbackHours : ℤ) : ℤ :=
  let startTime := now - lookbackHours * 60 * 60 * 1000
  let hoursSinceEpoch := startTime / (60 * 60 * 1000)
  hoursSinceEpoch / 2 * 2 * 60 * 60 * 1000

/-- A cursor at `i` moved on while `skip` holds, up to `stop`. -/
def moveCursor (skip : EPGProgram → Bool) (programs : List EPGProgram) (stop i : ℕ) : ℕ :=
  i + (((programs.take stop).drop i).takeWhile skip).length

/-- The test of the scan. -/
def overlaps (currentStart currentEnd : ℤ) (p : EPGProgram) : Bool :=
  (p.start ≤ currentStart && p.stop > currentStart) ||
    (p.start < currentEnd && p.stop ≥ currentEnd) ||
    (p.start ≥ currentStart && p.stop ≤ currentEnd)

def moveHi (programs : List EPGProgram) (currentStart : ℤ) (hi : ℕ) : ℕ :=
  moveCursor (fun p => p.start ≤ currentStart + twoHoursMs) programs programs.length hi

def moveLo (programs : List EPGProgram) (currentStart : ℤ) (hi lo : ℕ) : ℕ :=
  moveCursor (fun p => p.stop < currentStart && p.start < currentStart) programs hi lo

/-- `hasOverlap`, with the cursors as moved. -/
def hasOverlap (programs : List EPGProgram) (currentStart : ℤ) (lo hi : ℕ) : Bool :=
  ((programs.take hi).drop lo).any (overlaps currentStart (currentStart + twoHoursMs))

/-- The placeholder of a slot. -/
def fallback (channelId : String) (currentStart : ℤ) : EPGProgram where
  id := "fallback-" ++ channelId ++ "-" ++ toString currentStart
  title := none
  start := currentStart
  stop := currentStart + twoHoursMs

def fallbacksFrom (programs : List EPGProgram) (channelId : String) (now currentStart : ℤ)
    (lo hi : ℕ) : List EPGProgram :=
  if currentStart < now then
    let hi := moveHi programs currentStart hi
    let lo := moveLo programs currentStart hi lo
    (if hasOverlap programs currentStart lo hi then [] else [fallback channelId currentStart]) ++
      fallbacksFrom programs channelId now (currentStart + twoHoursMs) lo hi
  else []
termination_by (now - currentStart).toNat
decreasing_by
  simp only [twoHoursMs]
  omega

def generateFallbackPrograms (existingPrograms : List EPGProgram) (channelId : String)
    (now lookbackHours : ℤ) : List EPGProgram :=
  fallbacksFrom existingPrograms channelId now (firstSlot now lookbackHours) 0 0

def mergeSortedPrograms : (a b : List EPGProgram) → List EPGProgram
  | [], b => b
  | a, [] => a
  | p :: a, q :: b =>
    if p.start ≤ q.start then p :: mergeSortedPrograms a (q :: b)
    else q :: mergeSortedPrograms (p :: a) b
termination_by a b => a.length + b.length

structure EPGChannelDescriptor where
  tvgId : Option String
  tvgName : Option String
  name : String
  hasCatchup : Bool
  names : ∀ key ∈ name :: (tvgId.toList ++ tvgName.toList), key ∉ objectNames

/-- A string that counts as true. -/
def truthy (s : Option String) : Option String := s.filter (· ≠ "")

/-- A key that counts as true and is one of the guide. -/
def knownKey (data : EPGData) (s : Option String) : Option String :=
  (truthy s).filter fun key => (data key).isSome

def epgChannelId (data : EPGData) (channel : EPGChannelDescriptor) : Option String :=
  knownKey data channel.tvgId <|> knownKey data channel.tvgName <|> knownKey data channel.name

def targetChannelId (data : EPGData) (channel : EPGChannelDescriptor) : String :=
  (epgChannelId data channel <|> truthy channel.tvgId <|> truthy channel.tvgName).getD channel.name

def existingPrograms (data : EPGData) (channel : EPGChannelDescriptor) : List EPGProgram :=
  ((epgChannelId data channel).bind data).getD []

def mergedPrograms (now lookbackHours : ℤ) (data : EPGData) (channel : EPGChannelDescriptor) :
    List EPGProgram :=
  mergeSortedPrograms (existingPrograms data channel)
    (generateFallbackPrograms (existingPrograms data channel) (targetChannelId data channel) now
      lookbackHours)

def filledKeys (data : EPGData) (channel : EPGChannelDescriptor) : List String :=
  targetChannelId data channel ::
    ((truthy channel.tvgId).toList ++ (truthy channel.tvgName).toList ++ [channel.name])

/-- One turn of `fillEPGGaps`. -/
def fillChannel (now lookbackHours : ℤ) (data : EPGData) (channel : EPGChannelDescriptor) :
    EPGData :=
  if !channel.hasCatchup then data
  else if generateFallbackPrograms (existingPrograms data channel) (targetChannelId data channel)
      now lookbackHours = [] then data
  else
    (filledKeys data channel).foldl
      (fun d key => Function.update d key (some (mergedPrograms now lookbackHours data channel)))
      data

def fillEPGGaps (now lookbackHours : ℤ) (epgData : EPGData)
    (channels : List EPGChannelDescriptor) : EPGData :=
  run (fillChannel now lookbackHours) epgData channels

/-! ## The cursors -/

def SortedByStart (programs : List EPGProgram) : Prop :=
  programs.Pairwise fun p q => p.start ≤ q.start

/-- A programme of the list that starts by the end of the slot passes the test. -/
def Covered (programs : List EPGProgram) (t : ℤ) : Prop :=
  ∃ p ∈ programs, p.start ≤ t + twoHoursMs ∧ overlaps t (t + twoHoursMs) p = true

/-- The cursors before a slot: `lo` is past programmes that overlap no slot from here on, `hi`
    past programmes that start by the start of the slot. -/
structure Cursors (programs : List EPGProgram) (t : ℤ) (lo hi : ℕ) : Prop where
  le : lo ≤ hi
  le_length : hi ≤ programs.length
  past : ∀ p ∈ programs.take lo, p.stop < t ∧ p.start < t
  started : ∀ p ∈ programs.take hi, p.start ≤ t

theorem moveCursor_spec (skip : EPGProgram → Bool) (programs : List EPGProgram) {stop i : ℕ}
    (hi : i ≤ stop) :
    i ≤ moveCursor skip programs stop i ∧
      (stop ≤ programs.length → moveCursor skip programs stop i ≤ stop) ∧
      (∀ p ∈ programs.take (moveCursor skip programs stop i), p ∈ programs.take i ∨ skip p = true) ∧
      ∀ p, ((programs.take stop).drop (moveCursor skip programs stop i)).head? = some p →
        skip p = false := by
  have hsplit := takeWhile_append_dropWhile (p := skip) (l := (programs.take stop).drop i)
  have hlen := congrArg List.length hsplit
  rw [length_append, length_drop, length_take] at hlen
  refine ⟨Nat.le_add_right _ _, fun hstop => by rw [moveCursor]; omega, ?_, ?_⟩
  · intro p hp
    have hshort : (((programs.take stop).drop i).takeWhile skip).length ≤ stop - i := by omega
    have hmoved : (programs.drop i).take (((programs.take stop).drop i).takeWhile skip).length =
        ((programs.take stop).drop i).takeWhile skip := by
      have htake := prefix_iff_eq_take.1 ( takeWhile_prefix skip (l := (programs.take stop).drop i))
      rw [drop_take] at htake hshort ⊢
      rw [take_take, Nat.min_eq_left hshort] at htake
      exact htake.symm
    rw [moveCursor, take_add, mem_append, hmoved] at hp
    exact hp.imp_right mem_takeWhile_imp
  · intro p hp
    rw [moveCursor, ← drop_drop] at hp
    nth_rewrite 2 [← hsplit] at hp
    rw [drop_left] at hp
    have hnot := head?_dropWhile_not skip ((programs.take stop).drop i)
    rw [hp] at hnot
    simpa using hnot

theorem not_overlaps_of_past {p : EPGProgram} {t : ℤ} (h : p.stop < t ∧ p.start < t) :
    overlaps t (t + twoHoursMs) p = false := by
  rw [Bool.eq_false_iff]
  intro hover
  have hspan : 0 < twoHoursMs := by decide
  simp only [overlaps, Bool.or_eq_true, Bool.and_eq_true, decide_eq_true_eq] at hover
  omega

section

variable {programs : List EPGProgram} (hsorted : SortedByStart programs)

include hsorted

/-- The scan of one slot, and the cursors behind it. -/
theorem Cursors.slot {t : ℤ} {lo hi : ℕ} (h : Cursors programs t lo hi) :
    (hasOverlap programs t (moveLo programs t (moveHi programs t hi) lo)
        (moveHi programs t hi) = true ↔ Covered programs t) ∧
      Cursors programs (t + twoHoursMs) (moveLo programs t (moveHi programs t hi) lo)
        (moveHi programs t hi) := by
  have hspan : t ≤ t + twoHoursMs := by simp only [twoHoursMs]; omega
  obtain ⟨hle, hbound, hmoved, hnext⟩ := moveCursor_spec
    (fun p => p.start ≤ t + twoHoursMs) programs h.le_length
  change hi ≤ moveHi programs t hi at hle
  change _ → moveHi programs t hi ≤ _ at hbound
  change ∀ p ∈ programs.take (moveHi programs t hi), _ at hmoved
  change ∀ p, ((programs.take _).drop (moveHi programs t hi)).head? = some p → _ at hnext
  generalize moveHi programs t hi = hi' at *
  have hbound := hbound le_rfl
  obtain ⟨hle', hbound', hmoved', -⟩ := moveCursor_spec
    (fun p => p.stop < t && p.start < t) programs (h.le.trans hle)
  change lo ≤ moveLo programs t hi' lo at hle'
  change _ → moveLo programs t hi' lo ≤ _ at hbound'
  change ∀ p ∈ programs.take (moveLo programs t hi' lo), _ at hmoved'
  generalize moveLo programs t hi' lo = lo' at *
  have hbound' := hbound' hbound
  have hpast : ∀ p ∈ programs.take lo', p.stop < t ∧ p.start < t := fun p hp => by
    rcases hmoved' p hp with hp | hp
    · exact h.past p hp
    · simpa using hp
  have hstarted : ∀ p ∈ programs.take hi', p.start ≤ t + twoHoursMs := fun p hp => by
    rcases hmoved p hp with hp | hp
    · exact (h.started p hp).trans hspan
    · simpa using hp
  -- the list is sorted, so what starts by the end of the slot is before the cursor
  have hbehind : ∀ p ∈ programs.drop hi', t + twoHoursMs < p.start := by
    rw [take_length] at hnext
    intro p hp
    have hpair : (programs.drop hi').Pairwise fun p q => p.start ≤ q.start :=
      hsorted.sublist (drop_sublist _ _)
    cases hdrop : programs.drop hi' with
    | nil => simp [hdrop] at hp
    | cons q rest =>
      rw [hdrop] at hp hpair
      have hq : t + twoHoursMs < q.start := by simpa using hnext q (by rw [hdrop]; rfl)
      rcases List.mem_cons.1 hp with rfl | hp
      · exact hq
      · exact hq.trans_le (rel_of_pairwise_cons hpair hp)
  refine ⟨?_, ⟨hbound', hbound, fun p hp => ?_, hstarted⟩⟩
  · rw [hasOverlap, List.any_eq_true]
    constructor
    · rintro ⟨p, hp, hover⟩
      have htake := mem_of_mem_drop hp
      exact ⟨p, mem_of_mem_take htake, hstarted p htake, hover⟩
    · rintro ⟨p, hp, hstart, hover⟩
      have htake : p ∈ programs.take hi' := by
        rw [← take_append_drop hi' programs, mem_append] at hp
        refine hp.resolve_right fun hp => ?_
        have := hbehind p hp
        omega
      refine ⟨p, ?_, hover⟩
      rw [← take_append_drop lo' (programs.take hi'), mem_append, take_take,
        Nat.min_eq_left hbound'] at htake
      refine htake.resolve_left fun hp => ?_
      rw [not_overlaps_of_past (hpast p hp)] at hover
      cases hover
  · have hp := hpast p hp
    omega

theorem mem_fallbacksFrom {channelId : String} {now t : ℤ} {lo hi : ℕ}
    (h : Cursors programs t lo hi) (f : EPGProgram) :
    f ∈ fallbacksFrom programs channelId now t lo hi ↔
      ∃ k : ℕ, t + k * twoHoursMs < now ∧ ¬ Covered programs (t + k * twoHoursMs) ∧
        f = fallback channelId (t + k * twoHoursMs) := by
  induction t, lo, hi using fallbacksFrom.induct programs now with
  | case1 t lo hi hlt hi' lo' ih =>
    obtain ⟨hcover, hnext⟩ := h.slot hsorted
    have hzero : t + (0 : ℕ) * twoHoursMs = t := by simp
    have hsucc : ∀ k : ℕ, t + (k + 1 : ℕ) * twoHoursMs = t + twoHoursMs + k * twoHoursMs := by
      intro k
      rw [Int.natCast_succ, Int.add_mul]
      omega
    rw [fallbacksFrom, if_pos hlt, mem_append, ih hnext]
    constructor
    · rintro (hf | ⟨k, hk⟩)
      · split at hf
        · cases hf
        · rename_i hnot
          refine ⟨0, ?_⟩
          rw [hzero]
          exact ⟨hlt, fun hc => hnot (hcover.2 hc), mem_singleton.1 hf⟩
      · refine ⟨k + 1, ?_⟩
        rwa [hsucc]
    · rintro ⟨k, hk⟩
      cases k with
      | zero =>
        rw [hzero] at hk
        refine .inl ?_
        rw [if_neg fun hc => hk.2.1 (hcover.1 hc), mem_singleton]
        exact hk.2.2
      | succ k =>
        rw [hsucc] at hk
        exact .inr ⟨k, hk⟩
  | case2 t lo hi hge =>
    rw [fallbacksFrom, if_neg hge]
    refine iff_of_false not_mem_nil ?_
    rintro ⟨k, hk, -⟩
    have hspan : 0 ≤ k * twoHoursMs := Int.mul_nonneg (Int.natCast_nonneg k) (by decide)
    omega

end

theorem fallbacks_sorted (programs : List EPGProgram) (channelId : String) (now t : ℤ)
    (lo hi : ℕ) : SortedByStart (fallbacksFrom programs channelId now t lo hi) ∧
      ∀ f ∈ fallbacksFrom programs channelId now t lo hi, t ≤ f.start := by
  have hspan : 0 < twoHoursMs := by decide
  induction t, lo, hi using fallbacksFrom.induct programs now with
  | case1 t lo hi hlt hi' lo' ih =>
    have hlate : ∀ f ∈ fallbacksFrom programs channelId now (t + twoHoursMs) lo' hi',
        t ≤ f.start := fun f hf => by
      have := ih.2 f hf
      omega
    rw [fallbacksFrom, if_pos hlt]
    dsimp only
    split
    · exact ⟨ih.1, hlate⟩
    · refine ⟨pairwise_cons.2 ⟨hlate, ih.1⟩, fun f hf => ?_⟩
      rcases List.mem_cons.1 hf with rfl | hf
      · exact le_rfl
      · exact hlate f hf
  | case2 t lo hi hge =>
    rw [fallbacksFrom, if_neg hge]
    exact ⟨List.Pairwise.nil, by simp⟩

/-! ## Slots -/

/-- The programme is shown for a while within the slot. -/
def Intersects (p : EPGProgram) (t : ℤ) : Prop :=
  p.start < p.stop ∧ p.start < t + twoHoursMs ∧ t < p.stop

/-- `t` starts one of the slots up to now. -/
def IsSlot (now lookbackHours t : ℤ) : Prop :=
  ∃ k : ℕ, t = firstSlot now lookbackHours + k * twoHoursMs ∧ t < now

variable {programs : List EPGProgram}

/-- What the scan takes for an overlap: a programme shown within the slot, or a malformed one that
    starts from its start to its end. -/
theorem covered_iff {t : ℤ} : Covered programs t ↔ (∃ p ∈ programs, Intersects p t) ∨
      ∃ p ∈ programs, p.stop ≤ p.start ∧ t ≤ p.start ∧ p.start ≤ t + twoHoursMs := by
  have hspan : 0 < twoHoursMs := by decide
  simp only [Covered, overlaps, Intersects, Bool.or_eq_true, Bool.and_eq_true, decide_eq_true_eq]
  constructor
  · rintro ⟨p, hp, hstart, hover⟩
    by_cases hvalid : p.start < p.stop
    · exact .inl ⟨p, hp, hvalid, by omega, by omega⟩
    · exact .inr ⟨p, hp, by omega, by omega, hstart⟩
  · rintro (⟨p, hp, hvalid, hstart, hstop⟩ | ⟨p, hp, hbad, hlo, hhi⟩)
    · exact ⟨p, hp, hstart.le, by omega⟩
    · exact ⟨p, hp, hhi, by omega⟩

/-- The placeholders are exactly those of the slots within which no programme is shown. -/
def GapsFilled (programs : List EPGProgram) (channelId : String) (now lookbackHours : ℤ) : Prop :=
  ∀ t, IsSlot now lookbackHours t →
    (fallback channelId t ∈ generateFallbackPrograms programs channelId now lookbackHours ↔
      ∀ p ∈ programs, ¬ Intersects p t)

/-- A malformed programme starts only at slots within which another one is shown. -/
def MalformedCovered (programs : List EPGProgram) (now lookbackHours : ℤ) : Prop :=
  ∀ t, IsSlot now lookbackHours t →
    ∀ p ∈ programs, p.stop ≤ p.start → t ≤ p.start → p.start ≤ t + twoHoursMs →
      ∃ q ∈ programs, Intersects q t

theorem mem_generate (hsorted : SortedByStart programs) {channelId : String}
    {now lookbackHours t : ℤ} (ht : IsSlot now lookbackHours t) :
    fallback channelId t ∈ generateFallbackPrograms programs channelId now lookbackHours ↔
      ¬ Covered programs t := by
  have hcursors : Cursors programs (firstSlot now lookbackHours) 0 0 :=
    ⟨le_rfl, Nat.zero_le _, by simp, by simp⟩
  rw [generateFallbackPrograms, mem_fallbacksFrom hsorted hcursors]
  constructor
  · rintro ⟨k, -, hnot, heq⟩
    obtain rfl : t = _ := congrArg EPGProgram.start heq
    exact hnot
  · intro hnot
    obtain ⟨k, rfl, hlt⟩ := ht
    exact ⟨k, hlt, hnot, rfl⟩

theorem gapsFilled_iff (hsorted : SortedByStart programs) (channelId : String)
    (now lookbackHours : ℤ) :
    GapsFilled programs channelId now lookbackHours ↔
      MalformedCovered programs now lookbackHours := by
  constructor
  · intro h t ht p hp hbad hlo hhi
    by_contra hnone
    push Not at hnone
    exact (mem_generate hsorted ht).1 ((h t ht).2 hnone)
      (covered_iff.2 (.inr ⟨p, hp, hbad, hlo, hhi⟩))
  · intro h t ht
    rw [mem_generate hsorted ht, covered_iff, not_or]
    constructor
    · exact fun hnot p hp hint => hnot.1 ⟨p, hp, hint⟩
    · intro hnone
      refine ⟨fun ⟨p, hp, hint⟩ => hnone p hp hint, ?_⟩
      rintro ⟨p, hp, hbad, hlo, hhi⟩
      obtain ⟨q, hq, hint⟩ := h t ht p hp hbad hlo hhi
      exact hnone q hq hint

/-! ## Merged lists -/

theorem merge_eq (a b : List EPGProgram) :
    mergeSortedPrograms a b = a.merge b fun p q => p.start ≤ q.start := by
  induction a, b using mergeSortedPrograms.induct with
  | case1 b => simp [mergeSortedPrograms]
  | case2 a ha => cases a <;> simp [mergeSortedPrograms]
  | case3 p a q b hle ih => simp [mergeSortedPrograms, hle, ih]
  | case4 p a q b hgt ih => simp [mergeSortedPrograms, hgt, ih]

theorem merge_sorted {a b : List EPGProgram} (ha : SortedByStart a) (hb : SortedByStart b) :
    SortedByStart (mergeSortedPrograms a b) := by
  have hle : ∀ {l : List EPGProgram}, SortedByStart l ↔
      l.Pairwise fun p q => decide (p.start ≤ q.start) = true := by simp [SortedByStart]
  rw [hle, merge_eq]
  refine pairwise_merge ?_ ?_ _ _ (hle.1 ha) (hle.1 hb)
  · simp only [decide_eq_true_eq]
    omega
  · simp only [Bool.or_eq_true, decide_eq_true_eq]
    omega

theorem merge_perm (a b : List EPGProgram) : (mergeSortedPrograms a b).Perm (a ++ b) := by
  rw [merge_eq]
  exact merge_perm_append _

/-! ## The guide -/

def SortedData (data : EPGData) : Prop := ∀ key list, data key = some list → SortedByStart list

/-- The merged list of a channel is sorted and holds the programmes it was made from, each as
    often as before, and the placeholders. -/
def MergeKept (now lookbackHours : ℤ) (data : EPGData) (channel : EPGChannelDescriptor) : Prop :=
  SortedByStart (mergedPrograms now lookbackHours data channel) ∧
    (mergedPrograms now lookbackHours data channel).Perm
      (existingPrograms data channel ++
        generateFallbackPrograms (existingPrograms data channel) (targetChannelId data channel)
          now lookbackHours)

section

variable {data : EPGData} (h : SortedData data)

include h

theorem SortedData.existing (channel : EPGChannelDescriptor) :
    SortedByStart (existingPrograms data channel) := by
  rw [existingPrograms]
  cases hlist : (epgChannelId data channel).bind data with
  | none => exact List.Pairwise.nil
  | some list =>
    obtain ⟨key, -, hkey⟩ := Option.bind_eq_some_iff.1 hlist
    exact h key list hkey

theorem SortedData.mergeKept (now lookbackHours : ℤ) (channel : EPGChannelDescriptor) :
    MergeKept now lookbackHours data channel :=
  ⟨merge_sorted (h.existing channel) (fallbacks_sorted _ _ _ _ _ _).1, merge_perm _ _⟩

theorem SortedData.update {list : List EPGProgram} (hlist : SortedByStart list) (keys : List String)
    :
    SortedData (keys.foldl (fun d key => Function.update d key (some list)) data) := by
  induction keys generalizing data with
  | nil => exact h
  | cons key keys ih =>
    refine ih fun k l hl => ?_
    change Function.update data key (some list) k = some l at hl
    by_cases hk : k = key
    · rw [hk, update_self] at hl
      exact Option.some.inj hl ▸ hlist
    · rw [update_of_ne hk] at hl
      exact h k l hl

theorem SortedData.fillChannel (now lookbackHours : ℤ) (channel : EPGChannelDescriptor) :
    SortedData (fillChannel now lookbackHours data channel) := by
  rw [Epg.fillChannel]
  split_ifs
  · exact h
  · exact h
  · exact h.update (h.mergeKept now lookbackHours channel).1 _

end

/-- The merged list of every channel in turn is sorted and complete, and the lists of the filled
    guide are sorted. -/
def FillKeeps (now lookbackHours : ℤ) (epgData : EPGData)
    (channels : List EPGChannelDescriptor) : Prop :=
  Along (fillChannel now lookbackHours) (MergeKept now lookbackHours) epgData channels ∧
    SortedData (fillEPGGaps now lookbackHours epgData channels)

theorem fill_keeps {epgData : EPGData} (h : SortedData epgData) (now lookbackHours : ℤ)
    (channels : List EPGChannelDescriptor) : FillKeeps now lookbackHours epgData channels :=
  ⟨along_always (fun _ channel hd => hd.fillChannel now lookbackHours channel)
    (fun _ channel hd => hd.mergeKept now lookbackHours channel) h channels,
    run_always (fun _ channel hd => hd.fillChannel now lookbackHours channel) h channels⟩

/-- An evening of two programmes that overlap and one that ends before it starts. -/
def evening : List EPGProgram :=
  [⟨"a-0", none, 0, 9000000⟩, ⟨"a-1", none, 3600000, 7200000⟩, ⟨"a-2", none, 3600000, 0⟩]

/-- A programme that ends before it starts. -/
def backwards : EPGProgram := ⟨"a-0", none, 0, -1⟩

end Apackage.Rtp2httpd.Epg
