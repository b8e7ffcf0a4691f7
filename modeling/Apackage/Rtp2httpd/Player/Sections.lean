import Apackage.Rtp2httpd.Player.TsSlices
import Mathlib.Algebra.Order.Ring.Nat
import Mathlib.Data.List.Forall2
import Mathlib.Logic.Function.Basic

/-
  Sections of the PAT and of the PMT (`handleSectionSlice`).

  A packet with the start indicator begins with a pointer: so many bytes of a section begun earlier
  follow, then sections start. The first bytes of a section tell its length; what the packet does
  not hold is taken from the next ones. The length is read in the packet in which the section
  starts, also when the header is cut there (`HeaderShown`), and the rest of a section begun earlier
  is measured against the whole payload, the pointer included (`Overruns`).
-/

namespace Apackage.Rtp2httpd.Player

open List Option Lib Lib.Run

structure SectionData where
  pid : ℕ
  data : List UInt8
  filePosition : ℤ
  randomAccessIndicator : ℕ

/-- The queue of a pid while one of its packets is handled: what was handed to `parseSection`
    and the views of the buffer that were taken. -/
structure SectionSlices where
  sliceQueue : Option SliceQueue
  parsed : List SectionData
  taken : List (ArrayView UInt8)

namespace SectionSlices

/-- The queue, if it holds the first bytes of a section. -/
def inProgress (sliceQueue : Option SliceQueue) : Option SliceQueue :=
  sliceQueue.filter fun queue => queue.totalLength != 0

def emitSectionSlices (pid : ℕ) (queue : SliceQueue) (s : SectionSlices) : SectionSlices :=
  { s with
    sliceQueue := some queue.clearSlices
    parsed := s.parsed ++ [⟨pid, queue.data, queue.filePosition, queue.randomAccessIndicator⟩] }

def clearSlices (queue : SliceQueue) (s : SectionSlices) : SectionSlices :=
  { s with sliceQueue := some queue.clearSlices }

def take (view : ArrayView UInt8) (s : SectionSlices) : SectionSlices :=
  { s with taken := s.taken ++ [view] }

/-- A section of the expected length is emitted, a longer one dropped. -/
def settle (pid : ℕ) (queue : SliceQueue) (s : SectionSlices) : SectionSlices :=
  if (queue.totalLength : ℤ) = queue.expectedLength then s.emitSectionSlices pid queue
  else if queue.expectedLength ≤ queue.totalLength then s.clearSlices queue
  else { s with sliceQueue := some queue }

/-- A section is over: it is emitted if it has the expected length, else dropped. -/
def conclude (pid : ℕ) (queue : SliceQueue) (s : SectionSlices) : SectionSlices :=
  if (queue.totalLength : ℤ) = queue.expectedLength then s.emitSectionSlices pid queue
  else s.clearSlices queue

end SectionSlices

open SectionSlices

/-- The length field of the section at an index, a byte behind the end read as 0. -/
def sectionLengthAt (data : ArrayView UInt8) (i : ℕ) : ℕ :=
  (((data.get? (i + 1)).getD 0).toNat &&& 0x0f) <<< 8 ||| ((data.get? (i + 2)).getD 0).toNat

section Slice

variable (buffer : ArrayView UInt8) (offset : ℕ) (length : ℤ) (misc : TSSliceMisc)

/-- The view in front of the place that the pointer tells. The pointer of an empty payload is
    undefined, and then the end of the view is not a number. -/
def pointedView (pointerField : Option UInt8) : ArrayView UInt8 :=
  match pointerField with
  | none => buffer.subarray (offset + 1) 0
  | some pointer => buffer.subarray (offset + 1) (offset + 1 + min length pointer.toNat)

/-- The end of a section begun earlier, in a packet with a pointer. -/
def finishSection (pointerField : Option UInt8) (s : SectionSlices) : SectionSlices :=
  match inProgress s.sliceQueue with
  | none => s
  | some queue =>
    let remainSection := pointedView buffer offset length pointerField
    (s.take remainSection).conclude misc.pid (queue.push remainSection)

/-- Whether the loop over the sections that start in the packet goes on. -/
def sectionCond (data : ArrayView UInt8) (is : ℕ × SectionSlices) : Bool :=
  is.1 < data.size && data.get? is.1 != some 0xff

def sectionBody (data : ArrayView UInt8) (is : ℕ × SectionSlices) : ℕ × SectionSlices :=
  let queue := (SliceQueue.opened misc).expecting (sectionLengthAt data is.1 + 3)
  let remainLength := min (length - is.1) (queue.expectedLength - queue.totalLength)
  let remainSection := buffer.subarray (offset + is.1) (offset + is.1 + remainLength)
  (is.1 + remainSection.size, (is.2.take remainSection).settle misc.pid (queue.push remainSection))

/-- The `for` loop; an iteration takes at least one byte, so the size of the payload bounds the
    iterations. -/
def sectionLoop (data : ArrayView UInt8) (is : ℕ × SectionSlices) : ℕ × SectionSlices :=
  iterWhile (sectionCond data) (sectionBody buffer offset length misc data) data.size is

/-- A packet without the start indicator. -/
def continueSection (s : SectionSlices) : SectionSlices :=
  match inProgress s.sliceQueue with
  | none => s
  | some queue =>
    let remainLength := min length (queue.expectedLength - queue.totalLength)
    let remainSection := buffer.subarray offset (offset + remainLength)
    (s.take remainSection).settle misc.pid (queue.push remainSection)

def handleSectionSlice (sliceQueue : Option SliceQueue) : SectionSlices :=
  let data := buffer.subarray offset (offset + length)
  let s : SectionSlices := ⟨sliceQueue, [], []⟩
  if misc.payloadUnitStartIndicator ≠ 0 then
    match data.get? 0 with
    | none => finishSection buffer offset length misc none s
    | some pointer =>
      (sectionLoop buffer offset length misc data
        (1 + pointer.toNat, finishSection buffer offset length misc (some pointer) s)).2
  else continueSection buffer offset length misc s

end Slice

/-- What `parseChunks` does with a packet of the PAT or of the PMT. -/
def TsPacket.sectionSlice (p : TsPacket) (sliceQueue : Option SliceQueue) : SectionSlices :=
  match p.tsPayloadStartIndex with
  | none => ⟨sliceQueue, [], []⟩
  | some start =>
    handleSectionSlice p.buffer (p.offset + start) (188 - start)
      ⟨p.pid, p.filePosition, p.payloadUnitStartIndicator, p.randomAccessIndicator⟩ sliceQueue

/-- The queues of all pids and the record of what was done so far. -/
structure TsSections where
  sectionSliceQueues : ℕ → Option SliceQueue
  parsed : List SectionData
  taken : List (TsPacket × ArrayView UInt8)

namespace TsSections

def init : TsSections := ⟨fun _ => none, [], []⟩

def handle (s : TsSections) (p : TsPacket) : TsSections :=
  let slices := p.sectionSlice (s.sectionSliceQueues p.pid)
  { sectionSliceQueues := Function.update s.sectionSliceQueues p.pid slices.sliceQueue
    parsed := s.parsed ++ slices.parsed
    taken := s.taken ++ slices.taken.map (Prod.mk p) }

def sectionsOf (s : TsSections) (pid : ℕ) : List (List UInt8) :=
  (s.parsed.filter fun d => d.pid = pid).map SectionData.data

end TsSections

/-! ## Bytes of the payload -/

namespace SectionSlices

/-- A queue that holds the first bytes of a section lacks some. -/
def Lacking (sliceQueue : Option SliceQueue) : Prop :=
  ∀ queue, inProgress sliceQueue = some queue → (queue.totalLength : ℤ) < queue.expectedLength

variable {queue : SliceQueue}

theorem inProgress_some (h : queue.totalLength ≠ 0) : inProgress (some queue) = some queue := by
  rw [inProgress, filter_some, if_pos (bne_iff_ne.mpr h)]

theorem inProgress_empty (h : queue.totalLength = 0) : inProgress (some queue) = none := by
  rw [inProgress, filter_some, if_neg (by rw [h]; decide)]

@[simp] theorem inProgress_clearSlices (queue : SliceQueue) :
    inProgress (some queue.clearSlices) = none := inProgress_empty rfl

variable {sliceQueue : Option SliceQueue}

theorem inProgress_eq (h : inProgress sliceQueue = some queue) :
    sliceQueue = some queue ∧ queue.totalLength ≠ 0 := by
  obtain ⟨hqueue, hne⟩ := filter_eq_some_iff.mp h
  exact ⟨hqueue, bne_iff_ne.mp hne⟩

theorem lacking_of_none (h : inProgress sliceQueue = none) : Lacking sliceQueue := by
  intro queue hqueue
  rw [h] at hqueue
  exact absurd hqueue (some_ne_none _).symm

theorem lacking_settle (pid : ℕ) (queue : SliceQueue) (s : SectionSlices) :
    Lacking (s.settle pid queue).sliceQueue := by
  unfold settle
  split
  · exact lacking_of_none (inProgress_clearSlices queue)
  · split
    · exact lacking_of_none (inProgress_clearSlices queue)
    · rename_i hlt
      intro queue' hqueue'
      obtain rfl := some.inj (inProgress_eq hqueue').1
      exact lt_of_not_ge hlt

@[simp] theorem taken_settle (pid : ℕ) (queue : SliceQueue) (s : SectionSlices) :
    (s.settle pid queue).taken = s.taken := by
  unfold settle
  split
  · rfl
  · split <;> rfl

@[simp] theorem inProgress_conclude (pid : ℕ) (queue : SliceQueue) (s : SectionSlices) :
    inProgress (s.conclude pid queue).sliceQueue = none := by
  unfold conclude
  split <;> exact inProgress_clearSlices queue

@[simp] theorem taken_conclude (pid : ℕ) (queue : SliceQueue) (s : SectionSlices) :
    (s.conclude pid queue).taken = s.taken := by
  unfold conclude
  split <;> rfl

end SectionSlices

section Bounds

variable (p : TsPacket)

/-- The view shows no byte outside the payload of the packet. -/
def TsPacket.Holds (view : ArrayView UInt8) : Prop :=
  view.size = 0 ∨ view.buffer = p.chunk ∧ ∃ start, p.tsPayloadStartIndex = some start ∧
    p.offset + start ≤ view.start ∧ view.start + view.size ≤ p.offset + 188

/-- The rest of a section begun earlier is expected, the pointer points behind the payload and
    the chunk goes on behind the packet. -/
def Overruns (sliceQueue : Option SliceQueue) : Prop :=
  inProgress sliceQueue ≠ none ∧ p.payloadUnitStartIndicator ≠ 0 ∧
    ∃ start pointer, p.tsPayloadStartIndex = some start ∧ (p.data start).get? 0 = some pointer ∧
      188 ≤ start + pointer.toNat ∧ p.offset + 188 < p.chunk.length

variable {p}

theorem holds_subarray {start : ℕ} (hstart : p.tsPayloadStartIndex = some start) {i j : ℤ}
    (hi : (p.offset + start : ℕ) ≤ i) (hj : 0 ≤ j) (hle : j ≤ (p.offset + 188 : ℕ)) :
    p.Holds (p.buffer.subarray i j) := by
  by_cases hsize : (p.buffer.subarray i j).size = 0
  · exact .inl hsize
  · refine .inr ⟨rfl, start, hstart, ?_⟩
    rw [TsPacket.size_subarray] at hsize
    rw [TsPacket.start_subarray, TsPacket.size_subarray]
    unfold ArrayView.clamp at hsize ⊢
    rw [if_neg (by omega), if_neg (by omega)] at hsize ⊢
    omega

theorem sectionBody_size {start i : ℕ} (h : i < (p.data start).size) {e : ℤ} (he : 0 < e) :
    0 < (p.buffer.subarray ((p.offset + start : ℕ) + (i : ℤ))
      ((p.offset + start : ℕ) + (i : ℤ) + min (188 - start - i : ℤ) e)).size := by
  have hfits := p.fits
  rw [TsPacket.size_data] at h
  rw [TsPacket.size_subarray]
  unfold ArrayView.clamp
  rw [if_neg (by omega), if_neg (by omega)]
  omega

theorem expecting_lacks (misc : TSSliceMisc) (n : ℕ) :
    (0 : ℤ) < ((SliceQueue.opened misc).expecting (n + 3)).expectedLength -
      ((SliceQueue.opened misc).expecting (n + 3)).totalLength := by
  show (0 : ℤ) < (n + 3 : ℤ) - (0 : ℕ)
  omega

theorem sectionLoop_exit (start : ℕ) (misc : TSSliceMisc) (is : ℕ × SectionSlices) :
    sectionCond (p.data start)
      (sectionLoop p.buffer (p.offset + start) (188 - start) misc (p.data start) is) = false := by
  refine iterWhile_exit (f := fun is => (p.data start).size - is.1) (fun is' h => ?_)
    (Nat.sub_le _ _)
  have hlt : is'.1 < (p.data start).size := of_decide_eq_true (Bool.and_eq_true_iff.mp h).1
  have hpos := sectionBody_size hlt (expecting_lacks misc (sectionLengthAt (p.data start) is'.1))
  show (p.data start).size - (is'.1 + _) < (p.data start).size - is'.1
  omega

theorem forall_taken_take {P : ArrayView UInt8 → Prop} {view : ArrayView UInt8} (h : P view)
    (s : SectionSlices) : (∀ v ∈ (s.take view).taken, P v) ↔ ∀ v ∈ s.taken, P v := by
  rw [SectionSlices.take, forall_mem_append, forall_mem_singleton]
  exact and_iff_left h

theorem sectionLoop_holds {start : ℕ} (hstart : p.tsPayloadStartIndex = some start)
    (misc : TSSliceMisc) (is : ℕ × SectionSlices) (hlack : Lacking is.2.sliceQueue) :
    Lacking (sectionLoop p.buffer (p.offset + start) (188 - start) misc (p.data start)
        is).2.sliceQueue ∧
      ((∀ v ∈ (sectionLoop p.buffer (p.offset + start) (188 - start) misc (p.data start)
          is).2.taken, p.Holds v) ↔ ∀ v ∈ is.2.taken, p.Holds v) := by
  refine iterWhile_inv
    (P := fun is' : ℕ × SectionSlices => Lacking is'.2.sliceQueue ∧
      ((∀ v ∈ is'.2.taken, p.Holds v) ↔ ∀ v ∈ is.2.taken, p.Holds v))
    (fun is' hinv hcond => ⟨lacking_settle _ _ _, ?_⟩) ⟨hlack, Iff.rfl⟩ _
  have hlt : is'.1 < (p.data start).size := of_decide_eq_true (Bool.and_eq_true_iff.mp hcond).1
  rw [TsPacket.size_data] at hlt
  rw [sectionBody]
  rw [taken_settle, forall_taken_take _ is'.2]
  · exact hinv.2
  · have hlacks := expecting_lacks misc (sectionLengthAt (p.data start) is'.1)
    exact holds_subarray hstart (by omega) (by omega) (by omega)

variable {misc : TSSliceMisc} {s : SectionSlices}

theorem finishSection_none {offset : ℕ} {length : ℤ} (h : inProgress s.sliceQueue = none)
    (buffer : ArrayView UInt8) (pointer : Option UInt8) :
    finishSection buffer offset length misc pointer s = s := by
  rw [finishSection, h]

/-- Behind the pointer no section begun earlier is left in the queue. -/
theorem finishSection_idle (buffer : ArrayView UInt8) (offset : ℕ) (length : ℤ)
    (misc : TSSliceMisc) (pointer : Option UInt8) (s : SectionSlices) :
    inProgress (finishSection buffer offset length misc pointer s).sliceQueue = none := by
  rw [finishSection]
  split
  · assumption
  · exact inProgress_conclude _ _ _

variable {queue : SliceQueue}

theorem taken_finishSection {offset : ℕ} {length : ℤ} (h : inProgress s.sliceQueue = some queue)
    (buffer : ArrayView UInt8) (pointer : Option UInt8) :
    (finishSection buffer offset length misc pointer s).taken =
      s.taken ++ [pointedView buffer offset length pointer] := by
  rw [finishSection, h]
  exact taken_conclude _ _ _

variable {sliceQueue : Option SliceQueue}

theorem holds_rest_iff (hqueue : inProgress sliceQueue = some queue)
    (hpusi : p.payloadUnitStartIndicator ≠ 0) {start : ℕ}
    (hstart : p.tsPayloadStartIndex = some start) {pointer : UInt8}
    (hpointer : (p.data start).get? 0 = some pointer) :
    p.Holds (pointedView p.buffer (p.offset + start) (188 - start) (some pointer)) ↔
      ¬ Overruns p sliceQueue := by
  have hfits := p.fits
  have hsize : 0 < (p.data start).size := by
    by_contra h
    rw [ArrayView.get?_eq_none_iff.mpr (not_lt.mp h)] at hpointer
    exact absurd hpointer.symm (some_ne_none pointer)
  rw [TsPacket.size_data] at hsize
  rw [pointedView]
  constructor
  · rintro hholds ⟨-, -, start', pointer', hstart', hpointer', hbehind, hmore⟩
    obtain rfl := some.inj (hstart.symm.trans hstart')
    obtain rfl := some.inj (hpointer.symm.trans hpointer')
    unfold TsPacket.Holds at hholds
    rw [TsPacket.size_subarray, TsPacket.start_subarray] at hholds
    unfold ArrayView.clamp at hholds
    rw [if_neg (by omega), if_neg (by omega)] at hholds
    obtain hzero | ⟨-, start', hstart', -, hend⟩ := hholds
    · omega
    · omega
  · intro h
    by_cases hbehind : 188 ≤ start + pointer.toNat
    · have hmore : ¬ p.offset + 188 < p.chunk.length := fun hmore =>
        h ⟨by rw [hqueue]; exact some_ne_none queue, hpusi, start, pointer, hstart, hpointer,
          hbehind, hmore⟩
      refine .inr ⟨rfl, start, hstart, ?_⟩
      rw [TsPacket.start_subarray, TsPacket.size_subarray]
      unfold ArrayView.clamp
      rw [if_neg (by omega), if_neg (by omega)]
      omega
    · exact holds_subarray hstart (by omega) (by omega) (by omega)

/-- The queue of one packet lacks bytes again, and it took bytes of the payload only unless the
    pointer overran. -/
theorem sectionSlice_holds_iff (hlack : Lacking sliceQueue) :
    Lacking (p.sectionSlice sliceQueue).sliceQueue ∧
      ((∀ v ∈ (p.sectionSlice sliceQueue).taken, p.Holds v) ↔ ¬ Overruns p sliceQueue) := by
  rw [TsPacket.sectionSlice]
  split
  · rename_i hnone
    refine ⟨hlack, iff_of_true (fun _ h => absurd h not_mem_nil) ?_⟩
    rintro ⟨-, -, start, -, hstart, -⟩
    rw [hnone] at hstart
    exact absurd hstart.symm (some_ne_none start)
  · rename_i start hstart
    rw [handleSectionSlice]
    split
    · rename_i hpusi
      split
      · rename_i hpointer
        refine ⟨lacking_of_none (finishSection_idle _ _ _ _ _ _), iff_of_true ?_ ?_⟩
        · cases hqueue : inProgress sliceQueue with
          | none =>
            rw [finishSection_none hqueue]
            exact fun _ h => absurd h not_mem_nil
          | some queue =>
            rw [taken_finishSection hqueue, nil_append, forall_mem_singleton]
            exact holds_subarray hstart (by omega) (le_refl _) (by omega)
        · rintro ⟨-, -, start', pointer, hstart', hpointer', -⟩
          obtain rfl := some.inj (hstart.symm.trans hstart')
          exact absurd (hpointer'.symm.trans hpointer) (some_ne_none pointer)
      · rename_i pointer hpointer
        have hloop := sectionLoop_holds hstart
          ⟨p.pid, p.filePosition, p.payloadUnitStartIndicator, p.randomAccessIndicator⟩
          (1 + pointer.toNat, finishSection p.buffer (p.offset + start) (188 - start)
            ⟨p.pid, p.filePosition, p.payloadUnitStartIndicator, p.randomAccessIndicator⟩
            (some pointer) ⟨sliceQueue, [], []⟩)
          (lacking_of_none (finishSection_idle _ _ _ _ _ _))
        refine ⟨hloop.1, hloop.2.trans ?_⟩
        cases hqueue : inProgress sliceQueue with
        | none =>
          rw [finishSection_none hqueue]
          refine iff_of_true (fun _ h => absurd h not_mem_nil) ?_
          rintro ⟨hne, -⟩
          exact hne hqueue
        | some queue =>
          rw [taken_finishSection hqueue, nil_append, forall_mem_singleton]
          exact holds_rest_iff hqueue hpusi hstart hpointer
    · rename_i hpusi
      rw [continueSection]
      split
      · refine ⟨hlack, iff_of_true (fun _ h => absurd h not_mem_nil) ?_⟩
        exact fun h => h.2.1 (not_not.mp hpusi)
      · rename_i queue hqueue
        refine ⟨lacking_settle _ _ _, iff_of_true ?_ fun h => h.2.1 (not_not.mp hpusi)⟩
        have hlt := hlack queue hqueue
        rw [taken_settle, forall_taken_take]
        · exact fun _ h => absurd h not_mem_nil
        · exact holds_subarray hstart (by omega) (by omega) (by omega)

end Bounds

end Apackage.Rtp2httpd.Player
