import Apackage.Rtp2httpd.Fec.Frame
import Apackage.Rtp2httpd.Reorder.Insert

/-
  The window invariant of the reorder buffer, for every run of RTP and FEC packets.

  `Windowed`: each packet lies in the slot of its own number, and the undelivered ones lie less than
  `window_size` ahead of `base_seq`. `flush_consecutive` and `force_flush_until` deliver whatever is
  in the slot of `base_seq`. The active phase keeps the invariant for any packet, the collecting
  phase only while the collected packets lie within one window of each other (`CollectFits`).
-/

namespace Apackage.Rtp2httpd

open Option Lib.Serial Lib.Run

/-! ## Slots after each operation -/

namespace StreamContext

variable {s : StreamContext}

theorem waiting_iff {i : ℕ} :
    s.waiting i = true ↔ (s.reorder.slots i).isSome = true ∧ s.kept i = false := by
  simp [waiting]

@[simp] theorem waiting_storePacket (buf : BufferRef) (q : Seq) (i : ℕ) :
    (s.storePacket buf q).waiting i = if i = s.slot q then true else s.waiting i := by
  by_cases h : i = s.slot q <;> simp [waiting, h]

@[simp] theorem waiting_clearSlot (i j : ℕ) :
    (s.clearSlot j).waiting i = if i = j then false else s.waiting i := by
  by_cases h : i = j <;> simp [waiting, h]

@[simp] theorem waiting_keepSlot (i j : ℕ) :
    (s.keepSlot j).waiting i = if i = j then false else s.waiting i := by
  by_cases h : i = j <;> simp [waiting, h]

end StreamContext

variable {s : StreamContext} {buf : BufferRef}

theorem flushBody_of_some {conn : Conn} {keep : Bool}
    (h : s.reorder.slots (s.slot s.base) = some buf) :
    flushBody conn keep s = (if keep then (deliverPacket conn buf s).keepSlot (s.slot s.base)
        else (deliverPacket conn buf s).clearSlot (s.slot s.base)).advance.decCount := by
  simp [flushBody, h]

theorem forceFlushBody_of_some {conn : Conn} (h : s.reorder.slots (s.slot s.base) = some buf) :
    forceFlushBody conn s =
      ((deliverPacket conn buf s).clearSlot (s.slot s.base)).decCount.advance := by
  simp [forceFlushBody, h]

variable (conn : Conn)

theorem forceFlushBody_of_none (h : s.reorder.slots (s.slot s.base) = none) :
    ∃ f, forceFlushBody conn s = { s with fec := f }.advance ∧ f.groups = s.fec.groups := by
  simp only [forceFlushBody, h]
  exact ⟨_, rfl, rfl⟩

theorem flushCond_iff : flushCond s = true ↔
      0 < s.reorder.count.toNat ∧ ∃ buf, s.reorder.slots (s.slot s.base) = some buf := by
  simp [flushCond, isSome_iff_exists, BitVec.lt_def]

/-! ## The loops end for their own reason -/

theorem flushBody_count {conn : Conn} {keep : Bool} (h : flushCond s = true) :
    (flushBody conn keep s).reorder.count.toNat < s.reorder.count.toNat := by
  obtain ⟨hpos, buf, hbuf⟩ := flushCond_iff.mp h
  rw [flushBody_of_some hbuf]
  cases keep <;> simp <;> bv_omega

/-- `flush_consecutive` loops until `count` is 0 or the slot of `base_seq` is a hole. -/
theorem flushLoop_eq (keep : Bool) (s : StreamContext) : flushLoop conn keep s =
      if flushCond s then flushLoop conn keep (flushBody conn keep s) else s :=
  iterWhile_unfold (c := flushCond) (b := flushBody conn keep)
    (f := fun s => s.reorder.count.toNat) (fun _ h => flushBody_count h) s

theorem forceFlushBody_fields (s : StreamContext) : (forceFlushBody conn s).base = s.base + 1 ∧
      (forceFlushBody conn s).reorder.window = s.reorder.window ∧
      (forceFlushBody conn s).reorder.phase = s.reorder.phase ∧
      (forceFlushBody conn s).reorder.seq = s.reorder.seq ∧
      (forceFlushBody conn s).kept = s.kept := by
  cases h : s.reorder.slots (s.slot s.base) with
  | none =>
    obtain ⟨f, hf, -⟩ := forceFlushBody_of_none conn h
    rw [hf]
    exact ⟨rfl, rfl, rfl, rfl, rfl⟩
  | some buf =>
    rw [forceFlushBody_of_some h]
    exact ⟨rfl, rfl, rfl, rfl, rfl⟩

theorem eight_le_windowSize (s : StreamContext) : 8 ≤ s.windowSize := s.reorder.window.eight_le_size

theorem windowSize_le (s : StreamContext) : s.windowSize ≤ 8192 := s.reorder.window.size_le

theorem forceFlushCond_iff {target : Seq} : forceFlushCond target s = true ↔
      s.windowSize ≤ ahead s.base target ∧ ahead s.base target < 32768 := by
  have hsize := eight_le_windowSize s
  simp only [forceFlushCond, decide_eq_true_eq]
  constructor
  · intro h
    have := seqDiff_pos (a := target) (b := s.base) (by omega)
    omega
  · rintro ⟨h1, h2⟩
    rw [seqDiff_eq, if_pos h2]
    omega

theorem forceFlushBody_ahead {target : Seq} (h : forceFlushCond target s = true) :
    ahead (forceFlushBody conn s).base target + 1 = ahead s.base target := by
  have hsize := eight_le_windowSize s
  obtain ⟨h1, -⟩ := forceFlushCond_iff.mp h
  rw [(forceFlushBody_fields conn s).1]
  refine ahead_succ (fun he => ?_)
  rw [he, ahead_self] at h1
  omega

theorem forceFlushUntil_ahead {target : Seq} (h : (s.windowSize : ℤ) ≤ seqDiff target s.base) :
    ahead (forceFlushUntil conn target s).base target + 1 =
      (forceFlushUntil conn target s).windowSize := by
  have hexit : forceFlushCond target (forceFlushUntil conn target s) = false :=
    iterWhile_exit (f := fun s : StreamContext => ahead s.base target)
      (fun s h => by have := forceFlushBody_ahead conn h; omega) (Nat.le_refl _)
  have hinv : (forceFlushUntil conn target s).windowSize ≤
        ahead (forceFlushUntil conn target s).base target + 1 ∧
      ahead (forceFlushUntil conn target s).base target < 32768 := by
    refine iterWhile_inv (P := fun s : StreamContext =>
      s.windowSize ≤ ahead s.base target + 1 ∧ ahead s.base target < 32768) ?_ ?_ _
    · rintro s - hc
      have := forceFlushBody_ahead conn hc
      obtain ⟨h1, h2⟩ := forceFlushCond_iff.mp hc
      have hw : (forceFlushBody conn s).windowSize = s.windowSize := by
        rw [StreamContext.windowSize, (forceFlushBody_fields conn s).2.1]
      exact ⟨by omega, by omega⟩
    · have := forceFlushCond_iff.mp (show forceFlushCond target s = true by
        simpa [forceFlushCond] using h)
      omega
  have hnot : ¬ forceFlushCond target (forceFlushUntil conn target s) = true := by simp [hexit]
  rw [forceFlushCond_iff] at hnot
  omega

/-! ## The invariant -/

structure Windowed (s : StreamContext) : Prop where
  place : ∀ i, (s.reorder.slots i).isSome = true → s.slot (s.reorder.seq i) = i
  near : ∀ i, s.waiting i = true → ahead s.base (s.reorder.seq i) < s.windowSize

namespace Windowed

variable {s : StreamContext}

section

variable (h : Windowed s)

include h

theorem seq_base (hw : s.waiting (s.slot s.base) = true) : s.reorder.seq (s.slot s.base) = s.base :=
  s.reorder.window.slot_inj (b := s.base) (h.near _ hw)
    (by rw [ahead_self]; exact lt_of_lt_of_le (by decide) (eight_le_windowSize s))
    (h.place _ (StreamContext.waiting_iff.mp hw).1)

theorem seq_slot {q : Seq} (hq : ahead s.base q < s.windowSize) (hw : s.waiting (s.slot q) = true) :
    s.reorder.seq (s.slot q) = q :=
  s.reorder.window.slot_inj (h.near _ hw) hq (h.place _ (StreamContext.waiting_iff.mp hw).1)

theorem advance (hb : s.waiting (s.slot s.base) = false) : Windowed s.advance where
  place := h.place
  near i hi := by
    have hi' : s.waiting i = true := hi
    have hne : s.reorder.seq i ≠ s.base := by
      intro he
      have := h.place i (StreamContext.waiting_iff.mp hi').1
      rw [he] at this
      rw [this, hi'] at hb
      cases hb
    have h1 := h.near i hi'
    have h2 := ahead_succ hne
    change ahead (s.base + 1) (s.reorder.seq i) < s.windowSize
    omega

theorem clearSlot (i : ℕ) : Windowed (s.clearSlot i) where
  place j hj := by
    refine h.place j ?_
    by_cases hij : j = i
    · simp [hij] at hj
    · simpa [hij] using hj
  near j hj := h.near j (by
    rw [StreamContext.waiting_clearSlot] at hj
    split at hj
    · cases hj
    · exact hj)

theorem keepSlot (i : ℕ) : Windowed (s.keepSlot i) where
  place := h.place
  near j hj := h.near j (by
    rw [StreamContext.waiting_keepSlot] at hj
    split at hj
    · cases hj
    · exact hj)

theorem decCount : Windowed s.decCount := ⟨h.place, h.near⟩

theorem deliverPacket (conn : Conn) (buf : BufferRef) : Windowed (deliverPacket conn buf s) :=
  ⟨h.place, h.near⟩

theorem storePacket_place (buf : BufferRef) (q : Seq) (i : ℕ)
    (hi : ((s.storePacket buf q).reorder.slots i).isSome = true) :
    s.slot ((s.storePacket buf q).reorder.seq i) = i := by
  by_cases h' : i = s.slot q
  · simp [h']
  · simp only [StreamContext.storePacket_reorder_slots, StreamContext.storePacket_reorder_seq,
      StreamContext.slot, Function.update_of_ne h'] at hi ⊢
    exact h.place i hi

theorem storePacket (buf : BufferRef) {q : Seq} (hq : ahead s.base q < s.windowSize) :
    Windowed (s.storePacket buf q) where
  place := h.storePacket_place buf q
  near i hi := by
    by_cases h' : i = s.slot q
    · simpa [h'] using hq
    · simp only [StreamContext.waiting_storePacket, h', if_false] at hi
      simpa [h'] using h.near i hi

theorem sheds {t : StreamContext} {R : Seq → Prop} (hst : Sheds R s t) : Windowed t where
  place i hi := by
    obtain ⟨buf, hb⟩ := isSome_iff_exists.mp hi
    rw [StreamContext.slot, hst.window, hst.seq]
    exact h.place i (by rw [hst.slots_of_some hb]; rfl)
  near i hi := by
    rw [StreamContext.base, StreamContext.windowSize, hst.window, hst.seq, hst.base]
    exact h.near i (hst.waiting hi)

theorem flushBody (conn : Conn) (keep : Bool) (hc : flushCond s = true) :
    Windowed (flushBody conn keep s) := by
  obtain ⟨-, buf, hbuf⟩ := flushCond_iff.mp hc
  rw [flushBody_of_some hbuf]
  cases keep
  · exact (((h.deliverPacket conn buf).clearSlot _).advance (by simp)).decCount
  · exact (((h.deliverPacket conn buf).keepSlot _).advance (by simp)).decCount

theorem forceFlushBody (conn : Conn) : Windowed (forceFlushBody conn s) := by
  cases hb : s.reorder.slots (s.slot s.base) with
  | none =>
    obtain ⟨f, hf, -⟩ := forceFlushBody_of_none conn hb
    rw [hf]
    exact advance (s := { s with fec := f }) ⟨h.place, h.near⟩ (by simp [StreamContext.waiting, hb])
  | some buf =>
    rw [forceFlushBody_of_some hb]
    exact advance (((h.deliverPacket conn buf).clearSlot _).decCount)
      (by simp [StreamContext.waiting])

theorem flushLoop (conn : Conn) (keep : Bool) : Windowed (flushLoop conn keep s) :=
  iterWhile_inv (P := Windowed) (fun _ hs hc => hs.flushBody conn keep hc) h _

theorem releaseExpired : Windowed (releaseExpired s) := by
  rw [Rtp2httpd.releaseExpired]
  split
  · exact h.sheds (fecReleaseExpiredGroups_sheds _ _)
  · exact h

theorem flushConsecutive (conn : Conn) : Windowed (flushConsecutive conn s) :=
  (h.flushLoop conn _).releaseExpired

theorem makeRoom (conn : Conn) (q : Seq) : Windowed (makeRoom conn q s) := by
  rw [Rtp2httpd.makeRoom]
  split
  · exact iterWhile_inv (P := Windowed) (fun _ hs _ => hs.forceFlushBody conn) h _
  · exact h

theorem deliverRecovered (conn : Conn) (data : List UInt8) :
    Windowed (deliverRecovered conn data s) := by
  have h' : Windowed (deliverRawPacket conn data s) := ⟨h.place, h.near⟩
  rw [Rtp2httpd.deliverRecovered]
  split
  · exact (h'.keepSlot _).advance (by simp)
  · rename_i hdup
    refine h'.advance ?_
    by_contra hw
    have hw : s.waiting (s.slot s.base) = true := eq_true_of_ne_false hw
    apply hdup
    simp [duplicate, (StreamContext.waiting_iff.mp hw).1, h.seq_base hw]

theorem recoverHead (conn : Conn) : Windowed (recoverHead conn s) := by
  rw [Rtp2httpd.recoverHead]
  split
  · have h' : Windowed (fecAttemptRecovery s.base s).1 :=
      h.sheds (fecAttemptRecovery_sheds (R := fun _ => False) s.base s)
    split
    · rename_i hres
      rw [hres] at h'
      exact h'
    · rename_i hres
      rw [hres] at h'
      exact (h'.deliverRecovered conn _).flushConsecutive conn
  · exact h

end

end Windowed

variable {q : Seq}

theorem makeRoom_ahead (h : 0 < seqDiff q s.base) :
    ahead (makeRoom conn q s).base q < (makeRoom conn q s).windowSize := by
  rw [makeRoom]
  split
  · have := forceFlushUntil_ahead conn ‹_›
    omega
  · have := seqDiff_pos h
    omega

/-- The active phase keeps the window, whatever arrives. -/
theorem windowed_insertActive (h : Windowed s) (conn : Conn) (buf : BufferRef) (q : Seq) :
    Windowed (insertActive conn buf q s) := by
  rw [insertActive]
  split
  · rename_i hq
    rw [seqDiff_eq_zero] at hq
    subst hq
    rw [insertExpected]
    split
    · rename_i hfast
      simp only [fastPath, Bool.and_eq_true, isNone_iff_eq_none] at hfast
      have hw : s.waiting (s.slot s.base) = false := by simp [StreamContext.waiting, hfast.2]
      exact Windowed.advance (s := { s.log _ with totalBytes := _ }) ⟨h.place, h.near⟩ hw
    · refine (h.storePacket buf ?_).flushConsecutive conn
      rw [ahead_self]
      have := eight_le_windowSize s
      omega
  · split
    · exact h
    · rw [insertAhead]
      have hm := h.makeRoom conn q
      split
      · exact hm
      · exact (hm.storePacket buf (makeRoom_ahead conn (by omega))).recoverHead conn

/-! ## The collecting phase -/

/-- A packet stored while collecting lies within one window of `base_seq` and of each packet
    collected so far. -/
def CollectFits (s : StreamContext) (q : Seq) : Prop :=
  s.reorder.phase = .collecting → s.reorder.slots (s.slot q) = none → Close s.windowSize s.base q ∧
      ∀ i < s.windowSize, (s.reorder.slots i).isSome = true → Close s.windowSize (s.reorder.seq i) q

instance (s : StreamContext) (q : Seq) : Decidable (CollectFits s q) := by
  unfold CollectFits
  infer_instance

/-- Before the active phase nothing is kept, and before the first packet nothing is there. -/
structure Starting (s : StreamContext) : Prop where
  empty : s.reorder.phase = .notStarted → ∀ i, s.reorder.slots i = none
  fresh : s.reorder.phase ≠ .active → ∀ i, s.kept i = false

theorem starting_of_active (h : s.reorder.phase = .active) : Starting s :=
  ⟨by simp [h], by simp [h]⟩

theorem Starting.windowed_startAt (h : Starting s) (hp : s.reorder.phase = .notStarted) (q : Seq) :
    Windowed (s.startAt q) where
  place i hi := by simp [h.empty hp i] at hi
  near i hi := by simp [StreamContext.waiting, h.empty hp i] at hi

theorem windowed_startCollecting (h : Starting s) (hp : s.reorder.phase = .notStarted)
    (buf : BufferRef) (q : Seq) :
    Windowed (startCollecting buf q s) ∧ Starting (startCollecting buf q s) := by
  refine ⟨(h.windowed_startAt hp q).storePacket buf ?_, ⟨?_, fun _ i => ?_⟩⟩
  · rw [StreamContext.base, StreamContext.startAt_reorder_baseSeq, ahead_self]
    exact lt_of_lt_of_le (by decide) (eight_le_windowSize s)
  · simp [startCollecting]
  · have hk := h.fresh (by simp [hp]) i
    by_cases hi : i = s.slot q <;> simp_all [startCollecting]

/-- `base_seq` moved back to a number close to everything that waits. -/
theorem Windowed.rebase (h : Windowed s) (hbase : Close s.windowSize s.base q)
    (hclose : ∀ i, s.waiting i = true → Close s.windowSize (s.reorder.seq i) q)
    (hq : SerialLt q s.base) : Windowed (s.rebase q) where
  place := h.place
  near i hi := hbase.ahead_lt_of_before (hclose i hi) (windowSize_le s) hq (h.near i hi)

/-- `base_seq` after storing `q` in the collecting phase: the earlier of the two. -/
def collectBase (s : StreamContext) (q : Seq) : Seq := if seqDiff q s.base < 0 then q else s.base

/-- What the collecting phase does with a packet: it is dropped if its slot is taken, else
    stored, with `base_seq` moved back to it if it is earlier. -/
theorem collectPacket_eq (buf : BufferRef) (q : Seq) (s : StreamContext) : collectPacket buf q s =
      if (s.reorder.slots (s.slot q)).isSome then s
      else (s.rebase (collectBase s q)).storePacket buf q := by
  rw [collectPacket, collectBase]
  split
  · rfl
  · change (if seqDiff q s.base < 0 then (s.storePacket buf q).rebase q
      else s.storePacket buf q) = _
    split <;> rfl

theorem CollectFits.rebase (hfit : CollectFits s q) (h : Windowed s)
    (hp : s.reorder.phase = .collecting) (hfree : s.reorder.slots (s.slot q) = none) :
    Windowed (s.rebase (collectBase s q)) ∧ ahead (collectBase s q) q < s.windowSize := by
  obtain ⟨hbase, hstored⟩ := hfit hp hfree
  rw [collectBase]
  split
  · rename_i hbefore
    refine ⟨h.rebase hbase (fun i hi => ?_) hbefore, ?_⟩
    · have hsome := (StreamContext.waiting_iff.mp hi).1
      refine hstored i ?_ hsome
      rw [← h.place i hsome]
      exact s.reorder.window.slot_lt _
    · rw [ahead_self]
      exact lt_of_lt_of_le (by decide) (eight_le_windowSize s)
  · rename_i hafter
    exact ⟨h, hbase.ahead_lt (windowSize_le s) (not_lt.mp hafter)⟩

theorem windowed_collectPacket (h : Windowed s) (h' : Starting s)
    (hp : s.reorder.phase = .collecting) (buf : BufferRef) (hfit : CollectFits s q) :
    Windowed (collectPacket buf q s) ∧ Starting (collectPacket buf q s) ∧
      (collectPacket buf q s).reorder.phase = .collecting := by
  rw [collectPacket_eq]
  split
  · exact ⟨h, h', hp⟩
  · rename_i hfree
    obtain ⟨hb, hnear⟩ := hfit.rebase h hp (by simpa using hfree)
    refine ⟨hb.storePacket buf hnear, ⟨by simp [hp], fun _ i => ?_⟩, hp⟩
    have := h'.fresh (by simp [hp]) i
    by_cases hi : i = s.slot q <;> simp_all

/-! ## The invariant of every run -/

theorem flushLoop_phase (keep : Bool) (s : StreamContext) :
    (flushLoop conn keep s).reorder.phase = s.reorder.phase := by
  refine iterWhile_inv (P := fun t : StreamContext => t.reorder.phase = s.reorder.phase)
    (fun t ht hc => ?_) rfl _
  obtain ⟨-, buf, hbuf⟩ := flushCond_iff.mp hc
  rw [← ht, flushBody_of_some hbuf]
  cases keep <;> rfl

theorem releaseExpired_phase (s : StreamContext) :
    (releaseExpired s).reorder.phase = s.reorder.phase := by
  rw [releaseExpired]
  split
  · exact (fecReleaseExpiredGroups_sheds _ _).phase
  · rfl

theorem flushConsecutive_phase (s : StreamContext) :
    (flushConsecutive conn s).reorder.phase = s.reorder.phase := by
  rw [flushConsecutive, releaseExpired_phase, flushLoop_phase]

theorem makeRoom_phase (q : Seq) (s : StreamContext) :
    (makeRoom conn q s).reorder.phase = s.reorder.phase := by
  rw [makeRoom]
  split
  · exact iterWhile_inv (P := fun t : StreamContext => t.reorder.phase = s.reorder.phase)
      (fun t ht _ => (forceFlushBody_fields conn t).2.2.1.trans ht) rfl _
  · rfl

theorem deliverRecovered_phase (data : List UInt8) (s : StreamContext) :
    (deliverRecovered conn data s).reorder.phase = s.reorder.phase := by
  rw [deliverRecovered]
  split <;> rfl

theorem recoverHead_phase (s : StreamContext) :
    (recoverHead conn s).reorder.phase = s.reorder.phase := by
  have h := (fecAttemptRecovery_sheds (R := fun _ => False) s.base s).phase
  rw [recoverHead]
  split
  · split
    · rename_i hres
      rw [hres] at h
      exact h
    · rename_i hres
      rw [hres] at h
      rw [flushConsecutive_phase, deliverRecovered_phase]
      exact h
  · rfl

theorem insertActive_phase (buf : BufferRef) (q : Seq) (s : StreamContext) :
    (insertActive conn buf q s).reorder.phase = s.reorder.phase := by
  rw [insertActive]
  split
  · rw [insertExpected]
    split
    · rfl
    · rw [flushConsecutive_phase]
      rfl
  · split
    · rfl
    · rw [insertAhead]
      split
      · exact makeRoom_phase conn q s
      · rw [recoverHead_phase]
        exact makeRoom_phase conn q s

theorem insert_of_notStarted (h : s.reorder.phase = .notStarted) (conn : Conn) (buf : BufferRef)
    (q : Seq) : rtpReorderInsert conn buf q s = startCollecting buf q s.resetBytes := by
  simp [rtpReorderInsert, h]

theorem insert_of_collecting (h : s.reorder.phase = .collecting) (conn : Conn) (buf : BufferRef)
    (q : Seq) :
    rtpReorderInsert conn buf q s =
      if rtpReorderInitCollect ≤ (collectPacket buf q s.resetBytes).reorder.count.toNat then
        flushConsecutive conn (activate (collectPacket buf q s.resetBytes))
      else collectPacket buf q s.resetBytes := by
  simp [rtpReorderInsert, StreamContext.resetBytes_reorder, h, collect]

theorem insert_of_active (h : s.reorder.phase = .active) (conn : Conn) (buf : BufferRef) (q : Seq) :
    rtpReorderInsert conn buf q s = insertActive conn buf q s.resetBytes := by
  simp [rtpReorderInsert, h]

theorem Starting.sheds {s t : StreamContext} {R : Seq → Prop} (h : Starting s)
    (hst : Sheds R s t) : Starting t where
  empty hp i := by
    rcases hst.slots i with h1 | ⟨h1, -, -⟩
    · rw [h1]
      exact h.empty (hst.phase ▸ hp) i
    · exact h1
  fresh hp i := by
    rw [hst.kept]
    exact h.fresh (hst.phase ▸ hp) i

theorem windowed_init (useFec : Bool) (fec : FecContext) :
    Windowed (.init useFec fec) ∧ Starting (.init useFec fec) := by
  refine ⟨⟨?_, ?_⟩, fun _ _ => rfl, fun _ _ => rfl⟩
  · simp [StreamContext.init, rtpReorderInit]
  · simp [StreamContext.init, rtpReorderInit, StreamContext.waiting]

end Apackage.Rtp2httpd
