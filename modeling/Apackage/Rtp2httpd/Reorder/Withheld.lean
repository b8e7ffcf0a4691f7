import Apackage.Rtp2httpd.Reorder.Accounting
import Apackage.Rtp2httpd.Reorder.InOrder

/-
  The packet that is next in order, in runs without FEC.

  `force_flush_until` stops as soon as the target fits into the window and does not look at the
  packet it stops at. If that packet is there, it stays, and with it all that follow it.
  `LeavesHead` is this one case (`never_withheld_iff`). The collecting phase may take packets that
  are far apart, so `count` is only bounded (`Filed`).
-/

namespace Apackage.Rtp2httpd

open Function Lib.Serial Lib.Run

/-- The number at which a forced flush for `q` stops. -/
def flushStop (s : StreamContext) (q : Seq) : Seq := q - BitVec.ofNat 16 (s.windowSize - 1)

/-- A packet beyond the window, by less than a window: the flush it forces stops at a packet
    that is there. -/
def LeavesHead (s : StreamContext) (q : Seq) : Prop :=
  s.reorder.phase = .active ∧ (s.windowSize : ℤ) ≤ seqDiff q s.base ∧
    ahead s.base (flushStop s q) < s.windowSize ∧ duplicate (flushStop s q) s = true
  deriving Decidable

variable {s : StreamContext} {q : Seq}

theorem rtpReorderGet_eq_none : rtpReorderGet s.reorder q = none ↔ duplicate q s = false := by
  unfold rtpReorderGet duplicate
  dsimp only
  split <;> simp_all

/-! ## One packet passed -/

/-- `base_seq` moves on by one, and the packet in its slot, if there is one, is counted down. -/
structure Passed (s t : StreamContext) : Prop where
  base : t.base = s.base + 1
  window : t.reorder.window = s.reorder.window
  seq : t.reorder.seq = s.reorder.seq
  phase : t.reorder.phase = s.reorder.phase
  kept : t.kept = s.kept
  noFec : t.fec.initialized = s.fec.initialized
  slots : ∀ i, t.reorder.slots i = if i = s.slot s.base then none else s.reorder.slots i
  count : t.reorder.count =
    if (s.reorder.slots (s.slot s.base)).isSome then s.reorder.count - 1 else s.reorder.count

variable (conn : Conn)

theorem passed_flushBody (hc : flushCond s = true) : Passed s (flushBody conn false s) := by
  obtain ⟨-, buf, hbuf⟩ := flushCond_iff.mp hc
  rw [flushBody_of_some hbuf, if_neg Bool.false_ne_true]
  refine ⟨rfl, rfl, rfl, rfl, rfl, rfl, fun i => ?_, ?_⟩
  · by_cases hi : i = s.slot s.base <;> simp [hi]
  · rw [hbuf]
    rfl

theorem passed_forceFlushBody (s : StreamContext) : Passed s (forceFlushBody conn s) := by
  obtain ⟨hb, hw, hp, hs, hk⟩ := forceFlushBody_fields conn s
  refine ⟨hb, hw, hs, hp, hk, ?_, forceFlushBody_slots conn s, ?_⟩
  · unfold forceFlushBody
    dsimp only
    split
    · rfl
    · rfl
  · unfold forceFlushBody
    dsimp only
    split <;> rename_i h <;> rw [h] <;> rfl

namespace Passed

variable {s t : StreamContext}

theorem windowSize (h : Passed s t) : t.windowSize = s.windowSize := by
  rw [StreamContext.windowSize, h.window]

theorem waiting (h : Passed s t) (i : ℕ) :
    t.waiting i = if i = s.slot s.base then false else s.waiting i := by
  unfold StreamContext.waiting
  rw [h.slots, h.kept]
  split
  · rfl
  · rfl

end Passed

/-! ## The count -/

/-- Slots of the packets in `windowCount`. -/
def windowSlots (s : StreamContext) : Finset ℕ :=
  (Finset.range s.windowSize).filter (fun i =>
    s.waiting i = true ∧ ahead s.base (s.reorder.seq i) < s.windowSize)

theorem windowCount_le (s : StreamContext) : windowCount s ≤ s.windowSize := by
  refine (Finset.card_filter_le _ _).trans ?_
  rw [Finset.card_range]

/-- Without FEC: what waits is counted, and not much more. -/
structure Filed (s : StreamContext) : Prop where
  noFec : s.fec.initialized = false
  fresh : ∀ i, s.kept i = false
  place : ∀ i, (s.reorder.slots i).isSome = true → s.slot (s.reorder.seq i) = i
  lower : waitingCount s ≤ s.reorder.count.toNat
  upper : s.reorder.count.toNat ≤ windowCount s + rtpReorderInitCollect

namespace Filed

variable {s t : StreamContext}

section

variable (h : Filed s)

include h

theorem waiting_eq (i : ℕ) : s.waiting i = (s.reorder.slots i).isSome := by
  simp [StreamContext.waiting, h.fresh i]

theorem count_lt : s.reorder.count.toNat < 65535 := by
  have := h.upper
  have := windowCount_le s
  have := windowSize_le s
  rw [rtpReorderInitCollect] at *
  omega

theorem windowSlots_pass (hp : Passed s t) {i : ℕ} (hi : i ∈ windowSlots s)
    (hne : i ≠ s.slot s.base) : i ∈ windowSlots t := by
  unfold windowSlots at hi ⊢
  rw [Finset.mem_filter, Finset.mem_range] at hi ⊢
  obtain ⟨hlt, hw, hnear⟩ := hi
  rw [hp.windowSize, hp.waiting, if_neg hne, hp.seq, hp.base]
  refine ⟨hlt, hw, ?_⟩
  have hseq : s.reorder.seq i ≠ s.base := fun he => hne (by
    rw [← h.place i (by rwa [h.waiting_eq] at hw), he])
  have := ahead_succ hseq
  omega

theorem pass (hp : Passed s t) : Filed t := by
  have hplace : ∀ i, (t.reorder.slots i).isSome = true → t.slot (t.reorder.seq i) = i := by
    intro i hi
    rw [hp.slots] at hi
    split at hi
    · cases hi
    · rw [StreamContext.slot, hp.window, hp.seq]
      exact h.place i hi
  have hlow := h.lower
  have hup := h.upper
  have hcount := hp.count
  by_cases hsome : (s.reorder.slots (s.slot s.base)).isSome = true
  · rw [if_pos hsome] at hcount
    have hlt : s.slot s.base < t.windowSize := hp.windowSize ▸ s.reorder.window.slot_lt s.base
    have hadd : waitingCount s = waitingCount t + 1 :=
      waitingCount_add hp.window.symm hlt (by rw [hp.waiting, if_pos rfl])
        (by rwa [h.waiting_eq]) (fun i hi => by rw [hp.waiting, if_neg hi])
    have hwin : windowCount s ≤ windowCount t + 1 := by
      refine (Finset.card_le_card (t := insert (s.slot s.base) (windowSlots t)) fun i hi => ?_).trans
        (Finset.card_insert_le _ _)
      by_cases hne : i = s.slot s.base
      · simp [*]
      · exact Finset.mem_insert_of_mem (h.windowSlots_pass hp hi hne)
    refine ⟨hp.noFec.trans h.noFec, fun i => by rw [hp.kept, h.fresh], hplace, ?_, ?_⟩
    · rw [hcount]
      bv_omega
    · rw [hcount]
      bv_omega
  · rw [if_neg hsome] at hcount
    have hsame : waitingCount t = waitingCount s := by
      refine waitingCount_congr hp.window fun i => ?_
      rw [hp.waiting]
      split
      · rename_i hi
        rw [hi, h.waiting_eq]
        exact (eq_false_of_ne_true hsome).symm
      · rfl
    have hwin : windowCount s ≤ windowCount t := by
      refine Finset.card_le_card (t := windowSlots t) fun i hi => h.windowSlots_pass hp hi ?_
      rintro rfl
      have := (Finset.mem_filter.1 hi).2.1
      rw [h.waiting_eq] at this
      exact hsome this
    refine ⟨hp.noFec.trans h.noFec, fun i => by rw [hp.kept, h.fresh], hplace, ?_, ?_⟩
    · rw [hcount, hsame]
      exact hlow
    · rw [hcount]
      omega

theorem count_store (b : Seq) (buf : BufferRef) (q : Seq) :
    ((s.rebase b).storePacket buf q).reorder.count.toNat = s.reorder.count.toNat + 1 := by
  have := h.count_lt
  rw [StreamContext.storePacket_reorder_count, StreamContext.rebase_reorder_count]
  bv_omega

theorem stored (b : Seq) (buf : BufferRef) (q : Seq) (hupper : s.reorder.count.toNat + 1 ≤
      windowCount ((s.rebase b).storePacket buf q) + rtpReorderInitCollect) :
    Filed ((s.rebase b).storePacket buf q) := by
  have hwaits : ∀ i, ((s.rebase b).storePacket buf q).waiting i =
      if i = s.slot q then true else s.waiting i := StreamContext.waiting_storePacket buf q
  refine ⟨h.noFec, fun i => ?_, fun i hi => ?_, ?_, by rwa [h.count_store]⟩
  · show Function.update s.kept (s.slot q) false i = false
    by_cases hi : i = s.slot q
    · rw [hi, update_self]
    · rw [update_of_ne hi, h.fresh]
  · by_cases hs : i = s.slot q
    · simp [hs]
    · simp only [StreamContext.storePacket_reorder_slots, StreamContext.slot,
        StreamContext.rebase_reorder_window, update_of_ne hs] at hi
      simpa [hs] using h.place i hi
  · rw [h.count_store]
    refine Nat.le_trans ?_ (Nat.succ_le_succ h.lower)
    by_cases hw : s.waiting (s.slot q) = true
    · have hsame : ∀ i, ((s.rebase b).storePacket buf q).waiting i = s.waiting i := by
        intro i
        rw [hwaits]
        split
        · rename_i hi
          rw [hi, hw]
        · rfl
      have := waitingCount_congr (s := s) (t := (s.rebase b).storePacket buf q) rfl hsame
      omega
    · have := waitingCount_add (s := s) (t := (s.rebase b).storePacket buf q) rfl
        (s.reorder.window.slot_lt q) (eq_false_of_ne_true hw) (by rw [hwaits, if_pos rfl])
        (fun i hi => by rw [hwaits, if_neg hi])
      omega

theorem store (buf : BufferRef) {q : Seq} (hq : ahead s.base q < s.windowSize)
    (hnew : duplicate q s = false) : Filed (s.storePacket buf q) := by
  have hout : s.slot q ∉ windowSlots s := by
    intro hmem
    obtain ⟨-, hw, hnear⟩ := Finset.mem_filter.1 hmem
    rw [h.waiting_eq] at hw
    have hseq := s.reorder.window.slot_inj hnear hq (h.place _ hw)
    refine Bool.false_ne_true (hnew.symm.trans ?_)
    unfold duplicate
    rw [hw, Bool.true_and, decide_eq_true_iff]
    exact hseq
  have hgrow : windowCount s + 1 ≤ windowCount (s.storePacket buf q) := by
    refine (Finset.card_insert_of_notMem hout).symm.le.trans (Finset.card_le_card fun i hi => ?_)
    rcases Finset.mem_insert.1 hi with rfl | hi
    · simp [s.reorder.window.slot_lt q, hq]
    · have hne : i ≠ s.slot q := fun he => hout (he ▸ hi)
      obtain ⟨hlt, hw, hnear⟩ := Finset.mem_filter.1 hi
      simp [hne, hw, hnear, Finset.mem_range.1 hlt]
  have hup := h.upper
  exact h.stored s.base buf q (by
    show _ ≤ windowCount (s.storePacket buf q) + _
    omega)

theorem flushLoop (conn : Conn) : Filed (flushLoop conn false s) :=
  iterWhile_inv (P := Filed) (fun _ hs hc => hs.pass (passed_flushBody conn hc)) h _

theorem releaseExpired : releaseExpired s = s := by
  unfold Rtp2httpd.releaseExpired
  rw [h.noFec, Bool.false_and, Bool.false_and, if_neg Bool.false_ne_true]

theorem notEnabled : fecIsEnabled s.fec = false := by
  unfold fecIsEnabled
  rw [h.noFec, Bool.false_and]

theorem flushConsecutive_eq (conn : Conn) :
    flushConsecutive conn s = Rtp2httpd.flushLoop conn false s := by
  rw [flushConsecutive, h.notEnabled, (h.flushLoop conn).releaseExpired]

theorem makeRoom (conn : Conn) (q : Seq) : Filed (makeRoom conn q s) := by
  rw [Rtp2httpd.makeRoom]
  split
  · exact iterWhile_inv (P := Filed) (fun t ht _ => ht.pass (passed_forceFlushBody conn t)) h _
  · exact h

theorem slots_of_count (hc : s.reorder.count.toNat = 0) {i : ℕ} (hi : i < s.windowSize) :
    s.reorder.slots i = none := by
  have hzero : waitingCount s = 0 := Nat.le_zero.1 (hc ▸ h.lower)
  have hnot := Finset.filter_eq_empty_iff.1 (Finset.card_eq_zero.1 hzero) (Finset.mem_range.2 hi)
  rw [h.waiting_eq, Option.not_isSome_iff_eq_none] at hnot
  exact hnot

theorem flushConsecutive (conn : Conn) : Filed (flushConsecutive conn s) ∧
      duplicate (flushConsecutive conn s).base (flushConsecutive conn s) = false := by
  rw [h.flushConsecutive_eq]
  have hend := h.flushLoop conn
  have hexit : flushCond (Rtp2httpd.flushLoop conn false s) = false :=
    iterWhile_exit (f := fun t : StreamContext => t.reorder.count.toNat)
      (fun _ hc => flushBody_count hc) (Nat.le_refl _)
  refine ⟨hend, ?_⟩
  generalize Rtp2httpd.flushLoop conn false s = t at hend hexit
  have hnone : t.reorder.slots (t.slot t.base) = none := by
    by_contra hne
    obtain ⟨buf, hbuf⟩ := Option.ne_none_iff_exists'.1 hne
    have hzero : t.reorder.count.toNat = 0 := by
      by_contra hpos
      exact Bool.false_ne_true
        (hexit.symm.trans (flushCond_iff.2 ⟨Nat.pos_of_ne_zero hpos, buf, hbuf⟩))
    exact hne (hend.slots_of_count hzero (t.reorder.window.slot_lt _))
  unfold duplicate
  rw [hnone]
  rfl

end

end Filed

/-! ## The forced flush -/

/-- Passing a packet removes those of a number when it is in their slot. -/
theorem Passed.duplicate {s t : StreamContext} (h : Passed s t) (x : Seq) :
    duplicate x t = true ↔ duplicate x s = true ∧ s.slot x ≠ s.slot s.base := by
  have hslot : t.slot x = s.slot x := by rw [StreamContext.slot, h.window]
  rw [duplicate_iff, duplicate_iff, hslot, h.slots, h.seq]
  split
  · rename_i hx
    constructor
    · simp
    · omega
  · tauto

theorem slot_eq_base_iff (s : StreamContext) (x : Seq) :
    s.slot x = s.slot s.base ↔ s.windowSize ∣ ahead s.base x := by
  rw [Nat.dvd_iff_mod_eq_zero]
  refine ⟨s.reorder.window.ahead_mod_of_slot_eq, fun h => ?_⟩
  rw [StreamContext.slot, StreamContext.slot, s.reorder.window.slot_eq_ahead s.base x,
    s.reorder.window.slot_eq_mod s.base, Nat.add_mod, h, Nat.add_zero, Nat.mod_mod]

/-- On the way to `x` the forced flush has taken the packet `x` along if it has come around to
    its slot. -/
def StillHeld (s : StreamContext) (x : Seq) (t : StreamContext) : Prop :=
  t.windowSize = s.windowSize ∧ ahead t.base x ≤ ahead s.base x ∧ (duplicate x t = true ↔
      duplicate x s = true ∧ ahead t.base x / s.windowSize = ahead s.base x / s.windowSize)

theorem StillHeld.pass {s t t' : StreamContext} {x : Seq} (h : StillHeld s x t) (hp : Passed t t')
    (hx : x ≠ t.base) : StillHeld s x t' := by
  obtain ⟨hsize, hle, hdup⟩ := h
  have hstep : ahead t'.base x + 1 = ahead t.base x := by
    rw [hp.base]
    exact ahead_succ hx
  refine ⟨hp.windowSize.trans hsize, by omega, ?_⟩
  have hdiv := Nat.succ_div (a := ahead t'.base x) (b := s.windowSize)
  rw [hp.duplicate, hdup, Ne, slot_eq_base_iff, hsize]
  rw [hstep] at hdiv
  have hmono : ahead t.base x / s.windowSize ≤ ahead s.base x / s.windowSize :=
    Nat.div_le_div_right hle
  split at hdiv
  · omega
  · simp [*]

theorem ahead_flushStop {b q : Seq} (h : s.windowSize ≤ ahead b q + 1) :
    ahead b (flushStop s q) + s.windowSize = ahead b q + 1 := by
  have hpos := eight_le_windowSize s
  unfold flushStop ahead at *
  bv_omega

theorem makeRoom_duplicate (h : (s.windowSize : ℤ) ≤ seqDiff q s.base) :
    (makeRoom conn q s).base = flushStop s q ∧
      (duplicate (flushStop s q) (makeRoom conn q s) = true ↔
        duplicate (flushStop s q) s = true ∧ ahead s.base (flushStop s q) < s.windowSize) := by
  have hkept : StillHeld s (flushStop s q) (forceFlushUntil conn q s) := by
    refine iterWhile_inv (P := StillHeld s (flushStop s q)) (fun t ht hc => ?_) ?_ _
    · refine ht.pass (passed_forceFlushBody conn t) fun he => ?_
      obtain ⟨hfar, -⟩ := forceFlushCond_iff.1 hc
      have := ahead_flushStop (s := s) (b := t.base) (q := q) (by rw [← ht.1]; omega)
      rw [he, ahead_self, ← ht.1] at this
      omega
    · exact ⟨rfl, Nat.le_refl _, by simp⟩
  have hlast := forceFlushUntil_ahead conn h
  rw [makeRoom, if_pos h]
  generalize forceFlushUntil conn q s = t at hkept hlast
  obtain ⟨hsize, -, hdup⟩ := hkept
  have hstop := ahead_flushStop (s := s) (b := t.base) (q := q) (by omega)
  have hzero : ahead t.base (flushStop s q) = 0 := by omega
  refine ⟨((ahead_eq_zero _ _).1 hzero).symm, hdup.trans (and_congr_right fun _ => ?_)⟩
  rw [hzero, Nat.zero_div, eq_comm, Nat.div_eq_zero_iff]
  omega

/-! ## Runs -/

/-- The invariant of a run that never leaves the packet numbered `base_seq` behind. -/
structure Prompt (s : StreamContext) : Prop where
  filed : Filed s
  empty : s.reorder.phase = .notStarted → ∀ i, s.reorder.slots i = none
  few : s.reorder.phase ≠ .active → s.reorder.count.toNat < rtpReorderInitCollect
  next : s.reorder.phase = .active → duplicate s.base s = false

theorem Filed.resetBytes (h : Filed s) : Filed s.resetBytes :=
  ⟨h.noFec, h.fresh, h.place, h.lower, h.upper⟩

theorem filed_startAt (h : Prompt s) (hp : s.reorder.phase = .notStarted) (q : Seq) :
    Filed (s.startAt q) where
  noFec := h.filed.noFec
  fresh := h.filed.fresh
  place i hi := by
    rw [StreamContext.startAt_reorder_slots, h.empty hp] at hi
    cases hi
  lower := by
    have hnone : ∀ i, (s.startAt q).waiting i = false := fun i => by
      unfold StreamContext.waiting
      rw [StreamContext.startAt_reorder_slots, h.empty hp]
      rfl
    unfold waitingCount
    simp [hnone]
  upper := Nat.zero_le _

theorem Prompt.startCollecting (h : Prompt s) (hp : s.reorder.phase = .notStarted) (buf : BufferRef)
    (q : Seq) : Prompt (startCollecting buf q s) where
  filed := by
    refine (filed_startAt h hp q).store buf ?_ ?_
    · show ahead q q < s.windowSize
      rw [ahead_self]
      exact Nat.lt_of_lt_of_le (by decide) (eight_le_windowSize s)
    · unfold duplicate
      rw [StreamContext.startAt_reorder_slots, h.empty hp]
      rfl
  empty hn := by cases hn
  few _ := by
    show (0 + 1 : BitVec 16).toNat < 8
    decide
  next hn := by cases hn

theorem Filed.collectPacket (h : Filed s) (hfew : s.reorder.count.toNat < rtpReorderInitCollect)
    (buf : BufferRef) (q : Seq) :
    Filed (collectPacket buf q s) ∧
      (collectPacket buf q s).reorder.count.toNat ≤ rtpReorderInitCollect := by
  rw [collectPacket_eq]
  split
  · exact ⟨h, hfew.le⟩
  · rw [h.count_store]
    exact ⟨h.stored _ buf q (Nat.le_trans hfew (Nat.le_add_left _ _)), hfew⟩

theorem Prompt.collect (h : Prompt s) (hp : s.reorder.phase = .collecting) (conn : Conn)
    (buf : BufferRef) (q : Seq) : Prompt (collect conn buf q s) := by
  obtain ⟨hfiled, hcount⟩ := h.filed.collectPacket (h.few (by rw [hp]; decide)) buf q
  have hphase : (collectPacket buf q s).reorder.phase = .collecting := by
    rw [collectPacket_eq]
    split
    · exact hp
    · exact hp
  unfold Rtp2httpd.collect
  dsimp only
  generalize collectPacket buf q s = t at hfiled hcount hphase
  split
  · have hact : Filed (activate t) :=
      ⟨hfiled.noFec, hfiled.fresh, hfiled.place, hfiled.lower, hfiled.upper⟩
    obtain ⟨hend, hhole⟩ := hact.flushConsecutive conn
    have hactive : (flushConsecutive conn (activate t)).reorder.phase = .active :=
      flushConsecutive_phase conn _
    exact ⟨hend, fun hn => Phase.noConfusion (hactive.symm.trans hn),
      fun hn => absurd hactive hn, fun _ => hhole⟩
  · rename_i hless
    exact ⟨hfiled, fun hn => Phase.noConfusion (hphase.symm.trans hn),
      fun _ => Nat.lt_of_not_le hless, fun hn => Phase.noConfusion (hphase.symm.trans hn)⟩

theorem makeRoom_ne (hq : 0 < seqDiff q s.base) : q ≠ (makeRoom conn q s).base := by
  unfold makeRoom
  split
  · rename_i hfar
    intro he
    have := forceFlushUntil_ahead conn hfar
    have hsize := eight_le_windowSize (forceFlushUntil conn q s)
    rw [← he, ahead_self] at this
    omega
  · intro he
    rw [(seqDiff_eq_zero _ _).2 he] at hq
    exact absurd hq (lt_irrefl _)

theorem filed_insertAhead (h : Filed s) (conn : Conn) (buf : BufferRef) (hq : 0 < seqDiff q s.base)
    :
    Filed (insertAhead conn buf q s) ∧ (insertAhead conn buf q s).base = (makeRoom conn q s).base ∧
      (duplicate (makeRoom conn q s).base (insertAhead conn buf q s) = true ↔
        duplicate (makeRoom conn q s).base (makeRoom conn q s) = true) := by
  have hroom := h.makeRoom conn q
  have hahead := makeRoom_ahead conn hq
  have hne := makeRoom_ne conn hq
  unfold insertAhead
  dsimp only
  generalize makeRoom conn q s = t at hroom hahead hne
  split
  · exact ⟨hroom, rfl, Iff.rfl⟩
  · rename_i hdup
    have hstore := hroom.store buf hahead (eq_false_of_ne_true hdup)
    have hself : recoverHead conn (t.storePacket buf q) = t.storePacket buf q := by
      unfold recoverHead
      rw [hstore.notEnabled, if_neg Bool.false_ne_true]
    have hslot : t.reorder.window.slot t.base ≠ t.reorder.window.slot q := fun he =>
      hne (t.reorder.window.slot_inj
        (by rw [ahead_self]; exact Nat.lt_of_le_of_lt (Nat.zero_le _) hahead) hahead he).symm
    rw [hself]
    refine ⟨hstore, rfl, ?_⟩
    simp [duplicate, hslot]

/-- The packet numbered `base_seq` is delivered while nothing waits. -/
theorem Filed.deliverInOrder (h : Filed s) (conn : Conn) (buf : BufferRef)
    (hcount : s.reorder.count.toNat = 0) :
    Filed (deliverInOrder conn buf s) ∧
      duplicate (deliverInOrder conn buf s).base (deliverInOrder conn buf s) = false := by
  refine ⟨⟨h.noFec, h.fresh, h.place, h.lower, ?_⟩, ?_⟩
  · show s.reorder.count.toNat ≤ _
    rw [hcount]
    exact Nat.zero_le _
  · have hnone : (Rtp2httpd.deliverInOrder conn buf s).reorder.slots
        (s.slot (Rtp2httpd.deliverInOrder conn buf s).base) = none :=
      h.slots_of_count hcount (s.reorder.window.slot_lt _)
    unfold duplicate
    rw [show (Rtp2httpd.deliverInOrder conn buf s).reorder.slots
      ((Rtp2httpd.deliverInOrder conn buf s).slot _) = none from hnone]
    rfl

theorem prompt_insertActive (h : Prompt s) (hp : s.reorder.phase = .active) (conn : Conn)
    (buf : BufferRef) (q : Seq) :
    Filed (insertActive conn buf q s) ∧
      (duplicate (insertActive conn buf q s).base (insertActive conn buf q s) = true ↔
        LeavesHead s q) := by
  have hnext := h.next hp
  unfold insertActive
  split
  · rename_i hq
    have hstays : ¬ LeavesHead s q := fun hl => by
      have := eight_le_windowSize s
      have := hl.2.1
      omega
    rw [seqDiff_eq_zero] at hq
    subst hq
    unfold insertExpected
    split
    · rename_i hfast
      rw [fastPath, Bool.and_eq_true, Bool.and_eq_true, decide_eq_true_iff] at hfast
      obtain ⟨hfiled, hnone⟩ := h.filed.deliverInOrder conn buf (by rw [hfast.1.1]; rfl)
      rw [hnone]
      exact ⟨hfiled, fun hn => absurd hn Bool.false_ne_true, fun hn => absurd hn hstays⟩
    · have hstore := h.filed.store buf (q := s.base) (by
        rw [ahead_self]
        exact Nat.lt_of_lt_of_le (by decide) (eight_le_windowSize s)) hnext
      obtain ⟨hend, hhole⟩ := hstore.flushConsecutive conn
      rw [hhole]
      exact ⟨hend, fun hn => absurd hn Bool.false_ne_true, fun hn => absurd hn hstays⟩
  · split
    · rename_i hq
      rw [hnext]
      refine ⟨h.filed, fun hn => absurd hn Bool.false_ne_true, fun hl => ?_⟩
      have := hl.2.1
      omega
    · obtain ⟨hfiled, hbase, hdup⟩ := filed_insertAhead h.filed conn buf (q := q) (by omega)
      rw [hbase, hdup]
      refine ⟨hfiled, ?_⟩
      by_cases hfar : (s.windowSize : ℤ) ≤ seqDiff q s.base
      · obtain ⟨hstop, hleft⟩ := makeRoom_duplicate conn hfar
        rw [hstop, hleft]
        exact ⟨fun hn => ⟨hp, hfar, hn.2, hn.1⟩, fun hl => ⟨hl.2.2.2, hl.2.2.1⟩⟩
      · rw [makeRoom, if_neg hfar, hnext]
        exact ⟨fun hn => absurd hn Bool.false_ne_true, fun hl => absurd hl.2.1 hfar⟩

theorem prompt_step (h : Prompt s) (conn : Conn) (e : BufferRef × Seq) (hok : ¬ LeavesHead s e.2) :
    Prompt (insertStep conn s e) := by
  have h0 : Prompt s.resetBytes := ⟨h.filed.resetBytes, h.empty, h.few, h.next⟩
  unfold insertStep
  cases hp : s.reorder.phase with
  | notStarted =>
    rw [insert_of_notStarted hp]
    exact h0.startCollecting hp e.1 e.2
  | collecting =>
    rw [insert_of_collecting hp]
    exact h0.collect hp conn e.1 e.2
  | active =>
    obtain ⟨hfiled, hleft⟩ := prompt_insertActive h0 hp conn e.1 e.2
    have hactive := (insertActive_phase conn e.1 e.2 s.resetBytes).trans hp
    rw [insert_of_active hp]
    exact ⟨hfiled, fun hn => Phase.noConfusion (hactive.symm.trans hn),
      fun hn => absurd hactive hn, fun _ => eq_false_of_ne_true fun hn => hok (hleft.1 hn)⟩

theorem prompt_breaks (h : Prompt s) (conn : Conn) (e : BufferRef × Seq) (hbad : LeavesHead s e.2) :
    (insertStep conn s e).reorder.phase = .active ∧
      rtpReorderGet (insertStep conn s e).reorder (insertStep conn s e).base ≠ none := by
  have h0 : Prompt s.resetBytes := ⟨h.filed.resetBytes, h.empty, h.few, h.next⟩
  obtain ⟨-, hleft⟩ := prompt_insertActive h0 hbad.1 conn e.1 e.2
  unfold insertStep
  rw [insert_of_active hbad.1]
  refine ⟨(insertActive_phase conn e.1 e.2 s.resetBytes).trans hbad.1, fun hn => ?_⟩
  rw [rtpReorderGet_eq_none] at hn
  exact Bool.false_ne_true (hn.symm.trans (hleft.2 hbad))

theorem prompt_init (useFec : Bool) : Prompt (.init useFec FecContext.zero) where
  filed := by
    refine ⟨rfl, fun _ => rfl, fun i hi => ?_, ?_, Nat.zero_le _⟩
    · cases hi
    · simp [waitingCount, StreamContext.init, rtpReorderInit, StreamContext.waiting]
  empty _ _ := rfl
  few _ := Nat.zero_lt_succ _
  next hn := by cases hn

/-- At every point of a run without FEC the packet that is next in order is not in the window, if
    and only if no forced flush of the run stops at a packet that is there. -/
theorem never_withheld_iff (conn : Conn) (useFec : Bool) (es : List (BufferRef × Seq)) :
    (∀ es₁ es₂, es₁ ++ es₂ = es → let s := run (insertStep conn) (.init useFec FecContext.zero) es₁
      s.reorder.phase = .active → rtpReorderGet s.reorder s.base = none) ↔
    Along (insertStep conn) (fun s e => ¬ LeavesHead s e.2) (.init useFec FecContext.zero) es := by
  refine always_iff_along (I := Prompt) (P := fun s : StreamContext =>
      s.reorder.phase = .active → rtpReorderGet s.reorder s.base = none)
    (fun s e hs hok => prompt_step hs conn e hok) (fun s hs hp => ?_) (fun s e hs hbad hn => ?_)
    (prompt_init useFec) es
  · rw [rtpReorderGet_eq_none]
    exact hs.next hp
  · obtain ⟨hactive, hleft⟩ := prompt_breaks hs conn e (not_not.1 hbad)
    exact hleft (hn hactive)

/-- After 0 to 7 the packets 9 and 40: packet 9 is kept back from then on. -/
theorem next_withheld : ¬ ∀ es₁ es₂, es₁ ++ es₂ =
        ([0, 1, 2, 3, 4, 5, 6, 7, 9, 40].map fun n => (⟨n, [], 0, 0⟩, BitVec.ofNat 16 n)) →
      let s := run (insertStep fun _ => 0) (.init false FecContext.zero) es₁
      s.reorder.phase = .active → rtpReorderGet s.reorder s.base = none := by
  intro h
  exact absurd (h _ [] (List.append_nil _)) (by decide +kernel)

end Apackage.Rtp2httpd
