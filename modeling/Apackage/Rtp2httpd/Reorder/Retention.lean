import Apackage.Rtp2httpd.Reorder.InOrder
import Apackage.Rtp2httpd.Reorder.Walk

/-
  Keeping delivered packets for FEC, against running without FEC.

  With FEC enabled, `flush_consecutive` leaves the packets it delivered in their slots. Both loops
  then deliver such a packet once more when they come upon its slot a window later (`redelivery`).
  `Mirror s t` relates a run that keeps packets to one without FEC, while no loop starts before a
  kept slot that it would reach (`RetentionOk`).
-/

namespace Apackage.Rtp2httpd

open Function Lib.Serial Lib.Run

/-- `t` is `s` with the kept slots empty. -/
structure Mirror (s t : StreamContext) : Prop where
  win : Windowed s
  enabled : fecIsEnabled s.fec = true
  noGroups : s.fec.groups = none
  noMin : s.fec.minEndSeqValid = false
  off : t.fec.initialized = false
  window : t.reorder.window = s.reorder.window
  base : t.reorder.baseSeq = s.reorder.baseSeq
  count : t.reorder.count = s.reorder.count
  phase : t.reorder.phase = s.reorder.phase
  slots : ∀ i, t.reorder.slots i = if s.kept i then none else s.reorder.slots i
  seq : ∀ i, s.waiting i = true → t.reorder.seq i = s.reorder.seq i
  age : ∀ i, s.keptAt i = true →
    1 ≤ ahead (s.reorder.seq i) s.base ∧ ahead (s.reorder.seq i) s.base ≤ s.windowSize
  trace : delivered t.trace = delivered s.trace

namespace Mirror

variable {s t : StreamContext}

section

variable (h : Mirror s t)

include h

theorem slot_eq (q : Seq) : t.slot q = s.slot q := by rw [StreamContext.slot, h.window]

theorem head_eq : t.slot t.base = s.slot s.base := by rw [h.slot_eq, StreamContext.base, h.base]

theorem slots_of_not_kept {i : ℕ} (hk : s.keptAt i = false) :
    t.reorder.slots i = s.reorder.slots i := by
  rw [h.slots]
  split
  · rename_i hkept
    simp only [StreamContext.keptAt, hkept, Bool.and_true] at hk
    exact (by simpa using hk : s.reorder.slots i = none).symm
  · rfl

theorem age_step {i : ℕ} (hk : s.keptAt i = true) (hi : i ≠ s.slot s.base) :
    1 ≤ ahead (s.reorder.seq i) (s.base + 1) ∧
      ahead (s.reorder.seq i) (s.base + 1) ≤ s.windowSize := by
  obtain ⟨h1, h2⟩ := h.age i hk
  have hsize := windowSize_le s
  have hne : ahead (s.reorder.seq i) s.base ≠ s.windowSize := by
    intro he
    have hplace := h.win.place i (by
      simp only [StreamContext.keptAt, Bool.and_eq_true] at hk
      exact hk.1)
    have := s.reorder.window.slot_of_ahead_size he
    exact hi (by rw [← hplace]; exact this.symm)
  rw [ahead_succ_right (by omega)]
  omega

section

variable (hclear : FlushClear s)

include hclear

theorem flushCond_eq : flushCond t = flushCond s := by
  rw [flushCond, flushCond, h.count, h.head_eq]
  by_cases hpos : 0 < s.reorder.count
  · have hk := (hclear 0 (by simpa [BitVec.lt_def] using hpos) (by omega)).2
    rw [slotAfter_zero] at hk
    rw [h.slots_of_not_kept hk]
  · rw [decide_eq_false hpos, Bool.false_and, Bool.false_and]

/-- One delivery of `flush_consecutive`: kept on one side, released on the other. -/
theorem flushBody (hc : flushCond s = true) (conn conn' : Conn) :
    Mirror (flushBody conn true s) (flushBody conn' false t) := by
  obtain ⟨-, buf, hbuf⟩ := flushCond_iff.mp hc
  obtain ⟨hw, hk⟩ := hclear.head hc
  have hwin := h.win.flushBody conn true hc
  have hbuf' : t.reorder.slots (t.slot t.base) = some buf := by
    rw [h.head_eq]
    exact (h.slots_of_not_kept hk).trans hbuf
  rw [flushBody_of_some hbuf] at hwin ⊢
  rw [flushBody_of_some hbuf', h.head_eq]
  refine ⟨hwin, h.enabled, h.noGroups, h.noMin, h.off, h.window, ?_, ?_, h.phase, ?_, ?_, ?_, ?_⟩
  · simp [h.base]
  · simp [h.count]
  · intro i
    by_cases hi : i = s.slot s.base
    · simp [hi]
    · simpa [hi] using h.slots i
  · intro i hi
    have : s.waiting i = true := by
      have heq := StreamContext.waiting_keepSlot (s := deliverPacket conn buf s) i (s.slot s.base)
      have hi' : ((deliverPacket conn buf s).keepSlot (s.slot s.base)).waiting i = true := hi
      rw [heq] at hi'
      split at hi'
      · cases hi'
      · exact hi'
    exact h.seq i this
  · intro i hi
    by_cases hi' : i = s.slot s.base
    · subst hi'
      have hseq := h.win.seq_base hw
      have hsize := eight_le_windowSize s
      change 1 ≤ ahead (s.reorder.seq (s.slot s.base)) (s.base + 1) ∧
        ahead (s.reorder.seq (s.slot s.base)) (s.base + 1) ≤ s.windowSize
      rw [hseq, ahead_succ_right (by simp), ahead_self]
      omega
    · refine h.age_step ?_ hi'
      simpa [StreamContext.keptAt, hi'] using hi
  · simp [h.base, h.trace]

theorem flushLoop (conn conn' : Conn) :
    Mirror (flushLoop conn true s) (flushLoop conn' false t) := by
  rw [Rtp2httpd.flushLoop, Rtp2httpd.flushLoop, h.count]
  refine (iterWhile_rel (R := fun s t => Mirror s t ∧ FlushClear s)
    (fun s t hst => (hst.1.flushCond_eq hst.2).symm) (fun s t hst hc => ?_) ⟨h, hclear⟩ _).1
  exact ⟨hst.1.flushBody hst.2 hc conn conn', hst.2.step hc conn true⟩

theorem flushConsecutive (conn conn' : Conn) :
    Mirror (flushConsecutive conn s) (flushConsecutive conn' t) := by
  have hloop := h.flushLoop hclear conn conn'
  have hoff : fecIsEnabled t.fec = false := by simp [fecIsEnabled, h.off]
  rw [Rtp2httpd.flushConsecutive, Rtp2httpd.flushConsecutive, h.enabled, hoff]
  have h1 : releaseExpired (Rtp2httpd.flushLoop conn true s) = Rtp2httpd.flushLoop conn true s := by
    simp [releaseExpired, hloop.noMin]
  have h2 : releaseExpired (Rtp2httpd.flushLoop conn' false t) =
      Rtp2httpd.flushLoop conn' false t := by
    simp [releaseExpired, hloop.off]
  rw [h1, h2]
  exact hloop

end

/-- One step of `force_flush_until`, over a slot that keeps nothing. -/
theorem forceFlushBody {target : Seq} (hclear : ForceClear s target)
    (hc : forceFlushCond target s = true) (conn conn' : Conn) :
    Mirror (forceFlushBody conn s) (forceFlushBody conn' t) := by
  have hk := hclear.head hc
  have hwin := h.win.forceFlushBody conn
  have hhead : t.reorder.slots (t.slot t.base) = s.reorder.slots (s.slot s.base) := by
    rw [h.head_eq]
    exact h.slots_of_not_kept hk
  have hage : ∀ i, s.keptAt i = true → 1 ≤ ahead (s.reorder.seq i) (s.base + 1) ∧
      ahead (s.reorder.seq i) (s.base + 1) ≤ s.windowSize := by
    intro i hi
    refine h.age_step hi ?_
    rintro rfl
    rw [hk] at hi
    cases hi
  cases hb : s.reorder.slots (s.slot s.base) with
  | none =>
    rw [hb] at hhead
    simp only [Rtp2httpd.forceFlushBody, hb, hhead] at hwin ⊢
    exact ⟨hwin, h.enabled, h.noGroups, h.noMin, h.off, h.window, by simp [h.base], h.count,
      h.phase, h.slots, h.seq, hage, h.trace⟩
  | some buf =>
    rw [hb] at hhead
    rw [forceFlushBody_of_some hb] at hwin ⊢
    rw [forceFlushBody_of_some hhead, h.head_eq]
    refine ⟨hwin, h.enabled, h.noGroups, h.noMin, h.off, h.window, by simp [h.base],
      by simp [h.count], h.phase, fun i => ?_, fun i hi => h.seq i ?_, fun i hi => hage i ?_,
      by simp [h.base, h.trace]⟩
    · by_cases hi : i = s.slot s.base
      · simp [hi]
      · simpa [hi] using h.slots i
    · by_cases hi' : i = s.slot s.base
      · simp [StreamContext.waiting, hi'] at hi
      · simpa [StreamContext.waiting, hi'] using hi
    · by_cases hi' : i = s.slot s.base
      · simp [StreamContext.keptAt, hi'] at hi
      · simpa [StreamContext.keptAt, hi'] using hi

end

variable {q : Seq}

section

variable (h : Mirror s t)

include h

theorem makeRoom (hclear : (s.windowSize : ℤ) ≤ seqDiff q s.base → ForceClear s q)
    (conn conn' : Conn) : Mirror (makeRoom conn q s) (makeRoom conn' q t) := by
  have hcond : ∀ s t, Mirror s t → forceFlushCond q s = forceFlushCond q t := by
    intro s t h
    simp [forceFlushCond, StreamContext.windowSize, StreamContext.base, h.window, h.base]
  have hiff := hcond s t h
  simp only [forceFlushCond, decide_eq_decide] at hiff
  rw [Rtp2httpd.makeRoom, Rtp2httpd.makeRoom]
  by_cases hc : (s.windowSize : ℤ) ≤ seqDiff q s.base
  · rw [if_pos hc, if_pos (hiff.mp hc), forceFlushUntil, forceFlushUntil, StreamContext.base,
      StreamContext.base, h.base]
    refine (iterWhile_rel (R := fun s t => Mirror s t ∧ ForceClear s q)
      (fun s t hst => hcond s t hst.1) (fun s t hst hc => ?_) ⟨h, hclear hc⟩ _).1
    exact ⟨hst.1.forceFlushBody hst.2 hc conn conn', hst.2.step hc conn⟩
  · rw [if_neg hc, if_neg (fun h' => hc (hiff.mpr h'))]
    exact h

theorem duplicate_eq (hq : ahead s.base q < s.windowSize) : duplicate q t = duplicate q s := by
  rw [duplicate, duplicate, h.slot_eq, h.slots]
  cases hs : s.reorder.slots (s.slot q) with
  | none => simp
  | some buf =>
    cases hk : s.kept (s.slot q) with
    | false =>
      have := h.seq (s.slot q) (by simp [StreamContext.waiting, hs, hk])
      simp [this]
    | true =>
      have hage := h.age (s.slot q) (by simp [StreamContext.keptAt, hs, hk])
      have hne : s.reorder.seq (s.slot q) ≠ q := by
        intro he
        rw [he] at hage
        have hsize := windowSize_le s
        have hqb : q ≠ s.base := by
          rintro rfl
          rw [ahead_self] at hage
          omega
        have := ahead_add_ahead hqb
        omega
      simp [hne]

theorem storePacket (buf : BufferRef) (hq : ahead s.base q < s.windowSize) :
    Mirror (s.storePacket buf q) (t.storePacket buf q) := by
  have hslot := h.slot_eq q
  refine ⟨h.win.storePacket buf hq, h.enabled, h.noGroups, h.noMin, h.off, h.window, h.base,
    by simp [h.count], h.phase, fun i => ?_, fun i hi => ?_, fun i hi => ?_, h.trace⟩
  · by_cases hi : i = s.slot q
    · simp [hi, hslot]
    · simpa [hi, hslot] using h.slots i
  · by_cases hi' : i = s.slot q
    · simp [hi', hslot]
    · rw [StreamContext.waiting_storePacket, if_neg hi'] at hi
      simpa [hi', hslot] using h.seq i hi
  · by_cases hi' : i = s.slot q
    · simp [StreamContext.keptAt, hi'] at hi
    · simp only [StreamContext.keptAt, StreamContext.storePacket_reorder_slots,
        StreamContext.storePacket_kept, StreamContext.slot, update_of_ne hi'] at hi
      simpa [hi'] using h.age i hi

/-- In-order traffic: stored, delivered and kept on one side, passed on at once on the
    other. -/
theorem deliverInOrder (buf : BufferRef) (hcount : s.reorder.count = 0)
    (hfree : t.reorder.slots (t.slot t.base) = none) (conn conn' : Conn) :
    Mirror (Rtp2httpd.flushConsecutive conn (s.storePacket buf s.base))
      (deliverInOrder conn' buf t) := by
  have hnear : ahead s.base s.base < s.windowSize := by
    rw [ahead_self]
    exact lt_of_lt_of_le (by decide) (eight_le_windowSize s)
  have hc : flushCond (s.storePacket buf s.base) = true := by simp [flushCond, hcount]
  have hbuf : (s.storePacket buf s.base).reorder.slots
      ((s.storePacket buf s.base).slot (s.storePacket buf s.base).base) = some buf := by simp
  have hwin := (h.win.storePacket buf hnear).flushBody conn true hc
  have hend : flushCond (Rtp2httpd.flushBody conn true (s.storePacket buf s.base)) = false := by
    rw [flushBody_of_some hbuf]
    simp [flushCond, hcount]
  have hflush : Rtp2httpd.flushConsecutive conn (s.storePacket buf s.base) =
      Rtp2httpd.flushBody conn true (s.storePacket buf s.base) := by
    have hen : fecIsEnabled (s.storePacket buf s.base).fec = true := h.enabled
    rw [Rtp2httpd.flushConsecutive, hen, flushLoop_eq, if_pos hc, flushLoop_eq, hend]
    rw [flushBody_of_some hbuf]
    simp [releaseExpired, h.noMin]
  rw [hflush]
  rw [flushBody_of_some hbuf] at hwin ⊢
  refine ⟨hwin, h.enabled, h.noGroups, h.noMin, h.off, h.window, ?_, ?_, h.phase, ?_, ?_, ?_, ?_⟩
  · simp [Rtp2httpd.deliverInOrder, h.base]
  · simp [Rtp2httpd.deliverInOrder, h.count, hcount]
  · intro i
    by_cases hi : i = s.slot s.base
    · rw [h.head_eq] at hfree
      simp [Rtp2httpd.deliverInOrder, hi, hfree]
    · simpa [Rtp2httpd.deliverInOrder, hi] using h.slots i
  · intro i hi
    by_cases hi' : i = s.slot s.base
    · simp [StreamContext.waiting, hi'] at hi
    · have hw : s.waiting i = true := by simpa [StreamContext.waiting, hi'] using hi
      simpa [Rtp2httpd.deliverInOrder, hi'] using h.seq i hw
  · intro i hi
    by_cases hi' : i = s.slot s.base
    · subst hi'
      have h1 : ahead s.base (s.base + 1) = 1 := by rw [ahead_succ_right (by simp), ahead_self]
      simp only [if_true, StreamContext.decCount_reorder_seq, StreamContext.advance_reorder_seq,
        StreamContext.keepSlot_reorder, deliverPacket_reorder,
        StreamContext.storePacket_reorder_seq, update_self, StreamContext.base,
        StreamContext.decCount_reorder_baseSeq, StreamContext.advance_reorder_baseSeq,
        StreamContext.storePacket_reorder_baseSeq]
      change 1 ≤ ahead s.base (s.base + 1) ∧ ahead s.base (s.base + 1) ≤ s.windowSize
      omega
    · have hk : s.keptAt i = true := by simpa [StreamContext.keptAt, hi'] using hi
      have := h.age_step hk hi'
      simpa [hi'] using this
  · simp [Rtp2httpd.deliverInOrder, h.base, h.trace]

/-- Without FEC packets there is no group to recover from. -/
theorem recoverHead (conn conn' : Conn) : Mirror (recoverHead conn s) (recoverHead conn' t) := by
  have hoff : fecIsEnabled t.fec = false := by simp [fecIsEnabled, h.off]
  have h1 : Rtp2httpd.recoverHead conn s = s := by
    simp [Rtp2httpd.recoverHead, h.enabled, fecAttemptRecovery, h.noGroups]
  have h2 : Rtp2httpd.recoverHead conn' t = t := by simp [Rtp2httpd.recoverHead, hoff]
  rw [h1, h2]
  exact h

end

end Mirror

/-- A packet that meets no kept slot: it fits while collecting, and a flush or a forced flush
    that it starts in the active phase passes no kept slot. -/
structure RetentionOk (s : StreamContext) (buf : BufferRef) (q : Seq) : Prop where
  fits : CollectFits s q
  flush : s.reorder.phase = .active → q = s.base → FlushClear (s.storePacket buf q)
  force : s.reorder.phase = .active → (s.windowSize : ℤ) ≤ seqDiff q s.base → ForceClear s q

instance (s : StreamContext) (buf : BufferRef) (q : Seq) : Decidable (RetentionOk s buf q) :=
  decidable_of_iff (CollectFits s q ∧
      (s.reorder.phase = .active → q = s.base → FlushClear (s.storePacket buf q)) ∧
      (s.reorder.phase = .active → (s.windowSize : ℤ) ≤ seqDiff q s.base → ForceClear s q))
    ⟨fun ⟨h1, h2, h3⟩ => ⟨h1, h2, h3⟩, fun h => ⟨h.fits, h.flush, h.force⟩⟩

variable {q : Seq}

variable {s t : StreamContext}

theorem Mirror.insertActive (h : Mirror s t) (hp : s.reorder.phase = .active) {buf : BufferRef}
    (hok : RetentionOk s buf q) (conn conn' : Conn) :
    Mirror (insertActive conn buf q s) (insertActive conn' buf q t) := by
  rw [Rtp2httpd.insertActive, Rtp2httpd.insertActive, StreamContext.base, StreamContext.base,
    h.base]
  split
  · rename_i hq
    rw [seqDiff_eq_zero] at hq
    subst hq
    have hslow : fastPath s.reorder.baseSeq s = false := by simp [fastPath, h.enabled]
    rw [insertExpected, hslow, insertExpected]
    simp only [Bool.false_eq_true, if_false]
    split
    · rename_i hfast
      simp only [fastPath, Bool.and_eq_true, Option.isNone_iff_eq_none, decide_eq_true_eq,
        h.count] at hfast
      refine h.deliverInOrder buf hfast.1.1 ?_ conn conn'
      rw [StreamContext.base, h.base]
      exact hfast.2
    · refine (h.storePacket buf ?_).flushConsecutive (hok.flush hp rfl) conn conn'
      rw [ahead_self]
      exact lt_of_lt_of_le (by decide) (eight_le_windowSize s)
  · split
    · exact h
    · have hm := h.makeRoom (hok.force hp) conn conn'
      have hahead := makeRoom_ahead conn (q := q) (s := s)
        (by simp only [StreamContext.base]; omega)
      rw [insertAhead, insertAhead, hm.duplicate_eq hahead]
      split
      · exact hm
      · exact (hm.storePacket buf hahead).recoverHead conn conn'

/-- Before the active phase at most seven packets are stored. -/
structure MirrorRun (s t : StreamContext) : Prop where
  mirror : Mirror s t
  starting : Starting s
  few : s.reorder.phase ≠ .active → s.reorder.count.toNat < rtpReorderInitCollect

theorem Mirror.resetBytes (h : Mirror s t) : Mirror s.resetBytes t.resetBytes :=
  { h with win := ⟨h.win.place, h.win.near⟩ }

/-- Before the active phase nothing is kept, so `base_seq` may move. -/
theorem Mirror.rebase (h : Mirror s t) (hfresh : ∀ i, s.kept i = false) {b : Seq}
    (hwin : Windowed (s.rebase b)) : Mirror (s.rebase b) (t.rebase b) :=
  { h with
    win := hwin
    base := rfl
    age := fun i hi => by simp [StreamContext.keptAt, hfresh i] at hi }

theorem MirrorRun.startCollecting (h : MirrorRun s t) (hp : s.reorder.phase = .notStarted)
    (buf : BufferRef) (q : Seq) :
    MirrorRun (startCollecting buf q s) (startCollecting buf q t) := by
  have hfresh := h.starting.fresh (by simp [hp])
  have h0 : Mirror (s.startAt q) (t.startAt q) :=
    { h.mirror with
      win := h.starting.windowed_startAt hp q
      base := rfl
      count := rfl
      phase := rfl
      age := fun i hi => by simp [StreamContext.keptAt, hfresh i] at hi }
  refine ⟨h0.storePacket buf ?_, (windowed_startCollecting h.starting hp buf q).2, fun _ => ?_⟩
  · rw [StreamContext.base, StreamContext.startAt_reorder_baseSeq, ahead_self]
    exact lt_of_lt_of_le (by decide) (eight_le_windowSize s)
  · simp [Rtp2httpd.startCollecting, rtpReorderInitCollect]

theorem Mirror.collectPacket (h : Mirror s t) (h' : Starting s) (hp : s.reorder.phase = .collecting)
    (buf : BufferRef) (hfit : CollectFits s q) :
    Mirror (collectPacket buf q s) (collectPacket buf q t) := by
  have hfresh := h'.fresh (by simp [hp])
  have hslots : t.reorder.slots = s.reorder.slots := by
    funext i
    rw [h.slots, hfresh i]
    rfl
  have hbase : collectBase t q = collectBase s q := by
    rw [collectBase, collectBase, StreamContext.base, h.base]
  rw [collectPacket_eq, collectPacket_eq, hslots, h.slot_eq, hbase]
  split
  · exact h
  · rename_i hfree
    obtain ⟨hb, hnear⟩ := hfit.rebase h.win hp (by simpa using hfree)
    exact (h.rebase hfresh hb).storePacket buf hnear

theorem Mirror.activate (h : Mirror s t) : Mirror (activate s) (activate t) :=
  { h with
    win := ⟨h.win.place, h.win.near⟩
    phase := rfl
    trace := by simpa [Rtp2httpd.activate] using h.trace }

theorem MirrorRun.step (h : MirrorRun s t) (e : BufferRef × Seq) (hok : RetentionOk s e.1 e.2)
    (conn conn' : Conn) : MirrorRun (insertStep conn s e) (insertStep conn' t e) := by
  obtain ⟨buf, q⟩ := e
  have hm := h.mirror.resetBytes
  have hs : Starting s.resetBytes := ⟨h.starting.empty, h.starting.fresh⟩
  rw [insertStep, insertStep]
  cases hp : s.reorder.phase with
  | notStarted =>
    rw [insert_of_notStarted hp, insert_of_notStarted (h.mirror.phase.trans hp)]
    exact startCollecting ⟨hm, hs, h.few⟩ hp buf q
  | collecting =>
    have hc := hm.collectPacket hs hp buf hok.fits
    obtain ⟨-, hs', hp'⟩ := windowed_collectPacket hm.win hs hp buf hok.fits
    have hfew : s.reorder.count.toNat < rtpReorderInitCollect := h.few (by simp [hp])
    have hle : (collectPacket buf q s.resetBytes).reorder.count.toNat ≤
        s.reorder.count.toNat + 1 := collectPacket_count buf q _
    rw [insert_of_collecting hp, insert_of_collecting (h.mirror.phase.trans hp), hc.count]
    split
    · refine ⟨hc.activate.flushConsecutive (flushClear_activate (hs'.fresh (by simp [hp']))
        (Nat.le_trans hle hfew)) conn conn', starting_of_active ?_, ?_⟩
      · rw [flushConsecutive_phase]
        rfl
      · rw [flushConsecutive_phase]
        exact fun hne => absurd rfl hne
    · exact ⟨hc, hs', fun _ => by omega⟩
  | active =>
    have hp' := insertActive_phase conn buf q s.resetBytes
    rw [insert_of_active hp, insert_of_active (h.mirror.phase.trans hp)]
    have hok' : RetentionOk s.resetBytes buf q := ⟨hok.fits, hok.flush, hok.force⟩
    refine ⟨hm.insertActive hp hok' conn conn', starting_of_active (hp'.trans hp), ?_⟩
    intro hne
    exact absurd (hp'.trans hp) hne

theorem MirrorRun.fits (h : MirrorRun s t) (hfit : CollectFits s q) : CollectFits t q := by
  intro hp hfree
  have hp' : s.reorder.phase = .collecting := by rw [← h.mirror.phase, hp]
  have hfresh := h.starting.fresh (by simp [hp'])
  have hslots : ∀ i, t.reorder.slots i = s.reorder.slots i := by
    intro i
    rw [h.mirror.slots, hfresh i]
    rfl
  rw [hslots, h.mirror.slot_eq] at hfree
  obtain ⟨h1, h2⟩ := hfit hp' hfree
  rw [StreamContext.base, StreamContext.windowSize, h.mirror.base, h.mirror.window]
  refine ⟨h1, fun i hi hsome => ?_⟩
  rw [hslots] at hsome
  have := h2 i hi hsome
  rwa [h.mirror.seq i (by simp [StreamContext.waiting, hsome, hfresh i])]

theorem mirrorRun_init (useFec : Bool) {port : BitVec 16} (hport : 0 < port) :
    MirrorRun (.init useFec (fecInit port)) (.init useFec FecContext.zero) := by
  obtain ⟨hw, hs⟩ := windowed_init useFec (fecInit port)
  have hen : fecIsEnabled (fecInit port) = true := by
    simp only [fecIsEnabled, fecInit, Bool.true_and, Bool.or_eq_true]
    exact .inl (decide_eq_true hport)
  refine ⟨⟨hw, hen, rfl, rfl, rfl, rfl, rfl, rfl, rfl, fun i => rfl, fun i _ => rfl,
    fun i hi => ?_, rfl⟩, hs, fun _ => ?_⟩
  · simp [StreamContext.keptAt, StreamContext.init] at hi
  · simp [StreamContext.init, rtpReorderInit, rtpReorderInitCollect]

/-- With FEC enabled and no FEC packet received, every run that meets no kept slot delivers
    what the run without FEC delivers; so no packet is delivered a second time. -/
theorem retention_transparent (conn conn' : Conn) (useFec : Bool) (port : BitVec 16)
    (hport : 0 < port) (es : List (BufferRef × Seq))
    (h : Along (insertStep conn) (fun s e => RetentionOk s e.1 e.2)
      (.init useFec (fecInit port)) es) :
    let kept := run (insertStep conn) (.init useFec (fecInit port)) es
    let plain := run (insertStep conn') (.init useFec FecContext.zero) es
    deliveries kept.trace = deliveries plain.trace ∧
      ∀ p, (deliveries kept.trace).count p ≤ es.count p := by
  have hstep : ∀ s t e, MirrorRun s t → RetentionOk s e.1 e.2 →
      MirrorRun (insertStep conn s e) (insertStep conn' t e) :=
    fun s t e hst hok => hst.step e hok conn conn'
  have hrun := run_simulation hstep (mirrorRun_init useFec hport) h
  have hfits : Along (insertStep conn') (fun s e => CollectFits s e.2)
      (.init useFec FecContext.zero) es := by
    exact along_simulation hstep (fun s t e hst hok => hst.fits hok.fits)
      (mirrorRun_init useFec hport) h
  have heq : deliveries (run (insertStep conn) (.init useFec (fecInit port)) es).trace =
      deliveries (run (insertStep conn') (.init useFec FecContext.zero) es).trace := by
    rw [deliveries, deliveries, hrun.mirror.trace]
  refine ⟨heq, fun p => ?_⟩
  rw [heq]
  exact (inOrder_run conn' useFec hfits).count_le p

/-- Packets 0 to 7, then 1024. -/
def redeliveryRun : List (BufferRef × Seq) :=
  [0, 1, 2, 3, 4, 5, 6, 7, 1024].map (fun n => (⟨n, [], 0, 0⟩, BitVec.ofNat 16 n))

/-- Ten packets, one of them late: no kept slot is met. -/
theorem retention_transparent_ten :
    Along (insertStep (fun _ => 0)) (fun s e => RetentionOk s e.1 e.2) (.init true (fecInit 1))
        ([0, 2, 1, 3, 4, 5, 6, 7, 9, 8].map (fun n => (⟨n, [], 0, 0⟩, BitVec.ofNat 16 n))) ∧
      deliveries (run (insertStep (fun _ => 0)) (.init true (fecInit 1))
          ([0, 2, 1, 3, 4, 5, 6, 7, 9, 8].map
            (fun n => (⟨n, [], 0, 0⟩, BitVec.ofNat 16 n)))).trace =
        deliveries (run (insertStep (fun _ => 0)) (.init true FecContext.zero)
          ([0, 2, 1, 3, 4, 5, 6, 7, 9, 8].map
            (fun n => (⟨n, [], 0, 0⟩, BitVec.ofNat 16 n)))).trace := by
  have h : Along (insertStep (fun _ => 0)) (fun s e => RetentionOk s e.1 e.2)
      (.init true (fecInit 1))
      ([0, 2, 1, 3, 4, 5, 6, 7, 9, 8].map (fun n => (⟨n, [], 0, 0⟩, BitVec.ofNat 16 n))) := by
    decide +kernel
  exact ⟨h, (retention_transparent (fun _ => 0) (fun _ => 0) true 1 (by decide) _ h).1⟩

/-- The forced flush for packet 1024 delivers packet 0 once more, as number 512. -/
theorem redelivery :
    (deliveries (run (insertStep (fun _ => 0)) (.init true (fecInit 1)) redeliveryRun).trace).map
        Prod.fst ≠
      (deliveries (run (insertStep (fun _ => 0)) (.init true FecContext.zero)
        redeliveryRun).trace).map Prod.fst := by
  decide +kernel

end Apackage.Rtp2httpd
