import Mathlib.Data.Finset.Card
import Apackage.Rtp2httpd.Reorder.Walk

/-
  The packet count of the reorder window, in runs of RTP and FEC packets.

  `count` is meant to be the number of packets in the window that wait for delivery (`windowCount`).
  Five sites break it: the collecting phase takes packets beyond the window, both flush loops count
  kept packets down, a packet that arrives for a slot where it waits already is counted twice, the
  recovery of a packet that waits already does not count it down, and the release of a FEC group
  drops waiting packets without counting them. `StepOk` excludes each of them in the state where it
  would happen (`count_eq_waiting`).
-/

namespace Apackage.Rtp2httpd

open List Lib.Serial Lib.Run

/-- Slots that hold an undelivered packet of the window. -/
def windowCount (s : StreamContext) : ℕ :=
  ((Finset.range s.windowSize).filter (fun i =>
    s.waiting i = true ∧ ahead s.base (s.reorder.seq i) < s.windowSize)).card

/-- Slots that hold an undelivered packet. -/
def waitingCount (s : StreamContext) : ℕ :=
  ((Finset.range s.windowSize).filter (fun i => s.waiting i = true)).card

/-- No packet waits in the slot of `base_seq`. -/
def HeadFree (s : StreamContext) : Prop := s.waiting (s.slot s.base) = false
  deriving Decidable

/-- No group that has expired reaches around to a waiting packet. -/
def ExpireClear (s : StreamContext) : Prop :=
  ∀ g ∈ s.fec.groupList, g.expired s.base = true → ∀ i < s.windowSize, s.waiting i = true →
    ahead g.beginSeq g.endSeq < ahead g.beginSeq (s.reorder.seq i)

/-- A flush that starts here counts down waiting packets only, and releases none. -/
def FlushOk (s : StreamContext) : Prop := FlushClear s ∧ ExpireClear s

instance (s : StreamContext) : Decidable (ExpireClear s) := by
  unfold ExpireClear
  infer_instance

instance (s : StreamContext) : Decidable (FlushOk s) := inferInstanceAs (Decidable (_ ∧ _))

theorem waitingCount_le (s : StreamContext) : waitingCount s ≤ s.windowSize := by
  refine (Finset.card_filter_le _ _).trans ?_
  rw [Finset.card_range]

theorem waitingCount_congr {s t : StreamContext} (hw : t.reorder.window = s.reorder.window)
    (h : ∀ i, t.waiting i = s.waiting i) : waitingCount t = waitingCount s := by
  unfold waitingCount
  simp [StreamContext.windowSize, hw, h]

theorem waitingCount_add {s t : StreamContext} (hw : t.reorder.window = s.reorder.window) {j : ℕ}
    (hj : j < s.windowSize) (hs : s.waiting j = false) (ht : t.waiting j = true)
    (hrest : ∀ i, i ≠ j → t.waiting i = s.waiting i) :
    waitingCount t = waitingCount s + 1 := by
  unfold waitingCount
  rw [StreamContext.windowSize, hw]
  have : (Finset.range s.windowSize).filter (fun i => t.waiting i = true) =
      insert j ((Finset.range s.windowSize).filter (fun i => s.waiting i = true)) := by
    ext i
    by_cases hi : i = j
    · subst hi
      simp [ht, hj]
    · simp [hi, hrest i hi]
  rw [this, Finset.card_insert_of_notMem (by simp [hs])]

variable {s : StreamContext}

theorem windowCount_eq (h : Windowed s) : windowCount s = waitingCount s := by
  unfold windowCount waitingCount
  congr 1
  refine Finset.filter_congr (fun i _ => ?_)
  exact ⟨fun hi => hi.1, fun hi => ⟨hi, h.near i hi⟩⟩

/-- The invariant: the window, the groups, and the count. -/
structure Accounted (s : StreamContext) : Prop where
  win : Windowed s
  groups : GroupsOk s.fec
  count : s.reorder.count.toNat = waitingCount s
  noUnderflow : ∀ n, Obs.countDec n ∈ s.trace → n ≠ 0

namespace Accounted

variable {s : StreamContext}

theorem count_le (h : Accounted s) : s.reorder.count.toNat ≤ 8192 := by
  rw [h.count]
  exact (waitingCount_le s).trans (windowSize_le s)

theorem storePacket (h : Accounted s) (buf : BufferRef) {q : Seq}
    (hq : ahead s.base q < s.windowSize) (hfree : s.waiting (s.slot q) = false) :
    Accounted (s.storePacket buf q) where
  win := h.win.storePacket buf hq
  groups := h.groups
  count := by
    have hadd := waitingCount_add (s := s) (t := s.storePacket buf q) rfl
      (s.reorder.window.slot_lt q) hfree (by simp)
      (fun i hi => by rw [StreamContext.waiting_storePacket, if_neg hi])
    have := h.count_le
    rw [hadd, ← h.count, StreamContext.storePacket_reorder_count]
    bv_omega
  noUnderflow := h.noUnderflow

theorem countDown (h : Accounted s) {t : StreamContext} (hwin : Windowed t)
    (hw : t.reorder.window = s.reorder.window) (hg : t.fec.groups = s.fec.groups)
    (hcount : t.reorder.count = s.reorder.count - 1)
    (htrace : ∃ o, t.trace = .countDec s.reorder.count :: o :: s.trace ∧ ∀ n, o ≠ .countDec n)
    (hhead : s.waiting (s.slot s.base) = true)
    (hrest : ∀ i, t.waiting i = if i = s.slot s.base then false else s.waiting i) :
    Accounted t := by
  have hadd := waitingCount_add (s := t) (t := s) hw.symm (j := s.slot s.base)
    (by rw [StreamContext.windowSize, hw]; exact s.reorder.window.slot_lt _)
    (by rw [hrest, if_pos rfl]) hhead (fun i hi => by rw [hrest, if_neg hi])
  have hc := h.count
  refine ⟨hwin, h.groups.congr hg, ?_, fun n hn => ?_⟩
  · rw [hcount]
    bv_omega
  · obtain ⟨o, ho, hne⟩ := htrace
    rw [ho] at hn
    rcases List.mem_cons.mp hn with hn | hn
    · cases hn
      intro h0
      have : s.reorder.count.toNat = 0 := by rw [h0]; rfl
      omega
    · rcases List.mem_cons.mp hn with hn | hn
      · exact absurd hn.symm (hne n)
      · exact h.noUnderflow n hn

theorem flushBody (h : Accounted s) (hclear : FlushClear s) (hc : flushCond s = true)
    (conn : Conn) (keep : Bool) : Accounted (flushBody conn keep s) := by
  obtain ⟨-, hw, -, hcnt, hf⟩ := flushBody_fields conn keep hc
  obtain ⟨-, buf, hbuf⟩ := flushCond_iff.mp hc
  refine h.countDown (h.win.flushBody conn keep hc) hw (by rw [hf]) hcnt ?_ (hclear.head hc).1
    (waiting_flushBody hc)
  rw [flushBody_of_some hbuf]
  refine ⟨.deliver buf s.base, ?_, by simp⟩
  cases keep <;> rfl

end Accounted

/-- An expired group stays clear of what waits while the flush goes on: a group that ends at
    the base cannot reach a number ahead of it. -/
theorem ExpireClear.step (h : ExpireClear s) (hwin : Windowed s) (hgroups : GroupsOk s.fec)
    (hc : flushCond s = true) (conn : Conn) (keep : Bool) :
    ExpireClear (flushBody conn keep s) := by
  obtain ⟨hb, hw, hseq, -, hf⟩ := flushBody_fields conn keep hc
  intro g hg hexp i hi hwait
  rw [hf] at hg
  rw [hb] at hexp
  rw [waiting_flushBody hc] at hwait
  split at hwait
  · cases hwait
  rename_i hne
  rw [StreamContext.windowSize, hw] at hi
  rw [hseq]
  by_cases hexp' : g.expired s.base = true
  · exact h g hg hexp' i hi hwait
  · simp only [FecGroup.expired, Bool.and_eq_true, decide_eq_true_eq] at hexp hexp'
    have hend : s.base = g.endSeq := eq_of_seqDiff_succ hexp.2 (fun hd => hexp' ⟨hexp.1, hd⟩)
    have hrange := (hgroups.each g hg).range hexp.1
    have hsome := (StreamContext.waiting_iff.mp hwait).1
    have hnear := hwin.near i hwait
    have hsize := windowSize_le s
    have hpos : ahead s.base (s.reorder.seq i) ≠ 0 := by
      rw [Ne, ahead_eq_zero]
      intro he
      exact hne (by rw [← hwin.place i hsome, he])
    have hlt : ahead g.beginSeq g.endSeq < 32768 := by
      rw [seqDiff_eq] at hrange
      have := ahead_lt g.beginSeq g.endSeq
      split at hrange <;> omega
    rw [← hend] at hlt ⊢
    rw [ahead_trans (b := s.base) (c := s.reorder.seq i) (by omega)]
    omega

theorem mem_groupList {i : ℕ} (h : (s.group i).active = true) : s.group i ∈ s.fec.groupList := by
  rw [StreamContext.group, getD_eq_getElem?_getD] at h ⊢
  cases hi : s.fec.groupList[i]? with
  | none =>
    rw [hi] at h
    cases h
  | some g => exact mem_of_getElem? hi

namespace Accounted

variable {s : StreamContext}

section

variable (h : Accounted s)

include h

/-- Slots shed without a waiting packet leave the count right. -/
theorem sheds {t : StreamContext} {R : Seq → Prop} (hst : Sheds R s t) (hg : GroupsOk t.fec)
    (hR : ∀ i, s.waiting i = true → ¬ R (s.reorder.seq i)) : Accounted t where
  win := h.win.sheds hst
  groups := hg
  count := by rw [hst.count, h.count, waitingCount_congr hst.window (hst.waiting_eq hR)]
  noUnderflow n hn := by
    obtain ⟨tr, he, ho⟩ := hst.trace
    rw [he] at hn
    rcases mem_append.mp hn with hn | hn
    · exact (ho _ hn).elim
    · exact h.noUnderflow n hn

theorem releaseExpired (hexp : ExpireClear s) : Accounted (releaseExpired s) := by
  rw [Rtp2httpd.releaseExpired]
  split
  · refine h.sheds (fecReleaseExpiredGroups_sheds _ _) (h.groups.releaseExpired _) ?_
    rintro i hi ⟨j, hj, hmem⟩
    rw [mem_seqRange] at hmem
    have hact : (s.group j).active = true := by
      simp only [FecGroup.expired, Bool.and_eq_true] at hj
      exact hj.1
    have hlt : i < s.windowSize := by
      rw [← h.win.place i (StreamContext.waiting_iff.mp hi).1]
      exact s.reorder.window.slot_lt _
    have := hexp _ (mem_groupList hact) hj i hlt hi
    omega
  · exact h

theorem flushConsecutive (hok : FlushOk s) (conn : Conn) : Accounted (flushConsecutive conn s) := by
  have hloop : Accounted (flushLoop conn (fecIsEnabled s.fec) s) ∧
      FlushOk (flushLoop conn (fecIsEnabled s.fec) s) := by
    refine iterWhile_inv (P := fun t => Accounted t ∧ FlushOk t) (fun t ht hc => ?_) ⟨h, hok⟩ _
    obtain ⟨ht, hclear, hexp⟩ := ht
    exact ⟨ht.flushBody hclear hc conn _, hclear.step hc conn _,
      hexp.step ht.win ht.groups hc conn _⟩
  exact hloop.1.releaseExpired hloop.2.2

theorem forceFlushBody {target : Seq} (hclear : ForceClear s target)
    (hc : forceFlushCond target s = true) (conn : Conn) : Accounted (forceFlushBody conn s) := by
  have hwin := h.win.forceFlushBody conn
  cases hb : s.reorder.slots (s.slot s.base) with
  | none =>
    obtain ⟨f, hf, hg⟩ := forceFlushBody_of_none conn hb
    rw [hf] at hwin ⊢
    exact ⟨hwin, h.groups.congr hg, h.count, h.noUnderflow⟩
  | some buf =>
    have hhead : s.waiting (s.slot s.base) = true := by
      have := hclear.head hc
      simp_all [StreamContext.waiting, StreamContext.keptAt]
    rw [forceFlushBody_of_some hb] at hwin ⊢
    exact h.countDown hwin rfl rfl rfl ⟨.deliver buf s.base, rfl, by simp⟩ hhead
      (fun i => StreamContext.waiting_clearSlot (s := deliverPacket conn buf s) i _)

theorem makeRoom {q : Seq} (hclear : (s.windowSize : ℤ) ≤ seqDiff q s.base → ForceClear s q)
    (conn : Conn) : Accounted (makeRoom conn q s) := by
  rw [Rtp2httpd.makeRoom]
  split
  · rename_i hfar
    refine (iterWhile_inv (P := fun t => Accounted t ∧ ForceClear t q) (fun t ht hc => ?_)
      ⟨h, hclear hfar⟩ _).1
    exact ⟨ht.1.forceFlushBody ht.2 hc conn, ht.2.step hc conn⟩
  · exact h

theorem deliverRecovered (hfree : HeadFree s) (conn : Conn) (data : List UInt8) :
    Accounted (deliverRecovered conn data s) := by
  have hwin := h.win.deliverRecovered conn data
  have htrace : ∀ n, Obs.countDec n ∈ (.deliverRaw data s.base :: s.trace : List Obs) → n ≠ 0 := by
    intro n hn
    exact h.noUnderflow n (by simpa using hn)
  rw [Rtp2httpd.deliverRecovered] at hwin ⊢
  split
  · rename_i hdup
    rw [if_pos hdup] at hwin
    refine ⟨hwin, h.groups, ?_, htrace⟩
    refine h.count.trans (waitingCount_congr (s := s)
      (t := ((deliverRawPacket conn data s).keepSlot (s.slot s.base)).advance) rfl
      (fun i => ?_)).symm
    have := StreamContext.waiting_keepSlot (s := deliverRawPacket conn data s) i (s.slot s.base)
    refine this.trans ?_
    split
    · rename_i hi
      rw [hi]
      exact hfree.symm
    · rfl
  · rename_i hdup
    rw [if_neg hdup] at hwin
    exact ⟨hwin, h.groups, h.count, htrace⟩

end

end Accounted

/-- A recovery that succeeds: the recovered packet does not wait in the window, and the
    flush after it is clear. -/
def RecoverOk (conn : Conn) (s : StreamContext) : Prop :=
  fecIsEnabled s.fec = true → ∀ data, (fecAttemptRecovery s.base s).2 = some data →
    HeadFree s ∧ FlushOk (deliverRecovered conn data (fecAttemptRecovery s.base s).1)

instance (conn : Conn) (s : StreamContext) : Decidable (RecoverOk conn s) := by
  unfold RecoverOk
  infer_instance

variable {conn : Conn}

theorem Accounted.recoverHead (h : Accounted s) (hok : RecoverOk conn s) :
    Accounted (recoverHead conn s) := by
  have h' : Accounted (fecAttemptRecovery s.base s).1 :=
    h.sheds (fecAttemptRecovery_sheds (R := fun _ => False) s.base s)
      (h.groups.congr (fecAttemptRecovery_groups s.base s)) (fun _ _ hf => hf)
  rw [Rtp2httpd.recoverHead]
  split
  · rename_i hen
    have hrec := hok hen
    have hfree : HeadFree s → HeadFree (fecAttemptRecovery s.base s).1 := by
      intro hfree
      have hst := fecAttemptRecovery_sheds (R := fun _ => False) s.base s
      have hslot : (fecAttemptRecovery s.base s).1.slot (fecAttemptRecovery s.base s).1.base =
          s.slot s.base := by
        simp [StreamContext.slot, hst.window, hst.base]
      rw [HeadFree, hslot, hst.waiting_eq (fun _ _ hf => hf)]
      exact hfree
    split
    · rename_i hres
      rw [hres] at h'
      exact h'
    · rename_i data hres
      rw [hres] at h' hrec hfree
      obtain ⟨hf, hflush⟩ := hrec data rfl
      exact (h'.deliverRecovered (hfree hf) conn data).flushConsecutive hflush conn
  · exact h

/-- A packet of the active phase that keeps the count right: the expected packet is not
    waiting already, and what it flushes is clear; a forced flush meets no kept slot; a
    recovery after it is clear. -/
structure ActiveOk (conn : Conn) (buf : BufferRef) (q : Seq) (s : StreamContext) : Prop where
  expected : q = s.base → HeadFree s ∧ (fastPath q s = false → FlushOk (s.storePacket buf q))
  force : (s.windowSize : ℤ) ≤ seqDiff q s.base → ForceClear s q
  recover : 0 < seqDiff q s.base → duplicate q (makeRoom conn q s) = false →
    RecoverOk conn ((makeRoom conn q s).storePacket buf q)

/-- The group that a FEC packet evicts covers no waiting packet. -/
def EvictClear (s : StreamContext) (data : List UInt8) : Prop :=
  ∀ fr, parseFecPacket data = some fr → ∀ g, evictedGroup s fr = some g →
    ∀ i < s.windowSize, s.waiting i = true →
      ahead g.beginSeq g.endSeq < ahead g.beginSeq (s.reorder.seq i)

/-- The condition on an input under which `count` stays right. -/
def StepOk (conn : Conn) (s : StreamContext) : Input → Prop
  | .rtp buf q => CollectFits s q ∧
      (s.reorder.phase = .collecting → ExpireClear (activate (collectPacket buf q s.resetBytes))) ∧
      (s.reorder.phase = .active → ActiveOk conn buf q s.resetBytes)
  | .fecPacket data => s.fec.initialized = true → EvictClear s data

instance (conn : Conn) (buf : BufferRef) (q : Seq) (s : StreamContext) :
    Decidable (ActiveOk conn buf q s) :=
  decidable_of_iff ((q = s.base → HeadFree s ∧
      (fastPath q s = false → FlushOk (s.storePacket buf q))) ∧
      ((s.windowSize : ℤ) ≤ seqDiff q s.base → ForceClear s q) ∧
      (0 < seqDiff q s.base → duplicate q (makeRoom conn q s) = false →
        RecoverOk conn ((makeRoom conn q s).storePacket buf q)))
    ⟨fun ⟨h1, h2, h3⟩ => ⟨h1, h2, h3⟩, fun h => ⟨h.expected, h.force, h.recover⟩⟩

instance (s : StreamContext) (data : List UInt8) : Decidable (EvictClear s data) := by
  unfold EvictClear
  infer_instance

instance (conn : Conn) (s : StreamContext) : ∀ e, Decidable (StepOk conn s e)
  | .rtp _ _ => inferInstanceAs (Decidable (_ ∧ _ ∧ _))
  | .fecPacket _ => inferInstanceAs (Decidable (_ → _))

theorem Accounted.insertActive (h : Accounted s) {buf : BufferRef} {q : Seq}
    (hok : ActiveOk conn buf q s) : Accounted (insertActive conn buf q s) := by
  have hwin := windowed_insertActive h.win conn buf q
  rw [Rtp2httpd.insertActive] at hwin ⊢
  split
  · rename_i hq
    rw [if_pos hq] at hwin
    rw [seqDiff_eq_zero] at hq
    subst hq
    obtain ⟨hfree, hflush⟩ := hok.expected rfl
    rw [insertExpected] at hwin ⊢
    split
    · rename_i hfast
      rw [if_pos hfast] at hwin
      refine ⟨hwin, h.groups, h.count, fun n hn => h.noUnderflow n ?_⟩
      rcases List.mem_cons.mp hn with hn | hn
      · cases hn
      · exact hn
    · rename_i hfast
      refine (h.storePacket buf ?_ hfree).flushConsecutive (hflush (by simpa using hfast)) conn
      rw [ahead_self]
      exact lt_of_lt_of_le (by decide) (eight_le_windowSize s)
  · split
    · exact h
    · have hm := h.makeRoom hok.force conn
      have hahead := makeRoom_ahead conn (q := q) (s := s) (by omega)
      rw [insertAhead]
      split
      · exact hm
      · rename_i hdup
        refine (hm.storePacket buf hahead ?_).recoverHead
          (hok.recover (by omega) (by simpa using hdup))
        by_contra hw
        have hw : (Rtp2httpd.makeRoom conn q s).waiting
            ((Rtp2httpd.makeRoom conn q s).slot q) = true := eq_true_of_ne_false hw
        apply hdup
        simp [duplicate, (StreamContext.waiting_iff.mp hw).1, hm.win.seq_slot hahead hw]

/-- The invariant of a run. -/
structure AccountedRun (s : StreamContext) : Prop where
  acc : Accounted s
  starting : Starting s
  few : s.reorder.phase ≠ .active → s.reorder.count.toNat < rtpReorderInitCollect

theorem AccountedRun.startCollecting (h : AccountedRun s) (hp : s.reorder.phase = .notStarted)
    (buf : BufferRef) (q : Seq) : AccountedRun (startCollecting buf q s) := by
  obtain ⟨hwin, hs⟩ := windowed_startCollecting h.starting hp buf q
  have hnone : ∀ i, s.waiting i = false := by
    intro i
    simp [StreamContext.waiting, h.starting.empty hp i]
  have h0 : Accounted (s.startAt q) := by
    refine ⟨h.starting.windowed_startAt hp q, h.acc.groups, ?_, h.acc.noUnderflow⟩
    have hz : waitingCount s = 0 := by simp [waitingCount, hnone]
    exact hz.symm
  refine ⟨h0.storePacket buf ?_ (hnone _), hs, fun _ => ?_⟩
  · rw [StreamContext.base, StreamContext.startAt_reorder_baseSeq, ahead_self]
    exact lt_of_lt_of_le (by decide) (eight_le_windowSize s)
  · simp [Rtp2httpd.startCollecting, rtpReorderInitCollect]

theorem Accounted.collectPacket (h : Accounted s) (hp : s.reorder.phase = .collecting)
    (buf : BufferRef) {q : Seq} (hfit : CollectFits s q) : Accounted (collectPacket buf q s) := by
  rw [collectPacket_eq]
  split
  · exact h
  · rename_i hfree
    have hfree : s.reorder.slots (s.slot q) = none := by simpa using hfree
    obtain ⟨hb, hnear⟩ := hfit.rebase h.win hp hfree
    have h' : Accounted (s.rebase (collectBase s q)) := ⟨hb, h.groups, h.count, h.noUnderflow⟩
    exact h'.storePacket buf hnear (by simp [StreamContext.waiting, hfree])

theorem AccountedRun.step (h : AccountedRun s) {e : Input} (hok : StepOk conn s e) :
    AccountedRun (streamStep conn s e) := by
  cases e with
  | fecPacket data =>
    rw [streamStep]
    split
    · rename_i hinit
      have hst := fecProcessPacket_sheds data s
      refine ⟨h.acc.sheds hst (h.acc.groups.processPacket data) ?_, h.starting.sheds hst, ?_⟩
      · rintro i hi ⟨fr, hfr, g, hg, hmem⟩
        rw [mem_seqRange] at hmem
        have hlt : i < s.windowSize := by
          rw [← h.acc.win.place i (StreamContext.waiting_iff.mp hi).1]
          exact s.reorder.window.slot_lt _
        have := hok hinit fr hfr g hg i hlt hi
        omega
      · rw [hst.phase, hst.count]
        exact h.few
    · exact h
  | rtp buf q =>
    obtain ⟨hfit, hcollect, hactive⟩ := hok
    have h0 : AccountedRun s.resetBytes :=
      ⟨⟨⟨h.acc.win.place, h.acc.win.near⟩, h.acc.groups, h.acc.count, h.acc.noUnderflow⟩,
        ⟨h.starting.empty, h.starting.fresh⟩, h.few⟩
    rw [streamStep]
    cases hp : s.reorder.phase with
    | notStarted =>
      rw [insert_of_notStarted hp]
      exact h0.startCollecting hp buf q
    | collecting =>
      have hc := h0.acc.collectPacket hp buf hfit
      obtain ⟨-, hs, hpc⟩ := windowed_collectPacket h0.acc.win h0.starting hp buf hfit
      have hfew : s.reorder.count.toNat < rtpReorderInitCollect := h.few (by simp [hp])
      have hle : (Rtp2httpd.collectPacket buf q s.resetBytes).reorder.count.toNat ≤
          s.reorder.count.toNat + 1 := collectPacket_count buf q _
      rw [insert_of_collecting hp]
      split
      · have hact : Accounted (activate (Rtp2httpd.collectPacket buf q s.resetBytes)) :=
          ⟨⟨hc.win.place, hc.win.near⟩, hc.groups, hc.count,
            fun n hn => hc.noUnderflow n (by simpa [activate] using hn)⟩
        refine ⟨hact.flushConsecutive ⟨flushClear_activate (hs.fresh (by simp [hpc]))
          (Nat.le_trans hle hfew), ?_⟩ conn, starting_of_active ?_, ?_⟩
        · exact hcollect hp
        · rw [flushConsecutive_phase]
          rfl
        · rw [flushConsecutive_phase]
          exact fun hne => absurd rfl hne
      · exact ⟨hc, hs, fun _ => by omega⟩
    | active =>
      have hp' := insertActive_phase conn buf q s.resetBytes
      rw [insert_of_active hp]
      refine ⟨h0.acc.insertActive (hactive hp), starting_of_active (hp'.trans hp), ?_⟩
      intro hne
      exact absurd (hp'.trans hp) hne

theorem accountedRun_init (useFec : Bool) (port : BitVec 16) :
    AccountedRun (.init useFec (fecInit port)) := by
  obtain ⟨hw, hs⟩ := windowed_init useFec (fecInit port)
  refine ⟨⟨hw, ⟨?_, ?_⟩, ?_, ?_⟩, hs, fun _ => ?_⟩
  · simp [StreamContext.init, fecInit, FecContext.zero]
  · simp [StreamContext.init, fecInit, FecContext.zero, FecContext.groupList]
  · simp [waitingCount, StreamContext.waiting, StreamContext.init, rtpReorderInit]
  · simp [StreamContext.init]
  · simp [StreamContext.init, rtpReorderInit, rtpReorderInitCollect]

/-- In every run whose inputs meet `StepOk`, `count` is the number of undelivered packets in
    the window, and no decrement finds it at 0. -/
theorem count_eq_waiting (conn : Conn) (useFec : Bool) (port : BitVec 16) (es : List Input)
    (h : Along (streamStep conn) (StepOk conn) (.init useFec (fecInit port)) es) :
    let s := run (streamStep conn) (.init useFec (fecInit port)) es
    s.reorder.count.toNat = windowCount s ∧ ∀ n, Obs.countDec n ∈ s.trace → n ≠ 0 := by
  have hstep : ∀ s e, AccountedRun s → StepOk conn s e → AccountedRun (streamStep conn s e) :=
    fun _ _ hs hok => hs.step hok
  have hrun := run_invariant hstep (accountedRun_init useFec port) h
  exact ⟨hrun.acc.count.trans (windowCount_eq hrun.acc.win).symm, hrun.acc.noUnderflow⟩

/-- RTP packet `n`, with one byte of payload. -/
def numberedPacket (n : ℕ) : Input :=
  .rtp ⟨n, [0x80, 33, 0, UInt8.ofNat n, 0, 0, 0, 0, 0, 0, 0, 0, UInt8.ofNat (n + 100)], 12, 1⟩
    (BitVec.ofNat 16 n)

/-- Packets 0 to 7, a parity of 8 and 9, then 9 and a late 3: packet 8 is recovered. -/
def lostEightRun : List Input :=
  (List.range 8).map numberedPacket ++
    [.fecPacket [0x80, 127, 0, 0, 0, 0, 0, 0, 0, 0, 0, 0, 0, 8, 0, 9, 1, 0, 0, 13, 0, 13, 0, 0,
      128, 33, 0, 11, 0, 0, 0, 0, 0, 0, 0, 0, 111], numberedPacket 9, numberedPacket 3]

theorem count_eq_waiting_lost_eight :
    (run (streamStep (fun _ => 0)) (.init true (fecInit 1)) lostEightRun).reorder.count.toNat =
      windowCount (run (streamStep (fun _ => 0)) (.init true (fecInit 1)) lostEightRun) :=
  (count_eq_waiting (fun _ => 0) true 1 lostEightRun (by decide +kernel)).1

/-- Packet 1024 after packets 0 to 7: the forced flush passes packet 0, which it kept, and
    counts it down from 0. -/
theorem count_underflow :
    ¬ (let s := run (streamStep (fun _ => 0)) (.init true (fecInit 1))
          ((List.range 8 ++ [1024]).map numberedPacket)
      s.reorder.count.toNat = windowCount s ∧ ∀ n, Obs.countDec n ∈ s.trace → n ≠ 0) := by
  rintro ⟨-, h⟩
  exact h 0 (by decide +kernel) rfl

end Apackage.Rtp2httpd
