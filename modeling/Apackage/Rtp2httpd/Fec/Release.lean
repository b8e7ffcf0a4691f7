import Apackage.Rtp2httpd.Reorder.Accounting

/-
  What `rtp_reorder_release_range` drops, in runs of RTP and FEC packets.

  A range is released when its group has expired and when its group is evicted because all 32 are in
  use. An expired group ends behind `base_seq`. The evicted group is chosen by the distance of its
  first number from the new one, whether it has expired or not, and takes packets with it that wait
  for delivery (`pending_released`). In runs without such an eviction only delivered packets are
  dropped (`released_delivered`).
-/

namespace Apackage.Rtp2httpd

open Lib.Serial Lib.Run

/-- A release drops a packet that was delivered, from behind `base_seq`. -/
@[simp] def Obs.ReleaseBehind : Obs → Prop
  | .release _ q base kept => SerialLt q base ∧ kept = true
  | _ => True

/-- Every release so far dropped a delivered packet from behind `base_seq`. -/
def ReleasesBehind (tr : List Obs) : Prop := ∀ o ∈ tr, o.ReleaseBehind

@[simp] theorem releasesBehind_cons (o : Obs) (tr : List Obs) :
    ReleasesBehind (o :: tr) ↔ o.ReleaseBehind ∧ ReleasesBehind tr := List.forall_mem_cons

/-- Every group that has expired begins behind `base_seq`, not only ends there. -/
def ExpireBehind (s : StreamContext) : Prop :=
  ∀ g ∈ s.fec.groupList, g.expired s.base = true → SerialLt g.beginSeq s.base
  deriving Decidable

/-- The expired groups that a flush meets at its end begin behind `base_seq`. -/
def FlushBehind (conn : Conn) (s : StreamContext) : Prop :=
  ExpireBehind (flushLoop conn (fecIsEnabled s.fec) s)
  deriving Decidable

/-- No delivered packet is still in its slot 2^15 numbers later. -/
def StaleFree (s : StreamContext) : Prop :=
  ∀ i < s.windowSize, s.keptAt i = true → SerialLt (s.reorder.seq i) s.base

instance (s : StreamContext) : Decidable (StaleFree s) := by
  unfold StaleFree
  infer_instance

/-- The flush after a recovery that succeeds. -/
def RecoverBehind (conn : Conn) (s : StreamContext) : Prop :=
  fecIsEnabled s.fec = true → ∀ data, (fecAttemptRecovery s.base s).2 = some data →
    FlushBehind conn (deliverRecovered conn data (fecAttemptRecovery s.base s).1)
  deriving Decidable

/-- The flushes that a packet of the active phase can start. -/
structure ActiveBehind (conn : Conn) (buf : BufferRef) (q : Seq) (s : StreamContext) : Prop where
  expected : q = s.base → fastPath q s = false → FlushBehind conn (s.storePacket buf q)
  recover : 0 < seqDiff q s.base → duplicate q (makeRoom conn q s) = false →
    RecoverBehind conn ((makeRoom conn q s).storePacket buf q)

instance (conn : Conn) (buf : BufferRef) (q : Seq) (s : StreamContext) :
    Decidable (ActiveBehind conn buf q s) :=
  decidable_of_iff ((q = s.base → fastPath q s = false → FlushBehind conn (s.storePacket buf q)) ∧
      (0 < seqDiff q s.base → duplicate q (makeRoom conn q s) = false →
        RecoverBehind conn ((makeRoom conn q s).storePacket buf q)))
    ⟨fun ⟨h1, h2⟩ => ⟨h1, h2⟩, fun h => ⟨h.expected, h.recover⟩⟩

/-- The condition on an input under which nothing undelivered is dropped: no eviction of a
    group that covers a waiting packet, and no group so long that it expires before its
    numbers are over. -/
def ReleaseOk (conn : Conn) (s : StreamContext) : Input → Prop
  | .rtp buf q => CollectFits s q ∧ (s.reorder.phase = .collecting →
        rtpReorderInitCollect ≤ (collectPacket buf q s.resetBytes).reorder.count.toNat →
          FlushBehind conn (activate (collectPacket buf q s.resetBytes))) ∧
      (s.reorder.phase = .active → ActiveBehind conn buf q s.resetBytes)
  | .fecPacket data => s.fec.initialized = true → EvictClear s data ∧
      ∀ fr, parseFecPacket data = some fr → (evictedGroup s fr).isSome = true → StaleFree s

instance (conn : Conn) (s : StreamContext) : ∀ e, Decidable (ReleaseOk conn s e)
  | .rtp _ _ => inferInstanceAs (Decidable (_ ∧ _ ∧ _))
  | .fecPacket _ => inferInstanceAs (Decidable (_ → _))

theorem behind_of_mem_expired {g : FecGroup} (hg : GroupOk g) {base q : Seq}
    (hexp : g.expired base = true) (hbegin : SerialLt g.beginSeq base)
    (hq : q ∈ seqRange g.beginSeq g.endSeq) : SerialLt q base := by
  simp only [FecGroup.expired, Bool.and_eq_true, decide_eq_true_eq] at hexp
  have hrange := hg.range hexp.1
  have hend := seqDiff_pos hexp.2
  rw [mem_seqRange] at hq
  rw [serialLt_iff] at hbegin ⊢
  have hlen : ahead g.beginSeq g.endSeq < 32768 := by
    rw [seqDiff_eq] at hrange
    have := ahead_lt g.beginSeq g.endSeq
    split at hrange <;> omega
  have hsum : ahead g.beginSeq base = ahead g.beginSeq g.endSeq + ahead g.endSeq base :=
    ahead_trans (by omega)
  have hrest : ahead q base = ahead g.beginSeq base - ahead g.beginSeq q := ahead_of_le (by omega)
  omega

/-- The invariant: the window, the groups, and what was released. -/
structure Settled (s : StreamContext) : Prop where
  win : Windowed s
  groups : GroupsOk s.fec
  behind : ReleasesBehind s.trace

namespace Settled

variable {s : StreamContext}

theorem kept_of_behind (h : Windowed s) {i : ℕ} (hi : (s.reorder.slots i).isSome = true)
    (hlt : SerialLt (s.reorder.seq i) s.base) : s.kept i = true := by
  by_contra hk
  have hnear := h.near i (StreamContext.waiting_iff.mpr ⟨hi, by simpa using hk⟩)
  have hsize := windowSize_le s
  rw [serialLt_iff] at hlt
  have := ahead_add_ahead (a := s.reorder.seq i) (b := s.base) (by
    intro he
    rw [he, ahead_self] at hlt
    omega)
  omega

section

variable (h : Settled s)

include h

/-- Slots shed: each holds a packet from behind `base_seq`. -/
theorem sheds {t : StreamContext} {R : Seq → Prop} (hst : Sheds R s t) (hg : GroupsOk t.fec)
    (hR : ∀ i, (s.reorder.slots i).isSome = true → R (s.reorder.seq i) →
      SerialLt (s.reorder.seq i) s.base) : Settled t where
  win := h.win.sheds hst
  groups := hg
  behind o ho := by
    obtain ⟨tr, he, hobs⟩ := hst.trace
    rw [he] at ho
    rcases List.mem_append.mp ho with ho | ho
    · have hshed := hobs o ho
      cases o with
      | release buf q base kept =>
        obtain ⟨hq, rfl, i, hi, rfl, rfl⟩ := hshed
        have hsome : (s.reorder.slots i).isSome = true := by simp [hi]
        have hlt := hR i hsome hq
        exact ⟨hlt, kept_of_behind h.win hsome hlt⟩
      | _ => trivial
    · exact h.behind o ho

theorem flushBody (hc : flushCond s = true) (conn : Conn) (keep : Bool) :
    Settled (flushBody conn keep s) := by
  obtain ⟨-, -, -, -, hf⟩ := flushBody_fields conn keep hc
  obtain ⟨-, buf, hbuf⟩ := flushCond_iff.mp hc
  refine ⟨h.win.flushBody conn keep hc, h.groups.congr (by rw [hf]), ?_⟩
  have := h.behind
  rw [flushBody_of_some hbuf]
  cases keep <;> simpa

theorem flushConsecutive {conn : Conn} (hok : FlushBehind conn s) :
    Settled (flushConsecutive conn s) := by
  have hloop : Settled (flushLoop conn (fecIsEnabled s.fec) s) :=
    iterWhile_inv (P := Settled) (fun t ht hc => ht.flushBody hc conn _) h _
  rw [Rtp2httpd.flushConsecutive, releaseExpired]
  rw [FlushBehind] at hok
  generalize flushLoop conn (fecIsEnabled s.fec) s = t at *
  split
  · refine hloop.sheds (fecReleaseExpiredGroups_sheds _ _) (hloop.groups.releaseExpired _) ?_
    rintro i - ⟨j, hexp, hmem⟩
    have hact : (t.group j).active = true := by
      simp only [FecGroup.expired, Bool.and_eq_true] at hexp
      exact hexp.1
    exact behind_of_mem_expired (hloop.groups.getD j) hexp (hok _ (mem_groupList hact) hexp) hmem
  · exact hloop

theorem makeRoom (conn : Conn) (q : Seq) : Settled (makeRoom conn q s) := by
  rw [Rtp2httpd.makeRoom]
  split
  · refine iterWhile_inv (P := Settled) (fun t ht _ => ?_) h _
    have hwin := ht.win.forceFlushBody conn
    cases hb : t.reorder.slots (t.slot t.base) with
    | none =>
      obtain ⟨f, hf, hg⟩ := forceFlushBody_of_none conn hb
      rw [hf] at hwin ⊢
      exact ⟨hwin, ht.groups.congr hg, ht.behind⟩
    | some buf =>
      rw [forceFlushBody_of_some hb] at hwin ⊢
      exact ⟨hwin, ht.groups, by simpa using ht.behind⟩
  · exact h

theorem storePacket (buf : BufferRef) {q : Seq} (hq : ahead s.base q < s.windowSize) :
    Settled (s.storePacket buf q) :=
  ⟨h.win.storePacket buf hq, h.groups, h.behind⟩

theorem recoverHead {conn : Conn} (hok : RecoverBehind conn s) : Settled (recoverHead conn s) := by
  have h' : Settled (fecAttemptRecovery s.base s).1 :=
    h.sheds (fecAttemptRecovery_sheds (R := fun _ => False) s.base s)
      (h.groups.congr (fecAttemptRecovery_groups s.base s)) (fun _ _ hf => hf.elim)
  rw [Rtp2httpd.recoverHead]
  split
  · rename_i hen
    have hrec := hok hen
    split
    · rename_i hres
      rw [hres] at h'
      exact h'
    · rename_i t data hres
      rw [hres] at h' hrec
      have hd : Settled (deliverRecovered conn data t) := by
        have hwin := h'.win.deliverRecovered conn data
        rw [deliverRecovered] at hwin ⊢
        split
        · rename_i hdup
          rw [if_pos hdup] at hwin
          exact ⟨hwin, h'.groups, by simpa using h'.behind⟩
        · rename_i hdup
          rw [if_neg hdup] at hwin
          exact ⟨hwin, h'.groups, by simpa using h'.behind⟩
      exact hd.flushConsecutive (hrec data rfl)
  · exact h

theorem insertActive {conn : Conn} {buf : BufferRef} {q : Seq} (hok : ActiveBehind conn buf q s) :
    Settled (insertActive conn buf q s) := by
  have hwin := windowed_insertActive h.win conn buf q
  rw [Rtp2httpd.insertActive] at hwin ⊢
  split
  · rename_i hq
    rw [if_pos hq] at hwin
    rw [seqDiff_eq_zero] at hq
    subst hq
    rw [insertExpected] at hwin ⊢
    split
    · rename_i hfast
      rw [if_pos hfast] at hwin
      exact ⟨hwin, h.groups, by simpa [deliverInOrder] using h.behind⟩
    · rename_i hfast
      refine (h.storePacket buf ?_).flushConsecutive (hok.expected rfl (by simpa using hfast))
      rw [ahead_self]
      exact lt_of_lt_of_le (by decide) (eight_le_windowSize s)
  · split
    · exact h
    · have hm := h.makeRoom conn q
      rw [insertAhead]
      split
      · exact hm
      · rename_i hdup
        exact (hm.storePacket buf (makeRoom_ahead conn (by omega))).recoverHead
          (hok.recover (by omega) (by simpa using hdup))

end

end Settled

theorem settled_step {s : StreamContext} (h : Settled s) (h' : Starting s) {conn : Conn}
    {e : Input} (hok : ReleaseOk conn s e) :
    Settled (streamStep conn s e) ∧ Starting (streamStep conn s e) := by
  cases e with
  | fecPacket data =>
    rw [streamStep]
    split
    · rename_i hinit
      obtain ⟨hevict, hstale⟩ := hok hinit
      have hst := fecProcessPacket_sheds data s
      refine ⟨h.sheds hst (h.groups.processPacket data) ?_, h'.sheds hst⟩
      rintro i hi ⟨fr, hfr, g, hg, hmem⟩
      rw [mem_seqRange] at hmem
      have hlt : i < s.windowSize := by
        rw [← h.win.place i hi]
        exact s.reorder.window.slot_lt _
      cases hk : s.kept i with
      | false =>
        have := hevict fr hfr g hg i hlt (StreamContext.waiting_iff.mpr ⟨hi, hk⟩)
        omega
      | true => exact hstale fr hfr (by simp [hg]) i hlt (by simp [StreamContext.keptAt, hi, hk])
    · exact ⟨h, h'⟩
  | rtp buf q =>
    obtain ⟨hfit, hcollect, hactive⟩ := hok
    have h0 : Settled s.resetBytes := ⟨⟨h.win.place, h.win.near⟩, h.groups, h.behind⟩
    have h0' : Starting s.resetBytes := ⟨h'.empty, h'.fresh⟩
    rw [streamStep]
    cases hp : s.reorder.phase with
    | notStarted =>
      obtain ⟨hwin, hs⟩ := windowed_startCollecting h0' hp buf q
      rw [insert_of_notStarted hp]
      exact ⟨⟨hwin, h.groups, h.behind⟩, hs⟩
    | collecting =>
      obtain ⟨hwin, hs, -⟩ := windowed_collectPacket h0.win h0' hp buf hfit
      have hc : Settled (collectPacket buf q s.resetBytes) := by
        refine ⟨hwin, ?_, ?_⟩
        all_goals
          rw [collectPacket_eq]
          split
        · exact h.groups
        · exact h.groups
        · exact h.behind
        · exact h.behind
      rw [insert_of_collecting hp]
      split
      · rename_i hcount
        have ha : Settled (activate (collectPacket buf q s.resetBytes)) :=
          ⟨⟨hc.win.place, hc.win.near⟩, hc.groups, by simpa [activate] using hc.behind⟩
        refine ⟨ha.flushConsecutive (hcollect hp hcount), starting_of_active ?_⟩
        rw [flushConsecutive_phase]
        rfl
      · exact ⟨hc, hs⟩
    | active =>
      rw [insert_of_active hp]
      exact ⟨h0.insertActive (hactive hp),
        starting_of_active ((insertActive_phase conn buf q _).trans hp)⟩

/-- In every run whose inputs meet `ReleaseOk`, the slots that `rtp_reorder_release_range`
    empties hold delivered packets from behind `base_seq` only. -/
theorem released_delivered (conn : Conn) (useFec : Bool) (port : BitVec 16) (es : List Input)
    (h : Along (streamStep conn) (ReleaseOk conn) (.init useFec (fecInit port)) es) :
    ReleasesBehind (run (streamStep conn) (.init useFec (fecInit port)) es).trace := by
  obtain ⟨hw, hs⟩ := windowed_init useFec (fecInit port)
  have h0 : Settled (.init useFec (fecInit port)) :=
    ⟨hw, ⟨by simp [StreamContext.init, fecInit, FecContext.zero],
      by simp [StreamContext.init, fecInit, FecContext.zero, FecContext.groupList]⟩,
      by simp [ReleasesBehind, StreamContext.init]⟩
  have hstep : ∀ s e, Settled s ∧ Starting s → ReleaseOk conn s e →
      Settled (streamStep conn s e) ∧ Starting (streamStep conn s e) :=
    fun s e hs hok => settled_step hs.1 hs.2 hok
  exact (run_invariant hstep ⟨h0, hs⟩ h).1.behind

/-- After the recovery of packet 8 the group of 8 and 9 has expired and packet 9 is
    released. -/
theorem released_delivered_lost_eight : (∃ buf, Obs.release buf 9 10 true ∈
      (run (streamStep (fun _ => 0)) (.init true (fecInit 1)) lostEightRun).trace) ∧
    ReleasesBehind (run (streamStep (fun _ => 0)) (.init true (fecInit 1)) lostEightRun).trace :=
  ⟨⟨⟨9, [0x80, 33, 0, 9, 0, 0, 0, 0, 0, 0, 0, 0, 109], 12, 1⟩, by decide +kernel⟩,
    released_delivered (fun _ => 0) true 1 lostEightRun (by decide +kernel)⟩

/-- A parity for packet `n` alone. -/
def parityFor (n : UInt8) : Input :=
  .fecPacket [0x80, 127, 0, 0, 0, 0, 0, 0, 0, 0, 0, 0, 0, n, 0, n, 1, 0, 0, 0, 0, 13, 0, 0]

/-- Packets 0 to 7 and 9, then parities for 9 to 40 and for 100: the last one evicts the
    group of packet 9, which waits for packet 8. -/
def evictedRun : List Input :=
  (List.range 8 ++ [9]).map numberedPacket ++
    ((List.range 32).map (fun j => parityFor (UInt8.ofNat (9 + j))) ++ [parityFor 100])

theorem pending_released :
    ¬ ReleasesBehind (run (streamStep (fun _ => 0)) (.init true (fecInit 1)) evictedRun).trace := by
  intro h
  have hrel := h (.release ⟨9, [0x80, 33, 0, 9, 0, 0, 0, 0, 0, 0, 0, 0, 109], 12, 1⟩ 9 8 false)
    (by decide +kernel)
  exact absurd hrel.2 (by decide)

end Apackage.Rtp2httpd
