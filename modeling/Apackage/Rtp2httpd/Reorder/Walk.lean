import Apackage.Rtp2httpd.Reorder.Window

/-
  The slots that the two flush loops pass, and when none of them holds a packet that was delivered
  before.

  With FEC a delivered packet stays in its slot, and neither loop can tell it from one that waits.
  `FlushClear` and `ForceClear` say, of the state in which a loop starts, that the loop does not
  come upon such a slot. Each iteration keeps them.
-/

namespace Apackage.Rtp2httpd

open Lib.Serial Lib.Run

/-- The slot `j` places after that of `base_seq`. -/
def StreamContext.slotAfter (s : StreamContext) (j : ℕ) : ℕ := s.slot (s.base + BitVec.ofNat 16 j)

def FlushClear (s : StreamContext) : Prop :=
  ∀ j < s.reorder.count.toNat, (∀ i < j, s.waiting (s.slotAfter i) = true) →
    j < s.windowSize ∧ s.keptAt (s.slotAfter j) = false

instance (s : StreamContext) : Decidable (FlushClear s) := by
  unfold FlushClear
  infer_instance

def ForceClear (s : StreamContext) (target : Seq) : Prop :=
  ∀ j < ahead s.base target + 1 - s.windowSize, s.keptAt (s.slotAfter j) = false

instance (s : StreamContext) (target : Seq) : Decidable (ForceClear s target) := by
  unfold ForceClear
  infer_instance

variable {s : StreamContext}

@[simp] theorem slotAfter_zero (s : StreamContext) : s.slotAfter 0 = s.slot s.base := by
  simp [StreamContext.slotAfter]

theorem slotAfter_succ {t : StreamContext} (hb : t.base = s.base + 1)
    (hw : t.reorder.window = s.reorder.window) (j : ℕ) : t.slotAfter j = s.slotAfter (j + 1) := by
  have : s.base + 1 + BitVec.ofNat 16 j = s.base + BitVec.ofNat 16 (j + 1) := by bv_omega
  rw [StreamContext.slotAfter, StreamContext.slotAfter, hb, this, StreamContext.slot, hw]

theorem slotAfter_ne {j : ℕ} (h0 : 0 < j) (hj : j < s.windowSize) :
    s.slotAfter j ≠ s.slot s.base := by
  intro h
  have hsize := windowSize_le s
  have := s.reorder.window.slot_inj (b := s.base) (by rw [ahead_add _ (by omega)]; exact hj)
    (by rw [ahead_self]; exact Nat.lt_trans h0 hj) h
  have h1 := ahead_add s.base (n := j) (by omega)
  rw [this, ahead_self] at h1
  omega

theorem FlushClear.head (h : FlushClear s) (hc : flushCond s = true) :
    s.waiting (s.slot s.base) = true ∧ s.keptAt (s.slot s.base) = false := by
  obtain ⟨hpos, buf, hbuf⟩ := flushCond_iff.mp hc
  have hk := (h 0 hpos (by omega)).2
  rw [slotAfter_zero] at hk
  refine ⟨?_, hk⟩
  simp_all [StreamContext.waiting, StreamContext.keptAt]

/-- After a delivery the slot of the packet does not wait; the others are as before. -/
theorem waiting_flushBody {conn : Conn} {keep : Bool} (hc : flushCond s = true) (i : ℕ) :
    (flushBody conn keep s).waiting i = if i = s.slot s.base then false else s.waiting i := by
  obtain ⟨-, buf, hbuf⟩ := flushCond_iff.mp hc
  rw [flushBody_of_some hbuf]
  cases keep
  · exact StreamContext.waiting_clearSlot (s := deliverPacket conn buf s) i _
  · exact StreamContext.waiting_keepSlot (s := deliverPacket conn buf s) i _

theorem keptAt_flushBody {conn : Conn} {keep : Bool} (hc : flushCond s = true) {i : ℕ}
    (hi : i ≠ s.slot s.base) : (flushBody conn keep s).keptAt i = s.keptAt i := by
  obtain ⟨-, buf, hbuf⟩ := flushCond_iff.mp hc
  rw [flushBody_of_some hbuf]
  cases keep <;> simp [StreamContext.keptAt, hi]

theorem flushBody_fields (conn : Conn) (keep : Bool) (hc : flushCond s = true) :
    (flushBody conn keep s).base = s.base + 1 ∧
      (flushBody conn keep s).reorder.window = s.reorder.window ∧
      (flushBody conn keep s).reorder.seq = s.reorder.seq ∧
      (flushBody conn keep s).reorder.count = s.reorder.count - 1 ∧
      (flushBody conn keep s).fec = s.fec := by
  obtain ⟨-, buf, hbuf⟩ := flushCond_iff.mp hc
  rw [flushBody_of_some hbuf]
  cases keep <;> exact ⟨rfl, rfl, rfl, rfl, rfl⟩

theorem FlushClear.step (h : FlushClear s) (hc : flushCond s = true) (conn : Conn)
    (keep : Bool) : FlushClear (flushBody conn keep s) := by
  have hpos := (flushCond_iff.mp hc).1
  have hhead := (h.head hc).1
  obtain ⟨hb, hw, -, hcnt, -⟩ := flushBody_fields conn keep hc
  intro j hj hrun
  have hcount : (s.reorder.count - 1).toNat = s.reorder.count.toNat - 1 := by bv_omega
  rw [hcnt] at hj
  obtain ⟨hlt, hk⟩ := h (j + 1) (by omega) (by
    intro i hi
    cases i with
    | zero => rw [slotAfter_zero]; exact hhead
    | succ i =>
      have := hrun i (by omega)
      rw [slotAfter_succ hb hw, waiting_flushBody hc] at this
      split at this
      · cases this
      · exact this)
  have hne := slotAfter_ne (s := s) (j := j + 1) (by omega) hlt
  rw [slotAfter_succ hb hw, keptAt_flushBody hc hne, StreamContext.windowSize, hw]
  exact ⟨Nat.lt_of_succ_lt hlt, hk⟩

theorem ForceClear.head {target : Seq} (h : ForceClear s target)
    (hc : forceFlushCond target s = true) : s.keptAt (s.slot s.base) = false := by
  obtain ⟨h1, -⟩ := forceFlushCond_iff.mp hc
  have := h 0 (by omega)
  rwa [slotAfter_zero] at this

theorem forceFlushBody_slots (conn : Conn) (s : StreamContext) (i : ℕ) :
    (forceFlushBody conn s).reorder.slots i =
      if i = s.slot s.base then none else s.reorder.slots i := by
  cases h : s.reorder.slots (s.slot s.base) with
  | none =>
    obtain ⟨f, hf, -⟩ := forceFlushBody_of_none conn h
    rw [hf]
    split
    · simp [*]
    · rfl
  | some buf =>
    rw [forceFlushBody_of_some h]
    by_cases hi : i = s.slot s.base <;> simp [hi]

theorem ForceClear.step {target : Seq} (h : ForceClear s target)
    (hc : forceFlushCond target s = true) (conn : Conn) :
    ForceClear (forceFlushBody conn s) target := by
  intro j hj
  have hahead := forceFlushBody_ahead conn hc
  obtain ⟨hb, hw, -, -, hk⟩ := forceFlushBody_fields conn s
  rw [slotAfter_succ hb hw]
  have hsize : (forceFlushBody conn s).windowSize = s.windowSize := by
    rw [StreamContext.windowSize, hw]
  have := h (j + 1) (by omega)
  rw [StreamContext.keptAt, forceFlushBody_slots, hk]
  split
  · rfl
  · exact this

theorem collectPacket_count (buf : BufferRef) (q : Seq) (s : StreamContext) :
    (collectPacket buf q s).reorder.count.toNat ≤ s.reorder.count.toNat + 1 := by
  rw [collectPacket_eq]
  split
  · exact Nat.le_succ _
  · simp only [StreamContext.storePacket_reorder_count, StreamContext.rebase_reorder_count]
    bv_omega

/-- When the eighth packet starts the flush, nothing is kept. -/
theorem flushClear_activate {s : StreamContext} (hfresh : ∀ i, s.kept i = false)
    (hcount : s.reorder.count.toNat ≤ rtpReorderInitCollect) : FlushClear (activate s) := by
  intro j hj _
  have hsize := eight_le_windowSize s
  have hlt : j < s.reorder.count.toNat := hj
  rw [rtpReorderInitCollect] at hcount
  refine ⟨by change j < s.windowSize; omega, ?_⟩
  have : (activate s).kept = s.kept := rfl
  rw [StreamContext.keptAt, this, hfresh, Bool.and_false]

end Apackage.Rtp2httpd
