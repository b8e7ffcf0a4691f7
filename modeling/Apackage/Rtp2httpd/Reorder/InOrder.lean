import Apackage.Rtp2httpd.Reorder.Window

/-
  The reorder buffer without FEC delivers in order, each packet in its own place and once.

  The collecting phase accepts a packet whose slot is free, even if it lies more than a window from
  the others; the flush then delivers it under the number of another one (`misplaced_delivery`).
  While the collected packets fit into one window (`CollectFits`) this does not happen
  (`deliveries_in_order`). Two numbers delivered in succession are at most 2^15 apart: a packet
  further ahead counts as late.
-/

namespace Apackage.Rtp2httpd

open List Lib.Serial Lib.Run

/-- The slot of `q` holds `buf` under the number `q`. -/
def Holds (s : StreamContext) (buf : BufferRef) (q : Seq) : Prop :=
  s.reorder.slots (s.slot q) = some buf ∧ s.reorder.seq (s.slot q) = q
  deriving Decidable

/-- The last delivered number `l` allows delivery at `base`, now or once `base_seq` has
    moved up to a number of `X`. -/
def GapOk (X : Seq → Prop) (base l : Seq) : Prop :=
  base = l + 1 ∨ ∃ q, X q ∧ 1 ≤ ahead l base ∧ ahead l base + ahead base q ≤ 32768

/-- Each packet has been delivered under its own number, or waits under it, at most as often
    as it came in. -/
def Once (es : List (BufferRef × Seq)) (s : StreamContext) : Prop :=
  ∀ buf q, (delivered s.trace).count (buf, q) + (if Holds s buf q then 1 else 0) ≤ es.count (buf, q)

variable {es : List (BufferRef × Seq)} {s : StreamContext}

theorem Once.ignore (h : Once es s) (e : BufferRef × Seq) : Once (es ++ [e]) s := by
  intro buf q
  have := h buf q
  rw [count_append]
  omega

theorem Once.storePacket (h : Once es s) (buf : BufferRef) (q : Seq) :
    Once (es ++ [(buf, q)]) (s.storePacket buf q) := by
  intro b x
  have hb := h b x
  change (delivered s.trace).count (b, x) + _ ≤ _
  rw [count_append]
  by_cases hx : s.slot x = s.slot q
  · by_cases he : (buf, q) = (b, x)
    · cases he
      have : (if Holds (s.storePacket buf q) buf q then 1 else 0) ≤ 1 := by split <;> omega
      rw [count_singleton_self]
      omega
    · have hout : ¬ Holds (s.storePacket buf q) b x := by
        rintro ⟨h1, h2⟩
        simp only [StreamContext.slot, StreamContext.storePacket_reorder_window, hx,
          StreamContext.storePacket_reorder_slots, StreamContext.storePacket_reorder_seq,
          Function.update_self, Option.some.injEq] at h1 h2
        exact he (by rw [h1, h2])
      rw [if_neg hout]
      omega
  · have hsame : Holds (s.storePacket buf q) b x ↔ Holds s b x := by simp [Holds, hx]
    simp only [hsame]
    omega

/-- The invariant of the active phase without FEC, after the inputs `es`, with the numbers `X`
    still to come. -/
structure Ordered (es : List (BufferRef × Seq)) (X : Seq → Prop) (s : StreamContext) : Prop where
  win : Windowed s
  noFec : s.fec.initialized = false
  noKept : ∀ i, s.kept i = false
  once : Once es s
  first : ∀ p ∈ (delivered s.trace).getLast?, firstBase s.trace = some p.2
  ready : delivered s.trace = [] →
    firstBase s.trace = some s.base ∧ (s.reorder.slots (s.slot s.base)).isSome = true
  chain : ((delivered s.trace).map Prod.snd).IsChain (fun a b => SerialLt b a)
  gap : ∀ l ∈ ((delivered s.trace).map Prod.snd).head?,
    GapOk (fun q => duplicate q s = true ∨ X q) s.base l

theorem duplicate_iff {q : Seq} : duplicate q s = true ↔
      (s.reorder.slots (s.slot q)).isSome = true ∧ s.reorder.seq (s.slot q) = q := by
  simp [duplicate]

section

variable {base : Seq} {X : Seq → Prop} {l : Seq} (h : GapOk X base l)

include h

theorem GapOk.mono {Y : Seq → Prop} (hXY : ∀ q, X q → Y q) : GapOk Y base l := by
  rcases h with h | ⟨q, hq, h1⟩
  · exact .inl h
  · exact .inr ⟨q, hXY q hq, h1⟩

theorem GapOk.serialLt : SerialLt l base := by
  rw [serialLt_iff]
  rcases h with rfl | ⟨q, -, h1, h2⟩
  · rw [ahead_succ_right (by simp), ahead_self]
    decide
  · omega

/-- Moving the base over a hole, on the way to a target close enough. -/
theorem GapOk.step {target : Seq} (ht : X target) (hlt : ahead base target < 32768)
    (hne : target ≠ base) (hhole : ¬ X base) : GapOk X (base + 1) l := by
  rcases h with rfl | ⟨q, hq, h1, h2⟩
  · refine .inr ⟨target, ht, ?_⟩
    have h1 := ahead_succ hne
    have h2 : ahead l (l + 1) = 1 := by rw [ahead_succ_right (by simp), ahead_self]
    have h3 := ahead_succ_right (a := l) (b := l + 1) (by omega)
    omega
  · refine .inr ⟨q, hq, ?_⟩
    have hqb : q ≠ base := by
      rintro rfl
      exact hhole hq
    have h3 := ahead_succ hqb
    have h4 := ahead_succ_right (a := l) (b := base) (by omega)
    omega

end

namespace Ordered

variable {es : List (BufferRef × Seq)} {X : Seq → Prop} {s : StreamContext}

section

variable (h : Ordered es X s)

include h

theorem waiting_eq (i : ℕ) : s.waiting i = (s.reorder.slots i).isSome := by
  simp [StreamContext.waiting, h.noKept i]

theorem mono {Y : Seq → Prop} (hXY : ∀ q, X q → Y q) : Ordered es Y s :=
  { h with gap := fun l hl => (h.gap l hl).mono (fun q hq => hq.imp_right (hXY q)) }

theorem ignore (e : BufferRef × Seq) : Ordered (es ++ [e]) X s where
  __ := h
  once := h.once.ignore e

theorem chain_deliver (buf : BufferRef) :
    (((buf, s.base) :: delivered s.trace).map Prod.snd).IsChain (fun a b => SerialLt b a) := by
  rw [map_cons, isChain_cons]
  exact ⟨fun l hl => (h.gap l hl).serialLt, h.chain⟩

theorem first_deliver (buf : BufferRef) :
    ∀ p ∈ ((buf, s.base) :: delivered s.trace).getLast?, firstBase s.trace = some p.2 := by
  intro p hp
  cases hD : delivered s.trace with
  | nil =>
    rw [hD] at hp
    cases hp
    exact (h.ready hD).1
  | cons d ds =>
    rw [hD, getLast?_cons_cons, ← hD] at hp
    exact h.first p hp

theorem deliverHead (conn : Conn) {buf : BufferRef}
    (hbuf : s.reorder.slots (s.slot s.base) = some buf) :
    Ordered es X ((deliverPacket conn buf s).clearSlot (s.slot s.base)).advance.decCount where
  win := (((h.win.deliverPacket conn buf).clearSlot _).advance (by simp)).decCount
  noFec := h.noFec
  noKept := h.noKept
  once b q := by
    have hseq : s.reorder.seq (s.slot s.base) = s.base :=
      h.win.seq_base (by rw [h.waiting_eq, hbuf]; rfl)
    have hb := h.once b q
    by_cases hq : s.slot q = s.slot s.base
    · have hout : ¬ Holds ((deliverPacket conn buf s).clearSlot
          (s.slot s.base)).advance.decCount b q := by
        simp [Holds, hq]
      rw [if_neg hout]
      by_cases he : (buf, s.base) = (b, q)
      · cases he
        rw [if_pos ⟨hbuf, hseq⟩] at hb
        simpa using hb
      · have : delivered ((deliverPacket conn buf s).clearSlot
            (s.slot s.base)).advance.decCount.trace = (buf, s.base) :: delivered s.trace := rfl
        rw [this, count_cons_of_ne he]
        omega
    · have hne : (buf, s.base) ≠ (b, q) := by
        rintro he
        cases he
        exact hq rfl
      have hsame : Holds ((deliverPacket conn buf s).clearSlot
          (s.slot s.base)).advance.decCount b q ↔ Holds s b q := by
        simp [Holds, hq]
      have : delivered ((deliverPacket conn buf s).clearSlot
          (s.slot s.base)).advance.decCount.trace = (buf, s.base) :: delivered s.trace := rfl
      simp only [hsame]
      rw [this, count_cons_of_ne hne]
      exact hb
  first := h.first_deliver buf
  ready hD := by cases hD
  chain := h.chain_deliver buf
  gap l hl := by
    cases hl
    exact .inl rfl

/-- The packet of `base_seq` itself is delivered without being stored. -/
theorem deliverInOrder (conn : Conn) (buf : BufferRef)
    (hfree : s.reorder.slots (s.slot s.base) = none) :
    Ordered (es ++ [(buf, s.base)]) X (deliverInOrder conn buf s) where
  win := Windowed.advance (s := { s.log _ with totalBytes := _ }) ⟨h.win.place, h.win.near⟩
    (by simp [StreamContext.waiting, hfree])
  noFec := h.noFec
  noKept := h.noKept
  once b q := by
    have hb := h.once b q
    have hsame : Holds (Rtp2httpd.deliverInOrder conn buf s) b q ↔ Holds s b q := Iff.rfl
    have : delivered (Rtp2httpd.deliverInOrder conn buf s).trace =
      (buf, s.base) :: delivered s.trace := rfl
    simp only [hsame]
    rw [this, count_append, count_cons, count_cons, count_nil]
    omega
  first := h.first_deliver buf
  ready hD := by cases hD
  chain := h.chain_deliver buf
  gap l hl := by
    cases hl
    exact .inl rfl

end

theorem skipHole {target : Seq} (h : Ordered es (· = target) s) (f : FecContext)
    (hf : f.initialized = false) (hhole : s.reorder.slots (s.slot s.base) = none)
    (hc : forceFlushCond target s = true) :
    Ordered es (· = target) { s with fec := f }.advance where
  win := Windowed.advance (s := { s with fec := f }) ⟨h.win.place, h.win.near⟩
    (by simp [StreamContext.waiting, hhole])
  noFec := hf
  noKept := h.noKept
  once := h.once
  first := h.first
  ready hD := by
    have := (h.ready hD).2
    rw [hhole] at this
    cases this
  chain := h.chain
  gap l hl := by
    have hsize := eight_le_windowSize s
    obtain ⟨h1, h2⟩ := forceFlushCond_iff.mp hc
    have hne : target ≠ s.base := by
      rintro rfl
      rw [ahead_self] at h1
      omega
    refine (h.gap l hl).step (.inr rfl) h2 hne ?_
    rintro (hdup | rfl)
    · rw [duplicate_iff, hhole] at hdup
      cases hdup.1
    · exact hne rfl

section

variable (h : Ordered es X s)

include h

theorem storePacket (buf : BufferRef) {q : Seq} (hq : ahead s.base q < s.windowSize)
    (hX : ∀ x, X x → x = q) :
    Ordered (es ++ [(buf, q)]) (fun _ => False) (s.storePacket buf q) where
  win := h.win.storePacket buf hq
  noFec := h.noFec
  noKept i := by
    have := h.noKept i
    by_cases hi : i = s.slot q <;> simp_all
  once := h.once.storePacket buf q
  first := h.first
  ready hD := by
    obtain ⟨h1, h2⟩ := h.ready hD
    refine ⟨h1, ?_⟩
    by_cases hs : s.slot s.base = s.slot q <;> simp_all
  chain := h.chain
  gap l hl := by
    refine (h.gap l hl).mono (fun x hx => .inl ?_)
    have hself : duplicate q (s.storePacket buf q) = true := by simp [duplicate]
    rcases hx with hx | hx
    · rw [duplicate_iff] at hx
      by_cases hslot : s.slot x = s.slot q
      · have : s.reorder.seq (s.slot q) = q :=
          h.win.seq_slot hq (by rw [h.waiting_eq, ← hslot]; exact hx.1)
        have hxq : x = q := by rw [← hx.2, hslot, this]
        rw [hxq]
        exact hself
      · rw [duplicate_iff]
        simpa [hslot] using hx
    · rw [hX x hx]
      exact hself

theorem releaseExpired : releaseExpired s = s := by simp [Rtp2httpd.releaseExpired, h.noFec]

theorem notEnabled : fecIsEnabled s.fec = false := by simp [fecIsEnabled, h.noFec]

theorem flushConsecutive (conn : Conn) : Ordered es X (flushConsecutive conn s) := by
  have hloop : Ordered es X (flushLoop conn false s) := by
    refine iterWhile_inv (P := Ordered es X) (fun t ht hc => ?_) h _
    obtain ⟨-, buf, hbuf⟩ := flushCond_iff.mp hc
    rw [flushBody_of_some hbuf]
    exact ht.deliverHead conn hbuf
  rw [Rtp2httpd.flushConsecutive, h.notEnabled, hloop.releaseExpired]
  exact hloop

end

theorem makeRoom (h : Ordered es (fun _ => False) s) (conn : Conn) (q : Seq) :
    Ordered es (· = q) (makeRoom conn q s) := by
  have h' : Ordered es (· = q) s := h.mono (by simp)
  rw [Rtp2httpd.makeRoom]
  split
  · refine iterWhile_inv (P := Ordered es (· = q)) (fun t ht hc => ?_) h' _
    cases hb : t.reorder.slots (t.slot t.base) with
    | none =>
      simp only [forceFlushBody, hb, ht.noFec]
      exact ht.skipHole _ rfl hb hc
    | some buf =>
      rw [forceFlushBody_of_some hb]
      exact ht.deliverHead conn hb
  · exact h'

theorem insertActive (h : Ordered es (fun _ => False) s) (conn : Conn) (buf : BufferRef)
    (q : Seq) : Ordered (es ++ [(buf, q)]) (fun _ => False) (insertActive conn buf q s) := by
  rw [Rtp2httpd.insertActive]
  split
  · rename_i hq
    rw [seqDiff_eq_zero] at hq
    subst hq
    rw [insertExpected]
    split
    · rename_i hfast
      simp only [fastPath, Bool.and_eq_true, Option.isNone_iff_eq_none] at hfast
      exact h.deliverInOrder conn buf hfast.2
    · refine (h.storePacket buf ?_ (by simp)).flushConsecutive conn
      rw [ahead_self]
      exact lt_of_lt_of_le (by decide) (eight_le_windowSize s)
  · split
    · exact h.ignore _
    · rename_i hq
      have hm := h.makeRoom conn q
      have hahead := makeRoom_ahead conn (q := q) (s := s) (by omega)
      rw [insertAhead]
      split
      · rename_i hdup
        exact { hm.ignore (buf, q) with
          gap := fun l hl => (hm.gap l hl).mono (fun x hx => .inl (by
            rcases hx with hx | rfl
            · exact hx
            · exact hdup)) }
      · have hs := hm.storePacket buf hahead (by simp)
        rw [recoverHead, hs.notEnabled]
        exact hs

end Ordered

/-- The invariant before the active phase. -/
structure Early (es : List (BufferRef × Seq)) (s : StreamContext) : Prop where
  win : Windowed s
  starting : Starting s
  noFec : s.fec.initialized = false
  once : Once es s
  trace : s.trace = []
  origin : s.reorder.phase = .collecting → (s.reorder.slots (s.slot s.base)).isSome = true

/-- The invariant of a run without FEC, after the inputs `es`. -/
def InOrder (es : List (BufferRef × Seq)) (s : StreamContext) : Prop :=
  if s.reorder.phase = .active then Ordered es (fun _ => False) s else Early es s

theorem Early.activate (h : Early es s) (hp : s.reorder.phase = .collecting) :
    Ordered es (fun _ => False) (activate s) where
  win := ⟨h.win.place, h.win.near⟩
  noFec := h.noFec
  noKept := h.starting.fresh (by simp [hp])
  once := h.once
  first := by simp [Rtp2httpd.activate, h.trace]
  ready _ := ⟨by simp [Rtp2httpd.activate, firstBase], h.origin hp⟩
  chain := by simp [Rtp2httpd.activate, h.trace]
  gap := by simp [Rtp2httpd.activate, h.trace]

theorem Early.resetBytes (h : Early es s) : Early es s.resetBytes where
  __ := h
  win := ⟨h.win.place, h.win.near⟩
  starting := ⟨h.starting.empty, h.starting.fresh⟩

theorem Early.startCollecting (h : Early es s) (hp : s.reorder.phase = .notStarted)
    (buf : BufferRef) (q : Seq) : Early (es ++ [(buf, q)]) (startCollecting buf q s) := by
  obtain ⟨hw, hs⟩ := windowed_startCollecting h.starting hp buf q
  refine ⟨hw, hs, h.noFec, ?_, h.trace, fun _ => by simp [Rtp2httpd.startCollecting]⟩
  have h0 : Once es (s.startAt q) := h.once
  exact h0.storePacket buf q

theorem Early.collectPacket (h : Early es s) (hp : s.reorder.phase = .collecting) (buf : BufferRef)
    {q : Seq} (hfit : CollectFits s q) :
    Early (es ++ [(buf, q)]) (collectPacket buf q s) ∧
      (collectPacket buf q s).reorder.phase = .collecting := by
  obtain ⟨hw, hs, hpc⟩ := windowed_collectPacket h.win h.starting hp buf hfit
  have horigin := h.origin hp
  rw [collectPacket_eq] at hw hs hpc ⊢
  split
  · exact ⟨{ h with once := h.once.ignore _ }, hp⟩
  · rename_i hfree
    rw [if_neg hfree] at hw hs hpc
    have honce : Once es (s.rebase (collectBase s q)) := h.once
    refine ⟨⟨hw, hs, h.noFec, honce.storePacket buf q, h.trace, fun _ => ?_⟩, hpc⟩
    rw [collectBase]
    split
    · simp
    · by_cases hslot : s.slot s.base = s.slot q <;> simp_all

theorem inOrder_step (h : InOrder es s) (conn : Conn) (e : BufferRef × Seq)
    (hfit : CollectFits s e.2) : InOrder (es ++ [e]) (insertStep conn s e) := by
  obtain ⟨buf, q⟩ := e
  rw [insertStep]
  cases hp : s.reorder.phase with
  | notStarted =>
    rw [InOrder, if_neg (by simp [hp])] at h
    rw [insert_of_notStarted hp, InOrder, if_neg (by simp [startCollecting])]
    exact h.resetBytes.startCollecting hp buf q
  | collecting =>
    rw [InOrder, if_neg (by simp [hp])] at h
    obtain ⟨hc, hpc⟩ := h.resetBytes.collectPacket hp buf hfit
    rw [insert_of_collecting hp]
    split
    · rw [InOrder, if_pos (by rw [flushConsecutive_phase]; rfl)]
      exact (hc.activate hpc).flushConsecutive conn
    · rw [InOrder, if_neg (by simp [hpc])]
      exact hc
  | active =>
    rw [InOrder, if_pos hp] at h
    have h0 : Ordered es (fun _ => False) s.resetBytes :=
      { h with win := ⟨h.win.place, h.win.near⟩ }
    rw [insert_of_active hp, InOrder, if_pos (by rw [insertActive_phase]; exact hp)]
    exact h0.insertActive conn buf q

theorem inOrder_run (conn : Conn) (useFec : Bool)
    (h : Along (insertStep conn) (fun s e => CollectFits s e.2) (.init useFec FecContext.zero) es) :
    InOrder es (run (insertStep conn) (.init useFec FecContext.zero) es) := by
  have h0 : InOrder [] (.init useFec FecContext.zero) := by
    obtain ⟨hw, hs⟩ := windowed_init useFec FecContext.zero
    rw [InOrder, if_neg (by simp [StreamContext.init, rtpReorderInit])]
    refine ⟨hw, hs, rfl, fun b q => ?_, rfl, by simp [StreamContext.init, rtpReorderInit]⟩
    rw [if_neg (by simp [Holds, StreamContext.init, rtpReorderInit])]
    exact Nat.zero_le _
  have hstep : ∀ past s e, InOrder past s → CollectFits s e.2 →
      InOrder (past ++ [e]) (insertStep conn s e) := fun past s e hs hok =>
    inOrder_step hs conn e hok
  simpa using run_history hstep h0 h

theorem InOrder.count_le (h : InOrder es s) (p : BufferRef × Seq) :
    (deliveries s.trace).count p ≤ es.count p := by
  obtain ⟨buf, q⟩ := p
  have honce : Once es s := by
    rw [InOrder] at h
    split at h
    · exact h.once
    · exact h.once
  have := honce buf q
  rw [deliveries, count_reverse]
  omega

/-- In every run without FEC whose collected packets fit into one window, no packet is
    delivered more often than it came in or under another number than its own, and the
    numbers increase from the base where the collecting phase ended. -/
theorem deliveries_in_order (conn : Conn) (useFec : Bool) (es : List (BufferRef × Seq))
    (h : Along (insertStep conn) (fun s e => CollectFits s e.2) (.init useFec FecContext.zero) es) :
    let tr := (run (insertStep conn) (.init useFec FecContext.zero) es).trace
    (∀ p, (deliveries tr).count p ≤ es.count p) ∧ ((deliveries tr).map Prod.snd).IsChain SerialLt ∧
      (∀ p ∈ (deliveries tr).head?, firstBase tr = some p.2) := by
  have hinv := inOrder_run conn useFec h
  generalize run (insertStep conn) (.init useFec FecContext.zero) es = s at hinv ⊢
  refine ⟨hinv.count_le, ?_⟩
  rw [InOrder] at hinv
  split at hinv
  · refine ⟨?_, ?_⟩
    · rw [deliveries, map_reverse, isChain_reverse]
      exact hinv.chain
    · rw [deliveries, head?_reverse]
      exact hinv.first
  · simp [deliveries, hinv.trace]

/-- The packets 0, 33, 2, …, 7, told apart by their ids. -/
def misplacedRun : List (BufferRef × Seq) :=
  [0, 33, 2, 3, 4, 5, 6, 7].map (fun n => (⟨n, [], 0, 0⟩, BitVec.ofNat 16 n))

/-- Packet 33 is delivered as number 1. -/
theorem misplaced_delivery :
    ¬ ∀ p, (deliveries (run (insertStep (fun _ => 0)) (.init false FecContext.zero)
      misplacedRun).trace).count p ≤ misplacedRun.count p := by
  intro h
  exact absurd (h (⟨33, [], 0, 0⟩, 1)) (by decide)

/-- Nine packets in a window, one of them late. -/
theorem deliveries_in_order_nine : (Along (insertStep (fun _ => 0)) (fun s e => CollectFits s e.2)
      (.init false FecContext.zero)
      ([0, 2, 1, 3, 4, 5, 6, 7, 3].map (fun n => (⟨n, [], 0, 0⟩, BitVec.ofNat 16 n)))) ∧
    ∀ p, (deliveries (run (insertStep (fun _ => 0)) (.init false FecContext.zero)
        ([0, 2, 1, 3, 4, 5, 6, 7, 3].map
          (fun n => (⟨n, [], 0, 0⟩, BitVec.ofNat 16 n)))).trace).count p ≤
      ([0, 2, 1, 3, 4, 5, 6, 7, 3].map (fun n => (⟨n, [], 0, 0⟩, BitVec.ofNat 16 n))).count p := by
  have h : Along (insertStep (fun _ => 0)) (fun s e => CollectFits s e.2)
      (.init false FecContext.zero)
      ([0, 2, 1, 3, 4, 5, 6, 7, 3].map (fun n => (⟨n, [], 0, 0⟩, BitVec.ofNat 16 n))) := by
    decide
  exact ⟨h, (deliveries_in_order _ _ _ h).1⟩

end Apackage.Rtp2httpd
