import Apackage.Rtp2httpd.Fcc.Session

/-
  The hand-over from the FCC unicast stream to multicast.

  Over any interleaving of datagrams, notifications, responses, ticks and promotions it loses and
  repeats nothing and asks for termination at the first multicast RTP packet, if and only if the
  datagram that causes the request is an RTP packet (`handsOver_iff`). `fcc_handle_mcast_transition`
  sends the request for the first datagram that is not malformed; an in-band FEC packet or a
  datagram without an RTP header leaves `seqn = 0`, and that 0 is recorded.
-/

namespace Apackage.Rtp2httpd.Fcc

open List Lib.Serial Lib.Run

/-- The datagram is an RTP media packet. -/
def rtpMedia (buf : BufferRef) : Bool :=
  match rtpGetPayload buf.payload with
  | .rtp _ _ _ => true
  | _ => false

/-- Sequence number of the first RTP media packet. -/
def firstMediaSeqn (l : List BufferRef) : Option Seq := (l.find? rtpMedia).map transitionSeqn

/-- The media among datagrams with their origin. -/
def mediaOf (l : List (BufferRef × Origin)) : List (BufferRef × Origin) :=
  l.filter (carriesMedia ·.1)

def tagged (origin : Origin) (l : List BufferRef) : List (BufferRef × Origin) :=
  l.map fun b => (b, origin)

variable (origin : Origin)

@[simp] theorem tagged_nil : tagged origin [] = [] := rfl

@[simp] theorem tagged_append (l m : List BufferRef) :
    tagged origin (l ++ m) = tagged origin l ++ tagged origin m := map_append

@[simp] theorem mediaOf_append (l m : List (BufferRef × Origin)) :
    mediaOf (l ++ m) = mediaOf l ++ mediaOf m := filter_append l m

variable {b : BufferRef}

theorem mediaOf_single_of_not (h : carriesMedia b = false) (origin : Origin) :
    mediaOf (tagged origin [b]) = [] := by
  simp [mediaOf, tagged, h]

theorem not_carriesMedia_of_malformed (h : rtpGetPayload b.payload = .malformed) :
    carriesMedia b = false := by
  simp [carriesMedia, h]

theorem rtpMedia_of_carriesMedia (h : carriesMedia b = false) : rtpMedia b = false := by
  unfold carriesMedia at h
  unfold rtpMedia
  split <;> simp_all

/-- Nothing is lost or repeated so far: what was handed over, and what is still buffered,
    are the unicast media up to the switch and then the multicast media. -/
structure HandedOver (s : FccContext) : Prop where
  term : s.fcc.termSent = true → firstMediaSeqn s.mcastIn = some s.fcc.termSeqn
  recorded : s.fcc.pendingList ≠ [] → s.fcc.termSent = true
  complete : s.failed = false → mediaOf (s.handed ++ tagged .fccMulticast s.fcc.pendingList) =
      mediaOf (tagged .fccUnicast s.unicastIn ++ tagged .fccMulticast s.mcastIn)
  failed : s.failed = true → s.handed = tagged .fccUnicast s.unicastIn ∧ s.fcc.pendingList = []

/-- The whole run: at every point of it nothing is lost or repeated, after the switch no
    unicast packet is handed over, and the first multicast datagram after the switch leaves
    nothing buffered. -/
def HandsOver (conn : Conn) (s : FccContext) (es : List FccEvent) : Prop :=
  ∀ es₁ es₂, es₁ ++ es₂ = es → let t := run (fccStep conn) s es₁
    HandedOver t ∧ (t.fcc.state = .mcastActive →
        ∃ l, (run (fccStep conn) s es).handed = t.handed ++ l ∧ ∀ x ∈ l, x.2 = .fccMulticast) ∧
      (t.fcc.state = .mcastActive → t.failed = false → ∀ b sent,
        t.joined = true → (fccStep conn t (.mcast b sent)).fcc.pendingList = [])

/-- This datagram causes the termination request. -/
def requestsTermination (s : FccContext) (b : BufferRef) (sent : Bool) : Prop :=
  s.joined = true ∧ s.failed = false ∧ s.fcc.state = .mcastRequested ∧ s.fcc.termSent = false ∧
    sent = true ∧ rtpGetPayload b.payload ≠ .malformed
  deriving Decidable

/-- The termination request is caused by an RTP media packet. -/
def RtpFirst (s : FccContext) : FccEvent → Prop
  | .mcast b sent => requestsTermination s b sent → rtpMedia b = true
  | _ => True

instance (s : FccContext) : ∀ e, Decidable (RtpFirst s e)
  | .mcast _ _ => inferInstanceAs (Decidable (_ → _))
  | .unicast _ _ | .syncNotification _ | .response _ _ | .tick _ | .promote
  | .enablePrivateFec => inferInstanceAs (Decidable True)

/-! ## What each operation does -/

section Operations

variable (conn : Conn) (origin : Origin) (ctx : FccContext) (b : BufferRef)

@[simp] theorem setState_eq (st : FccState) :
    fccSessionSetState st ctx = { ctx with fcc := { ctx.fcc with state := st } } := rfl

@[simp] theorem process_fcc : (streamProcessRtpPayload conn origin ctx b).fcc = ctx.fcc := rfl

@[simp] theorem process_handed :
    (streamProcessRtpPayload conn origin ctx b).handed = ctx.handed ++ tagged origin [b] := rfl

@[simp] theorem process_flags : (streamProcessRtpPayload conn origin ctx b).joined = ctx.joined ∧
    (streamProcessRtpPayload conn origin ctx b).failed = ctx.failed ∧
    (streamProcessRtpPayload conn origin ctx b).batched = ctx.batched := ⟨rfl, rfl, rfl⟩

@[simp] theorem process_received :
    (streamProcessRtpPayload conn origin ctx b).unicastIn = ctx.unicastIn ∧
    (streamProcessRtpPayload conn origin ctx b).mcastIn = ctx.mcastIn := ⟨rfl, rfl⟩

theorem foldl_process (l : List BufferRef) :
    ∃ st, l.foldl (streamProcessRtpPayload conn origin) ctx =
      { ctx with stream := st, handed := ctx.handed ++ tagged origin l } := by
  induction l generalizing ctx with
  | nil => exact ⟨ctx.stream, by simp⟩
  | cons a l ih =>
    obtain ⟨st, h⟩ := ih (streamProcessRtpPayload conn origin ctx a)
    refine ⟨st, ?_⟩
    rw [foldl_cons, h]
    simp [streamProcessRtpPayload, tagged]

theorem mcastActive_eq : ∃ st, fccHandleMcastActive conn ctx b = { ctx with
        fcc := { ctx.fcc with pendingList := [] }
        stream := st
        handed := ctx.handed ++ tagged .fccMulticast (ctx.fcc.pendingList ++ [b]) } := by
  obtain ⟨st, h⟩ := foldl_process conn .fccMulticast ctx ctx.fcc.pendingList
  refine ⟨(fccHandleMcastActive conn ctx b).stream, ?_⟩
  unfold fccHandleMcastActive flushPending
  rw [h]
  simp only [streamProcessRtpPayload, tagged_append, append_assoc]
  rfl

/-- `fcc_handle_unicast_media` hands the datagram over, and may switch to multicast once the
    termination number is reached. -/
theorem unicastMedia_eq (h : ctx.fcc.state ≠ .mcastActive) :
    ∃ st state, fccHandleUnicastMedia conn ctx b = { ctx with
        fcc := { ctx.fcc with state := state }
        stream := st
        handed := ctx.handed ++ tagged .fccUnicast [b] } ∧
      (state = ctx.fcc.state ∨ ctx.fcc.state = .unicastPending ∧ state = .unicastActive ∨
        ctx.fcc.termSent = true ∧ state = .mcastActive) := by
  unfold fccHandleUnicastMedia
  rw [if_neg h]
  dsimp only
  set c := if ctx.fcc.state = .unicastPending then fccSessionSetState .unicastActive ctx
    else ctx with hc
  have hstate : c = { ctx with fcc := { ctx.fcc with state := c.fcc.state } } ∧
      (c.fcc.state = ctx.fcc.state ∨
        ctx.fcc.state = .unicastPending ∧ c.fcc.state = .unicastActive) := by
    rw [hc]
    split
    · exact ⟨rfl, .inr ⟨‹_›, rfl⟩⟩
    · exact ⟨rfl, .inl rfl⟩
  obtain ⟨heq, hcase⟩ := hstate
  split
  · rename_i hreach
    have hsent : ctx.fcc.termSent = true := by
      have : c.fcc.termSent = true := by simp [termReached] at hreach; exact hreach.1.1.1
      rw [heq] at this
      exact this
    refine ⟨(streamProcessRtpPayload conn .fccUnicast c b).stream, .mcastActive, ?_,
      .inr (.inr ⟨hsent, rfl⟩)⟩
    rw [heq]
    rfl
  · refine ⟨(streamProcessRtpPayload conn .fccUnicast c b).stream, c.fcc.state, ?_,
      hcase.elim .inl (fun h => .inr (.inl h))⟩
    rw [heq]
    rfl

variable {s : FccContext} (sent : Bool)

/-- The three paths of a multicast datagram to a live subscription. -/
theorem deliver_batched (hf : s.failed = false) (hb : s.batched = true) :
    mcastDeliverPacket conn sent s b =
      if carriesMedia b then { s with handed := s.handed ++ [(b, .fccMulticast)] } else s := by
  simp [mcastDeliverPacket, hf, hb]

theorem deliver_requested (hf : s.failed = false) (hb : s.batched = false)
    (hst : s.fcc.state = .mcastRequested) :
    mcastDeliverPacket conn sent s b = fccHandleMcastTransition sent s b := by
  simp [mcastDeliverPacket, hf, hb, hst]

theorem deliver_active (hf : s.failed = false) (hb : s.batched = false)
    (hst : s.fcc.state = .mcastActive) :
    mcastDeliverPacket conn sent s b = fccHandleMcastActive conn s b := by
  simp [mcastDeliverPacket, hf, hb, hst]

end Operations

/-! ## Steps that only move the state machine -/

def inMcast (st : FccState) : Prop := st = .mcastRequested ∨ st = .mcastActive

/-- The step changes the state, the clocks and the subscription only. It never leaves
    `MCAST_ACTIVE`, and subscribes exactly in the multicast states. -/
def Moves (s s' : FccContext) : Prop :=
  ∃ st ust ldt j, s' = { s with
      fcc := { s.fcc with state := st, unicastStartTime := ust, lastDataTime := ldt }
      joined := j } ∧
    (s.fcc.state = .mcastActive → st = .mcastActive) ∧
    ((s.joined = true ↔ inMcast s.fcc.state) → (j = true ↔ inMcast st)) ∧
    (s.joined = true → j = true)

section Moves

variable {s t u : FccContext}

theorem Moves.refl (s : FccContext) : Moves s s :=
  ⟨s.fcc.state, s.fcc.unicastStartTime, s.fcc.lastDataTime, s.joined, rfl, id, id, id⟩

theorem Moves.trans (h₁ : Moves s t) (h₂ : Moves t u) : Moves s u := by
  obtain ⟨st, ust, ldt, j, rfl, ha, hj, hk⟩ := h₁
  obtain ⟨st', ust', ldt', j', rfl, ha', hj', hk'⟩ := h₂
  exact ⟨st', ust', ldt', j', rfl, fun h => ha' (ha h), fun h => hj' (hj h), fun h => hk' (hk h)⟩

variable (now : ℤ)

theorem moves_noteData (s : FccContext) : Moves s (noteData now s) :=
  ⟨s.fcc.state, s.fcc.unicastStartTime, now, s.joined, rfl, id, id, id⟩

theorem moves_fallBack (s : FccContext) : Moves s (fallBack s) :=
  ⟨.mcastActive, s.fcc.unicastStartTime, s.fcc.lastDataTime, true, rfl, fun _ => rfl,
    fun _ => by simp [inMcast], fun _ => rfl⟩

theorem moves_sync (s : FccContext) : Moves s (fccHandleSyncNotification s) := by
  unfold fccHandleSyncNotification
  split
  · exact Moves.refl s
  · rename_i h
    exact ⟨.mcastRequested, s.fcc.unicastStartTime, s.fcc.lastDataTime, true, rfl,
      fun ha => absurd (.inr ha) h, fun _ => by simp [inMcast], fun _ => rfl⟩

theorem moves_tickTimeouts (s : FccContext) : Moves s (tickTimeouts now s) := by
  unfold tickTimeouts
  dsimp only
  split
  all_goals first
    | exact Moves.refl s
    | (split
       · exact moves_fallBack s
       · exact Moves.refl s)

theorem moves_tick (s : FccContext) : Moves s (fccSessionTick now s) := by
  refine (moves_tickTimeouts now s).trans ?_
  unfold fccSessionTick
  dsimp only
  split
  · exact moves_sync _
  · exact Moves.refl _

theorem moves_response (s : FccContext) (r : FccResponse) :
    Moves s (fccHandleServerResponse now s r) := by
  unfold fccHandleServerResponse
  split
  · exact Moves.refl s
  · rename_i h
    rw [not_not] at h
    have hna : ¬ inMcast s.fcc.state := by simp [inMcast, h]
    have hset : ∀ st ust ldt, ¬ inMcast st → Moves s { s with
        fcc := { s.fcc with state := st, unicastStartTime := ust, lastDataTime := ldt } } :=
      fun st ust ldt hst => ⟨st, ust, ldt, s.joined, rfl, fun ha => absurd (.inr ha) hna,
        fun hj => by rw [hj]; exact iff_of_false hna hst, id⟩
    cases r with
    | ignored => exact Moves.refl s
    | fallBack => exact moves_fallBack s
    | accepted => exact hset .unicastPending now s.fcc.lastDataTime (by simp [inMcast])
    | redirect requested =>
      cases requested with
      | false => exact hset .init _ _ (by simp [inMcast])
      | true => exact hset .requested _ now (by simp [inMcast])

end Moves

/-! ## The invariant -/

/-- What holds of every session, whatever arrives. -/
structure Inv (s : FccContext) : Prop where
  joined : s.joined = true ↔ inMcast s.fcc.state
  batched : s.batched = true → s.fcc.state = .mcastActive ∧ s.fcc.pendingList = []
  early : s.fcc.state ≠ .mcastActive → s.handed = tagged .fccUnicast s.unicastIn
  unjoined : s.joined = false → s.mcastIn = []
  sent : s.fcc.termSent = true → s.joined = true
  unsent : s.fcc.termSent = false → s.failed = false → s.fcc.state = .mcastRequested →
    ∀ b ∈ s.mcastIn, rtpMedia b = false
  recorded : s.fcc.pendingList ≠ [] → s.fcc.termSent = true
  complete : s.failed = false → mediaOf (s.handed ++ tagged .fccMulticast s.fcc.pendingList) =
      mediaOf (tagged .fccUnicast s.unicastIn ++ tagged .fccMulticast s.mcastIn)
  failed : s.failed = true → s.handed = tagged .fccUnicast s.unicastIn ∧ s.fcc.pendingList = []

/-- The recorded number is the one of the first multicast RTP media packet. -/
def TermRight (s : FccContext) : Prop :=
  s.fcc.termSent = true → firstMediaSeqn s.mcastIn = some s.fcc.termSeqn

variable {s : FccContext}

theorem Inv.handedOver (h : Inv s) : HandedOver s ↔ TermRight s :=
  ⟨fun h => h.term, fun ht => ⟨ht, h.recorded, h.complete, h.failed⟩⟩

theorem Inv.start (stream : StreamContext) (now : ℤ) : Inv (FccContext.start stream now) := by
  constructor <;> simp [FccContext.start, inMcast]

theorem Inv.move {s s' : FccContext} (h : Inv s) (hm : Moves s s') : Inv s' := by
  obtain ⟨st, ust, ldt, j, rfl, ha, hj, hk⟩ := hm
  have hj := hj h.joined
  refine ⟨hj, fun hb => ⟨ha (h.batched hb).1, (h.batched hb).2⟩, fun hna => ?_, fun hf => ?_,
    fun ht => hk (h.sent ht), fun ht hf hst b hb => ?_, h.recorded, h.complete, h.failed⟩
  · exact h.early fun hact => hna (ha hact)
  · exact h.unjoined (by by_contra hjt; simp [hk (by simpa using hjt)] at hf)
  · cases hjs : s.joined with
    | false => simp [h.unjoined hjs] at hb
    | true =>
      have hstate : s.fcc.state = .mcastRequested := by
        rcases h.joined.1 hjs with hr | hact
        · exact hr
        · have : st = .mcastActive := ha hact
          simp [this] at hst
      exact h.unsent ht hf hstate b hb

section

variable (h : Inv s)

include h

theorem Inv.pending_eq (hact : s.fcc.state ≠ .mcastActive) (hf : s.failed = false) :
    mediaOf (tagged .fccMulticast s.fcc.pendingList) =
      mediaOf (tagged .fccMulticast s.mcastIn) := by
  have hc := h.complete hf
  rw [h.early hact, mediaOf_append, mediaOf_append] at hc
  exact append_cancel_left hc

theorem Inv.unicast (conn : Conn) (b : BufferRef) :
    Inv (fccHandleUnicastMedia conn (recordUnicast b s) b) := by
  by_cases hact : s.fcc.state = .mcastActive
  · simp only [recordUnicast, if_pos hact, fccHandleUnicastMedia]
    exact h
  have hearly := h.early hact
  set r : FccContext := { s with unicastIn := s.unicastIn ++ [b] } with hr
  have hrec : recordUnicast b s = r := by rw [recordUnicast, if_neg hact, hr]
  obtain ⟨st, state, heq, hcase⟩ := unicastMedia_eq conn r b hact
  rw [hrec, heq]
  have hhanded : s.handed ++ tagged .fccUnicast [b] = tagged .fccUnicast (s.unicastIn ++ [b]) := by
    rw [hearly, tagged_append]
  have hin : inMcast s.fcc.state ↔ inMcast state := by
    rcases hcase with hc | ⟨hp, hc⟩ | ⟨ht, hc⟩
    · rw [hc]
    · have hp : s.fcc.state = .unicastPending := hp
      simp [inMcast, hp, hc]
    · exact iff_of_true (h.joined.1 (h.sent ht)) (by simp [inMcast, hc])
  refine ⟨h.joined.trans hin, fun hb => absurd (h.batched hb).1 hact, fun _ => hhanded,
    h.unjoined, h.sent, fun ht hf hst => h.unsent ht hf ?_, h.recorded, fun hf => ?_,
    fun hf => ⟨hhanded, (h.failed hf).2⟩⟩
  · rcases hcase with hc | ⟨_, hc⟩ | ⟨_, hc⟩
    · exact hc.symm.trans hst
    · simp [hc] at hst
    · simp [hc] at hst
  · rw [hhanded, mediaOf_append, mediaOf_append, h.pending_eq hact hf]

/-- A multicast datagram handed over at once, after what was buffered. -/
theorem Inv.handOver (b : BufferRef) (stream : StreamContext) (hf : s.failed = false)
    (hact : s.fcc.state = .mcastActive) :
    Inv { s with
      mcastIn := s.mcastIn ++ [b]
      fcc := { s.fcc with pendingList := [] }
      stream := stream
      handed := s.handed ++ tagged .fccMulticast (s.fcc.pendingList ++ [b]) } := by
  refine ⟨h.joined, fun _ => ⟨hact, rfl⟩, fun hna => absurd hact hna, fun hj => ?_, h.sent,
    fun _ _ hst => ?_, fun hp => absurd rfl hp, fun _ => ?_, fun hft => ?_⟩
  · exact absurd ((h.joined.2 (.inr hact)).symm.trans hj) (by decide)
  · exact absurd (hact.symm.trans hst) (by decide)
  · have hc := h.complete hf
    simp only [tagged_append, mediaOf_append, tagged_nil, append_nil] at hc ⊢
    rw [← append_assoc, hc, append_assoc]
  · exact absurd (hf.symm.trans hft) (by decide)

theorem Inv.skip (hj : s.joined = true) (hb : carriesMedia b = false) :
    Inv { s with mcastIn := s.mcastIn ++ [b] } := by
  refine ⟨h.joined, h.batched, h.early, fun hjf => ?_, h.sent, fun ht hf hst c hc => ?_,
    h.recorded, fun hf => ?_, h.failed⟩
  · exact absurd (hj.symm.trans hjf) (by decide)
  · rcases mem_append.1 hc with hc | hc
    · exact h.unsent ht hf hst c hc
    · rw [mem_singleton.1 hc]
      exact rtpMedia_of_carriesMedia hb
  · have hc := h.complete hf
    rw [hc, tagged_append, mediaOf_append, mediaOf_append, mediaOf_append,
      mediaOf_single_of_not hb, append_nil]

theorem Inv.buffer (b : BufferRef) (seqn : Seq) (hj : s.joined = true) (hf : s.failed = false)
    (hst : s.fcc.state = .mcastRequested) :
    Inv { s with
      mcastIn := s.mcastIn ++ [b]
      fcc := { s.fcc with
        termSeqn := seqn, termSent := true, pendingList := s.fcc.pendingList ++ [b] } } := by
  refine ⟨h.joined, fun hb => ?_, h.early, fun hjf => ?_, fun _ => hj, fun ht => ?_,
    fun _ => rfl, fun _ => ?_, fun hft => ?_⟩
  · exact absurd (hst.symm.trans (h.batched hb).1) (by decide)
  · exact absurd (hj.symm.trans hjf) (by decide)
  · cases ht
  · have hc := h.complete hf
    simp only [tagged_append, mediaOf_append] at hc ⊢
    rw [← append_assoc, hc, append_assoc]
  · exact absurd (hf.symm.trans hft) (by decide)

theorem Inv.fail (b : BufferRef) (seqn : Seq) (hj : s.joined = true)
    (hst : s.fcc.state = .mcastRequested) (ht : s.fcc.termSent = false) :
    Inv { s with
      mcastIn := s.mcastIn ++ [b]
      failed := true
      fcc := { s.fcc with termSeqn := seqn, termSent := false } } := by
  have hpend : s.fcc.pendingList = [] := by
    by_contra hp
    rw [h.recorded hp] at ht
    cases ht
  have hearly := h.early (by rw [hst]; decide)
  refine ⟨h.joined, h.batched, h.early, fun hjf => ?_, fun _ => hj, fun _ hft => ?_,
    fun hp => absurd hpend hp, fun hft => ?_, fun _ => ⟨hearly, hpend⟩⟩
  · exact absurd (hj.symm.trans hjf) (by decide)
  · cases hft
  · cases hft

/-- What a multicast datagram does to a live subscription: it is skipped, handed over at
    once, buffered, or fails the subscription. -/
theorem mcastStep_cases (conn : Conn) (b : BufferRef) (sent : Bool) (hj : s.joined = true)
    (hf : s.failed = false) :
    (carriesMedia b = false ∧ ¬ requestsTermination s b sent ∧
      (s.fcc.state = .mcastActive → s.fcc.pendingList = []) ∧
      fccStep conn s (.mcast b sent) = { s with mcastIn := s.mcastIn ++ [b] }) ∨
    (s.fcc.state = .mcastActive ∧ ∃ st, fccStep conn s (.mcast b sent) = { s with
        mcastIn := s.mcastIn ++ [b]
        fcc := { s.fcc with pendingList := [] }
        stream := st
        handed := s.handed ++ tagged .fccMulticast (s.fcc.pendingList ++ [b]) }) ∨
    (s.fcc.state = .mcastRequested ∧ (s.fcc.termSent = false → requestsTermination s b sent) ∧
      fccStep conn s (.mcast b sent) = { s with
          mcastIn := s.mcastIn ++ [b]
          fcc := { s.fcc with
            termSeqn := if s.fcc.termSent then s.fcc.termSeqn else transitionSeqn b
            termSent := true
            pendingList := s.fcc.pendingList ++ [b] } }) ∨
    (s.fcc.state = .mcastRequested ∧ s.fcc.termSent = false ∧ sent = false ∧
      fccStep conn s (.mcast b sent) = { s with
          mcastIn := s.mcastIn ++ [b]
          failed := true
          fcc := { s.fcc with termSeqn := transitionSeqn b, termSent := false } }) := by
  have hstep : fccStep conn s (.mcast b sent) =
      mcastDeliverPacket conn sent { s with mcastIn := s.mcastIn ++ [b] } b := by
    simp [fccStep, hj, recordMcast, hf]
  rw [hstep]
  set r : FccContext := { s with mcastIn := s.mcastIn ++ [b] } with hr
  by_cases hb : s.batched = true
  · obtain ⟨hact, hpend⟩ := h.batched hb
    have hfcc : ({ s.fcc with pendingList := [] } : FccSession) = s.fcc := by rw [← hpend]
    rw [deliver_batched conn b sent (s := r) hf hb]
    by_cases hs : carriesMedia b = true
    · refine .inr (.inl ⟨hact, s.stream, ?_⟩)
      rw [if_pos hs, hpend, hfcc]
      rfl
    · refine .inl ⟨by simpa using hs, fun hreq => ?_, fun _ => hpend, by rw [if_neg hs]⟩
      exact absurd (hreq.2.2.1.symm.trans hact) (by decide)
  rw [Bool.not_eq_true] at hb
  rcases h.joined.1 hj with hreq | hact
  · rw [deliver_requested conn b sent (s := r) hf hb hreq]
    unfold fccHandleMcastTransition
    by_cases hm : rtpGetPayload b.payload = .malformed
    · rw [if_pos hm]
      exact .inl ⟨not_carriesMedia_of_malformed hm, fun hcause => hcause.2.2.2.2.2 hm,
        fun hact => absurd (hreq.symm.trans hact) (by decide), rfl⟩
    rw [if_neg hm]
    by_cases ht : s.fcc.termSent = true
    · refine .inr (.inr (.inl ⟨hreq, fun hts => absurd (ht.symm.trans hts) (by decide), ?_⟩))
      simp [fccSendTerminationMessage, hr, ht]
    · rw [Bool.not_eq_true] at ht
      cases hsent : sent with
      | true =>
        refine .inr (.inr (.inl ⟨hreq, fun _ => ⟨hj, hf, hreq, ht, rfl, hm⟩, ?_⟩))
        simp [fccSendTerminationMessage, hr, ht]
      | false =>
        refine .inr (.inr (.inr ⟨hreq, ht, rfl, ?_⟩))
        simp [fccSendTerminationMessage, hr, ht]
  · rw [deliver_active conn b sent (s := r) hf hb hact]
    exact .inr (.inl ⟨hact, mcastActive_eq conn r b⟩)

end

variable (conn : Conn)

theorem inv_step (h : Inv s) (e : FccEvent) : Inv (fccStep conn s e) := by
  cases e with
  | unicast b now => exact (h.move (moves_noteData now s)).unicast conn b
  | syncNotification now => exact h.move ((moves_noteData now s).trans (moves_sync _))
  | response r now => exact h.move ((moves_noteData now s).trans (moves_response now _ r))
  | tick now => exact h.move (moves_tick now s)
  | mcast b sent =>
    by_cases hj : s.joined = true
    · by_cases hf : s.failed = true
      · have hsame : fccStep conn s (.mcast b sent) = s := by
          simp [fccStep, hj, recordMcast, mcastDeliverPacket, hf]
        rw [hsame]
        exact h
      rw [Bool.not_eq_true] at hf
      obtain ⟨hb, _, _, heq⟩ | ⟨hact, st, heq⟩ | ⟨hreq, _, heq⟩ | ⟨hreq, ht, _, heq⟩ :=
        mcastStep_cases h conn b sent hj hf
      · rw [heq]; exact h.skip hj hb
      · rw [heq]; exact h.handOver b st hf hact
      · rw [heq]; exact h.buffer b _ hj hf hreq
      · rw [heq]; exact h.fail b _ hj hreq ht
    · simp only [fccStep, if_neg hj]
      exact h
  | promote =>
    simp only [fccStep, promoteReady]
    split
    · rename_i hp
      exact { h with batched := fun _ => ⟨hp.2.2.1, hp.2.2.2⟩ }
    · exact h
  | enablePrivateFec => exact { h with batched := fun hb => by cases hb }

/-! ## The termination number -/

variable {l : List BufferRef}

theorem firstMediaSeqn_append_of_some {q : Seq} (b : BufferRef) (h : firstMediaSeqn l = some q) :
    firstMediaSeqn (l ++ [b]) = some q := by
  unfold firstMediaSeqn at *
  rw [Option.map_eq_some_iff] at h
  obtain ⟨a, ha, hq⟩ := h
  rw [find?_append, ha]
  simpa using hq

theorem firstMediaSeqn_append_of_none (b : BufferRef) (h : ∀ c ∈ l, rtpMedia c = false) :
    firstMediaSeqn (l ++ [b]) = if rtpMedia b then some (transitionSeqn b) else none := by
  have hnone : l.find? rtpMedia = none := find?_eq_none.2 fun c hc => by simp [h c hc]
  unfold firstMediaSeqn
  rw [find?_append, hnone]
  cases hb : rtpMedia b <;> simp [hb]

theorem Moves.termRight {s s' : FccContext} (hm : Moves s s') (h : TermRight s) : TermRight s' := by
  obtain ⟨st, ust, ldt, j, rfl, -⟩ := hm
  exact h

theorem unicast_termRight (b : BufferRef) (h : TermRight s) :
    TermRight (fccHandleUnicastMedia conn (recordUnicast b s) b) := by
  by_cases hact : s.fcc.state = .mcastActive
  · simp only [recordUnicast, if_pos hact, fccHandleUnicastMedia]
    exact h
  · obtain ⟨st, state, heq, -⟩ := unicastMedia_eq conn (recordUnicast b s) b
      (by rw [recordUnicast, if_neg hact]; exact hact)
    rw [heq, recordUnicast, if_neg hact]
    exact h

/-- A step keeps the right number exactly when the request it causes, if any, is caused by
    an RTP media packet. -/
theorem termRight_step (hI : Inv s) (e : FccEvent) (h : TermRight s) :
    TermRight (fccStep conn s e) ↔ RtpFirst s e := by
  cases e with
  | unicast b now =>
    exact iff_of_true (unicast_termRight conn b ((moves_noteData now s).termRight h)) trivial
  | syncNotification now =>
    exact iff_of_true (((moves_noteData now s).trans (moves_sync _)).termRight h) trivial
  | response r now =>
    exact iff_of_true (((moves_noteData now s).trans (moves_response now _ r)).termRight h) trivial
  | tick now => exact iff_of_true ((moves_tick now s).termRight h) trivial
  | promote =>
    refine iff_of_true ?_ trivial
    simp only [fccStep, promoteReady]
    split <;> exact h
  | enablePrivateFec => exact iff_of_true h trivial
  | mcast b sent =>
    by_cases hj : s.joined = true
    swap
    · have hsame : fccStep conn s (.mcast b sent) = s := by simp [fccStep, hj]
      rw [hsame]
      exact iff_of_true h fun hr => absurd hr.1 hj
    by_cases hf : s.failed = true
    · have hsame : fccStep conn s (.mcast b sent) = s := by
        simp [fccStep, hj, recordMcast, mcastDeliverPacket, hf]
      rw [hsame]
      exact iff_of_true h fun hr => absurd (hr.2.1.symm.trans hf) (by decide)
    rw [Bool.not_eq_true] at hf
    have hkeep : s.fcc.termSent = true → firstMediaSeqn (s.mcastIn ++ [b]) = some s.fcc.termSeqn :=
      fun ht => firstMediaSeqn_append_of_some b (h ht)
    obtain ⟨hb, hno, -, heq⟩ | ⟨hact, st, heq⟩ | ⟨hreq, hcause, heq⟩ | ⟨hreq, ht, hsent, heq⟩ :=
      mcastStep_cases hI conn b sent hj hf
    · rw [heq]
      exact iff_of_true hkeep fun hr => absurd hr hno
    · rw [heq]
      exact iff_of_true hkeep fun hr => absurd (hr.2.2.1.symm.trans hact) (by decide)
    · rw [heq]
      by_cases ht : s.fcc.termSent = true
      · refine iff_of_true (fun _ => ?_) fun hr => ?_
        · simpa [ht] using hkeep ht
        · exact absurd (ht.symm.trans hr.2.2.2.1) (by decide)
      · rw [Bool.not_eq_true] at ht
        have hfirst := firstMediaSeqn_append_of_none b (hI.unsent ht hf hreq)
        have hr : requestsTermination s b sent := hcause ht
        -- the recorded number is the one of `b`, so `b` has to be the first media packet
        show (_ → firstMediaSeqn (s.mcastIn ++ [b]) = some (if s.fcc.termSent then _ else _)) ↔
          (requestsTermination s b sent → rtpMedia b = true)
        rw [hfirst, ht]
        cases hb : rtpMedia b with
        | true => simp
        | false => simp [hr]
    · rw [heq]
      exact iff_of_true (fun htt => by cases htt)
        fun hr => absurd (hsent.symm.trans hr.2.2.2.2.1) (by decide)

/-! ## Whole runs -/

section

variable (hI : Inv s) (hact : s.fcc.state = .mcastActive)

include hI hact

theorem late_step (e : FccEvent) : (fccStep conn s e).fcc.state = .mcastActive ∧
      ∃ l, (fccStep conn s e).handed = s.handed ++ l ∧ ∀ x ∈ l, x.2 = .fccMulticast := by
  have hmoves : ∀ {t}, Moves s t → t.fcc.state = .mcastActive ∧
      ∃ l, t.handed = s.handed ++ l ∧ ∀ x ∈ l, x.2 = Origin.fccMulticast := by
    rintro t ⟨st, ust, ldt, j, rfl, ha, -⟩
    exact ⟨ha hact, [], (append_nil _).symm, by simp⟩
  have htagged : ∀ l : List BufferRef, ∀ x ∈ tagged .fccMulticast l, x.2 = .fccMulticast := by
    intro l x hx
    obtain ⟨b, -, rfl⟩ := List.mem_map.1 hx
    rfl
  cases e with
  | unicast b now =>
    have hsame : fccStep conn s (.unicast b now) = noteData now s := by
      have : (noteData now s).fcc.state = .mcastActive := hact
      simp [fccStep, recordUnicast, if_pos this, fccHandleUnicastMedia]
    rw [hsame]
    exact hmoves (moves_noteData now s)
  | syncNotification now => exact hmoves ((moves_noteData now s).trans (moves_sync _))
  | response r now => exact hmoves ((moves_noteData now s).trans (moves_response now _ r))
  | tick now => exact hmoves (moves_tick now s)
  | promote =>
    simp only [fccStep, promoteReady]
    split <;> exact ⟨hact, [], (append_nil _).symm, by simp⟩
  | enablePrivateFec => exact ⟨hact, [], (append_nil _).symm, by simp⟩
  | mcast b sent =>
    have hj : s.joined = true := hI.joined.2 (.inr hact)
    by_cases hf : s.failed = true
    · have hsame : fccStep conn s (.mcast b sent) = s := by
        simp [fccStep, hj, recordMcast, mcastDeliverPacket, hf]
      rw [hsame]
      exact ⟨hact, [], (append_nil _).symm, by simp⟩
    rw [Bool.not_eq_true] at hf
    obtain ⟨-, -, -, heq⟩ | ⟨-, st, heq⟩ | ⟨hreq, -⟩ | ⟨hreq, -⟩ :=
      mcastStep_cases hI conn b sent hj hf
    · simp [*]
    · rw [heq]
      exact ⟨hact, _, rfl, htagged _⟩
    · exact absurd (hreq.symm.trans hact) (by decide)
    · exact absurd (hreq.symm.trans hact) (by decide)

theorem late_run (es : List FccEvent) : ∃ l, (run (fccStep conn) s es).handed = s.handed ++ l ∧
      ∀ x ∈ l, x.2 = .fccMulticast := by
  induction es generalizing s with
  | nil => exact ⟨[], (append_nil _).symm, by simp⟩
  | cons e es ih =>
    obtain ⟨hact', l, hl, hml⟩ := late_step conn hI hact e
    obtain ⟨l', hl', hml'⟩ := ih (inv_step conn hI e) hact'
    refine ⟨l ++ l', by rw [run_cons, hl', hl, append_assoc], fun x hx => ?_⟩
    exact (mem_append.1 hx).elim (hml x) (hml' x)

theorem mcast_flushes (hf : s.failed = false) (b : BufferRef) (sent : Bool) (hj : s.joined = true) :
    (fccStep conn s (.mcast b sent)).fcc.pendingList = [] := by
  obtain ⟨-, -, hpend, heq⟩ | ⟨-, st, heq⟩ | ⟨hreq, -⟩ | ⟨hreq, -⟩ :=
    mcastStep_cases hI conn b sent hj hf
  · rw [heq]
    exact hpend hact
  · rw [heq]
  · exact absurd (hreq.symm.trans hact) (by decide)
  · exact absurd (hreq.symm.trans hact) (by decide)

end

theorem inv_run (h : Inv s) (es : List FccEvent) : Inv (run (fccStep conn) s es) := by
  induction es generalizing s with
  | nil => exact h
  | cons e es ih => exact ih (inv_step conn h e)

theorem handsOver_iff (conn : Conn) (stream : StreamContext) (now : ℤ)
    (es : List FccEvent) :
    HandsOver conn (FccContext.start stream now) es ↔
      Along (fccStep conn) RtpFirst (FccContext.start stream now) es := by
  have hI := Inv.start stream now
  have hstart : TermRight (FccContext.start stream now) := fun ht => by cases ht
  rw [← prefixes_iff_along (fun _ e h => inv_step conn h e)
    (fun _ e h hp => termRight_step conn h e hp) hI hstart es]
  refine forall_congr' fun es₁ => forall_congr' fun es₂ => imp_congr_right fun hes => ?_
  have hinv := inv_run conn hI es₁
  dsimp only
  rw [hinv.handedOver]
  refine and_iff_left ⟨fun hact => ?_, fun hact hf b sent hj =>
    mcast_flushes conn hinv hact hf b sent hj⟩
  rw [← hes, run, foldl_append]
  exact late_run conn hinv hact es₂

def strayDatagram : BufferRef := ⟨0, [1, 2, 3], 0, 3⟩

/-- An RTP media packet with sequence number 500. -/
def mediaPacket : BufferRef := ⟨1, [0x80, 33, 1, 244, 0, 0, 0, 0, 0, 0, 0, 0, 0x47], 0, 13⟩

/-- The stray datagram reaches the socket before the first media packet. -/
def strayFirst : List FccEvent :=
  [.syncNotification 10, .mcast strayDatagram true, .mcast mediaPacket true]

/-- Number 0 is recorded although the first multicast media packet has number 500. -/
theorem stray_first_not_handsOver :
    let s := FccContext.start (StreamContext.init false (fecInit 0)) 0
    let t := run (fccStep fun _ => 0) s strayFirst
    t.fcc.termSent = true ∧ t.fcc.termSeqn = 0 ∧ firstMediaSeqn t.mcastIn = some 500 ∧
      ¬ HandsOver (fun _ => 0) s strayFirst := by
  intro s t
  have hseqn : firstMediaSeqn t.mcastIn = some 500 := by decide
  refine ⟨by decide, by decide, hseqn, fun h => ?_⟩
  have hterm := (h strayFirst [] (append_nil _)).1.term (by decide)
  exact absurd (hseqn.symm.trans hterm) (by decide)

end Apackage.Rtp2httpd.Fcc
