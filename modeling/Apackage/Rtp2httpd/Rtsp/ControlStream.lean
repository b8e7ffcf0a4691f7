import Mathlib.Data.List.Sublists
import Apackage.Rtp2httpd.Rtsp.Steps

/-
  The bytes that are sent on a control connection.

  All requests share one buffer. `Streamed` says that the connection has been sent complete
  requests and the part of the pending one that has been sent. A request is prepared only when
  no other is half sent, except by a teardown, which replaces a half-sent keepalive.
-/

namespace Apackage.Rtp2httpd.Rtsp

open List Option Lib.Run Control

def texts (rs : List RtspRequest) : Bytes := rs.flatMap (·.text)

/-- Complete requests, each prepared after the one before it, and then a part of one more. -/
def WellFormedStream (prepared : List RtspRequest) (wire : Bytes) : Prop :=
  ∃ rs ∈ prepared.sublists, rs.Pairwise (fun q r => q.cseq < r.cseq) ∧
    texts rs.dropLast <+: wire ∧ wire <+: texts rs
  deriving Decidable

theorem texts_append (rs rs' : List RtspRequest) : texts (rs ++ rs') = texts rs ++ texts rs' :=
  flatMap_append

variable (rs : List RtspRequest)

theorem texts_snoc (r : RtspRequest) : texts (rs ++ [r]) = texts rs ++ r.text := by
  rw [texts_append, texts, texts, flatMap_singleton]

theorem texts_dropLast_prefix : texts rs.dropLast <+: texts rs := by
  obtain ⟨rest, hrest⟩ := dropLast_prefix rs
  exact ⟨texts rest, by rw [← texts_append, hrest]⟩

/-! ## The invariant -/

/-- The requests are numbered in order, until the numbers wrap. -/
def Control.Numbered (c : Control) : Prop :=
  c.numbered + 1 < 2 ^ 32 →
    c.cseq.toNat = c.numbered + 1 ∧ c.prepared.Pairwise (fun q r => q.cseq < r.cseq) ∧
      ∀ r ∈ c.prepared, r.cseq < c.cseq

/-- No request is half sent. -/
def Control.Between (c : Control) : Prop :=
  ∀ k, c.socket = some k → ∃ whole, whole.Sublist c.prepared ∧ k.wire = texts whole

structure Streamed (c : Control) : Prop where
  numbers : c.initialized = true → c.Numbered
  shut : ¬c.Open → ∀ k, c.socket = some k → k.wire = []
  sent : c.pendingRequestLen = 0 → c.pendingRequestSent = 0
  len : 0 < c.pendingRequestLen → c.pendingRequestLen = c.pendingRequest.text.length
  wire : c.Open → ∀ k, c.socket = some k → ∃ whole, whole.Sublist c.prepared ∧
    k.wire = texts whole ++ c.pendingRequest.text.take c.pendingRequestSent ∧
      (0 < c.pendingRequestLen → (whole ++ [c.pendingRequest]).Sublist c.prepared)

variable {c : Control}

theorem between_shut (hc : Streamed c) (h : ¬c.Open) : c.Between :=
  fun k hk => ⟨[], nil_sublist _, hc.shut h k hk⟩

/-- A request that is not half sent has not been sent, or has been sent completely. -/
theorem Streamed.between (hc : Streamed c) (hopen : c.Open)
    (h : ¬(0 < c.pendingRequestSent ∧ c.pendingRequestSent < c.pendingRequestLen)) : c.Between := by
  intro k hk
  obtain ⟨whole, hsub, hwire, hpending⟩ := hc.wire hopen k hk
  by_cases hsent : c.pendingRequestSent = 0
  · rw [hsent, take_zero, append_nil] at hwire
    exact ⟨whole, hsub, hwire⟩
  · have hlen : 0 < c.pendingRequestLen := by
      by_contra hzero
      exact hsent (hc.sent (by omega))
    have hall : c.pendingRequest.text.length ≤ c.pendingRequestSent := by
      have := hc.len hlen
      omega
    refine ⟨whole ++ [c.pendingRequest], hpending hlen, ?_⟩
    rw [hwire, texts_snoc, take_of_length_le hall]

variable {r : RtspRequest}

theorem Numbered.prepare {kind : RequestKind} {next : RtspState} (hc : c.Numbered)
    (hr : Fresh r kind c) : (c.prepare r next).Numbered := by
  intro hlt
  have hlt : c.numbered + 1 + 1 < 2 ^ 32 := hlt
  obtain ⟨hcseq, hpairwise, hbound⟩ := hc (by omega)
  have hnext : (c.cseq + 1).toNat = c.numbered + 1 + 1 := by
    rw [UInt32.toNat_add, hcseq]
    exact Nat.mod_eq_of_lt hlt
  have hself : r.cseq < c.cseq + 1 := by
    rw [UInt32.lt_iff_toNat_lt, hnext, hr.cseq, hcseq]
    omega
  refine ⟨hnext, ?_, fun q hq => ?_⟩
  · refine pairwise_append.2 ⟨hpairwise, pairwise_singleton _ _, fun q hq r' hr' => ?_⟩
    rw [mem_singleton.1 hr', hr.cseq]
    exact hbound q hq
  · rcases mem_append.1 hq with hq | hq
    · have hlt' := UInt32.lt_iff_toNat_lt.1 (hbound q hq)
      show q.cseq < c.cseq + 1
      rw [UInt32.lt_iff_toNat_lt, hnext]
      omega
    · rw [mem_singleton.1 hq]
      exact hself

theorem Streamed.prepare {kind : RequestKind} (hc : Streamed c) (hbetween : c.Between)
    (hr : Fresh r kind c) (next : RtspState) (hopen : next ≠ .connecting ∧ next ≠ .reconnecting) :
    Streamed (c.prepare r next) where
  numbers := fun hlive => Numbered.prepare (hc.numbers hlive) hr
  shut := fun h => absurd hopen h
  sent := fun _ => rfl
  len := fun _ => rfl
  wire := by
    intro _ k hk
    obtain ⟨whole, hsub, hwire⟩ := hbetween k hk
    refine ⟨whole, hsub.trans (sublist_append_left _ _), ?_, fun _ => ?_⟩
    · rw [hwire]
      exact (append_nil _).symm
    · exact hsub.append (List.Sublist.refl _)

theorem Streamed.setOut (hc : Streamed c) (out : Bool) : Streamed (c.setOut out) :=
  { hc with
    shut := fun h k hk => by
      obtain ⟨k', hk', rfl⟩ := map_eq_some_iff.1 hk
      exact hc.shut h k' hk'
    wire := fun h k hk => by
      obtain ⟨k', hk', rfl⟩ := map_eq_some_iff.1 hk
      exact hc.wire h k' hk' }

theorem Streamed.dialed (hc : Streamed c) {next : RtspState}
    (h : next = .connecting ∨ next = .reconnecting) : Streamed (c.dialed next) where
  numbers := hc.numbers
  shut := fun _ k hk => by
    obtain rfl := Option.some.inj hk
    rfl
  sent := hc.sent
  len := hc.len
  wire := fun hopen => (h.elim hopen.1 hopen.2).elim

theorem Streamed.restate (hc : Streamed c) {next : RtspState} (hopen : c.Open)
    (hnext : next ≠ .connecting ∧ next ≠ .reconnecting) : Streamed { c with state := next } :=
  { hc with
    shut := fun h => absurd hnext h
    wire := fun _ => hc.wire hopen }

theorem open_of_awaits (h : c.state ∈ awaitStates) : c.Open := by
  constructor
  · intro heq
    rw [heq] at h
    exact absurd h (by decide)
  · intro heq
    rw [heq] at h
    exact absurd h (by decide)

theorem Streamed.between_awaits (hc : Streamed c) (hs : Settled c) (h : c.state ∈ awaitStates) :
    c.Between :=
  hc.between (open_of_awaits h) fun hhalf => by
    have := hs.idle h
    omega

theorem Streamed.took (hc : Streamed c) (h : c.Open) {n : ℕ}
    (hn : c.pendingRequestSent + n ≤ c.pendingRequestLen) : Streamed (c.took n) :=
  { hc with
    shut := fun hshut => absurd h hshut
    sent := fun hlen => by
      have hlen : c.pendingRequestLen = 0 := hlen
      show c.pendingRequestSent + n = 0
      omega
    wire := fun _ k hk => by
      obtain ⟨k', hk', rfl⟩ := map_eq_some_iff.1 hk
      obtain ⟨whole, hsub, hwire, hpending⟩ := hc.wire h k' hk'
      refine ⟨whole, hsub, ?_, hpending⟩
      show k'.wire ++ (c.pendingRequest.text.drop c.pendingRequestSent).take n =
        texts whole ++ c.pendingRequest.text.take (c.pendingRequestSent + n)
      rw [hwire, append_assoc, take_add] }

theorem Streamed.completed (hc : Streamed c) (h : c.Open) (hlen : 0 < c.pendingRequestLen)
    (hsent : c.pendingRequestSent = c.pendingRequestLen) : Streamed c.completed where
  numbers := hc.numbers
  shut := fun hshut => absurd (awaitingState_opened h) hshut
  sent := fun _ => rfl
  len := fun h => absurd h (Nat.lt_irrefl 0)
  wire := by
    intro _ k hk
    obtain ⟨k', hk', rfl⟩ := map_eq_some_iff.1 hk
    obtain ⟨whole, hsub, hwire, hpending⟩ := hc.wire h k' hk'
    refine ⟨whole ++ [c.pendingRequest], hpending hlen, ?_, fun h => absurd h (Nat.lt_irrefl 0)⟩
    show k'.wire = texts (whole ++ [c.pendingRequest]) ++ c.pendingRequest.text.take 0
    rw [hwire, texts_snoc, hsent, hc.len hlen, take_length, take_zero, append_nil]

theorem Streamed.wasted (hc : Streamed c) (r : RtspRequest) (parked : Bool)
    (hlen : c.pendingRequestLen = 0) :
    Streamed { c with
      cseq := c.cseq + 1
      numbered := c.numbered + 1
      pendingRequest := r
      describeWaitingForStun := parked } where
  numbers := by
    intro hlive hlt
    have hlt : c.numbered + 1 + 1 < 2 ^ 32 := hlt
    obtain ⟨hcseq, hpairwise, hbound⟩ := hc.numbers hlive (by omega)
    have hnext : (c.cseq + 1).toNat = c.numbered + 1 + 1 := by
      rw [UInt32.toNat_add, hcseq]
      exact Nat.mod_eq_of_lt hlt
    refine ⟨hnext, hpairwise, fun q hq => ?_⟩
    have hlt' := UInt32.lt_iff_toNat_lt.1 (hbound q hq)
    rw [UInt32.lt_iff_toNat_lt, hnext]
    omega
  shut := hc.shut
  sent := hc.sent
  len := fun h => absurd (show 0 < c.pendingRequestLen from h) (by omega)
  wire := by
    intro hopen k hk
    obtain ⟨whole, hsub, hwire, -⟩ := hc.wire hopen k hk
    refine ⟨whole, hsub, ?_, fun h => absurd (show 0 < c.pendingRequestLen from h) (by omega)⟩
    rw [hc.sent hlen, take_zero] at hwire
    rw [hc.sent hlen, take_zero, hwire]

theorem Routine.streamed {c c' : Control} (h : Routine c c') (hs : Settled c) (hc : Streamed c) :
    Streamed c' := by
  cases h with
  | close =>
    exact
      { numbers := nofun
        shut := nofun
        sent := fun _ => rfl
        len := fun h => absurd h (Nat.lt_irrefl 0)
        wire := nofun }
  | redial _ h => exact hc.dialed (not_open h)
  | greet h hr =>
    have hshut : ¬c.Open := fun hopen => hopen.1 h
    exact (hc.prepare (between_shut hc hshut) hr .sendingOptions (by decide)).setOut true
  | bid h ht hr =>
    have hshut : ¬c.Open := fun hopen => hopen.2 h
    exact (hc.prepare (between_shut hc hshut) hr .sendingTeardown (by decide)).setOut true
  | take h hn => exact hc.took h hn
  | complete h hsocket hlen hsent => exact hc.completed h hlen hsent
  | arm => exact hc.setOut true
  | answer h =>
    exact
      { hc with
        shut := fun hshut => absurd h hshut
        wire := fun _ k hk => by
          obtain ⟨k', hk', rfl⟩ := map_eq_some_iff.1 hk
          exact hc.wire h k' hk' }
  | park => exact { hc with }
  | retreat h => exact hc.restate (open_of_awaits (by rw [h]; decide)) ⟨nofun, nofun⟩
  | proceed h ha hr =>
    have hbetween := hc.between_awaits hs h.awaits
    have hc' : Streamed { c with describeWaitingForStun := false } := { hc with }
    exact (hc'.prepare hbetween ⟨hr.kind, hr.cseq, hr.text⟩ _ h.opened).setOut true
  | play h => exact hc.restate (open_of_awaits (by rw [h]; decide)) ⟨nofun, nofun⟩
  | keepalive h hlen ha hp hk hr =>
    have hopen : c.Open := ⟨by rw [h]; nofun, by rw [h]; nofun⟩
    have hbetween := hc.between hopen fun hhalf => by omega
    have hc' : Streamed { c with keepalivePending := true } := { hc with }
    exact (hc'.prepare hbetween ⟨hr.kind, hr.cseq, hr.text⟩ .playing (by decide)).setOut true
  | waste r parked hlen => exact hc.wasted r parked hlen

theorem ControlMoves.streamed {retries redirects : Prop} {c c' : Control}
    (h : ControlMoves retries redirects c c') (hs : Settled c) (hc : Streamed c) :
    Streamed c' := by
  induction h with
  | refl => exact hc
  | @tail b c' hpath hmove ih =>
    have hb : Settled b := ControlMoves.settled hpath hs
    rcases hmove with hmove | ⟨-, hrepeats, -, -, hr⟩ | ⟨-, hmove⟩
    · exact hmove.streamed hb ih
    · exact ih.prepare (ih.between_awaits hb hrepeats.awaits) hr _ hrepeats.opened
    · cases hmove
      exact ih.dialed (.inl rfl)

theorem TeardownBegun.streamed {here again : Prop} {c c' : Control}
    (h : TeardownBegun here again c c') (hc : Streamed c)
    (hwhole : here → ¬(0 < c.pendingRequestSent ∧ c.pendingRequestSent < c.pendingRequestLen)) :
    Streamed c' := by
  cases h with
  | prepared h hhere hr =>
    have hopen : c.Open := ⟨by rw [h]; nofun, by rw [h]; nofun⟩
    have hbetween := hc.between hopen (hwhole hhere)
    have hc' : Streamed { c.forgotten with teardownRequested := true } := { hc with }
    exact (hc'.prepare hbetween ⟨hr.kind, hr.cseq, hr.text⟩ .sendingTeardown
      (by decide)).setOut true
  | redialed =>
    have hc' : Streamed { c with teardownRequested := true } := { hc with }
    exact hc'.dialed (.inr rfl)

/-! ## The session -/

/-- The session right after an event has sent: the loop of `rtsp_try_send_pending` is the only
    place that sends requests. -/
def afterSend (s : RtspSession) : RtspEvent → RtspSession
  | .socket ev o =>
    if !s.initialized ∨ s.socket = none then s
    else
      match connectPhase ev o s with
      | (s, true) =>
        if ev.output ∧ 0 < s.pendingRequestLen ∧ s.pendingRequestSent < s.pendingRequestLen then
          (sendLoop o.sends s).1
        else s
      | (s, false) => s
  | _ => s

/-- What has been sent on the connection is well formed. -/
def StreamWellFormed (s : RtspSession) : Prop :=
  ∀ k, s.socket = some k → WellFormedStream s.prepared k.wire
  deriving Decidable

/-- The event prepares a teardown while a keepalive is half sent. -/
def CutsRequest (s : RtspSession) : RtspEvent → Prop
  | .cleanup o =>
    s.initialized = true ∧ s.state = .playing ∧ TeardownHere o s ∧
      0 < s.pendingRequestSent ∧ s.pendingRequestSent < s.pendingRequestLen
  | _ => False

variable {s : RtspSession}

theorem Streamed.wellFormed (hc : Streamed s.control) (hlive : s.initialized = true)
    (hnumbered : s.control.Open → s.numbered + 1 < 2 ^ 32) : StreamWellFormed s := by
  intro k hk
  by_cases hopen : s.control.Open
  · obtain ⟨whole, hsub, hwire, hpending⟩ := hc.wire hopen k hk
    obtain ⟨-, hpairwise, -⟩ := hc.numbers hlive (hnumbered hopen)
    by_cases hlen : 0 < s.control.pendingRequestLen
    · refine ⟨whole ++ [s.pendingRequest], mem_sublists.2 (hpending hlen),
        hpairwise.sublist (hpending hlen), ?_, ?_⟩
      · simp [*]
      · rw [hwire, texts_snoc]
        exact (prefix_append_right_inj _).2 ( take_prefix _ _)
    · have hsent := hc.sent (Nat.eq_zero_of_not_pos hlen)
      rw [hsent, take_zero, append_nil] at hwire
      refine ⟨whole, mem_sublists.2 hsub, hpairwise.sublist hsub, ?_, ?_⟩
      · rw [hwire]
        exact texts_dropLast_prefix whole
      · exact hwire ▸ prefix_rfl
  · refine ⟨[], mem_sublists.2 (nil_sublist _), List.Pairwise.nil, ?_, ?_⟩
    · exact nil_prefix
    · rw [hc.shut hopen k hk]
      exact nil_prefix

theorem Routine.numbered_le {c c' : Control} (h : Routine c c') (hlive : c'.initialized = true) :
    c'.numbered ≤ c.numbered + 1 := by
  cases h with
  | close => cases hlive
  | greet => exact Nat.le_refl _
  | bid => exact Nat.le_refl _
  | proceed => exact Nat.le_refl _
  | keepalive => exact Nat.le_refl _
  | waste => exact Nat.le_refl _
  | _ => exact Nat.le_succ _

theorem AtMostOne.numbered_le {c c' : Control} (h : AtMostOne c c')
    (hlive : c'.initialized = true) : c'.numbered ≤ c.numbered + 1 := by
  cases h with
  | refl => exact Nat.le_succ _
  | single hmove => exact hmove.numbered_le hlive

theorem afterSend_wellFormed (hs : Settled s.control) (hc : Streamed s.control)
    (hnumbered : s.numbered + 2 < 2 ^ 32) (e : RtspEvent) : StreamWellFormed (afterSend s e) := by
  have hself : StreamWellFormed s := by
    cases hlive : s.initialized with
    | false =>
      intro k hk
      cases (hs.gone hlive).symm.trans hk
    | true => exact hc.wellFormed hlive fun _ => by omega
  cases e with
  | socket ev o =>
    unfold afterSend
    dsimp only
    by_cases hends : (!s.initialized) = true ∨ s.socket = none
    · rw [if_pos hends]
      exact hself
    · rw [if_neg hends]
      have hlive : s.initialized = true := by
        cases hlive : s.initialized with
        | true => rfl
        | false => exact absurd (.inl (by rw [hlive]; rfl)) hends
      have hsocket : s.socket ≠ none := fun h => hends (.inr h)
      have hphase := connectPhase_phase ev o hlive hs hsocket
      generalize connectPhase ev o s = p at hphase ⊢
      obtain ⟨t, goes⟩ := p
      have hmoves : ControlMoves False False s.control t.control := hphase.moves.moves
      have ht := hmoves.streamed hs hc
      have hnumbered' : t.initialized = true → t.numbered + 1 < 2 ^ 32 := by
        intro hlive'
        have hle : t.numbered ≤ s.numbered + 1 := hphase.moves.numbered_le hlive'
        omega
      cases goes with
      | false =>
        cases hlive' : t.initialized with
        | false =>
          intro k hk
          cases ((hmoves.settled hs).gone hlive').symm.trans hk
        | true => exact ht.wellFormed hlive' fun _ => hnumbered' hlive'
      | true =>
        have hlive' := hphase.live rfl
        dsimp only
        split
        · rename_i hpending
          have hsending : Sending False False t.control t :=
            ⟨.refl, rfl, rfl, id, rfl, rfl, rfl, rfl, rfl, Nat.le_of_lt hpending.2.2⟩
          have hwell : ∀ u : RtspSession, Sending False False t.control u → StreamWellFormed u := by
            intro u hu
            have hnumbers : u.numbered = t.numbered := hu.numbered
            exact (hu.moves.streamed (hmoves.settled hs) ht).wellFormed (hu.live.trans hlive')
              fun _ => by have := hnumbered' hlive'; omega
          rcases sendLoop_spec (hphase.opened rfl) o.sends hsending with
            ⟨-, hu⟩ | ⟨-, u, hu, heq⟩
          · exact hwell _ hu
          · rw [heq]
            exact hwell u hu
        · exact ht.wellFormed hlive' fun _ => hnumbered' hlive'
  | stun => exact hself
  | tick => exact hself
  | cleanup => exact hself
  | resume => exact hself
  | destroy => exact hself

theorem streamed_step {e : RtspEvent} (hs : Settled s.control) (hc : Streamed s.control)
    (hcut : ¬CutsRequest s e) : Streamed (rtspStep s e).control := by
  rcases step_moves hs e with hmoves | ⟨o, rfl, hlive, hbegun⟩
  · exact hmoves.streamed hs hc
  · refine hbegun.streamed hc fun hhere hhalf => hcut ?_
    exact ⟨hlive, hbegun.state, hhere, hhalf⟩

theorem streamed_start (username : Bytes) (r2hDuration metadataProbe : Bool)
    (c : ConnectOutcome) : Streamed (rtspStart username r2hDuration metadataProbe c).control := by
  have hinit : Streamed (rtspSessionInit username r2hDuration metadataProbe).control :=
    { numbers := fun _ _ => ⟨rfl, List.Pairwise.nil, nofun⟩
      shut := nofun
      sent := fun _ => rfl
      len := fun h => absurd h (Nat.lt_irrefl 0)
      wire := nofun }
  rcases control_rtspStart username r2hDuration metadataProbe c with heq | heq
  · rw [heq]
    exact hinit
  · rw [heq]
    exact hinit.dialed (.inl rfl)

/-- In a run in which no teardown cuts a half-sent request, and until the request numbers wrap,
    what has been sent on a connection is well formed whenever something has been sent. -/
theorem control_stream_wellFormed (username : Bytes) (r2hDuration metadataProbe : Bool)
    (c : ConnectOutcome) (es : List RtspEvent)
    (h : Along rtspStep (fun s e => ¬CutsRequest s e ∧ s.numbered + 2 < 2 ^ 32)
      (rtspStart username r2hDuration metadataProbe c) es) :
    Along rtspStep (fun s e => StreamWellFormed (afterSend s e))
      (rtspStart username r2hDuration metadataProbe c) es :=
  along_invariant (I := fun s : RtspSession => Settled s.control ∧ Streamed s.control)
    (fun _ e hs hok => ⟨settled_step hs.1 e, streamed_step hs.1 hs.2 hok.1⟩)
    (fun _ e hs hok => afterSend_wellFormed hs.1 hs.2 hok.2 e)
    ⟨settled_start username r2hDuration metadataProbe c,
      streamed_start username r2hDuration metadataProbe c⟩ h

instance (s : RtspSession) (e : RtspEvent) : Decidable (CutsRequest s e) :=
  match e with
  | .socket _ _ => isFalse id
  | .stun _ => isFalse id
  | .tick _ _ _ => isFalse id
  | .cleanup _ => inferInstanceAs (Decidable (_ ∧ _ ∧ _ ∧ _ ∧ _))
  | .resume _ => isFalse id
  | .destroy => isFalse id

/-- A keepalive is sent in two parts, and answered; then the session is torn down. -/
theorem control_stream_keepalive : Along rtspStep (fun s e => StreamWellFormed (afterSend s e))
      (rtspStart [] false false oneAddress)
      (handshake ++ [keepaliveDue, sendSome 10, exchange okResponse, stopped, exchange okResponse]) :=
  control_stream_wellFormed [] false false oneAddress _ (by decide +kernel)

/-- Ten bytes of a keepalive are followed by a TEARDOWN request. -/
theorem keepalive_cut :
    ¬∀ (username : Bytes) (r2hDuration metadataProbe : Bool) (c : ConnectOutcome)
      (es : List RtspEvent), Along rtspStep (fun s e => StreamWellFormed (afterSend s e))
        (rtspStart username r2hDuration metadataProbe c) es := fun h =>
  absurd
    (h [] false false oneAddress
      (handshake ++ [keepaliveDue, sendSome 10, stopped, exchange okResponse]))
    (by decide +kernel)

end Apackage.Rtp2httpd.Rtsp
