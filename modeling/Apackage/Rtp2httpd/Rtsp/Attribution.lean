import Apackage.Rtp2httpd.Rtsp.Steps

/-
  Which request a response is taken to answer.

  `CSeq` is not compared: a response answers what the flags and the state say. `Owed` says that
  they agree with the requests that have no answer. A teardown resets the flags, or keeps them
  for a new connection, whatever has been sent before.
-/

namespace Apackage.Rtp2httpd.Rtsp

open List Option Lib.Run Control

/-- Every response that answers a request has been taken to answer one of its kind. -/
def Attributed (answers : List Answer) : Prop :=
  ∀ a ∈ answers, ∀ r, a.request = some r → a.takenFor = some r.kind
  deriving Decidable

/-- The flags of a connection that has nothing to answer. -/
def Control.Unowed (c : Control) : Prop :=
  c.awaitingResponse = false ∧ c.awaitingKeepaliveResponse = false ∧ c.keepalivePending = false

structure Owed (c : Control) : Prop where
  answers : Attributed c.answers
  shut : ¬c.Open → c.Unowed
  keepalive : c.awaitingKeepaliveResponse = true → c.awaitingResponse = true
  /-- The response that is awaited is the one to the only request without an answer. -/
  owed : c.awaitingResponse = true → ∀ k, c.socket = some k →
    ∃ r, k.unanswered = [r] ∧ c.takenFor = some r.kind
  none_owed : c.awaitingResponse = false → ∀ k, c.socket = some k → k.unanswered = []
  /-- The request that is to be sent will be answered as what it is. -/
  pending : c.Open → 0 < c.pendingRequestLen →
    c.awaitingResponse = false ∧ c.completed.takenFor = some c.pendingRequest.kind

variable {c : Control}

theorem Owed.setOut (hc : Owed c) (out : Bool) : Owed (c.setOut out) :=
  { hc with
    owed := fun ha k hk => by
      obtain ⟨k', hk', rfl⟩ := map_eq_some_iff.1 hk
      exact hc.owed ha k' hk'
    none_owed := fun ha k hk => by
      obtain ⟨k', hk', rfl⟩ := map_eq_some_iff.1 hk
      exact hc.none_owed ha k' hk' }

/-- The states that send a request, and its kind; a keepalive is sent in `PLAYING`. -/
def sendingKinds : List (RtspState × RequestKind) :=
  [(.sendingOptions, .options), (.sendingDescribe, .describe), (.sendingSetup, .setup),
    (.sendingPlay, .play), (.sendingTeardown, .teardown)]

theorem owed_prepare {r : RtspRequest} {next : RtspState} {kind : RequestKind}
    (hanswers : Attributed c.answers) (hflags : c.Unowed)
    (hnone : ∀ k, c.socket = some k → k.unanswered = []) (hr : Fresh r kind c)
    (hsends : (next, kind) ∈ sendingKinds) : Owed (c.prepare r next) := by
  obtain ⟨ha, hk, hp⟩ := hflags
  refine
    { answers := hanswers
      shut := fun h => absurd ?_ h
      keepalive := fun h => absurd (hk.symm.trans h) (by decide)
      owed := fun h => absurd (ha.symm.trans h) (by decide)
      none_owed := fun _ => hnone
      pending := fun _ _ => ⟨ha, ?_⟩ }
  · have hopen : ∀ p ∈ sendingKinds, p.1 ≠ .connecting ∧ p.1 ≠ .reconnecting := by decide
    exact hopen _ hsends
  · have hflag : (c.prepare r next).completed.awaitingKeepaliveResponse = false := by
      show (c.awaitingKeepaliveResponse || c.keepalivePending) = false
      rw [hk, hp]
      rfl
    show (c.prepare r next).completed.takenFor = some r.kind
    unfold Control.takenFor
    rw [hflag, if_neg (by decide), hr.kind]
    simp only [sendingKinds, List.mem_cons, not_mem_nil, or_false, Prod.mk.injEq] at hsends
    rcases hsends with ⟨rfl, rfl⟩ | ⟨rfl, rfl⟩ | ⟨rfl, rfl⟩ | ⟨rfl, rfl⟩ | ⟨rfl, rfl⟩ <;> rfl

theorem Owed.dialed (hc : Owed c) (h : c.Unowed) {next : RtspState}
    (hnext : next = .connecting ∨ next = .reconnecting) : Owed (c.dialed next) where
  answers := hc.answers
  shut := fun _ => h
  keepalive := hc.keepalive
  owed := fun ha => absurd (h.1.symm.trans ha) (by decide)
  none_owed := fun _ k hk => by
    obtain rfl := some.inj hk
    rfl
  pending := fun hopen => (hnext.elim hopen.1 hopen.2).elim

theorem Owed.restate (hc : Owed c) {next : RtspState} (ha : c.awaitingResponse = false)
    (hlen : c.pendingRequestLen = 0) (hopen : next ≠ .connecting ∧ next ≠ .reconnecting) :
    Owed { c with state := next } where
  answers := hc.answers
  shut := fun h => absurd hopen h
  keepalive := hc.keepalive
  owed := fun h => absurd (ha.symm.trans h) (by decide)
  none_owed := hc.none_owed
  pending := fun _ h => absurd (show 0 < c.pendingRequestLen from h) (by omega)

theorem Owed.completed (hc : Owed c) (h : c.Open) (hlen : 0 < c.pendingRequestLen) :
    Owed c.completed where
  answers := hc.answers
  shut := fun hshut => absurd (awaitingState_opened h) hshut
  keepalive := fun _ => rfl
  owed := by
    intro _ k hk
    obtain ⟨k', hk', rfl⟩ := map_eq_some_iff.1 hk
    obtain ⟨ha, hkind⟩ := hc.pending h hlen
    refine ⟨c.pendingRequest, ?_, hkind⟩
    rw [hc.none_owed ha k' hk', nil_append]
  none_owed := nofun
  pending := fun _ h => absurd h (Nat.lt_irrefl 0)

theorem Owed.answered (hc : Owed c) (h : c.Open) (ha : c.awaitingResponse = true) :
    Owed c.answered where
  answers := by
    intro a hmem r hr
    rcases mem_append.1 hmem with hmem | hmem
    · exact hc.answers a hmem r hr
    · obtain rfl := mem_singleton.1 hmem
      cases hsocket : c.socket with
      | none =>
        rw [hsocket] at hr
        cases hr
      | some k =>
        obtain ⟨q, hq, hkind⟩ := hc.owed ha k hsocket
        rw [hsocket] at hr
        have hr : k.unanswered.head? = some r := hr
        rw [hq] at hr
        obtain rfl := some.inj hr
        exact hkind
  shut := fun hshut => absurd h hshut
  keepalive := nofun
  owed := nofun
  none_owed := by
    intro _ k hk
    obtain ⟨k', hk', rfl⟩ := map_eq_some_iff.1 hk
    obtain ⟨q, hq, -⟩ := hc.owed ha k' hk'
    rw [hq]
    rfl
  pending := fun hopen hlen => absurd ((hc.pending hopen hlen).1.symm.trans ha) (by decide)

theorem Follows.sends {from_ next : RtspState} {kind : RequestKind} (h : Follows from_ kind next) :
    (next, kind) ∈ sendingKinds := by
  cases h <;> decide

theorem Repeats.sends {from_ next : RtspState} {kind : RequestKind} (h : Repeats from_ kind next) :
    (next, kind) ∈ sendingKinds := by
  cases h <;> decide

theorem Settled.unowed (hs : Settled c) (ha : c.awaitingResponse = false)
    (hplayed : c.state ∉ playedStates) : c.Unowed := by
  refine ⟨ha, ?_, ?_⟩
  · cases hk : c.awaitingKeepaliveResponse with
    | false => rfl
    | true => exact absurd (hs.keepalive hk) hplayed
  · cases hp : c.keepalivePending with
    | false => rfl
    | true => exact absurd (hs.pending hp).2 hplayed

theorem Owed.idle (hc : Owed c) (ha : c.awaitingResponse = false) :
    c.awaitingKeepaliveResponse = false := by
  cases hk : c.awaitingKeepaliveResponse with
  | false => rfl
  | true => exact absurd (ha.symm.trans (hc.keepalive hk)) (by decide)

theorem Routine.owed {c c' : Control} (h : Routine c c') (hs : Settled c) (hc : Owed c) :
    Owed c' := by
  cases h with
  | close =>
    exact
      { answers := hc.answers
        shut := fun _ => ⟨rfl, rfl, rfl⟩
        keepalive := nofun
        owed := nofun
        none_owed := nofun
        pending := fun _ h => absurd h (Nat.lt_irrefl 0) }
  | redial _ h => exact hc.dialed (hc.shut h) (not_open h)
  | greet h hr =>
    have hflags := hc.shut fun hopen => hopen.1 h
    exact (owed_prepare hc.answers hflags (hc.none_owed hflags.1) hr (by decide)).setOut true
  | bid h ht hr =>
    have hflags := hc.shut fun hopen => hopen.2 h
    exact (owed_prepare hc.answers hflags (hc.none_owed hflags.1) hr (by decide)).setOut true
  | take h hn =>
    exact
      { hc with
        owed := fun ha k hk => by
          obtain ⟨k', hk', rfl⟩ := map_eq_some_iff.1 hk
          exact hc.owed ha k' hk'
        none_owed := fun ha k hk => by
          obtain ⟨k', hk', rfl⟩ := map_eq_some_iff.1 hk
          exact hc.none_owed ha k' hk' }
  | complete h _ hlen => exact hc.completed h hlen
  | arm => exact hc.setOut true
  | answer h ha => exact hc.answered h ha
  | park => exact { hc with }
  | retreat h ha => exact hc.restate ha (hs.idle (by rw [h]; decide)) ⟨nofun, nofun⟩
  | proceed h ha hr =>
    have hflags := hs.unowed ha h.state.2.2.2
    have hc' : Owed ({ c with describeWaitingForStun := false }.prepare _ _) :=
      owed_prepare hc.answers hflags (hc.none_owed ha) ⟨hr.kind, hr.cseq, hr.text⟩ h.sends
    exact hc'.setOut true
  | play h ha => exact hc.restate ha (hs.idle (by rw [h]; decide)) ⟨nofun, nofun⟩
  | keepalive h hlen ha hp hk hr =>
    refine Owed.setOut ?_ true
    exact
      { answers := hc.answers
        shut := fun h => absurd ⟨nofun, nofun⟩ h
        keepalive := hc.keepalive
        owed := fun h => absurd (ha.symm.trans h) (by decide)
        none_owed := hc.none_owed
        pending := fun _ _ => ⟨ha, (if_pos (Bool.or_true _)).trans (congrArg some hr.kind.symm)⟩ }
  | waste r parked hlen =>
    exact { hc with
      pending := fun _ h => absurd (show 0 < c.pendingRequestLen from h) (by omega) }

theorem ControlMoves.owed {retries redirects : Prop} {c c' : Control}
    (h : ControlMoves retries redirects c c') (hs : Settled c) (hc : Owed c) : Owed c' := by
  induction h with
  | refl => exact hc
  | @tail b c' hpath hmove ih =>
    have hb : Settled b := ControlMoves.settled hpath hs
    rcases hmove with hmove | ⟨-, hrepeats, ha, -, hr⟩ | ⟨-, hmove⟩
    · exact hmove.owed hb ih
    · have hflags := hb.unowed ha hrepeats.state.2.2.2
      exact owed_prepare ih.answers hflags (ih.none_owed ha) hr hrepeats.sends
    · cases hmove with
      | mk _ _ ha hp hk => exact ih.dialed ⟨ha, hk, hp⟩ (.inl rfl)

theorem TeardownBegun.owed {here again : Prop} {c c' : Control}
    (h : TeardownBegun here again c c') (hc : Owed c) (hhere : here → c.awaitingResponse = false)
    (hagain : again → c.awaitingResponse = false ∧ c.keepalivePending = false) : Owed c' := by
  cases h with
  | prepared h hprepared hr =>
    have hc' : Owed ({ c.forgotten with teardownRequested := true }.prepare _ .sendingTeardown) :=
      owed_prepare hc.answers ⟨rfl, rfl, rfl⟩ (hc.none_owed (hhere hprepared))
        ⟨hr.kind, hr.cseq, hr.text⟩ (by decide)
    exact hc'.setOut true
  | redialed _ _ hredialed =>
    obtain ⟨ha, hp⟩ := hagain hredialed
    have hc' : Owed { c with teardownRequested := true } := { hc with }
    exact hc'.dialed ⟨ha, hc.idle ha, hp⟩ (.inr rfl)

/-! ## The session -/

/-- The event begins a teardown while the response to a keepalive is awaited, or connects again
    for it while a keepalive is to be sent or answered. -/
def ConfusesResponses (s : RtspSession) : RtspEvent → Prop
  | .cleanup o =>
    s.initialized = true ∧ s.state = .playing ∧ (TeardownHere o s ∧ s.awaitingResponse = true ∨
        TeardownAgain o s ∧ (s.awaitingResponse = true ∨ s.keepalivePending = true))
  | _ => False

instance (s : RtspSession) (e : RtspEvent) : Decidable (ConfusesResponses s e) :=
  match e with
  | .socket _ _ => isFalse id
  | .stun _ => isFalse id
  | .tick _ _ _ => isFalse id
  | .cleanup _ => inferInstanceAs (Decidable (_ ∧ _ ∧ (_ ∧ _ ∨ _ ∧ (_ ∨ _))))
  | .resume _ => isFalse id
  | .destroy => isFalse id

theorem owed_step {s : RtspSession} {e : RtspEvent} (hs : Settled s.control) (hc : Owed s.control)
    (h : ¬ConfusesResponses s e) : Owed (rtspStep s e).control := by
  rcases step_moves hs e with hmoves | ⟨o, rfl, hlive, hbegun⟩
  · exact hmoves.owed hs hc
  · have hstate : s.state = .playing := hbegun.state
    refine hbegun.owed hc (fun hhere => ?_) fun hagain => ?_
    · show s.awaitingResponse = false
      by_contra ha
      exact h ⟨hlive, hstate, .inl ⟨hhere, by simpa using ha⟩⟩
    · have hnot : ¬(s.awaitingResponse = true ∨ s.keepalivePending = true) :=
        fun hor => h ⟨hlive, hstate, .inr ⟨hagain, hor⟩⟩
      show s.awaitingResponse = false ∧ s.keepalivePending = false
      simpa [not_or] using hnot

/-- In a run in which no teardown begins while a keepalive is outstanding, every response is
    taken to answer the request that it answers. -/
theorem responses_attributed (username : Bytes) (r2hDuration metadataProbe : Bool)
    (c : ConnectOutcome) (es : List RtspEvent)
    (h : Along rtspStep (fun s e => ¬ConfusesResponses s e)
      (rtspStart username r2hDuration metadataProbe c) es) :
    Attributed (run rtspStep (rtspStart username r2hDuration metadataProbe c) es).answers := by
  have hinit : Owed (rtspSessionInit username r2hDuration metadataProbe).control :=
    { answers := nofun
      shut := fun _ => ⟨rfl, rfl, rfl⟩
      keepalive := nofun
      owed := nofun
      none_owed := nofun
      pending := fun _ h => absurd h (Nat.lt_irrefl 0) }
  have hstart : Owed (rtspStart username r2hDuration metadataProbe c).control := by
    rcases control_rtspStart username r2hDuration metadataProbe c with heq | heq
    · rw [heq]
      exact hinit
    · rw [heq]
      exact hinit.dialed ⟨rfl, rfl, rfl⟩ (.inl rfl)
  have hrun := run_invariant (I := fun s : RtspSession => Settled s.control ∧ Owed s.control)
    (fun _ e hs hok => ⟨settled_step hs.1 e, owed_step hs.1 hs.2 hok⟩)
    ⟨settled_start username r2hDuration metadataProbe c, hstart⟩ h
  exact hrun.2.answers

/-- A keepalive is sent and answered; then the session is torn down. -/
theorem responses_attributed_keepalive :
    Attributed (run rtspStep (rtspStart [] false false oneAddress)
      (handshake ++ [keepaliveDue, exchange okResponse, stopped, exchange okResponse])).answers :=
  responses_attributed [] false false oneAddress _ (by decide)

/-- The response to a keepalive completes the teardown. -/
theorem keepalive_completes_teardown :
    ¬∀ (username : Bytes) (r2hDuration metadataProbe : Bool) (c : ConnectOutcome)
      (es : List RtspEvent),
        Attributed (run rtspStep (rtspStart username r2hDuration metadataProbe c) es).answers :=
  fun h =>
    absurd
      (h [] false false oneAddress
        (handshake ++ [keepaliveDue, sendSome 4096, stopped, exchange okResponse]))
      (by decide)

end Apackage.Rtp2httpd.Rtsp
