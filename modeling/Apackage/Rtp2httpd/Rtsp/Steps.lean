import Apackage.Rtp2httpd.Rtsp.Reading

/-
  Every step of a session is a sequence of moves of its control connection, or begins its
  teardown (`step_moves`); so `Settled` holds along every run (`settled_run`).
-/

namespace Apackage.Rtp2httpd.Rtsp

open Lib.Run Control

/-! ## STUN and the tick -/

variable {s : RtspSession} (o : Outcomes)

theorem resumeDescribe_moves {retries redirects : Prop} (hs : Settled s.control)
    (hlive : s.initialized = true) (hwait : s.describeWaitingForStun = true)
    (hstun : s.stunInProgress = false) :
    ControlMoves retries redirects s.control (resumeDescribe o s).control := by
  obtain ⟨hstate, ha⟩ := hs.parked hlive hwait
  have hstate : s.state = .awaitingOptions := hstate
  have hcheck : stunCheckTimeout o s = s := by
    unfold stunCheckTimeout
    rw [hstun]
    rfl
  have hadvance := advance_awaitingOptions o hstate
  rw [hcheck, if_neg (by rw [hstun]; decide)] at hadvance
  unfold resumeDescribe
  rw [hadvance]
  by_cases hfits : Fits o .describe { s with describeWaitingForStun := false }
  · obtain ⟨hok, hcontrol⟩ := prepareThen_fits .sendingDescribe hfits (by decide)
    have hfresh := fresh_nextRequest o .describe { s with describeWaitingForStun := false }
    generalize prepareThen o .describe .sendingDescribe _ = p at hok hcontrol ⊢
    obtain ⟨s', result⟩ := p
    obtain rfl : result = .ok := hok
    rw [control_setPollerOut, hcontrol]
    have hfollows : Follows s.control.state .describe .sendingDescribe := by
      show Follows s.state _ _
      rw [hstate]
      exact .describe
    exact .single (.proceed hfollows ha ⟨hfresh.kind, hfresh.cseq, hfresh.text⟩)
  · have hidle : s.pendingRequestLen = 0 := hs.idle (by
      show s.state ∈ awaitStates
      rw [hstate]
      decide)
    unfold prepareThen rtspPrepareRequest
    rw [if_pos (Nat.le_of_not_lt hfits)]
    exact .single (.waste _ false hidle nofun)

theorem stunResponse_moves {retries redirects : Prop} (hs : Settled s.control)
    (hlive : s.initialized = true) :
    ControlMoves retries redirects s.control (stunResponse o s).control := by
  unfold stunResponse
  split
  · exact .refl
  · dsimp only
    split
    · rename_i hwait
      exact resumeDescribe_moves o (s := { s with stunInProgress := false, stunCompleted := true })
        hs hlive hwait rfl
    · exact .refl

theorem sendKeepalive_moves {retries redirects : Prop} (hstate : s.state = .playing) :
    ControlMoves retries redirects s.control (rtspSendKeepalive o s).control := by
  unfold rtspSendKeepalive
  split
  · exact .refl
  · rename_i hidle
    simp only [not_or, Nat.not_lt, Nat.le_zero, Bool.not_eq_true] at hidle
    obtain ⟨-, -, -, hlen, ha, hp, hk⟩ := hidle
    by_cases hfits : Fits o .keepalive s
    · have hfresh := fresh_nextRequest o .keepalive s
      have hplaying : s.control.state = .playing := hstate
      rw [prepareRequest_fits hfits]
      generalize nextRequest o .keepalive s = r at hfresh ⊢
      have hmove : Routine s.control _ := .keepalive hplaying hlen ha hp hk hfresh
      rw [← hplaying] at hmove
      exact .single hmove
    · unfold rtspPrepareRequest
      rw [if_pos (Nat.le_of_not_lt hfits)]
      exact .single (.waste _ _ hlen id)

theorem tickTimeout_moves (hs : Settled s.control) (hlive : s.initialized = true) :
    Routine s.control (tickTimeout s).1.control := by
  have hclose := Closable.refl hlive hs
  unfold tickTimeout
  split
  · rename_i hconnecting
    have hopen : ¬s.control.Open := fun h => hconnecting.1.elim h.1 h.2
    split
    · rename_i s' hfail
      exact connectFailure_moves hfail hlive hs hopen
    · rename_i s' hfail
      exact connectFailure_moves hfail hlive hs hopen
  · exact hclose.fail

theorem tick_moves {retries redirects : Prop} (timedOut keepaliveDue : Bool) (o : Outcomes)
    (hs : Settled s.control) (hlive : s.initialized = true) :
    ControlMoves retries redirects s.control
      (rtspSessionTick timedOut keepaliveDue o s).control := by
  unfold rtspSessionTick
  split
  · exact .single (tickTimeout_moves hs hlive)
  · dsimp only
    split
    · rename_i hstun
      simp only [Bool.and_eq_true] at hstun
      have hcheck := control_stunCheckTimeout o s
      have hchecked : (stunCheckTimeout o s).stunInProgress = false := by
        unfold stunCheckTimeout
        rw [if_pos (by simp [hstun])]
      have hresumed : ControlMoves retries redirects _ _ :=
        resumeDescribe_moves o (s := stunCheckTimeout o s) (by rw [hcheck]; exact hs)
          ((congrArg Control.initialized hcheck).trans hlive)
          ((congrArg Control.describeWaitingForStun hcheck).trans hstun.1.2) hchecked
      rw [hcheck] at hresumed
      split
      · rename_i hkeepalive
        exact hresumed.trans (sendKeepalive_moves o hkeepalive.1)
      · exact hresumed
    · split
      · rename_i hkeepalive
        exact sendKeepalive_moves o hkeepalive.1
      · exact .refl

/-! ## The control socket -/

/-- The event repeats a request after 401 that is not armed. -/
def UnarmedRetry (s : RtspSession) : RtspEvent → Prop
  | .socket ev o =>
    s.initialized = true ∧ s.socket ≠ none ∧ (connectAndWrite ev o s).2 = true ∧
      RetriesUnarmed ev o (connectAndWrite ev o s).1
  | _ => False

def FollowsRedirect (s : RtspSession) : RtspEvent → Prop
  | .socket ev o =>
    s.initialized = true ∧ s.socket ≠ none ∧ (connectAndWrite ev o s).2 = true ∧
      Redirects ev o (connectAndWrite ev o s).1
  | _ => False

instance (s : RtspSession) (e : RtspEvent) : Decidable (FollowsRedirect s e) :=
  match e with
  | .socket _ _ => inferInstanceAs (Decidable (_ ∧ _ ∧ _ ∧ _))
  | .stun _ => isFalse id
  | .tick _ _ _ => isFalse id
  | .cleanup _ => isFalse id
  | .resume _ => isFalse id
  | .destroy => isFalse id

variable (ev : PollEvents)

theorem connectAndWrite_phase {retries redirects : Prop} (o : Outcomes) (hs : Settled s.control)
    (hlive : s.initialized = true) (hsocket : s.socket ≠ none) :
    Phase (ControlMoves retries redirects) s.control (connectAndWrite ev o s) := by
  have hconnect := connectPhase_phase ev o hlive hs hsocket
  unfold connectAndWrite
  generalize connectPhase ev o s = p at hconnect ⊢
  obtain ⟨t, goes⟩ := p
  cases goes with
  | false => exact { hconnect with moves := hconnect.moves.moves }
  | true =>
    have hmoves : ControlMoves retries redirects s.control t.control := hconnect.moves.moves
    have hwrite : Phase (ControlMoves retries redirects) t.control (writePhase ev o t) :=
      writePhase_phase ev o (hconnect.live rfl) (hmoves.settled hs) (hconnect.connected rfl)
        (hconnect.opened rfl)
    exact { hwrite with moves := hmoves.trans hwrite.moves }

theorem socketEvent_moves (o : Outcomes) (hs : Settled s.control) (hlive : s.initialized = true)
    (hsocket : s.socket ≠ none) :
    ControlMoves (UnarmedRetry s (.socket ev o)) (FollowsRedirect s (.socket ev o)) s.control
        (rtspHandleSocketEvent ev o s).control ∧
      (UnarmedRetry s (.socket ev o) → ∃ t : RtspSession,
        ControlMoves False False s.control t.control ∧ t.socket ≠ none ∧
          t.awaitingResponse = true ∧ RetryUnarmed t.control.answered (rtspHandleSocketEvent ev o s).control) := by
  have hphase : Phase (ControlMoves False False) s.control (connectAndWrite ev o s) :=
    connectAndWrite_phase ev o hs hlive hsocket
  simp only [UnarmedRetry, FollowsRedirect, rtspHandleSocketEvent]
  generalize connectAndWrite ev o s = p at hphase ⊢
  obtain ⟨t, goes⟩ := p
  cases goes with
  | false => exact ⟨hphase.moves.mono False.elim False.elim, fun h => nomatch h.2.2.1⟩
  | true =>
    obtain ⟨hmoves, hretry⟩ := readPhase_moves ev o (hphase.live rfl) (hphase.moves.settled hs)
      (hphase.opened rfl)
    refine ⟨(hphase.moves.mono False.elim False.elim).trans (hmoves.mono ?_ ?_), fun h => ?_⟩
    · exact fun h => ⟨hlive, hsocket, rfl, h⟩
    · exact fun h => ⟨hlive, hsocket, rfl, h⟩
    · exact ⟨t, hphase.moves, hphase.connected rfl, h.2.2.2.2.1, hretry h.2.2.2⟩

/-! ## Teardown -/

/-- The control connection can be used for the teardown. -/
def Usable (o : Outcomes) (s : RtspSession) : Prop :=
  ¬(s.socket = none ∨ o.getsockoptFails ∨ o.sockError)

/-- The teardown is prepared for the control connection there is. -/
def TeardownHere (o : Outcomes) (s : RtspSession) : Prop := Usable o s ∧ Fits o .teardown s

/-- The connection is made again for the teardown. -/
def TeardownAgain (o : Outcomes) (s : RtspSession) : Prop := ¬Usable o s ∧ o.connect.dials = true

instance (o : Outcomes) (s : RtspSession) : Decidable (TeardownHere o s) :=
  inferInstanceAs (Decidable (¬(_ ∨ _ ∨ _) ∧ _ < _))

instance (o : Outcomes) (s : RtspSession) : Decidable (TeardownAgain o s) :=
  inferInstanceAs (Decidable (¬¬(_ ∨ _ ∨ _) ∧ _))

theorem initiateTeardown_spec {c : Control} (hs : Closable c s) :
    (¬Usable o s ∧ rtspInitiateTeardown o s = (s, .reconnect)) ∨
      (Usable o s ∧ ∃ s', rtspInitiateTeardown o s = (s', .failed) ∧ Closable c s') ∨
      (TeardownHere o s ∧ ∃ s' r, rtspInitiateTeardown o s = (s', .initiated) ∧
        Fresh r .teardown s.control ∧
        s'.control = (s.control.forgotten.prepare r .sendingTeardown).setOut true) := by
  unfold rtspInitiateTeardown
  by_cases hu : Usable o s
  · rw [if_neg hu]
    dsimp only
    generalize hforgotten : ({ s with
      keepalivePending := false
      awaitingKeepaliveResponse := false
      awaitingResponse := false } : RtspSession) = t
    have hcontrol : t.control = s.control.forgotten := by
      rw [← hforgotten]
      rfl
    have hclose : Closable c t := .of_control hcontrol hs.live hs.done hs.state hs.prepared hs.answers
    by_cases hfits : Fits o .teardown t
    · have hfresh := fresh_nextRequest o .teardown t
      rw [prepareRequest_fits hfits]
      dsimp only
      rw [setState_of_ne (by decide)]
      have hfits' : Fits o .teardown s := by
        rw [← hforgotten] at hfits
        exact hfits
      generalize nextRequest o .teardown t = r at hfresh ⊢
      refine .inr (.inr ⟨⟨hu, hfits'⟩, _, r, rfl, ?_, ?_⟩)
      · rw [hcontrol] at hfresh
        exact ⟨hfresh.kind, hfresh.cseq, hfresh.text⟩
      · rw [← hcontrol]
        rfl
    · unfold rtspPrepareRequest
      rw [if_pos (Nat.le_of_not_lt hfits)]
      exact .inr (.inl ⟨hu, _, rfl, { hclose with }⟩)
  · rw [if_pos (not_not.1 hu)]
    exact .inl ⟨hu, rfl⟩

theorem reconnectForTeardown_spec {s s' : RtspSession} {ok : Bool} (hstate : s.state = .playing)
    (h : rtspReconnectForTeardown o s = (s', ok)) :
    (ok = true → o.connect.dials = true ∧ s'.control = s.control.dialed .reconnecting) ∧
      (ok = false → ∀ c, Closable c s → Closable c s') := by
  unfold rtspReconnectForTeardown at h
  generalize hclosed : ({ s with teardownReconnectDone := true, socket := none } : RtspSession) = t at h
  have hne : t.state ≠ .reconnecting := by
    rw [← hclosed]
    rw [hstate]
    decide
  generalize hconnect : rtspConnect o.connect t = p at h
  obtain ⟨u, made⟩ := p
  cases made with
  | true =>
    obtain ⟨rfl, rfl⟩ := Prod.mk.inj h
    have hdials := (connect_spec o.connect t).1
    rw [hconnect] at hdials
    refine ⟨fun _ => ⟨hdials.symm, ?_⟩, nofun⟩
    have hcontrol := connect_ok hconnect
    rw [if_neg hne, ← hclosed] at hcontrol
    rw [setState_of_ne (by decide)]
    show { u.control with state := .reconnecting } = _
    rw [hcontrol]
    rfl
  | false =>
    obtain ⟨rfl, rfl⟩ := Prod.mk.inj h
    refine ⟨nofun, fun _ c hs => connect_failed hconnect ?_⟩
    rw [← hclosed]
    exact { hs with }

theorem beginTeardown_moves (hs : Settled s.control) (hlive : s.initialized = true)
    (hstate : s.state = .playing) :
    Routine s.control (beginTeardown o s).control ∨
      TeardownBegun (TeardownHere o s) (TeardownAgain o s) s.control (beginTeardown o s).control := by
  have hclose : Closable s.control { s with teardownRequested := true, rtpSocket := false } :=
    { Closable.refl hlive hs with }
  unfold beginTeardown
  generalize hrequested :
    ({ s with teardownRequested := true, rtpSocket := false } : RtspSession) = t at hclose ⊢
  have hcontrol : t.control = { s.control with teardownRequested := true } := by
    rw [← hrequested]
    rfl
  have husable : Usable o t ↔ Usable o s := by
    rw [← hrequested]
    exact Iff.rfl
  have hhere : TeardownHere o t → TeardownHere o s := by
    rw [← hrequested]
    exact fun h => ⟨h.1, (fits_congr (by decide) rfl rfl).1 h.2⟩
  rcases initiateTeardown_spec o hclose with
    ⟨hu, heq⟩ | ⟨hu, s', heq, hs'⟩ | ⟨hu, s', r, heq, hfresh, hprepared⟩
  · rw [heq]
    dsimp only
    split
    · exact .inl hclose.cleanup
    · have hplaying : t.state = .playing := (congrArg Control.state hcontrol).trans hstate
      generalize hre : rtspReconnectForTeardown o t = p
      obtain ⟨u, ok⟩ := p
      obtain ⟨hok, hfailed⟩ := reconnectForTeardown_spec o hplaying hre
      cases ok with
      | true =>
        refine .inr ?_
        rw [(hok rfl).2, hcontrol]
        exact .redialed hlive hstate ⟨fun h => hu (husable.2 h), (hok rfl).1⟩
      | false => exact .inl (hfailed rfl _ hclose).cleanup
  · rw [heq]
    exact .inl hs'.cleanup
  · rw [heq]
    rw [hprepared, hcontrol]
    rw [hcontrol] at hfresh
    exact .inr (.prepared hstate (hhere hu) ⟨hfresh.kind, hfresh.cseq, hfresh.text⟩)

theorem cleanup_moves (hs : Settled s.control) (hlive : s.initialized = true) :
    (rtspSessionCleanup o s).control = s.control ∨
      Routine s.control (rtspSessionCleanup o s).control ∨
      TeardownBegun (TeardownHere o s) (TeardownAgain o s) s.control (rtspSessionCleanup o s).control := by
  have hclose := Closable.refl hlive hs
  have hrests : s.state ∈ restStates := hs.rests
  unfold rtspSessionCleanup
  cases hstate : s.state with
  | sendingTeardown => exact .inl rfl
  | awaitingTeardown => exact .inl rfl
  | teardownComplete => exact .inl rfl
  | reconnecting => exact .inl rfl
  | playing => exact .inr (beginTeardown_moves o hs hlive hstate)
  | setup =>
    rw [hstate] at hrests
    exact absurd hrests (by decide)
  | _ => exact .inr (.inl hclose.cleanup)

/-! ## Runs -/

/-- A step is a sequence of moves, or begins a teardown. -/
theorem step_moves (hs : Settled s.control) (e : RtspEvent) :
    ControlMoves (UnarmedRetry s e) (FollowsRedirect s e) s.control (rtspStep s e).control ∨
      ∃ o, e = .cleanup o ∧ s.initialized = true ∧
        TeardownBegun (TeardownHere o s) (TeardownAgain o s) s.control (rtspStep s e).control := by
  unfold rtspStep
  cases hlive : s.initialized with
  | false => exact .inl .refl
  | true =>
    rw [if_neg (by decide)]
    cases e with
    | socket ev o =>
      refine .inl ?_
      dsimp only
      split
      · exact .refl
      · rename_i hsocket
        exact (socketEvent_moves ev o hs hlive hsocket).1
    | stun o => exact .inl (stunResponse_moves o hs hlive)
    | tick timedOut keepaliveDue o => exact .inl (tick_moves timedOut keepaliveDue o hs hlive)
    | cleanup o =>
      rcases cleanup_moves o hs hlive with heq | hmove | hbegun
      · rw [heq]
        exact .inl .refl
      · exact .inl (.single hmove)
      · exact .inr ⟨o, rfl, rfl, hbegun⟩
    | resume o => exact .inl (readMedia_moves o (Closable.refl hlive hs))
    | destroy => exact .inl (.single (Closable.refl hlive hs).cleanup)

theorem settled_step (hs : Settled s.control) (e : RtspEvent) : Settled (rtspStep s e).control := by
  rcases step_moves hs e with hmoves | ⟨o, -, -, hbegun⟩
  · exact hmoves.settled hs
  · exact hbegun.settled hs

theorem tryNext_unmade {s s' : RtspSession} {cs : List Candidate} (hsocket : s.socket = none)
    (h : rtspTryNextCandidate s cs = (s', false)) : s'.control = s.control := by
  induction cs generalizing s with
  | nil =>
    obtain rfl := congrArg Prod.fst h
    rfl
  | cons candidate cs ih =>
    cases candidate with
    | refused => exact ih hsocket h
    | opens switchesFamily polled =>
      simp only [rtspTryNextCandidate] at h
      split at h
      · obtain rfl := congrArg Prod.fst h
        unfold RtspSession.control
        split <;> simp [hsocket]
      · cases h

variable (username : Bytes)

theorem control_rtspStart (r2hDuration metadataProbe : Bool) (c : ConnectOutcome) :
    (rtspStart username r2hDuration metadataProbe c).control =
        (rtspSessionInit username r2hDuration metadataProbe).control ∨
      (rtspStart username r2hDuration metadataProbe c).control =
        (rtspSessionInit username r2hDuration metadataProbe).control.dialed .connecting := by
  unfold rtspStart
  generalize hconnect : rtspConnect c (rtspSessionInit username r2hDuration metadataProbe) = p
  obtain ⟨s', ok⟩ := p
  cases ok with
  | true => exact .inr (connect_ok hconnect)
  | false =>
    refine .inl ?_
    unfold rtspConnect at hconnect
    dsimp only at hconnect
    split at hconnect
    · obtain rfl := congrArg Prod.fst hconnect
      rfl
    · split at hconnect
      · exact (tryNext_unmade rfl hconnect).trans rfl
      · exact (tryNext_unmade rfl hconnect).trans rfl

theorem settled_init (r2hDuration metadataProbe : Bool) :
    Settled (rtspSessionInit username r2hDuration metadataProbe).control where
  live := rfl
  gone := fun _ => rfl
  started := fun h => absurd rfl h
  rests := show RtspState.init ∈ restStates by decide
  awaiting := nofun
  keepalive := nofun
  pending := nofun
  idle := fun _ => rfl
  parked := nofun

theorem settled_start (r2hDuration metadataProbe : Bool) (c : ConnectOutcome) :
    Settled (rtspStart username r2hDuration metadataProbe c).control := by
  have hinit := settled_init username r2hDuration metadataProbe
  rcases control_rtspStart username r2hDuration metadataProbe c with heq | heq
  · rw [heq]
    exact hinit
  · rw [heq]
    exact hinit.dialed rfl (by decide) (by decide) (by decide) nofun nofun nofun (.inl rfl)

/-! ## A handshake -/

/-- A host with one address, which is connected. -/
def oneAddress : ConnectOutcome := ⟨some [.opens false true], false, false⟩

/-- An event of the control socket, for empty texts, in which nothing fails. -/
def socketEvent (ev : PollEvents) (sends : List SendResult) (receives : List Received) :
    RtspEvent :=
  .socket ev
    ⟨false, false, false, false, sends, receives, false, false, oneAddress,
      fun _ => ⟨[], [], [], []⟩⟩

/-- The pending request is sent, and answered with `r`. -/
def exchange (r : Response) : RtspEvent :=
  socketEvent ⟨true, true, false⟩ [.accepted 4096] [.data false (.complete r)]

/-- A response 200. -/
def okResponse : Response := ⟨200, none, none, none, some (ascii "1"), some .tcp⟩

/-- The events that lead a session to `PLAYING`. -/
def handshake : List RtspEvent := List.replicate 4 (exchange okResponse)

/-- Some bytes of the pending request are sent. -/
def sendSome (n : ℕ) : RtspEvent := socketEvent ⟨false, true, false⟩ [.accepted n, .again] []

def keepaliveDue : RtspEvent :=
  .tick false true
    ⟨false, false, false, false, [], [], false, false, oneAddress, fun _ => ⟨[], [], [], []⟩⟩

/-- The stream is stopped by its client. -/
def stopped : RtspEvent :=
  .cleanup ⟨false, false, false, false, [], [], false, false, oneAddress, fun _ => ⟨[], [], [], []⟩⟩

end Apackage.Rtp2httpd.Rtsp
