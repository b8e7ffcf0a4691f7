import Apackage.Rtp2httpd.Rtsp.Steps

/-
  Whether the poller asks for `POLLER_OUT` while a request is to be sent.

  Every path that prepares a request asks for it, except the one that repeats a request after
  401: the response is handled with `POLLER_OUT` off, as the request before it has been sent.
-/

namespace Apackage.Rtp2httpd.Rtsp

open Option Lib.Run Control

/-- Where bytes of a request are to be sent, the poller reports when the socket is writable. -/
def Control.Armed (c : Control) : Prop :=
  ∀ k, c.socket = some k → c.pendingRequestSent < c.pendingRequestLen → k.pollerOut = true

/-- While the response of a handshake request is awaited, `POLLER_OUT` is off. -/
def Control.Quiet (c : Control) : Prop :=
  c.awaitingResponse = true → c.state ∈ awaitStates → ∀ k, c.socket = some k → k.pollerOut = false

theorem armed_setOut (c : Control) : (c.setOut true).Armed := by
  intro k hk _
  obtain ⟨k', -, rfl⟩ := map_eq_some_iff.1 hk
  rfl

theorem armed_dialed (next : RtspState) (c : Control) : (c.dialed next).Armed := by
  intro k hk _
  obtain rfl := Option.some.inj hk
  rfl

variable {c : Control}

theorem quiet_of_idle (h : c.awaitingResponse = false) : c.Quiet :=
  fun ha => absurd (h.symm.trans ha) (by decide)

theorem quiet_of_state (h : c.state ∉ awaitStates) : c.Quiet := fun _ hstate => absurd hstate h

variable {c' : Control}

theorem Routine.armed (h : Routine c c') (hc : c.Armed) : c'.Armed := by
  cases h with
  | close => exact fun k hk => nomatch hk
  | redial => exact armed_dialed _ c
  | greet => exact armed_setOut _
  | bid => exact armed_setOut _
  | @take n =>
    intro k hk hlt
    obtain ⟨k', hk', rfl⟩ := map_eq_some_iff.1 hk
    have hlt : c.pendingRequestSent + n < c.pendingRequestLen := hlt
    exact hc k' hk' (by omega)
  | complete => exact fun k _ hlt => absurd hlt (Nat.not_lt_zero _)
  | arm => exact armed_setOut c
  | answer =>
    intro k hk hlt
    obtain ⟨k', hk', rfl⟩ := map_eq_some_iff.1 hk
    exact hc k' hk' hlt
  | park => exact hc
  | retreat => exact hc
  | proceed => exact armed_setOut _
  | play => exact hc
  | keepalive => exact armed_setOut _
  | waste => exact hc

theorem Routine.quiet (h : Routine c c') (hc : c.Quiet) : c'.Quiet := by
  cases h with
  | close => exact quiet_of_idle rfl
  | redial _ h =>
    refine quiet_of_state fun hmem => h ⟨fun heq => ?_, fun heq => ?_⟩
    · have hmem : c.state ∈ awaitStates := hmem
      rw [heq] at hmem
      exact absurd hmem (by decide)
    · have hmem : c.state ∈ awaitStates := hmem
      rw [heq] at hmem
      exact absurd hmem (by decide)
  | greet => exact quiet_of_state (show RtspState.sendingOptions ∉ awaitStates by decide)
  | bid => exact quiet_of_state (show RtspState.sendingTeardown ∉ awaitStates by decide)
  | take =>
    intro ha hstate k hk
    obtain ⟨k', hk', rfl⟩ := map_eq_some_iff.1 hk
    exact hc ha hstate k' hk'
  | complete =>
    intro _ _ k hk
    obtain ⟨k', -, rfl⟩ := map_eq_some_iff.1 hk
    rfl
  | arm ha => exact quiet_of_idle ha
  | answer => exact quiet_of_idle rfl
  | park _ ha => exact quiet_of_idle ha
  | retreat _ ha => exact quiet_of_idle ha
  | proceed h => exact quiet_of_state h.state.2.2.1
  | play _ ha => exact quiet_of_idle ha
  | keepalive => exact quiet_of_state (show RtspState.playing ∉ awaitStates by decide)
  | waste => exact hc

variable {redirects : Prop}

theorem ControlMoves.quiet {retries : Prop} (h : ControlMoves retries redirects c c') (hc : c.Quiet)
    :
    c'.Quiet := by
  induction h with
  | refl => exact hc
  | tail _ hmove ih =>
    rcases hmove with hmove | ⟨-, hrepeats, -, -, -⟩ | ⟨-, hmove⟩
    · exact hmove.quiet ih
    · exact quiet_of_state hrepeats.state.2.2.1
    · cases hmove
      exact quiet_of_state (show RtspState.connecting ∉ awaitStates by decide)

theorem ControlMoves.armed {retries : Prop} (h : ControlMoves retries redirects c c')
    (hretries : ¬retries) (hc : c.Armed) : c'.Armed := by
  induction h with
  | refl => exact hc
  | tail _ hmove ih =>
    rcases hmove with hmove | ⟨hretry, -⟩ | ⟨-, hmove⟩
    · exact hmove.armed ih
    · exact absurd hretry hretries
    · cases hmove
      exact armed_dialed _ _

theorem TeardownBegun.armed {here again : Prop} (h : TeardownBegun here again c c') :
    c'.Armed ∧ c'.Quiet := by
  cases h with
  | prepared =>
    exact ⟨armed_setOut _, quiet_of_state (show RtspState.sendingTeardown ∉ awaitStates by decide)⟩
  | redialed =>
    exact ⟨armed_dialed _ _, quiet_of_state (show RtspState.reconnecting ∉ awaitStates by decide)⟩

theorem RetryUnarmed.not_armed (h : RetryUnarmed c.answered c') (hquiet : c.Quiet)
    (ha : c.awaitingResponse = true) (hsocket : c.socket ≠ none) : ¬c'.Armed := by
  obtain ⟨hrepeats, -, -, hfresh⟩ := h
  obtain ⟨k, hk⟩ := ne_none_iff_exists'.1 hsocket
  have hawait : c.state ∈ awaitStates := by
    have hstate : c.answered.state = c.state := rfl
    rw [← hstate]
    exact hrepeats.awaits
  intro harmed
  have hout := harmed { k with unanswered := k.unanswered.drop 1 }
    (map_eq_some_iff.2 ⟨k, hk, rfl⟩) (List.length_pos_iff.2 hfresh.text)
  exact absurd ((hquiet ha hawait k hk).symm.trans hout) (by decide)

/-! ## The session -/

/-- Where bytes of a request are to be sent, the poller reports when the socket is writable. -/
def Armed (s : RtspSession) : Prop :=
  ∀ k, s.socket = some k → s.pendingRequestSent < s.pendingRequestLen → k.pollerOut = true
  deriving Decidable

variable {s : RtspSession}

theorem quiet_step (hs : Settled s.control) (hq : s.control.Quiet) (e : RtspEvent) :
    (rtspStep s e).control.Quiet := by
  rcases step_moves hs e with hmoves | ⟨o, -, -, hbegun⟩
  · exact hmoves.quiet hq
  · exact hbegun.armed.2

theorem armed_step_iff (hs : Settled s.control) (hq : s.control.Quiet) (harmed : Armed s)
    (e : RtspEvent) : Armed (rtspStep s e) ↔ ¬UnarmedRetry s e := by
  constructor
  · intro hnext hretry
    cases e with
    | socket ev o =>
      have hlive : s.initialized = true := hretry.1
      have hsocket : s.socket ≠ none := hretry.2.1
      obtain ⟨t, hmoves, htsocket, ha, hunarmed⟩ := (socketEvent_moves ev o hs hlive hsocket).2 hretry
      unfold rtspStep at hnext
      rw [hlive, if_neg (by decide)] at hnext
      dsimp only at hnext
      rw [if_neg hsocket] at hnext
      exact hunarmed.not_armed (hmoves.quiet hq) ha htsocket hnext
    | stun => exact hretry
    | tick => exact hretry
    | cleanup => exact hretry
    | resume => exact hretry
    | destroy => exact hretry
  · intro hretry
    rcases step_moves hs e with hmoves | ⟨o, -, -, hbegun⟩
    · exact hmoves.armed hretry harmed
    · exact hbegun.armed.1

/-- A session stays armed through a run exactly when no event of it repeats a request after a
    401 that answers OPTIONS, SETUP or PLAY. -/
theorem armed_prefixes_iff (username : Bytes) (r2hDuration metadataProbe : Bool)
    (c : ConnectOutcome) (es : List RtspEvent) :
    (∀ es₁ es₂, es₁ ++ es₂ = es →
        Armed (run rtspStep (rtspStart username r2hDuration metadataProbe c) es₁)) ↔
      Along rtspStep (fun s e => ¬UnarmedRetry s e)
        (rtspStart username r2hDuration metadataProbe c) es := by
  have hstart : (rtspStart username r2hDuration metadataProbe c).control.Quiet ∧
      (rtspStart username r2hDuration metadataProbe c).control.Armed := by
    rcases control_rtspStart username r2hDuration metadataProbe c with heq | heq
    · rw [heq]
      exact ⟨quiet_of_idle rfl, fun k hk => nomatch hk⟩
    · rw [heq]
      exact ⟨quiet_of_idle rfl, armed_dialed _ _⟩
  exact prefixes_iff_along
    (I := fun s : RtspSession => Settled s.control ∧ s.control.Quiet)
    (fun s e hs => ⟨settled_step hs.1 e, quiet_step hs.1 hs.2 e⟩)
    (fun s e hs harmed => armed_step_iff hs.1 hs.2 harmed e)
    ⟨settled_start username r2hDuration metadataProbe c, hstart.1⟩ hstart.2 es

/-- OPTIONS is answered with 401: the request that is prepared again is never sent. -/
theorem options_unarmed :
    ¬∀ (username : Bytes) (r2hDuration metadataProbe : Bool) (c : ConnectOutcome)
      (es : List RtspEvent), Armed (run rtspStep (rtspStart username r2hDuration metadataProbe c) es) := by
  intro h
  let connect : ConnectOutcome := ⟨some [.opens false true], false, false⟩
  let challenge : Response := ⟨401, none, some true, none, none, none⟩
  let outcomes : Outcomes :=
    ⟨false, false, false, false, [.accepted 4096], [.data false (.complete challenge)], false, false,
      connect, fun _ => ⟨[], [], [], []⟩⟩
  exact absurd
    (h (ascii "u") false false connect
      [.socket ⟨false, true, false⟩ outcomes, .socket ⟨true, false, false⟩ outcomes])
    (by decide)

end Apackage.Rtp2httpd.Rtsp
