import Apackage.Rtp2httpd.Rtsp.Steps

/-
  The requests of a session: those after its teardown has been requested, and their order.

  The states that a teardown leads to prepare no other request; a redirect leaves them, since
  `rtsp_handle_redirect` does not look at `teardown_requested`. In every run the requests follow
  each other as the handshake has them (`requests_ordered`).
-/

namespace Apackage.Rtp2httpd.Rtsp

open List Lib.Run Control

/-- The states of a session whose teardown has been requested, to the one it is closed in. -/
def teardownStates : List RtspState := [.reconnecting, .sendingTeardown, .awaitingTeardown, .init]

/-- The requests of `c'` are those of `c` and TEARDOWN requests. -/
def OnlyTeardowns (c c' : Control) : Prop :=
  ∃ new, c'.prepared = c.prepared ++ new ∧ ∀ r ∈ new, r.kind = .teardown

variable {c c' : Control}

theorem OnlyTeardowns.of_eq (h : c'.prepared = c.prepared) : OnlyTeardowns c c' :=
  ⟨[], by rw [h, append_nil], nofun⟩

theorem OnlyTeardowns.trans {c'' : Control} (h : OnlyTeardowns c c') (h' : OnlyTeardowns c' c'') :
    OnlyTeardowns c c'' := by
  obtain ⟨new, hprepared, hnew⟩ := h
  obtain ⟨new', hprepared', hnew'⟩ := h'
  refine ⟨new ++ new', by rw [hprepared', hprepared, append_assoc], fun r hr => ?_⟩
  rcases mem_append.1 hr with hr | hr
  · exact hnew r hr
  · exact hnew' r hr

theorem OnlyTeardowns.prepare {r : RtspRequest} (hr : r.kind = .teardown) (next : RtspState) :
    OnlyTeardowns c (c.prepare r next) :=
  ⟨[r], rfl, fun r' hr' => by rw [mem_singleton.1 hr']; exact hr⟩

variable {from_ : RtspState}

theorem Follows.not_teardown {next : RtspState} {kind : RequestKind} (h : Follows from_ kind next) :
    from_ ∉ teardownStates := by
  cases h <;> decide

theorem Repeats.not_teardown {next : RtspState} {kind : RequestKind} (h : Repeats from_ kind next) :
    from_ ∉ teardownStates := by
  cases h <;> decide

theorem awaitingState_teardown {q : RtspState} (h : q ∈ teardownStates) :
    awaitingState q ∈ teardownStates := by
  revert q
  decide

theorem Routine.onlyTeardowns (h : Routine c c') (hc : c.state ∈ teardownStates) :
    c'.state ∈ teardownStates ∧ OnlyTeardowns c c' := by
  have hnot : ∀ q ∉ teardownStates, c.state = q → False := fun q hq heq => hq (heq ▸ hc)
  cases h with
  | close => exact ⟨show RtspState.init ∈ teardownStates by decide, .of_eq rfl⟩
  | redial => exact ⟨hc, .of_eq rfl⟩
  | greet h => exact (hnot _ (by decide) h).elim
  | bid h ht hr =>
    exact ⟨show RtspState.sendingTeardown ∈ teardownStates by decide, .prepare hr.kind .sendingTeardown⟩
  | take => exact ⟨hc, .of_eq rfl⟩
  | complete => exact ⟨awaitingState_teardown hc, .of_eq rfl⟩
  | arm => exact ⟨hc, .of_eq rfl⟩
  | answer => exact ⟨hc, .of_eq rfl⟩
  | park => exact ⟨hc, .of_eq rfl⟩
  | retreat h => exact (hnot _ (by decide) h).elim
  | proceed h => exact absurd hc h.not_teardown
  | play h => exact (hnot _ (by decide) h).elim
  | keepalive h => exact (hnot _ (by decide) h).elim
  | waste => exact ⟨hc, .of_eq rfl⟩

variable {redirects : Prop}

theorem ControlMoves.onlyTeardowns {retries : Prop} (h : ControlMoves retries redirects c c')
    (hredirects : ¬redirects) (hc : c.state ∈ teardownStates) :
    c'.state ∈ teardownStates ∧ OnlyTeardowns c c' := by
  induction h with
  | refl => exact ⟨hc, .of_eq rfl⟩
  | tail _ hmove ih =>
    obtain ⟨hb, honly⟩ := ih
    rcases hmove with hmove | ⟨-, hrepeats, -, -, -⟩ | ⟨hredirect, -⟩
    · obtain ⟨hc', honly'⟩ := hmove.onlyTeardowns hb
      exact ⟨hc', honly.trans honly'⟩
    · exact absurd hb hrepeats.not_teardown
    · exact absurd hredirect hredirects

theorem ControlMoves.requested {retries : Prop} (h : ControlMoves retries redirects c c')
    (hc : c.teardownRequested = false) : c'.teardownRequested = false := by
  induction h with
  | refl => exact hc
  | tail _ hmove ih =>
    rcases hmove with hmove | ⟨-, ⟨-, -, -, -⟩⟩ | ⟨-, hmove⟩
    · cases hmove with
      | close => rfl
      | _ => exact ih
    · exact ih
    · cases hmove
      exact ih

/-! ## The session -/

/-- A step from `s` to `s'` with a teardown requested before or after it prepares no request
    other than TEARDOWN. -/
def TeardownFinal (s s' : RtspSession) : Prop :=
  s.teardownRequested = true ∨ s'.teardownRequested = true →
    ∀ r ∈ s'.prepared.drop s.prepared.length, r.kind = .teardown
  deriving Decidable

variable {s : RtspSession}

theorem OnlyTeardowns.final {s' : RtspSession} (h : OnlyTeardowns s.control s'.control) :
    TeardownFinal s s' := by
  obtain ⟨new, hprepared, hnew⟩ := h
  have hprepared : s'.prepared = s.prepared ++ new := hprepared
  intro _ r hr
  rw [hprepared, drop_left] at hr
  exact hnew r hr

theorem TeardownBegun.onlyTeardowns {here again : Prop} (h : TeardownBegun here again c c') :
    c'.state ∈ teardownStates ∧ OnlyTeardowns c c' := by
  cases h with
  | prepared h hhere hr =>
    exact ⟨show RtspState.sendingTeardown ∈ teardownStates by decide, [_], rfl, fun r' hr' => by
      rw [mem_singleton.1 hr']
      exact hr.kind⟩
  | redialed => exact ⟨show RtspState.reconnecting ∈ teardownStates by decide, .of_eq rfl⟩

/-- What holds of a session whose teardown has been requested. -/
def TearingDown (s : RtspSession) : Prop :=
  Settled s.control ∧ (s.teardownRequested = true → s.state ∈ teardownStates)

theorem tearingDown_step {e : RtspEvent} (hs : TearingDown s)
    (hredirect : s.teardownRequested = true → ¬FollowsRedirect s e) :
    TearingDown (rtspStep s e) ∧ TeardownFinal s (rtspStep s e) := by
  rcases step_moves hs.1 e with hmoves | ⟨o, -, -, hbegun⟩
  · cases hrequested : s.teardownRequested with
    | false =>
      have hnext : (rtspStep s e).teardownRequested = false := hmoves.requested hrequested
      refine ⟨⟨settled_step hs.1 e, fun h => absurd (hnext.symm.trans h) (by decide)⟩, ?_⟩
      rintro (h | h)
      · exact absurd (hrequested.symm.trans h) (by decide)
      · exact absurd (hnext.symm.trans h) (by decide)
    | true =>
      obtain ⟨hstate, honly⟩ := hmoves.onlyTeardowns (hredirect hrequested) (hs.2 hrequested)
      exact ⟨⟨settled_step hs.1 e, fun _ => hstate⟩, honly.final⟩
  · obtain ⟨hstate, honly⟩ := hbegun.onlyTeardowns
    exact ⟨⟨settled_step hs.1 e, fun _ => hstate⟩, honly.final⟩

/-- In a run that follows no redirect once a teardown has been requested, every request that is
    prepared from then on is TEARDOWN. -/
theorem teardown_final (username : Bytes) (r2hDuration metadataProbe : Bool) (c : ConnectOutcome)
    (es : List RtspEvent)
    (h : Along rtspStep (fun s e => s.teardownRequested = true → ¬FollowsRedirect s e)
      (rtspStart username r2hDuration metadataProbe c) es) :
    Along rtspStep (fun s e => TeardownFinal s (rtspStep s e))
      (rtspStart username r2hDuration metadataProbe c) es := by
  refine along_invariant (I := TearingDown) (fun s e hs hok => (tearingDown_step hs hok).1)
    (fun s e hs hok => (tearingDown_step hs hok).2) ?_ h
  refine ⟨settled_start username r2hDuration metadataProbe c, fun hrequested => ?_⟩
  have hnot : (rtspStart username r2hDuration metadataProbe c).control.teardownRequested = false := by
    rcases control_rtspStart username r2hDuration metadataProbe c with heq | heq <;>
      · rw [heq]
        rfl
  exact absurd (hnot.symm.trans hrequested) (by decide)

/-- A teardown that is answered. -/
theorem teardown_final_answered :
    Along rtspStep (fun s e => TeardownFinal s (rtspStep s e)) (rtspStart [] false false oneAddress)
      (handshake ++ [stopped, exchange okResponse]) :=
  teardown_final [] false false oneAddress _ (by decide)

/-- The teardown is answered with a redirect: OPTIONS is sent to the new address. -/
theorem teardown_redirected :
    ¬∀ (username : Bytes) (r2hDuration metadataProbe : Bool) (c : ConnectOutcome)
      (es : List RtspEvent), Along rtspStep (fun s e => TeardownFinal s (rtspStep s e))
        (rtspStart username r2hDuration metadataProbe c) es := by
  intro h
  let moved : Response := ⟨302, some ⟨some [], oneAddress⟩, none, none, none, none⟩
  exact absurd
    (h [] false false oneAddress (handshake ++ [stopped, exchange moved, exchange okResponse]))
    (by decide)

/-! ## The order of the requests -/

/-- What the last request is when the next one is of a kind. -/
def MayFollow (last : Option RequestKind) : RequestKind → Prop
  | .options => True
  | .describe => last = some .options ∨ last = some .describe
  | .setup => last = some .describe ∨ last = some .setup
  | .play => last = some .setup ∨ last = some .play
  | .keepalive => last = some .play ∨ last = some .keepalive
  | .teardown => last = some .play ∨ last = some .keepalive

def lastKind (requests : List RtspRequest) : Option RequestKind := requests.getLast?.map (·.kind)

/-- Each request may follow the one right before it. -/
def Ordered (requests : List RtspRequest) : Prop :=
  ∀ before r after, requests = before ++ r :: after → MayFollow (lastKind before) r.kind

/-- The last request of a session in a state, where the state says it. -/
def LastIn (last : Option RequestKind) : RtspState → Prop
  | .sendingOptions => last = some .options
  | .awaitingOptions => MayFollow last .describe
  | .sendingDescribe | .awaitingDescribe => last = some .describe
  | .sendingSetup | .awaitingSetup => last = some .setup
  | .sendingPlay | .awaitingPlay => last = some .play
  | .playing | .reconnecting => MayFollow last .keepalive
  | .sendingTeardown | .awaitingTeardown => last = some .teardown
  | _ => True

def InOrder (c : Control) : Prop := Ordered c.prepared ∧ LastIn (lastKind c.prepared) c.state

theorem InOrder.prepare (hc : InOrder c) {r : RtspRequest} {kind : RequestKind} {next : RtspState}
    (hr : r.kind = kind) (hmay : MayFollow (lastKind c.prepared) kind)
    (hnext : LastIn (some kind) next) : InOrder (c.prepare r next) := by
  subst hr
  refine ⟨fun before r' after h => ?_, ?_⟩
  · change c.prepared ++ [r] = _ at h
    rcases eq_nil_or_concat after with rfl | ⟨after, x, rfl⟩
    · obtain ⟨rfl, hlast⟩ := append_inj' h rfl
      obtain rfl := (cons.inj hlast).1
      exact hmay
    · rw [concat_eq_append, ← cons_append, ← append_assoc] at h
      exact hc.1 before r' after (append_inj' h rfl).1
  · show LastIn (lastKind (c.prepared ++ [r])) next
    rw [lastKind, getLast?_concat]
    exact hnext

theorem lastIn_awaitingState {last : Option RequestKind} {q : RtspState} (h : LastIn last q) :
    LastIn last (awaitingState q) := by
  cases q with
  | sendingOptions => exact .inl h
  | _ => exact h

theorem Routine.inOrder (h : Routine c c') (hc : InOrder c) : InOrder c' := by
  have hlast := hc.2
  cases h with
  | close => exact ⟨hc.1, trivial⟩
  | greet h hr => exact hc.prepare hr.kind trivial rfl
  | bid h ht hr =>
    rw [h] at hlast
    exact hc.prepare hr.kind hlast rfl
  | complete => exact ⟨hc.1, lastIn_awaitingState hlast⟩
  | retreat h =>
    rw [h] at hlast
    exact ⟨hc.1, .inr hlast⟩
  | proceed h ha hr =>
    generalize c.state = q at h hlast
    cases h with
    | describe => exact hc.prepare hr.kind hlast rfl
    | setup => exact hc.prepare hr.kind (.inl hlast) rfl
    | play => exact hc.prepare hr.kind (.inl hlast) rfl
  | play h =>
    rw [h] at hlast
    exact ⟨hc.1, .inl hlast⟩
  | keepalive h hlen ha hp hk hr =>
    rw [h] at hlast
    exact hc.prepare hr.kind hlast (.inr rfl)
  | redial | take | arm | answer | park | waste => exact hc

theorem RetryUnarmed.inOrder (h : RetryUnarmed c c') (hc : InOrder c) : InOrder c' := by
  obtain ⟨h, -, -, hr⟩ := h
  have hlast := hc.2
  generalize c.state = q at h hlast
  cases h with
  | options => exact hc.prepare hr.kind trivial rfl
  | setup => exact hc.prepare hr.kind (.inr hlast) rfl
  | play => exact hc.prepare hr.kind (.inr hlast) rfl

theorem TeardownBegun.inOrder {here again : Prop} (h : TeardownBegun here again c c')
    (hc : InOrder c) : InOrder c' := by
  have hlast := hc.2
  rw [h.state] at hlast
  cases h with
  | prepared h hhere hr => exact hc.prepare hr.kind hlast rfl
  | redialed hlive h => exact ⟨hc.1, hlast⟩

theorem inOrder_step {e : RtspEvent} (hs : Settled s.control ∧ InOrder s.control) :
    Settled (rtspStep s e).control ∧ InOrder (rtspStep s e).control := by
  refine ⟨settled_step hs.1 e, ?_⟩
  rcases step_moves hs.1 e with hmoves | ⟨o, -, -, hbegun⟩
  · generalize (rtspStep s e).control = c' at hmoves
    induction hmoves with
    | refl => exact hs.2
    | tail _ hmove ih =>
      rcases hmove with hmove | ⟨-, hmove⟩ | ⟨-, ⟨-, -, -, -, -, -⟩⟩
      · exact hmove.inOrder ih
      · exact hmove.inOrder ih
      · exact ⟨ih.1, trivial⟩
  · exact hbegun.inOrder hs.2

/-- In every run DESCRIBE comes after OPTIONS, SETUP after DESCRIBE and PLAY after SETUP, or a
    request is repeated, or OPTIONS begins again; keepalives and TEARDOWN come after PLAY only. -/
theorem requests_ordered (username : Bytes) (r2hDuration metadataProbe : Bool)
    (c : ConnectOutcome) (es : List RtspEvent) :
    Ordered (run rtspStep (rtspStart username r2hDuration metadataProbe c) es).prepared := by
  have hstart : InOrder (rtspStart username r2hDuration metadataProbe c).control := by
    have hnil : Ordered [] := fun before r after h => by
      cases before <;> cases h
    rcases control_rtspStart username r2hDuration metadataProbe c with heq | heq <;>
      · rw [heq]
        exact ⟨hnil, trivial⟩
  exact (run_always (I := fun s : RtspSession => Settled s.control ∧ InOrder s.control)
    (fun _ _ => inOrder_step) ⟨settled_start username r2hDuration metadataProbe c, hstart⟩ es).2.1

end Apackage.Rtp2httpd.Rtsp
