import Mathlib.Logic.Relation
import Apackage.Rtp2httpd.Rtsp.Events

/-
  The control connection of an RTSP session, apart from what is heard on it.

  `Control` is the part of a session that its requests depend on. `Routine` lists the moves it
  can make in one event; three kinds of move are listed apart, as they are the ones that go
  wrong: a request that is prepared again after 401 without asking for `POLLER_OUT`
  (`RetryUnarmed`), a redirect (`Redirected`), and the begin of a teardown (`TeardownBegun`).
  `Settled` is what holds between any two moves.
-/

namespace Apackage.Rtp2httpd.Rtsp

open Option

structure Control where
  initialized : Bool
  cleanupDone : Bool
  socket : Option ControlSocket
  state : RtspState
  cseq : UInt32
  describeWaitingForStun : Bool
  pendingRequest : RtspRequest
  pendingRequestLen : ℕ
  pendingRequestSent : ℕ
  awaitingResponse : Bool
  keepalivePending : Bool
  awaitingKeepaliveResponse : Bool
  teardownRequested : Bool
  numbered : ℕ
  prepared : List RtspRequest
  answers : List Answer

def RtspSession.control (s : RtspSession) : Control where
  initialized := s.initialized
  cleanupDone := s.cleanupDone
  socket := s.socket
  state := s.state
  cseq := s.cseq
  describeWaitingForStun := s.describeWaitingForStun
  pendingRequest := s.pendingRequest
  pendingRequestLen := s.pendingRequestLen
  pendingRequestSent := s.pendingRequestSent
  awaitingResponse := s.awaitingResponse
  keepalivePending := s.keepalivePending
  awaitingKeepaliveResponse := s.awaitingKeepaliveResponse
  teardownRequested := s.teardownRequested
  numbered := s.numbered
  prepared := s.prepared
  answers := s.answers

namespace Control

/-- The forced cleanup. -/
def closed (c : Control) : Control :=
  { c with
    initialized := false
    cleanupDone := true
    socket := none
    state := .init
    pendingRequestLen := 0
    pendingRequestSent := 0
    awaitingResponse := false
    keepalivePending := false
    awaitingKeepaliveResponse := false
    teardownRequested := false }

/-- A new connection. -/
def dialed (next : RtspState) (c : Control) : Control :=
  { c with socket := some ⟨true, [], []⟩, state := next }

def prepare (r : RtspRequest) (next : RtspState) (c : Control) : Control :=
  { c with
    cseq := c.cseq + 1
    numbered := c.numbered + 1
    pendingRequest := r
    pendingRequestLen := r.text.length
    pendingRequestSent := 0
    prepared := c.prepared ++ [r]
    state := next }

def setOut (out : Bool) (c : Control) : Control :=
  { c with socket := c.socket.map fun k => { k with pollerOut := out } }

/-- `n` pending bytes are sent. -/
def took (n : ℕ) (c : Control) : Control :=
  { c with
    pendingRequestSent := c.pendingRequestSent + n
    socket := c.socket.map fun k =>
      { k with wire := k.wire ++ (c.pendingRequest.text.drop c.pendingRequestSent).take n } }

/-- The pending request has been sent. -/
def completed (c : Control) : Control :=
  { c with
    pendingRequestLen := 0
    pendingRequestSent := 0
    awaitingResponse := true
    awaitingKeepaliveResponse := c.awaitingKeepaliveResponse || c.keepalivePending
    keepalivePending := false
    state := awaitingState c.state
    socket := c.socket.map fun k =>
      { k with pollerOut := false, unanswered := k.unanswered ++ [c.pendingRequest] } }

def takenFor (c : Control) : Option RequestKind :=
  if c.awaitingKeepaliveResponse then some .keepalive
  else
    match c.state with
    | .awaitingOptions => some .options
    | .awaitingDescribe => some .describe
    | .awaitingSetup => some .setup
    | .awaitingPlay => some .play
    | .awaitingTeardown => some .teardown
    | _ => none

/-- A response is accepted. -/
def answered (c : Control) : Control :=
  { c with
    awaitingResponse := false
    awaitingKeepaliveResponse := false
    answers := c.answers ++ [⟨c.socket.bind (·.unanswered.head?), c.takenFor⟩]
    socket := c.socket.map fun k => { k with unanswered := k.unanswered.drop 1 } }

/-- The flags that a teardown resets. -/
def forgotten (c : Control) : Control :=
  { c with
    keepalivePending := false
    awaitingKeepaliveResponse := false
    awaitingResponse := false }

def Open (c : Control) : Prop := c.state ≠ .connecting ∧ c.state ≠ .reconnecting

end Control

open Control

variable {c : Control}

theorem not_open (h : ¬c.Open) : c.state = .connecting ∨ c.state = .reconnecting := by
  by_contra hne
  exact h (not_or.1 hne)

/-- The request that follows a response, and the state that sends it. -/
inductive Follows : RtspState → RequestKind → RtspState → Prop
  | describe : Follows .awaitingOptions .describe .sendingDescribe
  | setup : Follows .awaitingDescribe .setup .sendingSetup
  | play : Follows .awaitingSetup .play .sendingPlay

/-- The requests that 401 repeats without `POLLER_OUT`, and the state that sends them. -/
inductive Repeats : RtspState → RequestKind → RtspState → Prop
  | options : Repeats .awaitingOptions .options .sendingOptions
  | setup : Repeats .awaitingSetup .setup .sendingSetup
  | play : Repeats .awaitingPlay .play .sendingPlay

/-- The request is new: it has the next `CSeq`, and fits the buffer. -/
structure Fresh (r : RtspRequest) (kind : RequestKind) (c : Control) : Prop where
  kind : r.kind = kind
  cseq : r.cseq = c.cseq
  text : r.text ≠ []

inductive Routine : Control → Control → Prop
  /-- The session is closed; a last request may have been too long. -/
  | close (c : Control) (cseq : UInt32) (numbered : ℕ) (r : RtspRequest) (parked : Bool) : Routine c
      { c.closed with cseq, numbered, pendingRequest := r, describeWaitingForStun := parked }
  | redial {c : Control} (hlive : c.initialized = true) (h : ¬c.Open) : Routine c (c.dialed c.state)
  | greet {c : Control} {r : RtspRequest} (h : c.state = .connecting) (hr : Fresh r .options c) :
    Routine c ((c.prepare r .sendingOptions).setOut true)
  | bid {c : Control} {r : RtspRequest} (h : c.state = .reconnecting)
    (ht : c.teardownRequested = true) (hr : Fresh r .teardown c) :
    Routine c ((c.prepare r .sendingTeardown).setOut true)
  | take {c : Control} {n : ℕ} (h : c.Open) (hn : c.pendingRequestSent + n ≤ c.pendingRequestLen) :
    Routine c (c.took n)
  | complete {c : Control} (h : c.Open) (hs : c.socket ≠ none) (hlen : 0 < c.pendingRequestLen)
    (hsent : c.pendingRequestSent = c.pendingRequestLen) : Routine c c.completed
  | arm {c : Control} (ha : c.awaitingResponse = false) : Routine c (c.setOut true)
  | answer {c : Control} (h : c.Open) (ha : c.awaitingResponse = true) : Routine c c.answered
  /-- DESCRIBE waits for STUN. -/
  | park {c : Control} (h : c.state = .awaitingOptions) (ha : c.awaitingResponse = false) :
    Routine c { c with describeWaitingForStun := true }
  /-- DESCRIBE is to be repeated after 401. -/
  | retreat {c : Control} (h : c.state = .awaitingDescribe) (ha : c.awaitingResponse = false) :
    Routine c { c with state := .awaitingOptions }
  | proceed {c : Control} {r : RtspRequest} {kind : RequestKind} {next : RtspState}
    (h : Follows c.state kind next) (ha : c.awaitingResponse = false) (hr : Fresh r kind c) :
    Routine c ({ c with describeWaitingForStun := false }.prepare r next |>.setOut true)
  | play {c : Control} (h : c.state = .awaitingPlay) (ha : c.awaitingResponse = false) :
    Routine c { c with state := .playing }
  | keepalive {c : Control} {r : RtspRequest} (h : c.state = .playing)
    (hlen : c.pendingRequestLen = 0) (ha : c.awaitingResponse = false)
    (hp : c.keepalivePending = false) (hk : c.awaitingKeepaliveResponse = false)
    (hr : Fresh r .keepalive c) :
    Routine c ({ c with keepalivePending := true }.prepare r .playing |>.setOut true)
  /-- A request that is too long is not prepared. -/
  | waste {c : Control} (r : RtspRequest) (parked : Bool) (hlen : c.pendingRequestLen = 0)
    (hparked : parked = true → c.describeWaitingForStun = true) :
    Routine c
      { c with
        cseq := c.cseq + 1
        numbered := c.numbered + 1
        pendingRequest := r
        describeWaitingForStun := parked }

inductive RetryUnarmed : Control → Control → Prop
  | mk {c : Control} {r : RtspRequest} {kind : RequestKind} {next : RtspState}
    (h : Repeats c.state kind next) (ha : c.awaitingResponse = false)
    (hw : c.describeWaitingForStun = false) (hr : Fresh r kind c) :
    RetryUnarmed c (c.prepare r next)

inductive Redirected : Control → Control → Prop
  | mk {c : Control} (hlive : c.initialized = true) (h : c.Open) (ha : c.awaitingResponse = false)
    (hp : c.keepalivePending = false) (hk : c.awaitingKeepaliveResponse = false)
    (hw : c.describeWaitingForStun = false) : Redirected c (c.dialed .connecting)

/-- The teardown is prepared, `here`, or the connection is made `again` for it. -/
inductive TeardownBegun (here again : Prop) : Control → Control → Prop
  | prepared {c : Control} {r : RtspRequest} (h : c.state = .playing) (hhere : here)
    (hr : Fresh r .teardown c) :
    TeardownBegun here again c
      (({ c.forgotten with teardownRequested := true }.prepare r .sendingTeardown).setOut true)
  | redialed {c : Control} (hlive : c.initialized = true) (h : c.state = .playing)
    (hagain : again) :
    TeardownBegun here again c ({ c with teardownRequested := true }.dialed .reconnecting)

theorem TeardownBegun.state {here again : Prop} {c c' : Control}
    (h : TeardownBegun here again c c') : c.state = .playing := by
  cases h with
  | prepared h => exact h
  | redialed _ h => exact h

/-- A move of an event that may repeat a request unarmed if `retries`, and may follow a
    redirect if `redirects`. -/
def ControlMove (retries redirects : Prop) (c c' : Control) : Prop :=
  Routine c c' ∨ retries ∧ RetryUnarmed c c' ∨ redirects ∧ Redirected c c'

def ControlMoves (retries redirects : Prop) : Control → Control → Prop :=
  Relation.ReflTransGen (ControlMove retries redirects)

theorem ControlMoves.mono {retries redirects retries' redirects' : Prop} {c c' : Control}
    (h : ControlMoves retries redirects c c') (hretries : retries → retries')
    (hredirects : redirects → redirects') : ControlMoves retries' redirects' c c' := by
  induction h with
  | refl => exact .refl
  | tail _ hmove ih =>
    exact ih.tail (hmove.imp_right (Or.imp (And.imp_left hretries) (And.imp_left hredirects)))

/-! ## What holds between moves -/

def restStates : List RtspState :=
  [.init, .connecting, .sendingOptions, .awaitingOptions, .sendingDescribe, .awaitingDescribe,
    .sendingSetup, .awaitingSetup, .sendingPlay, .awaitingPlay, .playing, .reconnecting,
    .sendingTeardown, .awaitingTeardown]

/-- The states that have been reached through `PLAYING`. -/
def playedStates : List RtspState := [.playing, .reconnecting, .sendingTeardown, .awaitingTeardown]

/-- The states of the handshake that wait for a response. -/
def awaitStates : List RtspState :=
  [.awaitingOptions, .awaitingDescribe, .awaitingSetup, .awaitingPlay]

/-- The states in which a response can be awaited. -/
def readingStates : List RtspState := awaitStates ++ playedStates

structure Settled (c : Control) : Prop where
  live : c.initialized = !c.cleanupDone
  gone : c.initialized = false → c.socket = none
  started : c.socket ≠ none → c.state ≠ .init
  rests : c.state ∈ restStates
  awaiting : c.awaitingResponse = true → c.state ∈ readingStates
  keepalive : c.awaitingKeepaliveResponse = true → c.state ∈ playedStates
  pending : c.keepalivePending = true → c.awaitingResponse = false ∧ c.state ∈ playedStates
  idle : c.state ∈ awaitStates → c.pendingRequestLen = 0
  parked : c.initialized = true → c.describeWaitingForStun = true →
    c.state = .awaitingOptions ∧ c.awaitingResponse = false

theorem Follows.state {from_ next : RtspState} {kind : RequestKind} (h : Follows from_ kind next) :
    next ∈ restStates ∧ next ≠ .init ∧ next ∉ awaitStates ∧ from_ ∉ playedStates := by
  cases h <;> decide

theorem Follows.next {from_ next : RtspState} {kind : RequestKind} (h : Follows from_ kind next) :
    next ≠ .error ∧ next ≠ .playing := by
  cases h <;> decide

theorem Repeats.next {from_ next : RtspState} {kind : RequestKind} (h : Repeats from_ kind next) :
    next ≠ .error ∧ next ≠ .playing := by
  cases h <;> decide

theorem Repeats.kind {from_ next : RtspState} {kind : RequestKind} (h : Repeats from_ kind next) :
    kind ≠ .keepalive := by
  cases h <;> decide

theorem Follows.awaits {from_ next : RtspState} {kind : RequestKind} (h : Follows from_ kind next) :
    from_ ∈ awaitStates := by
  cases h <;> decide

theorem Follows.opened {from_ next : RtspState} {kind : RequestKind} (h : Follows from_ kind next) :
    next ≠ .connecting ∧ next ≠ .reconnecting := by
  cases h <;> decide

section

variable {from_ : RtspState} {kind : RequestKind} {next : RtspState} (h : Repeats from_ kind next)

include h

theorem Repeats.opened : next ≠ .connecting ∧ next ≠ .reconnecting := by cases h <;> decide

theorem Repeats.awaits : from_ ∈ awaitStates := by cases h <;> decide

theorem Repeats.state :
    next ∈ restStates ∧ next ≠ .init ∧ next ∉ awaitStates ∧ from_ ∉ playedStates := by
  cases h <;> decide

end

variable {s : RtspState}

theorem mem_reading_of_played (h : s ∈ playedStates) : s ∈ readingStates :=
  List.mem_append_right _ h

theorem mem_reading_awaitingState (h : s ∈ restStates) (hinit : s ≠ .init) (hconn : s ≠ .connecting) :
    awaitingState s ∈ readingStates := by
  revert s
  decide

theorem mem_rest_awaitingState (h : s ∈ restStates) :
    awaitingState s ∈ restStates ∧ (s ≠ .init → awaitingState s ≠ .init) ∧
      (s ∈ playedStates → awaitingState s ∈ playedStates) := by
  revert s
  decide

variable {r : RtspRequest}

section

variable (hc : Settled c)

include hc

section

variable {next : RtspState} (hnext : next ∈ restStates) (hinit : next ≠ .init)
  (hidle : next ∉ awaitStates)

include hnext hinit hidle

theorem Settled.prepare (ha : c.awaitingResponse = true → next ∈ readingStates)
    (hk : c.awaitingKeepaliveResponse = true → next ∈ playedStates)
    (hp : c.keepalivePending = true → next ∈ playedStates)
    (hparked : c.describeWaitingForStun = false ∨ c.initialized = false) :
    Settled (c.prepare r next) where
  live := hc.live
  gone := hc.gone
  started := fun _ => hinit
  rests := hnext
  awaiting := ha
  keepalive := hk
  pending := fun h => ⟨(hc.pending h).1, hp h⟩
  idle := fun h => absurd h hidle
  parked := by
    intro hlive hwait
    rcases hparked with hparked | hparked
    · exact absurd (hparked.symm.trans hwait) (by decide)
    · exact absurd (hparked.symm.trans hlive) (by decide)

theorem Settled.prepare_idle (ha : c.awaitingResponse = false) (hplayed : c.state ∉ playedStates)
    (hparked : c.describeWaitingForStun = false ∨ c.initialized = false) :
    Settled (c.prepare r next) :=
  hc.prepare hnext hinit hidle (fun h => absurd (ha.symm.trans h) (by decide))
    (fun h => absurd (hc.keepalive h) hplayed) (fun h => absurd (hc.pending h).2 hplayed) hparked

end

theorem Settled.setOut (out : Bool) : Settled (c.setOut out) where
  live := hc.live
  gone := fun h => by
    show c.socket.map _ = none
    rw [hc.gone h]
    rfl
  started := fun h => hc.started fun hnone => h (by
    show c.socket.map _ = none
    rw [hnone]
    rfl)
  rests := hc.rests
  awaiting := hc.awaiting
  keepalive := hc.keepalive
  pending := hc.pending
  idle := hc.idle
  parked := hc.parked

/-- A session that does not rest before DESCRIBE is not parked there. -/
theorem Settled.not_parked (h : c.state ≠ .awaitingOptions) :
    c.describeWaitingForStun = false ∨ c.initialized = false := by
  cases hlive : c.initialized with
  | false => exact .inr rfl
  | true =>
    cases hwait : c.describeWaitingForStun with
    | false => exact .inl rfl
    | true => exact absurd (hc.parked hlive hwait).1 h

theorem Settled.not_awaiting (h : c.state ∉ readingStates) : c.awaitingResponse = false := by
  simpa using fun ha => h (hc.awaiting ha)

theorem Settled.restate {next : RtspState} (ha : c.awaitingResponse = false)
    (hnext : next ∈ restStates) (hinit : next ≠ .init)
    (hplayed : c.state ∈ playedStates → next ∈ playedStates)
    (hidle : next ∈ awaitStates → c.state ∈ awaitStates)
    (hwait : c.state = .awaitingOptions → next = .awaitingOptions) :
    Settled { c with state := next } where
  live := hc.live
  gone := hc.gone
  started := fun _ => hinit
  rests := hnext
  awaiting := fun h => absurd (ha.symm.trans h) (by decide)
  keepalive := fun h => hplayed (hc.keepalive h)
  pending := fun h => ⟨ha, hplayed (hc.pending h).2⟩
  idle := fun h => hc.idle (hidle h)
  parked := fun hlive h => ⟨hwait (hc.parked hlive h).1, ha⟩

theorem Settled.dialed (hlive : c.initialized = true) {next : RtspState} (hnext : next ∈ restStates)
    (hinit : next ≠ .init) (hidle : next ∉ awaitStates)
    (ha : c.awaitingResponse = true → next ∈ readingStates)
    (hk : c.awaitingKeepaliveResponse = true → next ∈ playedStates)
    (hp : c.keepalivePending = true → next ∈ playedStates)
    (hparked : c.describeWaitingForStun = false ∨ c.initialized = false) :
    Settled (c.dialed next) where
  live := hc.live
  gone := fun hdead => absurd (hdead.symm.trans hlive) (by decide)
  started := fun _ => hinit
  rests := hnext
  awaiting := ha
  keepalive := hk
  pending := fun h => ⟨(hc.pending h).1, hp h⟩
  idle := fun h => absurd h hidle
  parked := by
    intro hlive hwait
    rcases hparked with hparked | hparked
    · exact absurd (hparked.symm.trans hwait) (by decide)
    · exact absurd (hparked.symm.trans hlive) (by decide)

end

theorem Routine.settled {c c' : Control} (h : Routine c c') (hc : Settled c) : Settled c' := by
  cases h with
  | close =>
    exact
      { live := rfl
        gone := fun _ => rfl
        started := fun h => absurd rfl h
        rests := by simp [closed, restStates]
        awaiting := nofun
        keepalive := nofun
        pending := nofun
        idle := fun _ => rfl
        parked := nofun }
  | redial hlive h =>
    have hwait : c.state ≠ .awaitingOptions := fun heq => h (by rw [Control.Open, heq]; decide)
    have hinit : c.state ≠ .init := fun heq => h (by rw [Control.Open, heq]; decide)
    have hidle : c.state ∉ awaitStates := fun hmem => h
      ⟨fun heq => absurd hmem (by rw [heq]; decide), fun heq => absurd hmem (by rw [heq]; decide)⟩
    exact hc.dialed hlive hc.rests hinit hidle hc.awaiting hc.keepalive (fun hp => (hc.pending hp).2)
      (hc.not_parked hwait)
  | greet h hr =>
    have hread : c.state ∉ readingStates := by rw [h]; decide
    exact (hc.prepare_idle (by decide) (by decide) (by decide) (hc.not_awaiting hread)
      (fun hp => hread (mem_reading_of_played hp)) (hc.not_parked (by rw [h]; decide))).setOut true
  | bid h ht hr =>
    exact (hc.prepare (by decide) (by decide) (by decide) (fun _ => by decide) (fun _ => by decide)
      (fun _ => by decide) (hc.not_parked (by rw [h]; decide))).setOut true
  | take h hn =>
    exact
      { hc with
        gone := fun hdead => map_eq_none_iff.2 (hc.gone hdead)
        started := fun hs => hc.started fun hnone => hs (map_eq_none_iff.2 hnone) }
  | complete h hs hlen hsent =>
    obtain ⟨hrest, hinit, hplayed⟩ := mem_rest_awaitingState hc.rests
    have hstart : c.state ≠ .init := hc.started hs
    exact
      { live := hc.live
        gone := fun hdead => map_eq_none_iff.2 (hc.gone hdead)
        started := fun _ => hinit hstart
        rests := hrest
        awaiting := fun _ => mem_reading_awaitingState hc.rests hstart h.1
        keepalive := by
          intro hk
          rcases Bool.or_eq_true_iff.1 hk with hk | hp
          · exact hplayed (hc.keepalive hk)
          · exact hplayed (hc.pending hp).2
        pending := nofun
        idle := fun _ => rfl
        parked := by
          intro hlive hwait
          have hstate := (hc.parked hlive hwait).1
          have := hc.idle (by rw [hstate]; decide)
          omega }
  | arm ha => exact hc.setOut true
  | answer h ha =>
    exact
      { live := hc.live
        gone := fun hdead => map_eq_none_iff.2 (hc.gone hdead)
        started := fun hs => hc.started fun hnone => hs (map_eq_none_iff.2 hnone)
        rests := hc.rests
        awaiting := nofun
        keepalive := nofun
        pending := fun hp => ⟨rfl, (hc.pending hp).2⟩
        idle := hc.idle
        parked := fun hlive hwait => ⟨(hc.parked hlive hwait).1, rfl⟩ }
  | park h ha => exact { hc with parked := fun _ _ => ⟨h, ha⟩ }
  | retreat h ha =>
    exact hc.restate ha (by decide) (by decide) (fun hp => absurd hp (by rw [h]; decide))
      (fun _ => by rw [h]; decide) fun _ => rfl
  | proceed h ha hr =>
    obtain ⟨hnext, hinit, hidle, hplayed⟩ := h.state
    have hc' : Settled { c with describeWaitingForStun := false } := { hc with parked := nofun }
    exact (hc'.prepare_idle hnext hinit hidle ha hplayed (.inl rfl)).setOut true
  | play h ha =>
    exact hc.restate ha (by decide) (by decide) (fun _ => by decide)
      (fun h => absurd h (by decide)) fun heq => absurd (h.symm.trans heq) (by decide)
  | keepalive h hlen ha hp hk hr =>
    have hc' : Settled { c with keepalivePending := true } :=
      { hc with pending := fun _ => ⟨ha, by rw [h]; decide⟩ }
    exact (hc'.prepare (by decide) (by decide) (by decide) (fun _ => by decide) (fun _ => by decide)
      (fun _ => by decide) (hc.not_parked (by rw [h]; decide))).setOut true
  | waste r parked hlen hparked =>
    exact { hc with parked := fun hlive hwait => hc.parked hlive (hparked hwait) }

theorem RetryUnarmed.settled {c c' : Control} (h : RetryUnarmed c c') (hc : Settled c) :
    Settled c' := by
  obtain ⟨h, ha, hw, hr⟩ := h
  obtain ⟨hnext, hinit, hidle, hplayed⟩ := h.state
  exact hc.prepare_idle hnext hinit hidle ha hplayed (.inl hw)

theorem Redirected.settled {c c' : Control} (h : Redirected c c') (hc : Settled c) :
    Settled c' := by
  obtain ⟨hlive, h, ha, hp, hk, hw⟩ := h
  exact hc.dialed hlive (by decide) (by decide) (by decide)
    (fun h => absurd (ha.symm.trans h) (by decide)) (fun h => absurd (hk.symm.trans h) (by decide))
    (fun h => absurd (hp.symm.trans h) (by decide)) (.inl hw)

theorem TeardownBegun.settled {here again : Prop} {c c' : Control}
    (h : TeardownBegun here again c c') (hc : Settled c) : Settled c' := by
  cases h with
  | prepared h hu hr =>
    have hc' : Settled { c.forgotten with teardownRequested := true } :=
      { hc with
        awaiting := nofun
        keepalive := nofun
        pending := nofun
        parked := fun hlive hwait => ⟨(hc.parked hlive hwait).1, rfl⟩ }
    exact (hc'.prepare (by decide) (by decide) (by decide) (fun _ => by decide) (fun _ => by decide)
      (fun _ => by decide) (hc.not_parked (by rw [h]; decide))).setOut true
  | redialed hlive h hu =>
    have hc' : Settled { c with teardownRequested := true } := { hc with }
    exact hc'.dialed hlive (by decide) (by decide) (by decide) (fun _ => by decide)
      (fun _ => by decide) (fun _ => by decide) (hc.not_parked (by rw [h]; decide))

theorem ControlMoves.settled {retries redirects : Prop} {c c' : Control}
    (h : ControlMoves retries redirects c c') (hc : Settled c) : Settled c' := by
  induction h with
  | refl => exact hc
  | tail _ hmove ih =>
    rcases hmove with hmove | ⟨-, hmove⟩ | ⟨-, hmove⟩
    · exact hmove.settled ih
    · exact hmove.settled ih
    · exact hmove.settled ih

end Apackage.Rtp2httpd.Rtsp
