import Apackage.Rtp2httpd.Rtsp.Contained

/-
  Whether the interleaved receiver always gets room for new data (`rtsp_handle_tcp_interleaved_data`
  in `rtsp.c`).

  A full buffer is left as it is when a frame is announced that is longer than the buffer, when it
  starts with something that is neither a frame nor a request, and when a request in it has no end;
  otherwise it is `Drainable`. A frame that is too long stays for good (`oversized_for_good`).

  Model. A run is made of the calls while no response is awaited. What `recv` finds is a list: data
  of any length, of which it takes as much as there is room for, or the end of the data.
-/

namespace Apackage.Rtp2httpd.Rtsp

open List Option Receiver

variable {σ : Type*}

/-- What the socket has: `again` is `EAGAIN`, `closed` an error or the end of the stream. -/
inductive Recv
  | data (bytes : Bytes)
  | again
  | closed

/-- How the loop around `recv` ends. -/
inductive FillEnd
  | full
  | again
  | closed
  deriving DecidableEq

/-- `recv` to `response_buffer + response_buffer_pos`. -/
def Receiver.receive (bytes : Bytes) (s : Receiver σ) : Receiver σ :=
  { s with
    responseBuffer := s.responseBuffer.take s.responseBufferPos ++ bytes ++
      s.responseBuffer.drop (s.responseBufferPos + bytes.length)
    responseBufferPos := s.responseBufferPos + bytes.length }

/-- `Fill response buffer from socket`; the list that is left comes last. -/
def fill (s : Receiver σ) : List Recv → Receiver σ × FillEnd × List Recv
  | [] => (s, if s.responseBufferPos < rtspResponseBufferSize then .again else .full, [])
  | r :: rest =>
    if s.responseBufferPos < rtspResponseBufferSize then
      match r with
      | .again => (s, .again, rest)
      | .closed => (s, .closed, rest)
      | .data bytes =>
        let room := rtspResponseBufferSize - s.responseBufferPos
        if bytes = [] then (s, .closed, rest)
        else if bytes.length ≤ room then fill (s.receive bytes) rest
        else (s.receive (bytes.take room), .full, .data (bytes.drop room) :: rest)
    else (s, .full, r :: rest)

/-- The bytes that wait in the socket, and one for each item. -/
def weight : List Recv → ℕ
  | [] => 0
  | .data bytes :: rest => bytes.length + 1 + weight rest
  | _ :: rest => 1 + weight rest

theorem fill_full {s : Receiver σ} (hs : ¬ s.responseBufferPos < rtspResponseBufferSize)
    (script : List Recv) : fill s script = (s, .full, script) := by
  cases script with
  | nil => rw [fill, if_neg hs]
  | cons r rest => cases r <;> rw [fill, if_neg hs]

theorem fill_weight {s s' : Receiver σ} {script rest : List Recv}
    (hs : s.responseBufferPos < rtspResponseBufferSize) (h : fill s script = (s', .full, rest)) :
    weight rest < weight script := by
  induction script generalizing s with
  | nil =>
    rw [fill, if_pos hs] at h
    cases h
  | cons r script ih =>
    cases r with
    | again => rw [fill, if_pos hs] at h; cases h
    | closed => rw [fill, if_pos hs] at h; cases h
    | data bytes =>
      rw [fill, if_pos hs] at h
      split at h
      · cases h
      dsimp only at h
      split at h
      · by_cases hmore : (s.receive bytes).responseBufferPos < rtspResponseBufferSize
        · have hlt := ih hmore h
          simp only [weight]
          omega
        · rw [fill_full hmore] at h
          obtain ⟨-, -, rfl⟩ := h
          simp only [weight]
          omega
      · obtain ⟨-, -, rfl⟩ := h
        simp only [weight, length_drop]
        omega

theorem round_decreases {s s' s'' : Receiver σ} {script rest : List Recv}
    (hfill : fill s script = (s', .full, rest))
    (hroom : ¬ s''.responseBufferPos ≥ rtspResponseBufferSize) :
    (weight rest + if s''.responseBufferPos < rtspResponseBufferSize then 0 else 1) <
      weight script + if s.responseBufferPos < rtspResponseBufferSize then 0 else 1 := by
  rw [if_pos (not_le.1 hroom)]
  by_cases hs : s.responseBufferPos < rtspResponseBufferSize
  · rw [if_pos hs]
    exact fill_weight hs hfill
  · rw [fill_full hs] at hfill
    obtain ⟨-, -, rfl⟩ := hfill
    rw [if_neg hs]
    omega

/-- How a call ends: with a number of bytes, or with a negative result. -/
inductive Handled (σ : Type*)
  | returned (total : ℤ) (s : Receiver σ)
  | ended (s : Receiver σ)
  | underflow

/-- Where a call waits for the client: `connection_should_pause_upstream` and
    `rtsp_pause_upstream`. -/
structure Backpressure (σ : Type*) where
  shouldPause : σ → Bool
  pause : σ → σ

def rtspHandleTcpInterleavedData (m : MediaPath σ) (p : Backpressure σ) (total : ℤ)
    (s : Receiver σ) (script : List Recv) : Handled σ :=
  if p.shouldPause s.world then .returned total { s with world := p.pause s.world }
  else
    match _hfill : fill s script with
    | (s', filled, rest) =>
      match rtspProcessInterleavedBuffer m s' with
      | .announced s'' => .ended s''
      | .underflow | .outOfFuel => .underflow
      | .forwarded bytes s'' =>
        match filled with
        | .closed => .ended s''
        | .again => .returned (total + bytes) s''
        | .full =>
          if _hroom : s''.responseBufferPos ≥ rtspResponseBufferSize then
            .returned (total + bytes) s''
          else rtspHandleTcpInterleavedData m p (total + bytes) s'' rest
termination_by weight script + if s.responseBufferPos < rtspResponseBufferSize then 0 else 1
decreasing_by exact round_decreases _hfill _hroom

/-! ## A full buffer -/

/-- The call that looks at the buffer takes something off, if it returns to the loop. -/
def NotWedged (m : MediaPath σ) (s : Receiver σ) : Prop :=
  ∀ bytes s', rtspProcessInterleavedBuffer m s = .forwarded bytes s' →
    s'.responseBufferPos < s.responseBufferPos

/-- A frame that is all there, or a request with its end. -/
def Drainable (s : Receiver σ) : Prop :=
  if s.byte 0 = dollar then 4 + s.packetLength ≤ s.responseBufferPos
  else isServerRequest s = true ∧ strstr headerEnd s.text ≠ none

section Full

variable {m : MediaPath σ} {s : Receiver σ}

theorem resync_pos (h : 0 < s.responseBufferPos) :
    (resync s).responseBufferPos < s.responseBufferPos := by
  unfold resync
  split
  · show s.responseBufferPos - _ < s.responseBufferPos
    omega
  · exact h

theorem turn_pos {s' : Receiver σ} (h : (turn m s).state = some s') :
    s'.responseBufferPos ≤ s.responseBufferPos := by
  unfold turn at h
  split at h
  · exact some.inj h ▸ Nat.le_refl _
  rename_i hfew
  split at h
  · unfold requestTurn at h
    split at h
    · split at h
      · dsimp only at h
        split at h
        · cases h
        split at h
        · exact some.inj h ▸ Nat.sub_le _ _
        · exact some.inj h ▸ Nat.sub_le _ _
      · exact some.inj h ▸ Nat.le_refl _
    · exact some.inj h ▸ Nat.le_refl _
  split at h
  · exact some.inj h ▸ Nat.le_refl _
  split at h
  · exact some.inj h ▸ (resync_pos (by omega)).le
  · rw [← some.inj h]
    have hkeeps := (deliver_keeps m (s.byte 1).toNat
      ((s.responseBuffer.drop 4).take s.packetLength) s).2.1
    show (deliver m _ _ s).2.responseBufferPos - _ ≤ _
    omega

theorem rounds_pos {fuel : ℕ} {bytes bytes' : ℤ} {s' : Receiver σ}
    (h : rounds (turn m) fuel bytes s = .forwarded bytes' s') :
    s'.responseBufferPos ≤ s.responseBufferPos := by
  induction fuel generalizing bytes s with
  | zero => cases h
  | succ fuel ih =>
    rw [rounds] at h
    split at h
    · rename_i hnext
      exact (ih h).trans (turn_next_lt hnext).le
    · rename_i hstop
      obtain ⟨-, rfl⟩ := Processed.forwarded.inj h
      exact turn_pos (by rw [hstop]; rfl)
    · cases h
    · cases h

theorem notWedged_iff (h : 4 ≤ s.responseBufferPos) : NotWedged m s ↔ Drainable s := by
  have hfew : ¬ s.responseBufferPos < 4 := not_lt.2 h
  have hstop : turn m s = .stop s → ¬ NotWedged m s := fun hturn hprogress => by
    have hprocess : rtspProcessInterleavedBuffer m s = .forwarded 0 s := by
      unfold rtspProcessInterleavedBuffer
      rw [rounds, hturn]
    exact absurd (hprogress 0 s hprocess) (Nat.lt_irrefl _)
  have hgoes : ∀ t : Turn σ, turn m s = t →
      (∀ s', t = .stop s' → s'.responseBufferPos < s.responseBufferPos) → NotWedged m s := by
    intro t hturn hlt bytes s' hprocess
    unfold rtspProcessInterleavedBuffer at hprocess
    rw [rounds, hturn] at hprocess
    cases t with
    | next pb s₁ => exact (rounds_pos hprocess).trans_lt (turn_next_lt hturn)
    | stop s₁ =>
      obtain ⟨-, rfl⟩ := Processed.forwarded.inj hprocess
      exact hlt _ rfl
    | announced s₁ => cases hprocess
    | underflow => cases hprocess
  unfold Drainable
  by_cases hdollar : s.byte 0 = dollar
  · rw [if_pos hdollar]
    constructor
    · intro hprogress
      by_contra hshort
      refine hstop ?_ hprogress
      unfold turn
      rw [if_neg hfew, if_neg (not_not.2 hdollar), if_pos (not_le.1 hshort)]
    · intro hall
      refine hgoes _ rfl fun s' hs' => ?_
      unfold turn at hs'
      rw [if_neg hfew, if_neg (not_not.2 hdollar), if_neg (not_lt.2 hall)] at hs'
      split at hs'
      · obtain rfl := Turn.stop.inj hs'
        exact resync_pos (by omega)
      · cases hs'
  · rw [if_neg hdollar]
    have hrequest : turn m s = requestTurn s := by
      unfold turn
      rw [if_neg hfew, if_pos hdollar]
    constructor
    · intro hprogress
      by_contra hnot
      refine hstop (hrequest.trans ?_) hprogress
      unfold requestTurn
      split
      · rename_i hreq
        have hnone : strstr headerEnd s.text = none := by
          tauto
        rw [hnone]
      · rfl
    · rintro ⟨hreq, hsome⟩
      refine hgoes _ hrequest fun s' hs' => ?_
      obtain ⟨endMarker, hend⟩ := Option.ne_none_iff_exists'.1 hsome
      unfold requestTurn at hs'
      rw [if_pos hreq, hend] at hs'
      dsimp only at hs'
      split at hs'
      · cases hs'
      split at hs' <;> cases hs'

end Full

/-! ## A call -/

/-- The buffers that a call hands to `rtsp_process_interleaved_buffer`. -/
inductive HandsOver (m : MediaPath σ) (p : Backpressure σ) :
    Receiver σ → List Recv → Receiver σ → Prop
  | first {s s' : Receiver σ} {script rest : List Recv} {filled : FillEnd}
      (hruns : ¬ p.shouldPause s.world = true) (hfill : fill s script = (s', filled, rest)) :
      HandsOver m p s script s'
  | again {s s' s'' t : Receiver σ} {script rest : List Recv} {bytes : ℤ}
      (hruns : ¬ p.shouldPause s.world = true) (hfill : fill s script = (s', .full, rest))
      (hprocess : rtspProcessInterleavedBuffer m s' = .forwarded bytes s'')
      (hroom : ¬ s''.responseBufferPos ≥ rtspResponseBufferSize)
      (h : HandsOver m p s'' rest t) : HandsOver m p s script t

section Call

variable {m : MediaPath σ} {p : Backpressure σ} {s s' : Receiver σ} {script rest : List Recv}

theorem fill_pos {filled : FillEnd} (hs : s.responseBufferPos ≤ rtspResponseBufferSize)
    (h : fill s script = (s', filled, rest)) :
    (filled = .full → s'.responseBufferPos = rtspResponseBufferSize) ∧
      (filled ≠ .full → s'.responseBufferPos < rtspResponseBufferSize) := by
  induction script generalizing s with
  | nil =>
    rw [fill] at h
    obtain ⟨rfl, rfl, -⟩ := h
    split
    · tauto
    · rename_i hlt
      exact ⟨fun _ => by omega, fun hne => absurd rfl hne⟩
  | cons r script ih =>
    by_cases hlt : s.responseBufferPos < rtspResponseBufferSize
    · cases r with
      | again =>
        rw [fill, if_pos hlt] at h
        obtain ⟨rfl, rfl, -⟩ := h
        exact ⟨fun hfull => (by cases hfull), fun _ => hlt⟩
      | closed =>
        rw [fill, if_pos hlt] at h
        obtain ⟨rfl, rfl, -⟩ := h
        exact ⟨fun hfull => (by cases hfull), fun _ => hlt⟩
      | data bytes =>
        rw [fill, if_pos hlt] at h
        split at h
        · obtain ⟨rfl, rfl, -⟩ := h
          exact ⟨fun hfull => (by cases hfull), fun _ => hlt⟩
        dsimp only at h
        split at h
        · refine ih ?_ h
          show s.responseBufferPos + bytes.length ≤ rtspResponseBufferSize
          omega
        · obtain ⟨rfl, rfl, -⟩ := h
          refine ⟨fun _ => ?_, fun hne => absurd rfl hne⟩
          show s.responseBufferPos + (bytes.take _).length = rtspResponseBufferSize
          rw [length_take]
          omega
    · rw [fill_full hlt] at h
      obtain ⟨rfl, rfl, -⟩ := h
      exact ⟨fun _ => by omega, fun hne => absurd rfl hne⟩

theorem process_pos {bytes : ℤ} (h : rtspProcessInterleavedBuffer m s = .forwarded bytes s') :
    s'.responseBufferPos ≤ s.responseBufferPos := rounds_pos h

theorem call_room {total total' : ℤ} (hs : s.responseBufferPos < rtspResponseBufferSize)
    (hprogress : ∀ t, HandsOver m p s script t → t.responseBufferPos = rtspResponseBufferSize →
      NotWedged m t)
    (h : rtspHandleTcpInterleavedData m p total s script = .returned total' s') :
    s'.responseBufferPos < rtspResponseBufferSize := by
  induction hn : weight script using Nat.strongRecOn generalizing total s script with
  | ind n ih =>
    rw [rtspHandleTcpInterleavedData] at h
    split at h
    · obtain ⟨-, rfl⟩ := Handled.returned.inj h
      exact hs
    rename_i hruns
    split at h
    rename_i s₁ filled rest hfill
    obtain ⟨hfull, hroom⟩ := fill_pos hs.le hfill
    split at h
    · cases h
    · cases h
    · cases h
    rename_i bytes s₂ hprocess
    split at h
    · cases h
    · obtain ⟨-, rfl⟩ := Handled.returned.inj h
      exact (process_pos hprocess).trans_lt (hroom (by decide))
    · have hlt : s₂.responseBufferPos < rtspResponseBufferSize := by
        have hless := hprogress s₁ (HandsOver.first hruns hfill) (hfull rfl) bytes s₂ hprocess
        rwa [hfull rfl] at hless
      split at h
      · exact absurd hlt (by omega)
      · rename_i hmore
        refine ih (weight rest) (hn ▸ fill_weight hs hfill) hlt ?_ h rfl
        exact fun t ht => hprogress t (HandsOver.again hruns hfill hprocess hmore ht)

end Call

/-! ## Runs -/

/-- Data for the socket, or a change outside of the receiver. -/
inductive PlayEvent (σ : Type*)
  | readable (script : List Recv)
  | elsewhere (behind : Bytes) (world : σ)

/-- In the run no full buffer is left as it is, and each call leaves room. -/
def Progresses (m : MediaPath σ) (p : Backpressure σ) : Receiver σ → List (PlayEvent σ) → Prop
  | _, [] => True
  | s, .elsewhere behind world :: events =>
    Progresses m p { s with behind := behind, world := world } events
  | s, .readable script :: events =>
    (∀ t, HandsOver m p s script t → t.responseBufferPos = rtspResponseBufferSize → NotWedged m t) ∧
    ∀ total s', rtspHandleTcpInterleavedData m p 0 s script = .returned total s' →
      s'.responseBufferPos < rtspResponseBufferSize ∧ Progresses m p s' events

/-- In the run every full buffer is drainable. -/
def AllDrainable (m : MediaPath σ) (p : Backpressure σ) : Receiver σ → List (PlayEvent σ) → Prop
  | _, [] => True
  | s, .elsewhere behind world :: events =>
    AllDrainable m p { s with behind := behind, world := world } events
  | s, .readable script :: events =>
    (∀ t, HandsOver m p s script t → t.responseBufferPos = rtspResponseBufferSize → Drainable t) ∧
    ∀ total s', rtspHandleTcpInterleavedData m p 0 s script = .returned total s' →
      AllDrainable m p s' events

section Runs

variable {m : MediaPath σ} {p : Backpressure σ}

/-- A run makes progress exactly when each of its full buffers is drainable. -/
theorem progresses_iff {s : Receiver σ} {events : List (PlayEvent σ)}
    (hs : s.responseBufferPos < rtspResponseBufferSize) :
    Progresses m p s events ↔ AllDrainable m p s events := by
  induction events generalizing s with
  | nil => exact Iff.rfl
  | cons event events ih =>
    cases event with
    | elsewhere behind world => exact ih (s := { s with behind := behind, world := world }) hs
    | readable script =>
      have hfull : ∀ t : Receiver σ, t.responseBufferPos = rtspResponseBufferSize →
          (NotWedged m t ↔ Drainable t) := fun t ht =>
        notWedged_iff (ht ▸ (by decide : 4 ≤ rtspResponseBufferSize))
      constructor
      · rintro ⟨hprogress, hrest⟩
        refine ⟨fun t ht hpos => (hfull t hpos).1 (hprogress t ht hpos), fun total s' h => ?_⟩
        obtain ⟨hroom, hgoes⟩ := hrest total s' h
        exact (ih hroom).1 hgoes
      · rintro ⟨hdrainable, hrest⟩
        have hprogress : ∀ t, HandsOver m p s script t →
            t.responseBufferPos = rtspResponseBufferSize → NotWedged m t := fun t ht hpos =>
          (hfull t hpos).2 (hdrainable t ht hpos)
        refine ⟨hprogress, fun total s' h => ?_⟩
        have hroom := call_room hs hprogress h
        exact ⟨hroom, (ih hroom).2 (hrest total s' h)⟩

/-- The receiver after a run; none if the session has ended. -/
def play (m : MediaPath σ) (p : Backpressure σ) : Receiver σ → List (PlayEvent σ) →
    Option (Receiver σ)
  | s, [] => some s
  | s, .elsewhere behind world :: events => play m p { s with behind := behind, world := world } events
  | s, .readable script :: events =>
    match rtspHandleTcpInterleavedData m p 0 s script with
    | .returned _ s' => play m p s' events
    | .ended _ => none
    | .underflow => none

/-- A frame that is longer than the buffer. -/
def Oversized (s : Receiver σ) : Prop :=
  s.responseBufferPos = rtspResponseBufferSize ∧ s.byte 0 = dollar ∧
    rtspResponseBufferSize < 4 + s.packetLength

/-- Such a frame stays in the full buffer for good, whatever the server sends. -/
theorem oversized_for_good {s : Receiver σ} (hs : Oversized s) (events : List (PlayEvent σ)) :
    ∃ s', play m p s events = some s' ∧ Oversized s' ∧ s'.responseBuffer = s.responseBuffer := by
  induction events generalizing s with
  | nil => exact ⟨s, rfl, hs, rfl⟩
  | cons event events ih =>
    cases event with
    | elsewhere behind world => exact ih (s := { s with behind := behind, world := world }) hs
    | readable script =>
      obtain ⟨hpos, hdollar, hlong⟩ := hs
      have hprocess : rtspProcessInterleavedBuffer m s = .forwarded 0 s := by
        have hturn : turn m s = .stop s := by
          unfold turn
          rw [if_neg (by rw [hpos]; decide), if_neg (not_not.2 hdollar),
            if_pos (by rw [hpos]; exact hlong)]
        unfold rtspProcessInterleavedBuffer
        rw [rounds, hturn]
      have hcall : ∃ total s', rtspHandleTcpInterleavedData m p 0 s script = .returned total s' ∧
          Oversized s' ∧ s'.responseBuffer = s.responseBuffer := by
        rw [rtspHandleTcpInterleavedData]
        split
        · exact ⟨0, _, rfl, ⟨hpos, hdollar, hlong⟩, rfl⟩
        · split
          rename_i s₁ filled rest hfill
          rw [fill_full (by rw [hpos]; exact Nat.lt_irrefl _)] at hfill
          obtain ⟨rfl, rfl, rfl⟩ := hfill
          simp only [hprocess]
          rw [dif_pos hpos.ge]
          exact ⟨_, s, rfl, ⟨hpos, hdollar, hlong⟩, rfl⟩
      obtain ⟨total, s', hreturned, hover, hsame⟩ := hcall
      obtain ⟨t, hplay, hover', hsame'⟩ := ih hover
      refine ⟨t, ?_, hover', hsame'.trans hsame⟩
      rw [play, hreturned]
      exact hplay

end Runs

/-- A client that can always take data. -/
def noBackpressure : Backpressure Unit where
  shouldPause := fun _ => false
  pause := fun world => world

def emptyReceiver : Receiver Unit :=
  { staleRequest with
    responseBuffer := List.replicate rtspResponseBufferSize 0
    responseBufferPos := 0 }

section Filled

variable {bytes : Bytes} (hlen : bytes.length = rtspResponseBufferSize)

include hlen

theorem receive_full : (emptyReceiver.receive bytes).responseBufferPos =
    rtspResponseBufferSize := by
  have hsum : (emptyReceiver.receive bytes).responseBufferPos =
      emptyReceiver.responseBufferPos + bytes.length := rfl
  rw [hsum, hlen]
  rfl

theorem fill_emptyReceiver (rest : List Recv) : fill emptyReceiver (.data bytes :: rest) =
    (emptyReceiver.receive bytes, .full, rest) := by
  have hroom : ¬ (emptyReceiver.receive bytes).responseBufferPos < rtspResponseBufferSize := by
    rw [receive_full hlen]
    exact Nat.lt_irrefl _
  have hne : bytes ≠ [] := ne_nil_of_length_pos (by rw [hlen]; decide)
  rw [fill, if_pos (by decide), if_neg hne]
  rw [if_pos (by rw [hlen]; decide), fill_full hroom]

end Filled

/-- The longest frame that is taken off. -/
def longestFrame : Bytes := [dollar, 0, 0x0F, 0xFC] ++ List.replicate 4092 0

/-- It fills the buffer, and there is room again when the next call of `recv` finds nothing. -/
theorem longestFrame_progresses :
    Progresses quietPath noBackpressure emptyReceiver [.readable [.data longestFrame, .again]] := by
  have hlen : longestFrame.length = rtspResponseBufferSize := by
    unfold longestFrame
    rw [length_append, length_replicate]
    rfl
  have hdrainable : Drainable (emptyReceiver.receive longestFrame) := by
    unfold Drainable
    have hdollar : (emptyReceiver.receive longestFrame).byte 0 = dollar := rfl
    have hlong : (emptyReceiver.receive longestFrame).packetLength = 4092 := rfl
    rw [if_pos hdollar, hlong, receive_full hlen]
    exact Nat.le_refl 4096
  refine (progresses_iff (by decide)).2 ⟨fun t ht hpos => ?_, fun _ _ _ => trivial⟩
  cases ht with
  | first _ hfill =>
    rw [fill_emptyReceiver hlen] at hfill
    obtain ⟨rfl, -, -⟩ := hfill
    exact hdrainable
  | again _ hfill _ hroom h =>
    rw [fill_emptyReceiver hlen] at hfill
    obtain ⟨-, -, rfl⟩ := hfill
    cases h with
    | first _ hfill =>
      rw [fill, if_pos (not_le.1 hroom)] at hfill
      obtain ⟨rfl, -, -⟩ := hfill
      exact absurd hpos.ge hroom
    | again _ hfill _ _ _ =>
      rw [fill, if_pos (not_le.1 hroom)] at hfill
      cases hfill

/-- The first bytes of a frame of 65535 bytes. -/
def oversizedFrame : Bytes := [dollar, 0, 0xFF, 0xFF] ++ List.replicate 4092 0

/-- The buffer is full, and the frame is waited for. -/
theorem oversized_wedges :
    ¬ Progresses quietPath noBackpressure emptyReceiver [.readable [.data oversizedFrame]] := by
  have hlen : oversizedFrame.length = rtspResponseBufferSize := by
    unfold oversizedFrame
    rw [length_append, length_replicate]
    rfl
  have hpos := receive_full hlen
  intro h
  have hprogress := h.1 _ (HandsOver.first (by decide) (fill_emptyReceiver hlen [])) hpos
  have hdollar : (emptyReceiver.receive oversizedFrame).byte 0 = dollar := rfl
  have hlong : (emptyReceiver.receive oversizedFrame).packetLength = 65535 := rfl
  have hdrainable := (notWedged_iff (by rw [hpos]; decide)).1 hprogress
  unfold Drainable at hdrainable
  rw [if_pos hdollar, hlong, hpos] at hdrainable
  exact absurd hdrainable (by decide)

theorem oversized_for_good_frame :
    ∃ s', play quietPath noBackpressure (emptyReceiver.receive oversizedFrame)
        [.readable [.data oversizedFrame, .closed]] = some s' ∧ Oversized s' ∧
      s'.responseBuffer = (emptyReceiver.receive oversizedFrame).responseBuffer :=
  oversized_for_good ⟨by decide +kernel, rfl, by decide +kernel⟩ _

end Apackage.Rtp2httpd.Rtsp
