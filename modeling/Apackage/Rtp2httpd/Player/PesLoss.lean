import Apackage.Rtp2httpd.Player.TsSlices
import Mathlib.Data.List.Flatten

/-
  Which PES packets of a lossy stream are handed over.

  `sent` are the packets of a stream, each one marked as lost or not. Of a run of lost packets of a
  pid the next one that arrives tells, unless its length is 0 or 15 modulo 16 (`Noticed`). `marks`
  are the packets sent for one pid; each one knows how many losses on other video pids were told
  before it, since these delete the queues of the audio pids.

  Exactly the PES packets that survive (`Survives`) are handed over, in order
  (`pesOf_eq_survivors`): for one pid the demuxer is a machine that deletes its queue at a loss
  (`pidStep`).
-/

namespace Apackage.Rtp2httpd.Player

open Function List Option Lib Lib.Run

def TsPacket.payloadBytes (p : TsPacket) : List UInt8 :=
  (p.tsPayloadStartIndex.map p.payload).getD []

/-! ## The stream -/

/-- The next packet that arrives tells that so many packets of its pid were lost before it. -/
def Noticed (n : ℕ) : Prop := n = 0 ∨ n % 16 ≠ 0 ∧ n % 16 ≠ 15
  deriving Decidable

/-- The number of packets of a pid lost since the last one that arrived, if any did. -/
def lostSince (lost : Bool) (n : Option ℕ) : Option ℕ :=
  if lost then n.map (· + 1) else some 0

section Stream

variable (tracks : TsTracks)

/-- The packet has a payload of a PES track. -/
def TsTracks.relevant (p : TsPacket) : Bool :=
  p.tsPayloadStartIndex.isSome && tracks.carriesPes p.pid

/-- The packets of a pid are numbered from `c` on, none has the discontinuity indicator, and each
    one that arrives tells of a loss before it. -/
def Sendable : (ℕ → ℕ) → (ℕ → Option ℕ) → List (TsPacket × Bool) → Prop
  | _, _, [] => True
  | c, l, (p, lost) :: sent =>
    if tracks.relevant p then
      (p.continuityCounter = c p.pid % 16 ∧ p.discontinuityIndicator ≠ some 1 ∧
        (lost = false → Noticed ((l p.pid).getD 0))) ∧
      Sendable (Function.update c p.pid (c p.pid + 1))
        (Function.update l p.pid (lostSince lost (l p.pid))) sent
    else Sendable c l sent

instance decidableSendable : ∀ (c : ℕ → ℕ) (l : ℕ → Option ℕ) (sent : List (TsPacket × Bool)),
    Decidable (Sendable tracks c l sent)
  | _, _, [] => isTrue trivial
  | c, l, (p, lost) :: sent =>
    have := decidableSendable (Function.update c p.pid (c p.pid + 1))
      (Function.update l p.pid (lostSince lost (l p.pid))) sent
    have := decidableSendable c l sent
    inferInstanceAs (Decidable (if tracks.relevant p then _ ∧ _ else _))

/-- A packet of one pid, and the losses of other video pids told before it. -/
structure Marked where
  packet : TsPacket
  lost : Bool
  gaps : ℕ

/-- The packet arrives on another video pid and tells of a loss. -/
def gapAt (pid : ℕ) (l : ℕ → Option ℕ) (p : TsPacket) (lost : Bool) : Bool :=
  p.pid != pid && tracks.isVideoPid p.pid && !lost && 0 < (l p.pid).getD 0

def marks (pid : ℕ) : (ℕ → Option ℕ) → ℕ → List (TsPacket × Bool) → List Marked
  | _, _, [] => []
  | l, gaps, (p, lost) :: sent =>
    if tracks.relevant p then
      (if p.pid = pid then [⟨p, lost, gaps⟩] else []) ++
        marks pid (Function.update l p.pid (lostSince lost (l p.pid)))
          (if gapAt tracks pid l p lost then gaps + 1 else gaps) sent
    else marks pid l gaps sent

def arriving (sent : List (TsPacket × Bool)) : List TsPacket :=
  (sent.filter fun s => !s.2).map Prod.fst

end Stream

/-! ## PES packets -/

def pesLength (bytes : List UInt8) : ℕ :=
  (bytes[4]?.getD 0).toNat <<< 8 ||| (bytes[5]?.getD 0).toNat

/-- A PES packet as it is sent: its first packet holds the six bytes before the payload. -/
structure SentPes where
  first : Marked
  rest : List Marked
  first_start : first.packet.payloadUnitStartIndicator ≠ 0
  rest_start : ∀ m ∈ rest, m.packet.payloadUnitStartIndicator = 0
  rest_ne : ∀ m ∈ rest, m.packet.payloadBytes ≠ []
  header : 6 ≤ first.packet.payloadBytes.length
  start_code : first.packet.payloadBytes.take 3 = [0, 0, 1]
  length_eq : pesLength first.packet.payloadBytes ≠ 0 →
    (first.packet.payloadBytes ++ rest.flatMap fun m => m.packet.payloadBytes).length =
      pesLength first.packet.payloadBytes + 6

namespace SentPes

variable (pes : SentPes)

def packets : List Marked := pes.first :: pes.rest

def bytes : List UInt8 :=
  pes.first.packet.payloadBytes ++ pes.rest.flatMap fun m => m.packet.payloadBytes

/-- The number of bytes, 0 if the next start ends the packet. -/
def expected : ℕ :=
  if pesLength pes.first.packet.payloadBytes = 0 then 0
  else pesLength pes.first.packet.payloadBytes + 6

end SentPes

/-- The packet arrives, and on an audio pid no loss of a video pid was told since the packet with
    `gaps`. -/
def Arrives (audio : Bool) (gaps : ℕ) (m : Marked) : Prop :=
  m.lost = false ∧ (audio = true → m.gaps = gaps)
  deriving Decidable

/-- All packets of a PES packet arrive; if it has no length, the next start arrives as well. -/
def Survives (audio : Bool) (pes : SentPes) (next : Option SentPes) : Prop :=
  (∀ m ∈ pes.packets, Arrives audio pes.first.gaps m) ∧
    (pes.expected = 0 → ∃ n, next = some n ∧ Arrives audio pes.first.gaps n.first)
  deriving Decidable

def survivors (audio : Bool) : List SentPes → List SentPes
  | [] => []
  | pes :: rest => (if Survives audio pes rest.head? then [pes] else []) ++ survivors audio rest

theorem survivors_sublist (audio : Bool) (pess : List SentPes) :
    (survivors audio pess).Sublist pess := by
  induction pess with
  | nil => exact List.Sublist.slnil
  | cons pes rest ih =>
    rw [survivors]
    split
    · exact ih.cons_cons pes
    · exact ih.cons pes

/-! ## One packet -/

def PesSlices.handed (s : PesSlices) : List (List UInt8) := s.parsed.map PESData.data

/-- The queue will not be emitted. -/
def Dead (sliceQueue : Option SliceQueue) : Prop :=
  ∀ queue, sliceQueue = some queue → queue.expectedLength < 0

/-- The queue holds the first bytes of a PES packet of `e` bytes, or of one without a length. -/
def Holding (sliceQueue : Option SliceQueue) (got : List UInt8) (e : ℕ) : Prop :=
  ∃ queue, sliceQueue = some queue ∧ queue.data = got ∧ queue.expectedLength = e ∧
    (e ≠ 0 → got.length < e)

theorem dead_none : Dead none := fun _ h => absurd h.symm (some_ne_none _)

theorem dead_clearSlices (queue : SliceQueue) : Dead (some queue.clearSlices) := by
  intro queue' h
  rw [← some.inj h]
  exact (by decide : (-1 : ℤ) < 0)

section Queue

variable (pid : ℕ) (streamType : Option ℕ) {s : PesSlices} {queue : SliceQueue} {e : ℕ}

theorem handed_emit : (s.emitPESSlices pid streamType queue).handed = s.handed ++ [queue.data] := by
  rw [PesSlices.handed, PesSlices.emitPESSlices, map_append]
  rfl

theorem finish_dead (h : Dead s.sliceQueue) : (s.finish pid streamType).handed = s.handed := by
  rw [PesSlices.finish]
  split
  · rfl
  · rename_i queue hqueue
    have hneg := h queue hqueue
    rw [if_neg (by omega)]
    rfl

theorem finish_holding {got : List UInt8} (h : Holding s.sliceQueue got 0) :
    (s.finish pid streamType).handed = s.handed ++ [got] := by
  obtain ⟨queue, hqueue, hdata, he, -⟩ := h
  rw [PesSlices.finish, hqueue]
  dsimp only
  rw [if_pos (.inl (by rw [he]; rfl)), handed_emit, hdata]

theorem settle_holding (he : queue.expectedLength = e) (h : e ≠ 0 → queue.data.length < e) :
    Holding (s.settle pid streamType queue).sliceQueue queue.data e ∧
      (s.settle pid streamType queue).handed = s.handed := by
  have hlen : e ≠ 0 → queue.totalLength < e := by rwa [SliceQueue.length_data] at h
  rw [PesSlices.settle, if_neg (by omega), if_neg (by omega)]
  exact ⟨⟨queue, rfl, rfl, he, h⟩, rfl⟩

theorem settle_emits (he : queue.expectedLength = e) (hpos : e ≠ 0) (h : queue.data.length = e) :
    Dead (s.settle pid streamType queue).sliceQueue ∧
      (s.settle pid streamType queue).handed = s.handed ++ [queue.data] := by
  rw [SliceQueue.length_data] at h
  rw [PesSlices.settle, if_pos (by omega)]
  exact ⟨dead_clearSlices queue, handed_emit pid streamType⟩

theorem settle_dead (he : queue.expectedLength < 0) :
    Dead (s.settle pid streamType queue).sliceQueue ∧
      (s.settle pid streamType queue).handed = s.handed := by
  rw [PesSlices.settle, if_neg (by omega), if_neg (by omega)]
  refine ⟨fun queue' h => ?_, rfl⟩
  rwa [← some.inj h]

end Queue

section Packet

variable {p : TsPacket} {start : ℕ} {sliceQueue : Option SliceQueue}

def TsPacket.pesPayload (p : TsPacket) (streamType : Option ℕ) (sliceQueue : Option SliceQueue) :
    PesSlices :=
  match p.tsPayloadStartIndex with
  | none => ⟨sliceQueue, []⟩
  | some start => p.pesSlice streamType start sliceQueue

theorem payloadBytes_ne (h : p.payloadBytes ≠ []) : ∃ start, p.tsPayloadStartIndex = some start ∧
    (p.data start).toList = p.payloadBytes := by
  rw [TsPacket.payloadBytes] at h ⊢
  cases hstart : p.tsPayloadStartIndex with
  | none =>
    rw [hstart] at h
    exact absurd rfl h
  | some start =>
    refine ⟨start, rfl, TsPacket.toList_data ?_⟩
    by_contra hlt
    rw [hstart] at h
    refine h ?_
    show (p.chunk.drop (p.offset + start)).take (188 - start) = []
    rw [Nat.sub_eq_zero_of_le (le_of_not_ge hlt), take_zero]

theorem byteAt_data (h : (p.data start).toList = p.payloadBytes) (i : ℕ) :
    byteAt (p.data start) i = (p.payloadBytes[i]?.getD 0).toNat := by
  rw [byteAt, ArrayView.get?, h]

variable (streamType : Option ℕ)

theorem pesPayload_rest (hne : p.payloadBytes ≠ []) (hpusi : p.payloadUnitStartIndicator = 0) :
    ∃ view : ArrayView UInt8, view.toList = p.payloadBytes ∧
      ∀ sliceQueue, (sliceQueue = none → p.pesPayload streamType sliceQueue = ⟨none, []⟩) ∧
        ∀ queue, sliceQueue = some queue → p.pesPayload streamType sliceQueue =
          (⟨sliceQueue, []⟩ : PesSlices).settle p.pid streamType (queue.push view) := by
  obtain ⟨start, hstart, hdata⟩ := payloadBytes_ne hne
  refine ⟨p.data start, hdata, fun sliceQueue => ⟨?_, ?_⟩⟩
  · rintro rfl
    rw [TsPacket.pesPayload, hstart]
    dsimp only
    rw [TsPacket.pesSlice, handlePESSlice]
    rw [if_neg (not_not.mpr hpusi)]
  · rintro queue rfl
    rw [TsPacket.pesPayload, hstart]
    dsimp only
    rw [TsPacket.pesSlice, handlePESSlice]
    rw [if_neg (not_not.mpr hpusi)]
    rfl

theorem pesPayload_start (pes : SentPes) (sliceQueue : Option SliceQueue) :
    ∃ queue : SliceQueue, queue.data = pes.first.packet.payloadBytes ∧
      queue.expectedLength = pes.expected ∧
      pes.first.packet.pesPayload streamType sliceQueue =
        ((⟨sliceQueue, []⟩ : PesSlices).finish pes.first.packet.pid streamType).settle
          pes.first.packet.pid streamType queue := by
  have hlen := pes.header
  obtain ⟨start, hstart, hdata⟩ := payloadBytes_ne
    (length_pos_iff.mp (lt_of_lt_of_le (by decide : 0 < 6) hlen))
  have hcode : ∀ i < 3, pes.first.packet.payloadBytes[i]? = [0, 0, 1][i]? := fun i hi => by
    rw [← pes.start_code, getElem?_take_of_lt hi]
  have hlength : pesLength pes.first.packet.payloadBytes =
      byteAt (pes.first.packet.data start) 4 <<< 8 ||| byteAt (pes.first.packet.data start) 5 := by
    rw [pesLength, byteAt_data hdata, byteAt_data hdata]
  refine ⟨((SliceQueue.opened ⟨pes.first.packet.pid, pes.first.packet.filePosition,
    pes.first.packet.payloadUnitStartIndicator, pes.first.packet.randomAccessIndicator⟩).push
      (pes.first.packet.data start)).expecting pes.expected, ?_, rfl, ?_⟩
  · rw [SliceQueue.data_expecting, SliceQueue.data_push, SliceQueue.data_opened, nil_append, hdata]
  · rw [TsPacket.pesPayload, hstart]
    dsimp only
    rw [TsPacket.pesSlice]
    unfold handlePESSlice
    rw [if_pos pes.first_start, show pes.first.packet.buffer.subarray _ _ =
      pes.first.packet.data start from rfl, byteAt_data hdata 0, byteAt_data hdata 1,
      byteAt_data hdata 2, hcode 0 (by decide), hcode 1 (by decide), hcode 2 (by decide),
      if_neg (by decide), ← hlength, SentPes.expected]
    split <;> rfl

end Packet

/-! ## One pid -/

/-- The queue of a pid, how many packets were lost and which losses told since the last one that
    arrived, and what was handed over. -/
structure PidState where
  queue : Option SliceQueue
  since : Option ℕ
  gaps : ℕ
  out : List (List UInt8)

section Pid

variable (audio : Bool) (streamType : Option ℕ)

/-- The queue as the next packet that arrives finds it. -/
def PidState.found (a : PidState) (gaps : ℕ) : Option SliceQueue :=
  if (audio && gaps != a.gaps) || 0 < a.since.getD 0 then none else a.queue

def pidStep (a : PidState) (m : Marked) : PidState :=
  if m.lost then { a with since := a.since.map (· + 1) }
  else
    let slices := m.packet.pesPayload streamType (a.found audio m.gaps)
    ⟨slices.sliceQueue, some 0, m.gaps, a.out ++ slices.handed⟩

/-- The next packet that arrives finds nothing to hand over. -/
def Idle (a : PidState) : Prop := Dead a.queue ∨ 0 < a.since.getD 0

/-- The PES packet in the queue waits for the next start. -/
def Waits (a : PidState) (got : List UInt8) : Prop := Holding a.queue got 0 ∧ a.since = some 0

variable {audio streamType} {a : PidState} {m : Marked} {got : List UInt8} {e : ℕ}

theorem pidStep_lost (h : m.lost = true) :
    pidStep audio streamType a m = { a with since := a.since.map (· + 1) } := if_pos h

theorem pidStep_arrives (h : m.lost = false) : pidStep audio streamType a m =
    ⟨(m.packet.pesPayload streamType (a.found audio m.gaps)).sliceQueue, some 0, m.gaps,
      a.out ++ (m.packet.pesPayload streamType (a.found audio m.gaps)).handed⟩ := by
  rw [pidStep, if_neg (by rw [h]; exact Bool.false_ne_true)]

theorem found_idle (h : Idle a) (gaps : ℕ) : Dead (a.found audio gaps) := by
  unfold PidState.found
  split
  · exact dead_none
  · rename_i hkept
    rw [Bool.or_eq_true, not_or, decide_eq_true_iff] at hkept
    exact h.resolve_right hkept.2

theorem found_arrives (hsince : a.since = some 0) (h : Arrives audio a.gaps m) :
    a.found audio m.gaps = a.queue := by
  have hgaps : (audio && m.gaps != a.gaps) = false := by
    cases haudio : audio with
    | false => rfl
    | true => rw [h.2 haudio, bne_self_eq_false, Bool.and_false]
  rw [PidState.found, hgaps, hsince]
  rfl

theorem found_gap (hlost : m.lost = false) (h : ¬ Arrives audio a.gaps m) :
    a.found audio m.gaps = none := by
  have hgaps : (audio && m.gaps != a.gaps) = true := by
    by_contra hne
    rw [Bool.and_eq_true, bne_iff_ne, not_and_not_right] at hne
    exact h ⟨hlost, hne⟩
  rw [PidState.found, hgaps]
  rfl

theorem idle_lost (audio : Bool) (streamType : Option ℕ) (hlost : m.lost = true)
    (h : Idle a ∨ a.since = some 0) :
    Idle (pidStep audio streamType a m) ∧ (pidStep audio streamType a m).out = a.out := by
  rw [pidStep_lost hlost]
  refine ⟨?_, rfl⟩
  obtain (hdead | hsince) | hsince := h
  · exact .inl hdead
  · refine .inr ?_
    cases hs : a.since with
    | none => rw [hs] at hsince; exact hsince
    | some n => exact Nat.succ_pos n
  · refine .inr ?_
    rw [hsince]
    exact Nat.one_pos

theorem idle_rest (hne : m.packet.payloadBytes ≠ [])
    (hpusi : m.packet.payloadUnitStartIndicator = 0) (hlost : m.lost = false)
    (h : Dead (a.found audio m.gaps)) :
    Idle (pidStep audio streamType a m) ∧ (pidStep audio streamType a m).out = a.out := by
  obtain ⟨view, -, hview⟩ := pesPayload_rest streamType hne hpusi
  obtain ⟨hnone, hsome⟩ := hview (a.found audio m.gaps)
  rw [pidStep_arrives hlost]
  cases hqueue : a.found audio m.gaps with
  | none =>
    rw [← hqueue, hnone hqueue]
    exact ⟨.inl dead_none, append_nil _⟩
  | some queue =>
    have hneg := h queue hqueue
    obtain ⟨hdead, hhanded⟩ := settle_dead m.packet.pid streamType
      (s := ⟨some queue, []⟩) (show (queue.push view).expectedLength < 0 from hneg)
    rw [← hqueue, hsome queue hqueue, hqueue, hhanded]
    exact ⟨.inl hdead, append_nil _⟩

/-- Between two PES packets: nothing, or one without a length that waits for the next start. -/
def Between (a : PidState) (waiting : Option (List UInt8)) : Prop :=
  waiting = none ∧ Idle a ∨ ∃ got, waiting = some got ∧ Waits a got

theorem arrives_congr {gaps gaps' : ℕ} (h : audio = true → gaps = gaps') :
    Arrives audio gaps m ↔ Arrives audio gaps' m := by
  refine and_congr_right fun _ => forall_congr' fun haudio => ?_
  rw [h haudio]

variable {ms : List Marked}

theorem run_idle (audio : Bool) (streamType : Option ℕ) (hne : ∀ m ∈ ms, m.packet.payloadBytes ≠ [])
    (hpusi : ∀ m ∈ ms, m.packet.payloadUnitStartIndicator = 0) (h : Idle a) :
    Idle (run (pidStep audio streamType) a ms) ∧
      (run (pidStep audio streamType) a ms).out = a.out := by
  induction ms generalizing a with
  | nil => exact ⟨h, rfl⟩
  | cons m ms ih =>
    rw [forall_mem_cons] at hne hpusi
    have hstep : Idle (pidStep audio streamType a m) ∧
        (pidStep audio streamType a m).out = a.out := by
      by_cases hlost : m.lost = true
      · exact idle_lost audio streamType hlost (.inl h)
      · exact idle_rest hne.1 hpusi.1 (Bool.not_eq_true _ ▸ hlost) (found_idle h _)
    obtain ⟨hidle, hout⟩ := ih hne.2 hpusi.2 hstep.1
    exact ⟨hidle, hout.trans hstep.2⟩

theorem holding_rest (streamType : Option ℕ) (hne : m.packet.payloadBytes ≠ [])
    (hpusi : m.packet.payloadUnitStartIndicator = 0) (hold : Holding a.queue got e)
    (hsince : a.since = some 0) (harrives : Arrives audio a.gaps m) :
    (e = 0 ∨ (got ++ m.packet.payloadBytes).length < e →
      Holding (pidStep audio streamType a m).queue (got ++ m.packet.payloadBytes) e ∧
        (pidStep audio streamType a m).out = a.out) ∧
    (e ≠ 0 → (got ++ m.packet.payloadBytes).length = e → Dead (pidStep audio streamType a m).queue ∧
        (pidStep audio streamType a m).out = a.out ++ [got ++ m.packet.payloadBytes]) := by
  obtain ⟨queue, hqueue, rfl, he, -⟩ := hold
  obtain ⟨view, hdata, hview⟩ := pesPayload_rest streamType hne hpusi
  have hpushed : (queue.push view).data = queue.data ++ m.packet.payloadBytes := by
    rw [SliceQueue.data_push, hdata]
  have he' : (queue.push view).expectedLength = e := he
  rw [pidStep_arrives harrives.1, found_arrives hsince harrives, (hview a.queue).2 queue hqueue,
    ← hpushed]
  constructor
  · intro h
    obtain ⟨hhold, hhanded⟩ := settle_holding m.packet.pid streamType (s := ⟨a.queue, []⟩) he'
      fun hne => h.resolve_left hne
    refine ⟨hhold, ?_⟩
    rw [hhanded]
    exact append_nil _
  · intro hpos h
    obtain ⟨hdead, hhanded⟩ := settle_emits m.packet.pid streamType (s := ⟨a.queue, []⟩) he' hpos h
    refine ⟨hdead, ?_⟩
    rw [hhanded]
    rfl

theorem run_holding (audio : Bool) (streamType : Option ℕ)
    (hne : ∀ m ∈ ms, m.packet.payloadBytes ≠ [])
    (hpusi : ∀ m ∈ ms, m.packet.payloadUnitStartIndicator = 0) (hold : Holding a.queue got e)
    (hsince : a.since = some 0) {total : List UInt8}
    (htotal : got ++ ms.flatMap (fun m => m.packet.payloadBytes) = total)
    (hlen : e ≠ 0 → total.length = e) :
    ∃ waiting, Between (run (pidStep audio streamType) a ms) waiting ∧
      (run (pidStep audio streamType) a ms).out =
        a.out ++ (if (∀ m ∈ ms, Arrives audio a.gaps m) ∧ e ≠ 0 then [total] else []) ∧
      waiting.toList = (if (∀ m ∈ ms, Arrives audio a.gaps m) ∧ e = 0 then [total] else []) ∧
      (audio = true → waiting ≠ none → (run (pidStep audio streamType) a ms).gaps = a.gaps) := by
  induction ms generalizing a got with
  | nil =>
    rw [flatMap_nil, append_nil] at htotal
    subst htotal
    have he : e = 0 := by
      by_contra hne
      obtain ⟨-, -, -, -, hlt⟩ := hold
      exact absurd (hlen hne) (Nat.ne_of_lt (hlt hne))
    subst he
    refine ⟨some got, .inr ⟨got, rfl, hold, hsince⟩, ?_, ?_, fun _ _ => rfl⟩
    · simp
    · rw [if_pos ⟨fun _ h => absurd h not_mem_nil, rfl⟩]
      rfl
  | cons m ms ih =>
    rw [forall_mem_cons] at hne hpusi
    rw [flatMap_cons, ← append_assoc] at htotal
    by_cases harrives : Arrives audio a.gaps m
    · have hnext : (pidStep audio streamType a m).since = some 0 ∧
          (pidStep audio streamType a m).gaps = m.gaps := by
        rw [pidStep_arrives harrives.1]
        exact ⟨rfl, rfl⟩
      obtain ⟨hgo, hend⟩ := holding_rest streamType hne.1 hpusi.1 hold hsince harrives
      have hsum := congrArg List.length htotal
      rw [length_append] at hsum
      by_cases hfull : e ≠ 0 ∧ (got ++ m.packet.payloadBytes).length = e
      · -- the packet is the last one: the others would carry no byte
        obtain ⟨hdead, hout⟩ := hend hfull.1 hfull.2
        obtain rfl : ms = [] := by
          cases ms with
          | nil => rfl
          | cons m' ms =>
            have hpos := length_pos_iff.mpr (hne.2 m' mem_cons_self)
            have htotal := hlen hfull.1
            have hlast := hfull.2
            rw [length_append] at hlast
            rw [flatMap_cons, length_append, length_append] at hsum
            omega
        rw [flatMap_nil, append_nil] at htotal
        have hall : ∀ m' ∈ [m], Arrives audio a.gaps m' := forall_mem_singleton.mpr harrives
        refine ⟨none, .inl ⟨rfl, .inl hdead⟩, ?_, ?_, fun _ h => absurd rfl h⟩
        · simp [*]
        · simp [*]
      · have hshort : e = 0 ∨ (got ++ m.packet.payloadBytes).length < e := by
          by_cases he : e = 0
          · exact .inl he
          · omega
        obtain ⟨hhold, hout⟩ := hgo hshort
        obtain ⟨waiting, hbetween, hout', hlist, hgaps⟩ := ih hne.2 hpusi.2 hhold hnext.1 htotal
        have hsame : audio = true → (pidStep audio streamType a m).gaps = a.gaps :=
          fun haudio => hnext.2.trans (harrives.2 haudio)
        have hall : (∀ m' ∈ ms, Arrives audio (pidStep audio streamType a m).gaps m') ↔
            ∀ m' ∈ m :: ms, Arrives audio a.gaps m' := by
          rw [forall_mem_cons, and_iff_right harrives]
          exact forall₂_congr fun m' _ => arrives_congr hsame
        simp only [hall] at hout' hlist
        refine ⟨waiting, hbetween, ?_, hlist, fun haudio hne => ?_⟩
        · rw [run_cons, hout', hout]
        · exact (hgaps haudio hne).trans (hsame haudio)
    · have hidle : Idle (pidStep audio streamType a m) ∧
          (pidStep audio streamType a m).out = a.out := by
        by_cases hlost : m.lost = true
        · exact idle_lost audio streamType hlost (.inr hsince)
        · rw [Bool.not_eq_true] at hlost
          refine idle_rest hne.1 hpusi.1 hlost ?_
          rw [found_gap hlost harrives]
          exact dead_none
      obtain ⟨hidle', hout⟩ := run_idle audio streamType hne.2 hpusi.2 hidle.1
      refine ⟨none, .inl ⟨rfl, hidle'⟩, ?_, ?_, fun _ h => absurd rfl h⟩
      · simp [*]
      · simp [*]

/-- All packets of the PES packet arrive, on an audio pid with no loss told in between. -/
def Complete (audio : Bool) (pes : SentPes) : Prop :=
  ∀ m ∈ pes.packets, Arrives audio pes.first.gaps m

instance decidableComplete (audio : Bool) : DecidablePred (Complete audio) :=
  fun pes => inferInstanceAs (Decidable (∀ m ∈ pes.packets, Arrives audio pes.first.gaps m))

theorem length_bytes {pes : SentPes} (h : pes.expected ≠ 0) : pes.bytes.length = pes.expected := by
  rw [SentPes.expected] at h ⊢
  split at h
  · exact absurd rfl h
  · rename_i hne
    rw [if_neg hne]
    exact pes.length_eq hne

/-- The start of a PES packet: what waited for it is handed over, and its own bytes are held or,
    if they are all of it, handed over as well. -/
theorem step_start (streamType : Option ℕ) (pes : SentPes) {waiting : Option (List UInt8)}
    (hb : Between a waiting) (hlost : pes.first.lost = false) :
    (pidStep audio streamType a pes.first).since = some 0 ∧
    (pidStep audio streamType a pes.first).gaps = pes.first.gaps ∧
    ∃ own, (pidStep audio streamType a pes.first).out = a.out ++
        (if Arrives audio a.gaps pes.first then waiting.toList else []) ++ own ∧
      (pes.expected ≠ 0 ∧ pes.first.packet.payloadBytes.length = pes.expected ∧
          Dead (pidStep audio streamType a pes.first).queue ∧
          own = [pes.first.packet.payloadBytes] ∨
        own = [] ∧ Holding (pidStep audio streamType a pes.first).queue
          pes.first.packet.payloadBytes pes.expected) := by
  rw [pidStep_arrives hlost]
  refine ⟨rfl, rfl, ?_⟩
  obtain ⟨queue, hdata, he, heq⟩ := pesPayload_start streamType pes (a.found audio pes.first.gaps)
  have hfinish : ((⟨a.found audio pes.first.gaps, []⟩ : PesSlices).finish pes.first.packet.pid
      streamType).handed = if Arrives audio a.gaps pes.first then waiting.toList else [] := by
    obtain ⟨rfl, hidle⟩ | ⟨got, rfl, hhold, hsince⟩ := hb
    · rw [finish_dead _ _ (found_idle hidle _), toList_none, ite_self]
      rfl
    · by_cases harrives : Arrives audio a.gaps pes.first
      · rw [if_pos harrives, found_arrives hsince harrives, finish_holding _ _ hhold]
        rfl
      · rw [if_neg harrives, found_gap hlost harrives]
        rfl
  rw [heq]
  by_cases hfull : pes.expected ≠ 0 ∧ pes.first.packet.payloadBytes.length = pes.expected
  · obtain ⟨hdead, hhanded⟩ := settle_emits pes.first.packet.pid streamType
      (s := (⟨a.found audio pes.first.gaps, []⟩ : PesSlices).finish pes.first.packet.pid streamType)
      he hfull.1 (by rw [hdata]; exact hfull.2)
    refine ⟨[pes.first.packet.payloadBytes], ?_, .inl ⟨hfull.1, hfull.2, hdead, rfl⟩⟩
    rw [hhanded, hfinish, hdata, append_assoc]
  · have hshort : pes.expected ≠ 0 → queue.data.length < pes.expected := by
      intro hne
      refine lt_of_le_of_ne ?_ fun h => hfull ⟨hne, by rw [← hdata]; exact h⟩
      rw [← length_bytes hne, hdata, SentPes.bytes, length_append]
      exact Nat.le_add_right _ _
    obtain ⟨hhold, hhanded⟩ := settle_holding pes.first.packet.pid streamType
      (s := (⟨a.found audio pes.first.gaps, []⟩ : PesSlices).finish pes.first.packet.pid streamType)
      he hshort
    rw [hdata] at hhold
    refine ⟨[], ?_, .inr ⟨rfl, hhold⟩⟩
    rw [hhanded, hfinish, append_nil]

/-- One PES packet: what waited for its start is handed over if that arrives, and it is handed
    over itself, or waits, if all of it arrives. -/
theorem run_pes (audio : Bool) (streamType : Option ℕ) (pes : SentPes)
    {waiting : Option (List UInt8)} (hb : Between a waiting) :
    ∃ waiting', Between (run (pidStep audio streamType) a pes.packets) waiting' ∧
      (run (pidStep audio streamType) a pes.packets).out =
        a.out ++ (if Arrives audio a.gaps pes.first then waiting.toList else []) ++
          (if Complete audio pes ∧ pes.expected ≠ 0 then [pes.bytes] else []) ∧
      waiting'.toList = (if Complete audio pes ∧ pes.expected = 0 then [pes.bytes] else []) ∧
      (audio = true → waiting' ≠ none →
        (run (pidStep audio streamType) a pes.packets).gaps = pes.first.gaps) := by
  rw [SentPes.packets, run_cons]
  by_cases hlost : pes.first.lost = true
  · have hidle : Idle a ∨ a.since = some 0 := by
      obtain ⟨-, h⟩ | ⟨-, -, -, h⟩ := hb
      · exact .inl h
      · exact .inr h
    obtain ⟨hidle', hout'⟩ := idle_lost audio streamType hlost hidle
    obtain ⟨hidle'', hout''⟩ := run_idle audio streamType pes.rest_ne pes.rest_start hidle'
    have hnot : ¬ Complete audio pes := fun h => by
      have hfirst := (h pes.first mem_cons_self).1
      rw [hlost] at hfirst
      exact Bool.noConfusion hfirst
    have hfirst : ¬ Arrives audio a.gaps pes.first := fun h => by
      have hfirst := h.1
      rw [hlost] at hfirst
      exact Bool.noConfusion hfirst
    refine ⟨none, .inl ⟨rfl, hidle''⟩, ?_, ?_, fun _ h => absurd rfl h⟩
    · simp [*]
    · simp [*]
  · rw [Bool.not_eq_true] at hlost
    have hself : Arrives audio pes.first.gaps pes.first := ⟨hlost, fun _ => rfl⟩
    obtain ⟨hsince, hgaps, own, hout, hown⟩ := step_start streamType pes hb hlost
    have hcomplete : (∀ m ∈ pes.rest, Arrives audio (pidStep audio streamType a pes.first).gaps m) ↔
        Complete audio pes := by
      rw [Complete, SentPes.packets, forall_mem_cons, and_iff_right hself, hgaps]
    obtain ⟨hpos, hlen, hdead, rfl⟩ | ⟨rfl, hhold⟩ := hown
    · have hbytes := length_bytes hpos
      have hrest : pes.rest = [] := by
        cases hrest : pes.rest with
        | nil => rfl
        | cons m ms =>
          have hmem : m ∈ pes.rest := by
            simp [*]
          have hne := length_pos_iff.mpr (pes.rest_ne m hmem)
          rw [SentPes.bytes, hrest, flatMap_cons, length_append, length_append] at hbytes
          omega
      have hall : Complete audio pes := by
        rw [← hcomplete, hrest]
        exact fun _ h => absurd h not_mem_nil
      refine ⟨none, .inl ⟨rfl, ?_⟩, ?_, ?_, fun _ h => absurd rfl h⟩
      · rw [hrest]
        exact .inl hdead
      · rw [if_pos (c := Complete audio pes ∧ pes.expected ≠ 0) ⟨hall, hpos⟩, hrest, SentPes.bytes,
          hrest, flatMap_nil, append_nil]
        exact hout
      · simp [*]
    · obtain ⟨waiting', hb', hout', hlist, hgaps'⟩ := run_holding audio streamType pes.rest_ne
        pes.rest_start hhold hsince rfl length_bytes
      simp only [hcomplete] at hout' hlist
      refine ⟨waiting', hb', ?_, hlist, fun haudio hne => (hgaps' haudio hne).trans hgaps⟩
      rw [hout', hout, append_nil]
      rfl

theorem survives_iff {pes : SentPes} {rest : List SentPes} :
    Survives audio pes rest.head? ↔ Complete audio pes ∧
      (pes.expected = 0 → ∃ n, rest.head? = some n ∧ Arrives audio pes.first.gaps n.first) :=
  Iff.rfl

theorem run_survivors (audio : Bool) (streamType : Option ℕ) (pess : List SentPes)
    {waiting : Option (List UInt8)} (hb : Between a waiting) :
    (run (pidStep audio streamType) a (pess.flatMap SentPes.packets)).out =
      a.out ++ (if ∃ n, pess.head? = some n ∧ Arrives audio a.gaps n.first then waiting.toList
        else []) ++ (survivors audio pess).map SentPes.bytes := by
  induction pess generalizing a waiting with
  | nil =>
    have hnone : ¬ ∃ n, ([] : List SentPes).head? = some n ∧ Arrives audio a.gaps n.first := by
      simp
    rw [if_neg hnone, append_nil]
    exact (append_nil _).symm
  | cons pes pess ih =>
    obtain ⟨waiting', hb', hout, hlist, hgaps⟩ := run_pes audio streamType pes hb
    rw [flatMap_cons, run_append, ih hb', hout, survivors, map_append]
    have hfirst : (∃ n, (pes :: pess).head? = some n ∧ Arrives audio a.gaps n.first) ↔
        Arrives audio a.gaps pes.first := by
      rw [head?_cons]
      constructor
      · simp
      · exact fun h => ⟨pes, rfl, h⟩
    simp only [hfirst, append_assoc]
    congr 2
    rw [← append_assoc]
    congr 1
    by_cases hall : Complete audio pes
    · by_cases he : pes.expected = 0
      · have hwaits : waiting' = some pes.bytes := by
          rw [if_pos ⟨hall, he⟩] at hlist
          exact toList_eq_singleton_iff.mp hlist
        have hnext : (∃ n, pess.head? = some n ∧
            Arrives audio (run (pidStep audio streamType) a pes.packets).gaps n.first) ↔
              Survives audio pes pess.head? := by
          rw [survives_iff, and_iff_right hall]
          have hsame := fun haudio => hgaps haudio (by rw [hwaits]; exact some_ne_none _)
          constructor
          · rintro ⟨n, hn, h⟩ -
            exact ⟨n, hn, (arrives_congr hsame).mp h⟩
          · intro h
            obtain ⟨n, hn, h⟩ := h he
            exact ⟨n, hn, (arrives_congr hsame).mpr h⟩
        rw [if_neg fun h => h.2 he, nil_append, hwaits]
        simp only [hnext]
        split <;> rfl
      · have hsurvives : Survives audio pes pess.head? :=
          survives_iff.mpr ⟨hall, fun h => absurd h he⟩
        rw [if_neg fun h => he h.2] at hlist
        rw [if_pos ⟨hall, he⟩, hlist, ite_self, if_pos hsurvives]
        rfl
    · have hsurvives : ¬ Survives audio pes pess.head? := fun h => hall (survives_iff.mp h).1
      rw [if_neg fun h => hall h.1] at hlist
      rw [if_neg fun h => hall h.1, hlist, ite_self, if_neg hsurvives]
      rfl

end Pid

/-! ## All pids -/

section Demuxer

variable {tracks : TsTracks} {s : TsPes} {p : TsPacket}

theorem handle_irrelevant (h : tracks.relevant p = false) (s : TsPes) : s.handle tracks p = s := by
  rw [TsTracks.relevant] at h
  rw [TsPes.handle]
  split
  · rfl
  · grind

theorem handle_relevant (h : tracks.relevant p = true)
    (hok : (s.shouldProcessPayload tracks p.pid p.continuityCounter
      p.discontinuityIndicator).1 = true) {q : TsPes}
    (hq : (s.shouldProcessPayload tracks p.pid p.continuityCounter
      p.discontinuityIndicator).2 = q) :
    s.handle tracks p = { q with
        pesSliceQueues := Function.update q.pesSliceQueues p.pid
          (p.pesPayload (tracks.pidStreamType p.pid) (q.pesSliceQueues p.pid)).sliceQueue
        parsed := q.parsed ++
          (p.pesPayload (tracks.pidStreamType p.pid) (q.pesSliceQueues p.pid)).parsed } := by
  rw [TsTracks.relevant, Bool.and_eq_true] at h
  obtain ⟨start, hstart⟩ := isSome_iff_exists.mp h.1
  rw [TsPes.handle, hstart]
  dsimp only
  rw [if_pos h.2, if_pos hok, hq]
  simp only [TsPacket.pesPayload, hstart]

/-- The queues after a loss was told on a pid. -/
def droppedQueues (tracks : TsTracks) (queues : ℕ → Option SliceQueue) (pid : ℕ) (dropped : Bool) :
    ℕ → Option SliceQueue := fun q =>
  if dropped && (q == pid || tracks.isVideoPid pid && tracks.isAudioPid q) then none else queues q

theorem handleTrackDiscontinuity_eq (s : TsPes) (pid : ℕ) : s.handleTrackDiscontinuity tracks pid =
      { s with pesSliceQueues := droppedQueues tracks s.pesSliceQueues pid true } := by
  have hqueues : (s.handleTrackDiscontinuity tracks pid).pesSliceQueues =
      droppedQueues tracks s.pesSliceQueues pid true := by
    funext q
    rw [TsPes.handleTrackDiscontinuity, droppedQueues, Bool.true_and]
    by_cases hq : q = pid
    · subst hq
      rw [beq_self_eq_true, Bool.true_or, if_pos rfl]
      split
      · exact if_congr Iff.rfl rfl (update_self _ _ _) |>.trans (ite_self _)
      · exact update_self _ _ _
    · rw [beq_eq_false_iff_ne.mpr hq, Bool.false_or]
      cases tracks.isVideoPid pid with
      | false => exact update_of_ne hq _ _
      | true =>
        rw [Bool.true_and]
        exact if_congr Iff.rfl rfl (update_of_ne hq _ _)
  rw [← hqueues, TsPes.handleTrackDiscontinuity]
  cases tracks.isVideoPid pid <;> rfl

theorem shouldProcessPayload_spec (tracks : TsTracks) {c : ℕ} (hc : p.continuityCounter = c % 16)
    (hindicator : p.discontinuityIndicator ≠ some 1) {since : Option ℕ}
    (hnoticed : Noticed (since.getD 0))
    (hnone : since = none → s.continuityCounters p.pid = none)
    (hsome : ∀ n, since = some n → ∃ x < 16, s.continuityCounters p.pid = some x ∧
      (x + n + 1) % 16 = c % 16) :
    s.shouldProcessPayload tracks p.pid p.continuityCounter p.discontinuityIndicator =
      (true, ⟨droppedQueues tracks s.pesSliceQueues p.pid (0 < since.getD 0),
        Function.update s.continuityCounters p.pid (some p.continuityCounter), s.parsed⟩) := by
  rw [TsPes.shouldProcessPayload, if_neg hindicator]
  cases hsince : since with
  | none =>
    rw [hnone hsince]
    rfl
  | some n =>
    obtain ⟨x, hx, hcounter, hnext⟩ := hsome n hsince
    rw [hsince] at hnoticed
    have hmask : (x + 1) &&& 0x0f = (x + 1) % 16 := Nat.and_two_pow_sub_one_eq_mod _ 4
    rw [hcounter]
    dsimp only
    obtain hzero | ⟨h0, h15⟩ := hnoticed
    · rw [getD_some] at hzero
      subst hzero
      rw [if_neg (by omega), if_neg (by rw [hmask]; omega)]
      rfl
    · rw [getD_some] at h0 h15
      rw [if_neg (by omega), if_pos (by rw [hmask]; omega)]
      have hpos : decide (0 < (some n).getD 0) = true := by
        rw [getD_some, decide_eq_true_iff]
        omega
      rw [hpos, handleTrackDiscontinuity_eq]
      rfl

/-- The demuxer after the packets sent so far, and the machine of one pid: `c` counts the packets
    of a pid and `l` those lost since the last one that arrived. -/
structure Follows (tracks : TsTracks) (pid : ℕ) (c : ℕ → ℕ) (l : ℕ → Option ℕ) (gaps : ℕ)
    (s : TsPes) (a : PidState) : Prop where
  out : s.pesOf pid = a.out
  since : l pid = a.since
  le : a.gaps ≤ gaps
  queue : s.pesSliceQueues pid = if tracks.isAudioPid pid && gaps != a.gaps then none else a.queue
  first : ∀ q, l q = none → s.continuityCounters q = none
  counter : ∀ q n, l q = some n →
    ∃ x < 16, s.continuityCounters q = some x ∧ (x + n + 1) % 16 = c q % 16

variable {pid : ℕ} {c : ℕ → ℕ} {l : ℕ → Option ℕ} {gaps : ℕ} {a : PidState}

theorem follows_lost (h : Follows tracks pid c l gaps s a) (p : TsPacket) :
    Follows tracks pid (Function.update c p.pid (c p.pid + 1))
      (Function.update l p.pid (lostSince true (l p.pid))) gaps s
      (if p.pid = pid then pidStep (tracks.isAudioPid pid) (tracks.pidStreamType pid) a
        ⟨p, true, gaps⟩ else a) := by
  have hcounters : (∀ q, Function.update l p.pid (lostSince true (l p.pid)) q = none →
        s.continuityCounters q = none) ∧
      ∀ q n, Function.update l p.pid (lostSince true (l p.pid)) q = some n →
        ∃ x < 16, s.continuityCounters q = some x ∧
          (x + n + 1) % 16 = Function.update c p.pid (c p.pid + 1) q % 16 := by
    constructor
    · intro q hq
      by_cases hpq : q = p.pid
      · subst hpq
        rw [update_self, lostSince, if_pos rfl, map_eq_none_iff] at hq
        exact h.first _ hq
      · rw [update_of_ne hpq] at hq
        exact h.first q hq
    · intro q n hq
      by_cases hpq : q = p.pid
      · subst hpq
        rw [update_self, lostSince, if_pos rfl, map_eq_some_iff] at hq
        obtain ⟨m, hm, rfl⟩ := hq
        obtain ⟨x, hx, hcounter, hnext⟩ := h.counter _ m hm
        refine ⟨x, hx, hcounter, ?_⟩
        rw [update_self]
        omega
      · rw [update_of_ne hpq] at hq ⊢
        exact h.counter q n hq
  by_cases hpid : p.pid = pid
  · rw [if_pos hpid, pidStep_lost rfl]
    subst hpid
    refine ⟨h.out, ?_, h.le, h.queue, hcounters.1, hcounters.2⟩
    rw [update_self, lostSince, if_pos rfl, h.since]
  · rw [if_neg hpid]
    refine ⟨h.out, ?_, h.le, h.queue, hcounters.1, hcounters.2⟩
    rw [update_of_ne (Ne.symm hpid)]
    exact h.since

theorem pesPayload_pid (p : TsPacket) (streamType : Option ℕ) (sliceQueue : Option SliceQueue) :
    ∀ d ∈ (p.pesPayload streamType sliceQueue).parsed, d.pid = p.pid := by
  have hnil : ∀ d ∈ ([] : List PESData), d.pid = p.pid := fun _ h => absurd h not_mem_nil
  have hsettle : ∀ (s : PesSlices) (queue : SliceQueue), (∀ d ∈ s.parsed, d.pid = p.pid) →
      ∀ d ∈ (s.settle p.pid streamType queue).parsed, d.pid = p.pid := by
    intro s queue hs
    rw [PesSlices.settle]
    split
    · rw [PesSlices.emitPESSlices, forall_mem_append, forall_mem_singleton]
      exact ⟨hs, rfl⟩
    · split <;> exact hs
  rw [TsPacket.pesPayload]
  split
  · exact hnil
  · rw [TsPacket.pesSlice]
    unfold handlePESSlice
    dsimp only
    split
    · split
      · exact hnil
      · refine hsettle _ _ ?_
        rw [PesSlices.finish]
        split
        · exact hnil
        · split
          · rw [PesSlices.emitPESSlices, nil_append, forall_mem_singleton]
          · exact hnil
    · split
      · exact hnil
      · exact hsettle _ _ hnil

theorem queue_told (audio told : Bool) (queue : Option SliceQueue) {g : ℕ} (h : gaps + 1 ≠ g) :
    (if told && audio then none else if audio && gaps != g then none else queue) =
      if audio && (if told then gaps + 1 else gaps) != g then none else queue := by
  cases audio with
  | false => cases told <;> rfl
  | true =>
    cases told with
    | false => rfl
    | true =>
      simp [*]

theorem follows_arrives (h : Follows tracks pid c l gaps s a) (hrelevant : tracks.relevant p = true)
    (hc : p.continuityCounter = c p.pid % 16) (hindicator : p.discontinuityIndicator ≠ some 1)
    (hnoticed : Noticed ((l p.pid).getD 0)) :
    Follows tracks pid (Function.update c p.pid (c p.pid + 1))
      (Function.update l p.pid (lostSince false (l p.pid)))
      (if gapAt tracks pid l p false then gaps + 1 else gaps) (s.handle tracks p)
      (if p.pid = pid then pidStep (tracks.isAudioPid pid) (tracks.pidStreamType pid) a
        ⟨p, false, gaps⟩ else a) := by
  have hcheck := shouldProcessPayload_spec tracks (s := s) hc hindicator hnoticed
    (h.first p.pid) (h.counter p.pid)
  have hhandle := handle_relevant hrelevant (congrArg Prod.fst hcheck) (congrArg Prod.snd hcheck)
  dsimp only at hhandle
  rw [hhandle]
  have hcounters : (∀ q, Function.update l p.pid (some 0) q = none →
        Function.update s.continuityCounters p.pid (some p.continuityCounter) q = none) ∧
      ∀ q n, Function.update l p.pid (some 0) q = some n →
        ∃ x < 16, Function.update s.continuityCounters p.pid (some p.continuityCounter) q = some x ∧
          (x + n + 1) % 16 = Function.update c p.pid (c p.pid + 1) q % 16 := by
    constructor
    · intro q hq
      by_cases hpq : q = p.pid
      · subst hpq
        rw [update_self] at hq
        exact absurd hq (some_ne_none 0)
      · rw [update_of_ne hpq] at hq ⊢
        exact h.first q hq
    · intro q n hq
      by_cases hpq : q = p.pid
      · grind
      · rw [update_of_ne hpq] at hq ⊢
        rw [update_of_ne hpq]
        exact h.counter q n hq
  have hparsed := pesPayload_pid p (tracks.pidStreamType p.pid)
    (droppedQueues tracks s.pesSliceQueues p.pid (0 < (l p.pid).getD 0) p.pid)
  by_cases hpid : p.pid = pid
  · subst hpid
    have hfound : droppedQueues tracks s.pesSliceQueues p.pid (0 < (l p.pid).getD 0) p.pid =
        a.found (tracks.isAudioPid p.pid) gaps := by
      rw [droppedQueues, beq_self_eq_true, Bool.true_or, Bool.and_true, h.queue, h.since,
        PidState.found]
      cases decide (0 < a.since.getD 0) with
      | true => rw [if_pos rfl, Bool.or_true, if_pos rfl]
      | false => rw [if_neg Bool.false_ne_true, Bool.or_false]
    rw [hfound] at hparsed
    rw [if_pos rfl, pidStep_arrives rfl, hfound]
    refine ⟨?_, update_self _ _ _, ?_, ?_, hcounters.1, hcounters.2⟩
    · rw [TsPes.pesOf, filter_append, map_append,
        filter_eq_self.mpr fun d hd => decide_eq_true (hparsed d hd), ← h.out]
      rfl
    · split
      · exact Nat.le_succ _
      · exact le_refl _
    · have hgap : gapAt tracks p.pid l p false = false := by
        rw [gapAt, bne_self_eq_false, Bool.false_and, Bool.false_and, Bool.false_and]
      rw [hgap, if_neg Bool.false_ne_true, bne_self_eq_false, Bool.and_false,
        if_neg Bool.false_ne_true]
      exact update_self _ _ _
  · rw [if_neg hpid]
    refine ⟨?_, ?_, ?_, ?_, hcounters.1, hcounters.2⟩
    · have hnone : (p.pesPayload (tracks.pidStreamType p.pid) (droppedQueues tracks
          s.pesSliceQueues p.pid (0 < (l p.pid).getD 0) p.pid)).parsed.filter
            (fun d => d.pid = pid) = [] := by
        rw [filter_eq_nil_iff]
        intro d hd
        rw [decide_eq_true_iff, hparsed d hd]
        exact hpid
      rw [TsPes.pesOf, filter_append, hnone, append_nil, ← h.out]
      rfl
    · rw [update_of_ne (Ne.symm hpid)]
      exact h.since
    · split
      · exact h.le.trans (Nat.le_succ _)
      · exact h.le
    · show Function.update _ p.pid _ pid = _
      rw [update_of_ne (Ne.symm hpid), droppedQueues, beq_eq_false_iff_ne.mpr (Ne.symm hpid),
        Bool.false_or, h.queue, gapAt, bne_iff_ne.mpr hpid, Bool.true_and, Bool.not_false,
        Bool.and_true]
      rw [← Bool.and_assoc, Bool.and_comm (decide _) (tracks.isVideoPid p.pid)]
      exact queue_told _ _ _ (Nat.ne_of_gt (Nat.lt_succ_of_le h.le))

theorem run_follows (sent : List (TsPacket × Bool)) (hs : Sendable tracks c l sent)
    (h : Follows tracks pid c l gaps s a) :
    (run (TsPes.handle tracks) s (arriving sent)).pesOf pid =
      (run (pidStep (tracks.isAudioPid pid) (tracks.pidStreamType pid)) a
        (marks tracks pid l gaps sent)).out := by
  induction sent generalizing c l gaps s a with
  | nil => exact h.out
  | cons sent rest ih =>
    obtain ⟨p, lost⟩ := sent
    rw [Sendable] at hs
    rw [marks]
    cases hrelevant : tracks.relevant p with
    | false =>
      rw [hrelevant, if_neg Bool.false_ne_true] at hs
      rw [if_neg Bool.false_ne_true]
      cases lost with
      | true => exact ih hs h
      | false =>
        show (run (TsPes.handle tracks) (s.handle tracks p) (arriving rest)).pesOf pid = _
        rw [handle_irrelevant hrelevant]
        exact ih hs h
    | true =>
      rw [hrelevant, if_pos rfl] at hs
      obtain ⟨⟨hc, hindicator, hnoticed⟩, hs⟩ := hs
      rw [if_pos rfl, run_append]
      have hhere : run (pidStep (tracks.isAudioPid pid) (tracks.pidStreamType pid)) a
          (if p.pid = pid then [⟨p, lost, gaps⟩] else []) =
            if p.pid = pid then pidStep (tracks.isAudioPid pid) (tracks.pidStreamType pid) a
              ⟨p, lost, gaps⟩ else a := by
        split <;> rfl
      rw [hhere]
      cases lost with
      | true =>
        have hgap : gapAt tracks pid l p true = false := by
          rw [gapAt, Bool.not_true, Bool.and_false, Bool.false_and]
        rw [hgap, if_neg Bool.false_ne_true]
        exact ih hs (follows_lost h p)
      | false => exact ih hs (follows_arrives h hrelevant hc hindicator (hnoticed rfl))

end Demuxer

/-- For every stream of PES packets of any sizes on any media pids and every loss of packets of
    which each run between two packets that arrive is told: handed over are, of the PES packets of
    a pid, exactly the survivors, each one once and in order. -/
theorem pesOf_eq_survivors (tracks : TsTracks) (c : ℕ → ℕ) (sent : List (TsPacket × Bool))
    (hs : Sendable tracks c (fun _ => none) sent) (pid : ℕ) (pess : List SentPes)
    (hp : marks tracks pid (fun _ => none) 0 sent = pess.flatMap SentPes.packets) :
    (run (TsPes.handle tracks) .init (arriving sent)).pesOf pid =
        (survivors (tracks.isAudioPid pid) pess).map SentPes.bytes ∧
      (survivors (tracks.isAudioPid pid) pess).Sublist pess := by
  have hinit : Follows tracks pid c (fun _ => none) 0 .init ⟨none, none, 0, []⟩ :=
    ⟨rfl, rfl, le_refl 0, by rw [ite_self]; rfl, fun _ _ => rfl,
      fun _ n h => absurd h.symm (some_ne_none n)⟩
  refine ⟨?_, survivors_sublist _ pess⟩
  have hbetween : Between ⟨none, none, 0, []⟩ none := .inl ⟨rfl, .inl dead_none⟩
  rw [run_follows sent hs hinit, hp, run_survivors (tracks.isAudioPid pid)
    (tracks.pidStreamType pid) pess hbetween, toList_none, ite_self]
  rfl

def twoTracks : TsTracks where
  currentPmtPid := 4096
  pidStreamType pid := if pid = 256 then some 0x1b else if pid = 257 then some 0x0f else none
  commonPids
    | .h264 => some 256
    | .adtsAac => some 257
    | _ => none

/-- An audio PES packet of ten bytes in two packets. -/
def audioStart : TsPacket := .stuffed 0x41 1 0 0 [0, 0, 1, 0xc0, 0, 4, 0x80] [] (by decide)

def audioRest : TsPacket := .stuffed 0x01 1 1 0 [7, 8, 9] [] (by decide)

/-- A video packet of a PES packet without a length, the first one or a later one. -/
def videoPacket (indicator counter : UInt8) : TsPacket :=
  .stuffed indicator 0 counter 0 [0, 0, 1, 0xe0, 0, 0] [] (by decide)

def audioPes : SentPes where
  first := ⟨audioStart, false, 0⟩
  rest := [⟨audioRest, false, 0⟩]
  first_start := by decide
  rest_start := by decide
  rest_ne := by decide
  header := by decide
  start_code := by decide
  length_eq := by decide

theorem pesOf_eq_survivors_audio :
    (run (TsPes.handle twoTracks) .init (arriving [(videoPacket 0x41 0, false),
        (audioStart, false), (videoPacket 0x01 1, true), (audioRest, false)])).pesOf 257 =
      [audioPes.bytes] :=
  (pesOf_eq_survivors twoTracks (fun _ => 0) [(videoPacket 0x41 0, false), (audioStart, false),
    (videoPacket 0x01 1, true), (audioRest, false)] (by decide) 257 [audioPes] rfl).1

/-- A PES packet of which no packet is lost is not handed over: between the two packets of an
    audio pid a video packet tells of the one lost before it, or its second packet has the
    discontinuity indicator. And one of which fifteen packets are lost is handed over without
    these and the next one, which has the number of the last one that arrived. -/
theorem pes_dropped_or_damaged :
    (run (TsPes.handle twoTracks) .init (arriving [(videoPacket 0x41 0, false),
        (audioStart, false), (videoPacket 0x01 1, true), (videoPacket 0x01 2, false),
        (audioRest, false)])).pesOf 257 = [] ∧
      (run (TsPes.handle twoTracks) .init (arriving [(audioStart, false),
        (.stuffed 0x01 1 1 0x80 [7, 8, 9] [] (by decide), false)])).pesOf 257 = [] ∧
      (run (TsPes.handle twoTracks) .init (arriving ((videoPacket 0x41 0, false) ::
        ((List.range 15).map fun i => (videoPacket 0x01 (UInt8.ofNat (i + 1)), true)) ++
        [(videoPacket 0x01 0, false), (videoPacket 0x01 1, false),
          (videoPacket 0x41 2, false)]))).pesOf 256 =
        [[0, 0, 1, 0xe0, 0, 0, 0, 0, 1, 0xe0, 0, 0]] :=
  ⟨by decide +kernel, by decide +kernel, by decide +kernel⟩

end Apackage.Rtp2httpd.Player
