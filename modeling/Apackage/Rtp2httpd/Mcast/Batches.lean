import Mathlib.Data.List.Perm.Basic
import Apackage.Rtp2httpd.Mcast.Source

/-
  Shared batches give each subscriber what the source delivered.

  `Owed log pending m` is the account of one subscriber: the payloads the source has delivered since
  `m` entered the batches are those queued on its connection, followed by what stands in the batch;
  for a subscriber that has closed or left, up to that moment and with the batch as it was then.
  Every event keeps it (`inv_step`).
-/

namespace Apackage.Rtp2httpd.Mcast

open List Lib.Serial Lib.Run

/-- What a subscriber has been given, against what the source has delivered. -/
def Owed (log pending : List Payload) (m : McastSession) : Prop :=
  match m.since with
  | none => m.shared = [] ∧ m.batched = false
  | some k =>
    match m.ended with
    | some (n, lost) => k ≤ n ∧ n ≤ log.length ∧ (log.take n).drop k = m.shared ++ lost
    | none => k ≤ log.length ∧ log.drop k = m.shared ++ (if m.batched then pending else [])

/-- The invariant of one subscriber. -/
structure Member (s : McastSource) (m : McastSession) : Prop where
  owed : Owed s.log s.pending m
  alive : m.ended = none → m.batched = true → m.failed = false
  ended : m.ended ≠ none → m.failed = true
  settled : m.ended = none → m.since ≠ none → m.batched = false → s.sharedOutput = false

variable {m : McastSession}

theorem Member.of_eq {s t : McastSource} (h : Member s m) (hlog : t.log = s.log)
    (hp : t.pending = s.pending) (hs : t.sharedOutput = s.sharedOutput) : Member t m :=
  ⟨by rw [hlog, hp]; exact h.owed, h.alive, h.ended, by rw [hs]; exact h.settled⟩

structure Inv (s : McastSource) : Prop where
  clients : s.batchClients = s.subscribers.countP (·.batched)
  member : ∀ m ∈ s.subscribers, Member s m
  gone : ∀ m ∈ s.gone, m.ended ≠ none ∧ Owed s.log [] m
  unshared : s.sharedOutput = false → s.batch = none ∧ s.batchClients = 0

/-! ## The account of a subscriber -/

section Owed

variable {log pending : List Payload} {m : McastSession}

theorem Owed.pending_irrel (h : Owed log pending m)
    (hm : m.batched = true → m.ended ≠ none) (pending' : List Payload) :
    Owed log pending' m := by
  unfold Owed at *
  cases hs : m.since with
  | none => simpa [hs] using h
  | some k =>
    cases he : m.ended with
    | some p => simpa [hs, he] using h
    | none =>
      have hb : m.batched = false := by
        by_contra hb
        exact hm (by simpa using hb) he
      simpa [hs, he, hb] using h

theorem Owed.push (h : Owed log pending m) (p : Payload)
    (hm : m.ended = none → m.since ≠ none → m.batched = true) :
    Owed (log ++ [p]) (pending ++ [p]) m := by
  unfold Owed at *
  cases hs : m.since with
  | none => simpa [hs] using h
  | some k =>
    cases he : m.ended with
    | some q =>
      grind
    | none =>
      grind

theorem Owed.fanout (h : Owed log pending m)
    (halive : m.ended = none → m.batched = true → m.failed = false)
    (hended : m.ended ≠ none → m.failed = true) :
    Owed log [] (fanoutTo pending m) := by
  unfold fanoutTo
  split
  · rename_i hc
    refine h.pending_irrel (fun hb he => ?_) []
    rw [hb, halive he hb] at hc
    cases hc
  · rename_i hc
    obtain ⟨hb, hf⟩ : m.batched = true ∧ m.failed = false := by simpa using hc
    have he : m.ended = none := by
      by_contra hne
      exact absurd (hf.symm.trans (hended hne)) (by decide)
    unfold Owed at *
    cases hs : m.since with
    | none => simp [hs, hb] at h
    | some k => simpa [hs, he, hb] using h

end Owed

/-! ## Flush -/

variable (b : List Payload)

@[simp] theorem fanoutTo_batched (m : McastSession) : (fanoutTo b m).batched = m.batched := by
  unfold fanoutTo; split <;> rfl

@[simp] theorem fanoutTo_failed (m : McastSession) : (fanoutTo b m).failed = m.failed := by
  unfold fanoutTo; split <;> rfl

@[simp] theorem fanoutTo_since (m : McastSession) : (fanoutTo b m).since = m.since := by
  unfold fanoutTo; split <;> rfl

@[simp] theorem fanoutTo_ended (m : McastSession) : (fanoutTo b m).ended = m.ended := by
  unfold fanoutTo; split <;> rfl

@[simp] theorem fanoutTo_nil (m : McastSession) : fanoutTo [] m = m := by
  unfold fanoutTo; split
  · rfl
  · rw [append_nil]

theorem flush_eq (s : McastSource) : mcastSourceFlush s =
      { s with batch := none, subscribers := s.subscribers.map (fanoutTo s.pending) } := by
  unfold mcastSourceFlush McastSource.pending
  split
  · rename_i hb
    have hid : fanoutTo ([] : List Payload) = id := funext fanoutTo_nil
    rw [hb, Option.getD_none, hid, List.map_id, ← hb]
  · simp [*]

@[simp] theorem flush_log (s : McastSource) : (mcastSourceFlush s).log = s.log := by rw [flush_eq]

@[simp] theorem flush_pending (s : McastSource) : (mcastSourceFlush s).pending = [] := by
  rw [flush_eq]; rfl

@[simp] theorem flush_batch (s : McastSource) : (mcastSourceFlush s).batch = none := by
  rw [flush_eq]

@[simp] theorem flush_reorder (s : McastSource) : (mcastSourceFlush s).reorder = s.reorder := by
  rw [flush_eq]

@[simp] theorem flush_sharedOutput (s : McastSource) :
    (mcastSourceFlush s).sharedOutput = s.sharedOutput := by
  rw [flush_eq]

variable {f : McastSession → McastSession}

theorem countP_map_batched {l : List McastSession} (hf : ∀ m ∈ l, (f m).batched = m.batched) :
    (l.map f).countP (·.batched) = l.countP (·.batched) := by
  rw [countP_map]
  exact countP_congr fun m hm => by simp [hf m hm]

variable {s : McastSource}

theorem Inv.flush (h : Inv s) : Inv (mcastSourceFlush s) := by
  rw [flush_eq]
  refine ⟨?_, fun m hm => ?_, h.gone, fun hs => ⟨rfl, (h.unshared hs).2⟩⟩
  · rw [countP_map_batched (fun m _ => fanoutTo_batched s.pending m)]
    exact h.clients
  · obtain ⟨a, ha, rfl⟩ := List.mem_map.1 hm
    have hma := h.member a ha
    refine ⟨hma.owed.fanout hma.alive hma.ended, ?_, ?_, ?_⟩
    · simpa using hma.alive
    · simpa using hma.ended
    · simpa using hma.settled

/-! ## Append -/

section

variable (h : Inv s) (hs : s.sharedOutput = true)

include h hs

theorem Inv.unserved (hc : s.batchClients = 0) (p : Payload) : Inv (record s p) := by
  have hnone : ∀ m ∈ s.subscribers, m.batched = false := by
    intro m hm
    have hz := h.clients.symm.trans hc
    rw [countP_eq_zero] at hz
    simpa using hz m hm
  refine ⟨h.clients, fun m hm => ?_, fun m hm => ?_, fun hf => ?_⟩
  · have hma := h.member m hm
    refine ⟨?_, hma.alive, hma.ended, hma.settled⟩
    have hpush := hma.owed.push p fun he hsi => ?_
    · exact hpush.pending_irrel (fun hb => absurd ((hnone m hm).symm.trans hb) (by decide)) _
    · exact absurd ((hma.settled he hsi (hnone m hm)).symm.trans hs) (by decide)
  · obtain ⟨he, ho⟩ := h.gone m hm
    exact ⟨he, (ho.push p fun hen => absurd hen he).pending_irrel (fun _ => he) _⟩
  · exact absurd (hs.symm.trans hf) (by decide)

theorem Inv.push (p : Payload) : Inv { record s p with batch := some (s.pending ++ [p]) } := by
  refine ⟨h.clients, fun m hm => ?_, fun m hm => ?_, fun hf => ?_⟩
  · have hma := h.member m hm
    refine ⟨hma.owed.push p fun he hsi => ?_, hma.alive, hma.ended, hma.settled⟩
    by_contra hb
    exact absurd ((hma.settled he hsi (by simpa using hb)).symm.trans hs) (by decide)
  · obtain ⟨he, ho⟩ := h.gone m hm
    exact ⟨he, (ho.push p fun hen => absurd hen he).pending_irrel (fun _ => he) _⟩
  · exact absurd (hs.symm.trans hf) (by decide)

theorem Inv.append (p : Payload) :
    Inv (mcastSourceAppend s p) ∧ (mcastSourceAppend s p).sharedOutput = true ∧
      (mcastSourceAppend s p).log = s.log ++ [p] := by
  unfold mcastSourceAppend
  split
  · rename_i hc
    exact ⟨h.unserved hs hc p, hs, rfl⟩
  dsimp only
  set t := if s.batch.isSome ∧ batchSize - dataSize s.pending < p.length then mcastSourceFlush s
    else s with ht
  obtain ⟨hti, hts, htl⟩ : Inv t ∧ t.sharedOutput = true ∧ t.log = s.log := by
    rw [ht]
    split
    · exact ⟨h.flush, by rw [flush_sharedOutput, hs], flush_log s⟩
    · exact ⟨h, hs, rfl⟩
  have hpush := hti.push hts p
  split
  · exact ⟨hpush.flush, by rw [flush_sharedOutput]; exact hts, by rw [flush_log, ← htl]; rfl⟩
  · exact ⟨hpush, hts, by rw [← htl]; rfl⟩

theorem Inv.appendAll (ps : List Payload) :
    Inv (ps.foldl mcastSourceAppend s) ∧ (ps.foldl mcastSourceAppend s).sharedOutput = true ∧
      (ps.foldl mcastSourceAppend s).log = s.log ++ ps := by
  induction ps generalizing s with
  | nil => exact ⟨h, hs, (append_nil _).symm⟩
  | cons p ps ih =>
    obtain ⟨hi, hsi, hl⟩ := h.append hs p
    obtain ⟨hi', hsi', hl'⟩ := ih hi hsi
    exact ⟨hi', hsi', by rw [foldl_cons, hl', hl, append_assoc]; rfl⟩

end

/-! ## In-band FEC and promotion -/

/-- With an empty batch a subscriber can leave the shared output with its account settled. -/
theorem Member.takeWindow {s t : McastSource} (h : Member s m) (hp : s.pending = [])
    (hlog : t.log = s.log) (ht : t.pending = []) (hs : t.sharedOutput = false)
    (reorder : RtpReorder) : Member t (takeWindow reorder m) := by
  have ho := h.owed
  rw [hp] at ho
  unfold Mcast.takeWindow
  split
  · rename_i hb
    refine ⟨?_, fun _ hbf => (by cases hbf), h.ended, fun _ _ _ => hs⟩
    rw [hlog, ht]
    unfold Owed at ho ⊢
    cases hsi : m.since with
    | none => simp [hsi, hb] at ho
    | some k => simpa [hsi, hb] using ho
  · exact ⟨by rw [hlog, ht]; exact ho, h.alive, h.ended, fun _ _ _ => hs⟩

theorem takeWindow_batched (reorder : RtpReorder) (m : McastSession) :
    (takeWindow reorder m).batched = false := by
  unfold takeWindow
  split
  · rfl
  · simpa using ‹¬ m.batched = true›

theorem Inv.enablePrivateFec (h : Inv s) : Inv (mcastSourceEnablePrivateFec s) := by
  have hf := h.flush
  refine ⟨?_, fun m hm => ?_, hf.gone, fun _ => ⟨flush_batch s, rfl⟩⟩
  · refine (countP_eq_zero.2 fun m hm => ?_).symm
    obtain ⟨a, -, rfl⟩ := List.mem_map.1 hm
    simp [takeWindow_batched]
  · obtain ⟨a, ha, rfl⟩ := List.mem_map.1 hm
    exact (hf.member a ha).takeWindow (t := mcastSourceEnablePrivateFec s) (flush_pending s) rfl
      (flush_pending s) (by rfl) _

theorem Member.unserved (h : Member s m) (hs : s.sharedOutput = true) (hb : m.batched = false)
    (hf : m.failed = false) : m.since = none ∧ m.ended = none ∧ m.shared = [] := by
  have he : m.ended = none := by
    by_contra hne
    exact absurd (hf.symm.trans (h.ended hne)) (by decide)
  have hsi : m.since = none := by
    by_contra hne
    exact absurd ((h.settled he hne hb).symm.trans hs) (by decide)
  have ho := h.owed
  unfold Owed at ho
  rw [hsi] at ho
  exact ⟨hsi, he, ho.1⟩

theorem enterBatches_member (hp : s.pending = []) (he : m.ended = none) (hf : m.failed = false)
    (hsh : m.shared = []) : Member s (enterBatches s m) := by
  refine ⟨?_, fun _ _ => hf, fun hne => absurd he hne, fun _ _ hb => by cases hb⟩
  unfold Owed enterBatches
  simp [he, hsh, hp]

theorem readyFor_path {packetType : PacketType} {r : RtpReorder}
    (h : readyFor packetType r m = true) : m.batched = false ∧ m.failed = false := by
  simp only [readyFor, Bool.and_eq_true, Bool.not_eq_true'] at h
  exact ⟨h.1.1.1.1.1, h.1.1.1.1.2⟩

theorem Inv.promoteReady (h : Inv s) (hs : s.sharedOutput = true) (packetType : PacketType) :
    Inv (mcastSourcePromoteReady packetType s) := by
  unfold mcastSourcePromoteReady
  dsimp only
  split
  swap
  · exact h
  have hf := h.flush
  set ready := readyFor packetType s.reorder.reorder with hready
  refine ⟨?_, fun m hm => ?_, hf.gone, fun hsf => ?_⟩
  · show (mcastSourceFlush s).batchClients + _ = _
    rw [hf.clients, countP_map]
    generalize (mcastSourceFlush s).subscribers = l
    induction l with
    | nil => rfl
    | cons a l ih =>
      rw [countP_cons, countP_cons, countP_cons, ← ih, Function.comp_apply]
      by_cases hra : ready a = true
      · have hb := (readyFor_path (hready ▸ hra)).1
        rw [if_pos hra, if_pos hra, hb, if_neg (by decide), if_pos (by rfl)]
        omega
      · rw [if_neg hra, if_neg hra]
        omega
  · obtain ⟨a, ha, rfl⟩ := List.mem_map.1 hm
    have hma := hf.member a ha
    split
    · rename_i hra
      obtain ⟨hb, hfail⟩ := readyFor_path (hready ▸ hra)
      obtain ⟨-, he, hsh⟩ := hma.unserved (by rw [flush_sharedOutput, hs]) hb hfail
      exact enterBatches_member (flush_pending s) he hfail hsh
    · exact hma.of_eq rfl rfl rfl
  · have hsf : (mcastSourceFlush s).sharedOutput = false := hsf
    rw [flush_sharedOutput, hs] at hsf
    cases hsf

/-! ## Datagrams -/

theorem deliver_batched (path : PacketPath) (packet : BufferRef) (m : McastSession) :
    (mcastDeliverPacket path packet m).batched = m.batched := by
  unfold mcastDeliverPacket
  split <;> rfl

/-- The packet path leaves the account of a subscriber alone. -/
theorem Member.deliver (h : Member s m) (path : PacketPath) (packet : BufferRef) :
    Member s (mcastDeliverPacket path packet m) := by
  unfold mcastDeliverPacket
  split
  · exact h
  · rename_i hc
    obtain ⟨hb, hf⟩ : m.batched = false ∧ m.failed = false := by simpa using hc
    refine ⟨h.owed, fun _ hbt => ?_, fun hne => ?_, h.settled⟩
    · exact absurd (hb.symm.trans hbt) (by decide)
    · exact absurd (hf.symm.trans (h.ended hne)) (by decide)

theorem Inv.deliver (h : Inv s) (path : PacketPath) (packet : BufferRef) :
    Inv { s with subscribers := s.subscribers.map (mcastDeliverPacket path packet) } := by
  refine ⟨?_, fun m hm => ?_, h.gone, h.unshared⟩
  · rw [countP_map_batched (fun m _ => deliver_batched path packet m)]
    exact h.clients
  · obtain ⟨a, ha, rfl⟩ := List.mem_map.1 hm
    exact ((h.member a ha).deliver path packet).of_eq rfl rfl rfl

theorem Inv.withReorder (h : Inv s) (reorder : StreamContext) : Inv { s with reorder := reorder } :=
  ⟨h.clients, fun m hm => (h.member m hm).of_eq rfl rfl rfl, h.gone, h.unshared⟩

theorem Inv.output (h : Inv s) (hs : s.sharedOutput = true) (packet : BufferRef) :
    Inv (sourceOutput packet s) := by
  unfold sourceOutput
  split
  · rename_i start length seqn _
    set reorder := rtpReorderInsert deliverSize
      { packet with dataOffset := start, dataSize := length } seqn s.reorder
    obtain ⟨hi, hsi, -⟩ := (h.withReorder reorder).appendAll hs (newPayloads s.reorder reorder)
    exact hi.promoteReady hsi .rtp
  · split
    · obtain ⟨hi, hsi, -⟩ := h.append hs packet.payload
      exact hi.promoteReady hsi .mpegts
    · exact h
  · exact h

theorem Inv.processPacket (h : Inv s) (path : PacketPath) (packet : BufferRef) :
    Inv (mcastSourceProcessPacket path packet s) := by
  unfold mcastSourceProcessPacket
  dsimp only
  have hc : Inv (checkInBandFec packet s) := by
    unfold checkInBandFec
    split
    · exact h.enablePrivateFec
    · exact h
  have hd := hc.deliver path packet
  split
  · exact hd.output ‹_› packet
  · exact hd

/-! ## Joins and leaves -/

theorem Inv.join (h : Inv s) (own : OwnState) : Inv (mcastSessionJoin own s) := by
  have hf := h.flush
  unfold mcastSessionJoin
  dsimp only
  split
  · rename_i hc
    refine ⟨?_, fun m hm => ?_, hf.gone, fun hsf => ?_⟩
    · rw [countP_cons, ← hf.clients]
      rfl
    · rcases List.mem_cons.1 hm with rfl | hm
      · exact (enterBatches_member (m := ⟨own, false, false, [], none, none⟩) (flush_pending s)
          rfl rfl rfl).of_eq rfl rfl rfl
      · exact (hf.member m hm).of_eq rfl rfl rfl
    · rw [show (mcastSourceFlush s).sharedOutput = false from hsf] at hc
      cases hc
  · refine ⟨?_, fun m hm => ?_, hf.gone, hf.unshared⟩
    · rw [countP_cons, ← hf.clients]
      rfl
    · rcases List.mem_cons.1 hm with rfl | hm
      · exact ⟨⟨rfl, rfl⟩, fun _ hb => (by cases hb), fun hne => absurd rfl hne,
          fun _ hne => absurd rfl hne⟩
      · exact (hf.member m hm).of_eq rfl rfl rfl

theorem Member.endSession (h : Member s m) (pending : List Payload) :
    (endSession s m).ended ≠ none ∧ Owed s.log pending (endSession s m) := by
  unfold Mcast.endSession
  split
  · rename_i he
    have hne : m.ended ≠ none := by
      intro hn
      rw [hn] at he
      cases he
    exact ⟨hne, h.owed.pending_irrel (fun _ => hne) pending⟩
  · rename_i he
    have he : m.ended = none := by simpa using he
    refine ⟨by simp, ?_⟩
    have ho := h.owed
    unfold Owed at ho ⊢
    cases hs : m.since with
    | none => simpa [hs] using ho
    | some k =>
      simp only [hs, he] at ho ⊢
      exact ⟨ho.1, Nat.le_refl _, by rw [take_length]; exact ho.2⟩

theorem mem_modify {α : Type*} {f : α → α} {l : List α} {n : ℕ} {x : α}
    (h : x ∈ l.modify n f) : x ∈ l ∨ ∃ a ∈ l, x = f a := by
  induction l generalizing n with
  | nil => simp at h
  | cons a l ih =>
    cases n with
    | zero =>
      rw [modify_zero_cons, List.mem_cons] at h
      rcases h with rfl | h
      · exact .inr ⟨a, mem_cons_self, rfl⟩
      · exact .inl (mem_cons_of_mem a h)
    | succ n =>
      rw [modify_succ_cons, List.mem_cons] at h
      rcases h with rfl | h
      · exact .inl mem_cons_self
      · rcases ih h with h | ⟨b, hb, rfl⟩
        · exact .inl (mem_cons_of_mem a h)
        · exact .inr ⟨b, mem_cons_of_mem a hb, rfl⟩

theorem countP_modify {α : Type*} {p : α → Bool} {f : α → α} (hf : ∀ a, p (f a) = p a)
    (l : List α) (n : ℕ) : (l.modify n f).countP p = l.countP p := by
  induction l generalizing n with
  | nil => simp
  | cons a l ih =>
    cases n with
    | zero => simp [countP_cons, hf]
    | succ n => simp [countP_cons, ih]

theorem Inv.modify (h : Inv s) (n : ℕ) (hb : ∀ m, (f m).batched = m.batched)
    (hf : ∀ m, Member s m → Member s (f m)) :
    Inv { s with subscribers := s.subscribers.modify n f } := by
  refine ⟨?_, fun m hm => ?_, h.gone, h.unshared⟩
  · rw [countP_modify hb]
    exact h.clients
  · rcases mem_modify hm with hm | ⟨a, ha, rfl⟩
    · exact (h.member m hm).of_eq rfl rfl rfl
    · exact (hf a (h.member a ha)).of_eq rfl rfl rfl

theorem endSession_batched (s : McastSource) (m : McastSession) :
    (endSession s m).batched = m.batched := by
  unfold endSession
  split <;> rfl

theorem Inv.cleanup (h : Inv s) (n : ℕ) : Inv (mcastSessionCleanup n s) := by
  unfold mcastSessionCleanup
  split
  · exact h
  rename_i m hm
  obtain ⟨hlt, hget⟩ := List.getElem?_eq_some_iff.1 hm
  have hmem : m ∈ s.subscribers := hget ▸ getElem_mem hlt
  have hgone : ∀ a ∈ endSession s m :: s.gone, a.ended ≠ none ∧ Owed s.log [] a := by
    intro a ha
    rcases List.mem_cons.1 ha with rfl | ha
    · exact (h.member m hmem).endSession []
    · exact h.gone a ha
  split
  · exact ⟨rfl, fun a ha => absurd ha not_mem_nil, hgone, fun _ => ⟨rfl, rfl⟩⟩
  have hcount : s.subscribers.countP (·.batched) =
      (if m.batched then 1 else 0) + (s.subscribers.eraseIdx n).countP (·.batched) := by
    rw [← (getElem_cons_eraseIdx_perm hlt).countP_eq, countP_cons, hget, Nat.add_comm]
  refine ⟨?_, fun a ha => ?_, hgone, fun hs => ⟨(h.unshared hs).1, ?_⟩⟩
  · rw [h.clients, hcount]
    split <;> simp
  · exact (h.member a (mem_of_mem_eraseIdx ha)).of_eq rfl rfl rfl
  · rw [(h.unshared hs).2]
    split <;> rfl

/-! ## Runs -/

theorem inv_step (path : PacketPath) (h : Inv s) (e : McastEvent) : Inv (mcastStep path s e) := by
  cases e with
  | packet id data => exact h.processPacket path _
  | join own => exact h.join own
  | leave n => exact h.cleanup n
  | tickFlush => exact h.flush
  | own n state =>
    exact h.modify n (fun _ => rfl) fun m hm => ⟨hm.owed, hm.alive, hm.ended, hm.settled⟩
  | closing n =>
    refine h.modify n (endSession_batched s) fun m hm => ?_
    obtain ⟨hne, ho⟩ := hm.endSession s.pending
    exact ⟨ho, fun he => absurd he hne, fun _ => rfl, fun he => absurd he hne⟩

theorem Inv.create (fecPort : ℕ) : Inv (McastSource.create fecPort [] []) :=
  ⟨rfl, fun _ hm => absurd hm not_mem_nil, fun _ hm => absurd hm not_mem_nil, fun _ => ⟨rfl, rfl⟩⟩

theorem inv_run (path : PacketPath) (h : Inv s) (es : List McastEvent) :
    Inv (run (mcastStep path) s es) := by
  induction es generalizing s with
  | nil => exact h
  | cons e es ih => exact ih (inv_step path h e)

/-! ## The payloads of the source -/

/-- The payloads a window with the shared output delivers for a datagram. -/
def outputPayloads (packet : BufferRef) (reorder : StreamContext) : List Payload :=
  match rtpGetPayload packet.payload with
  | .rtp start length seqn =>
    newPayloads reorder (rtpReorderInsert deliverSize
      { packet with dataOffset := start, dataSize := length } seqn reorder)
  | .nonRtp => if streamPayloadIsMpegts packet.payload then [packet.payload] else []
  | _ => []

/-- The payloads the source delivers for an event. -/
def payloadsOf (s : McastSource) : McastEvent → List Payload
  | .packet id data =>
    if s.sharedOutput then outputPayloads ⟨id, data, 0, data.length⟩ s.reorder else []
  | _ => []

/-- The payloads the source delivers over a run, in order. -/
def sourcePayloads (path : PacketPath) : McastSource → List McastEvent → List Payload
  | _, [] => []
  | s, e :: es => payloadsOf s e ++ sourcePayloads path (mcastStep path s e) es

theorem promoteReady_log (packetType : PacketType) (s : McastSource) :
    (mcastSourcePromoteReady packetType s).log = s.log := by
  unfold mcastSourcePromoteReady
  dsimp only
  split
  · exact flush_log s
  · rfl

theorem output_log (h : Inv s) (hs : s.sharedOutput = true) (packet : BufferRef) :
    (sourceOutput packet s).log = s.log ++ outputPayloads packet s.reorder := by
  unfold sourceOutput outputPayloads
  cases rtpGetPayload packet.payload with
  | malformed => exact (append_nil _).symm
  | fec => exact (append_nil _).symm
  | rtp start length seqn =>
    rw [promoteReady_log, ((h.withReorder (rtpReorderInsert deliverSize
      { packet with dataOffset := start, dataSize := length } seqn s.reorder)).appendAll hs _).2.2]
  | nonRtp =>
    dsimp only
    split
    · rw [promoteReady_log, (h.append hs _).2.2]
    · exact (append_nil _).symm

theorem processPacket_log (path : PacketPath) (h : Inv s) (packet : BufferRef) :
    (mcastSourceProcessPacket path packet s).log =
      s.log ++ if s.sharedOutput then outputPayloads packet s.reorder else [] := by
  unfold mcastSourceProcessPacket
  by_cases hs : s.sharedOutput = true
  · rw [if_pos hs]
    by_cases hp : rtpGetPayload packet.payload = .fec
    · have hc : checkInBandFec packet s = mcastSourceEnablePrivateFec s := by
        simp [checkInBandFec, hs, hp]
      rw [hc, if_neg (by simp [mcastSourceEnablePrivateFec])]
      show (mcastSourceFlush s).log = _
      simp [outputPayloads, hp]
    · have hc : checkInBandFec packet s = s := by simp [checkInBandFec, hp]
      rw [hc, if_pos hs]
      exact output_log (h.deliver path packet) hs packet
  · have hc : checkInBandFec packet s = s := by simp [checkInBandFec, hs]
    rw [hc, if_neg hs, if_neg hs, append_nil]

theorem log_step (path : PacketPath) (h : Inv s) (e : McastEvent) :
    (mcastStep path s e).log = s.log ++ payloadsOf s e := by
  cases e with
  | packet id data => exact processPacket_log path h _
  | join own =>
    simp only [mcastStep, mcastSessionJoin, payloadsOf, append_nil]
    split <;> exact flush_log s
  | leave n =>
    simp only [mcastStep, mcastSessionCleanup, payloadsOf, append_nil]
    split
    · rfl
    · split <;> rfl
  | closing n => exact (append_nil _).symm
  | own n state => exact (append_nil _).symm
  | tickFlush => exact (flush_log s).trans (append_nil _).symm

theorem run_log (path : PacketPath) (h : Inv s) (es : List McastEvent) :
    (run (mcastStep path) s es).log = s.log ++ sourcePayloads path s es := by
  induction es generalizing s with
  | nil => exact (append_nil _).symm
  | cons e es ih =>
    rw [run_cons, ih (inv_step path h e), log_step path h e, append_assoc]
    rfl

/-! ## Results -/

theorem flushed_account (h : Inv s) (hm : m ∈ (mcastSourceFlush s).subscribers)
    (he : m.ended = none) {k : ℕ} (hk : m.since = some k) : s.log.drop k = m.shared := by
  have ho := (h.flush.member m hm).owed
  rw [flush_pending, flush_log] at ho
  unfold Owed at ho
  simp only [hk, he] at ho
  rw [ho.2]
  split <;> exact append_nil _

/-- A switch to in-band FEC sends a subscriber of the batches all that was delivered, and
    gives it the window of the source with all that was not. -/
theorem fec_account (h : Inv s) (hm : m ∈ s.subscribers) (hb : m.batched = true)
    (he : m.ended = none) {k : ℕ} (hk : m.since = some k) :
    ∃ m' ∈ (mcastSourceEnablePrivateFec s).subscribers,
      m'.batched = false ∧ m'.own.stream.reorder = s.reorder.reorder ∧
      m'.since = some k ∧ s.log.drop k = m'.shared := by
  have hfl : fanoutTo s.pending m ∈ (mcastSourceFlush s).subscribers := by
    rw [flush_eq]
    exact List.mem_map_of_mem hm
  have hbf : (fanoutTo s.pending m).batched = true := by rw [fanoutTo_batched, hb]
  refine ⟨takeWindow (mcastSourceFlush s).reorder.reorder (fanoutTo s.pending m),
    List.mem_map_of_mem hfl, takeWindow_batched _ _, ?_, ?_, ?_⟩
  · rw [flush_reorder, takeWindow, if_pos hbf]
  · rw [takeWindow, if_pos hbf]
    exact (fanoutTo_since _ _).trans hk
  · rw [takeWindow, if_pos hbf]
    exact flushed_account h hfl ((fanoutTo_ended _ _).trans he) ((fanoutTo_since _ _).trans hk)

/-- A promotion at an RTP packet happens at the same next sequence number, with nothing held
    back by the subscriber's own window, FCC or FEC. -/
theorem promotion_boundary {r : RtpReorder} (h : readyFor .rtp r m = true) :
    m.own.stream.reorder.baseSeq = r.baseSeq ∧ m.own.stream.reorder.count = 0 ∧
      m.own.stream.reorder.phase = .active ∧ r.phase = .active ∧
      fecIsEnabled m.own.stream.fec = false ∧
      (m.own.fccInitialized = true →
        m.own.fcc.state = .mcastActive ∧ m.own.fcc.pendingList = []) := by
  simp only [readyFor, Bool.and_eq_true, Bool.or_eq_true, Bool.not_eq_true', decide_eq_true_eq,
    reduceCtorEq, false_or] at h
  obtain ⟨⟨⟨-, hfec⟩, hfcc⟩, ⟨⟨hr, ho⟩, hcount⟩, hbase⟩ := h
  refine ⟨hbase, hcount, ho, hr, hfec, fun hi => ?_⟩
  rcases hfcc with hn | hfcc
  · exact absurd (hn.symm.trans hi) (by decide)
  · exact hfcc

/-- Over any run: the log is what the source has delivered; each subscriber of the batches
    has been given exactly what the source delivered since it entered them, apart from what
    stands in the batch, which it lacks for good if it closes or leaves now; a flush gives it
    the rest; a switch to in-band FEC gives it the rest and the source's window; and a
    promotion at an RTP packet happens at an identical sequence boundary. -/
theorem batches_account (path : PacketPath) (fecPort : ℕ) (es : List McastEvent) :
    let s := run (mcastStep path) (McastSource.create fecPort [] []) es
    s.log = sourcePayloads path (McastSource.create fecPort [] []) es ∧
      (∀ m ∈ s.subscribers ++ s.gone, Owed s.log s.pending m) ∧
      (∀ m ∈ (mcastSourceFlush s).subscribers, m.ended = none → ∀ k, m.since = some k →
        s.log.drop k = m.shared) ∧
      (∀ m ∈ s.subscribers, m.batched = true → m.ended = none → ∀ k, m.since = some k →
        ∃ m' ∈ (mcastSourceEnablePrivateFec s).subscribers,
          m'.batched = false ∧ m'.own.stream.reorder = s.reorder.reorder ∧
          m'.since = some k ∧ s.log.drop k = m'.shared) ∧
      (∀ m ∈ s.subscribers, readyFor .rtp s.reorder.reorder m = true →
        m.own.stream.reorder.baseSeq = s.reorder.reorder.baseSeq ∧
        m.own.stream.reorder.count = 0 ∧ m.own.stream.reorder.phase = .active ∧
        s.reorder.reorder.phase = .active ∧ fecIsEnabled m.own.stream.fec = false ∧
        (m.own.fccInitialized = true →
          m.own.fcc.state = .mcastActive ∧ m.own.fcc.pendingList = [])) := by
  have hI := Inv.create fecPort
  have h := inv_run path hI es
  refine ⟨?_, fun m hm => ?_, fun m hm he k hk => flushed_account h hm he hk,
    fun m hm hb he k hk => fec_account h hm hb he hk,
    fun m _ hr => promotion_boundary hr⟩
  · exact (run_log path hI es).trans (nil_append _)
  · rcases mem_append.1 hm with hm | hm
    · exact (h.member m hm).owed
    · obtain ⟨he, ho⟩ := h.gone m hm
      exact ho.pending_irrel (fun _ => he) _

/-- Every subscriber that has left was given all the source delivered while it was in the
    batches. -/
def LeaversPaid (s : McastSource) : Prop :=
  ∀ m ∈ s.gone, ∀ k n lost, m.since = some k → m.ended = some (n, lost) →
    (s.log.take n).drop k = m.shared

def tsPacket : Payload := 0x47 :: List.replicate 187 0

/-- A subscriber without FCC or snapshot. -/
def plainOwn : OwnState :=
  ⟨false, false, ⟨.init, 0, false, 0, 0, []⟩, StreamContext.init false (fecInit 0)⟩

/-- A subscriber joins, a packet arrives, and the subscriber leaves. -/
def leaveUnflushed : McastSource :=
  run (mcastStep fun own _ => (own, false)) (McastSource.create 0 [] [])
    [.join plainOwn, .packet 0 tsPacket, .leave 0]

/-- A subscriber that leaves with a payload in the batch is never given it. -/
theorem leaver_not_paid : ¬ LeaversPaid leaveUnflushed := by
  intro h
  obtain ⟨m, hm⟩ := length_eq_one_iff.1 (by decide +kernel : leaveUnflushed.gone.length = 1)
  have hsince : leaveUnflushed.gone.map (·.since) = [some 0] := by decide +kernel
  have hended : leaveUnflushed.gone.map (·.ended) = [some (1, [tsPacket])] := by decide +kernel
  have hshared : leaveUnflushed.gone.map (·.shared) = [[]] := by decide +kernel
  have hlog : leaveUnflushed.log = [tsPacket] := by decide +kernel
  simp only [hm, map_cons, map_nil, List.cons.injEq, and_true] at hsince hended hshared
  have hpaid := h m (by rw [hm]; exact mem_singleton_self m) 0 1 [tsPacket] hsince hended
  rw [hlog, hshared] at hpaid
  cases hpaid

end Apackage.Rtp2httpd.Mcast
