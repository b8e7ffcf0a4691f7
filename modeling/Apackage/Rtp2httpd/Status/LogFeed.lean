import Apackage.Lib.NumberedRing
import Apackage.Lib.Run
import Apackage.Rtp2httpd.Http.Url

/-
  The log of the status page (`status.c`): the ring of the last entries in shared memory, the
  payloads that carry them to a page, and what the page shows of them.

  Model. Each operation on the ring is one step. Of a payload there are only the logs: an entry
  stands for its JSON object. Whether the text fits into the buffer is an input of the builder, and
  whether the queue of the connection takes it is one of the update. What a page does with a payload
  (`handlePayload`) is the list of logs without its limit of 500 entries.

  Payloads only add to the list of a page or replace it, so a page keeps entries that the ring
  has overwritten since. While every payload that is built also reaches the connection, and the
  epoch does not come back to the value that the connection has seen, the list is a piece of the
  log of the current epoch that ends with the entries in the ring.
-/

namespace Apackage.Rtp2httpd

open List Lib Lib.NumberedRing Lib.Run

/-! ## The code -/

def statusMaxLogEntries : ℕ := 100
def statusLogEntryLen : ℕ := 1024
def uint32Max : ℕ := 2 ^ 32 - 1

structure LogEntry where
  timestamp : ℤ
  level : ℕ
  message : Bytes
  deriving DecidableEq

structure LogRing where
  logEntries : List (NumberedRing.Slot LogEntry)
  logSequence : ℕ
  logEpoch : ℕ

/-- What `status_init` leaves. -/
def logRingInit : LogRing where
  logEntries := List.replicate statusMaxLogEntries ⟨0, 0, 0, []⟩
  logSequence := 0
  logEpoch := 1

def invalidateLogRing (ring : LogRing) : LogRing :=
  { ring with logEntries := ring.logEntries.map fun slot => { slot with number := 0 } }

/-- `clear_log_ring`. The epoch 0 is left out. -/
def clearLogRing (ring : LogRing) : LogRing :=
  let epoch := (ring.logEpoch + 1) % 2 ^ 32
  { invalidateLogRing ring with logSequence := 0, logEpoch := if epoch = 0 then 1 else epoch }

def storedEntry (entry : LogEntry) : LogEntry :=
  { entry with message := (cstr entry.message).take (statusLogEntryLen - 1) }

def appendLogEntry (entry : LogEntry) (ring : LogRing) : LogRing :=
  let ring := if ring.logSequence = uint32Max then clearLogRing ring else ring
  let sequence := ring.logSequence + 1
  { ring with
    logEntries := ring.logEntries.set ((sequence - 1) % statusMaxLogEntries)
      ⟨sequence, storedEntry entry⟩
    logSequence := sequence }

def heldEntries (ring : LogRing) : List LogEntry :=
  NumberedRing.contents statusMaxLogEntries ring.logEntries ring.logSequence

/-! ## Payloads -/

/-- What a connection has seen of the log. -/
structure SseCursor where
  sentInitial : Bool
  lastLogEpoch : ℕ
  lastLogSequence : ℕ
  deriving DecidableEq

inductive LogsMode
  | none
  | full
  | incremental

structure LogsPayload where
  logsMode : LogsMode
  logs : List LogEntry

def fullLogs (ring : LogRing) (cursor : SseCursor) : Bool :=
  !cursor.sentInitial || ring.logEpoch != cursor.lastLogEpoch ||
    ring.logSequence < cursor.lastLogSequence ||
    statusMaxLogEntries < ring.logSequence - cursor.lastLogSequence

def firstSequence (ring : LogRing) (cursor : SseCursor) : ℕ :=
  if fullLogs ring cursor then
    if statusMaxLogEntries < ring.logSequence then ring.logSequence - statusMaxLogEntries + 1
    else if 0 < ring.logSequence then 1 else 0
  else if cursor.lastLogSequence < ring.logSequence then cursor.lastLogSequence + 1
  else 0

/-- The loop over the sequence numbers. A slot that has another number is skipped. -/
def loggedFrom (ring : LogRing) (first : ℕ) : List LogEntry :=
  if first = 0 then []
  else (List.range' first (ring.logSequence + 1 - first)).filterMap
    (NumberedRing.find statusMaxLogEntries ring.logEntries)

/-- `status_build_sse_json`: the payload and what the connection has seen with it. -/
def statusBuildSseJson (fits : Bool) (ring : LogRing) (cursor : SseCursor) :
    Option LogsPayload × SseCursor :=
  let first := firstSequence ring cursor
  let logsMode := if fullLogs ring cursor then .full else if first = 0 then .none else .incremental
  if fits then (some ⟨logsMode, loggedFrom ring first⟩, ⟨true, ring.logEpoch, ring.logSequence⟩)
  else (none, cursor)

def applyLogs (logs : List LogEntry) (payload : LogsPayload) : List LogEntry :=
  match payload.logsMode with
  | .full => payload.logs
  | .incremental => logs ++ payload.logs
  | .none => logs

/-! ## Runs -/

/-- The ring and one connection. `epochLog` and `clears` are not in the program: the entries
appended since the ring was last cleared, and the number of clears since the last payload that
was built. -/
structure LogFeed where
  ring : LogRing
  cursor : SseCursor
  viewer : List LogEntry
  epochLog : List LogEntry
  clears : ℕ

inductive FeedEvent
  | append (entry : LogEntry)
  | clear
  /-- The first update of a connection is made by `status_handle_sse_init`. -/
  | update (fits accepted : Bool)

def logFeedInit : LogFeed := ⟨logRingInit, ⟨false, 0, 0⟩, [], [], 0⟩

def feedClear (s : LogFeed) : LogFeed :=
  { s with ring := clearLogRing s.ring, epochLog := [], clears := s.clears + 1 }

/-- An append clears the ring when the sequence numbers are used up. -/
def feedAppend (entry : LogEntry) (s : LogFeed) : LogFeed :=
  let t := if s.ring.logSequence = uint32Max then feedClear s else s
  { t with ring := appendLogEntry entry s.ring, epochLog := t.epochLog ++ [storedEntry entry] }

/-- `status_handle_sse_notification` for one connection. -/
def feedUpdate (fits accepted : Bool) (s : LogFeed) : LogFeed :=
  match statusBuildSseJson fits s.ring s.cursor with
  | (none, _) => s
  | (some payload, cursor) =>
    { s with
      cursor := cursor
      viewer := if accepted then applyLogs s.viewer payload else s.viewer
      clears := 0 }

def feedStep (s : LogFeed) : FeedEvent → LogFeed
  | .append entry => feedAppend entry s
  | .clear => feedClear s
  | .update fits accepted => feedUpdate fits accepted s

/-! ## The ring -/

/-- The slots hold the end of the log of the current epoch. -/
structure RingInv (s : LogFeed) : Prop where
  keeps : HoldsLast statusMaxLogEntries s.epochLog s.ring.logEntries
  sequence : s.ring.logSequence = s.epochLog.length
  sequence_le : s.ring.logSequence ≤ uint32Max
  epoch : 1 ≤ s.ring.logEpoch ∧ s.ring.logEpoch ≤ uint32Max

theorem ringInv_init : RingInv logFeedInit where
  keeps := by
    have hkeeps := keeps_nil logRingInit.logEntries (by decide)
    rwa [show logRingInit.logEntries.length = statusMaxLogEntries from rfl] at hkeeps
  sequence := rfl
  sequence_le := Nat.zero_le _
  epoch := by decide

section Step

variable {s : LogFeed}

theorem heldEntries_eq (h : RingInv s) :
    heldEntries s.ring = s.epochLog.drop (s.epochLog.length - statusMaxLogEntries) := by
  rw [heldEntries, h.sequence, h.keeps.contents (by decide)]

theorem clearLogRing_epoch {ring : LogRing} (h : 1 ≤ ring.logEpoch ∧ ring.logEpoch ≤ uint32Max) :
    (clearLogRing ring).logEpoch = ring.logEpoch % uint32Max + 1 := by
  unfold uint32Max at *
  show (if (ring.logEpoch + 1) % 2 ^ 32 = 0 then 1 else (ring.logEpoch + 1) % 2 ^ 32) = _
  split <;> omega

theorem feedClear_ring (h : RingInv s) : RingInv (feedClear s) where
  keeps := by
    have hkeeps := keeps_nil (invalidateLogRing s.ring).logEntries fun slot hslot => by
      obtain ⟨slot', -, rfl⟩ := List.mem_map.1 hslot
      rfl
    have hlen : (invalidateLogRing s.ring).logEntries.length = statusMaxLogEntries := by
      rw [← h.keeps.size]
      exact length_map _
    rwa [hlen] at hkeeps
  sequence := rfl
  sequence_le := Nat.zero_le _
  epoch := by
    show 1 ≤ (clearLogRing s.ring).logEpoch ∧ (clearLogRing s.ring).logEpoch ≤ uint32Max
    rw [clearLogRing_epoch h.epoch]
    unfold uint32Max
    omega

theorem feedClear_room (s : LogFeed) : (feedClear s).ring.logSequence ≠ uint32Max := by
  have hzero : (feedClear s).ring.logSequence = 0 := rfl
  rw [hzero]
  decide

theorem feedAppend_room (entry : LogEntry) (hroom : s.ring.logSequence ≠ uint32Max) :
    feedAppend entry s =
      { s with
        ring := appendLogEntry entry s.ring
        epochLog := s.epochLog ++ [storedEntry entry] } := by
  unfold feedAppend
  rw [if_neg hroom]

theorem feedAppend_full {entry : LogEntry} (hfull : s.ring.logSequence = uint32Max) :
    feedAppend entry s = feedAppend entry (feedClear s) := by
  have hroom := feedClear_room s
  have hring : appendLogEntry entry s.ring = appendLogEntry entry (feedClear s).ring := by
    unfold appendLogEntry
    rw [if_pos hfull, if_neg hroom]
    rfl
  rw [feedAppend_room _ hroom, ← hring]
  unfold feedAppend
  rw [if_pos hfull]

theorem appendLogEntry_room {entry : LogEntry} {ring : LogRing}
    (hroom : ring.logSequence ≠ uint32Max) :
    appendLogEntry entry ring =
      { ring with
        logEntries := ring.logEntries.set (ring.logSequence % statusMaxLogEntries)
          ⟨ring.logSequence + 1, storedEntry entry⟩
        logSequence := ring.logSequence + 1 } := by
  unfold appendLogEntry
  rw [if_neg hroom]
  rfl

theorem feedAppend_ring_room (h : RingInv s) (entry : LogEntry)
    (hroom : s.ring.logSequence ≠ uint32Max) : RingInv (feedAppend entry s) := by
  have hle := h.sequence_le
  rw [feedAppend_room _ hroom, appendLogEntry_room hroom]
  constructor
  · rw [h.sequence]
    exact h.keeps.put (by decide) _
  · rw [length_append, length_singleton, h.sequence]
  · show s.ring.logSequence + 1 ≤ uint32Max
    omega
  · exact h.epoch

theorem feedAppend_ring (h : RingInv s) (entry : LogEntry) : RingInv (feedAppend entry s) := by
  by_cases hfull : s.ring.logSequence = uint32Max
  · rw [feedAppend_full hfull]
    have hroom : (feedClear s).ring.logSequence ≠ uint32Max := feedClear_room s
    exact feedAppend_ring_room (feedClear_ring h) entry hroom
  · exact feedAppend_ring_room h entry hfull

theorem feedUpdate_cases (fits accepted : Bool) (s : LogFeed) :
    (fits = false ∧ feedUpdate fits accepted s = s) ∨
      (fits = true ∧ ∃ payload,
        (statusBuildSseJson true s.ring s.cursor).1 = some payload ∧
        feedUpdate fits accepted s =
          { s with
            cursor := ⟨true, s.ring.logEpoch, s.ring.logSequence⟩
            viewer := if accepted then applyLogs s.viewer payload else s.viewer
            clears := 0 }) := by
  cases fits with
  | false => exact .inl ⟨rfl, rfl⟩
  | true => exact .inr ⟨rfl, _, rfl, rfl⟩

theorem feedStep_ring (h : RingInv s) (e : FeedEvent) : RingInv (feedStep s e) := by
  cases e with
  | append entry => exact feedAppend_ring h entry
  | clear => exact feedClear_ring h
  | update fits accepted =>
    show RingInv (feedUpdate fits accepted s)
    rcases feedUpdate_cases fits accepted s with ⟨-, heq⟩ | ⟨-, payload, -, heq⟩
    · rw [heq]
      exact h
    · rw [heq]
      exact ⟨h.keeps, h.sequence, h.sequence_le, h.epoch⟩

/-! ## The page -/

/-- The list is a piece of the log, up to what the connection has seen, that leaves out only
entries which were no longer among the last. -/
def Follows (s : LogFeed) (seen : ℕ) : Prop :=
  ∃ k, k ≤ seen - statusMaxLogEntries ∧ s.viewer = (s.epochLog.take seen).drop k

/-- The connection has seen a part of the current epoch, or an earlier epoch. -/
structure ViewInv (s : LogFeed) : Prop where
  epoch : 1 ≤ s.cursor.lastLogEpoch ∧ s.cursor.lastLogEpoch ≤ uint32Max
  clears : s.clears < uint32Max
  now : s.ring.logEpoch = (s.cursor.lastLogEpoch - 1 + s.clears) % uint32Max + 1
  seen : s.clears = 0 → s.cursor.lastLogSequence ≤ s.epochLog.length ∧
    Follows s s.cursor.lastLogSequence

theorem ViewInv.same_epoch (h : ViewInv s) (heq : s.ring.logEpoch = s.cursor.lastLogEpoch) :
    s.clears = 0 := by
  have hclears := h.clears
  have hnow := h.now
  unfold uint32Max at *
  omega

/-- Every payload that is built is taken, and the epochs do not come round between two. -/
def Followed (s : LogFeed) : FeedEvent → Prop
  | .append _ => s.ring.logSequence = uint32Max → s.clears + 1 < uint32Max
  | .clear => s.clears + 1 < uint32Max
  | .update fits accepted => fits = true → accepted = true

instance Followed.decidable (s : LogFeed) : ∀ e, Decidable (Followed s e)
  | .append _ => inferInstanceAs (Decidable (_ → _))
  | .clear => inferInstanceAs (Decidable (_ < _))
  | .update _ _ => inferInstanceAs (Decidable (_ → _))

theorem feedClear_view (hr : RingInv s) (h : ViewInv s) (hok : s.clears + 1 < uint32Max) :
    ViewInv (feedClear s) where
  epoch := h.epoch
  clears := hok
  now := by
    have hnow := h.now
    show (clearLogRing s.ring).logEpoch =
      (s.cursor.lastLogEpoch - 1 + (s.clears + 1)) % uint32Max + 1
    rw [clearLogRing_epoch hr.epoch, hnow]
    unfold uint32Max
    omega
  seen hzero := by cases hzero

theorem feedAppend_view_room (h : ViewInv s) (entry : LogEntry)
    (hroom : s.ring.logSequence ≠ uint32Max) : ViewInv (feedAppend entry s) := by
  rw [feedAppend_room _ hroom, appendLogEntry_room hroom]
  refine ⟨h.epoch, h.clears, h.now, fun hzero => ?_⟩
  obtain ⟨hle, k, hk, hviewer⟩ := h.seen hzero
  refine ⟨?_, k, hk, ?_⟩
  · grind
  · rw [take_append_of_le_length hle, hviewer]

theorem loggedFrom_eq (hr : RingInv s) {first : ℕ}
    (hfirst : s.epochLog.length ≤ first + statusMaxLogEntries) :
    loggedFrom s.ring (first + 1) = s.epochLog.drop first := by
  have hcount : s.ring.logSequence + 1 - (first + 1) = s.epochLog.length - first := by
    rw [hr.sequence]
    omega
  unfold loggedFrom
  rw [if_neg (Nat.succ_ne_zero first), hcount, hr.keeps.lookup hfirst]

theorem loggedFrom_full (hr : RingInv s) (hfull : fullLogs s.ring s.cursor = true) :
    loggedFrom s.ring (firstSequence s.ring s.cursor) =
      s.epochLog.drop (s.epochLog.length - statusMaxLogEntries) := by
  unfold firstSequence
  rw [if_pos hfull, hr.sequence]
  split
  · exact loggedFrom_eq hr (by omega)
  · rename_i hshort
    have hzero : s.epochLog.length - statusMaxLogEntries = 0 := by omega
    rw [hzero]
    split
    · exact loggedFrom_eq hr (by omega)
    · rw [drop_of_length_le (by omega)]
      rfl

theorem not_fullLogs (h : s.cursor.sentInitial = true → ViewInv s)
    (hfull : fullLogs s.ring s.cursor = false) :
    ViewInv s ∧ s.clears = 0 ∧
      s.ring.logSequence - s.cursor.lastLogSequence ≤ statusMaxLogEntries := by
  unfold fullLogs at hfull
  simp only [Bool.or_eq_false_iff, Bool.not_eq_false', bne_eq_false_iff_eq,
    decide_eq_false_iff_not, Nat.not_lt] at hfull
  obtain ⟨⟨⟨hsent, hepoch⟩, -⟩, hgap⟩ := hfull
  exact ⟨h hsent, (h hsent).same_epoch hepoch, hgap⟩

theorem applyLogs_follows (hr : RingInv s) (h : s.cursor.sentInitial = true → ViewInv s)
    {payload : LogsPayload}
    (hbuild : (statusBuildSseJson true s.ring s.cursor).1 = some payload) :
    ∃ k, k ≤ s.epochLog.length - statusMaxLogEntries ∧
      applyLogs s.viewer payload = s.epochLog.drop k := by
  cases hbuild
  by_cases hfull : fullLogs s.ring s.cursor = true
  · refine ⟨_, Nat.le_refl _, ?_⟩
    rw [if_pos hfull]
    exact loggedFrom_full hr hfull
  · rw [if_neg hfull]
    obtain ⟨hview, hclears, hgap⟩ := not_fullLogs h (Bool.eq_false_iff.2 hfull)
    obtain ⟨hle, k, hk, hviewer⟩ := hview.seen hclears
    rw [hr.sequence] at hgap
    refine ⟨k, by omega, ?_⟩
    unfold firstSequence
    rw [if_neg hfull, hr.sequence]
    rcases Nat.lt_or_eq_of_le hle with hlt | heq
    · -- new entries go behind what the page has
      rw [if_pos hlt, if_neg (Nat.succ_ne_zero _)]
      show s.viewer ++ loggedFrom s.ring (s.cursor.lastLogSequence + 1) = s.epochLog.drop k
      rw [hviewer, loggedFrom_eq hr (by omega)]
      conv_rhs => rw [← take_append_drop s.cursor.lastLogSequence s.epochLog]
      rw [drop_append_of_le_length]
      rw [length_take]
      omega
    · have hnone : ¬ s.cursor.lastLogSequence < s.epochLog.length := by omega
      rw [if_neg hnone, if_pos rfl]
      show s.viewer = s.epochLog.drop k
      rw [hviewer, heq, take_length]

theorem feedUpdate_follows (hr : RingInv s) (h : s.cursor.sentInitial = true → ViewInv s) :
    ∃ k, k ≤ s.epochLog.length - statusMaxLogEntries ∧
      (feedUpdate true true s).viewer = s.epochLog.drop k := by
  rcases feedUpdate_cases true true s with ⟨hfits, -⟩ | ⟨-, payload, hbuild, heq⟩
  · cases hfits
  · rw [heq]
    exact applyLogs_follows hr h hbuild

/-- The invariant of a run: the ring, and the page from the first payload on. -/
structure FeedInv (s : LogFeed) : Prop where
  ring : RingInv s
  view : s.cursor.sentInitial = true → ViewInv s

theorem feedClear_inv (h : FeedInv s) (hok : s.clears + 1 < uint32Max) : FeedInv (feedClear s) :=
  ⟨feedClear_ring h.ring, fun hsent => feedClear_view h.ring (h.view hsent) hok⟩

theorem feedStep_inv (h : FeedInv s) (e : FeedEvent) (hok : Followed s e) :
    FeedInv (feedStep s e) := by
  cases e with
  | append entry =>
    refine ⟨feedStep_ring h.ring (.append entry), fun hsent => ?_⟩
    show ViewInv (feedAppend entry s)
    by_cases hfull : s.ring.logSequence = uint32Max
    · have hclear := feedClear_inv h (hok hfull)
      rw [feedAppend_full hfull]
      refine feedAppend_view_room (hclear.view ?_) entry (feedClear_room s)
      have hcursor : (feedStep s (.append entry)).cursor = s.cursor := by
        show (feedAppend entry s).cursor = s.cursor
        unfold feedAppend
        rw [if_pos hfull]
        rfl
      rwa [hcursor] at hsent
    · have hcursor : (feedStep s (.append entry)).cursor = s.cursor := by
        show (feedAppend entry s).cursor = s.cursor
        rw [feedAppend_room _ hfull]
      rw [hcursor] at hsent
      exact feedAppend_view_room (h.view hsent) entry hfull
  | clear => exact feedClear_inv h hok
  | update fits accepted =>
    refine ⟨feedStep_ring h.ring (.update fits accepted), fun hsent => ?_⟩
    cases fits with
    | false => exact h.view hsent
    | true =>
      cases hok rfl
      obtain ⟨k, hk, hviewer⟩ := feedUpdate_follows h.ring h.view
      show ViewInv (feedUpdate true true s)
      have hepoch := h.ring.epoch
      refine ⟨hepoch, (by decide : 0 < uint32Max), ?_, fun _ => ?_⟩
      · show s.ring.logEpoch = (s.ring.logEpoch - 1 + 0) % uint32Max + 1
        unfold uint32Max at *
        omega
      · have hseen : (feedUpdate true true s).cursor.lastLogSequence = s.epochLog.length :=
          h.ring.sequence
        rw [hseen]
        refine ⟨Nat.le_refl _, k, hk, ?_⟩
        rw [hviewer]
        show s.epochLog.drop k = (s.epochLog.take s.epochLog.length).drop k
        rw [take_length]

end Step

theorem feedInv_init : FeedInv logFeedInit := ⟨ringInv_init, fun hsent => (by cases hsent)⟩

/-- After each payload that is taken, the list of the page ends with the entries in the ring and
is a piece of the log of the current epoch. -/
theorem viewer_ends_with_ring (es : List FeedEvent)
    (hok : Along feedStep Followed logFeedInit (es ++ [.update true true])) :
    let s := run feedStep logFeedInit (es ++ [.update true true])
    heldEntries s.ring <:+ s.viewer ∧ s.viewer <:+ s.epochLog := by
  rw [along_append] at hok
  have hinv : FeedInv (run feedStep logFeedInit es) :=
    run_invariant (I := FeedInv) (fun s e h hok => feedStep_inv h e hok) feedInv_init hok.1
  intro s
  have hs : s = feedUpdate true true (run feedStep logFeedInit es) := run_append _ _ _
  generalize run feedStep logFeedInit es = t at hinv hs
  obtain ⟨k, hk, hviewer⟩ := feedUpdate_follows hinv.ring hinv.view
  have hlog : s.epochLog = t.epochLog := by rw [hs]; rfl
  have hring : s.ring = t.ring := by rw [hs]; rfl
  have hheld : heldEntries s.ring = t.epochLog.drop (t.epochLog.length - statusMaxLogEntries) := by
    rw [hring, heldEntries_eq hinv.ring]
  rw [← hs] at hviewer
  rw [hheld, hviewer, hlog]
  refine ⟨?_, drop_suffix _ _⟩
  have hdrop : t.epochLog.drop (t.epochLog.length - statusMaxLogEntries) =
      (t.epochLog.drop k).drop (t.epochLog.length - statusMaxLogEntries - k) := by
    rw [drop_drop]
    congr 1
    omega
  rw [hdrop]
  exact drop_suffix _ _

/-- Two entries one after the other on a page that is up to date. -/
theorem viewer_ends_with_two :
    let s := run feedStep logFeedInit
      ([.update true true, .append ⟨1, 2, ascii "a"⟩, .append ⟨2, 2, ascii "b"⟩] ++
        [.update true true])
    heldEntries s.ring <:+ s.viewer ∧ s.viewer <:+ s.epochLog :=
  viewer_ends_with_ring [.update true true, .append ⟨1, 2, ascii "a"⟩, .append ⟨2, 2, ascii "b"⟩]
    (by decide +kernel)

/-! ## What goes wrong otherwise -/

theorem run_clears {s : LogFeed} (hr : RingInv s) (n : ℕ) :
    let t := run feedStep s (List.replicate n .clear)
    RingInv t ∧ t.cursor = s.cursor ∧ t.viewer = s.viewer ∧
      t.ring.logEpoch = (s.ring.logEpoch - 1 + n) % uint32Max + 1 ∧
      (0 < n → t.epochLog = []) := by
  induction n with
  | zero =>
    have hepoch := hr.epoch
    refine ⟨hr, rfl, rfl, ?_, fun h => absurd h (Nat.lt_irrefl 0)⟩
    show s.ring.logEpoch = (s.ring.logEpoch - 1 + 0) % uint32Max + 1
    unfold uint32Max at *
    omega
  | succ n ih =>
    rw [replicate_succ', run_append]
    generalize run feedStep s (List.replicate n .clear) = t at ih
    obtain ⟨ht, hcursor, hviewer, hepoch, -⟩ := ih
    refine ⟨feedClear_ring ht, hcursor, hviewer, ?_, fun _ => rfl⟩
    show (clearLogRing t.ring).logEpoch = _
    rw [clearLogRing_epoch ht.epoch, hepoch]
    unfold uint32Max
    omega

def sampleEntry (timestamp : ℤ) : FeedEvent := .append ⟨timestamp, 2, ascii "x"⟩

theorem append_unseen {t : LogFeed} (hr : RingInv t) (hcursor : t.cursor = ⟨true, t.ring.logEpoch, 1⟩)
    (hlog : t.epochLog = []) (entry : LogEntry) :
    let s := run feedStep t [.append entry, .update true true]
    s.viewer = t.viewer ∧ heldEntries s.ring = [storedEntry entry] := by
  have hzero : t.ring.logSequence = 0 := by rw [hr.sequence, hlog]; rfl
  have hroom : t.ring.logSequence ≠ uint32Max := by rw [hzero]; decide
  have happend := feedAppend_room entry hroom
  have hring := feedAppend_ring hr entry
  have hheld := heldEntries_eq hring
  have hlog' : (feedAppend entry t).epochLog = [storedEntry entry] := by rw [happend, hlog]; rfl
  have hsequence : (feedAppend entry t).ring.logSequence = 1 := by rw [hring.sequence, hlog']; rfl
  have hcursor' : (feedAppend entry t).cursor = ⟨true, (feedAppend entry t).ring.logEpoch, 1⟩ := by
    rw [happend, appendLogEntry_room hroom]
    exact hcursor
  have hviewer : (feedAppend entry t).viewer = t.viewer := by rw [happend]
  intro s
  have hs : s = feedUpdate true true (feedAppend entry t) := rfl
  generalize feedAppend entry t = u at *
  have hfull : fullLogs u.ring u.cursor = false := by
    unfold fullLogs
    simp [hcursor', hsequence]
  have hfirst : firstSequence u.ring u.cursor = 0 := by
    unfold firstSequence
    rw [if_neg (Bool.eq_false_iff.1 hfull), hcursor', hsequence]
    rfl
  have hnone : s.viewer = u.viewer := by
    rw [hs]
    unfold feedUpdate statusBuildSseJson
    simp [hfull, hfirst, applyLogs]
  have hring' : s.ring = u.ring := by rw [hs]; rfl
  rw [hnone, hviewer, hring', hheld, hlog']
  exact ⟨rfl, rfl⟩

theorem epochs_go_round :
    let s := run feedStep logFeedInit ([sampleEntry 1, .update true true] ++
      (List.replicate uint32Max .clear ++ [sampleEntry 2, .update true true]))
    s.viewer = [⟨1, 2, ascii "x"⟩] ∧ heldEntries s.ring = [⟨2, 2, ascii "x"⟩] := by
  have hseen : RingInv (run feedStep logFeedInit [sampleEntry 1, .update true true]) :=
    feedStep_ring (feedStep_ring ringInv_init (sampleEntry 1)) (.update true true)
  obtain ⟨hring, hcursor, hviewer, hepoch, hlog⟩ := run_clears hseen uint32Max
  have hstart : (run feedStep logFeedInit [sampleEntry 1, .update true true]).cursor = ⟨true, 1, 1⟩ ∧
      (run feedStep logFeedInit [sampleEntry 1, .update true true]).viewer =
        [⟨1, 2, ascii "x"⟩] ∧
      (run feedStep logFeedInit [sampleEntry 1, .update true true]).ring.logEpoch = 1 := by
    decide +kernel
  obtain ⟨hcursor1, hviewer1, hepoch1⟩ := hstart
  rw [run_append, run_append]
  generalize run feedStep (run feedStep logFeedInit [sampleEntry 1, .update true true])
    (List.replicate uint32Max .clear) = t at *
  have hseenEpoch : t.ring.logEpoch = 1 := by
    rw [hepoch, hepoch1]
    decide
  have hunseen := append_unseen hring (by rw [hcursor, hcursor1, hseenEpoch]) (hlog (by decide))
    ⟨2, 2, ascii "x"⟩
  have hstored : storedEntry ⟨2, 2, ascii "x"⟩ = ⟨2, 2, ascii "x"⟩ := by decide
  rwa [hviewer, hviewer1, hstored] at hunseen

def overwrittenRun : List FeedEvent :=
  [.update true true, sampleEntry 1, .update true true] ++
    (List.replicate 100 (sampleEntry 2) ++ [.update true true])

def refusedRun : List FeedEvent :=
  [.update true true, sampleEntry 1, .update true false, sampleEntry 2, .update true true]

def roundRun : List FeedEvent :=
  [sampleEntry 1, .update true true] ++
    (List.replicate uint32Max .clear ++ [sampleEntry 2, .update true true])

/-- A page that still has an entry which the ring has overwritten, one that misses the entry of
a payload which was refused, and one that has seen the epoch before. -/
theorem viewer_differs :
    (run feedStep logFeedInit overwrittenRun).viewer =
        ⟨1, 2, ascii "x"⟩ :: heldEntries (run feedStep logFeedInit overwrittenRun).ring ∧
      (run feedStep logFeedInit refusedRun).viewer = [⟨2, 2, ascii "x"⟩] ∧
      heldEntries (run feedStep logFeedInit refusedRun).ring =
        [⟨1, 2, ascii "x"⟩, ⟨2, 2, ascii "x"⟩] ∧
      (run feedStep logFeedInit roundRun).viewer = [⟨1, 2, ascii "x"⟩] ∧
      heldEntries (run feedStep logFeedInit roundRun).ring = [⟨2, 2, ascii "x"⟩] :=
  ⟨by decide +kernel, by decide +kernel, by decide +kernel, epochs_go_round⟩

end Apackage.Rtp2httpd
