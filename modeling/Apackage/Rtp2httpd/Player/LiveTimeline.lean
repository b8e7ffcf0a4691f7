import Apackage.Lib.Run
import Apackage.Rtp2httpd.Player.HlsSource
import Mathlib.Data.List.Chain
import Mathlib.Data.List.Nodup
import Mathlib.Tactic.Ring

/-
  What `next` returns over a sequence of playlists.

  The source tells new entries from those it has by their number alone. The segments it queues are
  the listed segments, each once, as long as an entry is numbered below the next expected number
  exactly when its segment was listed before. They lie one after the other on the timeline, as long
  as the numbers allow the first playlist to be moved to its start. `ident` says which segment an
  entry is.
-/

namespace Apackage.Rtp2httpd.Player

open List Option Lib.Run

open Remux.JsNumber (ofRat lt)

section FirstListed

variable {α ι : Type*} [DecidableEq ι] (ident : α → ι)

def listOnce (l : List α) (x : α) : List α :=
  if ident x ∈ l.map ident then l else l ++ [x]

/-- The entries whose segment was not listed before them. -/
def firstListed (l : List α) : List α := l.foldl (listOnce ident) []

variable (l : List α)

theorem firstListed_concat (x : α) :
    firstListed ident (l ++ [x]) = listOnce ident (firstListed ident l) x := by
  rw [firstListed, foldl_append]
  rfl

theorem mem_firstListed_ident (i : ι) : i ∈ (firstListed ident l).map ident ↔ i ∈ l.map ident := by
  induction l using List.reverseRecOn generalizing i with
  | nil => exact Iff.rfl
  | append_singleton l x ih =>
    rw [firstListed_concat, listOnce, map_append, mem_append]
    split
    · rename_i hx
      rw [ih]
      constructor
      · exact .inl
      · rintro (h | h)
        · exact h
        · rw [mem_singleton.1 h]
          exact (ih _).1 hx
    · rw [map_append, mem_append, ih]

theorem nodup_firstListed : ((firstListed ident l).map ident).Nodup := by
  induction l using List.reverseRecOn with
  | nil => exact nodup_nil
  | append_singleton l x ih =>
    rw [firstListed_concat, listOnce]
    split
    · exact ih
    · grind

theorem mem_firstListed_step {l : List α} {y : α} (x : α) (h : y ∈ firstListed ident l) :
    y ∈ firstListed ident (l ++ [x]) := by
  rw [firstListed_concat, listOnce]
  split
  · exact h
  · exact mem_append_left _ h

end FirstListed

/-- The queue as its entries alone: `queue` holds those taken, `next` the number expected next. -/
structure Tally (ν : Type) where
  queue : List (HlsPlaylistSegment ν)
  listed : List (HlsPlaylistSegment ν)
  next : ℤ

namespace Tally

variable {ν : Type}

/-- The entry is taken for one that was ingested before. -/
def TakenForOld (t : Tally ν) (seg : HlsPlaylistSegment ν) : Prop :=
  t.next ≠ -1 ∧ (seg.mediaSequence : ℤ) < t.next
  deriving Decidable

def add (t : Tally ν) (seg : HlsPlaylistSegment ν) : Tally ν :=
  if t.TakenForOld seg then { t with listed := t.listed ++ [seg] }
  else ⟨t.queue ++ [seg], t.listed ++ [seg], seg.mediaSequence + 1⟩

variable {ι : Type*} [DecidableEq ι] (ident : HlsPlaylistSegment ν → ι)

/-- The number of the entry tells whether its segment was listed before. -/
def Tells (t : Tally ν) (seg : HlsPlaylistSegment ν) : Prop :=
  t.TakenForOld seg ↔ ident seg ∈ t.listed.map ident

instance (t : Tally ν) (seg : HlsPlaylistSegment ν) : Decidable (t.Tells ident seg) :=
  inferInstanceAs (Decidable (_ ↔ _))

def Exact (t : Tally ν) : Prop := t.queue = firstListed ident t.listed

/-- A listed segment is missing for good, or one was taken twice. -/
def Broken (t : Tally ν) : Prop :=
  (∃ x ∈ firstListed ident t.listed, x ∉ t.queue ∧ (x.mediaSequence : ℤ) < t.next) ∨
    ¬ (t.queue.map ident).Nodup

variable {ident} {t : Tally ν}

variable {seg : HlsPlaylistSegment ν}

theorem le_of_not_takenForOld (h : ¬ t.TakenForOld seg) : t.next ≤ seg.mediaSequence := by
  unfold TakenForOld at h
  omega

theorem Exact.add (h : t.Exact ident) (htells : t.Tells ident seg) : (t.add seg).Exact ident := by
  unfold Exact Tally.add
  split
  · rename_i hold
    have hlisted : ident seg ∈ (firstListed ident t.listed).map ident :=
      (mem_firstListed_ident ident _ _).2 (htells.1 hold)
    rw [firstListed_concat, listOnce, if_pos hlisted]
    exact h
  · rename_i hnew
    have hlisted : ident seg ∉ (firstListed ident t.listed).map ident := fun hmem =>
      hnew (htells.2 ((mem_firstListed_ident ident _ _).1 hmem))
    rw [firstListed_concat, listOnce, if_neg hlisted]
    exact congrArg (· ++ [seg]) h

theorem Exact.broken (h : t.Exact ident) (htells : ¬ t.Tells ident seg) :
    (t.add seg).Broken ident := by
  have hident := mem_firstListed_ident ident t.listed (ident seg)
  rw [← h] at hident
  unfold Tally.add
  split
  · -- the segment was never listed, and its number is passed
    rename_i hold
    have hnew : ident seg ∉ t.queue.map ident := fun hmem =>
      htells ⟨fun _ => hident.1 hmem, fun _ => hold⟩
    refine .inl ⟨seg, ?_, fun hmem => hnew (List.mem_map_of_mem hmem), hold.2⟩
    rw [firstListed_concat, listOnce, ← h, if_neg hnew]
    exact mem_append_right _ (mem_singleton_self seg)
  · -- a listed segment came back under a new number
    rename_i hnew
    have hlisted : ident seg ∈ t.queue.map ident := by
      by_contra hne
      exact htells ⟨fun hold => absurd hold hnew, fun hmem => absurd (hident.2 hmem) hne⟩
    refine .inr fun hnodup => ?_
    rw [map_append, nodup_append'] at hnodup
    exact hnodup.2.2 hlisted (mem_singleton_self _)

theorem Broken.add (h : t.Broken ident) (seg : HlsPlaylistSegment ν) :
    (t.add seg).Broken ident := by
  unfold Tally.add
  rcases h with ⟨x, hx, hmissing, hlt⟩ | hdup
  · have hx' := mem_firstListed_step ident seg hx
    split
    · exact .inl ⟨x, hx', hmissing, hlt⟩
    · rename_i hnew
      have hge := le_of_not_takenForOld hnew
      refine .inl ⟨x, hx', fun hmem => ?_, ?_⟩
      · rcases mem_append.1 hmem with hmem | hmem
        · exact hmissing hmem
        · rw [mem_singleton.1 hmem] at hlt
          omega
      · dsimp only
        omega
  · split
    · exact .inr hdup
    · refine .inr fun hnodup => hdup ?_
      rw [map_append, nodup_append'] at hnodup
      exact hnodup.1

theorem Broken.not_exact (h : t.Broken ident) : ¬ t.Exact ident := by
  intro heq
  rcases h with ⟨x, hx, hmissing, -⟩ | hdup
  · exact hmissing (heq ▸ hx)
  · exact hdup (heq ▸ nodup_firstListed ident t.listed)

theorem listed_run (t : Tally ν) (segs : List (HlsPlaylistSegment ν)) :
    (run add t segs).listed = t.listed ++ segs := by
  induction segs generalizing t with
  | nil => exact (append_nil _).symm
  | cons seg segs ih =>
    have hadd : (t.add seg).listed = t.listed ++ [seg] := by
      unfold Tally.add
      split <;> rfl
    rw [run_cons, ih, hadd, append_assoc]
    rfl

theorem exact_iff_along (h : t.Exact ident) (segs : List (HlsPlaylistSegment ν)) :
    (run add t segs).Exact ident ↔ Along add (Tells ident) t segs := by
  constructor
  · intro hexact
    by_contra hne
    exact (run_broken (I := Exact ident) (fun _ _ hs hok => hs.add hok)
      (fun _ _ hs hbad => hs.broken hbad) (fun _ seg hs => hs.add seg) h hne).not_exact hexact
  · exact fun ha => run_invariant (fun _ _ hs hok => hs.add hok) h ha

end Tally

namespace HlsSource

variable {ν : Type} [JsArithmetic ν]

def returned (s : HlsSource ν) : List (SegmentMeta ν) :=
  s.results.filterMap fun r => match r with
    | .segment m => some m
    | _ => none

def pending (s : HlsSource ν) : List (SegmentMeta ν) := s.segments.drop s.nextIndex

/-- What `next` has returned and will return. -/
def given (s : HlsSource ν) : List (SegmentMeta ν) := s.returned ++ s.pending

/-- All segments queued so far: before the chosen start, returned by `next` and still waiting. -/
def queued (s : HlsSource ν) : List (SegmentMeta ν) := s.passed ++ s.given

def tally (s : HlsSource ν) : Tally ν := ⟨s.queued.map (·.entry), s.listed, s.nextMediaSequence⟩

/-- The entry after `a` is a discontinuity or skips a sequence number. -/
def Breaks (a b : SegmentMeta ν) : Prop :=
  b.entry.discontinuity = true ∨ a.entry.mediaSequence + 1 < b.entry.mediaSequence

/-- `resetRemuxer` is set at the breaks. -/
def Marks (a b : SegmentMeta ν) : Prop := b.resetRemuxer = true ↔ Breaks a b

/-- Each segment starts where the one before it ends, from `p` up to `stop`. -/
def Lies : ν → List (SegmentMeta ν) → ν → Prop
  | p, [], stop => stop = p
  | p, m :: rest, stop => m.start = p ∧ Lies (p + m.duration) rest stop

/-- The segment has the data of its entry. -/
def Carries (m : SegmentMeta ν) : Prop :=
  m.url = m.entry.url ∧ m.duration = m.entry.duration ∧ m.initUrl = m.entry.initUrl

/-- Each listed segment is queued once, in the order of the playlists; those that are returned lie
    one after the other, the next one to be queued behind them, with `resetRemuxer` on the first and
    at the breaks. -/
structure Delivers {ι : Type*} [DecidableEq ι] (ident : HlsPlaylistSegment ν → ι)
    (s : HlsSource ν) : Prop where
  entries : s.queued.map (·.entry) = firstListed ident s.listed
  carries : ∀ m ∈ s.given, Carries m
  first : ∀ m, s.returned.head? = some m → m.resetRemuxer = true
  marks : s.given.IsChain Marks
  lies : ∃ p, Lies p s.given s.timelinePos

/-- From `p` on, the durations add up to the same numbers before and after a move by `base`. -/
def Shifts (base : ν) : ν → List ν → Prop
  | _, [] => True
  | p, d :: rest => p + d - base = p - base + d ∧ Shifts base (p + d) rest

/-- The segments of the first live playlist can be moved to the start that is chosen. -/
def Rebases (durations : List ν) : Prop :=
  let index := durations.length - LIVE_EDGE_SEGMENTS
  let base := (durations.take index).foldl (· + ·) (ofRat 0)
  lt (ofRat 0) base = true → Shifts base base (durations.drop index)

/-- Every entry of a playlist that is loaded is told by its number, and the first one, if it is
    live, can be moved to its start. -/
def PlaylistTells {ι : Type*} [DecidableEq ι] (ident : HlsPlaylistSegment ν → ι) (s : HlsSource ν)
    (e : HlsEvent ν) : Prop :=
  ∀ lines, e = .fetched (.media lines) → s.wait = .fetchOnce →
    Along Tally.add (Tally.Tells ident) s.tally (parseMedia lines).segments ∧
      (s.initialized = false → (parseMedia lines).live = true →
        Rebases ((firstListed ident (parseMedia lines).segments).map (·.duration)))

/-- The queue, whatever the playlists are. -/
structure Timeline (s : HlsSource ν) : Prop where
  bound : s.nextIndex ≤ s.segments.length
  fresh : s.initialized = false → s.nextIndex = 0 ∧ s.returned = [] ∧ s.passed = []
  carries : ∀ m ∈ s.queued, Carries m
  marks : s.given.IsChain Marks
  last : ∀ m, s.given.getLast? = some m → s.nextMediaSequence = m.entry.mediaSequence + 1
  none : s.given = [] → s.nextMediaSequence = -1
  first : ∀ m, s.returned.head? = some m → m.resetRemuxer = true
  reset : s.resetPending = true ↔ s.returned = []

theorem timeline_created (url : String) : (created (ν := ν) url).Timeline where
  bound := Nat.le_refl 0
  fresh _ := ⟨rfl, rfl, rfl⟩
  carries _ hm := absurd hm not_mem_nil
  marks := isChain_nil
  last _ hm := nomatch hm
  none _ := rfl
  first _ hm := nomatch hm
  reset := ⟨fun _ => rfl, fun _ => rfl⟩

/-- The source before its first playlist. -/
def Untouched (s : HlsSource ν) : Prop :=
  s.initialized = false → s.segments = [] ∧ s.listed = [] ∧ s.timelinePos = ofRat 0

section Lying

variable {a b : List (SegmentMeta ν)} {p stop : ν}

theorem lies_append : Lies p (a ++ b) stop ↔ ∃ middle, Lies p a middle ∧ Lies middle b stop := by
  induction a generalizing p with
  | nil => exact ⟨fun h => ⟨p, rfl, h⟩, fun ⟨_, hmiddle, h⟩ => hmiddle ▸ h⟩
  | cons m a ih =>
    rw [cons_append, Lies, ih]
    constructor
    · tauto
    · rintro ⟨middle, ⟨hstart, ha⟩, hb⟩
      exact ⟨hstart, middle, ha, hb⟩

theorem lies_concat {m : SegmentMeta ν} (h : Lies p a stop) (hstart : m.start = stop) :
    Lies p (a ++ [m]) (stop + m.duration) :=
  lies_append.2 ⟨stop, h, hstart, rfl⟩

/-- The end of the segments before is the sum of their durations. -/
theorem lies_drop (h : Lies p a stop) (n : ℕ) :
    Lies (((a.take n).map (·.duration)).foldl (· + ·) p) (a.drop n) stop := by
  induction a generalizing p n with
  | nil => rwa [take_nil, drop_nil]
  | cons m a ih =>
    cases n with
    | zero => exact h
    | succ n => exact ih h.2 n

def shifted (base : ν) (m : SegmentMeta ν) : SegmentMeta ν := { m with start := m.start - base }

theorem lies_shifted (base x : ν) (h : Lies p a stop) :
    Lies x (a.map (shifted base)) (stop - base) ↔
      x = p - base ∧ Shifts base p (a.map (·.duration)) := by
  induction a generalizing p x with
  | nil =>
    obtain rfl : stop = p := h
    exact ⟨fun hx => ⟨hx.symm, trivial⟩, fun hx => hx.1.symm⟩
  | cons m a ih =>
    obtain ⟨hstart, hrest⟩ := h
    rw [List.map_cons, Lies, ih _ hrest, List.map_cons, Shifts]
    show m.start - base = x ∧ x + m.duration = p + m.duration - base ∧ _ ↔ _
    rw [hstart]
    constructor
    · rintro ⟨rfl, hsum, hshifts⟩
      exact ⟨rfl, hsum.symm, hshifts⟩
    · rintro ⟨rfl, hsum, hshifts⟩
      exact ⟨rfl, hsum.symm, hshifts⟩

end Lying

section Ingest

variable {s : HlsSource ν}

omit [JsArithmetic ν] in
theorem trimHistory_eq (hb : s.nextIndex ≤ s.segments.length) :
    ∃ segments nextIndex, s.trimHistory = { s with segments := segments, nextIndex := nextIndex } ∧
      segments.drop nextIndex = s.pending ∧ nextIndex ≤ segments.length ∧
      (s.nextIndex = 0 → nextIndex = 0) := by
  unfold trimHistory
  split
  · refine ⟨_, _, rfl, ?_, ?_, fun h => by omega⟩
    · rw [drop_drop, pending]
      congr 1
      omega
    · rw [length_drop]
      omega
  · exact ⟨s.segments, s.nextIndex, rfl, rfl, hb, id⟩

def newMeta (s : HlsSource ν) (seg : HlsPlaylistSegment ν) : SegmentMeta ν :=
  ⟨seg.url, s.timelinePos, seg.duration,
    seg.discontinuity ∨ s.nextMediaSequence ≠ -1 ∧ s.nextMediaSequence < (seg.mediaSequence : ℤ),
    seg.initUrl, seg⟩

variable {seg : HlsPlaylistSegment ν}

theorem ingestSegment_old (h : s.tally.TakenForOld seg) :
    s.ingestSegment seg = { s with listed := s.listed ++ [seg] } := by
  exact if_pos h

theorem ingestSegment_new (hb : s.nextIndex ≤ s.segments.length) (h : ¬ s.tally.TakenForOld seg) :
    ∃ segments nextIndex, s.ingestSegment seg = { s with
          segments := segments
          nextIndex := nextIndex
          timelinePos := s.timelinePos + seg.duration
          nextMediaSequence := seg.mediaSequence + 1
          lastPlaylistHadNews := true
          listed := s.listed ++ [seg] } ∧
      s.returned ++ segments.drop nextIndex = s.given ++ [s.newMeta seg] ∧
      nextIndex ≤ segments.length ∧ (s.nextIndex = 0 → nextIndex = 0) := by
  obtain ⟨segments, nextIndex, heq, hdrop, hle, hzero⟩ := trimHistory_eq (s :=
    { s with
      segments := s.segments ++ [s.newMeta seg]
      timelinePos := s.timelinePos + seg.duration
      nextMediaSequence := seg.mediaSequence + 1
      lastPlaylistHadNews := true
      listed := s.listed ++ [seg] })
    (by show s.nextIndex ≤ (s.segments ++ _).length; rw [length_append]; omega)
  refine ⟨segments, nextIndex, ?_, ?_, hle, hzero⟩
  · rw [← heq]
    exact if_neg h
  · rw [hdrop, given, append_assoc]
    exact congrArg _ (drop_append_of_le_length hb)

omit [JsArithmetic ν] in
theorem marks_newMeta (h : s.Timeline) (seg : HlsPlaylistSegment ν) {m : SegmentMeta ν}
    (hm : s.given.getLast? = some m) : Marks m (s.newMeta seg) := by
  unfold Marks Breaks newMeta
  rw [decide_eq_true_eq, h.last m hm]
  refine or_congr_right ?_
  dsimp only
  omega

theorem Timeline.ingestSegment (h : s.Timeline) (seg : HlsPlaylistSegment ν) :
    (s.ingestSegment seg).Timeline := by
  by_cases hold : s.tally.TakenForOld seg
  · rw [ingestSegment_old hold]
    exact ⟨h.bound, h.fresh, h.carries, h.marks, h.last, h.none, h.first, h.reset⟩
  · obtain ⟨segments, nextIndex, heq, hgiven, hle, hzero⟩ := ingestSegment_new h.bound hold
    rw [heq]
    -- the queue is longer by the new segment
    have hqueued : ∀ m, m ∈ s.passed ++ (s.returned ++ segments.drop nextIndex) →
        m ∈ s.queued ∨ m = s.newMeta seg := by
      intro m hm
      rw [hgiven, ← append_assoc, mem_append, mem_singleton] at hm
      exact hm
    refine ⟨hle, fun hf => ?_, fun m hm => ?_, ?_, fun m hm => ?_, fun hnil => ?_, h.first, h.reset⟩
    · exact ⟨hzero (h.fresh hf).1, (h.fresh hf).2⟩
    · rcases hqueued m hm with hm | rfl
      · exact h.carries m hm
      · exact ⟨rfl, rfl, rfl⟩
    · show (s.returned ++ segments.drop nextIndex).IsChain Marks
      rw [hgiven, isChain_append]
      refine ⟨h.marks, isChain_singleton _, fun m hm y hy => ?_⟩
      obtain rfl := some.inj hy
      exact marks_newMeta h seg hm
    · have hlast : (s.returned ++ segments.drop nextIndex).getLast? = some (s.newMeta seg) := by
        rw [hgiven, getLast?_concat]
      obtain rfl := some.inj (hlast.symm.trans hm)
      rfl
    · exact absurd (hgiven.symm.trans hnil) (by simp)

theorem lies_ingestSegment {p : ν} (h : s.Timeline) (hlies : Lies p s.given s.timelinePos)
    (seg : HlsPlaylistSegment ν) :
    Lies p (s.ingestSegment seg).given (s.ingestSegment seg).timelinePos := by
  by_cases hold : s.tally.TakenForOld seg
  · rw [ingestSegment_old hold]
    exact hlies
  · obtain ⟨segments, nextIndex, heq, hgiven, -, -⟩ := ingestSegment_new h.bound hold
    rw [heq]
    show Lies p (s.returned ++ segments.drop nextIndex) (s.timelinePos + seg.duration)
    rw [hgiven]
    exact lies_concat (m := s.newMeta seg) hlies rfl

theorem ingestSegment_state (s : HlsSource ν) (seg : HlsPlaylistSegment ν) :
    (s.ingestSegment seg).live = s.live ∧ (s.ingestSegment seg).initialized = s.initialized := by
  unfold HlsSource.ingestSegment trimHistory
  dsimp only
  split
  · exact ⟨rfl, rfl⟩
  · split <;> exact ⟨rfl, rfl⟩

end Ingest

section Steps

variable {s : HlsSource ν}

theorem Timeline.ingestHeader (h : s.Timeline) (playlist : HlsMediaPlaylist ν) :
    (s.ingestHeader playlist).Timeline :=
  ⟨h.bound, h.fresh, h.carries, h.marks, h.last, h.none, h.first, h.reset⟩

theorem Timeline.ingest (h : s.Timeline) (playlist : HlsMediaPlaylist ν) :
    (s.ingest playlist).Timeline :=
  run_always (fun _ seg hs => hs.ingestSegment seg) (h.ingestHeader playlist) playlist.segments

theorem lies_ingest {p : ν} (h : s.Timeline) (hlies : Lies p s.given s.timelinePos)
    (playlist : HlsMediaPlaylist ν) :
    Lies p (s.ingest playlist).given (s.ingest playlist).timelinePos :=
  (run_always (I := fun s : HlsSource ν => s.Timeline ∧ Lies p s.given s.timelinePos)
    (fun _ seg hs => ⟨hs.1.ingestSegment seg, lies_ingestSegment hs.1 hs.2 seg⟩)
    ⟨h.ingestHeader playlist, hlies⟩ playlist.segments).2

theorem ingest_state (s : HlsSource ν) (playlist : HlsMediaPlaylist ν) :
    (s.ingest playlist).live = playlist.live ∧ (s.ingest playlist).initialized = s.initialized :=
  run_always (I := fun t : HlsSource ν => t.live = playlist.live ∧ t.initialized = s.initialized)
    (fun t seg hs => ⟨(ingestSegment_state t seg).1.trans hs.1,
      (ingestSegment_state t seg).2.trans hs.2⟩)
    (s := s.ingestHeader playlist) ⟨rfl, rfl⟩ playlist.segments

/-! ## The start -/

/-- A segment with another start. -/
def moved (start : SegmentMeta ν → ν) (m : SegmentMeta ν) : SegmentMeta ν :=
  { m with start := start m }

/-- Only the starts of the segments change. -/
theorem chooseStart_eq (hzero : s.nextIndex = 0) :
    ∃ (index : ℕ) (start : SegmentMeta ν → ν) (timelinePos : ν), s.chooseStart = { s with
          nextIndex := index
          segments := s.segments.map (moved start)
          timelinePos := timelinePos } ∧
      index ≤ s.segments.length ∧ (s.segments.length ≤ index → s.segments = []) := by
  have hsame : s.segments.map (moved SegmentMeta.start) = s.segments :=
    map_id'' (fun _ => rfl) s.segments
  have hnil : s.segments.length ≤ s.segments.length - LIVE_EDGE_SEGMENTS → s.segments = [] := by
    intro hle
    rw [← length_eq_zero_iff]
    unfold LIVE_EDGE_SEGMENTS at hle
    omega
  unfold chooseStart
  split
  · dsimp only
    split
    · exact ⟨_, _, _, rfl, Nat.sub_le _ _, hnil⟩
    · exact ⟨_, SegmentMeta.start, s.timelinePos, by rw [hsame], Nat.sub_le _ _, hnil⟩
  · exact ⟨0, SegmentMeta.start, s.timelinePos, by rw [hsame, ← hzero], Nat.zero_le _,
      fun hle => length_eq_zero_iff.1 (Nat.le_zero.1 hle)⟩

theorem Timeline.initializeSource (h : s.Timeline) (hfresh : s.initialized = false) :
    s.initializeSource.Timeline := by
  obtain ⟨hzero, hreturned, hpassed⟩ := h.fresh hfresh
  obtain ⟨index, start, timelinePos, heq, hle, hnil⟩ := chooseStart_eq hzero
  have hgiven : s.given = s.segments := by
    rw [given, hreturned, pending, hzero, drop_zero, nil_append]
  have hall : s.queued = s.segments := by rw [queued, hpassed, hgiven, nil_append]
  have hchain := h.marks
  have hlast := h.last
  have hnone := h.none
  rw [hgiven] at hchain hlast hnone
  unfold HlsSource.initializeSource
  rw [heq]
  generalize hmoved : s.segments.map (moved start) = segments
  -- before the start, returned and pending: all segments, moved
  have hsplit : ∀ m, m ∈ segments.take index ++ (s.returned ++ segments.drop index) →
      ∃ m' ∈ s.queued, moved start m' = m := by
    intro m hm
    rw [hreturned, nil_append, take_append_drop, ← hmoved] at hm
    rw [hall]
    exact List.mem_map.1 hm
  have hlength : segments.length = s.segments.length := by rw [← hmoved, length_map]
  refine ⟨?_, fun hf => Bool.noConfusion hf, fun m hm => ?_, ?_, fun m hm => ?_,
    fun hempty => ?_, h.first, h.reset⟩
  · exact hlength ▸ hle
  · obtain ⟨m', hm', rfl⟩ := hsplit m hm
    exact h.carries m' hm'
  · show (s.returned ++ segments.drop index).IsChain Marks
    rw [hreturned, nil_append, ← hmoved]
    refine List.IsChain.drop ?_ index
    exact isChain_map_of_isChain (moved start) (fun _ _ hab => hab) hchain
  · have hm : (s.returned ++ segments.drop index).getLast? = some m := hm
    rw [hreturned, nil_append, getLast?_drop] at hm
    split at hm
    · exact absurd hm (by simp)
    · rw [← hmoved, getLast?_map, Option.map_eq_some_iff] at hm
      obtain ⟨m', hm', rfl⟩ := hm
      exact hlast m' hm'
  · have hempty : s.returned ++ segments.drop index = [] := hempty
    rw [hreturned, nil_append, drop_eq_nil_iff, hlength] at hempty
    exact hnone (hnil hempty)

/-- The first playlist stays on one timeline if and only if its segments can be moved. -/
theorem lies_initializeSource (h : s.Timeline) (hfresh : s.initialized = false)
    (hlies : Lies (ofRat 0) s.given s.timelinePos) :
    (∃ p, Lies p s.initializeSource.given s.initializeSource.timelinePos) ↔
      (s.live = true → Rebases (s.segments.map (·.duration))) := by
  obtain ⟨hzero, hreturned, -⟩ := h.fresh hfresh
  rw [given, hreturned, pending, hzero, drop_zero, nil_append] at hlies
  have hgiven : s.initializeSource.given = s.chooseStart.segments.drop s.chooseStart.nextIndex := by
    obtain ⟨_, _, _, heq, -, -⟩ := chooseStart_eq hzero
    have hnone : s.initializeSource.returned = [] := by
      unfold HlsSource.initializeSource
      rw [heq]
      exact hreturned
    rw [given, hnone]
    rfl
  rw [hgiven]
  show (∃ p, Lies p _ s.chooseStart.timelinePos) ↔ _
  unfold chooseStart
  by_cases hlive : s.live = true
  swap
  · rw [if_neg hlive, hzero, drop_zero]
    exact iff_of_true ⟨_, hlies⟩ fun hl => absurd hl hlive
  rw [if_pos hlive]
  dsimp only
  generalize hindex : s.segments.length - LIVE_EDGE_SEGMENTS = index
  have hdrop := lies_drop hlies index
  generalize hbase : ((s.segments.take index).map (·.duration)).foldl (· + ·) (ofRat 0) = base
    at hdrop
  -- the start of the chosen segment is the sum of the durations before it
  have hstart : (s.segments[index]?.map SegmentMeta.start).getD (ofRat 0) = base := by
    rw [← head?_drop]
    cases hrest : s.segments.drop index with
    | nil =>
      have hnil : s.segments = [] := by
        rw [drop_eq_nil_iff] at hrest
        unfold LIVE_EDGE_SEGMENTS at hindex
        exact length_eq_zero_iff.1 (by omega)
      rw [← hbase, hnil, take_nil]
      rfl
    | cons m rest =>
      rw [hrest] at hdrop
      exact hdrop.1
  have hrebases : Rebases (s.segments.map (·.duration)) ↔
      (lt (ofRat 0) base = true → Shifts base base ((s.segments.drop index).map (·.duration))) := by
    unfold Rebases
    rw [length_map, hindex]
    dsimp only
    rw [← List.map_take, hbase, ← List.map_drop]
  rw [hstart, hrebases]
  split
  · rename_i hpos
    dsimp only
    show (∃ p, Lies p ((s.segments.map (shifted base)).drop index) (s.timelinePos - base)) ↔ _
    rw [← List.map_drop]
    constructor
    · rintro ⟨x, hx⟩ - -
      exact ((lies_shifted base x hdrop).1 hx).2
    · intro hshifts
      exact ⟨_, (lies_shifted base _ hdrop).2 ⟨rfl, hshifts hlive hpos⟩⟩
  · tauto

/-! ## The calls of `next` -/

omit [JsArithmetic ν] in
theorem returned_answer (r : NextResult ν) (s : HlsSource ν) :
    (s.answer r).returned = s.returned ++ (match r with
      | .segment m => [m]
      | _ => []) := by
  unfold returned answer
  rw [filterMap_append]
  cases r <;> rfl

omit [JsArithmetic ν] in
/-- A call that ends without a segment. -/
theorem given_answer {r : NextResult ν} (hr : r = .null ∨ r = .error) :
    (s.answer r).returned = s.returned ∧ (s.answer r).given = s.given := by
  have hreturned : (s.answer r).returned = s.returned := by
    rw [returned_answer]
    rcases hr with rfl | rfl <;> exact append_nil _
  exact ⟨hreturned, congrArg (· ++ s.pending) hreturned⟩

/-- The segment that `next` returns: the first one with `resetRemuxer`. -/
def handed (s : HlsSource ν) (m : SegmentMeta ν) : SegmentMeta ν :=
  { m with resetRemuxer := s.resetPending || m.resetRemuxer }

/-- `next` returns the segment at the front. -/
def handOut (s : HlsSource ν) (m : SegmentMeta ν) : HlsSource ν :=
  { s with nextIndex := s.nextIndex + 1, resetPending := false }.answer (.segment (s.handed m))

theorem proceed_cases (s : HlsSource ν) :
    s.proceed = s.answer .null ∨ s.proceed = { s with wait := .sleep s.refreshDelay } ∨
      ∃ m rest, s.pending = m :: rest ∧ s.nextIndex < s.segments.length ∧
        s.segments.drop (s.nextIndex + 1) = rest ∧ s.proceed = s.handOut m := by
  unfold proceed
  split
  · exact .inl rfl
  split
  · rename_i m hm
    obtain ⟨hlt, hget⟩ := List.getElem?_eq_some_iff.1 hm
    refine .inr (.inr ⟨m, _, ?_, hlt, rfl, ?_⟩)
    · rw [pending, drop_eq_getElem_cons hlt, hget]
    · unfold handOut handed
      dsimp only
      split
      · simp [*]
      · simp [*]
  · split
    · exact .inl rfl
    · exact .inr (.inl rfl)

section HandOut

omit [JsArithmetic ν]

variable {m : SegmentMeta ν} {rest : List (SegmentMeta ν)}

theorem returned_handOut : (s.handOut m).returned = s.returned ++ [s.handed m] :=
  returned_answer _ _

theorem given_handOut (hrest : s.segments.drop (s.nextIndex + 1) = rest) :
    (s.handOut m).given = s.returned ++ s.handed m :: rest := by
  have hpending : (s.handOut m).pending = rest := hrest
  rw [given, hpending, returned_handOut, append_assoc]
  rfl

theorem handed_false (h : s.resetPending = false) : s.handed m = m := by
  unfold handed
  rw [h, Bool.false_or]

theorem marks_handed (h : (m :: rest).IsChain Marks) : (s.handed m :: rest).IsChain Marks := by
  cases rest with
  | nil => exact isChain_singleton _
  | cons b rest =>
    rw [isChain_cons_cons] at h ⊢
    exact h

theorem last_handed {m x : SegmentMeta ν} (h : (s.handed m :: rest).getLast? = some x) :
    ∃ y, (m :: rest).getLast? = some y ∧ y.entry = x.entry := by
  cases rest with
  | nil =>
    obtain rfl := some.inj h
    exact ⟨m, rfl, rfl⟩
  | cons b rest =>
    tauto

theorem Timeline.handOut (h : s.Timeline) (hinit : s.initialized = true)
    (hpending : s.pending = m :: rest) (hlt : s.nextIndex < s.segments.length)
    (hrest : s.segments.drop (s.nextIndex + 1) = rest) : (s.handOut m).Timeline := by
  have hgiven := given_handOut (m := m) hrest
  have hqueue : s.given = s.returned ++ m :: rest := by rw [given, hpending]
  have hmem : ∀ x ∈ s.passed ++ (s.returned ++ s.handed m :: rest),
      x ∈ s.queued ∨ x = s.handed m := by
    intro x hx
    rw [queued, hqueue]
    simp only [mem_append, List.mem_cons] at hx ⊢
    tauto
  have hm : m ∈ s.queued := by
    rw [queued, hqueue]
    simp
  have hmarks := h.marks
  have hlast := h.last
  rw [hqueue] at hmarks hlast
  constructor
  · exact hlt
  · exact fun hf => absurd (hf.symm.trans hinit) Bool.false_ne_true
  · rw [queued, hgiven]
    intro x hx
    rcases hmem x hx with hx | rfl
    · exact h.carries x hx
    · exact h.carries m hm
  · rw [hgiven]
    cases hreset : s.resetPending with
    | false => rwa [handed_false hreset]
    | true =>
      rw [h.reset.1 hreset, nil_append] at hmarks ⊢
      exact marks_handed hmarks
  · rw [hgiven]
    cases hreset : s.resetPending with
    | false => rwa [handed_false hreset]
    | true =>
      rw [h.reset.1 hreset, nil_append] at hlast ⊢
      intro x hx
      obtain ⟨y, hy, hentry⟩ := last_handed hx
      rw [← hentry]
      exact hlast y hy
  · rw [hgiven]
    simp
  · rw [returned_handOut]
    cases hreset : s.resetPending with
    | false =>
      intro x hx
      cases hr : s.returned with
      | nil => exact absurd (hreset.symm.trans (h.reset.2 hr)) Bool.false_ne_true
      | cons a l =>
        rw [hr] at hx
        exact h.first x (by rw [hr]; exact hx)
    | true =>
      rw [h.reset.1 hreset, nil_append]
      intro x hx
      obtain rfl := some.inj hx
      show (s.resetPending || m.resetRemuxer) = true
      rw [hreset, Bool.true_or]
  · rw [returned_handOut]
    exact ⟨fun hr => Bool.noConfusion hr, fun hr => absurd hr (by simp)⟩

theorem tally_handOut (hpending : s.pending = m :: rest)
    (hrest : s.segments.drop (s.nextIndex + 1) = rest) : (s.handOut m).tally = s.tally := by
  have hqueue : s.given = s.returned ++ m :: rest := by rw [given, hpending]
  unfold tally queued
  rw [given_handOut hrest, hqueue]
  show Tally.mk ((s.passed ++ (s.returned ++ s.handed m :: rest)).map (·.entry)) _ _ = _
  simp only [map_append, List.map_cons]
  rfl

end HandOut

/-- What a step does that loads no playlist: it waits, or the call of `next` ends. -/
inductive Moves (s : HlsSource ν) : HlsSource ν → Prop
  | waits (wait : HlsWait ν) (url : String) (refreshFailures : ℕ) (destroyed : Bool) :
    Moves s { s with wait, url, refreshFailures, destroyed }
  | ends {r : NextResult ν} (hr : r = .null ∨ r = .error) (refreshFailures : ℕ) :
    Moves s ({ s with refreshFailures }.answer r)
  | hands {m : SegmentMeta ν} {rest : List (SegmentMeta ν)} (hinit : s.initialized = true)
    (hpending : s.pending = m :: rest) (hlt : s.nextIndex < s.segments.length)
    (hrest : s.segments.drop (s.nextIndex + 1) = rest) : Moves s (s.handOut m)

theorem moves_proceed (hinit : s.initialized = true) : s.Moves s.proceed := by
  rcases proceed_cases s with heq | heq | ⟨m, rest, hpending, hlt, hrest, heq⟩
  · exact heq ▸ .ends (.inl rfl) s.refreshFailures
  · exact heq ▸ .waits _ s.url s.refreshFailures s.destroyed
  · exact heq ▸ .hands hinit hpending hlt hrest

omit [JsArithmetic ν] in
theorem moves_giveUp : s.Moves s.giveUp := by
  unfold giveUp
  split
  · exact .ends (.inl rfl) s.refreshFailures
  · exact .ends (.inr rfl) s.refreshFailures

theorem moves_loadFailed : s.Moves s.loadFailed := by
  unfold loadFailed
  split
  · exact moves_giveUp
  · dsimp only
    split
    · exact .ends (.inr rfl) _
    · exact .waits _ s.url _ s.destroyed

theorem moves_next : s.Moves s.next := by
  unfold HlsSource.next
  split
  · exact moves_proceed ‹_›
  · split
    · exact moves_giveUp
    · exact .waits .fetchOnce s.url s.refreshFailures s.destroyed

omit [JsArithmetic ν] in
theorem moves_self : s.Moves s := .waits s.wait s.url s.refreshFailures s.destroyed

theorem step_cases (s : HlsSource ν) (e : HlsEvent ν) :
    (∃ lines, e = .fetched (.media lines) ∧ s.wait = .fetchOnce ∧ s.step e = s.mediaLoaded lines) ∨
    (∀ lines, e = .fetched (.media lines) → s.wait ≠ .fetchOnce) ∧ s.Moves (s.step e) := by
  cases e with
  | next =>
    refine .inr ⟨fun _ he => (nomatch he), ?_⟩
    unfold HlsSource.step
    dsimp only
    split
    · exact moves_next
    · exact moves_self
  | fetched playlist =>
    unfold HlsSource.step
    dsimp only
    split
    · rename_i hwait
      cases playlist with
      | media lines => exact .inl ⟨lines, rfl, hwait, rfl⟩
      | multivariant variants =>
        refine .inr ⟨fun _ he => (nomatch he), ?_⟩
        unfold HlsSource.fetched
        dsimp only
        split
        · exact moves_loadFailed
        · split
          · exact moves_giveUp
          · exact .waits s.wait _ s.refreshFailures s.destroyed
      | failed => exact .inr ⟨fun _ he => (nomatch he), moves_loadFailed⟩
    · rename_i hwait
      exact .inr ⟨fun _ _ => hwait, moves_self⟩
  | timer =>
    refine .inr ⟨fun _ he => (nomatch he), ?_⟩
    unfold HlsSource.step
    dsimp only
    split
    · split
      · exact moves_giveUp
      · exact .waits .fetchOnce s.url s.refreshFailures s.destroyed
    · exact moves_self
  | destroy => exact .inr ⟨fun _ he => (nomatch he), .waits s.wait s.url s.refreshFailures true⟩

/-! ## What the steps keep -/

section Kept

variable {t : HlsSource ν}

omit [JsArithmetic ν] in
theorem Timeline.moves (h : s.Timeline) (hmove : s.Moves t) : t.Timeline := by
  cases hmove with
  | waits => exact ⟨h.bound, h.fresh, h.carries, h.marks, h.last, h.none, h.first, h.reset⟩
  | ends hr refreshFailures =>
    obtain ⟨hreturned, hgiven⟩ := given_answer (s := { s with refreshFailures }) hr
    constructor
    · exact h.bound
    · rw [hreturned]
      exact h.fresh
    · rw [queued, hgiven]
      exact h.carries
    · rw [hgiven]
      exact h.marks
    · rw [hgiven]
      exact h.last
    · rw [hgiven]
      exact h.none
    · rw [hreturned]
      exact h.first
    · rw [hreturned]
      exact h.reset
  | hands hinit hpending hlt hrest => exact h.handOut hinit hpending hlt hrest

omit [JsArithmetic ν] in
theorem tally_moves (hmove : s.Moves t) : t.tally = s.tally := by
  cases hmove with
  | waits => rfl
  | ends hr refreshFailures =>
    unfold tally queued
    rw [(given_answer (s := { s with refreshFailures }) hr).2]
    rfl
  | hands _ hpending _ hrest => exact tally_handOut hpending hrest

omit [JsArithmetic ν] in
theorem initialized_moves (hmove : s.Moves t) : t.initialized = s.initialized := by
  cases hmove <;> rfl

theorem Untouched.moves (h : s.Untouched) (hmove : s.Moves t) : t.Untouched := by
  cases hmove with
  | waits => exact h
  | ends => exact h
  | hands hinit => exact fun hf => absurd (hf.symm.trans hinit) Bool.false_ne_true

/-- `resetRemuxer` moves nothing. -/
theorem lies_moves (hmove : s.Moves t) (p : ν) :
    Lies p t.given t.timelinePos ↔ Lies p s.given s.timelinePos := by
  cases hmove with
  | waits => exact Iff.rfl
  | ends hr refreshFailures =>
    rw [(given_answer (s := { s with refreshFailures }) hr).2]
    exact Iff.rfl
  | hands _ hpending _ hrest =>
    rw [given_handOut hrest, given, hpending, lies_append, lies_append]
    exact Iff.rfl

end Kept

/-- The source once a playlist is ingested. -/
def ingested (s : HlsSource ν) (lines : List (MediaLine ν)) : HlsSource ν :=
  { s with refreshFailures := 0 }.ingest (parseMedia lines)

theorem Timeline.ingested (h : s.Timeline) (lines : List (MediaLine ν)) :
    (s.ingested lines).Timeline :=
  (h.moves (.waits s.wait s.url 0 s.destroyed)).ingest (parseMedia lines)

theorem ingested_state (s : HlsSource ν) (lines : List (MediaLine ν)) :
    (s.ingested lines).live = (parseMedia lines).live ∧
      (s.ingested lines).initialized = s.initialized :=
  ingest_state { s with refreshFailures := 0 } (parseMedia lines)

theorem mediaLoaded_cases (s : HlsSource ν) (lines : List (MediaLine ν)) :
    s.initialized = true ∧ (s.ingested lines).Moves (s.mediaLoaded lines) ∨
      s.initialized = false ∧ (s.ingested lines).initializeSource.Moves (s.mediaLoaded lines) := by
  have hstate := (ingested_state s lines).2
  rw [ingested] at hstate
  unfold HlsSource.mediaLoaded ingested
  dsimp only
  split
  · rename_i hinit
    exact .inl ⟨hstate.symm.trans hinit, moves_proceed hinit⟩
  · rename_i hinit
    exact .inr ⟨hstate.symm.trans (Bool.not_eq_true _ ▸ hinit), moves_proceed rfl⟩

theorem Timeline.mediaLoaded (h : s.Timeline) (lines : List (MediaLine ν)) :
    (s.mediaLoaded lines).Timeline := by
  have hingest := h.ingested lines
  rcases mediaLoaded_cases s lines with ⟨-, hmove⟩ | ⟨hinit, hmove⟩
  · exact hingest.moves hmove
  · exact (hingest.initializeSource ((ingested_state s lines).2.trans hinit)).moves hmove

theorem Timeline.step (h : s.Timeline) (e : HlsEvent ν) : (s.step e).Timeline := by
  rcases step_cases s e with ⟨lines, -, -, heq⟩ | ⟨-, hmove⟩
  · exact heq ▸ h.mediaLoaded lines
  · exact h.moves hmove

theorem Untouched.step (h : s.Untouched) (e : HlsEvent ν) : (s.step e).Untouched := by
  rcases step_cases s e with ⟨lines, -, -, heq⟩ | ⟨-, hmove⟩
  · have hinit : (s.mediaLoaded lines).initialized = true := by
      rcases mediaLoaded_cases s lines with ⟨hinit, hmove⟩ | ⟨-, hmove⟩
      · rw [initialized_moves hmove, (ingested_state s lines).2, hinit]
      · rw [initialized_moves hmove]
        rfl
    rw [heq]
    exact fun hf => absurd (hf.symm.trans hinit) Bool.false_ne_true
  · exact h.moves hmove

theorem tally_ingestSegment (h : s.Timeline) (seg : HlsPlaylistSegment ν) :
    (s.ingestSegment seg).tally = s.tally.add seg := by
  unfold Tally.add
  split
  · rename_i hold
    rw [ingestSegment_old hold]
    rfl
  · rename_i hnew
    obtain ⟨segments, nextIndex, heq, hgiven, -, -⟩ := ingestSegment_new h.bound hnew
    rw [heq]
    show Tally.mk ((s.passed ++ (s.returned ++ segments.drop nextIndex)).map (·.entry)) _ _ = _
    rw [hgiven, ← append_assoc, map_append]
    rfl

theorem tally_run (h : s.Timeline) (segs : List (HlsPlaylistSegment ν)) :
    (run ingestSegment s segs).tally = run Tally.add s.tally segs := by
  induction segs generalizing s with
  | nil => rfl
  | cons seg segs ih => rw [run_cons, run_cons, ← tally_ingestSegment h, ih (h.ingestSegment seg)]

theorem tally_ingested (h : s.Timeline) (lines : List (MediaLine ν)) :
    (s.ingested lines).tally = run Tally.add s.tally (parseMedia lines).segments :=
  tally_run ((h.moves (.waits s.wait s.url 0 s.destroyed)).ingestHeader _)
    (parseMedia lines).segments

theorem tally_initializeSource (h : s.Timeline) (hfresh : s.initialized = false) :
    s.initializeSource.tally = s.tally := by
  obtain ⟨hzero, hreturned, hpassed⟩ := h.fresh hfresh
  obtain ⟨index, start, timelinePos, heq, -, -⟩ := chooseStart_eq hzero
  unfold HlsSource.initializeSource
  rw [heq]
  generalize hmoved : s.segments.map (moved start) = segments
  have hentries : segments.map (·.entry) = s.segments.map (·.entry) := by
    rw [← hmoved, List.map_map]
    rfl
  unfold tally queued given pending
  rw [hzero, hreturned, hpassed]
  show Tally.mk ((segments.take index ++ (s.returned ++ segments.drop index)).map (·.entry)) _ _ = _
  rw [hreturned, nil_append, take_append_drop, hentries]
  rfl

theorem tally_mediaLoaded (h : s.Timeline) (lines : List (MediaLine ν)) :
    (s.mediaLoaded lines).tally = run Tally.add s.tally (parseMedia lines).segments := by
  rw [← tally_ingested h]
  rcases mediaLoaded_cases s lines with ⟨-, hmove⟩ | ⟨hinit, hmove⟩
  · exact tally_moves hmove
  · rw [tally_moves hmove, tally_initializeSource (h.ingested lines)
      ((ingested_state s lines).2.trans hinit)]

end Steps

section Delivery

variable {ι : Type*} [DecidableEq ι] {ident : HlsPlaylistSegment ν → ι} {s : HlsSource ν}

/-- The part of a delivery that a playlist can break. -/
def Exact (ident : HlsPlaylistSegment ν → ι) (s : HlsSource ν) : Prop :=
  s.tally.Exact ident ∧ ∃ p, Lies p s.given s.timelinePos

theorem delivers_iff (h : s.Timeline) : s.Delivers ident ↔ s.Exact ident :=
  ⟨fun hd => ⟨hd.entries, hd.lies⟩, fun hexact => ⟨hexact.1,
    fun m hm => h.carries m (mem_append_right _ hm), h.first, h.marks, hexact.2⟩⟩

/-- The durations of the first playlist's segments are those of its entries. -/
theorem durations_ingested (h : s.Timeline) (hnew : s.Untouched) (hinit : s.initialized = false)
    {lines : List (MediaLine ν)} (hexact : (s.ingested lines).tally.Exact ident) :
    (s.ingested lines).segments.map (·.duration) =
      (firstListed ident (parseMedia lines).segments).map (·.duration) := by
  have hingest := h.ingested lines
  obtain ⟨hzero, hreturned, hpassed⟩ := hingest.fresh ((ingested_state s lines).2.trans hinit)
  have hqueued : (s.ingested lines).queued = (s.ingested lines).segments := by
    rw [queued, given, hpassed, hreturned, pending, hzero, drop_zero, nil_append, nil_append]
  have hlisted : (s.ingested lines).tally.listed = (parseMedia lines).segments := by
    have hnone : s.tally.listed = [] := (hnew hinit).2.1
    rw [tally_ingested h, Tally.listed_run, hnone, nil_append]
  rw [← hlisted, ← hexact]
  show _ = ((s.ingested lines).queued.map (·.entry)).map (·.duration)
  rw [List.map_map, hqueued]
  exact map_congr_left fun m hm => (hingest.carries m (hqueued ▸ hm)).2.1

/-- A playlist keeps the timeline, unless it is the first one and cannot be moved. -/
theorem lies_mediaLoaded (h : s.Timeline) (hnew : s.Untouched)
    (hlies : ∃ p, Lies p s.given s.timelinePos) {lines : List (MediaLine ν)}
    (hexact : (s.mediaLoaded lines).tally.Exact ident) :
    (∃ p, Lies p (s.mediaLoaded lines).given (s.mediaLoaded lines).timelinePos) ↔
      (s.initialized = false → (parseMedia lines).live = true →
        Rebases ((firstListed ident (parseMedia lines).segments).map (·.duration))) := by
  have hcleared := h.moves (.waits s.wait s.url 0 s.destroyed)
  obtain ⟨hlive, hstate⟩ := ingested_state s lines
  rcases mediaLoaded_cases s lines with ⟨hinit, hmove⟩ | ⟨hinit, hmove⟩
  · rw [exists_congr (lies_moves hmove)]
    obtain ⟨p, hp⟩ := hlies
    exact iff_of_true ⟨p, lies_ingest hcleared hp _⟩
      fun hf => absurd (hinit.symm.trans hf) Bool.noConfusion
  · have hfresh := hstate.trans hinit
    have hingest := h.ingested lines
    obtain ⟨hsegments, -, hpos⟩ := hnew hinit
    have hstart : Lies (ofRat 0) s.given s.timelinePos := by
      rw [given, (h.fresh hinit).2.1, pending, hsegments, drop_nil, hpos]
      rfl
    rw [tally_moves hmove, tally_initializeSource hingest hfresh] at hexact
    rw [exists_congr (lies_moves hmove),
      lies_initializeSource hingest hfresh (lies_ingest hcleared hstart _), hlive,
      durations_ingested h hnew hinit hexact]
    exact ⟨fun hr _ => hr, fun hr => hr hinit⟩

theorem exact_step (h : s.Timeline ∧ s.Untouched) (hexact : s.Exact ident) (e : HlsEvent ν) :
    (s.step e).Exact ident ↔ s.PlaylistTells ident e := by
  rcases step_cases s e with ⟨lines, rfl, hwait, heq⟩ | ⟨hother, hmove⟩
  · have htally := tally_mediaLoaded h.1 lines
    have halong := Tally.exact_iff_along hexact.1 (parseMedia lines).segments
    rw [← htally] at halong
    rw [heq, Exact]
    constructor
    · rintro ⟨hentries, hlies⟩ _ ⟨rfl⟩ _
      exact ⟨halong.1 hentries, (lies_mediaLoaded h.1 h.2 hexact.2 hentries).1 hlies⟩
    · intro htells
      obtain ⟨ha, hrebases⟩ := htells lines rfl hwait
      exact ⟨halong.2 ha, (lies_mediaLoaded h.1 h.2 hexact.2 (halong.2 ha)).2 hrebases⟩
  · rw [Exact, tally_moves hmove, exists_congr (lies_moves hmove)]
    exact ⟨fun _ lines he hwait => absurd hwait (hother lines he), fun _ => hexact⟩

theorem kept_step (s : HlsSource ν) (e : HlsEvent ν) (h : s.Timeline ∧ s.Untouched) :
    (s.step e).Timeline ∧ (s.step e).Untouched :=
  ⟨h.1.step e, h.2.step e⟩

/-- At every point of a run each listed segment is queued once and in order, and what `next`
    returns lies on one timeline, if and only if in every playlist that was loaded the number of an
    entry tells whether its segment was listed before, and the first one can be moved to its
    start. -/
theorem delivers_iff_along (ident : HlsPlaylistSegment ν → ι) (url : String)
    (es : List (HlsEvent ν)) :
    (∀ es₁ es₂, es₁ ++ es₂ = es → (run step (created url) es₁).Delivers ident) ↔
      Along step (PlaylistTells ident) (created url) es := by
  have hstart : (created (ν := ν) url).Timeline ∧ (created (ν := ν) url).Untouched :=
    ⟨timeline_created url, fun _ => ⟨rfl, rfl, rfl⟩⟩
  rw [← prefixes_iff_along kept_step (fun s e hs hexact => exact_step hs hexact e) hstart
    ⟨rfl, ofRat 0, rfl⟩ es]
  refine forall₃_congr fun es₁ es₂ _ => delivers_iff ?_
  exact (run_always kept_step hstart es₁).1

/-- The server starts again at number 0: the new segment is taken for an old one. -/
theorem restart_lost : ¬ (run step (created (ν := ℚ) "live") [.next,
      .fetched (.media [.mediaSequence 10, .extinf 4, .uri "a", .extinf 4, .uri "b"]), .next, .next,
      .timer, .fetched (.media [.mediaSequence 0, .extinf 4, .uri "c"])]).Delivers
        HlsPlaylistSegment.url :=
  fun h => absurd h.entries (by decide)

end Delivery

end HlsSource

end Apackage.Rtp2httpd.Player
