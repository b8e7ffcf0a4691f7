import Apackage.Lib.Run
import Apackage.Rtp2httpd.Player.FetchLoader
import Mathlib.Data.List.Infix
import Mathlib.Data.Int.Order.Basic
import Mathlib.Algebra.Order.Ring.Int

/-
  Pausing a download in range mode.

  The offset from which `resume` starts is the start of the stash or, when the stash is empty,
  the end of the range dispatched so far. A resume at a positive offset forgets this end: until
  the first bytes of the new response are dispatched the range ends at -1, and a `pause` in
  between makes the next fetch start from offset 0 again.
-/

namespace Apackage.Rtp2httpd.Player

open List Lib.Run

namespace FetchLoader

variable {γ : Type*} {resource : List UInt8} {s : FetchLoader γ}

/-- The consumer got the resource from offset 0 on, and a paused download goes on from the
    first byte that was not consumed. -/
def Lossless (resource : List UInt8) (s : FetchLoader γ) : Prop :=
  s.consumed <+: resource ∧ (s.paused = true → s.resumeFrom = s.consumed.length)
  deriving Decidable

/-- Resumed at a positive offset, with nothing dispatched since. -/
def FreshlyResumed (s : FetchLoader γ) : Prop :=
  s.stash = [] ∧ s.currentRange.toByte = -1 ∧ s.currentRange.fromByte ≠ 0
  deriving Decidable

/-- The step is not a `pause` of a working loader that was just resumed. -/
def PausesLate (s : FetchLoader γ) (e : LoaderEvent) : Prop :=
  e = .pause → s.isWorking = true → ¬ s.FreshlyResumed
  deriving Decidable

def Live (s : FetchLoader γ) : Prop := s.request.aborted = false ∧ s.request.phase ≠ .over

def Active (s : FetchLoader γ) : Prop := s.status = .connecting ∨ s.status = .buffering

/-- Where the loader stands in the resource. -/
structure Tracked (resource : List UInt8) (s : FetchLoader γ) : Prop where
  mode : s.resumeMode = .range
  taken : s.consumed ++ s.stash <+: resource
  start : s.stash ≠ [] → s.stashByteStart = s.consumed.length
  live : s.Live → s.request.range.toByte = -1 ∧ 0 ≤ s.request.range.fromByte ∧
    s.request.range.fromByte + s.request.receivedLength = s.consumed.length + s.stash.length
  base : 0 ≤ s.currentRange.fromByte ∧ s.currentRange.fromByte ≤ s.consumed.length
  dispatched : s.Active → s.stash = [] → s.currentRange.toByte + 1 = s.consumed.length ∨
      s.currentRange.toByte = -1 ∧ s.currentRange.fromByte = s.consumed.length
  parked : s.paused = true →
    s.stash = [] ∧ s.resumeFrom = s.consumed.length ∧ s.request.aborted = true

theorem Tracked.lossless (h : s.Tracked resource) : s.Lossless resource :=
  ⟨(prefix_append _ _).trans h.taken, fun hp => (h.parked hp).2.1⟩

theorem tracked_opened (resource : List UInt8) (sink : γ) :
    (opened .range sink).Tracked resource where
  mode := rfl
  taken := nil_prefix
  start h := absurd rfl h
  live _ := ⟨rfl, Int.le_refl 0, rfl⟩
  base := ⟨Int.le_refl 0, Int.le_refl 0⟩
  dispatched _ _ := .inl rfl
  parked h := nomatch h

theorem isWorking_iff : s.isWorking = true ↔ s.Active ∧ s.paused = false := by
  simp [isWorking, Active]

theorem prefix_next {α : Type*} {a l : List α} (h : a <+: l) (n : ℕ) :
    a ++ (l.drop a.length).take n <+: l := by
  obtain ⟨t, rfl⟩ := h
  rw [drop_left]
  exact (prefix_append_right_inj a).2 ( take_prefix n t)

theorem served_open {range : LoaderRange} (hto : range.toByte = -1) :
    served resource (buildRangeHeaders range) = resource.drop range.fromByte.toNat := by
  unfold buildRangeHeaders
  split
  · rw [if_neg (not_not.2 hto)]
    rfl
  · rename_i h
    have hzero : range.fromByte = 0 := by
      omega
    rw [hzero]
    rfl

section Consumer

variable {onDataArrival : γ → List UInt8 → ℤ → ℕ × γ}

/-- The count a consumer reports is at most the number of bytes presented. -/
def Honest (onDataArrival : γ → List UInt8 → ℤ → ℕ × γ) : Prop :=
  ∀ g data byteStart, (onDataArrival g data byteStart).1 ≤ data.length

theorem Tracked.flush (hc : Honest onDataArrival) (h : s.Tracked resource)
    (hidle : ¬ s.Active) (hover : s.request.phase = .over) (drop : Bool) :
    (s.flushStashBuffer onDataArrival drop).Tracked resource := by
  by_cases hs : s.stash = []
  · rwa [flushStashBuffer_empty onDataArrival hs]
  obtain ⟨stash, start', hstash, heq⟩ := flushStashBuffer_eq onDataArrival hs drop
  have hn := hc s.sink s.stash s.stashByteStart
  rw [heq]
  generalize onDataArrival s.sink s.stash s.stashByteStart = r at hn hstash ⊢
  obtain ⟨n, g⟩ := r
  have htaken : (s.consumed ++ s.stash.take n) ++ s.stash.drop n <+: resource := by
    rw [append_assoc, take_append_drop]
    exact h.taken
  refine ⟨h.mode, ?_, fun hne => ?_, fun hl => absurd hover hl.2, ⟨h.base.1, ?_⟩,
    fun hactive => absurd hactive hidle, fun hp => absurd (h.parked hp).1 hs⟩
  · rcases hstash with rfl | ⟨rfl, -⟩
    · show (s.consumed ++ s.stash.take n) ++ [] <+: resource
      rw [append_nil]
      exact (prefix_append _ _).trans htaken
    · exact htaken
  · rcases hstash with rfl | ⟨rfl, rfl⟩
    · exact absurd rfl hne
    · show s.stashByteStart + n = (s.consumed ++ s.stash.take n).length
      rw [h.start hs, length_append, length_take, min_eq_left hn]
      rfl
  · show s.currentRange.fromByte ≤ (s.consumed ++ _).length
    rw [length_append, Nat.cast_add]
    have := h.base.2
    omega

theorem Tracked.received (hc : Honest onDataArrival) (h : s.Tracked resource) (hl : s.Live)
    (size : ℕ) : (s.onRead onDataArrival resource (.chunk size)).Tracked resource := by
  obtain ⟨hto, hfrom, hpos⟩ := h.live hl
  have hp : s.paused = false := by
    by_contra hp
    exact Bool.false_ne_true (hl.1.symm.trans (h.parked (by simpa using hp)).2.2)
  unfold onRead
  dsimp only
  rw [served_open hto, drop_drop]
  generalize hchunk : ((resource.drop _).take size) = chunk
  have htaken : s.consumed ++ (s.stash ++ chunk) <+: resource := by
    have hoff : s.request.range.fromByte.toNat + s.request.receivedLength =
        (s.consumed ++ s.stash).length := by
      rw [length_append]
      omega
    rw [← hchunk, ← append_assoc, hoff]
    exact prefix_next h.taken size
  have hempty : s.stash = [] →
      s.request.range.fromByte + s.request.receivedLength = s.consumed.length := by
    intro hs
    rw [hpos, hs, length_nil]
    omega
  obtain ⟨start', hstart, heq⟩ := onFetchChunkArrival_eq onDataArrival (s :=
    { s with
      status := .buffering
      request := { s.request with receivedLength := s.request.receivedLength + chunk.length } })
    chunk hp hempty h.start
  have hn := hc s.sink (s.stash ++ chunk) s.consumed.length
  rw [heq]
  generalize onDataArrival s.sink (s.stash ++ chunk) s.consumed.length = r at hn hstart ⊢
  obtain ⟨n, g⟩ := r
  replace hn : n ≤ (s.stash ++ chunk).length := hn
  have hlen : (s.consumed ++ (s.stash ++ chunk).take n).length = s.consumed.length + n := by
    rw [length_append, length_take, min_eq_left hn]
  refine ⟨h.mode, ?_, fun hne => ?_, fun _ => ⟨hto, hfrom, ?_⟩, ⟨h.base.1, ?_⟩,
    fun _ hnil => .inl ?_, fun hp' => nomatch hp.symm.trans hp'⟩
  · show (s.consumed ++ (s.stash ++ chunk).take n) ++ (s.stash ++ chunk).drop n <+: resource
    rwa [append_assoc, take_append_drop]
  · show start' = (s.consumed ++ (s.stash ++ chunk).take n).length
    rw [hlen, hstart hne, Nat.cast_add]
  · show s.request.range.fromByte + ((s.request.receivedLength + chunk.length : ℕ) : ℤ) =
      (s.consumed ++ (s.stash ++ chunk).take n).length + ((s.stash ++ chunk).drop n).length
    rw [hlen, length_drop, length_append] at *
    omega
  · show s.currentRange.fromByte ≤ (s.consumed ++ _).length
    rw [length_append, Nat.cast_add]
    have := h.base.2
    omega
  · show (s.consumed.length : ℤ) + (s.stash ++ chunk).length - 1 + 1 =
      (s.consumed ++ (s.stash ++ chunk).take n).length
    have hall : (s.stash ++ chunk).length ≤ n := drop_eq_nil_iff.1 hnil
    rw [hlen]
    omega

theorem Tracked.settled (h : s.Tracked resource) (status : LoaderStatus)
    (hstatus : status ≠ .connecting ∧ status ≠ .buffering) :
    { s.setPhase .over with status := status }.Tracked resource :=
  ⟨h.mode, h.taken, h.start, fun hl => absurd rfl hl.2, h.base, fun ha => (ha.elim hstatus.1 hstatus.2).elim,
    h.parked⟩

section

variable (hc : Honest onDataArrival) (h : s.Tracked resource)

include hc h

theorem Tracked.failed (detail : LoaderErrorDetail) :
    ({ s.setPhase .over with status := .error }.handleLoaderError onDataArrival detail).Tracked
      resource := by
  have hflush := (h.settled .error (by decide)).flush hc (by simp [Active]) rfl false
  exact ⟨hflush.mode, hflush.taken, hflush.start, hflush.live, hflush.base, hflush.dispatched, hflush.parked⟩

theorem Tracked.onResponse (hl : s.Live) (e : LoaderEvent) :
    (s.onResponse onDataArrival e).Tracked resource := by
  cases e with
  | playlist => exact h.settled .idle (by decide)
  | response contentLength =>
    exact ⟨h.mode, h.taken, h.start, fun _ => h.live hl, h.base, h.dispatched, h.parked⟩
  | badStatus => exact h.failed hc _
  | rejected => exact h.failed hc _
  | _ => exact h

theorem Tracked.onRead (hl : s.Live) (e : LoaderEvent) :
    (s.onRead onDataArrival resource e).Tracked resource := by
  cases e with
  | chunk size => exact h.received hc hl size
  | done =>
    unfold FetchLoader.onRead
    dsimp only
    split
    · exact h.failed hc _
    · exact (h.settled .complete (by decide)).flush hc (by simp [Active]) rfl true
  | readRejected => exact h.failed hc _
  | _ => exact h

end

section

variable (h : s.Tracked resource)

include h

theorem Tracked.abortFetch : s.abortFetch.Tracked resource :=
  ⟨h.mode, h.taken, h.start, fun hl => Bool.noConfusion hl.1, h.base, h.dispatched,
    fun hp => ⟨(h.parked hp).1, (h.parked hp).2.1, rfl⟩⟩

theorem Tracked.abort : s.abort.Tracked resource := by
  unfold FetchLoader.abort
  split
  · exact ⟨h.mode, h.taken, h.start, fun hl => Bool.noConfusion hl.1, h.base, h.dispatched,
      fun hp => absurd hp Bool.false_ne_true⟩
  · rename_i hp
    exact ⟨h.mode, h.taken, h.start, fun hl => Bool.noConfusion hl.1, h.base, h.dispatched,
      fun hp' => absurd hp' hp⟩

theorem Tracked.pause (hlate : s.isWorking = true → ¬ s.FreshlyResumed) :
    s.pause.Tracked resource := by
  unfold FetchLoader.pause
  split
  · rename_i hw
    have hnil : s.consumed ++ [] <+: resource := by
      rw [append_nil]
      exact h.lossless.1
    split
    · rename_i hs
      have hstart := h.start hs
      refine ⟨h.mode, hnil, fun hne => absurd rfl hne, fun hl => Bool.noConfusion hl.1,
        h.base, fun _ _ => .inl ?_, fun _ => ⟨rfl, hstart, rfl⟩⟩
      show s.stashByteStart - 1 + 1 = s.consumed.length
      omega
    · rename_i hs
      have hs : s.stash = [] := not_not.1 hs
      -- the range ends behind the bytes consumed, or the loader is at offset 0
      have hend : s.currentRange.toByte + 1 = s.consumed.length := by
        rcases h.dispatched (isWorking_iff.1 hw).1 hs with hend | ⟨hto, hfrom⟩
        · exact hend
        · have hzero : s.currentRange.fromByte = 0 := by
            by_contra hne
            exact hlate hw ⟨hs, hto, hne⟩
          omega
      exact ⟨h.mode, hnil, fun hne => absurd rfl hne, fun hl => Bool.noConfusion hl.1,
        h.base, fun _ _ => .inl hend, fun _ => ⟨rfl, hend, rfl⟩⟩
  · exact h

theorem Tracked.seek (hs : s.stash = []) {bytes : ℤ} (hbytes : bytes = s.consumed.length)
    (hp : s.paused = false) :
    ({ s with currentRange := ⟨bytes, -1⟩ }.startFetch ⟨bytes, -1⟩).Tracked resource := by
  refine ⟨h.mode, h.taken, h.start, fun _ => ⟨rfl, ?_, ?_⟩, ⟨?_, hbytes.le⟩,
    fun _ _ => .inr ⟨rfl, hbytes⟩, fun hp' => absurd (hp.symm.trans hp') Bool.false_ne_true⟩
  · exact hbytes ▸ Int.natCast_nonneg _
  · show bytes + ((0 : ℕ) : ℤ) = s.consumed.length + s.stash.length
    rw [hs, hbytes, length_nil]
  · exact hbytes ▸ Int.natCast_nonneg _

theorem Tracked.resume : (s.resume onDataArrival).Tracked resource := by
  unfold FetchLoader.resume
  split
  · rename_i hp
    obtain ⟨hs, hfrom, haborted⟩ := h.parked hp
    have hrunning : { s with paused := false, resumeFrom := 0 }.Tracked resource :=
      ⟨h.mode, h.taken, h.start, fun hl => absurd (hl.1.symm.trans haborted) Bool.false_ne_true,
        h.base, h.dispatched, fun hp' => absurd hp' Bool.false_ne_true⟩
    dsimp only
    split
    · rename_i hmode
      exact absurd (h.mode.symm.trans hmode) (by decide)
    · unfold internalSeek
      dsimp only
      rw [flushStashBuffer_empty onDataArrival (by split <;> exact hs)]
      split
      · exact hrunning.abortFetch.seek hs hfrom rfl
      · exact hrunning.seek hs hfrom rfl
  · exact h

end

theorem tracked_step (hc : Honest onDataArrival) (s : FetchLoader γ) (e : LoaderEvent)
    (h : s.Tracked resource) (hok : s.PausesLate e) :
    (s.step onDataArrival resource e).Tracked resource := by
  cases e with
  | pause => exact h.pause (hok rfl)
  | resume => exact h.resume
  | abort => exact h.abort
  | _ =>
    unfold FetchLoader.step
    dsimp only
    split
    · exact h
    · rename_i ha
      split
      · exact h.onResponse hc ⟨by simpa using ha, by simp [*]⟩ _
      · exact h.onRead hc ⟨by simpa using ha, by simp [*]⟩ _
      · exact h

theorem pause_freshlyResumed (h : s.Tracked resource) (hw : s.isWorking = true)
    (hfresh : s.FreshlyResumed) : ¬ s.pause.Lossless resource := by
  obtain ⟨hs, hto, hfrom⟩ := hfresh
  intro hl
  have hpaused : s.pause.paused = true ∧ s.pause.resumeFrom = 0 ∧
      s.pause.consumed = s.consumed := by
    unfold FetchLoader.pause
    rw [if_pos hw, if_neg (not_not.2 hs)]
    exact ⟨rfl, by show s.currentRange.toByte + 1 = 0; omega, rfl⟩
  obtain ⟨hp, hzero, hcons⟩ := hpaused
  have hlen := hl.2 hp
  rw [hzero, hcons] at hlen
  have hbase := h.base
  omega

end Consumer

/-- At every point of a run the consumer has had the resource from offset 0 on and a paused
    download goes on where the consumer stopped, if and only if no `pause` meets a loader that
    was just resumed. -/
theorem lossless_iff {onDataArrival : γ → List UInt8 → ℤ → ℕ × γ} (hc : Honest onDataArrival)
    (resource : List UInt8) (sink : γ) (es : List LoaderEvent) :
    (∀ es₁ es₂, es₁ ++ es₂ = es →
        (run (step onDataArrival resource) (opened .range sink) es₁).Lossless resource) ↔
      Along (step onDataArrival resource) PausesLate (opened .range sink) es := by
  refine always_iff_along (I := Tracked resource) (fun s e h hok => tracked_step hc s e h hok)
    (fun s h => h.lossless) (fun s e h hbad => ?_) (tracked_opened resource sink) es
  simp only [PausesLate, not_forall, not_not] at hbad
  obtain ⟨rfl, hw, hfresh⟩ := hbad
  exact pause_freshlyResumed h hw hfresh

/-- A consumer of packets of two bytes. -/
def takePairs (_ : Unit) (data : List UInt8) (_ : ℤ) : ℕ × Unit :=
  (data.length - data.length % 2, ())

/-- Paused with a byte in the stash, and again when one byte of the new response has come. -/
theorem lossless_iff_pairs :
    (run (step takePairs [5, 6, 7, 8]) (opened .range ()) [.response none, .chunk 3, .pause,
      .resume, .response none, .chunk 1, .pause, .resume]).Lossless [5, 6, 7, 8] :=
  (lossless_iff (fun _ _ _ => Nat.sub_le _ _) [5, 6, 7, 8] () _).2 (by decide) _ [] (append_nil _)

/-- Resumed at offset 2 and paused again before the response. -/
theorem first_pair_repeated : ¬ (run (step takePairs [5, 6, 7, 8]) (opened .range ())
      [.response none, .chunk 2, .pause, .resume, .pause, .resume, .response none,
        .chunk 2]).consumed <+: [5, 6, 7, 8] := by
  decide

end FetchLoader

end Apackage.Rtp2httpd.Player
