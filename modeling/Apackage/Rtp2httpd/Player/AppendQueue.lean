import Apackage.Lib.Run
import Apackage.Rtp2httpd.Player.MediaSource
import Mathlib.Data.List.Induction

/-
  What the SourceBuffers receive.

  The queues keep the order of the segments. The type of a SourceBuffer, however, is set when an
  init segment is queued, not when it is appended, and not at all while the buffer is updating;
  and `endOfStream` looks at the buffers, not at the queues. A deferred init segment sets the
  type when `sourceopen` or `startstreaming` is handled.
-/

namespace Apackage.Rtp2httpd.Player

open List Lib.Run

def TrackState.bufferType (x : TrackState) : Option String := x.sourceBuffer.map (·.mimeType)

theorem Track.forall_iff {p : Track → Prop} : (∀ t, p t) ↔ p .video ∧ p .audio := by
  constructor
  · exact fun h => ⟨h _, h _⟩
  · rintro ⟨hv, ha⟩ (_ | _)
    · exact hv
    · exact ha

instance (p : Track → Prop) [DecidablePred p] : Decidable (∀ t, p t) :=
  decidable_of_iff _ Track.forall_iff.symm

namespace Mse

/-- The SourceBuffer got the queued segments in order, the media segments under their type. -/
structure Received (x : TrackState) : Prop where
  account : x.received.map Prod.fst ++ x.pendingSegments = x.queued
  typed : ∀ r ∈ x.received, r.1.isMedia = true → r.1.announced = some r.2

instance (x : TrackState) : Decidable (Received x) :=
  decidable_of_iff (_ ∧ ∀ r ∈ x.received, r.1.isMedia = true → r.1.announced = some r.2)
    ⟨fun h => ⟨h.1, h.2⟩, fun h => ⟨h.account, h.typed⟩⟩

/-- Each track's segments arrive in order, and the end of the stream comes after them. -/
structure Delivered (s : Mse) : Prop where
  tracks : ∀ t, Received (s.track t)
  ended : ∀ waiting ∈ s.signalled, waiting = []

instance (s : Mse) : Decidable s.Delivered :=
  decidable_of_iff ((∀ t, Received (s.track t)) ∧ ∀ waiting ∈ s.signalled, waiting = [])
    ⟨fun h => ⟨h.1, h.2⟩, fun h => ⟨h.tracks, h.ended⟩⟩

/-- The types that these init segments announce for a track. -/
def typesOf (t : Track) (pendings : List PendingInit) : List String :=
  (pendings.filter fun pending => pending.track = t).map fun pending =>
    mimeTypeOf pending.codec pending.container

def deferredTypes (s : Mse) (t : Track) : List String := typesOf t s.pendingSourceBufferInit

/-- The type of the track is set to these one after the other: no media segment of another type
    than the last one waits, no type changes while the buffer is updating, and all are known. -/
structure Fits (b : Browser) (t : Track) (types : List String) (x : TrackState) : Prop where
  waiting : ∀ last, types.getLast? = some last →
    ∀ e ∈ x.pendingSegments, e.isMedia = true → e.announced = some last
  updating : ∀ sb, x.sourceBuffer = some sb → sb.updating = true →
    ∀ type ∈ types, type = sb.mimeType
  known : ∀ type ∈ types, b.setType t type ≠ .notSupported

instance (b : Browser) (t : Track) (types : List String) (x : TrackState) :
    Decidable (Fits b t types x) :=
  decidable_of_iff
    ((∀ last, types.getLast? = some last →
      ∀ e ∈ x.pendingSegments, e.isMedia = true → e.announced = some last) ∧
      (∀ sb, x.sourceBuffer = some sb → sb.updating = true → ∀ type ∈ types, type = sb.mimeType) ∧
      ∀ type ∈ types, b.setType t type ≠ .notSupported)
    ⟨fun h => ⟨h.1, h.2.1, h.2.2⟩, fun h => ⟨h.waiting, h.updating, h.known⟩⟩

/-- No deferred init segment waits that has another type than the buffer of its track. -/
def Clear (s : Mse) : Prop :=
  ∀ t type, (s.track t).bufferType = some type → ∀ type' ∈ s.deferredTypes t, type' = type
  deriving Decidable

/-- The init segment is not deferred. -/
def Direct (s : Mse) : Prop := s.readyState = .opened ∧ s.streaming ≠ some false
  deriving Decidable

/-- The step sets no type too early or too late, and ends no stream too early. -/
def Orderly (s : Mse) (e : Browser × MseEvent) : Prop :=
  match e.2 with
  | .sourceOpen =>
    s.sourceOpenListener = true → s.readyState = .opened →
      ∀ t, Fits e.1 t (s.deferredTypes t) (s.track t)
  | .startStreaming =>
    s.useManagedMediaSource = true → s.readyState = .opened →
      ∀ t, Fits e.1 t (s.deferredTypes t) (s.track t)
  | .updateEnd => s.readyState = .opened → s.canAppendToManagedSource = true → s.Clear
  | .appendInit t data codec container =>
    data ≠ [] ∧ (s.Direct → Fits e.1 t [mimeTypeOf codec container] (s.track t) ∧
        (∀ type ∈ s.deferredTypes t, type = mimeTypeOf codec container) ∧
        (s.canAppendToManagedSource = true → ∀ t', t' ≠ t → ∀ type,
          (s.track t').bufferType = some type → ∀ type' ∈ s.deferredTypes t', type' = type))
  | .appendMedia _ data _ =>
    data ≠ [] ∧ (s.readyState = .opened → s.canAppendToManagedSource = true → s.Clear)
  | .endOfStream =>
    s.readyState = .opened → (s.track .video).updating = false →
      (s.track .audio).updating = false → s.hasPendingSegments = false
  | _ => True

instance (s : Mse) (e : Browser × MseEvent) : Decidable (s.Orderly e) := by
  obtain ⟨b, e⟩ := e
  unfold Orderly
  cases e <;> infer_instance

/-- What holds for a track whose deferred init segments have the types `deferred`. -/
structure TrackOk (deferred : List String) (x : TrackState) : Prop extends Received x where
  enabled : x.disabled = false
  mime : x.mimeType = x.bufferType
  latest : ∀ type, deferred.getLast?.or x.bufferType = some type → x.lastAnnounced = some type
  waiting : ∀ type, x.bufferType = some type → (∀ type' ∈ deferred, type' = type) →
    ∀ e ∈ x.pendingSegments, e.isMedia = true → e.announced = some type
  nonempty : ∀ e ∈ x.pendingSegments, e.data ≠ []

structure Inv (s : Mse) : Prop where
  tracks : ∀ t, TrackOk (s.deferredTypes t) (s.track t)
  ended : ∀ waiting ∈ s.signalled, waiting = []

theorem Inv.delivered {s : Mse} (h : s.Inv) : s.Delivered :=
  ⟨fun t => (h.tracks t).toReceived, h.ended⟩

theorem inv_created (managed : Bool) (config : CleanupConfig) : (created managed config).Inv where
  tracks _ :=
    { account := rfl
      typed := fun _ hr => absurd hr not_mem_nil
      enabled := rfl
      mime := rfl
      latest := fun _ h => nomatch h
      waiting := fun _ h => nomatch h
      nonempty := fun _ he => absurd he not_mem_nil }
  ended _ hw := absurd hw not_mem_nil

section Frame

variable {s : Mse} {t : Track} {x : TrackState}

@[simp] theorem setTrack_self (t : Track) (x : TrackState) (s : Mse) :
    (s.setTrack t x).track t = x := Function.update_self ..

theorem setTrack_ne {t' : Track} (h : t' ≠ t) (x : TrackState) (s : Mse) :
    (s.setTrack t x).track t' = s.track t' := Function.update_of_ne h ..

theorem Inv.congr {s' : Mse} (h : s.Inv) (htrack : s'.track = s.track)
    (hpending : s'.pendingSourceBufferInit = s.pendingSourceBufferInit)
    (hended : s'.signalled = s.signalled) : s'.Inv where
  tracks t := by
    unfold deferredTypes
    rw [htrack, hpending]
    exact h.tracks t
  ended := by
    rw [hended]
    exact h.ended

theorem Inv.setTrack (h : s.Inv) (hx : TrackOk (s.deferredTypes t) x) : (s.setTrack t x).Inv where
  tracks t' := by
    by_cases ht : t' = t
    · subst ht
      rw [setTrack_self]
      exact hx
    · rw [setTrack_ne ht]
      exact h.tracks t'
  ended := h.ended

theorem Clear.setTrack (h : s.Clear) (hx : x.bufferType = (s.track t).bufferType) :
    (s.setTrack t x).Clear := by
  intro t' type htype
  by_cases ht : t' = t
  · subst ht
    rw [setTrack_self, hx] at htype
    exact h t' type htype
  · rw [setTrack_ne ht] at htype
    exact h t' type htype

/-- Only the type of the SourceBuffer matters. -/
theorem TrackOk.congr {deferred : List String} {x' : TrackState} (h : TrackOk deferred x)
    (hx : x' = { x with
      sourceBuffer := x'.sourceBuffer, pendingRemoveRanges := x'.pendingRemoveRanges })
    (htype : x'.bufferType = x.bufferType) : TrackOk deferred x' := by
  rw [hx]
  have htype' : TrackState.bufferType { x with
      sourceBuffer := x'.sourceBuffer, pendingRemoveRanges := x'.pendingRemoveRanges } =
      x.bufferType := htype
  refine ⟨⟨h.account, h.typed⟩, h.enabled, ?_, ?_, ?_, h.nonempty⟩
  · exact h.mime.trans htype'.symm
  · rw [htype']
    exact h.latest
  · rw [htype']
    exact h.waiting

theorem bufferType_setUpdating (updating : Bool) (x : TrackState) :
    (x.setUpdating updating).bufferType = x.bufferType := by
  unfold TrackState.setUpdating TrackState.bufferType
  cases x.sourceBuffer <;> rfl

end Frame

section Appending

variable {s : Mse}

theorem removeRange_inv (h : s.Inv) (t : Track) : (s.removeRange t).Inv := by
  unfold removeRange
  dsimp only
  split
  · split
    · exact h
    · refine (h.setTrack ?_).congr rfl rfl rfl
      exact (h.tracks t).congr rfl (bufferType_setUpdating true (s.track t))
  · exact h

theorem doRemoveRanges_inv (h : s.Inv) : s.doRemoveRanges.Inv :=
  removeRange_inv (removeRange_inv h _) _

theorem Inv.appended (h : s.Inv) {t : Track} {sb : SourceBuffer} {entry : PendingSegment}
    {rest : List PendingSegment} (hclear : s.Clear) (hsb : (s.track t).sourceBuffer = some sb)
    (hpending : (s.track t).pendingSegments = entry :: rest) (offset : ℚ) :
    (s.setTrack t
      { s.track t with
        pendingSegments := rest
        sourceBuffer := some { sb with timestampOffset := offset, updating := true }
        received := (s.track t).received ++ [(entry, sb.mimeType)] }).Inv := by
  have hok := h.tracks t
  have htype : (s.track t).bufferType = some sb.mimeType := by
    unfold TrackState.bufferType
    rw [hsb]
    rfl
  have hrest : ∀ e ∈ rest, e ∈ (s.track t).pendingSegments := fun e he => by
    rw [hpending]
    exact mem_cons_of_mem _ he
  refine h.setTrack ⟨⟨?_, fun r hr hmedia => ?_⟩, hok.enabled, hok.mime.trans htype, fun type hl => ?_,
    fun type ht hall e he => ?_, fun e he => hok.nonempty e (hrest e he)⟩
  · rw [map_append, append_assoc, ← hok.account, hpending]
    rfl
  · rcases mem_append.1 hr with hr | hr
    · exact hok.typed r hr hmedia
    · obtain rfl := mem_singleton.1 hr
      refine hok.waiting sb.mimeType htype (hclear t _ htype) entry ?_ hmedia
      rw [hpending]
      exact mem_cons_self
  · exact hok.latest type (htype ▸ hl)
  · exact hok.waiting type (htype.trans ht) hall e (hrest e he)

variable (b : Browser)

theorem appendSegment_inv (h : s.Inv) (hclear : s.Clear) (t : Track) :
    (s.appendSegment b t).Inv ∧ (s.appendSegment b t).Clear := by
  unfold appendSegment
  dsimp only
  split
  · rename_i sb entry rest hsb hpending
    have hkeep : ∀ (offset : ℚ) (updating : Bool) (x : TrackState),
        x.sourceBuffer = some { sb with timestampOffset := offset, updating := updating } →
        x.bufferType = (s.track t).bufferType := by
      intro offset updating x hx
      unfold TrackState.bufferType
      rw [hx, hsb]
      rfl
    split
    · exact ⟨h, hclear⟩
    split
    · rename_i hempty
      refine absurd hempty ((h.tracks t).nonempty entry ?_)
      rw [hpending]
      exact mem_cons_self
    split
    · exact ⟨(h.appended hclear hsb hpending _).congr rfl rfl rfl,
        hclear.setTrack (hkeep _ true _ rfl)⟩
    · refine ⟨(h.setTrack ?_).congr rfl rfl rfl, hclear.setTrack (hkeep _ sb.updating _ rfl)⟩
      exact (h.tracks t).congr rfl (hkeep _ sb.updating _ rfl)
    · refine ⟨h.setTrack ?_, hclear.setTrack (hkeep _ sb.updating _ rfl)⟩
      exact (h.tracks t).congr rfl (hkeep _ sb.updating _ rfl)
  · exact ⟨h, hclear⟩

theorem tryAppendPending_inv (h : s.Inv)
    (hclear : s.readyState = .opened → s.canAppendToManagedSource = true → s.Clear) :
    (s.tryAppendPending b).Inv := by
  unfold tryAppendPending
  split
  · exact h
  · rename_i hgate
    rw [not_or, not_not, Bool.not_eq_false] at hgate
    split
    · exact doRemoveRanges_inv h
    · split
      · obtain ⟨h', hclear'⟩ := appendSegment_inv b h (hclear hgate.1 hgate.2) .video
        exact (appendSegment_inv b h' hclear' .audio).1
      · exact h

theorem cleanupTrack_inv (h : s.Inv) (t : Track) : (s.cleanupTrack b t).Inv := by
  unfold cleanupTrack
  dsimp only
  split
  · exact h
  · have hranges := h.setTrack (x := { s.track t with
      pendingRemoveRanges := (s.track t).pendingRemoveRanges ++ staleRanges b s.config t })
      ((h.tracks t).congr rfl rfl)
    split
    · exact doRemoveRanges_inv hranges
    · exact hranges

theorem tryApplyDuration_inv (h : s.Inv) : (s.tryApplyDuration b).Inv := by
  unfold tryApplyDuration
  split
  · exact h
  · split
    · exact h
    · split
      · exact h.congr rfl rfl rfl
      · split
        · exact h.congr rfl rfl rfl
        · exact h

theorem not_hasPendingSegments (h : s.hasPendingSegments = false) (t : Track) :
    (s.track t).pendingSegments = [] := by
  simp only [hasPendingSegments, decide_eq_false_iff_not, not_or, not_not] at h
  cases t with
  | video => exact h.1
  | audio => exact h.2

theorem endOfStream_inv (h : s.Inv)
    (hdrained : s.readyState = .opened → (s.track .video).updating = false →
      (s.track .audio).updating = false → s.hasPendingSegments = false) : s.endOfStream.Inv := by
  unfold endOfStream
  split
  · split
    · exact h.congr rfl rfl rfl
    · exact h
  · rename_i hopen
    split
    · exact h.congr rfl rfl rfl
    · rename_i hidle
      rw [not_or, Bool.not_eq_true, Bool.not_eq_true] at hidle
      have hempty := not_hasPendingSegments (hdrained (not_not.1 hopen) hidle.1 hidle.2)
      refine ⟨h.tracks, fun waiting hw => ?_⟩
      rcases mem_append.1 hw with hw | hw
      · exact h.ended waiting hw
      · rw [mem_singleton.1 hw, hempty, hempty]
        rfl

theorem tryApplyDuration_frame (s : Mse) : (s.tryApplyDuration b).readyState = s.readyState ∧
      (s.tryApplyDuration b).track = s.track ∧
      (s.tryApplyDuration b).pendingSourceBufferInit = s.pendingSourceBufferInit ∧
      (s.tryApplyDuration b).canAppendToManagedSource = s.canAppendToManagedSource := by
  unfold tryApplyDuration
  repeat' split
  all_goals exact ⟨rfl, rfl, rfl, rfl⟩

theorem onSourceBufferUpdateEnd_inv (h : s.Inv)
    (hclear : s.readyState = .opened → s.canAppendToManagedSource = true → s.Clear) :
    (s.onSourceBufferUpdateEnd b).Inv := by
  obtain ⟨hready, htrack, hpending, hgate⟩ := tryApplyDuration_frame b s
  have h' := tryApplyDuration_inv b h
  have hclear' : (s.tryApplyDuration b).readyState = .opened →
      (s.tryApplyDuration b).canAppendToManagedSource = true → (s.tryApplyDuration b).Clear := by
    intro hopen happend
    have hc := hclear (hready ▸ hopen) (hgate ▸ happend)
    unfold Clear deferredTypes at hc ⊢
    rwa [htrack, hpending]
  unfold onSourceBufferUpdateEnd
  dsimp only
  generalize s.tryApplyDuration b = s' at h' hclear'
  split
  · exact doRemoveRanges_inv h'
  · split
    · exact tryAppendPending_inv b h' hclear'
    · rename_i hnone
      split
      · exact endOfStream_inv h' fun _ _ _ => by simpa using hnone
      · split
        · exact h'.congr rfl rfl rfl
        · exact h'

end Appending

section Types

variable {s : Mse} {b : Browser}

theorem typesOf_concat (t : Track) (pendings : List PendingInit) (pending : PendingInit) :
    typesOf t (pendings ++ [pending]) = typesOf t pendings ++
      if pending.track = t then [mimeTypeOf pending.codec pending.container] else [] := by
  unfold typesOf
  rw [filter_append, map_append]
  by_cases h : pending.track = t <;> simp [h]

/-- What setting the type of a track to these, one after the other, makes of its record. -/
structure Retyped (types : List String) (x x' : TrackState) : Prop where
  rest : x' = { x with sourceBuffer := x'.sourceBuffer, mimeType := x'.mimeType }
  mime : x'.mimeType = x'.bufferType
  same : types = [] → x' = x
  last : ∀ type, types.getLast? = some type → ∀ type', x'.bufferType = some type' → type' = type
  updating : ∀ sb, x'.sourceBuffer = some sb → sb.updating = true → x.sourceBuffer = some sb

theorem createSourceBuffer_spec {t : Track} {type : String} (hopen : s.readyState = .opened)
    (henabled : (s.track t).disabled = false)
    (hmime : (s.track t).mimeType = (s.track t).bufferType)
    (hknown : b.setType t type ≠ .notSupported)
    (hupdating : ∀ sb, (s.track t).sourceBuffer = some sb → sb.updating = true →
      type = sb.mimeType) :
    ∃ x', s.createSourceBuffer b t type = s.setTrack t x' ∧ Retyped [type] (s.track t) x' := by
  have hkeep : s.setTrack t (s.track t) = s := by
    unfold setTrack
    rw [Function.update_eq_self]
  unfold createSourceBuffer
  dsimp only
  split
  · rename_i hstay
    refine ⟨s.track t, hkeep.symm, rfl, hmime, fun h => (nomatch h), fun T hT T' hT' => ?_,
      fun sb hsb _ => hsb⟩
    obtain rfl := Option.some.inj hT
    rcases hstay with hdisabled | hclosed | hsame
    · exact absurd (henabled.symm.trans hdisabled) Bool.false_ne_true
    · exact absurd hopen hclosed
    · exact (Option.some.inj (hsame.trans (hmime.trans hT'))).symm
  · rename_i hchange
    split
    · rename_i sb hsb
      split
      · -- the type would have to change while the buffer is updating
        rename_i hbusy
        refine absurd (.inr (.inr ?_)) hchange
        rw [hmime, TrackState.bufferType, hsb, hupdating sb hsb hbusy]
        rfl
      · rename_i hidle
        refine ⟨_, rfl, rfl, rfl, fun h => (nomatch h), fun T hT T' hT' => ?_, fun sb' hsb' hb => ?_⟩
        · obtain rfl := Option.some.inj hT
          exact (Option.some.inj hT').symm
        · obtain rfl := Option.some.inj hsb'
          exact absurd hb hidle
    · rename_i hnone
      split
      · refine ⟨_, rfl, rfl, rfl, fun h => (nomatch h), fun T hT T' hT' => ?_, fun sb' hsb' hb => ?_⟩
        · obtain rfl := Option.some.inj hT
          exact (Option.some.inj hT').symm
        · obtain rfl := Option.some.inj hsb'
          exact absurd hb Bool.false_ne_true
      · exact absurd ‹_› hknown
      · refine ⟨s.track t, hkeep.symm, rfl, hmime, fun h => (nomatch h), fun T _ T' hT' => ?_,
          fun sb hsb _ => hsb⟩
        rw [TrackState.bufferType, hnone] at hT'
        nomatch hT'

theorem flushLoop_spec (hopen : s.readyState = .opened)
    (hok : ∀ t, (s.track t).disabled = false ∧ (s.track t).mimeType = (s.track t).bufferType)
    (pendings : List PendingInit)
    (hfits : ∀ t, ∀ type ∈ typesOf t pendings, b.setType t type ≠ .notSupported ∧
      ∀ sb, (s.track t).sourceBuffer = some sb → sb.updating = true → type = sb.mimeType) :
    ∃ track, (pendings.foldl
        (fun s pending =>
          s.createSourceBuffer b pending.track (mimeTypeOf pending.codec pending.container)) s) =
        { s with track := track } ∧
      ∀ t, Retyped (typesOf t pendings) (s.track t) (track t) := by
  induction pendings using List.reverseRecOn with
  | nil =>
    exact ⟨s.track, rfl, fun t => ⟨rfl, (hok t).2, fun _ => rfl, fun _ h => (nomatch h),
      fun _ hsb _ => hsb⟩⟩
  | append_singleton pendings pending ih =>
    have hfits' : ∀ t, ∀ type ∈ typesOf t pendings, b.setType t type ≠ .notSupported ∧
        ∀ sb, (s.track t).sourceBuffer = some sb → sb.updating = true → type = sb.mimeType := by
      intro t type htype
      refine hfits t type ?_
      rw [typesOf_concat]
      exact mem_append_left _ htype
    obtain ⟨track, heq, hre⟩ := ih hfits'
    rw [foldl_append, heq]
    have hthis := hfits pending.track (mimeTypeOf pending.codec pending.container) (by
      rw [typesOf_concat, if_pos rfl]
      exact mem_append_right _ (mem_singleton_self _))
    have hself := hre pending.track
    obtain ⟨x', hset, hx'⟩ := createSourceBuffer_spec (s := { s with track := track }) hopen
      (by rw [show ({ s with track := track } : Mse).track = track from rfl, hself.rest]
          exact (hok pending.track).1)
      hself.mime hthis.1 (fun sb hsb hb => hthis.2 sb (hself.updating sb hsb hb) hb)
    refine ⟨Function.update track pending.track x', hset, fun t => ?_⟩
    rw [typesOf_concat]
    by_cases ht : pending.track = t
    · subst ht
      rw [if_pos rfl, Function.update_self]
      refine ⟨?_, hx'.mime, fun h => absurd h (by simp), fun type hl => ?_, fun sb hsb hb => ?_⟩
      · refine hx'.rest.trans ?_
        rw [show ({ s with track := track } : Mse).track pending.track = track pending.track from
          rfl, hself.rest]
      · rw [getLast?_concat] at hl
        exact hx'.last type hl
      · exact hself.updating sb (hx'.updating sb hsb hb) hb
    · rw [if_neg ht, append_nil, Function.update_of_ne (Ne.symm ht)]
      exact hre t

theorem TrackOk.retyped {types : List String} {t : Track} {x x' : TrackState}
    (h : TrackOk types x) (hre : Retyped types x x') (hfits : Fits b t types x) :
    TrackOk [] x' := by
  have hlast : ∀ type, x'.bufferType = some type → x.lastAnnounced = some type ∧
        ∀ e ∈ x.pendingSegments, e.isMedia = true → e.announced = some type := by
    intro type htype
    cases hl : types.getLast? with
    | none =>
      have hnil : types = [] := getLast?_eq_none_iff.1 hl
      rw [hre.same hnil] at htype
      exact ⟨h.latest type (by rw [hl]; exact htype),
        h.waiting type htype (by rw [hnil]; exact fun _ hm => absurd hm not_mem_nil)⟩
    | some last =>
      obtain rfl := hre.last last hl type htype
      exact ⟨h.latest type (by rw [hl]; rfl), hfits.waiting type hl⟩
  have hmime := hre.mime
  generalize hb : x'.bufferType = bufferType at hlast hmime
  rw [hre.rest] at hb ⊢
  exact ⟨⟨h.account, h.typed⟩, h.enabled, hmime.trans hb.symm,
    fun type htype => (hlast type (hb.symm.trans htype)).1,
    fun type htype _ => (hlast type (hb.symm.trans htype)).2, h.nonempty⟩

section

variable (h : s.Inv)
  (hfits : s.readyState = .opened → ∀ t, Fits b t (s.deferredTypes t) (s.track t))

include h hfits

theorem flush_inv : (s.flushPendingSourceBufferInit b).Inv ∧
      ((s.flushPendingSourceBufferInit b).readyState = .opened →
        (s.flushPendingSourceBufferInit b).Clear) := by
  unfold flushPendingSourceBufferInit
  split
  · rename_i hstay
    refine ⟨h, fun hopen t type _ type' htype' => ?_⟩
    rcases hstay with hnil | hclosed
    · unfold deferredTypes at htype'
      rw [hnil] at htype'
      exact absurd htype' not_mem_nil
    · exact absurd hopen hclosed
  · rename_i hflush
    rw [not_or, not_not] at hflush
    have hfits := hfits hflush.2
    obtain ⟨track, heq, hre⟩ := flushLoop_spec (s := { s with pendingSourceBufferInit := [] })
      (b := b) hflush.2 (fun t => ⟨(h.tracks t).enabled, (h.tracks t).mime⟩)
      s.pendingSourceBufferInit (fun t type htype => ⟨(hfits t).known type htype,
        fun sb hsb hb => (hfits t).updating sb hsb hb type htype⟩)
    rw [heq]
    exact ⟨⟨fun t => (h.tracks t).retyped (hre t) (hfits t), h.ended⟩,
      fun _ _ _ _ _ htype' => absurd htype' not_mem_nil⟩

theorem flushed_inv : ((s.flushPendingSourceBufferInit b).tryAppendPending b).Inv := by
  obtain ⟨hinv, hclear⟩ := flush_inv h hfits
  exact tryAppendPending_inv b hinv fun hopen _ => hclear hopen

end

end Types

section Queueing

variable {s : Mse}

variable {deferred : List String}

section

variable {x : TrackState} (h : TrackOk deferred x)

include h

theorem TrackOk.enqueueInit {entry : PendingSegment} {type : String}
    (hentry : entry.isMedia = false) (hannounced : entry.announced = some type)
    (hdata : entry.data ≠ []) : TrackOk (deferred ++ [type]) (x.enqueue entry) := by
  refine ⟨⟨?_, h.typed⟩, h.enabled, h.mime, fun T hT => ?_, fun T hT hall e he hmedia => ?_,
    fun e he => ?_⟩
  · show x.received.map Prod.fst ++ (x.pendingSegments ++ [entry]) = x.queued ++ [entry]
    rw [← append_assoc, h.account]
  · rw [getLast?_concat] at hT
    exact hannounced.trans hT
  · rcases mem_append.1 he with he | he
    · exact h.waiting T hT (fun T' hT' => hall T' (mem_append_left _ hT')) e he hmedia
    · rw [mem_singleton.1 he, hentry] at hmedia
      exact absurd hmedia Bool.false_ne_true
  · rcases mem_append.1 he with he | he
    · exact h.nonempty e he
    · rw [mem_singleton.1 he]
      exact hdata

theorem TrackOk.enqueueMedia {data : List UInt8} (hdata : data ≠ []) (timestampOffset : Option ℚ) :
    TrackOk deferred (x.enqueue ⟨data, timestampOffset, true, x.lastAnnounced⟩) := by
  refine ⟨⟨?_, h.typed⟩, h.enabled, h.mime, h.latest, fun T hT hall e he hmedia => ?_,
    fun e he => ?_⟩
  · show x.received.map Prod.fst ++ (x.pendingSegments ++ [_]) = x.queued ++ [_]
    rw [← append_assoc, h.account]
  · rcases mem_append.1 he with he | he
    · exact h.waiting T hT hall e he hmedia
    · rw [mem_singleton.1 he]
      refine h.latest T ?_
      have hT : x.bufferType = some T := hT
      cases hl : deferred.getLast? with
      | none => exact hT
      | some last =>
        rw [hall last (mem_of_getLast? hl)]
        rfl
  · rcases mem_append.1 he with he | he
    · exact h.nonempty e he
    · rw [mem_singleton.1 he]
      exact hdata

theorem TrackOk.enqueueDirect {b : Browser} {t : Track} {x' : TrackState} {type : String}
    {data : List UInt8} (hre : Retyped [type] x x') (hfits : Fits b t [type] x)
    (hall : ∀ T ∈ deferred, T = type) (hdata : data ≠ []) :
    TrackOk deferred (x'.enqueue ⟨data, none, false, some type⟩) := by
  have hbuffer : ∀ T, x'.bufferType = some T → T = type := hre.last type rfl
  have hmime := hre.mime
  generalize hb : x'.bufferType = bufferType at hbuffer hmime
  rw [hre.rest] at hb ⊢
  refine ⟨⟨?_, h.typed⟩, h.enabled, hmime.trans hb.symm, fun T hT => ?_,
    fun T hT _ e he hmedia => ?_, fun e he => ?_⟩
  · show x.received.map Prod.fst ++ (x.pendingSegments ++ [_]) = x.queued ++ [_]
    rw [← append_assoc, h.account]
  · show some type = some T
    have hT : deferred.getLast?.or _ = some T := hT
    cases hl : deferred.getLast? with
    | none =>
      rw [hl] at hT
      rw [hbuffer T (hb.symm.trans hT)]
    | some last =>
      rw [hl] at hT
      obtain rfl := Option.some.inj hT
      rw [hall last (mem_of_getLast? hl)]
  · obtain rfl := hbuffer T (hb.symm.trans hT)
    rcases mem_append.1 he with he | he
    · exact hfits.waiting T rfl e he hmedia
    · rw [mem_singleton.1 he] at hmedia
      exact absurd hmedia Bool.false_ne_true
  · rcases mem_append.1 he with he | he
    · exact h.nonempty e he
    · rw [mem_singleton.1 he]
      exact hdata

end

theorem Inv.deferInit (h : s.Inv) {t : Track} {data : List UInt8} (codec container : String)
    (hdata : data ≠ []) :
    { s.setTrack t ((s.track t).enqueue
        ⟨data, none, false, some (mimeTypeOf codec container)⟩) with
      pendingSourceBufferInit :=
        s.pendingSourceBufferInit ++ [PendingInit.mk t codec container] }.Inv where
  tracks t' := by
    show TrackOk (typesOf t' (s.pendingSourceBufferInit ++ [PendingInit.mk t codec container]))
      ((s.setTrack t _).track t')
    rw [typesOf_concat]
    by_cases ht : t' = t
    · subst ht
      rw [if_pos rfl, setTrack_self]
      exact (h.tracks t').enqueueInit rfl rfl hdata
    · rw [if_neg (Ne.symm ht), append_nil, setTrack_ne ht]
      exact h.tracks t'
  ended := h.ended

theorem appendInit_inv (h : s.Inv) (e : Browser) (t : Track) {data : List UInt8}
    (codec container : String)
    (hok : s.Orderly (e, .appendInit t data codec container)) :
    (s.appendInit e t data codec container).Inv := by
  obtain ⟨hdata, hdirect⟩ := hok
  have henabled := (h.tracks t).enabled
  unfold appendInit
  dsimp only
  rw [if_neg (by rw [henabled]; exact Bool.false_ne_true)]
  split
  · exact h.deferInit codec container hdata
  · rename_i hgate
    rw [not_or, not_not] at hgate
    obtain ⟨hfits, hall, hothers⟩ := hdirect hgate
    obtain ⟨x', heq, hre⟩ := createSourceBuffer_spec hgate.1 henabled (h.tracks t).mime
      (hfits.known _ (mem_singleton_self _))
      (fun sb hsb hb => hfits.updating sb hsb hb _ (mem_singleton_self _))
    rw [heq, setTrack_self]
    have hx' : x'.disabled = false := by
      rw [hre.rest]
      exact henabled
    rw [if_neg (by rw [hx']; exact Bool.false_ne_true)]
    have htwice : ∀ y : TrackState, (s.setTrack t x').setTrack t y = s.setTrack t y := by
      intro y
      unfold setTrack
      rw [Function.update_idem]
    rw [htwice]
    refine tryAppendPending_inv e (h.setTrack ((h.tracks t).enqueueDirect hre hfits hall hdata)) ?_
    intro _ happend t' T hT
    by_cases ht : t' = t
    · subst ht
      rw [setTrack_self] at hT
      obtain rfl := hre.last _ rfl T hT
      exact hall
    · rw [setTrack_ne ht] at hT
      exact hothers happend t' ht T hT

theorem removeRange_gate (t : Track) (s : Mse) :
    (s.removeRange t).canAppendToManagedSource = s.canAppendToManagedSource := by
  unfold removeRange
  dsimp only
  repeat' split
  all_goals rfl

theorem cleanupTrack_gate (b : Browser) (t : Track) (s : Mse) :
    (s.cleanupTrack b t).canAppendToManagedSource = s.canAppendToManagedSource := by
  unfold cleanupTrack
  dsimp only
  split
  · rfl
  · split
    · unfold doRemoveRanges
      rw [removeRange_gate, removeRange_gate]
      rfl
    · rfl

theorem Clear.removeRange (h : s.Clear) (t : Track) : (s.removeRange t).Clear := by
  unfold Mse.removeRange
  dsimp only
  split
  · split
    · exact h
    · exact h.setTrack (bufferType_setUpdating true (s.track t))
  · exact h

theorem Clear.cleanupTrack (b : Browser) (h : s.Clear) (t : Track) : (s.cleanupTrack b t).Clear := by
  unfold Mse.cleanupTrack
  dsimp only
  split
  · exact h
  · have hranges := h.setTrack (t := t) (x := { s.track t with
      pendingRemoveRanges := (s.track t).pendingRemoveRanges ++ staleRanges b s.config t }) rfl
    split
    · exact (hranges.removeRange _).removeRange _
    · exact hranges

theorem appendMedia_inv (h : s.Inv) (b : Browser) (t : Track) {data : List UInt8}
    (timestampOffset : Option ℚ) (hok : s.Orderly (b, .appendMedia t data timestampOffset)) :
    (s.appendMedia b t data timestampOffset).Inv := by
  obtain ⟨hdata, hclear⟩ := hok
  have hqueued := h.setTrack ((h.tracks t).enqueueMedia hdata timestampOffset)
  unfold appendMedia
  dsimp only
  rw [if_neg (by rw [(h.tracks t).enabled]; exact Bool.false_ne_true)]
  split
  · exact hqueued
  · rename_i hopen
    have hclear' : s.canAppendToManagedSource = true → (s.setTrack t ((s.track t).enqueue
        ⟨data, timestampOffset, true, (s.track t).lastAnnounced⟩)).Clear := fun happend =>
      (hclear (not_not.1 hopen) happend).setTrack rfl
    split
    · refine tryAppendPending_inv b (cleanupTrack_inv b (cleanupTrack_inv b hqueued _) _) ?_
      intro _ happend
      unfold doCleanupSourceBuffer at happend
      rw [cleanupTrack_gate, cleanupTrack_gate] at happend
      exact ((hclear' happend).cleanupTrack b _).cleanupTrack b _
    · exact tryAppendPending_inv b hqueued fun _ happend => hclear' happend

theorem sourceClose_inv (h : s.Inv) : s.sourceClose.Inv where
  tracks t := by
    have hok := h.tracks t
    refine ⟨⟨hok.account, hok.typed⟩, hok.enabled, rfl, fun type hl => hok.latest type ?_,
      fun type ht => (nomatch ht), hok.nonempty⟩
    have hl : (s.deferredTypes t).getLast?.or none = some type := hl
    cases hlast : (s.deferredTypes t).getLast? with
    | none =>
      rw [hlast] at hl
      nomatch hl
    | some last =>
      rw [hlast] at hl
      exact hl
  ended := h.ended

theorem step_inv (s : Mse) (e : Browser × MseEvent) (h : s.Inv) (hok : s.Orderly e) :
    (s.step e).Inv := by
  obtain ⟨b, e⟩ := e
  cases e with
  | «open» =>
    unfold step
    dsimp only
    split
    · exact h.congr rfl rfl rfl
    · exact h
  | opened =>
    unfold step
    dsimp only
    split
    · exact h.congr rfl rfl rfl
    · exact h
  | sourceOpen =>
    unfold step
    dsimp only
    split
    · exact flushed_inv (h.congr rfl rfl rfl) (hok ‹_›)
    · exact h
  | sourceClose => exact sourceClose_inv h
  | streaming on =>
    unfold step
    dsimp only
    split
    · exact h.congr rfl rfl rfl
    · exact h
  | startStreaming =>
    unfold step
    dsimp only
    split
    · exact flushed_inv h (hok ‹_›)
    · exact h
  | updated t =>
    exact h.setTrack ((h.tracks t).congr rfl (bufferType_setUpdating false (s.track t)))
  | updateEnd => exact onSourceBufferUpdateEnd_inv b h hok
  | appendInit t data codec container => exact appendInit_inv h b t codec container hok
  | appendMedia t data timestampOffset => exact appendMedia_inv h b t timestampOffset hok
  | setDuration seconds =>
    exact tryApplyDuration_inv (s := { s with pendingDuration := some seconds }) b
      (h.congr rfl rfl rfl)
  | endOfStream => exact endOfStream_inv h hok

end Queueing

/-- In a run of orderly steps the SourceBuffers receive the queued segments in order, each media
    segment under the type announced before it, and no stream ends while segments wait. -/
theorem orderly_delivered (managed : Bool) (config : CleanupConfig)
    (es : List (Browser × MseEvent)) (h : Along step Orderly (created managed config) es) :
    (run step (created managed config) es).Delivered :=
  (run_invariant step_inv (inv_created managed config) h).delivered

/-- A browser that takes everything. -/
def willing : Browser := ⟨fun _ => .ok, fun _ _ => .ok, true, fun _ => [], 0⟩

def full : Browser := { willing with appendBuffer := fun _ => .quotaExceeded }

def opening : List (Browser × MseEvent) :=
  [(willing, .open), (willing, .opened), (willing, .sourceOpen),
    (willing, .appendInit .video [1] "avc1" "video/mp4")]

def settle : List (Browser × MseEvent) := [(willing, .updated .video), (willing, .updateEnd)]

/-- The type changes when everything was appended, and the stream ends when all is drained. -/
theorem orderly_delivered_change : (run step (created false ⟨30, 10⟩) (opening ++ settle ++
      [(full, .appendMedia .video [2] none), (willing, .updateEnd)] ++ settle ++
      [(willing, .appendInit .video [3] "hvc1" "video/mp4")] ++ settle ++
      [(willing, .appendMedia .video [4] none), (willing, .endOfStream)] ++ settle)).Delivered :=
  orderly_delivered false ⟨30, 10⟩ _ (by decide +kernel)

/-- An init segment of a new type while the last one is appended: its media get the old type.
    A segment that did not fit into the buffer: the stream ends without it. -/
theorem wrong_type_early_end : ¬ (run step (created false ⟨30, 10⟩) (opening ++
      [(willing, .appendInit .video [3] "hvc1" "video/mp4")] ++ settle ++ settle ++
      [(willing, .appendMedia .video [4] none)])).Delivered ∧
    ¬ (run step (created false ⟨30, 10⟩) (opening ++ settle ++
      [(full, .appendMedia .video [2] none), (willing, .endOfStream)])).Delivered := by
  decide +kernel

end Mse

end Apackage.Rtp2httpd.Player
