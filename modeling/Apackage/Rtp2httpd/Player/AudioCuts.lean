import Apackage.Lib.Run
import Apackage.Rtp2httpd.Player.AudioPayload

/-
  Audio frames over the borders of PES packets (`ts-demuxer.ts`, `aac.ts`, `ac3.ts`).

  A row of frames is cut into payloads anywhere. The frames come out whole, as long as no payload
  ends less than 8 bytes behind the start of a frame: there the search for a sync word gives up,
  and since it does not count as incomplete data, what is left of the payload is lost
  (`lost_tail`).
-/

namespace Apackage.Rtp2httpd.Player

open List Option Lib.FrameScan Lib.BitSyntax Lib.Run

/-! ## Well-formed frames -/

/-- The bytes are one frame with the given metadata and data: a sync word, a header without
    reserved values and the length that it states. -/
inductive WellFormed : AudioFormat → Bytes → AudioFrame → Prop
  | adts {f : Bytes} {rate : ℕ} :
    aacADTSParser.isSync f = true → adtsLayer f = 0 → adtsFrameLength f = f.length →
      adtsHeaderLength f ≤ f.length →
      mpeg4SamplingFrequencies[adtsSamplingFreqIndex f]? = some rate →
      WellFormed .adts f ⟨adtsMetadata f, f.drop (adtsHeaderLength f)⟩
  | ac3 {f : Bytes} {rate : ℕ} :
    ac3Sync f = true → ac3SamplingFrequency f = some rate → ac3FrameSize f = some f.length →
      WellFormed .ac3 f ⟨ac3Metadata rate f, f⟩
  | eac3 {f : Bytes} {metadata : AudioMetadata} : ac3Sync f = true → 6 ≤ f.length →
      eac3Fields (ExpGolomb.bytesBits (f.drop 2)) = (f.length, some metadata) →
      WellFormed .eac3 f ⟨metadata, f⟩

/-- A frame as coded. -/
structure CodedFrame (format : AudioFormat) where
  bytes : Bytes
  frame : AudioFrame
  wellFormed : WellFormed format bytes frame

/-- The two have the same first `n` bytes. -/
def Agree (n : ℕ) (data data' : Bytes) : Prop := ∀ i < n, dataByte data i = dataByte data' i

variable {f : Bytes}

theorem agree_append {n : ℕ} (h : n ≤ f.length) (later : Bytes) : Agree n (f ++ later) f := by
  intro i hi
  rw [dataByte, dataByte, getD_eq_getElem?_getD, getD_eq_getElem?_getD,
    getElem?_append_left (by omega)]

theorem adts_agree {data data' : Bytes} (h : Agree 7 data data') :
    aacADTSParser.isSync data = aacADTSParser.isSync data' ∧ adtsLayer data = adtsLayer data' ∧
      adtsFrameLength data = adtsFrameLength data' ∧
      adtsHeaderLength data = adtsHeaderLength data' ∧ adtsMetadata data = adtsMetadata data' := by
  have h0 := h 0 (by decide)
  have h1 := h 1 (by decide)
  have h2 := h 2 (by decide)
  have h3 := h 3 (by decide)
  have h4 := h 4 (by decide)
  have h5 := h 5 (by decide)
  simp [aacADTSParser, adtsLayer, adtsFrameLength, adtsHeaderLength, adtsMetadata,
    adtsSamplingFreqIndex, h0, h1, h2, h3, h4, h5, and_self]

theorem ac3_agree {data data' : Bytes} (h : Agree 8 data data') :
    ac3Sync data = ac3Sync data' ∧ ac3SamplingFrequency data = ac3SamplingFrequency data' ∧
      ac3FrameSize data = ac3FrameSize data' ∧
      ∀ rate, ac3Metadata rate data = ac3Metadata rate data' := by
  have h0 := h 0 (by decide)
  have h1 := h 1 (by decide)
  have h4 := h 4 (by decide)
  have h5 := h 5 (by decide)
  have h6 := h 6 (by decide)
  have h7 := h 7 (by decide)
  simp [ac3Sync, ac3SamplingFrequency, ac3FrameSize, ac3Metadata, ac3ChannelMode, h0, h1, h4, h5,
    h6, h7, and_self, implies_true]

theorem eac3Fields_append {bs : List Bool} (h : 29 ≤ bs.length) (later : List Bool) :
    eac3Fields (bs ++ later) = eac3Fields bs := by
  simp [eac3Fields, field_append (show 5 + 11 ≤ bs.length by omega), field_append (show 16 + 2 ≤
    bs.length by omega), field_append (show 18 + 2 ≤ bs.length by omega), field_append (show 20 + 3
    ≤ bs.length by omega), field_append (show 23 + 1 ≤ bs.length by omega), field_append (show 24 +
    5 ≤ bs.length by omega)]

theorem eac3Fields_drop_append (h : 6 ≤ f.length) (later : Bytes) :
    eac3Fields (ExpGolomb.bytesBits ((f ++ later).drop 2)) =
      eac3Fields (ExpGolomb.bytesBits (f.drop 2)) := by
  rw [drop_append_of_le_length (by omega), ExpGolomb.bytesBits_append]
  refine eac3Fields_append ?_ _
  rw [ExpGolomb.length_bytesBits, length_drop]
  omega

variable {a : AudioFrame}

theorem adts_framed (h : WellFormed .adts f a) : Framed aacADTSParser f a := by
  cases h with
  | adts hsync hlayer hlength hheader hrate =>
    have hseven : 7 ≤ f.length := by
      rw [adtsHeaderLength] at hheader
      split_ifs at hheader <;> omega
    have hpart : ∀ front, front <+: f → aacADTSParser.window ≤ front.length → Agree 7 f front := by
      rintro front ⟨later, rfl⟩ hwindow
      exact agree_append (Nat.le_of_succ_le hwindow) later
    refine ⟨ne_nil_of_length_pos (by omega), fun later _ => ?_, fun prev later _ => ?_,
      fun front hfront hwindow => ?_, fun prev front hfront hne hwindow => ?_⟩
    · rw [(adts_agree (agree_append hseven later)).1, hsync]
    · obtain ⟨-, hlayer', hlength', hheader', hmeta'⟩ := adts_agree (agree_append hseven later)
      show adtsScan prev (f ++ later) = _
      rw [adtsScan, hlayer', hlength', hheader', hmeta', hlayer, hlength, take_left,
        if_neg (by rw [length_append]; omega), if_neg (by decide)]
    · rw [← (adts_agree (hpart front hfront hwindow)).1, hsync]
    · obtain ⟨-, -, hlength', -, -⟩ := adts_agree (hpart front hfront hwindow)
      show adtsScan prev front = _
      rw [adtsScan, ← hlength', hlength, if_pos (part_length_lt hfront hne)]

theorem ac3_framed (h : WellFormed .ac3 f a) : Framed ac3Parser f a := by
  cases h with
  | ac3 hsync hrate hsize =>
    have height : 8 ≤ f.length := by
      have hrow : ∀ row ∈ frameSizeCodeTable, ∀ words ∈ row, 4 ≤ words := by decide
      rw [ac3FrameSize, map_eq_some_iff] at hsize
      obtain ⟨words, hwords, hbytes⟩ := hsize
      obtain ⟨row, htable, hcode⟩ := bind_eq_some_iff.1 hwords
      have hfour := hrow row (mem_of_getElem? htable) words (mem_of_getElem? hcode)
      omega
    have hpart : ∀ front, front <+: f → ac3Parser.window ≤ front.length → Agree 8 f front := by
      rintro front ⟨later, rfl⟩ hwindow
      exact agree_append hwindow later
    refine ⟨ne_nil_of_length_pos (by omega), fun later _ => ?_, fun prev later _ => ?_,
      fun front hfront hwindow => ?_, fun prev front hfront hne hwindow => ?_⟩
    · exact (ac3_agree (agree_append height later)).1.trans hsync
    · obtain ⟨-, hrate', hsize', hmeta'⟩ := ac3_agree (agree_append height later)
      show ac3Scan prev (f ++ later) = _
      rw [ac3Scan, hrate', hsize', hrate, hsize]
      simp only
      rw [hmeta', take_left, if_neg (by rw [length_append]; omega)]
    · exact (ac3_agree (hpart front hfront hwindow)).1.symm.trans hsync
    · obtain ⟨-, hrate', hsize', -⟩ := ac3_agree (hpart front hfront hwindow)
      show ac3Scan prev front = _
      rw [ac3Scan, ← hrate', ← hsize', hrate, hsize]
      simp only
      rw [if_pos (part_length_lt hfront hne)]

theorem eac3_framed (h : WellFormed .eac3 f a) : Framed eac3Parser f a := by
  cases h with
  | eac3 hsync hsix hfields =>
    have hsync' : ∀ {data data' : Bytes}, Agree 2 data data' → ac3Sync data = ac3Sync data' := by
      intro data data' hagree
      rw [ac3Sync, ac3Sync, hagree 0 (by decide), hagree 1 (by decide)]
    refine ⟨ne_nil_of_length_pos (by omega), fun later _ => ?_, fun prev later hwindow => ?_,
      fun front hfront hwindow => ?_, fun prev front hfront hne hwindow => ?_⟩
    · exact (hsync' (agree_append (by omega) later)).trans hsync
    · show eac3Scan prev (f ++ later) = _
      rw [eac3Scan_eq hwindow, eac3Fields_drop_append hsix, hfields]
      simp only
      rw [take_left, if_neg (by rw [length_append]; omega)]
    · obtain ⟨later, rfl⟩ := hfront
      have height : 8 ≤ front.length := hwindow
      exact (hsync' (agree_append (by omega) later)).symm.trans hsync
    · obtain ⟨later, rfl⟩ := hfront
      have height : 8 ≤ front.length := hwindow
      rw [eac3Fields_drop_append (by omega)] at hfields
      show eac3Scan prev front = _
      rw [eac3Scan_eq hwindow, hfields]
      simp only
      rw [if_pos (part_length_lt (prefix_append front later) hne)]

theorem CodedFrame.framed {format : AudioFormat} (f : CodedFrame format) :
    Framed format.parser f.bytes f.frame := by
  obtain ⟨bytes, frame, h⟩ := f
  cases format with
  | adts => exact adts_framed h
  | loas => cases h
  | ac3 => exact ac3_framed h
  | eac3 => exact eac3_framed h

/-! ## Runs -/

structure PesPayload where
  bytes : Bytes
  pts : Option ℕ

def AudioState.step (format : AudioFormat) (s : Option AudioState) (p : PesPayload) :
    Option AudioState :=
  s.bind fun s => parsePayload format s p.bytes p.pts

section Rows

variable {format : AudioFormat}

def rowBytes (frames : List (CodedFrame format)) : Bytes := (frames.map (·.bytes)).flatten

def sentBytes (payloads : List PesPayload) : Bytes := (payloads.map (·.bytes)).flatten

def CodedFrame.duration (f : CodedFrame format) : ℚ := f.frame.metadata.refSampleDuration.getD 0

/-- When what follows the frames is due, if the first one is at `t₀`. -/
def timeAfter (t₀ : ℚ) (frames : List (CodedFrame format)) : ℚ :=
  t₀ + (frames.map CodedFrame.duration).sum

/-- No payload ends less than 8 bytes, the window of the search, behind the start of a frame. -/
def TailsVisible (frames : List (CodedFrame format)) (payloads : List PesPayload) : Prop :=
  ∀ before after, payloads = before ++ after →
    Visible format.parser.window (frames.map (·.bytes)) (sentBytes before).length

variable {frames : List (CodedFrame format)}

theorem tailsVisible_iff {payloads : List PesPayload} :
    TailsVisible frames payloads ↔ ∀ k < payloads.length + 1,
      Visible format.parser.window (frames.map (·.bytes)) (sentBytes (payloads.take k)).length := by
  constructor
  · intro h k _
    exact h (payloads.take k) (payloads.drop k) (take_append_drop k payloads).symm
  · rintro h before after rfl
    have hk := h before.length (by rw [length_append]; omega)
    rwa [take_left] at hk

instance (frames : List (CodedFrame format)) (payloads : List PesPayload) :
    Decidable (TailsVisible frames payloads) := decidable_of_iff _ tailsVisible_iff.symm

/-- A payload without a timestamp comes after a frame that has one. -/
def Timed (s : Option AudioState) (p : PesPayload) : Prop :=
  ∀ s', s = some s' → p.pts = none → s'.audioLastSamplePts ≠ none
  deriving Decidable

/-- A payload that an unfinished frame is carried into comes after a frame that has a timestamp. -/
def CarriedTimed (format : AudioFormat) (s : Option AudioState) (_ : PesPayload) : Prop :=
  ∀ s', s = some s' → s'.lastIncompleteData format.codec ≠ none → s'.audioLastSamplePts ≠ none
  deriving Decidable

/-- The frames have one sampling frequency, where the metadata does not follow them. -/
def OneRate (frames : List (CodedFrame format)) : Prop :=
  format.codec = .aac → ∀ f ∈ frames, ∀ g ∈ frames,
    f.frame.metadata.samplingFrequency = g.frame.metadata.samplingFrequency

/-- A timestamp is that of the first frame that starts in the payload, up to a millisecond. -/
def Consistent (t₀ : ℚ) (frames : List (CodedFrame format)) (payloads : List PesPayload) : Prop :=
  ∀ before p after, payloads = before ++ p :: after → ∀ pts, p.pts = some pts →
    ∃ done f todo, frames = done ++ f :: todo ∧ (sentBytes before).length ≤ (rowBytes done).length ∧
      (rowBytes done).length < (sentBytes before).length + p.bytes.length ∧
      (∀ earlier g later, frames = earlier ++ g :: later →
        (sentBytes before).length ≤ (rowBytes earlier).length →
        (rowBytes done).length ≤ (rowBytes earlier).length) ∧
      |ptsMs pts - timeAfter t₀ done| ≤ 1

/-! ## The frames -/

theorem sentBytes_append (payloads more : List PesPayload) :
    sentBytes (payloads ++ more) = sentBytes payloads ++ sentBytes more := by
  rw [sentBytes, map_append, flatten_append]
  rfl

theorem sentBytes_singleton (p : PesPayload) : sentBytes [p] = p.bytes := by
  rw [sentBytes, map_singleton, flatten_singleton]

theorem rowBytes_append (done more : List (CodedFrame format)) :
    rowBytes (done ++ more) = rowBytes done ++ rowBytes more := by
  rw [rowBytes, map_append, flatten_append]
  rfl

variable (f : CodedFrame format)

theorem rowBytes_cons (frames : List (CodedFrame format)) :
    rowBytes (f :: frames) = f.bytes ++ rowBytes frames := rfl

theorem CodedFrame.codec : f.frame.metadata.codec = format.codec := by
  obtain ⟨bytes, frame, h⟩ := f
  cases h with
  | adts => rfl
  | ac3 => rfl
  | eac3 _ _ hfields =>
    rw [eac3Fields] at hfields
    have hmetadata := (Prod.mk.inj hfields).2
    split at hmetadata
    · obtain rfl := some.inj hmetadata
      rfl
    · cases hmetadata

/-- The metadata is that of one of the frames. -/
structure Described (frames : List (CodedFrame format)) (s : AudioState) : Prop where
  metadata : s.audioInitSegmentDispatched = true →
    ∃ g ∈ frames, s.audioMetadata = some g.frame.metadata
  known : s.audioLastSamplePts ≠ none → s.audioInitSegmentDispatched = true

/-- The frames that are whole in `sent` are pushed, and what there is of the next one is kept. -/
structure Progress (frames : List (CodedFrame format)) (sent : Bytes) (s : AudioState)
    (done todo : List (CodedFrame format)) (front : Bytes) : Prop where
  split : frames = done ++ todo
  sent : sent = rowBytes done ++ front
  ready : s.waitsForVideo = false
  left : s.lastIncompleteData format.codec = if front = [] then none else some front
  part : front = [] ∨ ∃ f rest, todo = f :: rest ∧ front <+: f.bytes ∧ front ≠ f.bytes
  units : s.samples.map (·.unit) = done.map (·.frame.data)
  described : Described frames s

theorem progress_opened (frames : List (CodedFrame format)) :
    Progress frames [] AudioState.opened [] frames [] :=
  ⟨rfl, rfl, rfl, rfl, .inl rfl, rfl, fun h => absurd h Bool.false_ne_true, fun h => absurd rfl h⟩

variable {s : AudioState}

theorem nextMetadata_mem (h : Described frames s) {f : CodedFrame format} (hf : f ∈ frames) :
    ∃ g ∈ frames, nextMetadata format s f.frame = some g.frame.metadata ∧
      (g = f ∨ format.codec = .aac) := by
  rw [nextMetadata]
  cases hdispatched : s.audioInitSegmentDispatched with
  | false => exact ⟨f, hf, rfl, .inl rfl⟩
  | true =>
    obtain ⟨g, hg, hmetadata⟩ := h.metadata hdispatched
    simp only [Bool.not_true, Bool.false_eq_true, if_false]
    split_ifs with hchange
    · exact ⟨f, hf, rfl, .inl rfl⟩
    · by_cases hcodec : format.codec = .aac
      · exact ⟨g, hg, hmetadata, .inr hcodec⟩
      · exact ⟨f, hf, not_not.1 fun hne => hchange ⟨hne, hcodec⟩, .inl rfl⟩

variable {more : List (CodedFrame format)} {q : Pushing}

section

variable {p : Pushing} (h : Described frames p.state)
  (hlast : p.lastSamplePts ≠ none → p.state.audioInitSegmentDispatched = true)

include h hlast

theorem foldl_pushFrame (hmore : ∀ f ∈ more, f ∈ frames)
    (hq : (more.map (·.frame)).foldl (pushFrame format) p = q) :
    q.state.waitsForVideo = p.state.waitsForVideo ∧
      q.state.lastIncompleteData = p.state.lastIncompleteData ∧
      q.state.samples.map (·.unit) = p.state.samples.map (·.unit) ++ more.map (·.frame.data) ∧
      Described frames q.state ∧
      (q.lastSamplePts ≠ none → q.state.audioInitSegmentDispatched = true) := by
  induction more generalizing p with
  | nil =>
    subst hq
    exact ⟨rfl, rfl, (append_nil _).symm, h, hlast⟩
  | cons f more ih =>
    obtain ⟨g, hg, hmetadata, -⟩ := nextMetadata_mem h (hmore f mem_cons_self)
    have hnext : Described frames (pushFrame format p f.frame).state :=
      ⟨fun _ => ⟨g, hg, hmetadata⟩, fun _ => rfl⟩
    obtain ⟨hwaits, hleft, hunits, hrest⟩ :=
      ih hnext (fun _ => rfl) (fun f hf => hmore f (mem_cons_of_mem _ hf)) hq
    refine ⟨hwaits, hleft, ?_, hrest⟩
    rw [hunits, pushFrame, map_append, append_assoc]
    rfl

theorem described_finish (left : Option Bytes) :
    Described frames (finishPayload format p left) := by
  refine ⟨h.metadata, fun hne => ?_⟩
  by_cases hnone : p.lastSamplePts = none
  · rw [finishPayload, hnone] at hne
    exact h.known hne
  · exact hlast hnone

end

variable {done todo : List (CodedFrame format)}

theorem parsePayload_progress {frames : List (CodedFrame format)} {sent front : Bytes}
    (h : Progress frames sent s done todo front) {payload : Bytes}
    (hsent : sent ++ payload <+: rowBytes frames)
    (hvisible : Visible format.parser.window (frames.map (·.bytes)) (sent ++ payload).length)
    {pts : Option ℕ} {base : Option ℚ} (hbase : basePtsMs format s pts = some base) :
    ∃ more rest front' q, todo = more ++ rest ∧
      (more.map (·.frame)).foldl (pushFrame format) ⟨s, base, none⟩ = q ∧
      parsePayload format s payload pts =
        some (finishPayload format q (if front' = [] then none else some front')) ∧
      Progress frames (sent ++ payload)
        (finishPayload format q (if front' = [] then none else some front'))
        (done ++ more) rest front' := by
  have hjoined : joinedData (s.lastIncompleteData format.codec) payload = front ++ payload := by
    rw [joinedData, h.left]
    split_ifs with hnil
    · rw [hnil]
      rfl
    · rfl
  have hdata : front ++ payload <+: (todo.map (·.bytes)).flatten := by
    rw [h.sent, h.split, rowBytes_append, append_assoc, prefix_append_right_inj] at hsent
    exact hsent
  have htail : Visible format.parser.window (todo.map (·.bytes)) (front ++ payload).length := by
    rw [h.split, h.sent, map_append, append_assoc, length_append] at hvisible
    exact hvisible.tail
  obtain ⟨more, rest, front', hsplit, hlast, hpart, hparse⟩ :=
    @parse_frames _ _ format.parser _ _ CodedFrame.frame _ (fun f _ => f.framed) _
      s.loasPreviousFrame _ hdata htail le_rfl
  have hmore : ∀ f ∈ more, f ∈ frames := by
    intro f hf
    rw [h.split, hsplit]
    exact mem_append_right _ (mem_append_left _ hf)
  obtain ⟨q, hq⟩ : ∃ q, (more.map (·.frame)).foldl (pushFrame format) ⟨s, base, none⟩ = q :=
    ⟨_, rfl⟩
  obtain ⟨hwaits, hleft, hunits, hdescribed, hknown⟩ :=
    foldl_pushFrame (p := ⟨s, base, none⟩) h.described (fun hne => absurd rfl hne) hmore hq
  refine ⟨more, rest, front', q, hsplit, hq, ?_, ?_⟩
  · rw [parsePayload, h.ready, hbase]
    simp only [hjoined, hparse]
    rw [← hq]
    rfl
  · refine ⟨?_, ?_, hwaits.trans h.ready, Function.update_self .., hpart, ?_,
      described_finish hdescribed hknown _⟩
    · rw [h.split, hsplit, append_assoc]
    · rw [h.sent, append_assoc, hlast, rowBytes_append, append_assoc]
      rfl
    · rw [finishPayload, hunits, h.units, map_append]

theorem basePtsMs_first (h : s.audioLastSamplePts = none) (pts : ℕ) :
    basePtsMs format s (some pts) = some (some (ptsMs pts)) := by
  rw [basePtsMs]
  cases s.audioMetadata.filter (·.codec = format.codec) with
  | none => simp
  | some metadata => simp only [knownBasePts, h, map_some]

theorem basePtsMs_later (h : Described frames s) {last : ℚ}
    (hlast : s.audioLastSamplePts = some last) :
    ∃ g ∈ frames, s.audioMetadata = some g.frame.metadata ∧ ∀ pts, basePtsMs format s pts =
        knownBasePts format s g.frame.metadata (pts.map ptsMs) := by
  obtain ⟨g, hg, hmetadata⟩ := h.metadata (h.known (hlast ▸ some_ne_none last))
  refine ⟨g, hg, hmetadata, fun pts => ?_⟩
  rw [basePtsMs, hmetadata, filter_some, if_pos (by simpa using g.codec)]

theorem basePtsMs_known (h : Described frames s) {pts : Option ℕ}
    (htimed : pts = none → s.audioLastSamplePts ≠ none) :
    ∃ base, basePtsMs format s pts = some base := by
  cases hlast : s.audioLastSamplePts with
  | none =>
    cases pts with
    | none => exact absurd hlast (htimed rfl)
    | some pts => exact ⟨_, basePtsMs_first hlast pts⟩
  | some last =>
    obtain ⟨g, -, -, hbase⟩ := basePtsMs_later h hlast
    rw [hbase]
    cases pts with
    | none =>
      simp only [map_none, knownBasePts, hlast]
      exact ⟨_, rfl⟩
    | some pts =>
      simp only [map_some, knownBasePts, hlast]
      split_ifs
      · exact ⟨_, rfl⟩
      · exact ⟨_, rfl⟩

/-! ## The timestamps -/

theorem four_le_duration {samples rate : ℕ} (hpos : 0 < rate) (h : 4 * rate ≤ samples * 1000) :
    (4 : ℚ) ≤ (samples : ℚ) / rate * 1000 := by
  have hrate : (0 : ℚ) < rate := by exact_mod_cast hpos
  have hcast : (4 : ℚ) * rate ≤ samples * 1000 := by exact_mod_cast h
  rw [div_mul_eq_mul_div, le_div_iff₀ hrate]
  exact hcast

theorem CodedFrame.duration_spec :
    f.frame.metadata.refSampleDuration = some f.duration ∧ 4 ≤ f.duration := by
  have hmain : ∃ d, f.frame.metadata.refSampleDuration = some d ∧ 4 ≤ d := by
    obtain ⟨bytes, frame, h⟩ := f
    cases h with
    | adts _ _ _ _ hrate =>
      have hrates : ∀ rate ∈ mpeg4SamplingFrequencies, 0 < rate ∧ 4 * rate ≤ 1024 * 1000 := by
        decide
      obtain ⟨hpos, hle⟩ := hrates _ (mem_of_getElem? hrate)
      refine ⟨_, ?_, four_le_duration hpos hle⟩
      rw [AudioMetadata.refSampleDuration]
      simp [adtsMetadata, AudioMetadata.samplingFrequency, hrate, map_some,
        AudioMetadata.frameSamples]
    | ac3 _ hrate _ =>
      have hrates : ∀ rate ∈ ac3SamplingFrequencies, 0 < rate ∧ 4 * rate ≤ 1536 * 1000 := by decide
      obtain ⟨hpos, hle⟩ := hrates _ (mem_of_getElem? hrate)
      exact ⟨_, rfl, four_le_duration hpos hle⟩
    | eac3 _ _ hfields =>
      have hrates : ∀ rate ∈ eac3HalfSamplingFrequencies ++ eac3SamplingFrequencies,
          ∀ numBlks ∈ eac3BlocksPerSyncframe, 0 < rate ∧ 4 * rate ≤ 256 * numBlks * 1000 := by
        decide
      rw [eac3Fields] at hfields
      have hmetadata := (Prod.mk.inj hfields).2
      split at hmetadata
      · next rate numBlks hrate hblks =>
        obtain rfl := some.inj hmetadata
        have hmem : rate ∈ eac3HalfSamplingFrequencies ++ eac3SamplingFrequencies := by
          split_ifs at hrate
          · exact mem_append_left _ (mem_of_getElem? hrate)
          · exact mem_append_right _ (mem_of_getElem? hrate)
        obtain ⟨hpos, hle⟩ := hrates rate hmem numBlks (mem_of_getElem? hblks)
        exact ⟨_, rfl, four_le_duration hpos hle⟩
      · cases hmetadata
  obtain ⟨d, hd, hfour⟩ := hmain
  rw [CodedFrame.duration, hd]
  exact ⟨rfl, hfour⟩

theorem timeAfter_concat (t₀ : ℚ) (done : List (CodedFrame format)) (f : CodedFrame format) :
    timeAfter t₀ (done ++ [f]) = timeAfter t₀ done + f.duration := by
  rw [timeAfter, timeAfter, map_append, sum_append, map_singleton, sum_singleton, add_assoc]

theorem OneRate.duration_eq (h : OneRate frames) (hcodec : format.codec = .aac)
    {f g : CodedFrame format} (hf : f ∈ frames) (hg : g ∈ frames) : f.duration = g.duration := by
  have hsamples : ∀ e : CodedFrame format, e.frame.metadata.frameSamples = 1024 := by
    intro e
    have haac := e.codec.trans hcodec
    cases hmetadata : e.frame.metadata with
    | aac => rfl
    | ac3 => rw [hmetadata] at haac; cases haac
    | eac3 => rw [hmetadata] at haac; cases haac
  rw [CodedFrame.duration, CodedFrame.duration, AudioMetadata.refSampleDuration,
    AudioMetadata.refSampleDuration, hsamples f, hsamples g, h hcodec f hf g hg]

/-- The timestamps do not fall, and what comes next is due behind them. -/
def Stamped (t₀ : ℚ) (done : List (CodedFrame format)) (s : AudioState) : Prop :=
  ∃ stamps : List ℤ, s.samples.map (·.pts) = stamps.map some ∧ stamps.Pairwise (· ≤ ·) ∧
    ∀ a ∈ stamps, (a : ℚ) ≤ timeAfter t₀ done - 3

/-- The last timestamp is that of the last frame. -/
def LastTimed (t₀ : ℚ) (frames done : List (CodedFrame format)) (s : AudioState) : Prop :=
  ∀ last, s.audioLastSamplePts = some last → 0 ≤ last ∧ format.counts last = true ∧
    ∃ g ∈ frames, s.audioMetadata = some g.frame.metadata ∧
      |last + g.duration - timeAfter t₀ done| ≤ 1

variable {t₀ : ℚ}

theorem stamped_push {p : Pushing} (h : Stamped t₀ done p.state) {x : ℚ} (hx : p.samplePts = some x)
    (hnear : |x - timeAfter t₀ done| ≤ 1) (f : CodedFrame format) :
    Stamped t₀ (done ++ [f]) (pushFrame format p f.frame).state := by
  obtain ⟨stamps, hpts, hsorted, hbound⟩ := h
  obtain ⟨hlo, hhi⟩ := abs_le.1 hnear
  have hfour := f.duration_spec.2
  have hfloor := Int.floor_le x
  refine ⟨stamps ++ [⌊x⌋], ?_, ?_, ?_⟩
  · rw [pushFrame, map_append, hpts, map_append, hx]
    rfl
  · rw [pairwise_append]
    refine ⟨hsorted, pairwise_singleton _ _, fun a ha b hb => ?_⟩
    rw [mem_singleton.1 hb]
    have hle := hbound a ha
    exact Int.le_floor.2 (by linarith)
  · intro a ha
    rw [timeAfter_concat]
    rcases mem_append.1 ha with ha | ha
    · have hle := hbound a ha
      linarith
    · rw [mem_singleton.1 ha]
      linarith

theorem foldl_stamped (hrate : OneRate frames) (hmore : ∀ f ∈ more, f ∈ frames) {p : Pushing}
    (hdescribed : Described frames p.state) (h : Stamped t₀ done p.state) {x : ℚ}
    (hx : p.samplePts = some x) (hnear : |x - timeAfter t₀ done| ≤ 1)
    (hq : (more.map (·.frame)).foldl (pushFrame format) p = q) :
    Stamped t₀ (done ++ more) q.state ∧ q.state.audioLastSamplePts = p.state.audioLastSamplePts ∧
      (more ≠ [] → ∃ y, q.lastSamplePts = some y ∧ x ≤ y ∧
        ∃ g ∈ frames, q.state.audioMetadata = some g.frame.metadata ∧
          |y + g.duration - timeAfter t₀ (done ++ more)| ≤ 1) := by
  induction more generalizing done p x with
  | nil =>
    subst hq
    rw [append_nil]
    exact ⟨h, rfl, fun hne => absurd rfl hne⟩
  | cons f more ih =>
    have hf := hmore f mem_cons_self
    obtain ⟨g, hg, hmetadata, hsame⟩ := nextMetadata_mem hdescribed hf
    have hduration : g.duration = f.duration := by
      rcases hsame with rfl | hcodec
      · rfl
      · exact hrate.duration_eq hcodec hg hf
    have hnext : Described frames (pushFrame format p f.frame).state :=
      ⟨fun _ => ⟨g, hg, hmetadata⟩, fun _ => rfl⟩
    have hx' : (pushFrame format p f.frame).samplePts = some (x + f.duration) := by
      rw [pushFrame, hx, f.duration_spec.1]
      rfl
    have hnear' : |x + f.duration - timeAfter t₀ (done ++ [f])| ≤ 1 := by
      rw [timeAfter_concat, add_sub_add_right_eq_sub]
      exact hnear
    obtain ⟨hstamped, hlast, htail⟩ :=
      ih (fun f hf => hmore f (mem_cons_of_mem _ hf)) hnext (stamped_push h hx hnear f) hx'
        hnear' hq
    rw [append_assoc] at hstamped htail
    refine ⟨hstamped, hlast, fun _ => ?_⟩
    by_cases hnil : more = []
    · subst hnil
      subst hq
      refine ⟨x, hx, le_rfl, g, hg, hmetadata, ?_⟩
      rw [hduration]
      exact hnear'
    · obtain ⟨y, hy, hle, hrest⟩ := htail hnil
      have hfour := f.duration_spec.2
      exact ⟨y, hy, by linarith, hrest⟩

theorem lastTimed_finish (hrate : OneRate frames) (hmore : ∀ f ∈ more, f ∈ frames)
    (hdescribed : Described frames s) (h : Stamped t₀ done s) (hlast : LastTimed t₀ frames done s)
    {x : ℚ} (hpos : 0 ≤ x) (hnear : |x - timeAfter t₀ done| ≤ 1)
    (hq : (more.map (·.frame)).foldl (pushFrame format) ⟨s, some x, none⟩ = q) (left : Option Bytes)
    :
    LastTimed t₀ frames (done ++ more) (finishPayload format q left) := by
  obtain ⟨-, hold, hnew⟩ :=
    foldl_stamped (p := ⟨s, some x, none⟩) hrate hmore hdescribed h rfl hnear hq
  by_cases hnil : more = []
  · subst hnil
    subst hq
    rw [append_nil]
    exact hlast
  obtain ⟨y, hy, hle, g, hg, hmetadata, hclose⟩ := hnew hnil
  intro last hfinish
  rw [finishPayload, hy, hold] at hfinish
  simp only [filter_some] at hfinish
  split_ifs at hfinish with hcounts
  · obtain rfl := some.inj hfinish
    exact ⟨hpos.trans hle, hcounts, g, hg, hmetadata, hclose⟩
  · -- the last frame is at 0: then no timestamp was known before
    obtain ⟨hlastpos, -, g', hg', -, hclose'⟩ := hlast last hfinish
    have hzero : y = 0 := by
      rw [AudioFormat.counts] at hcounts
      simp at hcounts
      exact hcounts.2
    have hfour := g'.duration_spec.2
    obtain ⟨hlo, hhi⟩ := abs_le.1 hnear
    obtain ⟨hlo', hhi'⟩ := abs_le.1 hclose'
    linarith

theorem CodedFrame.length_pos : 0 < f.bytes.length := length_pos_of_ne_nil f.framed.ne_nil

theorem first_start {frames target rest : List (CodedFrame format)} {f : CodedFrame format} {n : ℕ}
    (htarget : frames = target ++ rest) (hn : n ≤ (rowBytes target).length)
    (hbefore : ∀ init g, target = init ++ [g] → (rowBytes init).length < n)
    (hdone : frames = done ++ f :: todo) (hlo : n ≤ (rowBytes done).length)
    (hfirst : ∀ earlier g later, frames = earlier ++ g :: later →
      n ≤ (rowBytes earlier).length → (rowBytes done).length ≤ (rowBytes earlier).length) :
    done = target := by
  rcases append_eq_append_iff.1 (hdone.symm.trans htarget) with
    ⟨between, rfl, -⟩ | ⟨between, rfl, hrest⟩
  · rcases eq_nil_or_concat between with rfl | ⟨init, g, rfl⟩
    · rw [append_nil]
    · have hlt := hbefore (done ++ init) g (by rw [concat_eq_append, append_assoc])
      rw [rowBytes_append, length_append] at hlt
      omega
  · cases between with
    | nil => rw [append_nil]
    | cons e between =>
      have hle := hfirst target e (between ++ f :: todo) (by rw [htarget, hrest]; rfl) hn
      have hpos := e.length_pos
      rw [rowBytes_append, rowBytes_cons, length_append, length_append] at hle
      omega

variable {p : PesPayload}

variable {after : List PesPayload}

section

variable {front : Bytes} {before : List PesPayload} {frames : List (CodedFrame format)}
  {payloads : List PesPayload} (hconsistent : Consistent t₀ frames payloads)
  (hsplit : payloads = before ++ p :: after)
  (h : Progress frames (sentBytes before) s done todo front)

include hconsistent hsplit h

theorem consistent_time {pts : ℕ} (hpts : p.pts = some pts) :
    (front = [] → |ptsMs pts - timeAfter t₀ done| ≤ 1) ∧ (front ≠ [] → ∃ g : CodedFrame format,
        |ptsMs pts - (timeAfter t₀ done + g.duration)| ≤ 1) := by
  obtain ⟨done', f, todo', hdone, hlo, -, hfirst, hclose⟩ :=
    hconsistent before p after hsplit pts hpts
  have hsent := congrArg List.length h.sent
  rw [length_append] at hsent
  constructor
  · rintro rfl
    have htarget : done' = done := by
      refine first_start h.split (by simpa using hsent.le) ?_ hdone hlo hfirst
      rintro init g rfl
      have hpos := g.length_pos
      rw [rowBytes_append, length_append, rowBytes_cons, length_append] at hsent
      omega
    rw [htarget] at hclose
    exact hclose
  · intro hne
    obtain ⟨g, rest, rfl, hpart, hwhole⟩ := h.part.resolve_left hne
    have hlt := part_length_lt hpart hwhole
    have hpos := length_pos_of_ne_nil hne
    have htarget : done' = done ++ [g] := by
      have hrow : frames = (done ++ [g]) ++ rest := by
        rw [h.split, append_assoc]
        rfl
      refine first_start hrow ?_ ?_ hdone hlo hfirst
      · rw [rowBytes_append, length_append, rowBytes_cons, length_append]
        omega
      · simp [*]
    rw [htarget, timeAfter_concat] at hclose
    exact ⟨g, hclose⟩

theorem basePtsMs_near (hlast : LastTimed t₀ frames done s)
    (htimed : p.pts = none → s.audioLastSamplePts ≠ none)
    (hcarried : s.lastIncompleteData format.codec ≠ none → s.audioLastSamplePts ≠ none) :
    ∃ x, basePtsMs format s p.pts = some (some x) ∧ 0 ≤ x ∧ |x - timeAfter t₀ done| ≤ 1 := by
  have hpos : ∀ pts : ℕ, 0 ≤ ptsMs pts := fun pts => div_nonneg (Nat.cast_nonneg pts) (by norm_num)
  cases hknown : s.audioLastSamplePts with
  | none =>
    have hfront : front = [] := by
      by_contra hne
      exact hcarried (by rw [h.left, if_neg hne]; exact some_ne_none front) hknown
    cases hpts : p.pts with
    | none => exact absurd hknown (htimed hpts)
    | some pts =>
      exact ⟨_, basePtsMs_first hknown pts, hpos pts,
        (consistent_time hconsistent hsplit h hpts).1 hfront⟩
  | some last =>
    obtain ⟨hlastpos, hcounts, g, hg, hmetadata, hclose⟩ := hlast last hknown
    obtain ⟨g', hg', hmetadata', hbase⟩ := basePtsMs_later h.described hknown
    have hnext : s.audioLastSamplePts.bind (fun last =>
        g'.frame.metadata.refSampleDuration.map (last + ·)) = some (last + g.duration) := by
      rw [hknown, ← some.inj (hmetadata.symm.trans hmetadata'), g.duration_spec.1]
      rfl
    have hfour := g.duration_spec.2
    rw [hbase]
    cases hpts : p.pts with
    | none =>
      refine ⟨last + g.duration, ?_, by linarith, hclose⟩
      simp only [map_none, knownBasePts, hnext]
      rw [hknown]
    | some pts =>
      obtain ⟨hempty, hcarry⟩ := consistent_time hconsistent hsplit h hpts
      simp only [map_some, knownBasePts, hnext]
      rw [hknown]
      simp only [h.left, hcounts, any_some, Bool.and_true]
      by_cases hfront : front = []
      · simp [*]
      · obtain ⟨e, hown⟩ := hcarry hfront
        have hfour' := e.duration_spec.2
        obtain ⟨hlo, hhi⟩ := abs_le.1 hclose
        obtain ⟨hlo', hhi'⟩ := abs_le.1 hown
        have hapart : 1 < |last + g.duration - ptsMs pts| := by
          rw [lt_abs]
          right
          linarith
        rw [if_neg hfront]
        exact ⟨last + g.duration, by simp [hapart], by linarith, hclose⟩

end

theorem Progress.all {frames : List (CodedFrame format)} {front : Bytes}
    (h : Progress frames (rowBytes frames) s done todo front) : done = frames := by
  have hlen := congrArg List.length h.sent
  rw [h.split, rowBytes_append, length_append, length_append] at hlen
  cases todo with
  | nil => rw [h.split, append_nil]
  | cons f todo =>
    have hpos := f.length_pos
    rw [rowBytes_cons, length_append] at hlen
    rcases h.part with rfl | ⟨g, rest, heq, hpart, hne⟩
    · rw [length_nil] at hlen
      omega
    · obtain ⟨rfl, -⟩ := cons_eq_cons.1 heq
      have hlt := part_length_lt hpart hne
      omega

/-! ## The run -/

theorem progress_step {frames : List (CodedFrame format)} {payloads before : List PesPayload}
    {front : Bytes} (hcut : sentBytes payloads = rowBytes frames)
    (htails : TailsVisible frames payloads) (hsplit : payloads = (before ++ [p]) ++ after)
    (h : Progress frames (sentBytes before) s done todo front) {base : Option ℚ}
    (hbase : basePtsMs format s p.pts = some base) :
    ∃ more rest front' q left, todo = more ++ rest ∧
      (more.map (·.frame)).foldl (pushFrame format) ⟨s, base, none⟩ = q ∧
      AudioState.step format (some s) p = some (finishPayload format q left) ∧
      Progress frames (sentBytes (before ++ [p])) (finishPayload format q left) (done ++ more) rest
        front' := by
  have hsent : sentBytes (before ++ [p]) = sentBytes before ++ p.bytes := by
    rw [sentBytes_append, sentBytes_singleton]
  have hwithin : sentBytes before ++ p.bytes <+: rowBytes frames := by
    rw [← hsent, ← hcut, hsplit, sentBytes_append (before ++ [p])]
    exact prefix_append _ _
  have hvisible := htails (before ++ [p]) after hsplit
  rw [hsent] at hvisible ⊢
  obtain ⟨more, rest, front', q, hmore, hq, hparse, hnext⟩ :=
    parsePayload_progress h hwithin hvisible hbase
  exact ⟨more, rest, front', q, _, hmore, hq, hparse, hnext⟩

section

variable {payloads : List PesPayload} (hcut : sentBytes payloads = rowBytes frames)
  (htails : TailsVisible frames payloads)

include hcut htails

theorem run_progress
    (htimed : Along (AudioState.step format) Timed (some AudioState.opened) payloads) :
    ∃ s, run (AudioState.step format) (some AudioState.opened) payloads = some s ∧
      s.samples.map (·.unit) = frames.map (·.frame.data) := by
  have hrun : payloads <+: payloads → ∃ s done todo front,
      run (AudioState.step format) (some AudioState.opened) payloads = some s ∧
        Progress frames (sentBytes payloads) s done todo front := by
    refine run_history (h := []) (I := fun before s => before <+: payloads →
      ∃ s' done todo front, s = some s' ∧ Progress frames (sentBytes before) s' done todo front)
      ?_ (fun _ => ⟨_, _, _, _, rfl, progress_opened frames⟩) htimed
    rintro before s p hbefore hp ⟨after, hsplit⟩
    obtain ⟨s', done, todo, front, rfl, hprogress⟩ :=
      hbefore ⟨[p] ++ after, by rw [← append_assoc, hsplit]⟩
    obtain ⟨base, hbase⟩ := basePtsMs_known hprogress.described (hp s' rfl)
    obtain ⟨more, rest, front', q, left, -, -, hstep, hnext⟩ :=
      progress_step hcut htails hsplit.symm hprogress hbase
    exact ⟨_, _, _, _, hstep, hnext⟩
  obtain ⟨s, done, todo, front, hs, hprogress⟩ := hrun (prefix_refl _)
  rw [hcut] at hprogress
  refine ⟨s, hs, ?_⟩
  rw [hprogress.units, hprogress.all]

theorem run_stamped (hrate : OneRate frames) (hconsistent : Consistent t₀ frames payloads)
    (htimed : Along (AudioState.step format) (fun s p => Timed s p ∧ CarriedTimed format s p)
      (some AudioState.opened) payloads) :
    ∀ s, run (AudioState.step format) (some AudioState.opened) payloads = some s →
      ∃ stamps : List ℤ, s.samples.map (·.pts) = stamps.map some ∧ stamps.Pairwise (· ≤ ·) := by
  have hrun : payloads <+: payloads → ∃ s done todo front,
      run (AudioState.step format) (some AudioState.opened) payloads = some s ∧
        Progress frames (sentBytes payloads) s done todo front ∧ Stamped t₀ done s ∧
          LastTimed t₀ frames done s := by
    refine run_history (h := []) (I := fun before s => before <+: payloads →
      ∃ s' done todo front, s = some s' ∧ Progress frames (sentBytes before) s' done todo front ∧
        Stamped t₀ done s' ∧ LastTimed t₀ frames done s')
      ?_ (fun _ => ⟨_, _, _, _, rfl, progress_opened frames,
        ⟨[], rfl, .nil, fun _ h => absurd h not_mem_nil⟩, fun _ h => by cases h⟩) htimed
    rintro before s p hbefore ⟨hp, hcarried⟩ ⟨after, hsplit⟩
    obtain ⟨s', done, todo, front, rfl, hprogress, hstamped, hlast⟩ :=
      hbefore ⟨[p] ++ after, by rw [← append_assoc, hsplit]⟩
    rw [append_assoc] at hsplit
    obtain ⟨x, hbase, hpos, hnear⟩ := basePtsMs_near hconsistent hsplit.symm hprogress hlast
      (hp s' rfl) (hcarried s' rfl)
    rw [← append_assoc] at hsplit
    obtain ⟨more, rest, front', q, left, htodo, hq, hstep, hnext⟩ :=
      progress_step hcut htails hsplit.symm hprogress hbase
    have hmore : ∀ f ∈ more, f ∈ frames := by
      intro f hf
      rw [hprogress.split, htodo]
      exact mem_append_right _ (mem_append_left _ hf)
    have hpushed := foldl_stamped (p := ⟨s', some x, none⟩) hrate hmore hprogress.described
      hstamped rfl hnear hq
    exact ⟨_, _, _, _, hstep, hnext, hpushed.1,
      lastTimed_finish hrate hmore hprogress.described hstamped hlast hpos hnear hq left⟩
  obtain ⟨s, done, todo, front, hs, -, ⟨stamps, hpts, hsorted, -⟩, -⟩ := hrun (prefix_refl _)
  intro s' hs'
  obtain rfl := some.inj (hs.symm.trans hs')
  exact ⟨stamps, hpts, hsorted⟩

end

/-- A row of well-formed ADTS, AC-3 or E-AC-3 frames is cut into payloads anywhere, but none ends
    less than 8 bytes behind the start of a frame, and a payload has a timestamp or comes after a
    frame that has one. Then exactly these frames are pushed, in their order. Their timestamps do
    not fall if those of the payloads are consistent, a frame with a timestamp comes before each
    payload that an unfinished frame is carried into, and AAC keeps its sampling frequency. -/
theorem audio_frames_survive {frames : List (CodedFrame format)} {payloads : List PesPayload}
    (hcut : sentBytes payloads = rowBytes frames) (htails : TailsVisible frames payloads)
    (htimed : Along (AudioState.step format) Timed (some AudioState.opened) payloads) :
    ∃ s, run (AudioState.step format) (some AudioState.opened) payloads = some s ∧
      s.samples.map (·.unit) = frames.map (·.frame.data) ∧
      (Along (AudioState.step format) (CarriedTimed format) (some AudioState.opened) payloads →
        OneRate frames → ∀ t₀, Consistent t₀ frames payloads →
        ∃ stamps : List ℤ, s.samples.map (·.pts) = stamps.map some ∧ stamps.Pairwise (· ≤ ·)) := by
  obtain ⟨s, hs, hunits⟩ := run_progress hcut htails htimed
  refine ⟨s, hs, hunits, fun hcarried hrate t₀ hconsistent => ?_⟩
  exact run_stamped hcut htails hrate hconsistent (along_and htimed hcarried) s hs

end Rows

def shortFrame : CodedFrame .adts :=
  ⟨[0xFF, 0xF1, 0x50, 0x80, 0x01, 0x5F, 0xFC, 1, 2, 3], _,
    .adts (by decide) (by decide) (by decide) (by decide) rfl⟩

/-- Two frames, the second one cut behind its eighth byte. -/
theorem cut_frame_survives :
    let payloads := [⟨shortFrame.bytes ++ shortFrame.bytes.take 8, some 9000⟩,
      ⟨shortFrame.bytes.drop 8, none⟩]
    ∃ s, run (AudioState.step .adts) (some AudioState.opened) payloads = some s ∧
      s.samples.map (·.unit) = [[1, 2, 3], [1, 2, 3]] ∧
      ∃ stamps : List ℤ, s.samples.map (·.pts) = stamps.map some ∧ stamps.Pairwise (· ≤ ·) := by
  obtain ⟨s, hs, hunits, hstamped⟩ := @audio_frames_survive .adts [shortFrame, shortFrame]
    [⟨shortFrame.bytes ++ shortFrame.bytes.take 8, some 9000⟩, ⟨shortFrame.bytes.drop 8, none⟩]
    (by decide) (by decide) (by decide +kernel)
  refine ⟨s, hs, hunits, hstamped (by decide +kernel) (fun _ => ?_) 100 ?_⟩
  · simp
  · intro before p after hsplit pts hpts
    cases before with
    | nil =>
      obtain ⟨rfl, -⟩ := cons_eq_cons.1 hsplit
      obtain rfl := some.inj hpts
      exact ⟨[], shortFrame, [shortFrame], rfl, Nat.zero_le _, by decide,
        fun _ _ _ _ _ => Nat.zero_le _, by decide +kernel⟩
    | cons p' before =>
      obtain ⟨-, hrest⟩ := cons_eq_cons.1 hsplit
      cases before with
      | nil =>
        obtain ⟨rfl, -⟩ := cons_eq_cons.1 hrest
        cases hpts
      | cons p'' before => simp at hrest

/-- Two frames, the second one cut behind its fourth byte: it is lost. -/
theorem lost_tail : let frames := [shortFrame, shortFrame]
    let payloads := [⟨shortFrame.bytes ++ shortFrame.bytes.take 4, some 9000⟩,
      ⟨shortFrame.bytes.drop 4, some 11000⟩]
    sentBytes payloads = rowBytes frames ∧
      ¬∃ s, run (AudioState.step .adts) (some AudioState.opened) payloads = some s ∧
        s.samples.map (·.unit) = frames.map (·.frame.data) := by
  decide +kernel

end Apackage.Rtp2httpd.Player
