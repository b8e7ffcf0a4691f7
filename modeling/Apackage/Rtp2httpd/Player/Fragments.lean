import Apackage.Rtp2httpd.Player.Remuxer

/-
  The segments of the remuxer are consistent (`mp4-remuxer.ts`, `mp4-generator.ts`).

  Through the popping, stashing and dropping of samples the size of `mdat` remains that of the
  samples that are left, so the arrays have the right size and every write lies inside. A player
  reads the samples that went out, in their order, exactly if the sizes fit their fields
  (`segments_selfConsistent`). Raw audio goes out without boxes.
-/

namespace Apackage.Rtp2httpd.Player.Remux

open List Lib.Region Lib.Boxes MP4

/-! ## The queue -/

section Queue

variable {ν α : Type} {size : α → ℕ}

/-- The size of `mdat` is that of its head and of the samples. -/
def Batch.Counted (size : α → ℕ) (head : ℕ) (batch : Batch α) : Prop :=
  batch.mdatBytes = head + (batch.samples.map size).sum

theorem takeBatch_spec {samples : List α} (stashed : Option α) (force : Bool) {head : ℕ}
    {mdatBytes : ℤ} (h : mdatBytes = head + (samples.map size).sum) :
    (takeBatch size samples stashed force mdatBytes).Counted size head ∧
      List.Sublist (takeBatch size samples stashed force mdatBytes).samples
        (stashed.toList ++ samples) := by
  have hstashed : ((stashed.map size).getD 0 : ℕ) = (stashed.toList.map size).sum := by
    cases stashed <;> simp
  by_cases hpop : 1 < samples.length ∧ force = false
  · obtain ⟨init, last, rfl⟩ : ∃ init last, samples = init ++ [last] := by
      refine ⟨samples.dropLast, samples.getLast (ne_nil_of_length_pos (by omega)), ?_⟩
      exact (dropLast_append_getLast _).symm
    rw [map_append, sum_append, map_singleton, sum_singleton] at h
    rw [Batch.Counted, takeBatch, if_pos hpop, if_pos hpop, getLast?_concat, dropLast_concat,
      Option.map_some, Option.getD_some, hstashed, map_append, sum_append]
    refine ⟨by dsimp only; omega, List.Sublist.append_left ?_ _⟩
    exact sublist_append_left init [last]
  · rw [Batch.Counted, takeBatch, if_neg hpop, if_neg hpop, hstashed, map_append, sum_append]
    refine ⟨?_, List.Sublist.refl _⟩
    rw [Option.map_none, Option.getD_none, h]
    dsimp only
    omega

theorem dropUpTo_spec [JsNumber ν] {originalDts : α → ν} {lastOriginalDts : ν} {head : ℕ}
    (samples : List α) {mdatBytes : ℤ} (h : mdatBytes = head + (samples.map size).sum) :
    (dropUpTo size originalDts lastOriginalDts samples mdatBytes).2 =
        head + ((dropUpTo size originalDts lastOriginalDts samples mdatBytes).1.map size).sum ∧
      List.Sublist (dropUpTo size originalDts lastOriginalDts samples mdatBytes).1 samples := by
  induction samples generalizing mdatBytes with
  | nil => exact ⟨h, List.Sublist.refl _⟩
  | cons sample samples ih =>
    rw [dropUpTo]
    split_ifs with hlater
    · exact ⟨h, List.Sublist.refl _⟩
    · grind

theorem dropOverlapping_spec [JsNumber ν] (s : Remuxer ν) (originalDts : α → ν)
    (timing : TrackTimingState ν) {head : ℕ} {batch : Batch α} (h : batch.Counted size head) :
    (dropOverlappingTrackSamples s size originalDts timing batch).Counted size head ∧
      List.Sublist (dropOverlappingTrackSamples s size originalDts timing batch).samples
        batch.samples := by
  rw [dropOverlappingTrackSamples]
  split_ifs
  · cases timing.lastOriginalDts with
    | none => exact ⟨h, List.Sublist.refl _⟩
    | some lastOriginalDts => exact dropUpTo_spec batch.samples h
  · exact ⟨h, List.Sublist.refl _⟩

end Queue

/-! ## The loop -/

section Loop

variable {ν υ α ρ : Type} {size : α → ℕ} {unit : α → υ}

/-- A sample is left out and its bytes subtracted, or it goes out as it is. -/
def Accounts (size : α → ℕ) (unit : α → υ) (r : SampleRun ν υ) (sample : α)
    (r' : SampleRun ν υ) : Prop :=
  r'.mp4Samples = r.mp4Samples ∧ r'.mdatBytes = r.mdatBytes - size sample ∨
    ∃ m : MP4Sample ν υ, m.unit = unit sample ∧ m.size = size sample ∧
      r'.mp4Samples = r.mp4Samples ++ [m] ∧ r'.mdatBytes = r.mdatBytes

theorem foldl_accounts {run : ρ → SampleRun ν υ} {step : ρ → α → ρ}
    (hstep : ∀ r sample, Accounts size unit (run r) sample (run (step r sample)))
    (samples : List α) (r : ρ) :
    ∃ kept, List.Sublist kept samples ∧ (run (samples.foldl step r)).mp4Samples.map MP4Sample.unit =
        (run r).mp4Samples.map MP4Sample.unit ++ kept.map unit ∧
      (run (samples.foldl step r)).mp4Samples.map MP4Sample.size =
        (run r).mp4Samples.map MP4Sample.size ++ kept.map size ∧
      (run (samples.foldl step r)).mdatBytes =
        (run r).mdatBytes - (samples.map size).sum + (kept.map size).sum := by
  induction samples generalizing r with
  | nil => exact ⟨[], List.Sublist.refl _, by simp, by simp, by simp⟩
  | cons sample samples ih =>
    obtain ⟨kept, hsub, hunits, hsizes, hbytes⟩ := ih (step r sample)
    rw [foldl_cons, map_cons, sum_cons]
    rcases hstep r sample with ⟨hsame, hless⟩ | ⟨m, hunit, hsize, hmore, hsame⟩
    · grind
    · rw [hmore, map_append, map_singleton, append_assoc] at hunits hsizes
      rw [hsame] at hbytes
      refine ⟨sample :: kept, hsub.cons_cons sample, ?_, ?_, ?_⟩
      · rw [hunits, hunit]
        rfl
      · rw [hsizes, hsize]
        rfl
      · rw [map_cons, sum_cons]
        omega

end Loop

/-! ## What goes out -/

theorem flatten_written {ν : Type} (samples : List (MP4Sample ν (List VideoUnit))) :
    (samples.flatMap fun sample => sample.unit.flatMap VideoUnit.written).flatten =
      (samples.map fun sample => videoBytes sample.unit).flatten := by
  induction samples with
  | nil => rfl
  | cons sample samples ih =>
    rw [flatMap_cons, flatten_append, ih, map_cons, flatten_cons, videoBytes]

namespace Remuxer

variable {ν : Type} [JsNumber ν]

/-- The samples that the loop lets out, none of a batch that remains in the queue. -/
def audioOut (s : Remuxer ν) (track : AudioTrack ν) (force : Bool) : List (MP4Sample ν Bytes) :=
  if s.audioMeta.isNone ∨ track.samples = [] ∨ track.samples.length = 1 ∧ force = false then []
  else
    let batch := s.audioBatch track force
    (batch.samples.head?.map fun first => (s.audioRun first batch).mp4Samples).getD []

def audioUnits (s : Remuxer ν) (track : AudioTrack ν) (force : Bool) : List Bytes :=
  (s.audioOut track force).map MP4Sample.unit

def videoOut (s : Remuxer ν) (track : VideoTrack ν) (force : Bool) :
    List (MP4Sample ν (List VideoUnit)) :=
  if s.videoMeta.isNone ∨ track.samples = [] ∨ track.samples.length = 1 ∧ force = false then []
  else
    let batch := s.videoBatch track force
    (batch.samples.head?.map fun first => (s.videoRun first batch).samples.mp4Samples).getD []

/-- The units of a sample one behind the other, H.264 units behind their length. -/
def videoUnits (s : Remuxer ν) (track : VideoTrack ν) (force : Bool) : List Bytes :=
  (s.videoOut track force).map fun sample => videoBytes sample.unit

variable (s : Remuxer ν)

theorem audioStep_accounts (r : SampleRun ν Bytes) (sample : AudioSample ν) :
    Accounts AudioSample.length AudioSample.unit r sample (s.audioStep r sample) := by
  rw [audioStep]
  split_ifs
  · exact .inl ⟨rfl, rfl⟩
  · exact .inr ⟨_, rfl, sample.length_eq.symm, rfl, rfl⟩

theorem videoStep_accounts (dtsCorrection presentationFloor : ν) (r : VideoRun ν)
    (sample : VideoSample ν) :
    Accounts VideoSample.length VideoSample.units r.samples sample
      (s.videoStep dtsCorrection presentationFloor r sample).samples := by
  simp only [videoStep]
  split_ifs
  all_goals first
    | exact .inl ⟨rfl, rfl⟩
    | exact .inr ⟨_, rfl, rfl, rfl, rfl⟩

theorem audioBatch_spec (track : AudioTrack ν) (force : Bool) :
    (s.audioBatch track force).Counted AudioSample.length (if s.mpegRawTrack then 0 else 8) ∧
      List.Sublist (s.audioBatch track force).samples
        (s.audioStashedLastSample.toList ++ track.samples) := by
  have hlength : ((if s.mpegRawTrack then 0 else 8) + track.length : ℤ) =
      ((if s.mpegRawTrack then 0 else 8 : ℕ) : ℤ) + (track.samples.map AudioSample.length).sum := by
    rw [track.length_eq]
    split_ifs <;> rfl
  obtain ⟨hcounted, hsub⟩ := takeBatch_spec s.audioStashedLastSample force hlength
  obtain ⟨hcounted', hsub'⟩ := dropOverlapping_spec s (fun sample => sample.dts - s.dtsBase)
    s.audioTiming hcounted
  exact ⟨hcounted', hsub'.trans hsub⟩

theorem videoBatch_spec (track : VideoTrack ν) (force : Bool) :
    (s.videoBatch track force).Counted VideoSample.length 8 ∧
      List.Sublist (s.videoBatch track force).samples
        (s.videoStashedLastSample.toList ++ track.samples) := by
  have hlength : (8 + track.length : ℤ) =
      ((8 : ℕ) : ℤ) + (track.samples.map VideoSample.length).sum := by
    rw [track.length_eq]
    rfl
  obtain ⟨hcounted, hsub⟩ := takeBatch_spec s.videoStashedLastSample force hlength
  obtain ⟨hcounted', hsub'⟩ := dropOverlapping_spec s (fun sample => sample.dts - s.dtsBase)
    s.videoTiming hcounted
  exact ⟨hcounted', hsub'.trans hsub⟩

theorem audioRun_spec (track : AudioTrack ν) (force : Bool) (first : AudioSample ν)
    {r : SampleRun ν Bytes} (hr : s.audioRun first (s.audioBatch track force) = r) :
    r.mp4Samples.map MP4Sample.size = (r.mp4Samples.map MP4Sample.unit).map List.length ∧
      r.mdatBytes = (if s.mpegRawTrack then 0 else 8 : ℕ) +
        (r.mp4Samples.map MP4Sample.unit).flatten.length ∧
      List.Sublist (r.mp4Samples.map MP4Sample.unit)
        ((s.audioStashedLastSample.toList ++ track.samples).map AudioSample.unit) := by
  obtain ⟨hcounted, hbatch⟩ := audioBatch_spec s track force
  rw [audioRun] at hr
  obtain ⟨kept, hsub, hunits, hsizes, hbytes⟩ :=
    @foldl_accounts _ _ _ _ _ _ id s.audioStep (audioStep_accounts s)
      (s.audioBatch track force).samples
      (.start (first.dts - s.dtsBase - computeDtsCorrection s (first.dts - s.dtsBase)
        s.audioNextDts s.audioTiming) s.audioTiming (s.audioBatch track force).mdatBytes)
  rw [id_eq, hr] at hunits hsizes hbytes
  simp only [SampleRun.start, id_eq, map_nil, nil_append] at hunits hsizes hbytes
  have hlengths : kept.map AudioSample.length = (kept.map AudioSample.unit).map List.length := by
    rw [List.map_map]
    exact map_congr_left fun sample _ => sample.length_eq
  rw [Batch.Counted] at hcounted
  rw [hunits, hsizes, length_flatten, ← hlengths]
  refine ⟨rfl, ?_, (hsub.trans hbatch).map _⟩
  rw [hbytes, hcounted]
  omega

variable {r : SampleRun ν (List VideoUnit)}

theorem videoRun_spec (track : VideoTrack ν) (force : Bool) (first : VideoSample ν)
    (hr : (s.videoRun first (s.videoBatch track force)).samples = r) :
    r.mp4Samples.map MP4Sample.size =
        (r.mp4Samples.map fun sample => videoBytes sample.unit).map List.length ∧
      r.mdatBytes =
        8 + ((r.mp4Samples.map fun sample => videoBytes sample.unit).flatten.length : ℤ) ∧
      List.Sublist (r.mp4Samples.map MP4Sample.unit)
        ((s.videoStashedLastSample.toList ++ track.samples).map VideoSample.units) := by
  obtain ⟨hcounted, hbatch⟩ := videoBatch_spec s track force
  rw [videoRun] at hr
  obtain ⟨kept, hsub, hunits, hsizes, hbytes⟩ :=
    foldl_accounts (videoStep_accounts s (computeDtsCorrection s (first.dts - s.dtsBase)
        s.videoNextDts s.videoTiming) (s.videoInitialOutputTime.getD s.dtsBaseOffset))
      (s.videoBatch track force).samples
      ⟨.start (first.dts - s.dtsBase - computeDtsCorrection s (first.dts - s.dtsBase)
          s.videoNextDts s.videoTiming) s.videoTiming (s.videoBatch track force).mdatBytes,
        s.videoPresentationOffset, s.videoInitialPresentationOffset, s.videoInitialOutputTime⟩
  rw [hr] at hunits hsizes hbytes
  simp only [SampleRun.start, map_nil, nil_append] at hunits hsizes hbytes
  have hlengths : kept.map VideoSample.length =
      ((kept.map VideoSample.units).map videoBytes).map List.length := by
    rw [List.map_map, List.map_map]
    exact map_congr_left fun sample _ => sample.length_eq
  have hwritten : (r.mp4Samples.map fun sample => videoBytes sample.unit) =
      (r.mp4Samples.map MP4Sample.unit).map videoBytes := by
    rw [List.map_map]
    rfl
  rw [Batch.Counted] at hcounted
  rw [hwritten, hunits, hsizes, length_flatten, ← hlengths]
  refine ⟨rfl, ?_, (hsub.trans hbatch).map _⟩
  rw [hbytes, hcounted]
  omega

theorem newUint8Array_natCast (size : ℕ) : newUint8Array size = some (List.replicate size 0) := by
  rw [newUint8Array, if_neg (by omega), Int.toNat_natCast]

theorem mergeBoxes_eq (moof mdat : Bytes) : mergeBoxes moof mdat = some (moof ++ mdat) := by
  have hfill := @storeAll_fill _ [] (List.replicate (moof.length + mdat.length) (0 : UInt8))
    [moof, mdat] (by rw [flatten_cons, flatten_singleton, length_append, length_replicate])
  simp only [storeAll, nil_append, length_nil, Nat.zero_add, flatten_cons,
    flatten_nil, append_nil, Option.bind_fun_some] at hfill
  exact hfill

theorem mdat_writes (pre : Bytes) (units : List Bytes) :
    ∃ sized typed, store (pre ++ List.replicate (8 + units.flatten.length) 0) pre.length
        (bytesOf 4 (8 + units.flatten.length)) = some sized ∧
      store sized (pre.length + 4) (boxType 'm' 'd' 'a' 't') = some typed ∧
      storeAll typed (pre.length + 8) units = some (pre ++ (mdatBox units).encode) := by
  have hfill := @storeAll_fill _ pre (List.replicate (8 + units.flatten.length) (0 : UInt8))
    (bytesOf 4 (8 + units.flatten.length) :: boxType 'm' 'd' 'a' 't' :: units) (by
      rw [flatten_cons, flatten_cons, length_append, length_append,
        length_bytesOf, length_boxType, length_replicate]
      omega)
  rw [storeAll, length_bytesOf] at hfill
  obtain ⟨sized, hsized, htyped⟩ := Option.bind_eq_some_iff.1 hfill
  rw [storeAll, length_boxType] at htyped
  obtain ⟨typed, htyped, hunits⟩ := Option.bind_eq_some_iff.1 htyped
  exact ⟨sized, typed, hsized, htyped, hunits⟩

variable {track : MP4Track}

theorem audioData_eq {s : Remuxer ν} {r : SampleRun ν Bytes} {units : List Bytes}
    (hunits : r.mp4Samples.map MP4Sample.unit = units)
    (hbytes : r.mdatBytes = (if s.mpegRawTrack then 0 else 8 : ℕ) + units.flatten.length) :
    s.audioData track r = some (if s.mpegRawTrack then units.flatten else
      (moofBox track (JsNumber.toUint32 r.firstDts)).encode ++ (mdatBox units).encode) := by
  rw [← Int.natCast_add] at hbytes
  rw [audioData, hunits, hbytes, newUint8Array_natCast, Int.toNat_natCast]
  cases hraw : s.mpegRawTrack with
  | true =>
    have hfill := @storeAll_fill _ [] (List.replicate units.flatten.length (0 : UInt8)) units
      length_replicate.symm
    rw [nil_append, nil_append, length_nil] at hfill
    simp only [Option.bind_eq_bind, Option.bind_some, if_true, Nat.zero_add, hfill, mergeBoxes_eq,
      nil_append]
  | false =>
    obtain ⟨sized, typed, hsized, htyped, hall⟩ := mdat_writes [] units
    rw [nil_append, length_nil] at hsized hall
    rw [length_nil] at htyped
    simp only [Option.bind_eq_bind, Option.bind_some, Bool.false_eq_true, if_false, hsized, htyped,
      hall, moof_eq, mergeBoxes_eq]

theorem videoData_eq {units : List Bytes}
    (hunits : (r.mp4Samples.map fun sample => videoBytes sample.unit) = units)
    (hbytes : r.mdatBytes = 8 + (units.flatten.length : ℤ)) :
    videoData track r = some ((moofBox track (JsNumber.toUint32 r.firstDts)).encode ++
      (mdatBox units).encode) := by
  obtain ⟨moof, hmoof⟩ : ∃ moof, (moofBox track (JsNumber.toUint32 r.firstDts)).encode = moof :=
    ⟨_, rfl⟩
  obtain ⟨written, hwritten⟩ : ∃ written, (r.mp4Samples.flatMap fun sample =>
    sample.unit.flatMap VideoUnit.written) = written := ⟨_, rfl⟩
  have hflat : written.flatten = units.flatten := by rw [← hwritten, ← hunits, flatten_written]
  have hmdat : r.mdatBytes.toNat = 8 + written.flatten.length := by
    rw [hflat]
    omega
  have hsize : (moof.length : ℤ) + r.mdatBytes =
      ((moof.length + (8 + written.flatten.length) : ℕ) : ℤ) := by
    rw [hflat, hbytes]
    omega
  have hfirst := store_behind [] moof
    (List.replicate (moof.length + (8 + written.flatten.length)) 0)
    (by rw [length_replicate]; omega)
  rw [nil_append, nil_append, length_nil, drop_replicate, Nat.add_sub_cancel_left] at hfirst
  obtain ⟨sized, typed, hsized, htyped, hall⟩ := mdat_writes moof written
  have hbox : mdatBox written = mdatBox units := by rw [mdatBox, mdatBox, hflat]
  rw [videoData, moof_eq, hmoof, Option.bind_eq_bind, Option.bind_some, hsize,
    newUint8Array_natCast, hmdat, hwritten]
  simp only [Option.bind_some, hfirst, hsized, htyped, hall, hbox]

/-! ## The segments -/

/-- The bytes that were emitted; none is a write behind the end of an array. -/
def emitted {α : Type} {size : α → ℕ} (result : Option (Remuxed ν size)) : Option (Option Bytes) :=
  result.map fun r => r.segment.map MediaSegment.data

theorem remuxAudio_cases (track : AudioTrack ν) (force : Bool) :
    s.audioOut track force = [] ∧ emitted (s.remuxAudio track force) = some none ∨
      s.audioOut track force ≠ [] ∧ ∃ first r, s.audioRun first (s.audioBatch track force) = r ∧
        r.mp4Samples = s.audioOut track force ∧ emitted (s.remuxAudio track force) =
          (s.audioData ⟨track.id, track.sequenceNumber + 1, r.mp4Samples.map MP4Sample.entry⟩
            r).map some := by
  by_cases hstays : s.audioMeta.isNone ∨ track.samples = [] ∨
    track.samples.length = 1 ∧ force = false
  · rw [audioOut, remuxAudio, if_pos hstays, if_pos hstays]
    exact .inl ⟨rfl, rfl⟩
  · rw [audioOut, remuxAudio, if_neg hstays, if_neg hstays]
    dsimp only
    cases (s.audioBatch track force).samples.head? with
    | none => exact .inl ⟨rfl, rfl⟩
    | some first =>
      dsimp only [Option.map_some, Option.getD_some]
      cases hlatest : (s.audioRun first (s.audioBatch track force)).mp4Samples.getLast? with
      | none => exact .inl ⟨getLast?_eq_none_iff.1 hlatest, rfl⟩
      | some latest =>
        refine .inr ⟨fun hnil => ?_, first, _, rfl, rfl, ?_⟩
        · rw [hnil] at hlatest
          cases hlatest
        · rw [emitted, Option.map_eq_bind, Option.map_eq_bind]
          exact Option.bind_assoc _ _ _

theorem remuxVideo_cases (track : VideoTrack ν) (force : Bool) :
    s.videoOut track force = [] ∧ emitted (s.remuxVideo track force) = some none ∨
      s.videoOut track force ≠ [] ∧ ∃ first r,
        (s.videoRun first (s.videoBatch track force)).samples = r ∧
        r.mp4Samples = s.videoOut track force ∧ emitted (s.remuxVideo track force) =
          (videoData ⟨track.id, track.sequenceNumber + 1, r.mp4Samples.map MP4Sample.entry⟩
            r).map some := by
  by_cases hstays : s.videoMeta.isNone ∨ track.samples = [] ∨
    track.samples.length = 1 ∧ force = false
  · rw [videoOut, remuxVideo, if_pos hstays, if_pos hstays]
    exact .inl ⟨rfl, rfl⟩
  · rw [videoOut, remuxVideo, if_neg hstays, if_neg hstays]
    dsimp only
    cases (s.videoBatch track force).samples.head? with
    | none => exact .inl ⟨rfl, rfl⟩
    | some first =>
      dsimp only [Option.map_some, Option.getD_some]
      cases hlatest : (s.videoRun first (s.videoBatch track force)).samples.mp4Samples.getLast? with
      | none => exact .inl ⟨getLast?_eq_none_iff.1 hlatest, rfl⟩
      | some latest =>
        refine .inr ⟨fun hnil => ?_, first, _, rfl, rfl, ?_⟩
        · rw [hnil] at hlatest
          cases hlatest
        · rw [emitted, Option.map_eq_bind, Option.map_eq_bind]
          exact Option.bind_assoc _ _ _

theorem emitted_audio (track : AudioTrack ν) (force : Bool) :
    ∃ segment, emitted (s.remuxAudio track force) = some segment ∧
      (segment = none ↔ s.audioUnits track force = []) ∧
      List.Sublist (s.audioUnits track force)
        ((s.audioStashedLastSample.toList ++ track.samples).map AudioSample.unit) ∧
      ∀ data ∈ segment, if s.mpegRawTrack then data = (s.audioUnits track force).flatten
        else SelfConsistent data (s.audioUnits track force) ↔
          FitFields (s.audioUnits track force) := by
  obtain ⟨hnil, hnone⟩ | ⟨hcons, first, r, hr, hout, hsome⟩ := remuxAudio_cases s track force
  · have hunits : s.audioUnits track force = [] := by rw [audioUnits, hnil, map_nil]
    rw [hunits]
    exact ⟨none, hnone, iff_of_true rfl rfl, nil_sublist _, fun data hdata => nomatch hdata⟩
  · obtain ⟨hsizes, hbytes, hsub⟩ := audioRun_spec s track force first hr
    have hunits : r.mp4Samples.map MP4Sample.unit = s.audioUnits track force := by
      rw [audioUnits, hout]
    rw [hunits] at hsizes hbytes hsub
    rw [audioData_eq hunits hbytes, Option.map_some] at hsome
    have hne : s.audioUnits track force ≠ [] := fun hnil => hcons (map_eq_nil_iff.1 hnil)
    refine ⟨_, hsome, iff_of_false (Option.some_ne_none _) hne, hsub, fun data hdata => ?_⟩
    obtain rfl := Option.mem_some.1 hdata
    split_ifs
    · rfl
    · refine selfConsistent_iff (Eq.trans ?_ hsizes)
      rw [List.map_map]
      rfl

theorem emitted_video (track : VideoTrack ν) (force : Bool) :
    ∃ segment, emitted (s.remuxVideo track force) = some segment ∧
      (segment = none ↔ s.videoUnits track force = []) ∧
      List.Sublist (s.videoUnits track force)
        ((s.videoStashedLastSample.toList ++ track.samples).map fun sample =>
          videoBytes sample.units) ∧
      ∀ data ∈ segment, SelfConsistent data (s.videoUnits track force) ↔
        FitFields (s.videoUnits track force) := by
  obtain ⟨hnil, hnone⟩ | ⟨hcons, first, r, hr, hout, hsome⟩ := remuxVideo_cases s track force
  · have hunits : s.videoUnits track force = [] := by rw [videoUnits, hnil, map_nil]
    rw [hunits]
    exact ⟨none, hnone, iff_of_true rfl rfl, nil_sublist _, fun data hdata => nomatch hdata⟩
  · obtain ⟨hsizes, hbytes, hsub⟩ := videoRun_spec s track force first hr
    have hunits : (r.mp4Samples.map fun sample => videoBytes sample.unit) =
        s.videoUnits track force := by
      rw [videoUnits, hout]
    rw [hunits] at hsizes hbytes
    have hsub' := hsub.map videoBytes
    rw [List.map_map, List.map_map] at hsub'
    rw [videoData_eq hunits hbytes, Option.map_some] at hsome
    have hne : s.videoUnits track force ≠ [] := fun hnil => hcons (map_eq_nil_iff.1 hnil)
    refine ⟨_, hsome, iff_of_false (Option.some_ne_none _) hne, hunits ▸ hsub',
      fun data hdata => ?_⟩
    obtain rfl := Option.mem_some.1 hdata
    refine selfConsistent_iff (Eq.trans ?_ hsizes)
    rw [List.map_map]
    rfl

/-- No write lies behind the end of an array, and a segment is emitted exactly if a sample goes
    out. Unless it is raw audio, which is the units alone, it reads as one `moof` and one `mdat`
    with these units exactly if the sizes fit their fields. -/
theorem segments_selfConsistent (s : Remuxer ν) (force : Bool) :
    (∀ track : AudioTrack ν, ∃ segment, emitted (s.remuxAudio track force) = some segment ∧
      (segment = none ↔ s.audioUnits track force = []) ∧
      List.Sublist (s.audioUnits track force)
        ((s.audioStashedLastSample.toList ++ track.samples).map AudioSample.unit) ∧
      ∀ data ∈ segment, if s.mpegRawTrack then data = (s.audioUnits track force).flatten
        else SelfConsistent data (s.audioUnits track force) ↔
          FitFields (s.audioUnits track force)) ∧
    ∀ track : VideoTrack ν, ∃ segment, emitted (s.remuxVideo track force) = some segment ∧
      (segment = none ↔ s.videoUnits track force = []) ∧
      List.Sublist (s.videoUnits track force)
        ((s.videoStashedLastSample.toList ++ track.samples).map fun sample =>
          videoBytes sample.units) ∧
      ∀ data ∈ segment, SelfConsistent data (s.videoUnits track force) ↔
        FitFields (s.videoUnits track force) :=
  ⟨fun track => emitted_audio s track force, fun track => emitted_video s track force⟩

/-- A remuxer with both tracks, before its first batch. -/
def ready (codec : String) (mp3UseMpegAudio : Bool) : Remuxer ℚ where
  dtsBase := 0
  dtsBaseInited := true
  dtsBaseOffset := 0
  audioNextDts := none
  videoNextDts := none
  audioStashedLastSample := none
  videoStashedLastSample := none
  audioTiming := ⟨none, none, none, none, 0⟩
  videoTiming := ⟨none, none, none, none, 0⟩
  videoPresentationOffset := none
  videoInitialPresentationOffset := none
  videoInitialOutputTime := none
  audioMeta := some ⟨codec, some (64 / 3)⟩
  videoMeta := some ⟨"avc1.64001f", some 40⟩
  mp3UseMpegAudio := mp3UseMpegAudio
  tsSegmentContinuityNormalization := true
  audioMediaSegmentEmitted := false
  videoMediaSegmentEmitted := false

/-- Stashed samples, of which that of audio overlaps. -/
def stashing : Remuxer ℚ :=
  { ready "mp4a.40.2" false with
    audioStashedLastSample := some ⟨[1, 2, 3], 100, 3, rfl⟩
    audioTiming := ⟨some 100, some 121, some 121, some 21, 1 / 3⟩
    videoStashedLastSample := some ⟨[⟨[7, 8], some false⟩], 80, 40, 6, true, rfl⟩ }

def audioTrack : AudioTrack ℚ :=
  ⟨2, 5, [⟨[4, 5], 121, 2, rfl⟩, ⟨[6], 142, 1, rfl⟩, ⟨[7], 164, 1, rfl⟩], 4, rfl⟩

def videoTrack : VideoTrack ℚ :=
  ⟨1, 5, [⟨[⟨[9], some false⟩, ⟨[10], some false⟩], 120, 0, 10, false, rfl⟩,
    ⟨[⟨[11], some false⟩], 160, 0, 5, false, rfl⟩], 15, rfl⟩

/-- The stashed sample of audio is dropped, that of video goes out first. -/
theorem segments_selfConsistent_stashing :
    (∃ data, emitted (stashing.remuxAudio audioTrack false) = some (some data) ∧
      SelfConsistent data [[4, 5], [6]]) ∧
    ∃ data, emitted (stashing.remuxVideo videoTrack false) = some (some data) ∧
      SelfConsistent data [[0, 0, 0, 2, 7, 8], [0, 0, 0, 1, 9, 0, 0, 0, 1, 10]] := by
  have haudio : stashing.audioUnits audioTrack false = [[4, 5], [6]] := by decide +kernel
  have hvideo : stashing.videoUnits videoTrack false =
      [[0, 0, 0, 2, 7, 8], [0, 0, 0, 1, 9, 0, 0, 0, 1, 10]] := by decide +kernel
  obtain ⟨hall, hall'⟩ := segments_selfConsistent stashing false
  obtain ⟨segment, hemitted, hnone, -, hdata⟩ := hall audioTrack
  obtain ⟨segment', hemitted', hnone', -, hdata'⟩ := hall' videoTrack
  rw [haudio] at hnone hdata
  rw [hvideo] at hnone' hdata'
  obtain ⟨data, rfl⟩ := Option.ne_none_iff_exists'.1 (mt hnone.1 (by decide))
  obtain ⟨data', rfl⟩ := Option.ne_none_iff_exists'.1 (mt hnone'.1 (by decide))
  have hboxed := hdata data rfl
  rw [if_neg (by decide)] at hboxed
  exact ⟨⟨data, hemitted, hboxed.2 ⟨by decide, by decide⟩⟩,
    data', hemitted', (hdata' data' rfl).2 ⟨by decide, by decide⟩⟩

def single (unit : Bytes) : AudioTrack ℚ := ⟨2, 0, [⟨unit, 0, unit.length, rfl⟩], unit.length, rfl⟩

theorem audioUnits_single (codec : String) (mp3UseMpegAudio : Bool) (unit : Bytes) :
    (ready codec mp3UseMpegAudio).audioUnits (single unit) true = [unit] := by
  have hlt : ¬ JsNumber.lt ((0 : ℚ) - 0) (JsNumber.ofRat (-1 / 1000)) = true := by decide +kernel
  have hstep (r : SampleRun ℚ Bytes) (sample : AudioSample ℚ) (h : sample.dts = 0) :
      ((ready codec mp3UseMpegAudio).audioStep r sample).mp4Samples.map MP4Sample.unit =
        r.mp4Samples.map MP4Sample.unit ++ [sample.unit] := by
    rw [audioStep, h, show (ready codec mp3UseMpegAudio).dtsBase = 0 from rfl, if_neg hlt]
    exact map_append
  rw [audioUnits, audioOut, if_neg (by simp [ready, single])]
  exact hstep _ _ rfl

theorem emitted_single (codec : String) (mp3UseMpegAudio : Bool) (unit : Bytes) :
    ∃ data, emitted ((ready codec mp3UseMpegAudio).remuxAudio (single unit) true) =
        some (some data) ∧
      if (ready codec mp3UseMpegAudio).mpegRawTrack then data = unit
      else SelfConsistent data [unit] ↔ FitFields [unit] := by
  obtain ⟨segment, hemitted, hnone, -, hdata⟩ :=
    emitted_audio (ready codec mp3UseMpegAudio) (single unit) true
  rw [audioUnits_single] at hnone hdata
  obtain ⟨data, rfl⟩ := Option.ne_none_iff_exists'.1 (mt hnone.1 (cons_ne_nil unit []))
  rw [flatten_singleton] at hdata
  exact ⟨data, hemitted, hdata data rfl⟩

theorem not_fitFields {unit : Bytes} (h : unit.length = 2 ^ 32 - 8) : ¬ FitFields [unit] := by
  rw [FitFields, flatten_singleton, h]
  omega

/-- Raw audio has no boxes, and the size of an `mdat` of 2^32 bytes does not fit its field. -/
theorem not_selfConsistent :
    (∃ data, emitted ((ready "mp3" true).remuxAudio (single [1, 2, 3]) true) = some (some data) ∧
      ¬ SelfConsistent data [[1, 2, 3]]) ∧
    ∃ data, emitted ((ready "mp4a.40.2" false).remuxAudio
        (single (List.replicate (2 ^ 32 - 8) 0)) true) = some (some data) ∧
      ¬ SelfConsistent data [List.replicate (2 ^ 32 - 8) 0] := by
  constructor
  · obtain ⟨data, hemitted, hdata⟩ := emitted_single "mp3" true [1, 2, 3]
    rw [if_pos (by decide)] at hdata
    rw [hdata] at hemitted
    refine ⟨[1, 2, 3], hemitted, fun ⟨f, hread, _⟩ => ?_⟩
    rw [show readFragment [1, 2, 3] = none from rfl] at hread
    cases hread
  · obtain ⟨data, hemitted, hdata⟩ :=
      emitted_single "mp4a.40.2" false (List.replicate (2 ^ 32 - 8) 0)
    rw [if_neg (by decide)] at hdata
    refine ⟨data, hemitted, fun hconsistent => ?_⟩
    exact not_fitFields length_replicate (hdata.1 hconsistent)

end Remuxer

end Apackage.Rtp2httpd.Player.Remux
