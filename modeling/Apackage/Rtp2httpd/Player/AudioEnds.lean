import Apackage.Rtp2httpd.Player.AudioFrames

/-
  The frame loops on any data (`ts-demuxer.ts`, `aac.ts`, `ac3.ts`).

  The AC-3 and E-AC-3 loops end on every data. The other two do not: an ADTS header with a frame
  length of 0 steps over no byte, and the search finds it again; the reader of an AudioMuxElement
  throws when the element ends before its fields do, or when the fill bits are more than 32.
-/

namespace Apackage.Rtp2httpd.Player

open List Option Lib.BitSyntax Lib.FrameScan

inductive AudioFormat
  | adts
  | loas
  | ac3
  | eac3
  deriving DecidableEq

def AudioFormat.parser : AudioFormat → Scanner AudioFrame UInt8
  | .adts => aacADTSParser
  | .loas => aacLOASParser
  | .ac3 => ac3Parser
  | .eac3 => eac3Parser

/-- The data that the frame loop runs over. -/
def joinedData (carried : Option Bytes) (payload : Bytes) : Bytes := carried.getD [] ++ payload

/-- The frame loop ends, within as many rounds as its data has bytes, and does not throw. -/
def Ends (format : AudioFormat) (previous : Option AudioFrame) (data : Bytes) : Prop :=
  (format.parser.parse data.length previous data).ending.isDone = true

/-- A field of an AudioMuxElement: it lies within the element and has at most 32 bits. -/
def muxField (n : ℕ) : StateT (List Bool) Option ℤ := if n ≤ 32 then takeBits n else failure

/-- Every field that the element announces lies within its bytes. -/
def FieldsWithin (previous : Option AudioFrame) (element : Bytes) : Prop :=
  audioMuxElement muxField element.length previous (ExpGolomb.bytesBits element) ≠ none

/-- What the loop of the format needs of the data from a sync word on. -/
def Sound : AudioFormat → Option AudioFrame → Bytes → Prop
  | .adts, _, data => adtsFrameLength data ≠ 0
  | .loas, previous, data =>
    3 + audioMuxLengthBytes data < data.length → FieldsWithin previous (audioMuxBytes data)
  | .ac3, _, _ => True
  | .eac3, _, _ => True

/-! ## The reader of the elements -/

section Elements

open ExpGolomb

variable {α : Type}

theorem simulates_field {n : ℕ} (hpos : 0 < n) (hn : n ≤ 8) :
    Simulates view (readBits n) (muxField n) := by
  rw [muxField, if_pos (by omega)]
  exact simulates_readBits hpos hn

theorem simulates_cut {n : ℕ} (hpos : 0 < n) {p : StateT ExpGolomb Option α}
    {q : StateT (List Bool) Option α} (hp : Simulates view p q) (hend : q [] = none) :
    Simulates view (readBits n >>= fun _ => p) (muxField n >>= fun _ => q) := by
  intro gb
  simp only [Bind.bind, StateT.bind, muxField]
  by_cases hn : n ≤ 32
  · rw [if_pos hn, takeBits]
    by_cases hle : n ≤ gb.view.length
    · obtain ⟨x, gb', hrun, hrest, -⟩ := readBits_spec hpos hn (length_take_of_le hle)
        (take_append_drop n gb.view).symm
      rw [if_pos hle, hrun, bind_some, bind_some, ← hrest]
      exact hp gb'
    · rw [if_neg hle]
      have hshort : gb.view.length < n := by omega
      rcases readBits_short hn hshort with hrun | ⟨x, gb', hrun, hrest⟩
      · rw [hrun]
        rfl
      · have hthrows : p gb' = none := (hp.eq_none_iff gb').2 (hrest ▸ hend)
        rw [hrun, bind_some, hthrows]
        rfl
  · rw [if_neg hn, readBits, if_pos (by omega)]
    rfl

theorem simulates_readIf {c : Prop} [Decidable c] {p : StateT ExpGolomb Option ℤ}
    {q : StateT (List Bool) Option ℤ} (h : Simulates view p q) :
    Simulates view (readIf c p) (readIf c q) :=
  Simulates.ite (fun _ => h) fun _ => Simulates.pure 0

theorem simulates_fill (fillBits : ℤ) {p : ℤ → StateT ExpGolomb Option α}
    {q : ℤ → StateT (List Bool) Option α} (h : ∀ x, Simulates view (p x) (q x)) :
    Simulates view
      (readIf (16 < fillBits) (readBits (fillBits - 16).toNat) >>= fun _ => readBits 3 >>= p)
      (readIf (16 < fillBits) (muxField (fillBits - 16).toNat) >>= fun _ => muxField 3 >>= q) := by
  have hbehind := (simulates_field (n := 3) (by decide) (by decide)).bind h
  rw [readIf, readIf]
  split_ifs with hfill
  · exact simulates_cut (by omega) hbehind rfl
  · exact (Simulates.pure 0).bind fun _ => hbehind

theorem simulates_latmBytes (n : ℕ) (value : ℤ) :
    Simulates view (latmBytes readBits n value) (latmBytes muxField n value) := by
  induction n generalizing value with
  | zero => exact Simulates.pure value
  | succ n ih => exact (simulates_field (by decide) (by decide)).bind fun byte => ih _

theorem simulates_getLATMValue : Simulates view (getLATMValue readBits) (getLATMValue muxField) :=
  (simulates_field (by decide) (by decide)).bind fun _ => simulates_latmBytes _ _

variable (fuel : ℕ)

theorem simulates_otherDataLen :
    Simulates view (otherDataLen readBits fuel) (otherDataLen muxField fuel) := by
  induction fuel with
  | zero => exact Simulates.failure
  | succ fuel ih =>
    exact (simulates_field (by decide) (by decide)).bind fun _ =>
      (simulates_field (by decide) (by decide)).bind fun tmp =>
        Simulates.ite (fun _ => ih) fun _ => Simulates.pure tmp

theorem simulates_otherData (audioMuxVersion : ℤ) :
    Simulates view (otherData readBits fuel audioMuxVersion)
      (otherData muxField fuel audioMuxVersion) :=
  Simulates.ite (fun _ => simulates_getLATMValue) fun _ => simulates_otherDataLen fuel

theorem simulates_payloadLength :
    Simulates view (payloadLength readBits fuel) (payloadLength muxField fuel) := by
  induction fuel with
  | zero => exact Simulates.failure
  | succ fuel ih =>
    exact (simulates_field (by decide) (by decide)).bind fun tmp =>
      Simulates.ite (fun _ => Simulates.pure _) fun _ => ih.bind fun _ => Simulates.pure _

theorem simulates_payloadBytes (n : ℕ) :
    Simulates view (payloadBytes readBits n) (payloadBytes muxField n) := by
  induction n with
  | zero => exact Simulates.pure []
  | succ n ih =>
    exact (simulates_field (by decide) (by decide)).bind fun byte =>
      ih.bind fun _ => Simulates.pure _

theorem simulates_muxPayload (metadata : AudioMetadata) :
    Simulates view (muxPayload readBits fuel metadata) (muxPayload muxField fuel metadata) :=
  (simulates_payloadLength fuel).bind fun length =>
    (simulates_payloadBytes length).bind fun _ => Simulates.pure _

theorem simulates_streamMuxConfig :
    Simulates view (streamMuxConfig readBits fuel) (streamMuxConfig muxField fuel) := by
  have hfield : ∀ n, 0 < n → n ≤ 8 → Simulates view (readBits n) (muxField n) :=
    fun n => simulates_field
  have hnone : Simulates view (pure none : StateT ExpGolomb Option (Option AudioMetadata))
      (pure none) := Simulates.pure none
  refine (hfield 1 (by decide) (by decide)).bind fun audioMuxVersion => ?_
  refine (simulates_readIf (hfield 1 (by decide) (by decide))).bind fun audioMuxVersionA => ?_
  refine Simulates.ite (fun _ => hnone) fun _ => ?_
  refine (simulates_readIf simulates_getLATMValue).bind fun _ => ?_
  refine (hfield 1 (by decide) (by decide)).bind fun allStreamsSameTimeFraming => ?_
  refine Simulates.ite (fun _ => hnone) fun _ => ?_
  refine (hfield 6 (by decide) (by decide)).bind fun numSubFrames => ?_
  refine Simulates.ite (fun _ => hnone) fun _ => ?_
  refine (hfield 4 (by decide) (by decide)).bind fun numProgram => ?_
  refine Simulates.ite (fun _ => hnone) fun _ => ?_
  refine (hfield 3 (by decide) (by decide)).bind fun numLayer => ?_
  refine Simulates.ite (fun _ => hnone) fun _ => ?_
  refine (simulates_readIf simulates_getLATMValue).bind fun fillBits => ?_
  refine (hfield 5 (by decide) (by decide)).bind fun audioObjectType => ?_
  refine (hfield 4 (by decide) (by decide)).bind fun samplingFreqIndex => ?_
  refine (hfield 4 (by decide) (by decide)).bind fun channelConfig => ?_
  refine (hfield 3 (by decide) (by decide)).bind fun _ => ?_
  refine simulates_fill fillBits fun frameLengthType => ?_
  refine Simulates.ite (fun _ => hnone) fun _ => ?_
  refine (hfield 8 (by decide) (by decide)).bind fun _ => ?_
  refine (hfield 1 (by decide) (by decide)).bind fun otherDataPresent => ?_
  refine (simulates_readIf (simulates_otherData fuel audioMuxVersion)).bind fun _ => ?_
  refine (hfield 1 (by decide) (by decide)).bind fun crcCheckPresent => ?_
  refine (simulates_readIf (hfield 8 (by decide) (by decide))).bind fun _ => ?_
  exact Simulates.pure _

theorem simulates_audioMuxElement (previous : Option AudioFrame) :
    Simulates view (audioMuxElement readBits fuel previous)
      (audioMuxElement muxField fuel previous) := by
  refine (simulates_field (by decide) (by decide)).bind fun useSameStreamMux => ?_
  refine Simulates.ite (fun _ => ?_) fun _ => ?_
  · cases previous with
    | none => exact Simulates.pure MuxElement.missing
    | some frame => exact simulates_muxPayload fuel frame.metadata
  · refine (simulates_streamMuxConfig fuel).bind fun config => ?_
    cases config with
    | none => exact Simulates.pure MuxElement.unsupported
    | some metadata => exact simulates_muxPayload fuel metadata

end Elements

/-! ## The frame loops -/

variable (previous : Option AudioFrame)

theorem adtsScan_harmless {data : Bytes} (h : adtsFrameLength data ≠ 0) :
    (adtsScan previous data).Harmless := by
  rw [adtsScan]
  split_ifs with hpart hlayer
  · trivial
  · exact h
  · exact h

theorem adtsScan_stuck {data : Bytes} (h : adtsFrameLength data = 0) :
    (∃ frame, adtsScan previous data = .frame frame 0) ∨ adtsScan previous data = .skip 0 := by
  rw [adtsScan, h, if_neg (Nat.not_lt_zero _)]
  split_ifs with hlayer
  · exact .inr rfl
  · exact .inl ⟨_, rfl⟩

theorem ac3Scan_harmless (data : Bytes) : (ac3Scan previous data).Harmless := by
  rw [ac3Scan]
  split
  · next samplingFrequency frameSize hfrequency hsize =>
    split_ifs with hpart
    · trivial
    · have hrow : ∀ row ∈ frameSizeCodeTable, ∀ words ∈ row, words ≠ 0 := by decide
      rw [ac3FrameSize, map_eq_some_iff] at hsize
      obtain ⟨words, hwords, rfl⟩ := hsize
      obtain ⟨row, htable, hcode⟩ := bind_eq_some_iff.1 hwords
      have hne := hrow row (mem_of_getElem? htable) words (mem_of_getElem? hcode)
      exact Nat.mul_ne_zero hne two_ne_zero
  · exact two_ne_zero

theorem eac3Scan_harmless {data : Bytes} (h : 8 ≤ data.length) :
    (eac3Scan previous data).Harmless := by
  rw [eac3Scan_eq h, eac3Fields]
  split
  · exact two_ne_zero
  · next frameSize metadata hfields =>
    split_ifs with hpart
    · trivial
    · rw [← (Prod.mk.inj hfields).1]
      exact Nat.mul_ne_zero (Nat.succ_ne_zero _) two_ne_zero

theorem loasScan_throws_iff (data : Bytes) :
    loasScan previous data = .throws ↔ ¬Sound .loas previous data := by
  rw [loasScan, Sound, FieldsWithin]
  by_cases hpart : data.length ≤ 3 + audioMuxLengthBytes data
  · simp [*]
  · have hlen : (audioMuxBytes data).length = audioMuxLengthBytes data := by
      rw [audioMuxBytes, length_take, length_drop]
      omega
    have hnone := (simulates_audioMuxElement (audioMuxLengthBytes data) previous).eq_none_iff
      (.ofBytes (audioMuxBytes data))
    rw [ExpGolomb.view_ofBytes] at hnone
    rw [if_neg hpart, hlen, Ne, ← hnone]
    have hlt : 3 + audioMuxLengthBytes data < data.length := by omega
    cases hrun : audioMuxElement ExpGolomb.readBits (audioMuxLengthBytes data) previous
      (.ofBytes (audioMuxBytes data)) with
    | none => exact iff_of_true rfl fun h => h hlt rfl
    | some r =>
      grind

theorem loasScan_harmless {previous : Option AudioFrame} {data : Bytes}
    (h : loasScan previous data ≠ .throws) : (loasScan previous data).Harmless := by
  rw [loasScan] at h ⊢
  split_ifs at h ⊢ with hpart
  · trivial
  · cases hrun : audioMuxElement ExpGolomb.readBits (audioMuxLengthBytes data) previous
      (.ofBytes (audioMuxBytes data)) with
    | none => exact absurd (by rw [hrun]) h
    | some r =>
      obtain ⟨element, gb⟩ := r
      cases element with
      | frame frame => exact (by omega : 3 + audioMuxLengthBytes data ≠ 0)
      | missing => exact (by omega : 3 + audioMuxLengthBytes data ≠ 0)
      | unsupported => trivial

/-- The frame loop of each format ends within as many rounds as its data has bytes, and throws
    nothing, if and only if it comes to no ADTS header with a frame length of 0 and to no whole
    AudioMuxElement that ends before its fields. -/
theorem frame_loop_ends_iff (format : AudioFormat) (previous : Option AudioFrame)
    (carried : Option Bytes) (payload : Bytes) :
    Ends format previous (joinedData carried payload) ↔
      ∀ previous' data, format.parser.Visits previous (joinedData carried payload) previous' data →
        Sound format previous' data := by
  constructor
  · intro hends previous' data hvisits
    by_contra hsound
    have hnot : ∀ n,
        (format.parser.parse n previous (joinedData carried payload)).ending.isDone = false := by
      cases format with
      | adts => exact parse_stuck hvisits fun previous => adtsScan_stuck previous (not_not.1 hsound)
      | loas => exact parse_throws hvisits ((loasScan_throws_iff previous' data).2 hsound)
      | ac3 => exact absurd trivial hsound
      | eac3 => exact absurd trivial hsound
    rw [Ends, hnot] at hends
    cases hends
  · intro hsound
    refine parse_ends fun previous' data hvisits => ?_
    have hdata := hsound previous' data hvisits
    cases format with
    | adts => exact adtsScan_harmless previous' hdata
    | loas =>
      exact loasScan_harmless fun hthrows => (loasScan_throws_iff previous' data).1 hthrows hdata
    | ac3 => exact ac3Scan_harmless previous' data
    | eac3 => exact eac3Scan_harmless previous' (search_spec (visits_found hvisits)).2.2.1

/-- An ADTS header with a frame length of 0, and a LOAS sync word with an element of no bytes. -/
theorem length_zero_does_not_end :
    ¬Ends .adts none (joinedData none [0xFF, 0xF1, 0x50, 0x80, 0, 0x1F, 0xFC, 0]) ∧
      ¬Ends .loas none (joinedData none [0x56, 0xE0, 0, 0]) := by
  constructor <;> rw [Ends] <;> decide

end Apackage.Rtp2httpd.Player
