import Apackage.Lib.Boxes
import Apackage.Rtp2httpd.Http.Url

/-
  The boxes of a fragment (`mp4-generator.ts`).

  `MP4.moof` describes the samples that follow it: `trun` has a row of 16 bytes for each, and the
  offset of the first one from the start of `moof`. `readFragment` is what a player reads of `moof`
  and `mdat`; these are the samples exactly if the sizes fit their fields (`selfConsistent_iff`).

  Model. A number of 32 bits is written at once. A write behind the end of an array is none, for the
  elements that JavaScript drops too.
-/

namespace Apackage.Rtp2httpd.Player

open List Option Lib.Region Lib.Boxes

structure SampleFlags where
  isLeading : UInt8
  dependsOn : UInt8
  isDependedOn : UInt8
  hasRedundancy : UInt8
  isNonSync : UInt8

/-- What the boxes say of a sample, in numbers of 32 bits. -/
structure SampleEntry where
  duration : UInt32
  size : ℕ
  cts : UInt32
  flags : SampleFlags

structure MP4Track where
  id : ℕ
  sequenceNumber : ℕ
  samples : List SampleEntry

namespace MP4

/-- `MP4.types`: the letters of the name. -/
def boxType (a b c d : Char) : Bytes := [a, b, c, d].map fun letter => UInt8.ofNat letter.toNat

def box (type : Bytes) (datas : List Bytes) : Option Bytes := do
  let size := datas.foldl (fun size data => size + data.length) 8
  let result ← store (List.replicate size 0) 0 (bytesOf 4 size)
  let result ← store result 4 type
  storeAll result 8 datas

def mfhd (sequenceNumber : ℕ) : Option Bytes :=
  box (boxType 'm' 'f' 'h' 'd') [[0x00, 0x00, 0x00, 0x00] ++ bytesOf 4 sequenceNumber]

def sdtpByte (flags : SampleFlags) : UInt8 :=
  (flags.isLeading <<< 6) ||| (flags.dependsOn <<< 4) ||| (flags.isDependedOn <<< 2) |||
    flags.hasRedundancy

def sdtp (track : MP4Track) : Option Bytes :=
  box (boxType 's' 'd' 't' 'p')
    [[0x00, 0x00, 0x00, 0x00] ++ track.samples.map fun sample => sdtpByte sample.flags]

def trunRow (sample : SampleEntry) : Bytes :=
  bytesOf 4 sample.duration.toNat ++ bytesOf 4 sample.size ++
    [(sample.flags.isLeading <<< 2) ||| sample.flags.dependsOn,
      (sample.flags.isDependedOn <<< 6) ||| (sample.flags.hasRedundancy <<< 4) |||
        sample.flags.isNonSync, 0x00, 0x00] ++ bytesOf 4 sample.cts.toNat

/-- `data.set(…, 12 + 16 * i)` for the samples from `i` on. -/
def setRows (data : Bytes) : ℕ → List SampleEntry → Option Bytes
  | _, [] => some data
  | i, sample :: samples => do
    let data ← store data (12 + 16 * i) (trunRow sample)
    setRows data (i + 1) samples

def trun (track : MP4Track) (offset : ℕ) : Option Bytes := do
  let sampleCount := track.samples.length
  let dataSize := 12 + 16 * sampleCount
  let offset := offset + (8 + dataSize)
  let data ← store (List.replicate dataSize 0) 0
    ([0x01, 0x00, 0x0f, 0x01] ++ bytesOf 4 sampleCount ++ bytesOf 4 offset)
  let data ← setRows data 0 track.samples
  box (boxType 't' 'r' 'u' 'n') [data]

def traf (track : MP4Track) (baseMediaDecodeTime : UInt32) : Option Bytes := do
  let tfhd ← box (boxType 't' 'f' 'h' 'd') [[0x00, 0x00, 0x00, 0x00] ++ bytesOf 4 track.id]
  let tfdt ← box (boxType 't' 'f' 'd' 't')
    [[0x00, 0x00, 0x00, 0x00] ++ bytesOf 4 baseMediaDecodeTime.toNat]
  let sdtp ← sdtp track
  let trun ← trun track (sdtp.length + 16 + 16 + 8 + 16 + 8 + 8)
  box (boxType 't' 'r' 'a' 'f') [tfhd, tfdt, trun, sdtp]

def moof (track : MP4Track) (baseMediaDecodeTime : UInt32) : Option Bytes := do
  let mfhd ← mfhd track.sequenceNumber
  let traf ← traf track baseMediaDecodeTime
  box (boxType 'm' 'o' 'o' 'f') [mfhd, traf]

/-! ## The boxes as written -/

theorem length_boxType (a b c d : Char) : (boxType a b c d).length = 4 := rfl

theorem sum_length (datas : List Bytes) (size : ℕ) :
    datas.foldl (fun size data => size + data.length) size = size + datas.flatten.length := by
  induction datas generalizing size with
  | nil => rfl
  | cons data datas ih => rw [foldl_cons, ih, flatten_cons, length_append, Nat.add_assoc]

theorem box_eq {type : Bytes} (htype : type.length = 4) (datas : List Bytes) :
    box type datas = some (Box.encode ⟨type, datas.flatten⟩) := by
  have hfill := @storeAll_fill _ [] (List.replicate (8 + datas.flatten.length) (0 : UInt8))
    (bytesOf 4 (8 + datas.flatten.length) :: type :: datas) (by
      rw [flatten_cons, flatten_cons, length_append, length_append,
        length_bytesOf, htype, length_replicate]
      omega)
  rw [storeAll, length_bytesOf] at hfill
  simp only [storeAll, htype] at hfill
  rw [box, sum_length]
  exact hfill

theorem length_trunRow (sample : SampleEntry) : (trunRow sample).length = 16 := by
  simp only [trunRow, length_append, length_bytesOf, length_cons, length_nil]

variable (samples : List SampleEntry)

theorem length_rows : (samples.flatMap trunRow).length = 16 * samples.length := by
  induction samples with
  | nil => rfl
  | cons sample samples ih =>
    rw [flatMap_cons, length_append, length_trunRow, ih, length_cons]
    omega

theorem setRows_fill {pre old : Bytes} {i : ℕ} {samples : List SampleEntry}
    (hpre : pre.length = 12 + 16 * i) (hold : old.length = 16 * samples.length) :
    setRows (pre ++ old) i samples = some (pre ++ samples.flatMap trunRow) := by
  induction samples generalizing pre old i with
  | nil => rw [setRows, eq_nil_of_length_eq_zero hold, flatMap_nil]
  | cons sample samples ih =>
    rw [length_cons] at hold
    have hrow := store_behind pre (trunRow sample) old (by rw [length_trunRow]; omega)
    rw [hpre, length_trunRow] at hrow
    have hrest := @ih (pre ++ trunRow sample) (old.drop 16) (i + 1)
      (by rw [length_append, length_trunRow]; omega) (by rw [length_drop]; omega)
    rw [append_assoc, append_assoc] at hrest
    rw [setRows, hrow, flatMap_cons]
    exact hrest

def trunBox (samples : List SampleEntry) (dataOffset : ℕ) : Box :=
  ⟨boxType 't' 'r' 'u' 'n', [0x01, 0x00, 0x0f, 0x01] ++ bytesOf 4 samples.length ++
    bytesOf 4 dataOffset ++ samples.flatMap trunRow⟩

variable (track : MP4Track)

theorem trun_eq (offset : ℕ) : trun track offset =
      some (trunBox track.samples (offset + (20 + 16 * track.samples.length))).encode := by
  obtain ⟨id, sequenceNumber, samples⟩ := track
  obtain ⟨header, hheader⟩ : ∃ header : Bytes, [0x01, 0x00, 0x0f, 0x01] ++
      bytesOf 4 samples.length ++ bytesOf 4 (offset + (20 + 16 * samples.length)) = header :=
    ⟨_, rfl⟩
  have hlength : header.length = 12 := by
    rw [← hheader, length_append, length_append, length_bytesOf, length_bytesOf]
    rfl
  have hzeros : List.replicate (12 + 16 * samples.length) (0 : UInt8) =
      List.replicate 12 0 ++ List.replicate (16 * samples.length) 0 := by
    rw [replicate_append_replicate]
  have hstore := store_behind [] header
    (List.replicate 12 (0 : UInt8) ++ List.replicate (16 * samples.length) 0)
    (by rw [hlength]; simp)
  rw [hlength, drop_left' length_replicate, nil_append, nil_append, length_nil] at hstore
  have hrows := @setRows_fill header (List.replicate (16 * samples.length) 0) 0 samples
    (by rw [hlength]) length_replicate
  have hoffset :
      offset + (8 + (12 + 16 * samples.length)) = offset + (20 + 16 * samples.length) := by
    omega
  rw [trun]
  simp only [bind_eq_bind, hzeros, hoffset, hheader, hstore, bind_some, hrows,
    box_eq (length_boxType 't' 'r' 'u' 'n'), trunBox, flatten_singleton]

def mfhdBox (track : MP4Track) : Box :=
  ⟨boxType 'm' 'f' 'h' 'd', [0x00, 0x00, 0x00, 0x00] ++ bytesOf 4 track.sequenceNumber⟩

def tfhdBox (track : MP4Track) : Box :=
  ⟨boxType 't' 'f' 'h' 'd', [0x00, 0x00, 0x00, 0x00] ++ bytesOf 4 track.id⟩

def tfdtBox (baseMediaDecodeTime : UInt32) : Box :=
  ⟨boxType 't' 'f' 'd' 't', [0x00, 0x00, 0x00, 0x00] ++ bytesOf 4 baseMediaDecodeTime.toNat⟩

def sdtpBox (track : MP4Track) : Box :=
  ⟨boxType 's' 'd' 't' 'p',
    [0x00, 0x00, 0x00, 0x00] ++ track.samples.map fun sample => sdtpByte sample.flags⟩

def moofSize (sampleCount : ℕ) : ℕ := 96 + 17 * sampleCount

/-- The boxes in `traf`; the samples begin 8 bytes behind `moof`. -/
def trafBoxes (track : MP4Track) (baseMediaDecodeTime : UInt32) : List Box :=
  [tfhdBox track, tfdtBox baseMediaDecodeTime,
    trunBox track.samples (moofSize track.samples.length + 8), sdtpBox track]

def trafBox (track : MP4Track) (baseMediaDecodeTime : UInt32) : Box :=
  ⟨boxType 't' 'r' 'a' 'f', (trafBoxes track baseMediaDecodeTime).flatMap Box.encode⟩

def moofBox (track : MP4Track) (baseMediaDecodeTime : UInt32) : Box :=
  ⟨boxType 'm' 'o' 'o' 'f', [mfhdBox track, trafBox track baseMediaDecodeTime].flatMap Box.encode⟩

theorem moof_eq (baseMediaDecodeTime : UInt32) :
    moof track baseMediaDecodeTime = some (moofBox track baseMediaDecodeTime).encode := by
  have hsdtp : (sdtpBox track).encode.length = 12 + track.samples.length := by
    rw [Box.length_encode rfl, Box.size, sdtpBox, length_append, length_map]
    simp only [length_cons, length_nil]
    omega
  have hoffset : (sdtpBox track).encode.length + 16 + 16 + 8 + 16 + 8 + 8 +
      (20 + 16 * track.samples.length) = moofSize track.samples.length + 8 := by
    rw [hsdtp, moofSize]
    omega
  have hsdtp_eq : sdtp track = some (sdtpBox track).encode := by
    rw [sdtp, box_eq (length_boxType _ _ _ _), flatten_singleton]
    rfl
  have htraf : traf track baseMediaDecodeTime =
      some (trafBox track baseMediaDecodeTime).encode := by
    rw [traf]
    simp only [bind_eq_bind, box_eq (length_boxType _ _ _ _), bind_some, hsdtp_eq, trun_eq, hoffset]
    rfl
  rw [moof]
  simp only [bind_eq_bind, mfhd, box_eq (length_boxType _ _ _ _), bind_some, htraf]
  rfl

theorem size_moofBox (baseMediaDecodeTime : UInt32) :
    (moofBox track baseMediaDecodeTime).size = moofSize track.samples.length := by
  simp only [moofBox, Box.size, trafBox, trafBoxes, flatMap_cons, flatMap_nil, append_nil,
    length_append, Box.encode, mfhdBox, tfhdBox, tfdtBox, trunBox, sdtpBox, length_bytesOf,
    length_boxType, length_rows, length_cons, length_nil, length_map, moofSize]
  omega

/-! ## What a player reads -/

/-- What the boxes of a segment say of its samples. -/
structure Fragment where
  moofSize : ℕ
  /-- `data_offset` of `trun`, a signed number. -/
  dataOffset : ℤ
  /-- `sample_size` in the rows of `trun`. -/
  sampleSizes : List ℕ
  mdat : Bytes

/-- The first box of a type in the payload of another. -/
def child (type data : Bytes) : Option Box :=
  (readBoxes data.length data).bind fun boxes => boxes.find? fun b => b.type = type

def signedNumber (v : ℕ) : ℤ := if v < 2 ^ 31 then v else v - 2 ^ 32

/-- The size in a row with duration, size, flags and composition offset. -/
def rowSize (row : Bytes) : Option ℕ := loadNat row 4 4

def readTrun (payload : Bytes) : Option (ℤ × List ℕ) := do
  let sampleCount ← loadNat payload 4 4
  let dataOffset ← loadNat payload 8 4
  let rows := cut (List.replicate sampleCount 16) (payload.drop 12)
  if payload.take 4 = [0x01, 0x00, 0x0f, 0x01] ∧ payload.length = 12 + 16 * sampleCount then
    pure (signedNumber dataOffset, rows.filterMap rowSize)
  else none

/-- A segment of one `moof` and one `mdat`, and nothing else. -/
def readFragment (segment : Bytes) : Option Fragment := do
  let boxes ← readBoxes segment.length segment
  let moof ← boxes[0]?
  let mdat ← boxes[1]?
  let traf ← child (boxType 't' 'r' 'a' 'f') moof.payload
  let trun ← child (boxType 't' 'r' 'u' 'n') traf.payload
  let run ← readTrun trun.payload
  if boxes.map Box.type = [boxType 'm' 'o' 'o' 'f', boxType 'm' 'd' 'a' 't'] then
    pure ⟨moof.size, run.1, run.2, mdat.payload⟩
  else none

/-- The segment is read as one `moof` and one `mdat` that fill it; the first sample is where
    `trun` says, and the sizes there cut `mdat` into the units. -/
def SelfConsistent (segment : Bytes) (units : List Bytes) : Prop :=
  ∃ f, readFragment segment = some f ∧ f.moofSize + (8 + f.mdat.length) = segment.length ∧
    f.dataOffset = f.moofSize + 8 ∧ f.sampleSizes.sum = f.mdat.length ∧
    cut f.sampleSizes f.mdat = units

theorem rowSize_trunRow {sample : SampleEntry} (h : sample.size < 256 ^ 4) :
    rowSize (trunRow sample) = some sample.size := by
  have hread := loadNat_behind (bytesOf 4 sample.duration.toNat)
    ([(sample.flags.isLeading <<< 2) ||| sample.flags.dependsOn,
      (sample.flags.isDependedOn <<< 6) ||| (sample.flags.hasRedundancy <<< 4) |||
        sample.flags.isNonSync, 0x00, 0x00] ++ bytesOf 4 sample.cts.toNat) h
  rw [length_bytesOf] at hread
  rw [rowSize, trunRow, append_assoc, append_assoc]
  exact hread

theorem cut_rows :
    cut (List.replicate samples.length 16) (samples.flatMap trunRow) = samples.map trunRow := by
  have hlengths : (samples.map trunRow).map List.length = List.replicate samples.length 16 := by
    rw [List.map_map, eq_replicate_iff]
    refine ⟨length_map _, fun n hn => ?_⟩
    obtain ⟨sample, -, rfl⟩ := List.mem_map.1 hn
    exact length_trunRow sample
  rw [← hlengths, flatMap_def, cut_flatten]

theorem readTrun_trunBox {samples : List SampleEntry} {dataOffset : ℕ}
    (hcount : samples.length < 256 ^ 4) (hoffset : dataOffset < 2 ^ 31)
    (hsizes : ∀ sample ∈ samples, sample.size < 256 ^ 4) :
    readTrun (trunBox samples dataOffset).payload =
      some ((dataOffset : ℤ), samples.map (·.size)) := by
  obtain ⟨payload, hpayload⟩ : ∃ payload, [0x01, 0x00, 0x0f, 0x01] ++
      (bytesOf 4 samples.length ++ (bytesOf 4 dataOffset ++ samples.flatMap trunRow)) = payload :=
    ⟨_, rfl⟩
  have hbox : (trunBox samples dataOffset).payload = payload := by
    rw [trunBox, ← hpayload, append_assoc, append_assoc]
  have hcount' : loadNat payload 4 4 = some samples.length := by
    rw [← hpayload]
    exact loadNat_behind [0x01, 0x00, 0x0f, 0x01] _ hcount
  have hoffset' : loadNat payload 8 4 = some dataOffset := by
    have hread := loadNat_behind ([0x01, 0x00, 0x0f, 0x01] ++ bytesOf 4 samples.length)
      (samples.flatMap trunRow) (show dataOffset < 256 ^ 4 by omega)
    rw [length_append, length_bytesOf, append_assoc, hpayload] at hread
    exact hread
  have hrows : payload.drop 12 = samples.flatMap trunRow := by
    rw [← hpayload, ← append_assoc, ← append_assoc]
    refine drop_left' ?_
    rw [length_append, length_append, length_bytesOf, length_bytesOf]
    rfl
  have hlength : payload.length = 12 + 16 * samples.length := by
    rw [← hpayload, length_append, length_append, length_append, length_bytesOf,
      length_bytesOf, length_rows]
    simp only [length_cons, length_nil]
    omega
  have hflags : payload.take 4 = [0x01, 0x00, 0x0f, 0x01] := by
    rw [← hpayload]
    rfl
  have hread : (samples.map trunRow).filterMap rowSize = samples.map (·.size) := by
    rw [filterMap_map, ← filterMap_eq_map]
    exact filterMap_congr fun sample hmem => rowSize_trunRow (hsizes sample hmem)
  have hsigned : signedNumber dataOffset = dataOffset := if_pos hoffset
  rw [hbox, readTrun]
  simp only [bind_eq_bind, hcount', hoffset', bind_some, hrows, cut_rows, hread,
    hsigned, hflags, hlength, and_self, if_true]
  rfl

theorem child_of_find {type : Bytes} {boxes : List Box} {b : Box} (hfits : ∀ b ∈ boxes, b.Fits)
    (h : boxes.find? (fun b => b.type = type) = some b) :
    child type (boxes.flatMap Box.encode) = some b := by
  rw [child, readBoxes_all hfits, bind_some, h]

theorem size_trafBox (baseMediaDecodeTime : UInt32) :
    (trafBox track baseMediaDecodeTime).size + 24 = moofSize track.samples.length := by
  simp only [Box.size, trafBox, trafBoxes, flatMap_cons, flatMap_nil, append_nil,
    length_append, Box.encode, tfhdBox, tfdtBox, trunBox, sdtpBox, length_bytesOf,
    length_boxType, length_rows, length_cons, length_nil, length_map, moofSize]
  omega

theorem trafBoxes_fit {track : MP4Track} (h : moofSize track.samples.length < 256 ^ 4)
    (baseMediaDecodeTime : UInt32) : ∀ b ∈ trafBoxes track baseMediaDecodeTime, b.Fits := by
  rw [moofSize] at h
  simp only [trafBoxes, forall_mem_cons, Box.Fits, Box.size, tfhdBox, tfdtBox, trunBox,
    sdtpBox, length_boxType, length_append, length_bytesOf, length_rows, length_cons,
    length_nil, length_map, true_and]
  refine ⟨by decide, by decide, by omega, by omega, fun b hb => absurd hb not_mem_nil⟩

def mdatBox (units : List Bytes) : Box := ⟨boxType 'm' 'd' 'a' 't', units.flatten⟩

theorem size_mdatBox (units : List Bytes) : (mdatBox units).size = 8 + units.flatten.length := rfl

/-- `moof` and its samples end within 2^31 bytes, `mdat` is below 2^32 bytes. -/
def FitFields (units : List Bytes) : Prop :=
  moofSize units.length + 8 < 2 ^ 31 ∧ 8 + units.flatten.length < 2 ^ 32

theorem selfConsistent_of_fitFields {track : MP4Track} {baseMediaDecodeTime : UInt32}
    {units : List Bytes} (hsizes : track.samples.map (·.size) = units.map List.length)
    (hfit : FitFields units) : SelfConsistent
      ((moofBox track baseMediaDecodeTime).encode ++ (mdatBox units).encode) units := by
  obtain ⟨hmoof, hmdat⟩ := hfit
  have hcount : track.samples.length = units.length := by
    have hlength := congrArg List.length hsizes
    rwa [length_map, length_map] at hlength
  have hsum : (units.map List.length).sum = units.flatten.length := length_flatten.symm
  have hmoofSize := size_moofBox track baseMediaDecodeTime
  have htrafSize := size_trafBox track baseMediaDecodeTime
  have hmfhdSize : (mfhdBox track).size = 16 := by
    rw [Box.size, mfhdBox, length_append, length_bytesOf]
    rfl
  have hfew : 104 + 17 * units.length < 2 ^ 31 := by
    rw [moofSize] at hmoof
    omega
  rw [hcount] at hmoofSize htrafSize
  have hsize : ∀ sample ∈ track.samples, sample.size < 256 ^ 4 := by
    intro sample hmem
    have hlisted : sample.size ∈ units.map List.length := hsizes ▸ List.mem_map_of_mem hmem
    obtain ⟨unit, hunit, hlength⟩ := List.mem_map.1 hlisted
    have hle := (sublist_flatten_of_mem hunit).length_le
    omega
  have hboxes : ∀ b ∈ [moofBox track baseMediaDecodeTime, mdatBox units], b.Fits := by
    simp only [forall_mem_cons]
    refine ⟨⟨rfl, by omega⟩, ⟨rfl, ?_⟩, fun b hb => absurd hb not_mem_nil⟩
    rw [size_mdatBox]
    omega
  have hinner : ∀ b ∈ [mfhdBox track, trafBox track baseMediaDecodeTime], b.Fits := by
    simp only [forall_mem_cons]
    exact ⟨⟨rfl, by omega⟩, ⟨rfl, by omega⟩, fun b hb => absurd hb not_mem_nil⟩
  have htraf := @child_of_find (boxType 't' 'r' 'a' 'f') _ _ hinner rfl
  have htrun := @child_of_find (boxType 't' 'r' 'u' 'n') _ _
    (trafBoxes_fit (by rw [hcount]; omega) baseMediaDecodeTime) rfl
  have hread := @readTrun_trunBox track.samples (moofSize track.samples.length + 8) (by omega)
    (by rw [hcount]; exact hmoof) hsize
  have hsegment := readBoxes_all hboxes
  rw [flatMap_cons, flatMap_singleton] at hsegment
  refine ⟨⟨(moofBox track baseMediaDecodeTime).size, moofSize track.samples.length + 8,
    track.samples.map (·.size), units.flatten⟩, ?_, ?_, ?_, ?_, ?_⟩
  · rw [readFragment, hsegment]
    simp only [bind_eq_bind, bind_some, getElem?_cons_zero, getElem?_cons_succ]
    rw [show child (boxType 't' 'r' 'a' 'f') (moofBox track baseMediaDecodeTime).payload = _ from
      htraf, bind_some]
    rw [show child (boxType 't' 'r' 'u' 'n') (trafBox track baseMediaDecodeTime).payload = _ from
      htrun, bind_some, hread, bind_some]
    exact if_pos rfl
  · rw [length_append, Box.length_encode rfl, Box.length_encode rfl]
    rfl
  · rw [hmoofSize, hcount]
  · rw [hsizes, hsum]
  · rw [hsizes, cut_flatten]

theorem readFragment_bounds {segment : Bytes} {f : Fragment}
    (h : readFragment segment = some f) : f.dataOffset < 2 ^ 31 ∧ 8 + f.mdat.length < 2 ^ 32 := by
  rw [readFragment] at h
  simp only [bind_eq_bind, bind_eq_some_iff] at h
  obtain ⟨boxes, hboxes, moof, -, mdat, hmdat, traf, -, trun, -, run, hrun, hf⟩ := h
  split_ifs at hf with htypes
  obtain rfl := some.inj hf
  refine ⟨?_, size_lt_of_readBoxes hboxes mdat (mem_of_getElem? hmdat)⟩
  rw [readTrun] at hrun
  simp only [bind_eq_bind, bind_eq_some_iff] at hrun
  obtain ⟨sampleCount, -, dataOffset, hoffset, hrun⟩ := hrun
  split_ifs at hrun with hflags
  obtain rfl := some.inj hrun
  have hlt := loadNat_lt hoffset
  show signedNumber dataOffset < 2 ^ 31
  rw [signedNumber]
  split_ifs <;> omega

/-- `moof` and `mdat` one behind the other are consistent exactly if the sizes fit. -/
theorem selfConsistent_iff {track : MP4Track} {baseMediaDecodeTime : UInt32} {units : List Bytes}
    (hsizes : track.samples.map (·.size) = units.map List.length) :
    SelfConsistent ((moofBox track baseMediaDecodeTime).encode ++ (mdatBox units).encode) units ↔
      FitFields units := by
  refine ⟨?_, selfConsistent_of_fitFields hsizes⟩
  rintro ⟨f, hread, hlength, hoffset, hsum, hcut⟩
  obtain ⟨hoffset_lt, hmdat_lt⟩ := readFragment_bounds hread
  have hmdat : f.mdat = units.flatten := by rw [← hcut, flatten_cut hsum]
  have hcount : track.samples.length = units.length := by
    have hlengths := congrArg List.length hsizes
    rwa [length_map, length_map] at hlengths
  rw [length_append, Box.length_encode rfl, Box.length_encode rfl, size_moofBox, hcount,
    size_mdatBox, hmdat] at hlength
  rw [hmdat] at hmdat_lt
  exact ⟨by omega, hmdat_lt⟩

end MP4

end Apackage.Rtp2httpd.Player
