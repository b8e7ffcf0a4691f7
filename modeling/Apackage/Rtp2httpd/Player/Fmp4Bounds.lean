import Apackage.Lib.Yields
import Apackage.Rtp2httpd.Player.Fmp4

/-
  The reader of fMP4 segments stays inside its boxes (`fmp4_inside`).

  `Covers` says which places may be read for a path. `Covers.enter` is the step into a box or a
  descriptor of the place that is covered, and each function of the reader is shown to read only
  what the place that it was given covers.
-/

namespace Apackage.Rtp2httpd.Player.Fmp4

open List Lib Lib.Digits MP4

variable {data : Bytes} {path : List Range} {lo hi : ℕ}

/-- What lies in from `lo` to before `hi` may be read. -/
structure Covers (data : Bytes) (path : List Range) (lo hi : ℕ) : Prop where
  le_length : hi ≤ data.length
  path : ∀ r ∈ path, r.start ≤ lo ∧ hi ≤ r.stop

theorem Covers.enter (h : Covers data path lo hi) {r : Range} (hlo : lo ≤ r.start)
    (hhi : r.stop ≤ hi) : Covers data (r :: path) r.start r.stop where
  le_length := hhi.trans h.le_length
  path r' hr' := by
    rcases List.mem_cons.1 hr' with rfl | hr'
    · exact ⟨le_rfl, le_rfl⟩
    · have hpath := h.path r' hr'
      exact ⟨hpath.1.trans hlo, hhi.trans hpath.2⟩

/-- The place of a box in which it lies, from `lo` to before `hi`. -/
structure BoxRange.Inside (lo hi : ℕ) (b : BoxRange) : Prop where
  lo_le : lo ≤ b.boxStart
  header : b.boxStart + 8 ≤ b.start
  payload : b.start ≤ b.stop
  le_hi : b.stop ≤ hi

variable {stop : ℕ}

theorem BoxRange.Inside.covers {b : BoxRange} {start : ℕ} (hb : b.Inside start stop)
    (h : Covers data path lo hi) (hlo : lo ≤ start) (hhi : stop ≤ hi) :
    Covers data (b.toRange :: path) b.start b.stop := by
  have h1 := hb.lo_le
  have h2 := hb.header
  have h3 := hb.le_hi
  exact h.enter (by omega) (by omega)

/-! ## Reads -/

/-- The program reads only what it may. -/
abbrev Reads {α : Type} (x : Option α) : Prop := Yields x fun _ => True

theorem reads_some {α : Type} (a : α) : Reads (some a) := .some trivial

theorem byteAt_reads (h : Covers data path lo hi) {i : ℕ} (hlo : lo ≤ i) (hhi : i < hi) :
    Reads (byteAt data path i) := by
  have hlen := h.le_length
  rw [byteAt, if_pos, getElem?_eq_getElem (by omega)]
  · exact reads_some _
  · intro r hr
    have hpath := h.path r hr
    omega

theorem bytesAt_reads (h : Covers data path lo hi) {i n : ℕ} (hlo : lo ≤ i) (hhi : i + n ≤ hi) :
    Reads (bytesAt data path i n) := by
  induction n generalizing i with
  | zero => exact reads_some _
  | succ n ih =>
    refine (byteAt_reads h hlo (by omega)).bind fun byte _ => ?_
    exact (ih (by omega) (by omega)).bind fun rest _ => reads_some _

theorem getUint32_reads (h : Covers data path lo hi) {offset : ℕ} (hlo : lo ≤ offset)
    (hhi : offset + 4 ≤ hi) : Reads (getUint32 data path offset) :=
  (bytesAt_reads h hlo hhi).map fun _ _ => trivial

theorem hasBytes_iff {offset length : ℕ} :
    hasBytes offset length stop = true ↔ offset + length ≤ stop := decide_eq_true_iff

section

variable (h : Covers data path lo hi)

include h

theorem checkedBytes_reads {offset : ℕ} (n : ℕ) (hlo : lo ≤ offset) (hhi : stop ≤ hi) :
    Reads (checkedBytes data path offset n stop) := by
  refine .ite (fun hbytes => ?_) fun _ => reads_some _
  rw [hasBytes_iff] at hbytes
  exact (bytesAt_reads h hlo (by omega)).map fun _ _ => trivial

section

variable {offset : ℕ} (hlo : lo ≤ offset) (hhi : stop ≤ hi)

include hlo hhi

theorem readFourCc_reads : Reads (readFourCc data path offset stop) :=
  checkedBytes_reads h 4 hlo hhi

theorem readUint16_reads : Reads (readUint16 data path offset stop) :=
  (checkedBytes_reads h 2 hlo hhi).map fun _ _ => trivial

theorem readUint32_reads : Reads (readUint32 data path offset stop) :=
  (checkedBytes_reads h 4 hlo hhi).map fun _ _ => trivial

end

end

/-! ## Boxes -/

theorem boxSize_yields (h : Covers data path lo hi) {safeEnd offset size : ℕ}
    (hsafe : safeEnd ≤ hi) (hlo : lo ≤ offset) :
    Yields (boxSize data path safeEnd offset size) fun r => ∀ s ∈ r, 8 ≤ s.2 := by
  have hnone : ∀ s ∈ (none : Option (ℕ × ℕ)), 8 ≤ s.2 := fun s hs => by cases hs
  have hsome (size headerSize : ℕ) (h8 : 8 ≤ headerSize) :
      ∀ s ∈ some (size, headerSize), 8 ≤ s.2 := by
    rintro s ⟨rfl⟩
    exact h8
  refine .ite (fun _ => .ite (fun _ => .some hnone) fun hroom => ?_) fun _ =>
    .ite (fun _ => .some (hsome _ _ le_rfl)) fun _ => .some (hsome _ _ le_rfl)
  refine (getUint32_reads h (by omega) (by omega)).bind fun high _ => ?_
  refine (getUint32_reads h (by omega) (by omega)).bind fun low _ => ?_
  exact .some (hsome _ _ (by decide))

/-- The boxes are disjoint, ordered and inside. -/
structure Siblings (lo hi : ℕ) (boxes : List BoxRange) : Prop where
  inside : ∀ b ∈ boxes, b.Inside lo hi
  ordered : boxes.Pairwise fun b b' => b.stop ≤ b'.boxStart

theorem Siblings.nil : Siblings lo hi [] := ⟨forall_mem_nil _, .nil⟩

theorem Siblings.cons {boxes : List BoxRange} {b : BoxRange} (hb : b.Inside lo hi)
    (h : Siblings b.stop hi boxes) : Siblings lo hi (b :: boxes) := by
  have hlo := hb.lo_le
  have hheader := hb.header
  have hpayload := hb.payload
  refine ⟨fun b' hb' => ?_, .cons (fun b' hb' => (h.inside b' hb').lo_le) h.ordered⟩
  rcases List.mem_cons.1 hb' with rfl | hb'
  · exact hb
  · have hin := h.inside b' hb'
    exact ⟨by have := hin.lo_le; omega, hin.header, hin.payload, hin.le_hi⟩

theorem readBoxesLoop_yields (h : Covers data path lo hi) {safeEnd n offset : ℕ}
    (hsafe : safeEnd ≤ hi) (hle : offset ≤ safeEnd) (hlo : offset + 8 ≤ safeEnd → lo ≤ offset)
    (hn : safeEnd < offset + n) :
    Yields (readBoxesLoop data path safeEnd n offset) (Siblings offset safeEnd) := by
  induction n generalizing offset with
  | zero => omega
  | succ n ih =>
    refine .ite (fun _ => .some .nil) fun hroom => ?_
    have hlo := hlo (by omega)
    refine (getUint32_reads h hlo (by omega)).bind fun size _ => ?_
    refine (readFourCc_reads h (by omega) hsafe).bind fun type _ => ?_
    cases type with
    | none => exact .some .nil
    | some type =>
      refine (boxSize_yields h hsafe hlo).bind fun r hr => ?_
      match r, hr with
      | none, _ => exact .some .nil
      | some (size, headerSize), hr =>
        have h8 : 8 ≤ headerSize := hr _ rfl
        refine .ite (fun _ => .some .nil) fun hsize => ?_
        refine (@ih (offset + size) (by omega) (by omega) (by omega)).bind fun boxes hboxes => ?_
        have hinside : BoxRange.Inside offset safeEnd
            ⟨⟨offset + headerSize, offset + size⟩, type, offset⟩ := by
          constructor <;> dsimp only <;> omega
        exact .some (hboxes.cons hinside)

theorem readBoxes_yields (h : Covers data path lo hi) {start : ℕ} (hlo : lo ≤ start)
    (hhi : min stop data.length ≤ hi) :
    Yields (readBoxes data path start stop) (Siblings start (min stop data.length)) := by
  refine (readBoxesLoop_yields h hhi (Nat.min_le_right _ _) (by omega) (by omega)).mono
    fun boxes hboxes => ⟨fun b hb => ?_, hboxes.ordered⟩
  have hin := hboxes.inside b hb
  have h1 := hin.lo_le
  have h2 := hin.header
  have h3 := hin.payload
  have h4 := hin.le_hi
  exact ⟨by omega, h2, h3, h4⟩

theorem findBox_yields (h : Covers data path lo hi) {start : ℕ} (hlo : lo ≤ start) (hhi : stop ≤ hi)
    (type : Bytes) :
    Yields (findBox data path start stop type) fun r => ∀ b ∈ r, b.Inside start stop := by
  have hmin : min stop data.length ≤ hi := (Nat.min_le_left _ _).trans hhi
  refine (readBoxes_yields h hlo hmin).map fun boxes hboxes b hb => ?_
  have hin := hboxes.inside b (mem_of_find?_eq_some hb)
  exact ⟨hin.lo_le, hin.header, hin.payload, hin.le_hi.trans (Nat.min_le_left _ _)⟩

theorem covers_all (data : Bytes) : Covers data [] 0 data.length := ⟨le_rfl, forall_mem_nil _⟩

theorem splitInitFromSegment_yields (data : Bytes) :
    Yields (splitInitFromSegment data) fun r => r.1 ++ r.2 = data := by
  refine (findBox_yields (covers_all data) le_rfl le_rfl _).map fun box _ => ?_
  cases box with
  | none => rw [drop_length, append_nil]
  | some box => exact take_append_drop _ _

/-! ## Codecs -/

variable {entry : Range}

theorem hevcCodecString_reads {hvcc : Range} (h : Covers data (hvcc :: path) hvcc.start hvcc.stop)
    (codec : String) : Reads (hevcCodecString data path codec hvcc) := by
  refine .ite (fun _ => reads_some _) fun hlen => ?_
  refine (byteAt_reads h (by omega) (by omega)).bind fun b1 _ => ?_
  refine (getUint32_reads h (by omega) (by omega)).bind fun compat _ => ?_
  refine (byteAt_reads h (by omega) (by omega)).bind fun levelIdc _ => ?_
  exact (bytesAt_reads h (by omega) (by omega)).bind fun constraints _ => reads_some _

theorem descriptorSize_yields (h : Covers data path lo hi) {parentEnd n cursor : ℕ}
    (payloadSize : ℕ) (hlo : lo ≤ cursor) (hhi : parentEnd ≤ hi) :
    Yields (descriptorSize data path parentEnd n cursor payloadSize)
      fun r => ∀ s ∈ r, cursor ≤ s.2 := by
  induction n generalizing cursor payloadSize with
  | zero => exact .some fun s hs => by cases hs
  | succ n ih =>
    refine .ite (fun hbytes => ?_) fun _ => .some fun s hs => by cases hs
    rw [hasBytes_iff] at hbytes
    refine (byteAt_reads h hlo (by omega)).bind fun sizeByte _ => ?_
    refine .ite (fun _ => .some ?_) fun _ => ?_
    · simp
    · exact (ih _ (by omega)).mono fun r hr s hs => (Nat.le_succ cursor).trans (hr s hs)

theorem readMp4Descriptor_yields (h : Covers data path lo hi) {offset parentEnd : ℕ}
    (hlo : lo ≤ offset) (hhi : parentEnd ≤ hi) :
    Yields (readMp4Descriptor data path offset parentEnd)
      fun r => ∀ d ∈ r, offset ≤ d.start ∧ d.stop ≤ parentEnd := by
  have hnone : ∀ d ∈ (none : Option Mp4Descriptor), offset ≤ d.start ∧ d.stop ≤ parentEnd :=
    fun d hd => by cases hd
  refine .ite (fun hbytes => ?_) fun _ => .some hnone
  rw [hasBytes_iff] at hbytes
  refine (byteAt_reads h hlo (by omega)).bind fun tag _ => ?_
  refine (descriptorSize_yields h 0 (show lo ≤ offset + 1 by omega) hhi).bind fun r hr => ?_
  match r, hr with
  | none, _ => exact .some hnone
  | some (payloadSize, cursor), hr =>
    have hcursor : offset + 1 ≤ cursor := hr _ rfl
    refine .ite (fun hpayload => .some ?_) fun _ => .some hnone
    rw [hasBytes_iff] at hpayload
    rintro d ⟨rfl⟩
    exact ⟨by dsimp only; omega, hpayload⟩

theorem audioSampleEntryChildrenStart_yields
    (h : Covers data (entry :: path) entry.start entry.stop) :
    Yields (audioSampleEntryChildrenStart data path entry) fun r => ∀ k ∈ r, entry.start ≤ k := by
  refine (readUint16_reads h (by omega) le_rfl).bind fun version _ => ?_
  cases version with
  | none => exact .some fun k hk => by cases hk
  | some version =>
    refine .ite (fun _ => .some fun k hk => by cases hk) fun _ => .some ?_
    rintro k ⟨rfl⟩
    exact Nat.le_add_right _ _

theorem audioSampleEntryChannelCount_reads
    (h : Covers data (entry :: path) entry.start entry.stop) :
    Reads (audioSampleEntryChannelCount data path entry) := by
  refine (readUint16_reads h (by omega) le_rfl).bind fun version _ => ?_
  have hcount : Reads (channelCountField data path entry version) :=
    .ite (fun _ => readUint32_reads h (by omega) le_rfl)
      fun _ => readUint16_reads h (by omega) le_rfl
  exact hcount.bind fun channelCount _ => reads_some _

theorem behindUrl_yields {es : Range} (h : Covers data (es :: path) es.start es.stop)
    (esFlags : UInt8) {offset : ℕ} (hoffset : es.start ≤ offset) :
    Yields (behindUrl data path es esFlags offset) fun r => ∀ k ∈ r, es.start ≤ k := by
  refine .ite (fun _ => .ite (fun hroom => ?_) fun _ => .some fun k hk => by cases hk)
    fun _ => .some ?_
  · rw [hasBytes_iff] at hroom
    refine (byteAt_reads h hoffset (by omega)).map fun urlLength _ => ?_
    rintro k ⟨rfl⟩
    omega
  · rintro k ⟨rfl⟩
    exact hoffset

theorem esChildrenStart_yields {es : Range} (h : Covers data (es :: path) es.start es.stop)
    (hbytes : es.start + 3 ≤ es.stop) :
    Yields (esChildrenStart data path es) fun r => ∀ k ∈ r, es.start ≤ k := by
  refine (byteAt_reads h (by omega) (by omega)).bind fun esFlags _ => ?_
  refine (behindUrl_yields h esFlags (by split <;> omega)).bind fun r hr => ?_
  cases r with
  | none => exact .some fun k hk => by cases hk
  | some k =>
    have hk := hr k rfl
    refine .ite (fun _ => .some ?_) fun _ => .some fun k hk => by cases hk
    rintro k' ⟨rfl⟩
    split <;> omega

theorem audioObjectType_reads {info : Range} (h : Covers data (info :: path) info.start info.stop)
    (hne : info.start < info.stop) : Reads (audioObjectType data path info) := by
  refine (byteAt_reads h le_rfl hne).bind fun first _ => ?_
  refine .ite (fun hroom => ?_) fun _ => reads_some _
  have hbytes := hasBytes_iff.1 hroom.2
  exact (byteAt_reads h (by omega) (by omega)).bind fun second _ => reads_some _

theorem mp4aCodecString_reads (h : Covers data (entry :: path) entry.start entry.stop) :
    Reads (mp4aCodecString data path entry) := by
  refine (audioSampleEntryChildrenStart_yields h).bind fun childrenStart hstart => ?_
  cases childrenStart with
  | none => exact reads_some _
  | some childrenStart =>
    refine (findBox_yields h (hstart _ rfl) le_rfl _).bind fun esds hesds => ?_
    cases esds with
    | none => exact reads_some _
    | some esds =>
      have hesds := (hesds esds rfl).covers h (hstart _ rfl) le_rfl
      refine .ite (fun _ => reads_some _) fun _ => ?_
      refine (readMp4Descriptor_yields hesds (by omega) le_rfl).bind fun es hes => ?_
      cases es with
      | none => exact reads_some _
      | some es =>
        have hes' := hesds.enter (by have := (hes es rfl).1; omega) (hes es rfl).2
        refine .ite (fun _ => reads_some _) fun hbytes => ?_
        simp only [not_or, Bool.not_eq_true', Bool.not_eq_false, hasBytes_iff] at hbytes
        refine (esChildrenStart_yields hes' hbytes.2).bind fun offset hoffset => ?_
        cases offset with
        | none => exact reads_some _
        | some offset =>
          refine (readMp4Descriptor_yields hes' (hoffset _ rfl) le_rfl).bind
            fun config hconfig => ?_
          cases config with
          | none => exact reads_some _
          | some config =>
            have hconfig' := hes'.enter ((hoffset _ rfl).trans (hconfig config rfl).1)
              (hconfig config rfl).2
            refine .ite (fun _ => reads_some _) fun hbytes => ?_
            simp only [not_or, Bool.not_eq_true', Bool.not_eq_false, hasBytes_iff] at hbytes
            refine (byteAt_reads hconfig' le_rfl (by omega)).bind fun object _ => ?_
            refine (readMp4Descriptor_yields hconfig' (by omega) le_rfl).bind fun info hinfo => ?_
            cases info with
            | none => exact reads_some _
            | some info =>
              have hinfo' := hconfig'.enter (by have := (hinfo info rfl).1; omega)
                (hinfo info rfl).2
              refine .ite (fun _ => reads_some _) fun hne => ?_
              exact (audioObjectType_reads hinfo' (by omega)).bind fun object _ => reads_some _

theorem sampleEntryCodec_reads {entry : BoxRange}
    (h : Covers data (entry.toRange :: path) entry.start entry.stop) :
    Reads (sampleEntryCodec data path entry) := by
  refine .ite (fun _ => ?_) fun _ => .ite (fun _ => ?_) fun _ => .ite (fun _ => ?_) fun _ =>
    .ite (fun _ => reads_some _) fun _ => .ite (fun _ => reads_some _) fun _ => reads_some _
  · refine (findBox_yields h (Nat.le_add_right _ 78) le_rfl _).bind fun avcc havcc => ?_
    cases avcc with
    | none => exact reads_some _
    | some avcc =>
      have havcc := (havcc avcc rfl).covers h (Nat.le_add_right _ 78) le_rfl
      refine .ite (fun hbytes => ?_) fun _ => reads_some _
      rw [hasBytes_iff] at hbytes
      exact (bytesAt_reads havcc (by omega) (by omega)).bind fun bytes _ => reads_some _
  · refine (findBox_yields h (Nat.le_add_right _ 78) le_rfl _).bind fun hvcc hhvcc => ?_
    cases hvcc with
    | none => exact reads_some _
    | some hvcc =>
      have hhvcc := (hhvcc hvcc rfl).covers h (Nat.le_add_right _ 78) le_rfl
      exact .ite (fun _ => (hevcCodecString_reads hhvcc _).map fun _ _ => trivial)
        fun _ => reads_some _
  · exact (mp4aCodecString_reads h).map fun _ _ => trivial

/-! ## Tracks -/

theorem colourFullRange_reads {colourBox : Range}
    (h : Covers data (colourBox :: path) colourBox.start colourBox.stop)
    (colourType : Option Bytes) : Reads (colourFullRange data path colourType colourBox) := by
  refine .ite (fun hroom => ?_) fun _ => reads_some _
  have hbytes := hasBytes_iff.1 hroom.2
  exact (byteAt_reads h (by omega) (by omega)).map fun _ _ => trivial

theorem parseColourInformation_reads (h : Covers data (entry :: path) entry.start entry.stop) :
    Reads (parseColourInformation data path entry) := by
  refine (findBox_yields h (Nat.le_add_right _ 78) le_rfl _).bind fun box hbox => ?_
  cases box with
  | none => exact reads_some _
  | some box =>
    have hbox := (hbox box rfl).covers h (Nat.le_add_right _ 78) le_rfl
    refine .ite (fun _ => reads_some _) fun _ => ?_
    refine (readFourCc_reads hbox le_rfl le_rfl).bind fun colourType _ => ?_
    refine .ite (fun _ => reads_some _) fun _ => ?_
    refine (readUint16_reads hbox (by omega) le_rfl).bind fun primaries _ => ?_
    refine (readUint16_reads hbox (by omega) le_rfl).bind fun transfer _ => ?_
    refine (readUint16_reads hbox (by omega) le_rfl).bind fun coefficients _ => ?_
    match primaries, transfer, coefficients with
    | some _, some _, some _ =>
      exact (colourFullRange_reads hbox colourType).bind fun _ _ => reads_some _
    | none, _, _ => exact reads_some _
    | some _, none, _ => exact reads_some _
    | some _, some _, none => exact reads_some _

theorem parseScanType_reads (h : Covers data (entry :: path) entry.start entry.stop) :
    Reads (parseScanType data path entry) := by
  refine (findBox_yields h (Nat.le_add_right _ 78) le_rfl _).bind fun box hbox => ?_
  cases box with
  | none => exact reads_some _
  | some box =>
    have hbox := (hbox box rfl).covers h (Nat.le_add_right _ 78) le_rfl
    refine .ite (fun _ => reads_some _) fun hbytes => ?_
    rw [Bool.not_eq_true', Bool.not_eq_false, hasBytes_iff] at hbytes
    exact (byteAt_reads hbox le_rfl (by omega)).bind fun _ _ => reads_some _

theorem parseSampleEntryTrack_reads {entry : BoxRange}
    (h : Covers data (entry.toRange :: path) entry.start entry.stop)
    (handlerType : Option Bytes) : Reads (parseSampleEntryTrack data path entry handlerType) := by
  refine (sampleEntryCodec_reads h).bind fun codec _ => ?_
  cases codec with
  | none => exact reads_some _
  | some codec =>
    refine .ite (fun _ => ?_) fun _ => .ite (fun _ => ?_) fun _ => reads_some _
    · refine (readUint16_reads h (by omega) le_rfl).bind fun width _ => ?_
      refine (readUint16_reads h (by omega) le_rfl).bind fun height _ => ?_
      refine (parseScanType_reads h).bind fun scanType _ => ?_
      exact (parseColourInformation_reads h).bind fun colour _ => reads_some _
    · exact (audioSampleEntryChannelCount_reads h).bind fun channelCount _ => reads_some _

theorem versionedNumber_reads {box : Range} (h : Covers data (box :: path) box.start box.stop) :
    Reads (versionedNumber data path box) := by
  refine .ite (fun hbytes => ?_) fun _ => reads_some _
  rw [hasBytes_iff] at hbytes
  refine (byteAt_reads h le_rfl (by omega)).bind fun version _ => ?_
  exact readUint32_reads h (by omega) le_rfl

theorem inBox_reads {α : Type} {box : Option BoxRange} {read : BoxRange → Option (Option α)}
    (h : ∀ b ∈ box, Reads (read b)) : Reads (inBox box read) := by
  cases box with
  | none => exact reads_some _
  | some b => exact h b rfl

theorem parseEntries_reads (h : Covers data path lo hi) (handlerType : Option Bytes)
    (info : InitSegmentInfo) {entries : List BoxRange} {start : ℕ} (hlo : lo ≤ start)
    (hhi : stop ≤ hi) (hentries : ∀ b ∈ entries, b.Inside start stop) :
    Reads (parseEntries data path handlerType info entries) := by
  refine .foldlM trivial fun info _ entry hentry => ?_
  have hcovers := (hentries entry hentry).covers h hlo hhi
  refine (parseSampleEntryTrack_reads hcovers handlerType).bind fun track _ => ?_
  cases track with
  | none => exact reads_some _
  | some track => exact reads_some _

theorem parseMedia_reads {mdia : Range} (h : Covers data (mdia :: path) mdia.start mdia.stop)
    (handlerType : Option Bytes) (info : InitSegmentInfo) :
    Reads (parseMedia data path mdia handlerType info) := by
  refine (findBox_yields h le_rfl le_rfl _).bind fun minf hminf => ?_
  cases minf with
  | none => exact reads_some _
  | some minf =>
    have hminf := (hminf minf rfl).covers h le_rfl le_rfl
    refine (findBox_yields hminf le_rfl le_rfl _).bind fun stbl hstbl => ?_
    cases stbl with
    | none => exact reads_some _
    | some stbl =>
      have hstbl := (hstbl stbl rfl).covers hminf le_rfl le_rfl
      refine (findBox_yields hstbl le_rfl le_rfl _).bind fun stsd hstsd => ?_
      cases stsd with
      | none => exact reads_some _
      | some stsd =>
        have hstsd := (hstsd stsd rfl).covers hstbl le_rfl le_rfl
        refine .ite (fun _ => ?_) fun _ => reads_some _
        refine (readBoxes_yields hstsd (Nat.le_add_right _ 8) (Nat.min_le_left _ _)).bind
          fun entries hentries => ?_
        exact parseEntries_reads hstsd handlerType info (Nat.le_add_right _ 8)
          (Nat.min_le_left _ _) hentries.inside

theorem parseTrak_reads {trak : BoxRange} {start : ℕ} (h : Covers data path lo hi)
    (htrak : trak.Inside start stop) (hlo : lo ≤ start) (hhi : stop ≤ hi) (info : InitSegmentInfo) :
    Reads (parseTrak data path info trak) := by
  have htrak := htrak.covers h hlo hhi
  refine .ite (fun _ => reads_some _) fun _ => ?_
  refine (findBox_yields htrak le_rfl le_rfl _).bind fun tkhd htkhd => ?_
  refine (inBox_reads fun b hb =>
    versionedNumber_reads ((htkhd b hb).covers htrak le_rfl le_rfl)).bind fun trackId _ => ?_
  refine (findBox_yields htrak le_rfl le_rfl _).bind fun mdia hmdia => ?_
  cases mdia with
  | none => exact reads_some _
  | some mdia =>
    have hmdia := (hmdia mdia rfl).covers htrak le_rfl le_rfl
    refine (findBox_yields hmdia le_rfl le_rfl _).bind fun handler hhandler => ?_
    refine (inBox_reads fun b hb => readFourCc_reads
      ((hhandler b hb).covers hmdia le_rfl le_rfl) (by omega) le_rfl).bind fun handlerType _ => ?_
    refine (findBox_yields hmdia le_rfl le_rfl _).bind fun mdhd hmdhd => ?_
    refine (inBox_reads fun b hb => versionedNumber_reads ((hmdhd b
      (Option.mem_filter_iff.1 hb).1).covers hmdia le_rfl le_rfl)).bind fun timescale _ => ?_
    exact parseMedia_reads hmdia _ _

theorem parseInitSegment_reads (data : Bytes) : Reads (parseInitSegment data) := by
  refine (findBox_yields (covers_all data) le_rfl le_rfl _).bind fun moov hmoov => ?_
  cases moov with
  | none => exact reads_some _
  | some moov =>
    have hmoov := (hmoov moov rfl).covers (covers_all data) le_rfl le_rfl
    refine (readBoxes_yields hmoov le_rfl (Nat.min_le_left _ _)).bind fun traks htraks => ?_
    exact .foldlM trivial fun info _ trak htrak =>
      parseTrak_reads hmoov (htraks.inside trak htrak) le_rfl (Nat.min_le_left _ _) info

/-! ## The start time of a segment -/

theorem baseMediaDecodeTime_reads {tfdt : Range}
    (h : Covers data (tfdt :: path) tfdt.start tfdt.stop) (hbytes : tfdt.start + 1 ≤ tfdt.stop) :
    Reads (baseMediaDecodeTime data path tfdt) := by
  refine (byteAt_reads h le_rfl (by omega)).bind fun version _ => ?_
  refine .ite (fun _ => .ite (fun hroom => ?_) fun _ => reads_some _) fun _ =>
    .ite (fun hroom => ?_) fun _ => reads_some _
  · rw [hasBytes_iff] at hroom
    refine (getUint32_reads h (by omega) (by omega)).bind fun high _ => ?_
    exact (getUint32_reads h (by omega) (by omega)).bind fun low _ => reads_some _
  · rw [hasBytes_iff] at hroom
    exact (getUint32_reads h (by omega) (by omega)).map fun _ _ => trivial

theorem earliestTime_reads {traf : BoxRange} {start : ℕ} (h : Covers data path lo hi)
    (htraf : traf.Inside start stop) (hlo : lo ≤ start) (hhi : stop ≤ hi)
    (timescales : ℕ → Option ℕ) (earliest : Option ℚ) :
    Reads (earliestTime data path timescales earliest traf) := by
  have htraf := htraf.covers h hlo hhi
  refine .ite (fun _ => reads_some _) fun _ => ?_
  refine (findBox_yields htraf le_rfl le_rfl _).bind fun tfhd htfhd => ?_
  refine (findBox_yields htraf le_rfl le_rfl _).bind fun tfdt htfdt => ?_
  match tfhd, tfdt, htfhd, htfdt with
  | none, _, _, _ => exact reads_some _
  | some _, none, _, _ => exact reads_some _
  | some tfhd, some tfdt, htfhd, htfdt =>
    have htfhd := (htfhd tfhd rfl).covers htraf le_rfl le_rfl
    have htfdt := (htfdt tfdt rfl).covers htraf le_rfl le_rfl
    refine .ite (fun _ => reads_some _) fun hbytes => ?_
    simp only [not_or, Bool.not_eq_true', Bool.not_eq_false, hasBytes_iff] at hbytes
    refine (readUint32_reads htfhd (by omega) le_rfl).bind fun trackId _ => ?_
    cases trackId with
    | none => exact reads_some _
    | some trackId =>
      dsimp only
      cases (timescales trackId).filter (· ≠ 0) with
      | none => exact reads_some _
      | some timescale =>
        refine (baseMediaDecodeTime_reads htfdt hbytes.2).bind fun baseTime _ => ?_
        cases baseTime with
        | none => exact reads_some _
        | some baseTime => exact reads_some _

theorem getSegmentStartTime_reads (data : Bytes) (timescales : ℕ → Option ℕ) :
    Reads (getSegmentStartTime data timescales) := by
  refine (findBox_yields (covers_all data) le_rfl le_rfl _).bind fun moof hmoof => ?_
  cases moof with
  | none => exact reads_some _
  | some moof =>
    have hmoof := (hmoof moof rfl).covers (covers_all data) le_rfl le_rfl
    refine (readBoxes_yields hmoof le_rfl (Nat.min_le_left _ _)).bind fun trafs htrafs => ?_
    exact .foldlM trivial fun earliest _ traf htraf => earliestTime_reads hmoof
      (htrafs.inside traf htraf) le_rfl (Nat.min_le_left _ _) timescales earliest

/-- The reader of fMP4 segments ends and never leaves its boxes, the boxes that it finds next to
    each other are disjoint, ordered and inside their parent, and what it splits is the whole
    segment. -/
theorem fmp4_inside (data : Bytes) : (∃ info, parseInitSegment data = some info) ∧
    (∀ timescales, ∃ time, getSegmentStartTime data timescales = some time) ∧
    (∃ init media, splitInitFromSegment data = some (init, media) ∧ init ++ media = data) ∧
    ∀ path start stop, Covers data path start (min stop data.length) →
      ∃ boxes, readBoxes data path start stop = some boxes ∧
        Siblings start (min stop data.length) boxes := by
  refine ⟨?_, fun timescales => ?_, ?_, fun path start stop h => ?_⟩
  · exact (parseInitSegment_reads data).imp fun _ h => h.1
  · exact (getSegmentStartTime_reads data timescales).imp fun _ h => h.1
  · obtain ⟨⟨init, media⟩, h, hdata⟩ := splitInitFromSegment_yields data
    exact ⟨init, media, h, hdata⟩
  · exact readBoxes_yields h le_rfl le_rfl

example : splitInitFromSegment
    [0, 0, 0, 9, 0x66, 0x72, 0x65, 0x65, 7, 0, 0, 0, 0, 0x6d, 0x6f, 0x6f, 0x66, 8] =
      some ([0, 0, 0, 9, 0x66, 0x72, 0x65, 0x65, 7], [0, 0, 0, 0, 0x6d, 0x6f, 0x6f, 0x66, 8]) := by
  decide

end Apackage.Rtp2httpd.Player.Fmp4
