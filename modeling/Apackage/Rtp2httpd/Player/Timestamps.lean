import Mathlib.Algebra.Order.Group.Unbundled.Int
import Apackage.Lib.Run
import Apackage.Rtp2httpd.Http.Url

/-
  Timestamps beyond their wrap-around (`ts-demuxer.ts`).

  PCR, PTS and DTS count modulo 2^33. `getPcrBase` adds an offset that grows by 2^33 each time the
  PCR wraps, and `getTimestamp` adds the same offset to PTS and DTS, and once more 2^33 when the
  result is more than 2^32 behind the last PCR. Nothing is taken away when it is more than 2^32
  ahead.

  Model. A packet has all its 188 bytes; a byte that a PES header does not have counts as 0, as it
  does in the bit operations of the source. Numbers are exact.
-/

namespace Apackage.Rtp2httpd.Player

open Option Lib.Run

/-- 33 bits. -/
def wrapTicks : ℤ := 0x200000000

def halfTicks : ℤ := 0x100000000

def byteOf (data : Bytes) (pos : ℕ) : ℤ := (data.getD pos 0).toNat

def maskedByte (data : Bytes) (pos : ℕ) (mask : UInt8) : ℤ := (data.getD pos 0 &&& mask).toNat

def codedPcrBase (data : Bytes) (offset : ℕ) : ℤ :=
  byteOf data (offset + 6) * 33554432 + byteOf data (offset + 7) * 131072 +
    byteOf data (offset + 8) * 512 + byteOf data (offset + 9) * 2 +
    maskedByte data (offset + 10) 0x80 / 128

/-- A PTS or DTS as coded. -/
def codedTimestamp (data : Bytes) (pos : ℕ) : ℤ :=
  maskedByte data pos 0x0E * 536870912 + byteOf data (pos + 1) * 4194304 +
    maskedByte data (pos + 2) 0xFE * 16384 + byteOf data (pos + 3) * 128 +
    maskedByte data (pos + 4) 0xFE / 2

/-- `last_pcr_base_`, none for NaN, and `timestamp_offset_`. -/
structure Clock where
  lastPcrBase : Option ℤ
  timestampOffset : ℤ

def Clock.opened : Clock := ⟨none, 0⟩

/-- `value + 0x100000000 < this.last_pcr_base_`, false for NaN. -/
def Clock.wrapped (s : Clock) (value : ℤ) : Bool := s.lastPcrBase.any (value + halfTicks < ·)

/-- `getPcrBase`: the value and the state behind it. -/
def getPcrBase (s : Clock) (data : Bytes) (offset : ℕ) : ℤ × Clock :=
  let pcrBase := codedPcrBase data offset + s.timestampOffset
  if s.wrapped pcrBase then
    (pcrBase + wrapTicks, ⟨some (pcrBase + wrapTicks), s.timestampOffset + wrapTicks⟩)
  else (pcrBase, { s with lastPcrBase := some pcrBase })

def getTimestamp (s : Clock) (data : Bytes) (pos : ℕ) : ℤ :=
  let timestamp := codedTimestamp data pos + s.timestampOffset
  if s.wrapped timestamp then timestamp + wrapTicks else timestamp

/-- Where `parsePES` reads a PTS and a DTS. -/
def stampPositions (data : Bytes) : List ℕ :=
  let flags := (data.getD 7 0 &&& 0xC0) >>> 6
  if flags = 2 then [9] else if flags = 3 then [9, 14] else []

/-- What the clock sees of a stream. -/
inductive Stamp
  /-- A TS packet with a PCR, at `offset` of its chunk. -/
  | pcr (data : Bytes) (offset : ℕ)
  /-- A PES packet. -/
  | pes (data : Bytes)

def Clock.step (s : Clock) : Stamp → Clock
  | .pcr data offset => (getPcrBase s data offset).2
  | .pes _ => s

/-! ## Lifts -/

/-- `value` is `coded` and a number of wrap-arounds. -/
def IsLift (coded value : ℤ) : Prop := value % wrapTicks = coded % wrapTicks

/-- The lift of `coded` that is nearest to `last`. -/
def NearestLift (last coded value : ℤ) : Prop :=
  IsLift coded value ∧ ∀ other, IsLift coded other → |value - last| ≤ |other - last|

/-- The PCR advances by less than half of its range, and a PES packet with timestamps comes after
    a PCR. Modulo 2^33 each timestamp is within 2^32 of it. -/
def Advances (s : Clock) : Stamp → Prop
  | .pcr data offset =>
    ∀ last, s.lastPcrBase = some last → (codedPcrBase data offset - last) % wrapTicks < halfTicks
  | .pes data => stampPositions data ≠ [] → s.lastPcrBase ≠ none

/-- The PCR gets a lift that is not below the last one, a PTS or DTS the one nearest to it. -/
def Lifted (s : Clock) : Stamp → Prop
  | .pcr data offset =>
    IsLift (codedPcrBase data offset) (getPcrBase s data offset).1 ∧
      ∀ last, s.lastPcrBase = some last → last ≤ (getPcrBase s data offset).1
  | .pes data =>
    ∀ last, s.lastPcrBase = some last → ∀ pos ∈ stampPositions data,
      NearestLift last (codedTimestamp data pos) (getTimestamp s data pos)

/-- A timestamp as coded is at most 2^32 above the last PCR as coded. -/
def NotFromBeforeWrap (s : Clock) : Stamp → Prop
  | .pcr _ _ => True
  | .pes data =>
    ∀ last, s.lastPcrBase = some last →
      ∀ pos ∈ stampPositions data, codedTimestamp data pos ≤ last % wrapTicks + halfTicks

theorem nearestLift_iff {last coded value : ℤ} (h : IsLift coded value) :
    NearestLift last coded value ↔ |value - last| ≤ halfTicks := by
  simp only [NearestLift, IsLift, Int.abs_eq_natAbs, halfTicks] at h ⊢
  constructor
  · rintro ⟨-, hnear⟩
    have hbelow := hnear (value - wrapTicks) (by unfold wrapTicks at *; omega)
    have habove := hnear (value + wrapTicks) (by unfold wrapTicks at *; omega)
    unfold wrapTicks at *
    omega
  · intro hle
    refine ⟨h, fun other hother => ?_⟩
    unfold wrapTicks at *
    omega

instance (s : Clock) (e : Stamp) : Decidable (Advances s e) :=
  match e with
  | .pcr data offset => decidableForallSome s.lastPcrBase fun last =>
      (codedPcrBase data offset - last) % wrapTicks < halfTicks
  | .pes data => inferInstanceAs (Decidable (stampPositions data ≠ [] → s.lastPcrBase ≠ none))

instance (s : Clock) (e : Stamp) : Decidable (NotFromBeforeWrap s e) :=
  match e with
  | .pcr _ _ => inferInstanceAs (Decidable True)
  | .pes data => decidableForallSome s.lastPcrBase fun last =>
      ∀ pos ∈ stampPositions data, codedTimestamp data pos ≤ last % wrapTicks + halfTicks

/-! ## The clock -/

theorem maskedByte_range (data : Bytes) (pos : ℕ) (mask : UInt8) :
    0 ≤ maskedByte data pos mask ∧ maskedByte data pos mask ≤ mask.toNat := by
  rw [maskedByte, UInt8.toNat_and]
  have h := Nat.and_le_right (n := (data.getD pos 0).toNat) (m := mask.toNat)
  omega

theorem byteOf_range (data : Bytes) (pos : ℕ) : 0 ≤ byteOf data pos ∧ byteOf data pos < 256 := by
  have h := (data.getD pos 0).toNat_lt
  rw [byteOf]
  omega

theorem codedPcrBase_range (data : Bytes) (offset : ℕ) :
    0 ≤ codedPcrBase data offset ∧ codedPcrBase data offset < wrapTicks := by
  have h6 := byteOf_range data (offset + 6)
  have h7 := byteOf_range data (offset + 7)
  have h8 := byteOf_range data (offset + 8)
  have h9 := byteOf_range data (offset + 9)
  have h10 := maskedByte_range data (offset + 10) 0x80
  have hmask : (0x80 : UInt8).toNat = 128 := rfl
  rw [codedPcrBase, wrapTicks]
  omega

theorem codedTimestamp_range (data : Bytes) (pos : ℕ) :
    0 ≤ codedTimestamp data pos ∧ codedTimestamp data pos < wrapTicks := by
  have h0 := maskedByte_range data pos 0x0E
  have h1 := byteOf_range data (pos + 1)
  have h2 := maskedByte_range data (pos + 2) 0xFE
  have h3 := byteOf_range data (pos + 3)
  have h4 := maskedByte_range data (pos + 4) 0xFE
  have hmask : (0x0E : UInt8).toNat = 14 := rfl
  have hmask' : (0xFE : UInt8).toNat = 254 := rfl
  rw [codedTimestamp, wrapTicks]
  omega

def Clock.Wound (s : Clock) : Prop :=
  s.timestampOffset % wrapTicks = 0 ∧ ∀ last, s.lastPcrBase = some last →
      s.timestampOffset ≤ last ∧ last < s.timestampOffset + wrapTicks

theorem wound_opened : Clock.opened.Wound := by
  constructor
  · decide
  · intro last h
    cases h

variable {s : Clock}

theorem getPcrBase_spec (hw : s.Wound) {data : Bytes} {offset : ℕ}
    (h : Advances s (.pcr data offset)) :
    Lifted s (.pcr data offset) ∧ (getPcrBase s data offset).2.Wound := by
  have hrange := codedPcrBase_range data offset
  simp only [Lifted, Advances, IsLift, getPcrBase, Clock.Wound, Clock.wrapped] at hw h ⊢
  generalize codedPcrBase data offset = coded at *
  obtain ⟨_ | last, off⟩ := s
  · simp only [any_none, Bool.false_eq_true, if_false, Option.some.injEq,
      forall_eq', reduceCtorEq, false_imp_iff, implies_true, and_true] at hw ⊢
    unfold wrapTicks at *
    omega
  · simp only [any_some, decide_eq_true_eq, Option.some.injEq, forall_eq'] at hw h ⊢
    unfold wrapTicks halfTicks at *
    split_ifs with hwrap
    · simp only [Option.some.injEq, forall_eq']
      omega
    · simp only [Option.some.injEq, forall_eq']
      omega

theorem getTimestamp_nearest_iff (hw : s.Wound) {last : ℤ} (hlast : s.lastPcrBase = some last)
    (data : Bytes) (pos : ℕ) :
    NearestLift last (codedTimestamp data pos) (getTimestamp s data pos) ↔
      codedTimestamp data pos ≤ last % wrapTicks + halfTicks := by
  obtain ⟨hoffset, hbound⟩ := hw
  have hbound := hbound last hlast
  have hrange := codedTimestamp_range data pos
  have hlift : IsLift (codedTimestamp data pos) (getTimestamp s data pos) := by
    simp only [IsLift, getTimestamp]
    unfold wrapTicks at *
    split_ifs <;> omega
  rw [nearestLift_iff hlift, Int.abs_eq_natAbs]
  simp only [getTimestamp, Clock.wrapped, hlast, any_some, decide_eq_true_eq]
  unfold wrapTicks halfTicks at *
  split_ifs with hwrap <;> omega

theorem lifted_iff (hw : s.Wound) {e : Stamp} (h : Advances s e) :
    Lifted s e ↔ NotFromBeforeWrap s e := by
  cases e with
  | pcr data offset => exact iff_of_true (getPcrBase_spec hw h).1 trivial
  | pes data =>
    exact forall₂_congr fun last hlast =>
      forall₂_congr fun pos _ => getTimestamp_nearest_iff hw hlast data pos

theorem wound_step (hw : s.Wound) {e : Stamp} (h : Advances s e) : (s.step e).Wound := by
  cases e with
  | pcr data offset => exact (getPcrBase_spec hw h).2
  | pes data => exact hw

theorem lifted_along_iff (hw : s.Wound) {es : List Stamp} (h : Along Clock.step Advances s es) :
    Along Clock.step Lifted s es ↔ Along Clock.step NotFromBeforeWrap s es := by
  induction es generalizing s with
  | nil => exact Iff.rfl
  | cons e es ih =>
    obtain ⟨hadv, hrest⟩ := h
    exact and_congr (lifted_iff hw hadv) (ih (wound_step hw hadv) hrest)

/-- A TS packet with the given PCR base. -/
def pcrPacket (base : ℕ) : Bytes :=
  [0x47, 0x01, 0x00, 0x20, 0xB7, 0x10, (base / 33554432).toUInt8, (base / 131072).toUInt8,
    (base / 512).toUInt8, (base / 2).toUInt8, ((base % 2) * 128 + 126).toUInt8, 0]

def ptsPacket (pts : ℕ) : Bytes :=
  [0, 0, 1, 0xE0, 0, 0, 0x80, 0x80, 5, (0x21 + pts / 536870912 % 16 / 2 * 2).toUInt8,
    (pts / 4194304).toUInt8, (pts / 16384 % 256 / 2 * 2 + 1).toUInt8, (pts / 128).toUInt8,
    (pts * 2 + 1).toUInt8]

end Apackage.Rtp2httpd.Player
