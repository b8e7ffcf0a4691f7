import Apackage.Rtp2httpd.Time.Scan

/-
  The text of a time is read back: the date and the clock in each format, the zone, a timestamp.
-/

namespace Apackage.Rtp2httpd

open List Option Lib.CivilTime Lib.Digits

/-! ## What is written is read back -/

/-- Every field but the year has at most two digits. -/
structure TwoDigits (tm : Tm) : Prop where
  month : 0 ≤ tm.month ∧ tm.month < 10 ^ 2
  day : 0 ≤ tm.day ∧ tm.day < 10 ^ 2
  hour : 0 ≤ tm.hour ∧ tm.hour < 10 ^ 2
  minute : 0 ≤ tm.minute ∧ tm.minute < 10 ^ 2
  second : 0 ≤ tm.second ∧ tm.second < 10 ^ 2

theorem gmtime_twoDigits (t : ℤ) : TwoDigits (gmtime t) := by
  obtain ⟨⟨_, _⟩, ⟨_, _⟩, ⟨_, _⟩, ⟨_, _⟩, _, _⟩ := civil_range t
  unfold gmtime
  constructor <;> omega

theorem validComponents_gmtime (t : ℤ) :
    validComponents (gmtime t) = true ↔ 1900 ≤ (gmtime t).year ∧ (gmtime t).year ≤ 9999 := by
  obtain ⟨⟨_, _⟩, ⟨_, _⟩, ⟨_, _⟩, ⟨_, _⟩, _, _⟩ := civil_range t
  have hsecond : (civil t).second ≤ 60 := by omega
  unfold gmtime validComponents
  simp [*]

def printDate (tm : Tm) : Bytes :=
  printPadded 4 tm.year ++ printPadded 2 tm.month ++ printPadded 2 tm.day

def printClock (tm : Tm) : Bytes :=
  printPadded 2 tm.hour ++ printPadded 2 tm.minute ++ printPadded 2 tm.second

theorem formatCompact_eq (tm : Tm) : formatCompact tm = printDate tm ++ printClock tm := by
  unfold formatCompact printDate printClock
  simp only [append_assoc]

section Format

variable {tm : Tm} (h : TwoDigits tm) (hy : 0 ≤ tm.year ∧ tm.year < 10 ^ 4)

include h

theorem length_printClock : (printClock tm).length = 6 := by
  unfold printClock
  rw [length_append, length_append, length_printPadded h.hour.1 h.hour.2,
    length_printPadded h.minute.1 h.minute.2, length_printPadded h.second.1 h.second.2]

theorem printClock_isDigit : ∀ c ∈ printClock tm, isDigit c = true := by
  intro c hc
  rcases mem_append.1 hc with hc | hc
  · rcases mem_append.1 hc with hc | hc
    · exact printPadded_isDigit h.hour.1 hc
    · exact printPadded_isDigit h.minute.1 hc
  · exact printPadded_isDigit h.second.1 hc

theorem printDate_isDigit (hy : 0 ≤ tm.year) : ∀ c ∈ printDate tm, isDigit c = true := by
  intro c hc
  rcases mem_append.1 hc with hc | hc
  · rcases mem_append.1 hc with hc | hc
    · exact printPadded_isDigit hy hc
    · exact printPadded_isDigit h.month.1 hc
  · exact printPadded_isDigit h.day.1 hc

include hy

theorem length_printDate : (printDate tm).length = 8 := by
  unfold printDate
  rw [length_append, length_append, length_printPadded hy.1 hy.2,
    length_printPadded h.month.1 h.month.2, length_printPadded h.day.1 h.day.2]

theorem scanCompact_format (rest : Bytes) : scanCompact (formatCompact tm ++ rest) = some tm := by
  unfold scanCompact formatCompact
  simp only [append_assoc, bind_eq_bind, bind_some,
    scanInt_printPadded (by decide) hy.1 hy.2, scanInt_printPadded (by decide) h.month.1 h.month.2,
    scanInt_printPadded (by decide) h.day.1 h.day.2,
    scanInt_printPadded (by decide) h.hour.1 h.hour.2,
    scanInt_printPadded (by decide) h.minute.1 h.minute.2,
    scanInt_printPadded (by decide) h.second.1 h.second.2]
  rfl

theorem scanBasic_format (rest : Bytes) :
    scanBasic (printDate tm ++ letterT :: (printClock tm ++ rest)) = some tm := by
  unfold scanBasic printDate printClock
  simp only [append_assoc, bind_eq_bind, bind_some, scanByte_cons,
    scanInt_printPadded (by decide) hy.1 hy.2, scanInt_printPadded (by decide) h.month.1 h.month.2,
    scanInt_printPadded (by decide) h.day.1 h.day.2,
    scanInt_printPadded (by decide) h.hour.1 h.hour.2,
    scanInt_printPadded (by decide) h.minute.1 h.minute.2,
    scanInt_printPadded (by decide) h.second.1 h.second.2]
  rfl

/-- The date and time of a full ISO 8601 string. -/
def printIso (tm : Tm) : Bytes :=
  printPadded 4 tm.year ++ minus :: (printPadded 2 tm.month ++ minus :: (printPadded 2 tm.day ++
    letterT :: (printPadded 2 tm.hour ++ 0x3A :: (printPadded 2 tm.minute ++
      0x3A :: printPadded 2 tm.second))))

omit h hy in
theorem formatIso8601_eq (tm : Tm) (milliseconds : ℤ) (suffix : Bytes) :
    formatIso8601 tm milliseconds suffix = printIso tm ++
      ((if 0 ≤ milliseconds then dot :: printPadded 3 milliseconds else []) ++ suffix) := by
  unfold formatIso8601 printIso
  simp only [append_assoc, cons_append]

theorem length_printIso : (printIso tm).length = 19 := by
  unfold printIso
  simp [length_append, length_cons, length_printPadded hy.1 hy.2, length_printPadded h.month.1
    h.month.2, length_printPadded h.day.1 h.day.2, length_printPadded h.hour.1 h.hour.2,
    length_printPadded h.minute.1 h.minute.2, length_printPadded h.second.1 h.second.2]

theorem scanIso_format (rest : Bytes) : scanIso (printIso tm ++ rest) = some tm := by
  unfold scanIso printIso
  simp only [append_assoc, cons_append, bind_eq_bind, bind_some,
    scanByte_cons, scanInt_printPadded (by decide) hy.1 hy.2,
    scanInt_printPadded (by decide) h.month.1 h.month.2,
    scanInt_printPadded (by decide) h.day.1 h.day.2,
    scanInt_printPadded (by decide) h.hour.1 h.hour.2,
    scanInt_printPadded (by decide) h.minute.1 h.minute.2,
    scanInt_printPadded (by decide) h.second.1 h.second.2]
  rfl

end Format

/-! ## Zones -/

variable {c : UInt8}

theorem signOf_cases (hc : c = plus ∨ c = minus) : c ≠ letterZ ∧ (c = 0x2D ∨ c = 0x2B) := by
  rcases hc with rfl | rfl
  · exact ⟨by decide, .inr rfl⟩
  · exact ⟨by decide, .inl rfl⟩

variable {z : ℤ}

theorem printPadded_two (h : z < 0) : printPadded 2 z = 0x2D :: printPadded 1 (-z) := by
  have habs : z.natAbs = (-z).toNat := by omega
  rw [printPadded_nonneg (z := -z) (by omega), printPadded, if_pos h, habs]

theorem scanInt_two (h0 : -9 ≤ z) (h1 : z < 10 ^ 2) (rest : Bytes) :
    scanInt 2 (printPadded 2 z ++ rest) = some (z, rest) := by
  by_cases hz : 0 ≤ z
  · exact scanInt_printPadded (by decide) hz h1
  · have hlt : -z < 10 ^ 1 := by omega
    rw [printPadded_two (by omega), cons_append, scanInt_signed_printPadded (w := 1)
      (.inl rfl) (by decide) (by omega) hlt, if_pos rfl, Int.neg_neg]

theorem length_printPadded_two (h0 : -9 ≤ z) (h1 : z < 10 ^ 2) : (printPadded 2 z).length = 2 := by
  by_cases hz : 0 ≤ z
  · exact length_printPadded hz h1
  · have hlt : -z < 10 ^ 1 := by omega
    rw [printPadded_two (by omega), length_cons, length_printPadded (by omega) hlt]

theorem printPadded_plain {w : ℕ} (hc : c ∈ printPadded w z) : c ≠ 0 ∧ c ≠ letterT := by
  have hdigit : ∀ w n, c ∈ padDecimal w n → c ≠ 0 ∧ c ≠ letterT := by
    intro w n hc
    rw [padDecimal] at hc
    obtain ⟨d, hd, rfl⟩ := List.mem_map.1 hc
    have hlt : d < 10 := by
      split at hd
      · exact fixed_lt (by decide) hd
      · exact fixed_lt (by decide) hd
    obtain ⟨-, -, -, hT, h0, -⟩ := digitByte_plain hlt
    exact ⟨h0, hT⟩
  unfold printPadded at hc
  split at hc
  · rcases List.mem_cons.1 hc with rfl | hc
    · decide
    · exact hdigit _ _ hc
  · exact hdigit _ _ hc

/-- What the two parsers read behind a time; only the basic one takes negative hours. -/
inductive ZoneText (least : ℤ) : Option ZoneSuffix → Prop
  | absent : ZoneText least none
  | utc : ZoneText least (some ⟨0, [letterZ]⟩)
  | offset {c : UInt8} {hours minutes : ℤ} (sign : c = plus ∨ c = minus)
      (hours_range : least ≤ hours ∧ hours ≤ 14) (minutes_range : 0 ≤ minutes ∧ minutes ≤ 59) :
      ZoneText least (some ⟨signOf c * (hours * 3600 + minutes * 60), printOffset c hours minutes⟩)

def zoneOffset (zone : Option ZoneSuffix) : ℤ := (zone.map (·.offset)).getD 0

variable {zone : Option ZoneSuffix}

theorem ZoneText.mono {least least' : ℤ} (h : ZoneText least zone) (hle : least' ≤ least) :
    ZoneText least' zone := by
  cases h with
  | absent => exact .absent
  | utc => exact .utc
  | offset sign hours_range minutes_range =>
    exact .offset sign ⟨hle.trans hours_range.1, hours_range.2⟩ minutes_range

section ZoneText

variable {zone : Option ZoneSuffix} (h : ZoneText (-9) zone)

include h

theorem ZoneText.offset_lt : -86400 < zoneOffset zone ∧ zoneOffset zone < 86400 := by
  cases h with
  | absent => exact ⟨by decide, by decide⟩
  | utc => exact ⟨by decide, by decide⟩
  | offset sign hours_range minutes_range =>
    unfold zoneOffset signOf
    dsimp only [map_some, getD_some]
    split <;> constructor <;> omega

theorem ZoneText.length_le : (suffixText zone).length ≤ 6 := by
  cases h with
  | absent => decide
  | utc => decide
  | @offset c hours minutes sign hours_range minutes_range =>
    show (printOffset c hours minutes).length ≤ 6
    unfold printOffset
    rw [length_cons, length_append, length_cons, length_printPadded_two hours_range.1 (by omega),
      length_printPadded_two (by omega) (by omega)]

theorem ZoneText.no_nul : (0 : UInt8) ∉ suffixText zone := by
  cases h with
  | absent => decide
  | utc => decide
  | @offset c hours minutes sign hours_range minutes_range =>
    intro hmem
    rcases List.mem_cons.1 hmem with rfl | hmem
    · exact absurd sign (by decide)
    rcases mem_append.1 hmem with hmem | hmem
    · exact (printPadded_plain hmem).1 rfl
    rcases List.mem_cons.1 hmem with hcolon | hmem
    · exact absurd hcolon (by decide)
    · exact (printPadded_plain hmem).1 rfl

end ZoneText

theorem parseBasicZone_zoneText {p : Bytes} (h : parseBasicZone p = some zone) :
    ZoneText (-9) zone := by
  unfold parseBasicZone at h
  split at h
  · cases h
    exact .absent
  rename_i c rest
  split at h
  · cases h
    exact .utc
  split at h
  · rename_i hc
    obtain ⟨⟨hours, rest'⟩, hhours, h⟩ := bind_eq_some_iff.1 h
    obtain ⟨rest'', -, h⟩ := bind_eq_some_iff.1 h
    obtain ⟨⟨minutes, _⟩, -, h⟩ := bind_eq_some_iff.1 h
    dsimp only at h
    split at h
    · cases h
    rename_i hvalid
    cases h
    obtain ⟨k, hk, -, -, hneg⟩ := scanInt_bounds hhours
    have hhours9 : -9 ≤ hours := by
      by_cases hz : hours < 0
      · obtain ⟨hlt, hge⟩ := hneg hz
        have hk1 : k = 0 ∨ k = 1 := by omega
        rcases hk1 with rfl | rfl
        · omega
        · omega
      · omega
    exact .offset hc ⟨hhours9, by omega⟩ (by omega)
  · cases h

/-- The hours of a full ISO 8601 zone are read with their sign, which is then left out. -/
theorem parseZone_zoneText {p : Bytes} (h : parseZone p = some zone) : ZoneText 0 zone := by
  unfold parseZone at h
  split at h
  · cases h
    exact .absent
  rename_i c rest
  split at h
  · cases h
    exact .utc
  split at h
  · rename_i hc
    obtain ⟨⟨hours, minutes⟩, -, h⟩ := bind_eq_some_iff.1 h
    dsimp only at h
    split at h
    · cases h
    cases h
    exact .offset hc ⟨abs_nonneg hours, by omega⟩ (by omega)
  · cases h

theorem parseBasicZone_suffix (h : ZoneText (-9) zone) :
    parseBasicZone (suffixText zone) = some zone := by
  cases h with
  | absent => rfl
  | utc => rfl
  | @offset c hours minutes sign hours_range minutes_range =>
    obtain ⟨hZ, -⟩ := signOf_cases sign
    show parseBasicZone (c :: (printPadded 2 hours ++ 0x3A :: printPadded 2 minutes)) = _
    have hscan := scanInt_two hours_range.1 (by omega) (0x3A :: printPadded 2 minutes)
    have hscan' := scanInt_two (z := minutes) (by omega) (by omega) []
    rw [append_nil] at hscan'
    unfold parseBasicZone
    simp only [if_neg hZ, if_pos sign, hscan, hscan', scanByte_cons, bind_eq_bind, bind_some]
    rw [if_neg (by omega)]

theorem parseZone_suffix (h : ZoneText 0 zone) : parseZone (suffixText zone) = some zone := by
  cases h with
  | absent => rfl
  | utc => rfl
  | @offset c hours minutes sign hours_range minutes_range =>
    obtain ⟨hZ, hsign⟩ := signOf_cases sign
    show parseZone (c :: (printPadded 2 hours ++ 0x3A :: printPadded 2 minutes)) = _
    have hscan : scanInt 3 (c :: (printPadded 2 hours ++ 0x3A :: printPadded 2 minutes)) =
        some (if c = 0x2D then -hours else hours, 0x3A :: printPadded 2 minutes) :=
      scanInt_signed_printPadded hsign (by decide) hours_range.1 (by omega)
    have hscan' := scanInt_two (z := minutes) (by omega) (by omega) []
    rw [append_nil] at hscan'
    have hoffset : scanOffset (c :: (printPadded 2 hours ++ 0x3A :: printPadded 2 minutes)) =
        some (if c = 0x2D then -hours else hours, minutes) := by
      unfold scanOffset
      simp only [hscan, hscan', scanByte_cons, bind_eq_bind, bind_some]
      rfl
    have habs : |if c = 0x2D then -hours else hours| = hours := by
      split
      · rw [abs_neg, abs_of_nonneg hours_range.1]
      · exact abs_of_nonneg hours_range.1
    unfold parseZone
    simp only [if_neg hZ, if_pos sign, hoffset, bind_eq_bind, bind_some]
    rw [habs, if_neg (by omega)]

/-! ## Reading what was converted -/

theorem timestampOf_gmtime (t : ℤ) : timestampOf (gmtime t) = if t = -1 then none else some t := by
  unfold timestampOf timegm gmtime
  rw [seconds_civil]

/-- A byte near the start that is not a digit rules out the formats that start with digits. -/
theorem not_digits {s : Bytes} {n : ℕ} (hc : c ∈ s.take n) (hn : n ≤ 14)
    (hdigit : isDigit c = false) :
    isTimestamp s = false ∧ isCompact s = false ∧ isCompactGmt s = false := by
  have hall : s.all isDigit = false := by
    rw [List.all_eq_false]
    exact ⟨c, mem_of_mem_take hc, by simp [hdigit]⟩
  have hall' : (s.take 14).all isDigit = false := by
    rw [List.all_eq_false]
    refine ⟨c, ?_, by simp [hdigit]⟩
    exact (take_prefix_take_left hn).subset hc
  unfold isTimestamp isCompact isCompactGmt
  simp [hall, hall']

theorem not_basic {s : Bytes} (hc : c ∈ s.take 8) (hdigit : isDigit c = false) :
    isBasicIso8601Format s = false := by
  have hall : (s.take 8).all isDigit = false := by
    rw [List.all_eq_false]
    exact ⟨c, hc, by simp [hdigit]⟩
  unfold isBasicIso8601Format
  simp [hall]

theorem timestamp_reads (beyond : Bytes) {u : ℤ} (hu : u < 10 ^ 13) :
    timezoneParseToUtc beyond (printInt u) 0 0 = some u ↔ 0 ≤ u ∧ u < 10 ^ 10 := by
  have hletter : ∀ n : ℕ, letterT ∉ printDecimal n := fun n hmem =>
    absurd (printDecimal_isDigit hmem) (by decide)
  by_cases hneg : u < 0
  · have hprint : printInt u = minus :: printDecimal u.natAbs := by rw [printInt, if_pos hneg]; rfl
    have hmem : minus ∈ (printInt u).take 1 := by simp [hprint]
    obtain ⟨h1, h2, h3⟩ := not_digits hmem (by decide) (by decide)
    have h4 := not_basic (s := printInt u) (c := minus) (by simp [hprint]) (by decide)
    have h5 : letterT ∉ printInt u := by
      rw [hprint, List.mem_cons, not_or]
      exact ⟨by decide, hletter _⟩
    refine iff_of_false ?_ (by omega)
    unfold timezoneParseToUtc
    simp [h1, h2, h3, h4, h5]
  · obtain ⟨n, rfl⟩ : ∃ n : ℕ, u = n := ⟨u.toNat, by omega⟩
    have hprint : printInt (n : ℤ) = printDecimal n := by
      rw [printInt, if_neg hneg, Int.natAbs_natCast]
    have hall : (printDecimal n).all isDigit = true :=
      List.all_eq_true.2 fun c hc => printDecimal_isDigit hc
    rw [hprint]
    by_cases hlt : n < 10 ^ 10
    · have hlen : (printDecimal n).length ≤ 10 := by
        rw [length_printDecimal]
        exact Nat.log_lt_of_lt_pow' (by decide) hlt
      refine iff_of_true ?_ ⟨by omega, by exact_mod_cast hlt⟩
      unfold timezoneParseToUtc isTimestamp
      simp [hall, hlen, decimalValue_printDecimal]
    · have hlen : 10 < (printDecimal n).length := by
        rw [length_printDecimal]
        exact Nat.lt_succ_of_le (Nat.le_log_of_pow_le (by decide) (Nat.le_of_not_lt hlt))
      have hlen' : (printDecimal n).length ≤ 13 := by
        rw [length_printDecimal]
        exact Nat.log_lt_of_lt_pow' (by decide) (by exact_mod_cast hu)
      refine iff_of_false ?_ fun h => hlt (by exact_mod_cast h.2)
      have h1 : isTimestamp (printDecimal n) = false := by
        unfold isTimestamp
        simp [hlen]
      have h2 : isCompact (printDecimal n) = false := by
        unfold isCompact
        simp [show (printDecimal n).length ≠ 14 by omega]
      have h3 : isCompactGmt (printDecimal n) = false := by
        unfold isCompactGmt
        simp [show (printDecimal n).length ≠ 17 by omega]
      have h4 : isBasicIso8601Format (printDecimal n) = false := by
        unfold isBasicIso8601Format
        simp [show ¬ 15 ≤ (printDecimal n).length by omega]
      unfold timezoneParseToUtc
      simp [h1, h2, h3, h4, hletter n]

end Apackage.Rtp2httpd
