import Apackage.Rtp2httpd.Time.SameInstant

/-
  What `timezone_parse_to_utc` makes of the time strings of each syntax.

  A time string (`TimeString`) denotes the instants whose calendar date and clock in its zone, or in
  the zone of the caller if it names none, are the ones it spells (`TimeString.Denotes`).

  The parser agrees with that (`Faithful`) except in two ways. The date is not looked up in a
  calendar. And behind the extended format the minutes of a zone without a colon lose their first
  digit, which the second `sscanf` reads as the separator.
-/

namespace Apackage.Rtp2httpd

open List Option Lib.CivilTime Lib.Digits

/-! ## Time strings -/

instance neZero_hundred : NeZero 100 := ⟨by decide⟩
instance neZero_tenThousand : NeZero 10000 := ⟨by decide⟩

/-- Four digits for the year and two for each other field. -/
structure DateTime where
  year : Fin 10000
  month : Fin 100
  day : Fin 100
  hour : Fin 100
  minute : Fin 100
  second : Fin 100

/-- `Z`, or a sign with two digits for the hours and two for the minutes. -/
inductive Zone
  | utc
  | offset (west : Bool) (hours minutes : Fin 100) (colon : Bool)

/-- A fraction without digits is none, not even a point. -/
inductive TimeString
  | timestamp (digits : List (Fin 10)) (short : digits.length ≤ 10)
  | compact (time : DateTime) (gmt : Bool)
  | basic (time : DateTime) (fraction : List (Fin 10)) (zone : Option Zone)
  | extended (time : DateTime) (fraction : List (Fin 10)) (zone : Option Zone)

def DateTime.tm (time : DateTime) : Tm :=
  ⟨(time.year : ℕ), (time.month : ℕ), (time.day : ℕ), (time.hour : ℕ), (time.minute : ℕ),
    (time.second : ℕ)⟩

def digitsText (digits : List (Fin 10)) : Bytes := (digits.map Fin.val).map digitByte

def fractionText (fraction : List (Fin 10)) : Bytes :=
  if fraction = [] then [] else dot :: digitsText fraction

def zoneSign (west : Bool) : UInt8 := if west then minus else plus

def Zone.text : Zone → Bytes
  | .utc => [letterZ]
  | .offset west hours minutes colon =>
    zoneSign west :: (printPadded 2 (hours : ℕ) ++
      ((if colon then [0x3A] else []) ++ printPadded 2 (minutes : ℕ)))

def zoneText (zone : Option Zone) : Bytes := (zone.map Zone.text).getD []

def TimeString.text : TimeString → Bytes
  | .timestamp digits _ => digitsText digits
  | .compact time gmt => formatCompact time.tm ++ if gmt then ascii "GMT" else []
  | .basic time fraction zone =>
    printDate time.tm ++ letterT :: (printClock time.tm ++ (fractionText fraction ++ zoneText zone))
  | .extended time fraction zone => printIso time.tm ++ (fractionText fraction ++ zoneText zone)

/-! ## What they denote -/

/-- How far local time is ahead. -/
def Zone.seconds : Zone → ℤ
  | .utc => 0
  | .offset west hours minutes _ =>
    (if west then -1 else 1) * (((hours : ℕ) : ℤ) * 3600 + ((minutes : ℕ) : ℤ) * 60)

/-- The second 60 is the one behind the second 59. -/
def DateTime.leap (time : DateTime) : ℤ := if (time.second : ℕ) = 60 then 1 else 0

def DateTime.IsLocal (time : DateTime) (t : ℤ) : Prop :=
  gmtime (t - time.leap) = { time.tm with second := time.tm.second - time.leap }

/-- The instants that a string denotes, `tzOffset` being the zone of the caller. -/
def TimeString.Denotes (tzOffset : ℤ) : TimeString → ℤ → Prop
  | .timestamp digits _, t => t = value 10 (digits.map Fin.val)
  | .compact time gmt, t => time.IsLocal (t + if gmt then 0 else tzOffset)
  | .basic time _ zone, t => time.IsLocal (t + (zone.map Zone.seconds).getD tzOffset)
  | .extended time _ zone, t => time.IsLocal (t + (zone.map Zone.seconds).getD tzOffset)

/-- A date of the calendar from 1900 on, and a clock that may show the second 60. -/
structure DateTime.Valid (time : DateTime) : Prop where
  year : 1900 ≤ (time.year : ℕ)
  month : 1 ≤ (time.month : ℕ) ∧ (time.month : ℕ) ≤ 12
  day : 1 ≤ (time.day : ℕ) ∧ ((time.day : ℕ) : ℤ) ≤ lastDay time.tm.year time.tm.month
  hour : (time.hour : ℕ) ≤ 23
  minute : (time.minute : ℕ) ≤ 59
  second : (time.second : ℕ) ≤ 60

def Zone.Valid : Zone → Prop
  | .utc => True
  | .offset _ hours minutes _ => (hours : ℕ) ≤ 14 ∧ (minutes : ℕ) ≤ 59

/-- The fields are in their ranges. -/
def TimeString.Valid : TimeString → Prop
  | .timestamp _ _ => True
  | .compact time _ => time.Valid
  | .basic time _ zone => time.Valid ∧ ∀ z ∈ zone, z.Valid
  | .extended time _ zone => time.Valid ∧ ∀ z ∈ zone, z.Valid

/-- A string of the calendar is refused or read as what it denotes, any other is refused. -/
def Faithful (beyond : Bytes) (tzOffset additionalOffset : ℤ) (s : TimeString) : Prop :=
  (s.Valid → timezoneParseToUtc beyond s.text tzOffset additionalOffset = none ∨
    ∃ t, s.Denotes tzOffset t ∧
      timezoneParseToUtc beyond s.text tzOffset additionalOffset = some (t + additionalOffset)) ∧
  (¬ s.Valid → timezoneParseToUtc beyond s.text tzOffset additionalOffset = none)

/-! ## What the parser takes -/

/-- The zones that the basic format takes: with a colon only. -/
def Zone.takenBasic : Zone → Bool
  | .utc => true
  | .offset _ hours minutes colon => colon && (hours : ℕ) ≤ 14 && (minutes : ℕ) ≤ 59

/-- The zones that the extended format takes: without a colon, whatever the minutes. -/
def Zone.takenExtended : Zone → Bool
  | .utc => true
  | .offset _ hours minutes colon => (hours : ℕ) ≤ 14 && (!colon || (minutes : ℕ) ≤ 59)

/-- The zone that the parser reads: without a colon, the first digit of the minutes is lost. -/
def Zone.misread : Zone → Zone
  | .utc => .utc
  | .offset west hours minutes colon =>
    .offset west hours (if colon then minutes else ⟨(minutes : ℕ) % 10, by omega⟩) colon

/-- The second before 1970 looks like an error. -/
def DateTime.taken (time : DateTime) : Bool := timegm time.tm ≠ -1

/-- The strings that the parser does not refuse. -/
def TimeString.taken : TimeString → Bool
  | .timestamp _ _ => true
  | .compact time _ => time.taken
  | .basic time fraction zone =>
    time.taken && validComponents time.tm && fraction = [] && zone.all Zone.takenBasic
  | .extended time fraction zone =>
    time.taken && validComponents time.tm && fraction.length ≤ 3 && zone.all Zone.takenExtended

/-- The day exists, and no digit of the zone is lost. -/
def TimeString.plain : TimeString → Prop
  | .timestamp _ _ => True
  | .compact time _ => time.Valid
  | .basic time _ _ => time.Valid
  | .extended time _ zone => time.Valid ∧ ∀ z ∈ zone, z.misread = z

/-! ## Each part of the text -/

section Text

variable {rest : Bytes}

variable (time : DateTime)

theorem DateTime.twoDigits : TwoDigits time.tm := by
  constructor <;> unfold DateTime.tm <;> dsimp only <;> omega

theorem DateTime.fourDigits : 0 ≤ time.tm.year ∧ time.tm.year < 10 ^ 4 := by
  unfold DateTime.tm
  dsimp only
  omega

theorem scanInt_fin (n : Fin 100) (rest : Bytes) :
    scanInt 2 (printPadded 2 (n : ℕ) ++ rest) = some (((n : ℕ) : ℤ), rest) :=
  scanInt_printPadded (by decide) (by omega) (by omega)

variable (west : Bool)

theorem zoneSign_sign : zoneSign west = plus ∨ zoneSign west = minus := by
  cases west
  · exact .inl rfl
  · exact .inr rfl

theorem signOf_zoneSign : signOf (zoneSign west) = if west then -1 else 1 := by cases west <;> rfl

theorem printPadded_fin (n : Fin 100) : printPadded 2 ((n : ℕ) : ℤ) =
    [digitByte ((n : ℕ) / 10), digitByte ((n : ℕ) % 10)] := by
  revert n
  decide

theorem scanInt_digit (n : ℕ) : scanInt 2 [digitByte (n % 10)] = some (((n % 10 : ℕ) : ℤ), []) := by
  have hdigit : n % 10 < 10 := Nat.mod_lt _ (by decide)
  generalize n % 10 = d at hdigit ⊢
  revert d
  decide

theorem scanOffset_text (hours minutes : Fin 100) (colon : Bool) :
    scanOffset (Zone.offset west hours minutes colon).text =
      some (if west then -((hours : ℕ) : ℤ) else ((hours : ℕ) : ℤ),
        if colon then ((minutes : ℕ) : ℤ) else (((minutes : ℕ) % 10 : ℕ) : ℤ)) := by
  have hhours : ∀ rest, scanInt 3 (zoneSign west :: (printPadded 2 ((hours : ℕ) : ℤ) ++ rest)) =
      some (if west then -((hours : ℕ) : ℤ) else ((hours : ℕ) : ℤ), rest) := by
    intro rest
    have hsign : scanInt 3 (zoneSign west :: (printPadded 2 ((hours : ℕ) : ℤ) ++ rest)) =
        some (if zoneSign west = 0x2D then -((hours : ℕ) : ℤ) else ((hours : ℕ) : ℤ), rest) :=
      scanInt_signed_printPadded (signOf_cases (zoneSign_sign west)).2 (by decide) (by omega)
        (by omega)
    rw [hsign]
    cases west <;> rfl
  have hminutes := scanInt_fin minutes []
  rw [append_nil] at hminutes
  cases colon with
  | true =>
    have htext : (Zone.offset west hours minutes true).text = zoneSign west ::
        (printPadded 2 ((hours : ℕ) : ℤ) ++ 0x3A :: printPadded 2 ((minutes : ℕ) : ℤ)) := rfl
    unfold scanOffset
    simp only [htext, hhours, hminutes, scanByte_cons, bind_eq_bind, bind_some]
    rfl
  | false =>
    have htext : (Zone.offset west hours minutes false).text = zoneSign west ::
        (printPadded 2 ((hours : ℕ) : ℤ) ++ printPadded 2 ((minutes : ℕ) : ℤ)) := rfl
    have hbyte : ∀ m : Fin 100, scanByte 0x3A (printPadded 2 ((m : ℕ) : ℤ)) = none := by decide
    unfold scanOffset
    simp only [htext, hhours, hbyte, bind_eq_bind, bind_some, bind_none]
    rw [printPadded_fin]
    simp only [drop_one, tail_cons, scanInt_digit, bind_some]
    rfl

variable (zone : Option Zone)

theorem parseZone_text : (parseZone (zoneText zone)).map (Option.map (·.offset)) =
      if zone.all Zone.takenExtended then some (zone.map fun z => z.misread.seconds) else none := by
  cases zone with
  | none => rfl
  | some z =>
    cases z with
    | utc => rfl
    | offset west hours minutes colon =>
      have hoffset := scanOffset_text west hours minutes colon
      obtain ⟨hZ, -⟩ := signOf_cases (zoneSign_sign west)
      have habs : |if west = true then -((hours : ℕ) : ℤ) else ((hours : ℕ) : ℤ)| =
          ((hours : ℕ) : ℤ) := by
        cases west
        · exact abs_of_nonneg (Int.natCast_nonneg _)
        · rw [if_pos rfl, abs_neg]
          exact abs_of_nonneg (Int.natCast_nonneg _)
      show (parseZone (Zone.offset west hours minutes colon).text).map _ = _
      rw [Zone.text] at hoffset ⊢
      unfold parseZone
      simp only [if_neg hZ, if_pos (zoneSign_sign west), hoffset, bind_eq_bind,
        bind_some, habs, signOf_zoneSign]
      have htaken : (Zone.offset west hours minutes colon).takenExtended = true ↔
          ¬ (14 < ((hours : ℕ) : ℤ) ∨
            (if colon then ((minutes : ℕ) : ℤ) else (((minutes : ℕ) % 10 : ℕ) : ℤ)) < 0 ∨
            59 < if colon then ((minutes : ℕ) : ℤ) else (((minutes : ℕ) % 10 : ℕ) : ℤ)) := by
        unfold Zone.takenExtended
        cases colon <;> simp <;> omega
      rw [all_some]
      by_cases htake : (Zone.offset west hours minutes colon).takenExtended = true
      · rw [if_neg (htaken.1 htake), if_pos htake]
        cases colon <;> rfl
      · rw [if_pos (not_not.1 (mt htaken.2 htake)), if_neg htake]
        rfl

theorem parseBasicZone_text : (parseBasicZone (zoneText zone)).map (Option.map (·.offset)) =
      if zone.all Zone.takenBasic then some (zone.map Zone.seconds) else none := by
  cases zone with
  | none => rfl
  | some z =>
    cases z with
    | utc => rfl
    | offset west hours minutes colon =>
      obtain ⟨hZ, -⟩ := signOf_cases (zoneSign_sign west)
      have hminutes := scanInt_fin minutes []
      rw [append_nil] at hminutes
      cases colon with
      | true =>
        show (parseBasicZone (zoneSign west :: (printPadded 2 ((hours : ℕ) : ℤ) ++
          0x3A :: printPadded 2 ((minutes : ℕ) : ℤ)))).map _ = _
        have htaken : (Zone.offset west hours minutes true).takenBasic = true ↔
            ¬ (14 < ((hours : ℕ) : ℤ) ∨ ((minutes : ℕ) : ℤ) < 0 ∨ 59 < ((minutes : ℕ) : ℤ)) := by
          rw [Zone.takenBasic, Bool.true_and, Bool.and_eq_true, decide_eq_true_iff,
            decide_eq_true_iff]
          omega
        unfold parseBasicZone
        simp only [if_neg hZ, if_pos (zoneSign_sign west), scanInt_fin, hminutes, scanByte_cons,
          bind_eq_bind, bind_some, signOf_zoneSign]
        rw [all_some]
        by_cases htake : (Zone.offset west hours minutes true).takenBasic = true
        · rw [if_neg (htaken.1 htake), if_pos htake]
          rfl
        · rw [if_pos (not_not.1 (mt htaken.2 htake)), if_neg htake]
          rfl
      | false =>
        show (parseBasicZone (zoneSign west :: (printPadded 2 ((hours : ℕ) : ℤ) ++
          printPadded 2 ((minutes : ℕ) : ℤ)))).map _ = _
        have hbyte : ∀ m : Fin 100, scanByte 0x3A (printPadded 2 ((m : ℕ) : ℤ)) = none := by decide
        unfold parseBasicZone
        simp only [if_neg hZ, if_pos (zoneSign_sign west), scanInt_fin, hbyte,
          bind_eq_bind, bind_some, bind_none]
        rfl

theorem zoneText_head {c : UInt8} (h : (zoneText zone).head? = some c) :
    isDigit c = false ∧ c ≠ dot := by
  rcases zone with _ | (_ | ⟨west, hours, minutes, colon⟩)
  · cases h
  · cases h
    decide
  · cases west <;> cases h <;> decide

theorem parseBasicZone_fraction {fraction : List (Fin 10)} (h : fraction ≠ []) :
    parseBasicZone (fractionText fraction ++ rest) = none := by
  unfold fractionText
  rw [if_neg h]
  rfl

theorem digits_lt (digits : List (Fin 10)) : ∀ d ∈ digits.map Fin.val, d < 10 := by
  intro d hd
  obtain ⟨x, -, rfl⟩ := List.mem_map.1 hd
  exact x.isLt

variable (fraction : List (Fin 10))

theorem parseZone_fraction (zone : Option Zone) :
    (parseZone (parseMilliseconds (fractionText fraction ++ zoneText zone)).2).map
        (Option.map (·.offset)) =
      if fraction.length ≤ 3 ∧ zone.all Zone.takenExtended then
        some (zone.map fun z => z.misread.seconds)
      else none := by
  have hhead : ∀ c, (zoneText zone).head? = some c → isDigit c = false :=
    fun c hc => (zoneText_head zone hc).1
  by_cases hnil : fraction = []
  · have hdot : (zoneText zone).head? ≠ some dot := fun h => (zoneText_head zone h).2 rfl
    subst hnil
    unfold parseMilliseconds fractionText
    rw [if_pos rfl, nil_append, if_neg hdot, parseZone_text]
    simp
  have hne : fraction.map Fin.val ≠ [] := fun h => hnil (map_eq_nil_iff.1 h)
  have hms : ∀ {value : ℤ} {left : Bytes},
      scanInt 3 (digitsText fraction ++ zoneText zone) = some (value, left) →
      (parseMilliseconds (fractionText fraction ++ zoneText zone)).2 = left := by
    intro value left hscan
    unfold parseMilliseconds fractionText
    simp only [if_neg hnil, cons_append, head?_cons, if_true, drop_one, tail_cons, hscan]
  by_cases hlen : fraction.length ≤ 3
  · have hscan : scanInt 3 (digitsText fraction ++ zoneText zone) =
        some ((value 10 (fraction.map Fin.val) : ℤ), zoneText zone) :=
      scanInt_digits_le hne (digits_lt fraction) (by simpa using hlen) (.inr hhead)
    rw [hms hscan, parseZone_text]
    simp [hlen]
  · have hsplit : digitsText fraction ++ zoneText zone =
        ((fraction.map Fin.val).take 3).map digitByte ++
          (((fraction.map Fin.val).drop 3).map digitByte ++ zoneText zone) := by
      rw [← append_assoc, ← map_append, take_append_drop]
      rfl
    have hthree : ((fraction.map Fin.val).take 3).length = 3 := by
      rw [length_take, length_map]
      omega
    have hscan : scanInt 3 (((fraction.map Fin.val).take 3).map digitByte ++
        (((fraction.map Fin.val).drop 3).map digitByte ++ zoneText zone)) =
          some ((value 10 ((fraction.map Fin.val).take 3) : ℤ),
            ((fraction.map Fin.val).drop 3).map digitByte ++ zoneText zone) :=
      scanInt_digits_le (ne_nil_of_length_eq_add_one hthree)
        (fun d hd => digits_lt fraction d (mem_of_mem_take hd)) hthree.le (.inl hthree)
    rw [← hsplit] at hscan
    obtain ⟨d, ds, hcons⟩ := exists_cons_of_ne_nil (l := (fraction.map Fin.val).drop 3)
      fun h => by
        have := congrArg List.length h
        rw [length_drop, length_map, length_nil] at this
        omega
    have hd : d < 10 := digits_lt fraction d (mem_of_mem_drop (hcons ▸ mem_cons_self))
    have hnone : ∀ rest, parseZone (digitByte d :: rest) = none := by
      obtain ⟨-, hminus, hplus, -, -, hZ, -⟩ := digitByte_plain hd
      have hsign : ¬ (digitByte d = plus ∨ digitByte d = minus) := not_or.2 ⟨hplus, hminus⟩
      intro rest
      unfold parseZone
      simp only [if_neg hZ, if_neg hsign]
    rw [hms hscan, hcons, map_cons, cons_append, hnone, if_neg fun h => hlen h.1]
    rfl

theorem digitsText_isDigit (digits : List (Fin 10)) : ∀ c ∈ digitsText digits, isDigit c = true := by
  intro c hc
  obtain ⟨d, hd, rfl⟩ := List.mem_map.1 hc
  exact digitByte_isDigit (digits_lt digits d hd)

theorem tail_no_nul (zone : Option Zone) :
    (0 : UInt8) ∉ fractionText fraction ++ zoneText zone := by
  intro hmem
  rcases mem_append.1 hmem with hmem | hmem
  · unfold fractionText at hmem
    split at hmem
    · cases hmem
    · rcases List.mem_cons.1 hmem with hdot | hmem
      · exact absurd hdot (by decide)
      · exact absurd (digitsText_isDigit fraction _ hmem) (by decide)
  · rcases zone with _ | (_ | ⟨west, hours, minutes, colon⟩)
    · cases hmem
    · exact absurd hmem (by decide)
    · rcases List.mem_cons.1 hmem with hsign | hmem
      · cases west <;> exact absurd hsign (by decide)
      rcases mem_append.1 hmem with hmem | hmem
      · exact (printPadded_plain hmem).1 rfl
      rcases mem_append.1 hmem with hmem | hmem
      · cases colon <;> exact absurd hmem (by decide)
      · exact (printPadded_plain hmem).1 rfl

end Text

/-! ## What is read -/

theorem timestampOf_taken (time : DateTime) :
    timestampOf time.tm = if time.taken then some (timegm time.tm) else none := by
  unfold timestampOf DateTime.taken
  by_cases h : timegm time.tm = -1 <;> simp [h]

/-- What the parser makes of the string, if it does not refuse it. -/
def TimeString.read (tzOffset : ℤ) : TimeString → ℤ
  | .timestamp digits _ => value 10 (digits.map Fin.val)
  | .compact time gmt => timegm time.tm - if gmt then 0 else tzOffset
  | .basic time _ zone => timegm time.tm - (zone.map Zone.seconds).getD tzOffset
  | .extended time _ zone => timegm time.tm - (zone.map fun z => z.misread.seconds).getD tzOffset

section Read

variable (beyond : Bytes) (tzOffset additionalOffset : ℤ)

theorem read_timestamp {digits : List (Fin 10)} (short : digits.length ≤ 10) :
    timezoneParseToUtc beyond (digitsText digits) tzOffset additionalOffset =
      some (value 10 (digits.map Fin.val) + additionalOffset) := by
  have hall : (digitsText digits).all isDigit = true := List.all_eq_true.2 (digitsText_isDigit digits)
  have hlen : (digitsText digits).length ≤ 10 := by
    unfold digitsText
    rwa [length_map, length_map]
  have hstamp : isTimestamp (digitsText digits) = true := by
    unfold isTimestamp
    rw [hall, decide_eq_true hlen]
    rfl
  unfold timezoneParseToUtc
  rw [if_pos hstamp]
  unfold digitsText
  rw [decimalValue_digits (digits_lt digits)]

variable (time : DateTime)

theorem read_compact (gmt : Bool) :
    timezoneParseToUtc beyond (TimeString.compact time gmt).text tzOffset additionalOffset =
      if time.taken then some (timegm time.tm - (if gmt then 0 else tzOffset) + additionalOffset)
      else none := by
  have htaken := timestampOf_taken time
  cases gmt with
  | true =>
    show timezoneParseToUtc beyond (formatCompact time.tm ++ ascii "GMT") _ _ = _
    rw [compactGmt_reads beyond time.twoDigits time.fourDigits, htaken]
    split <;> simp
  | false =>
    show timezoneParseToUtc beyond (formatCompact time.tm ++ []) _ _ = _
    rw [append_nil, compact_reads beyond time.twoDigits time.fourDigits, htaken]
    split <;> simp

variable (fraction : List (Fin 10))

theorem read_basic (zone : Option Zone) :
    timezoneParseToUtc beyond (TimeString.basic time fraction zone).text tzOffset additionalOffset =
      if (TimeString.basic time fraction zone).taken then
        some (timegm time.tm - (zone.map Zone.seconds).getD tzOffset + additionalOffset)
      else none := by
  have htwo := time.twoDigits
  have hfour := time.fourDigits
  have htaken := timestampOf_taken time
  have hdispatch := basic_dispatch beyond (length_formatCompact htwo hfour).ge
    (formatCompact_isDigit htwo hfour.1) (fractionText fraction ++ zoneText zone) tzOffset
    additionalOffset
  rw [formatCompact_split htwo hfour, parseBasic_text htwo hfour] at hdispatch
  refine hdispatch.trans ?_
  unfold TimeString.taken
  by_cases hvalid : validComponents time.tm = true
  · rw [if_pos hvalid]
    by_cases hnil : fraction = []
    · have hzone := parseBasicZone_text zone
      subst hnil
      have htext : fractionText [] ++ zoneText zone = zoneText zone := rfl
      rw [htext]
      by_cases hz : zone.all Zone.takenBasic = true
      · rw [if_pos hz] at hzone
        obtain ⟨suffix, hsuffix, hoffset⟩ := map_eq_some_iff.1 hzone
        rw [hsuffix, map_some, bind_some, hoffset, htaken]
        split <;> simp [*]
      · rw [if_neg hz, map_eq_none_iff] at hzone
        rw [hzone]
        simp [hz]
    · rw [parseBasicZone_fraction hnil]
      simp [hnil]
  · rw [if_neg hvalid]
    simp [hvalid]

theorem read_extended (zone : Option Zone) :
    timezoneParseToUtc beyond (TimeString.extended time fraction zone).text tzOffset
        additionalOffset =
      if (TimeString.extended time fraction zone).taken then
        some (timegm time.tm - (zone.map fun z => z.misread.seconds).getD tzOffset +
          additionalOffset)
      else none := by
  have htwo := time.twoDigits
  have hfour := time.fourDigits
  have htaken := timestampOf_taken time
  have hmem : minus ∈ (TimeString.extended time fraction zone).text.take 8 := by
    have hyear : 0 ≤ time.tm.year ∧ time.tm.year ≤ 10000 := by omega
    have hformat := minus_mem_formatIso hyear (-1) (fractionText fraction ++ zoneText zone)
    rwa [formatIso8601_eq, if_neg (by decide), nil_append] at hformat
  rw [iso_dispatch beyond hmem (by decide)]
  show ((timezoneParseIso8601 beyond (printIso time.tm ++ (fractionText fraction ++
    zoneText zone))).bind _) = _
  rw [parseIso_text beyond htwo hfour (tail_no_nul fraction zone)]
  unfold TimeString.taken
  by_cases hvalid : validComponents time.tm = true
  · rw [if_pos hvalid]
    have hzone := parseZone_fraction fraction zone
    by_cases hz : fraction.length ≤ 3 ∧ zone.all Zone.takenExtended = true
    · rw [if_pos hz] at hzone
      obtain ⟨suffix, hsuffix, hoffset⟩ := map_eq_some_iff.1 hzone
      rw [hsuffix, map_some, bind_some, hoffset, htaken]
      split <;> simp [*]
    · rw [if_neg hz, map_eq_none_iff] at hzone
      rw [hzone]
      have hrefused : ¬ ((time.taken && validComponents time.tm && decide (fraction.length ≤ 3) &&
          zone.all Zone.takenExtended) = true) := by
        simp only [Bool.and_eq_true, decide_eq_true_eq]
        exact fun h => hz ⟨h.1.2, h.2⟩
      rw [if_neg hrefused]
      rfl
  · rw [if_neg hvalid]
    simp [hvalid]

/-- The parser refuses the strings that are not taken, and reads the others. -/
theorem parseToUtc_text (s : TimeString) :
    timezoneParseToUtc beyond s.text tzOffset additionalOffset =
      if s.taken then some (s.read tzOffset + additionalOffset) else none := by
  cases s with
  | timestamp digits short => exact read_timestamp beyond tzOffset additionalOffset short
  | compact time gmt => exact read_compact beyond tzOffset additionalOffset time gmt
  | basic time fraction zone => exact read_basic beyond tzOffset additionalOffset time fraction zone
  | extended time fraction zone =>
    exact read_extended beyond tzOffset additionalOffset time fraction zone

end Read

/-! ## When that is what they denote -/

variable {time : DateTime}

theorem DateTime.IsLocal.eq {t : ℤ} (h : time.IsLocal t) : t = timegm time.tm := by
  unfold IsLocal gmtime at h
  have hback := seconds_civil (t - time.leap)
  rw [h] at hback
  unfold timegm
  unfold seconds at hback ⊢
  dsimp only at hback ⊢
  omega

theorem DateTime.IsLocal.unique {t u : ℤ} (ht : time.IsLocal t) (hu : time.IsLocal u) : t = u :=
  ht.eq.trans hu.eq.symm

theorem DateTime.Valid.isLocal (h : time.Valid) : time.IsLocal (timegm time.tm) := by
  have hshift : timegm time.tm - time.leap =
      seconds { time.tm with second := time.tm.second - time.leap } := by
    unfold timegm seconds
    dsimp only
    omega
  unfold IsLocal gmtime
  rw [hshift]
  refine civil_seconds ⟨?_, h.day.imp_left fun h1 => ?_, ?_, ?_, ?_⟩
  · have hmonth := h.month
    unfold tm
    dsimp only
    omega
  · unfold tm
    dsimp only
    omega
  · have hhour := h.hour
    unfold tm
    dsimp only
    omega
  · have hminute := h.minute
    unfold tm
    dsimp only
    omega
  · have hsecond := h.second
    unfold tm leap
    dsimp only
    split <;> omega

variable {z : Zone}

theorem Zone.misread_eq (h : z.misread.seconds = z.seconds) : z.misread = z := by
  cases z with
  | utc => rfl
  | offset west hours minutes colon =>
    cases colon with
    | true => rfl
    | false =>
      have hminutes : (minutes : ℕ) % 10 = minutes := by
        unfold misread seconds at h
        cases west <;> simp at h <;> omega
      unfold misread
      simp only [Bool.false_eq_true, if_false, Zone.offset.injEq, true_and, and_true]
      exact Fin.ext hminutes

theorem Zone.valid_of_takenBasic (h : z.takenBasic = true) : z.Valid := by
  cases z with
  | utc => trivial
  | offset west hours minutes colon =>
    unfold takenBasic at h
    simp only [Bool.and_eq_true, decide_eq_true_eq] at h
    exact ⟨h.1.2, h.2⟩

theorem Zone.valid_of_misread (h : z.takenExtended = true) (hz : z.misread = z) : z.Valid := by
  cases z with
  | utc => trivial
  | offset west hours minutes colon =>
    unfold takenExtended at h
    simp only [Bool.and_eq_true, decide_eq_true_eq] at h
    cases colon with
    | true => exact ⟨h.1, by simpa using h.2⟩
    | false =>
      have hminutes := congrArg Fin.val (Zone.offset.inj hz).2.2.1
      simp only [Bool.false_eq_true, if_false] at hminutes
      exact ⟨h.1, by omega⟩

/-- A string that is taken is read as what it denotes if and only if its day exists and its zone
    keeps its digits. -/
theorem denotes_read {s : TimeString} (htaken : s.taken = true) (tzOffset : ℤ) :
    s.Valid ∧ s.Denotes tzOffset (s.read tzOffset) ↔ s.plain := by
  cases s with
  | timestamp digits short => exact ⟨fun _ => trivial, fun _ => ⟨trivial, rfl⟩⟩
  | compact time gmt =>
    refine ⟨And.left, fun h => ⟨h, ?_⟩⟩
    have hback : timegm time.tm - (if gmt then 0 else tzOffset) + (if gmt then 0 else tzOffset) =
        timegm time.tm := by omega
    show time.IsLocal _
    rw [TimeString.read, hback]
    exact DateTime.Valid.isLocal h
  | basic time fraction zone =>
    unfold TimeString.taken at htaken
    simp only [Bool.and_eq_true, Option.all_eq_true] at htaken
    refine ⟨fun h => h.1.1, fun h => ⟨⟨h, fun z hz => ?_⟩, ?_⟩⟩
    · exact Zone.valid_of_takenBasic (htaken.2 z hz)
    · show time.IsLocal _
      rw [TimeString.read, Int.sub_add_cancel]
      exact DateTime.Valid.isLocal h
  | extended time fraction zone =>
    unfold TimeString.taken at htaken
    simp only [Bool.and_eq_true, Option.all_eq_true] at htaken
    constructor
    · rintro ⟨⟨hvalid, -⟩, hlocal⟩
      refine ⟨hvalid, fun z hz => Zone.misread_eq ?_⟩
      obtain rfl := mem_def.1 hz
      have hsum := DateTime.IsLocal.eq hlocal
      simp only [TimeString.read, map_some, getD_some] at hsum
      omega
    · rintro ⟨hvalid, hzone⟩
      refine ⟨⟨hvalid, fun z hz => Zone.valid_of_misread (htaken.2 z hz) (hzone z hz)⟩, ?_⟩
      have hoffset : zone.map (fun z => z.misread.seconds) = zone.map Zone.seconds :=
        Option.map_congr fun z hz => congrArg Zone.seconds (hzone z hz)
      show time.IsLocal _
      rw [TimeString.read, hoffset, Int.sub_add_cancel]
      exact DateTime.Valid.isLocal hvalid

theorem TimeString.Denotes.eq {s : TimeString} {tzOffset t u : ℤ} (ht : s.Denotes tzOffset t)
    (hu : s.Denotes tzOffset u) : t = u := by
  cases s with
  | timestamp digits short => exact ht.trans hu.symm
  | compact time gmt => exact add_right_cancel (DateTime.IsLocal.unique ht hu)
  | basic time fraction zone => exact add_right_cancel (DateTime.IsLocal.unique ht hu)
  | extended time fraction zone => exact add_right_cancel (DateTime.IsLocal.unique ht hu)

/-- The parser does what it should with a string if and only if it refuses the string, or the
    date and clock are in the calendar and the zone loses no digit. -/
theorem faithful_iff (beyond : Bytes) (tzOffset additionalOffset : ℤ) (s : TimeString) :
    Faithful beyond tzOffset additionalOffset s ↔ s.taken = false ∨ s.plain := by
  unfold Faithful
  rw [parseToUtc_text]
  by_cases htaken : s.taken = true
  · have hread := denotes_read htaken tzOffset
    rw [if_pos htaken, ← hread]
    constructor
    · rintro ⟨hvalid, hinvalid⟩
      by_cases hv : s.Valid
      · obtain hnone | ⟨t, ht, heq⟩ := hvalid hv
        · cases hnone
        · have hsame : s.read tzOffset = t := add_right_cancel (some.inj heq)
          exact .inr ⟨hv, hsame ▸ ht⟩
      · cases hinvalid hv
    · rintro (hrefused | ⟨hv, hdenotes⟩)
      · exact absurd hrefused (by simp [htaken])
      · exact ⟨fun _ => .inr ⟨_, hdenotes, rfl⟩, fun h => absurd hv h⟩
  · rw [if_neg htaken]
    have hrefused : s.taken = false := Bool.not_eq_true _ ▸ htaken
    exact ⟨fun _ => .inl hrefused, fun _ => ⟨fun _ => .inl rfl, fun _ => rfl⟩⟩

/-- Noon of the first of May, five and a half hours ahead of UTC. -/
def noonInIndia : TimeString := .extended ⟨2024, 5, 1, 12, 0, 0⟩ [] (some (.offset false 5 30 false))

/-- A month 13. -/
def thirteenthMonth : TimeString := .compact ⟨2024, 13, 1, 0, 0, 0⟩ true

/-- Half past six in UTC is read as seven, and the month 13 as the next January. -/
theorem noon_misread : noonInIndia.text = ascii "2024-05-01T12:00:00+0530" ∧ noonInIndia.Valid ∧
      noonInIndia.Denotes 0 1714545000 ∧
      timezoneParseToUtc [] (ascii "2024-05-01T12:00:00+0530") 0 0 = some 1714546800 ∧
      ¬ Faithful [] 0 0 noonInIndia ∧
      thirteenthMonth.text = ascii "20241301000000GMT" ∧ ¬ thirteenthMonth.Valid ∧
      timezoneParseToUtc [] (ascii "20241301000000GMT") 0 0 = some 1735689600 ∧
      ¬ Faithful [] 0 0 thirteenthMonth := by
  have htext : noonInIndia.text = ascii "2024-05-01T12:00:00+0530" := by decide
  have hvalid : noonInIndia.Valid := by
    refine ⟨⟨by decide, by decide, by decide, by decide, by decide, by decide⟩, fun z hz => ?_⟩
    obtain rfl := some.inj hz
    exact ⟨by decide, by decide⟩
  have hdenotes : noonInIndia.Denotes 0 1714545000 := by
    show gmtime _ = _
    decide
  have hread : timezoneParseToUtc [] (ascii "2024-05-01T12:00:00+0530") 0 0 = some 1714546800 := by
    decide
  have htext' : thirteenthMonth.text = ascii "20241301000000GMT" := by decide
  have hinvalid : ¬ thirteenthMonth.Valid := fun h => absurd h.month (by decide)
  have hread' : timezoneParseToUtc [] (ascii "20241301000000GMT") 0 0 = some 1735689600 := by decide
  refine ⟨htext, hvalid, hdenotes, hread, fun h => ?_, htext', hinvalid, hread', fun h => ?_⟩
  · have hfaithful := h.1 hvalid
    rw [htext, hread] at hfaithful
    rcases hfaithful with hnone | ⟨t, ht, heq⟩
    · cases hnone
    · have hsum := some.inj heq
      rw [ht.eq hdenotes] at hsum
      exact absurd hsum (by decide)
  · have hnone := h.2 hinvalid
    rw [htext', hread'] at hnone
    cases hnone

end Apackage.Rtp2httpd
