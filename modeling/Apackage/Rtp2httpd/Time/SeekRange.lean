import Apackage.Rtp2httpd.Time.Denotation
import Apackage.Rtp2httpd.Time.Timezone

/-
  The value of a seek parameter (`service_parse_seek_value` in `service.c`): a time, or a range of
  times, and where it is split (`find_seek_range_separator`).

  Model. A part that is missing is none, and so is the time of a part that is none to the
  parser. `gmtime` does not fail on the times that the parser makes. The two buffers of 128
  bytes are zero behind their text; `beyond` is what stands behind the end of the value.

  A `-` stands between the times of a range, in the dates of the extended format and in front of a
  zone west of UTC. It separates where what is left of it is a time and what is right of it is a
  time or empty. Two times in any syntax are always split there, and so is a time with a `-` behind
  it. A single time is kept whole unless it ends in a zone west of UTC without a colon.
-/

namespace Apackage.Rtp2httpd

open List Option Lib.Digits

/-! ## The value -/

/-- `timezone_parse_utc_offset`: the offset and what follows it; none is -1. -/
def timezoneParseUtcOffset (str : Bytes) : Option (ℤ × Bytes) :=
  if ascii "UTC" <+: str then
    match str.drop 3 with
    | [] => some (0, [])
    | c :: rest =>
      if c = plus ∨ c = minus then do
        let (hours, rest) ← strtol rest
        guard (0 ≤ hours ∧ hours ≤ 14)
        let seconds := signOf c * hours * 3600
        guard (minTimezoneOffsetSeconds ≤ seconds ∧ seconds ≤ maxTimezoneOffsetSeconds)
        return (seconds, rest)
      else some (0, c :: rest)
  else none

/-- `timezone_parse_from_user_agent`, where a failure is UTC. -/
def timezoneParseFromUserAgent (userAgent : Bytes) : ℤ :=
  match strstr (ascii "TZ/") userAgent with
  | none => 0
  | some i => ((timezoneParseUtcOffset (userAgent.drop (i + 3))).map (·.1)).getD 0

def seekBufferSize : ℕ := 128

/-- The zeros behind a text in one of the buffers. -/
def zeros (text : Bytes) : Bytes := List.replicate (seekBufferSize - 1 - text.length) 0

def isValidSeekTimeValue (beyond value : Bytes) : Bool :=
  value ≠ [] && (timezoneParseToUtc beyond value 0 0).isSome

/-- Whether the `-` between the two texts separates a range. -/
def separatesRange (beyond beginText endText : Bytes) : Bool :=
  (0 < beginText.length && beginText.length < seekBufferSize) &&
    isValidSeekTimeValue (zeros beginText) beginText &&
    (endText = [] || isValidSeekTimeValue beyond endText)

/-- The loop of `find_seek_range_separator`, with the text that it has passed. -/
def separatorFrom (beyond : Bytes) : (passed rest : Bytes) → Option ℕ
  | _, [] => none
  | passed, c :: rest =>
    if c = minus ∧ separatesRange beyond passed rest then some passed.length
    else separatorFrom beyond (passed ++ [c]) rest

def findSeekRangeSeparator (beyond value : Bytes) : Option ℕ := separatorFrom beyond [] value

inductive SeekMode
  | passthrough
  | range
  deriving DecidableEq

/-- What a service knows about its seek parameter, without the value. -/
structure SeekSettings where
  seekBeginOffsetSeconds : ℤ
  seekEndOffsetSeconds : ℤ
  userAgent : Option Bytes
  seekMode : SeekMode
  seekModeTzExplicit : Bool
  seekModeTzOffsetSeconds : ℤ
  seekModeWindowSeconds : ℤ

/-- A time in UTC and in the zone of the client. -/
structure ParsedTime where
  utc : ℤ
  tmUtc : Tm
  tmLocal : Tm

/-- `seek_parse_result_t`. -/
structure SeekParseResult where
  hasSeek : Bool
  hasRangeSeparator : Bool
  beginStr : Option Bytes
  endStr : Option Bytes
  beginTime : Option ParsedTime
  endTime : Option ParsedTime
  tzOffsetSeconds : ℤ
  seekBeginOffsetSeconds : ℤ
  seekEndOffsetSeconds : ℤ
  nowUtc : ℤ
  recentClock : Option Tm

/-- A part as its buffer holds it. -/
def seekPart (text : Bytes) : Option Bytes :=
  let text := text.take (seekBufferSize - 1)
  if text = [] then none else some text

/-- The two parts of a value; what stands before a separator fits into the buffer. -/
def seekParts (value : Bytes) : Option ℕ → Option Bytes × Option Bytes
  | some i => (seekPart (value.take i), seekPart (value.drop (i + 1)))
  | none => (seekPart value, none)

def partTime (text : Bytes) (tzOffset offset : ℤ) : Option ℤ :=
  timezoneParseToUtc (zeros text) text tzOffset offset

def recentBegin (settings : SeekSettings) (tzOffset : ℤ) (beginStr : Option Bytes) : Option ℤ := do
  let text ← beginStr
  let utc ← partTime text tzOffset settings.seekBeginOffsetSeconds
  if settings.seekModeTzExplicit && settings.seekModeTzOffsetSeconds ≠ tzOffset then
    partTime text settings.seekModeTzOffsetSeconds settings.seekBeginOffsetSeconds
  else return utc

/-- `service_parse_seek_value` at the time `now`. -/
def serviceParseSeekValue (settings : SeekSettings) (now : ℤ) (beyond seekParamValue : Bytes) :
    SeekParseResult :=
  let tzOffset := (settings.userAgent.map timezoneParseFromUserAgent).getD 0
  let separator := findSeekRangeSeparator beyond seekParamValue
  let (beginStr, endStr) := seekParts seekParamValue separator
  let parsed (utc : ℤ) : ParsedTime := ⟨utc, gmtime utc, gmtime (utc + tzOffset)⟩
  let recent := (recentBegin settings tzOffset beginStr).filter fun utc =>
    settings.seekMode = .range && now ≠ -1 && utc ≤ now &&
      now - utc < settings.seekModeWindowSeconds
  { hasSeek := seekParamValue ≠ []
    hasRangeSeparator := separator.isSome
    beginStr
    endStr
    beginTime := (beginStr.bind (partTime · tzOffset settings.seekBeginOffsetSeconds)).map parsed
    endTime := (endStr.bind (partTime · tzOffset settings.seekEndOffsetSeconds)).map parsed
    tzOffsetSeconds := tzOffset
    seekBeginOffsetSeconds := settings.seekBeginOffsetSeconds
    seekEndOffsetSeconds := settings.seekEndOffsetSeconds
    nowUtc := now
    recentClock := recent.map gmtime }

/-- A zone west of UTC, its hours and minutes four digits. -/
def Zone.bareWest : Zone → Bool
  | .utc => false
  | .offset west _ _ colon => west && !colon

def TimeString.bareWest : TimeString → Bool
  | .timestamp _ _ => false
  | .compact _ _ => false
  | .basic _ _ zone => zone.any Zone.bareWest
  | .extended _ _ zone => zone.any Zone.bareWest

/-- A time string that the parser accepts. -/
structure SeekTime where
  time : TimeString
  taken : time.taken = true
  written : time.text ≠ []

def SeekTime.text (t : SeekTime) : Bytes := t.time.text

/-- Whether a separator is found, and the parts. -/
structure SplitsInto (result : SeekParseResult) (separator : Bool) (beginText : Bytes)
    (endText : Option Bytes) : Prop where
  has_seek : result.hasSeek = true
  separator_found : result.hasRangeSeparator = separator
  begin_str : result.beginStr = some beginText
  end_str : result.endStr = endText

/-- The values of two times, of a time and an open end, and of one time have these parts. -/
structure SplitAsJoined (settings : SeekSettings) (now : ℤ) (beyond : Bytes) (b e : SeekTime) :
    Prop where
  range : SplitsInto (serviceParseSeekValue settings now beyond (b.text ++ minus :: e.text)) true
    b.text (some e.text)
  openEnd : SplitsInto (serviceParseSeekValue settings now beyond (b.text ++ [minus])) true
    b.text none
  single : SplitsInto (serviceParseSeekValue settings now beyond b.text) false b.text none

/-! ## The loop -/

section Loop

variable {beyond u passed rest : Bytes}

theorem separatorFrom_append (h : minus ∉ u) (beyond passed rest : Bytes) :
    separatorFrom beyond passed (u ++ rest) = separatorFrom beyond (passed ++ u) rest := by
  induction u generalizing passed with
  | nil => rw [nil_append, append_nil]
  | cons c u ih =>
    have hc : ¬ (c = minus ∧ separatesRange beyond passed (u ++ rest)) :=
      fun hsep => h (hsep.1 ▸ mem_cons_self)
    rw [cons_append, separatorFrom, if_neg hc, ih fun hu => h (mem_cons_of_mem _ hu),
      append_assoc, singleton_append]

theorem separatorFrom_refused (h : separatesRange beyond passed rest = false) :
    separatorFrom beyond passed (minus :: rest) =
      separatorFrom beyond (passed ++ [minus]) rest := by
  rw [separatorFrom, if_neg (by simp [h])]

theorem separatorFrom_taken (h : separatesRange beyond passed rest = true) :
    separatorFrom beyond passed (minus :: rest) = some passed.length := by
  rw [separatorFrom, if_pos ⟨rfl, h⟩]

theorem separatesRange_left (h : isValidSeekTimeValue (zeros passed) passed = false)
    (beyond rest : Bytes) : separatesRange beyond passed rest = false := by
  simp [separatesRange, h]

theorem separatesRange_right (h : isValidSeekTimeValue beyond rest = false) (hne : rest ≠ [])
    (passed : Bytes) : separatesRange beyond passed rest = false := by
  simp [separatesRange, h, hne]

end Loop

/-! ## Texts that are no times -/

section Refused

variable (beyond : Bytes) {m n : Fin 100} {rest : Bytes}

theorem not_seekTime {text : Bytes} {c : UInt8} (hmem : c ∈ text.take 8)
    (hdigit : isDigit c = false)
    (hscan : letterT ∈ text → ∀ tm, scanIso text = some tm → validComponents tm = false) :
    isValidSeekTimeValue beyond text = false := by
  have hnone : timezoneParseIso8601 beyond text = none := by
    unfold timezoneParseIso8601
    by_cases hT : letterT ∈ text
    · rcases hread : scanIso text with _ | tm
      · simp [hT]
      · simp [hT, hscan hT tm hread]
    · simp [hT]
  unfold isValidSeekTimeValue
  rw [iso_dispatch beyond hmem hdigit, hnone]
  simp

theorem length_two (n : Fin 100) : (printPadded 2 ((n : ℕ) : ℤ)).length = 2 :=
  length_printPadded (by omega) (by omega)

theorem length_four (n : Fin 10000) : (printPadded 4 ((n : ℕ) : ℤ)).length = 4 :=
  length_printPadded (by omega) (by omega)

theorem mem_take_behind {u : Bytes} {c : UInt8} (hlen : u.length ≤ 7) (rest : Bytes) :
    c ∈ (u ++ c :: rest).take 8 := by
  obtain ⟨k, hk⟩ := Nat.exists_eq_add_of_le hlen
  have hroom : 8 - u.length = k + 1 := by omega
  rw [take_append, hroom, take_succ_cons]
  exact mem_append_right _ mem_cons_self

theorem scanInt_four_short (n : Fin 100) {c : UInt8} (hc : isDigit c = false) (rest : Bytes) :
    scanInt 4 (printPadded 2 ((n : ℕ) : ℤ) ++ c :: rest) = some (((n : ℕ) : ℤ), c :: rest) := by
  have hlt : ((n : ℕ) : ℤ).toNat < 10 ^ 2 := toNat_lt_pow (by omega) (by omega)
  have hne : fixed 10 2 ((n : ℕ) : ℤ).toNat ≠ [] :=
    ne_nil_of_length_eq_add_one (length_fixed 10 2 _)
  have hstop : ∀ b, (c :: rest).head? = some b → isDigit b = false := by
    simp [*]
  have hscan := scanInt_digits_le (w := 4) hne (fun d hd => fixed_lt (by decide) hd)
    (by rw [length_fixed]; decide) (.inr hstop)
  rwa [value_fixed_of_lt hlt, ← padDecimal_eq hlt, ← printPadded_nonneg (by omega),
    Int.toNat_of_nonneg (by omega)] at hscan

theorem clock_not_seekTime (n : Fin 100) (rest : Bytes) :
    isValidSeekTimeValue beyond (printPadded 2 ((n : ℕ) : ℤ) ++ 0x3A :: rest) = false := by
  refine not_seekTime beyond (mem_take_behind (by rw [length_two]; decide) rest) (by decide)
    fun _ tm hread => ?_
  have hcolon : scanByte minus (0x3A :: rest) = none := rfl
  unfold scanIso at hread
  rw [scanInt_four_short n (by decide) rest, bind_eq_bind, bind_some] at hread
  dsimp only at hread
  rw [hcolon] at hread
  cases hread

theorem monthDay_not_seekTime (m n : Fin 100) (rest : Bytes) :
    isValidSeekTimeValue beyond (printPadded 2 ((m : ℕ) : ℤ) ++
      minus :: (printPadded 2 ((n : ℕ) : ℤ) ++ letterT :: rest)) = false := by
  refine not_seekTime beyond (mem_take_behind (by rw [length_two]; decide) _) (by decide)
    fun _ tm hread => ?_
  have hletter : scanByte minus (letterT :: rest) = none := rfl
  unfold scanIso at hread
  simp only [scanInt_four_short m (show isDigit minus = false by decide), scanByte_cons,
    scanInt_fin, hletter, bind_eq_bind, bind_some, bind_none] at hread
  cases hread

theorem yearMonth_not_seekTime (y : Fin 10000) (m : Fin 100) : isValidSeekTimeValue beyond
      (printPadded 4 ((y : ℕ) : ℤ) ++ minus :: printPadded 2 ((m : ℕ) : ℤ)) = false := by
  refine not_seekTime beyond (mem_take_behind (by rw [length_four]; decide) _) (by decide)
    fun hletter _ _ => ?_
  have hdigit : ∀ {w : ℕ} {k : ℤ}, 0 ≤ k → letterT ∉ printPadded w k := fun hk hmem =>
    absurd (printPadded_isDigit hk hmem) (by decide)
  rcases mem_append.1 hletter with hmem | hmem
  · exact absurd hmem (hdigit (by omega))
  rcases List.mem_cons.1 hmem with heq | hmem
  · exact absurd heq (by decide)
  · exact absurd hmem (hdigit (by omega))

theorem printPadded_pairs (m n : Fin 100) :
    printPadded 2 ((m : ℕ) : ℤ) ++ printPadded 2 ((n : ℕ) : ℤ) =
      printPadded 4 ((100 * (m : ℕ) + n : ℕ) : ℤ) := by
  have hlt : 100 * (m : ℕ) + n < 10 ^ 4 := by omega
  have h0 : (100 * (m : ℕ) + n) % 10 = (n : ℕ) % 10 := by omega
  have h1 : (100 * (m : ℕ) + n) / 10 % 10 = (n : ℕ) / 10 := by omega
  have h2 : (100 * (m : ℕ) + n) / 10 / 10 % 10 = (m : ℕ) % 10 := by omega
  have h3 : (100 * (m : ℕ) + n) / 10 / 10 / 10 % 10 = (m : ℕ) / 10 := by omega
  rw [printPadded_fin, printPadded_fin, printPadded_nonneg (Int.natCast_nonneg _),
    Int.toNat_natCast, padDecimal_eq hlt]
  simp [fixed, nil_append, cons_append, map_cons, map_nil, h0, h1, h2, h3]

theorem bareZone_not_seekTime {hours : Fin 100} (hle : (hours : ℕ) ≤ 14) (minutes : Fin 100)
    (rest : Bytes) :
    isValidSeekTimeValue beyond
      (printPadded 2 ((hours : ℕ) : ℤ) ++ (printPadded 2 ((minutes : ℕ) : ℤ) ++ minus :: rest)) =
        false := by
  rw [← append_assoc, printPadded_pairs]
  have hlen : (printPadded 4 ((100 * (hours : ℕ) + minutes : ℕ) : ℤ)).length = 4 :=
    length_printPadded (by omega) (by omega)
  refine not_seekTime beyond (mem_take_behind (by rw [hlen]; decide) rest) (by decide)
    fun _ tm hread => ?_
  unfold scanIso at hread
  rw [scanInt_printPadded (by decide) (by omega) (by omega), bind_eq_bind, bind_some] at hread
  have hyear : tm.year = ((100 * (hours : ℕ) + minutes : ℕ) : ℤ) := by
    simp only [bind_eq_bind, bind_eq_some_iff] at hread
    obtain ⟨_, -, _, -, _, -, _, -, _, -, _, -, _, -, _, -, _, -, _, -, h⟩ := hread
    cases h
    rfl
  have hold : ¬ 1900 ≤ tm.year := by omega
  simp [validComponents, hold]

end Refused

/-! ## The texts of times -/

section Text

variable {beyond tail : Bytes}

theorem minus_not_mem_digits {s : Bytes} (h : ∀ c ∈ s, isDigit c = true) : minus ∉ s :=
  fun hmem => absurd (h _ hmem) (by decide)

theorem minus_not_mem_padded {w : ℕ} {n : ℤ} (h : 0 ≤ n) : minus ∉ printPadded w n :=
  minus_not_mem_digits fun _ hc => printPadded_isDigit h hc

theorem minus_not_mem_fraction (fraction : List (Fin 10)) : minus ∉ fractionText fraction := by
  unfold fractionText
  split
  · exact not_mem_nil
  · rw [List.mem_cons, not_or]
    exact ⟨by decide, minus_not_mem_digits (digitsText_isDigit fraction)⟩

theorem zone_passed {zone : Option Zone} (htaken : zone.all Zone.takenExtended = true)
    (htail : (∃ rest, tail = minus :: rest) ∨ tail = [] ∧ zone.any Zone.bareWest = false)
    (passed : Bytes) :
    separatorFrom beyond passed (zoneText zone ++ tail) =
      separatorFrom beyond (passed ++ zoneText zone) tail := by
  rcases zone with _ | (_ | ⟨west, hours, minutes, colon⟩)
  · rw [zoneText, map_none, getD_none, nil_append, append_nil]
  · exact separatorFrom_append (by decide) beyond passed tail
  have hminus : minus ∉ printPadded 2 ((hours : ℕ) : ℤ) ++
      ((if colon then [0x3A] else []) ++ printPadded 2 ((minutes : ℕ) : ℤ)) := by
    rw [mem_append, mem_append, not_or, not_or]
    exact ⟨minus_not_mem_padded (by omega), by cases colon <;> decide,
      minus_not_mem_padded (by omega)⟩
  cases west with
  | false =>
    have hplus : minus ∉ zoneText (some (.offset false hours minutes colon)) := by
      refine fun hmem => ?_
      rcases List.mem_cons.1 hmem with heq | hmem
      · exact absurd heq (by decide)
      · exact hminus hmem
    exact separatorFrom_append hplus beyond passed tail
  | true =>
    have hrefused : separatesRange beyond passed (printPadded 2 ((hours : ℕ) : ℤ) ++
        ((if colon then [0x3A] else []) ++ printPadded 2 ((minutes : ℕ) : ℤ)) ++ tail) = false := by
      have hne : printPadded 2 ((hours : ℕ) : ℤ) ++
          ((if colon then [0x3A] else []) ++ printPadded 2 ((minutes : ℕ) : ℤ)) ++ tail ≠ [] := by
        rw [printPadded_fin]
        exact cons_ne_nil _ _
      refine separatesRange_right ?_ hne passed
      cases colon with
      | true =>
        rw [append_assoc]
        exact clock_not_seekTime beyond hours _
      | false =>
        obtain ⟨rest, rfl⟩ | ⟨-, hbare⟩ := htail
        · unfold Option.all Zone.takenExtended at htaken
          simp only [Bool.and_eq_true, decide_eq_true_eq] at htaken
          rw [append_assoc]
          exact bareZone_not_seekTime beyond htaken.1 minutes rest
        · cases hbare
    show separatorFrom beyond passed (minus :: (printPadded 2 ((hours : ℕ) : ℤ) ++
      ((if colon then [0x3A] else []) ++ printPadded 2 ((minutes : ℕ) : ℤ)) ++ tail)) = _
    rw [separatorFrom_refused hrefused, separatorFrom_append hminus, append_assoc]
    rfl

theorem Zone.takenExtended_of_takenBasic {z : Zone} (h : z.takenBasic = true) :
    z.takenExtended = true := by
  cases z with
  | utc => rfl
  | offset west hours minutes colon =>
    unfold takenBasic at h
    unfold takenExtended
    simp only [Bool.and_eq_true, Bool.or_eq_true, decide_eq_true_eq] at h ⊢
    exact ⟨h.1.2, .inr h.2⟩

theorem extended_text (time : DateTime) (fraction : List (Fin 10)) (zone : Option Zone) :
    ∃ clock, minus ∉ clock ∧ (TimeString.extended time fraction zone).text =
      printPadded 4 ((time.year : ℕ) : ℤ) ++ minus :: (printPadded 2 ((time.month : ℕ) : ℤ) ++
        minus :: (printPadded 2 ((time.day : ℕ) : ℤ) ++ letterT :: (clock ++ zoneText zone))) := by
  refine ⟨printPadded 2 time.tm.hour ++ 0x3A :: (printPadded 2 time.tm.minute ++
    0x3A :: (printPadded 2 time.tm.second ++ fractionText fraction)), ?_, ?_⟩
  · simp only [mem_append, List.mem_cons, not_or]
    exact ⟨minus_not_mem_padded time.twoDigits.hour.1, by decide,
      minus_not_mem_padded time.twoDigits.minute.1, by decide,
      minus_not_mem_padded time.twoDigits.second.1, minus_not_mem_fraction fraction⟩
  · simp [TimeString.text, printIso, DateTime.tm, append_assoc, cons_append]

theorem text_passed {s : TimeString} (htaken : s.taken = true)
    (htail : (∃ rest, tail = minus :: rest) ∨ tail = [] ∧ s.bareWest = false) :
    separatorFrom beyond [] (s.text ++ tail) = separatorFrom beyond s.text tail := by
  cases s with
  | timestamp digits short =>
    exact separatorFrom_append (minus_not_mem_digits (digitsText_isDigit digits)) beyond [] tail
  | compact time gmt =>
    have hclock := printClock_isDigit time.twoDigits
    have hdate := printDate_isDigit time.twoDigits time.fourDigits.1
    have hminus : minus ∉ (TimeString.compact time gmt).text := by
      rw [TimeString.text, formatCompact_eq, mem_append, mem_append, not_or, not_or]
      exact ⟨⟨minus_not_mem_digits hdate, minus_not_mem_digits hclock⟩, by cases gmt <;> decide⟩
    exact separatorFrom_append hminus beyond [] tail
  | basic time fraction zone =>
    unfold TimeString.taken at htaken
    rw [Bool.and_eq_true] at htaken
    have hzone : zone.all Zone.takenExtended = true := by
      rw [Option.all_eq_true] at htaken ⊢
      exact fun z hz => Zone.takenExtended_of_takenBasic (htaken.2 z hz)
    have hclock := printClock_isDigit time.twoDigits
    have hdate := printDate_isDigit time.twoDigits time.fourDigits.1
    have hminus : minus ∉ printDate time.tm ++ letterT :: (printClock time.tm ++
        fractionText fraction) := by
      rw [mem_append, List.mem_cons, mem_append, not_or, not_or, not_or]
      exact ⟨minus_not_mem_digits hdate, by decide, minus_not_mem_digits hclock,
        minus_not_mem_fraction fraction⟩
    have htext : (TimeString.basic time fraction zone).text = printDate time.tm ++
        letterT :: (printClock time.tm ++ fractionText fraction) ++ zoneText zone := by
      simp [TimeString.text, append_assoc, cons_append]
    rw [htext, append_assoc, separatorFrom_append hminus, zone_passed hzone htail, nil_append]
  | extended time fraction zone =>
    unfold TimeString.taken at htaken
    rw [Bool.and_eq_true] at htaken
    obtain ⟨clock, hclock, htext⟩ := extended_text time fraction zone
    have hyear : minus ∉ printPadded 4 ((time.year : ℕ) : ℤ) := minus_not_mem_padded (by omega)
    have hmonth : minus ∉ printPadded 2 ((time.month : ℕ) : ℤ) := minus_not_mem_padded (by omega)
    have hday : minus ∉ printPadded 2 ((time.day : ℕ) : ℤ) ++ letterT :: clock := by
      rw [mem_append, List.mem_cons, not_or, not_or]
      exact ⟨minus_not_mem_padded (by omega), by decide, hclock⟩
    have hright : ∀ rest, separatesRange beyond (printPadded 4 ((time.year : ℕ) : ℤ))
        (printPadded 2 ((time.month : ℕ) : ℤ) ++ minus ::
          (printPadded 2 ((time.day : ℕ) : ℤ) ++ letterT :: rest)) = false := by
      intro rest
      refine separatesRange_right (monthDay_not_seekTime beyond time.month time.day rest)
        (fun hnil => ?_) _
      exact cons_ne_nil _ _ (append_eq_nil_iff.1 hnil).2
    have hleft := separatesRange_left (yearMonth_not_seekTime (zeros (printPadded 4
      ((time.year : ℕ) : ℤ) ++ minus :: printPadded 2 ((time.month : ℕ) : ℤ))) time.year
        time.month) beyond
    rw [htext]
    simp only [append_assoc, cons_append] at hleft ⊢
    rw [separatorFrom_append hyear, nil_append, separatorFrom_refused (hright _),
      separatorFrom_append hmonth, append_assoc, singleton_append, separatorFrom_refused (hleft _)]
    have hpassed := separatorFrom_append hday beyond (printPadded 4 ((time.year : ℕ) : ℤ) ++
      minus :: printPadded 2 ((time.month : ℕ) : ℤ) ++ [minus]) (zoneText zone ++ tail)
    rw [zone_passed htaken.2 htail] at hpassed
    simpa only [append_assoc, cons_append, nil_append] using hpassed

theorem length_text_lt {s : TimeString} (htaken : s.taken = true) :
    s.text.length < seekBufferSize := by
  have hzone : ∀ zone : Option Zone, (zoneText zone).length ≤ 6 := by
    intro zone
    rcases zone with _ | (_ | ⟨west, hours, minutes, colon⟩)
    · decide
    · decide
    · rw [zoneText, map_some, getD_some, Zone.text, printPadded_fin, printPadded_fin]
      cases colon <;> simp
  unfold seekBufferSize
  cases s with
  | timestamp digits short =>
    rw [TimeString.text, digitsText, length_map, length_map]
    omega
  | compact time gmt =>
    have hdate := length_printDate time.twoDigits time.fourDigits
    have hclock := length_printClock time.twoDigits
    have hgmt : (if gmt then ascii "GMT" else []).length ≤ 3 := by cases gmt <;> decide
    rw [TimeString.text, formatCompact_eq, length_append, length_append, hdate, hclock]
    omega
  | basic time fraction zone =>
    unfold TimeString.taken at htaken
    simp only [Bool.and_eq_true, decide_eq_true_eq] at htaken
    have hdate := length_printDate time.twoDigits time.fourDigits
    have hclock := length_printClock time.twoDigits
    have hsuffix := hzone zone
    rw [TimeString.text, htaken.1.2, length_append, length_cons, length_append,
      hdate, hclock, fractionText, if_pos rfl, nil_append]
    omega
  | extended time fraction zone =>
    unfold TimeString.taken at htaken
    simp only [Bool.and_eq_true, decide_eq_true_eq] at htaken
    have hiso := length_printIso time.twoDigits time.fourDigits
    have hsuffix := hzone zone
    have hfraction : (fractionText fraction).length ≤ 4 := by
      unfold fractionText digitsText
      split
      · exact Nat.zero_le _
      · rw [length_cons, length_map, length_map]
        omega
    rw [TimeString.text, length_append, length_append, hiso]
    omega

end Text

/-! ## The parts of a value -/

section Parts

variable (beyond : Bytes) (b : SeekTime) {tail : Bytes}

theorem SeekTime.valid (t : SeekTime) : isValidSeekTimeValue beyond t.text = true := by
  unfold isValidSeekTimeValue text
  rw [parseToUtc_text, if_pos t.taken]
  simp [t.written]

theorem separatesRange_time (h : tail = [] ∨ isValidSeekTimeValue beyond tail = true) :
    separatesRange beyond b.text tail = true := by
  have hpos : 0 < b.text.length := length_pos_iff.2 b.written
  have hlen : b.text.length < seekBufferSize := length_text_lt b.taken
  unfold separatesRange
  rw [decide_eq_true hpos, decide_eq_true hlen, b.valid (zeros b.text)]
  simpa using h

theorem findSeekRangeSeparator_joined (h : tail = [] ∨ isValidSeekTimeValue beyond tail = true) :
    findSeekRangeSeparator beyond (b.text ++ minus :: tail) = some b.text.length := by
  have hpassed : separatorFrom beyond [] (b.text ++ minus :: tail) =
      separatorFrom beyond b.text (minus :: tail) :=
    text_passed b.taken (.inl ⟨tail, rfl⟩)
  rw [findSeekRangeSeparator, hpassed, separatorFrom_taken (separatesRange_time beyond b h)]

theorem findSeekRangeSeparator_whole (h : b.time.bareWest = false) :
    findSeekRangeSeparator beyond b.text = none := by
  have hpassed : separatorFrom beyond [] (b.text ++ []) = separatorFrom beyond b.text [] :=
    text_passed b.taken (.inr ⟨rfl, h⟩)
  rw [append_nil] at hpassed
  exact hpassed

theorem extended_of_bareWest {s : TimeString} (htaken : s.taken = true)
    (h : s.bareWest = true) :
    ∃ time fraction hours minutes,
      s = .extended time fraction (some (.offset true hours minutes false)) := by
  have hzone : ∀ zone : Option Zone, zone.any Zone.bareWest = true →
      ∃ hours minutes, zone = some (.offset true hours minutes false) := by
    intro zone hbare
    rcases zone with _ | (_ | ⟨_ | _, hours, minutes, _ | _⟩)
    · cases hbare
    · cases hbare
    · cases hbare
    · cases hbare
    · exact ⟨hours, minutes, rfl⟩
    · cases hbare
  cases s with
  | timestamp digits short => cases h
  | compact time gmt => cases h
  | basic time fraction zone =>
    obtain ⟨hours, minutes, rfl⟩ := hzone zone h
    unfold TimeString.taken at htaken
    simp [Zone.takenBasic] at htaken
  | extended time fraction zone =>
    obtain ⟨hours, minutes, rfl⟩ := hzone zone h
    exact ⟨time, fraction, hours, minutes, rfl⟩

theorem findSeekRangeSeparator_bareWest (h : b.time.bareWest = true) :
    (findSeekRangeSeparator beyond b.text).isSome = true := by
  obtain ⟨time, htaken, hwritten⟩ := b
  obtain ⟨time, fraction, hours, minutes, rfl⟩ := extended_of_bareWest htaken h
  have hbegin : (TimeString.extended time fraction none).taken = true := by
    unfold TimeString.taken at htaken ⊢
    rw [Bool.and_eq_true] at htaken
    exact Bool.and_eq_true _ _ ▸ ⟨htaken.1, rfl⟩
  have hne : (TimeString.extended time fraction none).text ≠ [] := by
    have hiso := length_printIso time.twoDigits time.fourDigits
    rw [TimeString.text]
    intro hnil
    rw [(append_eq_nil_iff.1 hnil).1] at hiso
    cases hiso
  have hend : isValidSeekTimeValue beyond
      (printPadded 4 ((100 * (hours : ℕ) + minutes : ℕ) : ℤ)) = true := by
    have hlen : (printPadded 4 ((100 * (hours : ℕ) + minutes : ℕ) : ℤ)).length = 4 :=
      length_printPadded (by omega) (by omega)
    have hdigits : (printPadded 4 ((100 * (hours : ℕ) + minutes : ℕ) : ℤ)).all isDigit = true :=
      List.all_eq_true.2 fun c hc => printPadded_isDigit (by omega) hc
    have hstamp : isTimestamp (printPadded 4 ((100 * (hours : ℕ) + minutes : ℕ) : ℤ)) = true := by
      rw [isTimestamp, hlen, hdigits]
      rfl
    unfold isValidSeekTimeValue timezoneParseToUtc
    rw [if_pos hstamp, decide_eq_true (ne_nil_of_length_eq_add_one hlen)]
    rfl
  have htext : (TimeString.extended time fraction (some (.offset true hours minutes false))).text =
      (TimeString.extended time fraction none).text ++
        minus :: printPadded 4 ((100 * (hours : ℕ) + minutes : ℕ) : ℤ) := by
    rw [← printPadded_pairs]
    simp [TimeString.text, zoneText, Zone.text, zoneSign]
  have hjoined := findSeekRangeSeparator_joined beyond ⟨_, hbegin, hne⟩ (.inr hend)
  have hsplit : findSeekRangeSeparator beyond
      (TimeString.extended time fraction (some (.offset true hours minutes false))).text =
        some (TimeString.extended time fraction none).text.length := by
    rw [htext]
    exact hjoined
  unfold SeekTime.text
  rw [hsplit]
  rfl

theorem SeekTime.part (t : SeekTime) : seekPart t.text = some t.text := by
  have hlen : t.text.length < seekBufferSize := length_text_lt t.taken
  unfold seekPart
  rw [take_of_length_le (Nat.le_sub_one_of_lt hlen)]
  exact if_neg t.written

theorem parts_joined {tail : Bytes} (h : tail = [] ∨ isValidSeekTimeValue beyond tail = true)
    (settings : SeekSettings) (now : ℤ) :
    SplitsInto (serviceParseSeekValue settings now beyond (b.text ++ minus :: tail)) true b.text
      (seekPart tail) := by
  have hfound := findSeekRangeSeparator_joined beyond b h
  have hne : b.text ++ minus :: tail ≠ [] := append_ne_nil_of_left_ne_nil b.written _
  have hbegin : (b.text ++ minus :: tail).take b.text.length = b.text := take_left
  have hend : (b.text ++ minus :: tail).drop (b.text.length + 1) = tail := by
    rw [← drop_drop, drop_left, drop_one, tail_cons]
  unfold serviceParseSeekValue
  rw [hfound]
  constructor
  · exact decide_eq_true hne
  · rfl
  · show seekPart _ = _
    rw [hbegin, b.part]
  · show seekPart _ = _
    rw [hend]

theorem parts_whole (h : b.time.bareWest = false) (settings : SeekSettings) (now : ℤ) :
    SplitsInto (serviceParseSeekValue settings now beyond b.text) false b.text none := by
  unfold serviceParseSeekValue
  rw [findSeekRangeSeparator_whole beyond b h]
  constructor
  · exact decide_eq_true b.written
  · rfl
  · exact b.part
  · rfl

end Parts

/-- Ranges and open ends are split where they were joined; single times are kept whole if and only
    if they do not end in a zone west of UTC without a colon. -/
theorem splitAsJoined_iff (settings : SeekSettings) (now : ℤ) (beyond : Bytes) (b e : SeekTime) :
    SplitAsJoined settings now beyond b e ↔ b.time.bareWest = false := by
  constructor
  · intro h
    by_contra hbare
    have hsplit := findSeekRangeSeparator_bareWest beyond b (Bool.not_eq_false _ ▸ hbare)
    have hwhole : (findSeekRangeSeparator beyond b.text).isSome = false := h.single.separator_found
    rw [hsplit] at hwhole
    cases hwhole
  · intro h
    have hrange := parts_joined beyond b (.inr (e.valid beyond)) settings now
    rw [e.part] at hrange
    exact ⟨hrange, parts_joined beyond b (.inl rfl) settings now,
      parts_whole beyond b h settings now⟩

/-- Half past five behind UTC, without a colon. -/
def noonWest : SeekTime where
  time := .extended ⟨2024, 5, 1, 12, 0, 0⟩ [] (some (.offset true 5 30 false))
  taken := by decide +kernel
  written := by decide

def plainSettings : SeekSettings where
  seekBeginOffsetSeconds := 0
  seekEndOffsetSeconds := 0
  userAgent := none
  seekMode := .passthrough
  seekModeTzExplicit := false
  seekModeTzOffsetSeconds := 0
  seekModeWindowSeconds := 0

/-- The single time is split into noon in UTC and the second 530 of 1970. -/
theorem noonWest_split : noonWest.text = ascii "2024-05-01T12:00:00-0530" ∧
      (serviceParseSeekValue plainSettings 0 [] noonWest.text).beginStr =
        some (ascii "2024-05-01T12:00:00") ∧
      (serviceParseSeekValue plainSettings 0 [] noonWest.text).endStr = some (ascii "0530") ∧
      ¬ ∀ settings now beyond b e, SplitAsJoined settings now beyond b e := by
  have hend : (serviceParseSeekValue plainSettings 0 [] noonWest.text).endStr =
      some (ascii "0530") := by decide +kernel
  refine ⟨by decide, by decide +kernel, hend, fun h => ?_⟩
  have hsingle := (h plainSettings 0 [] noonWest noonWest).single.end_str
  rw [hend] at hsingle
  cases hsingle

end Apackage.Rtp2httpd
