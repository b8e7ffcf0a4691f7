import Apackage.Rtp2httpd.Time.RoundTrip

/-
  A time that is converted in its own format is the same instant.

  The converter writes the time in the zone of the string, so what it writes is read back when that
  local time has a year of four digits that the parser accepts, and is not the second before 1970,
  whose timestamp -1 is taken for an error (`Printable`). A timestamp is read back when it has at
  most ten digits and no sign.
-/

namespace Apackage.Rtp2httpd

open List Lib.CivilTime Lib.Digits

/-! ## Reading each format back -/

section Read

variable {tm : Tm}

theorem formatCompact_isDigit (h : TwoDigits tm) (hy : 0 ≤ tm.year) :
    ∀ c ∈ formatCompact tm, isDigit c = true := by
  intro c hc
  rw [formatCompact_eq] at hc
  rcases mem_append.1 hc with hc | hc
  · exact printDate_isDigit h hy c hc
  · exact printClock_isDigit h c hc

theorem length_formatCompact (h : TwoDigits tm) (hy : 0 ≤ tm.year ∧ tm.year < 10 ^ 4) :
    (formatCompact tm).length = 14 := by
  rw [formatCompact_eq, length_append, length_printDate h hy, length_printClock h]

theorem length_formatCompact_long (h : TwoDigits tm) (hy : tm.year = 10000) :
    (formatCompact tm).length = 15 := by
  have h5 : (printPadded 4 (10000 : ℤ)).length = 5 := by decide
  rw [formatCompact_eq, length_append, length_printClock h]
  unfold printDate
  rw [length_append, length_append, hy, h5,
    length_printPadded h.month.1 h.month.2, length_printPadded h.day.1 h.day.2]

variable (beyond : Bytes)

theorem compact_reads (h : TwoDigits tm) (hy : 0 ≤ tm.year ∧ tm.year < 10 ^ 4)
    (tzOffset additionalOffset : ℤ) :
    timezoneParseToUtc beyond (formatCompact tm) tzOffset additionalOffset =
      (timestampOf tm).map (· - tzOffset + additionalOffset) := by
  have hlen := length_formatCompact h hy
  have hall : (formatCompact tm).all isDigit = true :=
    List.all_eq_true.2 (formatCompact_isDigit h hy.1)
  have hscan := scanCompact_format h hy []
  rw [append_nil] at hscan
  have hstamp : isTimestamp (formatCompact tm) = false := by simp [isTimestamp, hlen]
  have hcompact : isCompact (formatCompact tm) = true := by simp [isCompact, hlen, hall]
  have hgmt : isCompactGmt (formatCompact tm) = false := by simp [isCompactGmt, hlen]
  unfold timezoneParseToUtc
  simp [hstamp, hcompact, hgmt, hscan, Option.map_eq_bind]

theorem compactGmt_reads (h : TwoDigits tm) (hy : 0 ≤ tm.year ∧ tm.year < 10 ^ 4)
    (tzOffset additionalOffset : ℤ) :
    timezoneParseToUtc beyond (formatCompact tm ++ ascii "GMT") tzOffset additionalOffset =
      (timestampOf tm).map (· + additionalOffset) := by
  have hlen := length_formatCompact h hy
  have hall : (formatCompact tm).all isDigit = true :=
    List.all_eq_true.2 (formatCompact_isDigit h hy.1)
  have hascii : (ascii "GMT").length = 3 := by decide
  have hlen' : (formatCompact tm ++ ascii "GMT").length = 17 := by rw [length_append, hlen, hascii]
  have htake : (formatCompact tm ++ ascii "GMT").take 14 = formatCompact tm := take_left' hlen
  have hdrop : (formatCompact tm ++ ascii "GMT").drop 14 = ascii "GMT" := drop_left' hlen
  have hstamp : isTimestamp (formatCompact tm ++ ascii "GMT") = false := by
    unfold isTimestamp
    rw [hlen']
    rfl
  have hgmt : isCompactGmt (formatCompact tm ++ ascii "GMT") = true := by
    unfold isCompactGmt
    rw [htake, hdrop, hlen', hall]
    rfl
  unfold timezoneParseToUtc
  simp [hstamp, hgmt, scanCompact_format h hy, Option.map_eq_bind]

/-- A date, the letter and a clock, whatever the number of digits of the year. -/
theorem basic_dispatch {digits : Bytes} (hlen : 14 ≤ digits.length)
    (hdigits : ∀ c ∈ digits, isDigit c = true) (suffix : Bytes) (tzOffset additionalOffset : ℤ) :
    timezoneParseToUtc beyond (digits.take 8 ++ letterT :: digits.drop 8 ++ suffix) tzOffset
        additionalOffset =
      (timezoneParseBasicIso8601 (digits.take 8 ++ letterT :: digits.drop 8 ++ suffix)).bind
        fun read => (timestampOf read.1).map
          (· - (read.2.map (·.offset)).getD tzOffset + additionalOffset) := by
  generalize htext : digits.take 8 ++ letterT :: digits.drop 8 ++ suffix = text
  have hsplit : text = digits.take 8 ++ letterT :: (digits.drop 8 ++ suffix) := by
    rw [← htext, append_assoc, cons_append]
  have hlen8 : (digits.take 8).length = 8 := by
    rw [length_take]
    omega
  have htake : text.take 8 = digits.take 8 := by rw [hsplit, take_left' hlen8]
  have hget : text[8]? = some letterT := by
    simp [*]
  have hmem : letterT ∈ text.take 9 := by
    rw [mem_take_iff_getElem]
    obtain ⟨hlt, heq⟩ := List.getElem?_eq_some_iff.1 hget
    exact ⟨8, by omega, heq⟩
  obtain ⟨hstamp, hcompact, hgmt⟩ := not_digits hmem (by decide) (by decide)
  have hdrop : (text.drop 9).take 6 = (digits.drop 8).take 6 := by
    have hdrop9 : text.drop 9 = digits.drop 8 ++ suffix := by
      rw [hsplit, append_cons]
      refine drop_left' ?_
      rw [length_append, hlen8]
      rfl
    rw [hdrop9, take_append_of_le_length]
    rw [length_drop]
    omega
  have hlenText : 15 ≤ text.length := by
    rw [hsplit, length_append, length_cons, length_append, length_drop]
    omega
  have hbasic : isBasicIso8601Format text = true := by
    unfold isBasicIso8601Format
    rw [htake, hdrop]
    simp only [hget, hlenText, decide_true, Bool.true_and, Bool.and_eq_true, List.all_eq_true]
    exact ⟨fun c hc => hdigits c (mem_of_mem_take hc),
      fun c hc => hdigits c (mem_of_mem_drop (mem_of_mem_take hc))⟩
  unfold timezoneParseToUtc
  simp only [hstamp, hcompact, hgmt, hbasic, Bool.or_self, Bool.false_eq_true, if_false, if_true]
  rcases timezoneParseBasicIso8601 text with _ | ⟨tm, zone⟩
  · rfl
  · rcases htm : timestampOf tm with _ | t <;> simp [htm]

theorem formatCompact_split (h : TwoDigits tm) (hy : 0 ≤ tm.year ∧ tm.year < 10 ^ 4)
    (suffix : Bytes) : (formatCompact tm).take 8 ++ letterT :: (formatCompact tm).drop 8 ++ suffix =
      printDate tm ++ letterT :: (printClock tm ++ suffix) := by
  have hlen := length_printDate h hy
  rw [formatCompact_eq, take_left' hlen, drop_left' hlen, append_assoc, cons_append]

theorem parseBasic_text (h : TwoDigits tm) (hy : 0 ≤ tm.year ∧ tm.year < 10 ^ 4) (suffix : Bytes) :
    timezoneParseBasicIso8601 (printDate tm ++ letterT :: (printClock tm ++ suffix)) =
      if validComponents tm then (parseBasicZone suffix).map (tm, ·) else none := by
  have hdrop : (printDate tm ++ letterT :: (printClock tm ++ suffix)).drop 15 = suffix := by
    rw [← cons_append, ← append_assoc]
    refine drop_left' ?_
    rw [length_append, length_cons, length_printDate h hy, length_printClock h]
  unfold timezoneParseBasicIso8601
  rw [hdrop]
  simp [scanBasic_format h hy, Option.bind_eq_bind, Option.bind_some]

variable {zone : Option ZoneSuffix}

theorem parseBasic_format (h : TwoDigits tm) (hy : 0 ≤ tm.year ∧ tm.year < 10 ^ 4)
    (hzone : ZoneText (-9) zone) :
    timezoneParseBasicIso8601 (printDate tm ++ letterT :: (printClock tm ++ suffixText zone)) =
      if validComponents tm then some (tm, zone) else none := by
  rw [parseBasic_text h hy, parseBasicZone_suffix hzone, Option.map_some]

theorem parseBasic_long {digits : Bytes} (hlen : 15 ≤ digits.length)
    (hdigits : ∀ c ∈ digits, isDigit c = true) (suffix : Bytes) :
    timezoneParseBasicIso8601 (digits.take 8 ++ letterT :: digits.drop 8 ++ suffix) = none := by
  have hdrop : (digits.take 8 ++ letterT :: digits.drop 8 ++ suffix).drop 15 =
      digits.drop 14 ++ suffix := by
    have hlen8 : (digits.take 8).length = 8 := by
      rw [length_take]
      omega
    have hdrop9 : (digits.take 8 ++ letterT :: digits.drop 8 ++ suffix).drop 9 =
        digits.drop 8 ++ suffix := by
      rw [append_assoc, cons_append, append_cons]
      refine drop_left' ?_
      rw [length_append, hlen8]
      rfl
    have hdrop6 : (digits.drop 8 ++ suffix).drop 6 = digits.drop 14 ++ suffix := by
      rw [drop_append_of_le_length, drop_drop]
      rw [length_drop]
      omega
    rw [← hdrop6, ← hdrop9, drop_drop]
  obtain ⟨c, rest, hcons⟩ := exists_cons_of_ne_nil (l := digits.drop 14) fun hnil => by
    have := length_drop (i := 14) (l := digits)
    rw [hnil, length_nil] at this
    omega
  have hc : isDigit c = true := by
    refine hdigits c (mem_of_mem_drop (i := 14) ?_)
    rw [hcons]
    exact mem_cons_self
  have hzone : parseBasicZone (digits.drop 14 ++ suffix) = none := by
    have hZ : c ≠ letterZ := fun h => absurd hc (by rw [h]; decide)
    have hplus : c ≠ plus := fun h => absurd hc (by rw [h]; decide)
    have hminus : c ≠ minus := fun h => absurd hc (by rw [h]; decide)
    rw [hcons, cons_append]
    unfold parseBasicZone
    simp [if_neg hZ, if_neg (not_or.2 ⟨hplus, hminus⟩)]
  unfold timezoneParseBasicIso8601
  rw [hdrop, hzone]
  rcases scanBasic (digits.take 8 ++ letterT :: digits.drop 8 ++ suffix) with _ | tm
  · rfl
  · simp

/-- The milliseconds of a full ISO 8601 time, if there are any. -/
def printMilliseconds (milliseconds : ℤ) : Bytes :=
  if 0 ≤ milliseconds then dot :: printPadded 3 milliseconds else []

theorem parseMilliseconds_print {milliseconds : ℤ} (h : milliseconds ≤ 999) {suffix : Bytes}
    (hsuffix : suffix.head? ≠ some dot) :
    (parseMilliseconds (printMilliseconds milliseconds ++ suffix)).2 = suffix := by
  unfold printMilliseconds
  split
  · rename_i h0
    have hscan : scanInt 3 (printPadded 3 milliseconds ++ suffix) = some (milliseconds, suffix) :=
      scanInt_printPadded (by decide) h0 (by omega)
    unfold parseMilliseconds
    simp [cons_append, head?_cons, hscan]
  · unfold parseMilliseconds
    rw [nil_append, if_neg hsuffix]

theorem mem_printIso (tm : Tm) : letterT ∈ printIso tm := by
  unfold printIso
  simp

/-- What follows the date and time of a full ISO 8601 string, if it has no NUL. -/
theorem parseIso_text (h : TwoDigits tm) (hy : 0 ≤ tm.year ∧ tm.year < 10 ^ 4) {tail : Bytes}
    (hnul : (0 : UInt8) ∉ tail) :
    timezoneParseIso8601 beyond (printIso tm ++ tail) = if validComponents tm then
        (parseZone (parseMilliseconds tail).2).map (⟨tm, (parseMilliseconds tail).1, ·⟩)
      else none := by
  have hmem : letterT ∈ printIso tm ++ tail := mem_append_left _ (mem_printIso tm)
  have hrest : cstr ((printIso tm ++ tail ++ 0 :: beyond).drop 19) = tail := by
    rw [append_assoc, drop_left' (length_printIso h hy)]
    unfold cstr
    rw [takeWhile_append_of_pos fun c hc => (by
      simp only [ne_eq, decide_eq_true_eq]
      exact fun h0 => hnul (h0 ▸ hc))]
    simp
  unfold timezoneParseIso8601
  rw [hrest]
  by_cases hvalid : validComponents tm = true
  · simp [hmem, hvalid, scanIso_format h hy, Option.map_eq_bind]
  · simp [hmem, hvalid, scanIso_format h hy]

theorem parseIso_format (h : TwoDigits tm) (hy : 0 ≤ tm.year ∧ tm.year < 10 ^ 4) {milliseconds : ℤ}
    (hms : milliseconds ≤ 999) (hzone : ZoneText 0 zone) :
    (timezoneParseIso8601 beyond (formatIso8601 tm milliseconds (suffixText zone))).map
      (fun iso => (iso.tm, iso.zone)) = if validComponents tm then some (tm, zone) else none := by
  have hnul : (0 : UInt8) ∉ printMilliseconds milliseconds ++ suffixText zone := by
    intro hmem
    rcases mem_append.1 hmem with hmem | hmem
    · unfold printMilliseconds at hmem
      split at hmem
      · rcases List.mem_cons.1 hmem with hdot | hmem
        · exact absurd hdot (by decide)
        · exact (printPadded_plain hmem).1 rfl
      · cases hmem
    · exact (hzone.mono (by decide)).no_nul hmem
  have hsuffix : (suffixText zone).head? ≠ some dot := by
    intro hdot
    have hread := parseZone_suffix hzone
    obtain ⟨rest, hrest⟩ : ∃ rest, suffixText zone = dot :: rest := head?_eq_some_iff.1 hdot
    rw [hrest] at hread
    have hnone : parseZone (dot :: rest) = none := rfl
    rw [hnone] at hread
    cases hread
  have htext : formatIso8601 tm milliseconds (suffixText zone) =
      printIso tm ++ (printMilliseconds milliseconds ++ suffixText zone) := formatIso8601_eq _ _ _
  rw [htext, parseIso_text beyond h hy hnul, parseMilliseconds_print hms hsuffix,
    parseZone_suffix hzone]
  split <;> rfl

theorem parseIso_long (hy : tm.year = 10000) (milliseconds : ℤ) (suffix : Bytes) :
    timezoneParseIso8601 beyond (formatIso8601 tm milliseconds suffix) = none := by
  have hyear : printPadded 4 tm.year = ascii "10000" := by
    rw [hy]
    decide
  have hscan : scanIso (formatIso8601 tm milliseconds suffix) = none := by
    rw [formatIso8601_eq]
    unfold printIso scanIso
    rw [hyear]
    generalize minus :: (printPadded 2 tm.month ++ _) = rest
    have hread : scanInt 4 (ascii "10000" ++ (rest ++
        ((if 0 ≤ milliseconds then dot :: printPadded 3 milliseconds else []) ++ suffix))) =
          some (1000, ascii "0" ++ (rest ++
            ((if 0 ≤ milliseconds then dot :: printPadded 3 milliseconds else []) ++ suffix))) := rfl
    rw [append_assoc, hread]
    rfl
  unfold timezoneParseIso8601
  rw [hscan]
  by_cases hT : letterT ∈ formatIso8601 tm milliseconds suffix <;> simp [hT]

theorem iso_dispatch {text : Bytes} {c : UInt8} (hmem : c ∈ text.take 8)
    (hdigit : isDigit c = false) (tzOffset additionalOffset : ℤ) :
    timezoneParseToUtc beyond text tzOffset additionalOffset =
      (timezoneParseIso8601 beyond text).bind fun iso => (timestampOf iso.tm).map
        (· - (iso.zone.map (·.offset)).getD tzOffset + additionalOffset) := by
  obtain ⟨hstamp, hcompact, hgmt⟩ := not_digits hmem (by decide) hdigit
  have hbasic := not_basic hmem hdigit
  unfold timezoneParseToUtc
  simp only [hstamp, hcompact, hgmt, hbasic, Bool.or_self, Bool.false_eq_true, if_false]
  split
  · rcases timezoneParseIso8601 beyond text with _ | iso
    · rfl
    · rcases htm : timestampOf iso.tm with _ | t <;> simp [htm]
  · rename_i hT
    have hnone : timezoneParseIso8601 beyond text = none := by
      unfold timezoneParseIso8601
      simp [hT]
    rw [hnone]
    rfl

theorem length_printPadded_year {year : ℤ} (hy : 0 ≤ year ∧ year ≤ 10000) :
    (printPadded 4 year).length ≤ 5 := by
  rcases eq_or_lt_of_le hy.2 with heq | hlt
  · rw [heq]
    decide
  · rw [length_printPadded hy.1 (by omega)]
    decide

theorem minus_mem_formatIso (hy : 0 ≤ tm.year ∧ tm.year ≤ 10000) (milliseconds : ℤ)
    (suffix : Bytes) : minus ∈ (formatIso8601 tm milliseconds suffix).take 8 := by
  have hlen := length_printPadded_year hy
  have hsplit : formatIso8601 tm milliseconds suffix = printPadded 4 tm.year ++ minus ::
      (formatIso8601 tm milliseconds suffix).drop ((printPadded 4 tm.year).length + 1) := by
    unfold formatIso8601
    simp [append_assoc]
  rw [hsplit, mem_take_iff_getElem]
  refine ⟨(printPadded 4 tm.year).length, ?_, ?_⟩
  · rw [length_append, length_cons]
    omega
  · simp

end Read

/-! ## Which times are read back -/

/-- The local time is one that the parser accepts, and not the second before 1970. -/
def Printable (t : ℤ) : Prop := 1900 ≤ (gmtime t).year ∧ (gmtime t).year ≤ 9999 ∧ t ≠ -1

/-- The time that the converter writes for the components it reads. -/
def writtenTime (tm : Tm) (ownZone : Bool) (tzOffset additionalOffset : ℤ) : ℤ :=
  timegm tm - (if ownZone then 0 else tzOffset) + additionalOffset

def Convertible (beyond input : Bytes) (tzOffset additionalOffset : ℤ) (outputSize : ℕ) : Prop :=
  64 ≤ outputSize ∧ minTimezoneOffsetSeconds ≤ tzOffset ∧ tzOffset ≤ maxTimezoneOffsetSeconds ∧
    if isTimestamp input then
      0 ≤ decimalValue input + additionalOffset ∧ decimalValue input + additionalOffset < 10 ^ 10
    else if isCompact input || isCompactGmt input then
      ∃ tm, scanCompact input = some tm ∧ validComponents tm = true ∧
        writtenTime tm (isCompactGmt input) tzOffset additionalOffset ≠ -1
    else if isBasicIso8601Format input then
      ∃ tm zone, timezoneParseBasicIso8601 input = some (tm, zone) ∧
        Printable (writtenTime tm zone.isSome tzOffset additionalOffset)
    else
      ∃ iso, timezoneParseIso8601 beyond input = some iso ∧ -1 ≤ iso.milliseconds ∧
        Printable (writtenTime iso.tm iso.zone.isSome tzOffset additionalOffset)

theorem year_local {u d : ℤ} (hu : 1900 ≤ (gmtime u).year ∧ (gmtime u).year ≤ 9999)
    (hd : -86400 < d ∧ d < 86400) :
    1899 ≤ (gmtime (u + d)).year ∧ (gmtime (u + d)).year ≤ 10000 := by
  unfold gmtime at *
  have hlow := (le_year_iff 1900 u).1 hu.1
  have hhigh : ¬ days 10000 1 1 * 86400 ≤ u := fun h => by
    have := (le_year_iff 10000 u).2 h
    omega
  have h1900 : days 1900 1 1 = -25567 := by decide
  have h10000 : days 10000 1 1 = 2932897 := by decide
  have h1899 : days 1899 1 1 = -25932 := by decide
  have h10001 : days 10001 1 1 = 2933263 := by decide
  have hlow' : 1899 ≤ (civil (u + d)).year := (le_year_iff 1899 (u + d)).2 (by omega)
  have hhigh' : ¬ 10001 ≤ (civil (u + d)).year := fun h => by
    have := (le_year_iff 10001 (u + d)).1 h
    omega
  exact ⟨hlow', by omega⟩

theorem lt_of_year {u : ℤ} (hu : (gmtime u).year ≤ 9999) : u < 10 ^ 13 := by
  have h10000 : days 10000 1 1 = 2932897 := by decide
  by_contra hge
  have hyear : 10000 ≤ (gmtime u).year := (le_year_iff 10000 u).2 (by omega)
  omega

theorem timestampOf_eq {tm : Tm} {t : ℤ} (h : timestampOf tm = some t) : timegm tm = t := by
  unfold timestampOf at h
  split at h
  · cases h
  · exact Option.some.inj h

variable {zone : Option ZoneSuffix}

theorem basic_reads (beyond : Bytes) {t : ℤ} (hzone : ZoneText (-9) zone)
    (hyear : 1899 ≤ (gmtime t).year ∧ (gmtime t).year ≤ 10000) :
    timezoneParseToUtc beyond ((formatCompact (gmtime t)).take 8 ++
      letterT :: (formatCompact (gmtime t)).drop 8 ++ suffixText zone) 0 0 =
        some (t - zoneOffset zone) ↔ Printable t := by
  have htwo := gmtime_twoDigits t
  have hdigits := formatCompact_isDigit htwo (by omega)
  unfold Printable
  rcases lt_or_ge (gmtime t).year 10000 with hlt | hge
  · have hfour : 0 ≤ (gmtime t).year ∧ (gmtime t).year < 10 ^ 4 := by omega
    rw [basic_dispatch beyond (length_formatCompact htwo hfour).ge hdigits,
      formatCompact_split htwo hfour, parseBasic_format htwo hfour hzone]
    by_cases hvalid : validComponents (gmtime t) = true
    · have hyears := (validComponents_gmtime t).1 hvalid
      rw [if_pos hvalid, Option.bind_some, timestampOf_gmtime]
      split <;> simp [*, zoneOffset]
    · have hyears : ¬ (1900 ≤ (gmtime t).year ∧ (gmtime t).year ≤ 9999) :=
        fun h => hvalid ((validComponents_gmtime t).2 h)
      rw [if_neg hvalid]
      exact iff_of_false (fun h => by cases h) fun h => hyears ⟨h.1, h.2.1⟩
  · have hyear' : (gmtime t).year = 10000 := by omega
    have hlen := length_formatCompact_long htwo hyear'
    rw [basic_dispatch beyond (by omega) hdigits, parseBasic_long hlen.ge hdigits]
    exact iff_of_false (fun h => by cases h) fun h => by omega

theorem iso_reads (beyond : Bytes) {t milliseconds : ℤ} (hms : milliseconds ≤ 999)
    (hzone : ZoneText 0 zone) (hyear : 1899 ≤ (gmtime t).year ∧ (gmtime t).year ≤ 10000) :
    timezoneParseToUtc beyond (formatIso8601 (gmtime t) milliseconds (suffixText zone)) 0 0 =
      some (t - zoneOffset zone) ↔ Printable t := by
  have htwo := gmtime_twoDigits t
  rw [iso_dispatch beyond (minus_mem_formatIso (by omega) milliseconds (suffixText zone))
    (by decide)]
  unfold Printable
  rcases lt_or_ge (gmtime t).year 10000 with hlt | hge
  · have hfour : 0 ≤ (gmtime t).year ∧ (gmtime t).year < 10 ^ 4 := by omega
    have hparse := parseIso_format beyond htwo hfour hms hzone
    generalize timezoneParseIso8601 beyond
      (formatIso8601 (gmtime t) milliseconds (suffixText zone)) = read at *
    by_cases hvalid : validComponents (gmtime t) = true
    · have hyears := (validComponents_gmtime t).1 hvalid
      rw [if_pos hvalid] at hparse
      obtain ⟨iso, rfl, hiso⟩ := Option.map_eq_some_iff.1 hparse
      obtain ⟨htm, hsuffix⟩ := Prod.mk.inj hiso
      rw [Option.bind_some, htm, hsuffix, timestampOf_gmtime]
      split <;> simp [*, zoneOffset]
    · have hyears : ¬ (1900 ≤ (gmtime t).year ∧ (gmtime t).year ≤ 9999) :=
        fun h => hvalid ((validComponents_gmtime t).2 h)
      rw [if_neg hvalid, Option.map_eq_none_iff] at hparse
      rw [hparse]
      exact iff_of_false (fun h => by cases h) fun h => hyears ⟨h.1, h.2.1⟩
  · rw [parseIso_long beyond (by omega)]
    exact iff_of_false (fun h => by cases h) fun h => by omega

/-! ## The two dispatchers together -/

theorem parseMilliseconds_le (p : Bytes) : (parseMilliseconds p).1 ≤ 999 := by
  unfold parseMilliseconds
  split
  · dsimp only
    split
    · omega
    · rename_i value rest hscan
      obtain ⟨k, hk, hlen, hlt, -⟩ := scanInt_bounds hscan
      have hk3 : k = 0 ∨ k = 1 ∨ k = 2 ∨ k = 3 := by omega
      rcases hk3 with rfl | rfl | rfl | rfl
      all_goals
        split
        · omega
        · split <;> omega
  · omega

theorem timezoneParseBasicIso8601_zone {s : Bytes} {tm : Tm}
    (h : timezoneParseBasicIso8601 s = some (tm, zone)) : ZoneText (-9) zone := by
  obtain ⟨tm', -, h⟩ := Option.bind_eq_some_iff.1 h
  rw [Option.ite_none_right_eq_some] at h
  obtain ⟨zone', hzone, heq⟩ := Option.map_eq_some_iff.1 h.2
  cases heq
  exact parseBasicZone_zoneText hzone

theorem timezoneParseIso8601_spec {beyond s : Bytes} {iso : IsoTime}
    (h : timezoneParseIso8601 beyond s = some iso) :
    ZoneText 0 iso.zone ∧ iso.milliseconds ≤ 999 := by
  obtain ⟨-, -, h⟩ := Option.bind_eq_some_iff.1 h
  obtain ⟨tm, -, h⟩ := Option.bind_eq_some_iff.1 h
  obtain ⟨-, -, h⟩ := Option.bind_eq_some_iff.1 h
  have hms := parseMilliseconds_le (cstr ((s ++ 0 :: beyond).drop 19))
  obtain ⟨zone, hzone, h⟩ := Option.bind_eq_some_iff.1 h
  cases h
  exact ⟨parseZone_zoneText hzone, hms⟩

theorem writtenTime_eq {tm : Tm} {t u tzOffset additionalOffset : ℤ} (ht : timestampOf tm = some t)
    (hu : t - (zone.map (·.offset)).getD tzOffset + additionalOffset = u) :
    writtenTime tm zone.isSome tzOffset additionalOffset = u + zoneOffset zone := by
  unfold writtenTime zoneOffset
  rw [timestampOf_eq ht, ← hu]
  rcases zone with _ | zone
  · simp
  · simp
    omega

theorem length_formatCompact_le {tm : Tm} (h : TwoDigits tm)
    (hy : 0 ≤ tm.year ∧ tm.year ≤ 10000) : (formatCompact tm).length = 14 ∨
      (formatCompact tm).length = 15 := by
  rcases eq_or_lt_of_le hy.2 with heq | hlt
  · exact .inr (length_formatCompact_long h heq)
  · exact .inl (length_formatCompact h ⟨hy.1, hlt⟩)

theorem length_formatIso8601_le {tm : Tm} {milliseconds : ℤ} (h : TwoDigits tm)
    (hy : 0 ≤ tm.year ∧ tm.year ≤ 10000) (hms : milliseconds ≤ 999) (hzone : ZoneText (-9) zone) :
    (formatIso8601 tm milliseconds (suffixText zone)).length ≤ 30 := by
  have hyear := length_printPadded_year hy
  have hsuffix := hzone.length_le
  have hfraction : (printMilliseconds milliseconds).length ≤ 4 := by
    unfold printMilliseconds
    split
    · rename_i h0
      rw [length_cons, length_printPadded h0 (by omega)]
    · exact Nat.zero_le _
  rw [formatIso8601_eq]
  unfold printIso
  unfold printMilliseconds at hfraction
  simp only [length_append, length_cons, length_printPadded h.month.1 h.month.2,
    length_printPadded h.day.1 h.day.2, length_printPadded h.hour.1 h.hour.2,
    length_printPadded h.minute.1 h.minute.2, length_printPadded h.second.1 h.second.2]
  omega

section Convert

variable {beyond input : Bytes} {tzOffset additionalOffset u : ℤ} {outputSize : ℕ}

/-- The converter gives a text, and every reading of it is the instant. -/
def ConvertsTo (beyond input : Bytes) (tzOffset additionalOffset : ℤ) (outputSize : ℕ) (u : ℤ) :
    Prop :=
  ∃ output, timezoneConvertTimeWithOffset beyond input tzOffset additionalOffset outputSize =
      some output ∧ ∀ beyond', timezoneParseToUtc beyond' output 0 0 = some u

theorem convertsTo_iff {text : Bytes} {checked read : Prop} [Decidable checked]
    (hconvert : timezoneConvertTimeWithOffset beyond input tzOffset additionalOffset outputSize =
      if checked then some text else none)
    (hread : ∀ beyond', timezoneParseToUtc beyond' text 0 0 = some u ↔ read) :
    ConvertsTo beyond input tzOffset additionalOffset outputSize u ↔ checked ∧ read := by
  unfold ConvertsTo
  rw [hconvert]
  constructor
  · rintro ⟨output, hout, hall⟩
    rw [Option.ite_none_right_eq_some] at hout
    cases hout.2
    exact ⟨hout.1, (hread []).1 (hall [])⟩
  · simp [*]

variable (hsize : 64 ≤ outputSize) (htz : minTimezoneOffsetSeconds ≤ tzOffset)
  (htz' : tzOffset ≤ maxTimezoneOffsetSeconds)
  (hparse : timezoneParseToUtc beyond input tzOffset additionalOffset = some u)
  (hyear : 1900 ≤ (gmtime u).year ∧ (gmtime u).year ≤ 9999)

include hsize htz htz' hparse hyear

theorem timestamp_convertsTo (hstamp : isTimestamp input = true) :
    ConvertsTo beyond input tzOffset additionalOffset outputSize u ↔
      0 ≤ decimalValue input + additionalOffset ∧
        decimalValue input + additionalOffset < 10 ^ 10 := by
  have hu : decimalValue input + additionalOffset = u := by
    unfold timezoneParseToUtc at hparse
    rw [if_pos hstamp] at hparse
    exact Option.some.inj hparse
  have hconvert : timezoneConvertTimeWithOffset beyond input tzOffset additionalOffset outputSize =
      if True then some (printInt u) else none := by
    unfold timezoneConvertTimeWithOffset
    rw [if_neg (by omega), if_neg (by omega), if_pos hstamp, hu, if_pos trivial]
  rw [convertsTo_iff hconvert fun beyond' => timestamp_reads beyond' (lt_of_year hyear.2), hu,
    true_and]

section

variable (hstamp : isTimestamp input = false)

include hstamp

theorem compact_convertsTo (hcompact : (isCompact input || isCompactGmt input) = true) :
    ConvertsTo beyond input tzOffset additionalOffset outputSize u ↔
      ∃ tm, scanCompact input = some tm ∧ validComponents tm = true ∧
        writtenTime tm (isCompactGmt input) tzOffset additionalOffset ≠ -1 := by
  have hfour : 0 ≤ (gmtime u).year ∧ (gmtime u).year < 10 ^ 4 := by omega
  have htwo := gmtime_twoDigits u
  have hformat : timezoneFormatTime (gmtime u) 32 = some (formatCompact (gmtime u)) := by
    unfold timezoneFormatTime
    rw [length_formatCompact htwo hfour]
    rfl
  unfold timezoneParseToUtc at hparse
  simp only [hstamp, hcompact, Bool.false_eq_true, if_false, if_true] at hparse
  obtain ⟨tm, hscan, hparse⟩ := Option.bind_eq_some_iff.1 hparse
  obtain ⟨t, ht, hparse⟩ := Option.bind_eq_some_iff.1 hparse
  have hu : t - (if isCompactGmt input = true then 0 else tzOffset) + additionalOffset = u :=
    Option.some.inj hparse
  have hwritten : writtenTime tm (isCompactGmt input) tzOffset additionalOffset = u := by
    unfold writtenTime
    rw [timestampOf_eq ht, hu]
  have hconvert : timezoneConvertTimeWithOffset beyond input tzOffset additionalOffset outputSize =
      if validComponents tm = true then
        some (if isCompactGmt input = true then formatCompact (gmtime u) ++ ascii "GMT"
          else formatCompact (gmtime u))
      else none := by
    unfold timezoneConvertTimeWithOffset
    rw [if_neg (by omega), if_neg (by omega), if_neg (by simp [hstamp]), if_pos hcompact]
    by_cases hvalid : validComponents tm = true
    · simp [hscan, hvalid, ht, hu, hformat]
    · simp [hscan, hvalid]
  have hread : ∀ beyond', timezoneParseToUtc beyond' (if isCompactGmt input = true then
      formatCompact (gmtime u) ++ ascii "GMT" else formatCompact (gmtime u)) 0 0 = some u ↔
        u ≠ -1 := by
    intro beyond'
    split
    · rw [compactGmt_reads beyond' htwo hfour, timestampOf_gmtime]
      split <;> simp [*]
    · rw [compact_reads beyond' htwo hfour, timestampOf_gmtime]
      split <;> simp [*]
  rw [convertsTo_iff hconvert hread]
  constructor
  · rintro ⟨hvalid, hu⟩
    exact ⟨tm, hscan, hvalid, by rwa [hwritten]⟩
  · rintro ⟨tm', hscan', hvalid, hu⟩
    cases hscan.symm.trans hscan'
    rw [hwritten] at hu
    exact ⟨hvalid, hu⟩

theorem basic_convertsTo (hcompact : (isCompact input || isCompactGmt input) = false)
    (hbasic : isBasicIso8601Format input = true) :
    ConvertsTo beyond input tzOffset additionalOffset outputSize u ↔
      ∃ tm zone, timezoneParseBasicIso8601 input = some (tm, zone) ∧
        Printable (writtenTime tm zone.isSome tzOffset additionalOffset) := by
  unfold timezoneParseToUtc at hparse
  simp only [hstamp, hcompact, hbasic, Bool.false_eq_true, if_false, if_true] at hparse
  obtain ⟨⟨tm, zone⟩, hread, hparse⟩ := Option.bind_eq_some_iff.1 hparse
  obtain ⟨t, ht, hparse⟩ := Option.bind_eq_some_iff.1 hparse
  have hu : t - (zone.map (·.offset)).getD tzOffset + additionalOffset = u := Option.some.inj hparse
  have hzone := timezoneParseBasicIso8601_zone hread
  have hwritten : writtenTime tm zone.isSome tzOffset additionalOffset = u + zoneOffset zone :=
    writtenTime_eq ht hu
  have hshift : t - (if zone.isSome = true then 0 else tzOffset) + additionalOffset =
      u + zoneOffset zone := by
    rw [← hwritten, ← timestampOf_eq ht]
    rfl
  have hlocal := year_local hyear hzone.offset_lt
  have htwo := gmtime_twoDigits (u + zoneOffset zone)
  have hlen := length_formatCompact_le htwo (by omega)
  generalize htext : formatCompact (gmtime (u + zoneOffset zone)) = text at *
  have hformat : timezoneFormatTime (gmtime (u + zoneOffset zone)) 32 = some text := by
    unfold timezoneFormatTime
    rw [htext, if_neg (by omega)]
  have hroom : (text.take 8 ++ letterT :: text.drop 8 ++ suffixText zone).length < outputSize := by
    have := hzone.length_le
    rw [length_append, length_append, length_cons, length_take, length_drop]
    omega
  have hconvert : timezoneConvertTimeWithOffset beyond input tzOffset additionalOffset outputSize =
      if True then some (text.take 8 ++ letterT :: text.drop 8 ++ suffixText zone) else none := by
    unfold timezoneConvertTimeWithOffset
    rw [if_neg (by omega), if_neg (by omega), if_neg (by simp [hstamp]),
      if_neg (by simp [hcompact]), if_pos hbasic, if_pos trivial, hread]
    simp only [Option.bind_eq_bind, Option.bind_some, ht, hshift, hformat, guard, if_pos hroom]
    rfl
  have hback : ∀ beyond', timezoneParseToUtc beyond' (text.take 8 ++ letterT :: text.drop 8 ++
      suffixText zone) 0 0 = some u ↔ Printable (u + zoneOffset zone) := by
    intro beyond'
    have hbasic := basic_reads beyond' hzone hlocal
    rwa [htext, Int.add_sub_cancel] at hbasic
  rw [convertsTo_iff hconvert hback, true_and]
  constructor
  · intro hprint
    exact ⟨tm, zone, hread, by rwa [hwritten]⟩
  · rintro ⟨tm', zone', hread', hprint⟩
    cases hread.symm.trans hread'
    rwa [hwritten] at hprint

theorem iso_convertsTo (hcompact : (isCompact input || isCompactGmt input) = false)
    (hbasic : isBasicIso8601Format input = false) :
    ConvertsTo beyond input tzOffset additionalOffset outputSize u ↔
      ∃ iso, timezoneParseIso8601 beyond input = some iso ∧ -1 ≤ iso.milliseconds ∧
        Printable (writtenTime iso.tm iso.zone.isSome tzOffset additionalOffset) := by
  unfold timezoneParseToUtc at hparse
  simp only [hstamp, hcompact, hbasic, Bool.false_eq_true, if_false] at hparse
  rw [Option.ite_none_right_eq_some] at hparse
  obtain ⟨hT, hparse⟩ := hparse
  obtain ⟨⟨tm, milliseconds, zone⟩, hread, hparse⟩ := Option.bind_eq_some_iff.1 hparse
  obtain ⟨t, ht, hparse⟩ := Option.bind_eq_some_iff.1 hparse
  have hu : t - (zone.map (·.offset)).getD tzOffset + additionalOffset = u := Option.some.inj hparse
  obtain ⟨hzone, hms⟩ := timezoneParseIso8601_spec hread
  dsimp only at hzone hms ht
  have hzone9 : ZoneText (-9) zone := hzone.mono (by decide)
  have hwritten : writtenTime tm zone.isSome tzOffset additionalOffset = u + zoneOffset zone :=
    writtenTime_eq ht hu
  have hshift : t - (if zone.isSome = true then 0 else tzOffset) + additionalOffset =
      u + zoneOffset zone := by
    rw [← hwritten, ← timestampOf_eq ht]
    rfl
  have hlocal := year_local hyear hzone9.offset_lt
  have hlen := length_formatIso8601_le (gmtime_twoDigits (u + zoneOffset zone)) (by omega) hms hzone9
  have hformat : timezoneFormatTimeIso8601 (gmtime (u + zoneOffset zone)) milliseconds
      (suffixText zone) outputSize = if -1 ≤ milliseconds then
        some (formatIso8601 (gmtime (u + zoneOffset zone)) milliseconds (suffixText zone))
      else none := by
    unfold timezoneFormatTimeIso8601
    by_cases hleast : -1 ≤ milliseconds
    · rw [if_neg (by omega), if_neg (by omega), if_pos hleast]
    · rw [if_pos (by omega), if_neg hleast]
  have hconvert : timezoneConvertTimeWithOffset beyond input tzOffset additionalOffset outputSize =
      if -1 ≤ milliseconds then
        some (formatIso8601 (gmtime (u + zoneOffset zone)) milliseconds (suffixText zone))
      else none := by
    have hroom : 30 ≤ outputSize := by omega
    unfold timezoneConvertTimeWithOffset timezoneConvertIso8601WithOffset
    rw [if_neg (by omega), if_neg (by omega), if_neg (by simp [hstamp]),
      if_neg (by simp [hcompact]), if_neg (by simp [hbasic]), if_pos hT, hread, ← hformat]
    simp only [Option.bind_eq_bind, Option.bind_some, ht, hshift, guard, if_pos hroom]
    rfl
  have hback : ∀ beyond', timezoneParseToUtc beyond' (formatIso8601 (gmtime (u + zoneOffset zone))
      milliseconds (suffixText zone)) 0 0 = some u ↔ Printable (u + zoneOffset zone) := by
    intro beyond'
    have hiso := iso_reads beyond' hms hzone hlocal
    rwa [Int.add_sub_cancel] at hiso
  rw [convertsTo_iff hconvert hback]
  constructor
  · simp [*]
  · rintro ⟨iso, hread', hleast, hprint⟩
    cases hread.symm.trans hread'
    rw [hwritten] at hprint
    exact ⟨hleast, hprint⟩

end

end Convert

/-- The instant is preserved exactly when what is written is in the range of the parser and the
components and the offset pass the checks of the converter. -/
theorem convertsTo_iff_convertible {beyond input : Bytes} {tzOffset additionalOffset u : ℤ}
    (outputSize : ℕ)
    (hparse : timezoneParseToUtc beyond input tzOffset additionalOffset = some u)
    (hyear : 1900 ≤ (gmtime u).year ∧ (gmtime u).year ≤ 9999) :
    ConvertsTo beyond input tzOffset additionalOffset outputSize u ↔
      Convertible beyond input tzOffset additionalOffset outputSize := by
  by_cases hchecks : 64 ≤ outputSize ∧ minTimezoneOffsetSeconds ≤ tzOffset ∧
      tzOffset ≤ maxTimezoneOffsetSeconds
  · obtain ⟨hsize, htz, htz'⟩ := hchecks
    unfold Convertible
    simp only [hsize, htz, htz', true_and]
    split
    · rename_i hstamp
      exact timestamp_convertsTo hsize htz htz' hparse hyear hstamp
    rename_i hstamp
    rw [Bool.not_eq_true] at hstamp
    split
    · rename_i hcompact
      exact compact_convertsTo hsize htz htz' hparse hyear hstamp hcompact
    rename_i hcompact
    rw [Bool.not_eq_true] at hcompact
    split
    · rename_i hbasic
      exact basic_convertsTo hsize htz htz' hparse hyear hstamp hcompact hbasic
    · rename_i hbasic
      rw [Bool.not_eq_true] at hbasic
      exact iso_convertsTo hsize htz htz' hparse hyear hstamp hcompact hbasic
  · refine iff_of_false ?_ fun h => hchecks ⟨h.1, h.2.1, h.2.2.1⟩
    rintro ⟨output, hconvert, -⟩
    have hnone : timezoneConvertTimeWithOffset beyond input tzOffset additionalOffset outputSize =
        none := by
      unfold timezoneConvertTimeWithOffset
      by_cases hsize : outputSize < 64
      · rw [if_pos hsize]
      · rw [if_neg hsize, if_pos (by omega)]
    rw [hnone] at hconvert
    cases hconvert

/-- Noon with half a second in a zone that is eight hours ahead, an hour later. -/
theorem convertsTo_noon : ConvertsTo [] (ascii "2024-05-01T12:00:00.5+08:00") 0 3600 64 1714539600 ↔
      Convertible [] (ascii "2024-05-01T12:00:00.5+08:00") 0 3600 64 :=
  convertsTo_iff_convertible 64 (by decide +kernel) (by decide +kernel)

/-- The second before 1970 is written, but read as an error. -/
theorem instant_lost : timezoneParseToUtc [] (ascii "19700101000000") 0 (-1) = some (-1) ∧
      (1900 ≤ (gmtime (-1)).year ∧ (gmtime (-1)).year ≤ 9999) ∧
      timezoneConvertTimeWithOffset [] (ascii "19700101000000") 0 (-1) 64 =
        some (ascii "19691231235959") ∧
      timezoneParseToUtc [] (ascii "19691231235959") 0 0 = none ∧
      ¬ ConvertsTo [] (ascii "19700101000000") 0 (-1) 64 (-1) := by
  have hconvert : timezoneConvertTimeWithOffset [] (ascii "19700101000000") 0 (-1) 64 =
      some (ascii "19691231235959") := by decide +kernel
  have hread : timezoneParseToUtc [] (ascii "19691231235959") 0 0 = none := by decide +kernel
  refine ⟨by decide +kernel, by decide +kernel, hconvert, hread, ?_⟩
  rintro ⟨output, hout, hall⟩
  cases hconvert.symm.trans hout
  have := hall []
  rw [hread] at this
  cases this

end Apackage.Rtp2httpd
