import Apackage.Lib.CivilTime
import Apackage.Rtp2httpd.Http.Request

/-
  Time strings (`timezone.c`): converting one in its own format, and reading one as a UTC time.

  Model. A `struct tm` holds the calendar year and month themselves. A time string is a C
  string in memory: `beyond` is what stands behind its end, where the ISO 8601 parser looks at
  the byte 19 of a string that is shorter.
-/

namespace Apackage.Rtp2httpd

open Lib.CivilTime Lib.Digits

/-! ## The C library -/

/-- `struct tm`. -/
abbrev Tm := Civil

/-- `timegm`; -1 is a time as well as an error. -/
def timegm (tm : Tm) : ℤ := seconds tm

def gmtime (t : ℤ) : Tm := civil t

/-- `%<width>d` of `sscanf`: the number and what follows it. -/
def scanInt (width : ℕ) (s : Bytes) : Option (ℤ × Bytes) :=
  let s := s.dropWhile isSpace
  let signed := s.head? = some 0x2D ∨ s.head? = some 0x2B
  let body := if signed then s.drop 1 else s
  let digits := (body.take (if signed then width - 1 else width)).takeWhile isDigit
  let magnitude : ℤ := decimalValue digits
  if digits = [] then none
  else some (if s.head? = some 0x2D then -magnitude else magnitude, body.drop digits.length)

def scanByte (c : UInt8) (s : Bytes) : Option Bytes :=
  if s.head? = some c then some (s.drop 1) else none

/-- `%0<width>d` for a number that is not negative. -/
def padDecimal (width n : ℕ) : Bytes :=
  (if n < 10 ^ width then fixed 10 width n else shortest 10 n).map digitByte

/-- `%0<width>d`. -/
def printPadded (width : ℕ) (z : ℤ) : Bytes :=
  if z < 0 then 0x2D :: padDecimal (width - 1) z.natAbs else padDecimal width z.natAbs

/-- `%lld`. -/
def printInt (z : ℤ) : Bytes :=
  if z < 0 then 0x2D :: printDecimal z.natAbs else printDecimal z.natAbs

/-! ## Formats -/

def maxTimezoneOffsetSeconds : ℤ := 14 * 3600
def minTimezoneOffsetSeconds : ℤ := -12 * 3600

def letterT : UInt8 := 0x54
def letterZ : UInt8 := 0x5A
def minus : UInt8 := 0x2D
def plus : UInt8 := 0x2B
def dot : UInt8 := 0x2E

def validComponents (tm : Tm) : Bool :=
  (1900 ≤ tm.year && tm.year ≤ 9999) && (1 ≤ tm.month && tm.month ≤ 12) &&
    (1 ≤ tm.day && tm.day ≤ 31) && (0 ≤ tm.hour && tm.hour ≤ 23) &&
    (0 ≤ tm.minute && tm.minute ≤ 59) && (0 ≤ tm.second && tm.second ≤ 60)

structure ZoneSuffix where
  offset : ℤ
  suffix : Bytes

/-- The text of a zone, empty if there is none. -/
def suffixText (zone : Option ZoneSuffix) : Bytes := (zone.map (·.suffix)).getD []

/-- `%c%02d:%02d`. -/
def printOffset (sign : UInt8) (hours minutes : ℤ) : Bytes :=
  sign :: (printPadded 2 hours ++ 0x3A :: printPadded 2 minutes)

def signOf (c : UInt8) : ℤ := if c = plus then 1 else -1

/-- `timezone_format_time_yyyyMMddHHmmss` without the size of the buffer. -/
def formatCompact (tm : Tm) : Bytes :=
  printPadded 4 tm.year ++ printPadded 2 tm.month ++ printPadded 2 tm.day ++
    printPadded 2 tm.hour ++ printPadded 2 tm.minute ++ printPadded 2 tm.second

/-- `timezone_format_time_yyyyMMddHHmmss`; none is -1. -/
def timezoneFormatTime (tm : Tm) (outputSize : ℕ) : Option Bytes :=
  if outputSize < 15 ∨ outputSize ≤ (formatCompact tm).length then none else some (formatCompact tm)

/-- `sscanf` with `%4d%2d%2d%2d%2d%2d`. -/
def scanCompact (s : Bytes) : Option Tm := do
  let (year, s) ← scanInt 4 s
  let (month, s) ← scanInt 2 s
  let (day, s) ← scanInt 2 s
  let (hour, s) ← scanInt 2 s
  let (minute, s) ← scanInt 2 s
  let (second, _) ← scanInt 2 s
  return ⟨year, month, day, hour, minute, second⟩

/-- `sscanf` with `%4d%2d%2dT%2d%2d%2d`. -/
def scanBasic (s : Bytes) : Option Tm := do
  let (year, s) ← scanInt 4 s
  let (month, s) ← scanInt 2 s
  let (day, s) ← scanInt 2 s
  let s ← scanByte letterT s
  let (hour, s) ← scanInt 2 s
  let (minute, s) ← scanInt 2 s
  let (second, _) ← scanInt 2 s
  return ⟨year, month, day, hour, minute, second⟩

/-- `sscanf` with `%4d-%2d-%2dT%2d:%2d:%2d`. -/
def scanIso (s : Bytes) : Option Tm := do
  let (year, s) ← scanInt 4 s
  let s ← scanByte minus s
  let (month, s) ← scanInt 2 s
  let s ← scanByte minus s
  let (day, s) ← scanInt 2 s
  let s ← scanByte letterT s
  let (hour, s) ← scanInt 2 s
  let s ← scanByte 0x3A s
  let (minute, s) ← scanInt 2 s
  let s ← scanByte 0x3A s
  let (second, _) ← scanInt 2 s
  return ⟨year, month, day, hour, minute, second⟩

/-- All digits and no more than ten. -/
def isTimestamp (input : Bytes) : Bool := input.length ≤ 10 && input.all isDigit

/-- 14 digits. -/
def isCompact (input : Bytes) : Bool := input.length = 14 && input.all isDigit

/-- 14 digits and `GMT`. -/
def isCompactGmt (input : Bytes) : Bool :=
  input.length = 17 && (input.take 14).all isDigit && input.drop 14 = ascii "GMT"

/-- `is_basic_iso8601_format`. -/
def isBasicIso8601Format (input : Bytes) : Bool :=
  15 ≤ input.length && input[8]? = some letterT && (input.take 8).all isDigit &&
    ((input.drop 9).take 6).all isDigit

/-! ## ISO 8601 -/

def parseBasicZone (p : Bytes) : Option (Option ZoneSuffix) :=
  match p with
  | [] => some none
  | c :: rest =>
    if c = letterZ then some (some ⟨0, [letterZ]⟩)
    else if c = plus ∨ c = minus then do
      let (hours, rest) ← scanInt 2 rest
      let rest ← scanByte 0x3A rest
      let (minutes, _) ← scanInt 2 rest
      if 14 < hours ∨ minutes < 0 ∨ 59 < minutes then none
      else some (some ⟨signOf c * (hours * 3600 + minutes * 60), printOffset c hours minutes⟩)
    else none

/-- `timezone_parse_basic_iso8601`; none is -1. -/
def timezoneParseBasicIso8601 (isoStr : Bytes) : Option (Tm × Option ZoneSuffix) := do
  let tm ← scanBasic isoStr
  if validComponents tm then (parseBasicZone (isoStr.drop 15)).map (tm, ·) else none

/-- The milliseconds behind an ISO 8601 time, -1 if there are none, and what follows them. -/
def parseMilliseconds (p : Bytes) : ℤ × Bytes :=
  if p.head? = some dot then
    let p := p.drop 1
    match scanInt 3 p with
    | none => (-1, p)
    | some (value, rest) =>
      let digits := p.length - rest.length
      (if digits = 1 then value * 100 else if digits = 2 then value * 10 else value, rest)
  else (-1, p)

/-- `sscanf` with `%3d:%2d`, then with `%3d%c%2d`. -/
def scanOffset (p : Bytes) : Option (ℤ × ℤ) :=
  let withColon : Option (ℤ × ℤ) := do
    let (hours, p) ← scanInt 3 p
    let p ← scanByte 0x3A p
    let (minutes, _) ← scanInt 2 p
    return (hours, minutes)
  let withAny : Option (ℤ × ℤ) := do
    let (hours, p) ← scanInt 3 p
    if p = [] then none
    else do
      let (minutes, _) ← scanInt 2 (p.drop 1)
      return (hours, minutes)
  withColon <|> withAny

def parseZone (p : Bytes) : Option (Option ZoneSuffix) :=
  match p with
  | [] => some none
  | c :: rest =>
    if c = letterZ then some (some ⟨0, [letterZ]⟩)
    else if c = plus ∨ c = minus then do
      let (hours, minutes) ← scanOffset (c :: rest)
      if 14 < |hours| ∨ minutes < 0 ∨ 59 < minutes then none
      else
        some (some ⟨signOf c * (|hours| * 3600 + minutes * 60), printOffset c |hours| minutes⟩)
    else none

structure IsoTime where
  tm : Tm
  milliseconds : ℤ
  zone : Option ZoneSuffix

/-- `timezone_parse_iso8601`; none is -1. What follows the seconds is read at the byte 19. -/
def timezoneParseIso8601 (beyond isoStr : Bytes) : Option IsoTime := do
  guard (letterT ∈ isoStr)
  let tm ← scanIso isoStr
  guard (validComponents tm)
  let p := cstr ((isoStr ++ 0 :: beyond).drop 19)
  let (milliseconds, p) := parseMilliseconds p
  let zone ← parseZone p
  return ⟨tm, milliseconds, zone⟩

/-- `timezone_format_time_iso8601` without the checks. -/
def formatIso8601 (tm : Tm) (milliseconds : ℤ) (suffix : Bytes) : Bytes :=
  printPadded 4 tm.year ++ minus :: printPadded 2 tm.month ++ minus :: printPadded 2 tm.day ++
    letterT :: printPadded 2 tm.hour ++ 0x3A :: printPadded 2 tm.minute ++
    0x3A :: printPadded 2 tm.second ++
    (if 0 ≤ milliseconds then dot :: printPadded 3 milliseconds else []) ++ suffix

/-- `timezone_format_time_iso8601`; none is -1. -/
def timezoneFormatTimeIso8601 (tm : Tm) (milliseconds : ℤ) (suffix : Bytes) (outputSize : ℕ) :
    Option Bytes :=
  if outputSize < 30 ∨ milliseconds < -1 ∨ 999 < milliseconds then none
  else if outputSize ≤ (formatIso8601 tm milliseconds suffix).length then none
  else some (formatIso8601 tm milliseconds suffix)

/-! ## The two dispatchers -/

/-- `timegm`, where -1 is taken for an error. -/
def timestampOf (tm : Tm) : Option ℤ := if timegm tm = -1 then none else some (timegm tm)

/-- `timezone_parse_to_utc`; none is -1. -/
def timezoneParseToUtc (beyond input : Bytes) (tzOffset additionalOffset : ℤ) : Option ℤ :=
  if isTimestamp input then some (decimalValue input + additionalOffset)
  else if isCompact input || isCompactGmt input then do
    let tm ← scanCompact input
    let timestamp ← timestampOf tm
    return timestamp - (if isCompactGmt input then 0 else tzOffset) + additionalOffset
  else if isBasicIso8601Format input then do
    let (tm, zone) ← timezoneParseBasicIso8601 input
    let timestamp ← timestampOf tm
    return timestamp - ((zone.map (·.offset)).getD tzOffset) + additionalOffset
  else if letterT ∈ input then do
    let iso ← timezoneParseIso8601 beyond input
    let timestamp ← timestampOf iso.tm
    return timestamp - ((iso.zone.map (·.offset)).getD tzOffset) + additionalOffset
  else none

/-- `timezone_convert_iso8601_with_offset`; none is -1. -/
def timezoneConvertIso8601WithOffset (beyond isoStr : Bytes) (tzOffset offset : ℤ)
    (outputSize : ℕ) : Option Bytes := do
  guard (30 ≤ outputSize)
  let iso ← timezoneParseIso8601 beyond isoStr
  let timestamp ← timestampOf iso.tm
  let timestamp := timestamp - (if iso.zone.isSome then 0 else tzOffset) + offset
  timezoneFormatTimeIso8601 (gmtime timestamp) iso.milliseconds (suffixText iso.zone) outputSize

/-- `timezone_convert_time_with_offset`; none is -1. -/
def timezoneConvertTimeWithOffset (beyond input : Bytes) (tzOffset additionalOffset : ℤ)
    (outputSize : ℕ) : Option Bytes :=
  if outputSize < 64 then none
  else if tzOffset < minTimezoneOffsetSeconds ∨ maxTimezoneOffsetSeconds < tzOffset then none
  else if isTimestamp input then some (printInt (decimalValue input + additionalOffset))
  else if isCompact input || isCompactGmt input then do
    let tm ← scanCompact input
    guard (validComponents tm)
    let timestamp ← timestampOf tm
    let timestamp := timestamp - (if isCompactGmt input then 0 else tzOffset) + additionalOffset
    let text ← timezoneFormatTime (gmtime timestamp) 32
    return if isCompactGmt input then text ++ ascii "GMT" else text
  else if isBasicIso8601Format input then do
    let (tm, zone) ← timezoneParseBasicIso8601 input
    let timestamp ← timestampOf tm
    let timestamp := timestamp - (if zone.isSome then 0 else tzOffset) + additionalOffset
    let text ← timezoneFormatTime (gmtime timestamp) 32
    let output := text.take 8 ++ letterT :: text.drop 8 ++ suffixText zone
    guard (output.length < outputSize)
    return output
  else if letterT ∈ input then
    timezoneConvertIso8601WithOffset beyond input tzOffset additionalOffset outputSize
  else some (input.take (outputSize - 1))

end Apackage.Rtp2httpd
