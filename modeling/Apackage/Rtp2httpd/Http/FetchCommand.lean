import Apackage.Lib.ShellWords
import Apackage.Rtp2httpd.Time.Timezone

/-
  The shell command of an HTTP fetch (`build_fetch_command` in `http_fetch.c`), read by the shell as
  words.

  Model. The tool that was detected is an argument; none is `HTTP_TOOL_NONE`. The output file is a
  name that `mkstemp` has made of the template. `snprintf` of 2^31 bytes or more is -1, as is
  documented.
-/

namespace Apackage.Rtp2httpd

open List Lib.ShellWords

/-- `http_fetch_tool_t` without `HTTP_TOOL_NONE`. -/
inductive FetchTool
  | curl
  | uclientFetch
  | wget
  deriving DecidableEq

def escapedUrlSize : ℕ := 4096

/-- The portable filename character set. -/
def isPortable (c : UInt8) : Bool := isAlnum c || c = 0x2D || c = 0x2E || c = 0x5F

/-- A name that `mkstemp` has made of `temp_file_template`. -/
structure TempFile where
  suffix : Bytes
  length_suffix : suffix.length = 6
  portable : ∀ c ∈ suffix, isPortable c = true

def TempFile.path (file : TempFile) : Bytes := ascii "/tmp/rtp2httpd_http_fetch_" ++ file.suffix

/-- The loop of `shell_escape_single_quote`; none is -1. -/
def shellEscapeLoop (outputSize : ℕ) : (input output : Bytes) → Option Bytes
  | [], output => if outputSize ≤ output.length then none else some output
  | c :: input, output =>
    if c = singleQuote then
      if outputSize ≤ output.length + 4 then none
      else shellEscapeLoop outputSize input
        (output ++ [singleQuote, backslash, singleQuote, singleQuote])
    else if outputSize ≤ output.length + 1 then none
    else shellEscapeLoop outputSize input (output ++ [c])

def shellEscapeSingleQuote (input : Bytes) (outputSize : ℕ) : Option Bytes :=
  shellEscapeLoop outputSize input []

/-- What the format string of the tool makes of the timeout, the file and the URL. -/
def fetchCommandText (tool : FetchTool) (timeout : ℤ) (outputFile escapedUrl : Bytes) : Bytes :=
  match tool with
  | .curl =>
    ascii "curl -L -f -s -S -k --max-time " ++ printInt timeout ++
      ascii " --connect-timeout 10 -o '" ++ outputFile ++ ascii "' '" ++ escapedUrl ++
      ascii "' 2>&1; echo \"EXIT_CODE:$?\""
  | .uclientFetch =>
    ascii "uclient-fetch --no-check-certificate -q -T " ++ printInt timeout ++
      ascii " -O '" ++ outputFile ++ ascii "' '" ++ escapedUrl ++
      ascii "' 2>&1; echo \"EXIT_CODE:$?\""
  | .wget =>
    ascii "wget --no-check-certificate -q -T " ++ printInt timeout ++
      ascii " -O '" ++ outputFile ++ ascii "' '" ++ escapedUrl ++
      ascii "' 2>&1; echo \"EXIT_CODE:$?\""

/-- What `snprintf` returns for a text. -/
def snprintfLength (text : Bytes) : ℤ := if text.length < 2 ^ 31 then text.length else -1

/-- `build_fetch_command`: the string in `buf`; none is -1. -/
def buildFetchCommand (tool : Option FetchTool) (bufsize : ℕ) (url outputFile : Bytes)
    (timeout : Int32) : Option Bytes :=
  match tool with
  | none => none
  | some tool =>
    match shellEscapeSingleQuote url escapedUrlSize with
    | none => none
    | some escapedUrl =>
      let text := fetchCommandText tool timeout.toInt outputFile escapedUrl
      -- `(int)bufsize`
      if (bufsize : ℤ).bmod (2 ^ 32) ≤ snprintfLength text then none
      else some (text.take (bufsize - 1))

/-! ## What the command says -/

/-- The fixed words of a tool, in front of the timeout and behind it. -/
def fetchWords : FetchTool → List String × List String
  | .curl =>
    (["curl", "-L", "-f", "-s", "-S", "-k", "--max-time"], ["--connect-timeout", "10", "-o"])
  | .uclientFetch => (["uclient-fetch", "--no-check-certificate", "-q", "-T"], ["-O"])
  | .wget => (["wget", "--no-check-certificate", "-q", "-T"], ["-O"])

/-- `2>&1; echo "EXIT_CODE:$?"`. -/
def exitCodeTokens : List Token :=
  [.ioNumber (ascii "2"), .operator (ascii ">&"), bareWord (ascii "1"), .operator (ascii ";"),
    bareWord (ascii "echo"), .word ((ascii "EXIT_CODE:$?").map (⟨·, .double⟩))]

def fetchTokens (tool : FetchTool) (timeout : ℤ) (outputFile url : Bytes) : List Token :=
  (fetchWords tool).1.map (fun w => bareWord (ascii w)) ++ [bareWord (printInt timeout)] ++
    (fetchWords tool).2.map (fun w => bareWord (ascii w)) ++
    [literalWord outputFile, literalWord url] ++ exitCodeTokens

/-! ## The escaped URL -/

theorem shellEscapeLoop_eq (outputSize : ℕ) (input output : Bytes) :
    shellEscapeLoop outputSize input output =
      if outputSize ≤ (output ++ escape input).length then none
      else some (output ++ escape input) := by
  induction input generalizing output with
  | nil =>
    rw [show escape [] = [] from rfl, append_nil]
    rfl
  | cons c input ih =>
    have hcons : escape (c :: input) =
        (if c = singleQuote then [singleQuote, backslash, singleQuote, singleQuote] else [c]) ++
          escape input := by
      rw [escape, flatMap_cons, ← escape]
    rw [shellEscapeLoop, hcons]
    by_cases hquote : c = singleQuote
    · rw [if_pos hquote, if_pos hquote, ih, append_assoc]
      by_cases hfull : outputSize ≤ output.length + 4
      · rw [if_pos hfull, if_pos]
        simp only [length_append, length_cons, length_nil]
        omega
      · rw [if_neg hfull]
    · rw [if_neg hquote, if_neg hquote, ih, append_assoc]
      by_cases hfull : outputSize ≤ output.length + 1
      · rw [if_pos hfull, if_pos]
        simp only [length_append, length_cons, length_nil]
        omega
      · rw [if_neg hfull]

theorem shellEscapeSingleQuote_eq (input : Bytes) (outputSize : ℕ) :
    shellEscapeSingleQuote input outputSize =
      if outputSize ≤ (escape input).length then none else some (escape input) :=
  shellEscapeLoop_eq outputSize input []

/-! ## The command as the shell reads it -/

theorem TempFile.no_quote (file : TempFile) : singleQuote ∉ file.path := by
  intro h
  obtain h | h := mem_append.mp h
  · exact absurd h (by decide +kernel)
  · exact absurd (file.portable _ h) (by decide)

theorem plain_digitByte {d : ℕ} (h : d < 10) : plain (digitByte d) = true := by
  revert d
  decide

theorem plain_printDecimal {n : ℕ} {c : UInt8} (h : c ∈ printDecimal n) : plain c = true := by
  obtain ⟨d, hd, rfl⟩ := List.mem_map.mp h
  exact plain_digitByte (Lib.Digits.fixed_lt (by decide) hd)

theorem plain_printInt {z : ℤ} {c : UInt8} (h : c ∈ printInt z) : plain c = true := by
  unfold printInt at h
  split at h
  · obtain rfl | h := List.mem_cons.mp h
    · decide
    · exact plain_printDecimal h
  · exact plain_printDecimal h

theorem printInt_ne_nil (z : ℤ) : printInt z ≠ [] := by
  unfold printInt
  split
  · exact cons_ne_nil _ _
  · exact printDecimal_ne_nil _

/-- The texts around the timeout, the file and the URL. -/
def fetchPieces : FetchTool → Bytes × Bytes
  | .curl => (ascii "curl -L -f -s -S -k --max-time ", ascii "--connect-timeout 10 -o ")
  | .uclientFetch => (ascii "uclient-fetch --no-check-certificate -q -T ", ascii "-O ")
  | .wget => (ascii "wget --no-check-certificate -q -T ", ascii "-O ")

variable (tool : FetchTool)

theorem fetchCommandText_eq (timeout : ℤ) (outputFile escapedUrl : Bytes) :
    fetchCommandText tool timeout outputFile escapedUrl =
      (fetchPieces tool).1 ++ (printInt timeout ++ [0x20]) ++ (fetchPieces tool).2 ++
        (singleQuote :: outputFile ++ [singleQuote, 0x20]) ++
        (singleQuote :: escapedUrl ++ [singleQuote, 0x20]) ++
        ascii "2>&1; echo \"EXIT_CODE:$?\"" := by
  have hclose : ascii "' '" = [singleQuote, 0x20, singleQuote] := by decide
  have hend : ascii "' 2>&1; echo \"EXIT_CODE:$?\"" =
      singleQuote :: 0x20 :: ascii "2>&1; echo \"EXIT_CODE:$?\"" := by decide
  have hcurl : ascii " --connect-timeout 10 -o '" =
      0x20 :: (ascii "--connect-timeout 10 -o " ++ [singleQuote]) := by decide
  have hother : ascii " -O '" = 0x20 :: (ascii "-O " ++ [singleQuote]) := by decide
  cases tool with
  | curl => simp [fetchCommandText, fetchPieces, hclose, hend, hcurl]
  | uclientFetch => simp [fetchCommandText, fetchPieces, hclose, hend, hother]
  | wget => simp [fetchCommandText, fetchPieces, hclose, hend, hother]

theorem reads_fetchWords :
    Reads (fetchPieces tool).1 ((fetchWords tool).1.map fun w => bareWord (ascii w)) ∧
      Reads (fetchPieces tool).2 ((fetchWords tool).2.map fun w => bareWord (ascii w)) := by
  cases tool with
  | curl => exact ⟨reads_of_start (by decide +kernel), reads_of_start (by decide +kernel)⟩
  | uclientFetch => exact ⟨reads_of_start (by decide +kernel), reads_of_start (by decide +kernel)⟩
  | wget => exact ⟨reads_of_start (by decide +kernel), reads_of_start (by decide +kernel)⟩

theorem tokens_exitCode : tokens (ascii "2>&1; echo \"EXIT_CODE:$?\"") = some exitCodeTokens := by
  decide +kernel

theorem tokens_fetchCommandText (timeout : ℤ) {outputFile : Bytes}
    (hfile : singleQuote ∉ outputFile) (url : Bytes) :
    tokens (fetchCommandText tool timeout outputFile (escape url)) =
      some (fetchTokens tool timeout outputFile url) := by
  obtain ⟨hfront, hbehind⟩ := reads_fetchWords tool
  have htimeout : Reads (printInt timeout ++ [0x20]) [bareWord (printInt timeout)] :=
    reads_plain (printInt_ne_nil timeout) (fun _ => plain_printInt) (by decide)
  have hoption : Reads (singleQuote :: outputFile ++ [singleQuote, 0x20])
      [literalWord outputFile] := by
    have h := reads_quoted outputFile (show (0x20 : UInt8) ∈ blanks by decide)
    rwa [escape_of_not_mem hfile] at h
  have hurl := reads_quoted url (show (0x20 : UInt8) ∈ blanks by decide)
  have hread := (((hfront.append htimeout).append hbehind).append hoption).append hurl
  rw [fetchCommandText_eq, hread.tokens_append tokens_exitCode, fetchTokens]
  simp [append_assoc, cons_append, nil_append]

/-! ## What fits -/

variable (timeout : Int32)

theorem length_printInt_le : (printInt timeout.toInt).length ≤ 11 := by
  have hlow := timeout.le_toInt
  have hhigh := timeout.toInt_lt
  have hdigits (n : ℕ) (hn : n ≤ 2 ^ 31) : (printDecimal n).length ≤ 10 := by
    rw [length_printDecimal]
    have hlog : Nat.log 10 n < 10 :=
      Nat.log_lt_of_lt_pow' (by decide) (Nat.lt_of_le_of_lt hn (by decide))
    omega
  have habs := hdigits timeout.toInt.natAbs (by omega)
  unfold printInt
  split
  · rw [length_cons]
    omega
  · omega

theorem length_fetchCommandText_lt (file : TempFile) {escapedUrl : Bytes}
    (h : escapedUrl.length < escapedUrlSize) :
    (fetchCommandText tool timeout.toInt file.path escapedUrl).length < 2 ^ 31 := by
  have hprint := length_printInt_le timeout
  have hpath : file.path.length = 32 := by
    rw [TempFile.path, length_append, file.length_suffix]
    rfl
  have hpieces : (fetchPieces tool).1.length + (fetchPieces tool).2.length ≤ 100 := by
    cases tool <;> decide
  have hend : (ascii "2>&1; echo \"EXIT_CODE:$?\"").length ≤ 100 := by decide
  unfold escapedUrlSize at h
  rw [fetchCommandText_eq]
  simp only [length_append, length_cons, length_nil]
  omega

theorem bmod_le (n : ℕ) : (n : ℤ).bmod (2 ^ 32) ≤ n := by
  rw [Int.bmod]
  split <;> omega

/-- A command that is built is split into its fixed words, with the file and the URL each as one
    literal word; what does not fit is refused. -/
theorem fetchCommand_words (tool : FetchTool) (bufsize : ℕ) (url : Bytes) (file : TempFile)
    (timeout : Int32) :
    (∀ cmd, buildFetchCommand (some tool) bufsize url file.path timeout = some cmd →
      tokens cmd = some (fetchTokens tool timeout.toInt file.path url)) ∧
    (escapedUrlSize ≤ (escape url).length ∨
        bufsize ≤ (fetchCommandText tool timeout.toInt file.path (escape url)).length →
      buildFetchCommand (some tool) bufsize url file.path timeout = none) := by
  unfold buildFetchCommand
  simp only [shellEscapeSingleQuote_eq]
  by_cases hurl : escapedUrlSize ≤ (escape url).length
  · rw [if_pos hurl]
    exact ⟨fun _ h => (by cases h), fun _ => rfl⟩
  · rw [if_neg hurl]
    have hlength := length_fetchCommandText_lt tool timeout file (Nat.lt_of_not_le hurl)
    have hret : snprintfLength (fetchCommandText tool timeout.toInt file.path (escape url)) =
        (fetchCommandText tool timeout.toInt file.path (escape url)).length := if_pos hlength
    have hsize := bmod_le bufsize
    dsimp only
    rw [hret]
    constructor
    · intro cmd hcmd
      split at hcmd
      · cases hcmd
      · obtain rfl := Option.some.inj hcmd
        rw [take_of_length_le (by omega)]
        exact tokens_fetchCommandText tool timeout.toInt file.no_quote url
    · intro hfull
      exact if_pos (by omega)

/-- A URL with a quote and a command in it. -/
theorem fetchCommand_words_quote :
    ∃ cmd, buildFetchCommand (some .wget) 2304 (ascii "http://h/';reboot;'")
        (ascii "/tmp/rtp2httpd_http_fetch_a1B2c3") 30 = some cmd ∧
      tokens cmd = some (fetchTokens .wget 30 (ascii "/tmp/rtp2httpd_http_fetch_a1B2c3")
        (ascii "http://h/';reboot;'")) := by
  let file : TempFile := ⟨ascii "a1B2c3", by decide, by decide +kernel⟩
  have hbuilt : (buildFetchCommand (some .wget) 2304 (ascii "http://h/';reboot;'")
      file.path 30).isSome := by decide +kernel
  obtain ⟨cmd, hcmd⟩ := Option.isSome_iff_exists.mp hbuilt
  exact ⟨cmd, hcmd, (fetchCommand_words .wget 2304 _ file 30).1 cmd hcmd⟩

end Apackage.Rtp2httpd
