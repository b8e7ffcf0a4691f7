import Mathlib.Data.List.DropRight
import Apackage.Rtp2httpd.CString

/-
  Download file names (`http.c`): the name a client asks for is cleaned
  (`http_sanitize_download_filename`) and put into a `Content-Disposition` line
  (`http_build_content_disposition_header`).

  The loop looks at the first byte of a character only and copies as many bytes as that byte
  announces. `pieces` cuts a name the way the loop does, without its limit; `Sound` says of a
  piece that the bytes copied unseen could have been looked at.

  Model. The input is the bytes before its terminator. A read past the terminator ends the
  model's run; what the C program does from there depends on the memory behind the string.
-/

namespace Apackage.Rtp2httpd

open List Option Lib.PercentCoding

def httpDownloadFilenameMax : ℕ := 180

def underscore : UInt8 := 0x5F

def httpFilenameForbiddenChar (c : UInt8) : Bool :=
  c < 0x20 || c = 0x7F || c = 0x2F || c = 0x5C || c = 0x3A || c = 0x2A || c = 0x3F || c = 0x22 ||
    c = 0x3C || c = 0x3E || c = 0x7C

/-- `http_utf8_char_len`. -/
def httpUtf8CharLen (c : UInt8) : ℕ :=
  if c &&& 0x80 = 0 then 1
  else if c &&& 0xE0 = 0xC0 then 2
  else if c &&& 0xF0 = 0xE0 then 3
  else if c &&& 0xF8 = 0xF0 then 4
  else 0

/-- `strcasecmp(name + len - 3, ".ts") == 0`. -/
def httpFilenameHasTsSuffix (name : Bytes) : Bool :=
  3 ≤ name.length && (name.drop (name.length - 3)).map toLower = ascii ".ts"

/-- The bytes after which no separator is written, and those cut from the end. -/
def isSeparator (c : UInt8) : Bool := c = underscore || c = 0x20 || c = 0x2E

/-- The first loop of `http_sanitize_download_filename`, with `tmp` so far and `rest` the string
    from `input + i` on; none if it reads past the terminator. -/
def sanitizeLoop (tmp : Bytes) (pendingSep : Bool) (rest : Bytes) : Option Bytes :=
  match rest with
  | [] => some tmp
  | c :: rest' =>
    if tmp.length < httpDownloadFilenameMax then
      if httpFilenameForbiddenChar c then
        if !pendingSep && tmp.length + 1 ≤ httpDownloadFilenameMax then
          sanitizeLoop (tmp ++ [underscore]) true rest'
        else sanitizeLoop tmp pendingSep rest'
      else
        match httpUtf8CharLen c with
        | 0 => sanitizeLoop tmp pendingSep rest'
        | n + 1 =>
          if tmp.length + (n + 1) > httpDownloadFilenameMax then some tmp
          -- a copy that takes the terminator along is followed by a look at the byte behind it
          else if rest'.length < n then none
          else sanitizeLoop (tmp ++ c :: rest'.take n) (isSeparator c) (rest'.drop n)
    else some tmp
termination_by rest.length
decreasing_by all_goals (simp only [length_cons, length_drop]; omega)

/-- How `http_sanitize_download_filename` ends. -/
inductive Sanitized
  /-- It read past the terminator. -/
  | overread
  /-- It returned -1. -/
  | refused
  /-- It returned 0. -/
  | written (output : Bytes)
  deriving DecidableEq

/-- `http_sanitize_download_filename` from the cut of the tail on. -/
def sanitizeTail (tmp : Bytes) (outputSize : ℕ) : Sanitized :=
  let tmp := tmp.rdropWhile isSeparator
  if tmp = [] then .refused
  else
    let tmp :=
      if httpFilenameHasTsSuffix tmp then tmp
      else
        let tmp :=
          if tmp.length + 3 ≥ httpDownloadFilenameMax + 8 then
            tmp.take (httpDownloadFilenameMax - 3)
          else tmp
        tmp ++ ascii ".ts"
    let name := cstr tmp
    if name.length + 1 > outputSize then .refused else .written name

def httpSanitizeDownloadFilename (input : Bytes) (outputSize : ℕ) : Sanitized :=
  if outputSize < 5 then .refused
  else
    match sanitizeLoop [] true input with
    | none => .overread
    | some tmp => sanitizeTail tmp outputSize

/-- `http_is_rfc5987_attr_char`. -/
def httpIsRfc5987AttrChar (c : UInt8) : Bool :=
  isAlnum c || c = 0x21 || c = 0x23 || c = 0x24 || c = 0x26 || c = 0x2B || c = 0x2D || c = 0x2E ||
    c = 0x5E || c = 0x5F || c = 0x60 || c = 0x7C || c = 0x7E

/-- The `ascii` copy of a name, without quotes and cut to its buffer. -/
def asciiName (filename : Bytes) : Bytes :=
  let copy := ((filename.filter (· ≠ 0x22)).map
    fun c => if 0x80 ≤ c then underscore else c).take (httpDownloadFilenameMax + 7)
  if filename.any isAlnum then copy else ascii "download.ts"

/-- `sizeof(encoded)`. -/
def encodedSize : ℕ := 3 * (httpDownloadFilenameMax + 8)

def encodeName (encoded : Bytes) : Bytes → Option Bytes
  | [] => some encoded
  | c :: rest =>
    let next := encodeByte httpIsRfc5987AttrChar c
    if encoded.length + next.length ≥ encodedSize then none
    else encodeName (encoded ++ next) rest

/-- `snprintf` into `size` bytes, with a text that is cut counted as a failure. -/
def printInto (size : ℕ) (text : Bytes) : Option Bytes :=
  if text.length ≥ size then none else some text

def nameLineEnd : Bytes := [0x0D, 0x0A]

/-- `http_build_content_disposition_header`; none is -1. -/
def httpBuildContentDispositionHeader (filename : Bytes) (outputSize : ℕ) : Option Bytes :=
  if filename = [] ∨ outputSize = 0 then none
  else if filename.all (· < 0x80) then
    printInto outputSize
      (ascii "Content-Disposition: attachment; filename=\"" ++ filename ++ ascii "\"" ++ nameLineEnd)
  else
    (encodeName [] filename).bind fun encoded =>
      printInto outputSize
        (ascii "Content-Disposition: attachment; filename=\"" ++ asciiName filename ++
          ascii "\"; filename*=UTF-8''" ++ encoded ++ nameLineEnd)

/-! ## The pieces of a name -/

/-- What one turn of the loop takes. -/
inductive Piece
  | forbidden
  | stray
  /-- A character: its first byte and the bytes copied with it. -/
  | char (lead : UInt8) (following : Bytes)

def pieces : Bytes → List Piece
  | [] => []
  | c :: rest =>
    if httpFilenameForbiddenChar c then .forbidden :: pieces rest
    else
      match httpUtf8CharLen c with
      | 0 => .stray :: pieces rest
      | n + 1 => .char c (rest.take n) :: pieces (rest.drop n)
termination_by s => s.length
decreasing_by all_goals (simp only [length_cons, length_drop]; omega)

/-- The bytes the pieces take in the name, each character as many as it announces. -/
def width : Bool → List Piece → ℕ
  | _, [] => 0
  | pendingSep, .forbidden :: ps => (if pendingSep then 0 else 1) + width true ps
  | pendingSep, .stray :: ps => width pendingSep ps
  | _, .char lead _ :: ps => httpUtf8CharLen lead + width (isSeparator lead) ps

/-- The bytes copied with `lead` are all there, and each could have been written. -/
def Sound (lead : UInt8) (following : Bytes) : Prop :=
  following.length + 1 = httpUtf8CharLen lead ∧ ∀ b ∈ following, httpFilenameForbiddenChar b = false

/-- Every character that fits behind `len` bytes is sound. -/
def SoundFrom (len : ℕ) (pendingSep : Bool) (ps : List Piece) : Prop :=
  ∀ before lead following after, ps = before ++ .char lead following :: after →
    len + width pendingSep before + httpUtf8CharLen lead ≤ httpDownloadFilenameMax →
    Sound lead following

variable {pendingSep : Bool} {ps : List Piece} {len : ℕ}

theorem soundFrom_forbidden : SoundFrom len pendingSep (.forbidden :: ps) ↔
      SoundFrom (len + if pendingSep then 0 else 1) true ps := by
  constructor
  · intro h before lead following after hps hfit
    refine h (.forbidden :: before) lead following after (congrArg _ hps) ?_
    rwa [width, ← Nat.add_assoc len]
  · intro h before lead following after hps hfit
    cases before with
    | nil => cases hps
    | cons p before =>
      obtain ⟨rfl, htail⟩ := cons_eq_cons.1 hps
      refine h before lead following after htail ?_
      rwa [width, ← Nat.add_assoc len] at hfit

theorem soundFrom_stray :
    SoundFrom len pendingSep (.stray :: ps) ↔ SoundFrom len pendingSep ps := by
  constructor
  · intro h before lead following after hps hfit
    exact h (.stray :: before) lead following after (congrArg _ hps) hfit
  · intro h before lead following after hps hfit
    cases before with
    | nil => cases hps
    | cons p before =>
      obtain ⟨rfl, htail⟩ := cons_eq_cons.1 hps
      exact h before lead following after htail hfit

variable {c : UInt8}

theorem soundFrom_char {bytes : Bytes} : SoundFrom len pendingSep (.char c bytes :: ps) ↔
      (len + httpUtf8CharLen c ≤ httpDownloadFilenameMax → Sound c bytes) ∧
        SoundFrom (len + httpUtf8CharLen c) (isSeparator c) ps := by
  constructor
  · intro h
    refine ⟨fun hfit => h [] c bytes ps rfl hfit, ?_⟩
    intro before lead following after hps hfit
    refine h (.char c bytes :: before) lead following after (congrArg _ hps) ?_
    rwa [width, ← Nat.add_assoc len]
  · intro ⟨hfirst, h⟩ before lead following after hps hfit
    cases before with
    | nil =>
      grind
    | cons p before =>
      obtain ⟨rfl, htail⟩ := cons_eq_cons.1 hps
      refine h before lead following after htail ?_
      rwa [width, ← Nat.add_assoc len] at hfit

theorem lead_pos {s : Bytes} {lead : UInt8} {following : Bytes}
    (h : Piece.char lead following ∈ pieces s) : 0 < httpUtf8CharLen lead := by
  induction s using pieces.induct with
  | case1 => simp [pieces] at h
  | case2 c rest hc ih =>
    rw [pieces, if_pos hc] at h
    exact ih (by simpa using h)
  | case3 c rest hc hn ih =>
    rw [pieces, if_neg hc, hn] at h
    exact ih (by simpa using h)
  | case4 c rest hc n hn ih =>
    rw [pieces, if_neg hc, hn] at h
    rcases List.mem_cons.1 h with heq | h
    · obtain ⟨rfl, -⟩ := Piece.char.inj heq
      omega
    · exact ih h

theorem soundFrom_full (h : httpDownloadFilenameMax ≤ len) (pendingSep : Bool) (s : Bytes) :
    SoundFrom len pendingSep (pieces s) := by
  intro before lead following after hps hfit
  have hpos : 0 < httpUtf8CharLen lead :=
    lead_pos (show Piece.char lead following ∈ pieces s by simp [hps])
  omega

/-! ## The loop -/

theorem underscore_allowed : httpFilenameForbiddenChar underscore = false := by decide

variable {tmp rest : Bytes}

section

variable {n : ℕ} (hroom : tmp.length < httpDownloadFilenameMax)
  (hc : ¬ httpFilenameForbiddenChar c = true) (hn : httpUtf8CharLen c = n + 1)
  (hfits : ¬ tmp.length + (n + 1) > httpDownloadFilenameMax)

include hroom hc hn hfits

theorem loop_char (hlong : ¬ rest.length < n) : sanitizeLoop tmp pendingSep (c :: rest) =
      sanitizeLoop (tmp ++ c :: rest.take n) (isSeparator c) (rest.drop n) := by
  rw [sanitizeLoop, if_pos hroom, if_neg hc, hn]
  simp only [if_neg hfits, if_neg hlong]

theorem loop_overread (hshort : rest.length < n) :
    sanitizeLoop tmp pendingSep (c :: rest) = none := by
  rw [sanitizeLoop, if_pos hroom, if_neg hc, hn]
  simp only [if_neg hfits, if_pos hshort]

end

theorem loop_sound (h : SoundFrom tmp.length pendingSep (pieces rest))
    (hclean : ∀ b ∈ tmp, httpFilenameForbiddenChar b = false) :
    ∃ written, sanitizeLoop tmp pendingSep rest = some written ∧
      ∀ b ∈ written, httpFilenameForbiddenChar b = false := by
  induction tmp, pendingSep, rest using sanitizeLoop.induct with
  | case1 tmp pendingSep => exact ⟨tmp, by rw [sanitizeLoop], hclean⟩
  | case2 tmp pendingSep c rest hroom hc hsep ih =>
    rw [pieces, if_pos hc, soundFrom_forbidden] at h
    rw [sanitizeLoop, if_pos hroom, if_pos hc, if_pos hsep]
    have hpending : pendingSep = false := by simpa using (Bool.and_eq_true_iff.1 hsep).1
    refine ih (by simpa [hpending] using h) ?_
    intro b hb
    rcases mem_append.1 hb with hb | hb
    · exact hclean b hb
    · rw [mem_singleton.1 hb]
      exact underscore_allowed
  | case3 tmp pendingSep c rest hroom hc hsep ih =>
    rw [pieces, if_pos hc, soundFrom_forbidden] at h
    rw [sanitizeLoop, if_pos hroom, if_pos hc, if_neg hsep]
    have hpending : pendingSep = true := by
      by_contra hp
      exact hsep (by simp [Bool.eq_false_of_not_eq_true hp, Nat.succ_le_of_lt hroom])
    exact ih (by simpa [hpending] using h) hclean
  | case4 tmp pendingSep c rest hroom hc hn ih =>
    rw [pieces, if_neg hc, hn, soundFrom_stray] at h
    rw [sanitizeLoop, if_pos hroom, if_neg hc, hn]
    exact ih h hclean
  | case5 tmp pendingSep c rest hroom hc n hn hfull =>
    rw [sanitizeLoop, if_pos hroom, if_neg hc, hn]
    exact ⟨tmp, if_pos hfull, hclean⟩
  | case6 tmp pendingSep c rest hroom hc n hn hfull hshort =>
    rw [pieces, if_neg hc, hn, soundFrom_char] at h
    have hlen := (h.1 (by omega)).1
    rw [length_take] at hlen
    omega
  | case7 tmp pendingSep c rest hroom hc n hn hfull hshort ih =>
    rw [pieces, if_neg hc, hn, soundFrom_char] at h
    rw [loop_char hroom hc hn hfull hshort]
    have hsound := h.1 (by omega)
    have hlen : (tmp ++ c :: rest.take n).length = tmp.length + httpUtf8CharLen c := by
      rw [length_append, length_cons, hsound.1]
    refine ih (hlen ▸ h.2) ?_
    intro b hb
    rcases mem_append.1 hb with hb | hb
    · exact hclean b hb
    rcases List.mem_cons.1 hb with rfl | hb
    · exact Bool.eq_false_of_not_eq_true hc
    · exact hsound.2 b hb
  | case8 tmp pendingSep c rest hfull => exact ⟨tmp, by rw [sanitizeLoop, if_neg hfull], hclean⟩

theorem loop_mem {written : Bytes} (h : sanitizeLoop tmp pendingSep rest = some written) :
    tmp <+: written ∧ ∀ b ∈ written, b ∈ tmp ∨ b = underscore ∨ b ∈ rest := by
  induction tmp, pendingSep, rest using sanitizeLoop.induct with
  | case1 tmp pendingSep =>
    rw [sanitizeLoop] at h
    obtain rfl := some.inj h
    exact ⟨prefix_rfl, fun b hb => .inl hb⟩
  | case2 tmp pendingSep c rest hroom hc hsep ih =>
    rw [sanitizeLoop, if_pos hroom, if_pos hc, if_pos hsep] at h
    obtain ⟨hpre, hmem⟩ := ih h
    refine ⟨(prefix_append _ _).trans hpre, fun b hb => ?_⟩
    have hb := hmem b hb
    simp only [mem_append, List.mem_cons, not_mem_nil, or_false] at hb ⊢
    tauto
  | case3 tmp pendingSep c rest hroom hc hsep ih =>
    rw [sanitizeLoop, if_pos hroom, if_pos hc, if_neg hsep] at h
    refine ⟨(ih h).1, fun b hb => ?_⟩
    have hb := (ih h).2 b hb
    rw [List.mem_cons]
    tauto
  | case4 tmp pendingSep c rest hroom hc hn ih =>
    rw [sanitizeLoop, if_pos hroom, if_neg hc, hn] at h
    refine ⟨(ih h).1, fun b hb => ?_⟩
    have hb := (ih h).2 b hb
    rw [List.mem_cons]
    tauto
  | case5 tmp pendingSep c rest hroom hc n hn hfull =>
    rw [sanitizeLoop, if_pos hroom, if_neg hc, hn] at h
    obtain rfl := some.inj ((if_pos hfull).symm.trans h)
    exact ⟨prefix_rfl, fun b hb => .inl hb⟩
  | case6 tmp pendingSep c rest hroom hc n hn hfull hshort =>
    rw [loop_overread hroom hc hn hfull hshort] at h
    cases h
  | case7 tmp pendingSep c rest hroom hc n hn hfull hshort ih =>
    rw [loop_char hroom hc hn hfull hshort] at h
    obtain ⟨hpre, hmem⟩ := ih h
    refine ⟨(prefix_append _ _).trans hpre, fun b hb => ?_⟩
    rcases hmem b hb with hb | hb | hb
    · rcases mem_append.1 hb with hb | hb
      · exact .inl hb
      rcases List.mem_cons.1 hb with rfl | hb
      · exact .inr (.inr mem_cons_self)
      · exact .inr (.inr (mem_cons_of_mem _ (mem_of_mem_take hb)))
    · exact .inr (.inl hb)
    · exact .inr (.inr (mem_cons_of_mem _ (mem_of_mem_drop hb)))
  | case8 tmp pendingSep c rest hfull =>
    rw [sanitizeLoop, if_neg hfull] at h
    obtain rfl := some.inj h
    exact ⟨prefix_rfl, fun b hb => .inl hb⟩

theorem loop_length {written : Bytes} (hlen : tmp.length ≤ httpDownloadFilenameMax)
    (h : sanitizeLoop tmp pendingSep rest = some written) :
    written.length ≤ httpDownloadFilenameMax := by
  induction tmp, pendingSep, rest using sanitizeLoop.induct with
  | case1 tmp pendingSep =>
    rw [sanitizeLoop] at h
    exact some.inj h ▸ hlen
  | case2 tmp pendingSep c rest hroom hc hsep ih =>
    rw [sanitizeLoop, if_pos hroom, if_pos hc, if_pos hsep] at h
    refine ih ?_ h
    rw [length_append]
    exact hroom
  | case3 tmp pendingSep c rest hroom hc hsep ih =>
    rw [sanitizeLoop, if_pos hroom, if_pos hc, if_neg hsep] at h
    exact ih hlen h
  | case4 tmp pendingSep c rest hroom hc hn ih =>
    rw [sanitizeLoop, if_pos hroom, if_neg hc, hn] at h
    exact ih hlen h
  | case5 tmp pendingSep c rest hroom hc n hn hfull =>
    rw [sanitizeLoop, if_pos hroom, if_neg hc, hn] at h
    exact some.inj ((if_pos hfull).symm.trans h) ▸ hlen
  | case6 tmp pendingSep c rest hroom hc n hn hfull hshort =>
    rw [loop_overread hroom hc hn hfull hshort] at h
    cases h
  | case7 tmp pendingSep c rest hroom hc n hn hfull hshort ih =>
    rw [loop_char hroom hc hn hfull hshort] at h
    refine ih ?_ h
    rw [length_append, length_cons, length_take]
    omega
  | case8 tmp pendingSep c rest hfull =>
    rw [sanitizeLoop, if_neg hfull] at h
    exact some.inj h ▸ hlen

/-- A character that fits and is not sound leaves a forbidden byte in the name, unless the loop
    runs past the terminator. -/
theorem loop_unsound {written : Bytes} (h : ¬ SoundFrom tmp.length pendingSep (pieces rest))
    (hloop : sanitizeLoop tmp pendingSep rest = some written) :
    ∃ b ∈ written, httpFilenameForbiddenChar b = true := by
  induction tmp, pendingSep, rest using sanitizeLoop.induct with
  | case1 tmp pendingSep =>
    refine absurd ?_ h
    intro before lead following after hps
    rw [pieces] at hps
    simp at hps
  | case2 tmp pendingSep c rest hroom hc hsep ih =>
    rw [pieces, if_pos hc, soundFrom_forbidden] at h
    rw [sanitizeLoop, if_pos hroom, if_pos hc, if_pos hsep] at hloop
    have hpending : pendingSep = false := by simpa using (Bool.and_eq_true_iff.1 hsep).1
    exact ih (by simpa [hpending] using h) hloop
  | case3 tmp pendingSep c rest hroom hc hsep ih =>
    rw [pieces, if_pos hc, soundFrom_forbidden] at h
    rw [sanitizeLoop, if_pos hroom, if_pos hc, if_neg hsep] at hloop
    have hpending : pendingSep = true := by
      by_contra hp
      exact hsep (by simp [Bool.eq_false_of_not_eq_true hp, Nat.succ_le_of_lt hroom])
    exact ih (by simpa [hpending] using h) hloop
  | case4 tmp pendingSep c rest hroom hc hn ih =>
    rw [pieces, if_neg hc, hn, soundFrom_stray] at h
    rw [sanitizeLoop, if_pos hroom, if_neg hc, hn] at hloop
    exact ih h hloop
  | case5 tmp pendingSep c rest hroom hc n hn hfull =>
    refine absurd ?_ h
    rw [pieces, if_neg hc, hn, soundFrom_char]
    exact ⟨fun hfit => absurd hfit (by omega), soundFrom_full (by omega) _ _⟩
  | case6 tmp pendingSep c rest hroom hc n hn hfull hshort =>
    rw [loop_overread hroom hc hn hfull hshort] at hloop
    cases hloop
  | case7 tmp pendingSep c rest hroom hc n hn hfull hshort ih =>
    rw [loop_char hroom hc hn hfull hshort] at hloop
    rw [pieces, if_neg hc, hn, soundFrom_char] at h
    have htake : (rest.take n).length + 1 = httpUtf8CharLen c := by
      rw [length_take, hn]
      omega
    by_cases hsound : Sound c (rest.take n)
    · have hlen : (tmp ++ c :: rest.take n).length = tmp.length + httpUtf8CharLen c := by
        rw [length_append, length_cons, htake]
      exact ih (fun hrest => h ⟨fun _ => hsound, hlen ▸ hrest⟩) hloop
    · obtain ⟨b, hb, hforbidden⟩ : ∃ b ∈ rest.take n, httpFilenameForbiddenChar b = true := by
        by_contra hnone
        push Not at hnone
        exact hsound ⟨htake, fun b hb => Bool.eq_false_of_not_eq_true (hnone b hb)⟩
      refine ⟨b, (loop_mem hloop).1.subset ?_, hforbidden⟩
      exact mem_append_right _ (mem_cons_of_mem _ hb)
  | case8 tmp pendingSep c rest hfull => exact absurd (soundFrom_full (not_lt.1 hfull) _ _) h

/-! ## The tail and the suffix -/

variable {b : UInt8}

theorem forbidden_not_separator (h : httpFilenameForbiddenChar b = true) :
    isSeparator b = false := by
  by_contra hb
  rw [Bool.not_eq_false] at hb
  unfold isSeparator at hb
  simp only [Bool.or_eq_true, decide_eq_true_eq] at hb
  rcases hb with (rfl | rfl) | rfl <;> exact absurd h (by decide)

theorem mem_rdropWhile {p : UInt8 → Bool} {s : Bytes} (hb : b ∈ s) (hp : p b = false) :
    b ∈ s.rdropWhile p := by
  rw [List.rdropWhile, mem_reverse]
  rw [← mem_reverse, ← takeWhile_append_dropWhile (p := p) (l := s.reverse)] at hb
  rcases mem_append.1 hb with hb | hb
  · exact absurd (mem_takeWhile_imp hb) (by simp [hp])
  · exact hb

theorem hasTsSuffix_append (s : Bytes) : httpFilenameHasTsSuffix (s ++ ascii ".ts") = true := by
  have hdrop : (s ++ ascii ".ts").drop ((s ++ ascii ".ts").length - 3) = ascii ".ts" := by
    have hlen : (s ++ ascii ".ts").length - 3 = s.length := by
      rw [length_append]
      exact Nat.add_sub_cancel _ 3
    rw [hlen, drop_left]
  unfold httpFilenameHasTsSuffix
  rw [hdrop, length_append, Bool.and_eq_true, decide_eq_true_eq, decide_eq_true_eq]
  exact ⟨Nat.le_add_left 3 _, by decide⟩

/-- The name without its tail, with the suffix it has or gets. -/
def suffixed (core : Bytes) : Bytes :=
  if httpFilenameHasTsSuffix core then core else core ++ ascii ".ts"

variable (core : Bytes)

theorem suffixed_hasTs : httpFilenameHasTsSuffix (suffixed core) = true := by
  unfold suffixed
  split
  · assumption
  · exact hasTsSuffix_append core

theorem suffixed_length : (suffixed core).length ≤ core.length + 3 := by
  unfold suffixed
  split
  · omega
  · exact (length_append ..).le

theorem mem_suffixed {core : Bytes} (h : b ∈ suffixed core) : b ∈ core ∨ b ∈ ascii ".ts" := by
  unfold suffixed at h
  split at h
  · exact .inl h
  · exact mem_append.1 h

theorem subset_suffixed : core ⊆ suffixed core := by
  unfold suffixed
  split
  · exact List.Subset.refl _
  · exact subset_append_left _ _

/-- The room left in `tmp` is never needed, and no NUL cuts the name short. -/
theorem tail_eq (hlen : tmp.length ≤ httpDownloadFilenameMax) (hnul : 0 ∉ tmp) (outputSize : ℕ) :
    sanitizeTail tmp outputSize = if tmp.rdropWhile isSeparator = [] then .refused
      else if (suffixed (tmp.rdropWhile isSeparator)).length + 1 > outputSize then .refused
      else .written (suffixed (tmp.rdropWhile isSeparator)) := by
  have hcore : (tmp.rdropWhile isSeparator).length ≤ httpDownloadFilenameMax :=
    ( rdropWhile_prefix isSeparator tmp).length_le.trans hlen
  have hroom : ¬ (tmp.rdropWhile isSeparator).length + 3 ≥ httpDownloadFilenameMax + 8 := by omega
  have hname : cstr (suffixed (tmp.rdropWhile isSeparator)) =
      suffixed (tmp.rdropWhile isSeparator) := by
    refine takeWhile_eq_self_iff.2 fun b hb => ?_
    rw [decide_eq_true_eq]
    rintro rfl
    rcases mem_suffixed hb with hb | hb
    · exact hnul (( rdropWhile_prefix isSeparator tmp).subset hb)
    · exact absurd hb (by decide)
  unfold sanitizeTail
  simp only [if_neg hroom]
  unfold suffixed at hname ⊢
  rw [hname]

theorem tail_inside (tmp : Bytes) (outputSize : ℕ) : sanitizeTail tmp outputSize ≠ .overread := by
  unfold sanitizeTail
  dsimp only
  intro hover
  split at hover
  · cases hover
  generalize cstr _ = name at hover
  split at hover
  · cases hover
  · cases hover

/-! ## The header line -/

variable {filename : Bytes}

theorem encodeName_eq {encoded output : Bytes} (h : encodeName encoded filename = some output) :
    output = encoded ++ encode httpIsRfc5987AttrChar filename := by
  induction filename generalizing encoded with
  | nil =>
    rw [encodeName] at h
    rw [encode_nil, append_nil]
    exact (some.inj h).symm
  | cons c rest ih =>
    rw [encodeName] at h
    split at h
    · cases h
    · rw [ih h, encode_cons, append_assoc]

theorem mem_asciiName (h : b ∈ asciiName filename) :
    b ∈ filename ∨ b = underscore ∨ b ∈ ascii "download.ts" := by
  unfold asciiName at h
  split at h
  · obtain ⟨c, hc, hb⟩ := List.mem_map.1 (mem_of_mem_take h)
    split at hb
    · exact .inr (.inl hb.symm)
    · exact .inl (hb ▸ mem_of_mem_filter hc)
  · exact .inr (.inr h)

theorem printInto_eq {size : ℕ} {text output : Bytes} (h : printInto size text = some output) :
    output = text := by
  unfold printInto at h
  split at h
  · cases h
  · exact (some.inj h).symm

/-- One line: its only CR and its only LF are its end. -/
def OneLine (line : Bytes) : Prop := ∃ body, line = body ++ nameLineEnd ∧ 0x0D ∉ body ∧ 0x0A ∉ body

theorem header_oneLine {line : Bytes} {outputSize : ℕ} (hname : ∀ b ∈ nameLineEnd, b ∉ filename)
    (h : httpBuildContentDispositionHeader filename outputSize = some line) : OneLine line := by
  have hencode : ∀ b ∈ nameLineEnd, b ∉ encode httpIsRfc5987AttrChar filename := by
    intro b hb
    have hall : ∀ c ∈ nameLineEnd, httpIsRfc5987AttrChar c = false ∧ c ≠ percent ∧
        c ∉ (List.range 16).map hexChar := by decide +kernel
    obtain ⟨hsafe, hpercent, hdigit⟩ := hall b hb
    exact not_mem_encode hsafe hpercent hdigit filename
  have hascii : ∀ b ∈ nameLineEnd, b ∉ asciiName filename := by
    intro b hb hmem
    have hall : ∀ c ∈ nameLineEnd, c ≠ underscore ∧ c ∉ ascii "download.ts" := by decide +kernel
    rcases mem_asciiName hmem with hmem | hmem | hmem
    · exact hname b hb hmem
    · exact (hall b hb).1 hmem
    · exact (hall b hb).2 hmem
  have hcr : (0x0D : UInt8) ∈ nameLineEnd := by decide
  have hlf : (0x0A : UInt8) ∈ nameLineEnd := by decide
  unfold httpBuildContentDispositionHeader at h
  split at h
  · cases h
  split at h
  · obtain rfl := printInto_eq h
    refine ⟨_, rfl, ?_, ?_⟩
    · simp only [mem_append, not_or]
      exact ⟨⟨by decide, hname _ hcr⟩, by decide⟩
    · simp only [mem_append, not_or]
      exact ⟨⟨by decide, hname _ hlf⟩, by decide⟩
  · obtain ⟨encoded, henc, h⟩ := Option.bind_eq_some_iff.1 h
    obtain rfl := printInto_eq h
    obtain rfl := encodeName_eq henc
    refine ⟨_, rfl, ?_, ?_⟩
    · simp only [mem_append, nil_append, not_or]
      exact ⟨⟨⟨by decide, hascii _ hcr⟩, by decide⟩, hencode _ hcr⟩
    · simp only [mem_append, nil_append, not_or]
      exact ⟨⟨⟨by decide, hascii _ hlf⟩, by decide⟩, hencode _ hlf⟩

/-! ## Names that inject nothing -/

/-- What is promised of the name made of `input`, for every size of the buffers. -/
structure NameSafe (input : Bytes) : Prop where
  inside : ∀ size, httpSanitizeDownloadFilename input size ≠ .overread
  clean : ∀ size output, httpSanitizeDownloadFilename input size = .written output →
    ∀ b ∈ output, httpFilenameForbiddenChar b = false
  suffix : ∀ size output, httpSanitizeDownloadFilename input size = .written output →
    httpFilenameHasTsSuffix output = true
  fits : ∀ size output, httpSanitizeDownloadFilename input size = .written output →
    output.length ≤ httpDownloadFilenameMax + 3
  header : ∀ size output, httpSanitizeDownloadFilename input size = .written output →
    ∀ lineSize line, httpBuildContentDispositionHeader output lineSize = some line → OneLine line

theorem written_cases {input output : Bytes} {size : ℕ} (hnul : 0 ∉ input)
    (h : httpSanitizeDownloadFilename input size = .written output) :
    ∃ tmp, sanitizeLoop [] true input = some tmp ∧
      tmp.length ≤ httpDownloadFilenameMax ∧ output = suffixed (tmp.rdropWhile isSeparator) := by
  unfold httpSanitizeDownloadFilename at h
  split at h
  · cases h
  split at h
  · cases h
  · rename_i tmp hloop
    have hlen := loop_length (Nat.zero_le _) hloop
    have hnul' : 0 ∉ tmp := fun hmem => by
      rcases (loop_mem hloop).2 0 hmem with hmem | hmem | hmem
      · cases hmem
      · exact absurd hmem (by decide)
      · exact hnul hmem
    rw [tail_eq hlen hnul'] at h
    split at h
    · cases h
    split at h
    · cases h
    · exact ⟨tmp, hloop, hlen, (Sanitized.written.inj h).symm⟩

theorem written_of_forbidden {input : Bytes} (hnul : 0 ∉ input)
    (hloop : sanitizeLoop [] true input = some tmp) (hb : b ∈ tmp)
    (hforbidden : httpFilenameForbiddenChar b = true) :
    ∃ output, httpSanitizeDownloadFilename input (httpDownloadFilenameMax + 8) = .written output ∧
      b ∈ output := by
  have hlen := loop_length (Nat.zero_le _) hloop
  have hnul' : 0 ∉ tmp := fun hmem => by
    rcases (loop_mem hloop).2 0 hmem with hmem | hmem | hmem
    · cases hmem
    · exact absurd hmem (by decide)
    · exact hnul hmem
  have hcore : b ∈ tmp.rdropWhile isSeparator :=
    mem_rdropWhile hb (forbidden_not_separator hforbidden)
  have hfits : (suffixed (tmp.rdropWhile isSeparator)).length ≤ httpDownloadFilenameMax + 3 := by
    have hcut := ( rdropWhile_prefix isSeparator tmp).length_le
    have hsuffixed := suffixed_length (tmp.rdropWhile isSeparator)
    omega
  refine ⟨suffixed (tmp.rdropWhile isSeparator), ?_, subset_suffixed _ hcore⟩
  unfold httpSanitizeDownloadFilename
  rw [if_neg (by decide), hloop]
  simp only []
  rw [tail_eq hlen hnul', if_neg (ne_nil_of_mem hcore), if_neg (by omega)]

/-- A download name injects nothing exactly when each of its characters that fits is followed
    by the bytes it announces and none of them is forbidden. -/
theorem nameSafe_iff {input : Bytes} (hnul : 0 ∉ input) :
    NameSafe input ↔ SoundFrom 0 true (pieces input) := by
  constructor
  · intro h
    by_contra hunsound
    cases hloop : sanitizeLoop [] true input with
    | none =>
      refine h.inside (httpDownloadFilenameMax + 8) ?_
      unfold httpSanitizeDownloadFilename
      rw [if_neg (by decide), hloop]
    | some tmp =>
      have hunsoundNil : ¬ SoundFrom ([] : Bytes).length true (pieces input) := hunsound
      obtain ⟨b, hb, hforbidden⟩ := loop_unsound hunsoundNil hloop
      obtain ⟨output, houtput, hmem⟩ := written_of_forbidden hnul hloop hb hforbidden
      exact absurd (hforbidden.symm.trans (h.clean _ output houtput b hmem)) (by decide)
  · intro h
    have hnil : SoundFrom ([] : Bytes).length true (pieces input) := h
    obtain ⟨tmp, hloop, hclean⟩ := loop_sound hnil (by simp)
    have hwritten : ∀ size output, httpSanitizeDownloadFilename input size = .written output →
        output = suffixed (tmp.rdropWhile isSeparator) ∧
          output.length ≤ httpDownloadFilenameMax + 3 ∧
          ∀ b ∈ output, httpFilenameForbiddenChar b = false := by
      intro size output houtput
      obtain ⟨tmp', hloop', hlen, rfl⟩ := written_cases hnul houtput
      obtain rfl := some.inj (hloop.symm.trans hloop')
      have hcut := rdropWhile_prefix isSeparator tmp
      refine ⟨rfl, ?_, fun b hb => ?_⟩
      · have hsuffixed := suffixed_length (tmp.rdropWhile isSeparator)
        have hcutLen := hcut.length_le
        omega
      · rcases mem_suffixed hb with hb | hb
        · exact hclean b (hcut.subset hb)
        · have hall : ∀ c ∈ ascii ".ts", httpFilenameForbiddenChar c = false := by decide +kernel
          exact hall b hb
    constructor
    · intro size hover
      unfold httpSanitizeDownloadFilename at hover
      rw [hloop] at hover
      split at hover
      · cases hover
      · exact tail_inside tmp size hover
    · exact fun size output houtput => (hwritten size output houtput).2.2
    · intro size output houtput
      rw [(hwritten size output houtput).1]
      exact suffixed_hasTs _
    · exact fun size output houtput => (hwritten size output houtput).2.1
    · intro size output houtput lineSize line hline
      refine header_oneLine (fun b hb hmem => ?_) hline
      have hall : ∀ c ∈ nameLineEnd, httpFilenameForbiddenChar c = true := by decide +kernel
      have hallowed := (hwritten size output houtput).2.2 b hmem
      exact absurd ((hall b hb).symm.trans hallowed) (by decide)

/-- A name of Japanese characters is sound. -/
theorem nameSafe_characters : 0 ∉ ([0xE3, 0x83, 0x86, 0xE3, 0x83, 0xAC] : Bytes) ∧
      (NameSafe [0xE3, 0x83, 0x86, 0xE3, 0x83, 0xAC] ↔
        SoundFrom 0 true (pieces [0xE3, 0x83, 0x86, 0xE3, 0x83, 0xAC])) :=
  ⟨by decide, nameSafe_iff (by decide)⟩

/-- `a`, a three-byte lead, CR and LF: the line end is copied as part of the character. -/
def splitName : Bytes := [0x61, 0xE3, 0x0D, 0x0A]

theorem splitName_written : httpSanitizeDownloadFilename splitName (httpDownloadFilenameMax + 8) =
    .written ([0x61, 0xE3, 0x0D, 0x0A] ++ ascii ".ts") := by
  have hfirst : sanitizeLoop [] true splitName = sanitizeLoop [0x61] false [0xE3, 0x0D, 0x0A] :=
    loop_char (n := 0) (by decide) (by decide) (by decide) (by decide) (by decide)
  have hsecond : sanitizeLoop [0x61] false [0xE3, 0x0D, 0x0A] = sanitizeLoop splitName false [] :=
    loop_char (n := 2) (by decide) (by decide) (by decide) (by decide) (by decide)
  have hloop : sanitizeLoop [] true splitName = some splitName := by
    rw [hfirst, hsecond, sanitizeLoop]
  unfold httpSanitizeDownloadFilename
  rw [hloop]
  decide

/-- The header line made of it, with `_` in place of the lead. -/
def splitLine : Bytes :=
  ascii "Content-Disposition: attachment; filename=\"a_" ++ nameLineEnd ++
    ascii ".ts\"; filename*=UTF-8''a%E3%0D%0A.ts" ++ nameLineEnd

/-- The header of that name has a second line. -/
theorem line_injected : ¬ NameSafe splitName := by
  intro h
  have hline : httpBuildContentDispositionHeader ([0x61, 0xE3, 0x0D, 0x0A] ++ ascii ".ts") 768 =
      some splitLine := by decide
  obtain ⟨body, hbody, hcr, -⟩ := h.header _ _ splitName_written 768 splitLine hline
  have hcount : splitLine.count 0x0D = body.count 0x0D + nameLineEnd.count 0x0D := by
    rw [hbody, count_append]
  rw [count_eq_zero.2 hcr] at hcount
  exact absurd hcount (by decide)

end Apackage.Rtp2httpd
