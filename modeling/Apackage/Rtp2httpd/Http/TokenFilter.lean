import Apackage.Lib.Run
import Apackage.Rtp2httpd.Http.Request

/-
  The access token is not forwarded upstream.

  A client sends a request in pieces; `receive` appends a piece to the input and parses
  (`connection_handle_read`). The header text that is kept for the upstream is free of the token
  when neither of the two readers of the token finds it in one of its lines (`TokenFree`).
-/

namespace Apackage.Rtp2httpd

open List Option Lib.Fields Lib.Run

/-! ## Occurrences of the marker -/

variable {s needle t : Bytes}

theorem isPrefix_of_append {x : UInt8} (hx : x ∉ needle) (h : needle <+: s ++ x :: t) :
    needle <+: s := by
  induction needle generalizing s with
  | nil => exact nil_prefix
  | cons k needle ih =>
    cases s with
    | nil =>
      obtain ⟨hk, -⟩ := cons_prefix_cons.1 h
      exact absurd (hk ▸ mem_cons_self) hx
    | cons c s =>
      grind

variable {key : Bytes}

theorem prefixNoCase_of_starts (h : key <+: s) : hasPrefixNoCase key s = true := by
  induction key generalizing s with
  | nil => rfl
  | cons k key ih =>
    cases s with
    | nil => cases prefix_nil.1 h
    | cons c s =>
      obtain ⟨rfl, hrest⟩ := cons_prefix_cons.1 h
      rw [hasPrefixNoCase, ih hrest]
      simp

theorem strstr_of_strcasestr (h : strcasestr needle s = none) : strstr needle s = none := by
  induction s with
  | nil => exact h
  | cons c s ih =>
    rw [strcasestr] at h
    split at h
    · cases h
    rename_i hc
    rw [strstr, if_neg fun hp => hc (prefixNoCase_of_starts hp), ih (map_eq_none_iff.1 h)]
    rfl

theorem strcasestr_take {i : ℕ} (hne : needle ≠ []) (h : strcasestr needle s = some i) :
    strcasestr needle (s.take i) = none := by
  induction s generalizing i with
  | nil => simp [strcasestr, hne]
  | cons c s ih =>
    rw [strcasestr] at h
    split at h
    · cases h
      simp [strcasestr, hne]
    rename_i hc
    obtain ⟨j, hj, rfl⟩ := map_eq_some_iff.1 h
    rw [take_succ_cons, strcasestr, if_neg, ih hj]
    · rfl
    · intro hp
      have := prefixNoCase_append hp (s.drop j)
      rw [cons_append, take_append_drop] at this
      exact hc this

theorem strstr_append {x : UInt8} (hx : x ∉ needle) (hne : needle ≠ []) (h : strstr needle s = none)
    :
    strstr needle (s ++ x :: t) = (strstr needle t).map (· + (s.length + 1)) := by
  induction s with
  | nil =>
    rw [nil_append, strstr, if_neg]
    · rfl
    · intro hp
      obtain ⟨k, needle, rfl⟩ := exists_cons_of_ne_nil hne
      exact hx ((cons_prefix_cons.1 hp).1 ▸ mem_cons_self)
  | cons c s ih =>
    rw [strstr] at h
    split at h
    · cases h
    rename_i hc
    rw [cons_append, strstr, if_neg, ih (map_eq_none_iff.1 h), Option.map_map]
    · rfl
    · intro hp
      exact hc (isPrefix_of_append hx hp)

theorem strstr_starts (h : strstr needle (s ++ t) = none) : strstr needle s = none := by
  induction s with
  | nil =>
    rw [strstr, if_neg]
    rintro rfl
    cases t <;> simp [strstr] at h
  | cons c s ih =>
    rw [cons_append, strstr] at h
    split at h
    · cases h
    rename_i hc
    rw [strstr, if_neg, ih (map_eq_none_iff.1 h)]
    · rfl
    · exact fun hp => hc (hp.trans (prefix_append (c :: s) t))

theorem extract_blank {b : UInt8} (hs : strstr uaMarker s = none) (hb : isBlank b = true)
    (after : Bytes) (n : ℕ) :
    extractR2hTokenFromUa (s ++ b :: after) n = extractR2hTokenFromUa after n := by
  have hnone : ∀ c ∈ uaMarker, isBlank c = false := by decide +kernel
  have hmem : b ∉ uaMarker := fun hm => by
    rw [hnone b hm] at hb
    cases hb
  unfold extractR2hTokenFromUa
  rw [strstr_append hmem (by decide) hs]
  cases strstr uaMarker after with
  | none => rfl
  | some i =>
    have hdrop : (s ++ b :: after).drop (i + (s.length + 1) + uaMarker.length) =
        after.drop (i + uaMarker.length) := by
      rw [show i + (s.length + 1) + uaMarker.length = s.length + (i + uaMarker.length + 1) by
        omega, drop_length_add_append, drop_succ_cons]
    simp only [map_some, hdrop]

theorem extract_drop {after : Bytes} (hafter : after.head?.all isBlank = true) (n : ℕ) :
    extractR2hTokenFromUa (after.drop 1) n = extractR2hTokenFromUa after n := by
  cases after with
  | nil => rfl
  | cons b after =>
    have hmarker : strstr uaMarker [] = none := by decide
    exact (extract_blank hmarker (by simpa using hafter) after n).symm

theorem extract_append {after : Bytes} (hs : strstr uaMarker s = none)
    (hafter : after.head?.all isBlank = true) (n : ℕ) :
    extractR2hTokenFromUa (s ++ after) n = extractR2hTokenFromUa after n := by
  cases after with
  | nil =>
    rw [append_nil, extractR2hTokenFromUa, hs]
    rfl
  | cons b after =>
    rw [extract_blank hs (by simpa using hafter), ← extract_drop hafter, drop_one, tail_cons]

/-! ## The filters -/

/-- No cookie that is written down is the one to exclude. -/
theorem filtered_cookie {cookieHeader name filtered : Bytes} {size n : ℕ}
    (h : httpFilterCookie cookieHeader name size = some filtered) :
    parseCookieValue filtered name n = none := by
  obtain rfl := writeFields_eq h
  have hkept : ∀ f ∈ kept (fun cookie => !named name cookie)
      ((cookieHeader.splitOn semicolon).map (·.dropWhile isBlank)),
      semicolon ∉ f ∧ f.dropWhile isBlank = f ∧ named name f = false := by
    intro f hf
    obtain ⟨hmem, hkeep⟩ := mem_filter.1 hf
    obtain ⟨piece, hpiece, rfl⟩ := List.mem_map.1 hmem
    refine ⟨fun hsemi => ?_, dropWhile_idempotent _ _, ?_⟩
    · exact (exists_of_mem_splitOn hpiece).1 ((dropWhile_suffix _).subset hsemi)
    · simpa using (Bool.and_eq_true_iff.1 hkeep).1
  unfold parseCookieValue
  rw [findSome?_eq_none_iff]
  intro piece hpiece
  rw [if_neg]
  generalize kept _ _ = fields at hkept hpiece
  cases fields with
  | nil =>
    rw [intercalate_nil, splitOn_nil, mem_singleton] at hpiece
    rw [hpiece]
    simp [named]
  | cons f fields =>
    have hsep : ascii "; " = [semicolon, 0x20] := rfl
    rw [hsep, intercalate_pad, splitOn_intercalate semicolon _ (cons_ne_nil _ _)] at hpiece
    · rcases List.mem_cons.1 hpiece with rfl | hpiece
      · simp [*]
      · obtain ⟨g, hg, rfl⟩ := List.mem_map.1 hpiece
        have hg' := hkept g (mem_cons_of_mem _ hg)
        rw [singleton_append, dropWhile_cons_of_pos (by decide), hg'.2.1, hg'.2.2]
        simp
    · intro g hg
      rcases List.mem_cons.1 hg with rfl | hg
      · exact (hkept g mem_cons_self).1
      · obtain ⟨f', hf', rfl⟩ := List.mem_map.1 hg
        rw [singleton_append, List.mem_cons, not_or]
        exact ⟨by decide, (hkept f' (mem_cons_of_mem _ hf')).1⟩

/-- The text behind the token that starts at a position. -/
def afterToken (userAgent : Bytes) (start : ℕ) : Bytes :=
  let rest := userAgent.drop (start + uaMarker.length)
  rest.drop (rest.takeWhile (!isBlank ·)).length

theorem afterToken_blank (userAgent : Bytes) (start : ℕ) :
    (afterToken userAgent start).head?.all isBlank = true := by
  cases h : afterToken userAgent start with
  | nil => rfl
  | cons c after => simpa using (scan_cons h).1

theorem filter_token {userAgent : Bytes} {start : ℕ}
    (h : strcasestr uaMarker userAgent = some start) (n : ℕ) :
    httpFilterUserAgentToken userAgent n = (let before := userAgent.take start
       let after := afterToken userAgent start
       let filtered :=
         if before.getLast?.any isBlank then before.dropLast ++ after else before ++ after.drop 1
       if n ≤ filtered.length then none else some filtered) := by
  have hlen : start < userAgent.length := by
    have hle := prefixNoCase_length (strcasestr_starts h)
    have hpos : 0 < uaMarker.length := by decide
    rw [length_drop] at hle
    omega
  unfold httpFilterUserAgentToken
  rw [h]
  dsimp only
  set tokenEnd := start + uaMarker.length +
    ((userAgent.drop (start + uaMarker.length)).takeWhile (!isBlank ·)).length
  have hafter : userAgent.drop tokenEnd = afterToken userAgent start := by
    rw [afterToken, drop_drop]
  have hhead : userAgent[tokenEnd]? = (afterToken userAgent start).head? := by
    rw [← hafter, head?_drop]
  have hlast : (0 < start && (userAgent[start - 1]?).any isBlank) =
      (userAgent.take start).getLast?.any isBlank := by
    rw [getLast?_take]
    by_cases hz : start = 0
    · simp [hz]
    · grind
  rw [hlast, hhead]
  by_cases hlead : (userAgent.take start).getLast?.any isBlank = true
  · have hbefore : userAgent.take (start - 1) = (userAgent.take start).dropLast :=
      (dropLast_take (by omega)).symm
    simp only [hlead, if_true, Bool.not_true, Bool.false_and, Bool.false_eq_true, if_false]
    rw [hafter, hbefore]
  · rw [Bool.not_eq_true] at hlead
    simp only [hlead, Bool.false_eq_true, if_false, Bool.not_false, Bool.true_and]
    cases hafter' : afterToken userAgent start with
    | nil =>
      simp [*]
    | cons b after =>
      have hb : isBlank b = true := by
        have := afterToken_blank userAgent start
        rw [hafter'] at this
        simpa using this
      simp only [head?_cons, any_some, hb, if_true]
      rw [← drop_drop, hafter, hafter']

/-! ## Header lines -/

/-- The lines of the kept header text, as `http_proxy_append_raw_headers` splits it. -/
def rawLines : Bytes → List Bytes
  | [] => []
  | [_] => []
  | a :: b :: rest =>
    if a = CR ∧ b = LF then [] :: rawLines rest
    else
      match rawLines (b :: rest) with
      | [] => []
      | line :: lines => (a :: line) :: lines

theorem rawLines_cons {line : Bytes} (h : CR ∉ line) (rest : Bytes) :
    rawLines (line ++ CR :: LF :: rest) = line :: rawLines rest := by
  induction line with
  | nil => simp [rawLines]
  | cons a line ih =>
    rw [List.mem_cons, not_or] at h
    have hrest := ih h.2
    cases line with
    | nil =>
      rw [nil_append] at hrest
      simp [rawLines, Ne.symm h.1]
    | cons b line =>
      rw [cons_append] at hrest
      rw [cons_append, cons_append, rawLines, if_neg fun hc => h.1 hc.1.symm, hrest]

/-- Text that consists of lines. -/
def textOf (lines : List Bytes) : Bytes := lines.flatMap (· ++ [CR, LF])

theorem rawLines_textOf {lines : List Bytes} (h : ∀ line ∈ lines, CR ∉ line) :
    rawLines (textOf lines) = lines := by
  induction lines with
  | nil => rfl
  | cons line lines ih =>
    rw [textOf, flatMap_cons, append_assoc]
    exact (rawLines_cons (h line mem_cons_self) _).trans
      (congrArg (line :: ·) (ih fun l hl => h l (mem_cons_of_mem _ hl)))

def lineName (line : Bytes) : Bytes := line.takeWhile (· ≠ 0x3A)

/-- The value of a line, behind the name and `: `. -/
def lineValue (line : Bytes) : Bytes := line.drop ((lineName line).length + 2)

/-- No reader finds the token in a header. -/
def HeaderFree (name value : Bytes) : Prop :=
  (nameIs name (ascii "Cookie") = true → parseCookieValue value (ascii "r2h-token") 256 = none) ∧
    (nameIs name (ascii "User-Agent") = true → extractR2hTokenFromUa value 256 = none)
  deriving Decidable

/-- No reader finds the token in a line of the text. -/
def TokenFree (rawHeaders : Bytes) : Prop :=
  ∀ line ∈ rawLines rawHeaders, HeaderFree (lineName line) (lineValue line)
  deriving Decidable

/-- The kept text consists of whole lines. -/
def Complete (rawHeaders : Bytes) : Prop :=
  ∃ lines, rawHeaders = textOf lines ∧ ∀ line ∈ lines, CR ∉ line

theorem lineName_line {name : Bytes} (h : 0x3A ∉ name) (value : Bytes) :
    lineName (name ++ ascii ": " ++ value) = name := by
  have hall : ∀ c ∈ name, decide (c ≠ 0x3A) = true := by
    intro c hc
    rw [decide_eq_true_eq]
    rintro rfl
    exact h hc
  unfold lineName
  rw [append_assoc, takeWhile_append_of_pos hall]
  exact append_nil name

theorem lineValue_line {name : Bytes} (h : 0x3A ∉ name) (value : Bytes) :
    lineValue (name ++ ascii ": " ++ value) = value := by
  unfold lineValue
  rw [lineName_line h]
  exact drop_left' (by rw [length_append]; rfl)

/-- The text has room for a line with a value of this length. -/
def Fits (req : HttpRequest) (name : Bytes) (valueLength : ℕ) : Prop :=
  req.rawHeaders.length + (name.length + 2 + valueLength + 2) < rawHeadersSize - 1
  deriving Decidable

section Append

variable {req : HttpRequest} {name value : Bytes}

theorem append_complete (hraw : Complete req.rawHeaders) (hname : CR ∉ name) (hvalue : CR ∉ value) :
    Complete (httpRequestAppendRawHeader req name value).rawHeaders := by
  obtain ⟨lines, htext, hlines⟩ := hraw
  unfold httpRequestAppendRawHeader
  split
  · exact ⟨lines, htext, hlines⟩
  split
  · exact ⟨lines, htext, hlines⟩
  · refine ⟨lines ++ [name ++ ascii ": " ++ value], by simp [htext, textOf], fun line hline => ?_⟩
    rcases mem_append.1 hline with hline | hline
    · exact hlines line hline
    · rw [mem_singleton.1 hline, mem_append, mem_append, not_or, not_or]
      exact ⟨⟨hname, by decide⟩, hvalue⟩

theorem append_tokenFree (hraw : Complete req.rawHeaders) (hcolon : 0x3A ∉ name)
    (hname : CR ∉ name) (hvalue : CR ∉ value) :
    TokenFree (httpRequestAppendRawHeader req name value).rawHeaders ↔
      TokenFree req.rawHeaders ∧ (value ≠ [] → Fits req name value.length → HeaderFree name value) := by
  obtain ⟨lines, htext, hlines⟩ := hraw
  unfold httpRequestAppendRawHeader
  by_cases hnil : value = []
  · simp [hnil]
  rw [if_neg hnil]
  by_cases hfull : rawHeadersSize - 1 ≤ req.rawHeaders.length + (name.length + 2 + value.length + 2)
  · rw [if_pos hfull]
    simp [Fits, hnil, Nat.not_lt.2 hfull]
  · have hfits : Fits req name value.length := Nat.lt_of_not_ge hfull
    have hline : CR ∉ name ++ ascii ": " ++ value := by
      rw [mem_append, mem_append, not_or, not_or]
      exact ⟨⟨hname, by decide⟩, hvalue⟩
    have hmore : req.rawHeaders ++ (name ++ ascii ": " ++ value ++ [CR, LF]) =
        textOf (lines ++ [name ++ ascii ": " ++ value]) := by
      simp [htext, textOf]
    rw [if_neg hfull]
    unfold TokenFree
    rw [hmore, htext, rawLines_textOf hlines, rawLines_textOf, forall_mem_append,
      forall_mem_singleton, lineName_line hcolon, lineValue_line hcolon]
    · simp [hnil, hfits]
    · intro line hmem
      rcases mem_append.1 hmem with hmem | hmem
      · exact hlines line hmem
      · rw [mem_singleton.1 hmem]
        exact hline

end Append

/-! ## One header -/

/-- What the filter leaves of a User-Agent value holds no token, or goes nowhere: around the
    first place where the marker stands, in any case. -/
def UserAgentClean (req : HttpRequest) (name value : Bytes) : Prop :=
  let text := value.take (httpCookieBufferSize - 1)
  ∀ start, strcasestr uaMarker text = some start → let before := text.take start
    let after := afterToken text start
    if before = [] ∧ after = [] then
      -- the token alone: the filter returns nothing and the value is kept as it is
      Fits req name value.length → extractR2hTokenFromUa value 256 = none
    else if before = [] ∨ before.getLast?.any isBlank then
      -- the token stands apart: a second one stays
      Fits req name (before.length + after.length - 1) → extractR2hTokenFromUa after 256 = none
    else
      -- what stands before it and what follows it are joined
      Fits req name (before.length + (after.length - 1)) →
        extractR2hTokenFromUa (before ++ after.drop 1) 256 = none
  deriving Decidable

/-- The condition on a header in the state before it is consumed. -/
def HeaderClean (req : HttpRequest) (header : PhrHeader) : Prop :=
  ∀ name, header.name = some name → nameIs name (ascii "User-Agent") = true →
    UserAgentClean req name header.value
  deriving Decidable

theorem nameIs_iff {name : Bytes} :
    nameIs name key = true ↔ name.map toLower = key.map toLower := by
  have hstart : ∀ key name : Bytes, name.length = key.length →
      (hasPrefixNoCase key name = true ↔ name.map toLower = key.map toLower) := by
    intro key
    induction key with
    | nil =>
      intro name hlen
      rw [length_eq_zero_iff.1 hlen]
      simp [hasPrefixNoCase]
    | cons k key ih =>
      intro name hlen
      cases name with
      | nil => cases hlen
      | cons c name =>
        rw [hasPrefixNoCase, Bool.and_eq_true, decide_eq_true_eq, ih name (Nat.succ.inj hlen),
          map_cons, map_cons, cons_eq_cons, eq_comm]
  unfold nameIs
  rw [Bool.and_eq_true, decide_eq_true_eq]
  constructor
  · rintro ⟨hlen, h⟩
    exact (hstart key name hlen).1 h
  · intro h
    have hlen : name.length = key.length := by simpa using congrArg List.length h
    exact ⟨hlen, (hstart key name hlen).2 h⟩

theorem nameIs_unique {name key' : Bytes} (h : nameIs name key = true)
    (h' : nameIs name key' = true) : key.map toLower = key'.map toLower :=
  (nameIs_iff.1 h).symm.trans (nameIs_iff.1 h')

theorem setHeaderField_rawHeaders (req : HttpRequest) (name value : Bytes) :
    (setHeaderField req name value).rawHeaders = req.rawHeaders := by
  simp [setHeaderField, apply_ite HttpRequest.rawHeaders, ite_self]

section UserAgent

variable {req : HttpRequest} {name value : Bytes}

theorem headerFree_userAgent (hagent : nameIs name (ascii "User-Agent") = true) (text : Bytes) :
    HeaderFree name text ↔ extractR2hTokenFromUa text 256 = none := by
  unfold HeaderFree
  rw [and_iff_right, imp_iff_right hagent]
  intro hcookie
  exact absurd (nameIs_unique hagent hcookie) (by decide)

def keptValue (value : Bytes) (filtered : Option Bytes) : Bytes :=
  match filtered with
  | some (c :: filtered) => c :: filtered
  | _ => value

theorem userAgent_keptValue (hraw : Complete req.rawHeaders) (hcolon : 0x3A ∉ name)
    (hname : CR ∉ name) (hagent : nameIs name (ascii "User-Agent") = true) {text : Bytes}
    (htext : CR ∉ text) (hne : text ≠ []) :
    TokenFree (httpRequestAppendRawHeader req name text).rawHeaders ↔ TokenFree req.rawHeaders ∧
        (Fits req name text.length → extractR2hTokenFromUa text 256 = none) := by
  rw [append_tokenFree hraw hcolon hname htext, imp_iff_right hne, headerFree_userAgent hagent]

/-- The value kept for a User-Agent line leaves the text free of the token exactly when it is
    clean. -/
theorem userAgent_tokenFree (hraw : Complete req.rawHeaders) (hcolon : 0x3A ∉ name)
    (hname : CR ∉ name) (hvalue : CR ∉ value) (hfirst : value.head?.any isBlank = false)
    (hlast : value.getLast?.any isBlank = false)
    (hagent : nameIs name (ascii "User-Agent") = true) :
    TokenFree (httpRequestAppendRawHeader req name (keptValue value
        (httpFilterUserAgentToken (value.take (httpCookieBufferSize - 1))
          httpCookieBufferSize))).rawHeaders ↔
      TokenFree req.rawHeaders ∧ UserAgentClean req name value := by
  unfold UserAgentClean
  dsimp only
  set text := value.take (httpCookieBufferSize - 1) with htext
  have hsize : text.length < httpCookieBufferSize := by
    rw [htext, length_take, httpCookieBufferSize]
    omega
  have hcr : ∀ f : Bytes, f ⊆ value → CR ∉ f := fun f hf hmem => hvalue (hf hmem)
  have hsub : text ⊆ value := take_subset _ _
  cases hstart : strcasestr uaMarker text with
  | none =>
    have hfilter : httpFilterUserAgentToken text httpCookieBufferSize = some text := by
      rw [httpFilterUserAgentToken, hstart]
      exact if_neg (Nat.not_le.2 hsize)
    rw [hfilter]
    cases htext' : text with
    | nil =>
      have hnil : value = [] := by
        rw [htext, take_eq_nil_iff] at htext'
        exact htext'.resolve_left (by decide)
      simp [keptValue, hnil, httpRequestAppendRawHeader]
    | cons c rest =>
      have hnone : extractR2hTokenFromUa text 256 = none := by
        rw [extractR2hTokenFromUa, strstr_of_strcasestr hstart]
      rw [htext'] at hnone hsub
      have hkept := userAgent_keptValue hraw hcolon hname hagent (hcr _ hsub) (cons_ne_nil c rest)
      rw [keptValue, hkept, hnone]
      simp
  | some start =>
    have hvalue' : value ≠ [] := by
      rintro rfl
      rw [htext, take_nil] at hstart
      cases hstart
    have hbefore : strstr uaMarker (text.take start) = none :=
      strstr_of_strcasestr (strcasestr_take (by decide) hstart)
    have hblank := afterToken_blank text start
    have hbsub : text.take start ⊆ value := List.Subset.trans (take_subset _ _) hsub
    have hasub : afterToken text start ⊆ value :=
      List.Subset.trans (drop_subset _ _) (List.Subset.trans (drop_subset _ _) hsub)
    have hhead : (text.take start).head?.any isBlank = false := by
      rw [head?_take, htext, head?_take]
      split
      · rfl
      · exact hfirst
    have htail : Fits req name value.length →
        (afterToken text start).getLast?.any isBlank = false := by
      intro hfits
      have hall : text = value := take_of_length_le (by
        rw [Fits, rawHeadersSize] at hfits
        rw [httpCookieBufferSize]
        omega)
      rw [hall, afterToken, getLast?_drop, getLast?_drop]
      split
      · rfl
      split
      · rfl
      · exact hlast
    have hlong : (text.take start).length + (afterToken text start).length ≤ text.length := by
      rw [afterToken, length_take, length_drop, length_drop]
      omega
    rw [filter_token hstart]
    simp only [Option.some.injEq, forall_eq']
    generalize text.take start = before at hbefore hbsub hhead hlong ⊢
    generalize afterToken text start = after at hblank hasub htail hlong ⊢
    have happ : ∀ f : Bytes, f ⊆ value → f ≠ [] → f.length < httpCookieBufferSize →
        (TokenFree (httpRequestAppendRawHeader req name (keptValue value
            (if httpCookieBufferSize ≤ f.length then none else some f))).rawHeaders ↔
          TokenFree req.rawHeaders ∧
            (Fits req name f.length → extractR2hTokenFromUa f 256 = none)) := by
      intro f hf hne hlt
      rw [if_neg (Nat.not_le.2 hlt), ← userAgent_keptValue hraw hcolon hname hagent (hcr f hf) hne]
      cases f with
      | nil => exact absurd rfl hne
      | cons c f => rfl
    by_cases hlead : before.getLast?.any isBlank = true
    · obtain ⟨s, b, rfl⟩ : ∃ s b, before = s ++ [b] := by
        rcases eq_nil_or_concat before with rfl | h
        · cases hlead
        · simpa using h
      have hs : s ≠ [] := by
        grind
      have hlen : (s ++ after).length = (s ++ [b]).length + after.length - 1 := by
        simp
      rw [if_pos hlead, dropLast_concat, happ (s ++ after),
        extract_append (strstr_starts hbefore) hblank, hlen, if_neg fun h => by simp at h,
        if_pos (.inr hlead)]
      · exact append_subset.2 ⟨fun c hc => hbsub (mem_append_left _ hc), hasub⟩
      · simp [hs]
      · omega
    by_cases hnil : before = []
    · subst hnil
      rw [if_neg hlead, nil_append]
      by_cases halone : after.drop 1 = []
      · have hcut : (0 : ℕ) < httpCookieBufferSize := by decide
        have hnothing : keptValue value (some []) = value := rfl
        rw [halone, length_nil, if_neg (Nat.not_le.2 hcut), hnothing,
          userAgent_keptValue hraw hcolon hname hagent hvalue hvalue']
        cases after with
        | nil => rw [if_pos ⟨rfl, rfl⟩]
        | cons b after =>
          rw [drop_one, tail_cons] at halone
          subst halone
          have hnone : extractR2hTokenFromUa [b] 256 = none :=
            (extract_drop hblank 256).symm.trans rfl
          have hnot : ¬ Fits req name value.length := fun hfits => by
            have := htail hfits
            simp at this hblank
            rw [hblank] at this
            cases this
          rw [if_neg fun h => by simp at h, if_pos (.inl rfl), hnone]
          simp [hnot]
      · have hne : ¬ (([] : Bytes) = [] ∧ after = []) := by
          rintro ⟨-, rfl⟩
          exact halone rfl
        rw [happ _ (List.Subset.trans (drop_subset _ _) hasub) halone, if_neg hne,
          if_pos (.inl rfl), extract_drop hblank, length_drop, length_nil, Nat.zero_add]
        rw [length_drop]
        omega
    · rw [if_neg hlead, happ (before ++ after.drop 1), if_neg fun h => hnil h.1,
        if_neg (by simp [hnil, hlead])]
      · rw [length_append, length_drop]
      · exact append_subset.2 ⟨hbsub, List.Subset.trans (drop_subset _ _) hasub⟩
      · simp [hnil]
      · rw [length_append, length_drop]
        omega

end UserAgent

section Header

variable {r2hToken : Bytes} {req : HttpRequest} {header : PhrHeader}

theorem token_safe {name : Bytes} (h : ∀ c ∈ name, isTokenChar c = true) :
    0x3A ∉ name ∧ CR ∉ name :=
  ⟨fun hc => absurd (h _ hc) (by decide), fun hc => absurd (h _ hc) (by decide)⟩

variable {filtered : Bytes}

theorem filtered_noCr {cookieHeader name : Bytes} {size : ℕ}
    (h : httpFilterCookie cookieHeader name size = some filtered) (hcr : CR ∉ cookieHeader) :
    CR ∉ filtered := by
  obtain rfl := writeFields_eq h
  intro hmem
  rcases mem_intercalate hmem with hsep | ⟨f, hf, hc⟩
  · exact absurd hsep (by decide)
  · obtain ⟨piece, hpiece, rfl⟩ := List.mem_map.1 (mem_of_mem_filter hf)
    obtain ⟨-, before, after, rfl, -⟩ := exists_of_mem_splitOn hpiece
    have := (dropWhile_suffix _).subset hc
    exact hcr (mem_append_right _ (mem_append_left _ this))

theorem filter_noCr {userAgent : Bytes} {size : ℕ}
    (h : httpFilterUserAgentToken userAgent size = some filtered) (hcr : CR ∉ userAgent) :
    CR ∉ filtered := by
  unfold httpFilterUserAgentToken at h
  split at h
  · obtain ⟨-, heq⟩ := ite_none_left_eq_some.1 h
    exact some.inj heq ▸ hcr
  · grind

theorem droppedHeaders_other :
    ∀ key ∈ droppedHeaders, key.map toLower ≠ (ascii "User-Agent").map toLower := by
  decide

section

variable (htoken : r2hToken ≠ [])

include htoken

theorem keepRawHeader_userAgent {name : Bytes} (hagent : nameIs name (ascii "User-Agent") = true)
    (value : Bytes) :
    keepRawHeader r2hToken req name value =
      httpRequestAppendRawHeader req name (keptValue value (httpFilterUserAgentToken
        (value.take (httpCookieBufferSize - 1)) httpCookieBufferSize)) := by
  have hdropped : ¬ droppedHeaders.any (nameIs name) = true := fun h => by
    obtain ⟨key, hkey, hnamed⟩ := List.any_eq_true.1 h
    exact droppedHeaders_other key hkey (nameIs_unique hnamed hagent)
  have hcookie : ¬ (nameIs name (ascii "Cookie") && r2hToken ≠ []) = true := fun h =>
    absurd (nameIs_unique (Bool.and_eq_true_iff.1 h).1 hagent) (by decide)
  unfold keepRawHeader
  rw [if_neg hdropped, if_neg hcookie, if_pos (by simp [hagent, htoken])]
  dsimp only [httpHeadersCopyToken]
  cases httpFilterUserAgentToken (value.take (httpCookieBufferSize - 1)) httpCookieBufferSize with
  | none => rfl
  | some filtered => cases filtered <;> rfl

theorem keepRawHeader_step (hvalid : header.Valid) {name : Bytes} (hname : header.name = some name)
    (hraw : Complete req.rawHeaders) :
    Complete (keepRawHeader r2hToken req name header.value).rawHeaders ∧
      (TokenFree (keepRawHeader r2hToken req name header.value).rawHeaders ↔
        TokenFree req.rawHeaders ∧ HeaderClean req header) := by
  obtain ⟨hcolon, hnameCr⟩ := token_safe (hvalid.name name hname)
  have hcr : CR ∉ header.value := fun hc => absurd (hvalid.value _ hc) (by decide)
  have hcut : CR ∉ header.value.take (httpCookieBufferSize - 1) :=
    fun hc => hcr (mem_of_mem_take hc)
  by_cases hagent : nameIs name (ascii "User-Agent") = true
  · have hclean : HeaderClean req header ↔ UserAgentClean req name header.value := by
      unfold HeaderClean
      rw [hname]
      simp [hagent]
    rw [keepRawHeader_userAgent htoken hagent, hclean]
    refine ⟨append_complete hraw hnameCr ?_, userAgent_tokenFree hraw hcolon hnameCr hcr
      (hvalid.first (by simp [hname])) hvalid.last hagent⟩
    unfold keptValue
    split
    · rename_i filtered hfilter
      exact filter_noCr hfilter hcut
    · exact hcr
  have hclean : HeaderClean req header := by
    intro name' hname' hagent'
    rw [hname] at hname'
    cases hname'
    exact absurd hagent' hagent
  rw [and_iff_left hclean]
  unfold keepRawHeader
  split
  · exact ⟨hraw, Iff.rfl⟩
  split
  · rename_i hcookie
    dsimp only [httpHeadersCopyToken]
    split
    · rename_i filtered hfilter
      have hfcr := filtered_noCr hfilter hcut
      refine ⟨append_complete hraw hnameCr hfcr, ?_⟩
      rw [append_tokenFree hraw hcolon hnameCr hfcr, and_iff_left]
      intro _ _
      exact ⟨fun _ => filtered_cookie hfilter, fun h => absurd h hagent⟩
    · exact ⟨hraw, Iff.rfl⟩
  rename_i hcookie
  rw [if_neg (by simp [hagent])]
  refine ⟨append_complete hraw hnameCr hcr, ?_⟩
  rw [append_tokenFree hraw hcolon hnameCr hcr, and_iff_left]
  intro _ _
  refine ⟨fun h => absurd ?_ hcookie, fun h => absurd h hagent⟩
  rw [h, decide_eq_true htoken]
  rfl

theorem consumeHeader_step (hvalid : header.Valid) (hraw : Complete req.rawHeaders) :
    Complete (httpRequestConsumeHeader r2hToken req header).rawHeaders ∧
      (TokenFree (httpRequestConsumeHeader r2hToken req header).rawHeaders ↔
        TokenFree req.rawHeaders ∧ HeaderClean req header) := by
  unfold httpRequestConsumeHeader
  cases hname : header.name with
  | none =>
    refine ⟨hraw, (and_iff_left ?_).symm⟩
    intro name hsome
    rw [hname] at hsome
    cases hsome
  | some name =>
    rw [setHeaderField_rawHeaders]
    exact keepRawHeader_step htoken hvalid hname hraw

theorem consumeHeaders_run {headers : List PhrHeader} (hvalid : ∀ header ∈ headers, header.Valid)
    (hraw : Complete req.rawHeaders) :
    Complete (run (httpRequestConsumeHeader r2hToken) req headers).rawHeaders ∧
      (TokenFree (run (httpRequestConsumeHeader r2hToken) req headers).rawHeaders ↔
        TokenFree req.rawHeaders ∧
          Along (httpRequestConsumeHeader r2hToken) HeaderClean req headers) := by
  induction headers generalizing req with
  | nil => simp [hraw]
  | cons header headers ih =>
    obtain ⟨hcomplete, hfree⟩ := consumeHeader_step htoken (hvalid header mem_cons_self) hraw
    obtain ⟨hcomplete', hfree'⟩ := ih (fun h hh => hvalid h (mem_cons_of_mem _ hh)) hcomplete
    refine ⟨hcomplete', ?_⟩
    rw [run_cons, hfree', hfree, along_cons, and_assoc]

end

end Header

/-! ## Runs -/

/-- The connection reads a piece and parses (`connection_handle_read`). -/
def receive (r2hToken : Bytes) (s : Bytes × HttpRequest) (piece : Bytes) : Bytes × HttpRequest :=
  let (inbuf, req, _) := httpParseRequest r2hToken (s.1 ++ piece) s.2
  (inbuf, req)

/-- Where a read completes the header section, its headers are clean. -/
def ReadClean (r2hToken : Bytes) (s : Bytes × HttpRequest) (piece : Bytes) : Prop :=
  s.2.parseState = .reqLine ∨ s.2.parseState = .headers →
    ∀ parsed rest, phrParseRequest (s.1 ++ piece) httpHeadersMax = .ok (parsed, rest) →
      Along (httpRequestConsumeHeader r2hToken) HeaderClean (setRequestLine s.2 parsed)
        parsed.headers

theorem parseBody_rawHeaders (inbuf : Bytes) (req : HttpRequest) :
    (parseBody inbuf req).2.1.rawHeaders = req.rawHeaders := by
  unfold parseBody
  dsimp only
  split
  · rfl
  split <;> rfl

theorem receive_step {r2hToken : Bytes} (htoken : r2hToken ≠ []) (s : Bytes × HttpRequest)
    (piece : Bytes) (hraw : Complete s.2.rawHeaders) :
    Complete (receive r2hToken s piece).2.rawHeaders ∧
      (TokenFree (receive r2hToken s piece).2.rawHeaders ↔
        TokenFree s.2.rawHeaders ∧ ReadClean r2hToken s piece) := by
  by_cases hhead : s.2.parseState = .reqLine ∨ s.2.parseState = .headers
  · cases hparse : phrParseRequest (s.1 ++ piece) httpHeadersMax with
    | error e =>
      have hclean : ReadClean r2hToken s piece := fun _ parsed rest hok => by
        rw [hparse] at hok
        cases hok
      have hreq : (receive r2hToken s piece).2 = s.2 := by
        unfold receive httpParseRequest
        rw [hparse]
        rcases hhead with h | h <;> rw [h] <;> cases e <;> dsimp only <;> split <;> rfl
      rw [hreq, and_iff_left hclean]
      exact ⟨hraw, Iff.rfl⟩
    | ok result =>
      obtain ⟨parsed, rest⟩ := result
      have hreq : (receive r2hToken s piece).2.rawHeaders =
          (run (httpRequestConsumeHeader r2hToken) (setRequestLine s.2 parsed)
            parsed.headers).rawHeaders := by
        unfold receive httpParseRequest
        rw [hparse]
        have hbody : ∀ (req : HttpRequest), (if 0 < req.contentLength then
            parseBody rest { req with parseState := .body }
            else (rest, { req with parseState := .complete }, 1)).2.1.rawHeaders =
              req.rawHeaders := by
          intro req
          split
          · exact parseBody_rawHeaders _ _
          · rfl
        rcases hhead with h | h
        · rw [h]
          exact hbody _
        · rw [h]
          exact hbody _
      have hclean : ReadClean r2hToken s piece ↔ Along (httpRequestConsumeHeader r2hToken)
          HeaderClean (setRequestLine s.2 parsed) parsed.headers := by
        unfold ReadClean
        rw [imp_iff_right hhead, hparse]
        constructor
        · simp
        · simp
      rw [hreq, hclean]
      exact consumeHeaders_run htoken (phrParseRequest_valid hparse) hraw
  · have hclean : ReadClean r2hToken s piece := fun h => absurd h hhead
    have hreq : (receive r2hToken s piece).2.rawHeaders = s.2.rawHeaders := by
      unfold receive httpParseRequest
      rw [not_or] at hhead
      cases hstate : s.2.parseState with
      | reqLine => exact absurd hstate hhead.1
      | headers => exact absurd hstate hhead.2
      | body => exact parseBody_rawHeaders _ _
      | complete => rfl
    rw [hreq, and_iff_left hclean]
    exact ⟨hraw, Iff.rfl⟩

/-- The text kept for the upstream is free of the token if and only if the headers of the
    request are clean. -/
theorem kept_tokenFree_iff {r2hToken : Bytes} (htoken : r2hToken ≠ []) (pieces : List Bytes) :
    TokenFree (run (receive r2hToken) ([], httpRequestInit) pieces).2.rawHeaders ↔
      Along (receive r2hToken) (ReadClean r2hToken) ([], httpRequestInit) pieces := by
  have hinit : TokenFree httpRequestInit.rawHeaders := by decide
  have hraw : Complete httpRequestInit.rawHeaders := ⟨[], rfl, by simp⟩
  have hrun := run_iff_along (I := fun s : Bytes × HttpRequest => Complete s.2.rawHeaders)
    (P := fun s => TokenFree s.2.rawHeaders)
    (fun s piece hraw => (receive_step htoken s piece hraw).1)
    (fun s piece hraw => (receive_step htoken s piece hraw).2)
    (s := ([], httpRequestInit)) hraw pieces
  rw [hrun.2, and_iff_right hinit]

theorem kept_tokenFree_pieces : TokenFree (run (receive (ascii "s")) ([], httpRequestInit)
        [ascii "GET / HTTP/1.1\r\nCookie: a=b; R2H-Token=s\r\nUser-", ascii "Agent: p\r\n\r\n"]).2.rawHeaders ↔
      Along (receive (ascii "s")) (ReadClean (ascii "s")) ([], httpRequestInit)
        [ascii "GET / HTTP/1.1\r\nCookie: a=b; R2H-Token=s\r\nUser-", ascii "Agent: p\r\n\r\n"] :=
  kept_tokenFree_iff (by decide) _

/-- The token alone, a second token and a token between the two parts of another one. -/
theorem token_kept : ¬ TokenFree (run (receive (ascii "s")) ([], httpRequestInit)
        [ascii "GET / HTTP/1.1\r\nUser-Agent: R2HTOKEN/s\r\n\r\n"]).2.rawHeaders ∧
      ¬ TokenFree (run (receive (ascii "s")) ([], httpRequestInit)
        [ascii "GET / HTTP/1.1\r\nUser-Agent: R2HTOKEN/s R2HTOKEN/s\r\n\r\n"]).2.rawHeaders ∧
      ¬ TokenFree (run (receive (ascii "s")) ([], httpRequestInit)
        [ascii "GET / HTTP/1.1\r\nUser-Agent: R2HTR2HTOKEN/x OKEN/s\r\n\r\n"]).2.rawHeaders := by
  decide +kernel

end Apackage.Rtp2httpd
