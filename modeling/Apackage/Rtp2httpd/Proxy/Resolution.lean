import Apackage.Lib.UriReference
import Apackage.Rtp2httpd.Proxy.Rewrite

/-
  Which references of a playlist are resolved as RFC 3986 says.

  `rewrite_url_to_proxy_format` should leave a reference with a scheme other than `http` alone and
  give any other the proxy form of the URL that the reference denotes against the request
  (`proxyForm`). It looks at `https://`, `http://` and the first byte only, and takes the directory
  from the last slash of the path and query together (`Recognized`).
-/

namespace Apackage.Rtp2httpd

open List Option Lib.UriReference

/-! ## The URL a reference denotes -/

/-- The host and port of a URL of the upstream. -/
def RewriteContext.authority (ctx : RewriteContext) : Bytes :=
  let host := if hostNeedsBrackets ctx.upstreamHost then
    openBracket :: ctx.upstreamHost ++ [closeBracket] else ctx.upstreamHost
  if ctx.upstreamPort = 80 then host else host ++ colon :: printDecimal ctx.upstreamPort

/-- The URL of the request. -/
def RewriteContext.base (ctx : RewriteContext) : Reference :=
  ⟨some (ascii "http"), some ctx.authority, pathOf ctx.upstreamPath,
    if question ∈ ctx.upstreamPath then some (queryOf ctx.upstreamPath) else none, none⟩

/-- The scheme of a reference, if it has one, is `http`. -/
def HttpOrRelative (url : Bytes) : Prop :=
  ∀ scheme ∈ schemeOf url, scheme.map toLower = ascii "http"

instance (url : Bytes) : Decidable (HttpOrRelative url) :=
  decidable_of_iff ((schemeOf url).all fun scheme => scheme.map toLower = ascii "http") (by
    simp [HttpOrRelative, Option.all_eq_true])

/-- What the rewriting of a reference should give, in buffers of the sizes of the code. -/
def proxyForm (r2hToken : Bytes) (ctx : RewriteContext) (url : Bytes) (outputSize : ℕ) :
    Option Bytes :=
  let target := recompose (resolve ctx.base (parse url))
  if ¬ HttpOrRelative url ∨ httpProxyPathSize * 2 ≤ target.length then none
  else httpProxyBuildUrl r2hToken target ctx.baseUrl outputSize

/-! ## What the code makes of it -/

/-- The authority and the directory of the request, joined with the reference. -/
def joined (ctx : RewriteContext) (url : Bytes) : Bytes :=
  ascii "http://" ++ ctx.authority ++
    (if url.head? = some slash then [] else ctx.upstreamPath.rdropWhile (· ≠ slash)) ++ url

/-- A URL or its proxy form is longer than the buffers. -/
def Overflows (r2hToken : Bytes) (ctx : RewriteContext) (outputSize : ℕ) (target : Bytes) : Prop :=
  httpProxyPathSize * 2 ≤ target.length ∨
    outputSize ≤ (ctx.baseUrl ++ ascii "http/" ++ target.drop 7 ++
      tokenQuery r2hToken (target.drop 7)).length

/-- The references that the code takes for what they are: `http://` and `https://` URLs, and
    without a scheme those with one slash in front, and others if the last slash of the request
    is where the reference goes. -/
def Recognized (ctx : RewriteContext) (url : Bytes) : Prop :=
  if (schemeOf url).isSome then
    if HttpOrRelative url then hasPrefixNoCase (ascii "http://") url = true
    else hasPrefixNoCase (ascii "https://") url = true
  else if ascii "//" <+: url then False
  else if url.head? = some slash then True
  else if url.head? = some question then
    (pathOf ctx.upstreamPath).getLast? = some slash ∧ slash ∉ queryOf ctx.upstreamPath
  else if url.head? = some hash then ctx.upstreamPath.getLast? = some slash
  else slash ∉ queryOf ctx.upstreamPath

/-! ## Schemes -/

section Scheme

variable {url : Bytes}

theorem toLower_scheme (c : UInt8) : isAlpha (toLower c) = isAlpha c ∧
    schemeByte (toLower c) = schemeByte c := by
  obtain ⟨⟨n⟩⟩ := c
  revert n
  decide +kernel

theorem schemeOf_prefix (k : UInt8) (name : Bytes) (hk : isAlpha k = true)
    (hname : ∀ c ∈ k :: name, schemeByte c = true) (hlower : (k :: name).map toLower = k :: name)
    (h : hasPrefixNoCase (k :: name ++ [colon]) url = true) :
    ∃ found, schemeOf url = some found ∧ found.map toLower = k :: name := by
  have hsplit : ∀ (key rest : Bytes), hasPrefixNoCase (key ++ [colon]) rest = true →
      key.map toLower = key → (∀ c ∈ key, schemeByte c = true) →
      ∃ found tail, rest = found ++ colon :: tail ∧ found.map toLower = key ∧
        ∀ c ∈ found, schemeByte c = true := by
    intro key
    induction key with
    | nil =>
      intro rest hpre _ _
      cases rest with
      | nil => cases hpre
      | cons c rest =>
        rw [nil_append, hasPrefixNoCase, Bool.and_eq_true] at hpre
        have hc : toLower c = colon := (of_decide_eq_true hpre.1).symm
        rw [toLower_colon hc]
        exact ⟨[], rest, rfl, rfl, by simp⟩
    | cons k key ih =>
      intro rest hpre hmap hall
      cases rest with
      | nil => cases hpre
      | cons c rest =>
        rw [cons_append, hasPrefixNoCase, Bool.and_eq_true] at hpre
        rw [map_cons, cons_eq_cons] at hmap
        have hc : toLower c = k := (of_decide_eq_true hpre.1).symm.trans hmap.1
        obtain ⟨found, tail, rfl, hfound, hbytes⟩ := ih rest hpre.2 hmap.2
          fun c hc => hall c (mem_cons_of_mem _ hc)
        refine ⟨c :: found, tail, rfl, by rw [map_cons, hc, hfound], ?_⟩
        intro d hd
        rcases List.mem_cons.1 hd with rfl | hd
        · rw [← (toLower_scheme d).2, hc]
          exact hall k mem_cons_self
        · exact hbytes d hd
  obtain ⟨found, tail, rfl, hfound, hbytes⟩ := hsplit _ _ h hlower hname
  obtain ⟨c, found', rfl⟩ := exists_cons_of_ne_nil (l := found) fun hnil => by
    rw [hnil] at hfound
    cases hfound
  have hhead : isAlpha c = true := by
    rw [← (toLower_scheme c).1, (cons_eq_cons.1 hfound).1]
    exact hk
  have hstop : ¬ schemeByte colon = true := by decide
  have htake : (c :: found' ++ colon :: tail).takeWhile schemeByte = c :: found' := by
    rw [takeWhile_append_of_pos hbytes, takeWhile_cons_of_neg hstop, append_nil]
  have hdrop : (c :: found' ++ colon :: tail).dropWhile schemeByte = colon :: tail := by
    rw [dropWhile_append_of_pos hbytes, dropWhile_cons_of_neg hstop]
  refine ⟨c :: found', ?_, hfound⟩
  unfold schemeOf
  rw [hdrop, htake, if_pos ⟨hhead, rfl⟩]

theorem scheme_http (h : hasPrefixNoCase (ascii "http://") url = true) :
    (schemeOf url).isSome = true ∧ HttpOrRelative url := by
  have hcolon : hasPrefixNoCase (ascii "http:") url = true :=
    prefixNoCase_of_key (show hasPrefixNoCase (ascii "http:" ++ ascii "//") url = true from h)
  obtain ⟨found, hfound, hname⟩ := schemeOf_prefix 0x68 (ascii "ttp") (by decide) (by decide +kernel)
    (by decide) hcolon
  unfold HttpOrRelative
  rw [hfound]
  refine ⟨rfl, fun scheme hscheme => ?_⟩
  obtain rfl := Option.some.inj hscheme
  exact hname

theorem scheme_https (h : hasPrefixNoCase (ascii "https://") url = true) :
    (schemeOf url).isSome = true ∧ ¬ HttpOrRelative url := by
  have hcolon : hasPrefixNoCase (ascii "https:") url = true :=
    prefixNoCase_of_key (show hasPrefixNoCase (ascii "https:" ++ ascii "//") url = true from h)
  obtain ⟨found, hfound, hname⟩ := schemeOf_prefix 0x68 (ascii "ttps") (by decide) (by decide +kernel)
    (by decide) hcolon
  unfold HttpOrRelative
  rw [hfound]
  refine ⟨rfl, fun hhttp => ?_⟩
  have hboth := hhttp found rfl
  rw [hname] at hboth
  revert hboth
  decide

end Scheme

/-! ## Proxy forms -/

section ProxyForm

variable {r2hToken url target : Bytes} {ctx : RewriteContext} {outputSize : ℕ}

theorem build_http (h : hasPrefixNoCase (ascii "http://") target = true) :
    httpProxyBuildUrl r2hToken target ctx.baseUrl outputSize =
      if outputSize ≤ (ctx.baseUrl ++ ascii "http/" ++ target.drop 7 ++
        tokenQuery r2hToken (target.drop 7)).length then none
      else some (ctx.baseUrl ++ ascii "http/" ++ target.drop 7 ++
        tokenQuery r2hToken (target.drop 7)) := by
  have hmatch : httpProxyMatchM3uScheme target = some (target.drop 7, ascii "http/") := by
    unfold httpProxyMatchM3uScheme m3uSchemes
    rw [findSome?_cons, if_pos h]
    rfl
  unfold httpProxyBuildUrl
  rw [hmatch]

theorem length_tokenQuery (r2hToken s t : Bytes) :
    (tokenQuery r2hToken s).length = (tokenQuery r2hToken t).length := by
  unfold tokenQuery
  split
  · rfl
  · rw [length_cons, length_cons]

theorem proxied_inj {s t : Bytes} (h : ctx.baseUrl ++ ascii "http/" ++ s ++ tokenQuery r2hToken s =
    ctx.baseUrl ++ ascii "http/" ++ t ++ tokenQuery r2hToken t) : s = t := by
  have hsplit := append_inj_left' h (length_tokenQuery r2hToken s t)
  exact append_cancel_left hsplit

theorem build_none (hscheme : HttpOrRelative target)
    (h : hasPrefixNoCase (ascii "http://") target = false) :
    httpProxyBuildUrl r2hToken target ctx.baseUrl outputSize = none := by
  have hother : ∀ k name, isAlpha k = true → (∀ c ∈ k :: name, schemeByte c = true) →
      (k :: name).map toLower = k :: name → k :: name ≠ ascii "http" →
      hasPrefixNoCase (k :: name ++ [colon] ++ ascii "//") target = false := by
    intro k name hk hname hlower hne
    by_contra hpre
    rw [Bool.not_eq_false] at hpre
    obtain ⟨found, hfound, hmap⟩ := schemeOf_prefix k name hk hname hlower (prefixNoCase_of_key hpre)
    exact hne (hmap.symm.trans (hscheme found hfound))
  have hrtsp : hasPrefixNoCase (ascii "rtsp://") target = false :=
    hother 0x72 (ascii "tsp") (by decide) (by decide +kernel) (by decide) (by decide)
  have hrtp : hasPrefixNoCase (ascii "rtp://") target = false :=
    hother 0x72 (ascii "tp") (by decide) (by decide +kernel) (by decide) (by decide)
  have hudp : hasPrefixNoCase (ascii "udp://") target = false :=
    hother 0x75 (ascii "dp") (by decide) (by decide +kernel) (by decide) (by decide)
  have hmatch : httpProxyMatchM3uScheme target = none := by
    unfold httpProxyMatchM3uScheme m3uSchemes
    rw [findSome?_eq_none_iff]
    intro scheme hmem
    have hcases : scheme.1 = ascii "http://" ∨ scheme.1 = ascii "rtsp://" ∨
        scheme.1 = ascii "rtp://" ∨ scheme.1 = ascii "udp://" := by
      simp only [List.mem_cons, not_mem_nil, or_false] at hmem
      rcases hmem with rfl | rfl | rfl | rfl <;> simp
    rcases hcases with heq | heq | heq | heq
    · rw [heq, h]
      rfl
    · simp [*]
    · simp [*]
    · simp [*]
  unfold httpProxyBuildUrl
  rw [hmatch]

end ProxyForm

/-! ## What the code builds -/

section Code

variable (r2hToken : Bytes) (ctx : RewriteContext) {url : Bytes} (outputSize : ℕ)

theorem authority_eq : formatHostPortForUrl ctx.upstreamHost ctx.upstreamPort 80
    (httpProxyHostSize + 16) = some ctx.authority := by
  have hhost := ctx.host_fits
  have hport : (printDecimal ctx.upstreamPort).length ≤ 5 := by
    rw [length_printDecimal]
    have hlog : Nat.log 10 ctx.upstreamPort < 5 :=
      Nat.log_lt_of_lt_pow' (by decide) (Nat.lt_of_le_of_lt ctx.port_fits (by decide))
    omega
  unfold httpProxyHostSize at *
  have hbracketed : formatHostForUrl ctx.upstreamHost 512 =
      some (if hostNeedsBrackets ctx.upstreamHost then openBracket :: ctx.upstreamHost ++ [closeBracket]
        else ctx.upstreamHost) := by
    refine if_neg ?_
    split
    · rw [cons_append, length_cons, length_append, length_singleton]
      omega
    · omega
  have hlen : (if hostNeedsBrackets ctx.upstreamHost then openBracket :: ctx.upstreamHost ++ [closeBracket]
      else ctx.upstreamHost).length ≤ ctx.upstreamHost.length + 2 := by
    split
    · rw [cons_append, length_cons, length_append, length_singleton]
    · omega
  unfold formatHostPortForUrl RewriteContext.authority
  rw [hbracketed]
  generalize (if hostNeedsBrackets ctx.upstreamHost then openBracket :: ctx.upstreamHost ++ [closeBracket]
    else ctx.upstreamHost) = host at hlen ⊢
  by_cases h80 : ctx.upstreamPort = 80
  · have hfits : ¬ 256 + 16 ≤ host.length := by omega
    simp [h80]
    omega
  · simp [h80]
    omega

theorem dirPath_eq : dirPath ctx.upstreamPath = ctx.upstreamPath.rdropWhile (· ≠ slash) := by
  have hmem : slash ∈ ctx.upstreamPath := mem_of_mem_head? ctx.path_slash
  have hlen := ( rdropWhile_prefix (p := (· ≠ slash)) (l := ctx.upstreamPath)).length_le
  have hfits := ctx.path_fits
  unfold dirPath
  rw [if_pos hmem, take_of_length_le (by omega)]

theorem resolveRelative_eq (url : Bytes) :
    rewriteResolveRelativeUrl url ctx.upstreamHost ctx.upstreamPort ctx.upstreamPath
      (httpProxyPathSize * 2) =
        if httpProxyPathSize * 2 ≤ (joined ctx url).length then none else some (joined ctx url) := by
  unfold rewriteResolveRelativeUrl joined
  rw [authority_eq, dirPath_eq]
  split
  · simp
  · simp

theorem joined_text (url : Bytes) : ∃ rest, joined ctx url = ascii "http://" ++ rest := by
  unfold joined
  rw [append_assoc, append_assoc]
  exact ⟨_, rfl⟩

theorem http_of_text {s : Bytes} (h : ∃ rest, s = ascii "http://" ++ rest) :
    hasPrefixNoCase (ascii "http://") s = true := by
  obtain ⟨rest, rfl⟩ := h
  exact prefixNoCase_append (s := ascii "http://") (by decide) rest

theorem joined_http (url : Bytes) : hasPrefixNoCase (ascii "http://") (joined ctx url) = true :=
  http_of_text (joined_text ctx url)

theorem buildWithin_some {target : Bytes} (out : Bytes)
    (h : hasPrefixNoCase (ascii "http://") target = true) :
    (if httpProxyPathSize * 2 ≤ target.length then none
      else httpProxyBuildUrl r2hToken target ctx.baseUrl outputSize) = some out ↔
      ¬ Overflows r2hToken ctx outputSize target ∧ ctx.baseUrl ++ ascii "http/" ++
        target.drop 7 ++ tokenQuery r2hToken (target.drop 7) = out := by
  unfold Overflows
  rw [build_http h]
  split
  · tauto
  · simp [*]

/-- Two URLs in the same buffers: the proxy forms are the same if and only if the URLs are, or
    neither fits. -/
theorem buildWithin_eq_iff {s t : Bytes} (hs : hasPrefixNoCase (ascii "http://") s = true)
    (ht : hasPrefixNoCase (ascii "http://") t = true) (hst : s.drop 7 = t.drop 7 → s = t) :
    (if httpProxyPathSize * 2 ≤ s.length then none
      else httpProxyBuildUrl r2hToken s ctx.baseUrl outputSize) =
    (if httpProxyPathSize * 2 ≤ t.length then none
      else httpProxyBuildUrl r2hToken t ctx.baseUrl outputSize) ↔
      s = t ∨ (Overflows r2hToken ctx outputSize s ∧ Overflows r2hToken ctx outputSize t) := by
  have hsome := fun out => buildWithin_some r2hToken ctx outputSize out hs
  have htome := fun out => buildWithin_some r2hToken ctx outputSize out ht
  constructor
  · intro heq
    rw [heq] at hsome
    by_cases hover : Overflows r2hToken ctx outputSize s
    · right
      refine ⟨hover, ?_⟩
      by_contra hfits
      exact ((hsome _).1 ((htome _).2 ⟨hfits, rfl⟩)).1 hover
    · left
      have hout := (htome _).1 ((hsome _).2 ⟨hover, rfl⟩)
      exact hst (proxied_inj hout.2).symm
  · rintro (rfl | ⟨hs', ht'⟩)
    · rfl
    · rw [eq_none_iff_forall_ne_some.2 fun out h => ((hsome out).1 h).1 hs',
        eq_none_iff_forall_ne_some.2 fun out h => ((htome out).1 h).1 ht']

end Code

/-! ## The directory of the request -/

section Directory

variable {a b : Bytes}

theorem rdropWhile_of_not_mem (h : slash ∉ b) :
    (a ++ b).rdropWhile (· ≠ slash) = a.rdropWhile (· ≠ slash) := by
  induction b using List.reverseRecOn with
  | nil => rw [append_nil]
  | append_singleton b c ih =>
    rw [mem_append, not_or, mem_singleton] at h
    rw [← append_assoc, rdropWhile_concat_pos _ _ _ (by simpa using Ne.symm h.2), ih h.1]

theorem rdropWhile_of_mem (h : slash ∈ b) :
    (a ++ b).rdropWhile (· ≠ slash) = a ++ b.rdropWhile (· ≠ slash) := by
  induction b using List.reverseRecOn with
  | nil => cases h
  | append_singleton b c ih =>
    by_cases hc : c = slash
    · simp [*]
    · have hb : slash ∈ b := by
        rcases mem_append.1 h with h | h
        · exact h
        · exact absurd (mem_singleton.1 h).symm hc
      rw [← append_assoc, rdropWhile_concat_pos _ _ _ (by simpa using hc),
        rdropWhile_concat_pos _ _ _ (by simpa using hc), ih hb]

variable (ctx : RewriteContext)

theorem base_text : ctx.base.path ++ Lib.UriReference.queryText ctx.base.query = ctx.upstreamPath := by
  show pathOf ctx.upstreamPath ++ Lib.UriReference.queryText (if question ∈ ctx.upstreamPath then _ else _) = _
  split
  · rename_i h
    exact (url_split h).symm
  · rename_i h
    rw [pathOf_of_not_mem h]
    exact append_nil _

theorem slash_mem_query : slash ∈ Lib.UriReference.queryText ctx.base.query ↔ slash ∈ queryOf ctx.upstreamPath := by
  show slash ∈ Lib.UriReference.queryText (if question ∈ ctx.upstreamPath then _ else _) ↔ _
  split
  · show slash ∈ question :: queryOf ctx.upstreamPath ↔ _
    rw [List.mem_cons]
    exact or_iff_right (by decide)
  · rename_i h
    have hnil : queryOf ctx.upstreamPath = [] := by
      rw [queryOf, pathOf_of_not_mem h, drop_length]
      rfl
    rw [hnil]
    rfl

theorem directory_of_not_mem (h : slash ∉ queryOf ctx.upstreamPath) :
    ctx.upstreamPath.rdropWhile (· ≠ slash) = directoryOf ctx.base.path := by
  conv_lhs => rw [← base_text ctx]
  exact rdropWhile_of_not_mem fun hmem => h ((slash_mem_query ctx).1 hmem)

theorem question_mem_directory (h : slash ∈ queryOf ctx.upstreamPath) :
    question ∈ ctx.upstreamPath.rdropWhile (· ≠ slash) := by
  have hquestion : question ∈ ctx.upstreamPath := by
    by_contra hnot
    rw [queryOf, pathOf_of_not_mem hnot, drop_length] at h
    cases h
  rw [url_split hquestion, append_cons, rdropWhile_of_mem h]
  exact mem_append_left _ (mem_append_right _ mem_cons_self)

theorem directory_eq_iff : ctx.upstreamPath.rdropWhile (· ≠ slash) = directoryOf ctx.base.path ↔
    slash ∉ queryOf ctx.upstreamPath := by
  refine ⟨fun heq hmem => ?_, directory_of_not_mem ctx⟩
  have hquestion := question_mem_directory ctx hmem
  rw [heq] at hquestion
  exact question_not_mem_pathOf _ (( rdropWhile_prefix _ _).subset hquestion)

theorem rdropWhile_eq_self (hne : a ≠ []) :
    a.rdropWhile (· ≠ slash) = a ↔ a.getLast? = some slash := by
  rw [rdropWhile_eq_self_iff, getLast?_eq_some_getLast hne, Option.some.injEq]
  simp [hne]

theorem path_ne_nil : ctx.base.path ≠ [] := by
  obtain ⟨rest, hrest⟩ := head?_eq_some_iff.1 ctx.path_slash
  show pathOf ctx.upstreamPath ≠ []
  rw [hrest]
  exact cons_ne_nil _ _

theorem directory_eq_path_iff : ctx.upstreamPath.rdropWhile (· ≠ slash) = ctx.base.path ↔
    (pathOf ctx.upstreamPath).getLast? = some slash ∧ slash ∉ queryOf ctx.upstreamPath := by
  by_cases hmem : slash ∈ queryOf ctx.upstreamPath
  · refine iff_of_false (fun heq => ?_) fun h => h.2 hmem
    have hquestion := question_mem_directory ctx hmem
    rw [heq] at hquestion
    exact question_not_mem_pathOf _ hquestion
  · rw [directory_of_not_mem ctx hmem, and_iff_left hmem]
    exact rdropWhile_eq_self (path_ne_nil ctx)

end Directory

/-! ## The theorem -/

section Resolves

variable (ctx : RewriteContext) {url : Bytes}

theorem url_scheme_none (h : schemeOf url = none) :
    hasPrefixNoCase (ascii "http://") url = false ∧ hasPrefixNoCase (ascii "https://") url = false := by
  constructor
  · by_contra hpre
    have := (scheme_http ((Bool.not_eq_false _).mp hpre)).1
    rw [h] at this
    cases this
  · by_contra hpre
    have := (scheme_https ((Bool.not_eq_false _).mp hpre)).1
    rw [h] at this
    cases this

section

variable (hne : url ≠ []) (hnone : schemeOf url = none)

include hne hnone

theorem target_eq : recompose (resolve ctx.base (parse url)) =
      if ascii "//" <+: url then ascii "http:" ++ url
      else ascii "http://" ++ ctx.authority ++ (if url.head? = some slash then []
          else if url.head? = some question then ctx.base.path
          else if url.head? = some hash then ctx.upstreamPath
          else directoryOf ctx.base.path) ++ url := by
  have hbase : schemeText ctx.base.scheme ++ authorityText ctx.base.authority =
      ascii "http://" ++ ctx.authority := rfl
  by_cases hhost : ascii "//" <+: url
  · rw [if_pos hhost]
    exact resolve_network hnone hhost
  rw [if_neg hhost]
  by_cases hslash : url.head? = some slash
  · rw [if_pos hslash, append_nil, resolve_absolute hnone hhost hslash, hbase]
  rw [if_neg hslash]
  by_cases hquestion : url.head? = some question
  · rw [if_pos hquestion, resolve_query hnone hhost hquestion, hbase]
  rw [if_neg hquestion]
  by_cases hhash : url.head? = some hash
  · rw [if_pos hhash, resolve_fragment hnone hhost hhash, hbase, append_assoc _ ctx.base.path,
      base_text]
  · rw [if_neg hhash, resolve_relative hnone hhost (fun _ => path_ne_nil ctx) hne hslash hquestion
      hhash, hbase]

theorem target_text :
    ∃ rest, recompose (resolve ctx.base (parse url)) = ascii "http://" ++ rest := by
  rw [target_eq ctx hne hnone]
  split
  · rename_i hhost
    obtain ⟨rest, rfl⟩ := hhost
    exact ⟨rest, rfl⟩
  · simp

theorem joined_eq_iff :
    joined ctx url = recompose (resolve ctx.base (parse url)) ↔ Recognized ctx url := by
  have hcancel : ∀ d e : Bytes, ascii "http://" ++ ctx.authority ++ d ++ url =
      ascii "http://" ++ ctx.authority ++ e ++ url ↔ d = e := by
    intro d e
    rw [append_left_inj, append_right_inj]
  have hscheme : ¬ (schemeOf url).isSome = true := by simp [hnone]
  rw [target_eq ctx hne hnone]
  unfold joined Recognized
  rw [if_neg hscheme]
  by_cases hhost : ascii "//" <+: url
  · rw [if_pos hhost, if_pos hhost]
    refine iff_of_false (fun heq => ?_) not_false
    have hlen := congrArg List.length heq
    simp only [length_append] at hlen
    have h7 : (ascii "http://").length = 7 := rfl
    have h5 : (ascii "http:").length = 5 := rfl
    omega
  rw [if_neg hhost, if_neg hhost, hcancel]
  by_cases hslash : url.head? = some slash
  · simp only [if_pos hslash]
  simp only [if_neg hslash]
  by_cases hquestion : url.head? = some question
  · simp only [if_pos hquestion]
    exact directory_eq_path_iff ctx
  simp only [if_neg hquestion]
  by_cases hhash : url.head? = some hash
  · have hnonempty : ctx.upstreamPath ≠ [] := fun hnil => by
      have := ctx.path_slash
      rw [hnil] at this
      cases this
    simp only [if_pos hhash]
    exact rdropWhile_eq_self hnonempty
  · simp only [if_neg hhash]
    exact directory_eq_iff ctx

end

/-- Anything that is neither `https://` nor `http://` is joined. -/
theorem rewrite_joined (r2hToken : Bytes) (hne : url ≠ []) (outputSize : ℕ)
    (hhttps : hasPrefixNoCase (ascii "https://") url = false)
    (hhttp : hasPrefixNoCase (ascii "http://") url = false) :
    rewriteUrlToProxyFormat r2hToken ctx url outputSize =
      if httpProxyPathSize * 2 ≤ (joined ctx url).length then none
      else httpProxyBuildUrl r2hToken (joined ctx url) ctx.baseUrl outputSize := by
  unfold rewriteUrlToProxyFormat
  simp only [if_neg hne, hhttps, hhttp, Bool.false_eq_true, if_false, resolveRelative_eq]
  by_cases hzero : outputSize = 0
  · rw [if_pos hzero, build_http (joined_http ctx url), hzero, if_pos (Nat.zero_le _)]
    exact (ite_self none).symm
  · rw [if_neg hzero]
    split <;> rfl

theorem rewrite_http (r2hToken : Bytes) (outputSize : ℕ)
    (hhttp : hasPrefixNoCase (ascii "http://") url = true) :
    rewriteUrlToProxyFormat r2hToken ctx url outputSize =
      if httpProxyPathSize * 2 ≤ url.length then none
      else httpProxyBuildUrl r2hToken url ctx.baseUrl outputSize := by
  have hhttps : hasPrefixNoCase (ascii "https://") url = false := by
    by_contra h
    exact (scheme_https ((Bool.not_eq_false _).mp h)).2 (scheme_http hhttp).2
  have hne : url ≠ [] := by
    rintro rfl
    cases hhttp
  unfold rewriteUrlToProxyFormat
  simp only [if_neg hne, hhttps, hhttp, Bool.false_eq_true, if_false, if_true]
  by_cases hzero : outputSize = 0
  · rw [if_pos hzero, build_http hhttp, hzero, if_pos (Nat.zero_le _)]
    exact (ite_self none).symm
  · rw [if_neg hzero]
    split <;> rfl

/-- A reference is rewritten as it should be if and only if the code takes it for what it is,
    or the joined URL does not fit, nor does the right one, if there is one. -/
theorem rewrite_eq_proxyForm_iff (r2hToken : Bytes) (hne : url ≠ []) (outputSize : ℕ) :
    rewriteUrlToProxyFormat r2hToken ctx url outputSize = proxyForm r2hToken ctx url outputSize ↔
      Recognized ctx url ∨ (Overflows r2hToken ctx outputSize (joined ctx url) ∧
        ((schemeOf url).isSome ∨ Overflows r2hToken ctx outputSize
          (recompose (resolve ctx.base (parse url))))) := by
  by_cases hscheme : (schemeOf url).isSome = true
  · have htarget : recompose (resolve ctx.base (parse url)) = url := resolve_scheme hscheme
    unfold proxyForm
    rw [htarget]
    by_cases hhttp : hasPrefixNoCase (ascii "http://") url = true
    · have hrecognized : Recognized ctx url := by
        unfold Recognized
        rw [if_pos hscheme, if_pos (scheme_http hhttp).2]
        exact hhttp
      refine iff_of_true ?_ (.inl hrecognized)
      rw [rewrite_http ctx r2hToken outputSize hhttp]
      simp [(scheme_http hhttp).2, not_true_eq_false, false_or]
    rw [Bool.not_eq_true] at hhttp
    have hnone : (if ¬ HttpOrRelative url ∨ httpProxyPathSize * 2 ≤ url.length then none
        else httpProxyBuildUrl r2hToken url ctx.baseUrl outputSize) = none := by
      split
      · rfl
      · rename_i h
        exact build_none (not_not.1 (not_or.1 h).1) hhttp
    rw [hnone]
    by_cases hhttps : hasPrefixNoCase (ascii "https://") url = true
    · have hrecognized : Recognized ctx url := by
        unfold Recognized
        rw [if_pos hscheme, if_neg (scheme_https hhttps).2]
        exact hhttps
      refine iff_of_true ?_ (.inl hrecognized)
      unfold rewriteUrlToProxyFormat
      simp only [if_neg hne, if_pos hhttps]
      exact ite_self none
    rw [Bool.not_eq_true] at hhttps
    have hnot : ¬ Recognized ctx url := by
      unfold Recognized
      rw [if_pos hscheme]
      split
      · simp [hhttp]
      · simp [hhttps]
    rw [rewrite_joined ctx r2hToken hne outputSize hhttps hhttp, or_iff_right hnot,
      and_iff_left (.inl hscheme), eq_none_iff_forall_ne_some]
    have hsome := fun out => buildWithin_some r2hToken ctx outputSize out (joined_http ctx url)
    constructor
    · simp [*]
    · simp [*]
  · have hnone : schemeOf url = none := by simpa using hscheme
    obtain ⟨hhttp, hhttps⟩ := url_scheme_none hnone
    have hrelative : HttpOrRelative url := by
      intro scheme h
      rw [hnone] at h
      cases h
    have htarget := target_text ctx hne hnone
    have hdrop : (joined ctx url).drop 7 = (recompose (resolve ctx.base (parse url))).drop 7 →
        joined ctx url = recompose (resolve ctx.base (parse url)) := by
      obtain ⟨s, hs⟩ := joined_text ctx url
      obtain ⟨t, ht⟩ := htarget
      rw [hs, ht]
      exact fun heq => congrArg (ascii "http://" ++ ·) heq
    have hcompare := buildWithin_eq_iff r2hToken ctx outputSize (joined_http ctx url)
      (http_of_text htarget) hdrop
    rw [joined_eq_iff ctx hne hnone] at hcompare
    rw [rewrite_joined ctx r2hToken hne outputSize hhttps hhttp]
    unfold proxyForm
    simp only [hrelative, not_true_eq_false, false_or, hnone, isSome_none, Bool.false_eq_true]
    exact hcompare

end Resolves

/-- A request with a slash in its query. -/
def sessionContext : RewriteContext where
  upstreamHost := ascii "origin.test"
  upstreamPort := 8080
  upstreamPath := ascii "/live/index.m3u8?dir=/a/b"
  baseUrl := ascii "http://router/"
  host_fits := by decide
  port_fits := by decide
  path_fits := by decide
  path_slash := by decide

theorem rewrite_eq_proxyForm_absolute :
    rewriteUrlToProxyFormat [] sessionContext (ascii "/live/seg.ts") 4096 =
        proxyForm [] sessionContext (ascii "/live/seg.ts") 4096 ↔
      Recognized sessionContext (ascii "/live/seg.ts") ∨
        (Overflows [] sessionContext 4096 (joined sessionContext (ascii "/live/seg.ts")) ∧
          ((schemeOf (ascii "/live/seg.ts")).isSome ∨ Overflows [] sessionContext 4096
            (recompose (resolve sessionContext.base (parse (ascii "/live/seg.ts")))))) :=
  rewrite_eq_proxyForm_iff sessionContext [] (by decide) 4096

/-- The directory of `seg.ts` is taken from the query, the host of `//cdn.test/seg.ts` is taken
    for a path, and `rtsp://cam.test/1` is taken for a file. -/
theorem references_misread : (rewriteUrlToProxyFormat [] sessionContext (ascii "seg.ts") 4096 =
        some (ascii "http://router/http/origin.test:8080/live/index.m3u8?dir=/a/seg.ts") ∧
      proxyForm [] sessionContext (ascii "seg.ts") 4096 =
        some (ascii "http://router/http/origin.test:8080/live/seg.ts")) ∧
    (rewriteUrlToProxyFormat [] sessionContext (ascii "//cdn.test/seg.ts") 4096 =
        some (ascii "http://router/http/origin.test:8080//cdn.test/seg.ts") ∧
      proxyForm [] sessionContext (ascii "//cdn.test/seg.ts") 4096 =
        some (ascii "http://router/http/cdn.test/seg.ts")) ∧
    (rewriteUrlToProxyFormat [] sessionContext (ascii "rtsp://cam.test/1") 4096 = some (ascii
          "http://router/http/origin.test:8080/live/index.m3u8?dir=/a/rtsp://cam.test/1") ∧
      proxyForm [] sessionContext (ascii "rtsp://cam.test/1") 4096 = none) := by
  refine ⟨⟨?_, ?_⟩, ⟨?_, ?_⟩, ?_, ?_⟩ <;> decide +kernel

end Apackage.Rtp2httpd
