import Apackage.Rtp2httpd.Proxy.Service

/-
  The upstream of an HTTP proxy request (`http_proxy.c`): the URL a playlist line is rewritten
  to (`http_proxy_build_url`), and the host, port and path that are read from the URL of a
  service (`http_proxy_parse_url`, with `parse_host_port` in `utils.c`).

  Model. The scheme of the rewritten URL stands for itself: what the client requests is the
  base URL's path and the rest. An empty token is one that is not configured.
-/

namespace Apackage.Rtp2httpd

open List Option Lib.Fields

def colon : UInt8 := 0x3A
def openBracket : UInt8 := 0x5B
def closeBracket : UInt8 := 0x5D

theorem toLower_colon {c : UInt8} (h : toLower c = colon) : c = colon := by
  obtain ⟨⟨n⟩⟩ := c
  revert n
  decide +kernel

def httpProxyHostSize : ℕ := 256

def httpProxyPathSize : ℕ := 2048

/-- The end of `parse_host_port`: an empty port is no port. -/
def parsePort (host port : Bytes) : Option (Bytes × Option ℕ) :=
  if port = [] then some (host, none)
  else
    match strtol port with
    | some (v, []) => if 0 < v ∧ v ≤ 65535 then some (host, some v.toNat) else none
    | _ => none

/-- `parse_host_port`: the host and the port, if the text has one; none is -1. -/
def parseHostPort (hostSize : ℕ) (input : Bytes) : Option (Bytes × Option ℕ) :=
  if input.head? = some openBracket then
    if closeBracket ∉ input then none
    else
      let host := (input.drop 1).takeWhile (· ≠ closeBracket)
      if host = [] ∨ hostSize ≤ host.length then none
      else
        match input.drop (host.length + 2) with
        | [] => some (host, none)
        | c :: port => if c = colon then parsePort host port else none
  else
    let host := input.takeWhile (· ≠ colon)
    match input.drop host.length with
    | [] => if input = [] ∨ hostSize ≤ input.length then none else some (input, none)
    | _ :: port =>
      -- several colons: a bare IPv6 literal
      if colon ∈ port then if hostSize ≤ input.length then none else some (input, none)
      else if host = [] ∨ hostSize ≤ host.length then none
      else parsePort host port

/-- `target_host`, `target_port` and `target_path` of a session. -/
structure Upstream where
  host : Bytes
  port : ℕ
  path : Bytes
  deriving DecidableEq

/-- The path of `http_proxy_parse_url`, from the first slash of the URL on. -/
def targetPath (r2hToken target : Bytes) : Option Bytes :=
  if target = [] then some [slash]
  else if httpProxyPathSize ≤ target.length then none
  else
    let path := pathOf target
    let query := target.drop path.length
    if query ≠ [] ∧ r2hToken ≠ [] then
      match httpFilterQueryParam (query.drop 1) (ascii "r2h-token") httpProxyPathSize with
      | some (c :: filtered) =>
        if httpProxyPathSize - path.length ≤ (question :: c :: filtered).length then none
        else some (path ++ question :: c :: filtered)
      | _ => some path
    else some target

/-- The port of a session: 80 at first, and again if what was read is no port. -/
def targetPort (port : Option ℕ) : ℕ :=
  let port := port.getD 80
  if port = 0 ∨ 65535 < port then 80 else port

/-- `http_proxy_parse_url` after the scheme. -/
def upstreamAt (r2hToken p : Bytes) : Option Upstream :=
  let hostport := p.takeWhile (· ≠ slash)
  if httpProxyHostSize + 16 ≤ hostport.length then none
  else
    match parseHostPort httpProxyHostSize hostport with
    | none => none
    | some (host, port) =>
      (targetPath r2hToken (p.drop hostport.length)).map fun path => ⟨host, targetPort port, path⟩

def httpProxyParseUrl (r2hToken url : Bytes) : Option Upstream :=
  upstreamAt r2hToken
    (if ascii "/http/" <+: url then url.drop 6
      else if ascii "http://" <+: url then url.drop 7
      else url)

/-- The schemes `http_proxy_match_m3u_scheme` accepts and their proxy paths. -/
def m3uSchemes : List (Bytes × Bytes) :=
  [(ascii "http://", ascii "http/"), (ascii "rtsp://", ascii "rtsp/"),
    (ascii "rtp://", ascii "rtp/"), (ascii "udp://", ascii "udp/")]

/-- `http_proxy_match_m3u_scheme`: what follows the scheme, and the proxy path; none is -1. -/
def httpProxyMatchM3uScheme (url : Bytes) : Option (Bytes × Bytes) :=
  m3uSchemes.findSome? fun s =>
    if hasPrefixNoCase s.1 url then some (url.drop s.1.length, s.2) else none

/-- What `http_proxy_build_url` appends. -/
def tokenQuery (r2hToken hostStart : Bytes) : Bytes :=
  if r2hToken = [] then []
  else
    (if question ∈ hostStart then ampersand else question) ::
      (ascii "r2h-token=" ++ httpUrlEncode r2hToken)

/-- `http_proxy_build_url`; none is -1. -/
def httpProxyBuildUrl (r2hToken httpUrl baseUrl : Bytes) (outputSize : ℕ) : Option Bytes :=
  match httpProxyMatchM3uScheme httpUrl with
  | none => none
  | some (hostStart, schemePath) =>
    let output := baseUrl ++ schemePath ++ hostStart ++ tokenQuery r2hToken hostStart
    if outputSize ≤ output.length then none else some output

/-! ## What a URL names -/

/-- The host and port of a URL, after its scheme. -/
def authority (url : Bytes) : Bytes := url.takeWhile fun c => c ≠ slash ∧ c ≠ question

/-- A host and a port as the proxy reads them, of any length; the default port is 80. -/
def readHostPort (authority : Bytes) : Option (Bytes × ℕ) :=
  (parseHostPort (authority.length + 1) authority).map fun r => (r.1, targetPort r.2)

/-- The path and query of a request for a URL: a path is never empty. -/
def requestPath (pathQuery : Bytes) : Bytes :=
  if pathQuery.head? = some slash then pathQuery else slash :: pathQuery

/-- The host, port and path with query that an absolute `http://` URL names; `url` is what
    follows the scheme. -/
def upstreamNamed (url : Bytes) : Option Upstream :=
  (readHostPort (authority url)).map fun r =>
    ⟨r.1, r.2, requestPath (url.drop (authority url).length)⟩

/-! ## Hosts -/

theorem parsePort_fst {host port : Bytes} {r : Bytes × Option ℕ}
    (h : parsePort host port = some r) : r.1 = host ∧ question ∉ port := by
  unfold parsePort at h
  split at h
  · rename_i hp
    obtain rfl := some.inj h
    exact ⟨rfl, by simp [hp]⟩
  · split at h
    · rename_i v hv
      split at h
      · obtain rfl := some.inj h
        refine ⟨rfl, fun hq => ?_⟩
        have := strtol_all hv question hq
        revert this
        decide
      · cases h
    · cases h

theorem bind_hostSize {host : Bytes} {o : Option (Bytes × Option ℕ)} (h : ∀ r, o = some r → r.1 = host)
    (hostSize : ℕ) :
    (o.bind fun r => if hostSize ≤ r.1.length then none else some r) =
      if hostSize ≤ host.length then none else o := by
  cases o with
  | none => simp
  | some r => rw [bind_some, h r rfl]

theorem parseHostPort_eq (hostSize : ℕ) (input : Bytes) :
    parseHostPort hostSize input = (parseHostPort (input.length + 1) input).bind fun r =>
      if hostSize ≤ r.1.length then none else some r := by
  have hlimit : ∀ (host : Bytes) (o : Option (Bytes × Option ℕ)), host.length ≤ input.length →
      (∀ r, o = some r → r.1 = host) →
      (if host = [] ∨ hostSize ≤ host.length then none else o) =
        (if host = [] ∨ input.length + 1 ≤ host.length then none else o).bind fun r =>
          if hostSize ≤ r.1.length then none else some r := by
    intro host o hle ho
    by_cases hnil : host = []
    · rw [if_pos (.inl hnil), if_pos (.inl hnil), bind_none]
    · have hfits : (if host = [] ∨ input.length + 1 ≤ host.length then none else o) = o :=
        if_neg (not_or.2 ⟨hnil, by omega⟩)
      rw [hfits, bind_hostSize ho]
      simp only [hnil, false_or]
  unfold parseHostPort
  dsimp only
  split
  · split
    · rfl
    · refine hlimit _ _ ?_ fun r hr => ?_
      · exact ( takeWhile_prefix _).length_le.trans (by simp)
      · split at hr
        · rw [← some.inj hr]
        · split at hr
          · exact (parsePort_fst hr).1
          · cases hr
  · split
    · refine hlimit input _ (Nat.le_refl _) fun r hr => ?_
      rw [← some.inj hr]
    · split
      · have hfits : (if input.length + 1 ≤ input.length then none
            else some (input, (none : Option ℕ))) = some (input, none) := if_neg (by omega)
        rw [hfits]
        rfl
      · exact hlimit _ _ ( takeWhile_prefix _).length_le fun r hr => (parsePort_fst hr).1

theorem question_mem_host {hostSize : ℕ} {input : Bytes} {r : Bytes × Option ℕ}
    (h : parseHostPort hostSize input = some r) : question ∈ r.1 ↔ question ∈ input := by
  unfold parseHostPort at h
  dsimp only at h
  split at h
  · rename_i hopen
    split at h
    · cases h
    split at h
    · cases h
    rename_i hclose hhost
    obtain ⟨rest, rfl⟩ : ∃ rest, input = openBracket :: rest := by
      cases input with
      | nil => cases hopen
      | cons c rest => exact ⟨rest, congrArg (· :: rest) (some.inj hopen)⟩
    rw [drop_one, tail_cons] at h
    rw [drop_succ_cons] at h
    have hmem : ∀ after, rest.drop ((rest.takeWhile (· ≠ closeBracket)).length + 1) = after →
        question ∉ after →
        (question ∈ rest.takeWhile (· ≠ closeBracket) ↔ question ∈ openBracket :: rest) := by
      intro after hafter hq
      rw [List.mem_cons, or_iff_right (by decide)]
      cases hscan : rest.drop (rest.takeWhile (· ≠ closeBracket)).length with
      | nil => rw [scan_nil hscan]
      | cons c tail =>
        obtain ⟨hc, hrest⟩ := scan_cons hscan
        rw [← drop_drop, hscan, drop_one, tail_cons] at hafter
        conv_rhs => rw [hrest]
        rw [mem_append, List.mem_cons, hafter]
        refine ⟨.inl, fun h => h.resolve_right (not_or.2 ⟨?_, hq⟩)⟩
        rintro rfl
        revert hc
        decide
    split at h
    · rename_i hafter
      rw [← some.inj h]
      exact hmem [] hafter not_mem_nil
    · rename_i c port hafter
      split at h
      · rename_i hc
        rw [(parsePort_fst h).1]
        refine hmem _ hafter ?_
        rw [List.mem_cons, not_or]
        exact ⟨by rw [hc]; decide, (parsePort_fst h).2⟩
      · cases h
  · split at h
    · split at h
      · cases h
      · rw [← some.inj h]
    · rename_i c port hafter
      split at h
      · split at h
        · cases h
        · rw [← some.inj h]
      · split at h
        · cases h
        rw [(parsePort_fst h).1]
        obtain ⟨hc, hinput⟩ := scan_cons hafter
        conv_rhs => rw [hinput]
        rw [mem_append, List.mem_cons]
        refine ⟨.inl, fun hq => hq.resolve_right (not_or.2 ⟨?_, (parsePort_fst h).2⟩)⟩
        rintro rfl
        revert hc
        decide

theorem readHostPort_nil : readHostPort [] = none := by decide

theorem question_mem_of_read {a : Bytes} {r : Bytes × ℕ} (h : readHostPort a = some r) :
    question ∈ r.1 ↔ question ∈ a := by
  obtain ⟨r', hr', rfl⟩ := map_eq_some_iff.1 h
  exact question_mem_host hr'

/-- What is read after the scheme: the host and port before the first slash, if they fit, and
    the path. -/
theorem upstreamAt_iff {r2hToken p : Bytes} {t : Upstream} : upstreamAt r2hToken p = some t ↔
      readHostPort (p.takeWhile (· ≠ slash)) = some (t.host, t.port) ∧
        t.host.length < httpProxyHostSize ∧
        (p.takeWhile (· ≠ slash)).length < httpProxyHostSize + 16 ∧
        targetPath r2hToken (p.drop (p.takeWhile (· ≠ slash)).length) = some t.path := by
  unfold upstreamAt readHostPort
  dsimp only
  generalize p.takeWhile (· ≠ slash) = hostport
  rw [parseHostPort_eq httpProxyHostSize]
  by_cases hsize : httpProxyHostSize + 16 ≤ hostport.length
  · simp [*]
  rw [if_neg hsize]
  cases parseHostPort (hostport.length + 1) hostport with
  | none => simp
  | some r =>
    rw [bind_some, map_some]
    by_cases hhost : httpProxyHostSize ≤ r.1.length
    · grind
    · rw [if_neg hhost]
      rw [map_eq_some_iff, Option.some.injEq, Prod.mk.injEq]
      constructor
      · grind
      · rintro ⟨⟨hh, hp⟩, -, -, hpath⟩
        exact ⟨t.path, hpath, by rw [hh, hp]⟩

/-- What a URL names, from its host and port and from what follows them. -/
theorem upstreamNamed_iff {url : Bytes} {t : Upstream} :
    upstreamNamed url = some t ↔ readHostPort (authority url) = some (t.host, t.port) ∧
      t.path = requestPath (url.drop (authority url).length) := by
  unfold upstreamNamed
  rw [map_eq_some_iff]
  constructor
  · rintro ⟨r, hr, rfl⟩
    exact ⟨hr, rfl⟩
  · tauto

/-! ## Paths -/

def queryOf (url : Bytes) : Bytes := (url.drop (pathOf url).length).drop 1

theorem question_not_mem_pathOf (url : Bytes) : question ∉ pathOf url := fun h => by
  have := mem_takeWhile_imp h
  revert this
  decide

theorem pathOf_of_not_mem {url : Bytes} (h : question ∉ url) : pathOf url = url :=
  takeWhile_eq_self_iff.2 fun x hx => by
    rw [decide_eq_true_eq]
    rintro rfl
    exact h hx

theorem pathOf_question {s body : Bytes} (h : question ∉ s) :
    pathOf (s ++ question :: body) = s := pathOf_append h (.inr rfl)

theorem queryOf_question {s body : Bytes} (h : question ∉ s) :
    queryOf (s ++ question :: body) = body := by
  rw [queryOf, pathOf_question h, drop_left, drop_one, tail_cons]

theorem url_split {url : Bytes} (h : question ∈ url) :
    url = pathOf url ++ question :: queryOf url := by
  cases hd : url.drop (pathOf url).length with
  | nil =>
    have hall : pathOf url = url := scan_nil hd
    rw [← hall] at h
    exact absurd h (question_not_mem_pathOf url)
  | cons c rest =>
    obtain ⟨hc, hurl⟩ := scan_cons hd
    obtain rfl : c = question := by simpa using hc
    conv_lhs => rw [hurl]
    rw [queryOf, hd]
    rfl

/-- What the token filter leaves of a query. -/
def filteredQuery (query : Bytes) : Bytes :=
  [ampersand].intercalate ((query.splitOn ampersand).filter (· ≠ []))

theorem filteredQuery_length (query : Bytes) : (filteredQuery query).length ≤ query.length := by
  have hle := length_intercalate_le (x := ampersand)
    (filter_sublist (p := (· ≠ [])) (l := query.splitOn ampersand))
  rwa [intercalate_splitOn] at hle

/-- A path with a query, when a token is configured and the query has none. -/
theorem targetPath_query {r2hToken s body : Bytes} (hs : question ∉ s) (htoken : r2hToken ≠ [])
    (hbody : ∀ p, ParamAt body p → named tokenName p = false)
    (hlen : (s ++ question :: body).length < httpProxyPathSize) :
    targetPath r2hToken (s ++ question :: body) =
      some (if filteredQuery body = [] then s else s ++ question :: filteredQuery body) := by
  have hfilter : httpFilterQueryParam body (ascii "r2h-token") httpProxyPathSize =
      some (filteredQuery body) := by
    refine httpFilterQueryParam_eq (fun p hp => ?_) ?_
    · obtain ⟨u, hu, -⟩ := paramAt_of_mem_splitOn hp
      by_contra hn
      rw [Bool.not_eq_false] at hn
      have := hbody _ hu
      rw [tokenName, named_append hn u] at this
      cases this
    · rw [length_append, length_cons] at hlen
      omega
  unfold targetPath
  dsimp only
  rw [if_neg (by simp), if_neg (by omega), pathOf_question hs, drop_left,
    if_pos ⟨cons_ne_nil _ _, htoken⟩, drop_one, tail_cons, hfilter]
  have hle := filteredQuery_length body
  rw [length_append, length_cons] at hlen
  cases hf : filteredQuery body with
  | nil => simp
  | cons c f =>
    rw [hf, length_cons] at hle
    dsimp only
    rw [if_neg (by simp only [length_cons]; omega), if_neg (cons_ne_nil _ _)]

theorem targetPath_plain {r2hToken w : Bytes} (hne : w ≠ [])
    (hlen : w.length < httpProxyPathSize) (h : question ∉ w ∨ r2hToken = []) :
    targetPath r2hToken w = some w := by
  unfold targetPath
  rw [if_neg hne, if_neg (by omega), if_neg]
  rintro ⟨hq, ht⟩
  rw [pathOf_of_not_mem (h.resolve_right ht)] at hq
  simp at hq

end Apackage.Rtp2httpd
