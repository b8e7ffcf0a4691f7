import Apackage.Rtp2httpd.Proxy.Target
import Apackage.Rtp2httpd.Playlist.ServiceUrl

/-
  From a line of an upstream playlist through the proxy and back.

  `http_proxy_build_url` rewrites a URL to a proxy URL; the request for it is routed to
  `service_create_from_http_url`, and `http_proxy_parse_url` reads the upstream from the service's
  URL. `rewritten_names_same_iff` says when this is the host, port and path of the original URL.
  Nothing of the URL is encoded, so a `$` anywhere in it starts a label.

  Model. The request passes the checks on its `Host` header, address, method and token. The URL
  template resolved between the service and the parser (`service_resolve_upstream_url`) leaves a URL
  without placeholders as it is and is not part of the model.
-/

namespace Apackage.Rtp2httpd

open List Option Lib.Fields

def appBasePath (cfg : RouteConfig) : Bytes := cfg.appPathPrefix ++ [slash]

/-- The service of a request that `connection_route_and_start` makes from its URL: no
    configured service has its name and `config.udpxy` is set. -/
def requestedService {Service : Type} (cfg : RouteConfig) (udpxy : Bool)
    (services : Bytes → Option Service) (url : RequestUrl) : Option HttpService :=
  match connectionRouteAndStart cfg url with
  | .service key =>
    match services key with
    | some _ => none
    | none =>
      if udpxy then
        (stripAppPathPrefix cfg.appPathPrefix (httpStripUrlLabel url.bytes)).bind
          serviceCreateFromUdpxyUrl
      else none
  | _ => none

def requestedUpstream {Service : Type} (cfg : RouteConfig) (udpxy : Bool) (r2hToken : Bytes)
    (services : Bytes → Option Service) (url : RequestUrl) : Option Upstream :=
  (requestedService cfg udpxy services url).bind fun s => httpProxyParseUrl r2hToken s.httpUrl

/-- A parameter that the proxy takes for itself. -/
def isControl (p : Bytes) : Bool :=
  hasPrefixNoCase (ascii "r2h-") p || named (ascii "playseek") p || named (ascii "tvdr") p

/-- The URL carries no `r2h-*`, `playseek` or `tvdr` parameter. -/
def ControlFree (url : Bytes) : Prop := ∀ p, ParamAt (queryOf url) p → isControl p = false

instance (url : Bytes) : Decidable (ControlFree url) :=
  decidable_of_iff (∀ i ≤ (queryOf url).length,
      ((queryOf url).take i = [] ∨ ((queryOf url).take i).getLast? = some ampersand) →
        isControl ((queryOf url).drop i) = false) (by
    constructor
    · rintro h p ⟨s, hs, hstart⟩
      have := h s.length (by rw [hs, length_append]; omega)
      rw [hs, take_left, drop_left] at this
      exact this hstart
    · intro h i _ hstart
      exact h _ ⟨_, (take_append_drop i _).symm, hstart⟩)

/-- The token filter leaves the query as it is. -/
def FilterKeeps (r2hToken url : Bytes) : Prop :=
  r2hToken ≠ [] → question ∈ url → queryOf url ≠ [] ∧ [] ∉ (queryOf url).splitOn ampersand

/-- What a URL has after host and port. -/
def pathQuery (url : Bytes) : Bytes := url.drop (authority url).length

/-- What the request keeps of a URL: all of it, with the token parameter whole or cut off; or
    a part of host and port that reads the same, if the path is `/`. -/
def Kept (r2hToken url text : Bytes) : Prop :=
  url <+: text ∧ (pathQuery url).head? ≠ some question ∧ FilterKeeps r2hToken url ∧
      (text.length = url.length ∨ url.length + 11 ≤ text.length ∨
        text.length = url.length + 1 ∧ pathQuery url ≠ []) ∨
    text.length < url.length ∧ text <+: authority url ∧
      readHostPort text = readHostPort (authority url) ∧ requestPath (pathQuery url) = [slash]

/-- What is left of the request URL after its path prefix and `/http/`. -/
def leftOf (cfg : RouteConfig) (url : RequestUrl) : Bytes :=
  (httpStripUrlLabel url.bytes).drop (cfg.appPathPrefix.length + 6)

/-- The path that is matched against the routes and the services. -/
def proxyRoute (cfg : RouteConfig) (url : RequestUrl) : Bytes :=
  dropTrailingSlash (pathOf (ascii "http/" ++ leftOf cfg url))

/-- The condition under which the rewritten URL names the same upstream. -/
structure Preserved {Service : Type} (cfg : RouteConfig) (udpxy : Bool) (r2hToken : Bytes)
    (services : Bytes → Option Service) (hostStart : Bytes) (t : Upstream) (url : RequestUrl) :
    Prop where
  prefixQuery : question ∉ cfg.appPathPrefix
  started : cfg.appPathPrefix ++ ascii "/http/" <+: httpStripUrlLabel url.bytes
  enabled : udpxy = true
  unreserved : reservedRoute cfg (proxyRoute cfg url) = none
  unconfigured : ∃ decoded, httpUrlDecode (proxyRoute cfg url) = some decoded ∧
    services (httpStripUrlLabel (cstr decoded)) = none
  hostSize : t.host.length < httpProxyHostSize
  authoritySize : (authority (leftOf cfg url)).length < httpProxyHostSize + 16
  kept : Kept r2hToken hostStart (leftOf cfg url)

/-! ## The service's URL -/

/-- A URL after the scheme, with the control parameters taken out. -/
def editedUrl (text : Bytes) : Bytes :=
  pathOf text ++ (extractControls (text.drop (pathOf text).length)).1

theorem editedUrl_plain {x : Bytes} (h : question ∉ x) : editedUrl x = x := by
  rw [editedUrl, pathOf_of_not_mem h, drop_length, extractControls_nil, append_nil]

theorem editedUrl_question {s : Bytes} (hs : question ∉ s) (body : Bytes) :
    editedUrl (s ++ question :: body) = s ++ (extractControls (question :: body)).1 := by
  rw [editedUrl, pathOf_question hs, drop_left]

theorem editedUrl_append {a : Bytes} (ha : question ∉ a) (x : Bytes) :
    editedUrl (a ++ x) = a ++ editedUrl x := by
  by_cases hx : question ∈ x
  · rw [url_split hx, ← append_assoc, editedUrl_question, editedUrl_question
      (question_not_mem_pathOf x), append_assoc]
    rw [mem_append, not_or]
    exact ⟨ha, question_not_mem_pathOf x⟩
  · rw [editedUrl_plain hx, editedUrl_plain]
    rw [mem_append, not_or]
    exact ⟨ha, hx⟩

theorem parse_service {r2hToken text : Bytes} (hlen : text.length + 6 < httpUrlBufferSize) :
    ((serviceCreateFromHttpUrl (ascii "/http/" ++ text)).bind fun s =>
        httpProxyParseUrl r2hToken s.httpUrl) =
      if text = [] ∨ text.head? = some slash then none
      else upstreamAt r2hToken (editedUrl text) := by
  have hpart : urlPart (ascii "/http/" ++ text) = some text := by
    rw [urlPart, if_pos (prefix_append _ _)]
    rfl
  have hfits : ¬ httpUrlBufferSize ≤ (ascii "/http/" ++ text).length := by
    rw [length_append, show (ascii "/http/").length = 6 by rfl]
    omega
  have hfull : pathOf (ascii "http://" ++ text) ++ (extractControls ((ascii "http://" ++ text).drop
        (pathOf (ascii "http://" ++ text)).length)).1 = ascii "http://" ++ editedUrl text :=
    editedUrl_append (by decide) text
  unfold serviceCreateFromHttpUrl
  rw [if_neg hfits, hpart]
  dsimp only
  split
  · rfl
  · rw [bind_some]
    rw [hfull]
    rfl

/-! ## The upstream of a text -/

section Reading

variable {r2hToken a w : Bytes} {t : Upstream}

theorem slash_not_mem_authority (url : Bytes) : slash ∉ authority url := fun h => by
  have := mem_takeWhile_imp h
  revert this
  decide

theorem question_not_mem_authority (url : Bytes) : question ∉ authority url := fun h => by
  have := mem_takeWhile_imp h
  revert this
  decide

theorem authority_append (url : Bytes) : authority url ++ pathQuery url = url := by
  have hdrop : authority url = url.take (authority url).length :=
    prefix_iff_eq_take.1 ( takeWhile_prefix _)
  conv_lhs => rw [hdrop]
  exact take_append_drop _ url

theorem pathQuery_head (url : Bytes) : pathQuery url = [] ∨ (pathQuery url).head? = some slash ∨
    (pathQuery url).head? = some question := by
  cases hd : pathQuery url with
  | nil => exact .inl rfl
  | cons c rest =>
    right
    have hc := (scan_cons hd).1
    rw [decide_eq_false_iff_not, not_and_or, not_not, not_not] at hc
    simpa using hc

theorem scan_slash (ha : slash ∉ a) (hw : w = [] ∨ w.head? = some slash) :
    (a ++ w).takeWhile (· ≠ slash) = a := by
  have hall : ∀ x ∈ a, decide (x ≠ slash) = true := fun x hx => by
    rw [decide_eq_true_eq]
    rintro rfl
    exact ha hx
  rw [takeWhile_append_of_pos hall]
  rcases hw with rfl | hw
  · simp
  · cases w with
    | nil => cases hw
    | cons c w =>
      obtain rfl : c = slash := some.inj hw
      simp

theorem upstreamAt_slash (ha : slash ∉ a) (hread : readHostPort a = some (t.host, t.port))
    (hw : w = [] ∨ w.head? = some slash) :
    upstreamAt r2hToken (a ++ w) = some t ↔ t.host.length < httpProxyHostSize ∧
      a.length < httpProxyHostSize + 16 ∧ targetPath r2hToken w = some t.path := by
  rw [upstreamAt_iff, scan_slash ha hw, drop_left]
  exact and_iff_right hread

theorem upstreamAt_question (ha : slash ∉ a) (hq : question ∉ a)
    (hread : readHostPort a = some (t.host, t.port)) :
    upstreamAt r2hToken (a ++ question :: w) ≠ some t := by
  rw [Ne, upstreamAt_iff]
  rintro ⟨hp, -⟩
  have hall : ∀ x ∈ a, decide (x ≠ slash) = true := fun x hx => by
    rw [decide_eq_true_eq]
    rintro rfl
    exact ha hx
  rw [takeWhile_append_of_pos hall, takeWhile_cons_of_pos (by decide)] at hp
  have hmem := (question_mem_of_read hp).2 (mem_append_right _ mem_cons_self)
  exact hq ((question_mem_of_read hread).1 hmem)

theorem targetPath_length (hw : w ≠ [])
    (hbody : ∀ p, ParamAt (queryOf w) p → named tokenName p = false)
    {path : Bytes} (h : targetPath r2hToken w = some path) : path.length ≤ w.length := by
  have hlen : w.length < httpProxyPathSize := by
    by_contra hge
    unfold targetPath at h
    rw [if_neg hw, if_pos (by omega)] at h
    cases h
  by_cases hplain : question ∉ w ∨ r2hToken = []
  · rw [targetPath_plain hw hlen hplain] at h
    rw [some.inj h]
  · rw [not_or, not_not] at hplain
    have hsplit := url_split hplain.1
    have hle := filteredQuery_length (queryOf w)
    have hlength := congrArg List.length hsplit
    rw [length_append, length_cons] at hlength
    rw [hsplit] at hlen
    conv at h => rw [hsplit]
    rw [targetPath_query (question_not_mem_pathOf w) hplain.2 hbody hlen] at h
    rw [← some.inj h]
    split
    · omega
    · rw [length_append, length_cons]
      omega

end Reading

/-! ## Queries without control parameters -/

theorem isControl_of_named {name p : Bytes} (hname : name ∈ tokenName :: controlNames)
    (h : named name p = true) : isControl p = true := by
  have hr2h : ∀ more, named (ascii "r2h-" ++ more) p = true → isControl p = true := by
    intro more h
    rw [named, Bool.and_eq_true] at h
    rw [isControl, prefixNoCase_of_key h.1]
    rfl
  simp only [controlNames, List.mem_cons, not_mem_nil, or_false] at hname
  rcases hname with rfl | rfl | rfl | rfl | rfl | rfl | rfl | rfl | rfl
  · exact hr2h (ascii "token") h
  · exact hr2h (ascii "seek-name") h
  · exact hr2h (ascii "seek-offset") h
  · exact hr2h (ascii "seek-mode") h
  · rw [isControl, h, Bool.or_true, Bool.true_or]
  · rw [isControl, h, Bool.or_true]
  · exact hr2h (ascii "ifname-fcc") h
  · exact hr2h (ascii "ifname") h
  · exact hr2h (ascii "filename") h

theorem ControlFree.unnamed {url : Bytes} (h : ControlFree url) :
    Unnamed (tokenName :: controlNames) (queryOf url) := by
  intro name hname p hp
  by_contra hn
  rw [Bool.not_eq_false] at hn
  have := h p hp
  rw [isControl_of_named hname hn] at this
  cases this

/-- A query that is cut off has no parameter that the whole does not have. -/
theorem Unnamed.take {names : List Bytes} {body : Bytes} (h : Unnamed names body) (n : ℕ) :
    Unnamed names (body.take n) := by
  rintro name hname p ⟨s, hsp, hs⟩
  by_contra hn
  rw [Bool.not_eq_false] at hn
  have hbody : body = s ++ (p ++ body.drop n) := by rw [← append_assoc, ← hsp, take_append_drop]
  have := h name hname _ ⟨s, hbody, hs⟩
  rw [named_append hn] at this
  cases this

theorem editedUrl_unnamed {url : Bytes} (h : Unnamed (tokenName :: controlNames) (queryOf url)) :
    editedUrl url = url := by
  by_cases hq : question ∈ url
  · conv_lhs => rw [url_split hq]
    rw [editedUrl_question (question_not_mem_pathOf url), extractControls_plain h]
    exact (url_split hq).symm
  · exact editedUrl_plain hq

/-! ## The token at the end -/

def tokenSeparator (hostStart : Bytes) : UInt8 := if question ∈ hostStart then ampersand else question

/-- A name that is cut off before its `=`. -/
structure CutName (cut : Bytes) : Prop where
  noEquals : equals ∉ cut
  noAmpersand : ampersand ∉ cut
  short : cut.length ≤ 9

theorem named_of_noEquals {p : Bytes} (hp : equals ∉ p) (name : Bytes) : named name p = false := by
  by_contra h
  rw [Bool.not_eq_false, named, Bool.and_eq_true, decide_eq_true_eq] at h
  exact hp (mem_of_getElem? h.2)

theorem token_cut {r2hToken hostStart tail : Bytes} (h : tail <+: tokenQuery r2hToken hostStart) :
    tail = [] ∨ r2hToken ≠ [] ∧ ((∃ cut, CutName cut ∧ tail = tokenSeparator hostStart :: cut) ∨
        ∃ value, ampersand ∉ value ∧ tail = tokenSeparator hostStart :: tokenParam value) := by
  by_cases hnil : tail = []
  · exact .inl hnil
  right
  unfold tokenQuery at h
  split at h
  · exact absurd (prefix_nil.1 h) hnil
  rename_i htoken
  refine ⟨htoken, ?_⟩
  obtain ⟨c, tail, rfl⟩ := exists_cons_of_ne_nil hnil
  rw [cons_prefix_cons] at h
  obtain ⟨hc, htail⟩ := h
  have hsep : c = tokenSeparator hostStart := hc
  rw [hsep]
  have hname : ascii "r2h-token=" = tokenName ++ [equals] := rfl
  rcases Nat.lt_or_ge 9 tail.length with hlong | hshort
  · right
    have hval : ascii "r2h-token=" <+: tail :=
      prefix_of_prefix_length_le (prefix_append _ _) htail (by
        rw [show (ascii "r2h-token=").length = 10 by rfl]
        omega)
    obtain ⟨value, rfl⟩ := hval
    rw [prefix_append_right_inj] at htail
    exact ⟨value, fun h => ampersand_not_mem_encode r2hToken (htail.subset h), rfl⟩
  · left
    have hcut : tail <+: tokenName := by
      rw [hname, append_assoc] at htail
      exact prefix_of_prefix_length_le htail (prefix_append _ _) hshort
    exact ⟨tail, ⟨fun h => absurd (hcut.subset h) (by decide),
      fun h => absurd (hcut.subset h) (by decide), hshort⟩, rfl⟩

theorem editedUrl_token {url value : Bytes} (hvalue : ampersand ∉ value)
    (h : Unnamed (tokenName :: controlNames) (queryOf url)) :
    editedUrl (url ++ tokenSeparator url :: tokenParam value) = url := by
  by_cases hq : question ∈ url
  · rw [tokenSeparator, if_pos hq]
    conv_lhs => rw [url_split hq]
    rw [append_assoc, cons_append, editedUrl_question (question_not_mem_pathOf url),
      extractControls_token hvalue h]
    exact (url_split hq).symm
  · rw [tokenSeparator, if_neg hq, editedUrl_question hq, extractControls_token_single hvalue,
      append_nil]

theorem editedUrl_cut {url cut : Bytes} (hcut : CutName cut)
    (h : Unnamed (tokenName :: controlNames) (queryOf url)) :
    editedUrl (url ++ tokenSeparator url :: cut) = url ++ tokenSeparator url :: cut := by
  apply editedUrl_unnamed
  by_cases hq : question ∈ url
  · have hquery : queryOf (url ++ tokenSeparator url :: cut) = queryOf url ++ ampersand :: cut := by
      rw [tokenSeparator, if_pos hq]
      conv_lhs => rw [url_split hq]
      rw [append_assoc, cons_append, queryOf_question (question_not_mem_pathOf url)]
    rw [hquery]
    exact unnamed_last _ hcut.noAmpersand (by decide +kernel)
      (fun name _ => named_of_noEquals hcut.noEquals name) h
  · rw [tokenSeparator, if_neg hq, queryOf_question hq]
    exact unnamed_single hcut.noAmpersand fun name _ => named_of_noEquals hcut.noEquals name

/-! ## The path -/

theorem filteredQuery_eq_iff (query : Bytes) :
    filteredQuery query = query ↔ query = [] ∨ [] ∉ query.splitOn ampersand :=
  intercalate_filter_eq_iff query

theorem filteredQuery_single {cut : Bytes} (h : ampersand ∉ cut) : filteredQuery cut = cut := by
  rw [filteredQuery_eq_iff, splitOn_eq_singleton h, mem_singleton]
  exact (eq_or_ne cut []).imp_right Ne.symm

theorem path_eq_iff {w s query filtered : Bytes} (hw : w = s ++ question :: query) :
    (if filtered = [] then s else s ++ question :: filtered) = w ↔
      filtered = query ∧ query ≠ [] := by
  rw [hw]
  split
  · simp [*]
  · rename_i hne
    rw [append_cancel_left_eq, List.cons.injEq, and_iff_right rfl]
    exact ⟨fun h => ⟨h, h ▸ hne⟩, And.left⟩

theorem filteredQuery_cut {query cut : Bytes} (h : ampersand ∉ cut) :
    filteredQuery (query ++ ampersand :: cut) = query ∧ query ≠ [] ↔
      cut = [] ∧ query ≠ [] ∧ [] ∉ query.splitOn ampersand := by
  have hsplit : (query ++ ampersand :: cut).splitOn ampersand =
      query.splitOn ampersand ++ [cut] := by
    rw [splitOn_append_cons_self, splitOn_eq_singleton h]
  by_cases hcut : cut = []
  · have hfilter : filteredQuery (query ++ ampersand :: cut) = filteredQuery query := by
      rw [filteredQuery, hsplit, filter_append, hcut]
      simp [filteredQuery]
    rw [hfilter, filteredQuery_eq_iff]
    simp only [hcut, true_and]
    exact ⟨fun h => ⟨h.2, h.1.resolve_left h.2⟩, fun h => ⟨.inr h.2, h.1⟩⟩
  · refine iff_of_false (fun hq => ?_) fun hq => hcut hq.1
    set fields := query.splitOn ampersand
    have hfilter : filteredQuery (query ++ ampersand :: cut) =
        [ampersand].intercalate (fields.filter (· ≠ []) ++ [cut]) := by
      rw [filteredQuery, hsplit, filter_append, filter_singleton]
      simp [hcut]
    have hfields : fields = fields.filter (· ≠ []) ++ [cut] := by
      have hjoin : ∀ f ∈ fields.filter (· ≠ []) ++ [cut], ampersand ∉ f := by
        intro f hf
        rcases mem_append.1 hf with hf | hf
        · exact (exists_of_mem_splitOn (mem_of_mem_filter hf)).1
        · rwa [mem_singleton.1 hf]
      rw [← splitOn_intercalate ampersand hjoin (by simp), ← hfilter, hq.1]
    have hall : fields.filter (· ≠ []) = fields := by
      rw [filter_eq_self]
      intro f hf
      rw [hfields] at hf
      rcases mem_append.1 hf with hf | hf
      · exact (mem_filter.1 hf).2
      · rw [mem_singleton.1 hf]
        simpa using hcut
    have hlen := congrArg List.length hfields
    rw [hall, length_append, length_singleton] at hlen
    omega

section Path

variable {r2hToken w : Bytes}

theorem targetPath_whole (hne : w ≠ []) (hlen : w.length < httpProxyPathSize)
    (hfree : ∀ p, ParamAt (queryOf w) p → named tokenName p = false) :
    targetPath r2hToken w = some w ↔ FilterKeeps r2hToken w := by
  by_cases hplain : question ∉ w ∨ r2hToken = []
  · rw [targetPath_plain hne hlen hplain]
    refine iff_of_true rfl fun htoken hq => ?_
    exact absurd hq (hplain.resolve_right htoken)
  · rw [not_or, not_not] at hplain
    have hsplit := url_split hplain.1
    have hread : targetPath r2hToken w = some (if filteredQuery (queryOf w) = [] then pathOf w
        else pathOf w ++ question :: filteredQuery (queryOf w)) := by
      conv_lhs => rw [hsplit]
      rw [targetPath_query (question_not_mem_pathOf w) hplain.2 hfree (hsplit ▸ hlen)]
    rw [hread, Option.some.injEq, path_eq_iff hsplit, filteredQuery_eq_iff]
    exact ⟨fun h _ _ => ⟨h.2, h.1.resolve_left h.2⟩,
      fun h => ⟨.inr (h hplain.2 hplain.1).2, (h hplain.2 hplain.1).1⟩⟩

/-- With a cut token after it, the path is read as it is only if nothing but the separator
    is left of the token. -/
theorem targetPath_cut {cut : Bytes} (hcut : CutName cut) (htoken : r2hToken ≠ [])
    (hlen : (w ++ tokenSeparator w :: cut).length < httpProxyPathSize)
    (hfree : ∀ p, ParamAt (queryOf w) p → named tokenName p = false) :
    targetPath r2hToken (w ++ tokenSeparator w :: cut) = some w ↔
      FilterKeeps r2hToken w ∧ cut = [] := by
  by_cases hq : question ∈ w
  · have hsplit := url_split hq
    have htext : w ++ tokenSeparator w :: cut =
        pathOf w ++ question :: (queryOf w ++ ampersand :: cut) := by
      rw [tokenSeparator, if_pos hq]
      conv_lhs => rw [hsplit]
      rw [append_assoc, cons_append]
    rw [htext] at hlen ⊢
    have hnamed : ∀ p, ParamAt (queryOf w ++ ampersand :: cut) p → named tokenName p = false :=
      fun p hp => unnamed_last [tokenName] hcut.noAmpersand (by decide +kernel)
        (fun name _ => named_of_noEquals hcut.noEquals name)
        (fun name hname p hp => by rw [mem_singleton.1 hname]; exact hfree p hp)
        tokenName mem_cons_self p hp
    rw [targetPath_query (question_not_mem_pathOf w) htoken hnamed hlen, Option.some.injEq,
      path_eq_iff hsplit, filteredQuery_cut hcut.noAmpersand]
    exact ⟨fun h => ⟨fun _ _ => h.2, h.1⟩, fun h => ⟨h.2, h.1 htoken hq⟩⟩
  · rw [tokenSeparator, if_neg hq] at hlen ⊢
    have hnamed : ∀ p, ParamAt cut p → named tokenName p = false := fun p hp => by
      rw [paramAt_single hcut.noAmpersand hp]
      exact named_of_noEquals hcut.noEquals _
    rw [targetPath_query hq htoken hnamed hlen, filteredQuery_single hcut.noAmpersand,
      Option.some.injEq]
    have hkeeps : FilterKeeps r2hToken w := fun _ h => absurd h hq
    rw [and_iff_right hkeeps]
    by_cases hnil : cut = []
    · simp
    · simp

end Path

/-! ## The whole URL -/

section Whole

variable {r2hToken url : Bytes} {t : Upstream}

theorem queryOf_append {a : Bytes} (ha : question ∉ a) (w : Bytes) :
    queryOf (a ++ w) = queryOf w := by
  by_cases hw : question ∈ w
  · conv_lhs => rw [url_split hw]
    rw [← append_assoc, queryOf_question]
    rw [mem_append, not_or]
    exact ⟨ha, question_not_mem_pathOf w⟩
  · have hnil : ∀ s : Bytes, question ∉ s → queryOf s = [] := fun s hs => by
      rw [queryOf, pathOf_of_not_mem hs, drop_length]
      rfl
    rw [hnil w hw, hnil]
    rw [mem_append, not_or]
    exact ⟨ha, hw⟩

theorem mem_pathQuery (url : Bytes) : question ∈ url ↔ question ∈ pathQuery url := by
  conv_lhs => rw [← authority_append url]
  rw [mem_append, or_iff_right (question_not_mem_authority url)]

theorem queryOf_pathQuery (url : Bytes) : queryOf (pathQuery url) = queryOf url := by
  conv_rhs => rw [← authority_append url]
  exact (queryOf_append (question_not_mem_authority url) _).symm

theorem filterKeeps_pathQuery : FilterKeeps r2hToken (pathQuery url) ↔ FilterKeeps r2hToken url := by
  rw [FilterKeeps, FilterKeeps, queryOf_pathQuery, ← mem_pathQuery]

theorem tokenSeparator_pathQuery (url : Bytes) :
    tokenSeparator (pathQuery url) = tokenSeparator url := by
  rw [tokenSeparator, tokenSeparator]
  exact if_congr (mem_pathQuery url).symm rfl rfl

theorem separator_head (url rest : Bytes) :
    (tokenSeparator url :: rest).head? = some question ∨ pathQuery url ≠ [] := by
  by_cases hq : question ∈ url
  · right
    intro hnil
    rw [mem_pathQuery, hnil] at hq
    exact absurd hq not_mem_nil
  · exact .inl (congrArg some (if_neg hq))

variable (r2hToken) in
theorem read_rest (hnamed : upstreamNamed url = some t) {rest : Bytes}
    (hrest : rest = [] ∨ rest.head? = some question ∨ pathQuery url ≠ []) :
    upstreamAt r2hToken (url ++ rest) = some t ↔ t.host.length < httpProxyHostSize ∧
      (authority url).length < httpProxyHostSize + 16 ∧
      (pathQuery url).head? ≠ some question ∧
      (pathQuery url = [] → rest = []) ∧
      (pathQuery url ≠ [] →
        targetPath r2hToken (pathQuery url ++ rest) = some (pathQuery url)) := by
  obtain ⟨hread, hpath⟩ := upstreamNamed_iff.1 hnamed
  have hslash := slash_not_mem_authority url
  have hquestion := question_not_mem_authority url
  have htext : url ++ rest = authority url ++ (pathQuery url ++ rest) := by
    rw [← append_assoc, authority_append]
  rw [htext]
  rcases pathQuery_head url with hpq | hpq | hpq
  · rw [hpq, nil_append]
    have hroot : t.path = [slash] := by
      rw [hpath]
      exact congrArg requestPath hpq
    by_cases hnil : rest = []
    · rw [hnil, upstreamAt_slash hslash hread (.inl rfl), hroot]
      simp [targetPath]
    · have hhead := (hrest.resolve_left hnil).resolve_right fun h => h hpq
      obtain ⟨w, rfl⟩ : ∃ w, rest = question :: w := by
        cases rest with
        | nil => cases hhead
        | cons c w => exact ⟨w, congrArg (· :: w) (some.inj hhead)⟩
      exact iff_of_false (upstreamAt_question hslash hquestion hread) fun h => hnil (h.2.2.2.1 rfl)
  · have hne : pathQuery url ≠ [] := by
      intro h
      rw [h] at hpq
      cases hpq
    have hpq' : t.path = pathQuery url := by
      rw [hpath]
      exact if_pos hpq
    have hhead : (pathQuery url ++ rest).head? = some slash := by
      rw [head?_append_of_ne_nil _ hne, hpq]
    rw [upstreamAt_slash hslash hread (.inr hhead), hpq', hpq]
    simp [hne, slash, question]
  · obtain ⟨w, hw⟩ : ∃ w, pathQuery url = question :: w := by
      cases hd : pathQuery url with
      | nil => rw [hd] at hpq; cases hpq
      | cons c w =>
        rw [hd] at hpq
        exact ⟨w, congrArg (· :: w) (some.inj hpq)⟩
    rw [hw, cons_append]
    exact iff_of_false (upstreamAt_question hslash hquestion hread) fun h => h.2.2.1 rfl

theorem read_whole (hnamed : upstreamNamed url = some t)
    (hfree : Unnamed (tokenName :: controlNames) (queryOf url)) {tail : Bytes}
    (htail : tail <+: tokenQuery r2hToken url)
    (hlen : (url ++ tail).length < httpProxyPathSize) :
    upstreamAt r2hToken (editedUrl (url ++ tail)) = some t ↔ t.host.length < httpProxyHostSize ∧
        (authority url).length < httpProxyHostSize + 16 ∧
        (pathQuery url).head? ≠ some question ∧ FilterKeeps r2hToken url ∧
        (tail.length = 0 ∨ 11 ≤ tail.length ∨ tail.length = 1 ∧ pathQuery url ≠ []) := by
  have hlength := congrArg List.length (authority_append url)
  rw [length_append] at hlength hlen
  have htokens : ∀ p, ParamAt (queryOf (pathQuery url)) p → named tokenName p = false := by
    rw [queryOf_pathQuery]
    exact hfree tokenName mem_cons_self
  have hkept : pathQuery url = [] → FilterKeeps r2hToken url := fun hnil _ hq =>
    absurd ((mem_pathQuery url).1 hq) (by rw [hnil]; exact not_mem_nil)
  have hplain : upstreamAt r2hToken url = some t ↔ t.host.length < httpProxyHostSize ∧
      (authority url).length < httpProxyHostSize + 16 ∧
      (pathQuery url).head? ≠ some question ∧ FilterKeeps r2hToken url := by
    have hread := read_rest r2hToken hnamed (.inl rfl : ([] : Bytes) = [] ∨ _)
    rw [append_nil, append_nil] at hread
    rw [hread, and_iff_right (fun _ => rfl)]
    have hpath : (pathQuery url ≠ [] → targetPath r2hToken (pathQuery url) = some (pathQuery url)) ↔
        FilterKeeps r2hToken url := by
      by_cases hnil : pathQuery url = []
      · exact iff_of_true (fun h => absurd hnil h) (hkept hnil)
      · rw [← filterKeeps_pathQuery, ← targetPath_whole hnil (by omega) htokens]
        exact ⟨fun h => h hnil, fun h _ => h⟩
    rw [hpath]
  rcases token_cut htail with rfl | ⟨htoken, ⟨cut, hcut, rfl⟩ | ⟨value, hvalue, rfl⟩⟩
  · rw [append_nil, editedUrl_unnamed hfree, hplain]
    simp
  · rw [editedUrl_cut hcut hfree, read_rest _ hnamed (.inr (separator_head url cut))]
    have hshort := hcut.short
    rw [length_cons] at hlen ⊢
    by_cases hnil : pathQuery url = []
    · refine iff_of_false (fun h => cons_ne_nil _ _ (h.2.2.2.1 hnil)) fun h => ?_
      rcases h.2.2.2.2 with h | h | h
      · omega
      · omega
      · exact h.2 hnil
    · have hpath := targetPath_cut (w := pathQuery url) hcut htoken
        (by rw [length_append, length_cons]; omega) htokens
      rw [tokenSeparator_pathQuery, filterKeeps_pathQuery] at hpath
      rw [hpath, ← length_eq_zero_iff (l := cut)]
      constructor
      · rintro ⟨h1, h2, h3, -, h5⟩
        exact ⟨h1, h2, h3, (h5 hnil).1, .inr (.inr ⟨by rw [(h5 hnil).2], hnil⟩)⟩
      · rintro ⟨h1, h2, h3, h4, h5⟩
        exact ⟨h1, h2, h3, fun h => absurd h hnil, fun _ => ⟨h4, by omega⟩⟩
  · rw [editedUrl_token hvalue hfree, hplain]
    have hlong : 11 ≤ (tokenSeparator url :: tokenParam value).length := by
      rw [length_cons, tokenParam, length_append, show (ascii "r2h-token=").length = 10 by rfl]
      omega
    simp only [hlong, true_or, or_true, and_true]

end Whole

/-! ## A part of the URL -/

section Part

variable {r2hToken url : Bytes} {t : Upstream}

theorem authority_of_prefix {text : Bytes} (h : text <+: authority url) : authority text = text :=
  takeWhile_eq_self_iff.2 fun _ hc =>
    mem_takeWhile_imp (p := fun c => c ≠ slash ∧ c ≠ question) (h.subset hc)

theorem queryOf_take (w : Bytes) (n : ℕ) : ∃ m, queryOf (w.take n) = (queryOf w).take m := by
  have hnil : ∀ s : Bytes, question ∉ s → queryOf s = [] := fun s hs => by
    rw [queryOf, pathOf_of_not_mem hs, drop_length]
    rfl
  by_cases hq : question ∈ w
  · have hs := question_not_mem_pathOf w
    have hsplit := url_split hq
    rcases Nat.lt_or_ge (pathOf w).length n with hlong | hshort
    · obtain ⟨j, rfl⟩ : ∃ j, n = (pathOf w).length + (j + 1) :=
        ⟨n - (pathOf w).length - 1, by omega⟩
      refine ⟨j, ?_⟩
      have htake : w.take ((pathOf w).length + (j + 1)) =
          pathOf w ++ question :: (queryOf w).take j := by
        conv_lhs => rw [hsplit, pathOf_question hs]
        rw [take_length_add_append, take_succ_cons]
      rw [htake, queryOf_question hs]
    · refine ⟨0, hnil _ fun h => hs ?_⟩
      have htake : w.take n = (pathOf w).take n := by
        conv_lhs => rw [hsplit]
        exact take_append_of_le_length hshort
      rw [htake] at h
      exact mem_of_mem_take h
  · exact ⟨0, hnil _ fun h => hq (mem_of_mem_take h)⟩

variable (r2hToken) in
theorem read_authority (hnamed : upstreamNamed url = some t) {text : Bytes}
    (h : text <+: authority url) :
    upstreamAt r2hToken (editedUrl text) = some t ↔ t.host.length < httpProxyHostSize ∧
      (authority text).length < httpProxyHostSize + 16 ∧
      readHostPort text = readHostPort (authority url) ∧
      requestPath (pathQuery url) = [slash] := by
  obtain ⟨hread, hpath⟩ := upstreamNamed_iff.1 hnamed
  have hquestion : question ∉ text := fun hq => question_not_mem_authority url (h.subset hq)
  have hslash : slash ∉ text := fun hs => slash_not_mem_authority url (h.subset hs)
  have hscan : text.takeWhile (· ≠ slash) = text := by simpa using scan_slash hslash (.inl rfl)
  have hroot : targetPath r2hToken [] = some [slash] := rfl
  rw [editedUrl_plain hquestion, upstreamAt_iff, hscan, drop_length, hroot, hread,
    authority_of_prefix h, hpath, Option.some.injEq, eq_comm (a := [slash])]
  exact ⟨fun ⟨h1, h2, h3, h4⟩ => ⟨h2, h3, h1, h4⟩, fun ⟨h2, h3, h1, h4⟩ => ⟨h1, h2, h3, h4⟩⟩

theorem read_path_cut (hnamed : upstreamNamed url = some t)
    (hfree : Unnamed (tokenName :: controlNames) (queryOf url)) {n : ℕ}
    (hlow : (authority url).length < n) (hhigh : n < url.length) :
    upstreamAt r2hToken (editedUrl (url.take n)) ≠ some t := by
  obtain ⟨hread, hpath⟩ := upstreamNamed_iff.1 hnamed
  obtain ⟨k, rfl⟩ : ∃ k, n = (authority url).length + (k + 1) :=
    ⟨n - (authority url).length - 1, by omega⟩
  have hlength := congrArg List.length (authority_append url)
  rw [length_append] at hlength
  have htext : url.take ((authority url).length + (k + 1)) =
      authority url ++ (pathQuery url).take (k + 1) := by
    have htake : (authority url ++ pathQuery url).take ((authority url).length + (k + 1)) =
        authority url ++ (pathQuery url).take (k + 1) := take_length_add_append _
    rwa [authority_append] at htake
  have hcut : Unnamed (tokenName :: controlNames)
      (queryOf (authority url ++ (pathQuery url).take (k + 1))) := by
    rw [← htext]
    obtain ⟨m, hm⟩ := queryOf_take url ((authority url).length + (k + 1))
    rw [hm]
    exact hfree.take m
  rw [htext, editedUrl_unnamed hcut]
  rw [queryOf_append (question_not_mem_authority url)] at hcut
  have hslash := slash_not_mem_authority url
  cases hw : pathQuery url with
  | nil =>
    rw [hw, length_nil] at hlength
    omega
  | cons c w =>
    rw [hw, length_cons] at hlength
    rw [hw, take_succ_cons] at hcut
    rw [take_succ_cons]
    have hhead := pathQuery_head url
    rw [hw] at hhead
    rcases hhead with hnil | hc | hc
    · cases hnil
    · have hc' : (c :: w.take k).head? = some slash := hc
      rw [Ne, upstreamAt_slash hslash hread (.inr hc')]
      rintro ⟨-, -, htarget⟩
      have hle := targetPath_length (cons_ne_nil _ _) (hcut tokenName mem_cons_self) htarget
      have hroot : t.path = c :: w := by
        rw [hpath]
        exact (congrArg requestPath hw).trans (if_pos hc)
      rw [hroot, length_cons, length_cons, length_take] at hle
      omega
    · obtain rfl : c = question := some.inj hc
      exact upstreamAt_question hslash (question_not_mem_authority url) hread

end Part

/-! ## The routing -/

section Routing

variable {Service : Type} {cfg : RouteConfig} {udpxy : Bool} {r2hToken : Bytes}
  {services : Bytes → Option Service} {url : RequestUrl} {t : Upstream}

theorem started_of_strip {appPathPrefix s internal : Bytes}
    (h : stripAppPathPrefix appPathPrefix s = some internal)
    (hproxy : ascii "/http/" <+: internal) :
    question ∉ appPathPrefix ∧ appPathPrefix ++ ascii "/http/" <+: s := by
  unfold stripAppPathPrefix at h
  dsimp only at h
  split at h
  · rename_i hnil
    obtain rfl := some.inj h
    rw [hnil]
    exact ⟨not_mem_nil, hproxy⟩
  split at h
  · cases h
  rename_i hmatch
  rw [not_or, not_not] at hmatch
  have hstart : appPathPrefix <+: pathOf s := by
    refine prefix_of_prefix_length_le ?_ ( takeWhile_prefix _) (Nat.not_lt.1 hmatch.1)
    exact prefix_iff_eq_take.2 hmatch.2.symm
  refine ⟨fun hq => question_not_mem_pathOf s (hstart.subset hq), ?_⟩
  split at h
  · obtain rfl := some.inj h
    rw [show ascii "/http/" = slash :: ascii "http/" by rfl, cons_prefix_cons] at hproxy
    cases hd : s.drop (pathOf s).length with
    | nil =>
      rw [hd] at hproxy
      exact absurd (prefix_nil.1 hproxy.2) (by decide)
    | cons c rest =>
      have hc := (scan_cons hd).1
      rw [hd, show ascii "http/" = 0x68 :: ascii "ttp/" by rfl, cons_prefix_cons] at hproxy
      rw [← hproxy.2.1] at hc
      exact absurd hc (by decide)
  · split at h
    · cases h
    · obtain rfl := some.inj h
      rw [← take_append_drop appPathPrefix.length s, hmatch.2, prefix_append_right_inj]
      exact hproxy

theorem left_eq (h : cfg.appPathPrefix ++ ascii "/http/" <+: httpStripUrlLabel url.bytes) :
    httpStripUrlLabel url.bytes =
      cfg.appPathPrefix ++ slash :: (ascii "http/" ++ leftOf cfg url) := by
  obtain ⟨text, htext⟩ := h
  have hlen : cfg.appPathPrefix.length + 6 = (cfg.appPathPrefix ++ ascii "/http/").length := by
    rw [length_append]
    rfl
  rw [leftOf, ← htext, hlen, drop_left, append_assoc]
  rfl

theorem route_started (hq : question ∉ cfg.appPathPrefix)
    (h : cfg.appPathPrefix ++ ascii "/http/" <+: httpStripUrlLabel url.bytes) :
    connectionRouteAndStart cfg url = routePath cfg (proxyRoute cfg url) := by
  have hleft := left_eq h
  have hhead : (cfg.appPathPrefix ++ slash :: (ascii "http/" ++ leftOf cfg url)).head? =
      some slash := by
    by_cases hnil : cfg.appPathPrefix = []
    · rw [hnil]
      rfl
    · rw [head?_append_of_ne_nil _ hnil]
      exact cfg.prefixSlash hnil
  unfold connectionRouteAndStart
  rw [hleft, if_neg (by rw [hhead]; simp), stripAppPathPrefix_of_slash hq]
  rfl

theorem leftOf_length (url : RequestUrl)
    (h : cfg.appPathPrefix ++ ascii "/http/" <+: httpStripUrlLabel url.bytes) :
    (leftOf cfg url).length + 6 < httpUrlBufferSize := by
  have hlen := h.length_le
  rw [length_append, show (ascii "/http/").length = 6 by rfl] at hlen
  have hstrip := strip_length_le url.bytes
  have hfits := url.fits
  rw [leftOf, length_drop]
  omega

theorem requestedUpstream_iff : requestedUpstream cfg udpxy r2hToken services url = some t ↔
      question ∉ cfg.appPathPrefix ∧
      cfg.appPathPrefix ++ ascii "/http/" <+: httpStripUrlLabel url.bytes ∧
      udpxy = true ∧ reservedRoute cfg (proxyRoute cfg url) = none ∧
      (∃ decoded, httpUrlDecode (proxyRoute cfg url) = some decoded ∧
        services (httpStripUrlLabel (cstr decoded)) = none) ∧
      (if leftOf cfg url = [] ∨ (leftOf cfg url).head? = some slash then none
        else upstreamAt r2hToken (editedUrl (leftOf cfg url))) = some t := by
  by_cases hstart : question ∉ cfg.appPathPrefix ∧
      cfg.appPathPrefix ++ ascii "/http/" <+: httpStripUrlLabel url.bytes
  · obtain ⟨hq, hstarted⟩ := hstart
    rw [and_iff_right hq, and_iff_right hstarted]
    have hstrip : stripAppPathPrefix cfg.appPathPrefix (httpStripUrlLabel url.bytes) =
        some (ascii "/http/" ++ leftOf cfg url) := by
      rw [left_eq hstarted, stripAppPathPrefix_of_slash hq]
      rfl
    have hcreate : serviceCreateFromUdpxyUrl (ascii "/http/" ++ leftOf cfg url) =
        serviceCreateFromHttpUrl (ascii "/http/" ++ leftOf cfg url) := by
      unfold serviceCreateFromUdpxyUrl
      rw [if_neg (by rintro (h | h) <;> simp [ascii] at h), if_neg (by intro h; simp [ascii] at h),
        if_pos (prefix_append _ _)]
    rw [← parse_service (leftOf_length url hstarted), ← hcreate]
    unfold requestedUpstream requestedService
    rw [route_started hq hstarted, hstrip, bind_some]
    cases hr : reservedRoute cfg (proxyRoute cfg url) with
    | some r =>
      refine iff_of_false ?_ (by simp)
      have hroute : ∀ key, routePath cfg (proxyRoute cfg url) ≠ .service key :=
        routePath_of_reserved (by rw [hr]; simp)
      cases hp : routePath cfg (proxyRoute cfg url) with
      | service key => exact absurd hp (hroute key)
      | _ => simp
    | none =>
      cases hd : httpUrlDecode (proxyRoute cfg url) with
      | none => simp [routePath, hr, hd]
      | some decoded =>
        rw [routePath_of_decode hr hd]
        cases hs : services (httpStripUrlLabel (cstr decoded)) with
        | some s => simp [hs]
        | none => cases udpxy <;> simp [hs]
  · refine iff_of_false (fun h => hstart ?_) fun h => hstart ⟨h.1, h.2.1⟩
    unfold requestedUpstream requestedService at h
    obtain ⟨s, hs, -⟩ := bind_eq_some_iff.1 h
    split at hs
    · split at hs
      · cases hs
      · split at hs
        · obtain ⟨internal, hinternal, hs⟩ := bind_eq_some_iff.1 hs
          refine started_of_strip hinternal ?_
          unfold serviceCreateFromUdpxyUrl at hs
          by_contra hproxy
          rw [if_neg hproxy, ite_self, ite_self] at hs
          cases hs
        · cases hs
    · cases hs

end Routing

/-! ## Result -/

section Result

variable {r2hToken hostStart : Bytes} {t : Upstream}

theorem strip_take (s : Bytes) : ∃ m, httpStripUrlLabel s = s.take m := by
  cases h : httpFindUrlLabel s with
  | none => exact ⟨s.length, by rw [strip_of_none h, take_length]⟩
  | some i => exact ⟨i, strip_of_some h⟩

theorem leftOf_take {cfg : RouteConfig} {httpUrl origin rewritten : Bytes} {outputSize : ℕ}
    (hmatch : httpProxyMatchM3uScheme httpUrl = some (hostStart, ascii "http/"))
    (hbuild : httpProxyBuildUrl r2hToken httpUrl (origin ++ appBasePath cfg) outputSize =
      some rewritten)
    {url : RequestUrl}
    (hurl : url.bytes = (rewritten.drop origin.length).take (httpUrlBufferSize - 1)) :
    ∃ n, leftOf cfg url = (hostStart ++ tokenQuery r2hToken hostStart).take n := by
  have htarget : rewritten.drop origin.length = (cfg.appPathPrefix ++ ascii "/http/") ++
      (hostStart ++ tokenQuery r2hToken hostStart) := by
    unfold httpProxyBuildUrl at hbuild
    rw [hmatch] at hbuild
    dsimp only at hbuild
    split at hbuild
    · cases hbuild
    · obtain rfl := some.inj hbuild
      rw [append_assoc, append_assoc, append_assoc, drop_left, appBasePath,
        append_assoc, append_assoc]
      rfl
  obtain ⟨m, hm⟩ := strip_take url.bytes
  have hlen : cfg.appPathPrefix.length + 6 = (cfg.appPathPrefix ++ ascii "/http/").length := by
    rw [length_append]
    rfl
  refine ⟨min m (httpUrlBufferSize - 1) - (cfg.appPathPrefix.length + 6), ?_⟩
  rw [leftOf, hm, hurl, htarget, take_take, drop_take, hlen, drop_left]

theorem authority_rest {rest : Bytes}
    (h : rest = [] ∨ rest.head? = some question ∨ pathQuery hostStart ≠ []) :
    authority (hostStart ++ rest) = authority hostStart := by
  have hstop : pathQuery hostStart ++ rest = [] ∨ (pathQuery hostStart ++ rest).head? = some slash ∨
      (pathQuery hostStart ++ rest).head? = some question := by
    by_cases hnil : pathQuery hostStart = []
    · rw [hnil, nil_append]
      rcases h with rfl | h | h
      · exact .inl rfl
      · exact .inr (.inr h)
      · exact absurd hnil h
    · rw [head?_append_of_ne_nil _ hnil]
      exact .inr ((pathQuery_head hostStart).resolve_left hnil)
  have hall : ∀ c ∈ authority hostStart, decide (c ≠ slash ∧ c ≠ question) = true := fun c hc =>
    mem_takeWhile_imp (p := fun c => c ≠ slash ∧ c ≠ question) hc
  conv_lhs => rw [← authority_append hostStart, append_assoc]
  rw [authority, takeWhile_append_of_pos hall]
  cases hw : pathQuery hostStart ++ rest with
  | nil => simp
  | cons c w =>
    rw [hw] at hstop
    rw [takeWhile_cons_of_neg, append_nil]
    rcases hstop with h | h | h
    · cases h
    · rw [some.inj h]
      decide
    · rw [some.inj h]
      decide

section

variable (hnamed : upstreamNamed hostStart = some t)

include hnamed

theorem authority_ne_nil : authority hostStart ≠ [] := by
  intro hnil
  have hread := (upstreamNamed_iff.1 hnamed).1
  rw [hnil, readHostPort_nil] at hread
  cases hread

theorem text_started {text : Bytes} (h : authority hostStart <+: text) :
    ¬ (text = [] ∨ text.head? = some slash) := by
  obtain ⟨rest, rfl⟩ := h
  have hne := authority_ne_nil hnamed
  rw [head?_append_of_ne_nil _ hne]
  rintro (hnil | hslash)
  · exact hne (append_eq_nil_iff.1 hnil).1
  · exact slash_not_mem_authority hostStart (mem_of_head? hslash)

theorem read_left (hfree : ControlFree hostStart) {n : ℕ} {text : Bytes}
    (htext : text = (hostStart ++ tokenQuery r2hToken hostStart).take n)
    (hlen : text.length < httpProxyPathSize) :
    (if text = [] ∨ text.head? = some slash then none
      else upstreamAt r2hToken (editedUrl text)) = some t ↔
      t.host.length < httpProxyHostSize ∧
        (authority text).length < httpProxyHostSize + 16 ∧ Kept r2hToken hostStart text := by
  have hstart : authority hostStart <+: hostStart := takeWhile_prefix _
  rcases Nat.lt_or_ge n hostStart.length with hcut | hwhole
  · have hpart : text = hostStart.take n := by
      rw [htext, take_append_of_le_length (Nat.le_of_lt hcut)]
    have hshort : text.length < hostStart.length := by
      rw [hpart, length_take]
      omega
    have hnot : ¬ hostStart <+: text := fun h => absurd h.length_le (by omega)
    rcases Nat.lt_or_ge (authority hostStart).length n with hlong | hle
    · have hnotin : ¬ text <+: authority hostStart := fun h => by
        have := h.length_le
        rw [hpart, length_take] at this
        omega
      have hbegin : authority hostStart <+: text := by
        rw [hpart, prefix_take_iff]
        exact ⟨hstart, Nat.le_of_lt hlong⟩
      rw [if_neg (text_started hnamed hbegin), hpart]
      refine iff_of_false (read_path_cut hnamed hfree.unnamed hlong hcut) fun h => ?_
      rw [← hpart] at h
      rcases h.2.2 with h | h
      · exact hnot h.1
      · exact hnotin h.2.1
    · have hin : text <+: authority hostStart := by
        rw [hpart]
        exact prefix_of_prefix_length_le ( take_prefix _ _) hstart (by
          rw [length_take]
          omega)
      have hslash : text.head? ≠ some slash := fun h =>
        slash_not_mem_authority hostStart (hin.subset (mem_of_head? h))
      have hkept : Kept r2hToken hostStart text ↔
          readHostPort text = readHostPort (authority hostStart) ∧
            requestPath (pathQuery hostStart) = [slash] := by
        unfold Kept
        rw [or_iff_right fun h => hnot h.1, and_iff_right hshort, and_iff_right hin]
      rw [hkept, ← read_authority r2hToken hnamed hin]
      by_cases hnil : text = []
      · rw [if_pos (.inl hnil)]
        refine iff_of_false (by simp) fun h => ?_
        have hread := ((read_authority _ hnamed hin).1 h).2.2.1
        rw [hnil, readHostPort_nil, (upstreamNamed_iff.1 hnamed).1] at hread
        cases hread
      · rw [if_neg (not_or.2 ⟨hnil, hslash⟩)]
  · obtain ⟨k, rfl⟩ : ∃ k, n = hostStart.length + k := ⟨n - hostStart.length, by omega⟩
    rw [take_length_add_append] at htext
    subst htext
    set tail := (tokenQuery r2hToken hostStart).take k
    have htail : tail <+: tokenQuery r2hToken hostStart := take_prefix _ _
    have hbegin : authority hostStart <+: hostStart ++ tail := hstart.trans (prefix_append _ _)
    have hauthority : authority (hostStart ++ tail) = authority hostStart := by
      apply authority_rest
      rcases token_cut htail with hnil | ⟨-, ⟨cut, -, hcut⟩ | ⟨value, -, hvalue⟩⟩
      · exact .inl hnil
      · rw [hcut]
        exact .inr (separator_head hostStart cut)
      · rw [hvalue]
        exact .inr (separator_head hostStart _)
    have hkept : Kept r2hToken hostStart (hostStart ++ tail) ↔
        (pathQuery hostStart).head? ≠ some question ∧ FilterKeeps r2hToken hostStart ∧
          (tail.length = 0 ∨ 11 ≤ tail.length ∨ tail.length = 1 ∧ pathQuery hostStart ≠ []) := by
      unfold Kept
      rw [or_iff_left fun h => absurd h.1 (by rw [length_append]; omega),
        and_iff_right (prefix_append _ _), length_append]
      simp [Nat.add_eq_left, Nat.add_le_add_iff_left, Nat.add_left_cancel_iff]
    rw [if_neg (text_started hnamed hbegin), read_whole hnamed hfree.unnamed htail hlen,
      hauthority, hkept]

end

end Result

/-- The request for a rewritten segment of an IPv6 upstream. -/
def segmentUrl : RequestUrl :=
  ⟨ascii "/http/[fd00::1]:8080/1.ts?id=5&r2h-token=s%20x", by decide, by decide⟩

def dollarSegmentUrl : RequestUrl := ⟨ascii "/http/h/a$b.ts", by decide, by decide⟩

end Apackage.Rtp2httpd
