import Apackage.Lib.Run
import Apackage.Rtp2httpd.Playlist.Generate

/-
  The playlist answer and its tag (`handle_playlist_request` in `connection.c`,
  `http_check_etag_and_send_304` in `http.c`).

  The tag is the hash of the transformed text, and the answer is more than this text
  (`tagSound_iff`).

  Model. The cache is one process's copy; any order of the calls that change it, of fetches, reloads
  and requests is a run. `address` stands for a change of what `get_server_address` returns. Fields
  that neither the answer nor the tag reads are left out.
-/

namespace Apackage.Rtp2httpd

open List Option Lib.Run

/-! ## The answer -/

/-- A tag of the list, without weakness and quotes. -/
def candidateTag (token : Bytes) : Bytes :=
  let candidate :=
    if 2 < token.length ∧ ascii "W/" <+: token then (token.drop 2).dropWhile isBlank else token
  if 2 < candidate.length ∧ candidate.head? = some quote ∧ candidate.getLast? = some quote then
    (candidate.drop 1).dropLast
  else candidate

def etagMatches (ifNoneMatch etag : Bytes) : Bool :=
  (ifNoneMatch.splitOn comma).any fun piece =>
    let token := (piece.dropWhile isBlank).rdropWhile isBlank
    token ≠ [] && (token = ascii "*" || candidateTag token = etag)

inductive PlaylistResponse
  | notModified (etag : Bytes)
  | ok (etag : Option Bytes) (body : Bytes)
  | notFound
  /-- The process has written outside the buffer. -/
  | overrun

/-- The tag that the client gets. -/
def PlaylistResponse.etag : PlaylistResponse → Option Bytes
  | .notModified etag => some etag
  | .ok etag _ => etag
  | .notFound => none
  | .overrun => none

/-- What a request gets from `m3u_generate_playlist`: no text is NULL, and none is a write outside
    the buffer. -/
def playlistBody (heap : Heap) (s : PlaylistSite) (h : ForwardHeaders) : Option (Option Bytes) :=
  (generatePlaylist heap s h).map (Option.map cstr)

def handlePlaylistRequest (heap : Heap) (s : PlaylistSite) (h : ForwardHeaders)
    (ifNoneMatch : Bytes) : PlaylistSite × PlaylistResponse :=
  let (m3u, etag) := s.m3u.getEtag
  let s := { s with m3u }
  let generated :=
    match playlistBody heap s h with
    | none => .overrun
    | some none => .notFound
    | some (some body) => .ok etag body
  match etag with
  | some tag => if etagMatches ifNoneMatch tag then (s, .notModified tag) else (s, generated)
  | none => (s, generated)

/-! ## Runs -/

inductive SiteEvent
  /-- A line of a playlist that is being read. -/
  | append (str : Bytes)
  | endOfInline
  /-- `m3u_reset_transformed_playlist`, `m3u_reset_external_playlist`. -/
  | resetTransformed
  | resetExternal
  /-- `epg_set_url`; no URL is the empty one. -/
  | epgSetUrl (url : Bytes)
  /-- The guide has been fetched. -/
  | epgFetched (isGzipped : Bool)
  | epgCleanup
  /-- The settings are read. -/
  | configure (config : SiteConfig)
  | address (serverAddress : Option Bytes)
  /-- `m3u_cache_snapshot` and its like, `restore_reload_snapshot`, `free_reload_snapshot`. -/
  | takeSnapshot
  | restoreSnapshot
  | freeSnapshot
  /-- A request for the playlist, with any headers (`handle_site`). -/
  | request

def siteStep (s : PlaylistSite) : SiteEvent → PlaylistSite
  | .append str => { s with m3u := s.m3u.append str }
  | .endOfInline => { s with m3u := s.m3u.markInline }
  | .resetTransformed => { s with m3u := .empty }
  | .resetExternal => { s with m3u := s.m3u.resetExternal }
  | .epgSetUrl url => { s with epg := { s.epg with url := if url = [] then none else some url } }
  | .epgFetched isGzipped => { s with epg := { s.epg with isGzipped } }
  | .epgCleanup => { s with epg := ⟨none, false⟩ }
  | .configure config => { s with config }
  | .address serverAddress => { s with serverAddress }
  | .takeSnapshot => { s with snapshot := some ⟨s.m3u, s.epg, s.config⟩ }
  | .restoreSnapshot =>
    match s.snapshot with
    | none => s
    | some old => { s with m3u := old.m3u, epg := old.epg, config := old.config, snapshot := none }
  | .freeSnapshot => { s with snapshot := none }
  | .request => { s with m3u := s.m3u.getEtag.1 }

/-- The start of a process. -/
def PlaylistSite.init (config : SiteConfig) (serverAddress : Option Bytes) : PlaylistSite :=
  ⟨.empty, ⟨none, false⟩, config, serverAddress, none⟩

/-- What the tag promises for two moments and the same headers: whoever gets one tag at both
    gets one text, or none at either. -/
def TagSound (s s' : PlaylistSite) (h : ForwardHeaders) : Prop :=
  ∀ heap heap' ifNoneMatch ifNoneMatch' tag,
    (handlePlaylistRequest heap s h ifNoneMatch).2.etag = some tag →
    (handlePlaylistRequest heap' s' h ifNoneMatch').2.etag = some tag →
    ∃ body, playlistBody heap s h = some body ∧ playlistBody heap' s' h = some body

/-- The texts of the two moments do not collide. -/
def NoCollision (s s' : PlaylistSite) : Prop :=
  ∀ text text', s.m3u.served = some text → s'.m3u.served = some text' →
    md5Hex text = md5Hex text' → text = text'

/-- The base URL is a string of one line, as the headers and the settings are. -/
def PlainBaseUrl (s : PlaylistSite) (h : ForwardHeaders) : Prop :=
  ∀ baseUrl, buildProxyBaseUrl s.config s.serverAddress h = some baseUrl →
    0 ∉ baseUrl ∧ LF ∉ baseUrl

/-- The text behind a header line that is not counted looks like a header line that is cut. -/
def LooksCut (header baseUrl header' baseUrl' text : Bytes) : Prop :=
  resultSize text baseUrl ≤ header.length ∧ header.length < 2 ^ 31 ∧ 2 ^ 31 ≤ header'.length ∧
    header.take (resultSize text baseUrl - 1) = expandText baseUrl' (cstr text)

/-- The same is left of both header lines, and a copy of the text follows behind both or neither,
    with one base URL if the text has a placeholder. -/
def SameParts (header baseUrl header' baseUrl' text : Bytes) : Prop :=
  keptHeader header baseUrl text = keptHeader header' baseUrl' text ∧
    copyFollows header baseUrl text = copyFollows header' baseUrl' text ∧
    (copyFollows header baseUrl text = true → baseUrlPlaceholder <:+: cstr text →
      baseUrl = baseUrl')

/-- What surrounds a text is the same at both moments, and the copies fit. -/
def SameSurroundings (s s' : PlaylistSite) (h : ForwardHeaders) (text : Bytes) : Prop :=
  match buildProxyBaseUrl s.config s.serverAddress h,
      buildProxyBaseUrl s'.config s'.serverAddress h with
  | none, none => True
  | some baseUrl, some baseUrl' =>
    let header := headerLine (epgLink s baseUrl)
    let header' := headerLine (epgLink s' baseUrl')
    CopyFits header baseUrl text ∧ CopyFits header' baseUrl' text ∧
      (SameParts header baseUrl header' baseUrl' text ∨
        LooksCut header baseUrl header' baseUrl' text ∨
        LooksCut header' baseUrl' header baseUrl text)
  | _, _ => False

/-! ## The tag is the hash of the text -/

namespace M3uCache

/-- A valid tag belongs to the text that is served. -/
def TagCurrent (c : M3uCache) : Prop := c.etagValid = true → c.served.map md5Hex = some c.etag

variable {c : M3uCache}

theorem TagCurrent.of_invalid (h : c.etagValid = false) : c.TagCurrent := by
  intro hvalid
  rw [h] at hvalid
  cases hvalid

theorem TagCurrent.updateEtag (c : M3uCache) : c.updateEtag.TagCurrent := by
  unfold M3uCache.updateEtag
  split
  · exact .of_invalid rfl
  · rename_i text htext
    intro _
    show c.served.map md5Hex = some (md5Hex text)
    rw [htext]
    rfl

theorem TagCurrent.append (hc : c.TagCurrent) (str : Bytes) : (c.append str).TagCurrent := by
  have hkeep : ∀ size, c.etagValid = true →
      (M3uCache.served { c with transformedM3u := some (c.transformedM3u.getD []), size }).map
        md5Hex = some c.etag := by
    intro size hvalid
    have htext := hc hvalid
    unfold M3uCache.served at htext ⊢
    cases hm : c.transformedM3u with
    | none =>
      rw [hm] at htext
      cases htext
    | some text =>
      rw [hm] at htext
      exact htext
  unfold M3uCache.append
  cases hm : c.transformedM3u with
  | none =>
    rw [hm] at hkeep
    dsimp only
    split
    · exact .of_invalid rfl
    · exact hkeep _
  | some text =>
    rw [hm] at hkeep
    dsimp only
    split
    · exact .of_invalid rfl
    · exact hkeep _

theorem TagCurrent.resetExternal (hc : c.TagCurrent) : c.resetExternal.TagCurrent := by
  unfold M3uCache.resetExternal
  split
  · exact hc
  · split
    · exact .of_invalid rfl
    · exact hc

theorem TagCurrent.getEtag (hc : c.TagCurrent) : c.getEtag.1.TagCurrent := by
  unfold M3uCache.getEtag
  split
  · exact .updateEtag c
  · exact hc

theorem getEtag_tag (hc : c.TagCurrent) : c.getEtag.2 = c.served.map md5Hex := by
  unfold M3uCache.getEtag
  cases hvalid : c.etagValid with
  | true =>
    simp only [Bool.not_true, Bool.false_and, Bool.false_eq_true, if_false, hvalid, if_true]
    exact (hc hvalid).symm
  | false =>
    cases hserved : c.served with
    | none => simp [hvalid]
    | some text => simp [updateEtag, hserved]

end M3uCache

/-- The tags of the cache and of its copy are current. -/
structure PlaylistSite.TagsCurrent (s : PlaylistSite) : Prop where
  m3u : s.m3u.TagCurrent
  snapshot : ∀ old, s.snapshot = some old → old.m3u.TagCurrent

theorem handle_site (heap : Heap) (s : PlaylistSite) (h : ForwardHeaders) (ifNoneMatch : Bytes) :
    (handlePlaylistRequest heap s h ifNoneMatch).1 = { s with m3u := s.m3u.getEtag.1 } := by
  unfold handlePlaylistRequest
  dsimp only
  split
  · split <;> rfl
  · rfl

theorem siteStep_tagsCurrent (s : PlaylistSite) (e : SiteEvent) (hs : s.TagsCurrent) :
    (siteStep s e).TagsCurrent := by
  obtain ⟨hm3u, hold⟩ := hs
  cases e with
  | append str => exact ⟨hm3u.append str, hold⟩
  | endOfInline => exact ⟨hm3u, hold⟩
  | resetTransformed => exact ⟨.of_invalid rfl, hold⟩
  | resetExternal => exact ⟨hm3u.resetExternal, hold⟩
  | epgSetUrl url => exact ⟨hm3u, hold⟩
  | epgFetched isGzipped => exact ⟨hm3u, hold⟩
  | epgCleanup => exact ⟨hm3u, hold⟩
  | configure config => exact ⟨hm3u, hold⟩
  | address serverAddress => exact ⟨hm3u, hold⟩
  | takeSnapshot =>
    refine ⟨hm3u, fun old h => ?_⟩
    obtain rfl := some.inj h
    exact hm3u
  | restoreSnapshot =>
    simp only [siteStep]
    split
    · exact ⟨hm3u, hold⟩
    · exact ⟨hold _ ‹_›, fun _ h => by cases h⟩
  | freeSnapshot => exact ⟨hm3u, fun _ h => by cases h⟩
  | request => exact ⟨hm3u.getEtag, hold⟩

theorem run_tagsCurrent (config : SiteConfig) (serverAddress : Option Bytes)
    (es : List SiteEvent) : (run siteStep (.init config serverAddress) es).TagsCurrent :=
  run_always siteStep_tagsCurrent ⟨.of_invalid rfl, fun _ h => by cases h⟩ es

/-! ## The tags that clients get -/

theorem etagMatches_any (tag : Bytes) : etagMatches (ascii "*") tag = true := by
  have hpieces : (ascii "*").splitOn comma = [ascii "*"] := by decide
  have htrim : ((ascii "*").dropWhile isBlank).rdropWhile isBlank = ascii "*" := by decide
  unfold etagMatches
  rw [hpieces]
  simp only [any_cons, htrim, any_nil, decide_true, Bool.true_or, Bool.and_true, Bool.or_false]
  decide

variable {s s' : PlaylistSite}

variable {h : ForwardHeaders}

theorem handle_etag (hs : s.TagsCurrent) {heap : Heap} {ifNoneMatch tag : Bytes}
    (htag : (handlePlaylistRequest heap s h ifNoneMatch).2.etag = some tag) :
    s.m3u.served.map md5Hex = some tag := by
  rw [← s.m3u.getEtag_tag hs.m3u]
  unfold handlePlaylistRequest at htag
  dsimp only at htag
  split at htag
  · rename_i etag hetag
    split at htag
    · rw [hetag]
      exact htag
    · split at htag
      · cases htag
      · cases htag
      · assumption
  · rename_i hetag
    split at htag
    · cases htag
    · cases htag
    · assumption

theorem handle_any (heap : Heap) (hs : s.TagsCurrent) {text : Bytes}
    (htext : s.m3u.served = some text) (h : ForwardHeaders) :
    (handlePlaylistRequest heap s h (ascii "*")).2.etag = some (md5Hex text) := by
  have hetag : s.m3u.getEtag.2 = some (md5Hex text) := by
    rw [M3uCache.getEtag_tag hs.m3u, htext]
    rfl
  unfold handlePlaylistRequest
  simp only [hetag, etagMatches_any, if_true]
  rfl

theorem tagSound_iff_texts (hs : s.TagsCurrent) (hs' : s'.TagsCurrent) (hfree : NoCollision s s')
    (h : ForwardHeaders) :
    TagSound s s' h ↔ ∀ text, s.m3u.served = some text → s'.m3u.served = some text → ∀ heap heap',
        ∃ body, playlistBody heap s h = some body ∧ playlistBody heap' s' h = some body := by
  constructor
  · intro hsound text htext htext' heap heap'
    exact hsound heap heap' _ _ _ (handle_any heap hs htext h) (handle_any heap' hs' htext' h)
  · intro hsame heap heap' ifNoneMatch ifNoneMatch' tag htag htag'
    obtain ⟨text, htext, rfl⟩ := map_eq_some_iff.1 (handle_etag hs htag)
    obtain ⟨text', htext', hhash⟩ := map_eq_some_iff.1 (handle_etag hs' htag')
    obtain rfl := hfree text text' htext htext' hhash.symm
    exact hsame text htext htext' heap heap'

/-! ## Copying the text -/

theorem expandFrom_countP (text : Bytes) : ∀ skip, ∃ n, ∀ (p : UInt8 → Bool) baseUrl,
    (expandFrom baseUrl skip text).countP p =
      (expandFrom [] skip text).countP p + n * baseUrl.countP p := by
  induction text with
  | nil => exact fun _ => ⟨0, fun _ _ => by simp [expandFrom]⟩
  | cons c rest ih =>
    rintro (_ | skip)
    · by_cases hp : baseUrlPlaceholder <+: c :: rest
      · obtain ⟨n, hn⟩ := ih (baseUrlPlaceholder.length - 1)
        refine ⟨n + 1, fun p baseUrl => ?_⟩
        simp only [expandFrom, if_pos hp, countP_append, countP_nil, hn p baseUrl, Nat.succ_mul]
        omega
      · obtain ⟨n, hn⟩ := ih 0
        refine ⟨n, fun p baseUrl => ?_⟩
        simp only [expandFrom, if_neg hp, countP_cons, hn p baseUrl]
        omega
    · exact ih skip

theorem expandFrom_length (text : Bytes) (skip : ℕ) : ∃ n, ∀ baseUrl,
    (expandFrom baseUrl skip text).length =
      (expandFrom [] skip text).length + n * baseUrl.length := by
  obtain ⟨n, hn⟩ := expandFrom_countP text skip
  exact ⟨n, fun baseUrl => by simpa only [countP_true] using hn (fun _ => true) baseUrl⟩

/-- A base URL of one line adds no line. -/
theorem expandText_count {baseUrl : Bytes} (hline : LF ∉ baseUrl) (text : Bytes) :
    (expandText baseUrl text).count LF = (expandText [] text).count LF := by
  obtain ⟨n, hn⟩ := expandFrom_countP text 0
  have hcount := hn (· == LF) baseUrl
  rwa [show baseUrl.countP (· == LF) = 0 from count_eq_zero.2 hline, Nat.mul_zero] at hcount

theorem expandFrom_inj {b b' : Bytes} {text : Bytes} (hin : baseUrlPlaceholder <:+: text)
    (h : expandFrom b 0 text = expandFrom b' 0 text) : b = b' := by
  induction text with
  | nil => exact absurd (eq_nil_of_infix_nil hin) (by decide)
  | cons c rest ih =>
    by_cases hp : baseUrlPlaceholder <+: c :: rest
    · obtain ⟨n, hn⟩ := expandFrom_length rest (baseUrlPlaceholder.length - 1)
      simp only [expandFrom, if_pos hp] at h
      have hlen := congrArg List.length h
      rw [length_append, length_append, hn b, hn b'] at hlen
      have hmul : (n + 1) * b.length = (n + 1) * b'.length := by
        rw [Nat.succ_mul, Nat.succ_mul]
        omega
      exact (append_inj h (Nat.eq_of_mul_eq_mul_left (Nat.succ_pos n) hmul)).1
    · simp only [expandFrom, if_neg hp] at h
      exact ih ((infix_cons_iff.1 hin).resolve_left hp) (cons_eq_cons.1 h).2

theorem expandFrom_eq_self {text : Bytes} (hin : ¬baseUrlPlaceholder <:+: text) (b : Bytes) :
    expandFrom b 0 text = text := by
  induction text with
  | nil => rfl
  | cons c rest ih =>
    have hp : ¬baseUrlPlaceholder <+: c :: rest := fun hp => hin hp.isInfix
    rw [expandFrom, if_neg hp, ih fun h => hin (infix_cons h)]

theorem expandText_congr {b b' text : Bytes} (hbase : baseUrlPlaceholder <:+: text → b = b') :
    expandText b text = expandText b' text := by
  by_cases hin : baseUrlPlaceholder <:+: text
  · rw [hbase hin]
  · rw [expandText, expandText, expandFrom_eq_self hin, expandFrom_eq_self hin]

/-! ## The header line and the text -/

theorem quote_not_mem_epgFile (isGzipped : Bool) (r2hToken : Bytes) :
    quote ∉ epgFile isGzipped r2hToken :=
  not_mem_epgFile (by decide) (by decide) (by decide) (by decide) _ _

theorem link_length_le {b b' file file' text : Bytes} (tail : Bytes) (hfile : quote ∉ file)
    (h : b ++ file ++ quote :: tail ++ expandFrom b 0 text =
      b' ++ file' ++ quote :: tail ++ expandFrom b' 0 text) :
    (b ++ file).length ≤ (b' ++ file').length := by
  by_contra hlt
  obtain ⟨n, hn⟩ := expandFrom_length text 0
  have hlen := congrArg List.length h
  simp only [length_append, length_cons, hn b, hn b'] at hlen hlt
  have hbase : b.length < b'.length := by
    by_contra hge
    have := Nat.mul_le_mul_left n (Nat.le_of_not_lt hge)
    omega
  have hat : (b ++ file ++ quote :: tail ++ expandFrom b 0 text)[b'.length + file'.length]? =
      some quote := by
    rw [h, append_assoc, getElem?_append_right (by simp)]
    simp
  rw [append_assoc, append_assoc, getElem?_append_right (by omega),
    getElem?_append_left (by omega)] at hat
  exact hfile (mem_of_getElem? hat)

theorem body_inj {s s' : PlaylistSite} {b b' text : Bytes}
    (h : headerLine (epgLink s b) ++ expandFrom b 0 text =
      headerLine (epgLink s' b') ++ expandFrom b' 0 text) :
    epgLink s b = epgLink s' b' ∧ expandFrom b 0 text = expandFrom b' 0 text := by
  have hstart : ∀ link, ∃ c rest, headerLine link = ascii "#EXTM3U" ++ c :: rest ∧
      (c = 0x20 ↔ link.isSome) := by
    rintro (_ | link)
    · exact ⟨LF, [LF], rfl, by decide⟩
    · exact ⟨0x20, _, rfl, by simp⟩
  have hkind : (epgLink s b).isSome ↔ (epgLink s' b').isSome := by
    obtain ⟨c, rest, hc, hsome⟩ := hstart (epgLink s b)
    obtain ⟨c', rest', hc', hsome'⟩ := hstart (epgLink s' b')
    rw [hc, hc', append_assoc, append_assoc] at h
    have hhead := (cons_eq_cons.1 (append_cancel_left h)).1
    rw [← hsome, ← hsome', hhead]
  unfold epgLink at h hkind ⊢
  cases hurl : s.epg.url with
  | none =>
    cases hurl' : s'.epg.url with
    | none =>
      rw [hurl, hurl'] at h
      exact ⟨rfl, append_cancel_left h⟩
    | some url' => simp [hurl, hurl'] at hkind
  | some url =>
    cases hurl' : s'.epg.url with
    | none => simp [hurl, hurl'] at hkind
    | some url' =>
      rw [hurl, hurl'] at h
      simp only [map_some, headerLine, append_assoc, cons_append] at h
      have htail := (cons_eq_cons.1 (append_cancel_left h)).2
      have hle := link_length_le [LF, LF] (quote_not_mem_epgFile _ _) (by simpa using htail)
      have hge := link_length_le [LF, LF] (quote_not_mem_epgFile _ _) (by simpa using htail.symm)
      rw [← append_assoc, ← append_assoc b'] at htail
      obtain ⟨hlink, hrest⟩ := append_inj htail (by omega)
      refine ⟨congrArg some hlink, ?_⟩
      simpa using hrest

/-! ## The lines of an answer -/

section Lines

variable {s s' : PlaylistSite} {b b' text : Bytes}

/-- The header line has the only line feeds of the header, its last bytes. -/
theorem count_headerLine (hline : LF ∉ b) : (headerLine (epgLink s b)).count LF = 2 := by
  have hfile : LF ∉ epgFile s.epg.isGzipped s.config.r2hToken :=
    not_mem_epgFile (by decide) (by decide) (by decide) (by decide) _ _
  have hfront : (ascii "#EXTM3U x-tvg-url=").count LF = 0 := by decide
  have hquote : quote ≠ LF := by decide
  unfold headerLine epgLink
  cases s.epg.url with
  | none =>
    rw [map_none]
    decide
  | some url =>
    grind

theorem headerLine_getLast? (link : Option Bytes) : ∃ line, headerLine link = line ++ [LF] := by
  cases link with
  | none => exact ⟨ascii "#EXTM3U" ++ [LF], rfl⟩
  | some url =>
    refine ⟨ascii "#EXTM3U x-tvg-url=" ++ quote :: url ++ [quote, LF], ?_⟩
    simp [headerLine]

theorem count_cut (hline : LF ∉ b) {n : ℕ} (hn : n < (headerLine (epgLink s b)).length) :
    ((headerLine (epgLink s b)).take n).count LF ≤ 1 := by
  obtain ⟨line, hlast⟩ := headerLine_getLast? (epgLink s b)
  have htwo := count_headerLine (s := s) hline
  rw [hlast] at htwo hn ⊢
  rw [count_append, count_singleton_self] at htwo
  rw [length_append, length_singleton] at hn
  rw [take_append_of_le_length (by omega)]
  exact le_trans ((take_sublist n line).count_le LF) (by omega)

end Lines

/-! ## Two answers -/

section Answers

variable {s s' : PlaylistSite} {h : ForwardHeaders} {b b' text : Bytes} (hline : LF ∉ b)
  (hline' : LF ∉ b')

include hline

theorem answer_cases (s : PlaylistSite) (text : Bytes) :
    ((headerLine (epgLink s b)).length < resultSize text b ∧
        (headerLine (epgLink s b)).length < 2 ^ 31 ∧
        (answerText (headerLine (epgLink s b)) b text).count LF =
          2 + (expandText [] (cstr text)).count LF) ∨
      (resultSize text b ≤ (headerLine (epgLink s b)).length ∧
        (headerLine (epgLink s b)).length < 2 ^ 31 ∧
        (answerText (headerLine (epgLink s b)) b text).count LF ≤ 1) ∨
      2 ^ 31 ≤ (headerLine (epgLink s b)).length ∧
        (answerText (headerLine (epgLink s b)) b text).count LF =
          (expandText [] (cstr text)).count LF := by
  rcases Nat.lt_or_ge (headerLine (epgLink s b)).length (2 ^ 31) with hint | hint
  · rcases Nat.lt_or_ge (headerLine (epgLink s b)).length (resultSize text b) with hroom | hroom
    · refine .inl ⟨hroom, hint, ?_⟩
      rw [answerText_whole hroom hint, count_append, count_headerLine hline, expandText_count hline]
    · refine .inr (.inl ⟨hroom, hint, ?_⟩)
      have hsize := resultSize_lt text b
      rw [answerText_cut hroom hint]
      exact count_cut hline (by omega)
  · refine .inr (.inr ⟨hint, ?_⟩)
    rw [answerText_uncounted hint, expandText_count hline]

include hline'

/-- The answers are the same if and only if the same is left of the header lines and the copies
    are the same, but for a line that is cut and one that is not counted. -/
theorem answerText_eq_iff :
    answerText (headerLine (epgLink s b)) b text = answerText (headerLine (epgLink s' b')) b' text ↔
      SameParts (headerLine (epgLink s b)) b (headerLine (epgLink s' b')) b' text ∨
        LooksCut (headerLine (epgLink s b)) b (headerLine (epgLink s' b')) b' text ∨
        LooksCut (headerLine (epgLink s' b')) b' (headerLine (epgLink s b)) b text := by
  constructor
  · intro heq
    have hcount := congrArg (List.count LF) heq
    unfold SameParts keptHeader copyFollows
    rcases answer_cases hline s text with ⟨hroom, hint, hlines⟩ | ⟨hroom, hint, hlines⟩ |
      ⟨hint, hlines⟩
    · rcases answer_cases hline' s' text with ⟨hroom', hint', hlines'⟩ | ⟨-, -, hlines'⟩ |
        ⟨-, hlines'⟩
      · rw [answerText_whole hroom hint, answerText_whole hroom' hint'] at heq
        obtain ⟨hlink, hcopy⟩ := body_inj heq
        rw [if_pos hint, if_pos hint', take_of_length_le (by omega),
          take_of_length_le (by omega), decide_eq_true (.inl hroom), decide_eq_true (.inl hroom')]
        exact .inl ⟨congrArg headerLine hlink, rfl, fun _ hin => expandFrom_inj hin hcopy⟩
      · omega
      · omega
    · rcases answer_cases hline' s' text with ⟨-, -, hlines'⟩ | ⟨hroom', hint', -⟩ | ⟨hint', -⟩
      · omega
      · rw [answerText_cut hroom hint, answerText_cut hroom' hint'] at heq
        rw [if_pos hint, if_pos hint', decide_eq_false (by omega), decide_eq_false (by omega)]
        exact .inl ⟨heq, rfl, fun hfollows => Bool.noConfusion hfollows⟩
      · rw [answerText_cut hroom hint, answerText_uncounted hint'] at heq
        exact .inr (.inl ⟨hroom, hint, hint', heq⟩)
    · rcases answer_cases hline' s' text with ⟨-, -, hlines'⟩ | ⟨hroom', hint', -⟩ | ⟨hint', -⟩
      · omega
      · rw [answerText_uncounted hint, answerText_cut hroom' hint'] at heq
        exact .inr (.inr ⟨hroom', hint', hint, heq.symm⟩)
      · rw [answerText_uncounted hint, answerText_uncounted hint'] at heq
        rw [if_neg (by omega), if_neg (by omega), decide_eq_true (.inr hint),
          decide_eq_true (.inr hint')]
        exact .inl ⟨rfl, rfl, fun _ hin => expandFrom_inj hin heq⟩
  · rintro (⟨hkept, hfollows, hbase⟩ | ⟨hroom, hint, hint', hlooks⟩ | ⟨hroom, hint, hint', hlooks⟩)
    · rw [answerText, answerText, hkept, ← hfollows]
      split
      · rename_i hcopy
        rw [expandText_congr (hbase hcopy)]
      · rfl
    · rw [answerText_cut hroom hint, answerText_uncounted hint', hlooks]
    · rw [answerText_cut hroom hint, answerText_uncounted hint', hlooks]

end Answers

section Bodies

variable {text : Bytes} (htext : s.m3u.served = some text)

include htext

theorem playlistBody_iff (heap : Heap) {b : Bytes} {body : Option Bytes}
    (hbase : buildProxyBaseUrl s.config s.serverAddress h = some b) (hnul : 0 ∉ b) :
    playlistBody heap s h = some body ↔ CopyFits (headerLine (epgLink s b)) b text ∧
        some (answerText (headerLine (epgLink s b)) b text) = body := by
  unfold playlistBody generatePlaylist
  rw [htext, hbase]
  cases body with
  | none => simp
  | some body =>
    rw [some_inj, ← generateInto_answer heap text hnul (noNul_headerLine hnul)]
    simp [map_eq_some_iff]

theorem playlistBody_null (heap : Heap)
    (hbase : buildProxyBaseUrl s.config s.serverAddress h = none) :
    playlistBody heap s h = some none := by
  unfold playlistBody generatePlaylist
  rw [htext, hbase]
  rfl

/-- Whatever the memory holds: one text at both moments if and only if its surroundings are the
    same. -/
theorem sameBody_iff (htext' : s'.m3u.served = some text) (hplain : PlainBaseUrl s h)
    (hplain' : PlainBaseUrl s' h) (heap heap' : Heap) :
    (∃ body, playlistBody heap s h = some body ∧ playlistBody heap' s' h = some body) ↔
      SameSurroundings s s' h text := by
  unfold SameSurroundings
  cases hb : buildProxyBaseUrl s.config s.serverAddress h with
  | none =>
    rw [playlistBody_null htext heap hb]
    cases hb' : buildProxyBaseUrl s'.config s'.serverAddress h with
    | none => simp [playlistBody_null htext' heap' hb']
    | some b' => simp [playlistBody_iff htext' heap' hb' (hplain' b' hb').1]
  | some b =>
    simp only [playlistBody_iff htext heap hb (hplain b hb).1]
    cases hb' : buildProxyBaseUrl s'.config s'.serverAddress h with
    | none => simp [playlistBody_null htext' heap' hb']
    | some b' =>
      simp only [playlistBody_iff htext' heap' hb' (hplain' b' hb').1]
      rw [← answerText_eq_iff (hplain b hb).2 (hplain' b' hb').2]
      constructor
      · rintro ⟨body, ⟨hfits, rfl⟩, hfits', heq⟩
        exact ⟨hfits, hfits', (some.inj heq).symm⟩
      · rintro ⟨hfits, hfits', heq⟩
        exact ⟨_, ⟨hfits, rfl⟩, hfits', by rw [heq]⟩

end Bodies

/-! ## The promise of the tag -/

/-- In any two histories of a process, and so at any two moments of one, the tag promises the
    answer if and only if the surroundings of a text that both serve are the same. -/
theorem tagSound_iff (config config' : SiteConfig) (address address' : Option Bytes)
    (es es' : List SiteEvent) (h : ForwardHeaders)
    (hplain : PlainBaseUrl (run siteStep (.init config address) es) h)
    (hplain' : PlainBaseUrl (run siteStep (.init config' address') es') h)
    (hfree : NoCollision (run siteStep (.init config address) es)
      (run siteStep (.init config' address') es')) :
    TagSound (run siteStep (.init config address) es)
        (run siteStep (.init config' address') es') h ↔
      ∀ text, (run siteStep (.init config address) es).m3u.served = some text →
        (run siteStep (.init config' address') es').m3u.served = some text →
        SameSurroundings (run siteStep (.init config address) es)
          (run siteStep (.init config' address') es') h text := by
  rw [tagSound_iff_texts (run_tagsCurrent config address es) (run_tagsCurrent config' address' es')
    hfree h]
  constructor
  · intro hsame text htext htext'
    exact (sameBody_iff htext htext' hplain hplain' zeroHeap zeroHeap).1
      (hsame text htext htext' zeroHeap zeroHeap)
  · intro hsame text htext htext' heap heap'
    exact (sameBody_iff htext htext' hplain hplain' heap heap').2 (hsame text htext htext')

/-- A site without settings, and one entry of its playlist. -/
def plainSite : SiteConfig := ⟨[], [], [], false, false⟩

def newsEntry : List SiteEvent :=
  [.append (ascii "#EXTINF:-1,News"), .append [LF], .append (baseUrlPlaceholder ++ ascii "News"),
    .append [LF], .endOfInline]

def fromHost : ForwardHeaders := ⟨ascii "tv", [], []⟩

/-- The playlist is read again, with the same entry, and nothing else changes. -/
theorem tagSound_reread : TagSound (run siteStep (.init plainSite none) newsEntry)
      (run siteStep (.init plainSite none) (newsEntry ++ .resetTransformed :: newsEntry))
      fromHost := by
  have hsame : run siteStep (.init plainSite none) (newsEntry ++ .resetTransformed :: newsEntry) =
      run siteStep (.init plainSite none) newsEntry := by decide
  have hplain : PlainBaseUrl (run siteStep (.init plainSite none) newsEntry) fromHost := by
    intro baseUrl hbase
    obtain rfl := some.inj ((show some (ascii "http://tv/") = _ by decide).trans hbase)
    decide
  have hfree : NoCollision (run siteStep (.init plainSite none) newsEntry)
      (run siteStep (.init plainSite none) (newsEntry ++ .resetTransformed :: newsEntry)) := by
    intro text text' htext htext' _
    rw [hsame, htext] at htext'
    exact some.inj htext'
  refine (tagSound_iff plainSite plainSite none none newsEntry
    (newsEntry ++ .resetTransformed :: newsEntry) fromHost hplain (hsame ▸ hplain) hfree).2
      fun text htext _ => ?_
  have hserved : (run siteStep (.init plainSite none) newsEntry).m3u.served =
      some (ascii "#EXTINF:-1,News" ++ LF :: baseUrlPlaceholder ++ ascii "News" ++ [LF]) := by
    decide
  obtain rfl := some.inj (hserved.symm.trans htext)
  have hfits : CopyFits (headerLine none) (ascii "http://tv/")
      (ascii "#EXTINF:-1,News" ++ LF :: baseUrlPlaceholder ++ ascii "News" ++ [LF]) :=
    .inl (by decide)
  rw [hsame]
  exact ⟨hfits, hfits, .inl ⟨rfl, rfl, fun _ _ => rfl⟩⟩

/-- The guide arrives between two requests: the tag stays and the header line changes. -/
theorem guide_hidden : ¬∀ (config : SiteConfig) (address : Option Bytes) (es es' : List SiteEvent)
      (h : ForwardHeaders),
      NoCollision (run siteStep (.init config address) es)
          (run siteStep (.init config address) (es ++ es')) →
        TagSound (run siteStep (.init config address) es)
          (run siteStep (.init config address) (es ++ es')) h := by
  intro hall
  have hserved : (run siteStep (.init plainSite none)
      (newsEntry ++ [.epgSetUrl (ascii "http://e/g.xml")])).m3u.served =
      (run siteStep (.init plainSite none) newsEntry).m3u.served := rfl
  have hfree : NoCollision (run siteStep (.init plainSite none) newsEntry)
      (run siteStep (.init plainSite none)
        (newsEntry ++ [.epgSetUrl (ascii "http://e/g.xml")])) := by
    intro text text' htext htext' _
    rw [hserved, htext] at htext'
    exact some.inj htext'
  obtain ⟨body, hbody, hbody'⟩ := hall plainSite none newsEntry
    [.epgSetUrl (ascii "http://e/g.xml")] fromHost hfree zeroHeap zeroHeap (ascii "*") (ascii "*")
    (ascii "3b36d5cc9dcc761e353b3ed5d8145ae2") (by decide +kernel) (by decide +kernel)
  exact absurd (hbody.trans hbody'.symm) (by decide +kernel)

end Apackage.Rtp2httpd
