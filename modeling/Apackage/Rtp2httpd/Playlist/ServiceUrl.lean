import Apackage.Rtp2httpd.Routing.Route

/-
  The URL of a service in the transformed playlist (`build_service_url` in `m3u.c`), and the way
  back through the routing.

  `playlistUrl_resolves_iff` says when the request for such a URL, with seek parameters or a
  `$label` appended, looks the service up under its own name. Encoding hides a `$` of the name from
  the first label strip, but the second one runs after decoding; and `/` is not encoded at all.
-/

namespace Apackage.Rtp2httpd

open List

/-- `MAX_URL_LENGTH`, the size of the output buffer. -/
def maxUrlLength : ℕ := 2048

def baseUrlPlaceholder : Bytes := ascii "\x7bBASE_URL\x7d"

/-- What `build_service_url` writes after the name; an empty token is one that is not
    configured. -/
def serviceQuery (queryParams r2hToken : Bytes) : Bytes :=
  if queryParams ≠ [] ∧ r2hToken ≠ [] then
    question :: queryParams ++ ascii "&r2h-token=" ++ httpUrlEncode r2hToken
  else if queryParams ≠ [] then question :: queryParams
  else if r2hToken ≠ [] then question :: ascii "r2h-token=" ++ httpUrlEncode r2hToken
  else []

/-- `build_service_url`; none is -1. -/
def buildServiceUrl (serviceName queryParams r2hToken : Bytes) : Option Bytes :=
  let output := baseUrlPlaceholder ++ httpUrlEncode serviceName ++ serviceQuery queryParams r2hToken
  if maxUrlLength ≤ output.length then none else some output

/-- The target of a request for a playlist URL: the base URL in place of the placeholder ends
    in the path prefix and a slash. -/
def requestTarget (cfg : RouteConfig) (playlistUrl : Bytes) : Bytes :=
  cfg.appPathPrefix ++ slash :: playlistUrl.drop baseUrlPlaceholder.length

/-- What may follow: seek parameters, in a query of their own if there is none yet, or the
    raw `$label` that the playlist adds. -/
def Appended (query appended : Bytes) : Prop :=
  query ≠ [] ∨ appended = [] ∨ appended.head? = some question ∨ httpFindUrlLabel appended = some 0

/-- The condition under which the name survives; `tail` is what follows the name. -/
structure Resolvable (cfg : RouteConfig) (name tail : Bytes) : Prop where
  prefixLabel : httpFindUrlLabel tail ≠ none ∨
    httpFindUrlLabel (cfg.appPathPrefix ++ [slash]) = none
  prefixQuery : question ∉ cfg.appPathPrefix
  slash : name.getLast? ≠ some slash
  label : httpFindUrlLabel name = none
  reserved : reservedRoute cfg (httpUrlEncode name) = none

/-! ## The tail of a playlist URL -/

theorem serviceQuery_head {queryParams r2hToken : Bytes} : serviceQuery queryParams r2hToken = [] ∨
      (serviceQuery queryParams r2hToken).head? = some question := by
  unfold serviceQuery
  repeat' split
  all_goals simp

variable {cfg : RouteConfig}

theorem requestTarget_build {name queryParams r2hToken url : Bytes}
    (h : buildServiceUrl name queryParams r2hToken = some url) :
    requestTarget cfg url =
      cfg.appPathPrefix ++ slash :: (httpUrlEncode name ++ serviceQuery queryParams r2hToken) := by
  unfold buildServiceUrl at h
  dsimp only at h
  split at h
  · cases h
  · obtain rfl := Option.some.inj h
    rw [requestTarget, append_assoc, drop_left]

theorem strip_tail {query appended : Bytes} (hq : query = [] ∨ query.head? = some question)
    (ha : Appended query appended) :
    httpStripUrlLabel (query ++ appended) = [] ∨
      (httpStripUrlLabel (query ++ appended)).head? = some question := by
  have hhead : ∀ t : Bytes, t.head? = some question →
      (httpStripUrlLabel t).head? = some question := by
    intro t ht
    cases hl : httpFindUrlLabel t with
    | none => rw [strip_of_none hl, ht]
    | some i =>
      rw [strip_of_some hl]
      cases i with
      | zero =>
        have hd := label_dollar hl
        rw [← head?_eq_getElem?, ht] at hd
        exact absurd hd (by decide)
      | succ i => rw [head?_take, if_neg (by omega), ht]
  rcases hq with rfl | hq
  · rcases ha with hne | rfl | hh | hl
    · exact absurd rfl hne
    · exact .inl rfl
    · exact .inr (hhead _ hh)
    · left
      rw [nil_append, strip_of_some hl, take_zero]
  · right
    apply hhead
    cases query with
    | nil => simp at hq
    | cons c query => exact hq

/-! ## Past the prefix -/

theorem strip_target {name tail : Bytes}
    (h : httpFindUrlLabel tail ≠ none ∨ httpFindUrlLabel (cfg.appPathPrefix ++ [slash]) = none) :
    httpStripUrlLabel (cfg.appPathPrefix ++ slash :: (httpUrlEncode name ++ tail)) =
      cfg.appPathPrefix ++ slash :: (httpUrlEncode name ++ httpStripUrlLabel tail) := by
  have hassoc : ∀ t : Bytes, cfg.appPathPrefix ++ slash :: (httpUrlEncode name ++ t) =
      (cfg.appPathPrefix ++ slash :: httpUrlEncode name) ++ t := by simp
  cases hl : httpFindUrlLabel tail with
  | some i =>
    rw [hassoc, hassoc, strip_of_some (label_append_of_some hl), strip_of_some hl,
      take_length_add_append]
  | none =>
    have hp := h.resolve_left fun hne => hne hl
    rw [strip_of_none hl, strip_of_none]
    rw [label_append_not_dollar (by decide) (label_append_of_none (dollar_not_mem_encode name) hl)]
    exact hp

theorem strip_target_short {tail : Bytes} (ht : httpFindUrlLabel tail = none) {i : ℕ}
    (hp : httpFindUrlLabel (cfg.appPathPrefix ++ [slash]) = some i) :
    i < cfg.appPathPrefix.length ∧ ∀ name,
      httpStripUrlLabel (cfg.appPathPrefix ++ slash :: (httpUrlEncode name ++ tail)) =
        cfg.appPathPrefix.take i := by
  have hlt : i < cfg.appPathPrefix.length := by
    by_contra hge
    have hd := label_dollar hp
    rw [getElem?_append_right (by omega)] at hd
    have hi := label_lt hp
    rw [length_append, length_singleton] at hi
    rw [show i - cfg.appPathPrefix.length = 0 by omega] at hd
    exact absurd hd (by decide)
  refine ⟨hlt, fun name => ?_⟩
  rw [strip_of_some (i := i), take_append_of_le_length (by omega)]
  rw [label_append_not_dollar (by decide)
    (label_append_of_none (dollar_not_mem_encode name) ht), hp]

section

variable {name tail : Bytes} (url : RequestUrl)
  (hurl : url.bytes = cfg.appPathPrefix ++ slash :: (httpUrlEncode name ++ tail))

include url hurl

theorem route_eq
    (hlabel : httpFindUrlLabel tail ≠ none ∨ httpFindUrlLabel (cfg.appPathPrefix ++ [slash]) = none)
    (hquery : question ∉ cfg.appPathPrefix)
    (htail : httpStripUrlLabel tail = [] ∨ (httpStripUrlLabel tail).head? = some question) :
    connectionRouteAndStart cfg url = routePath cfg (dropTrailingSlash (httpUrlEncode name)) := by
  have hhead : (cfg.appPathPrefix ++
      slash :: (httpUrlEncode name ++ httpStripUrlLabel tail)).head? = some slash := by
    by_cases hnil : cfg.appPathPrefix = []
    · rw [hnil]
      rfl
    · rw [head?_append_of_ne_nil _ hnil]
      exact cfg.prefixSlash hnil
  unfold connectionRouteAndStart
  rw [hurl, strip_target hlabel, if_neg (by rw [hhead]; simp), stripAppPathPrefix_of_slash hquery]
  simp only [drop_one, tail_cons]
  rw [pathOf_append (question_not_mem_encode name) htail]

theorem route_of_mismatch (h : ¬ ((httpFindUrlLabel tail ≠ none ∨
      httpFindUrlLabel (cfg.appPathPrefix ++ [slash]) = none) ∧
      question ∉ cfg.appPathPrefix)) (key : Bytes) :
    connectionRouteAndStart cfg url ≠ .service key := by
  have hshort : (pathOf (httpStripUrlLabel url.bytes)).length < cfg.appPathPrefix.length := by
    rw [hurl]
    by_cases hlabel : httpFindUrlLabel tail ≠ none ∨
        httpFindUrlLabel (cfg.appPathPrefix ++ [slash]) = none
    · have hq : question ∈ cfg.appPathPrefix := by
        by_contra hq
        exact h ⟨hlabel, hq⟩
      rw [strip_target hlabel]
      exact pathOf_short hq _
    · rw [not_or, not_not] at hlabel
      obtain ⟨i, hi⟩ := Option.ne_none_iff_exists'.1 hlabel.2
      obtain ⟨hlt, hcut⟩ := strip_target_short hlabel.1 hi
      rw [hcut name]
      calc (pathOf (cfg.appPathPrefix.take i)).length
          ≤ (cfg.appPathPrefix.take i).length := ( takeWhile_prefix _).length_le
        _ ≤ i := length_take_le _ _
        _ < cfg.appPathPrefix.length := hlt
  unfold connectionRouteAndStart
  dsimp only
  split
  · simp
  · rw [stripAppPathPrefix_of_short hshort]
    simp

end

/-! ## The name -/

theorem routePath_service_length {s key : Bytes}
    (h : routePath cfg (httpUrlEncode s) = .service key) : key.length ≤ s.length := by
  by_cases hr : reservedRoute cfg (httpUrlEncode s) = none
  · rw [routePath_of_decode hr (decode_httpUrlEncode s)] at h
    obtain rfl := Route.service.inj h
    exact (strip_length_le _).trans (cstr_length_le s)
  · exact absurd h (routePath_of_reserved hr key)

theorem routePath_name_iff (cfg : RouteConfig) {name : Bytes} (hname : 0 ∉ name) :
    routePath cfg (dropTrailingSlash (httpUrlEncode name)) = .service name ↔
      name.getLast? ≠ some slash ∧ httpFindUrlLabel name = none ∧
        reservedRoute cfg (httpUrlEncode name) = none := by
  by_cases hs : name.getLast? = some slash
  · refine iff_of_false (fun h => ?_) fun h => h.1 hs
    obtain ⟨s, rfl⟩ : ∃ s, name = s ++ [slash] := getLast?_eq_some_iff.1 hs
    rw [httpUrlEncode_concat_slash, dropTrailingSlash, if_pos getLast?_concat, dropLast_concat] at h
    have hle := routePath_service_length h
    rw [length_append, length_singleton] at hle
    omega
  have hdrop : dropTrailingSlash (httpUrlEncode name) = httpUrlEncode name :=
    if_neg fun h => hs ((getLast?_httpUrlEncode name).1 h)
  rw [hdrop]
  by_cases hr : reservedRoute cfg (httpUrlEncode name) = none
  swap
  · exact iff_of_false (routePath_of_reserved hr name) fun h => hr h.2.2
  rw [routePath_of_decode hr (decode_httpUrlEncode name), cstr_of_noNul hname]
  cases hl : httpFindUrlLabel name with
  | none =>
    rw [strip_of_none hl]
    exact iff_of_true rfl ⟨hs, rfl, hr⟩
  | some i =>
    refine iff_of_false (fun h => ?_) fun h => absurd h.2.1 (by simp)
    have hk := congrArg List.length (Route.service.inj h)
    have hi := label_lt hl
    rw [strip_of_some hl, length_take] at hk
    omega

/-! ## Result -/

/-- A route finds a service in every table that has it exactly when it ends in the lookup of
    its name. -/
theorem findService_iff {Service : Type} (s : Service) (name : Bytes) (r : Route) :
    (∀ services : Bytes → Option Service, services name = some s →
      findService services r = some s) ↔ r = .service name := by
  refine ⟨fun h => ?_, ?_⟩
  · have hfind := h (fun n => if n = name then some s else none) (if_pos rfl)
    cases r with
    | service key =>
      rw [findService] at hfind
      split at hfind
      · tauto
      · cases hfind
    | _ => cases hfind
  · rintro rfl services hs
    exact hs

/-- A request for the playlist URL of a service finds that service, whatever else the table
    holds, if and only if the name and the path prefix are as in `Resolvable`. -/
theorem playlistUrl_resolves_iff (cfg : RouteConfig) {name queryParams r2hToken playlistUrl
    appended : Bytes} (hname : 0 ∉ name)
    (hbuild : buildServiceUrl name queryParams r2hToken = some playlistUrl)
    (happ : Appended (serviceQuery queryParams r2hToken) appended) (url : RequestUrl)
    (hurl : url.bytes = requestTarget cfg playlistUrl ++ appended)
    {Service : Type} (s : Service) :
    (∀ services : Bytes → Option Service, services name = some s →
      findService services (connectionRouteAndStart cfg url) = some s) ↔
      Resolvable cfg name (serviceQuery queryParams r2hToken ++ appended) := by
  rw [findService_iff]
  set tail := serviceQuery queryParams r2hToken ++ appended with htail
  have hbytes : url.bytes = cfg.appPathPrefix ++ slash :: (httpUrlEncode name ++ tail) := by
    rw [hurl, requestTarget_build hbuild, htail]
    simp
  by_cases hmatch : (httpFindUrlLabel tail ≠ none ∨
      httpFindUrlLabel (cfg.appPathPrefix ++ [slash]) = none) ∧ question ∉ cfg.appPathPrefix
  · rw [route_eq url hbytes hmatch.1 hmatch.2 (strip_tail serviceQuery_head happ),
      routePath_name_iff cfg hname]
    exact ⟨fun h => ⟨hmatch.1, hmatch.2, h.1, h.2.1, h.2.2⟩,
      fun h => ⟨h.slash, h.label, h.reserved⟩⟩
  · exact iff_of_false (route_of_mismatch url hbytes hmatch name)
      fun h => hmatch ⟨h.prefixLabel, h.prefixQuery⟩

/-- The configuration without a path prefix and with the default pages. -/
def defaultRoutes : RouteConfig := ⟨[], ascii "status", ascii "player", fun h => absurd rfl h⟩

def newsUrl : RequestUrl := ⟨ascii "/News/CCTV%201?playseek=1-2$HD", by decide, by decide⟩

theorem playlistUrl_resolves_news :
    (∀ services : Bytes → Option ℕ, services (ascii "News/CCTV 1") = some 7 →
      findService services (connectionRouteAndStart defaultRoutes newsUrl) = some 7) ↔
      Resolvable defaultRoutes (ascii "News/CCTV 1") (serviceQuery [] [] ++
        ascii "?playseek=1-2$HD") :=
  playlistUrl_resolves_iff defaultRoutes (by decide)
    (by decide : buildServiceUrl (ascii "News/CCTV 1") [] [] =
      some (ascii "\x7bBASE_URL\x7dNews/CCTV%201")) (.inr (.inr (.inl (by decide)))) newsUrl
    (by decide) 7

def dollarUrl : RequestUrl := ⟨ascii "/A%24B", by decide, by decide⟩

/-- The service `A$B` cannot be reached through its playlist URL: the routing looks up `A`. -/
theorem dollar_name_lost :
    let services : Bytes → Option ℕ := fun n => if n = ascii "A$B" then some 7 else none
    buildServiceUrl (ascii "A$B") [] [] = some (ascii "\x7bBASE_URL\x7dA%24B") ∧
      dollarUrl.bytes = requestTarget defaultRoutes (ascii "\x7bBASE_URL\x7dA%24B") ∧
      reservedRoute defaultRoutes (ascii "A%24B") = none ∧
      connectionRouteAndStart defaultRoutes dollarUrl = .service (ascii "A") ∧
      services (ascii "A$B") = some 7 ∧
      findService services (connectionRouteAndStart defaultRoutes dollarUrl) = none := by
  refine ⟨by decide, by decide, by decide, by decide, by decide, by decide⟩

end Apackage.Rtp2httpd
