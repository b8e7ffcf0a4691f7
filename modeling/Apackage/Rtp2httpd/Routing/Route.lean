import Mathlib.Data.List.TakeWhile
import Apackage.Rtp2httpd.Http.Url

/-
  The routing of a request (`connection_route_and_start` in `connection.c`).

  Model. The request is one that passes the checks on its `Host` header, its address, its
  method and its token, which come between the steps below and do not change the URL. The
  routes that are configured count as given. Every buffer of the function has the size of
  the request's URL buffer, so none of the copies is too long for its buffer.
-/

namespace Apackage.Rtp2httpd

open List

def httpUrlBufferSize : ℕ := 2048

/-- `http_request_t.url`: a C string in a buffer of this size. -/
structure RequestUrl where
  bytes : Bytes
  fits : bytes.length < httpUrlBufferSize
  noNul : 0 ∉ bytes

/-- `config.app_path_prefix`, empty or starting with `/`, and the routes of the status and
    player pages. -/
structure RouteConfig where
  appPathPrefix : Bytes
  statusPageRoute : Bytes
  playerPageRoute : Bytes
  prefixSlash : appPathPrefix ≠ [] → appPathPrefix.head? = some slash

/-- Where a request goes. -/
inductive Route
  | badRequest
  | notFound
  | asset (path : Bytes)
  | manifest (player : Bool)
  | statusPage
  | playerPage
  | playlist
  | epg (gzipped : Bool)
  | statusSse
  | statusApi (name : Bytes)
  | service (key : Bytes)
  deriving DecidableEq

/-- The part of a URL before the query. -/
def pathOf (url : Bytes) : Bytes := url.takeWhile (· ≠ question)

/-- `strip_app_path_prefix`; none is -1. -/
def stripAppPathPrefix (appPathPrefix url : Bytes) : Option Bytes :=
  if appPathPrefix = [] then some url
  else
    let pathLen := (pathOf url).length
    let prefixLen := appPathPrefix.length
    if pathLen < prefixLen ∨ url.take prefixLen ≠ appPathPrefix then none
    else if pathLen = prefixLen then some (slash :: url.drop pathLen)
    else if url[prefixLen]? ≠ some slash then none
    else some (url.drop prefixLen)

def statusSseRoute (cfg : RouteConfig) : Bytes :=
  if 0 < cfg.statusPageRoute.length then cfg.statusPageRoute ++ ascii "/sse" else ascii "sse"

def statusApiPrefix (cfg : RouteConfig) : Bytes :=
  if 0 < cfg.statusPageRoute.length then cfg.statusPageRoute ++ ascii "/api/"
  else ascii "api/"

/-- The names below the status API; any other is not found. -/
def statusApiNames : List Bytes :=
  [ascii "disconnect", ascii "log-level", ascii "clear-logs", ascii "reload-config",
    ascii "restart-workers"]

def statusApiRoute (name : Bytes) : Route :=
  if name ∈ statusApiNames then .statusApi name else .notFound

def reservedRoute (cfg : RouteConfig) (path : Bytes) : Option Route :=
  if ascii "assets/" <+: path then some (.asset (slash :: path))
  else if path = ascii "status.webmanifest" then some (.manifest false)
  else if path = ascii "player.webmanifest" then some (.manifest true)
  else if path = cfg.statusPageRoute then some .statusPage
  else if path = cfg.playerPageRoute then some .playerPage
  else if path = ascii "playlist.m3u" then some .playlist
  else if path = ascii "epg.xml.gz" then some (.epg true)
  else if path = ascii "epg.xml" then some (.epg false)
  else if path = statusSseRoute cfg then some .statusSse
  else if statusApiPrefix cfg <+: path then
    some (statusApiRoute (path.drop (statusApiPrefix cfg).length))
  else none

/-- The path without one trailing slash. -/
def dropTrailingSlash (path : Bytes) : Bytes :=
  if path.getLast? = some slash then path.dropLast else path

/-- The routing of a path, from the static assets to the lookup of a service. -/
def routePath (cfg : RouteConfig) (path : Bytes) : Route :=
  match reservedRoute cfg path with
  | some r => r
  | none =>
    match httpUrlDecode path with
    | none => .badRequest
    | some decoded => .service (httpStripUrlLabel (cstr decoded))

def connectionRouteAndStart (cfg : RouteConfig) (url : RequestUrl) : Route :=
  let url := httpStripUrlLabel url.bytes
  if url.head? ≠ some slash then .badRequest
  else
    match stripAppPathPrefix cfg.appPathPrefix url with
    | none => .notFound
    | some url => routePath cfg (dropTrailingSlash (pathOf (url.drop 1)))

/-- `service_hashmap_get` of the key a route ends in. -/
def findService {Service : Type} (services : Bytes → Option Service) : Route → Option Service
  | .service key => services key
  | _ => none

/-! ## Steps of the routing -/

variable {cfg : RouteConfig}

theorem reservedRoute_ne_service {path key : Bytes} :
    reservedRoute cfg path ≠ some (.service key) := by
  have hapi : ∀ name, statusApiRoute name ≠ .service key := by
    intro name
    unfold statusApiRoute
    split <;> simp
  unfold reservedRoute
  repeat' split
  all_goals simp [hapi]

theorem routePath_of_reserved {path : Bytes} (h : reservedRoute cfg path ≠ none) (key : Bytes) :
    routePath cfg path ≠ .service key := by
  unfold routePath
  cases hr : reservedRoute cfg path with
  | none => exact absurd hr h
  | some r =>
    intro hk
    exact reservedRoute_ne_service (hr.trans (congrArg some hk))

theorem routePath_of_decode {path decoded : Bytes} (h : reservedRoute cfg path = none)
    (hd : httpUrlDecode path = some decoded) :
    routePath cfg path = .service (httpStripUrlLabel (cstr decoded)) := by
  simp only [routePath, h, hd]

theorem cstr_of_noNul {s : Bytes} (h : 0 ∉ s) : cstr s = s :=
  takeWhile_eq_self_iff.2 fun x hx => by
    rw [decide_eq_true_eq]
    rintro rfl
    exact h hx

theorem cstr_append_nul {text : Bytes} (h : 0 ∉ text) (rest : Bytes) :
    cstr (text ++ 0 :: rest) = text := by
  have hall : ∀ c ∈ text, decide (c ≠ 0) = true := fun c hc => decide_eq_true fun h0 => h (h0 ▸ hc)
  rw [cstr, takeWhile_append_of_pos hall, takeWhile_cons_of_neg (by simp), append_nil]

theorem cstr_length_le (s : Bytes) : (cstr s).length ≤ s.length := ( takeWhile_prefix _).length_le

theorem pathOf_append {s t : Bytes} (hs : question ∉ s) (ht : t = [] ∨ t.head? = some question) :
    pathOf (s ++ t) = s := by
  have hall : ∀ x ∈ s, decide (x ≠ question) = true := fun x hx => by
    rw [decide_eq_true_eq]
    rintro rfl
    exact hs hx
  unfold pathOf
  rw [takeWhile_append_of_pos hall]
  rcases ht with rfl | ht
  · simp
  · cases t with
    | nil => simp at ht
    | cons c t =>
      obtain rfl : c = question := by simpa using ht
      simp

theorem pathOf_short {s : Bytes} (h : question ∈ s) (t : Bytes) :
    (pathOf (s ++ t)).length < s.length := by
  induction s with
  | nil => exact absurd h not_mem_nil
  | cons c s ih =>
    by_cases hc : c = question
    · simp [pathOf, hc]
    · have hs : question ∈ s := (List.mem_cons.1 h).resolve_left (Ne.symm hc)
      have := ih hs
      simpa [pathOf, hc] using this

/-- A query inside the prefix, or a URL cut inside it, does not match it. -/
theorem stripAppPathPrefix_of_short {appPathPrefix url : Bytes}
    (h : (pathOf url).length < appPathPrefix.length) : stripAppPathPrefix appPathPrefix url = none := by
  unfold stripAppPathPrefix
  rw [if_neg (by rintro rfl; simp at h)]
  exact if_pos (.inl h)

theorem stripAppPathPrefix_of_slash {appPathPrefix s : Bytes} (hp : question ∉ appPathPrefix) :
    stripAppPathPrefix appPathPrefix (appPathPrefix ++ slash :: s) = some (slash :: s) := by
  unfold stripAppPathPrefix
  by_cases hnil : appPathPrefix = []
  · rw [if_pos hnil, hnil, nil_append]
  rw [if_neg hnil]
  have hall : ∀ x ∈ appPathPrefix, decide (x ≠ question) = true := fun x hx => by
    rw [decide_eq_true_eq]
    rintro rfl
    exact hp hx
  have hlen : appPathPrefix.length < (pathOf (appPathPrefix ++ slash :: s)).length := by
    unfold pathOf
    rw [takeWhile_append_of_pos hall, takeWhile_cons_of_pos (by decide), length_append, length_cons]
    omega
  rw [if_neg (by simp; omega), if_neg (by omega), if_neg (by simp)]
  simp

end Apackage.Rtp2httpd
