import Mathlib.Logic.Function.Basic
import Apackage.Lib.Run
import Apackage.Rtp2httpd.Playlist.M3u

/-
  The table of services: the linked list `services` and the hashmap from names to services
  (`m3u.c`, `service.c`).

  Model. A service is its address, its name (`url`) and its source; every allocation has an
  address of its own. The hashmap is a map from names to addresses. Which URLs
  `service_create_from_rtp_url` and its like accept is a parameter.
-/

namespace Apackage.Rtp2httpd

open Lib.Run

inductive ServiceSource
  | inline
  | external
  deriving DecidableEq

/-- `service_t`. -/
structure TableService where
  address : ℕ
  name : Bytes
  source : ServiceSource

structure ServiceTable where
  services : List TableService
  serviceMap : Bytes → Option ℕ
  /-- The next address. -/
  fresh : ℕ

/-- The configuration: the path prefix and the URLs that services are created from. -/
structure TableConfig where
  appPathRoute : Bytes
  accepts : Bytes → Bool

namespace ServiceTable

/-- `service_free_all` and `service_hashmap_init`. -/
def cleared (t : ServiceTable) : ServiceTable := { t with services := [], serviceMap := fun _ => none }

/-- `service_hashmap_add`. -/
def hashmapAdd (t : ServiceTable) (s : TableService) : ServiceTable :=
  { t with serviceMap := Function.update t.serviceMap s.name (some s.address) }

/-- `service_hashmap_remove`. -/
def hashmapRemove (t : ServiceTable) (s : TableService) : ServiceTable :=
  { t with serviceMap := Function.update t.serviceMap s.name none }

def names (t : ServiceTable) : List Bytes := t.services.map (·.name)

end ServiceTable

/-- The number of a service `name/N`. -/
def suffixNumber (serviceName existing : Bytes) : Option ℕ :=
  if serviceName ++ [slash] <+: existing then
    match strtol (existing.drop (serviceName.length + 1)) with
    | some (n, []) => if 0 < n ∧ n < 1000 then some n.toNat else none
    | _ => none
  else none

/-- The largest number; 0 if there is none. -/
def maxSuffix (names : List Bytes) (serviceName : Bytes) : ℕ :=
  names.foldl (fun m existing => max m ((suffixNumber serviceName existing).getD 0)) 0

def numberedName (serviceName : Bytes) (n : ℕ) : Bytes := serviceName ++ slash :: printDecimal n

def findUniqueServiceName (names : List Bytes) (serviceName : Bytes) : Bytes :=
  if serviceName ∉ names ∧ maxSuffix names serviceName = 0 then serviceName
  else
    let nextSuffix :=
      if 0 < maxSuffix names serviceName then maxSuffix names serviceName + 1 else 2
    (numberedName serviceName nextSuffix).take (maxServiceName - 1)

def normalizedUrl (cfg : TableConfig) (call : ServiceCall) : Bytes :=
  let url := call.url.take (m3uUrlSize - 1)
  let url :=
    match extractWrappedUrl cfg.appPathRoute url m3uUrlSize with
    | some extracted => extracted.take (m3uUrlSize - 1)
    | none => url
  if call.stripUrlLabel then httpStripUrlLabel url else url

/-- `create_service_from_url`: the table and the name of the service; none is NULL. -/
def createServiceFromUrl (cfg : TableConfig) (source : ServiceSource) (t : ServiceTable)
    (call : ServiceCall) : ServiceTable × Option Bytes :=
  let url := normalizedUrl cfg call
  let uniqueName := findUniqueServiceName t.names call.name
  if (directSchemes.any fun scheme => scheme <+: url) && cfg.accepts url then
    let service := ⟨t.fresh, uniqueName, source⟩
    let t := { t with services := t.services ++ [service], fresh := t.fresh + 1 }
    (t.hashmapAdd service, some uniqueName)
  else (t, none)

/-- The loop of `service_free_external`, from a position in the list on; what is kept is in
    front of it. -/
def freeExternalFrom : ServiceTable → List TableService → ServiceTable
  | t, [] => t
  | t, current :: rest =>
    if current.source = .external then freeExternalFrom (t.hashmapRemove current) rest
    else freeExternalFrom { t with services := t.services ++ [current] } rest

def serviceFreeExternal (t : ServiceTable) : ServiceTable :=
  freeExternalFrom { t with services := [] } t.services

/-- `service_clone_list`: the clones have addresses of their own. -/
def serviceCloneList (fresh : ℕ) : List TableService → List TableService
  | [] => []
  | s :: rest => { s with address := fresh } :: serviceCloneList (fresh + 1) rest

def serviceReplaceAll (t : ServiceTable) (new : List TableService) : ServiceTable :=
  new.foldl ServiceTable.hashmapAdd { t.cleared with services := new }

/-! ## Runs -/

/-- A process: the table, the playlist parser and the services saved before a reload. -/
structure Playlists where
  table : ServiceTable
  entry : EntryState
  source : ServiceSource
  saved : Option (List TableService)

inductive PlaylistEvent
  /-- `m3u_parse_and_create_services` starts. -/
  | parse (source : ServiceSource)
  /-- It reads a line. -/
  | line (line : Bytes)
  /-- `create_service_from_url` is called. -/
  | create (call : ServiceCall)
  /-- `service_free_external`, before an external playlist is loaded. -/
  | freeExternal
  /-- `config_cleanup` and `config_init`, before the configuration is parsed. -/
  | reset
  /-- `service_clone_all`, before a reload. -/
  | save
  /-- `service_replace_all` with the saved services, when a reload fails. -/
  | restore

def playlistEvents (source : ServiceSource) (content : Bytes) : List PlaylistEvent :=
  .parse source :: (m3uLines content).map .line

/-- The services that a URL line creates: that of the line, then that of its catchup source. -/
def createForUrl (cfg : TableConfig) (s : Playlists) (line : Bytes) : ServiceTable :=
  match mainCall cfg.appPathRoute s.entry.extinf line with
  | none => s.table
  | some call =>
    match createServiceFromUrl cfg s.source s.table call with
    | (t, none) => t
    | (t, some unique) =>
      match catchupCall cfg.appPathRoute s.entry.extinf (!s.entry.entryHasUrl) line unique with
      | none => t
      | some call => (createServiceFromUrl cfg s.source t call).1

def playlistStep (cfg : TableConfig) (s : Playlists) : PlaylistEvent → Playlists
  | .parse source => { s with entry := .init, source }
  | .line line =>
    if s.entry.takesUrl line then
      { s with table := createForUrl cfg s line, entry := { s.entry with entryHasUrl := true } }
    else { s with entry := s.entry.tag line }
  | .create call => { s with table := (createServiceFromUrl cfg s.source s.table call).1 }
  | .freeExternal => { s with table := serviceFreeExternal s.table }
  | .reset => { s with table := s.table.cleared }
  | .save =>
    { s with
      saved := some (serviceCloneList s.table.fresh s.table.services)
      table := { s.table with fresh := s.table.fresh + s.table.services.length } }
  | .restore =>
    match s.saved with
    | none => s
    | some saved => { s with table := serviceReplaceAll s.table saved, saved := none }

end Apackage.Rtp2httpd
