import Apackage.Rtp2httpd.Http.Request
import Apackage.Rtp2httpd.Proxy.Target

/-
  The base URL of a generated playlist (`build_proxy_base_url` in `utils.c`).

  Model. An empty string is a string that is not configured, or a header that is not there.
  `get_server_address` reads the interfaces of the machine; what it returns is an argument
  here, and the results hold for whatever it may return.
-/

namespace Apackage.Rtp2httpd

/-- The settings that a generated playlist reads. -/
structure SiteConfig where
  hostname : Bytes
  r2hToken : Bytes
  appPathPrefix : Bytes
  xff : Bool
  useRelativePathInM3u : Bool
  deriving DecidableEq

/-- The headers of a request that choose the base URL. -/
structure ForwardHeaders where
  hostHeader : Bytes
  xForwardedHost : Bytes
  xForwardedProto : Bytes

/-- `http_parse_url_components` when only the protocol is asked for; none is -1. -/
def urlProtocol (url : Bytes) : Option Bytes :=
  if url = [] then none
  else
    let (protocol, p) :=
      match strstr (ascii "://") url with
      | some i => (if i < 16 then url.take i else [], url.drop (i + 3))
      | none => ([], url)
    let hostport := p.takeWhile (· ≠ slash)
    if hostport.head? = some openBracket ∧ closeBracket ∉ hostport then none
    else some protocol

def hostNeedsBrackets (host : Bytes) : Bool :=
  host ≠ [] ∧ host.head? ≠ some openBracket ∧ colon ∈ host

/-- `format_host_for_url`; none is -1. -/
def formatHostForUrl (host : Bytes) (outSize : ℕ) : Option Bytes :=
  let out := if hostNeedsBrackets host then openBracket :: host ++ [closeBracket] else host
  if outSize ≤ out.length then none else some out

def configProtocol (cfg : SiteConfig) : Bytes :=
  match urlProtocol cfg.hostname with
  | some (c :: protocol) => c :: protocol
  | _ => ascii "http"

/-- The host and protocol that the headers choose. -/
def forwardedHost (cfg : SiteConfig) (h : ForwardHeaders) : Option (Bytes × Bytes) :=
  let proto := if cfg.xff ∧ h.xForwardedProto ≠ [] then h.xForwardedProto else configProtocol cfg
  if cfg.xff ∧ h.xForwardedHost ≠ [] then some (h.xForwardedHost, proto)
  else if h.hostHeader ≠ [] then some (h.hostHeader, proto)
  else none

/-- A bare IPv6 literal gets its brackets, unless that makes it too long. -/
def normalizedHost (host : Bytes) : Bytes :=
  if host.head? ≠ some openBracket ∧ 2 ≤ host.count colon then
    (formatHostForUrl host 512).getD host
  else host

/-- `build_proxy_base_url`; none is NULL. -/
def buildProxyBaseUrl (cfg : SiteConfig) (serverAddress : Option Bytes) (h : ForwardHeaders) :
    Option Bytes :=
  if cfg.useRelativePathInM3u then some (cfg.appPathPrefix ++ [slash])
  else
    match forwardedHost cfg h with
    | some (host, proto) =>
      some (proto ++ ascii "://" ++ normalizedHost host ++ cfg.appPathPrefix ++ [slash])
    | none => serverAddress

end Apackage.Rtp2httpd
