import Mathlib.Algebra.Ring.Int.Defs
import Apackage.OpenAppFilter.Regexp
import Apackage.OpenAppFilter.UrlAutomaton

/-
  The stages of `fwx_match_feature` (`fwx_main.c`): the automaton over the hosts of a flow, the regular
  expressions over its DNS names, and then one feature after the other.

  Model. The kernel's `in4_pton` and `in6_pton` are parameters. A stage says what it found a feature
  by.
-/

namespace Apackage.OpenAppFilter

/-! ## The hosts of a flow -/

/-- `MAX_URL_MATCH_LEN - 1`: what a buffer holds besides the zero at its end. -/
def hostBufLen : ℕ := 63

/-- The bytes before the first zero. -/
def cString (bytes : List UInt8) : List UInt8 := bytes.takeWhile (· != 0)

/-- `strncpy` into a buffer for `hostBufLen` bytes: zeros from the first zero on. -/
def copyHost (bytes : List UInt8) : List UInt8 :=
  let host := cString (bytes.take hostBufLen)
  host ++ List.replicate (min bytes.length hostBufLen - host.length) 0

/-- `in4_pton` and `in6_pton` on a whole string. -/
structure Pton where
  in4 : List UInt8 → Bool
  in6 : List UInt8 → Bool

def afIsDigitStr (str : List UInt8) : Bool :=
  !str.isEmpty && str.all fun c => '0'.toUInt8 ≤ c && c ≤ '9'.toUInt8

/-- `af_is_ipv4_literal`. -/
def afIsIpv4Literal (pton : Pton) (str : List UInt8) : Bool := !str.isEmpty && pton.in4 str

/-- `af_is_ipv6_literal`. -/
def afIsIpv6Literal (pton : Pton) (str : List UInt8) : Bool := !str.isEmpty && pton.in6 str

def afIsIpLiteralHost (pton : Pton) (host : List UInt8) : Bool :=
  match host with
  | [] => false
  | c :: rest =>
    if c = '['.toUInt8 then
      let literal := rest.takeWhile (· != ']'.toUInt8)
      rest.contains ']'.toUInt8 && !literal.isEmpty && literal.length < hostBufLen &&
        afIsIpv6Literal pton literal
    else if 1 < host.count ':'.toUInt8 then afIsIpv6Literal pton host
    else
      let literal := host.takeWhile (· != ':'.toUInt8)
      if host.count ':'.toUInt8 = 1 ∧ afIsDigitStr (host.drop (literal.length + 1)) then
        !literal.isEmpty && literal.length < hostBufLen &&
          (afIsIpv4Literal pton literal || afIsIpv6Literal pton literal)
      else afIsIpv4Literal pton host || afIsIpv6Literal pton host

/-- `af_get_flow_host`: the `host_len` bytes of the buffer. -/
def afGetFlowHost (pton : Pton) (flow : FlowInfo) : Option (List UInt8) :=
  let host :=
    if flow.https.matched ∧ 0 < flow.https.urlPos.length then some (copyHost flow.https.urlPos)
    else if flow.http.matched ∧ 0 < flow.http.hostPos.length then
      some (copyHost flow.http.hostPos)
    else none
  host.filter fun host => !afIsIpLiteralHost pton (cString host)

/-- The names that `af_copy_dns_domain` copies, for each index below `MAX_DNS_QUERY_NUM`. -/
def dnsDomains (flow : FlowInfo) : List (List UInt8) :=
  if flow.dns.matched then
    ((flow.dns.domain.take 16).filter fun domain => !domain.isEmpty).map (·.take hostBufLen)
  else []

/-! ## The stages -/

/-- What a feature was found by. -/
inductive MatchedBy
  | host (text : List UInt8)
  | dns (text : List UInt8)
  | request
  | pos
  | ports

/-- The loop of `af_match_url_feature_ac` over the DNS names. -/
def afMatchDnsDomains (ac : UrlAc) (flow : FlowInfo) :
    List (List UInt8) → Option (Option (FeatureNode × MatchedBy))
  | [] => some none
  | domain :: domains =>
    match afMatchUrlTextAc ac flow domain false with
    | none => none
    | some (some node) => some (some (node, .dns domain))
    | some none => afMatchDnsDomains ac flow domains

def afMatchUrlFeatureAc (pton : Pton) (ac : UrlAc) (flow : FlowInfo) :
    Option (Option (FeatureNode × MatchedBy)) :=
  match afGetFlowHost pton flow with
  | none => afMatchDnsDomains ac flow (dnsDomains flow)
  | some host =>
    match afMatchUrlTextAc ac flow host true with
    | none => none
    | some (some node) => some (some (node, .host host))
    | some none => afMatchDnsDomains ac flow (dnsDomains flow)

def afMatchDnsRegexFeature (mem : Leftover) (features : List FeatureNode) (flow : FlowInfo) :
    Option (FeatureNode × MatchedBy) :=
  (dnsDomains flow).findSome? fun domain =>
    (features.find? fun node =>
      node.hostUrl.length != 0 && afIsRegexHostPattern node.hostUrl &&
        regexpMatch mem node.hostUrl domain != 0).map (·, .dns domain)

def afMatchByUrl (mem : Leftover) (pton : Pton) (flow : FlowInfo) (node : FeatureNode) :
    Option MatchedBy :=
  let host := cString ((afGetFlowHost pton flow).getD [])
  let url := cString (flow.http.urlPos.take hostBufLen)
  if 0 < host.length ∧ 0 < node.hostUrl.length ∧ regexpMatch mem node.hostUrl host ≠ 0 then
    some (.host host)
  else
    match (dnsDomains flow).find? fun domain =>
        node.hostUrl.length != 0 && regexpMatch mem node.hostUrl domain != 0 with
    | some domain => some (.dns domain)
    | none =>
      if flow.http.matched ∧ 0 < url.length ∧ 0 < node.requestUrl.length ∧
          regexpMatch mem node.requestUrl url ≠ 0 then some .request
      else none

/-- The comparison of a byte in `af_match_by_pos`; the position is unsigned. -/
def matchPos (data : List UInt8) (pos : ℤ) (value : UInt8) : Bool :=
  let pos := if pos < 0 then data.length + pos else pos
  data[(pos % 2 ^ 32).toNat]? == some value

def kMemstr (data str : List UInt8) : Bool := data.tails.any (str.isPrefixOf ·)

def afMatchByPos (flow : FlowInfo) (node : FeatureNode) : Bool :=
  0 < node.posInfo.length &&
    ((node.posInfo.take 16).all fun info => matchPos flow.l4Data info.1 info.2) &&
    (node.searchStr.isEmpty || kMemstr flow.l4Data node.searchStr)

def afMatchOne (mem : Leftover) (pton : Pton) (flow : FlowInfo) (node : FeatureNode) :
    Option MatchedBy :=
  if !afMatchBasicCond flow node then none
  else if 0 < node.requestUrl.length ∨ 0 < node.hostUrl.length then
    afMatchByUrl mem pton flow node
  else if 0 < node.posInfo.length then if afMatchByPos flow node then some .pos else none
  else some .ports

def afMatchNonUrlFeature (mem : Leftover) (pton : Pton) (features : List FeatureNode)
    (flow : FlowInfo) : Option (FeatureNode × MatchedBy) :=
  features.findSome? fun node =>
    if node.plain ∧ node.requestUrl.length = 0 then none
    else (afMatchOne mem pton flow node).map (node, ·)

def isQuicFlow (flow : FlowInfo) : Bool :=
  match flow.l4Data with
  | d0 :: d1 :: d2 :: d3 :: d4 :: rest =>
    let version := ((d1.toNat * 256 + d2.toNat) * 256 + d3.toNat) * 256 + d4.toNat
    flow.l4Protocol == 17 && 3 ≤ rest.length && 128 ≤ d0 &&
      (version == 1 || version == 0 || version == 0x6b3343cf || 0xff000000 ≤ version ||
        flow.dport == 443)
  | _ => false

/-- What `fwx_match_feature` finds, and in which stage. -/
inductive FeatureMatch
  | quic
  | url (node : FeatureNode) (how : MatchedBy)
  | dnsRegex (node : FeatureNode) (how : MatchedBy)
  | nonUrl (node : FeatureNode) (how : MatchedBy)
  | miss

/-- `fwx_match_feature`; `none` where a walk in the automaton does not end. -/
def fwxMatchFeature (mem : Leftover) (pton : Pton) (s : FeatureList) (flow : FlowInfo) :
    Option FeatureMatch :=
  if isQuicFlow flow then some .quic
  else
    match afMatchUrlFeatureAc pton s.urlAc flow with
    | none => none
    | some (some (node, how)) => some (.url node how)
    | some none =>
      match afMatchDnsRegexFeature mem s.featureHead flow with
      | some (node, how) => some (.dnsRegex node how)
      | none =>
        match afMatchNonUrlFeature mem pton s.featureHead flow with
        | some (node, how) => some (.nonUrl node how)
        | none => some .miss

end Apackage.OpenAppFilter
