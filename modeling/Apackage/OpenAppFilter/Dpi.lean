import Mathlib.Algebra.Ring.Int.Defs
import Apackage.Lib.Region
import Apackage.OpenAppFilter.UrlAutomaton

/-
  The packet inspection (`fwx_main.c`): `parse_flow_proto` fills in a flow, the scanners of
  `dpi_main` look for hosts in its payload, and `is_quic_flow` and `af_match_by_pos` compare
  bytes of it.

  Model. The packet is linear. A read of a header behind its last byte finds `behind`. `l4_data`
  is the list of the bytes that the packet has from there on, and a read of the payload outside
  them is none. A pointer into the payload is an offset from `l4_data`. Addresses and logs are left
  out, and what a question that fails leaves in its buffer behind the last query.
-/

namespace Apackage.OpenAppFilter.Dpi

open Lib.Region

/-! ## Flows -/

/-- A pointer into the payload and a length, as the flow stores them. -/
structure Span where
  pos : ℕ
  len : ℤ
  deriving DecidableEq

inductive HttpMethod
  | get
  | post
  deriving DecidableEq

/-- `http_proto_t`. -/
structure HttpProto where
  matched : Bool
  method : Option HttpMethod
  url : Option Span
  host : Option Span
  data : Option Span
  deriving DecidableEq

/-- `https_proto_t`. -/
structure HttpsProto where
  matched : Bool
  url : Option Span
  deriving DecidableEq

/-- A name of `dns_proto_t` and its type. -/
structure DnsQuery where
  domain : List UInt8
  qtype : ℕ
  deriving DecidableEq

/-- `dns_proto_t`, with the first `query_num` queries. -/
structure DnsProto where
  matched : Bool
  qdcount : ℕ
  queries : List DnsQuery
  deriving DecidableEq

/-- What the scanners use of `flow_info_t`. -/
structure FlowInfo where
  l4Protocol : ℕ
  sport : ℕ
  dport : ℕ
  l4Data : List UInt8
  l4Len : ℤ
  http : HttpProto
  https : HttpsProto
  dns : DnsProto
  clientHello : Bool
  deriving DecidableEq

/-- The flow after `memset`, with the values that `parse_flow_proto` sets. -/
def FlowInfo.fresh (l4Protocol sport dport : ℕ) (l4Data : List UInt8) (l4Len : ℤ) : FlowInfo where
  l4Protocol := l4Protocol
  sport := sport
  dport := dport
  l4Data := l4Data
  l4Len := l4Len
  http := ⟨false, none, none, none, none⟩
  https := ⟨false, none⟩
  dns := ⟨false, 0, []⟩
  clientHello := false

/-! ## The headers -/

inductive EthProto
  | ip
  | ipv6
  | other

/-- A packet from its network header on; `skb->len` is an `unsigned int` that the code takes
    for an `int`. -/
structure Packet where
  protocol : EthProto
  bytes : List UInt8
  behind : ℕ → UInt8
  length_lt : bytes.length < 2 ^ 31

namespace Packet

def byte (p : Packet) (k : ℕ) : ℕ := (p.bytes[k]?.getD (p.behind k)).toNat

def ntohs (p : Packet) (k : ℕ) : ℕ := p.byte k * 256 + p.byte (k + 1)

/-- `l4_protocol`, `ipp` and `ipp_len` of the first `switch` of `parse_flow_proto`. -/
def network (p : Packet) : Option (ℕ × ℕ × ℤ) :=
  match p.protocol with
  | .ip =>
    let ihl := p.byte 0 % 16
    some (p.byte 9, ihl * 4, p.ntohs 2 - ihl * 4)
  | .ipv6 => some (p.byte 6, 40, p.ntohs 4)
  | .other => none

end Packet

/-- `parse_flow_proto`; none for its -1. -/
def parseFlowProto (p : Packet) : Option FlowInfo :=
  match p.network with
  | none => none
  | some (l4Protocol, ipp, ippLen) =>
    if l4Protocol = 6 then
      let doff := p.byte (ipp + 12) / 16
      some (.fresh 6 (p.ntohs ipp) (p.ntohs (ipp + 2)) (p.bytes.drop (ipp + doff * 4))
        (ippLen - doff * 4))
    else if l4Protocol = 17 then
      some (.fresh 17 (p.ntohs ipp) (p.ntohs (ipp + 2)) (p.bytes.drop (ipp + 8))
        (p.ntohs (ipp + 4) - 8))
    else none

/-- The copy of a packet in fragments that the hooks make with `read_skb`: `from` and `len` are
    compared with the packet first. -/
def readSkb (flow : FlowInfo) : Option FlowInfo :=
  let len := min flow.l4Len 4096
  if len ≤ 0 ∨ flow.l4Data.length < len then none
  else some { flow with l4Data := flow.l4Data.take len.toNat, l4Len := len }

/-! ## Conditions -/

/-- The `&&` of C: its right side reads only where the left side holds. -/
def andAlso (a b : Option Bool) : Option Bool := a.bind fun x => if x then b else some false

def byteIs (data : List UInt8) (i : ℕ) (c : UInt8) : Option Bool := data[i]?.map (· == c)

/-- `memcmp(&data[i], text, strlen(text)) == 0`. -/
def textAt (data : List UInt8) (i : ℕ) (text : List Char) : Option Bool :=
  (load data i text.length).map (· == text.map Char.toUInt8)

/-! ## HTTP -/

def httpLine (data : List UInt8) (start i : ℕ) (http : HttpProto) : Option HttpProto := do
  let lineLen : ℤ := i - start
  if ← andAlso (some (5 ≤ lineLen)) (textAt data start ['P', 'O', 'S', 'T', ' ']) then
    some { http with
      matched := true, method := some .post, url := some ⟨start + 5, i - start - 5⟩ }
  else if ← andAlso (some (4 ≤ lineLen)) (textAt data start ['G', 'E', 'T', ' ']) then
    some { http with
      matched := true, method := some .get, url := some ⟨start + 4, i - start - 4⟩ }
  else if ← andAlso (some (6 ≤ lineLen)) (textAt data start ['H', 'o', 's', 't', ':']) then
    some { http with host := some ⟨start + 6, i - start - 6⟩ }
  else some http

/-- The loop of `dpi_http_proto`, for `n` more rounds. -/
def httpScan (data : List UInt8) (dataLen : ℤ) : ℕ → ℕ → ℕ → HttpProto → Option HttpProto
  | 0, _, _, http => some http
  | n + 1, i, start, http => do
    if ← andAlso (byteIs data i 0x0d) (byteIs data (i + 1) 0x0a) then
      let http ← httpLine data start i http
      if ← andAlso (some (4 ≤ dataLen - i))
          (andAlso (byteIs data (i + 2) 0x0d) (byteIs data (i + 3) 0x0a)) then
        some { http with data := some ⟨i + 4, dataLen - i - 4⟩ }
      else httpScan data dataLen n (i + 1) (i + 2) http
    else httpScan data dataLen n (i + 1) start http

def dpiHttpProto (flow : FlowInfo) : Option FlowInfo :=
  if flow.l4Protocol ≠ 6 ∨ flow.l4Len < 16 then some flow
  else (httpScan flow.l4Data flow.l4Len (flow.l4Len - 1).toNat 0 0 flow.http).map fun http =>
    { flow with http := http }

/-! ## TLS -/

def domainChar (c : UInt8) : Bool :=
  ('a'.toUInt8 ≤ c && c ≤ 'z'.toUInt8) || ('A'.toUInt8 ≤ c && c ≤ 'Z'.toUInt8) ||
    ('0'.toUInt8 ≤ c && c ≤ '9'.toUInt8) || c == '.'.toUInt8 || c == '-'.toUInt8 || c == ':'.toUInt8

/-- `check_domain` on the `len` characters at `h`. -/
def checkDomain (data : List UInt8) (h : ℕ) : ℕ → Option Bool
  | 0 => some true
  | len + 1 => andAlso (data[h]?.map domainChar) (checkDomain data (h + 1) len)

/-- The bytes of a `server_name` extension that has a length below 256. -/
def extensionAt (data : List UInt8) (i : ℕ) : Option Bool :=
  andAlso (byteIs data i 0) (andAlso (byteIs data (i + 1) 0) (andAlso (byteIs data (i + 2) 0)
    ((byteIs data (i + 3) 0).map not)))

/-- The length of the name that the round of the loop at `i` takes. -/
def nameAt (data : List UInt8) (dataLen : ℤ) (i : ℕ) : Option (Option ℕ) := do
  if ← extensionAt data i then
    let urlLen ← loadNat data (i + 7) 2
    if urlLen ≤ 4 ∨ dataLen < urlLen ∨ 40 < urlLen then some none
    else if i + 9 + urlLen < dataLen then
      (checkDomain data (i + 9) urlLen).map fun valid => if valid then some urlLen else none
    else some none
  else some none

/-- How the loop of `dpi_https_proto` ends. -/
inductive HttpsScan
  | found (pos len : ℕ)
  | missed
  | ended
  deriving DecidableEq

/-- The loop of `dpi_https_proto`, for `n` more rounds. -/
def httpsScan (data : List UInt8) (dataLen : ℤ) : ℕ → ℕ → Option HttpsScan
  | 0, _ => some .ended
  | n + 1, i =>
    if dataLen ≤ i + 9 then some .missed
    else
      (nameAt data dataLen i).bind fun
        | some urlLen => some (.found (i + 9) urlLen)
        | none => httpsScan data dataLen n (i + 1)

def helloAt (data : List UInt8) : Option Bool :=
  andAlso (byteIs data 0 0x16) (andAlso (byteIs data 1 0x03) (byteIs data 5 0x01))

/-- `dpi_https_proto`, with its return value. -/
def dpiHttpsProto (flow : FlowInfo) : Option (ℤ × FlowInfo) := do
  if flow.l4Len < 16 then some (-1, flow)
  else if (← helloAt flow.l4Data) || flow.clientHello then
    match ← httpsScan flow.l4Data flow.l4Len flow.l4Len.toNat 0 with
    | .found pos len =>
      some (0, { flow with https := ⟨true, some ⟨pos, len⟩⟩, clientHello := false })
    | .missed => some (-1, { flow with clientHello := true })
    | .ended => some (-1, flow)
  else some (-1, flow)

/-! ## DNS -/

def lowerCase (c : UInt8) : UInt8 := if 'A'.toUInt8 ≤ c ∧ c ≤ 'Z'.toUInt8 then c + 32 else c

/-- The characters of a label behind `out`; the inner none is the -1 of the caller. -/
def copyLabel (mem : List UInt8) : ℕ → ℕ → List UInt8 → Option (Option (List UInt8))
  | 0, _, out => some (some out)
  | n + 1, offset, out =>
    mem[offset]?.bind fun c =>
      if 127 ≤ out.length then some none
      else copyLabel mem n (offset + 1) (out ++ [lowerCase c])

/-- The loop over the labels, for `n` more rounds: the name and the offset behind it. -/
def nameLoop (mem : List UInt8) (dnsLen : ℕ) : ℕ → ℕ → List UInt8 → Option (Option (List UInt8 × ℕ))
  | 0, offset, out => some (some (out, offset))
  | n + 1, offset, out =>
    if dnsLen ≤ offset then some (some (out, offset))
    else
      mem[offset]?.bind fun c =>
        let labelLen := c.toNat
        let offset := offset + 1
        if labelLen = 0 then some (some (out, offset))
        else if c &&& 0xC0 ≠ 0 then some none
        else if 63 < labelLen ∨ dnsLen < offset + labelLen then some none
        else if 0 < out.length ∧ 127 ≤ out.length then some none
        else
          let out := if 0 < out.length then out ++ ['.'.toUInt8] else out
          (copyLabel mem labelLen offset out).bind fun
            | none => some none
            | some out => nameLoop mem dnsLen n (offset + labelLen) out

/-- `af_parse_dns_query_name`: the query and `next_query_offset`. -/
def afParseDnsQueryName (mem : List UInt8) (dnsLen queryOffset : ℕ) :
    Option (Option (DnsQuery × ℕ)) :=
  if queryOffset < 12 then some none
  else if dnsLen ≤ 12 ∨ dnsLen ≤ queryOffset then some none
  else
    (nameLoop mem dnsLen (dnsLen - queryOffset) queryOffset []).bind fun
      | none => some none
      | some (out, offset) =>
        if out.length = 0 then some none
        else if dnsLen < offset + 4 then some none
        else (loadNat mem offset 2).map fun qtype => some (⟨out, qtype⟩, offset + 4)

/-- The loop over the questions, for `n` more rounds. -/
def questionLoop (mem : List UInt8) (dnsLen : ℕ) : ℕ → ℕ → Option (List DnsQuery)
  | 0, _ => some []
  | n + 1, offset =>
    (afParseDnsQueryName mem dnsLen offset).bind fun
      | none => some []
      | some (query, offset) =>
        (questionLoop mem dnsLen n offset).map fun queries => query :: queries

/-- `dpi_dns_proto` from the flags of the message on; `mem` begins at the message. -/
def dnsMessage (flow : FlowInfo) (mem : List UInt8) (dnsLen : ℕ) : Option (ℤ × FlowInfo) := do
  let flags ← loadNat mem 2 2
  let qdcount ← loadNat mem 4 2
  if 0x8000 ≤ flags ∨ qdcount = 0 then some (-1, flow)
  else
    let queries ← questionLoop mem dnsLen (min qdcount 16) 12
    if 0 < queries.length then
      some (0, { flow with dns := ⟨true, qdcount, queries⟩ })
    else some (-1, { flow with dns := { flow.dns with qdcount := qdcount } })

/-- `dpi_dns_proto`, with its return value. -/
def dpiDnsProto (flow : FlowInfo) : Option (ℤ × FlowInfo) :=
  if flow.l4Len ≤ 12 then some (-1, flow)
  else if flow.sport ≠ 53 ∧ flow.dport ≠ 53 then some (-1, flow)
  else if flow.l4Protocol = 6 then
    if flow.l4Len ≤ 14 then some (-1, flow)
    else
      (loadNat flow.l4Data 0 2).bind fun msgLen =>
        if msgLen = 0 ∨ flow.l4Len - 2 < msgLen then some (-1, flow)
        else dnsMessage flow (flow.l4Data.drop 2) msgLen
  else if flow.l4Protocol = 17 then dnsMessage flow flow.l4Data flow.l4Len.toNat
  else some (-1, flow)

def dpiMain (flow : FlowInfo) : Option FlowInfo := do
  let flow ← dpiHttpProto flow
  let (_, flow) ← dpiHttpsProto flow
  let (_, flow) ← dpiDnsProto flow
  some flow

/-! ## Features -/

def isQuicFlow (flow : FlowInfo) : Option Bool :=
  if flow.l4Protocol ≠ 17 ∨ flow.l4Len < 8 then some false
  else
    flow.l4Data[0]?.bind fun firstByte =>
      if firstByte &&& 0x80 = 0 then some false
      else
        (loadNat flow.l4Data 1 4).map fun version =>
          version == 1 || version == 0 || version == 0x6b3343cf || 0xff000000 ≤ version ||
            flow.dport == 443

/-- The loop of `k_memstr` at `p`, for `n` more rounds: whether `str` stands in the data. -/
def memstrLoop (data str : List UInt8) : ℕ → ℕ → Option Bool
  | 0, _ => some false
  | n + 1, p =>
    (load data p str.length).bind fun bytes =>
      if bytes = str then some true else memstrLoop data str n (p + 1)

/-- `k_memstr`, with a length of `str` that fits the `char` it is kept in. -/
def kMemstr (data str : List UInt8) (size : ℤ) : Option Bool :=
  memstrLoop data str (size - str.length + 1).toNat 0

/-- The loop of `af_match_by_pos`: `pos` is an `unsigned int` and makes `l4_len` one. -/
def matchPositions (data : List UInt8) (l4Len : ℤ) : List (ℤ × UInt8) → Option Bool
  | [] => some true
  | (infoPos, value) :: infos =>
    let pos : ℕ := ((if infoPos < 0 then l4Len + infoPos else infoPos) % 2 ^ 32).toNat
    if l4Len % 2 ^ 32 ≤ pos then some false
    else andAlso (byteIs data pos value) (matchPositions data l4Len infos)

def afMatchByPos (flow : FlowInfo) (node : FeatureNode) : Option Bool :=
  andAlso (some (0 < node.posInfo.length))
    (andAlso (matchPositions flow.l4Data flow.l4Len (node.posInfo.take 16))
      (if 0 < node.searchStr.length then kMemstr flow.l4Data node.searchStr flow.l4Len
        else some true))

end Apackage.OpenAppFilter.Dpi
