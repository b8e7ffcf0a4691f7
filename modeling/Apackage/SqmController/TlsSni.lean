import Apackage.OpenAppFilter.ClientHello

/-
  The server names that `tls_sni.py` takes out of captured packets.

  `_extract_sni_from_handshake` follows the lengths of a `ClientHello` with slices, and these get
  shorter where the bytes end. It looks at the first entry of the list of names only, and of a name
  that is cut it returns the part that is there (`sni_right_iff`).

  Model. A text is its bytes, and an address is its bytes too. Where the function returns the empty
  text, or reads outside and catches it, the result is `none` until the end. A packet too short for
  its IPv6 header is not caught.
-/

namespace Apackage.SqmController.Sni

open List Option Lib.Region OpenAppFilter.Dpi

/-! ## _extract_sni_from_handshake -/

/-- Behind a field with a length of `k` bytes. -/
def skip (ch : List UInt8) (offset k : ℕ) : Option ℕ :=
  (loadNat ch offset k).map fun len => offset + k + len

/-- The first name of a list, if it is a host name. -/
def entryName (sn : List UInt8) : List UInt8 :=
  if 3 < sn.length ∧ sn[0]? = some 0 then
    ((sn.drop 3).take ((loadNat sn 1 2).getD 0)).filter (· < 128)
  else []

/-- The name in the data of a `server_name` extension. -/
def firstName (sniData : List UInt8) : List UInt8 :=
  if 5 < sniData.length then
    entryName ((sniData.drop 2).take ((loadNat sniData 0 2).getD 0))
  else []

/-- The loop over the extensions. -/
def sniLoop (ch : List UInt8) (extEnd offset : ℕ) : Option (List UInt8) :=
  if offset + 4 ≤ extEnd then
    match loadNat ch offset 2, loadNat ch (offset + 2) 2 with
    | some extType, some extDataLen =>
      if extType = 0 then some (firstName ((ch.drop (offset + 4)).take extDataLen))
      else sniLoop ch extEnd (offset + 4 + extDataLen)
    | _, _ => none
  else none
termination_by extEnd - offset

/-- What is done with `ch`. -/
def helloSni (ch : List UInt8) : Option (List UInt8) := do
  let offset ← skip ch (2 + 32) 1
  let offset ← skip ch offset 2
  let offset ← skip ch offset 1
  let extLen ← loadNat ch offset 2
  sniLoop ch (offset + 2 + extLen) (offset + 2)

/-- `_extract_sni_from_handshake`. -/
def extractSniFromHandshake (payload : List UInt8) : List UInt8 :=
  Option.getD (do
    let recordLen ← loadNat payload 3 2
    let handshake := (payload.drop 5).take recordLen
    if handshake.length < 40 ∨ handshake[0]? ≠ some 1 then none
    else
      let hsLen ← loadNat handshake 1 3
      helloSni ((handshake.drop 4).take hsLen)) []

/-! ## parse_pcap_sni -/

structure SniResult where
  dstIp : List UInt8
  dstPort : ℕ
  sni : List UInt8

/-- What follows once the TCP header is found. -/
def parseTcp (packet dstIp : List UInt8) (tcpStart : ℕ) : Option SniResult :=
  if packet.length < tcpStart + 20 then none
  else do
    let dataOffset ← packet[tcpStart + 12]?
    let dstPort ← loadNat packet (tcpStart + 2) 2
    let payload := packet.drop (tcpStart + dataOffset.toNat / 16 * 4)
    if payload.length < 6 ∨ payload[0]? ≠ some 0x16 ∨ payload[1]? ≠ some 0x03 then none
    else
      let sni := extractSniFromHandshake payload
      if sni = [] then none else some ⟨dstIp, dstPort, sni⟩

/-- One packet of the capture; `none` for a read outside it. -/
def parsePacket (packet : List UInt8) : Option (Option SniResult) :=
  if packet.length < 40 then some none
  else do
    let ipByte ← packet[20]?
    if ipByte.toNat / 16 = 4 then
      let protocol ← packet[29]?
      if protocol ≠ 6 then some none
      else some (parseTcp packet ((packet.drop 36).take 4) (20 + ipByte.toNat % 16 * 4))
    else if ipByte.toNat / 16 = 6 then
      let nextHeader ← packet[26]?
      if nextHeader ≠ 6 then some none
      else
        let dstIp ← load packet 44 16
        some (parseTcp packet dstIp 60)
    else some none

/-- `incl_len`, in little-endian bytes. -/
def inclLen (data : List UInt8) (pos : ℕ) : ℕ :=
  (loadNat ((data.drop (pos + 8)).take 4).reverse 0 4).getD 0

/-- The loop of `parse_pcap_sni` from a position on. -/
def parsePackets (data : List UInt8) : ℕ → ℕ → Option (List SniResult)
  | 0, _ => some []
  | n + 1, pos =>
    if data.length < pos + 16 then some []
    else
      let len := inclLen data pos
      if len = 0 ∨ data.length < pos + 16 + len then parsePackets data n (pos + 16 + len)
      else do
        let result ← parsePacket ((data.drop (pos + 16)).take len)
        let results ← parsePackets data n (pos + 16 + len)
        return result.toList ++ results

/-- `parse_pcap_sni`. -/
def parsePcapSni (data : List UInt8) (maxPackets : ℕ) : Option (List SniResult) :=
  parsePackets data maxPackets 24

/-! ## Hellos with names -/

/-- An entry of a list of server names. -/
structure ServerName where
  type : UInt8
  name : List UInt8

def ServerName.encode (s : ServerName) : List UInt8 := s.type :: (bytesOf 2 s.name.length ++ s.name)

/-- A name is not empty, and a host name is ASCII. -/
structure ServerName.Valid (s : ServerName) : Prop where
  pos : 0 < s.name.length
  lt : s.name.length < 256 ^ 2
  ascii : s.type = 0 → ∀ x ∈ s.name, x < 128

def encodeNames (names : List ServerName) : List UInt8 :=
  bytesOf 2 (names.flatMap ServerName.encode).length ++ names.flatMap ServerName.encode

/-- The first host name. -/
def host (names : List ServerName) : List UInt8 :=
  ((names.find? fun s => s.type = 0).map ServerName.name).getD []

/-- Where the data of the first `server_name` extension begin, and the data. -/
def sniPlace : List Extension → Option (ℕ × List UInt8)
  | [] => none
  | e :: es => if e.type = 0 then some (4, e.data)
    else (sniPlace es).map fun place => (e.encode.length + place.1, place.2)

/-- The hello has these server names, or no `server_name` extension. -/
def HasNames (hello : ClientHello) (names : List ServerName) : Prop :=
  match sniPlace (hello.extensions.getD []) with
  | none => names = []
  | some place => names ≠ [] ∧ place.2 = encodeNames names ∧ (∀ s ∈ names, s.Valid) ∧
      (names.flatMap ServerName.encode).length < 256 ^ 2

/-- Where the extensions of the hello begin in its body. -/
def extensionStart (hello : ClientHello) : ℕ :=
  2 + 32 + 1 + hello.sessionId.length + 2 + hello.cipherSuites.length + 1 +
    hello.compression.length + 2

/-- Where the first name begins in the record. -/
def nameStart (hello : ClientHello) : ℕ :=
  9 + extensionStart hello + ((sniPlace (hello.extensions.getD [])).map Prod.fst).getD 0 + 5

/-- Of the whole record the host name is found, and of a part of it the name or none. -/
def Right (hello : ClientHello) (names : List ServerName) (n : ℕ) : Prop :=
  if n = hello.encode.length then extractSniFromHandshake (hello.encode.take n) = host names
  else extractSniFromHandshake (hello.encode.take n) = host names ∨
    extractSniFromHandshake (hello.encode.take n) = []

/-- The first entry is a host name that is not cut; or there is no host name to be found. -/
def Uncut (hello : ClientHello) (names : List ServerName) (n : ℕ) : Prop :=
  match names with
  | [] => True
  | first :: _ =>
    if first.type = 0 then n ≤ nameStart hello ∨ nameStart hello + first.name.length ≤ n
    else n < hello.encode.length ∨ host names = []

/-! ## Reading a prefix -/

section Prefix

variable {mem : List UInt8} {i k c : ℕ}

theorem loadNat_take (mem : List UInt8) (i k c : ℕ) :
    loadNat (mem.take c) i k = if i + k ≤ c then loadNat mem i k else none := by
  unfold loadNat load
  rw [length_take]
  by_cases hc : i + k ≤ c
  · rw [if_pos hc]
    by_cases hm : i + k ≤ mem.length
    · rw [if_pos hm, if_pos (le_min hc hm), drop_take, take_take, Nat.min_eq_left (by omega)]
    · rw [if_neg hm, if_neg fun hle => hm (hle.trans (min_le_right _ _))]
  · rw [if_neg hc, if_neg fun hle => hc (hle.trans (min_le_left _ _))]
    rfl

/-- A field of a prefix is skipped if its length is there. -/
theorem skip_take {bytes post : List UInt8} (hi : i ≤ mem.length)
    (h : mem.drop i = bytesOf k bytes.length ++ (bytes ++ post)) (hk : bytes.length < 256 ^ k)
    (c : ℕ) : skip (mem.take c) i k = (if i + k ≤ c then some (i + k + bytes.length) else none) ∧
      i + k + bytes.length ≤ mem.length ∧ mem.drop (i + k + bytes.length) = post := by
  have hlength := congrArg List.length h
  rw [length_drop, length_append, length_append, length_bytesOf] at hlength
  refine ⟨?_, by omega, ?_⟩
  · unfold skip
    rw [loadNat_take, loadNat_of_drop hi h hk]
    split <;> rfl
  · rw [Nat.add_assoc, ← drop_drop, h, ← append_assoc]
    exact drop_left' (by rw [length_append, length_bytesOf])

/-- Of the data of the extension a prefix gives a prefix of the first name. -/
theorem firstName_take {first : ServerName} {rest : List ServerName}
    (hvalid : first.Valid) (hlt : ((first :: rest).flatMap ServerName.encode).length < 256 ^ 2)
    (j : ℕ) : firstName ((encodeNames (first :: rest)).take j) =
      if first.type = 0 then first.name.take (j - 5) else [] := by
  obtain ⟨type, name⟩ := first
  generalize hnames : (ServerName.mk type name :: rest).flatMap ServerName.encode = names at *
  have hentry : names =
      type :: (bytesOf 2 name.length ++ (name ++ rest.flatMap ServerName.encode)) := by
    rw [← hnames, flatMap_cons, ServerName.encode, cons_append, append_assoc]
  have hlength : names.length = 3 + name.length + (rest.flatMap ServerName.encode).length := by
    rw [hentry, length_cons, length_append, length_append, length_bytesOf]
    omega
  have hdata : encodeNames (⟨type, name⟩ :: rest) = bytesOf 2 names.length ++ names := by
    rw [encodeNames, hnames]
  have hpos := hvalid.pos
  dsimp only at hpos ⊢
  have htake : (encodeNames (⟨type, name⟩ :: rest)).length = 2 + names.length := by
    rw [hdata, length_append, length_bytesOf]
  unfold firstName
  rw [length_take, htake]
  by_cases hj : 5 < j
  · have hload : loadNat ((encodeNames (⟨type, name⟩ :: rest)).take j) 0 2 = some names.length := by
      rw [loadNat_take, if_pos (by omega), hdata]
      exact loadNat_of_drop (Nat.zero_le _) rfl hlt
    have hsn : (((encodeNames (⟨type, name⟩ :: rest)).take j).drop 2).take names.length =
        names.take (j - 2) := by
      rw [hdata, drop_take, drop_left' (length_bytesOf 2 _), take_take,
        ← take_take, take_of_length_le (by rw [length_take]; omega)]
    have hhead : (names.take (j - 2))[0]? = some type := by
      rw [getElem?_take_of_lt (by omega), hentry]
      rfl
    rw [if_pos (by omega), hload, getD_some, hsn]
    unfold entryName
    rw [hhead, length_take]
    by_cases htype : type = 0
    · have hname : loadNat (names.take (j - 2)) 1 2 = some name.length := by
        rw [loadNat_take, if_pos (by omega)]
        exact loadNat_of_drop (by omega) (by rw [hentry]; rfl) hvalid.lt
      have hdrop : names.drop 3 = name ++ rest.flatMap ServerName.encode := by
        rw [hentry]
        exact drop_left' (length_bytesOf 2 _)
      have hascii : ∀ x ∈ name.take (j - 5), (decide (x < 128)) = true := fun x hx =>
        decide_eq_true (hvalid.ascii htype x (mem_of_mem_take hx))
      rw [if_pos ⟨by omega, by rw [htype]⟩, if_pos htype, hname, getD_some, drop_take,
        hdrop, take_take, take_append_of_le_length (by omega),
        show j - 2 - 3 = j - 5 by omega, ← take_take,
        take_of_length_le (by rw [length_take]; omega), filter_eq_self.2 hascii]
    · rw [if_neg fun hn => htype (Option.some.inj hn.2), if_neg htype]
  · rw [if_neg (by omega), show j - 5 = 0 by omega, take_zero, ite_self]

theorem length_encode (e : Extension) : e.encode.length = 4 + e.data.length := by
  unfold Extension.encode
  rw [length_append, length_append, length_bytesOf, length_bytesOf]
  omega

variable {es : List Extension} {place : ℕ × List UInt8}

theorem sniPlace_ge (h : sniPlace es = some place) : 4 ≤ place.1 := by
  cases es with
  | nil => cases h
  | cons e es =>
    rw [sniPlace] at h
    split at h
    · cases h
      exact le_rfl
    · obtain ⟨place, -, rfl⟩ := map_eq_some_iff.1 h
      rw [length_encode]
      omega

theorem sniPlace_le (h : sniPlace es = some place) :
    place.1 + place.2.length ≤ (es.flatMap Extension.encode).length := by
  induction es generalizing place with
  | nil => cases h
  | cons e es ih =>
    rw [flatMap_cons, length_append, length_encode]
    rw [sniPlace] at h
    split at h
    · cases h
      exact Nat.le_add_right _ _
    · obtain ⟨place, hplace, rfl⟩ := map_eq_some_iff.1 h
      have := ih hplace
      rw [length_encode]
      dsimp only
      omega

theorem place_eq_nil (hc : c < i + 4) : ((sniPlace es).map fun place =>
    firstName (place.2.take (c - (i + place.1)))).getD [] = [] := by
  cases hplace : sniPlace es with
  | none => rfl
  | some place =>
    have := sniPlace_ge hplace
    rw [map_some, getD_some, show c - (i + place.1) = 0 by omega, take_zero]
    rfl

/-- The loop skips the extensions before `server_name`, and is stopped where the prefix ends. -/
theorem sniLoop_take (hi : i ≤ mem.length) (h : mem.drop i = es.flatMap Extension.encode)
    (hes : ∀ e ∈ es, e.type < 256 ^ 2 ∧ e.data.length < 256 ^ 2) :
    (sniLoop (mem.take c) mem.length i).getD [] =
      ((sniPlace es).map fun place => firstName (place.2.take (c - (i + place.1)))).getD [] := by
  induction es generalizing i with
  | nil =>
    have hlength := congrArg List.length h
    rw [length_drop, flatMap_nil, length_nil] at hlength
    unfold sniLoop
    rw [if_neg (by omega)]
    rfl
  | cons e es ih =>
    obtain ⟨⟨htype, hdata⟩, hes⟩ := forall_mem_cons.1 hes
    have hcons : mem.drop i = bytesOf 2 e.type ++ (bytesOf 2 e.data.length ++
        (e.data ++ es.flatMap Extension.encode)) := by
      rw [h, flatMap_cons, Extension.encode, append_assoc, append_assoc]
    have hlength := congrArg List.length hcons
    simp only [length_drop, length_append, length_bytesOf] at hlength
    have hsecond : mem.drop (i + 2) = bytesOf 2 e.data.length ++
        (e.data ++ es.flatMap Extension.encode) := by
      rw [← drop_drop, hcons, drop_left' (length_bytesOf 2 _)]
    have hbehind : mem.drop (i + 4) = e.data ++ es.flatMap Extension.encode := by
      rw [show i + 4 = i + 2 + 2 from rfl, ← drop_drop, hsecond, drop_left' (length_bytesOf 2 _)]
    have hrest : mem.drop (i + 4 + e.data.length) = es.flatMap Extension.encode := by
      rw [← drop_drop, hbehind, drop_left]
    by_cases hc : i + 4 ≤ c
    · unfold sniLoop sniPlace
      rw [if_pos (by omega), loadNat_take, loadNat_take, loadNat_of_drop hi hcons htype,
        loadNat_of_drop (by omega) hsecond hdata, if_pos (by omega), if_pos (by omega)]
      dsimp only
      by_cases hzero : e.type = 0
      · rw [if_pos hzero, if_pos hzero, drop_take, hbehind, take_take, Nat.min_comm,
          ← take_take, take_left]
        rfl
      · rw [if_neg hzero, if_neg hzero, ih (by omega) hrest hes, Option.map_map]
        congr 2
        funext place
        show firstName _ = firstName _
        rw [length_encode, show i + (4 + e.data.length + place.1) =
          i + 4 + e.data.length + place.1 by omega]
    · have hloop : sniLoop (mem.take c) mem.length i = none := by
        unfold sniLoop
        rw [if_pos (by omega), loadNat_take mem (i + 2), if_neg (by omega)]
        cases loadNat (mem.take c) i 2 <;> rfl
      rw [hloop, place_eq_nil (by omega)]
      rfl

end Prefix

section Hello

variable {hello : ClientHello} {names : List ServerName}

theorem helloSni_take (hv : hello.Valid) (c : ℕ) : (helloSni (hello.body.take c)).getD [] =
    ((sniPlace (hello.extensions.getD [])).map fun place =>
      firstName (place.2.take (c - (extensionStart hello + place.1)))).getD [] := by
  have hhead : hello.body.drop (2 + 32) = bytesOf 1 hello.sessionId.length ++ (hello.sessionId ++
      (bytesOf 2 hello.cipherSuites.length ++ (hello.cipherSuites ++
        (bytesOf 1 hello.compression.length ++ (hello.compression ++
          ClientHello.extensionBytes hello.extensions))))) := by
    rw [ClientHello.body, ← append_assoc]
    exact drop_left' (by rw [length_append, length_bytesOf, hv.random])
  have hlength := congrArg List.length hhead
  simp only [length_drop, length_append, length_bytesOf] at hlength
  have hsid := hv.sessionId
  obtain ⟨hskip₁, hle₁, hdrop₁⟩ := skip_take (by omega) hhead (by omega) c
  obtain ⟨hskip₂, hle₂, hdrop₂⟩ := skip_take hle₁ hdrop₁ hv.cipherSuites.2.2 c
  obtain ⟨hskip₃, hle₃, hdrop₃⟩ := skip_take hle₂ hdrop₂ (by have := hv.compression; omega) c
  unfold helloSni
  rw [hskip₁]
  by_cases hc : extensionStart hello ≤ c
  · unfold extensionStart at hc
    rw [if_pos (by omega)]
    dsimp only [bind_eq_bind, bind_some]
    rw [hskip₂, if_pos (by omega)]
    dsimp only [bind_some]
    rw [hskip₃, if_pos (by omega)]
    dsimp only [bind_some]
    have hextension := hv.extension
    have hextensions := hv.extensions
    cases hext : hello.extensions with
    | none =>
      have hend := congrArg List.length hdrop₃
      rw [hext, length_drop] at hend
      have hnone : loadNat hello.body (2 + 32 + 1 + hello.sessionId.length + 2 +
          hello.cipherSuites.length + 1 + hello.compression.length) 2 = none := by
        unfold loadNat load
        rw [ClientHello.extensionBytes, length_nil] at hend
        rw [if_neg (by omega)]
        rfl
      rw [loadNat_take, hnone, ite_self]
      rfl
    | some es =>
      rw [hext] at hdrop₃ hextension hextensions
      rw [loadNat_take, if_pos (by omega), loadNat_of_drop hle₃ hdrop₃ (hextensions es rfl)]
      have hend := congrArg List.length hdrop₃
      have hbehind := congrArg (List.drop 2) hdrop₃
      rw [length_drop, ClientHello.extensionBytes, length_append, length_bytesOf] at hend
      rw [drop_drop, ClientHello.extensionBytes, drop_left' (length_bytesOf 2 _)] at hbehind
      have hloop := sniLoop_take (c := c) (by omega) hbehind (hextension es rfl)
      rw [show hello.body.length = 2 + 32 + 1 + hello.sessionId.length + 2 +
        hello.cipherSuites.length + 1 + hello.compression.length + 2 +
          (es.flatMap Extension.encode).length by omega] at hloop
      exact hloop
  · unfold extensionStart at hc
    rw [place_eq_nil (by unfold extensionStart; omega)]
    split
    · dsimp only [bind_eq_bind, bind_some]
      rw [hskip₂]
      split
      · dsimp only [bind_some]
        rw [hskip₃]
        split
        · dsimp only [bind_some]
          rw [loadNat_take, if_neg (by omega)]
          rfl
        · rfl
      · rfl
    · rfl

/-- The name of the first entry, if it is a host name. -/
def firstHost : List ServerName → List UInt8
  | [] => []
  | first :: _ => if first.type = 0 then first.name else []

theorem extract_short {payload : List UInt8} (h : payload.length < 45) :
    extractSniFromHandshake payload = [] := by
  unfold extractSniFromHandshake
  cases loadNat payload 3 2 with
  | none => rfl
  | some recordLen =>
    grind

/-- A part of the record gives a part of the hello. -/
theorem extract_eq (hv : hello.Valid) {n : ℕ} (hn : 45 ≤ n) :
    extractSniFromHandshake (hello.encode.take n) =
      (helloSni (hello.body.take (n - 9))).getD [] := by
  have hrecord := hv.record
  have hlength : 36 ≤ hello.body.length := by
    unfold ClientHello.body
    simp only [length_append, length_bytesOf, hv.random]
    omega
  have hdrop : hello.encode.drop 5 = 1 :: (bytesOf 3 hello.body.length ++ hello.body) := by
    show (bytesOf 2 (4 + hello.body.length) ++ _).drop 2 = _
    rw [drop_left' (length_bytesOf 2 _)]
    rfl
  generalize hhs : 1 :: (bytesOf 3 hello.body.length ++ hello.body) = hs at hdrop
  have hhslen : hs.length = 4 + hello.body.length := by
    rw [← hhs, length_cons, length_append, length_bytesOf]
    omega
  have hload : loadNat (hello.encode.take n) 3 2 = some (4 + hello.body.length) := by
    have hthree : hello.encode.drop 3 = bytesOf 2 (4 + hello.body.length) ++
        ([1] ++ (bytesOf 3 hello.body.length ++ hello.body)) := rfl
    have hlen : 3 ≤ hello.encode.length := Nat.le_add_left _ _
    rw [loadNat_take, if_pos (by omega)]
    exact loadNat_of_drop hlen hthree (by omega)
  have hhandshake : ((hello.encode.take n).drop 5).take (4 + hello.body.length) =
      hs.take (n - 5) := by
    rw [drop_take, hdrop, take_take, Nat.min_comm, ← take_take, ← hhslen, take_length]
  have hhead : (hs.take (n - 5))[0]? = some 1 := by
    rw [getElem?_take_of_lt (by omega), ← hhs]
    rfl
  have hbody : loadNat (hs.take (n - 5)) 1 3 = some hello.body.length := by
    rw [loadNat_take, if_pos (by omega)]
    exact loadNat_of_drop (by omega) (by rw [← hhs]; rfl) (by omega)
  have hch : ((hs.take (n - 5)).drop 4).take hello.body.length = hello.body.take (n - 9) := by
    have hfour : hs.drop 4 = hello.body := by
      rw [← hhs]
      exact drop_left' (length_bytesOf 3 _)
    rw [drop_take, hfour, take_take, Nat.min_comm, ← take_take, take_length,
      show n - 5 - 4 = n - 9 by omega]
  unfold extractSniFromHandshake
  rw [hload]
  dsimp only [bind_eq_bind, bind_some]
  rw [hhandshake, if_neg, hbody]
  · dsimp only [bind_some]
    rw [hch]
  · rw [hhead, length_take]
    rintro (hshort | hne)
    · omega
    · exact hne rfl

/-- A part of the record gives a part of the name. -/
theorem extract_take (hv : hello.Valid) (hn : HasNames hello names) (n : ℕ) :
    extractSniFromHandshake (hello.encode.take n) =
      (firstHost names).take (n - nameStart hello) := by
  by_cases hshort : n < 45
  · have hstart : 45 ≤ nameStart hello := by
      unfold nameStart extensionStart
      omega
    rw [extract_short (by rw [length_take]; omega), show n - nameStart hello = 0 by omega,
      take_zero]
  · rw [extract_eq hv (by omega), helloSni_take hv]
    unfold nameStart
    unfold HasNames at hn
    cases hplace : sniPlace (hello.extensions.getD []) with
    | none =>
      rw [hplace] at hn
      rw [show names = [] from hn, firstHost, take_nil]
      rfl
    | some place =>
      rw [hplace] at hn
      obtain ⟨hne, hdata, hvalid, hlt⟩ := hn
      obtain ⟨first, rest, rfl⟩ := exists_cons_of_ne_nil hne
      dsimp only [map_some, getD_some]
      rw [hdata, firstName_take (hvalid first mem_cons_self) hlt]
      dsimp only [firstHost]
      split
      · congr 1
        omega
      · rw [take_nil]

theorem nameStart_le {first : ServerName} {rest : List ServerName} (hv : hello.Valid)
    (hn : HasNames hello (first :: rest)) :
    first.Valid ∧ nameStart hello + first.name.length ≤ hello.encode.length := by
  unfold HasNames at hn
  cases hplace : sniPlace (hello.extensions.getD []) with
  | none =>
    rw [hplace] at hn
    cases hn
  | some place =>
    rw [hplace] at hn
    obtain ⟨-, hdata, hvalid, -⟩ := hn
    refine ⟨hvalid first mem_cons_self, ?_⟩
    have hle := sniPlace_le hplace
    have hlength : place.2.length = 5 + first.name.length +
        (rest.flatMap ServerName.encode).length := by
      rw [hdata, encodeNames, flatMap_cons, ServerName.encode]
      simp only [length_append, length_cons, length_bytesOf]
      omega
    have hrandom := hv.random
    unfold nameStart extensionStart ClientHello.encode
    rw [hplace]
    cases hext : hello.extensions with
    | none =>
      rw [hext] at hplace
      cases hplace
    | some es =>
      rw [hext] at hle
      simp only [ClientHello.body, hext, ClientHello.extensionBytes, length_append, length_cons,
        length_nil, length_bytesOf, map_some, getD_some] at hle ⊢
      omega

theorem right_iff (hv : hello.Valid) (hn : HasNames hello names) {n : ℕ}
    (hle : n ≤ hello.encode.length) : Right hello names n ↔ Uncut hello names n := by
  have hextract := extract_take hv hn n
  unfold Right
  rw [hextract]
  cases names with
  | nil =>
    rw [firstHost, take_nil]
    exact iff_of_true (by split; exacts [rfl, .inl rfl]) trivial
  | cons first rest =>
    obtain ⟨hvalid, hfull⟩ := nameStart_le hv hn
    unfold Uncut
    dsimp only [firstHost]
    by_cases htype : first.type = 0
    · have hhost : host (first :: rest) = first.name := by
        simp only [host, find?_cons, htype, decide_true, map_some, getD_some]
      rw [if_pos htype, if_pos htype, hhost]
      split
      · rw [take_of_length_le (by omega)]
        exact iff_of_true rfl (.inr (by omega))
      · constructor
        · rintro (hname | hname)
          · have := congrArg List.length hname
            rw [length_take] at this
            omega
          · have := congrArg List.length hname
            rw [length_take, length_nil] at this
            omega
        · rintro (hbefore | hbehind)
          · rw [show n - nameStart hello = 0 by omega]
            exact .inr (take_zero ..)
          · exact .inl (take_of_length_le (by omega))
    · rw [if_neg htype, if_neg htype, take_nil]
      split
      · rename_i hend
        rw [hend, or_iff_right (lt_irrefl _)]
        exact eq_comm
      · exact iff_of_true (.inr rfl) (.inl (by omega))

end Hello

/-! ## Captures -/

/-- The results come one by one from packets that do not overlap. -/
def OnePacketEach (data : List UInt8) (maxPackets : ℕ) : Prop :=
  ∃ ranges : List (ℕ × ℕ), ranges.Pairwise (fun a b => a.1 + a.2 ≤ b.1) ∧
    (∀ a ∈ ranges, a.1 + a.2 ≤ data.length) ∧
    parsePcapSni data maxPackets = (ranges.mapM fun a => parsePacket ((data.drop a.1).take a.2)).map
        (List.flatMap Option.toList)

theorem parsePackets_ranges (data : List UInt8) (n pos : ℕ) :
    ∃ ranges : List (ℕ × ℕ), ranges.Pairwise (fun a b => a.1 + a.2 ≤ b.1) ∧
      (∀ a ∈ ranges, pos ≤ a.1 ∧ a.1 + a.2 ≤ data.length) ∧
      parsePackets data n pos = (ranges.mapM fun a => parsePacket ((data.drop a.1).take a.2)).map
          (List.flatMap Option.toList) := by
  induction n generalizing pos with
  | zero => exact ⟨[], .nil, fun a ha => absurd ha not_mem_nil, rfl⟩
  | succ n ih =>
    unfold parsePackets
    split
    · exact ⟨[], .nil, fun a ha => absurd ha not_mem_nil, rfl⟩
    · obtain ⟨ranges, hpairs, hwithin, heq⟩ := ih (pos + 16 + inclLen data pos)
      dsimp only
      split
      · refine ⟨ranges, hpairs, fun a ha => ?_, heq⟩
        have := hwithin a ha
        omega
      · refine ⟨(pos + 16, inclLen data pos) :: ranges, ?_, ?_, ?_⟩
        · exact pairwise_cons.2 ⟨fun a ha => (hwithin a ha).1, hpairs⟩
        · rw [forall_mem_cons]
          refine ⟨⟨by omega, by omega⟩, fun a ha => ?_⟩
          have := hwithin a ha
          omega
        · rw [heq, mapM_cons]
          cases parsePacket ((data.drop (pos + 16)).take (inclLen data pos)) with
          | none => rfl
          | some result => cases ranges.mapM fun a => parsePacket ((data.drop a.1).take a.2) <;> rfl

/-- A hello that asks for the name `ab`. -/
def smallHello : ClientHello where
  minor := 1
  version := 771
  random := List.replicate 32 0
  sessionId := []
  cipherSuites := [0x13, 0x01]
  compression := [0]
  extensions := some [⟨0, encodeNames [⟨0, [97, 98]⟩]⟩]

theorem smallHello_valid : smallHello.Valid := by
  refine ⟨by decide, by decide, by decide, by decide, by decide, ?_, ?_, by decide⟩
  · rintro es ⟨⟩ e he
    rw [mem_singleton.1 he]
    decide
  · rintro es ⟨⟩
    decide

theorem smallHello_names : HasNames smallHello [⟨0, [97, 98]⟩] := by
  refine ⟨cons_ne_nil _ _, rfl, fun s hs => ?_, by decide⟩
  rw [mem_singleton.1 hs]
  exact ⟨by decide, by decide, fun _ => by decide +kernel⟩

/-- One packet from 192.0.2.1, port 443, with this hello. -/
def smallCapture : List UInt8 :=
  List.replicate 32 0 ++ [123, 0, 0, 0, 123, 0, 0, 0] ++
    (List.replicate 20 0 ++ 0x45 :: List.replicate 8 0 ++ 6 :: List.replicate 6 0) ++
    ([192, 0, 2, 1, 0xc0, 0, 1, 0xbb] ++ List.replicate 8 0 ++ 0x50 :: List.replicate 7 0) ++
    smallHello.encode

end Apackage.SqmController.Sni
