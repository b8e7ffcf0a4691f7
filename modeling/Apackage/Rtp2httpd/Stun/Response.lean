import Apackage.Lib.Region
import Apackage.Rtp2httpd.Http.Url

/-
  The answer of the STUN server (`stun_parse_response` in `stun.c`).

  Model. A datagram is the list of its bytes, and a read outside it makes the result none. An IPv4
  address is its number; `mapped_ip4` holds it in network order. What is only logged is read but not
  kept.

  Every read stays within the datagram and a refused datagram leaves the state alone, but the parser
  stops at the first attribute that it can use (`xorMapped_stored_iff`).
-/

namespace Apackage.Rtp2httpd.Stun

open List Lib.Region

def stunHeaderSize : ℕ := 20
def stunTransactionIdSize : ℕ := 12
def stunMsgBindingSuccess : ℕ := 0x0101
def stunAttrMappedAddr : ℕ := 0x0001
def stunAttrXorMappedAddr : ℕ := 0x0020
def stunMagicCookie : ℕ := 0x2112A442
def stunAddrFamilyIpv4 : UInt8 := 0x01
def stunAddrFamilyIpv6 : UInt8 := 0x02

/-- `stun_state_t`. -/
structure StunState where
  inProgress : Bool
  completed : Bool
  requestTimeMs : ℤ
  retryCount : ℕ
  mappedRtpPort : UInt16
  mappedRtcpPort : UInt16
  mappedIp4 : UInt32
  transactionId : Bytes
  transactionIdSize : transactionId.length = stunTransactionIdSize
  deriving DecidableEq

/-- A mapped port is stored, and an address if it is IPv4. -/
def StunState.mapped (s : StunState) (port : UInt16) (ip4 : Option UInt32) : StunState :=
  { s with
    inProgress := false
    completed := true
    mappedRtpPort := port
    mappedRtcpPort := port + 1
    mappedIp4 := ip4.getD s.mappedIp4 }

/-- The body of the loop: what is stored for an attribute; none if the next one is read. -/
def stunParseAttribute (state : StunState) (data : Bytes) (attrType attrLen valOff : ℕ) :
    Option (Option StunState) :=
  if attrType = stunAttrXorMappedAddr ∧ 8 ≤ attrLen then do
    let family ← data[valOff + 1]?
    let xport ← loadNat data (valOff + 2) 2
    let port := UInt16.ofNat (xport ^^^ (stunMagicCookie >>> 16))
    if family = stunAddrFamilyIpv4 then
      let xaddr ← loadNat data (valOff + 4) 4
      return some (state.mapped port (some (UInt32.ofNat (xaddr ^^^ stunMagicCookie))))
    else if family = stunAddrFamilyIpv6 ∧ 20 ≤ attrLen then
      let _ ← load data (valOff + 4) 16
      return some (state.mapped port none)
    else return none
  else if attrType = stunAttrMappedAddr ∧ 8 ≤ attrLen then do
    let family ← data[valOff + 1]?
    if family = stunAddrFamilyIpv4 ∨ family = stunAddrFamilyIpv6 ∧ 20 ≤ attrLen then
      let port ← loadNat data (valOff + 2) 2
      if family = stunAddrFamilyIpv4 then
        let addr ← loadNat data (valOff + 4) 4
        return some (state.mapped (UInt16.ofNat port) (some (UInt32.ofNat addr)))
      else return some (state.mapped (UInt16.ofNat port) none)
    else return none
  else some none

def stunParseAttributes (state : StunState) (data : Bytes) (msgLen offset : ℕ) :
    Option (Option StunState) :=
  if offset + 4 ≤ stunHeaderSize + msgLen ∧ offset + 4 ≤ data.length then
    match loadNat data offset 2, loadNat data (offset + 2) 2 with
    | some attrType, some attrLen =>
      let valOff := offset + 4
      if data.length < valOff + attrLen then some none
      else
        match stunParseAttribute state data attrType attrLen valOff with
        | none => none
        | some (some stored) => some (some stored)
        | some none =>
          let advance := 4 + attrLen + if attrLen % 4 ≠ 0 then 4 - attrLen % 4 else 0
          stunParseAttributes state data msgLen (offset + advance)
    | _, _ => none
  else some none
termination_by data.length - offset

/-- `stun_parse_response`: the return value and the state. -/
def stunParseResponse (state : StunState) (data : Bytes) : Option (ℤ × StunState) :=
  if data.length < stunHeaderSize then some (-1, state)
  else do
    let msgType ← loadNat data 0 2
    let msgLen ← loadNat data 2 2
    let magic ← loadNat data 4 4
    let transactionId ← load data 8 stunTransactionIdSize
    if msgType ≠ stunMsgBindingSuccess ∨ magic ≠ stunMagicCookie ∨
        transactionId ≠ state.transactionId then
      return (-1, state)
    match ← stunParseAttributes state data msgLen stunHeaderSize with
    | some stored => return (0, stored)
    | none => return (-1, state)

/-! ## Messages -/

/-- An attribute of a message. -/
structure StunAttribute where
  type : ℕ
  value : Bytes
  padding : Bytes
  typeSize : type < 2 ^ 16
  valueSize : value.length < 2 ^ 16
  padded : padding.length = (4 - value.length % 4) % 4

def StunAttribute.encode (a : StunAttribute) : Bytes :=
  bytesOf 2 a.type ++ (bytesOf 2 a.value.length ++ (a.value ++ a.padding))

def encodeAttributes (attributes : List StunAttribute) : Bytes := attributes.flatMap (·.encode)

def stunHeader (msgLen : ℕ) (transactionId : Bytes) : Bytes :=
  bytesOf 2 stunMsgBindingSuccess ++ (bytesOf 2 msgLen ++ (bytesOf 4 stunMagicCookie ++ transactionId))

def bindingSuccess (transactionId : Bytes) (attributes : List StunAttribute) : Bytes :=
  stunHeader (encodeAttributes attributes).length transactionId ++ encodeAttributes attributes

/-- The value of an IPv4 XOR-MAPPED-ADDRESS; the first byte is not used. -/
def xorMappedValue (unused : UInt8) (port : UInt16) (ip4 : UInt32) : Bytes :=
  unused :: stunAddrFamilyIpv4 :: (bytesOf 2 (port.toNat ^^^ (stunMagicCookie >>> 16)) ++
    bytesOf 4 (ip4.toNat ^^^ stunMagicCookie))

/-- What the parser takes from an attribute: the port, and the address if it is IPv4. -/
def StunAttribute.usable (a : StunAttribute) : Option (UInt16 × Option UInt32) := do
  let key ←
    if a.type = stunAttrXorMappedAddr then some stunMagicCookie
    else if a.type = stunAttrMappedAddr then some 0
    else none
  let family ← a.value[1]?
  let port ← loadNat a.value 2 2
  let addr ← loadNat a.value 4 4
  let port := UInt16.ofNat (port ^^^ (key >>> 16))
  if family = stunAddrFamilyIpv4 then return (port, some (UInt32.ofNat (addr ^^^ key)))
  else if family = stunAddrFamilyIpv6 ∧ 20 ≤ a.value.length then return (port, none)
  else none

/-- The response is taken and the port and the address are stored. -/
def StoresMapped (state : StunState) (data : Bytes) (port : UInt16) (ip4 : UInt32) : Prop :=
  ∃ stored, stunParseResponse state data = some (0, stored) ∧
    stored.mappedRtpPort = port ∧ stored.mappedIp4 = ip4

/-- An attribute that the parser takes tells this port and this address; without an IPv4 address
    in it the address is the one stored before. -/
def Tells (state : StunState) (port : UInt16) (ip4 : UInt32) (u : UInt16 × Option UInt32) : Prop :=
  u.1 = port ∧ u.2.getD state.mappedIp4 = ip4

/-! ## Reads -/

theorem parseAttribute_inside (state : StunState) {data : Bytes} (attrType : ℕ)
    {attrLen valOff : ℕ} (h : valOff + attrLen ≤ data.length) :
    ∃ r, stunParseAttribute state data attrType attrLen valOff = some r := by
  unfold stunParseAttribute
  split
  · rename_i hx
    obtain ⟨port, hport⟩ := loadNat_of_le (show valOff + 2 + 2 ≤ data.length by omega)
    obtain ⟨addr, haddr⟩ := loadNat_of_le (show valOff + 4 + 4 ≤ data.length by omega)
    rw [getElem?_eq_getElem (by omega), hport, haddr]
    simp only [Option.bind_eq_bind, Option.bind_some]
    split
    · exact ⟨_, rfl⟩
    split
    · rename_i h6
      rw [load_of_le (by omega)]
      exact ⟨_, rfl⟩
    · exact ⟨_, rfl⟩
  split
  · rename_i hm
    obtain ⟨port, hport⟩ := loadNat_of_le (show valOff + 2 + 2 ≤ data.length by omega)
    obtain ⟨addr, haddr⟩ := loadNat_of_le (show valOff + 4 + 4 ≤ data.length by omega)
    rw [getElem?_eq_getElem (by omega), hport, haddr]
    simp only [Option.bind_eq_bind, Option.bind_some]
    split
    · split <;> exact ⟨_, rfl⟩
    · exact ⟨_, rfl⟩
  · exact ⟨_, rfl⟩

theorem parseAttributes_inside (state : StunState) (data : Bytes) (msgLen offset : ℕ) :
    ∃ r, stunParseAttributes state data msgLen offset = some r := by
  fun_induction stunParseAttributes state data msgLen offset with
  | case1 offset h attrType attrLen htype hlen valOff hshort => exact ⟨_, rfl⟩
  | case2 offset h attrType attrLen htype hlen valOff hfits hfault =>
    obtain ⟨r, hr⟩ := parseAttribute_inside state attrType (by omega : valOff + attrLen ≤ data.length)
    rw [hr] at hfault
    cases hfault
  | case3 offset h attrType attrLen htype hlen valOff hfits stored hstored => exact ⟨_, rfl⟩
  | case4 offset h attrType attrLen htype hlen valOff hfits hnext advance ih => exact ih
  | case5 offset h hfault =>
    obtain ⟨attrType, htype⟩ := loadNat_of_le (show offset + 2 ≤ data.length by omega)
    obtain ⟨attrLen, hlen⟩ := loadNat_of_le (show offset + 2 + 2 ≤ data.length by omega)
    exact absurd hlen (hfault _ _ htype)
  | case6 offset h => exact ⟨_, rfl⟩

theorem parseResponse_inside (state : StunState) (data : Bytes) :
    ∃ r s, stunParseResponse state data = some (r, s) ∧ (r = -1 → s = state) := by
  unfold stunParseResponse
  split
  · exact ⟨_, _, rfl, fun _ => rfl⟩
  rename_i hlen
  have hsize : 20 ≤ data.length := Nat.le_of_not_lt hlen
  obtain ⟨msgType, htype⟩ := loadNat_of_le (show 0 + 2 ≤ data.length by omega)
  obtain ⟨msgLen, hmsgLen⟩ := loadNat_of_le (show 2 + 2 ≤ data.length by omega)
  obtain ⟨magic, hmagic⟩ := loadNat_of_le (show 4 + 4 ≤ data.length by omega)
  obtain ⟨stored, hstored⟩ := parseAttributes_inside state data msgLen stunHeaderSize
  rw [htype, hmsgLen, hmagic, load_of_le (show 8 + stunTransactionIdSize ≤ data.length from hsize)]
  simp only [Option.bind_eq_bind, Option.bind_some]
  split
  · exact ⟨_, _, rfl, fun _ => rfl⟩
  rw [hstored]
  cases stored with
  | none => exact ⟨_, _, rfl, fun _ => rfl⟩
  | some stored => exact ⟨_, _, rfl, fun h => absurd h (by decide)⟩

/-! ## The walk over a message -/

theorem length_encode (a : StunAttribute) :
    a.encode.length = 4 + a.value.length + a.padding.length := by
  simp only [StunAttribute.encode, length_append, length_bytesOf]
  omega

theorem advance_eq (a : StunAttribute) :
    (4 + a.value.length + if a.value.length % 4 ≠ 0 then 4 - a.value.length % 4 else 0) =
      a.encode.length := by
  rw [length_encode, a.padded]
  split <;> omega

section

variable (state : StunState)

include state

theorem parseAttribute_usable (pre post : Bytes) (a : StunAttribute) :
    stunParseAttribute state (pre ++ (a.value ++ post)) a.type a.value.length pre.length =
      some (a.usable.map fun u => state.mapped u.1 u.2) := by
  by_cases hlen : 8 ≤ a.value.length
  · have hfamily : (pre ++ (a.value ++ post))[pre.length + 1]? = a.value[1]? := by
      rw [getElem?_append_right (by omega), Nat.add_sub_cancel_left,
        getElem?_append_left (by omega)]
    have hword : ∀ {i n : ℕ}, i + n ≤ 8 →
        loadNat (pre ++ (a.value ++ post)) (pre.length + i) n = loadNat a.value i n := by
      intro i n hin
      rw [loadNat_append, loadNat_append_of_le (by omega)]
    obtain ⟨port, hport⟩ := loadNat_of_le (show 2 + 2 ≤ a.value.length by omega)
    obtain ⟨addr, haddr⟩ := loadNat_of_le (show 4 + 4 ≤ a.value.length by omega)
    have hfamily' : a.value[1]? = some a.value[1] := getElem?_eq_getElem (by omega)
    unfold stunParseAttribute StunAttribute.usable
    rw [hfamily, hword (by decide), hword (by decide), hport, haddr, hfamily']
    generalize a.value[1] = family
    simp only [hlen, and_true, Option.bind_eq_bind, Option.bind_some]
    by_cases hx : a.type = stunAttrXorMappedAddr
    · simp only [if_pos hx]
      by_cases h4 : family = stunAddrFamilyIpv4
      · simp only [if_pos h4]
        rfl
      · simp only [if_neg h4]
        by_cases h6 : family = stunAddrFamilyIpv6 ∧ 20 ≤ a.value.length
        · have hin : pre.length + 4 + 16 ≤ (pre ++ (a.value ++ post)).length := by
            simp only [length_append]
            omega
          simp only [if_pos h6, load_of_le hin]
          rfl
        · simp only [if_neg h6]
          rfl
    · simp only [if_neg hx]
      by_cases hm : a.type = stunAttrMappedAddr
      · simp only [if_pos hm, Nat.zero_shiftRight, Nat.xor_zero]
        by_cases h4 : family = stunAddrFamilyIpv4
        · simp [*]
        · simp only [h4, false_or]
          by_cases h6 : family = stunAddrFamilyIpv6 ∧ 20 ≤ a.value.length
          · simp only [if_pos h6]
            rfl
          · simp only [if_neg h6]
            rfl
      · simp only [if_neg hm]
        rfl
  · have hnone : loadNat a.value 4 4 = none := by
      rw [loadNat, load, if_neg (by omega)]
      rfl
    have husable : a.usable = none := by
      unfold StunAttribute.usable
      rw [hnone]
      simp
    unfold stunParseAttribute
    rw [if_neg fun h => hlen h.2, if_neg fun h => hlen h.2, husable]
    rfl

theorem parseAttributes_usable {msgLen : ℕ} (attributes : List StunAttribute) (pre : Bytes)
    (hlen : stunHeaderSize + msgLen = (pre ++ encodeAttributes attributes).length) :
    stunParseAttributes state (pre ++ encodeAttributes attributes) msgLen pre.length =
      some ((attributes.findSome? (·.usable)).map fun u => state.mapped u.1 u.2) := by
  induction attributes generalizing pre with
  | nil =>
    rw [encodeAttributes, flatMap_nil, append_nil] at *
    rw [stunParseAttributes, if_neg (by omega)]
    rfl
  | cons a attributes ih =>
    have hbytes : pre ++ encodeAttributes (a :: attributes) =
        pre ++ (bytesOf 2 a.type ++ (bytesOf 2 a.value.length ++
          (a.value ++ (a.padding ++ encodeAttributes attributes)))) := by
      simp [encodeAttributes, StunAttribute.encode, flatMap_cons, append_assoc]
    have hattr : pre ++ encodeAttributes (a :: attributes) =
        (pre ++ bytesOf 2 a.type ++ bytesOf 2 a.value.length) ++
          (a.value ++ (a.padding ++ encodeAttributes attributes)) := by
      rw [hbytes]
      simp only [append_assoc]
    have hnext : pre ++ encodeAttributes (a :: attributes) =
        (pre ++ a.encode) ++ encodeAttributes attributes := by
      rw [encodeAttributes, flatMap_cons, ← encodeAttributes, append_assoc]
    have hsize : (pre ++ encodeAttributes (a :: attributes)).length =
        pre.length + a.encode.length + (encodeAttributes attributes).length := by
      rw [hnext, length_append, length_append]
    have htype : loadNat (pre ++ encodeAttributes (a :: attributes)) pre.length 2 =
        some a.type := by
      rw [hbytes]
      exact loadNat_behind pre _ a.typeSize
    have hvalueLen : loadNat (pre ++ encodeAttributes (a :: attributes)) (pre.length + 2) 2 =
        some a.value.length := by
      rw [hbytes, loadNat_append]
      exact (congrArg (loadNat _ · 2) (length_bytesOf 2 a.type).symm).trans
        (loadNat_behind _ _ a.valueSize)
    have htake : stunParseAttribute state (pre ++ encodeAttributes (a :: attributes)) a.type
        a.value.length (pre.length + 4) = some (a.usable.map fun u => state.mapped u.1 u.2) := by
      rw [hattr, show pre.length + 4 =
        (pre ++ bytesOf 2 a.type ++ bytesOf 2 a.value.length).length by simp]
      exact parseAttribute_usable state _ _ a
    have henc := length_encode a
    rw [stunParseAttributes, if_pos (by omega), htype, hvalueLen]
    dsimp only
    rw [if_neg (by omega), htake, findSome?_cons]
    cases a.usable with
    | some u => rfl
    | none =>
      rw [advance_eq, hnext, ← length_append]
      exact ih (pre ++ a.encode) (by rw [← hnext]; exact hlen)

theorem length_stunHeader (msgLen : ℕ) :
    (stunHeader msgLen state.transactionId).length = stunHeaderSize := by
  simp [stunHeader, state.transactionIdSize, stunTransactionIdSize, stunHeaderSize]

theorem stunHeader_fields {msgLen : ℕ} (h : msgLen < 2 ^ 16) :
    loadNat (stunHeader msgLen state.transactionId) 0 2 = some stunMsgBindingSuccess ∧
      loadNat (stunHeader msgLen state.transactionId) 2 2 = some msgLen ∧
      loadNat (stunHeader msgLen state.transactionId) 4 4 = some stunMagicCookie ∧
      load (stunHeader msgLen state.transactionId) 8 stunTransactionIdSize =
        some state.transactionId := by
  refine ⟨loadNat_behind [] _ (by decide), loadNat_behind (bytesOf 2 stunMsgBindingSuccess) _ h,
    ?_, ?_⟩
  · rw [stunHeader, ← append_assoc]
    exact loadNat_behind (bytesOf 2 stunMsgBindingSuccess ++ bytesOf 2 msgLen) _ (by decide)
  · have hload := load_behind
      (bytesOf 2 stunMsgBindingSuccess ++ bytesOf 2 msgLen ++ bytesOf 4 stunMagicCookie)
      state.transactionId []
    rw [append_nil, state.transactionIdSize] at hload
    rw [stunHeader, ← append_assoc, ← append_assoc]
    exact hload

theorem parseResponse_bindingSuccess {attributes : List StunAttribute}
    (hsize : (encodeAttributes attributes).length < 2 ^ 16) :
    stunParseResponse state (bindingSuccess state.transactionId attributes) =
      some (match attributes.findSome? (·.usable) with
        | none => (-1, state)
        | some u => (0, state.mapped u.1 u.2)) := by
  obtain ⟨hmsgType, hmsgLen, hmagic, hid⟩ := stunHeader_fields state hsize
  have hheader := length_stunHeader state (encodeAttributes attributes).length
  have hwalk := parseAttributes_usable state attributes
    (stunHeader (encodeAttributes attributes).length state.transactionId)
    (by rw [length_append, hheader])
  rw [hheader] at hwalk
  unfold stunParseResponse bindingSuccess
  rw [if_neg (by rw [length_append, hheader]; omega),
    loadNat_append_of_le (by rw [hheader]; decide), hmsgType,
    loadNat_append_of_le (by rw [hheader]; decide), hmsgLen,
    loadNat_append_of_le (by rw [hheader]; decide), hmagic,
    load_append_of_le (by rw [hheader]; decide), hid]
  simp only [Option.bind_eq_bind, Option.bind_some, ne_eq, not_true_eq_false, or_self, if_false]
  rw [hwalk]
  cases attributes.findSome? (·.usable) <;> rfl

end

theorem usable_xorMapped {x : StunAttribute} {unused : UInt8} {port : UInt16} {ip4 : UInt32}
    (htype : x.type = stunAttrXorMappedAddr) (hvalue : x.value = xorMappedValue unused port ip4) :
    x.usable = some (port, some ip4) := by
  have hkey : port.toNat ^^^ (stunMagicCookie >>> 16) < 256 ^ 2 :=
    Nat.xor_lt_two_pow (n := 16) port.toNat_lt (by decide)
  have hkey' : ip4.toNat ^^^ stunMagicCookie < 256 ^ 4 :=
    Nat.xor_lt_two_pow (n := 32) ip4.toNat_lt (by decide)
  have hport : loadNat x.value 2 2 = some (port.toNat ^^^ (stunMagicCookie >>> 16)) := by
    rw [hvalue]
    exact loadNat_behind [unused, stunAddrFamilyIpv4] _ hkey
  have haddr : loadNat x.value 4 4 = some (ip4.toNat ^^^ stunMagicCookie) := by
    rw [hvalue, xorMappedValue, ← append_nil (bytesOf 4 _)]
    exact (congrArg (loadNat _ · 4) (by simp)).trans
      (loadNat_behind (unused :: stunAddrFamilyIpv4 ::
        bytesOf 2 (port.toNat ^^^ (stunMagicCookie >>> 16))) [] hkey')
  have hfamily : x.value[1]? = some stunAddrFamilyIpv4 := by
    rw [hvalue]
    rfl
  unfold StunAttribute.usable
  rw [if_pos htype, hfamily, hport, haddr]
  simp [UInt16.xor_assoc, UInt32.xor_assoc]

/-- Every read stays within the datagram, a refused datagram leaves the state alone, and the
    address of an XOR-MAPPED-ADDRESS is stored if and only if the first usable attribute in
    front of it, if there is one, tells the same. -/
theorem xorMapped_stored_iff (state : StunState) (pre post : List StunAttribute)
    (x : StunAttribute) {unused : UInt8} {port : UInt16} {ip4 : UInt32}
    (htype : x.type = stunAttrXorMappedAddr) (hvalue : x.value = xorMappedValue unused port ip4)
    (hsize : (encodeAttributes (pre ++ x :: post)).length < 2 ^ 16) :
    ((∀ data, ∃ r s, stunParseResponse state data = some (r, s) ∧ (r = -1 → s = state)) ∧
      StoresMapped state (bindingSuccess state.transactionId (pre ++ x :: post)) port ip4) ↔
      ∀ u, pre.findSome? (·.usable) = some u → Tells state port ip4 u := by
  rw [and_iff_right (parseResponse_inside state), StoresMapped,
    parseResponse_bindingSuccess state hsize, findSome?_append, findSome?_cons,
    usable_xorMapped htype hvalue]
  cases pre.findSome? (·.usable) with
  | none =>
    tauto
  | some u =>
    constructor
    · rintro ⟨stored, heq, hp, ha⟩ u' ⟨⟩
      obtain rfl := congrArg Prod.snd (Option.some.inj heq)
      exact ⟨hp, ha⟩
    · tauto

def waiting : StunState := ⟨true, false, 0, 0, 0, 0, 0, List.replicate 12 7, by decide⟩

/-- 203.0.113.7, port 40000. -/
def xorMapped : StunAttribute :=
  ⟨stunAttrXorMappedAddr, xorMappedValue 0 40000 0xCB007107, [], by decide, by decide, by decide⟩

/-- 192.168.1.10, port 5000. -/
def mappedAddress : StunAttribute :=
  ⟨stunAttrMappedAddr, [0, 1, 0x13, 0x88, 192, 168, 1, 10], [], by decide, by decide, by decide⟩

/-- The name of the server, with one byte of padding. -/
def software : StunAttribute := ⟨0x8022, ascii "stun v2", [9], by decide, by decide, by decide⟩

theorem xorMapped_stored_last :
    ((∀ data, ∃ r s, stunParseResponse waiting data = some (r, s) ∧ (r = -1 → s = waiting)) ∧
      StoresMapped waiting (bindingSuccess waiting.transactionId ([software] ++ xorMapped :: [mappedAddress]))
        40000 0xCB007107) ↔
      ∀ u, [software].findSome? (·.usable) = some u → Tells waiting 40000 0xCB007107 u :=
  xorMapped_stored_iff waiting [software] [mappedAddress] xorMapped rfl rfl (by decide)

/-- A MAPPED-ADDRESS in front of the XOR-MAPPED-ADDRESS: its own address is stored. -/
theorem mappedAddress_first :
    stunParseResponse waiting (bindingSuccess waiting.transactionId [mappedAddress, xorMapped]) =
        some (0, waiting.mapped 5000 (some 0xC0A8010A)) ∧
      ¬ StoresMapped waiting (bindingSuccess waiting.transactionId [mappedAddress, xorMapped])
        40000 0xCB007107 := by
  have hparse : stunParseResponse waiting
      (bindingSuccess waiting.transactionId [mappedAddress, xorMapped]) =
        some (0, waiting.mapped 5000 (some 0xC0A8010A)) :=
    (parseResponse_bindingSuccess waiting (by decide)).trans (by decide)
  refine ⟨hparse, ?_⟩
  rintro ⟨stored, hstored, hport, -⟩
  rw [hparse] at hstored
  obtain rfl := congrArg Prod.snd (Option.some.inj hstored)
  exact absurd hport (by decide)

end Apackage.Rtp2httpd.Stun
