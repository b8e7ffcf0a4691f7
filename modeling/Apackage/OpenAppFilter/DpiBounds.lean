import Apackage.OpenAppFilter.Dpi

/-
  The packet inspection stays inside the payload exactly if the headers announce no more of it than
  the packet has (`inspected_iff`).

  `parse_flow_proto` takes `l4_len` from the headers and compares it with nothing. Past the bytes
  that are there, `af_match_by_pos` compares the position of a feature with a length that is too
  large, or that is negative and turns into an `unsigned int`. A packet in fragments is copied by
  `read_skb`, which does compare (`fragments_inspected`).
-/

namespace Apackage.OpenAppFilter.Dpi

open List Option Lib.Region

/-! ## Ranges -/

def Span.Within (length : ℕ) (s : Span) : Prop := 0 ≤ s.len ∧ s.pos + s.len ≤ length

structure HttpProto.Within (length : ℕ) (http : HttpProto) : Prop where
  url : ∀ s ∈ http.url, s.Within length
  host : ∀ s ∈ http.host, s.Within length
  data : ∀ s ∈ http.data, s.Within length

/-- The pairs that a flow has stored lie inside its payload. -/
structure FlowInfo.Within (flow : FlowInfo) : Prop where
  http : flow.http.Within flow.l4Data.length
  https : ∀ s ∈ flow.https.url, s.Within flow.l4Data.length

/-- No function reads outside the payload, and what they store lies inside it. `search_str` is
    an array of 32 characters. -/
structure Inspected (flow : FlowInfo) : Prop where
  http : ∃ flow', dpiHttpProto flow = some flow' ∧ flow'.Within
  https : ∃ r, dpiHttpsProto flow = some r ∧ r.2.Within
  dns : ∃ r, dpiDnsProto flow = some r ∧ r.2.Within
  main : ∃ flow', dpiMain flow = some flow' ∧ flow'.Within
  quic : ∃ r, isQuicFlow flow = some r
  memstr : ∀ str : List UInt8, str.length < 32 → ∃ r, kMemstr flow.l4Data str flow.l4Len = some r
  pos : ∀ node : FeatureNode, node.searchStr.length < 32 → ∃ r, afMatchByPos flow node = some r

/-- `l4_len` is not negative and covers only bytes that are there. -/
structure FlowInfo.Bounded (flow : FlowInfo) : Prop where
  nonneg : 0 ≤ flow.l4Len
  le_length : flow.l4Len ≤ flow.l4Data.length
  lt : flow.l4Len < 2 ^ 31

variable {data mem : List UInt8} {dataLen : ℤ} {flow : FlowInfo}

/-! ## Conditions -/

theorem andAlso_some (x y : Bool) : andAlso (some x) (some y) = some (x && y) := by cases x <;> rfl

theorem andAlso_spec {a b : Option Bool} {x : Bool} (ha : a = some x)
    (hb : x = true → ∃ y, b = some y) :
    ∃ z, andAlso a b = some z ∧ (z = true → x = true ∧ b = some true) := by
  subst ha
  cases x with
  | false => exact ⟨false, rfl, fun h => by cases h⟩
  | true =>
    obtain ⟨y, rfl⟩ := hb rfl
    exact ⟨y, rfl, fun h => ⟨rfl, by rw [h]⟩⟩

variable {i : ℕ}

theorem byteIs_of_lt (h : i < data.length) (c : UInt8) : ∃ x, byteIs data i c = some x := by
  rw [byteIs, getElem?_eq_getElem h]
  exact ⟨_, rfl⟩

theorem textAt_of_le {text : List Char} (h : i + text.length ≤ data.length) :
    ∃ x, textAt data i text = some x := by
  rw [textAt, load_of_le h]
  exact ⟨_, rfl⟩

theorem boundedText_spec {k lineLen : ℤ} {start : ℕ} {text : List Char}
    (h : k ≤ lineLen → start + text.length ≤ data.length) :
    ∃ x, andAlso (some (k ≤ lineLen)) (textAt data start text) = some x ∧
      (x = true → k ≤ lineLen) := by
  obtain ⟨x, hx, hif⟩ := @andAlso_spec _ (textAt data start text) _
    (rfl : some (decide (k ≤ lineLen)) = _) fun hk => textAt_of_le (h (of_decide_eq_true hk))
  exact ⟨x, hx, fun hxt => of_decide_eq_true (hif hxt).1⟩

/-! ## HTTP -/

theorem Span.within_line {start k : ℕ} (hi : i ≤ data.length) (hk : (k : ℤ) ≤ i - start) :
    Span.Within data.length ⟨start + k, i - start - k⟩ := by
  unfold Span.Within
  push_cast
  omega

theorem httpLine_within {start i : ℕ} {http : HttpProto} (hi : i ≤ data.length)
    (hw : http.Within data.length) :
    ∃ http', httpLine data start i http = some http' ∧ http'.Within data.length := by
  obtain ⟨post, hpost, hpostLen⟩ := @boundedText_spec data 5 (i - start) start
    ['P', 'O', 'S', 'T', ' '] fun hk => by simp only [length_cons, length_nil]; omega
  obtain ⟨get, hget, hgetLen⟩ := @boundedText_spec data 4 (i - start) start
    ['G', 'E', 'T', ' '] fun hk => by simp only [length_cons, length_nil]; omega
  obtain ⟨host, hhost, hhostLen⟩ := @boundedText_spec data 6 (i - start) start
    ['H', 'o', 's', 't', ':'] fun hk => by simp only [length_cons, length_nil]; omega
  simp only [httpLine, hpost, hget, hhost, bind_eq_bind, bind_some]
  cases post with
  | true =>
    refine ⟨_, rfl, ⟨fun s hs => ?_, hw.host, hw.data⟩⟩
    obtain rfl := mem_some_iff.1 hs
    exact Span.within_line hi (hpostLen rfl)
  | false =>
    cases get with
    | true =>
      refine ⟨_, rfl, ⟨fun s hs => ?_, hw.host, hw.data⟩⟩
      obtain rfl := mem_some_iff.1 hs
      exact Span.within_line hi (hgetLen rfl)
    | false =>
      cases host with
      | true =>
        refine ⟨_, rfl, ⟨hw.url, fun s hs => ?_, hw.data⟩⟩
        obtain rfl := mem_some_iff.1 hs
        exact Span.within_line hi (hhostLen rfl)
      | false => exact ⟨_, rfl, hw⟩

theorem httpScan_within (hlen : dataLen ≤ data.length) {n i start : ℕ} {http : HttpProto}
    (hn : (i : ℤ) + n + 1 ≤ dataLen) (hw : http.Within data.length) :
    ∃ http', httpScan data dataLen n i start http = some http' ∧ http'.Within data.length := by
  induction n generalizing i start http with
  | zero => exact ⟨http, rfl, hw⟩
  | succ n ih =>
    obtain ⟨c, hc⟩ := byteIs_of_lt (show i < data.length by omega) 0x0d
    obtain ⟨crlf, hcrlf, -⟩ := @andAlso_spec _ (byteIs data (i + 1) 0x0a) c hc
      fun _ => byteIs_of_lt (by omega) _
    obtain ⟨http', hline, hw'⟩ := @httpLine_within data start i http (by omega) hw
    have hblank : ∃ x, andAlso (some (decide (4 ≤ dataLen - i)))
        (andAlso (byteIs data (i + 2) 0x0d) (byteIs data (i + 3) 0x0a)) = some x ∧
          (x = true → 4 ≤ dataLen - i) := by
      obtain ⟨x, hx, hif⟩ := @andAlso_spec (some (decide (4 ≤ dataLen - i)))
        (andAlso (byteIs data (i + 2) 0x0d) (byteIs data (i + 3) 0x0a)) _ rfl fun h4 => by
          have := of_decide_eq_true h4
          obtain ⟨c2, hc2⟩ := byteIs_of_lt (show i + 2 < data.length by omega) 0x0d
          obtain ⟨z, hz, -⟩ := @andAlso_spec _ (byteIs data (i + 3) 0x0a) c2 hc2
            fun _ => byteIs_of_lt (by omega) _
          exact ⟨z, hz⟩
      exact ⟨x, hx, fun hxt => of_decide_eq_true (hif hxt).1⟩
    obtain ⟨blank, hblank, hblankLen⟩ := hblank
    simp only [httpScan, hcrlf, hline, hblank, bind_eq_bind, bind_some]
    cases crlf with
    | false => exact ih (by omega) hw
    | true =>
      cases blank with
      | false => exact ih (by omega) hw'
      | true =>
        have h4 := hblankLen rfl
        refine ⟨_, rfl, ⟨hw'.url, hw'.host, fun s hs => ?_⟩⟩
        obtain rfl := mem_some_iff.1 hs
        unfold Span.Within
        push_cast
        omega

theorem dpiHttpProto_within (hb : flow.Bounded) (hw : flow.Within) :
    ∃ flow', dpiHttpProto flow = some flow' ∧ flow'.Within ∧ flow'.Bounded := by
  unfold dpiHttpProto
  split
  · exact ⟨flow, rfl, hw, hb⟩
  · next h =>
    obtain ⟨http, hscan, hw'⟩ := @httpScan_within flow.l4Data flow.l4Len hb.le_length
      (flow.l4Len - 1).toNat 0 0 flow.http (by omega) hw.http
    rw [hscan]
    exact ⟨_, rfl, ⟨hw', hw.https⟩, ⟨hb.nonneg, hb.le_length, hb.lt⟩⟩

/-! ## TLS -/

theorem checkDomain_some {h len : ℕ} (hlen : h + len ≤ data.length) :
    ∃ x, checkDomain data h len = some x := by
  induction len generalizing h with
  | zero => exact ⟨true, rfl⟩
  | succ len ih =>
    have hmap : data[h]?.map domainChar = some (domainChar data[h]) := by
      rw [getElem?_eq_getElem (by omega), map_some]
    obtain ⟨z, hz, -⟩ := @andAlso_spec _ (checkDomain data (h + 1) len) _ hmap
      fun _ => ih (by omega)
    exact ⟨z, hz⟩

theorem extensionAt_some {i : ℕ} (h : i + 4 ≤ data.length) : ∃ x, extensionAt data i = some x := by
  obtain ⟨c0, h0⟩ := byteIs_of_lt (show i < data.length by omega) 0
  obtain ⟨c1, h1⟩ := byteIs_of_lt (show i + 1 < data.length by omega) 0
  obtain ⟨c2, h2⟩ := byteIs_of_lt (show i + 2 < data.length by omega) 0
  obtain ⟨c3, h3⟩ := byteIs_of_lt (show i + 3 < data.length by omega) 0
  simp only [extensionAt, h0, h1, h2, h3, map_some, andAlso_some]
  exact ⟨_, rfl⟩

theorem nameAt_some (hlen : dataLen ≤ data.length) (hi : (i : ℤ) + 9 < dataLen) :
    ∃ r, nameAt data dataLen i = some r ∧ ∀ len ∈ r, (i : ℤ) + 9 + (len : ℕ) < dataLen := by
  obtain ⟨x, hx⟩ := @extensionAt_some data i (by omega)
  obtain ⟨urlLen, hurl⟩ := @loadNat_of_le data (i + 7) 2 (by omega)
  simp only [nameAt, hx, hurl, bind_eq_bind, bind_some]
  cases x with
  | false => exact ⟨none, rfl, fun len h => by cases h⟩
  | true =>
    rw [if_pos rfl]
    split
    · exact ⟨none, rfl, fun len h => by cases h⟩
    · split
      · next hroom =>
        obtain ⟨valid, hvalid⟩ := @checkDomain_some data (i + 9) urlLen (by omega)
        rw [hvalid]
        refine ⟨_, rfl, fun len h => ?_⟩
        cases valid with
        | false => cases h
        | true =>
          obtain rfl := mem_some_iff.1 h
          exact hroom
      · exact ⟨none, rfl, fun len h => by cases h⟩

theorem httpsScan_some (hlen : dataLen ≤ data.length) (n i : ℕ) :
    ∃ r, httpsScan data dataLen n i = some r ∧
      ∀ pos len, r = .found pos len → (pos : ℤ) + len < dataLen := by
  induction n generalizing i with
  | zero => exact ⟨_, rfl, fun pos len h => by cases h⟩
  | succ n ih =>
    unfold httpsScan
    split
    · exact ⟨_, rfl, fun pos len h => by cases h⟩
    · next h =>
      obtain ⟨r, hr, hroom⟩ := nameAt_some hlen (show (i : ℤ) + 9 < dataLen by omega)
      rw [hr, bind_some]
      cases r with
      | none => exact ih (i + 1)
      | some urlLen =>
        simp [*]

theorem helloAt_some (h : 6 ≤ data.length) : ∃ x, helloAt data = some x := by
  obtain ⟨c0, h0⟩ := byteIs_of_lt (show 0 < data.length by omega) 0x16
  obtain ⟨c1, h1⟩ := byteIs_of_lt (show 1 < data.length by omega) 0x03
  obtain ⟨c5, h5⟩ := byteIs_of_lt (show 5 < data.length by omega) 0x01
  simp only [helloAt, h0, h1, h5, andAlso_some]
  exact ⟨_, rfl⟩

theorem dpiHttpsProto_within (hb : flow.Bounded) (hw : flow.Within) :
    ∃ r, dpiHttpsProto flow = some r ∧ r.2.Within ∧ r.2.Bounded := by
  have hle := hb.le_length
  unfold dpiHttpsProto
  split
  · exact ⟨_, rfl, hw, hb⟩
  · next h =>
    obtain ⟨hello, hhello⟩ := @helloAt_some flow.l4Data (by omega)
    simp only [hhello, bind_eq_bind, bind_some]
    split
    · obtain ⟨r, hr, hroom⟩ := httpsScan_some hle flow.l4Len.toNat 0
      rw [hr, bind_some]
      cases r with
      | found pos len =>
        have hpos := hroom pos len rfl
        refine ⟨_, rfl, ⟨hw.http, fun s hs => ?_⟩, ⟨hb.nonneg, hle, hb.lt⟩⟩
        obtain rfl := mem_some_iff.1 hs
        unfold Span.Within
        dsimp only
        omega
      | missed => exact ⟨_, rfl, ⟨hw.http, hw.https⟩, ⟨hb.nonneg, hle, hb.lt⟩⟩
      | ended => exact ⟨_, rfl, hw, hb⟩
    · exact ⟨_, rfl, hw, hb⟩

/-! ## DNS -/

theorem copyLabel_some {n offset : ℕ} (h : offset + n ≤ mem.length) (out : List UInt8) :
    ∃ r, copyLabel mem n offset out = some r := by
  induction n generalizing offset out with
  | zero => exact ⟨_, rfl⟩
  | succ n ih =>
    rw [copyLabel, getElem?_eq_getElem (by omega), bind_some]
    split
    · exact ⟨_, rfl⟩
    · exact ih (by omega) _

variable {dnsLen : ℕ}

theorem nameLoop_some (hlen : dnsLen ≤ mem.length) (n offset : ℕ) (out : List UInt8) :
    ∃ r, nameLoop mem dnsLen n offset out = some r := by
  induction n generalizing offset out with
  | zero => exact ⟨_, rfl⟩
  | succ n ih =>
    unfold nameLoop
    split
    · exact ⟨_, rfl⟩
    · next hoffset =>
      rw [getElem?_eq_getElem (show offset < mem.length by omega), bind_some]
      dsimp only
      split
      · exact ⟨_, rfl⟩
      · split
        · exact ⟨_, rfl⟩
        · split
          · exact ⟨_, rfl⟩
          · next hlabel =>
            split
            · exact ⟨_, rfl⟩
            · obtain ⟨r, hr⟩ := @copyLabel_some mem mem[offset].toNat (offset + 1) (by omega)
                (if 0 < out.length then out ++ ['.'.toUInt8] else out)
              rw [hr, bind_some]
              cases r with
              | none => exact ⟨_, rfl⟩
              | some out => exact ih _ _

theorem afParseDnsQueryName_some {dnsLen : ℕ} (hlen : dnsLen ≤ mem.length) (queryOffset : ℕ) :
    ∃ r, afParseDnsQueryName mem dnsLen queryOffset = some r := by
  unfold afParseDnsQueryName
  split
  · exact ⟨_, rfl⟩
  · split
    · exact ⟨_, rfl⟩
    · obtain ⟨r, hr⟩ := nameLoop_some hlen (dnsLen - queryOffset) queryOffset []
      rw [hr, bind_some]
      match r with
      | none => exact ⟨_, rfl⟩
      | some (out, offset) =>
        dsimp only
        split
        · exact ⟨_, rfl⟩
        · split
          · exact ⟨_, rfl⟩
          · obtain ⟨qtype, hqtype⟩ := @loadNat_of_le mem offset 2 (by omega)
            rw [hqtype]
            exact ⟨_, rfl⟩

theorem questionLoop_some (hlen : dnsLen ≤ mem.length) (n offset : ℕ) :
    ∃ r, questionLoop mem dnsLen n offset = some r := by
  induction n generalizing offset with
  | zero => exact ⟨_, rfl⟩
  | succ n ih =>
    obtain ⟨r, hr⟩ := afParseDnsQueryName_some hlen offset
    rw [questionLoop, hr, bind_some]
    match r with
    | none => exact ⟨_, rfl⟩
    | some (query, offset) =>
      simp [*]

theorem dnsMessage_spec (hheader : 6 ≤ mem.length) (hlen : dnsLen ≤ mem.length) :
    ∃ ret dns, dnsMessage flow mem dnsLen = some (ret, { flow with dns := dns }) := by
  obtain ⟨flags, hflags⟩ := @loadNat_of_le mem 2 2 (by omega)
  obtain ⟨qdcount, hqdcount⟩ := @loadNat_of_le mem 4 2 (by omega)
  simp only [dnsMessage, hflags, hqdcount, bind_eq_bind, bind_some]
  split
  · exact ⟨_, flow.dns, rfl⟩
  · obtain ⟨queries, hqueries⟩ := questionLoop_some hlen (min qdcount 16) 12
    rw [hqueries, bind_some]
    split
    · exact ⟨_, _, rfl⟩
    · exact ⟨_, _, rfl⟩

theorem dpiDnsProto_spec (hle : flow.l4Len ≤ flow.l4Data.length) :
    ∃ ret dns, dpiDnsProto flow = some (ret, { flow with dns := dns }) := by
  unfold dpiDnsProto
  split
  · exact ⟨_, flow.dns, rfl⟩
  · split
    · exact ⟨_, flow.dns, rfl⟩
    · split
      · split
        · exact ⟨_, flow.dns, rfl⟩
        · obtain ⟨msgLen, hmsgLen⟩ := @loadNat_of_le flow.l4Data 0 2 (by omega)
          rw [hmsgLen, bind_some]
          split
          · exact ⟨_, flow.dns, rfl⟩
          · exact dnsMessage_spec (by rw [length_drop]; omega) (by rw [length_drop]; omega)
      · split
        · exact dnsMessage_spec (by omega) (by omega)
        · exact ⟨_, flow.dns, rfl⟩

theorem dpiDnsProto_within (hb : flow.Bounded) (hw : flow.Within) :
    ∃ r, dpiDnsProto flow = some r ∧ r.2.Within := by
  obtain ⟨ret, dns, h⟩ := dpiDnsProto_spec hb.le_length
  exact ⟨_, h, hw.http, hw.https⟩

theorem dpiMain_within (hb : flow.Bounded) (hw : flow.Within) :
    ∃ flow', dpiMain flow = some flow' ∧ flow'.Within := by
  obtain ⟨flow₁, h₁, hw₁, hb₁⟩ := dpiHttpProto_within hb hw
  obtain ⟨⟨ret₂, flow₂⟩, h₂, hw₂, hb₂⟩ := dpiHttpsProto_within hb₁ hw₁
  obtain ⟨⟨ret₃, flow₃⟩, h₃, hw₃⟩ := dpiDnsProto_within hb₂ hw₂
  refine ⟨flow₃, ?_, hw₃⟩
  simp [dpiMain, h₁, h₂, h₃, bind_eq_bind, bind_some]

/-! ## Features -/

theorem isQuicFlow_some (hb : flow.Bounded) : ∃ r, isQuicFlow flow = some r := by
  have hle := hb.le_length
  unfold isQuicFlow
  split
  · exact ⟨_, rfl⟩
  · next h =>
    rw [getElem?_eq_getElem (show 0 < flow.l4Data.length by omega), bind_some]
    split
    · exact ⟨_, rfl⟩
    · obtain ⟨version, hversion⟩ := @loadNat_of_le flow.l4Data 1 4 (by omega)
      rw [hversion]
      exact ⟨_, rfl⟩

theorem memstrLoop_some {str : List UInt8} {n p : ℕ} (h : p + n + str.length ≤ data.length + 1) :
    ∃ r, memstrLoop data str n p = some r := by
  induction n generalizing p with
  | zero => exact ⟨_, rfl⟩
  | succ n ih =>
    rw [memstrLoop, load_of_le (by omega), bind_some]
    split
    · exact ⟨_, rfl⟩
    · exact ih (by omega)

theorem kMemstr_some {size : ℤ} (hsize : size ≤ data.length) (str : List UInt8) :
    ∃ r, kMemstr data str size = some r := by
  by_cases h : size - str.length + 1 ≤ 0
  · rw [kMemstr, Int.toNat_of_nonpos h]
    exact ⟨_, rfl⟩
  · exact memstrLoop_some (by omega)

theorem matchPositions_some (hnonneg : 0 ≤ dataLen) (hlen : dataLen ≤ data.length)
    (hlt : dataLen < 2 ^ 31) (infos : List (ℤ × UInt8)) :
    ∃ r, matchPositions data dataLen infos = some r := by
  induction infos with
  | nil => exact ⟨_, rfl⟩
  | cons info infos ih =>
    obtain ⟨infoPos, value⟩ := info
    rw [matchPositions]
    generalize ((if infoPos < 0 then dataLen + infoPos else infoPos) % 2 ^ 32).toNat = pos
    by_cases h : dataLen % 2 ^ 32 ≤ pos
    · rw [if_pos h]
      exact ⟨_, rfl⟩
    · rw [if_neg h]
      obtain ⟨c, hc⟩ := byteIs_of_lt (show pos < data.length by omega) value
      obtain ⟨z, hz, -⟩ := andAlso_spec hc fun _ => ih
      exact ⟨z, hz⟩

theorem afMatchByPos_some (hb : flow.Bounded) (node : FeatureNode) :
    ∃ r, afMatchByPos flow node = some r := by
  obtain ⟨x, hx⟩ := matchPositions_some hb.nonneg hb.le_length hb.lt (node.posInfo.take 16)
  have hsearch : ∃ y, (if 0 < node.searchStr.length then
      kMemstr flow.l4Data node.searchStr flow.l4Len else some true) = some y := by
    split
    · exact kMemstr_some hb.le_length _
    · exact ⟨_, rfl⟩
  obtain ⟨y, hy⟩ := hsearch
  rw [afMatchByPos, hx, hy, andAlso_some, andAlso_some]
  exact ⟨_, rfl⟩

theorem inspected_of_bounded (hb : flow.Bounded) (hw : flow.Within) : Inspected flow where
  http := (dpiHttpProto_within hb hw).imp fun _ h => ⟨h.1, h.2.1⟩
  https := (dpiHttpsProto_within hb hw).imp fun _ h => ⟨h.1, h.2.1⟩
  dns := dpiDnsProto_within hb hw
  main := dpiMain_within hb hw
  quic := isQuicFlow_some hb
  memstr str _ := kMemstr_some hb.le_length str
  pos node _ := afMatchByPos_some hb node

/-! ## A payload that the headers get wrong -/

def featureAt (pos : ℤ) : FeatureNode := ⟨⟨1, 0, 0, [], [], [], [], [(pos, 0)]⟩, 0⟩

theorem afMatchByPos_outside {pos : ℕ} (hpos : flow.l4Data.length ≤ pos) (hlt : pos < 2 ^ 32)
    (hlen : (pos : ℤ) < flow.l4Len % 2 ^ 32) : afMatchByPos flow (featureAt pos) = none := by
  have hmod : (((if (pos : ℤ) < 0 then flow.l4Len + pos else (pos : ℤ)) % 2 ^ 32)).toNat = pos := by
    omega
  have hread : matchPositions flow.l4Data flow.l4Len [((pos : ℤ), 0)] = none := by
    unfold matchPositions
    rw [hmod, if_neg (by omega), byteIs, getElem?_eq_none hpos]
    rfl
  rw [afMatchByPos]
  simp only [featureAt, length_cons, length_nil, take_succ_cons, take_nil]
  rw [hread]
  rfl

theorem bounded_of_inspected (hlt : flow.l4Len < 2 ^ 31) (hge : -2 ^ 31 ≤ flow.l4Len)
    (hdata : flow.l4Data.length < 2 ^ 31) (h : Inspected flow) : flow.Bounded := by
  refine ⟨?_, ?_, hlt⟩
  · by_contra hneg
    obtain ⟨r, hr⟩ := h.pos (featureAt flow.l4Data.length) (Nat.succ_pos 31)
    rw [afMatchByPos_outside le_rfl (by omega) (by omega)] at hr
    cases hr
  · by_contra hlong
    obtain ⟨r, hr⟩ := h.pos (featureAt (flow.l4Len - 1).toNat) (Nat.succ_pos 31)
    rw [afMatchByPos_outside (by omega) (by omega) (by omega)] at hr
    cases hr

/-! ## The payload that the headers announce -/

namespace Packet

/-- Where the header of TCP or UDP begins. -/
def ipp (p : Packet) : ℕ :=
  match p.protocol with
  | .ip => p.byte 0 % 16 * 4
  | _ => 40

def l4Protocol (p : Packet) : ℕ :=
  match p.protocol with
  | .ip => p.byte 9
  | _ => p.byte 6

def payloadStart (p : Packet) : ℕ :=
  p.ipp + if p.l4Protocol = 6 then p.byte (p.ipp + 12) / 16 * 4 else 8

/-- TCP ends with the IP packet, UDP has a length of its own. -/
def payloadEnd (p : Packet) : ℕ :=
  if p.l4Protocol = 6 then
    match p.protocol with
    | .ip => p.ntohs 2
    | _ => 40 + p.ntohs 4
  else p.ipp + p.ntohs (p.ipp + 4)

/-- The headers announce a payload of no negative length that is empty or ends in the packet. -/
def PayloadPresent (p : Packet) : Prop :=
  p.payloadStart ≤ p.payloadEnd ∧ (p.payloadEnd ≤ p.bytes.length ∨ p.payloadEnd = p.payloadStart)

variable (p : Packet)

theorem byte_lt (k : ℕ) : p.byte k < 256 := UInt8.toNat_lt _

theorem ntohs_lt (k : ℕ) : p.ntohs k < 65536 := by
  have h := p.byte_lt k
  have h' := p.byte_lt (k + 1)
  unfold ntohs
  omega

theorem ipp_le : p.ipp ≤ 60 := by
  unfold ipp
  split <;> omega

theorem payloadStart_le : p.payloadStart ≤ 120 := by
  have h := p.ipp_le
  have h' := p.byte_lt (p.ipp + 12)
  unfold payloadStart
  split <;> omega

theorem payloadEnd_lt : p.payloadEnd < 65536 + 60 := by
  have h := p.ipp_le
  have h2 := p.ntohs_lt 2
  have h4 := p.ntohs_lt 4
  have hudp := p.ntohs_lt (p.ipp + 4)
  unfold payloadEnd
  split
  · split <;> omega
  · omega

end Packet

variable {p : Packet}

section

variable (h : parseFlowProto p = some flow)

include h

theorem parseFlowProto_spec :
    ∃ sport dport, flow = .fresh p.l4Protocol sport dport (p.bytes.drop p.payloadStart)
      (p.payloadEnd - p.payloadStart) := by
  have hnet : ∃ ippLen : ℤ, p.network = some (p.l4Protocol, p.ipp, ippLen) ∧
      (p.l4Protocol = 6 → (p.payloadEnd : ℤ) = p.ipp + ippLen) := by
    unfold Packet.payloadEnd
    unfold Packet.network Packet.l4Protocol Packet.ipp
    cases hp : p.protocol with
    | ip =>
      refine ⟨_, rfl, fun h6 => ?_⟩
      rw [if_pos h6]
      push_cast
      omega
    | ipv6 =>
      refine ⟨_, rfl, fun h6 => ?_⟩
      rw [if_pos h6]
      rfl
    | other =>
      simp only [parseFlowProto, Packet.network, hp] at h
      cases h
  obtain ⟨ippLen, hnet, hend⟩ := hnet
  simp only [parseFlowProto, hnet] at h
  split at h
  · next h6 =>
    refine ⟨p.ntohs p.ipp, p.ntohs (p.ipp + 2), (some.inj h).symm.trans ?_⟩
    rw [hend h6, Packet.payloadStart, if_pos h6, h6]
    congr 1
    omega
  · next h6 =>
    split at h
    · next h17 =>
      refine ⟨p.ntohs p.ipp, p.ntohs (p.ipp + 2), (some.inj h).symm.trans ?_⟩
      rw [Packet.payloadEnd, if_neg h6, Packet.payloadStart, if_neg h6, h17]
      congr 1
      omega
    · cases h

theorem bounded_iff_present : flow.Bounded ↔ p.PayloadPresent := by
  obtain ⟨sport, dport, rfl⟩ := parseFlowProto_spec h
  have hend := p.payloadEnd_lt
  constructor
  · intro hb
    have hnonneg := hb.nonneg
    have hle := hb.le_length
    unfold FlowInfo.fresh at hnonneg hle
    dsimp only at hnonneg hle
    rw [length_drop] at hle
    unfold Packet.PayloadPresent
    omega
  · intro hp
    unfold Packet.PayloadPresent at hp
    refine ⟨?_, ?_, ?_⟩
    · unfold FlowInfo.fresh
      dsimp only
      omega
    · unfold FlowInfo.fresh
      dsimp only
      rw [length_drop]
      omega
    · unfold FlowInfo.fresh
      dsimp only
      omega

theorem inspected_of_present (hp : p.PayloadPresent) (hello : Bool) :
    Inspected { flow with clientHello := hello } := by
  have hb := (bounded_iff_present h).2 hp
  obtain ⟨sport, dport, rfl⟩ := parseFlowProto_spec h
  refine inspected_of_bounded ⟨hb.nonneg, hb.le_length, hb.lt⟩ ⟨⟨?_, ?_, ?_⟩, ?_⟩
  all_goals exact fun s hs => by cases hs

theorem present_of_inspected (hi : Inspected flow) : p.PayloadPresent := by
  refine (bounded_iff_present h).1 ?_
  obtain ⟨sport, dport, rfl⟩ := parseFlowProto_spec h
  have hstart := p.payloadStart_le
  have hend := p.payloadEnd_lt
  have hlen := p.length_lt
  refine bounded_of_inspected ?_ ?_ ?_ hi
  · unfold FlowInfo.fresh
    dsimp only
    omega
  · unfold FlowInfo.fresh
    dsimp only
    omega
  · unfold FlowInfo.fresh
    rw [length_drop]
    omega

end

/-- The inspection of a packet stays inside its payload exactly if the headers announce a payload
    that is there. -/
theorem inspected_iff (h : parseFlowProto p = some flow) :
    (∀ hello, Inspected { flow with clientHello := hello }) ↔ p.PayloadPresent := by
  constructor
  · intro hall
    obtain ⟨sport, dport, hflow⟩ := parseFlowProto_spec h
    refine present_of_inspected h ?_
    have hfalse := hall false
    rw [hflow] at hfalse ⊢
    exact hfalse
  · exact inspected_of_present h

/-- Whatever the headers announce, what `read_skb` copies of a packet in fragments is inspected
    without a read outside. -/
theorem fragments_inspected (h : parseFlowProto p = some flow) {hello : Bool} {flow' : FlowInfo}
    (hcopy : readSkb { flow with clientHello := hello } = some flow') : Inspected flow' := by
  obtain ⟨sport, dport, rfl⟩ := parseFlowProto_spec h
  unfold readSkb at hcopy
  dsimp only at hcopy
  split at hcopy
  · cases hcopy
  rename_i hlen
  obtain rfl := some.inj hcopy
  refine inspected_of_bounded ⟨?_, ?_, ?_⟩ ⟨⟨nofun, nofun, nofun⟩, nofun⟩
  · dsimp only
    omega
  · dsimp only
    rw [length_take]
    omega
  · dsimp only
    omega

/-- The headers of an IPv4 packet of `totLen` bytes with a UDP datagram of `udpLen` bytes for
    port 53. -/
def datagramBytes (totLen udpLen : UInt8) : List UInt8 :=
  [0x45, 0x00, 0x00, totLen, 0x00, 0x00, 0x40, 0x00, 0x40, 0x11, 0x00, 0x00, 0xc0, 0xa8, 0x01, 0x02,
    0xc0, 0xa8, 0x01, 0x01, 0xc0, 0x00, 0x00, 0x35, 0x00, udpLen, 0x00, 0x00]

theorem length_datagramBytes_lt (udpLen : UInt8) : (datagramBytes 28 udpLen).length < 2 ^ 31 :=
  Nat.lt_of_le_of_lt (Nat.le_refl 28) (by decide)

def datagram (udpLen : UInt8) : Packet where
  protocol := .ip
  bytes := datagramBytes 28 udpLen
  behind _ := 0
  length_lt := length_datagramBytes_lt udpLen

/-- A question for `ab.com`. -/
def question : List UInt8 :=
  [0x12, 0x34, 1, 0, 0, 1, 0, 0, 0, 0, 0, 0, 2, 0x61, 0x62, 3, 0x63, 0x6f, 0x6d, 0, 0, 1, 0, 1]

def datagramQuestion : Packet where
  protocol := .ip
  bytes := datagramBytes 52 32 ++ question
  behind _ := 0
  length_lt := by decide

theorem inspected_iff_question : datagramQuestion.PayloadPresent ∧ ∀ hello,
      Inspected { FlowInfo.fresh 17 0xc000 53 question 24 with clientHello := hello } := by
  have hpresent : datagramQuestion.PayloadPresent := by
    unfold Packet.PayloadPresent
    decide
  have hflow : parseFlowProto datagramQuestion = some (.fresh 17 0xc000 53 question 24) := by decide
  exact ⟨hpresent, (inspected_iff hflow).2 hpresent⟩

/-- The header announces 32 bytes that are not there, and `dpi_dns_proto` reads them. -/
theorem announced_read_outside : parseFlowProto (datagram 40) = some (.fresh 17 0xc000 53 [] 32) ∧
      ¬ Inspected (.fresh 17 0xc000 53 [] 32) := by
  refine ⟨by decide, fun h => ?_⟩
  obtain ⟨r, hr, -⟩ := h.dns
  rw [show dpiDnsProto (.fresh 17 0xc000 53 [] 32) = none by decide] at hr
  cases hr

/-- The same bytes with a byte behind the headers. -/
def datagramOne : Packet where
  protocol := .ip
  bytes := datagramBytes 28 9 ++ [0]
  behind _ := 0
  length_lt := by decide

theorem fragments_inspected_one :
    Inspected { FlowInfo.fresh 17 0xc000 53 [0] 1 with clientHello := true } :=
  @fragments_inspected (.fresh 17 0xc000 53 [0] 1) datagramOne (by decide) true _ (by decide)

end Apackage.OpenAppFilter.Dpi
