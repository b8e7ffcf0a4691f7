import Apackage.OpenAppFilter.DpiBounds

/-
  The server name of a `ClientHello`.

  `dpi_https_proto` does not parse the hello. It looks for a place that could be the extension, and
  takes the first one (`httpsScan_first`). So the name of the hello is found exactly if no place
  before its extension is plausible (`serverName_iff`).
-/

namespace Apackage.OpenAppFilter.Dpi

open List Option Lib.Region

/-! ## Hellos -/

structure Extension where
  type : ℕ
  data : List UInt8

def Extension.encode (e : Extension) : List UInt8 :=
  bytesOf 2 e.type ++ (bytesOf 2 e.data.length ++ e.data)

/-- The `server_name` extension with one host name. -/
def serverName (name : List UInt8) : Extension where
  type := 0
  data := bytesOf 2 (name.length + 3) ++ 0 :: (bytesOf 2 name.length ++ name)

/-- A `ClientHello` with its record; before TLS 1.2 it may have no block of extensions. -/
structure ClientHello where
  minor : UInt8
  version : ℕ
  random : List UInt8
  sessionId : List UInt8
  cipherSuites : List UInt8
  compression : List UInt8
  extensions : Option (List Extension)

namespace ClientHello

def extensionBytes (extensions : Option (List Extension)) : List UInt8 :=
  match extensions with
  | none => []
  | some es => bytesOf 2 (es.flatMap Extension.encode).length ++ es.flatMap Extension.encode

def body (hello : ClientHello) : List UInt8 :=
  bytesOf 2 hello.version ++ (hello.random ++ (bytesOf 1 hello.sessionId.length ++
    (hello.sessionId ++ (bytesOf 2 hello.cipherSuites.length ++ (hello.cipherSuites ++
      (bytesOf 1 hello.compression.length ++ (hello.compression ++
        extensionBytes hello.extensions)))))))

def encode (hello : ClientHello) : List UInt8 :=
  [0x16, 0x03, hello.minor] ++ (bytesOf 2 (4 + hello.body.length) ++ ([0x01] ++
    (bytesOf 3 hello.body.length ++ hello.body)))

structure Valid (hello : ClientHello) : Prop where
  version : hello.version < 256 ^ 2
  random : hello.random.length = 32
  sessionId : hello.sessionId.length ≤ 32
  cipherSuites : 2 ≤ hello.cipherSuites.length ∧ hello.cipherSuites.length % 2 = 0 ∧
    hello.cipherSuites.length < 256 ^ 2
  compression : 1 ≤ hello.compression.length ∧ hello.compression.length < 256
  extension : ∀ es ∈ hello.extensions, ∀ e ∈ es, e.type < 256 ^ 2 ∧ e.data.length < 256 ^ 2
  extensions : ∀ es ∈ hello.extensions, (es.flatMap Extension.encode).length < 256 ^ 2
  record : 4 + hello.body.length ≤ 16384

/-- Where the block of extensions goes on behind the extensions `pre`. -/
def offset (hello : ClientHello) (pre : List Extension) : ℕ :=
  3 + (2 + (1 + (3 + (2 + (hello.random.length + (1 + (hello.sessionId.length + (2 +
    (hello.cipherSuites.length + (1 + (hello.compression.length + (2 +
      (pre.flatMap Extension.encode).length))))))))))))

theorem drop_append_add {α : Type*} {l : List α} {n : ℕ} (h : l.length = n) (k : ℕ)
    (post : List α) : (l ++ post).drop (n + k) = post.drop k := by
  rw [← drop_drop, drop_left' h]

theorem drop_encode {hello : ClientHello} {pre post : List Extension} {e : Extension}
    (h : hello.extensions = some (pre ++ e :: post)) (more : List UInt8) :
    (hello.encode ++ more).drop (hello.offset pre) =
      e.encode ++ (post.flatMap Extension.encode ++ more) := by
  have hbytes : extensionBytes hello.extensions =
      bytesOf 2 ((pre ++ e :: post).flatMap Extension.encode).length ++
        (pre.flatMap Extension.encode ++ (e.encode ++ post.flatMap Extension.encode)) := by
    rw [h, extensionBytes, flatMap_append, flatMap_cons]
  unfold encode body offset
  rw [hbytes]
  simp only [append_assoc]
  rw [drop_append_add (show [(0x16 : UInt8), 0x03, hello.minor].length = 3 from rfl),
    drop_append_add (length_bytesOf 2 _),
    drop_append_add (show [(0x01 : UInt8)].length = 1 from rfl),
    drop_append_add (length_bytesOf 3 _), drop_append_add (length_bytesOf 2 _), drop_append_add rfl,
    drop_append_add (length_bytesOf 1 _), drop_append_add rfl, drop_append_add (length_bytesOf 2 _),
    drop_append_add rfl, drop_append_add (length_bytesOf 1 _), drop_append_add rfl,
    drop_append_add (length_bytesOf 2 _), drop_left]

end ClientHello

/-! ## Plausible places -/

variable {data : List UInt8}

/-- The place looks like a `server_name` extension with a name of the length `len`, and the name
    ends before the payload does. -/
structure Plausible (data : List UInt8) (i len : ℕ) : Prop where
  type : data[i]? = some 0 ∧ data[i + 1]? = some 0
  high : data[i + 2]? = some 0
  low : data[i + 3]? ≠ some 0
  length : loadNat data (i + 7) 2 = some len
  range : 4 < len ∧ len ≤ 40
  room : i + 9 + len < data.length
  chars : ∀ c ∈ (data.drop (i + 9)).take len, domainChar c = true

theorem checkDomain_eq {h len : ℕ} (hlen : h + len ≤ data.length) :
    checkDomain data h len = some (((data.drop h).take len).all domainChar) := by
  induction len generalizing h with
  | zero => rw [take_zero]; rfl
  | succ len ih =>
    rw [checkDomain, ih (by omega), getElem?_eq_getElem (by omega), map_some,
      andAlso_some, drop_eq_getElem_cons (show h < data.length by omega),
      take_succ_cons, all_cons]

theorem byteIs_eq {i : ℕ} (h : i < data.length) (c : UInt8) :
    byteIs data i c = some (data[i]? == some c) := by
  rw [byteIs, getElem?_eq_getElem h]
  rfl

theorem extensionAt_eq {i : ℕ} (h : i + 3 < data.length) :
    extensionAt data i = some (data[i]? == some 0 && (data[i + 1]? == some 0 &&
      (data[i + 2]? == some 0 && !(data[i + 3]? == some 0)))) := by
  rw [extensionAt, byteIs_eq (by omega), byteIs_eq (by omega), byteIs_eq (by omega),
    byteIs_eq (by omega), map_some, andAlso_some, andAlso_some, andAlso_some]

theorem nameAt_spec {i : ℕ} (hi : i + 9 < data.length) :
    ∃ r, nameAt data data.length i = some r ∧ ∀ len, r = some len ↔ Plausible data i len := by
  obtain ⟨urlLen, hurl⟩ := @loadNat_of_le data (i + 7) 2 (by omega)
  simp only [nameAt, extensionAt_eq (show i + 3 < data.length by omega), hurl,
    bind_eq_bind, bind_some]
  have hlength {len : ℕ} (hp : Plausible data i len) : len = urlLen :=
    some.inj (hp.length.symm.trans hurl)
  by_cases htype : (data[i]? == some 0 && (data[i + 1]? == some 0 &&
      (data[i + 2]? == some 0 && !(data[i + 3]? == some 0)))) = true
  · rw [if_pos htype]
    by_cases hrange : urlLen ≤ 4 ∨ (data.length : ℤ) < urlLen ∨ 40 < urlLen
    · rw [if_pos hrange]
      refine ⟨none, rfl, fun len => ⟨fun h => (some_ne_none _ h.symm).elim, fun hp => ?_⟩⟩
      have hlen := hlength hp
      have hr := hp.range
      have hroom := hp.room
      omega
    · rw [if_neg hrange]
      by_cases hroom : (i : ℤ) + 9 + urlLen < data.length
      · rw [if_pos hroom, checkDomain_eq (by omega), map_some]
        refine ⟨_, rfl, fun len => ⟨fun h => ?_, fun hp => ?_⟩⟩
        · split at h
          · next hchars =>
            obtain rfl := some.inj h
            simp only [Bool.and_eq_true, beq_iff_eq, Bool.not_eq_true', beq_eq_false_iff_ne]
              at htype
            exact ⟨⟨htype.1, htype.2.1⟩, htype.2.2.1, htype.2.2.2, hurl, by omega, by omega,
              List.all_eq_true.1 hchars⟩
          · cases h
        · obtain rfl := hlength hp
          rw [if_pos (List.all_eq_true.2 hp.chars)]
      · rw [if_neg hroom]
        refine ⟨none, rfl, fun len => ⟨fun h => (some_ne_none _ h.symm).elim, fun hp => ?_⟩⟩
        have hlen := hlength hp
        have hr := hp.room
        omega
  · rw [if_neg htype]
    refine ⟨none, rfl, fun len => ⟨fun h => (some_ne_none _ h.symm).elim, fun hp => ?_⟩⟩
    refine (htype ?_).elim
    simp only [Bool.and_eq_true, beq_iff_eq, Bool.not_eq_true', beq_eq_false_iff_ne]
    exact ⟨hp.type.1, hp.type.2, hp.high, hp.low⟩

theorem httpsScan_first {k len : ℕ} (hk : Plausible data k len) {n i : ℕ}
    (hn : i + n = data.length) (hik : i ≤ k)
    (hfirst : ∀ j, i ≤ j → j < k → ∀ l, ¬ Plausible data j l) :
    httpsScan data data.length n i = some (.found (k + 9) len) := by
  have hroom := hk.room
  induction n generalizing i with
  | zero => omega
  | succ n ih =>
    obtain ⟨r, hr, hspec⟩ := @nameAt_spec data i (by omega)
    rw [httpsScan, if_neg (by omega), hr, bind_some]
    rcases Nat.eq_or_lt_of_le hik with rfl | hlt
    · rw [(hspec len).2 hk]
    · grind

theorem httpsScan_missed {n i : ℕ} (hn : i + n = data.length) (hi : i + 9 ≤ data.length)
    (hnone : ∀ j l, ¬ Plausible data j l) :
    httpsScan data data.length n i = some .missed := by
  induction n generalizing i with
  | zero => omega
  | succ n ih =>
    rw [httpsScan]
    by_cases hend : (data.length : ℤ) ≤ i + 9
    · rw [if_pos hend]
    · obtain ⟨r, hr, hspec⟩ := @nameAt_spec data i (by omega)
      have hr' : r = none := eq_none_iff_forall_ne_some.2 fun l hl => hnone i l ((hspec l).1 hl)
      rw [if_neg hend, hr, hr', bind_some]
      exact ih (by omega) (by omega)

theorem exists_first {i l : ℕ} (h : Plausible data i l) :
    ∃ k len, Plausible data k len ∧ k ≤ i ∧ ∀ j < k, ∀ l, ¬ Plausible data j l := by
  induction i using Nat.strong_induction_on generalizing l with
  | _ i ih =>
    by_cases hearlier : ∃ j < i, ∃ l, Plausible data j l
    · grind
    · exact ⟨i, l, h, le_rfl, fun j hj l hl => hearlier ⟨j, hj, l, hl⟩⟩

/-! ## The scanner on a hello -/

variable {flow : FlowInfo} {hello : ClientHello} {more : List UInt8}

/-- The flow after a match at `pos`. -/
def FlowInfo.withName (flow : FlowInfo) (pos len : ℕ) : FlowInfo :=
  { flow with https := ⟨true, some ⟨pos, len⟩⟩, clientHello := false }

/-- The payload is whole and begins with the record of the hello. -/
structure FlowInfo.Starts (flow : FlowInfo) (hello : ClientHello) (more : List UInt8) : Prop where
  data : flow.l4Data = hello.encode ++ more
  whole : flow.l4Len = flow.l4Data.length
  fresh : flow.https = ⟨false, none⟩

section

variable (hv : hello.Valid) (hs : flow.Starts hello more)

include hv hs

theorem dpiHttpsProto_eq : 9 ≤ flow.l4Data.length ∧ dpiHttpsProto flow =
        (httpsScan flow.l4Data flow.l4Len flow.l4Len.toNat 0).bind fun
          | .found pos len => some (0, flow.withName pos len)
          | .missed => some (-1, { flow with clientHello := true })
          | .ended => some (-1, flow) := by
  have hlen : 16 ≤ flow.l4Data.length := by
    have hrandom := hv.random
    rw [hs.data]
    simp only [ClientHello.encode, ClientHello.body, length_append, length_bytesOf, hrandom]
    omega
  have hhello : helloAt flow.l4Data = some true := by
    rw [hs.data]
    rfl
  refine ⟨by omega, ?_⟩
  rw [dpiHttpsProto, if_neg (by rw [hs.whole]; omega), hhello]
  rfl

theorem dpiHttpsProto_first {k len : ℕ} (hk : Plausible flow.l4Data k len)
    (hfirst : ∀ j < k, ∀ l, ¬ Plausible flow.l4Data j l) :
    dpiHttpsProto flow = some (0, flow.withName (k + 9) len) := by
  have hscan : httpsScan flow.l4Data flow.l4Len flow.l4Len.toNat 0 = some (.found (k + 9) len) := by
    rw [hs.whole, Int.toNat_natCast]
    exact httpsScan_first hk (Nat.zero_add _) (Nat.zero_le k) fun j _ => hfirst j
  rw [(dpiHttpsProto_eq hv hs).2, hscan]
  rfl

theorem dpiHttpsProto_missed (hnone : ∀ j l, ¬ Plausible flow.l4Data j l) :
    dpiHttpsProto flow = some (-1, { flow with clientHello := true }) := by
  obtain ⟨hlen, heq⟩ := dpiHttpsProto_eq hv hs
  have hscan : httpsScan flow.l4Data flow.l4Len flow.l4Len.toNat 0 = some .missed := by
    rw [hs.whole, Int.toNat_natCast]
    exact httpsScan_missed (Nat.zero_add _) (by omega) hnone
  rw [heq, hscan]
  rfl

end

theorem getElem?_of_drop_append {α : Type*} {l front post : List α} {k j : ℕ}
    (h : l.drop k = front ++ post) (hj : j < front.length) : l[k + j]? = front[j]? := by
  rw [← getElem?_drop, h, getElem?_append_left hj]

theorem encode_serverName {name rest : List UInt8} (h : name.length < 250) :
    (serverName name).encode ++ rest =
      [0, 0, 0, UInt8.ofNat (name.length + 5), 0, UInt8.ofNat (name.length + 3), 0] ++
        (bytesOf 2 name.length ++ (name ++ rest)) := by
  have hsmall {v : ℕ} (hv : v < 256) : bytesOf 2 v = [0, UInt8.ofNat v] := by
    change [UInt8.ofNat (v / 256 % 256), UInt8.ofNat (v % 256)] = _
    rw [Nat.div_eq_of_lt hv, Nat.mod_eq_of_lt hv]
    rfl
  have hlen : (serverName name).data.length = name.length + 5 := by
    simp only [serverName, length_append, length_cons, length_bytesOf]
    omega
  rw [Extension.encode, hlen, hsmall (show name.length + 5 < 256 by omega)]
  simp only [serverName]
  rw [hsmall (show 0 < 256 by decide), hsmall (show name.length + 3 < 256 by omega)]
  rfl

theorem serverName_place {pre post : List Extension} {name : List UInt8}
    (hs : flow.Starts hello more)
    (hext : hello.extensions = some (pre ++ serverName name :: post))
    (hrange : 4 < name.length ∧ name.length ≤ 40) (hchars : ∀ c ∈ name, domainChar c = true)
    (hroom : hello.offset pre + 9 + name.length < flow.l4Data.length) :
    Plausible flow.l4Data (hello.offset pre) name.length ∧
      (flow.l4Data.drop (hello.offset pre + 9)).take name.length = name := by
  obtain ⟨rest, hdrop⟩ : ∃ rest, flow.l4Data.drop (hello.offset pre) =
      (serverName name).encode ++ rest := ⟨_, by rw [hs.data, hello.drop_encode hext]⟩
  rw [encode_serverName (by omega)] at hdrop
  have hlength : flow.l4Data.drop (hello.offset pre + 7) =
      bytesOf 2 name.length ++ (name ++ rest) := by
    rw [← drop_drop, hdrop]
    rfl
  have hname : flow.l4Data.drop (hello.offset pre + 9) = name ++ rest := by
    rw [show hello.offset pre + 9 = hello.offset pre + 7 + 2 from rfl, ← drop_drop, hlength,
      drop_left' (length_bytesOf 2 _)]
  have htake : (flow.l4Data.drop (hello.offset pre + 9)).take name.length = name := by
    rw [hname, take_left]
  refine ⟨⟨⟨?_, ?_⟩, ?_, ?_, ?_, hrange, hroom, ?_⟩, htake⟩
  · have hfirst := @getElem?_of_drop_append _ _ _ _ _ 0 hdrop (show 0 < 7 by decide)
    rwa [Nat.add_zero] at hfirst
  · exact @getElem?_of_drop_append _ _ _ _ _ 1 hdrop (show 1 < 7 by decide)
  · exact @getElem?_of_drop_append _ _ _ _ _ 2 hdrop (show 2 < 7 by decide)
  · rw [@getElem?_of_drop_append _ _ _ _ _ 3 hdrop (show 3 < 7 by decide)]
    intro h
    have hlow := congrArg UInt8.toNat (some.inj h)
    rw [UInt8.toNat_ofNat_of_lt' (by rw [show UInt8.size = 256 from rfl]; omega)] at hlow
    exact absurd hlow (Nat.succ_ne_zero _)
  · exact loadNat_of_drop (by omega) hlength (by omega)
  · rw [htake]
    exact hchars

theorem withName_ne_missed (pos len : ℕ) {flow' : FlowInfo} :
    (some (0, flow.withName pos len) : Option (ℤ × FlowInfo)) ≠ some (-1, flow') := by
  intro h
  have hret : (0 : ℤ) = -1 := congrArg Prod.fst (some.inj h)
  exact absurd hret (by decide)

/-- The name of the hello is reported exactly if no place before its extension is plausible, where
    a byte follows it in the payload. Without the extension there is no match exactly if no place
    is plausible. -/
theorem serverName_iff (hv : hello.Valid) (hs : flow.Starts hello more) :
    (∀ pre name post, hello.extensions = some (pre ++ serverName name :: post) →
      4 < name.length ∧ name.length ≤ 40 → (∀ c ∈ name, domainChar c = true) →
      hello.offset pre + 9 + name.length < flow.l4Data.length →
      (flow.l4Data.drop (hello.offset pre + 9)).take name.length = name ∧
        (dpiHttpsProto flow = some (0, flow.withName (hello.offset pre + 9) name.length) ↔
          ∀ i < hello.offset pre, ∀ len, ¬ Plausible flow.l4Data i len)) ∧
    ((∀ es ∈ hello.extensions, ∀ e ∈ es, e.type ≠ 0) →
      (dpiHttpsProto flow = some (-1, { flow with clientHello := true }) ↔
        ∀ i len, ¬ Plausible flow.l4Data i len)) := by
  constructor
  · intro pre name post hext hrange hchars hroom
    obtain ⟨hplace, hname⟩ := serverName_place hs hext hrange hchars hroom
    refine ⟨hname, fun h i hi len hlen => ?_, dpiHttpsProto_first hv hs hplace⟩
    obtain ⟨k, l, hk, hki, hfirst⟩ := exists_first hlen
    rw [dpiHttpsProto_first hv hs hk hfirst] at h
    have hpos : k + 9 = hello.offset pre + 9 := by
      have hurl := congrArg (fun r : ℤ × FlowInfo => r.2.https.url) (some.inj h)
      exact congrArg Span.pos (some.inj hurl)
    omega
  · intro _
    refine ⟨fun h i len hlen => ?_, dpiHttpsProto_missed hv hs⟩
    obtain ⟨k, l, hk, -, hfirst⟩ := exists_first hlen
    rw [dpiHttpsProto_first hv hs hk hfirst] at h
    exact withName_ne_missed _ _ h

def smallHello (sessionId : List UInt8) (extensions : Option (List Extension)) : ClientHello where
  minor := 0x01
  version := 0x0303
  random := List.replicate 32 0x5a
  sessionId := sessionId
  cipherSuites := [0x13, 0x01]
  compression := [0x00]
  extensions := extensions

def FlowInfo.tls (hello : ClientHello) : FlowInfo :=
  .fresh 6 0xc000 443 hello.encode hello.encode.length

theorem starts_tls (hello : ClientHello) : (FlowInfo.tls hello).Starts hello [] :=
  ⟨(append_nil _).symm, rfl, rfl⟩

def namedHello : ClientHello :=
  smallHello [] (some [serverName [0x61, 0x2e, 0x62, 0x63, 0x64], ⟨0x17, []⟩])

theorem serverName_iff_named :
    (((FlowInfo.tls namedHello).l4Data.drop 61).take 5 = [0x61, 0x2e, 0x62, 0x63, 0x64]) ∧
      (dpiHttpsProto (.tls namedHello) = some (0, (FlowInfo.tls namedHello).withName 61 5) ↔
        ∀ i < 52, ∀ len, ¬ Plausible (FlowInfo.tls namedHello).l4Data i len) :=
  (@serverName_iff (.tls namedHello) namedHello []
    ⟨by decide, by decide, by decide, by decide, by decide, by decide, by decide, by decide⟩
    (starts_tls _)).1 [] [0x61, 0x2e, 0x62, 0x63, 0x64] [⟨0x17, []⟩] rfl (by decide)
    (List.all_eq_true.1 rfl) (by decide)

/-- A hello without the extension, whose session id looks like one. -/
def imitatingHello : ClientHello :=
  smallHello [0, 0, 0, 1, 0, 0, 0, 0, 5, 0x61, 0x62, 0x63, 0x64, 0x65] none

theorem sessionId_reported :
    imitatingHello.Valid ∧ (∀ es ∈ imitatingHello.extensions, ∀ e ∈ es, e.type ≠ 0) ∧
      dpiHttpsProto (.tls imitatingHello) = some (0, (FlowInfo.tls imitatingHello).withName 53 5) :=
  ⟨⟨by decide, by decide, by decide, by decide, by decide, by decide, by decide, by decide⟩,
    by decide, by decide⟩

end Apackage.OpenAppFilter.Dpi
