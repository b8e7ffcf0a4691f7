import Apackage.Rtp2httpd.Reorder.Walk

/-
  FEC recovery end to end: from the datagrams in the window and the parities of a group back to the
  payload of the lost packet.

  The parities are computed over the complete datagrams, padded with zeros to `rtp_len`. The window
  keeps each datagram with the range of its payload, and `fec_attempt_recovery` rebuilds the
  datagram as the first `data_offset + data_size` bytes: all of it, unless the RTP packet is padded
  (`recovered_payload`). Its own parser of the RTP header checks the extension after adding its
  length, `rtp_get_payload` before; both find the same payload (`header_stripping_agrees`).
-/

namespace Apackage.Rtp2httpd

open List Lib.Serial Lib.Run

/-- The RTP branch of `stream_process_rtp_payload`: the buffer with the range of its payload,
    and the sequence number. `rest` is what the pool buffer holds past the datagram. -/
def rtpBuffer (id : ℕ) (pkt rest : List UInt8) : Option (BufferRef × Seq) :=
  match rtpGetPayload pkt with
  | .rtp start length seqn => some (⟨id, pkt ++ rest, start, length⟩, seqn)
  | _ => none

/-- The payload that `rtp_get_payload` extracts from an RTP packet. -/
def extractedPayload (pkt : List UInt8) : Option (List UInt8) :=
  match rtpGetPayload pkt with
  | .rtp start length _ => some ((pkt.drop start).take length)
  | _ => none

/-- An RTP packet that is not a FEC packet. -/
def IsMedia (pkt : List UInt8) : Prop :=
  12 ≤ pkt.length ∧ byteAt pkt 0 &&& 0xC0 = 0x80 ∧ isFecPayloadType (byteAt pkt 1) = false
  deriving Decidable

/-- Padding at the end of an RTP packet: its last byte, if the padding bit is set. -/
def rtpPadding (pkt : List UInt8) : ℕ :=
  if byteAt pkt 0 &&& 0x20 ≠ 0 then (byteAt pkt (pkt.length - 1)).toNat else 0

/-- Sequence number of packet `i` of a group. -/
def FecGroup.seqOf (g : FecGroup) (i : ℕ) : Seq := g.beginSeq + BitVec.ofNat 16 i

/-- `pkts` is the block of packets of group `g`: what the window holds of its range are these
    packets, and the parities received are the encoding of all of them. -/
structure BlockStored (s : StreamContext) (g : FecGroup) (pkts : ℕ → List UInt8) : Prop where
  media : ∀ i < g.k, IsMedia (pkts i) ∧ (pkts i).length ≤ g.rtpLen
  window : ∀ i < g.k, ∀ ref, rtpReorderGet s.reorder (g.seqOf i) = some ref →
    ∃ id rest q, rtpBuffer id (pkts i) rest = some (ref, q)
  parity : ∀ code, rsFecNew g.k g.m = some code →
    ∀ i : Fin code.m, (g.paritySlot i).received = true → ∀ r < g.rtpLen,
      fecPtr g i r = rsEncode code (fun j => packetOf (pkts j)) i r

/-- Packet `t` of the block, of full length, is missing, and `g` is the group that covers
    it. -/
structure LostPacket (s : StreamContext) (g : FecGroup) (pkts : ℕ → List UInt8) (t : ℕ) : Prop where
  block : BlockStored s g pkts
  covering : s.fec.coveringGroup (g.seqOf t) = some g
  index : t < g.k
  full : (pkts t).length = g.rtpLen
  missing : rtpReorderGet s.reorder (g.seqOf t) = none

def RecoversPayload (s : StreamContext) (g : FecGroup) (pkts : ℕ → List UInt8) (t : ℕ) : Prop :=
  ∀ data, (fecAttemptRecovery (g.seqOf t) s).2 = some data → extractedPayload (pkts t) = some data

/-- No packet of the block that is in the window is padded. -/
def SurvivorsUnpadded (s : StreamContext) (g : FecGroup) (pkts : ℕ → List UInt8) : Prop :=
  ∀ i < g.k, (rtpReorderGet s.reorder (g.seqOf i)).isSome = true → rtpPadding (pkts i) = 0

instance (s : StreamContext) (g : FecGroup) (pkts : ℕ → List UInt8) :
    Decidable (SurvivorsUnpadded s g pkts) := by
  unfold SurvivorsUnpadded
  infer_instance

/-! ## Datagrams in the window -/

variable {pkt : List UInt8}

theorem rtpGetPayload_eq (hm : IsMedia pkt) : rtpGetPayload pkt = match rtpPayloadStart pkt with
      | none => .malformed
      | some start =>
        if start + rtpPadding pkt < pkt.length then
          .rtp start (pkt.length - start - rtpPadding pkt) (BitVec.ofNat 16 (be16 pkt 2))
        else .malformed := by
  obtain ⟨hlen, hver, htype⟩ := hm
  unfold rtpGetPayload
  rw [if_pos ⟨hlen, hver⟩, if_neg (by simp [htype])]
  cases rtpPayloadStart pkt with
  | none => rfl
  | some start =>
    have hpay : (if byteAt pkt 0 &&& 0x20 ≠ 0 then
          (pkt.length : ℤ) - start - (byteAt pkt (pkt.length - 1)).toNat
        else (pkt.length : ℤ) - start) = pkt.length - start - rtpPadding pkt := by
      unfold rtpPadding
      split <;> simp
    dsimp only
    rw [hpay]
    split
    · rw [if_neg (by omega)]
    · rw [if_pos (by omega)]
      congr 1
      omega

theorem rtpGetPayload_end (hm : IsMedia pkt) {start length : ℕ} {q : Seq}
    (h : rtpGetPayload pkt = .rtp start length q) (hpad : rtpPadding pkt = 0) :
    start + length = pkt.length := by
  rw [rtpGetPayload_eq hm] at h
  split at h
  · cases h
  · split at h
    · simp only [RtpPayload.rtp.injEq] at h
      omega
    · cases h

theorem packetOf_append {pkt rest : List UInt8} {r : ℕ} (h : r < pkt.length) :
    packetOf (pkt ++ rest) r = packetOf pkt r := by
  simp [packetOf, getElem?_append_left h]

theorem dataPtr_eq {r : RtpReorder} {g : FecGroup} {i : ℕ} {ref : BufferRef}
    (href : rtpReorderGet r (g.seqOf i) = some ref) {pkt rest : List UInt8} {id : ℕ} {q : Seq}
    (hbuf : rtpBuffer id pkt rest = some (ref, q)) (hm : IsMedia pkt) (hpad : rtpPadding pkt = 0)
    (hlen : pkt.length ≤ g.rtpLen) {b : ℕ} (hb : b < g.rtpLen) :
    dataPtr r g i b = packetOf pkt b := by
  unfold rtpBuffer at hbuf
  split at hbuf
  · rename_i start length seqn hget
    obtain ⟨rfl, -⟩ := hbuf
    have hend := rtpGetPayload_end hm hget hpad
    rw [FecGroup.seqOf] at href
    simp only [dataPtr, href, hend]
    split
    · rw [take_left]
    · exact packetOf_append (by omega)
  · cases hbuf

/-! ## Parsing the recovered packet -/

/-- The header of the recovered packet is parsed as `rtp_get_payload` does. -/
theorem recoveredHeaderLen_eq (p : List UInt8) :
    recoveredHeaderLen p.length (packetOf p) = rtpPayloadStart p := by
  have hbyte : ∀ i, packetOf p i = byteAt p i := fun _ => rfl
  simp only [recoveredHeaderLen, rtpPayloadStart, hbyte]
  generalize 12 + (byteAt p 0 &&& 0x0F).toNat * 4 = hdr
  split
  · rfl
  · split
    · split
      · rfl
      · rw [show (byteAt p (hdr + 2)).toNat * 256 + (byteAt p (hdr + 3)).toNat =
          be16 p (hdr + 2) from rfl]
        split
        · rw [if_pos (by omega)]
        · rw [if_neg (by omega)]
    · rfl

theorem map_range_packetOf {p : List UInt8} {start n : ℕ} (h : start + n ≤ p.length) :
    (List.range n).map (fun j => packetOf p (start + j)) = (p.drop start).take n := by
  apply ext_getElem
  · simp
    omega
  · intro i h1 h2
    simp only [length_map, length_range] at h1
    have : start + i < p.length := by omega
    simp [packetOf, this]

theorem recoveredRange_eq {p : List UInt8} (hm : IsMedia p)
    (hmax : p.length ≤ bufferPoolBufferSize) :
    recoveredRange p.length (packetOf p) = match rtpPayloadStart p with
      | none => none
      | some start =>
        if start + rtpPadding p < p.length then some (start, p.length - start - rtpPadding p)
        else none := by
  have hver : packetOf p 0 &&& 0xC0 = 0x80 := hm.2.1
  have hlen := hm.1
  unfold recoveredRange
  rw [if_neg (by omega), hver, if_neg (by simp), recoveredHeaderLen_eq]
  cases rtpPayloadStart p with
  | none => rfl
  | some start =>
    have hpay : (if packetOf p 0 &&& 0x20 ≠ 0 then
          (p.length : ℤ) - start - (packetOf p (p.length - 1)).toNat
        else (p.length : ℤ) - start) = p.length - start - rtpPadding p := by
      unfold rtpPadding
      show (if byteAt p 0 &&& 0x20 ≠ 0 then _ else _) = _
      split
      · rfl
      · rw [Nat.cast_zero, sub_zero]
    dsimp only
    rw [hpay]
    split
    · rw [if_neg (by omega)]
    · rw [if_pos (by omega)]
      congr 2
      omega

theorem recoveredPayload_eq {p : List UInt8} (hm : IsMedia p) {data : List UInt8}
    (h : recoveredPayload p.length (packetOf p) = some data) : extractedPayload p = some data := by
  rw [recoveredPayload_range] at h
  obtain ⟨⟨start, length⟩, hrange, rfl⟩ := Option.map_eq_some_iff.1 h
  have hmax : p.length ≤ bufferPoolBufferSize := by
    by_contra hlong
    rw [recoveredRange, if_pos (by omega)] at hrange
    cases hrange
  rw [recoveredRange_eq hm hmax] at hrange
  rw [extractedPayload, rtpGetPayload_eq hm]
  cases hstart : rtpPayloadStart p with
  | none => simp [hstart] at hrange
  | some first =>
    rw [hstart] at hrange
    dsimp only at hrange ⊢
    split at hrange
    · rename_i hpad
      obtain ⟨rfl, rfl⟩ := Prod.mk.inj (Option.some_inj.1 hrange)
      rw [if_pos hpad]
      dsimp only
      rw [map_range_packetOf (by omega)]
    · cases hrange

theorem recoveredHeaderLen_congr {n : ℕ} {a b : Packet} (h : ∀ r < n, a r = b r) (hn : 12 ≤ n) :
    recoveredHeaderLen n a = recoveredHeaderLen n b := by
  simp only [recoveredHeaderLen, h 0 (by omega)]
  split
  · rfl
  · split
    · split
      · rfl
      · rw [h _ (by omega), h _ (by omega)]
    · rfl

theorem recoveredPayload_congr {n : ℕ} {a b : Packet} (h : ∀ r < n, a r = b r) :
    recoveredPayload n a = recoveredPayload n b := by
  unfold recoveredPayload
  split
  · rfl
  · rename_i hn
    rw [h 0 (by omega), recoveredHeaderLen_congr h (by omega)]
    split
    · rfl
    · cases hhdr : recoveredHeaderLen n b with
      | none => rfl
      | some hdr =>
        dsimp only
        rw [h (n - 1) (by omega)]
        have hpay : (if b 0 &&& 0x20 ≠ 0 then (n : ℤ) - hdr - (b (n - 1)).toNat
            else (n : ℤ) - hdr) ≤ n - hdr := by
          split <;> omega
        revert hpay
        generalize (if b 0 &&& 0x20 ≠ 0 then (n : ℤ) - hdr - (b (n - 1)).toNat
          else (n : ℤ) - hdr) = len
        intro hpay
        split
        · rfl
        · refine congrArg some (map_congr_left (fun j hj => h _ ?_))
          rw [mem_range] at hj
          omega

/-! ## The cached decoder -/

/-- A cached decoder is the one for its numbers of packets. -/
def DecoderOk (f : FecContext) : Prop :=
  ∀ code, f.rsDecoder = some code → rsFecNew f.rsK f.rsM = some code

/-- `rs_decoder`, `rs_k` and `rs_m`. -/
def FecContext.decoderCache (f : FecContext) : Option RsFec × ℕ × ℕ := (f.rsDecoder, f.rsK, f.rsM)

theorem DecoderOk.congr {f f' : FecContext} (h : DecoderOk f)
    (hc : f'.decoderCache = f.decoderCache) : DecoderOk f' := by
  simp only [FecContext.decoderCache, Prod.mk.injEq] at hc
  obtain ⟨h1, h2, h3⟩ := hc
  intro code hcode
  rw [h2, h3]
  exact h code (h1 ▸ hcode)

theorem rsFecNew_size {k m : ℕ} {code : RsFec} (h : rsFecNew k m = some code) :
    code.k = k ∧ code.m = m := by
  unfold rsFecNew at h
  split at h
  · cases h
    exact ⟨rfl, rfl⟩
  · split at h
    · cases h
    · cases h
      exact ⟨rfl, rfl⟩

theorem decoderFor_ok {f : FecContext} (h : DecoderOk f) (g : FecGroup) :
    DecoderOk (decoderFor f g) ∧
      ∀ code, (decoderFor f g).rsDecoder = some code → rsFecNew g.k g.m = some code := by
  unfold decoderFor
  split
  · split
    · exact ⟨by simp [DecoderOk], by simp⟩
    · rename_i hnew
      constructor <;> intro code hc <;> cases hc <;> exact hnew
  · rename_i hcached
    push Not at hcached
    obtain ⟨-, hk, hm⟩ := hcached
    exact ⟨h, fun code hc => hk ▸ hm ▸ h code hc⟩

theorem fecRecalcMinEndSeq_cache (f : FecContext) :
    (fecRecalcMinEndSeq f).decoderCache = f.decoderCache := by
  unfold fecRecalcMinEndSeq
  generalize f.groupList = l
  suffices h : ∀ f : FecContext, (l.foldl lowerMin f).decoderCache = f.decoderCache from h _
  induction l with
  | nil => exact fun _ => rfl
  | cons g l ih =>
    intro f
    rw [foldl_cons, ih, lowerMin]
    split <;> rfl

theorem freeGroup_cache (s : StreamContext) (i : ℕ) :
    (s.freeGroup i).fec.decoderCache = s.fec.decoderCache := by
  simp [StreamContext.freeGroup, StreamContext.setGroup, FecContext.decoderCache]

theorem foldl_releaseExpiredOne_cache (b : Seq) (l : List ℕ) (s : StreamContext) :
    (l.foldl (releaseExpiredOne b) s).fec.decoderCache = s.fec.decoderCache := by
  induction l generalizing s with
  | nil => rfl
  | cons i l ih =>
    rw [foldl_cons, ih, releaseExpiredOne]
    split
    · exact freeGroup_cache s i
    · rfl

theorem releaseExpired_cache (s : StreamContext) :
    (releaseExpired s).fec.decoderCache = s.fec.decoderCache := by
  rw [releaseExpired]
  split
  · rw [fecReleaseExpiredGroups]
    split
    · rfl
    · rw [fecRecalcMinEndSeq_cache, foldl_releaseExpiredOne_cache]
  · rfl

variable (conn : Conn)

theorem flushConsecutive_cache (s : StreamContext) :
    (flushConsecutive conn s).fec.decoderCache = s.fec.decoderCache := by
  rw [flushConsecutive, releaseExpired_cache]
  refine iterWhile_inv (P := fun t : StreamContext => t.fec.decoderCache = s.fec.decoderCache)
    (fun t ht hc => ?_) rfl _
  rw [(flushBody_fields conn _ hc).2.2.2.2, ht]

theorem makeRoom_cache (q : Seq) (s : StreamContext) :
    (makeRoom conn q s).fec.decoderCache = s.fec.decoderCache := by
  rw [makeRoom]
  split
  · refine iterWhile_inv (P := fun t : StreamContext => t.fec.decoderCache = s.fec.decoderCache)
      (fun t ht _ => ?_) rfl _
    rw [← ht, forceFlushBody]
    split <;> rfl
  · rfl

variable {s : StreamContext}

theorem recoverFrom_decoder (h : DecoderOk s.fec) (g : FecGroup) (t : ℕ) :
    DecoderOk (recoverFrom g t s).1.fec := by
  have hd := (decoderFor_ok h g).1
  unfold recoverFrom
  dsimp only
  split
  · exact hd
  · split
    · simpa using hd
    · split
      · simpa using hd
      · exact DecoderOk.congr hd (by simp [FecContext.decoderCache])

theorem attemptRecovery_decoder (h : DecoderOk s.fec) (q : Seq) :
    DecoderOk (fecAttemptRecovery q s).1.fec := by
  simp only [fecAttemptRecovery]
  repeat' split
  all_goals first | exact h | exact recoverFrom_decoder h _ _

theorem insertActive_decoder (h : DecoderOk s.fec) (conn : Conn) (buf : BufferRef) (q : Seq) :
    DecoderOk (insertActive conn buf q s).fec := by
  rw [insertActive]
  split
  · rw [insertExpected]
    split
    · exact h
    · exact h.congr (flushConsecutive_cache conn _)
  · split
    · exact h
    · have hm := h.congr (makeRoom_cache conn q s)
      rw [insertAhead]
      split
      · exact hm
      · rw [recoverHead]
        split
        · have hrec := attemptRecovery_decoder (s := (makeRoom conn q s).storePacket buf q) hm
            ((makeRoom conn q s).storePacket buf q).base
          split
          · rename_i hres
            rw [hres] at hrec
            exact hrec
          · rename_i t data hres
            rw [hres] at hrec
            refine hrec.congr ((flushConsecutive_cache conn _).trans ?_)
            rw [deliverRecovered]
            split <;> rfl
        · exact hm

theorem findOrCreate_cache (fr : FecFrame) (s : StreamContext) :
    (fecFindOrCreateGroup fr s).1.fec.decoderCache = s.fec.decoderCache := by
  have hinit : ∀ (t : StreamContext) i ev,
      (initGroup t fr i ev).fec.decoderCache = t.fec.decoderCache := by
    intro t i ev
    simp only [initGroup]
    split
    · rfl
    · split
      · exact fecRecalcMinEndSeq_cache _
      · rfl
  unfold fecFindOrCreateGroup
  split
  · rfl
  dsimp only
  split
  · rfl
  refine (hinit _ _ _).trans ?_
  rw [claimGroup]
  split
  · rfl
  · exact freeGroup_cache _ _

theorem decoderOk_step (h : DecoderOk s.fec) (conn : Conn) (e : Input) :
    DecoderOk (streamStep conn s e).fec := by
  cases e with
  | fecPacket data =>
    rw [streamStep]
    split
    · unfold fecProcessPacket
      split
      · exact h
      · rename_i fr _
        have hfind := findOrCreate_cache fr { s with fec := { s.fec with fecActive := true } }
        dsimp only
        split
        · rename_i hres
          rw [hres] at hfind
          exact h.congr hfind
        · rename_i t i hres
          rw [hres] at hfind
          refine h.congr (Eq.trans ?_ hfind)
          simp only [storeParity]
          split <;> rfl
    · exact h
  | rtp buf q =>
    rw [streamStep]
    cases hp : s.reorder.phase with
    | notStarted =>
      rw [insert_of_notStarted hp]
      exact h
    | collecting =>
      have hc : (collectPacket buf q s.resetBytes).fec = s.fec := by
        rw [collectPacket_eq]
        split <;> rfl
      rw [insert_of_collecting hp]
      split
      · refine h.congr ((flushConsecutive_cache conn _).trans ?_)
        exact congrArg FecContext.decoderCache hc
      · rw [hc]
        exact h
    | active =>
      rw [insert_of_active hp]
      exact insertActive_decoder (s := s.resetBytes) h conn buf q

theorem decoderOk_run (useFec : Bool) (port : BitVec 16) (es : List Input) :
    DecoderOk (run (streamStep conn) (.init useFec (fecInit port)) es).fec := by
  have h0 : DecoderOk (StreamContext.init useFec (fecInit port)).fec := by
    simp [DecoderOk, StreamContext.init, fecInit, FecContext.zero]
  induction es using List.reverseRecOn with
  | nil => exact h0
  | append_singleton es e ih =>
    rw [run, foldl_append]
    exact decoderOk_step ih conn e

/-! ## Recovery -/

theorem decodeTarget_eq {g : FecGroup} {pkts : ℕ → List UInt8} {t : ℕ} (h : LostPacket s g pkts t)
    (hpad : SurvivorsUnpadded s g pkts) {code : RsFec} (hcode : rsFecNew g.k g.m = some code)
    {data : List UInt8} (hdata : decodeTarget code s.reorder g t = some data) :
    recoveredPayload g.rtpLen (packetOf (pkts t)) = some data := by
  obtain ⟨hk, hm⟩ := rsFecNew_size hcode
  have hf : FlagMap (code.k + code.m) (lostMap s.reorder g) := by
    intro i _
    unfold lostMap
    split <;> split <;> simp
  have he : Encoded code (fun j => packetOf (pkts j)) (fun i => dataPtr s.reorder g i)
      (fun i => fecPtr g i) (lostMap s.reorder g) g.rtpLen := by
    constructor
    · intro i hi r hr
      have hik : i.val < g.k := by omega
      rw [lostMap, if_pos hik] at hi
      have hsome : (rtpReorderGet s.reorder (g.seqOf i)).isSome = true := by
        by_contra hnone
        rw [FecGroup.seqOf] at hnone
        simp [hnone] at hi
      obtain ⟨ref, href⟩ := Option.isSome_iff_exists.mp hsome
      obtain ⟨id, rest, q, hbuf⟩ := h.block.window i hik ref href
      exact dataPtr_eq href hbuf (h.block.media i hik).1 (hpad i hik hsome)
        (h.block.media i hik).2 hr
    · intro i hi r hr
      rw [lostMap, if_neg (by omega)] at hi
      have hrec : (g.paritySlot i).received = true := by
        grind
      exact h.block.parity code hcode i hrec r hr
  unfold decodeTarget at hdata
  split at hdata
  · cases hdata
  · rename_i out hout
    split at hdata
    · rename_i ht
      have hlost : lostMap s.reorder g t ≠ 1 := by
        have hmiss := h.missing
        rw [FecGroup.seqOf] at hmiss
        simp [lostMap, h.index, hmiss]
      have horig : ∀ r < g.rtpLen, out ⟨t, ht⟩ r = packetOf (pkts t) r := by
        intro r hr
        rw [(rsFecDecode_eq_some hf he hout).2, if_pos ⟨hlost, hr⟩]
      rw [← hdata]
      exact (recoveredPayload_congr horig).symm
    · cases hdata

theorem seqDiff_seqOf (g : FecGroup) {t : ℕ} (h : t < 32768) : seqDiff (g.seqOf t) g.beginSeq = t := by
  have ha : ahead g.beginSeq (g.seqOf t) = t := ahead_add g.beginSeq (by omega)
  rw [seqDiff_eq, ha, if_pos h]

/-- In every state of every run: if no packet of the group that is in the window is padded,
    what recovery returns for a lost packet of full length is the payload that
    `rtp_get_payload` extracts from it. -/
theorem recovered_payload (conn : Conn) (useFec : Bool) (port : BitVec 16) (es : List Input)
    {g : FecGroup} {pkts : ℕ → List UInt8} {t : ℕ}
    (h : LostPacket (run (streamStep conn) (.init useFec (fecInit port)) es) g pkts t)
    (hpad : SurvivorsUnpadded (run (streamStep conn) (.init useFec (fecInit port)) es) g pkts) :
    RecoversPayload (run (streamStep conn) (.init useFec (fecInit port)) es) g pkts t := by
  have hdec := decoderOk_run conn useFec port es
  generalize run (streamStep conn) (.init useFec (fecInit port)) es = s at *
  intro data hdata
  simp only [fecAttemptRecovery, h.covering] at hdata
  split at hdata
  · cases hdata
  split at hdata
  · cases hdata
  rename_i hsize
  have hle := windowSize_le s
  have ht := h.index
  rw [seqDiff_seqOf g (by omega), h.missing] at hdata
  split at hdata
  · cases hdata
  dsimp only at hdata
  split at hdata
  · cases hdata
  rw [Int.toNat_natCast] at hdata
  unfold recoverFrom at hdata
  dsimp only at hdata
  split at hdata
  · cases hdata
  rename_i code hcode
  split at hdata
  · cases hdata
  split at hdata
  · cases hdata
  rename_i data' hdata'
  cases hdata
  have hreorder : ({ s with fec := decoderFor s.fec g }.logSlots g
      g.parityIterations).reorder = s.reorder := by
    rw [logSlots_trace]
  rw [hreorder] at hdata'
  have hpay := decodeTarget_eq h hpad ((decoderFor_ok hdec g).2 code hcode) hdata'
  rw [← h.full] at hpay
  exact recoveredPayload_eq (h.block.media t h.index).1 hpay

/-! ## A block of two -/

/-- Packet 1: two bytes of payload, 7 and 9. -/
def firstOfTwo : List UInt8 := [0x80, 33, 0, 1, 0, 0, 0, 0, 0, 0, 0, 0, 7, 9]

/-- Packet 2: two bytes, the last of them padding if the flags say so. -/
def secondOfTwo (flags : UInt8) : List UInt8 := [flags, 33, 0, 2, 0, 0, 0, 0, 0, 0, 0, 0, 5, 1]

def blockOfTwo (flags : UInt8) (i : ℕ) : List UInt8 :=
  if i = 0 then firstOfTwo else secondOfTwo flags

/-- The parity of the block; the row of the generator is 2, 3. -/
def parityOfTwo (flags : UInt8) : List UInt8 :=
  [if flags = 0x80 then 128 else 224, 33, 0, 4, 0, 0, 0, 0, 0, 0, 0, 0, 1, 17]

/-- The parity arrives, then packet 2. -/
def runOfTwo (flags : UInt8) : List Input :=
  [.fecPacket ([0x80, 127, 0, 0, 0, 0, 0, 0, 0, 0, 0, 0, 0, 1, 0, 2, 1, 0, 0, 14, 0, 14, 0, 0] ++
      parityOfTwo flags),
    .rtp ⟨2, secondOfTwo flags, 12, 2 - rtpPadding (secondOfTwo flags)⟩ 2]

def stateOfTwo (flags : UInt8) : StreamContext :=
  run (streamStep (fun _ => 0)) (.init true (fecInit 1)) (runOfTwo flags)

def groupOfTwo (flags : UInt8) : FecGroup := ⟨1, 2, 2, 1, 14, 1, some [⟨parityOfTwo flags, true⟩]⟩

theorem lostPacket_two {flags : UInt8} (h : flags ∈ ([0x80, 0xA0] : List UInt8)) :
    LostPacket (stateOfTwo flags) (groupOfTwo flags) (blockOfTwo flags) 0 := by
  have hall : ∀ flags ∈ ([0x80, 0xA0] : List UInt8),
      (∀ i < 2, IsMedia (blockOfTwo flags i) ∧ (blockOfTwo flags i).length ≤ 14) ∧
      rtpReorderGet (stateOfTwo flags).reorder 1 = none ∧
      rtpReorderGet (stateOfTwo flags).reorder 2 =
        some ⟨2, secondOfTwo flags, 12, 2 - rtpPadding (secondOfTwo flags)⟩ ∧
      rtpBuffer 2 (secondOfTwo flags) [] =
        some (⟨2, secondOfTwo flags, 12, 2 - rtpPadding (secondOfTwo flags)⟩, 2) ∧
      (∀ code, rsFecNew 2 1 = some code → ∀ i : Fin code.m,
        ((groupOfTwo flags).paritySlot i).received = true → ∀ r < 14,
          fecPtr (groupOfTwo flags) i r =
            rsEncode code (fun j => packetOf (blockOfTwo flags j)) i r) ∧
      (stateOfTwo flags).fec.coveringGroup 1 = some (groupOfTwo flags) := by
    decide +kernel
  obtain ⟨hmedia, hfirst, hsecond, hbuf, hparity, hcover⟩ := hall flags h
  refine ⟨⟨hmedia, ?_, hparity⟩, hcover, Nat.zero_lt_two, rfl, hfirst⟩
  intro i hi ref href
  have hi : i = 0 ∨ i = 1 := by
    simp only [groupOfTwo] at hi
    omega
  rcases hi with rfl | rfl
  · cases hfirst.symm.trans href
  · cases hsecond.symm.trans href
    exact ⟨2, [], 2, hbuf⟩

/-- Without padding packet 1 comes back. -/
theorem recovered_payload_two : (fecAttemptRecovery 1 (stateOfTwo 0x80)).2 = some [7, 9] ∧
      RecoversPayload (stateOfTwo 0x80) (groupOfTwo 0x80) (blockOfTwo 0x80) 0 :=
  ⟨by decide +kernel, recovered_payload (fun _ => 0) true 1 (runOfTwo 0x80)
    (lostPacket_two (by decide)) (by decide)⟩

/-- With one byte of padding on packet 2, packet 1 comes back with a wrong byte. -/
theorem recovered_payload_padded :
    LostPacket (stateOfTwo 0xA0) (groupOfTwo 0xA0) (blockOfTwo 0xA0) 0 ∧
      ¬ RecoversPayload (stateOfTwo 0xA0) (groupOfTwo 0xA0) (blockOfTwo 0xA0) 0 := by
  refine ⟨lostPacket_two (by decide), fun h => ?_⟩
  have hdata : (fecAttemptRecovery 1 (stateOfTwo 0xA0)).2 = some [7, 134] := by decide +kernel
  have hpay := h _ hdata
  exact absurd hpay (by decide)

/-! ## The two parsers of the header -/

/-- Both parsers reject a packet, or both find the same payload, which lies in the packet and is
    not empty. -/
theorem header_stripping_agrees (p : List UInt8) (hm : IsMedia p)
    (hmax : p.length ≤ bufferPoolBufferSize) :
    rtpGetPayload p = .malformed ∧ recoveredRange p.length (packetOf p) = none ∨
      ∃ start length seqn, rtpGetPayload p = .rtp start length seqn ∧
        recoveredRange p.length (packetOf p) = some (start, length) ∧
        start + length ≤ p.length ∧ 0 < length := by
  rw [rtpGetPayload_eq hm, recoveredRange_eq hm hmax]
  cases rtpPayloadStart p with
  | none => exact .inl ⟨rfl, rfl⟩
  | some start =>
    dsimp only
    by_cases h : start + rtpPadding p < p.length
    · rw [if_pos h, if_pos h]
      exact .inr ⟨_, _, _, rfl, rfl, by omega, by omega⟩
    · rw [if_neg h, if_neg h]
      exact .inl ⟨rfl, rfl⟩

/-- A packet with one CSRC entry, an empty extension and two bytes of padding. -/
theorem header_stripping_agrees_padded : ∃ start length seqn,
      rtpGetPayload [0xB1, 33, 0, 7, 0, 0, 0, 0, 0, 0, 0, 0, 0, 0, 0, 0, 0, 0, 0, 0, 71, 0, 2] =
        .rtp start length seqn ∧
      recoveredRange 23 (packetOf
        [0xB1, 33, 0, 7, 0, 0, 0, 0, 0, 0, 0, 0, 0, 0, 0, 0, 0, 0, 0, 0, 71, 0, 2]) =
          some (start, length) ∧
      start + length ≤ 23 ∧ 0 < length :=
  (header_stripping_agrees
    [0xB1, 33, 0, 7, 0, 0, 0, 0, 0, 0, 0, 0, 0, 0, 0, 0, 0, 0, 0, 0, 71, 0, 2] (by decide)
    (by decide)).resolve_left fun h => absurd h.1 (by decide)

end Apackage.Rtp2httpd
