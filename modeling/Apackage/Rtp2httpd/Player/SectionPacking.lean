import Apackage.Rtp2httpd.Player.Sections

/-
  Sections packed into packets, and what the demuxer makes of them.

  `Packing rest packets starts` says that the packets carry the sections `starts`, after the last
  bytes `rest` of a section that was begun before; a `SectionStart` tells how many bytes of the
  section its first packet holds. The demuxer owes the section in progress (`Owes`). Every section
  of which the length was read right is handed over once and in order, and no other
  (`sectionsOf_eq_iff`).
-/

namespace Apackage.Rtp2httpd.Player

open Function List Option Lib Lib.Run SectionSlices

def sectionLength (bytes : List UInt8) : ℕ :=
  ((bytes[1]?.getD 0).toNat &&& 0x0f) <<< 8 ||| (bytes[2]?.getD 0).toNat

structure PsiSection where
  bytes : List UInt8
  tableId_ne : bytes[0]? ≠ some 0xff
  length_eq : bytes.length = sectionLength bytes + 3

/-- A section of which the first packet holds the first `shown` bytes. -/
structure SectionStart extends PsiSection where
  shown : ℕ
  shown_pos : 0 < shown
  shown_le : shown ≤ bytes.length

/-- The bytes behind the pointed place: sections, the last one perhaps continued in the next
    packet, or stuffing behind them. -/
inductive Begins : List UInt8 → List SectionStart → List UInt8 → Prop
  | stuffing (n : ℕ) : Begins (List.replicate n 0xff) [] []
  | cut (s : SectionStart) (front rest : List UInt8) : s.bytes = front ++ rest →
      s.shown = front.length → rest ≠ [] → Begins front [s] rest
  | whole (s : SectionStart) {body rest : List UInt8} {starts : List SectionStart} :
      s.shown = s.bytes.length → Begins body starts rest →
      Begins (s.bytes ++ body) (s :: starts) rest

/-- The packet has this start indicator and this payload. -/
def TsPacket.Carries (p : TsPacket) (indicator : ℕ) (bytes : List UInt8) : Prop :=
  p.payloadUnitStartIndicator = indicator ∧
    ∃ start < 188, p.tsPayloadStartIndex = some start ∧ p.payload start = bytes

inductive Packing : List UInt8 → List TsPacket → List SectionStart → Prop
  | done : Packing [] [] []
  | noPayload {p : TsPacket} {rest : List UInt8} {packets : List TsPacket}
      {starts : List SectionStart} : p.tsPayloadStartIndex = none →
      Packing rest packets starts → Packing rest (p :: packets) starts
  /-- The section goes on behind the packet. -/
  | continued {p : TsPacket} {bytes rest : List UInt8} {packets : List TsPacket}
      {starts : List SectionStart} : p.Carries 0 bytes → rest ≠ [] →
      Packing rest packets starts → Packing (bytes ++ rest) (p :: packets) starts
  /-- The section ends and no other starts. -/
  | ended {p : TsPacket} {rest : List UInt8} {n : ℕ} {packets : List TsPacket}
      {starts : List SectionStart} : p.Carries 0 (rest ++ List.replicate n 0xff) →
      Packing [] packets starts → Packing rest (p :: packets) starts
  | started {p : TsPacket} {pointer : UInt8} {rest body rest' : List UInt8}
      {packets : List TsPacket} {here starts : List SectionStart} :
      p.Carries 1 (pointer :: (rest ++ body)) → pointer.toNat = rest.length →
      Begins body here rest' → Packing rest' packets starts →
      Packing rest (p :: packets) (here ++ starts)

/-! ## The length field -/

theorem sectionLength_eq (bytes : List UInt8) :
    sectionLength bytes = (bytes[1]?.getD 0).toNat % 16 * 256 + (bytes[2]?.getD 0).toNat := by
  have hlow : (bytes[2]?.getD 0).toNat < 2 ^ 8 := UInt8.toNat_lt _
  have hmask : (bytes[1]?.getD 0).toNat &&& 0x0f = (bytes[1]?.getD 0).toNat % 16 :=
    Nat.and_two_pow_sub_one_eq_mod _ 4
  rw [sectionLength, ← Nat.shiftLeft_add_eq_or_of_lt hlow, hmask, Nat.shiftLeft_eq]

/-- The packet in which the section starts shows its length: it holds the three bytes of the
    header, or what it lacks of them is 0. -/
def HeaderShown (s : SectionStart) : Prop :=
  3 ≤ s.shown ∨ s.bytes.length = 3 ∨ s.shown = 2 ∧ s.bytes[2]? = some 0
  deriving Decidable

theorem sectionLength_append {front : List UInt8} (h : 3 ≤ front.length) (rest : List UInt8) :
    sectionLength (front ++ rest) = sectionLength front := by
  rw [sectionLength, sectionLength, getElem?_append_left (by omega),
    getElem?_append_left (by omega)]

theorem length_ge (s : PsiSection) : 3 ≤ s.bytes.length := by
  rw [s.length_eq]
  exact Nat.le_add_left 3 _

variable {s : SectionStart}

theorem sectionLength_front {front rest : List UInt8} (hs : s.bytes = front ++ rest)
    (hshown : s.shown = front.length) :
    sectionLength front + 3 ≤ s.bytes.length ∧
      (sectionLength front + 3 = s.bytes.length ↔ HeaderShown s) := by
  have hlen := s.length_eq
  unfold HeaderShown
  by_cases h3 : 3 ≤ front.length
  · have heq : sectionLength s.bytes = sectionLength front := by rw [hs, sectionLength_append h3]
    refine ⟨by omega, iff_of_true (by omega) (.inl (by omega))⟩
  · rw [sectionLength_eq] at hlen ⊢
    have hnone : front[2]? = none := getElem?_eq_none (by omega)
    obtain ⟨low, hlow⟩ : ∃ low, s.bytes[2]? = some low := ⟨_, getElem?_eq_getElem (by omega)⟩
    have hzero : low.toNat = 0 ↔ low = 0 := UInt8.toNat_inj (b := 0)
    rw [hlow, getD_some] at hlen
    rw [hnone, hlow, some_inj, ← hzero, getD_none, UInt8.toNat_zero]
    by_cases h2 : front.length = 2
    · have hfirst : front[1]? = s.bytes[1]? := by rw [hs, getElem?_append_left (by omega)]
      rw [hfirst]
      omega
    · have hfirst : front[1]? = none := getElem?_eq_none (by omega)
      rw [hfirst, getD_none, UInt8.toNat_zero]
      omega

/-! ## One packet -/

/-- What was handed to `parseSection`. -/
def SectionSlices.handed (s : SectionSlices) : List (List UInt8) := s.parsed.map SectionData.data

/-- The queue holds the first bytes of a section of which `e` are expected. -/
def Reading (sliceQueue : Option SliceQueue) (got : List UInt8) (e : ℕ) : Prop :=
  ∃ queue, inProgress sliceQueue = some queue ∧ queue.data = got ∧
    queue.expectedLength = e ∧ got.length < e

section Queue

variable {queue : SliceQueue} {e : ℕ}

section

variable (he : queue.expectedLength = e)

include he

theorem settle_short (hlt : queue.data.length < e) (hne : queue.data ≠ []) (pid : ℕ)
    (s : SectionSlices) :
    Reading (s.settle pid queue).sliceQueue queue.data e ∧
      (s.settle pid queue).handed = s.handed := by
  rw [SliceQueue.length_data] at hlt
  have hpos : queue.totalLength ≠ 0 := by
    rw [← SliceQueue.length_data]
    exact mt length_eq_zero_iff.mp hne
  rw [settle, if_neg (by omega), if_neg (by omega)]
  refine ⟨⟨queue, inProgress_some hpos, rfl, he, ?_⟩, rfl⟩
  rwa [SliceQueue.length_data]

theorem settle_full (hlen : queue.data.length = e) (pid : ℕ) (s : SectionSlices) :
    inProgress (s.settle pid queue).sliceQueue = none ∧
      (s.settle pid queue).handed = s.handed ++ [queue.data] := by
  rw [SliceQueue.length_data] at hlen
  rw [settle, if_pos (by omega)]
  refine ⟨inProgress_clearSlices queue, ?_⟩
  rw [handed, emitSectionSlices, map_append]
  rfl

theorem handed_conclude (pid : ℕ) (s : SectionSlices) : (s.conclude pid queue).handed =
      s.handed ++ if queue.data.length = e then [queue.data] else [] := by
  rw [SliceQueue.length_data, conclude, he]
  by_cases h : queue.totalLength = e
  · rw [if_pos (by omega), if_pos h, handed, emitSectionSlices, map_append]
    rfl
  · rw [if_neg (by omega), if_neg h, append_nil]
    rfl

end

end Queue

section Packet

variable {p : TsPacket} {sliceQueue : Option SliceQueue} {got pay : List UInt8} {e : ℕ}

theorem sectionSlice_noPayload (h : p.tsPayloadStartIndex = none) :
    p.sectionSlice sliceQueue = ⟨sliceQueue, [], []⟩ := by
  rw [TsPacket.sectionSlice, h]

section

variable (hc : p.Carries 0 pay)

include hc

theorem sectionSlice_idle (hq : inProgress sliceQueue = none) :
    p.sectionSlice sliceQueue = ⟨sliceQueue, [], []⟩ := by
  obtain ⟨hpusi, start, -, hstart, -⟩ := hc
  rw [TsPacket.sectionSlice, hstart]
  dsimp only
  rw [handleSectionSlice]
  rw [if_neg (not_not.mpr hpusi), continueSection, hq]

theorem sectionSlice_continue {queue : SliceQueue} (hqueue : inProgress sliceQueue = some queue)
    (he : queue.expectedLength = e) (hgot : queue.data.length < e) :
    ∃ view : ArrayView UInt8, view.toList = pay.take (e - queue.data.length) ∧
      p.sectionSlice sliceQueue =
        (SectionSlices.take view ⟨sliceQueue, [], []⟩).settle p.pid (queue.push view) := by
  obtain ⟨hpusi, start, hlt, hstart, hpay⟩ := hc
  rw [SliceQueue.length_data] at hgot ⊢
  have hlen : pay.length = 188 - start := by rw [← hpay, TsPacket.length_payload hlt.le]
  refine ⟨p.buffer.subarray (p.offset + start : ℕ) ((p.offset + start : ℕ) +
    min (188 - start : ℤ) (queue.expectedLength - queue.totalLength)), ?_, ?_⟩
  · rw [TsPacket.toList_subarray start 0 (min (188 - start) (e - queue.totalLength))
      (Nat.zero_le _) (by omega) (by omega) (by omega), hpay, drop_zero, Nat.sub_zero,
      take_eq_take_min,
      take_eq_take_min (i := e - queue.totalLength), hlen]
    congr 1
    omega
  · rw [TsPacket.sectionSlice, hstart]
    dsimp only
    rw [handleSectionSlice]
    rw [if_neg (not_not.mpr hpusi), continueSection, hqueue]

theorem sectionSlice_full (hr : Reading sliceQueue got e) (h : e ≤ got.length + pay.length) :
    inProgress (p.sectionSlice sliceQueue).sliceQueue = none ∧
      (p.sectionSlice sliceQueue).handed = [(got ++ pay).take e] := by
  obtain ⟨queue, hqueue, rfl, he, hgot⟩ := hr
  obtain ⟨view, hview, heq⟩ := sectionSlice_continue hc hqueue he hgot
  have hdata : (queue.push view).data = (queue.data ++ pay).take e := by
    rw [SliceQueue.data_push, hview, take_append, take_of_length_le hgot.le]
  have hlen : (queue.push view).data.length = e := by
    simp [*]
  have he' : (queue.push view).expectedLength = e := he
  rw [heq, ← hdata]
  exact settle_full he' hlen _ _

theorem sectionSlice_short (hr : Reading sliceQueue got e) (h : got.length + pay.length < e) :
    Reading (p.sectionSlice sliceQueue).sliceQueue (got ++ pay) e ∧
      (p.sectionSlice sliceQueue).handed = [] := by
  obtain ⟨queue, hqueue, rfl, he, hgot⟩ := hr
  obtain ⟨view, hview, heq⟩ := sectionSlice_continue hc hqueue he hgot
  have hdata : (queue.push view).data = queue.data ++ pay := by
    rw [SliceQueue.data_push, hview, take_of_length_le (by omega)]
  have hne : queue.data ≠ [] := by
    have hpos := (inProgress_eq hqueue).2
    rw [← SliceQueue.length_data] at hpos
    exact mt length_eq_zero_iff.mpr hpos
  have he' : (queue.push view).expectedLength = e := he
  rw [heq, ← hdata]
  refine settle_short he' ?_ ?_ _ _
  · rw [hdata, length_append]
    exact h
  · simp [*]

end

end Packet

/-! ## Sections that start in a packet -/

/-- What may be handed over for a section of which `e` bytes are expected. -/
def Result (bytes : List UInt8) (e : ℕ) (l : List (List UInt8)) : Prop :=
  e = bytes.length ∧ l = [bytes] ∨
    e < bytes.length ∧ (l = [] ∨ ∃ front, l = [front] ∧ front.length < bytes.length)

/-- What is handed over for a section, by what its first packet shows. -/
def Outcome (s : SectionStart) (l : List (List UInt8)) : Prop :=
  HeaderShown s ∧ l = [s.bytes] ∨
    ¬ HeaderShown s ∧ (l = [] ∨ ∃ front, l = [front] ∧ front.length < s.bytes.length)

/-- With `rest` still to come of the section in progress, what will be handed over for it meets
    `O`. -/
def Owes (sliceQueue : Option SliceQueue) (rest : List UInt8)
    (O : List (List UInt8) → Prop) : Prop :=
  inProgress sliceQueue = none ∧ O [] ∨
    ∃ got e, Reading sliceQueue got e ∧ rest ≠ [] ∧ e ≤ (got ++ rest).length ∧
      ∀ l, Result (got ++ rest) e l → O l

theorem outcome_of_result {front rest : List UInt8} (hs : s.bytes = front ++ rest)
    (hshown : s.shown = front.length) {l : List (List UInt8)}
    (h : Result s.bytes (sectionLength front + 3) l) : Outcome s l := by
  have hfront := (sectionLength_front hs hshown).2
  obtain ⟨he, hl⟩ | ⟨he, hl⟩ := h
  · exact .inl ⟨hfront.mp he, hl⟩
  · exact .inr ⟨fun hshown => absurd (hfront.mpr hshown) (Nat.ne_of_lt he), hl⟩

section Starts

variable {p : TsPacket} {start : ℕ} (misc : TSSliceMisc)

variable {i : ℕ}

section

variable {bytes : List UInt8} (h : start ≤ 188) (hbytes : (p.payload start).drop i = bytes)

include h hbytes

theorem get?_data (k : ℕ) : (p.data start).get? (i + k) = bytes[k]? := by
  rw [ArrayView.get?, TsPacket.toList_data h, ← hbytes, getElem?_drop]

theorem sectionLengthAt_data : sectionLengthAt (p.data start) i = sectionLength bytes := by
  rw [sectionLengthAt, get?_data h hbytes, get?_data h hbytes, sectionLength]

theorem sectionBody_eq (hne : bytes ≠ []) (s : SectionSlices) :
    ∃ view : ArrayView UInt8, view.toList = bytes.take (sectionLength bytes + 3) ∧
      sectionBody p.buffer (p.offset + start) (188 - start) misc (p.data start) (i, s) =
        (i + view.size, (s.take view).settle misc.pid
          (((SliceQueue.opened misc).expecting (sectionLength bytes + 3)).push view)) := by
  have hlen : bytes.length = 188 - start - i := by
    rw [← hbytes, length_drop, TsPacket.length_payload h]
  have hpos := length_pos_iff.mpr hne
  refine ⟨p.buffer.subarray ((p.offset + start : ℕ) + (i : ℤ)) ((p.offset + start : ℕ) + (i : ℤ) +
    min (188 - start - i : ℤ) ((sectionLength bytes + 3 : ℤ) - (0 : ℕ))), ?_, ?_⟩
  · rw [TsPacket.toList_subarray start i
      (i + min (188 - start - i) (sectionLength bytes + 3)) (by omega) (by omega) (by omega)
      (by omega), hbytes, Nat.add_sub_cancel_left, ← hlen, Nat.min_comm, ← take_eq_take_min]
  · rw [sectionBody, sectionLengthAt_data h hbytes]
    rfl

theorem sectionCond_of_getElem? (s : SectionSlices) :
    sectionCond (p.data start) (i, s) = true ↔ bytes ≠ [] ∧ bytes[0]? ≠ some 0xff := by
  have hlen : bytes.length = 188 - start - i := by
    rw [← hbytes, length_drop, TsPacket.length_payload h]
  have hget := get?_data h hbytes 0
  rw [Nat.add_zero] at hget
  rw [sectionCond, Bool.and_eq_true_iff, decide_eq_true_iff, bne_iff_ne, TsPacket.size_data]
  rw [hget, ← length_pos_iff, hlen]
  exact and_congr_left fun _ => by omega

end

theorem head_append {front : List UInt8} (hne : front ≠ []) (rest : List UInt8) :
    (front ++ rest)[0]? = front[0]? :=
  getElem?_append_left (length_pos_iff.mpr hne)

variable {s : SectionStart}

theorem front_ne_nil {front : List UInt8} (hshown : s.shown = front.length) : front ≠ [] := by
  have hpos := s.shown_pos
  rw [hshown] at hpos
  exact length_pos_iff.mp hpos

theorem bytes_ne_nil (s : PsiSection) : s.bytes ≠ [] :=
  length_pos_iff.mp (lt_of_lt_of_le (by decide) (length_ge s))

theorem loop_cut (h : start ≤ 188) {front rest : List UInt8} (hs : s.bytes = front ++ rest)
    (hshown : s.shown = front.length) (hrest : rest ≠ [])
    (hbytes : (p.payload start).drop i = front) (fuel : ℕ) (q : SectionSlices) :
    Reading (iterWhile (sectionCond (p.data start))
        (sectionBody p.buffer (p.offset + start) (188 - start) misc (p.data start)) (fuel + 1)
        (i, q)).2.sliceQueue front (sectionLength front + 3) ∧
      (iterWhile (sectionCond (p.data start))
        (sectionBody p.buffer (p.offset + start) (188 - start) misc (p.data start)) (fuel + 1)
        (i, q)).2.handed = q.handed := by
  have hne := front_ne_nil hshown
  have hhead : front[0]? ≠ some 0xff := by
    rw [← head_append hne rest, ← hs]
    exact s.tableId_ne
  have hlen : s.bytes.length = front.length + rest.length := by rw [hs, length_append]
  have hrest := length_pos_iff.mpr hrest
  have hlt : front.length < sectionLength front + 3 := by
    by_cases h3 : 3 ≤ front.length
    · have := (sectionLength_front hs hshown).2.mpr (.inl (by omega))
      omega
    · omega
  obtain ⟨view, hview, hbody⟩ := sectionBody_eq misc h hbytes hne q
  rw [take_of_length_le hlt.le] at hview
  have hdata : (((SliceQueue.opened misc).expecting (sectionLength front + 3)).push view).data =
      front := by
    rw [SliceQueue.data_push, SliceQueue.data_expecting, SliceQueue.data_opened, nil_append, hview]
  have hend : (p.payload start).drop (i + view.size) = [] := by
    rw [← drop_drop, hbytes, ← hview, ← ArrayView.length_toList, drop_length]
  have hstop : ¬ sectionCond (p.data start) (i + view.size, (q.take view).settle misc.pid
      (((SliceQueue.opened misc).expecting (sectionLength front + 3)).push view)) = true := by
    rw [sectionCond_of_getElem? h hend]
    exact fun h => h.1 rfl
  rw [iterWhile, if_pos ((sectionCond_of_getElem? h hbytes q).mpr ⟨hne, hhead⟩), hbody,
    iterWhile_of_false (Bool.not_eq_true _ ▸ hstop)]
  have hexpected : (((SliceQueue.opened misc).expecting (sectionLength front + 3)).push
      view).expectedLength = ((sectionLength front + 3 : ℕ) : ℤ) := by
    rw [Int.natCast_add]
    rfl
  have hshort := settle_short hexpected (by rw [hdata]; exact hlt) (by rw [hdata]; exact hne)
    misc.pid (q.take view)
  rw [hdata] at hshort
  exact hshort

theorem loop_whole (h : start ≤ 188) (s : SectionStart) {body : List UInt8}
    (hbytes : (p.payload start).drop i = s.bytes ++ body) (fuel : ℕ) (q : SectionSlices) :
    ∃ q' : SectionSlices, inProgress q'.sliceQueue = none ∧ q'.handed = q.handed ++ [s.bytes] ∧
      iterWhile (sectionCond (p.data start))
          (sectionBody p.buffer (p.offset + start) (188 - start) misc (p.data start)) (fuel + 1)
          (i, q) =
        iterWhile (sectionCond (p.data start))
          (sectionBody p.buffer (p.offset + start) (188 - start) misc (p.data start)) fuel
          (i + s.bytes.length, q') := by
  have hne : s.bytes ++ body ≠ [] := append_ne_nil_of_left_ne_nil (bytes_ne_nil _) body
  have hhead : (s.bytes ++ body)[0]? ≠ some 0xff := by
    rw [head_append (bytes_ne_nil _) body]
    exact s.tableId_ne
  obtain ⟨view, hview, hbody⟩ := sectionBody_eq misc h hbytes hne q
  rw [sectionLength_append (length_ge s.toPsiSection)] at hview hbody
  rw [← s.length_eq, take_left] at hview
  have hsize : view.size = s.bytes.length := by rw [← hview, ArrayView.length_toList]
  have hdata : (((SliceQueue.opened misc).expecting (sectionLength s.bytes + 3)).push view).data =
      s.bytes := by
    rw [SliceQueue.data_push, SliceQueue.data_expecting, SliceQueue.data_opened, nil_append, hview]
  have hexpected : (((SliceQueue.opened misc).expecting (sectionLength s.bytes + 3)).push
      view).expectedLength = (s.bytes.length : ℤ) := by
    rw [s.length_eq, Int.natCast_add]
    rfl
  have hfull := settle_full hexpected (by rw [hdata]) misc.pid (q.take view)
  rw [hdata] at hfull
  refine ⟨_, hfull.1, hfull.2, ?_⟩
  rw [iterWhile, if_pos ((sectionCond_of_getElem? h hbytes q).mpr ⟨hne, hhead⟩), hbody, hsize]

theorem loop_begins (h : start ≤ 188) {body rest : List UInt8} {starts : List SectionStart}
    (hb : Begins body starts rest) {i fuel : ℕ} (hbytes : (p.payload start).drop i = body)
    (hfuel : body.length ≤ fuel) {q : SectionSlices} (hq : inProgress q.sliceQueue = none) :
    ∃ (done : List (List UInt8)) (O : List (List UInt8) → Prop),
      (iterWhile (sectionCond (p.data start))
        (sectionBody p.buffer (p.offset + start) (188 - start) misc (p.data start)) fuel
        (i, q)).2.handed = q.handed ++ done ∧
      Owes (iterWhile (sectionCond (p.data start))
        (sectionBody p.buffer (p.offset + start) (188 - start) misc (p.data start)) fuel
        (i, q)).2.sliceQueue rest O ∧
      ∀ l, O l → ∃ ls, done ++ l = ls.flatten ∧ List.Forall₂ Outcome starts ls := by
  induction hb generalizing i fuel q with
  | stuffing n =>
    have hstop : ¬ sectionCond (p.data start) (i, q) = true := by
      rw [sectionCond_of_getElem? h hbytes]
      rintro ⟨hne, hhead⟩
      cases n with
      | zero => exact hne rfl
      | succ n => exact hhead rfl
    rw [iterWhile_of_false (Bool.not_eq_true _ ▸ hstop)]
    refine ⟨[], fun l => l = [], (append_nil _).symm, .inl ⟨hq, rfl⟩, ?_⟩
    rintro l rfl
    exact ⟨[], rfl, List.Forall₂.nil⟩
  | cut s front rest hs hshown hrest =>
    have hpos := length_pos_iff.mpr (front_ne_nil hshown)
    obtain ⟨fuel, rfl⟩ := Nat.exists_eq_succ_of_ne_zero (show fuel ≠ 0 by omega)
    obtain ⟨hread, hhanded⟩ := loop_cut misc h hs hshown hrest hbytes fuel q
    refine ⟨[], Outcome s, by rw [append_nil]; exact hhanded,
      .inr ⟨_, _, hread, hrest, ?_, fun l hl => ?_⟩, fun l hl => ?_⟩
    · rw [← hs]
      exact (sectionLength_front hs hshown).1
    · exact outcome_of_result hs hshown (by rw [hs]; exact hl)
    · exact ⟨[l], by simp, List.Forall₂.cons hl List.Forall₂.nil⟩
  | @whole s body rest starts hshown hb ih =>
    have hpos := length_pos_iff.mpr (bytes_ne_nil s.toPsiSection)
    rw [length_append] at hfuel
    obtain ⟨fuel, rfl⟩ := Nat.exists_eq_succ_of_ne_zero (show fuel ≠ 0 by omega)
    obtain ⟨q', hq', hhanded', heq⟩ := loop_whole misc h s hbytes fuel q
    have hnext : (p.payload start).drop (i + s.bytes.length) = body := by
      rw [← drop_drop, hbytes, drop_left]
    have hfuel' : body.length ≤ fuel := by omega
    obtain ⟨done, O, hhanded, howes, hO⟩ := ih hnext hfuel' hq'
    rw [heq]
    refine ⟨s.bytes :: done, O, ?_, howes, fun l hl => ?_⟩
    · simp [*]
    · obtain ⟨ls, hls, hall⟩ := hO l hl
      refine ⟨[s.bytes] :: ls, ?_, List.Forall₂.cons (.inl ⟨?_, rfl⟩) hall⟩
      · rw [cons_append, hls]
        rfl
      · exact .inl (hshown ▸ length_ge s.toPsiSection)

theorem sectionSlice_started {sliceQueue : Option SliceQueue} {pointer : UInt8}
    {rest body rest' : List UInt8} {here : List SectionStart}
    (hc : p.Carries 1 (pointer :: (rest ++ body))) (hpointer : pointer.toNat = rest.length)
    (hb : Begins body here rest') {O : List (List UInt8) → Prop} (ho : Owes sliceQueue rest O) :
    ∃ (l done : List (List UInt8)) (O' : List (List UInt8) → Prop), O l ∧
      (p.sectionSlice sliceQueue).handed = l ++ done ∧
      Owes (p.sectionSlice sliceQueue).sliceQueue rest' O' ∧
      ∀ l', O' l' → ∃ ls, done ++ l' = ls.flatten ∧ List.Forall₂ Outcome here ls := by
  obtain ⟨hpusi, start, hlt, hstart, hpay⟩ := hc
  have hlen : 1 + (rest.length + body.length) = 188 - start := by
    rw [← TsPacket.length_payload (p := p) hlt.le, hpay, length_cons, length_append]
    omega
  have hfirst : (p.data start).get? 0 = some pointer :=
    get?_data hlt.le (i := 0) (by rw [drop_zero, hpay]) 0
  have hbody : (p.payload start).drop (1 + pointer.toNat) = body := by
    rw [hpay, hpointer, Nat.add_comm, drop_succ_cons, drop_left]
  have hview : (pointedView p.buffer (p.offset + start) (188 - start) (some pointer)).toList =
      rest := by
    rw [pointedView, TsPacket.toList_subarray start 1 (1 + rest.length) (by omega) (by omega)
        (by omega) (by omega), hpay, drop_succ_cons, drop_zero,
      Nat.add_sub_cancel_left, take_left]
  rw [TsPacket.sectionSlice, hstart]
  dsimp only
  rw [handleSectionSlice]
  dsimp only
  rw [if_pos (by rw [hpusi]; decide), show p.buffer.subarray _ _ = p.data start from rfl, hfirst]
  dsimp only
  obtain ⟨done, O', hhanded, howes, hO⟩ := loop_begins
    ⟨p.pid, p.filePosition, p.payloadUnitStartIndicator, p.randomAccessIndicator⟩ hlt.le hb hbody
    (show body.length ≤ (p.data start).size by rw [TsPacket.size_data]; omega)
    (finishSection_idle p.buffer (p.offset + start) (188 - start)
      ⟨p.pid, p.filePosition, p.payloadUnitStartIndicator, p.randomAccessIndicator⟩ (some pointer)
      ⟨sliceQueue, [], []⟩)
  obtain ⟨hq, hnil⟩ | ⟨got, e, ⟨queue, hqueue, rfl, he, hgot⟩, hne, hle, hresult⟩ := ho
  · refine ⟨[], done, O', hnil, ?_, howes, hO⟩
    rw [sectionLoop, hhanded, finishSection_none hq]
    rfl
  · have hdata : (queue.push (pointedView p.buffer (p.offset + start) (188 - start)
        (some pointer))).data = queue.data ++ rest := by rw [SliceQueue.data_push, hview]
    have hconclude : (finishSection p.buffer (p.offset + start) (188 - start)
        ⟨p.pid, p.filePosition, p.payloadUnitStartIndicator, p.randomAccessIndicator⟩
        (some pointer) ⟨sliceQueue, [], []⟩).handed =
          if (queue.data ++ rest).length = e then [queue.data ++ rest] else [] := by
      have he' : (queue.push (pointedView p.buffer (p.offset + start) (188 - start)
          (some pointer))).expectedLength = e := he
      rw [finishSection, hqueue, ← hdata]
      exact handed_conclude he' p.pid _
    refine ⟨_, done, O', hresult _ ?_, by rw [sectionLoop, hhanded, hconclude], howes, hO⟩
    by_cases h : (queue.data ++ rest).length = e
    · exact .inl ⟨h.symm, if_pos h⟩
    · exact .inr ⟨lt_of_le_of_ne hle (Ne.symm h), .inl (if_neg h)⟩

end Starts

/-! ## Runs -/

/-- What the packets of one pid do to its queue and to what was handed over for it. -/
def sectionStep (s : Option SliceQueue × List (List UInt8)) (p : TsPacket) :
    Option SliceQueue × List (List UInt8) :=
  ((p.sectionSlice s.1).sliceQueue, s.2 ++ (p.sectionSlice s.1).handed)

variable {starts : List SectionStart} {rest : List UInt8}

theorem run_packing {packets : List TsPacket} (hp : Packing rest packets starts)
    {sliceQueue : Option SliceQueue} {O : List (List UInt8) → Prop} (ho : Owes sliceQueue rest O)
    (out : List (List UInt8)) :
    ∃ (l : List (List UInt8)) (ls : List (List (List UInt8))),
      (run sectionStep (sliceQueue, out) packets).2 = out ++ (l ++ ls.flatten) ∧ O l ∧
        List.Forall₂ Outcome starts ls := by
  induction hp generalizing sliceQueue out O with
  | done =>
    obtain ⟨-, hnil⟩ | ⟨-, -, -, hne, -⟩ := ho
    · exact ⟨[], [], (append_nil _).symm, hnil, List.Forall₂.nil⟩
    · exact absurd rfl hne
  | noPayload hnone _ ih =>
    obtain ⟨l, ls, hout, hl, hall⟩ := ih ho out
    refine ⟨l, ls, ?_, hl, hall⟩
    rw [run_cons, sectionStep, sectionSlice_noPayload hnone]
    show (run sectionStep (sliceQueue, out ++ []) _).2 = _
    rw [append_nil, hout]
  | @continued p bytes rest packets starts hc hrest _ ih =>
    rw [run_cons, sectionStep]
    obtain ⟨hq, hnil⟩ | ⟨got, e, hread, hne, hle, hresult⟩ := ho
    · rw [sectionSlice_idle hc hq]
      show ∃ l ls, (run sectionStep (sliceQueue, out ++ []) packets).2 = _ ∧ _
      rw [append_nil]
      exact ih (.inl ⟨hq, hnil⟩) out
    · rw [← append_assoc] at hle hresult
      by_cases hshort : got.length + bytes.length < e
      · obtain ⟨hread', hhanded⟩ := sectionSlice_short hc hread hshort
        rw [hhanded, append_nil]
        exact ih (.inr ⟨_, e, hread', hrest, hle, hresult⟩) out
      · obtain ⟨hq', hhanded⟩ := sectionSlice_full hc hread (not_lt.mp hshort)
        obtain ⟨l, ls, hout, rfl, hall⟩ := ih (O := fun l => l = []) (.inl ⟨hq', rfl⟩)
          (out ++ [(got ++ bytes).take e])
        refine ⟨[(got ++ bytes).take e], ls, ?_, hresult _ (.inr ?_), hall⟩
        · simp [*]
        · have hpos := length_pos_iff.mpr hrest
          rw [length_append, length_append]
          refine ⟨by omega, .inr ⟨_, rfl, ?_⟩⟩
          rw [length_take, length_append]
          omega
  | @ended p rest n packets starts hc _ ih =>
    rw [run_cons, sectionStep]
    obtain ⟨hq, hnil⟩ | ⟨got, e, hread, hne, hle, hresult⟩ := ho
    · rw [sectionSlice_idle hc hq]
      show ∃ l ls, (run sectionStep (sliceQueue, out ++ []) packets).2 = _ ∧ _
      rw [append_nil]
      exact ih (.inl ⟨hq, hnil⟩) out
    · have hfull : e ≤ got.length + (rest ++ List.replicate n 0xff).length := by
        rw [length_append] at hle ⊢
        omega
      obtain ⟨hq', hhanded⟩ := sectionSlice_full hc hread hfull
      rw [← append_assoc, take_append_of_le_length hle] at hhanded
      obtain ⟨l, ls, hout, rfl, hall⟩ := ih (O := fun l => l = []) (.inl ⟨hq', rfl⟩)
        (out ++ [(got ++ rest).take e])
      refine ⟨[(got ++ rest).take e], ls, ?_, hresult _ ?_, hall⟩
      · rw [hhanded, hout, append_assoc]
        rfl
      · by_cases h : e = (got ++ rest).length
        · exact .inl ⟨h, by rw [h, take_length]⟩
        · refine .inr ⟨lt_of_le_of_ne hle h, .inr ⟨_, rfl, ?_⟩⟩
          rw [length_take]
          omega
  | started hc hpointer hb _ ih =>
    obtain ⟨l, done, O', hl, hhanded, howes, hO⟩ := sectionSlice_started hc hpointer hb ho
    obtain ⟨l', ls', hout, hl', hall⟩ := ih howes _
    obtain ⟨ls, hls, hhere⟩ := hO l' hl'
    refine ⟨l, ls ++ ls', ?_, hl, rel_append hhere hall⟩
    rw [run_cons, sectionStep, hout, hhanded, flatten_append, ← hls]
    simp only [append_assoc]

/-- The sections handed over are those that start in the packets just when each one shows its
    length. -/
theorem flatten_outcomes {ls : List (List (List UInt8))} (h : List.Forall₂ Outcome starts ls) :
    ls.flatten.length ≤ starts.length ∧
      (ls.flatten = starts.map (fun s => s.bytes) ↔ ∀ s ∈ starts, HeaderShown s) := by
  induction h with
  | nil => exact ⟨le_refl _, iff_of_true rfl fun _ h => absurd h not_mem_nil⟩
  | @cons s l starts ls hs _ ih =>
    obtain ⟨hle, hiff⟩ := ih
    rw [flatten_cons, forall_mem_cons, map_cons, length_append, length_cons]
    obtain ⟨hshown, rfl⟩ | ⟨hcut, rfl | ⟨front, rfl, hfront⟩⟩ := hs
    · grind
    · grind
    · grind

section Pid

variable {pid : ℕ} {s : SectionSlices}

section

variable (h : ∀ d ∈ s.parsed, d.pid = pid) (queue : SliceQueue)

include h queue

theorem pid_emit : ∀ d ∈ (s.emitSectionSlices pid queue).parsed, d.pid = pid := by
  rw [emitSectionSlices, forall_mem_append, forall_mem_singleton]
  exact ⟨h, rfl⟩

theorem pid_settle : ∀ d ∈ (s.settle pid queue).parsed, d.pid = pid := by
  unfold settle
  split
  · exact pid_emit h queue
  · split <;> exact h

theorem pid_conclude : ∀ d ∈ (s.conclude pid queue).parsed, d.pid = pid := by
  unfold conclude
  split
  · exact pid_emit h queue
  · exact h

end

theorem pid_finishSection {misc : TSSliceMisc} (h : ∀ d ∈ s.parsed, d.pid = misc.pid)
    (buffer : ArrayView UInt8) (offset : ℕ) (length : ℤ) (pointer : Option UInt8) :
    ∀ d ∈ (finishSection buffer offset length misc pointer s).parsed, d.pid = misc.pid := by
  rw [finishSection]
  split
  · exact h
  · exact pid_conclude (s := s.take _) h _

theorem sectionSlice_pid (p : TsPacket) (sliceQueue : Option SliceQueue) :
    ∀ d ∈ (p.sectionSlice sliceQueue).parsed, d.pid = p.pid := by
  have hnil : ∀ d ∈ (⟨sliceQueue, [], []⟩ : SectionSlices).parsed, d.pid = p.pid :=
    fun _ h => absurd h not_mem_nil
  rw [TsPacket.sectionSlice]
  split
  · exact hnil
  · rw [handleSectionSlice]
    split
    · split
      · exact pid_finishSection hnil _ _ _ _
      · refine iterWhile_inv (P := fun is : ℕ × SectionSlices => ∀ d ∈ is.2.parsed, d.pid = p.pid)
          (fun is h _ => ?_) ?_ _
        · exact pid_settle (s := is.2.take _) h _
        · exact pid_finishSection hnil _ _ _ _
    · rw [continueSection]
      split
      · exact hnil
      · exact pid_settle (s := SectionSlices.take _ ⟨sliceQueue, [], []⟩) hnil _

end Pid

theorem queue_handle_self (s : TsSections) (p : TsPacket) : (s.handle p).sectionSliceQueues p.pid =
      (p.sectionSlice (s.sectionSliceQueues p.pid)).sliceQueue := update_self _ _ _

theorem queue_handle_of_ne (s : TsSections) {p : TsPacket} {pid : ℕ} (h : pid ≠ p.pid) :
    (s.handle p).sectionSliceQueues pid = s.sectionSliceQueues pid :=
  update_of_ne h _ _

theorem run_project (pid : ℕ) (packets : List TsPacket) (s : TsSections) :
    ((run TsSections.handle s packets).sectionSliceQueues pid,
        (run TsSections.handle s packets).sectionsOf pid) =
      run sectionStep (s.sectionSliceQueues pid, s.sectionsOf pid)
        (packets.filter fun p => p.pid = pid) := by
  induction packets generalizing s with
  | nil => rfl
  | cons p packets ih =>
    rw [run_cons, ih, filter_cons]
    have hparsed : ∀ d ∈ (p.sectionSlice (s.sectionSliceQueues p.pid)).parsed, d.pid = p.pid :=
      sectionSlice_pid p _
    by_cases hpid : p.pid = pid
    · rw [if_pos (decide_eq_true hpid), run_cons]
      congr 2
      · subst hpid
        exact queue_handle_self s p
      · rw [TsSections.sectionsOf, TsSections.handle, filter_append, map_append,
          filter_eq_self.mpr fun d hd => decide_eq_true ((hparsed d hd).trans hpid), hpid]
        rfl
    · rw [if_neg (by rw [decide_eq_true_iff]; exact hpid)]
      congr 2
      · exact queue_handle_of_ne s (Ne.symm hpid)
      · rw [TsSections.sectionsOf, TsSections.handle, filter_append,
          (filter_eq_nil_iff (l := (p.sectionSlice (s.sectionSliceQueues p.pid)).parsed)).mpr
            fun d hd => by rw [decide_eq_true_iff, hparsed d hd]; exact hpid,
          append_nil]
        rfl

/-- For every sequence of packets that carries sections, whatever the packets of other pids
    between them are. -/
theorem sectionsOf_eq_iff (pid : ℕ) (packets : List TsPacket)
    (hp : Packing rest (packets.filter fun p => p.pid = pid) starts) :
    (run TsSections.handle .init packets).sectionsOf pid = starts.map (fun s => s.bytes) ↔
      ∀ s ∈ starts, HeaderShown s := by
  have hproject := run_project pid packets .init
  obtain ⟨l, ls, hout, rfl, hall⟩ := run_packing hp
    (show Owes none rest (fun l => l = []) from .inl ⟨rfl, rfl⟩) []
  rw [← (flatten_outcomes hall).2]
  have heq : (run TsSections.handle .init packets).sectionsOf pid = ls.flatten :=
    (congrArg Prod.snd hproject).trans hout
  rw [heq]

theorem taken_holds_iff (packets : List TsPacket) :
    (∀ pv ∈ (run TsSections.handle .init packets).taken, pv.1.Holds pv.2) ↔
      Along TsSections.handle (fun s p => ¬ Overruns p (s.sectionSliceQueues p.pid)) .init
        packets := by
  refine (run_iff_along (I := fun s : TsSections => ∀ pid, Lacking (s.sectionSliceQueues pid))
    (P := fun s : TsSections => ∀ pv ∈ s.taken, pv.1.Holds pv.2)
    (fun s p hlack pid => ?_) (fun s p hlack => ?_) (fun _ => lacking_of_none rfl) packets).2.trans
    (and_iff_right fun _ h => absurd h not_mem_nil)
  · by_cases hpid : pid = p.pid
    · subst hpid
      rw [queue_handle_self]
      exact (sectionSlice_holds_iff (hlack p.pid)).1
    · rw [queue_handle_of_ne s hpid]
      exact hlack pid
  · rw [TsSections.handle, forall_mem_append, List.forall_mem_map]
    exact and_congr_right fun _ => (sectionSlice_holds_iff (hlack p.pid)).2

/-- For every sequence of packets of any pids: the loop over the sections that start in a packet
    ends; only bytes of the payloads are taken just when no pointer overruns; and the sections
    packed into the packets of a pid are handed over, each one once and in order, just when each
    one shows its length in the packet in which it starts. -/
theorem sections_reassembled_iff (packets : List TsPacket) :
    (∀ (p : TsPacket) (start : ℕ) (misc : TSSliceMisc) (is : ℕ × SectionSlices),
      sectionCond (p.data start) (sectionLoop p.buffer (p.offset + start) (188 - start) misc
        (p.data start) is) = false) ∧
    ((∀ pv ∈ (run TsSections.handle .init packets).taken, pv.1.Holds pv.2) ↔
      Along TsSections.handle (fun s p => ¬ Overruns p (s.sectionSliceQueues p.pid)) .init
        packets) ∧
    ∀ (pid : ℕ) (rest : List UInt8) (starts : List SectionStart),
      Packing rest (packets.filter fun p => p.pid = pid) starts →
      ((run TsSections.handle .init packets).sectionsOf pid = starts.map (fun s => s.bytes) ↔
        ∀ s ∈ starts, HeaderShown s) :=
  ⟨fun _ start misc is => sectionLoop_exit start misc is, taken_holds_iff packets,
    fun pid _ _ hp => sectionsOf_eq_iff pid packets hp⟩

/-- A section of seven bytes of which the first packet holds four. -/
def splitStart : SectionStart where
  bytes := [0, 0xb0, 4, 1, 2, 3, 4]
  tableId_ne := by decide
  length_eq := by decide
  shown := 4
  shown_pos := by decide
  shown_le := by decide

def splitPackets : List TsPacket :=
  [TsPacket.stuffed 0x40 0 0 0 [0, 0, 0xb0, 4, 1] [] (by decide),
    TsPacket.stuffed 0 0 1 0 [2, 3, 4, 0xff] [] (by decide)]

theorem splitPackets_packing : Packing [] (splitPackets.filter fun p => p.pid = 0) [splitStart] :=
  @Packing.started _ 0 [] _ _ _ _ _ ⟨by decide, 183, by decide, by decide, by decide⟩ rfl
    (Begins.cut splitStart [0, 0xb0, 4, 1] [2, 3, 4] rfl rfl (by decide))
    (Packing.ended (n := 1) ⟨by decide, 184, by decide, by decide, by decide⟩ Packing.done)

theorem sections_reassembled_split :
    (run TsSections.handle .init splitPackets).sectionsOf 0 = [splitStart.bytes] :=
  ((sections_reassembled_iff splitPackets).2.2 0 [] [splitStart] splitPackets_packing).mpr
    (by decide)

/-- A section of which the first packet holds one byte. -/
def cutStart : SectionStart where
  bytes := [0, 0xb0, 1, 7]
  tableId_ne := by decide
  length_eq := by decide
  shown := 1
  shown_pos := by decide
  shown_le := by decide

def cutPackets : List TsPacket :=
  [TsPacket.stuffed 0x40 0 0 0 [0, 0] [] (by decide),
    TsPacket.stuffed 0 0 1 0 [0xb0, 1, 7] [] (by decide)]

theorem cutPackets_packing : Packing [] (cutPackets.filter fun p => p.pid = 0) [cutStart] :=
  @Packing.started _ 0 [] _ _ _ _ _ ⟨by decide, 186, by decide, by decide, by decide⟩ rfl
    (Begins.cut cutStart [0] [0xb0, 1, 7] rfl rfl (by decide))
    (Packing.ended (n := 0) ⟨by decide, 185, by decide, by decide, by decide⟩ Packing.done)

/-- The section of the packets, cut behind its first byte, is handed over without its last byte;
    and a pointer of 255 in a payload of two bytes takes the sync byte behind the packet. -/
theorem cutHeader_shortened : Packing [] (cutPackets.filter fun p => p.pid = 0) [cutStart] ∧
      (run TsSections.handle .init cutPackets).sectionsOf 0 = [[0, 0xb0, 1]] ∧
      (run TsSections.handle .init
        [TsPacket.stuffed 0x40 0 0 0 [0, 0, 0xb0, 2] [] (by decide),
          TsPacket.stuffed 0x40 0 0 0 [255, 1] [0x47] (by decide)]).sectionsOf 0 =
        [[0, 0xb0, 2, 1, 0x47]] :=
  ⟨cutPackets_packing, by decide +kernel, by decide +kernel⟩

end Apackage.Rtp2httpd.Player
