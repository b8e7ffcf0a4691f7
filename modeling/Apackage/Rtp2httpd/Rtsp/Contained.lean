import Apackage.Rtp2httpd.Rtsp.Interleaved

/-
  Whether the interleaved receiver decides on the bytes it has received.

  Frames are checked against `response_buffer_pos`; the end marker of a server request and its
  `CSeq` are searched for in whatever stands in memory. `Contained` says of a round that what it
  finds stands among the bytes received. While it holds, a call does what it does on these bytes
  alone.
-/

namespace Apackage.Rtp2httpd.Rtsp

open List Option Receiver

variable {σ : Type*}

/-! ## Searching in a beginning of a string -/

section Searching

variable {needle s t : Bytes} {i : ℕ}

theorem strstr_length (hne : needle ≠ []) (h : strstr needle s = some i) :
    i + needle.length ≤ s.length := by
  have hlen := ((strstr_eq_some hne).1 h).1.length_le
  have hpos := length_pos_iff.2 hne
  rw [length_drop] at hlen
  omega

theorem prefix_drop_iff (hst : s <+: t) (hi : i + needle.length ≤ s.length) :
    needle <+: t.drop i ↔ needle <+: s.drop i := by
  have hdrop : s.drop i <+: t.drop i := by
    obtain ⟨r, rfl⟩ := hst
    rw [drop_append_of_le_length (by omega)]
    exact prefix_append _ _
  refine ⟨fun h => ?_, fun h => h.trans hdrop⟩
  refine prefix_of_prefix_length_le h hdrop ?_
  rw [length_drop]
  omega

section

variable (hne : needle ≠ []) (hst : s <+: t)

include hne hst

theorem strstr_of_beginning (h : strstr needle s = some i) : strstr needle t = some i := by
  have hlen := strstr_length hne h
  obtain ⟨hstarts, hbefore⟩ := (strstr_eq_some hne).1 h
  refine (strstr_eq_some hne).2 ⟨(prefix_drop_iff hst hlen).2 hstarts, fun j hj => ?_⟩
  rw [prefix_drop_iff hst (by omega)]
  exact hbefore j hj

theorem strstr_in_beginning (h : strstr needle t = some i) (hi : i + needle.length ≤ s.length) :
    strstr needle s = some i := by
  obtain ⟨hstarts, hbefore⟩ := (strstr_eq_some hne).1 h
  refine (strstr_eq_some hne).2 ⟨(prefix_drop_iff hst hi).1 hstarts, fun j hj => ?_⟩
  rw [← prefix_drop_iff hst (by omega)]
  exact hbefore j hj

theorem strstr_none_beginning (h : strstr needle t = none) : strstr needle s = none := by
  cases hs : strstr needle s with
  | none => rfl
  | some i => rw [strstr_of_beginning hne hst hs] at h; cases h

end

end Searching

/-! ## The string in the buffer -/

section Text

variable {s : Receiver σ}

theorem alone_text (h : s.responseBufferPos ≤ s.responseBuffer.length) : s.alone.text <+: s.text ∧
      (s.alone.text.length = s.responseBufferPos ∨
        s.alone.text = s.text ∧ s.text.length ≤ s.responseBufferPos) := by
  have hsplit : s.responseBuffer ++ s.behind = s.responseBuffer.take s.responseBufferPos ++
        (s.responseBuffer.drop s.responseBufferPos ++ s.behind) := by
    rw [← append_assoc, take_append_drop]
  have hlen : (s.responseBuffer.take s.responseBufferPos).length = s.responseBufferPos := by
    rw [length_take]
    omega
  have halone : s.alone.text = cstr (s.responseBuffer.take s.responseBufferPos) := by
    show cstr (s.responseBuffer.take s.responseBufferPos ++ []) = _
    rw [append_nil]
  rw [halone]
  unfold Receiver.text cstr
  rw [hsplit]
  by_cases hall : ∀ b ∈ s.responseBuffer.take s.responseBufferPos, decide (b ≠ 0) = true
  · rw [takeWhile_append_of_pos hall, takeWhile_eq_self_iff.2 hall]
    exact ⟨prefix_append _ _, .inl hlen⟩
  · obtain ⟨b, hb, hzero⟩ : ∃ b ∈ s.responseBuffer.take s.responseBufferPos,
        ¬ decide (b ≠ 0) = true := by
      by_contra hnone
      exact hall fun b hb => by_contra fun hzero => hnone ⟨b, hb, hzero⟩
    have hwhole : (s.responseBuffer.take s.responseBufferPos ++
        (s.responseBuffer.drop s.responseBufferPos ++ s.behind)).takeWhile (fun b => b ≠ 0) =
        (s.responseBuffer.take s.responseBufferPos).takeWhile (fun b => b ≠ 0) := by
      rw [takeWhile_append]
      refine if_neg fun hle => hzero ?_
      have hself := ( takeWhile_prefix (fun b : UInt8 => decide (b ≠ 0))).eq_of_length hle
      rw [← hself] at hb
      exact mem_takeWhile_imp (p := fun b : UInt8 => decide (b ≠ 0)) hb
    rw [hwhole]
    refine ⟨prefix_rfl, .inr ⟨rfl, ?_⟩⟩
    exact ( takeWhile_prefix _).length_le.trans hlen.le

end Text

/-! ## The value of `CSeq` -/

theorem takeWhile_take (p : UInt8 → Bool) (l : Bytes) (k : ℕ) :
    (l.take k).takeWhile p = (l.takeWhile p).take k := by
  induction l generalizing k with
  | nil => simp
  | cons c l ih =>
    cases k with
    | zero => rfl
    | succ k =>
      rw [take_succ_cons, takeWhile_cons, takeWhile_cons]
      split
      · rw [ih, take_succ_cons]
      · rfl

theorem dropWhile_take (p : UInt8 → Bool) (l : Bytes) (k : ℕ) :
    (l.take k).dropWhile p = (l.dropWhile p).take (k - (l.takeWhile p).length) := by
  induction l generalizing k with
  | nil => simp
  | cons c l ih =>
    cases k with
    | zero => simp
    | succ k =>
      rw [take_succ_cons, dropWhile_cons, dropWhile_cons, takeWhile_cons]
      split
      · rw [ih, length_cons, Nat.add_sub_add_right]
      · rw [length_nil, Nat.sub_zero, take_succ_cons]

theorem cseqValue_take (after : Bytes) (k : ℕ) : cseqValue (after.take k) =
      (cseqValue after).take (k - (after.takeWhile isSpace).length) := by
  unfold cseqValue
  rw [dropWhile_take, takeWhile_take, take_take, take_take, Nat.min_comm]

/-- The value behind `CSeq:` is blank, or stands inside the first `pos` bytes, or is the `0` that
    stands for no value. -/
def ValueInside (text : Bytes) (pos endMarker : ℕ) : Prop :=
  ∀ line, strstr cseqKey text = some line → line < endMarker →
    let after := text.drop (line + cseqKey.length)
    let start := line + cseqKey.length + (after.takeWhile isSpace).length
    cseqValue after = [] ∨ start + (cseqValue after).length ≤ pos ∨
      (pos ≤ start ∧ cseqValue after = ascii "0")

/-- A beginning of a text stands for the same value exactly when nothing of it is cut, or the
    whole of it and the text is the one for no value. -/
theorem orElse_take (d v : Bytes) (n : ℕ) :
    (if v = [] then d else v) = (if v.take n = [] then d else v.take n) ↔
      v = [] ∨ v.length ≤ n ∨ (n = 0 ∧ v = d) := by
  by_cases hv : v = []
  · simp [hv]
  rw [if_neg hv]
  by_cases hn : n = 0
  · simp [*]
  · have htake : v.take n ≠ [] := by
      rw [Ne, take_eq_nil_iff, not_or]
      exact ⟨hn, hv⟩
    rw [if_neg htake]
    constructor
    · grind
    · rintro (h | h | h)
      · exact absurd h hv
      · exact (take_of_length_le h).symm
      · exact absurd h.1 hn

theorem cseqValue_length (after : Bytes) :
    (after.takeWhile isSpace).length + (cseqValue after).length ≤ after.length := by
  have hsplit := congrArg List.length (takeWhile_append_dropWhile (p := isSpace) (l := after))
  rw [length_append] at hsplit
  have hvalue : (cseqValue after).length ≤ (after.dropWhile isSpace).length := by
    unfold cseqValue
    rw [length_take]
    exact (Nat.min_le_right _ _).trans ( takeWhile_prefix _).length_le
  omega

theorem cseqOf_beginning {s t : Bytes} {pos endMarker : ℕ} (hst : s <+: t)
    (hpos : s.length = pos ∨ s = t ∧ t.length ≤ pos) (hend : strstr headerEnd t = some endMarker)
    (hin : endMarker + headerEnd.length ≤ s.length) :
    cseqOf t endMarker = cseqOf s endMarker ↔ ValueInside t pos endMarker := by
  have hkey : cseqKey ≠ [] := by decide
  -- a key in front of the marker ends in front of it, as it has no CR
  have hbefore : ∀ line, strstr cseqKey t = some line → line < endMarker →
      line + cseqKey.length ≤ s.length := by
    intro line hline hlt
    by_contra hgt
    have h4 : headerEnd.length = 4 := rfl
    have h5 : cseqKey.length = 5 := rfl
    omega
  cases ht : strstr cseqKey t with
  | none =>
    have hs := strstr_none_beginning hkey hst ht
    refine iff_of_true ?_ fun line hline => by rw [ht] at hline; cases hline
    unfold cseqOf
    rw [ht, hs]
  | some line =>
    by_cases hlt : line < endMarker
    · have hfits := hbefore line ht hlt
      have hs := strstr_in_beginning hkey hst ht hfits
      have hother : ValueInside t pos endMarker ↔ (let after := t.drop (line + cseqKey.length)
           let start := line + cseqKey.length + (after.takeWhile isSpace).length
           cseqValue after = [] ∨ start + (cseqValue after).length ≤ pos ∨
             (pos ≤ start ∧ cseqValue after = ascii "0")) := by
        refine ⟨fun h => h line ht hlt, fun h line' hline' _ => ?_⟩
        obtain rfl := some.inj (ht.symm.trans hline')
        exact h
      rw [hother]
      unfold cseqOf
      rw [ht, hs]
      simp only [if_pos hlt]
      generalize ha : t.drop (line + cseqKey.length) = after
      obtain ⟨k, hk, hcut⟩ : ∃ k, s.drop (line + cseqKey.length) = after.take k ∧
          (pos = line + cseqKey.length + k ∨
            line + cseqKey.length + after.length ≤ pos ∧ after.take k = after) := by
        refine ⟨s.length - (line + cseqKey.length), ?_, ?_⟩
        · rw [← ha, ← drop_take, ← prefix_iff_eq_take.1 hst]
        · rcases hpos with hpos | ⟨rfl, hle⟩
          · left
            omega
          · grind
      rw [hk]
      rcases hcut with hpos | ⟨hle, hself⟩
      · rw [cseqValue_take, orElse_take]
        constructor
        · rintro (h | h | h)
          · exact .inl h
          · by_cases hnil : cseqValue after = []
            · exact .inl hnil
            · have hlen := length_pos_iff.2 hnil
              exact .inr (.inl (by omega))
          · exact .inr (.inr ⟨by omega, h.2⟩)
        · rintro (h | h | h)
          · exact .inl h
          · exact .inr (.inl (by omega))
          · exact .inr (.inr ⟨by omega, h.2⟩)
      · rw [hself]
        have hlen := cseqValue_length after
        exact iff_of_true rfl (.inr (.inl (by omega)))
    · refine iff_of_true ?_ fun line' hline' hlt' => ?_
      · have hs : ∀ line', strstr cseqKey s = some line' → ¬ line' < endMarker := by
          intro line' hline'
          obtain rfl := some.inj (ht.symm.trans (strstr_of_beginning hkey hst hline'))
          exact hlt
        unfold cseqOf
        rw [ht]
        simp only [if_neg hlt]
        cases hline : strstr cseqKey s with
        | none => rfl
        | some line' => exact (if_neg (hs line' hline)).symm
      · obtain rfl := some.inj (ht.symm.trans hline')
        exact absurd hlt' hlt

/-! ## A round -/

namespace Turn

def state : Turn σ → Option (Receiver σ)
  | next _ s => some s
  | stop s => some s
  | announced s => some s
  | underflow => none

/-- What of a round does not depend on bytes that have not been received. -/
def alone : Turn σ → Turn σ
  | next pb s => next pb s.alone
  | stop s => stop s.alone
  | announced s => announced s.alone
  | underflow => underflow

end Turn

/-- Two rounds that differ in bytes that have not been received at most. -/
inductive Agrees : Turn σ → Turn σ → Prop
  | next (pb : ℤ) {s t : Receiver σ} (h : s.alone = t.alone) : Agrees (.next pb s) (.next pb t)
  | stop {s t : Receiver σ} (h : s.alone = t.alone) : Agrees (.stop s) (.stop t)
  | announced {s t : Receiver σ} (h : s.alone = t.alone) : Agrees (.announced s) (.announced t)
  | underflow : Agrees .underflow .underflow

theorem agrees_of_alone {a b : Turn σ} (h : a.alone = b.alone) : Agrees a b := by
  cases a <;> cases b <;> first | cases h; done | skip
  case next.next =>
    obtain ⟨rfl, halone⟩ := Turn.next.inj h
    exact Agrees.next _ halone
  case stop.stop => exact Agrees.stop (Turn.stop.inj h)
  case announced.announced => exact Agrees.announced (Turn.announced.inj h)
  case underflow.underflow => exact Agrees.underflow

/-- A server request that is answered ends among the received bytes, and its `CSeq` is read there. -/
def Contained (s : Receiver σ) : Prop :=
  ∀ endMarker, isServerRequest s = true → strstr headerEnd s.text = some endMarker →
    endMarker + headerEnd.length ≤ s.responseBufferPos ∧
      ValueInside s.text s.responseBufferPos endMarker

section Round

variable {s : Receiver σ} {m : MediaPath σ}

theorem alone_inside (h : s.responseBufferPos ≤ s.responseBuffer.length) :
    s.alone.responseBufferPos ≤ s.alone.responseBuffer.length := by
  show s.responseBufferPos ≤ (s.responseBuffer.take s.responseBufferPos).length
  rw [length_take]
  omega

theorem alone_alone (s : Receiver σ) : s.alone.alone = s.alone := by
  unfold Receiver.alone
  rw [take_take, Nat.min_self]

theorem byte_alone {i : ℕ} (hi : i < s.responseBufferPos) : s.alone.byte i = s.byte i := by
  show (s.responseBuffer.take s.responseBufferPos).getD i 0 = s.responseBuffer.getD i 0
  rw [getD_eq_getElem?_getD, getD_eq_getElem?_getD, getElem?_take_of_lt hi]

theorem packetLength_alone (h : 4 ≤ s.responseBufferPos) : s.alone.packetLength = s.packetLength := by
  unfold Receiver.packetLength
  rw [byte_alone (by omega), byte_alone (by omega)]

variable {endMarker : ℕ}

theorem word_beginning {word a t : Bytes} (hword : 0x0D ∉ word) (hat : a <+: t)
    (hend : strstr headerEnd t = some endMarker) (hin : endMarker + headerEnd.length ≤ a.length) :
    word <+: t ↔ word <+: a := by
  refine ⟨fun h => ?_, fun h => h.trans hat⟩
  have hlen : word.length ≤ endMarker := by
    by_contra hlt
    have hmarker := ((strstr_eq_some (by decide)).1 hend).1
    obtain ⟨rest, rfl⟩ := h
    have hcr : (word ++ rest)[endMarker]? = some 0x0D := by
      obtain ⟨more, hmore⟩ := hmarker
      have hhead := congrArg List.head? hmore
      rw [head?_drop] at hhead
      exact hhead.symm
    rw [getElem?_append_left (by omega)] at hcr
    exact hword (mem_of_getElem? hcr)
  exact prefix_of_prefix_length_le h hat (by omega)

theorem serverMethods_noCr : ∀ word ∈ serverMethods, (0x0D : UInt8) ∉ word := by decide

theorem request_alone (h : s.responseBufferPos ≤ s.responseBuffer.length)
    (hreq : isServerRequest s = true) (hend : strstr headerEnd s.text = some endMarker)
    (hin : endMarker + headerEnd.length ≤ s.responseBufferPos) :
    isServerRequest s.alone = true ∧ strstr headerEnd s.alone.text = some endMarker ∧
      (ascii "ANNOUNCE" <+: s.text ↔ ascii "ANNOUNCE" <+: s.alone.text) ∧
      endMarker + headerEnd.length ≤ s.alone.text.length := by
  obtain ⟨hat, hlen⟩ := alone_text h
  have hfits : endMarker + headerEnd.length ≤ s.alone.text.length := by
    rcases hlen with hlen | ⟨heq, -⟩
    · omega
    · rw [heq]
      exact strstr_length (by decide) hend
  refine ⟨?_, strstr_in_beginning (by decide) hat hend hfits,
    word_beginning (serverMethods_noCr _ (by decide)) hat hend hfits, hfits⟩
  unfold isServerRequest at hreq ⊢
  rw [Bool.and_eq_true, List.any_eq_true] at hreq ⊢
  obtain ⟨h8, word, hword, hp⟩ := hreq
  refine ⟨h8, word, hword, decide_eq_true ?_⟩
  exact (word_beginning (serverMethods_noCr word hword) hat hend hfits).1 (of_decide_eq_true hp)

theorem requestTurn_alone (h : s.responseBufferPos ≤ s.responseBuffer.length) (hc : Contained s) :
    (requestTurn s).alone = (requestTurn s.alone).alone := by
  obtain ⟨hat, hlen⟩ := alone_text h
  have hpos : s.alone.responseBufferPos = s.responseBufferPos := rfl
  have hstop : (Turn.stop s).alone = (Turn.stop s.alone).alone :=
    congrArg Turn.stop (alone_alone s).symm
  have hrequest : isServerRequest s.alone = true → isServerRequest s = true := by
    unfold isServerRequest
    rw [Bool.and_eq_true, Bool.and_eq_true, List.any_eq_true, List.any_eq_true]
    rintro ⟨h8, word, hword, hp⟩
    exact ⟨h8, word, hword, decide_eq_true ((of_decide_eq_true hp).trans hat)⟩
  unfold requestTurn
  cases hend : strstr headerEnd s.text with
  | none =>
    rw [strstr_none_beginning (by decide) hat hend]
    simp only [ite_self]
    exact hstop
  | some endMarker =>
    by_cases hreq : isServerRequest s = true
    · obtain ⟨hin, hvalue⟩ := hc endMarker hreq hend
      obtain ⟨hreq', hend', hann, hfits⟩ := request_alone h hreq hend hin
      have hcseq := (cseqOf_beginning hat hlen hend hfits).2 hvalue
      have hroom : ¬ s.responseBufferPos < endMarker + 4 := not_lt.2 hin
      rw [if_pos hreq, if_pos hreq', hend']
      simp only [hpos, if_neg hroom, ← hann, ← hcseq]
      let answered : Receiver σ :=
        { s with sent := s.sent ++ [requestReply (cseqOf s.text endMarker)] }
      have hdrop : (answered.alone.dropFront (endMarker + 4)).alone =
          (answered.dropFront (endMarker + 4)).alone := alone_dropFront h
      split
      · exact congrArg Turn.announced hdrop.symm
      · exact congrArg (Turn.next 0) hdrop.symm
    · rw [if_neg hreq, if_neg (mt hrequest hreq)]
      exact hstop

theorem requestTurn_sent (hreq : isServerRequest s = true)
    (hend : strstr headerEnd s.text = some endMarker)
    (hin : endMarker + headerEnd.length ≤ s.responseBufferPos) :
    ∃ s', (requestTurn s).state = some s' ∧
      s'.sent = s.sent ++ [requestReply (cseqOf s.text endMarker)] := by
  have hroom : ¬ s.responseBufferPos < endMarker + 4 := not_lt.2 hin
  unfold requestTurn
  rw [if_pos hreq, hend]
  simp only [if_neg hroom]
  split
  · exact ⟨_, rfl, rfl⟩
  · exact ⟨_, rfl, rfl⟩

theorem turn_request (h : s.responseBufferPos ≤ s.responseBuffer.length)
    (hreq : isServerRequest s = true) : turn m s = requestTurn s := by
  unfold isServerRequest at hreq
  rw [Bool.and_eq_true, decide_eq_true_eq, List.any_eq_true] at hreq
  obtain ⟨h8, word, hword, hp⟩ := hreq
  have hletter : ∀ word ∈ serverMethods, ∃ c, word.head? = some c ∧ c ≠ dollar := by
    intro word hword
    unfold serverMethods at hword
    simp only [List.mem_cons, not_mem_nil, or_false] at hword
    rcases hword with rfl | rfl | rfl
    · exact ⟨0x41, rfl, by decide⟩
    · exact ⟨0x4F, rfl, by decide⟩
    · exact ⟨0x53, rfl, by decide⟩
  obtain ⟨c, hc, hne⟩ := hletter word hword
  have hbyte : s.byte 0 = c := by
    obtain ⟨rest, hrest⟩ := (of_decide_eq_true hp).trans
      ( takeWhile_prefix (p := (· ≠ (0 : UInt8))) (l := s.responseBuffer ++ s.behind))
    obtain ⟨b, buffer, hbuffer⟩ := exists_cons_of_length_pos
      (show 0 < s.responseBuffer.length by omega)
    obtain ⟨w, tail, rfl⟩ := exists_cons_of_ne_nil
      (show word ≠ [] from fun hnil => by rw [hnil] at hc; cases hc)
    rw [hbuffer] at hrest
    have hwb : w = b := (cons_eq_cons.1 hrest).1
    show s.responseBuffer.getD 0 0 = c
    rw [hbuffer, ← hwb]
    exact some.inj hc
  unfold turn
  rw [if_neg (by omega), hbyte, if_pos hne]

theorem resync_alone (h : s.responseBufferPos ≤ s.responseBuffer.length) :
    (resync s).alone = (resync s.alone).alone := by
  unfold resync
  have hsame : s.alone.responseBuffer.take s.alone.responseBufferPos =
      s.responseBuffer.take s.responseBufferPos := by
    show (s.responseBuffer.take _).take _ = _
    rw [take_take]
    exact congrArg (s.responseBuffer.take ·) (Nat.min_self _)
  rw [hsame]
  split
  · exact (alone_dropFront h).symm
  · unfold Receiver.alone
    congr 1

theorem deliver_alone (m : MediaPath σ) (channel : ℤ) (payload : Bytes) (s : Receiver σ) :
    deliver m channel payload s.alone =
      ((deliver m channel payload s).1, (deliver m channel payload s).2.alone) := by
  unfold deliver
  by_cases ht : s.teardownRequested = true
  · rw [if_pos ht, if_pos (show s.alone.teardownRequested = true from ht)]
  rw [if_neg ht, if_neg (show ¬ s.alone.teardownRequested = true from ht)]
  by_cases hch : channel = s.rtpChannel
  · rw [if_pos hch, if_pos (show channel = s.alone.rtpChannel from hch)]
    rcases hm : m.bufferPoolAlloc s.world with ⟨got, world⟩
    rw [show m.bufferPoolAlloc s.alone.world = (got, world) from hm]
    cases got <;> rfl
  · rw [if_neg hch, if_neg (show ¬ channel = s.alone.rtpChannel from hch)]

theorem turn_alone (h : s.responseBufferPos ≤ s.responseBuffer.length) (hc : Contained s) :
    (turn m s).alone = (turn m s.alone).alone := by
  have hstop : (Turn.stop s).alone = (Turn.stop s.alone).alone :=
    congrArg Turn.stop (alone_alone s).symm
  have hpos : s.alone.responseBufferPos = s.responseBufferPos := rfl
  unfold turn
  by_cases hfew : s.responseBufferPos < 4
  · simp [*]
  rw [if_neg hfew, hpos, if_neg hfew, byte_alone (by omega), packetLength_alone (by omega)]
  by_cases hdollar : s.byte 0 ≠ dollar
  · rw [if_pos hdollar, if_pos hdollar]
    exact requestTurn_alone h hc
  rw [if_neg hdollar, if_neg hdollar]
  by_cases hshort : s.responseBufferPos < 4 + s.packetLength
  · simp [*]
  rw [if_neg hshort, if_neg hshort]
  by_cases hlarge : s.packetLength > bufferPoolBufferSize
  · rw [if_pos hlarge, if_pos hlarge]
    exact congrArg Turn.stop (resync_alone h)
  rw [if_neg hlarge, if_neg hlarge, byte_alone (by omega)]
  have hpayload : (s.alone.responseBuffer.drop 4).take s.packetLength =
      (s.responseBuffer.drop 4).take s.packetLength := by
    show ((s.responseBuffer.take s.responseBufferPos).drop 4).take _ = _
    rw [drop_take, take_take, Nat.min_eq_left (by omega)]
  rw [hpayload]
  dsimp only
  rw [deliver_alone]
  obtain ⟨hbuffer, hpos', -⟩ := deliver_keeps m (s.byte 1).toNat
    ((s.responseBuffer.drop 4).take s.packetLength) s
  refine congrArg (Turn.next _) (alone_dropFront ?_).symm
  rw [hbuffer, hpos']
  exact h

end Round

/-! ## A call -/

namespace Processed

def state : Processed σ → Option (Receiver σ)
  | forwarded _ s => some s
  | announced s => some s
  | underflow => none
  | outOfFuel => none

def alone : Processed σ → Processed σ
  | forwarded bytes s => forwarded bytes s.alone
  | announced s => announced s.alone
  | underflow => underflow
  | outOfFuel => outOfFuel

end Processed

/-- The same call on a buffer that ends, in every round, where the received bytes end. -/
def processAlone (m : MediaPath σ) (s : Receiver σ) : Processed σ :=
  rounds (fun s => turn m s.alone) (s.responseBufferPos + 1) 0 s

/-- The heads of the loop in a call. -/
inductive Heads (m : MediaPath σ) : Receiver σ → Receiver σ → Prop
  | here (s : Receiver σ) : Heads m s s
  | next {s s' t : Receiver σ} {pb : ℤ} (h : turn m s = .next pb s') (ht : Heads m s' t) :
      Heads m s t

/-- The call decides on the received bytes: what it returns, sends, hands on and keeps is what
    it makes of these bytes alone, and it takes off no more bytes than there are. -/
structure DecidesOnReceived (m : MediaPath σ) (s : Receiver σ) : Prop where
  same : (rtspProcessInterleavedBuffer m s).alone = (processAlone m s).alone
  enough : rtspProcessInterleavedBuffer m s ≠ .underflow

section Call

variable {m : MediaPath σ}

theorem turn_sent {s s' : Receiver σ} (h : (turn m s).state = some s') : s.sent <+: s'.sent := by
  unfold turn at h
  split at h
  · exact some.inj h ▸ prefix_rfl
  split at h
  · unfold requestTurn at h
    split at h
    · split at h
      · dsimp only at h
        split at h
        · cases h
        split at h
        · exact some.inj h ▸ prefix_append _ _
        · exact some.inj h ▸ prefix_append _ _
      · exact some.inj h ▸ prefix_rfl
    · exact some.inj h ▸ prefix_rfl
  split at h
  · exact some.inj h ▸ prefix_rfl
  split at h
  · rw [← some.inj h]
    unfold resync
    split
    · exact prefix_rfl
    · exact prefix_rfl
  · rw [← some.inj h]
    exact (congrArg (s.sent <+: ·) (deliver_keeps m _ _ s).2.2.2).mpr prefix_rfl

variable {fuel : ℕ} {f : Receiver σ → Receiver σ}

theorem rounds_sent (hf : ∀ s, (f s).sent = s.sent) {bytes : ℤ} {s o : Receiver σ}
    (h : (rounds (fun s => turn m (f s)) fuel bytes s).state = some o) : s.sent <+: o.sent := by
  induction fuel generalizing bytes s with
  | zero => cases h
  | succ fuel ih =>
    rw [rounds] at h
    rw [← hf s]
    split at h
    · rename_i hnext
      exact (turn_sent (by rw [hnext]; rfl)).trans (ih h)
    · rename_i hstop
      refine turn_sent (m := m) (s := f s) ?_
      rw [hstop]
      exact h
    · rename_i hann
      refine turn_sent (m := m) (s := f s) ?_
      rw [hann]
      exact h
    · cases h

theorem round_sent (hf : ∀ s, (f s).sent = s.sent) {bytes : ℤ} {s s' o : Receiver σ}
    (hs : (turn m (f s)).state = some s')
    (h : (rounds (fun s => turn m (f s)) (fuel + 1) bytes s).state = some o) :
    s'.sent <+: o.sent := by
  rw [rounds] at h
  split at h
  · rename_i hnext
    rw [hnext] at hs
    exact some.inj hs ▸ rounds_sent hf h
  · rename_i hstop
    rw [hstop] at hs
    exact some.inj (hs.symm.trans h) ▸ prefix_rfl
  · rename_i hann
    rw [hann] at hs
    exact some.inj (hs.symm.trans h) ▸ prefix_rfl
  · cases h

variable {s : Receiver σ}

theorem turn_alone_enough (h : s.responseBufferPos ≤ s.responseBuffer.length) :
    turn m s.alone ≠ .underflow := by
  intro hunder
  unfold turn at hunder
  split at hunder
  · cases hunder
  split at hunder
  · unfold requestTurn at hunder
    split at hunder
    · split at hunder
      · rename_i endMarker hend
        dsimp only at hunder
        split at hunder
        · rename_i hlt
          have hfits := strstr_length (by decide) hend
          have hlen : s.alone.text.length ≤ s.responseBufferPos := by
            rcases (alone_text h).2 with hlen | ⟨heq, hle⟩
            · exact hlen.le
            · rw [heq]
              exact hle
          have hpos : s.alone.responseBufferPos = s.responseBufferPos := rfl
          have h4 : headerEnd.length = 4 := rfl
          omega
        split at hunder <;> cases hunder
      · cases hunder
    · cases hunder
  split at hunder
  · cases hunder
  split at hunder <;> cases hunder

theorem rounds_alone_enough {bytes : ℤ} (h : s.responseBufferPos ≤ s.responseBuffer.length) :
    rounds (fun s => turn m s.alone) fuel bytes s ≠ .underflow := by
  induction fuel generalizing bytes s with
  | zero => exact fun hunder => by cases hunder
  | succ fuel ih =>
    rw [rounds]
    split
    · rename_i hnext
      exact ih (turn_next_inside hnext (alone_inside h)).1
    · exact fun hunder => by cases hunder
    · exact fun hunder => by cases hunder
    · rename_i hunder
      exact absurd hunder (turn_alone_enough h)

theorem rounds_same {bytes : ℤ} {s t : Receiver σ} (hst : s.alone = t.alone)
    (hs : s.responseBufferPos ≤ s.responseBuffer.length)
    (ht : t.responseBufferPos ≤ t.responseBuffer.length) (hc : ∀ s', Heads m s s' → Contained s') :
    (rounds (turn m) fuel bytes s).alone =
      (rounds (fun s => turn m s.alone) fuel bytes t).alone := by
  induction fuel generalizing bytes s t with
  | zero => rfl
  | succ fuel ih =>
    have hturn : (turn m s).alone = (turn m t.alone).alone :=
      hst ▸ turn_alone hs (hc s (Heads.here s))
    have hagree := agrees_of_alone hturn
    rw [rounds, rounds]
    generalize hs' : turn m s = a at hagree
    generalize ht' : turn m t.alone = b at hagree
    cases hagree with
    | next pb halone =>
      exact ih halone (turn_next_inside hs' hs).1 (turn_next_inside ht' (alone_inside ht)).1
        fun u hu => hc u (Heads.next hs' hu)
    | stop halone => exact congrArg (Processed.forwarded bytes) halone
    | announced halone => exact congrArg Processed.announced halone
    | underflow => rfl

theorem turn_apart (h : s.responseBufferPos ≤ s.responseBuffer.length) (hc : ¬ Contained s) :
    turn m s = .underflow ∨
      ∃ s' t' r r', (turn m s).state = some s' ∧ (turn m s.alone).state = some t' ∧
        s'.sent = s.sent ++ [r] ∧ t'.sent = s.sent ++ [r'] ∧ r ≠ r' := by
  unfold Contained at hc
  push Not at hc
  obtain ⟨endMarker, hreq, hend, hout⟩ := hc
  rw [turn_request h hreq]
  by_cases hin : endMarker + headerEnd.length ≤ s.responseBufferPos
  · right
    obtain ⟨hreq', hend', -, hfits⟩ := request_alone h hreq hend hin
    obtain ⟨hat, hlen⟩ := alone_text h
    obtain ⟨s', hs', hsent⟩ := requestTurn_sent hreq hend hin
    obtain ⟨t', ht', hsent'⟩ := requestTurn_sent hreq' hend' hin
    rw [turn_request (alone_inside h) hreq']
    refine ⟨s', t', _, _, hs', ht', hsent, hsent', fun heq => hout hin ?_⟩
    refine (cseqOf_beginning hat hlen hend hfits).1 ?_
    exact append_cancel_left (append_cancel_right heq)
  · left
    unfold requestTurn
    rw [if_pos hreq, hend]
    exact if_pos (not_le.1 hin)

theorem contained_of_same {bytes : ℤ} {s t : Receiver σ} (hst : s.alone = t.alone)
    (hs : s.responseBufferPos ≤ s.responseBuffer.length)
    (ht : t.responseBufferPos ≤ t.responseBuffer.length) (hfuel : s.responseBufferPos < fuel + 1)
    (hsame : (rounds (turn m) (fuel + 1) bytes s).alone =
      (rounds (fun s => turn m s.alone) (fuel + 1) bytes t).alone) : Contained s := by
  by_contra hc
  have hpos : t.responseBufferPos = s.responseBufferPos :=
    (congrArg Receiver.responseBufferPos hst).symm
  have hright : ∃ o, (rounds (fun s => turn m s.alone) (fuel + 1) bytes t).state = some o := by
    cases hr : rounds (fun s => turn m s.alone) (fuel + 1) bytes t with
    | forwarded bytes o => exact ⟨o, rfl⟩
    | announced o => exact ⟨o, rfl⟩
    | underflow => exact absurd hr (rounds_alone_enough ht)
    | outOfFuel => exact absurd hr (rounds_end (f := Receiver.alone) (fun _ => rfl) (by omega))
  obtain ⟨o', ho'⟩ := hright
  have hstate : ∀ a b : Processed σ, a.alone = b.alone → b.state = some o' →
      ∃ o, a.state = some o ∧ o.sent = o'.sent := by
    intro a b hab hb
    cases a <;> cases b <;> first | cases hab; done | cases hb; done | skip
    · rename_i s₁ _ s₂
      obtain rfl := some.inj hb
      obtain ⟨-, halone⟩ := Processed.forwarded.inj (show Processed.forwarded _ _ = _ from hab)
      exact ⟨s₁, rfl, show s₁.alone.sent = s₂.alone.sent by rw [halone]⟩
    · rename_i s₁ s₂
      obtain rfl := some.inj hb
      have halone := Processed.announced.inj (show Processed.announced _ = _ from hab)
      exact ⟨s₁, rfl, show s₁.alone.sent = s₂.alone.sent by rw [halone]⟩
  obtain ⟨o, ho, hsent⟩ := hstate _ _ hsame ho'
  rcases turn_apart (m := m) hs hc with hunder | ⟨s', t', r, r', hs', ht', hrs, hrt, hne⟩
  · rw [rounds, hunder] at ho
    cases ho
  · have hleft := round_sent (f := id) (fun _ => rfl) hs' ho
    have hright := round_sent (f := Receiver.alone) (fun _ => rfl) (hst ▸ ht') ho'
    rw [hrs, hsent] at hleft
    rw [hrt] at hright
    have hlen : (s.sent ++ [r]).length = (s.sent ++ [r']).length := by simp
    have heq := prefix_of_prefix_length_le hleft hright hlen.le
    exact hne (cons_eq_cons.1 (append_cancel_left (heq.eq_of_length hlen))).1

theorem contained_of_rounds {s s' : Receiver σ} (hheads : Heads m s s') :
    ∀ {fuel : ℕ} {bytes : ℤ} {t : Receiver σ}, s.alone = t.alone →
      s.responseBufferPos ≤ s.responseBuffer.length →
      t.responseBufferPos ≤ t.responseBuffer.length → s.responseBufferPos < fuel →
      (rounds (turn m) fuel bytes s).alone =
        (rounds (fun s => turn m s.alone) fuel bytes t).alone → Contained s' := by
  induction hheads with
  | here s =>
    intro fuel bytes t hst hs ht hfuel hsame
    obtain ⟨fuel, rfl⟩ : ∃ k, fuel = k + 1 := ⟨fuel - 1, by omega⟩
    exact contained_of_same hst hs ht hfuel hsame
  | @next s s₁ u pb hnext _ ih =>
    intro fuel bytes t hst hs ht hfuel hsame
    obtain ⟨fuel, rfl⟩ : ∃ k, fuel = k + 1 := ⟨fuel - 1, by omega⟩
    have hturn : (turn m s).alone = (turn m t.alone).alone := by
      rw [← hst]
      exact turn_alone hs (contained_of_same hst hs ht hfuel hsame)
    have hagree := agrees_of_alone hturn
    rw [rounds, rounds, hnext] at hsame
    rw [hnext] at hagree
    generalize ht' : turn m t.alone = b at hagree hsame
    cases hagree with
    | next _ halone =>
      have hlt := turn_next_lt hnext
      exact ih halone (turn_next_inside hnext hs).1 (turn_next_inside ht' (alone_inside ht)).1
        (by omega) hsame

/-- A call decides on the received bytes exactly when each of its rounds is contained. -/
theorem decidesOnReceived_iff {s : Receiver σ}
    (h : s.responseBufferPos ≤ s.responseBuffer.length) :
    DecidesOnReceived m s ↔ ∀ s', Heads m s s' → Contained s' := by
  constructor
  · intro hdecides s' hheads
    exact contained_of_rounds hheads rfl h h (Nat.lt_succ_self _) hdecides.same
  · intro hc
    have hsame : (rounds (turn m) (s.responseBufferPos + 1) 0 s).alone =
        (rounds (fun s => turn m s.alone) (s.responseBufferPos + 1) 0 s).alone :=
      rounds_same rfl h h hc
    refine ⟨hsame, fun hunder => ?_⟩
    rw [show rounds (turn m) (s.responseBufferPos + 1) 0 s = .underflow from hunder] at hsame
    generalize hr : rounds (fun s => turn m s.alone) (s.responseBufferPos + 1) 0 s = r at hsame
    cases r with
    | underflow => exact rounds_alone_enough h hr
    | forwarded bytes o => cases hsame
    | announced o => cases hsame
    | outOfFuel => cases hsame

end Call

/-- A media path that takes every packet and forwards nothing. -/
def quietPath : MediaPath Unit where
  bufferPoolAlloc := fun world => (true, world)
  streamProcessRtpPayload := fun _ world => (0, world)

/-- The first 8 bytes of a request in a buffer that an earlier request has been in. -/
def staleRequest : Receiver Unit where
  responseBuffer := ascii "OPTIONS * RTSP/1.0\r\n\r\n" ++ List.replicate 4074 0
  responseBufferPos := 8
  behind := []
  teardownRequested := false
  rtpChannel := 0
  firstMediaReceived := true
  packetsDropped := 0
  sent := []
  world := ()

theorem staleRequest_size : staleRequest.responseBuffer.length = rtspResponseBufferSize := by
  show (ascii "OPTIONS * RTSP/1.0\r\n\r\n" ++ List.replicate 4074 0).length = _
  rw [length_append, length_replicate]
  rfl

theorem staleRequest_decides : staleRequest.responseBufferPos ≤ staleRequest.responseBuffer.length ∧
      (DecidesOnReceived quietPath staleRequest ↔
        ∀ s', Heads quietPath staleRequest s' → Contained s') :=
  have hfill : staleRequest.responseBufferPos ≤ staleRequest.responseBuffer.length := by
    rw [staleRequest_size]
    decide
  ⟨hfill, decidesOnReceived_iff hfill⟩

/-- The end of the earlier request completes the new one: 22 bytes are taken off 8. -/
theorem stale_end_marker : staleRequest.responseBuffer.length = rtspResponseBufferSize ∧
      ¬ DecidesOnReceived quietPath staleRequest :=
  ⟨staleRequest_size, fun h => h.enough rfl⟩

end Apackage.Rtp2httpd.Rtsp
