import Mathlib.Order.Bounds.Basic
import Apackage.Rtp2httpd.Http.Url

/-
  NAL units behind start codes (`annexb.ts`, `h264.ts`).

  `findAnnexBStartCodeOffset` goes from one byte 1 to the next and looks back for zeros;
  `H264AnnexBParser` takes what is between one start code and the next. A start code of three bytes
  has a byte behind it, one of four may stand at the end, with an empty unit of type 0.
-/

namespace Apackage.Rtp2httpd.Player.AnnexB

open List

/-! ## The code -/

/-- `data.indexOf(1, from)`. -/
def indexOfOne (data : Bytes) (from_ : ℕ) : Option ℕ :=
  ((data.drop from_).findIdx? (· == 1)).map (from_ + ·)

def scanLoop (data : Bytes) (startOffset : ℕ) : ℕ → ℕ → ℕ
  | 0, _ => data.length
  | n + 1, oneOffset =>
    if oneOffset < data.length then
      match indexOfOne data oneOffset with
      | none => data.length
      | some oneOffset =>
        if data[oneOffset - 1]? ≠ some 0 ∨ data[oneOffset - 2]? ≠ some 0 then
          scanLoop data startOffset n (oneOffset + 1)
        else
          let startCodeOffset :=
            if startOffset + 3 ≤ oneOffset ∧ data[oneOffset - 3]? = some 0 then oneOffset - 3
            else oneOffset - 2
          if startOffset ≤ startCodeOffset ∧ startCodeOffset + 3 < data.length then startCodeOffset
          else scanLoop data startOffset n (oneOffset + 1)
    else data.length

def findAnnexBStartCodeOffset (data : Bytes) (startOffset : ℕ) : ℕ :=
  scanLoop data startOffset data.length (startOffset + 2)

/-- `H264NaluPayload`. -/
structure H264NaluPayload where
  type : UInt8
  data : Bytes

/-- `current_startcode_offset_` and `eof_flag_`. -/
structure Position where
  offset : ℕ
  eof : Bool

def findNextStartCodeOffset (data : Bytes) (startOffset : ℕ) : Position :=
  let offset := findAnnexBStartCodeOffset data startOffset
  ⟨offset, offset == data.length⟩

def naluReserved0 : UInt8 := 14

/-- `startcode_offset` plus 4 or 3. -/
def payloadOffset (data : Bytes) (offset : ℕ) : ℕ :=
  if (data.drop offset).take 4 = [0, 0, 0, 1] then offset + 4 else offset + 3

/-- A byte of the data; behind the end it counts as 0. -/
def byteFrom (data : Bytes) (offset : ℕ) : UInt8 := data.getD offset 0

def readNextNaluPayload (data : Bytes) : ℕ → Position → Option H264NaluPayload × Position
  | 0, p => (none, p)
  | n + 1, p =>
    if p.eof then (none, p)
    else
      let offset := payloadOffset data p.offset
      let naluType := byteFrom data offset &&& 0x1f
      let forbiddenBit := (byteFrom data offset &&& 0x80) >>> 7
      let next := findNextStartCodeOffset data offset
      if naluReserved0 ≤ naluType then readNextNaluPayload data n next
      else if forbiddenBit ≠ 0 then readNextNaluPayload data n next
      else (some ⟨naluType, (data.take next.offset).drop offset⟩, next)

/-- What the parser returns until it returns nothing. -/
def payloads (data : Bytes) : ℕ → Position → List H264NaluPayload
  | 0, _ => []
  | n + 1, p =>
    match readNextNaluPayload data data.length p with
    | (none, _) => []
    | (some nalu, next) => nalu :: payloads data n next

/-- `new H264AnnexBParser(data)`, read to its end. -/
def parse (data : Bytes) : List H264NaluPayload :=
  payloads data data.length (findNextStartCodeOffset data 0)

/-! ## Start codes -/

/-- A start code at `o` whose last byte is the 1 at `p`. -/
def CodeAt (data : Bytes) (o p : ℕ) : Prop :=
  (p = o + 2 ∧ data[o]? = some 0 ∧ data[o + 1]? = some 0 ∧ data[o + 2]? = some 1 ∧
      o + 3 < data.length) ∨
    p = o + 3 ∧ data[o]? = some 0 ∧ data[o + 1]? = some 0 ∧ data[o + 2]? = some 0 ∧
      data[o + 3]? = some 1

def StartCode (data : Bytes) (o : ℕ) : Prop := ∃ p, CodeAt data o p

/-- The first start code from `start` on, or the length if there is none. -/
def Found (data : Bytes) (start r : ℕ) : Prop :=
  IsLeast {o | start ≤ o ∧ StartCode data o} r ∨
    r = data.length ∧ ∀ o, start ≤ o → ¬ StartCode data o

variable {data : Bytes} {o p start : ℕ}

theorem CodeAt.before (h : CodeAt data o p) : data[p]? = some 1 ∧ data[p - 1]? = some 0 ∧
    data[p - 2]? = some 0 ∧ (p = o + 2 ∨ p = o + 3) := by
  obtain ⟨rfl, h0, h1, h2, -⟩ | ⟨rfl, h0, h1, h2, h3⟩ := h
  · exact ⟨h2, h1, h0, .inl rfl⟩
  · exact ⟨h3, h2, h1, .inr rfl⟩

variable {from_ : ℕ}

theorem indexOfOne_spec (h : indexOfOne data from_ = some p) :
    from_ ≤ p ∧ data[p]? = some 1 ∧ ∀ q, from_ ≤ q → data[q]? = some 1 → p ≤ q := by
  obtain ⟨i, hi, rfl⟩ := Option.map_eq_some_iff.1 h
  obtain ⟨hlt, hone, hfirst⟩ := findIdx?_eq_some_iff_getElem.1 hi
  refine ⟨Nat.le_add_right _ _, ?_, fun q hq hq' => ?_⟩
  · rw [← getElem?_drop, getElem?_eq_getElem hlt, beq_iff_eq.1 hone]
  · by_contra hbefore
    refine hfirst (q - from_) (by omega) ?_
    have hdrop : (data.drop from_)[q - from_]? = some 1 := by
      rw [getElem?_drop, Nat.add_sub_cancel' hq, hq']
    obtain ⟨hlt', heq⟩ := List.getElem?_eq_some_iff.1 hdrop
    rw [heq]
    rfl

theorem indexOfOne_none (h : indexOfOne data from_ = none) {q : ℕ} (hq : from_ ≤ q) :
    data[q]? ≠ some 1 := by
  intro hone
  have hnone := findIdx?_eq_none_iff.1 (Option.map_eq_none_iff.1 h) 1
  refine absurd (hnone ?_) (by decide)
  rw [mem_iff_getElem?]
  refine ⟨q - from_, ?_⟩
  rw [getElem?_drop, Nat.add_sub_cancel' hq, hone]

theorem scanLoop_found (n : ℕ) {one : ℕ} (hn : data.length - one ≤ n) (hstart : start + 2 ≤ one)
    (hpast : ∀ o p, start ≤ o → CodeAt data o p → one ≤ p) :
    Found data start (scanLoop data start n one) := by
  have hlast {o p : ℕ} (h : CodeAt data o p) : p < data.length :=
    (List.getElem?_eq_some_iff.1 h.before.1).1
  induction n generalizing one with
  | zero =>
    refine .inr ⟨rfl, fun o ho hcode => ?_⟩
    obtain ⟨p, hp⟩ := hcode
    have hle := hpast o p ho hp
    have hlt := hlast hp
    omega
  | succ n ih =>
    rw [scanLoop]
    by_cases hend : one < data.length
    swap
    · rw [if_neg hend]
      refine .inr ⟨rfl, fun o ho hcode => ?_⟩
      obtain ⟨p, hp⟩ := hcode
      have hle := hpast o p ho hp
      have hlt := hlast hp
      omega
    rw [if_pos hend]
    cases hindex : indexOfOne data one with
    | none =>
      refine .inr ⟨rfl, fun o ho hcode => ?_⟩
      obtain ⟨p, hp⟩ := hcode
      exact indexOfOne_none hindex (hpast o p ho hp) hp.before.1
    | some p =>
      obtain ⟨hle, hone, hfirst⟩ := indexOfOne_spec hindex
      have hlt : p < data.length := (List.getElem?_eq_some_iff.1 hone).1
      have hnext (hnot : ∀ o, start ≤ o → ¬ CodeAt data o p) (o q : ℕ) (ho : start ≤ o)
          (hq : CodeAt data o q) : p + 1 ≤ q := by
        have hpq := hfirst q (hpast o q ho hq) hq.before.1
        have hne : q ≠ p := fun h => hnot o ho (h ▸ hq)
        omega
      dsimp only
      split_ifs with hzeros hfour hok hok
      · refine ih (by omega) (by omega) (hnext fun o _ hcode => ?_)
        obtain ⟨-, h1, h2, -⟩ := hcode.before
        exact hzeros.elim (fun h => h h1) fun h => h h2
      all_goals rw [not_or, not_not, not_not] at hzeros
      · have hcode : CodeAt data (p - 3) p := by
          refine .inr ⟨by omega, hfour.2, ?_, ?_, ?_⟩
          · rw [show p - 3 + 1 = p - 2 from by omega]; exact hzeros.2
          · rw [show p - 3 + 2 = p - 1 from by omega]; exact hzeros.1
          · rw [show p - 3 + 3 = p from by omega]; exact hone
        refine .inl ⟨⟨hok.1, p, hcode⟩, fun o ho => ?_⟩
        obtain ⟨ho, q, hq⟩ := ho
        have hpq := hfirst q (hpast o q ho hq) hq.before.1
        obtain ⟨-, -, -, hq' | hq'⟩ := hq.before <;> omega
      · omega
      · have hcode : CodeAt data (p - 2) p := by
          refine .inl ⟨by omega, hzeros.2, ?_, ?_, by omega⟩
          · rw [show p - 2 + 1 = p - 1 from by omega]; exact hzeros.1
          · rw [show p - 2 + 2 = p from by omega]; exact hone
        refine .inl ⟨⟨hok.1, p, hcode⟩, fun o ho => ?_⟩
        obtain ⟨ho, q, hq⟩ := ho
        have hpq := hfirst q (hpast o q ho hq) hq.before.1
        obtain ⟨-, h1, h2, hq'⟩ := hq.before
        obtain rfl | hne := Nat.eq_or_lt_of_le hpq
        · obtain hthree | hfour' := hq'
          · omega
          · refine absurd ⟨by omega, ?_⟩ hfour
            obtain ⟨hthree, -⟩ | ⟨-, h0, -⟩ := hq
            · omega
            · rw [hfour', Nat.add_sub_cancel]; exact h0
        · -- a later code begins behind this 1
          have hbyte {i : ℕ} (h : data[i]? = some 0) : i ≠ p := by
            rintro rfl
            rw [hone] at h
            exact absurd h (by decide)
          omega
      · refine ih (by omega) (by omega) (hnext fun o ho hcode => ?_)
        obtain ⟨hthree, -, -, -, hlen⟩ | ⟨hthree, h0, -⟩ := hcode
        · omega
        · refine hfour ⟨by omega, ?_⟩
          rw [hthree, Nat.add_sub_cancel]
          exact h0

theorem find_found (data : Bytes) (start : ℕ) :
    Found data start (findAnnexBStartCodeOffset data start) := by
  refine scanLoop_found data.length (by omega) le_rfl fun o p ho hp => ?_
  obtain ⟨-, -, -, hp' | hp'⟩ := hp.before <;> omega

/-! ## Units -/

/-- Start codes one behind the other: each is the first one from the end of the one before. -/
inductive Codes (data : Bytes) : ℕ → List ℕ → Prop
  | none {from_ : ℕ} : (∀ o, from_ ≤ o → ¬ StartCode data o) → Codes data from_ []
  | next {from_ c : ℕ} {codes : List ℕ} : IsLeast {o | from_ ≤ o ∧ StartCode data o} c →
      Codes data (payloadOffset data c) codes → Codes data from_ (c :: codes)

/-- What is between each start code and the next one or the end. -/
def units (data : Bytes) : List ℕ → List Bytes
  | [] => []
  | c :: codes =>
    (data.take (codes.headD data.length)).drop (payloadOffset data c) :: units data codes

/-- The type of a unit and its forbidden bit; those of an empty one are 0. -/
def payloadOf (unit : Bytes) : Option H264NaluPayload :=
  if unit.headD 0 &&& 0x1f < naluReserved0 ∧ (unit.headD 0 &&& 0x80) >>> 7 = 0 then
    some ⟨unit.headD 0 &&& 0x1f, unit⟩
  else none

theorem payloadOffset_le (h : StartCode data o) :
    o + 3 ≤ payloadOffset data o ∧ payloadOffset data o ≤ data.length ∧ o < data.length := by
  obtain ⟨p, ⟨-, h0, h1, h2, hlen⟩ | ⟨-, h0, h1, h2, h3⟩⟩ := h
  · have hnot : (data.drop o).take 4 ≠ [0, 0, 0, 1] := by
      intro htake
      have hthird := congrArg (·[2]?) htake
      rw [getElem?_take_of_lt (by decide), getElem?_drop, h2] at hthird
      exact absurd hthird (by decide)
    rw [payloadOffset, if_neg hnot]
    omega
  · have hlt := (List.getElem?_eq_some_iff.1 h3).1
    rw [payloadOffset]
    split <;> omega

theorem startCode_zero (h : StartCode data o) : data[o]? = some 0 := by
  obtain ⟨p, ⟨-, h0, -⟩ | ⟨-, h0, -⟩⟩ := h
  · exact h0
  · exact h0

theorem exists_codes (data : Bytes) (from_ : ℕ) : ∃ codes, Codes data from_ codes := by
  induction hn : data.length - from_ using Nat.strong_induction_on generalizing from_ with
  | _ n ih =>
    obtain hfirst | ⟨-, hnone⟩ := find_found data from_
    · obtain ⟨hle, hcode⟩ := hfirst.1
      obtain ⟨hoffset, -, hlt⟩ := payloadOffset_le hcode
      generalize findAnnexBStartCodeOffset data from_ = c at *
      obtain ⟨codes, hcodes⟩ := ih (data.length - payloadOffset data c) (by omega) _ rfl
      exact ⟨_, .next hfirst hcodes⟩
    · exact ⟨[], .none hnone⟩

variable {codes : List ℕ}

theorem Codes.length_le (h : Codes data from_ codes) : codes.length ≤ data.length - from_ := by
  induction h with
  | none => exact Nat.zero_le _
  | next hfirst _ ih =>
    obtain ⟨hoffset, hle, -⟩ := payloadOffset_le hfirst.1.2
    have hfrom := hfirst.1.1
    rw [length_cons]
    omega

theorem Codes.find (h : Codes data from_ codes) :
    findNextStartCodeOffset data from_ = ⟨codes.headD data.length, codes.isEmpty⟩ := by
  have hfound := find_found data from_
  unfold findNextStartCodeOffset
  cases h with
  | none hnone =>
    obtain hfirst | ⟨heq, -⟩ := hfound
    · exact absurd hfirst.1.2 (hnone _ hfirst.1.1)
    · rw [heq]
      simp
  | @next _ c codes hfirst _ =>
    obtain hfirst' | ⟨-, hnone⟩ := hfound
    · have hlt := (payloadOffset_le hfirst.1.2).2.2
      rw [hfirst'.unique hfirst]
      simp [hlt.ne]
    · exact absurd hfirst.1.2 (hnone _ hfirst.1.1)

theorem Codes.byteFrom (h : Codes data from_ codes) :
    byteFrom data from_ = ((data.take (codes.headD data.length)).drop from_).headD 0 := by
  rw [AnnexB.byteFrom, headD_eq_head?_getD, head?_drop, getD_eq_getElem?_getD]
  cases h with
  | none => rw [headD_nil, take_length]
  | @next _ c codes hfirst _ =>
    obtain ⟨hle, hcode⟩ := hfirst.1
    rw [headD_cons]
    obtain rfl | hlt := Nat.eq_or_lt_of_le hle
    · rw [startCode_zero hcode, getElem?_eq_none (by simp)]
      rfl
    · rw [getElem?_take_of_lt hlt]

theorem payloads_eq {from_ n : ℕ} (h : Codes data from_ codes) (hn : codes.length ≤ n) :
    payloads data n ⟨codes.headD data.length, codes.isEmpty⟩ =
      (units data codes).filterMap payloadOf := by
  have hread {m : ℕ} {from_ : ℕ} {codes : List ℕ} (h : Codes data from_ codes)
      (hm : codes.length ≤ m) :
      ((units data codes).filterMap payloadOf = [] ∧
        (readNextNaluPayload data m ⟨codes.headD data.length, codes.isEmpty⟩).1 = none) ∨
      ∃ nalu from_' codes', Codes data from_' codes' ∧ codes'.length < codes.length ∧
        (units data codes).filterMap payloadOf = nalu :: (units data codes').filterMap payloadOf ∧
        readNextNaluPayload data m ⟨codes.headD data.length, codes.isEmpty⟩ =
          (some nalu, ⟨codes'.headD data.length, codes'.isEmpty⟩) := by
    induction h generalizing m with
    | none => exact .inl ⟨rfl, by cases m <;> rfl⟩
    | @next from_ c codes hfirst hcodes ih =>
      obtain ⟨m, rfl⟩ : ∃ m', m = m' + 1 := ⟨m - 1, by rw [length_cons] at hm; omega⟩
      rw [length_cons, Nat.add_le_add_iff_right] at hm
      rw [readNextNaluPayload, units, filterMap_cons, payloadOf, ← hcodes.byteFrom]
      dsimp only [isEmpty_cons, headD_cons]
      rw [hcodes.find, if_neg Bool.false_ne_true]
      generalize AnnexB.byteFrom data (payloadOffset data c) = first
      generalize (data.take (codes.headD data.length)).drop (payloadOffset data c) = unit
      by_cases htype : naluReserved0 ≤ first &&& 0x1f
      · rw [if_pos htype, if_neg fun h => absurd h.1 (UInt8.not_lt.2 htype)]
        obtain hnone | ⟨nalu, from_', codes', hcodes', hlt, hunits, hrun⟩ := ih hm
        · exact .inl hnone
        · exact .inr ⟨nalu, from_', codes', hcodes', Nat.lt_succ_of_lt hlt, hunits, hrun⟩
      rw [if_neg htype]
      by_cases hbit : (first &&& 0x80) >>> 7 = 0
      · rw [if_neg (not_not.2 hbit), if_pos ⟨UInt8.not_le.1 htype, hbit⟩]
        exact .inr ⟨_, _, codes, hcodes, Nat.lt_succ_self _, rfl, rfl⟩
      · rw [if_pos hbit, if_neg fun h => hbit h.2]
        obtain hnone | ⟨nalu, from_', codes', hcodes', hlt, hunits, hrun⟩ := ih hm
        · exact .inl hnone
        · exact .inr ⟨nalu, from_', codes', hcodes', Nat.lt_succ_of_lt hlt, hunits, hrun⟩
  induction n generalizing from_ codes with
  | zero =>
    rw [eq_nil_of_length_eq_zero (Nat.le_zero.1 hn)]
    rfl
  | succ n ih =>
    have hm : codes.length ≤ data.length := h.length_le.trans (Nat.sub_le _ _)
    rw [payloads]
    obtain ⟨hunits, hrun⟩ | ⟨nalu, from_', codes', hcodes', hlt, hunits, hrun⟩ := hread h hm
    · grind
    · rw [hrun, hunits]
      dsimp only
      rw [ih hcodes' (by omega)]

/-- The search finds the first start code or the end, and the parser returns the units behind the
    start codes whose type and forbidden bit are in order. -/
theorem annexb_units (data : Bytes) :
    (∀ start, Found data start (findAnnexBStartCodeOffset data start)) ∧
      ∃ codes, Codes data 0 codes ∧ parse data = (units data codes).filterMap payloadOf := by
  refine ⟨find_found data, ?_⟩
  obtain ⟨codes, hcodes⟩ := exists_codes data 0
  refine ⟨codes, hcodes, ?_⟩
  rw [parse, hcodes.find]
  exact payloads_eq hcodes hcodes.length_le

end Apackage.Rtp2httpd.Player.AnnexB
