import Mathlib.Data.List.Find
import Mathlib.Data.List.TakeDrop
import Apackage.Lib.BitSyntax
import Apackage.Rtp2httpd.Http.Url

/-
  The bit reader of the demuxer (`exp-golomb.ts`).

  `ExpGolomb` keeps up to four bytes in `_current_word` and refills it when a field needs more. Its
  view are the bits that are left of the word and those of the bytes behind it. A field over two
  words is put together by `(result << n) | …`, a signed number: 32 bits come out negative when the
  highest is set. A field that wants more bits than the last word has is cut short; the reader
  throws when no byte is left.
-/

namespace Apackage.Rtp2httpd.Player

open List Option Lib.BitSyntax

structure ExpGolomb where
  /-- The bytes from `_buffer_index` on. -/
  buffer : Bytes
  currentWord : UInt32
  currentWordBitsLeft : ℕ
  bitsLeft_le : currentWordBitsLeft ≤ 32

namespace ExpGolomb

def ofBytes (data : Bytes) : ExpGolomb := ⟨data, 0, 0, Nat.zero_le 32⟩

/-- `getUint32` of up to four bytes. -/
def wordOf (data : Bytes) : UInt32 :=
  UInt32.ofNat ((data.getD 0 0).toNat * 16777216 + (data.getD 1 0).toNat * 65536 +
    (data.getD 2 0).toNat * 256 + (data.getD 3 0).toNat)

/-- `_fillCurrentWord`, none when it throws. -/
def fillCurrentWord (gb : ExpGolomb) : Option ExpGolomb :=
  if gb.buffer = [] then none
  else some ⟨gb.buffer.drop 4, wordOf gb.buffer, 8 * min 4 gb.buffer.length, by omega⟩

/-- `this._current_word <<= bits`. -/
def shift (gb : ExpGolomb) (bits : ℕ) : ExpGolomb :=
  ⟨gb.buffer, gb.currentWord <<< UInt32.ofNat bits, gb.currentWordBitsLeft - bits,
    (Nat.sub_le _ _).trans gb.bitsLeft_le⟩

variable (gb : ExpGolomb)

@[simp] theorem shift_bitsLeft (bits : ℕ) :
    (gb.shift bits).currentWordBitsLeft = gb.currentWordBitsLeft - bits := rfl

@[simp] theorem shift_buffer (bits : ℕ) : (gb.shift bits).buffer = gb.buffer := rfl

/-- `this._current_word >>> (32 - bits)`. -/
def high (gb : ExpGolomb) (bits : ℕ) : UInt32 := gb.currentWord >>> UInt32.ofNat (32 - bits)

/-- The 32 bits of a signed number. -/
def signed (x : UInt32) : ℤ := x.toBitVec.toInt

def readBits (bits : ℕ) : StateT ExpGolomb Option ℤ := fun gb =>
  if 32 < bits then none
  else if bits ≤ gb.currentWordBitsLeft then some ((gb.high bits).toNat, gb.shift bits)
  else
    let result := if gb.currentWordBitsLeft = 0 then 0 else gb.high gb.currentWordBitsLeft
    let bitsNeedLeft := bits - gb.currentWordBitsLeft
    gb.fillCurrentWord.map fun gb =>
      let bitsReadNext := min bitsNeedLeft gb.currentWordBitsLeft
      (signed (result <<< UInt32.ofNat bitsReadNext ||| gb.high bitsReadNext),
        gb.shift bitsReadNext)

def readBool : StateT ExpGolomb Option Bool := do return (← readBits 1) = 1

def readByte : StateT ExpGolomb Option ℤ := readBits 8

/-- The zeros before the first one in the word. -/
def zeroCount (gb : ExpGolomb) : Option ℕ :=
  (List.range gb.currentWordBitsLeft).find? fun zeroCount =>
    gb.currentWord &&& (0x80000000 >>> UInt32.ofNat zeroCount) ≠ 0

/-- `_skipLeadingZero`. It calls itself for the next word, at most once for each byte left. -/
def skipLeadingZeroFrom : ℕ → ExpGolomb → Option (ℕ × ExpGolomb)
  | 0, gb => gb.zeroCount.map fun zeroCount => (zeroCount, gb.shift zeroCount)
  | n + 1, gb =>
    match gb.zeroCount with
    | some zeroCount => some (zeroCount, gb.shift zeroCount)
    | none => do
      let gb' ← gb.fillCurrentWord
      let (zeroCount, gb'') ← skipLeadingZeroFrom n gb'
      return (gb.currentWordBitsLeft + zeroCount, gb'')

def skipLeadingZero : StateT ExpGolomb Option ℕ := fun gb => skipLeadingZeroFrom gb.buffer.length gb

def readUEG : StateT ExpGolomb Option ℤ := do
  let leadingZeros ← skipLeadingZero
  return (← readBits (leadingZeros + 1)) - 1

/-- `value & 0x01` of a number of at most 32 bits, then `(value + 1) >>> 1` or
    `-1 * (value >>> 1)`. -/
def readSEG : StateT ExpGolomb Option ℤ := do
  let value ← readUEG
  if value % 2 = 1 then return (value + 1) % 2 ^ 32 / 2
  else return -1 * (value % 2 ^ 32 / 2)

/-! ## The view -/

def bytesBits (data : Bytes) : List Bool := data.flatMap fun b => bits 8 b.toNat

def wordBits (gb : ExpGolomb) : List Bool :=
  (bits 32 gb.currentWord.toNat).take gb.currentWordBitsLeft

def view (gb : ExpGolomb) : List Bool := gb.wordBits ++ bytesBits gb.buffer

@[simp] theorem view_ofBytes (data : Bytes) : (ofBytes data).view = bytesBits data := rfl

@[simp] theorem bytesBits_nil : bytesBits [] = [] := rfl

@[simp] theorem bytesBits_append (as bs : Bytes) :
    bytesBits (as ++ bs) = bytesBits as ++ bytesBits bs := flatMap_append

@[simp] theorem length_bytesBits (data : Bytes) : (bytesBits data).length = 8 * data.length := by
  induction data with
  | nil => rfl
  | cons b data ih =>
    rw [bytesBits, flatMap_cons, length_append, length_bits, ← bytesBits, ih, length_cons]
    omega

theorem length_wordBits : gb.wordBits.length = gb.currentWordBitsLeft := by
  rw [wordBits, length_take, length_bits, Nat.min_eq_left gb.bitsLeft_le]

theorem length_view : gb.view.length = gb.currentWordBitsLeft + 8 * gb.buffer.length := by
  rw [view, length_append, length_wordBits, length_bytesBits]

/-! ## Words -/

theorem bits_wordOf (data : Bytes) : bits 32 (wordOf data).toNat =
      bytesBits [data.getD 0 0, data.getD 1 0, data.getD 2 0, data.getD 3 0] := by
  have h0 := (data.getD 0 0).toNat_lt
  have h1 := (data.getD 1 0).toNat_lt
  have h2 := (data.getD 2 0).toNat_lt
  have h3 := (data.getD 3 0).toNat_lt
  rw [wordOf, UInt32.toNat_ofNat_of_lt' (by simp only [UInt32.size]; omega)]
  rw [show 32 = 8 + (8 + (8 + 8)) from rfl, bits_add, bits_add 8, bits_add 8]
  congr 1
  · exact bits_congr (by omega)
  · congr 1
    · exact bits_congr (by omega)
    · congr 1
      · exact bits_congr (by omega)
      · exact bits_congr (by omega)

theorem take_bytesBits (n : ℕ) (data : Bytes) :
    (bytesBits data).take (8 * n) = bytesBits (data.take n) := by
  induction n generalizing data with
  | zero => rfl
  | succ n ih =>
    cases data with
    | nil => rfl
    | cons b data =>
      have hbyte : (bits 8 b.toNat).take (8 * (n + 1)) = bits 8 b.toNat :=
        take_of_length_le (by rw [length_bits]; omega)
      rw [bytesBits, flatMap_cons, take_append, hbyte, length_bits,
        show 8 * (n + 1) - 8 = 8 * n from by omega, ← bytesBits, ih, take_succ_cons, bytesBits,
        bytesBits, flatMap_cons]

theorem fillCurrentWord_spec {gb gb' : ExpGolomb} (h : gb.fillCurrentWord = some gb') :
    gb'.view = bytesBits gb.buffer ∧ gb'.currentWordBitsLeft = 8 * min 4 gb.buffer.length ∧
      gb'.buffer = gb.buffer.drop 4 := by
  rw [fillCurrentWord] at h
  split_ifs at h with hnil
  obtain rfl := Option.some.inj h
  refine ⟨?_, rfl, rfl⟩
  obtain ⟨buffer, word, left, hle⟩ := gb
  have htake : [buffer.getD 0 0, buffer.getD 1 0, buffer.getD 2 0, buffer.getD 3 0].take
      (min 4 buffer.length) = buffer.take 4 := by
    rcases buffer with _ | ⟨a, _ | ⟨b, _ | ⟨c, _ | ⟨d, rest⟩⟩⟩⟩
    · exact absurd rfl hnil
    all_goals simp
  rw [view, wordBits, bits_wordOf, take_bytesBits, htake, ← bytesBits_append, take_append_drop]

variable {n : ℕ}

theorem view_split (hpos : 0 < n) (hn : n ≤ gb.currentWordBitsLeft) :
    gb.view = bits n (gb.high n).toNat ++ (gb.shift n).view ∧ (gb.high n).toNat < 2 ^ n := by
  obtain ⟨buffer, word, left, hle⟩ := gb
  simp only at hn
  have hword := word.toNat_lt
  have hhigh : (word >>> UInt32.ofNat (32 - n)).toNat = word.toNat / 2 ^ (32 - n) := by
    rw [UInt32.toNat_shiftRight, UInt32.toNat_ofNat_of_lt' (by simp only [UInt32.size]; omega),
      Nat.mod_eq_of_lt (by omega), Nat.shiftRight_eq_div_pow]
  have hsplit : bits 32 word.toNat =
      bits n (word.toNat / 2 ^ (32 - n)) ++ bits (32 - n) word.toNat := by
    rw [← bits_add, Nat.add_sub_cancel' (by omega)]
  have hrest : (bits 32 (word <<< UInt32.ofNat n).toNat).take (left - n) =
      (bits (32 - n) word.toNat).take (left - n) := by
    by_cases hfull : n = 32
    · rw [show left - n = 0 from by omega, take_zero, take_zero]
    · rw [UInt32.toNat_shiftLeft, UInt32.toNat_ofNat_of_lt' (by simp only [UInt32.size]; omega),
        Nat.mod_eq_of_lt (show n < 32 by omega), Nat.shiftLeft_eq, bits_mod]
      have hmul := bits_mul (32 - n) n word.toNat
      rw [Nat.sub_add_cancel (by omega)] at hmul
      rw [hmul, take_append_of_le_length (by rw [length_bits]; omega)]
  constructor
  · rw [view, view, wordBits, wordBits, shift, high, hhigh, hrest, hsplit, take_append,
      length_bits, take_of_length_le (by rw [length_bits]; exact hn), append_assoc]
  · rw [high, hhigh]
    refine Nat.div_lt_of_lt_mul ?_
    rw [← Nat.pow_add, Nat.sub_add_cancel (by omega)]
    exact hword

theorem signed_eq (x : UInt32) :
    signed x = if x.toNat < 2 ^ 31 then (x.toNat : ℤ) else x.toNat - 2 ^ 32 := by
  rw [signed, BitVec.toInt_eq_toNat_cond, UInt32.toNat_toBitVec]
  split_ifs <;> first | rfl | omega

theorem toNat_joined {r q : UInt32} {k n : ℕ} (hkn : k + n ≤ 32) (hr : r.toNat < 2 ^ k)
    (hq : q.toNat < 2 ^ n) : (r <<< UInt32.ofNat n ||| q).toNat = r.toNat * 2 ^ n + q.toNat := by
  have hbound : r.toNat * 2 ^ n < 2 ^ 32 := by
    calc r.toNat * 2 ^ n < 2 ^ k * 2 ^ n := Nat.mul_lt_mul_of_pos_right hr (Nat.two_pow_pos n)
      _ = 2 ^ (k + n) := (Nat.pow_add 2 k n).symm
      _ ≤ 2 ^ 32 := Nat.pow_le_pow_right (by decide) hkn
  have hshift : (r <<< UInt32.ofNat n).toNat = r.toNat * 2 ^ n := by
    by_cases hfull : n = 32
    · have hzero : r.toNat = 0 := by
        rw [show k = 0 from by omega] at hr
        omega
      rw [UInt32.toNat_shiftLeft, hzero, Nat.zero_shiftLeft, Nat.zero_mod, Nat.zero_mul]
    · rw [UInt32.toNat_shiftLeft, UInt32.toNat_ofNat_of_lt' (by simp only [UInt32.size]; omega),
        Nat.mod_eq_of_lt (show n < 32 by omega), Nat.shiftLeft_eq, Nat.mod_eq_of_lt hbound]
  rw [UInt32.toNat_or, hshift, ← Nat.shiftLeft_eq, Nat.shiftLeft_add_eq_or_of_lt hq]

theorem view_word : gb.view = bits gb.currentWordBitsLeft
        (if gb.currentWordBitsLeft = 0 then 0 else gb.high gb.currentWordBitsLeft).toNat ++
      bytesBits gb.buffer ∧
    (if gb.currentWordBitsLeft = 0 then 0 else gb.high gb.currentWordBitsLeft).toNat <
      2 ^ gb.currentWordBitsLeft := by
  split_ifs with hzero
  · rw [view, wordBits, hzero]
    exact ⟨rfl, by decide⟩
  · obtain ⟨hsplit, hlt⟩ := view_split gb (Nat.pos_of_ne_zero hzero) le_rfl
    refine ⟨hsplit.trans ?_, hlt⟩
    rw [view, wordBits, shift_bitsLeft, Nat.sub_self, take_zero, nil_append, shift_buffer]

/-- The number is that of the next bits, a signed one when a field of 32 bits is not in the
    word. -/
theorem readBits_spec (hpos : 0 < n) (hn : n ≤ 32) {gb : ExpGolomb} {bs rest : List Bool}
    (hlen : bs.length = n) (hview : gb.view = bs ++ rest) :
    ∃ x gb', readBits n gb = some (x, gb') ∧ gb'.view = rest ∧
      (x = value bs ∨ n = 32 ∧ x = value bs - 2 ^ 32) := by
  rw [readBits, if_neg (by omega)]
  by_cases hword : n ≤ gb.currentWordBitsLeft
  · obtain ⟨hsplit, hlt⟩ := view_split gb hpos hword
    obtain ⟨hbits, hrest⟩ := append_inj (hsplit.symm.trans hview) (by rw [length_bits, hlen])
    refine ⟨_, _, if_pos hword, hrest, .inl ?_⟩
    rw [← hbits, value_bits_of_lt hlt]
  · rw [if_neg hword]
    obtain ⟨hsplit, hlt⟩ := view_word gb
    have hfirst := hsplit.symm.trans hview
    rw [← take_append_drop gb.currentWordBitsLeft bs, append_assoc] at hfirst
    obtain ⟨hbits, hbytes⟩ := append_inj hfirst
      (by rw [length_bits, length_take, hlen, Nat.min_eq_left (by omega)])
    have hcount := congrArg List.length hbytes
    rw [length_bytesBits, length_append, length_drop, hlen] at hcount
    have hne : gb.buffer ≠ [] := ne_nil_of_length_pos (by omega)
    obtain ⟨gb', hfill⟩ : ∃ gb', gb.fillCurrentWord = some gb' := by
      rw [fillCurrentWord, if_neg hne]
      exact ⟨_, rfl⟩
    obtain ⟨hview', hleft', -⟩ := fillCurrentWord_spec hfill
    have hmin : min (n - gb.currentWordBitsLeft) gb'.currentWordBitsLeft =
        n - gb.currentWordBitsLeft := by omega
    obtain ⟨hsplit', hlt'⟩ := view_split gb' (n := n - gb.currentWordBitsLeft) (by omega) (by omega)
    obtain ⟨hbits', hrest⟩ := append_inj
      ((hsplit'.symm.trans hview').trans hbytes) (by rw [length_bits, length_drop, hlen])
    rw [hfill, map_some]
    simp only [hmin]
    refine ⟨_, _, rfl, hrest, ?_⟩
    have hvalue := value_append (bs.take gb.currentWordBitsLeft) (bs.drop gb.currentWordBitsLeft)
    rw [take_append_drop, ← hbits, ← hbits', value_bits_of_lt hlt, value_bits_of_lt hlt',
      length_bits, ← toNat_joined (by omega) hlt hlt'] at hvalue
    have hbound := value_lt bs
    rw [hlen] at hbound
    rw [signed_eq, ← hvalue]
    split_ifs with hsmall
    · exact .inl rfl
    · refine .inr ⟨?_, rfl⟩
      by_contra hne
      have hpow : 2 ^ n ≤ 2 ^ 31 := Nat.pow_le_pow_right (by decide) (by omega)
      omega

theorem reads_readBits {n : ℕ} (hpos : 0 < n) (hn : n < 32) {v : ℕ} (hv : v < 2 ^ n) :
    Reads view (readBits n) (bits n v) v := by
  intro gb rest hview
  obtain ⟨x, gb', hrun, hview', hx⟩ := readBits_spec hpos hn.le (length_bits n v) hview
  refine ⟨x, gb', hrun, hview', ?_⟩
  rw [value_bits_of_lt hv] at hx
  omega

theorem readBits_field {n start : ℕ} (hpos : 0 < n) (hn : n < 32) {gb : ExpGolomb}
    {bs : List Bool} (hview : gb.view = bs.drop start) (hlen : start + n ≤ bs.length) :
    ∃ gb', readBits n gb = some ((field bs start n : ℤ), gb') ∧ gb'.view = bs.drop (start + n) := by
  have hle : n ≤ gb.view.length := by rw [hview, length_drop]; omega
  obtain ⟨x, gb', hrun, hrest, hx⟩ := readBits_spec hpos hn.le (length_take_of_le hle)
    (take_append_drop n gb.view).symm
  refine ⟨gb', ?_, ?_⟩
  · rw [hrun, hx.resolve_right (by omega), field, hview]
  · rw [hrest, hview, drop_drop]

/-- Fields of up to eight bits are read as from a list of bits: none if they are not all there. -/
theorem simulates_readBits (hpos : 0 < n) (hn : n ≤ 8) :
    Simulates view (readBits n) (takeBits n) := by
  intro gb
  rw [takeBits]
  split_ifs with hle
  · obtain ⟨x, gb', hrun, hrest, hx⟩ := readBits_spec hpos (by omega)
      (length_take_of_le hle) (take_append_drop n gb.view).symm
    rw [hrun, map_some, Prod.map, hrest, hx.resolve_right (by omega)]
    rfl
  · rw [length_view] at hle
    have hnil : gb.buffer = [] := eq_nil_of_length_eq_zero (by omega)
    rw [readBits, if_neg (by omega), if_neg (by omega), fillCurrentWord, if_pos hnil]
    rfl

/-- A longer field may be cut short: then no bit is left. -/
theorem readBits_short (hn : n ≤ 32) {gb : ExpGolomb} (h : gb.view.length < n) :
    readBits n gb = none ∨ ∃ x gb', readBits n gb = some (x, gb') ∧ gb'.view = [] := by
  rw [length_view] at h
  rw [readBits, if_neg (by omega), if_neg (by omega)]
  cases hfill : gb.fillCurrentWord with
  | none => exact .inl rfl
  | some gb' =>
    obtain ⟨-, hleft, hbuffer⟩ := fillCurrentWord_spec hfill
    refine .inr ⟨_, _, rfl, ?_⟩
    rw [← length_eq_zero_iff, length_view, shift_bitsLeft, shift_buffer, hbuffer, length_drop]
    omega

/-! ## Exp-Golomb codes -/

theorem and_two_pow_ne_zero (x i : ℕ) : x &&& 2 ^ i ≠ 0 ↔ x.testBit i = true := by
  constructor
  · intro h
    obtain ⟨j, hj⟩ := Nat.exists_testBit_of_ne_zero h
    rw [Nat.testBit_and, Nat.testBit_two_pow, Bool.and_eq_true, decide_eq_true_eq] at hj
    rw [hj.2]
    exact hj.1
  · intro h hzero
    have hbit := congrArg (Nat.testBit · i) hzero
    simp only [Nat.testBit_and, h, Nat.testBit_two_pow_self, Nat.zero_testBit] at hbit
    cases hbit

theorem zeroCount_eq : gb.zeroCount =
      (List.range gb.wordBits.length).find? fun i => gb.wordBits[i]?.getD false := by
  rw [zeroCount, length_wordBits]
  refine find?_congr fun i hi => ?_
  have hleft := gb.bitsLeft_le
  rw [mem_range] at hi
  have hmask : (0x80000000 >>> UInt32.ofNat i : UInt32).toNat = 2 ^ (31 - i) := by
    rw [UInt32.toNat_shiftRight, UInt32.toNat_ofNat_of_lt' (by simp only [UInt32.size]; omega),
      Nat.mod_eq_of_lt (show i < 32 by omega), Nat.shiftRight_eq_div_pow]
    exact Nat.pow_div (show i ≤ 31 by omega) Nat.two_pos
  have hne : gb.currentWord &&& (0x80000000 >>> UInt32.ofNat i) ≠ 0 ↔
      gb.currentWord.toNat.testBit (31 - i) = true := by
    rw [← and_two_pow_ne_zero, ← hmask, ← UInt32.toNat_and, Ne, Ne, ← UInt32.toNat_inj]
    rfl
  rw [wordBits, getElem?_take_of_lt hi, getElem?_bits (by omega), getD_some,
    Bool.eq_iff_iff, decide_eq_true_eq, hne]

theorem shift_view {gb : ExpGolomb} {as later : List Bool}
    (hlen : as.length ≤ gb.currentWordBitsLeft) (h : gb.view = as ++ later) :
    (gb.shift as.length).view = later := by
  rcases Nat.eq_zero_or_pos as.length with hzero | hpos
  · have hnil := eq_nil_of_length_eq_zero hzero
    subst hnil
    rw [← nil_append later, ← h]
    simp [view, wordBits, shift]
  · obtain ⟨hsplit, -⟩ := view_split gb hpos hlen
    exact (append_inj (hsplit.symm.trans h) (by rw [length_bits])).2

variable {rest : List Bool}

theorem zeroCount_spec {gb : ExpGolomb} {z : ℕ}
    (hview : gb.view = List.replicate z false ++ true :: rest) :
    gb.zeroCount = some z ∧ (gb.shift z).view = true :: rest ∨
      gb.zeroCount = none ∧ gb.currentWordBitsLeft ≤ z ∧ bytesBits gb.buffer =
          List.replicate (z - gb.currentWordBitsLeft) false ++ true :: rest := by
  have hcount := zeroCount_eq gb
  cases hword : gb.zeroCount with
  | none =>
    rw [hword] at hcount
    rw [view, no_true hcount.symm, length_wordBits] at hview
    exact .inr ⟨rfl, replicate_le hview⟩
  | some k =>
    rw [hword] at hcount
    obtain ⟨later, hbits⟩ := first_true hcount.symm
    have hlen := congrArg List.length hbits
    rw [length_wordBits, length_append, length_replicate, length_cons] at hlen
    have hfirst := hview
    rw [view, hbits, append_assoc, cons_append] at hfirst
    obtain ⟨rfl, -⟩ := replicate_true_inj hfirst
    have hshift := shift_view (by rw [length_replicate]; omega) hview
    rw [length_replicate] at hshift
    exact .inl ⟨rfl, hshift⟩

theorem skipLeadingZeroFrom_spec {n z : ℕ} {gb : ExpGolomb} (hn : gb.buffer.length ≤ n)
    (hview : gb.view = List.replicate z false ++ true :: rest) :
    ∃ gb', skipLeadingZeroFrom n gb = some (z, gb') ∧ gb'.view = true :: rest := by
  induction n generalizing gb z with
  | zero =>
    rcases zeroCount_spec hview with ⟨hcount, hrest⟩ | ⟨-, -, hbytes⟩
    · exact ⟨_, by rw [skipLeadingZeroFrom, hcount, map_some], hrest⟩
    · rw [eq_nil_of_length_eq_zero (Nat.le_zero.1 hn), bytesBits_nil] at hbytes
      exact absurd hbytes.symm (by simp)
  | succ n ih =>
    rcases zeroCount_spec hview with ⟨hcount, hrest⟩ | ⟨hcount, hle, hbytes⟩
    · exact ⟨_, by rw [skipLeadingZeroFrom, hcount], hrest⟩
    · have hne : gb.buffer ≠ [] := by
        intro hnil
        rw [hnil, bytesBits_nil] at hbytes
        exact absurd hbytes.symm (by simp)
      obtain ⟨gb', hfill⟩ : ∃ gb', gb.fillCurrentWord = some gb' := by
        rw [fillCurrentWord, if_neg hne]
        exact ⟨_, rfl⟩
      obtain ⟨hview', -, hbuffer⟩ := fillCurrentWord_spec hfill
      have hshort : gb'.buffer.length ≤ n := by
        rw [hbuffer, length_drop]
        omega
      obtain ⟨gb'', hrun, hlast⟩ := ih hshort (hview'.trans hbytes)
      refine ⟨gb'', ?_, hlast⟩
      rw [skipLeadingZeroFrom, hcount, hfill]
      simp only [bind_eq_bind, bind_some, hrun]
      rw [Nat.add_sub_cancel' hle]
      rfl

theorem takes_skipLeadingZero {z : ℕ} {gb : ExpGolomb}
    (hview : gb.view = List.replicate z false ++ true :: rest) :
    ∃ gb', skipLeadingZero gb = some (z, gb') ∧ gb'.view = true :: rest :=
  skipLeadingZeroFrom_spec le_rfl hview

/-- An Exp-Golomb code is taken whole. Its number is right if it has at most 31 bits. -/
theorem takes_readUEG {v : ℕ} (hv : v + 1 < 2 ^ 32) :
    Takes view readUEG (ue v) fun x => v + 1 < 2 ^ 31 → x = v := by
  intro gb rest hview
  have hlog : Nat.log 2 (v + 1) < 32 := Nat.log_lt_of_lt_pow (Nat.succ_ne_zero v) hv
  rw [ue, bits_log_succ (Nat.succ_ne_zero v), append_assoc, cons_append] at hview
  obtain ⟨gb', hskip, hview'⟩ := takes_skipLeadingZero hview
  rw [← cons_append, ← bits_log_succ (Nat.succ_ne_zero v)] at hview'
  obtain ⟨x, gb'', hrun, hrest, hx⟩ :=
    readBits_spec (n := Nat.log 2 (v + 1) + 1) (Nat.succ_pos _) (by omega) (length_bits _ _) hview'
  rw [value_bits_of_lt (Nat.lt_pow_succ_log_self Nat.one_lt_two _)] at hx
  refine ⟨x - 1, gb'', ?_, hrest, ?_⟩
  · simp [readUEG, Bind.bind, StateT.bind, hskip, hrun]
    rfl
  · intro hsmall
    have hlog' : Nat.log 2 (v + 1) < 31 := Nat.log_lt_of_lt_pow (Nat.succ_ne_zero v) hsmall
    omega

theorem takes_readSEG {k : ℤ} (hlo : -2 ^ 31 < k) (hhi : k < 2 ^ 31) :
    Takes view readSEG (se k) fun x => -2 ^ 30 < k → k < 2 ^ 30 → x = k := by
  have hcode : (if 0 < k then 2 * k - 1 else -2 * k).toNat + 1 < 2 ^ 32 := by split_ifs <;> omega
  intro gb rest hview
  obtain ⟨x, gb', hrun, hrest, hx⟩ := takes_readUEG hcode gb rest hview
  refine ⟨if x % 2 = 1 then (x + 1) % 2 ^ 32 / 2 else -1 * (x % 2 ^ 32 / 2), gb', ?_, hrest, ?_⟩
  · simp only [readSEG, Bind.bind, StateT.bind, hrun, bind_some]
    split_ifs <;> rfl
  · omega

end ExpGolomb

end Apackage.Rtp2httpd.Player
