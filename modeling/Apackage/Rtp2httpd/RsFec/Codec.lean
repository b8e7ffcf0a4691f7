import Apackage.Lib.ErasureCode
import Apackage.Rtp2httpd.RsFec.MatrixInv

/-
  `rs_fec_new` and `rs_fec_decode` (`rs_fec.c`).

  Model. A packet buffer is the memory at its pointer, `ℕ → UInt8`; `rsFecDecode` returns the data
  buffers after the call, or `none` for -1. `lost_map` is an array of `int`; the header documents 1
  for received and 0 for lost (`FlagMap`). Allocations succeed. The list `recv` is the array
  `recv_data`, and `rows` holds the rows written to `de_subGM` so far.
-/

namespace Apackage.Rtp2httpd

open List Option Lib.ErasureCode Lib.GaussJordan

/-- The bytes at a packet pointer. -/
abbrev Packet := ℕ → UInt8

/-- `rs_fec_t`. -/
structure RsFec where
  k : ℕ
  m : ℕ
  enGM : Fin m → Fin k → UInt8

def fecG0K100 : List UInt8 :=
  [0x20, 0x85, 0x89, 0xdf, 0xd0, 0x65, 0xb2, 0xf4, 0x44, 0x56, 0x3f, 0x25, 0x73, 0x51, 0x48, 0x62,
   0x75, 0x74, 0x91, 0x7d, 0xfa, 0xaf, 0x25, 0x9d, 0xdf, 0x9b, 0x94, 0xc7, 0x53, 0x65, 0xa0, 0x81,
   0xde, 0x07, 0xf8, 0x3f, 0x09, 0x94, 0xdf, 0x5c, 0x7d, 0x3e, 0x24, 0xc5, 0xd4, 0x7c, 0xf4, 0xfe,
   0x71, 0x7f, 0x2d, 0x46, 0x43, 0x0e, 0x10, 0x38, 0xe6, 0xeb, 0x45, 0x90, 0x25, 0xc2, 0x08, 0x37,
   0xe0, 0x9e, 0xb7, 0x84, 0x55, 0x98, 0x50, 0xd0, 0xf1, 0x15, 0x30, 0xdf, 0xa2, 0x7c, 0x3b, 0xee,
   0x6b, 0xaa, 0xc8, 0x20, 0xce, 0xf9, 0x38, 0x26, 0xb7, 0x80, 0x76, 0x2f, 0xa5, 0xeb, 0x33, 0x13,
   0x1b, 0x1c, 0x12, 0x14]

def fecG4K100 : List UInt8 :=
  [0x3c, 0x66, 0xa8, 0x11, 0xcc, 0xfa, 0x41, 0x6f, 0x0a, 0x26, 0x39, 0xf6, 0xa0, 0xab, 0x97, 0x84,
   0x82, 0x69, 0xd4, 0x43, 0xb9, 0xdc, 0x1d, 0xfe, 0xb0, 0xe2, 0x4e, 0x60, 0x08, 0x83, 0x29, 0x24,
   0xdb, 0xd8, 0xce, 0x12, 0x8d, 0x99, 0x4b, 0x3c, 0x8b, 0x14, 0x0d, 0x4d, 0xa4, 0x60, 0xe0, 0x47,
   0xeb, 0xe8, 0x70, 0x17, 0x20, 0xfd, 0x61, 0x65, 0x45, 0xc2, 0xcc, 0x2f, 0xc7, 0xce, 0xb5, 0x65,
   0x0d, 0x74, 0x26, 0x32, 0x39, 0x76, 0x3a, 0x5e, 0x21, 0x20, 0xb5, 0xd9, 0x75, 0x59, 0xf5, 0xf2,
   0x3d, 0xb4, 0x91, 0x50, 0x23, 0xaa, 0x74, 0xf2, 0xae, 0x94, 0x03, 0x71, 0xcd, 0xf0, 0x97, 0xa5,
   0xf5, 0xe8, 0xc4, 0xd8]

/-- `get_g_coefficient`: rows 0 to 3 permute the columns of row 0 by an xor within groups of
    four, row 4 has its own table. -/
def getGCoefficient (row col : ℕ) (g0 g4 : List UInt8) : UInt8 :=
  if row < 4 then
    let grp := col / 4
    let pos := col % 4
    let mappedCol := grp * 4 + (pos ^^^ row)
    g0.getD mappedCol 0
  else if row = 4 then g4.getD col 0
  else 0

/-- `matrix_mul_gf256` on a zeroed result. -/
def matrixMulGf256 {left mid right : ℕ} (a : Fin left → Fin mid → UInt8)
    (b : Fin mid → Fin right → UInt8) : Fin left → Fin right → UInt8 := fun i j =>
  (List.finRange mid).foldl (fun c k => rsMac c (a i k) (b k j)) 0

/-- `en_left`: the powers of the parity nodes `k, k + 1, …`. -/
def enLeft (k m : ℕ) : Fin m → Fin k → UInt8 := fun i j => rsExp (((k + i) * j) % rsSize)

/-- `en_right`: the powers of the data nodes. -/
def enRight (k : ℕ) : ByteMatrix k := fun i j => rsExp ((i * j) % rsSize)

/-- `rs_fec_new`; `none` is NULL. -/
def rsFecNew (dataPktNum fecPktNum : ℕ) : Option RsFec :=
  if dataPktNum = 100 ∧ fecPktNum = 5 then
    some ⟨dataPktNum, fecPktNum, fun i j => getGCoefficient i j fecG0K100 fecG4K100⟩
  else
    match matrixInvGf256 dataPktNum (enRight dataPktNum) with
    | none => none
    | some inv => some ⟨dataPktNum, fecPktNum, matrixMulGf256 (enLeft dataPktNum fecPktNum) inv⟩

/-- First loop of `rs_fec_decode`: unit rows for received data packets, and the lost
    packets, of which more than `m` are too many. -/
def dataRow (code : RsFec) (lostMap : ℕ → ℤ) (s : List (Fin code.k → UInt8) × List (Fin code.k))
    (i : Fin code.k) : Option (List (Fin code.k → UInt8) × List (Fin code.k)) :=
  if lostMap i = 1 then some (s.1 ++ [fun j => if j = i then 1 else 0], s.2)
  else if s.2.length < code.m then some (s.1, s.2 ++ [i])
  else none

/-- Second loop: generator rows of received parities until `k` rows are there. -/
def parityRows (code : RsFec) (lostMap : ℕ → ℤ) (rows : List (Fin code.k → UInt8)) :
    List (Fin code.k → UInt8) :=
  (List.finRange code.m).foldl
    (pushUpTo (fun i : Fin code.m => lostMap (code.k + i) = 1) code.enGM code.k) rows

/-- The matrix `de_subGM`; rows never written are zero. -/
def deSubGM {k : ℕ} (rows : List (Fin k → UInt8)) : ByteMatrix k := fun l =>
  rows.getD l (fun _ => 0)

/-- Third loop: the buffers `recv_data`, data first, then parities, `k` at most. -/
def recvData (code : RsFec) (data : Fin code.k → Packet) (fecData : Fin code.m → Packet)
    (lostMap : ℕ → ℤ) : List Packet :=
  (List.finRange code.m).foldl
    (pushUpTo (fun i : Fin code.m => lostMap (code.k + i) ≠ 0) fecData code.k)
    ((List.finRange code.k).foldl (pushUpTo (fun i : Fin code.k => lostMap i ≠ 0) data code.k) [])

/-- Byte `r` of a lost packet: its row of the inverse applied to the received bytes. -/
def decodeByte {k : ℕ} (inv : ByteMatrix k) (recv : List Packet) (cur : Fin k) (r : ℕ) : UInt8 :=
  (List.finRange k).foldl (fun c l => rsMac c (inv cur l) (recv.getD l (fun _ => 0) r)) 0

/-- Last loop: rewrite the first `S` bytes of one lost packet. -/
def restorePacket {k : ℕ} (inv : ByteMatrix k) (recv : List Packet) (S : ℕ)
    (data : Fin k → Packet) (cur : Fin k) : Fin k → Packet := fun i r =>
  if i = cur ∧ r < S then decodeByte inv recv cur r else data i r

/-- `rs_fec_decode`; `none` is -1, otherwise the data buffers after the call. -/
def rsFecDecode (code : RsFec) (data : Fin code.k → Packet) (fecData : Fin code.m → Packet)
    (lostMap : ℕ → ℤ) (dataLen : ℕ) : Option (Fin code.k → Packet) :=
  match (List.finRange code.k).foldlM (dataRow code lostMap) ([], []) with
  | none => none
  | some (rows, lost) =>
    match matrixInvGf256 code.k (deSubGM (parityRows code lostMap rows)) with
    | none => none
    | some inv =>
      some (lost.foldl (restorePacket inv (recvData code data fecData lostMap) dataLen) data)

/-! ## Specification -/

/-- Documented contents of `lost_map`: 1 received, 0 lost. -/
def FlagMap (N : ℕ) (lostMap : ℕ → ℤ) : Prop := ∀ i < N, lostMap i = 0 ∨ lostMap i = 1

instance (N : ℕ) (lostMap : ℕ → ℤ) : Decidable (FlagMap N lostMap) :=
  inferInstanceAs (Decidable (∀ i < N, _))

def receivedCount (N : ℕ) (lostMap : ℕ → ℤ) : ℕ := (List.range N).countP (fun i => lostMap i = 1)

/-- Byte `r` of parity `i`: row `i` of the generator times the data. -/
def rsEncode (code : RsFec) (data : Fin code.k → Packet) (i : Fin code.m) (r : ℕ) : UInt8 :=
  (List.finRange code.k).foldl (fun c j => rsMac c (code.enGM i j) (data j r)) 0

/-- The buffers given to the decoder hold the original data where received, and parities of
    it where received, on the first `S` bytes. -/
structure Encoded (code : RsFec) (orig data : Fin code.k → Packet) (fecData : Fin code.m → Packet)
    (lostMap : ℕ → ℤ) (S : ℕ) : Prop where
  data_eq : ∀ i : Fin code.k, lostMap i = 1 → ∀ r < S, data i r = orig i r
  fec_eq : ∀ i : Fin code.m, lostMap (code.k + i) = 1 → ∀ r < S, fecData i r = rsEncode code orig i r

theorem gf_foldl_rsMac {α : Type*} (l : List α) (f g : α → UInt8) (c : UInt8) :
    gf (l.foldl (fun c x => rsMac c (f x) (g x)) c) =
      gf c + (l.map (fun x => gf (f x) * gf (g x))).sum := by
  induction l generalizing c with
  | nil => simp
  | cons x l ih => rw [foldl_cons, ih, gf_rsMac, map_cons, sum_cons, add_assoc]

theorem gf_foldl_finRange {k : ℕ} (f g : Fin k → UInt8) :
    gf ((List.finRange k).foldl (fun c x => rsMac c (f x) (g x)) 0) = ∑ x, gf (f x) * gf (g x) := by
  rw [gf_foldl_rsMac, gf_zero, zero_add, ← ofFn_eq_map, sum_ofFn]

theorem gf_rsEncode (code : RsFec) (data : Fin code.k → Packet) (i : Fin code.m) (r : ℕ) :
    gf (rsEncode code data i r) = ∑ j, gf (code.enGM i j) * gf (data j r) :=
  gf_foldl_finRange _ _

theorem gf_decodeByte {k : ℕ} (inv : ByteMatrix k) (recv : List Packet) (cur : Fin k) (r : ℕ) :
    gf (decodeByte inv recv cur r) = ∑ l, gfM inv cur l * gf (recv.getD l (fun _ => 0) r) :=
  gf_foldl_finRange _ _

/-! ## Which rows and buffers are collected -/

section Collect

variable (code : RsFec) (lostMap : ℕ → ℤ)

/-- The received packets in the order of the loops, data packets first. -/
def receivedList : List (Fin code.k ⊕ Fin code.m) :=
  ((List.finRange code.k).filter (fun i : Fin code.k => lostMap i = 1)).map Sum.inl ++
    ((List.finRange code.m).filter (fun i : Fin code.m => lostMap (code.k + i) = 1)).map Sum.inr

/-- Generator row of a packet; a data packet's is a unit row. -/
def generatorRow : Fin code.k ⊕ Fin code.m → Fin code.k → UInt8
  | .inl i => fun j => if j = i then 1 else 0
  | .inr i => code.enGM i

def bufferOf (data : Fin code.k → Packet) (fecData : Fin code.m → Packet) :
    Fin code.k ⊕ Fin code.m → Packet
  | .inl i => data i
  | .inr i => fecData i

def packetIndex : Fin code.k ⊕ Fin code.m → ℕ
  | .inl i => i
  | .inr i => code.k + i

theorem foldlM_dataRow (l : List (Fin code.k)) (rows : List (Fin code.k → UInt8))
    (lost : List (Fin code.k)) :
    l.foldlM (dataRow code lostMap) (rows, lost) =
      if (lost ++ l.filter (fun i : Fin code.k => lostMap i ≠ 1)).length ≤ max code.m lost.length
      then some (rows ++ (l.filter (fun i : Fin code.k => lostMap i = 1)).map
          (fun i => generatorRow code (.inl i)),
        lost ++ l.filter (fun i : Fin code.k => lostMap i ≠ 1))
      else none := by
  induction l generalizing rows lost with
  | nil => simp
  | cons i l ih =>
    rw [foldlM_cons, dataRow]
    by_cases hi : lostMap i = 1
    · simp only [hi, if_true, bind_eq_bind, bind_some, ih]
      simp [hi, generatorRow, append_assoc]
    · by_cases hlt : lost.length < code.m
      · grind
      · grind

theorem parityRows_eq (rows : List (Fin code.k → UInt8)) (h : rows.length ≤ code.k) :
    parityRows code lostMap rows = (rows ++
      ((List.finRange code.m).filter (fun i : Fin code.m => lostMap (code.k + i) = 1)).map
        code.enGM).take code.k :=
  foldl_pushUpTo _ _ _ _ _ h

theorem rows_eq : parityRows code lostMap (((List.finRange code.k).filter
        (fun i : Fin code.k => lostMap i = 1)).map (fun i => generatorRow code (.inl i))) =
      ((receivedList code lostMap).take code.k).map (generatorRow code) := by
  rw [parityRows_eq]
  · rw [map_take, receivedList, map_append, List.map_map, List.map_map]
    rfl
  · rw [length_map]
    exact (length_filter_le _ _).trans (by rw [length_finRange])

theorem recvData_eq (hf : FlagMap (code.k + code.m) lostMap) (data : Fin code.k → Packet)
    (fecData : Fin code.m → Packet) :
    recvData code data fecData lostMap =
      ((receivedList code lostMap).take code.k).map (bufferOf code data fecData) := by
  have h1 : ∀ i : Fin code.k, (lostMap i ≠ 0 ↔ lostMap i = 1) := fun i => by
    rcases hf i (by omega) with h | h <;> simp [h]
  have h2 : ∀ i : Fin code.m, (lostMap (code.k + i) ≠ 0 ↔ lostMap (code.k + i) = 1) := fun i => by
    rcases hf (code.k + i) (by omega) with h | h <;> simp [h]
  rw [recvData, foldl_pushUpTo _ _ _ (List.finRange code.k) [] (Nat.zero_le _),
    foldl_pushUpTo _ _ _ _ _ (by rw [length_take]; exact Nat.min_le_left _ _)]
  simp only [h1, h2, nil_append]
  rw [receivedList, map_take, map_append, List.map_map, List.map_map]
  rw [take_of_length_le (l := ((List.finRange code.k).filter _).map data)]
  · rfl
  · rw [length_map]
    exact (length_filter_le _ _).trans (by rw [length_finRange])

theorem mem_receivedList {x : Fin code.k ⊕ Fin code.m} :
    x ∈ receivedList code lostMap ↔ lostMap (packetIndex code x) = 1 := by
  cases x <;> simp [receivedList, packetIndex]

theorem receivedList_length :
    (receivedList code lostMap).length = receivedCount (code.k + code.m) lostMap := by
  have hcount : ∀ (n : ℕ) (p : ℕ → Bool),
      ((List.finRange n).filter (fun i : Fin n => p i)).length = (List.range n).countP p := by
    intro n p
    rw [← countP_eq_length_filter, ← map_coe_finRange_eq_range, countP_map]
    rfl
  rw [receivedList, length_append, length_map, length_map, receivedCount,
    range_add, countP_append, countP_map]
  exact congrArg₂ _ (hcount code.k fun i => lostMap i = 1)
    (hcount code.m fun i => lostMap (code.k + i) = 1)

end Collect

/-! ## Decoding -/

theorem foldl_restorePacket {k : ℕ} (inv : ByteMatrix k) (recv : List Packet) (S : ℕ)
    (lost : List (Fin k)) (data : Fin k → Packet) (i : Fin k) (r : ℕ) :
    lost.foldl (restorePacket inv recv S) data i r =
      if i ∈ lost ∧ r < S then decodeByte inv recv i r else data i r := by
  induction lost generalizing data with
  | nil => simp
  | cons cur lost ih =>
    rw [foldl_cons, ih, restorePacket]
    by_cases hr : r < S <;> by_cases hl : i ∈ lost <;> by_cases hc : i = cur <;> simp [hr, hl, hc]

section Decode

variable {code : RsFec} {orig data : Fin code.k → Packet} {fecData : Fin code.m → Packet}
  {lostMap : ℕ → ℤ} {S : ℕ}

theorem gf_bufferOf (he : Encoded code orig data fecData lostMap S) {x : Fin code.k ⊕ Fin code.m}
    (hx : lostMap (packetIndex code x) = 1) {r : ℕ} (hr : r < S) :
    gf (bufferOf code data fecData x r) = ∑ j, gf (generatorRow code x j) * gf (orig j r) := by
  cases x with
  | inl i =>
    rw [bufferOf, he.data_eq i hx r hr, Finset.sum_eq_single i]
    · simp [generatorRow, gf_one]
    · intro j _ hj
      simp [generatorRow, hj]
    · simp
  | inr i => rw [bufferOf, he.fec_eq i hx r hr, gf_rsEncode]; rfl

section

variable (hf : FlagMap (code.k + code.m) lostMap) (he : Encoded code orig data fecData lostMap S)

include hf he

theorem decodeByte_eq {inv : ByteMatrix code.k}
    (hinv : gfM inv * gfM (deSubGM (((receivedList code lostMap).take code.k).map
      (generatorRow code))) = 1) :
    code.k ≤ (receivedList code lostMap).length ∧ ∀ cur r, r < S →
      decodeByte inv (recvData code data fecData lostMap) cur r = orig cur r := by
  have hlen : code.k ≤ (receivedList code lostMap).length := by
    by_contra hlt
    push Not at hlt
    refine row_ne_zero hinv ⟨_, hlt⟩ (funext fun j => ?_)
    simp [gfM, deSubGM]
  refine ⟨hlen, fun cur r hr => ?_⟩
  rw [← gf_inj, gf_decodeByte]
  refine decode_eq hinv (d := fun j => gf (orig j r)) (fun l => ?_) cur
  have hl : l.val < (receivedList code lostMap).length := by omega
  have hx := (mem_receivedList code lostMap).mp (getElem_mem hl)
  simp [recvData_eq code lostMap hf, gfM, deSubGM, hl, gf_bufferOf he hx hr]

theorem rsFecDecode_eq_some {out : Fin code.k → Packet}
    (h : rsFecDecode code data fecData lostMap S = some out) :
    code.k ≤ receivedCount (code.k + code.m) lostMap ∧
    ∀ i r, out i r = if lostMap i ≠ 1 ∧ r < S then orig i r else data i r := by
  rw [rsFecDecode, foldlM_dataRow] at h
  split_ifs at h with hlost
  simp only [nil_append, rows_eq] at h
  split at h
  · cases h
  · rename_i inv hinv
    obtain ⟨hlen, hdec⟩ := decodeByte_eq hf he (matrixInvGf256_mul hinv)
    rw [receivedList_length] at hlen
    refine ⟨hlen, fun i r => ?_⟩
    rw [← some_inj.mp h, foldl_restorePacket]
    by_cases hr : r < S <;> by_cases hi : lostMap i = 1 <;> simp [hr, hi, hdec]

end

/-- **Soundness of `rs_fec_decode`**, for every generator matrix. On parities of the
    original data, return value 0 means that every lost packet holds the original again and
    every received buffer is as it was; with fewer than `k` packets the return value is
    -1. -/
theorem rsFecDecode_sound (hf : FlagMap (code.k + code.m) lostMap)
    (he : Encoded code orig data fecData lostMap S) :
    (∀ out, rsFecDecode code data fecData lostMap S = some out → ∀ i : Fin code.k,
      (lostMap i = 0 → ∀ r < S, out i r = orig i r) ∧ (lostMap i = 1 → out i = data i)) ∧
    (receivedCount (code.k + code.m) lostMap < code.k →
      rsFecDecode code data fecData lostMap S = none) := by
  constructor
  · intro out h i
    have heq := (rsFecDecode_eq_some hf he h).2
    refine ⟨fun hi r hr => ?_, fun hi => funext fun r => ?_⟩
    · rw [heq, if_pos ⟨by omega, hr⟩]
    · rw [heq, if_neg (by simp [hi])]
  · intro hlt
    cases hdec : rsFecDecode code data fecData lostMap S with
    | none => rfl
    | some out =>
      have := (rsFecDecode_eq_some hf he hdec).1
      omega

/-- The first of two packets, from the second one and an xor parity. -/
theorem rsFecDecode_sound_xor :
    ∃ out, rsFecDecode ⟨2, 1, fun _ _ => 1⟩ (fun i _ => if i = 0 then 0 else 9) (fun _ _ => 14)
      (fun i => if i = 0 then 0 else 1) 1 = some out ∧ out 0 0 = 7 := by
  obtain ⟨out, hout⟩ : ∃ out, rsFecDecode ⟨2, 1, fun _ _ => 1⟩
      (fun i _ => if i = 0 then 0 else 9) (fun _ _ => 14) (fun i => if i = 0 then 0 else 1) 1 =
        some out := isSome_iff_exists.mp (by decide +kernel)
  have hf : FlagMap (2 + 1) (fun i => if i = 0 then 0 else 1) := by decide
  have he : Encoded ⟨2, 1, fun _ _ => 1⟩ (fun i _ => if i = 0 then 7 else 9)
      (fun i _ => if i = 0 then 0 else 9) (fun _ _ => 14) (fun i => if i = 0 then 0 else 1) 1 :=
    ⟨by decide, by decide +kernel⟩
  have hs := rsFecDecode_sound hf he
  exact ⟨out, hout, (hs.1 out hout 0).1 rfl 0 (by decide)⟩

end Decode

/-! ## Completeness below the field bound -/

section Complete

variable {k m : ℕ}

theorem gfM_enRight (k : ℕ) :
    gfM (enRight k) = Matrix.vandermonde (fun i : Fin k => alpha ^ i.val) := by
  ext1 i j
  rw [Matrix.vandermonde_apply, gfM, enRight, gf_rsExp_mod, ← alpha_pow, pow_mul]

theorem gf_enLeft (k m : ℕ) (i : Fin m) (j : Fin k) :
    gf (enLeft k m i j) = (alpha ^ (k + i.val)) ^ j.val := by
  rw [enLeft, gf_rsExp_mod, ← alpha_pow, pow_mul]

theorem alpha_pow_injective {κ : Type*} {f : κ → ℕ} (hf : Function.Injective f)
    (hlt : ∀ x, f x < rsSize) : Function.Injective (fun x => alpha ^ f x) :=
  fun x y h => hf (alpha_pow_inj (hlt x) (hlt y) h)

theorem det_enRight_ne {k : ℕ} (hk : k ≤ rsSize) : (gfM (enRight k)).det ≠ 0 := by
  rw [gfM_enRight, Matrix.det_vandermonde_ne_zero_iff]
  exact alpha_pow_injective Fin.val_injective fun i => by omega

/-- `rs_fec_new` below the field bound: the generator is the parity nodes' Vandermonde
    matrix times the inverse of the data nodes'. -/
theorem rsFecNew_eq (hk : 1 ≤ k) (hk' : k ≤ rsSize) (hne : ¬ (k = 100 ∧ m = 5)) :
    ∃ inv, rsFecNew k m = some ⟨k, m, matrixMulGf256 (enLeft k m) inv⟩ ∧
      gfM inv * gfM (enRight k) = 1 := by
  obtain ⟨inv, hinv⟩ := matrixInvGf256_isSome (by omega) (by unfold rsSize at hk'; omega)
    (det_enRight_ne hk')
  exact ⟨inv, by rw [rsFecNew, if_neg hne, hinv], matrixInvGf256_mul hinv⟩

/-- Every row of the generator, times the data nodes' matrix, is a row of powers of the
    packet's own node. -/
theorem generatorRow_mul {inv : ByteMatrix k} (hinv : gfM inv * gfM (enRight k) = 1)
    (x : Fin k ⊕ Fin m) (j : Fin k) :
    ∑ t, gf (generatorRow ⟨k, m, matrixMulGf256 (enLeft k m) inv⟩ x t) * gfM (enRight k) t j =
      (alpha ^ packetIndex ⟨k, m, matrixMulGf256 (enLeft k m) inv⟩ x) ^ j.val := by
  cases x with
  | inl i =>
    rw [Finset.sum_eq_single i]
    · simp [generatorRow, gf_one, packetIndex, gfM_enRight, Matrix.vandermonde_apply]
    · intro t _ ht
      simp [generatorRow, ht]
    · simp
  | inr i =>
    have hrow : ∀ t, gf (generatorRow ⟨k, m, matrixMulGf256 (enLeft k m) inv⟩ (.inr i) t) =
        ∑ u, gf (enLeft k m i u) * gfM inv u t := fun t => gf_foldl_finRange _ _
    calc _ = ∑ t, ∑ u, gf (enLeft k m i u) * (gfM inv u t * gfM (enRight k) t j) := by
          refine Finset.sum_congr rfl fun t _ => ?_
          rw [hrow, Finset.sum_mul]
          exact Finset.sum_congr rfl fun u _ => mul_assoc _ _ _
      _ = ∑ u, gf (enLeft k m i u) * (gfM inv * gfM (enRight k)) u j := by
          rw [Finset.sum_comm]
          simp only [Matrix.mul_apply, Finset.mul_sum]
      _ = gf (enLeft k m i j) := by
          rw [hinv, Finset.sum_eq_single j]
          · rw [Matrix.one_apply_eq, mul_one]
          · intro u _ hu
            rw [Matrix.one_apply_ne hu, mul_zero]
          · simp
      _ = _ := gf_enLeft k m i j

variable (code : RsFec)

theorem packetIndex_injective : Function.Injective (packetIndex code) := by
  rintro (a | a) (b | b) h <;> simp only [packetIndex] at h
  · exact congrArg Sum.inl (Fin.ext h)
  · omega
  · omega
  · exact congrArg Sum.inr (Fin.ext (by omega))

theorem packetIndex_lt (x : Fin code.k ⊕ Fin code.m) : packetIndex code x < code.k + code.m := by
  cases x <;> simp only [packetIndex] <;> omega

theorem receivedList_nodup (lostMap : ℕ → ℤ) : (receivedList code lostMap).Nodup := by
  refine List.Nodup.append ?_ ?_ ?_
  · exact (nodup_finRange _).filter _ |>.map Sum.inl_injective
  · exact (nodup_finRange _).filter _ |>.map Sum.inr_injective
  · intro x hx hy
    obtain ⟨i, -, rfl⟩ := List.mem_map.mp hx
    obtain ⟨j, -, h⟩ := List.mem_map.mp hy
    cases h

theorem det_received_ne (R : Matrix (Fin code.k) (Fin code.k) GF256)
    (hrow : ∀ x j, ∑ t, gf (generatorRow code x t) * R t j = (alpha ^ packetIndex code x) ^ j.val)
    (hkm : code.k + code.m ≤ rsSize) {lostMap : ℕ → ℤ}
    (hlen : code.k ≤ (receivedList code lostMap).length) :
    (gfM (deSubGM (((receivedList code lostMap).take code.k).map
      (generatorRow code)))).det ≠ 0 := by
  have hl : ∀ l : Fin code.k, l.val < (receivedList code lostMap).length := fun l => by omega
  refine det_ne_zero_of_vandermonde (R := R)
    (n := fun l => alpha ^ packetIndex code ((receivedList code lostMap).get ⟨l, hl l⟩))
    ?_ (alpha_pow_injective ?_ fun l => ?_)
  · ext1 l j
    rw [Matrix.vandermonde_apply, Matrix.mul_apply, ← hrow]
    refine Finset.sum_congr rfl fun t _ => ?_
    simp [gfM, deSubGM, hl l]
  · intro a b h
    have := (nodup_iff_injective_get.mp (receivedList_nodup code lostMap))
      (packetIndex_injective code h)
    exact Fin.ext (by simpa using this)
  · exact lt_of_lt_of_le (packetIndex_lt code _) hkm

theorem lost_length_le {lostMap : ℕ → ℤ} (hlen : code.k ≤ (receivedList code lostMap).length) :
    ((List.finRange code.k).filter (fun i : Fin code.k => lostMap i ≠ 1)).length ≤ code.m := by
  have h1 := length_eq_length_filter_add (l := List.finRange code.k)
    (fun i : Fin code.k => decide (lostMap i = 1))
  have h2 := length_filter_le (fun i : Fin code.m => decide (lostMap (code.k + i) = 1))
    (List.finRange code.m)
  have h3 : (List.finRange code.k).filter (fun i : Fin code.k => decide (lostMap i ≠ 1)) =
      (List.finRange code.k).filter (fun i : Fin code.k => !decide (lostMap i = 1)) := by
    simp only [ne_eq, decide_not]
  rw [receivedList, length_append, length_map, length_map] at hlen
  rw [length_finRange] at h1 h2
  rw [h3]
  omega

theorem rsFecDecode_isSome {lostMap : ℕ → ℤ} {inv : ByteMatrix code.k}
    (hlen : code.k ≤ (receivedList code lostMap).length)
    (hinv : matrixInvGf256 code.k (deSubGM (((receivedList code lostMap).take code.k).map
      (generatorRow code))) = some inv) (data : Fin code.k → Packet) (fecData : Fin code.m → Packet)
    (S : ℕ) : ∃ out, rsFecDecode code data fecData lostMap S = some out := by
  rw [rsFecDecode, foldlM_dataRow, if_pos]
  · simp only [nil_append, rows_eq, hinv]
    exact ⟨_, rfl⟩
  · rw [nil_append]
    exact (lost_length_le code hlen).trans (Nat.le_max_left _ _)

/-- **Completeness below the field bound.** For `k + m ≤ 255`, other than the hard-coded
    `(100, 5)`, `rs_fec_new` succeeds and `rs_fec_decode` restores the data from any `k`
    received packets (at most `m` data packets are lost then, `lost_length_le`). -/
theorem rsFecDecode_complete (hk : 1 ≤ k) (hm : 1 ≤ m) (hkm : k + m ≤ 255)
    (hne : ¬ (k = 100 ∧ m = 5)) :
    ∃ code, rsFecNew k m = some code ∧ code.k = k ∧ code.m = m ∧
      ∀ (orig data : Fin code.k → Packet) (fecData : Fin code.m → Packet) (lostMap : ℕ → ℤ)
        (S : ℕ), FlagMap (code.k + code.m) lostMap → Encoded code orig data fecData lostMap S →
        code.k ≤ receivedCount (code.k + code.m) lostMap →
        ∃ out, rsFecDecode code data fecData lostMap S = some out ∧
          ∀ i : Fin code.k, lostMap i = 0 → ∀ r < S, out i r = orig i r := by
  obtain ⟨inv, hnew, hinv⟩ := rsFecNew_eq (m := m) hk (show k ≤ rsSize by unfold rsSize; omega) hne
  refine ⟨_, hnew, rfl, rfl, fun orig data fecData lostMap S hf he hcount => ?_⟩
  rw [← receivedList_length] at hcount
  obtain ⟨r, hr⟩ := matrixInvGf256_isSome (n := k) (by omega) (by omega)
    (det_received_ne _ (gfM (enRight k)) (generatorRow_mul hinv) hkm hcount)
  obtain ⟨out, hout⟩ := rsFecDecode_isSome _ hcount hr data fecData S
  exact ⟨out, hout, fun i hi => (((rsFecDecode_sound hf he).1 out hout i).1 hi)⟩

/-- With `k = 2` and `m = 1` a lost first packet comes back from the other two. -/
theorem rsFecDecode_complete_two_one : ∃ g out, rsFecNew 2 1 = some ⟨2, 1, g⟩ ∧
      rsFecDecode ⟨2, 1, g⟩ (fun i _ => if i = 0 then 0 else 9)
        (rsEncode ⟨2, 1, g⟩ (fun i _ => if i = 0 then 7 else 9))
        (fun i => if i = 0 then 0 else 1) 1 = some out ∧ out 0 0 = 7 := by
  obtain ⟨⟨_, _, g⟩, hnew, rfl, rfl, h⟩ :=
    rsFecDecode_complete (k := 2) (m := 1) (by decide) (by decide) (by decide) (by decide)
  have hdata : ∀ i : Fin 2, (if i.val = 0 then (0 : ℤ) else 1) = 1 → ∀ r < 1,
      (if i = 0 then (0 : UInt8) else 9) = if i = 0 then 7 else 9 := by decide
  obtain ⟨out, hout, hdec⟩ := h (fun i _ => if i = 0 then 7 else 9)
    (fun i _ => if i = 0 then 0 else 9) (rsEncode ⟨2, 1, g⟩ (fun i _ => if i = 0 then 7 else 9))
    (fun i => if i = 0 then 0 else 1) 1 (show FlagMap 3 _ by decide)
    ⟨hdata, fun _ _ _ _ => rfl⟩ (show 2 ≤ receivedCount 3 _ by decide)
  exact ⟨g, out, hnew, hout, hdec 0 rfl 0 (by decide)⟩

/-- A packet as sent is its row of the generator times the data. -/
theorem gf_sent (data : Fin code.k → Packet) (x : Fin code.k ⊕ Fin code.m) (r : ℕ) :
    gf (bufferOf code data (rsEncode code data) x r) =
      ∑ j, gf (generatorRow code x j) * gf (data j r) := by
  have he : Encoded code data data (rsEncode code data) (fun _ => 1) (r + 1) :=
    ⟨fun _ _ _ _ => rfl, fun _ _ _ _ => rfl⟩
  exact gf_bufferOf he rfl (Nat.lt_succ_self r)

/-- Blocks that are sent alike in the first `k` packets of a list that determines them. -/
theorem data_eq_of_sent {lostMap : ℕ → ℤ} (hlen : code.k ≤ (receivedList code lostMap).length)
    (hdet : (gfM (deSubGM (((receivedList code lostMap).take code.k).map
      (generatorRow code)))).det ≠ 0) {data data' : Fin code.k → Packet} {r : ℕ}
    (hsame : ∀ x ∈ receivedList code lostMap, bufferOf code data (rsEncode code data) x r =
      bufferOf code data' (rsEncode code data') x r) (i : Fin code.k) : data i r = data' i r := by
  have hinv := Matrix.nonsing_inv_mul _ (isUnit_iff_ne_zero.2 hdet)
  have hsent : ∀ (d : Fin code.k → Packet) (l : Fin code.k) (hl : l.val < _),
      gf (bufferOf code d (rsEncode code d) ((receivedList code lostMap).get ⟨l, hl⟩) r) =
        ∑ j, gfM (deSubGM (((receivedList code lostMap).take code.k).map
          (generatorRow code))) l j * gf (d j r) := fun d l hl => by
    rw [gf_sent]
    simp [gfM, deSubGM, hl]
  have hl : ∀ l : Fin code.k, l.val < (receivedList code lostMap).length := fun l => by omega
  rw [← gf_inj, ← decode_eq hinv (fun l => hsent data l (hl l)) i,
    ← decode_eq hinv (fun l => hsent data' l (hl l)) i]
  exact Finset.sum_congr rfl fun l _ => by rw [hsame _ (get_mem _ _)]

/-- **Distance of the code.** For `k + m ≤ 255`, other than the hard-coded `(100, 5)`, two blocks
    of data with a byte that differs are sent as packets of which more than `m` differ there. -/
theorem rsCode_distance (hk : 1 ≤ k) (hkm : k + m ≤ 255) (hne : ¬ (k = 100 ∧ m = 5)) :
    ∃ code, rsFecNew k m = some code ∧ code.k = k ∧ code.m = m ∧
      ∀ (data data' : Fin code.k → Packet) (r : ℕ), (∃ i, data i r ≠ data' i r) →
        code.m < (Finset.univ.filter fun x => bufferOf code data (rsEncode code data) x r ≠
          bufferOf code data' (rsEncode code data') x r).card := by
  obtain ⟨inv, hnew, hinv⟩ := rsFecNew_eq (m := m) hk (show k ≤ rsSize by unfold rsSize; omega) hne
  refine ⟨_, hnew, rfl, rfl, ?_⟩
  have hdet := @det_received_ne ⟨k, m, matrixMulGf256 (enLeft k m) inv⟩ (gfM (enRight k))
    (generatorRow_mul hinv) hkm
  generalize (⟨k, m, matrixMulGf256 (enLeft k m) inv⟩ : RsFec) = code at hdet ⊢
  intro data data' r ⟨i, hi⟩
  by_contra hfew
  let same (x : Fin code.k ⊕ Fin code.m) : Prop :=
    bufferOf code data (rsEncode code data) x r = bufferOf code data' (rsEncode code data') x r
  let lostMap : ℕ → ℤ := fun n => if ∃ x, same x ∧ packetIndex code x = n then 1 else 0
  have hmem : ∀ x, x ∈ receivedList code lostMap ↔ same x := fun x => by
    rw [mem_receivedList]
    simp only [lostMap, (packetIndex_injective code).eq_iff, exists_eq_right]
    split <;> simp_all
  have hlen : code.k ≤ (receivedList code lostMap).length := by
    have hcard : (receivedList code lostMap).length = (Finset.univ.filter same).card := by
      rw [← toFinset_card_of_nodup (receivedList_nodup code lostMap)]
      exact congrArg _ (Finset.ext fun x => by simp [hmem])
    have hsum := Finset.card_filter_add_card_filter_not (s := Finset.univ) same
    rw [Finset.card_univ, Fintype.card_sum, Fintype.card_fin, Fintype.card_fin] at hsum
    change ¬ code.m < (Finset.univ.filter fun x => ¬ same x).card at hfew
    rw [hcard]
    omega
  exact hi (data_eq_of_sent code hlen (hdet hlen) (fun x hx => (hmem x).1 hx) i)

/-- With `k = 2` and `m = 1` two of the three packets differ. -/
theorem rsCode_distance_two_one : ∃ g, rsFecNew 2 1 = some ⟨2, 1, g⟩ ∧
      1 < (Finset.univ.filter fun x =>
        bufferOf ⟨2, 1, g⟩ (fun _ _ => 0) (rsEncode ⟨2, 1, g⟩ fun _ _ => 0) x 0 ≠
          bufferOf ⟨2, 1, g⟩ (fun i _ => if i = 0 then 7 else 0)
            (rsEncode ⟨2, 1, g⟩ fun i _ => if i = 0 then 7 else 0) x 0).card := by
  obtain ⟨⟨_, _, g⟩, hnew, rfl, rfl, h⟩ :=
    rsCode_distance (k := 2) (m := 1) (by decide) (by decide) (by decide)
  exact ⟨g, hnew, h (fun _ _ => 0) (fun i _ => if i = (0 : Fin 2) then 7 else 0) 0
    ⟨(0 : Fin 2), show (0 : UInt8) ≠ 7 by decide⟩⟩

end Complete

end Apackage.Rtp2httpd
