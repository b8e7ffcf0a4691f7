import Mathlib.Logic.Function.Basic
import Mathlib.Tactic.Simps.Basic
import Apackage.Lib.Serial
import Apackage.Rtp2httpd.RsFec.Codec

/-
  The state of one stream: the reorder buffer (`rtp_reorder.h`), the FEC context (`rtp_fec.h`) and
  what they have done so far.

  Model. The two C structures point at each other and change together, so the functions on them act
  on one `StreamContext`. A slot array of `window_size` pointers is a function of the index; every
  index used is `seq & window_mask`. Taking a reference to a buffer is storing it in a slot,
  dropping it is clearing the slot. Allocations succeed.

  Two parts of the state only record: `trace` lists what the functions did, newest first, and `kept`
  marks the slots whose packet has been delivered already.
-/

namespace Apackage.Rtp2httpd

open Lib.Serial

/-- `buffer_ref_t` as the reorder code uses it: the bytes at `data` and the payload range. -/
structure BufferRef where
  id : ℕ
  data : List UInt8
  dataOffset : ℕ
  dataSize : ℕ
  deriving DecidableEq

def BufferRef.payload (b : BufferRef) : List UInt8 := (b.data.drop b.dataOffset).take b.dataSize

/-- `phase`: 0, 1 and 2. -/
inductive Phase
  | notStarted
  | collecting
  | active
  deriving DecidableEq

/-- `rtp_reorder_t`; `window` holds `window_size` and `window_mask`. -/
structure RtpReorder where
  slots : ℕ → Option BufferRef
  seq : ℕ → Seq
  window : Ring
  baseSeq : Seq
  count : BitVec 16
  phase : Phase

def windowSmall : Ring := ⟨5, by decide, by decide⟩

/-- `RTP_REORDER_WINDOW_SIZE_LARGE`, 512. -/
def windowLarge : Ring := ⟨9, by decide, by decide⟩

def rtpReorderInitCollect : ℕ := 8

def rtpReorderInit (useFec : Bool) : RtpReorder where
  slots := fun _ => none
  seq := fun _ => 0
  window := if useFec then windowLarge else windowSmall
  baseSeq := 0
  count := 0
  phase := .notStarted

/-- `fec_packet_t`; `data_len` is the length of `data`. -/
structure FecPacket where
  data : List UInt8
  received : Bool
  deriving DecidableEq

/-- A zeroed `fec_packet_t`. -/
def FecPacket.empty : FecPacket := ⟨[], false⟩

/-- `fec_group_t`; `fecSlots = none` is the NULL of an inactive group. -/
structure FecGroup where
  beginSeq : Seq
  endSeq : Seq
  k : ℕ
  m : ℕ
  rtpLen : ℕ
  fecReceived : ℕ
  fecSlots : Option (List FecPacket)
  deriving DecidableEq

/-- A zeroed `fec_group_t`. -/
def FecGroup.empty : FecGroup := ⟨0, 0, 0, 0, 0, 0, none⟩

def FecGroup.active (g : FecGroup) : Bool := g.fecSlots.isSome

def fecMaxGroups : ℕ := 32

/-- `fec_context_t`. The reorder code receives a pointer to it if `initialized`, NULL
    otherwise. -/
structure FecContext where
  initialized : Bool
  fecPort : BitVec 16
  fecActive : Bool
  groups : Option (List FecGroup)
  groupCount : ℤ
  minEndSeq : Seq
  minEndSeqValid : Bool
  rsDecoder : Option RsFec
  rsK : ℕ
  rsM : ℕ
  packetsLost : ℕ
  recoverySuccesses : ℕ

/-- `memset(ctx, 0, …)`. -/
def FecContext.zero : FecContext := ⟨false, 0, false, none, 0, 0, false, none, 0, 0, 0, 0⟩

def fecInit (fecPort : BitVec 16) : FecContext :=
  { FecContext.zero with initialized := true, fecPort := fecPort }

/-- `fec && fec_is_enabled(fec)`. -/
def fecIsEnabled (f : FecContext) : Bool := f.initialized && (0 < f.fecPort || f.fecActive)

def FecContext.groupList (f : FecContext) : List FecGroup := f.groups.getD []

/-- What the functions do, in the order they do it. -/
inductive Obs
  /-- `deliver_packet` hands over a buffer while `base_seq` is `base`. -/
  | deliver (buf : BufferRef) (base : Seq)
  /-- `deliver_raw_packet` hands over recovered bytes. -/
  | deliverRaw (data : List UInt8) (base : Seq)
  /-- `count--`, with the value before it. -/
  | countDec (before : BitVec 16)
  /-- `rtp_reorder_release_range` drops a slot; `kept` if it was delivered before. -/
  | release (buf : BufferRef) (seq base : Seq) (kept : Bool)
  /-- Access to `fec_slots[index]` of an array of `allocated` entries. -/
  | slotAccess (index allocated : ℕ)
  /-- The collecting phase ends with this `base_seq`. -/
  | initComplete (base : Seq)
  deriving DecidableEq

/-- The buffer of a delivery and the `base_seq` it was delivered at. -/
def Obs.delivery : Obs → Option (BufferRef × Seq)
  | .deliver buf base => some (buf, base)
  | _ => none

/-- Deliveries of a trace, newest first. -/
def delivered (tr : List Obs) : List (BufferRef × Seq) := tr.filterMap Obs.delivery

@[simp] theorem delivered_nil : delivered [] = [] := rfl

@[simp] theorem delivered_deliver (buf : BufferRef) (base : Seq) (tr : List Obs) :
    delivered (.deliver buf base :: tr) = (buf, base) :: delivered tr := rfl

@[simp] theorem delivered_countDec (n : BitVec 16) (tr : List Obs) :
    delivered (.countDec n :: tr) = delivered tr := rfl

@[simp] theorem delivered_initComplete (base : Seq) (tr : List Obs) :
    delivered (.initComplete base :: tr) = delivered tr := rfl

def deliveries (tr : List Obs) : List (BufferRef × Seq) := (delivered tr).reverse

/-- The `base_seq` at which the collecting phase ended. -/
def firstBase (tr : List Obs) : Option Seq :=
  tr.findSome? (fun o => match o with | .initComplete base => some base | _ => none)

/-- Result of handing over the newest packet of a history: the bytes queued, or negative. -/
abbrev Conn := List Obs → ℤ

/-- The part of `stream_context_t` that handles RTP and FEC packets. `totalBytes` is the
    `total_bytes` of the call in progress and afterwards its result. -/
structure StreamContext where
  reorder : RtpReorder
  fec : FecContext
  kept : ℕ → Bool
  totalBytes : ℤ
  trace : List Obs

namespace StreamContext

def init (useFec : Bool) (fec : FecContext) : StreamContext :=
  ⟨rtpReorderInit useFec, fec, fun _ => false, 0, []⟩

variable (s : StreamContext)

@[simp] abbrev base : Seq := s.reorder.baseSeq

/-- `seq & r->window_mask`. -/
@[simp] abbrev slot (x : Seq) : ℕ := s.reorder.window.slot x

@[simp] abbrev windowSize : ℕ := s.reorder.window.size

/-- The slot holds a packet that has not been delivered. -/
def waiting (i : ℕ) : Bool := (s.reorder.slots i).isSome && !s.kept i

/-- The slot holds a packet that has been delivered and is kept for FEC. -/
def keptAt (i : ℕ) : Bool := (s.reorder.slots i).isSome && s.kept i

@[simps] def log (o : Obs) : StreamContext := { s with trace := o :: s.trace }

/-- `buffer_ref_get` and the stores to `slots[slot]`, `seq[slot]` and `count`. -/
@[simps] def storePacket (buf : BufferRef) (seqn : Seq) : StreamContext :=
  { s with
    reorder := { s.reorder with
      slots := Function.update s.reorder.slots (s.slot seqn) (some buf)
      seq := Function.update s.reorder.seq (s.slot seqn) seqn
      count := s.reorder.count + 1 }
    kept := Function.update s.kept (s.slot seqn) false }

/-- `buffer_ref_put(r->slots[i]); r->slots[i] = NULL`. -/
@[simps] def clearSlot (i : ℕ) : StreamContext :=
  { s with reorder := { s.reorder with slots := Function.update s.reorder.slots i none } }

/-- The packet stays in its slot after delivery. -/
@[simps] def keepSlot (i : ℕ) : StreamContext := { s with kept := Function.update s.kept i true }

/-- `base_seq++`. -/
@[simps] def advance : StreamContext :=
  { s with reorder := { s.reorder with baseSeq := s.reorder.baseSeq + 1 } }

/-- `total_bytes = 0` on entry. -/
@[simps] def resetBytes : StreamContext := { s with totalBytes := 0 }

/-- The first packet: `base_seq` is its number and the collecting phase begins. -/
@[simps] def startAt (q : Seq) : StreamContext :=
  { s with reorder := { s.reorder with baseSeq := q, phase := .collecting, count := 0 } }

@[simps] def rebase (q : Seq) : StreamContext :=
  { s with reorder := { s.reorder with baseSeq := q } }

/-- `count--`. -/
@[simps] def decCount : StreamContext :=
  { s with
    reorder := { s.reorder with count := s.reorder.count - 1 }
    trace := .countDec s.reorder.count :: s.trace }

end StreamContext

/-- `deliver_packet` and `if (bytes > 0) total_bytes += bytes`. -/
@[simps] def deliverPacket (conn : Conn) (buf : BufferRef) (s : StreamContext) : StreamContext :=
  { s with
    totalBytes := s.totalBytes + max 0 (conn (.deliver buf s.base :: s.trace))
    trace := .deliver buf s.base :: s.trace }

/-- `deliver_raw_packet`, likewise. -/
@[simps] def deliverRawPacket (conn : Conn) (data : List UInt8) (s : StreamContext) :
    StreamContext :=
  { s with
    totalBytes := s.totalBytes + max 0 (conn (.deliverRaw data s.base :: s.trace))
    trace := .deliverRaw data s.base :: s.trace }

def rtpReorderGet (r : RtpReorder) (seq : Seq) : Option BufferRef :=
  let slot := r.window.slot seq
  if r.seq slot = seq then r.slots slot else none

/-- One step of the walk in `rtp_reorder_release_range`. -/
def releaseOne (s : StreamContext) (seq : Seq) : StreamContext :=
  let slot := s.slot seq
  match s.reorder.slots slot with
  | none => s
  | some buf =>
    if s.reorder.seq slot = seq then
      (s.log (.release buf seq s.base (s.kept slot))).clearSlot slot
    else s

/-- The sequence numbers of `for (seq = begin_seq;; seq++) … if (seq == end_seq) break`. -/
def seqRange (beginSeq endSeq : Seq) : List Seq :=
  (List.range (ahead beginSeq endSeq + 1)).map (fun j => beginSeq + BitVec.ofNat 16 j)

def rtpReorderReleaseRange (beginSeq endSeq : Seq) (s : StreamContext) : StreamContext :=
  (seqRange beginSeq endSeq).foldl releaseOne s

theorem mem_seqRange {x beginSeq endSeq : Seq} :
    x ∈ seqRange beginSeq endSeq ↔ ahead beginSeq x ≤ ahead beginSeq endSeq := by
  simp only [seqRange, List.mem_map, List.mem_range]
  constructor
  · rintro ⟨j, hj, rfl⟩
    unfold ahead at *
    bv_omega
  · intro h
    refine ⟨ahead beginSeq x, by omega, ?_⟩
    unfold ahead
    bv_omega

end Apackage.Rtp2httpd
