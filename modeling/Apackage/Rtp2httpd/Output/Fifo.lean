import Mathlib.Algebra.BigOperators.Group.List.Basic
import Mathlib.Algebra.Ring.Nat
import Apackage.Lib.Run
import Apackage.Rtp2httpd.Output.SendQueue

/-
  The send queue is a byte stream in first in, first out order.

  `QueueOk δ s` is the invariant while `δ` accepted bytes are still to be consumed: the
  counters say what the entries hold, and what was queued is what was accepted followed by
  what the entries still have to send. `Keeps` is what a change of the references may not
  touch, for the queue's own calls as for the rest of the program.
-/

namespace Apackage.Rtp2httpd

open List Lib.Run

namespace RefHeap

def unsent (h : RefHeap) (r : RefId) : List UInt8 :=
  if (h.ref r).type = .file then
    h.filePart (h.ref r).fileFd ((h.ref r).fileOffset + (h.ref r).fileSent)
      ((h.ref r).fileSize - (h.ref r).fileSent)
  else h.bytes (h.ref r).iovBase (h.ref r).iovLen

/-- The bytes of an entry that `total_bytes` counts. -/
def counted (h : RefHeap) (r : RefId) : ℕ :=
  if (h.ref r).type = .file then 0 else (h.ref r).iovLen

/-- The reference is allocated: an entry of a segment, or on its own. -/
def Live (h : RefHeap) (r : RefId) : Prop := (h.ref r).segment.isSome ∨ r ∈ h.lone
  deriving Decidable

/-- What is left of a memory entry is the end of its payload. -/
def Cut (h : RefHeap) (r : RefId) : Prop :=
  (h.ref r).type = .memory → (h.ref r).data + (h.ref r).dataOffset ≤ (h.ref r).iovBase ∧
    (h.ref r).iovBase + (h.ref r).iovLen =
      (h.ref r).data + (h.ref r).dataOffset + (h.ref r).dataSize

/-- A shared file holds the payload. -/
def Snapshot (h : RefHeap) (r : RefId) : Prop :=
  0 ≤ h.sendfileFd r → h.file (h.sendfileFd r) = h.payload r
  deriving Decidable

/-- References of pools have no owner, and owners belong to pools. -/
structure Wf (h : RefHeap) : Prop where
  pooled : ∀ r, (h.ref r).segment.isSome → (h.ref r).owner = none
  lone : ∀ v ∈ h.lone, (h.ref v).segment = none
  owner : ∀ v ∈ h.lone, ∀ o, (h.ref v).owner = some o → (h.ref o).segment.isSome


end RefHeap

/-- What a change of the references leaves alone of an entry of the queue. -/
structure Keeps (h h' : RefHeap) (r : RefId) : Prop where
  type : (h'.ref r).type = (h.ref r).type
  data : (h'.ref r).data = (h.ref r).data
  dataOffset : (h'.ref r).dataOffset = (h.ref r).dataOffset
  dataSize : (h'.ref r).dataSize = (h.ref r).dataSize
  iovBase : (h'.ref r).iovBase = (h.ref r).iovBase
  iovLen : (h'.ref r).iovLen = (h.ref r).iovLen
  capacity : h'.capacity r = h.capacity r
  unsent : h'.unsent r = h.unsent r
  live : h.Live r → h'.Live r
  snapshot : h.Snapshot r → h'.Snapshot r

/-- The invariant, with `δ` bytes accepted and not consumed yet. -/
structure QueueOk (δ : ℕ) (s : SendState) : Prop where
  wf : s.heap.Wf
  nodup : s.queue.entries.Nodup
  live : ∀ r ∈ s.queue.entries, s.heap.Live r
  cut : ∀ r ∈ s.queue.entries, s.heap.Cut r
  snapshot : ∀ r ∈ s.queue.entries, s.heap.Snapshot r
  total : s.queue.totalBytes + δ = (s.queue.entries.map s.heap.counted).sum
  memory : s.queue.memoryBytes = (s.queue.entries.map s.heap.retained).sum
  count : s.queue.numQueued = s.queue.entries.length
  stream : s.queued = s.accepted ++ (s.queue.entries.flatMap s.heap.unsent).drop δ

/-! ## Changes of the references -/

namespace Keeps

variable {h h' : RefHeap} {r : RefId}

theorem counted (hk : Keeps h h' r) : h'.counted r = h.counted r := by
  simp [RefHeap.counted, hk.type, hk.iovLen]

theorem retained (hk : Keeps h h' r) : h'.retained r = h.retained r := by
  simp [RefHeap.retained, hk.type, hk.capacity]

theorem cut (hk : Keeps h h' r) (hc : h.Cut r) : h'.Cut r := by
  unfold RefHeap.Cut
  rw [hk.type, hk.data, hk.dataOffset, hk.dataSize, hk.iovBase, hk.iovLen]
  exact hc

end Keeps

theorem QueueOk.keep {δ : ℕ} {s : SendState} {h' : RefHeap} (h : QueueOk δ s)
    (hk : ∀ r ∈ s.queue.entries, Keeps s.heap h' r) (hwf : h'.Wf) :
    QueueOk δ { s with heap := h' } := by
  refine ⟨hwf, h.nodup, fun r hr => (hk r hr).live (h.live r hr),
    fun r hr => (hk r hr).cut (h.cut r hr), fun r hr => (hk r hr).snapshot (h.snapshot r hr),
    ?_, ?_, h.count, ?_⟩
  · rw [h.total]
    congr 2
    exact map_congr_left (fun r hr => (hk r hr).counted.symm)
  · rw [h.memory]
    congr 2
    exact map_congr_left (fun r hr => (hk r hr).retained.symm)
  · rw [h.stream]
    congr 2
    exact flatMap_congr (fun r hr => (hk r hr).unsent.symm)

/-- A change of counts, of shared files that close or are given up, and of what is freed. -/
structure Quiet (h h' : RefHeap) : Prop where
  mem : h'.mem = h.mem
  file : h'.file = h.file
  parentSize : h'.parentSize = h.parentSize
  sub : ∀ v ∈ h'.lone, v ∈ h.lone
  ref : ∀ r, { h'.ref r with refcount := 0, sharedFd := 0 } =
    { h.ref r with refcount := 0, sharedFd := 0 }
  shared : ∀ r, (h'.ref r).sharedFd = (h.ref r).sharedFd ∨ (h'.ref r).sharedFd = -2 ∨
    0 ≤ (h.ref r).sharedFd ∧ (h'.ref r).sharedFd = -1

namespace Quiet

variable {h h' h'' : RefHeap} {r : RefId}

theorem refl (h : RefHeap) : Quiet h h :=
  ⟨rfl, rfl, rfl, fun _ hv => hv, fun _ => rfl, fun _ => .inl rfl⟩

theorem trans (a : Quiet h h') (b : Quiet h' h'') : Quiet h h'' := by
  refine ⟨b.mem.trans a.mem, b.file.trans a.file, b.parentSize.trans a.parentSize,
    fun v hv => a.sub v (b.sub v hv), fun r => (b.ref r).trans (a.ref r), fun r => ?_⟩
  rcases b.shared r with hb | hb | ⟨hb, hb'⟩
  · rw [hb]
    exact a.shared r
  · exact .inr (.inl hb)
  · rcases a.shared r with ha | ha | ⟨ha, -⟩
    · exact .inr (.inr ⟨ha ▸ hb, hb'⟩)
    · omega
    · exact .inr (.inr ⟨ha, hb'⟩)

theorem fields (q : Quiet h h') (r : RefId) :
    (h'.ref r).type = (h.ref r).type ∧ (h'.ref r).data = (h.ref r).data ∧
    (h'.ref r).dataOffset = (h.ref r).dataOffset ∧ (h'.ref r).dataSize = (h.ref r).dataSize ∧
    (h'.ref r).iovBase = (h.ref r).iovBase ∧ (h'.ref r).iovLen = (h.ref r).iovLen ∧
    (h'.ref r).owner = (h.ref r).owner ∧ (h'.ref r).segment = (h.ref r).segment := by
  have heq := q.ref r
  simp only [PoolRef.mk.injEq] at heq
  tauto

theorem capacity (q : Quiet h h') (r : RefId) : h'.capacity r = h.capacity r := by
  obtain ⟨htype, -, -, -, -, -, howner, -⟩ := q.fields r
  have hseg := (q.fields ((h.ref r).owner.getD r)).2.2.2.2.2.2.2
  simp [RefHeap.capacity, htype, howner, hseg, q.parentSize]

theorem unsent (q : Quiet h h') (r : RefId) : h'.unsent r = h.unsent r := by
  have heq := q.ref r
  simp only [PoolRef.mk.injEq] at heq
  obtain ⟨htype, -, -, -, -, -, -, -, hbase, hlen, hfd, hsize, hoff, hsent⟩ := heq
  simp [RefHeap.unsent, RefHeap.filePart, RefHeap.bytes, q.mem, q.file, htype, hbase, hlen, hfd,
    hsize, hoff, hsent]

theorem payload (q : Quiet h h') (r : RefId) : h'.payload r = h.payload r := by
  obtain ⟨-, hdata, hoff, hsize, -⟩ := q.fields r
  simp [RefHeap.payload, RefHeap.bytes, q.mem, hdata, hoff, hsize]

theorem sendfileFd (q : Quiet h h') (hr : 0 ≤ h'.sendfileFd r) :
    h'.sendfileFd r = h.sendfileFd r := by
  obtain ⟨htype, -, -, -, -, -, howner, -⟩ := q.fields r
  simp only [RefHeap.sendfileFd, htype, howner] at hr ⊢
  split at hr
  · omega
  · rename_i hno
    rw [if_neg hno]
    have hnot : ¬ ((h.ref r).type ≠ .memory ∨ (h.ref r).sharedFd = -2) := by
      rintro (htype | hfd)
      · exact hno (.inl htype)
      · refine hno (.inr ?_)
        rcases q.shared r with hsame | htwo | ⟨hpos, -⟩
        · rw [hsame, hfd]
        · exact htwo
        · omega
    rw [if_neg hnot]
    rcases q.shared ((h.ref r).owner.getD r) with hsame | htwo | ⟨-, hone⟩
    · exact hsame
    · omega
    · omega

theorem wf (q : Quiet h h') (hw : h.Wf) : h'.Wf := by
  have hseg : ∀ r, (h'.ref r).segment = (h.ref r).segment := fun r => (q.fields r).2.2.2.2.2.2.2
  have hown : ∀ r, (h'.ref r).owner = (h.ref r).owner := fun r => (q.fields r).2.2.2.2.2.2.1
  refine ⟨fun r hr => ?_, fun v hv => ?_, fun v hv o ho => ?_⟩
  · rw [hown]
    exact hw.pooled r (hseg r ▸ hr)
  · rw [hseg]
    exact hw.lone v (q.sub v hv)
  · rw [hseg]
    exact hw.owner v (q.sub v hv) o (hown v ▸ ho)

theorem keeps (q : Quiet h h') (hlone : r ∈ h.lone → r ∈ h'.lone) : Keeps h h' r := by
  obtain ⟨htype, hdata, hoff, hsize, hbase, hlen, -, hseg⟩ := q.fields r
  refine ⟨htype, hdata, hoff, hsize, hbase, hlen, q.capacity r, q.unsent r, ?_, ?_⟩
  · unfold RefHeap.Live
    rw [hseg]
    exact Or.imp_right hlone
  · intro hs hfd
    rw [q.payload r, q.sendfileFd hfd, q.file]
    exact hs (q.sendfileFd hfd ▸ hfd)

theorem setRef (h : RefHeap) (r : RefId) (n fd : ℤ)
    (hfd : fd = (h.ref r).sharedFd ∨ fd = -2 ∨ 0 ≤ (h.ref r).sharedFd ∧ fd = -1) :
    Quiet h (h.setRef r { h.ref r with refcount := n, sharedFd := fd }) := by
  refine ⟨rfl, rfl, rfl, fun _ hv => hv, fun x => ?_, fun x => ?_⟩
  · by_cases hx : x = r
    · subst hx
      simp
    · simp [hx]
  · by_cases hx : x = r
    · subst hx
      simpa using hfd
    · simp [hx]

theorem get (h : RefHeap) (r : RefId) : Quiet h (h.get r) :=
  setRef h r ((h.ref r).refcount + 1) (h.ref r).sharedFd (.inl rfl)

theorem erase (h : RefHeap) (r : RefId) : Quiet h { h with lone := h.lone.erase r } :=
  ⟨rfl, rfl, rfl, fun _ hv => mem_of_mem_erase hv, fun _ => rfl, fun _ => .inl rfl⟩

end Quiet

variable {h : RefHeap} {r : RefId}

theorem quiet_putNested (n : ℕ) (hw : h.Wf) (hr : h.Live r) : Quiet h (RefHeap.putNested n h r) ∧
      ∀ v ∈ h.lone, v ≠ r → v ∈ (RefHeap.putNested n h r).lone := by
  induction n generalizing h r with
  | zero => exact ⟨Quiet.refl h, fun v hv _ => hv⟩
  | succ n ih =>
    have hcount := Quiet.setRef h r ((h.ref r).refcount - 1) (h.ref r).sharedFd (.inl rfl)
    rw [RefHeap.putNested]
    split
    · split
      · rename_i owner howner
        rw [RefHeap.setRef_ref, Function.update_self] at howner
        have hpooled : (h.ref owner).segment.isSome := by
          rcases hr with hr | hr
          · rw [hw.pooled r hr] at howner
            cases howner
          · exact hw.owner r hr owner howner
        have herase := hcount.trans (Quiet.erase _ r)
        obtain ⟨hput, hlone⟩ := ih (herase.wf hw) (r := owner)
          (.inl ((herase.fields owner).2.2.2.2.2.2.2 ▸ hpooled))
        refine ⟨herase.trans hput, fun v hv hne => ?_⟩
        refine hlone v ((mem_erase_of_ne hne).mpr hv) (fun he => ?_)
        rw [← he, hw.lone v hv] at hpooled
        cases hpooled
      · split
        · exact ⟨hcount.trans (Quiet.erase _ r), fun v hv hne => (mem_erase_of_ne hne).mpr hv⟩
        · refine ⟨hcount.trans (Quiet.setRef _ r _ _ ?_), fun v hv _ => hv⟩
          split
          · tauto
          · exact .inl rfl
    · exact ⟨hcount, fun v hv _ => hv⟩

theorem keeps_put (hw : h.Wf) {r x : RefId} (hr : h.Live r) (hx : x ≠ r) : Keeps h (h.put r) x := by
  obtain ⟨hquiet, hlone⟩ := quiet_putNested (h.lone.length + 1) hw hr
  exact hquiet.keeps (fun hv => hlone x hv hx)

theorem wf_put (hw : h.Wf) (hr : h.Live r) : (h.put r).Wf :=
  (quiet_putNested (h.lone.length + 1) hw hr).1.wf hw

theorem keeps_setRef {y : PoolRef} (hseg : y.segment = (h.ref r).segment)
    (hfd : y.sharedFd = (h.ref r).sharedFd) {x : RefId} (hx : x ≠ r) :
    Keeps h (h.setRef r y) x := by
  have href : (h.setRef r y).ref x = h.ref x := by simp [hx]
  have hfield : ∀ o, ((h.setRef r y).ref o).segment = (h.ref o).segment ∧
      ((h.setRef r y).ref o).sharedFd = (h.ref o).sharedFd := by
    intro o
    by_cases ho : o = r
    · simp [*]
    · simp [ho]
  have hsend : (h.setRef r y).sendfileFd x = h.sendfileFd x := by
    simp only [RefHeap.sendfileFd, href, (hfield _).2]
  refine ⟨by rw [href], by rw [href], by rw [href], by rw [href], by rw [href], by rw [href],
    ?_, ?_, ?_, ?_⟩
  · simp only [RefHeap.capacity, href, (hfield _).1, RefHeap.setRef_parentSize]
  · simp only [RefHeap.unsent, href]
    rfl
  · unfold RefHeap.Live
    rw [href]
    exact id
  · unfold RefHeap.Snapshot RefHeap.payload
    rw [hsend, href]
    exact id

theorem wf_setRef (hw : h.Wf) {y : PoolRef} (hseg : y.segment = (h.ref r).segment)
    (howner : y.owner = (h.ref r).owner) : (h.setRef r y).Wf := by
  have hfield : ∀ o, ((h.setRef r y).ref o).segment = (h.ref o).segment ∧
      ((h.setRef r y).ref o).owner = (h.ref o).owner := by
    intro o
    by_cases ho : o = r
    · simp [*]
    · simp [ho]
  refine ⟨fun x hx => ?_, fun v hv => ?_, fun v hv o ho => ?_⟩
  · rw [(hfield x).1] at hx
    rw [(hfield x).2]
    exact hw.pooled x hx
  · rw [(hfield v).1]
    exact hw.lone v hv
  · rw [(hfield v).2] at ho
    rw [(hfield o).1]
    exact hw.owner v hv o ho

/-! ## Bytes -/

namespace RefHeap

variable (h : RefHeap)

@[simp] theorem bytes_length (a n : ℕ) : (h.bytes a n).length = n := by simp [bytes]

theorem bytes_drop (a n k : ℕ) : (h.bytes a n).drop k = h.bytes (a + k) (n - k) := by
  refine ext_getElem (by simp) (fun i hi _ => ?_)
  simp [bytes, Nat.add_assoc]

theorem bytes_take (a n k : ℕ) : (h.bytes a n).take k = h.bytes a (min k n) := by
  refine ext_getElem (by simp) (fun i hi _ => ?_)
  simp [bytes]

theorem filePart_drop (fd : ℤ) (offset size k : ℕ) :
    (h.filePart fd offset size).drop k = h.filePart fd (offset + k) (size - k) := by
  rw [filePart, drop_take, drop_drop]
  rfl

theorem unsent_memory {h : RefHeap} {r : RefId} (hr : (h.ref r).type = .memory) :
    h.unsent r = h.bytes (h.ref r).iovBase (h.ref r).iovLen := by
  rw [unsent, hr]
  rfl

theorem counted_memory {h : RefHeap} {r : RefId} (hr : (h.ref r).type = .memory) :
    h.counted r = (h.ref r).iovLen := by
  rw [counted, hr]
  rfl

/-- Bytes of the memory entries before the first file. -/
def lead : List RefId → ℕ
  | [] => 0
  | r :: rest => if (h.ref r).type = .memory then (h.ref r).iovLen + lead rest else 0

end RefHeap

theorem lead_congr {h h' : RefHeap} {l : List RefId} (hk : ∀ r ∈ l, Keeps h h' r) :
    h'.lead l = h.lead l := by
  induction l with
  | nil => rfl
  | cons r l ih =>
    rw [forall_mem_cons] at hk
    rw [RefHeap.lead, RefHeap.lead, hk.1.type, hk.1.iovLen, ih hk.2]

/-! ## Consuming -/

namespace QueueOk

variable {δ : ℕ} {s : SendState} {head : RefId} {rest : List RefId}

theorem pop (h : QueueOk δ s) (hq : s.queue.entries = head :: rest)
    (hlen : (s.heap.unsent head).length ≤ δ)
    (hcount : s.heap.counted head = (s.heap.unsent head).length) :
    QueueOk (δ - (s.heap.unsent head).length)
      { s with
        queue := (sendQueuePopHead s.queue s.heap).1
        heap := (sendQueuePopHead s.queue s.heap).2 } := by
  have hnodup := h.nodup
  rw [hq, nodup_cons] at hnodup
  have hlive := h.live head (hq ▸ mem_cons_self)
  have hmem : ∀ r ∈ rest, r ∈ s.queue.entries := fun r hr => hq ▸ mem_cons_of_mem _ hr
  have hk : ∀ r ∈ rest, Keeps s.heap (s.heap.put head) r :=
    fun r hr => keeps_put h.wf hlive (fun he => hnodup.1 (he ▸ hr))
  have hpop : sendQueuePopHead s.queue s.heap =
      (⟨rest, s.queue.totalBytes, s.queue.memoryBytes - s.heap.retained head,
        s.queue.numQueued - 1⟩, s.heap.put head) := by
    simp only [sendQueuePopHead, hq]
  rw [hpop]
  refine ⟨wf_put h.wf hlive, hnodup.2, fun r hr => (hk r hr).live (h.live r (hmem r hr)),
    fun r hr => (hk r hr).cut (h.cut r (hmem r hr)),
    fun r hr => (hk r hr).snapshot (h.snapshot r (hmem r hr)), ?_, ?_, ?_, ?_⟩
  · have htotal := h.total
    rw [hq, map_cons, sum_cons, hcount] at htotal
    rw [map_congr_left (fun r hr => (hk r hr).counted)]
    dsimp only
    omega
  · have hmemory := h.memory
    rw [hq, map_cons, sum_cons] at hmemory
    rw [map_congr_left (fun r hr => (hk r hr).retained)]
    dsimp only
    omega
  · have hnum := h.count
    rw [hq, length_cons] at hnum
    dsimp only
    omega
  · have hstream := h.stream
    rw [hq, flatMap_cons, drop_append, drop_eq_nil_of_le hlen, nil_append] at hstream
    rw [flatMap_congr (fun r hr => (hk r hr).unsent)]
    exact hstream

theorem cutHead (h : QueueOk δ s) (hq : s.queue.entries = head :: rest)
    (htype : (s.heap.ref head).type = .memory) (hlt : δ < (s.heap.ref head).iovLen) :
    QueueOk 0 { s with heap := s.heap.setRef head { s.heap.ref head with
      iovBase := (s.heap.ref head).iovBase + δ, iovLen := (s.heap.ref head).iovLen - δ } } := by
  have hnodup := h.nodup
  rw [hq, nodup_cons] at hnodup
  set h' := s.heap.setRef head { s.heap.ref head with
      iovBase := (s.heap.ref head).iovBase + δ, iovLen := (s.heap.ref head).iovLen - δ } with hh'
  have hk : ∀ r ∈ rest, Keeps s.heap h' r := by
    intro r hr
    rw [hh']
    exact keeps_setRef (by rfl) (by rfl) (fun he : r = head => hnodup.1 (he ▸ hr))
  have href : h'.ref head = { s.heap.ref head with
      iovBase := (s.heap.ref head).iovBase + δ, iovLen := (s.heap.ref head).iovLen - δ } := by
    simp [hh']
  have hmem : ∀ r ∈ rest, r ∈ s.queue.entries := fun r hr => hq ▸ mem_cons_of_mem _ hr
  have hheadMem : head ∈ s.queue.entries := hq ▸ mem_cons_self
  have hfield : ∀ o, (h'.ref o).segment = (s.heap.ref o).segment ∧
      (h'.ref o).sharedFd = (s.heap.ref o).sharedFd := by
    intro o
    by_cases ho : o = head
    · simp [*]
    · simp [hh', ho]
  have hunsent : h'.unsent head = (s.heap.unsent head).drop δ := by
    rw [RefHeap.unsent_memory htype, RefHeap.bytes_drop, RefHeap.unsent_memory (by rw [href, htype]),
      href]
    rfl
  refine ⟨wf_setRef h.wf rfl rfl, h.nodup, fun r hr => ?_, fun r hr => ?_, fun r hr => ?_, ?_, ?_,
    h.count, ?_⟩
  · unfold RefHeap.Live
    rw [(hfield r).1]
    exact h.live r hr
  · rw [hq] at hr
    rcases List.mem_cons.mp hr with rfl | hr
    · intro _
      obtain ⟨hbase, hend⟩ := h.cut r hheadMem htype
      rw [href]
      dsimp only
      omega
    · exact (hk r hr).cut (h.cut r (hmem r hr))
  · rw [hq] at hr
    rcases List.mem_cons.mp hr with rfl | hr
    · have hfd : h'.sendfileFd r = s.heap.sendfileFd r := by
        simp [RefHeap.sendfileFd, (hfield _).2, href]
      unfold RefHeap.Snapshot RefHeap.payload
      rw [hfd, href]
      exact h.snapshot r hheadMem
    · exact (hk r hr).snapshot (h.snapshot r (hmem r hr))
  · have htotal := h.total
    rw [hq, map_cons, sum_cons, RefHeap.counted_memory htype] at htotal
    rw [hq, map_cons, sum_cons, RefHeap.counted_memory (by rw [href, htype]), href,
      map_congr_left (fun r hr => (hk r hr).counted)]
    dsimp only
    omega
  · have hretained : h'.retained head = s.heap.retained head := by
      simp only [RefHeap.retained, RefHeap.capacity, (hfield _).1, href]
      rfl
    rw [h.memory, hq, map_cons, map_cons, hretained,
      map_congr_left (fun r hr => (hk r hr).retained)]
  · rw [h.stream, hq, flatMap_cons, flatMap_cons, hunsent, drop_zero,
      flatMap_congr (fun r hr => (hk r hr).unsent), drop_append_of_le_length]
    rw [RefHeap.unsent_memory htype, RefHeap.bytes_length]
    exact Nat.le_of_lt hlt

theorem consume (h : QueueOk δ s) (hlead : δ ≤ s.heap.lead s.queue.entries) : QueueOk 0 { s with
      queue := (consumeEntries s.queue.entries δ s.queue s.heap).1
      heap := (consumeEntries s.queue.entries δ s.queue s.heap).2 } := by
  induction hq : s.queue.entries generalizing δ s with
  | nil =>
    rw [hq, RefHeap.lead] at hlead
    obtain rfl : δ = 0 := by omega
    exact h
  | cons head rest ih =>
    rw [consumeEntries]
    split
    · rename_i hzero
      subst hzero
      exact h
    · rename_i hne
      rw [hq, RefHeap.lead] at hlead
      have htype : (s.heap.ref head).type = .memory := by
        by_contra hno
        rw [if_neg hno] at hlead
        omega
      rw [if_pos htype] at hlead
      have hbytes : (s.heap.unsent head).length = (s.heap.ref head).iovLen := by
        rw [RefHeap.unsent_memory htype, RefHeap.bytes_length]
      by_cases hlt : δ < (s.heap.ref head).iovLen
      · simp only [if_pos hlt]
        exact h.cutHead hq htype hlt
      · simp only [if_neg hlt]
        have hpop := h.pop hq (by omega) (by rw [RefHeap.counted_memory htype, hbytes])
        have hnodup := h.nodup
        rw [hq, nodup_cons] at hnodup
        have hentries : (sendQueuePopHead s.queue s.heap).1.entries = rest := by
          simp [sendQueuePopHead, hq]
        have hheap : (sendQueuePopHead s.queue s.heap).2 = s.heap.put head := by
          simp [sendQueuePopHead, hq]
        rw [hbytes] at hpop
        refine ih hpop ?_ hentries
        rw [hentries, hheap, lead_congr (fun r hr => keeps_put h.wf
          (h.live head (hq ▸ mem_cons_self)) (fun he => hnodup.1 (he ▸ hr)))]
        omega

theorem accept (h : QueueOk 0 s) {out : List UInt8} (hlen : out.length ≤ s.heap.lead s.queue.entries)
    (hout : out <+: s.queue.entries.flatMap s.heap.unsent) :
    QueueOk 0 (sendQueueConsumeMemory { s with accepted := s.accepted ++ out } out.length) := by
  have hδ : QueueOk out.length { s with
      queue := { s.queue with totalBytes := s.queue.totalBytes - out.length }
      accepted := s.accepted ++ out } := by
    refine ⟨h.wf, h.nodup, h.live, h.cut, h.snapshot, ?_, h.memory, h.count, ?_⟩
    · have := h.total
      dsimp only
      omega
    · obtain ⟨tail, htail⟩ := hout
      have hstream := h.stream
      rw [drop_zero, ← htail] at hstream
      rw [hstream, ← htail, drop_left, append_assoc]
  exact hδ.consume hlen

end QueueOk

/-! ## Sending -/

theorem iovecs_offer (h : RefHeap) (k budget : ℕ) (entries : List RefId) : ∃ m, m ≤ h.lead entries ∧
      (buildIovecs h k budget entries).flatMap (fun v => h.bytes v.1 v.2) =
        (entries.flatMap h.unsent).take m := by
  induction k generalizing budget entries with
  | zero => exact ⟨0, Nat.zero_le _, rfl⟩
  | succ k ih =>
    cases entries with
    | nil => exact ⟨0, Nat.zero_le _, rfl⟩
    | cons r rest =>
      rw [buildIovecs]
      split
      · exact ⟨0, Nat.zero_le _, rfl⟩
      · rename_i hno
        have htype : (h.ref r).type = .memory := by
          tauto
        have hbytes : (h.unsent r).length = (h.ref r).iovLen := by
          rw [RefHeap.unsent_memory htype, RefHeap.bytes_length]
        rw [RefHeap.lead, if_pos htype]
        split
        · rename_i hgt
          refine ⟨budget, by omega, ?_⟩
          have hnil : buildIovecs h k (budget - budget) rest = [] := by
            cases k <;> cases rest <;> simp [buildIovecs]
          change List.flatMap _ (((h.ref r).iovBase, budget) ::
            buildIovecs h k (budget - budget) rest) = _
          rw [hnil, flatMap_cons, flatMap_cons, flatMap_nil, append_nil,
            take_append_of_le_length (by omega), RefHeap.unsent_memory htype,
            RefHeap.bytes_take, Nat.min_eq_left (Nat.le_of_lt hgt)]
        · obtain ⟨m, hm, heq⟩ := ih (budget - (h.ref r).iovLen) rest
          refine ⟨(h.ref r).iovLen + m, by omega, ?_⟩
          rw [flatMap_cons, flatMap_cons, heq, ← hbytes, take_length_add_append,
            hbytes, RefHeap.unsent_memory htype]

namespace QueueOk

variable {s : SendState} {head : RefId} {rest : List RefId}

theorem message (h : QueueOk 0 s) (maxBytes : ℕ) (reply : Reply) :
    QueueOk 0 (sendMessage s maxBytes reply).1 := by
  obtain ⟨m, hm, heq⟩ := iovecs_offer s.heap sendQueueMaxIovecs maxBytes s.queue.entries
  unfold sendMessage
  dsimp only
  split
  · exact h
  · rw [heq]
    cases reply with
    | accept n =>
      refine h.accept ?_ (( take_prefix _ _).trans ( take_prefix _ _))
      exact Nat.le_trans (length_take_le' _ _) (Nat.le_trans (length_take_le _ _) hm)
    | fail e => cases e <;> exact h

theorem sharedOffer (h : QueueOk 0 s) (hq : s.queue.entries = head :: rest)
    (hfd : 0 ≤ s.heap.sendfileFd head) (count : ℕ) :
    (s.heap.ref head).type = .memory ∧
    s.heap.filePart (s.heap.sendfileFd head)
      ((s.heap.ref head).iovBase - ((s.heap.ref head).data + (s.heap.ref head).dataOffset)) count =
        (s.heap.unsent head).take count := by
  have hmem : head ∈ s.queue.entries := hq ▸ mem_cons_self
  have htype : (s.heap.ref head).type = .memory := by
    by_contra hne
    rw [RefHeap.sendfileFd, if_pos (.inl hne)] at hfd
    omega
  obtain ⟨hbase, hend⟩ := h.cut head hmem htype
  refine ⟨htype, ?_⟩
  rw [RefHeap.filePart, h.snapshot head hmem hfd, RefHeap.payload, RefHeap.bytes_drop,
    RefHeap.unsent_memory htype]
  congr 2 <;> omega

theorem fileHead (h : QueueOk 0 s) (hq : s.queue.entries = head :: rest)
    (htype : (s.heap.ref head).type = .file) (maxBytes : ℕ) (reply : Reply) :
    QueueOk 0 (sendFileHead s head maxBytes reply).1 := by
  cases reply with
  | fail e => cases e <;> exact h
  | accept n =>
    have hnodup := h.nodup
    rw [hq, nodup_cons] at hnodup
    unfold sendFileHead
    dsimp only
    set x := s.heap.ref head with hx
    set remaining := if x.fileSize - x.fileSent > maxBytes then maxBytes
      else x.fileSize - x.fileSent with hrem
    have hle : remaining ≤ x.fileSize - x.fileSent := by
      rw [hrem]
      split <;> omega
    set out := (s.heap.filePart x.fileFd (x.fileOffset + x.fileSent) remaining).take n with hout
    set h' := s.heap.setRef head { x with fileSent := x.fileSent + out.length } with hh'
    have hunsent : s.heap.unsent head = s.heap.filePart x.fileFd (x.fileOffset + x.fileSent)
        (x.fileSize - x.fileSent) := by
      rw [RefHeap.unsent, ← hx, if_pos htype]
    have hstart : out <+: s.heap.unsent head := by
      rw [hunsent, hout]
      refine ( take_prefix _ _).trans ?_
      exact take_prefix_take_left hle
    have href : h'.ref head = { x with fileSent := x.fileSent + out.length } := by simp [hh']
    have hunsent' : h'.unsent head = (s.heap.unsent head).drop out.length := by
      rw [hunsent, RefHeap.filePart_drop, RefHeap.unsent, href]
      rw [if_pos htype, Nat.add_assoc, Nat.sub_sub]
      rfl
    have hk : ∀ r ∈ rest, Keeps s.heap h' r := by
      intro r hr
      rw [hh']
      exact keeps_setRef (by rfl) (by rfl) (fun he : r = head => hnodup.1 (he ▸ hr))
    have hfield : ∀ o, (h'.ref o).segment = (s.heap.ref o).segment ∧
        (h'.ref o).sharedFd = (s.heap.ref o).sharedFd := by
      intro o
      by_cases ho : o = head
      · simp [*]
      · simp [hh', ho]
    have hmem : ∀ r ∈ rest, r ∈ s.queue.entries := fun r hr => hq ▸ mem_cons_of_mem _ hr
    have hfile : (h'.ref head).type = .file := by rw [href]; exact htype
    have hok : QueueOk 0 { s with heap := h', accepted := s.accepted ++ out } := by
      refine ⟨wf_setRef h.wf rfl rfl, h.nodup, fun r hr => ?_, fun r hr => ?_, fun r hr => ?_, ?_,
        ?_, h.count, ?_⟩
      · unfold RefHeap.Live
        rw [(hfield r).1]
        exact h.live r hr
      · rw [hq] at hr
        rcases List.mem_cons.mp hr with rfl | hr
        · intro hmemory
          rw [hfile] at hmemory
          cases hmemory
        · exact (hk r hr).cut (h.cut r (hmem r hr))
      · rw [hq] at hr
        rcases List.mem_cons.mp hr with rfl | hr
        · intro hfd
          rw [RefHeap.sendfileFd, if_pos (.inl (by rw [hfile]; simp))] at hfd
          omega
        · exact (hk r hr).snapshot (h.snapshot r (hmem r hr))
      · have htotal := h.total
        rw [hq, map_cons, sum_cons, RefHeap.counted, ← hx, if_pos htype] at htotal
        rw [hq, map_cons, sum_cons, RefHeap.counted, if_pos hfile,
          map_congr_left (fun r hr => (hk r hr).counted)]
        exact htotal
      · have hretained : h'.retained head = s.heap.retained head := by
          rw [RefHeap.retained, RefHeap.retained, if_pos hfile, ← hx, if_pos htype]
        rw [h.memory, hq, map_cons, map_cons, hretained,
          map_congr_left (fun r hr => (hk r hr).retained)]
      · obtain ⟨tail, htail⟩ := hstart
        rw [← htail, drop_left] at hunsent'
        rw [h.stream, hq, flatMap_cons, flatMap_cons, drop_zero, drop_zero,
          flatMap_congr (fun r hr => (hk r hr).unsent), hunsent', ← htail,
          append_assoc, append_assoc]
    split
    · rename_i hdone
      have hnil : h'.unsent head = [] := by
        rw [RefHeap.unsent, if_pos hfile, href]
        rw [RefHeap.filePart, Nat.sub_eq_zero_of_le hdone, take_zero]
      have hpop := hok.pop hq (by rw [hnil]; exact Nat.le_refl 0)
        (by rw [hnil, RefHeap.counted, if_pos hfile]; rfl)
      rw [Nat.zero_sub] at hpop
      exact hpop
    · exact hok

theorem unshared (h : QueueOk 0 s) (hq : s.queue.entries = head :: rest) (maxBytes : ℕ)
    (file msg : Reply) : QueueOk 0 (sendUnshared s head maxBytes file msg).1 := by
  unfold sendUnshared
  split
  · rename_i htype
    exact h.fileHead hq htype maxBytes file
  · exact h.message maxBytes msg

theorem send (h : QueueOk 0 s) (maxBytes : ℕ) (file msg : Reply) :
    QueueOk 0 (sendQueueSend s maxBytes file msg).1 := by
  unfold sendQueueSend
  split
  · exact h
  · rename_i head rest hq
    split
    · exact h
    · split
      · rename_i hfd
        have hquiet := Quiet.setRef s.heap head (s.heap.ref head).refcount (-2) (.inr (.inl rfl))
        have hfall := h.keep (fun r _ => hquiet.keeps (fun hv => hv)) (hquiet.wf h.wf)
        dsimp only
        split
        · exact hfall.unshared hq maxBytes _ msg
        · exact hfall.unshared hq maxBytes _ msg
        · exact hfall.unshared hq maxBytes _ msg
        · exact h
        · exact h
        · exact h
        · exact h
        · generalize (if (s.heap.ref head).iovLen < maxBytes then (s.heap.ref head).iovLen
            else maxBytes) = count
          obtain ⟨htype, hoffer⟩ := h.sharedOffer hq hfd count
          rw [hoffer]
          split
          · exact h
          · refine h.accept ?_ ?_
            · rw [hq, RefHeap.lead, if_pos htype]
              have hlen : (s.heap.unsent head).length = (s.heap.ref head).iovLen := by
                rw [RefHeap.unsent_memory htype, RefHeap.bytes_length]
              simp only [length_take]
              omega
            · grind
      · exact h.unshared hq maxBytes file msg

end QueueOk

/-! ## Adding -/

theorem Keeps.trans {h h' h'' : RefHeap} (a : Keeps h h' r) (b : Keeps h' h'' r) : Keeps h h'' r :=
  ⟨b.type.trans a.type, b.data.trans a.data, b.dataOffset.trans a.dataOffset,
    b.dataSize.trans a.dataSize, b.iovBase.trans a.iovBase, b.iovLen.trans a.iovLen,
    b.capacity.trans a.capacity, b.unsent.trans a.unsent, fun hl => b.live (a.live hl),
    fun hs => b.snapshot (a.snapshot hs)⟩

namespace QueueOk

variable {s : SendState}

theorem append (h : QueueOk 0 s) {h' : RefHeap} {r : RefId} (hr : r ∉ s.queue.entries)
    (hk : ∀ x ∈ s.queue.entries, Keeps s.heap h' x) (hwf : h'.Wf) (hlive : h'.Live r)
    (hcut : h'.Cut r) (hsnap : h'.Snapshot r) {total memory : ℕ} (htotal : h'.counted r = total)
    (hmemory : h'.retained r = memory) {out : List UInt8} (hout : h'.unsent r = out) :
    QueueOk 0 ⟨⟨s.queue.entries ++ [r], s.queue.totalBytes + total, s.queue.memoryBytes + memory,
      s.queue.numQueued + 1⟩, h', s.queued ++ out, s.accepted⟩ := by
  have hkeep := h.keep hk hwf
  have hall : ∀ {P : RefId → Prop}, (∀ x ∈ s.queue.entries, P x) → P r →
      ∀ x ∈ s.queue.entries ++ [r], P x := by
    intro P hold hnew x hx
    rcases mem_append.mp hx with hx | hx
    · exact hold x hx
    · rw [mem_singleton] at hx
      exact hx ▸ hnew
  refine ⟨hwf, ?_, hall hkeep.live hlive, hall hkeep.cut hcut, hall hkeep.snapshot hsnap, ?_, ?_,
    ?_, ?_⟩
  · refine nodup_append.mpr ⟨h.nodup, by simp, ?_⟩
    rintro x hx y hy rfl
    rw [mem_singleton] at hy
    exact hr (hy ▸ hx)
  · have := hkeep.total
    simp only [map_append, map_cons, map_nil, sum_append, sum_singleton, htotal]
    dsimp only at this
    omega
  · have := hkeep.memory
    simp only [map_append, map_cons, map_nil, sum_append, sum_singleton, hmemory]
    dsimp only at this
    omega
  · have := h.count
    simp only [length_append, length_singleton]
    omega
  · have := hkeep.stream
    simp only [flatMap_append, flatMap_cons, flatMap_nil, append_nil, drop_zero, hout] at this ⊢
    rw [this, append_assoc]

theorem add (h : QueueOk 0 s) {r : RefId} (hr : r ∉ s.queue.entries) (hlive : s.heap.Live r)
    (hsnap : s.heap.Snapshot r) : QueueOk 0 (sendQueueAdd s r).1 := by
  unfold sendQueueAdd
  dsimp only
  split
  · exact h
  · rename_i hsize
    split
    · exact h
    · rename_i hvalid
      have htype : (s.heap.ref r).type = .memory := by
        by_contra hne
        have hcap : s.heap.capacity r = 0 := by rw [RefHeap.capacity, if_pos hne]
        omega
      set y := { s.heap.ref r with
        type := .memory
        iovBase := (s.heap.ref r).data + (s.heap.ref r).dataOffset
        iovLen := (s.heap.ref r).dataSize } with hy
      set h' := s.heap.setRef r y with hh'
      have href : h'.ref r = y := by simp [hh']
      have hquiet := Quiet.get h' r
      have hkeepR := hquiet.keeps (r := r) (fun hv => hv)
      have hfield : ∀ o, (h'.ref o).segment = (s.heap.ref o).segment ∧
          (h'.ref o).sharedFd = (s.heap.ref o).sharedFd := by
        intro o
        by_cases ho : o = r
        · simp [*]
        · simp [hh', ho]
      have hcap : h'.capacity r = s.heap.capacity r := by
        simp only [RefHeap.capacity, (hfield _).1, href, hy, htype]
        rfl
      refine h.append hr ?_ (hquiet.wf (wf_setRef h.wf (by rfl) (by rfl))) (hkeepR.live ?_)
        (hkeepR.cut ?_) (hkeepR.snapshot ?_) ?_ ?_ ?_
      · intro x hx
        have hk : Keeps s.heap h' x := by
          rw [hh']
          exact keeps_setRef (by rfl) (by rfl) (fun he : x = r => hr (he ▸ hx))
        exact hk.trans (hquiet.keeps (fun hv => hv))
      · unfold RefHeap.Live
        rw [(hfield r).1]
        exact hlive
      · intro _
        rw [href]
        exact ⟨Nat.le_refl _, rfl⟩
      · unfold RefHeap.Snapshot RefHeap.payload
        have hfd : h'.sendfileFd r = s.heap.sendfileFd r := by
          simp [RefHeap.sendfileFd, (hfield _).2, href, hy, htype]
        rw [hfd, href]
        exact hsnap
      · rw [hkeepR.counted, RefHeap.counted_memory (by rw [href]), href]
      · rw [hkeepR.retained, RefHeap.retained, href, hcap]
        rfl
      · rw [hkeepR.unsent, RefHeap.unsent_memory (by rw [href]), href]
        rfl

theorem addFile (h : QueueOk 0 s) {mem : Option RefId}
    (hmem : ∀ v ∈ mem, (s.heap.ref v).segment = none ∧ v ∉ s.heap.lone) (fd : ℤ)
    (offset size : ℕ) : QueueOk 0 (sendQueueAddFile s mem fd offset size).1 := by
  unfold sendQueueAddFile
  split
  · exact h
  · cases mem with
    | none => exact h
    | some v =>
      obtain ⟨hseg, hlone⟩ := hmem v rfl
      dsimp only
      set y := { PoolRef.zero with
        type := .file, fileFd := fd, fileOffset := offset, fileSize := size, fileSent := 0
        refcount := 1, segment := none } with hy
      set h' : RefHeap := { s.heap.setRef v y with lone := v :: s.heap.lone } with hh'
      have href : h'.ref v = y := by simp [hh']
      have hother : ∀ x, x ≠ v → h'.ref x = s.heap.ref x := by
        intro x hx
        simp [hh', hx]
      have hpooled : ∀ x, (s.heap.ref x).segment.isSome → h'.ref x = s.heap.ref x := by
        intro x hx
        refine hother x (fun he => ?_)
        rw [he, hseg] at hx
        cases hx
      have hnew : ∀ x, s.heap.Live x → x ≠ v := by
        rintro x (hx | hx) rfl
        · rw [hseg] at hx
          cases hx
        · exact hlone hx
      have howner : ∀ x, s.heap.Live x → h'.ref ((s.heap.ref x).owner.getD x) =
          s.heap.ref ((s.heap.ref x).owner.getD x) := by
        intro x hx
        cases ho : (s.heap.ref x).owner with
        | none => exact hother x (hnew x hx)
        | some o =>
          rcases hx with hx | hx
          · rw [h.wf.pooled x hx] at ho
            cases ho
          · exact hpooled o (h.wf.owner x hx o ho)
      rw [show s.queue.totalBytes = s.queue.totalBytes + ((0 : ℕ) : ℤ) by simp]
      refine h.append (r := v) (fun hv => hnew v (h.live v hv) rfl) ?_ ?_ ?_ ?_ ?_ ?_ ?_ ?_
      · intro x hx
        have hl := h.live x hx
        have hxv := hother x (hnew x hl)
        have hfd : h'.sendfileFd x = s.heap.sendfileFd x := by
          simp [RefHeap.sendfileFd, hxv, howner x hl]
        refine ⟨by rw [hxv], by rw [hxv], by rw [hxv], by rw [hxv], by rw [hxv], by rw [hxv],
          ?_, ?_, ?_, ?_⟩
        · simp only [RefHeap.capacity, hxv, howner x hl]
          rfl
        · simp only [RefHeap.unsent, hxv]
          rfl
        · unfold RefHeap.Live
          rw [hxv]
          exact Or.imp_right (mem_cons_of_mem _)
        · unfold RefHeap.Snapshot RefHeap.payload
          rw [hfd, hxv]
          exact id
      · refine ⟨fun x hx => ?_, fun x hx => ?_, fun x hx o ho => ?_⟩
        · by_cases he : x = v
          · rw [he, href]
            rfl
          · rw [hother x he] at hx ⊢
            exact h.wf.pooled x hx
        · rcases List.mem_cons.mp hx with rfl | hx
          · rw [href]
          · rw [hother x (hnew x (.inr hx))]
            exact h.wf.lone x hx
        · rcases List.mem_cons.mp hx with rfl | hx
          · rw [href] at ho
            cases ho
          · rw [hother x (hnew x (.inr hx))] at ho
            have hown := h.wf.owner x hx o ho
            rwa [hpooled o hown]
      · exact .inr mem_cons_self
      · intro hmemory
        rw [href] at hmemory
        cases hmemory
      · intro hfd
        rw [RefHeap.sendfileFd, href] at hfd
        simp [hy] at hfd
      · rw [RefHeap.counted, href]
        rfl
      · rw [RefHeap.retained, href]
        rfl
      · rw [RefHeap.unsent, href]
        rfl

end QueueOk

/-! ## The pool behind the references -/

theorem heap_refPut (p : BufferPool) (r : RefId) (mem : ℕ → UInt8) (file : ℤ → List UInt8) :
    (bufferRefPut p r).heap mem file = (p.heap mem file).put r := by
  have hnested : ∀ (n : ℕ) (p : BufferPool) (r : RefId),
      (putNested n p r).heap mem file = RefHeap.putNested n (p.heap mem file) r := by
    intro n
    induction n with
    | zero => exact fun _ _ => rfl
    | succ n ih =>
      intro p r
      have hset : (p.heap mem file).setRef r
          { (p.heap mem file).ref r with refcount := ((p.heap mem file).ref r).refcount - 1 } =
            (p.setCount r ((p.ref r).refcount - 1)).heap mem file := rfl
      rw [putNested, RefHeap.putNested, hset]
      generalize p.setCount r ((p.ref r).refcount - 1) = q
      refine (apply_ite (BufferPool.heap · mem file) _ _ _).trans
        (ite_congr rfl (fun _ => ?_) fun _ => rfl)
      have howner : ((q.heap mem file).ref r).owner = (q.ref r).owner := rfl
      split <;> rename_i h <;> rw [howner, h]
      · exact ih _ _
      · dsimp only
        rw [← h]
        exact apply_ite (BufferPool.heap · mem file) _ _ _
  exact hnested _ p r

/-- A reference of a pool that is given up elsewhere leaves the queue as it is. -/
theorem QueueOk.refPut {s : SendState} (h : QueueOk 0 s) {p : BufferPool} {mem : ℕ → UInt8}
    {file : ℤ → List UInt8} (hheap : s.heap = p.heap mem file) {r : RefId} (hr : s.heap.Live r)
    (hnot : r ∉ s.queue.entries) :
    QueueOk 0 { s with heap := (bufferRefPut p r).heap mem file } := by
  rw [heap_refPut, ← hheap]
  exact h.keep (fun x hx => keeps_put h.wf hr fun heq => hnot (heq ▸ hx)) (wf_put h.wf hr)

/-! ## Runs -/

/-- What callers are allowed. A buffer is added once at a time, is allocated, and its shared
    file, when it has one, is a snapshot of it. A file entry is newly allocated. The rest of
    the program leaves the entries of the queue alone. -/
def QueueOpOk (s : SendState) : QueueOp → Prop
  | .add r => r ∉ s.queue.entries ∧ s.heap.Live r ∧ s.heap.Snapshot r
  | .addFile mem _ _ _ => ∀ v ∈ mem, (s.heap.ref v).segment = none ∧ v ∉ s.heap.lone
  | .send _ _ _ => True
  | .rest heap => (∀ r ∈ s.queue.entries, Keeps s.heap heap r) ∧ heap.Wf

theorem QueueOk.step {s : SendState} (h : QueueOk 0 s) {op : QueueOp} (hop : QueueOpOk s op) :
    QueueOk 0 (queueStep s op) := by
  cases op with
  | add r => exact h.add hop.1 hop.2.1 hop.2.2
  | addFile mem fd offset size => exact h.addFile hop fd offset size
  | send maxBytes file msg => exact h.send maxBytes file msg
  | rest heap => exact h.keep hop.1 hop.2

theorem counted_eq (h : RefHeap) (r : RefId) :
    h.counted r = if (h.ref r).type = .file then 0 else (h.unsent r).length := by
  rw [RefHeap.counted]
  split
  · rfl
  · rename_i htype
    rw [RefHeap.unsent, if_neg htype, RefHeap.bytes_length]

/-- In every run, what was queued is what the kernel accepted followed by what the entries
    still have to send, and the counters say what the entries hold. -/
theorem send_queue_fifo (heap : RefHeap) (hwf : heap.Wf) (ops : List QueueOp)
    (hops : Along queueStep QueueOpOk (queueStart heap) ops) :
    let s := run queueStep (queueStart heap) ops
    s.accepted <+: s.queued ∧
    s.queued = s.accepted ++ s.queue.entries.flatMap s.heap.unsent ∧
    s.queue.totalBytes = (s.queue.entries.map (fun r =>
      if (s.heap.ref r).type = .file then 0 else (s.heap.unsent r).length)).sum ∧
    s.queue.memoryBytes = (s.queue.entries.map s.heap.retained).sum ∧
    s.queue.numQueued = s.queue.entries.length := by
  intro s
  have h : QueueOk 0 s := by
    refine run_invariant (fun _ _ hs hop => hs.step hop) ?_ hops
    exact ⟨hwf, nodup_nil, by simp [queueStart, sendQueueInit],
      by simp [queueStart, sendQueueInit], by simp [queueStart, sendQueueInit], rfl, rfl, rfl, rfl⟩
  have hstream := h.stream
  rw [drop_zero] at hstream
  refine ⟨⟨_, hstream.symm⟩, hstream, ?_, h.memory, h.count⟩
  have htotal := h.total
  rw [funext (counted_eq s.heap)] at htotal
  simpa using htotal

/-- A pool buffer, a view with a shared file, and a file. -/
def threeEntries : RefHeap where
  ref r :=
    if r = 1 then { PoolRef.zero with data := 100, dataSize := 3, refcount := 1, segment := some 7
                                      sharedFd := -1 }
    else if r = 2 then { PoolRef.zero with data := 200, dataSize := 4, refcount := 1
                                           segment := some 7, sharedFd := 5 }
    else if r = 3 then { PoolRef.zero with data := 200, dataSize := 4, refcount := 1
                                           sharedFd := -1, owner := some 2 }
    else .zero
  lone := [3]
  parentSize _ := 8
  mem a := UInt8.ofNat a
  file fd := if fd = 5 then [200, 201, 202, 203] else [1, 2, 3]

/-- Two bytes of the buffer, the rest of it, the view by `sendmsg` after a rejected
    `sendfile`, and a part of the file. -/
theorem send_queue_fifo_three :
    let s := run queueStep (queueStart threeEntries) [.add 1, .add 3, .addFile (some 4) 6 1 2,
      .send 2 (.fail .eagain) (.accept 9), .send 9 (.fail .eagain) (.accept 9),
      .send 9 (.fail .einval) (.accept 9), .send 1 (.accept 9) (.accept 9)]
    s.accepted <+: s.queued ∧ s.queued = [100, 101, 102, 200, 201, 202, 203, 2, 3] ∧
    s.accepted = [100, 101, 102, 200, 201, 202, 203, 2] := by
  have hwf : threeEntries.Wf := by
    refine ⟨fun r hr => ?_, by decide, by decide⟩
    unfold threeEntries at hr ⊢
    dsimp only at hr ⊢
    split
    · rfl
    · split
      · rfl
      · split
        · simp_all [PoolRef.zero]
        · rfl
  have hops : Along queueStep QueueOpOk (queueStart threeEntries) [.add 1, .add 3,
      .addFile (some 4) 6 1 2, .send 2 (.fail .eagain) (.accept 9),
      .send 9 (.fail .eagain) (.accept 9), .send 9 (.fail .einval) (.accept 9),
      .send 1 (.accept 9) (.accept 9)] := by
    refine ⟨⟨by decide, by decide, by decide⟩, ⟨by decide, by decide, by decide⟩, ?_, trivial,
      trivial, trivial, trivial, trivial⟩
    rintro v ⟨⟩
    exact ⟨by decide, by decide⟩
  exact ⟨(send_queue_fifo threeEntries hwf _ hops).1, by decide, by decide⟩

end Apackage.Rtp2httpd
