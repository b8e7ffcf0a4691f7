import Mathlib.Data.Int.Notation
import Mathlib.Data.List.Basic
import Mathlib.Logic.Function.Basic
import Mathlib.Tactic.Simps.Basic

/-
  The buffer pool (`buffer_pool.c`): segments of buffers, a free list shared by all segments,
  reference counts, and views that keep the buffer they share alive.

  Model. Pointers to references, segments and addresses of buffers are numbers. The array `refs` of
  a segment is the range of `num_buffers` pointers from `refs` on. The list linked by `free_next` is
  a Lean list. What the allocator returns is a parameter of the call, with none for a failure. One
  pool is modelled; it is the parent of all of its segments.

  `lone` lists the references that were allocated on their own (views and files) and not freed yet.
  `held` only records how many references to each buffer the callers hold.
-/

namespace Apackage.Rtp2httpd

def bufferPoolBufferSize : ℕ := 1536

/-- `buffer_type_t`. -/
inductive BufferType
  | memory
  | file
  deriving DecidableEq

/-- A pointer to a `buffer_ref_t`. -/
abbrev RefId := ℕ

/-- A pointer to a `buffer_pool_segment_t`. -/
abbrev SegId := ℕ

/-- `buffer_ref_t`; a union is two fields, of which `type` says which one is meant. -/
structure PoolRef where
  type : BufferType
  data : ℕ
  dataSize : ℕ
  dataOffset : ℕ
  refcount : ℤ
  segment : Option SegId
  owner : Option RefId
  sharedFd : ℤ
  iovBase : ℕ
  iovLen : ℕ
  fileFd : ℤ
  fileSize : ℕ
  fileOffset : ℕ
  fileSent : ℕ

/-- `calloc(1, sizeof(buffer_ref_t))`. -/
def PoolRef.zero : PoolRef := ⟨.memory, 0, 0, 0, 0, none, none, 0, 0, 0, 0, 0, 0, 0⟩

structure Segment where
  buffers : ℕ
  refs : RefId
  numBuffers : ℕ
  numFree : ℕ

/-- The reference is an entry of the array `refs`. -/
def Segment.has (g : Segment) (r : RefId) : Prop := g.refs ≤ r ∧ r < g.refs + g.numBuffers
  deriving Decidable

/-- `buf_addr >= seg_start && buf_addr < seg_end`. -/
def Segment.covers (g : Segment) (bufferSize : ℕ) (addr : ℕ) : Prop :=
  g.buffers ≤ addr ∧ addr < g.buffers + g.numBuffers * bufferSize
  deriving Decidable

/-- `buffer_pool_t` with the memory its pointers reach. -/
structure BufferPool where
  segments : List SegId
  seg : SegId → Segment
  ref : RefId → PoolRef
  freeList : List RefId
  bufferSize : ℕ
  numBuffers : ℕ
  numFree : ℕ
  maxBuffers : ℕ
  expandSize : ℕ
  lowWatermark : ℕ
  highWatermark : ℕ
  lone : List RefId
  held : RefId → ℕ

/-- Memory for a segment: the segment itself, its buffers and its references. -/
structure SegmentMemory where
  segment : SegId
  buffers : ℕ
  refs : RefId

namespace BufferPool

@[simps] def setRef (p : BufferPool) (r : RefId) (x : PoolRef) : BufferPool :=
  { p with ref := Function.update p.ref r x }

/-- `ref->refcount = n`. -/
@[simps!] def setCount (p : BufferPool) (r : RefId) (n : ℤ) : BufferPool :=
  p.setRef r { p.ref r with refcount := n }

/-- A change of `num_free` of the segment of a reference. -/
def withFree (seg : SegId → Segment) (i : Option SegId) (f : ℕ → ℕ) : SegId → Segment :=
  match i with
  | none => seg
  | some i => Function.update seg i { seg i with numFree := f (seg i).numFree }

/-- A caller takes over a reference. -/
@[simps] def hold (p : BufferPool) (r : RefId) : BufferPool :=
  { p with held := Function.update p.held r (p.held r + 1) }

/-- A caller gives a reference away. -/
@[simps] def unhold (p : BufferPool) (r : RefId) : BufferPool :=
  { p with held := Function.update p.held r (p.held r - 1) }

end BufferPool

/-! ## Segments -/

/-- Entry `r` of the references of a new segment. -/
def segmentRef (mem : SegmentMemory) (bufferSize : ℕ) (r : RefId) : PoolRef :=
  { PoolRef.zero with
    data := mem.buffers + (r - mem.refs) * bufferSize
    segment := some mem.segment
    sharedFd := -1 }

/-- `buffer_pool_segment_create`, when the memory is there. -/
@[simps] def bufferPoolSegmentCreate (mem : SegmentMemory) (numBuffers : ℕ) (p : BufferPool) :
    BufferPool :=
  { p with
    seg := Function.update p.seg mem.segment ⟨mem.buffers, mem.refs, numBuffers, numBuffers⟩
    ref := fun r => if mem.refs ≤ r ∧ r < mem.refs + numBuffers then
      segmentRef mem p.bufferSize r else p.ref r
    freeList := (List.range numBuffers).foldl (fun l i => (mem.refs + i) :: l) p.freeList }

/-- `buffer_pool_init`, when the memory is there. -/
def bufferPoolInit (bufferSize initialBuffers maxBuffers expandSize lowWatermark
    highWatermark : ℕ) (mem : SegmentMemory) : BufferPool :=
  let p : BufferPool :=
    { segments := [], seg := fun _ => ⟨0, 0, 0, 0⟩, ref := fun _ => .zero, freeList := []
      bufferSize, numBuffers := 0, numFree := 0, maxBuffers, expandSize, lowWatermark
      highWatermark, lone := [], held := fun _ => 0 }
  { bufferPoolSegmentCreate mem initialBuffers p with
    segments := [mem.segment], numBuffers := initialBuffers, numFree := initialBuffers }

def BufferPool.buffersToAdd (p : BufferPool) : ℕ :=
  if p.numBuffers + p.expandSize > p.maxBuffers then p.maxBuffers - p.numBuffers
  else p.expandSize

/-- `buffer_pool_expand`; none is -1. -/
def bufferPoolExpand (mem : Option SegmentMemory) (p : BufferPool) : Option BufferPool :=
  if p.numBuffers ≥ p.maxBuffers then none
  else
    match mem with
    | none => none
    | some m =>
      let q := bufferPoolSegmentCreate m p.buffersToAdd p
      some { q with
        segments := m.segment :: q.segments
        numBuffers := q.numBuffers + p.buffersToAdd
        numFree := q.numFree + p.buffersToAdd }

/-! ## Allocation -/

/-- The end of `buffer_pool_alloc_from`: take the first reference of the free list. -/
def takeFree (p : BufferPool) : BufferPool × Option RefId :=
  match p.freeList with
  | [] => (p, none)
  | r :: rest =>
    ({ p with
        freeList := rest
        numFree := p.numFree - 1
        seg := BufferPool.withFree p.seg (p.ref r).segment (· - 1)
        ref := Function.update p.ref r
          { p.ref r with refcount := 1, dataOffset := 0, dataSize := 0 } }, some r)

def bufferPoolAllocFrom (mem : Option SegmentMemory) (p : BufferPool) : BufferPool × Option RefId :=
  if p.freeList.isEmpty then
    match bufferPoolExpand mem p with
    | none => (p, none)
    | some q => takeFree q
  else if p.numFree ≤ p.lowWatermark ∧ p.numBuffers < p.maxBuffers then
    takeFree ((bufferPoolExpand mem p).getD p)
  else takeFree p

/-! ## References -/

def bufferRefGet (p : BufferPool) (r : RefId) : BufferPool := p.setCount r ((p.ref r).refcount + 1)

/-- The end of `buffer_ref_put`: close the snapshot and put the reference on the free list. -/
def releaseRef (p : BufferPool) (r : RefId) : BufferPool :=
  let x := p.ref r
  { p with
    ref := Function.update p.ref r { x with sharedFd := if x.sharedFd ≥ 0 then -1 else x.sharedFd }
    seg := BufferPool.withFree p.seg x.segment (· + 1)
    freeList := r :: p.freeList
    numFree := p.numFree + 1 }

/-- `buffer_ref_put`, nested `n` deep at most. -/
def putNested : ℕ → BufferPool → RefId → BufferPool
  | 0, p, _ => p
  | n + 1, p, r =>
    let p := p.setCount r ((p.ref r).refcount - 1)
    if (p.ref r).refcount ≤ 0 then
      match (p.ref r).owner with
      | some owner => putNested n { p with lone := p.lone.erase r } owner
      | none => if (p.ref r).type = .file then { p with lone := p.lone.erase r } else releaseRef p r
    else p

/-- `buffer_ref_put`. A call for the owner follows the free of a view, so there are no more
    of them than views. -/
def bufferRefPut (p : BufferPool) (r : RefId) : BufferPool := putNested (p.lone.length + 1) p r

/-- `buffer_ref_view`; the view is allocated at `mem`. -/
def bufferRefView (mem : Option RefId) (p : BufferPool) (r : RefId) : BufferPool × Option RefId :=
  if (p.ref r).type ≠ .memory then (p, none)
  else
    match mem with
    | none => (p, none)
    | some v =>
      let x := p.ref r
      let owner := x.owner.getD r
      let p := { p with
        lone := v :: p.lone
        ref := Function.update p.ref v { PoolRef.zero with
          type := .memory, data := x.data, dataSize := x.dataSize, dataOffset := x.dataOffset
          refcount := 1, sharedFd := -1, owner := some owner } }
      (bufferRefGet p owner, some v)

/-! ## Shrinking -/

/-- Unlink segment `i`: its references leave the free list by the addresses of their
    buffers. -/
def freeSegment (p : BufferPool) (i : SegId) : BufferPool :=
  let inSegment := fun r => decide ((p.seg i).covers p.bufferSize (p.ref r).data)
  { p with
    freeList := p.freeList.filter (fun r => !inSegment r)
    numBuffers := p.numBuffers - (p.seg i).numBuffers
    numFree := p.numFree - p.freeList.countP inSegment
    segments := p.segments.erase i }

/-- The loop over the segments of `buffer_pool_try_shrink_pool`. -/
def shrinkSegments (minBuffers : ℕ) : List SegId → BufferPool → BufferPool
  | [], p => p
  | i :: rest, p =>
    if (p.seg i).numFree = (p.seg i).numBuffers ∧
        p.numBuffers - (p.seg i).numBuffers ≥ minBuffers then
      let p := freeSegment p i
      if p.numFree ≤ p.highWatermark then p else shrinkSegments minBuffers rest p
    else shrinkSegments minBuffers rest p

def bufferPoolTryShrinkPool (minBuffers : ℕ) (p : BufferPool) : BufferPool :=
  if p.numFree ≤ p.highWatermark ∨ p.numBuffers ≤ minBuffers then p
  else shrinkSegments minBuffers p.segments p

/-! ## Runs -/

/-- What callers do. The allocator's answer is part of the input. -/
inductive PoolOp
  | alloc (mem : Option SegmentMemory)
  | get (r : RefId)
  | put (r : RefId)
  | view (mem : Option RefId) (r : RefId)
  | shrink (minBuffers : ℕ)

/-- One call. The caller holds the reference that it receives, and no longer holds the one
    that it puts. -/
def poolStep (p : BufferPool) : PoolOp → BufferPool
  | .alloc mem =>
    match bufferPoolAllocFrom mem p with
    | (p, none) => p
    | (p, some r) => p.hold r
  | .get r => (bufferRefGet p r).hold r
  | .put r => bufferRefPut (p.unhold r) r
  | .view mem r =>
    match bufferRefView mem p r with
    | (p, none) => p
    | (p, some v) => p.hold v
  | .shrink minBuffers => bufferPoolTryShrinkPool minBuffers p

end Apackage.Rtp2httpd
