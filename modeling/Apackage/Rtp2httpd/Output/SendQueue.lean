import Apackage.Rtp2httpd.Output.BufferPool

/-
  The send queue of a connection (`send_queue.c`).

  Model. The entries linked by `send_next` are a list. A queue holds references of several
  pools, so this module has its own view of the references: `RefHeap` is what lies behind the
  pointers, whatever pool they are from, with the bytes at the addresses and in the open
  files. The counters are integers, so that a subtraction below zero would show. What the
  kernel answers to `sendfile` and to `sendmsg` is part of the input of a call.

  `queued` and `accepted` only record: the payloads in the order of their adds, and the bytes
  that the kernel took.
-/

namespace Apackage.Rtp2httpd

def sendQueueMaxIovecs : ℕ := 64

/-- What the pointers to references reach. `parentSize` is `segment->parent->buffer_size`, and
    `lone` lists the references that were allocated on their own and not freed. -/
structure RefHeap where
  ref : RefId → PoolRef
  lone : List RefId
  parentSize : SegId → ℕ
  mem : ℕ → UInt8
  file : ℤ → List UInt8

namespace RefHeap

/-- The bytes from address `a` on. -/
def bytes (h : RefHeap) (a n : ℕ) : List UInt8 := (List.range n).map (fun k => h.mem (a + k))

@[simps] def setRef (h : RefHeap) (r : RefId) (x : PoolRef) : RefHeap :=
  { h with ref := Function.update h.ref r x }

def get (h : RefHeap) (r : RefId) : RefHeap :=
  h.setRef r { h.ref r with refcount := (h.ref r).refcount + 1 }

/-- `buffer_ref_put`, nested `n` deep at most; what it does to the free list of the pool is
    in `bufferRefPut`. -/
def putNested : ℕ → RefHeap → RefId → RefHeap
  | 0, h, _ => h
  | n + 1, h, r =>
    let h := h.setRef r { h.ref r with refcount := (h.ref r).refcount - 1 }
    let x := h.ref r
    if x.refcount ≤ 0 then
      match x.owner with
      | some owner => putNested n { h with lone := h.lone.erase r } owner
      | none =>
        if x.type = .file then { h with lone := h.lone.erase r }
        else h.setRef r { x with sharedFd := if x.sharedFd ≥ 0 then -1 else x.sharedFd }
    else h

def put (h : RefHeap) (r : RefId) : RefHeap := putNested (h.lone.length + 1) h r

def capacity (h : RefHeap) (r : RefId) : ℕ :=
  if (h.ref r).type ≠ .memory then 0
  else
    match (h.ref ((h.ref r).owner.getD r)).segment with
    | some s => h.parentSize s
    | none => 0

def sendfileFd (h : RefHeap) (r : RefId) : ℤ :=
  if (h.ref r).type ≠ .memory ∨ (h.ref r).sharedFd = -2 then -1
  else (h.ref ((h.ref r).owner.getD r)).sharedFd

def payload (h : RefHeap) (r : RefId) : List UInt8 :=
  h.bytes ((h.ref r).data + (h.ref r).dataOffset) (h.ref r).dataSize

def filePart (h : RefHeap) (fd : ℤ) (offset size : ℕ) : List UInt8 :=
  ((h.file fd).drop offset).take size

end RefHeap

/-- What a pool and its references look like from the queue. -/
def BufferPool.heap (p : BufferPool) (mem : ℕ → UInt8) (file : ℤ → List UInt8) : RefHeap :=
  ⟨p.ref, p.lone, fun _ => p.bufferSize, mem, file⟩

/-- `send_queue_t`. -/
structure SendQueue where
  entries : List RefId
  totalBytes : ℤ
  memoryBytes : ℤ
  numQueued : ℤ

def sendQueueInit : SendQueue := ⟨[], 0, 0, 0⟩

/-- A queue, what its entries point to, and the record of the bytes. -/
structure SendState where
  queue : SendQueue
  heap : RefHeap
  queued : List UInt8
  accepted : List UInt8

/-- The values of `errno` that the queue tells apart. -/
inductive Errno
  | eagain
  | eintr
  | enobufs
  | einval
  | enosys
  | eopnotsupp
  | other

/-- The answer to a send: a prefix of what is offered, at most `n` bytes, or an error. -/
inductive Reply
  | accept (n : ℕ)
  | fail (e : Errno)

/-! ## Adding -/

def sendQueueAdd (s : SendState) (r : RefId) : SendState × ℤ :=
  let x := s.heap.ref r
  if x.dataSize = 0 then (s, 0)
  else
    let capacity := s.heap.capacity r
    if x.data = 0 ∨ x.dataOffset > capacity ∨ x.dataSize > capacity - x.dataOffset then (s, -1)
    else
      let h := s.heap.setRef r
        { x with type := .memory, iovBase := x.data + x.dataOffset, iovLen := x.dataSize }
      ({ queue := ⟨s.queue.entries ++ [r], s.queue.totalBytes + x.dataSize,
          s.queue.memoryBytes + capacity, s.queue.numQueued + 1⟩
         heap := h.get r
         queued := s.queued ++ s.heap.payload r
         accepted := s.accepted }, 0)

/-- `send_queue_add_file`; the entry is allocated at `mem`. -/
def sendQueueAddFile (s : SendState) (mem : Option RefId) (fd : ℤ) (offset size : ℕ) :
    SendState × ℤ :=
  if fd < 0 ∨ size = 0 then (s, -1)
  else
    match mem with
    | none => (s, -1)
    | some r =>
      let x := { PoolRef.zero with
        type := .file, fileFd := fd, fileOffset := offset, fileSize := size, fileSent := 0
        refcount := 1, segment := none }
      ({ queue := ⟨s.queue.entries ++ [r], s.queue.totalBytes,
          s.queue.memoryBytes + bufferPoolBufferSize, s.queue.numQueued + 1⟩
         heap := { s.heap.setRef r x with lone := r :: s.heap.lone }
         queued := s.queued ++ s.heap.filePart fd offset size
         accepted := s.accepted }, 0)

/-! ## Sending -/

/-- The memory that an entry retains. -/
def RefHeap.retained (h : RefHeap) (r : RefId) : ℕ :=
  if (h.ref r).type = .file then bufferPoolBufferSize else h.capacity r

def sendQueuePopHead (q : SendQueue) (h : RefHeap) : SendQueue × RefHeap :=
  match q.entries with
  | [] => (q, h)
  | head :: rest =>
    (⟨rest, q.totalBytes, q.memoryBytes - h.retained head, q.numQueued - 1⟩, h.put head)

/-- The loop of `send_queue_consume_memory` over the entries. -/
def consumeEntries : List RefId → ℕ → SendQueue → RefHeap → SendQueue × RefHeap
  | [], _, q, h => (q, h)
  | head :: rest, sent, q, h =>
    if sent = 0 then (q, h)
    else
      let x := h.ref head
      if sent < x.iovLen then
        (q, h.setRef head { x with iovBase := x.iovBase + sent, iovLen := x.iovLen - sent })
      else
        let (q, h) := sendQueuePopHead q h
        consumeEntries rest (sent - x.iovLen) q h

def sendQueueConsumeMemory (s : SendState) (sent : ℕ) : SendState :=
  let q := { s.queue with totalBytes := s.queue.totalBytes - sent }
  let (q, h) := consumeEntries q.entries sent q s.heap
  { s with queue := q, heap := h }

/-- The io vectors that a call offers: address and length. -/
def buildIovecs (h : RefHeap) : ℕ → ℕ → List RefId → List (ℕ × ℕ)
  | 0, _, _ => []
  | _ + 1, _, [] => []
  | k + 1, budget, r :: rest =>
    if budget = 0 ∨ (h.ref r).type ≠ .memory ∨ h.sendfileFd r ≥ 0 then []
    else
      let len := if (h.ref r).iovLen > budget then budget else (h.ref r).iovLen
      ((h.ref r).iovBase, len) :: buildIovecs h k (budget - len) rest

/-- `send_queue_send` where the head is a file. -/
def sendFileHead (s : SendState) (head : RefId) (maxBytes : ℕ) (reply : Reply) :
    SendState × ℤ × ℕ :=
  let x := s.heap.ref head
  let remaining := if x.fileSize - x.fileSent > maxBytes then maxBytes else x.fileSize - x.fileSent
  match reply with
  | .fail .eagain => (s, -2, 0)
  | .fail _ => (s, -1, 0)
  | .accept n =>
    let out := (s.heap.filePart x.fileFd (x.fileOffset + x.fileSent) remaining).take n
    let sent := x.fileSent + out.length
    let h := s.heap.setRef head { x with fileSent := sent }
    let s := { s with heap := h, accepted := s.accepted ++ out }
    if sent ≥ x.fileSize then
      let (q, h) := sendQueuePopHead s.queue s.heap
      ({ s with queue := q, heap := h }, 0, out.length)
    else (s, 0, out.length)

/-- `send_queue_send` where `sendmsg` is called. -/
def sendMessage (s : SendState) (maxBytes : ℕ) (reply : Reply) : SendState × ℤ × ℕ :=
  let iovecs := buildIovecs s.heap sendQueueMaxIovecs maxBytes s.queue.entries
  if iovecs = [] then (s, 0, 0)
  else
    match reply with
    | .fail .eagain | .fail .enobufs => (s, -2, 0)
    | .fail _ => (s, -1, 0)
    | .accept n =>
      let out := (iovecs.flatMap (fun v => s.heap.bytes v.1 v.2)).take n
      (sendQueueConsumeMemory { s with accepted := s.accepted ++ out } out.length, 0, out.length)

/-- `send_queue_send` after the shared file of the head was tried. -/
def sendUnshared (s : SendState) (head : RefId) (maxBytes : ℕ) (file msg : Reply) :
    SendState × ℤ × ℕ :=
  if (s.heap.ref head).type = .file then sendFileHead s head maxBytes file
  else sendMessage s maxBytes msg

/-- `send_queue_send`: the state, the return value and `bytes_sent`. `file` and `msg` answer
    the calls of `sendfile` and of `sendmsg`. -/
def sendQueueSend (s : SendState) (maxBytes : ℕ) (file msg : Reply) : SendState × ℤ × ℕ :=
  match s.queue.entries with
  | [] => (s, 0, 0)
  | shared :: _ =>
    if maxBytes = 0 then (s, 0, 0)
    else if s.heap.sendfileFd shared ≥ 0 then
      let x := s.heap.ref shared
      let offset := x.iovBase - (x.data + x.dataOffset)
      let count := if x.iovLen < maxBytes then x.iovLen else maxBytes
      match file with
      | .fail .einval | .fail .enosys | .fail .eopnotsupp =>
        -- this subscriber falls back to `sendmsg`
        sendUnshared { s with heap := s.heap.setRef shared { x with sharedFd := -2 } } shared
          maxBytes file msg
      | .fail .eagain | .fail .eintr | .fail .enobufs => (s, -2, 0)
      | .fail .other => (s, -1, 0)
      | .accept n =>
        let out := (s.heap.filePart (s.heap.sendfileFd shared) offset count).take n
        if out.length = 0 then (s, -1, 0)
        else
          (sendQueueConsumeMemory { s with accepted := s.accepted ++ out } out.length, 0,
            out.length)
    else sendUnshared s shared maxBytes file msg

/-! ## Runs -/

/-- The calls on a queue, and what the rest of the program does in between. -/
inductive QueueOp
  | add (r : RefId)
  | addFile (mem : Option RefId) (fd : ℤ) (offset size : ℕ)
  | send (maxBytes : ℕ) (file msg : Reply)
  | rest (heap : RefHeap)

def queueStep (s : SendState) : QueueOp → SendState
  | .add r => (sendQueueAdd s r).1
  | .addFile mem fd offset size => (sendQueueAddFile s mem fd offset size).1
  | .send maxBytes file msg => (sendQueueSend s maxBytes file msg).1
  | .rest heap => { s with heap := heap }

def queueStart (heap : RefHeap) : SendState := ⟨sendQueueInit, heap, [], []⟩

end Apackage.Rtp2httpd
