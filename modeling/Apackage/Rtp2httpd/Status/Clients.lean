import Apackage.Lib.Run
import Apackage.Rtp2httpd.CString

/-
  Client slots in shared memory (`status.c`), and the recovery after the death of a worker.

  Model. Any number of workers, named by their pids, and the supervisor take turns, one atomic
  step at a time: each access to shared memory is a step, with the program counter of a worker
  standing between two of them. Work on the table of blocked addresses under its lock is one
  step, and so are the fields of a new client, which nobody reads before the slot is active. Of
  the payload there are the worker index and the byte count; the texts, the other statistics
  and the notifications are left out. A client address is the text of its IP.
-/

namespace Apackage.Rtp2httpd

def statusMaxClients : ℕ := 256
def statusMaxWorkers : ℕ := 32
def statusMaxBlockedIps : ℕ := 64
def statusDisconnectIpBlockMs : ℤ := 5000

/-! ## Shared memory -/

/-- `client_stats_t`. `counted` is not in the program: how often the bytes of the client that
reserved the slot last were added to the cumulative counters. -/
structure ClientSlot where
  ownerPid : ℕ
  active : Bool
  generation : ℕ
  workerIndex : Option ℕ
  bytesSent : ℕ
  counted : ℕ

structure BlockedIp where
  ip : Bytes
  expiresAtMs : ℤ
  deriving DecidableEq

structure StatusShared where
  clientAdmissionOwnerPid : ℕ
  clientBytesCumulative : ℕ → ℕ
  clients : ℕ → ClientSlot
  blockedIpOwnerPid : ℕ
  blockedIps : List BlockedIp

def statusInit : StatusShared where
  clientAdmissionOwnerPid := 0
  clientBytesCumulative _ := 0
  clients _ := ⟨0, false, 0, none, 0, 0⟩
  blockedIpOwnerPid := 0
  blockedIps := List.replicate statusMaxBlockedIps ⟨[], 0⟩

section Slots

variable (shared : StatusShared) (slot : ℕ)

def StatusShared.setClient (client : ClientSlot) : StatusShared :=
  { shared with clients := Function.update shared.clients slot client }

def StatusShared.owner : ℕ := (shared.clients slot).ownerPid

/-- The slots below `n` that have an owner. -/
def StatusShared.ownedBelow (n : ℕ) : ℕ := (List.range n).countP fun slot => shared.owner slot ≠ 0

/-- `reset_client_payload`. -/
def StatusShared.resetPayload : StatusShared :=
  shared.setClient slot { shared.clients slot with workerIndex := none, bytesSent := 0 }

def StatusShared.takeActive : StatusShared :=
  shared.setClient slot { shared.clients slot with active := false }

def StatusShared.releaseSlot : StatusShared :=
  shared.setClient slot { shared.clients slot with ownerPid := 0 }

/-- The bytes of a client go to the shard of its worker. -/
def StatusShared.addBytes : StatusShared :=
  match (shared.clients slot).workerIndex with
  | some index =>
    if index < statusMaxWorkers then
      { shared.setClient slot
          { shared.clients slot with counted := (shared.clients slot).counted + 1 } with
        clientBytesCumulative := Function.update shared.clientBytesCumulative index
          (shared.clientBytesCumulative index + (shared.clients slot).bytesSent) }
    else shared
  | none => shared

def StatusShared.nextGeneration : StatusShared :=
  shared.setClient slot
    { shared.clients slot with generation := ((shared.clients slot).generation + 1) % 2 ^ 32 }

def StatusShared.unlockAdmission (pid : ℕ) : StatusShared :=
  if shared.clientAdmissionOwnerPid = pid then { shared with clientAdmissionOwnerPid := 0 }
  else shared

def StatusShared.unlockBlockedIps (pid : ℕ) : StatusShared :=
  if shared.blockedIpOwnerPid = pid then { shared with blockedIpOwnerPid := 0 } else shared

end Slots

/-! ## Blocked addresses -/

/-- `strcasecmp`. -/
def sameIp (entry : BlockedIp) (ip : Bytes) : Bool := entry.ip.map toLower = ip.map toLower

def expiredAt (nowMs : ℤ) (entry : BlockedIp) : Bool := entry.expiresAtMs ≤ nowMs

/-- The first of the entries that expire first. -/
def oldestIndex (ips : List BlockedIp) : ℕ :=
  ((List.range ips.length).foldl (fun oldest i =>
    match ips[i]?, ips[oldest]? with
    | some entry, some best => if entry.expiresAtMs < best.expiresAtMs then i else oldest
    | _, _ => oldest) 0)

/-- The table after `status_block_client_addr`. -/
def blockIp (ip : Bytes) (nowMs : ℤ) (ips : List BlockedIp) : List BlockedIp :=
  let matching := ips.findIdx? fun e => e.ip ≠ [] && !expiredAt nowMs e && sameIp e ip
  let free := ips.findIdx? fun e => e.ip = [] || expiredAt nowMs e
  ips.set ((matching <|> free).getD (oldestIndex ips)) ⟨ip, nowMs + statusDisconnectIpBlockMs⟩

/-- The table after `status_client_addr_is_blocked`, which clears an entry that has expired. -/
def checkIp (ip : Bytes) (nowMs : ℤ) (ips : List BlockedIp) : List BlockedIp :=
  match ips.findIdx? fun e => e.ip ≠ [] && sameIp e ip with
  | some i =>
    match ips[i]? with
    | some e => if e.expiresAtMs - nowMs ≤ 0 then ips.set i ⟨[], 0⟩ else ips
    | none => ips
  | none => ips

/-! ## Workers -/

/-- What a worker does with the table of blocked addresses. -/
inductive IpJob
  | block (ip : Bytes) (nowMs : ℤ)
  | check (ip : Bytes) (nowMs : ℤ)
  deriving DecidableEq

def IpJob.run : IpJob → List BlockedIp → List BlockedIp
  | .block ip nowMs => blockIp ip nowMs
  | .check ip nowMs => checkIp ip nowMs

/-- What a worker does next. -/
inductive WorkerPc
  | idle
  -- `status_register_client`
  | lockAdmission
  | countSlots (slot reserved : ℕ)
  | reserve (slot : ℕ)
  | unlockAdmission (slot : Option ℕ)
  | resetPayload (slot : ℕ)
  | nextGeneration (slot : ℕ)
  | skipGeneration (slot : ℕ)
  | fillPayload (slot : ℕ)
  | publish (slot : ℕ)
  -- `status_unregister_client`
  | checkOwner (slot : ℕ)
  | takeActive (slot : ℕ)
  | addBytes (slot : ℕ)
  | clearPayload (slot : ℕ)
  | release (slot : ℕ)
  -- `status_block_client_addr` and `status_client_addr_is_blocked`
  | lockBlockedIps (job : IpJob)
  | useBlockedIps (job : IpJob)
  | unlockBlockedIps
  deriving DecidableEq

/-- The next step of the worker `pid` with the given index. A lock that is taken is tried
again. -/
def workerStep (maxclients pid index : ℕ) (shared : StatusShared) :
    WorkerPc → WorkerPc × StatusShared
  | .idle => (.idle, shared)
  | .lockAdmission =>
    if shared.clientAdmissionOwnerPid = 0 then
      (.countSlots 0 0, { shared with clientAdmissionOwnerPid := pid })
    else (.lockAdmission, shared)
  | .countSlots slot reserved =>
    if slot < statusMaxClients then
      (.countSlots (slot + 1) (if shared.owner slot ≠ 0 then reserved + 1 else reserved), shared)
    else if reserved < maxclients then (.reserve 0, shared)
    else (.unlockAdmission none, shared)
  | .reserve slot =>
    if slot < statusMaxClients then
      if shared.owner slot = 0 then
        (.unlockAdmission (some slot),
          shared.setClient slot { shared.clients slot with ownerPid := pid, counted := 0 })
      else (.reserve (slot + 1), shared)
    else (.unlockAdmission none, shared)
  | .unlockAdmission slot =>
    ((slot.map WorkerPc.resetPayload).getD .idle, shared.unlockAdmission pid)
  | .resetPayload slot => (.nextGeneration slot, shared.resetPayload slot)
  | .nextGeneration slot =>
    (if ((shared.nextGeneration slot).clients slot).generation = 0 then .skipGeneration slot
      else .fillPayload slot, shared.nextGeneration slot)
  | .skipGeneration slot => (.fillPayload slot, shared.nextGeneration slot)
  | .fillPayload slot =>
    (.publish slot, shared.setClient slot { shared.clients slot with workerIndex := some index })
  | .publish slot => (.idle, shared.setClient slot { shared.clients slot with active := true })
  | .checkOwner slot =>
    if slot < statusMaxClients ∧ shared.owner slot = pid then (.takeActive slot, shared)
    else (.idle, shared)
  | .takeActive slot =>
    if (shared.clients slot).active then (.addBytes slot, shared.takeActive slot)
    else (.idle, shared)
  | .addBytes slot => (.clearPayload slot, shared.addBytes slot)
  | .clearPayload slot => (.release slot, shared.resetPayload slot)
  | .release slot => (.idle, shared.releaseSlot slot)
  | .lockBlockedIps job =>
    if shared.blockedIpOwnerPid = 0 then
      (.useBlockedIps job, { shared with blockedIpOwnerPid := pid })
    else (.lockBlockedIps job, shared)
  | .useBlockedIps job =>
    (.unlockBlockedIps, { shared with blockedIps := job.run shared.blockedIps })
  | .unlockBlockedIps => (.idle, shared.unlockBlockedIps pid)

/-! ## The supervisor -/

/-- `status_reap_worker`: what the supervisor does next. -/
inductive ReapPc
  | checkOwner (slot : ℕ)
  | takeActive (slot : ℕ)
  | addBytes (slot : ℕ)
  | clearPayload (slot : ℕ)
  | release (slot : ℕ)
  | unlockAdmission

/-- The next step for the dead worker; none is the return. -/
def reapStep (deadPid : ℕ) (shared : StatusShared) : ReapPc → Option ReapPc × StatusShared
  | .checkOwner slot =>
    if slot < statusMaxClients then
      if shared.owner slot = deadPid then (some (.takeActive slot), shared)
      else (some (.checkOwner (slot + 1)), shared)
    else (some .unlockAdmission, shared)
  | .takeActive slot =>
    if (shared.clients slot).active then (some (.addBytes slot), shared.takeActive slot)
    else (some (.clearPayload slot), shared)
  | .addBytes slot => (some (.clearPayload slot), shared.addBytes slot)
  | .clearPayload slot => (some (.release slot), shared.resetPayload slot)
  | .release slot => (some (.checkOwner (slot + 1)), shared.releaseSlot slot)
  | .unlockAdmission => (none, shared.unlockAdmission deadPid)

/-! ## Runs -/

inductive WorkerState
  | absent
  | running (index : ℕ) (pc : WorkerPc)
  /-- Ended or killed, and not reaped. -/
  | dead
  deriving DecidableEq

structure StatusSystem where
  shared : StatusShared
  workers : ℕ → WorkerState
  /-- The dead worker that the supervisor reaps. -/
  reaping : Option (ℕ × ReapPc)

inductive ClientOp
  | register
  | unregister (slot : ℕ)
  | ip (job : IpJob)

def ClientOp.start : ClientOp → WorkerPc
  | .register => .lockAdmission
  | .unregister slot => .checkOwner slot
  | .ip job => .lockBlockedIps job

inductive StatusEvent
  | fork (pid index : ℕ)
  | call (pid : ℕ) (op : ClientOp)
  | step (pid : ℕ)
  /-- `status_update_client_bytes`. -/
  | count (pid slot bytes : ℕ)
  | kill (pid : ℕ)
  | reap (pid : ℕ)
  | supervise

def statusSystemInit : StatusSystem := ⟨statusInit, fun _ => .absent, none⟩

section Step

variable (s : StatusSystem)

def StatusSystem.setWorker (pid : ℕ) (worker : WorkerState) : StatusSystem :=
  { s with workers := Function.update s.workers pid worker }

def stepWorker (maxclients pid : ℕ) : StatusSystem :=
  match s.workers pid with
  | .running index pc =>
    let next := workerStep maxclients pid index s.shared pc
    { s.setWorker pid (.running index next.1) with shared := next.2 }
  | _ => s

def updateClientBytes (pid slot bytes : ℕ) : StatusSystem :=
  match s.workers pid with
  | .running _ .idle =>
    if slot < statusMaxClients ∧ s.shared.owner slot = pid ∧
        (s.shared.clients slot).active = true then
      { s with
        shared := s.shared.setClient slot { s.shared.clients slot with bytesSent := bytes } }
    else s
  | _ => s

def superviseStep : StatusSystem :=
  match s.reaping with
  | some (pid, pc) =>
    match reapStep pid s.shared pc with
    | (some pc, shared) => { s with shared := shared, reaping := some (pid, pc) }
    | (none, shared) => { s.setWorker pid .absent with shared := shared, reaping := none }
  | none => s

def statusStep (maxclients : ℕ) : StatusEvent → StatusSystem
  | .fork pid index =>
    if pid ≠ 0 ∧ s.workers pid = .absent then s.setWorker pid (.running index .idle) else s
  | .call pid op =>
    match s.workers pid with
    | .running index .idle => s.setWorker pid (.running index op.start)
    | _ => s
  | .step pid => stepWorker s maxclients pid
  | .count pid slot bytes => updateClientBytes s pid slot bytes
  | .kill pid =>
    match s.workers pid with
    | .running _ _ => s.setWorker pid .dead
    | _ => s
  | .reap pid =>
    if s.reaping = none ∧ s.workers pid = .dead then
      { s with reaping := some (pid, .checkOwner 0) }
    else s
  | .supervise => superviseStep s

end Step

end Apackage.Rtp2httpd
