import Mathlib.Data.Fin.Basic
import Mathlib.Data.List.FinRange
import Mathlib.Logic.Function.Basic

/-
  The worker processes of the supervisor (`supervisor.c`): the spawning of workers and the
  monitoring loop of `supervisor_run`.

  Model. One iteration of the loop gets what the system calls return: the children that `waitpid`
  reports, the times of the clock, and whether each `fork` succeeds. A child may exit at any time
  and for any reason, so the signals that the supervisor sends have no effect of their own here. A
  reload that fails, or whose snapshot fails, leaves the workers as they are. The loop runs until a
  stop signal. `worker_id` is the index, and `restart_count` is never read.

  `children` is the kernel's table of the children that have not been waited for; `started` records
  each start, with the number of workers desired then.
-/

namespace Apackage.Rtp2httpd.Supervisor

def statusMaxWorkers : ℕ := 32
def restartWindowSec : ℤ := 5
def maxRestartsInWindow : ℕ := 3

/-- An index of `workers`. -/
abbrev Index := Fin statusMaxWorkers

/-- `config.workers`, which is checked where it is set. -/
abbrev WorkerCount := { n : ℕ // 1 ≤ n ∧ n ≤ statusMaxWorkers }

/-- `worker_info_t`; the pid is 0 if the worker is not running. -/
structure WorkerInfo where
  pid : ℕ
  restartTimes : List ℤ
  rateLimited : Bool
  retiring : Bool

structure SupervisorState where
  workers : Index → WorkerInfo
  desiredWorkers : ℕ
  children : List (ℕ × Index)
  started : List (Index × ℕ)

def SupervisorState.setWorker (i : Index) (w : WorkerInfo) (s : SupervisorState) : SupervisorState :=
  { s with workers := Function.update s.workers i w }

/-! ## Restarts -/

/-- What a restart meets: the clock when it is checked and when it is recorded, and the pid
    that `fork` returns in the parent, if it and `sigprocmask` succeed. -/
structure Restart where
  checked : ℤ
  recorded : ℤ
  fork : Option ℕ

def restartAllowed (now : ℤ) (w : WorkerInfo) : Bool :=
  (w.restartTimes.filter fun t => now - restartWindowSec * 1000 ≤ t).length < maxRestartsInWindow

def recordRestart (now : ℤ) (w : WorkerInfo) : WorkerInfo :=
  { w with restartTimes := now :: w.restartTimes.dropLast }

/-- The pid of a new process: any that no child has. -/
def newPid (candidate : ℕ) (children : List (ℕ × Index)) : ℕ :=
  if 0 < candidate ∧ ∀ c ∈ children, c.1 ≠ candidate then candidate
  else (children.map Prod.fst).foldr max 0 + 1

def spawnWorker (fork : Option ℕ) (i : Index) (s : SupervisorState) : SupervisorState :=
  match fork with
  | none => s
  | some candidate =>
    let pid := newPid candidate s.children
    { s.setWorker i { s.workers i with pid, retiring := false } with
      children := (pid, i) :: s.children
      started := s.started ++ [(i, s.desiredWorkers)] }

/-- `record_restart`, the rate limit is lifted, and `spawn_worker`. -/
def restartWorker (r : Restart) (i : Index) (s : SupervisorState) : SupervisorState :=
  spawnWorker r.fork i
    (s.setWorker i { recordRestart r.recorded (s.workers i) with rateLimited := false })

/-! ## The monitoring loop -/

def findWorkerByPid (pid : ℕ) (s : SupervisorState) : Option Index :=
  (List.finRange statusMaxWorkers).find? fun i => (s.workers i).pid = pid

/-- A child that exits, and what its restart meets. -/
structure Exit where
  pid : ℕ
  restart : Restart

/-- The `waitpid` loop, for one pid; only a child can be reported. -/
def reapWorker (s : SupervisorState) (e : Exit) : SupervisorState :=
  if ∀ c ∈ s.children, c.1 ≠ e.pid then s
  else
    let s := { s with children := s.children.filter fun c => c.1 ≠ e.pid }
    match findWorkerByPid e.pid s with
    | none => s
    | some i =>
      let s := s.setWorker i { s.workers i with pid := 0 }
      if i.val < s.desiredWorkers ∧ (s.workers i).retiring = false then
        if restartAllowed e.restart.checked (s.workers i) then restartWorker e.restart i s
        else s.setWorker i { s.workers i with rateLimited := true }
      else s

def retryWorker (r : Index → Restart) (s : SupervisorState) (i : Index) : SupervisorState :=
  if (s.workers i).rateLimited = true ∧ (s.workers i).pid = 0 ∧ (s.workers i).retiring = false then
    if restartAllowed (r i).checked (s.workers i) then restartWorker (r i) i s else s
  else s

/-- The indices of a loop from `lo` to before `hi`. -/
def indices (lo hi : ℕ) : List Index :=
  (List.finRange statusMaxWorkers).filter fun i => lo ≤ i.val ∧ i.val < hi

/-- A worker that has been added, unless its old process is still there. -/
def spawnAdded (fork : Index → Option ℕ) (s : SupervisorState) (i : Index) : SupervisorState :=
  if (s.workers i).pid = 0 then spawnWorker (fork i) i s else s

/-- The worker count of a configuration that has been reloaded. -/
def changeWorkers (count : WorkerCount) (fork : Index → Option ℕ) (s : SupervisorState) : SupervisorState :=
  let previousDesired := s.desiredWorkers
  let s := { s with desiredWorkers := count.val }
  if previousDesired < count.val then
    let s :=
      { s with
        workers := fun i =>
          if previousDesired ≤ i.val ∧ i.val < count.val then { s.workers i with retiring := false }
          else s.workers i }
    (indices previousDesired count.val).foldl (spawnAdded fork) s
  else
    { s with
      workers := fun i =>
        if count.val ≤ i.val ∧ i.val < previousDesired then
          { s.workers i with retiring := true, rateLimited := false }
        else s.workers i }

/-- A reload that succeeds: the new worker count, and the forks it needs. -/
structure Reload where
  count : WorkerCount
  fork : Index → Option ℕ

/-- One iteration of the monitoring loop. -/
structure Iteration where
  exits : List Exit
  retries : Index → Restart
  reload : Option Reload

def reapWorkers (exits : List Exit) (s : SupervisorState) : SupervisorState := exits.foldl reapWorker s

def retryWorkers (r : Index → Restart) (s : SupervisorState) : SupervisorState :=
  (indices 0 s.desiredWorkers).foldl (retryWorker r) s

def supervisorIteration (s : SupervisorState) (it : Iteration) : SupervisorState :=
  let s := retryWorkers it.retries (reapWorkers it.exits s)
  match it.reload with
  | none => s
  | some reload => changeWorkers reload.count reload.fork s

def supervisorStart (count : WorkerCount) (fork : Index → Option ℕ) : SupervisorState :=
  (indices 0 count.val).foldl (fun s i => spawnWorker (fork i) i s)
    { workers := fun _ =>
        { pid := 0
          restartTimes := List.replicate maxRestartsInWindow 0
          rateLimited := false
          retiring := false }
      desiredWorkers := count.val
      children := []
      started := [] }

end Apackage.Rtp2httpd.Supervisor
