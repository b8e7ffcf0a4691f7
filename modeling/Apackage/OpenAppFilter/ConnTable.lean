import Mathlib.Data.BitVec
import Mathlib.Tactic.Ring
import Apackage.Lib.KeyedList
import Apackage.Lib.Run
import Apackage.Lib.Sweep

/-
  The connections of the bypass (`fwx_conntrack.c`) and the timer that cleans them up; the table is
  a map from keys to connections (`conn_table_map`).

  A call of `af_conn_clean_timeout` looks at the bucket of the cursor and five more. It stores the
  cursor before it leaves the loop, so the last bucket is looked at again by the next call.

  Model. The hash and the number of buckets are parameters, as are the bits of a `long` and HZ.
  `jiffies` are numbers of that many bits. A connection has the fields that these functions write.
-/

namespace Apackage.OpenAppFilter.ConnClean

open Function List Lib.KeyedList Lib.Run Lib

structure FlowKey where
  srcIp : BitVec 32
  dstIp : BitVec 32
  srcPort : BitVec 16
  dstPort : BitVec 16
  protocol : BitVec 8
  deriving DecidableEq

/-- `af_conn_state_t`. -/
inductive AfConnState
  | new | established | dpiFinished
  deriving DecidableEq

/-- `af_conn_t`. -/
structure AfConn (word : ℕ) where
  key : FlowKey
  totalPkts : BitVec 32
  appId : BitVec 32
  clientHello : BitVec 8
  drop : BitVec 8
  state : AfConnState
  lastJiffies : BitVec word
  deriving DecidableEq

/-- `af_conn_table`, `last_bucket` and the clock. -/
structure ConnTable (size word : ℕ) where
  buckets : Fin size → List (AfConn word)
  lastBucket : Fin size
  jiffies : BitVec word

def timeAfter {word : ℕ} (a b : BitVec word) : Bool := (b - a).toInt < 0

variable {size word : ℕ} (hz : ℕ) (hash : FlowKey → Fin size)

/-- `AF_CONN_TIMEOUT * HZ`. -/
def connTimeout (word hz : ℕ) : BitVec word := BitVec.ofNat word (30 * hz)

/-! ## Packets -/

/-- `af_conn_add`; `mem` says whether there is memory. -/
def afConnAdd (key : FlowKey) (mem : Bool) (t : ConnTable size word) : ConnTable size word :=
  if mem then
    let conn := ⟨key, 0, 0, 0, 0, .new, t.jiffies⟩
    { t with buckets := Function.update t.buckets (hash key) (conn :: t.buckets (hash key)) }
  else t

def afConnFind (key : FlowKey) (t : ConnTable size word) : Option (AfConn word) :=
  findKey AfConn.key key (t.buckets (hash key))

def afConnFindAndAdd (key : FlowKey) (mem : Bool) (t : ConnTable size word) : ConnTable size word :=
  if (afConnFind hash key t).isNone then afConnAdd hash key mem t else t

/-- What a caller writes to the connection that it found. -/
def writeConn (key : FlowKey) (g : AfConn word → AfConn word) (t : ConnTable size word) :
    ConnTable size word :=
  { t with
    buckets := Function.update t.buckets (hash key)
      (modifyKey AfConn.key key g (t.buckets (hash key))) }

/-- The connection of a packet in `fwx_hook_bypass_handle`. -/
def receivePacket (key : FlowKey) (mem : Bool) (t : ConnTable size word) : ConnTable size word :=
  writeConn hash key
    (fun conn => { conn with lastJiffies := t.jiffies, totalPkts := conn.totalPkts + 1 })
    (afConnFindAndAdd hash key mem t)

def afConnUpdate (key : FlowKey) (appId : BitVec 32) (drop : BitVec 8) (t : ConnTable size word) :
    ConnTable size word :=
  writeConn hash key
    (fun conn => { conn with appId := appId, drop := drop, lastJiffies := t.jiffies }) t

/-! ## The timer -/

def timedOut (t : ConnTable size word) (conn : AfConn word) : Bool :=
  timeAfter t.jiffies (conn.lastJiffies + connTimeout word hz)

/-- The loop of `af_conn_clean_timeout` with so many passes left, and the buckets it looks at. -/
def cleanLoop : ℕ → Fin size → ConnTable size word → ConnTable size word × List (Fin size)
  | 0, _, t => (t, [])
  | n + 1, i, t =>
    let kept := (t.buckets i).filter fun conn => ¬ timedOut hz t conn
    let t := { t with buckets := Function.update t.buckets i kept, lastBucket := i }
    if h : i + 1 < size then
      let r := cleanLoop n ⟨i + 1, h⟩ t
      (r.1, i :: r.2)
    else (t, [i])

def maxAfConnCheckCount : ℕ := 5

/-- `af_conn_clean_timeout`; the loop is left when `count` is above its limit. -/
def afConnCleanTimeout (t : ConnTable size word) : ConnTable size word × List (Fin size) :=
  let r := cleanLoop hz (maxAfConnCheckCount + 1) t.lastBucket t
  if (r.1.lastBucket : ℕ) = size - 1 then
    ({ r.1 with lastBucket := ⟨0, r.1.lastBucket.pos⟩ }, r.2)
  else r

/-! ## Runs -/

inductive ConnEvent
  | packet (key : FlowKey) (mem : Bool)
  | find (key : FlowKey)
  | add (key : FlowKey) (mem : Bool)
  | findAndAdd (key : FlowKey) (mem : Bool)
  | update (key : FlowKey) (appId : BitVec 32) (drop : BitVec 8)
  | wait (jiffies : ℕ)
  | tick
  deriving DecidableEq

def connStep (t : ConnTable size word) : ConnEvent → ConnTable size word
  | .packet key mem => receivePacket hash key mem t
  | .find _ => t
  | .add key mem => afConnAdd hash key mem t
  | .findAndAdd key mem => afConnFindAndAdd hash key mem t
  | .update key appId drop => afConnUpdate hash key appId drop t
  | .wait n => { t with jiffies := t.jiffies + BitVec.ofNat word n }
  | .tick => (afConnCleanTimeout hz t).1

/-- The buckets that the ticks of a run look at. -/
def scanned (t : ConnTable size word) : List ConnEvent → List (Fin size)
  | [] => []
  | e :: es =>
    (if e = .tick then (afConnCleanTimeout hz t).2 else []) ++ scanned (connStep hz hash t e) es

/-- The event is no packet of the connection, and does not write to it. -/
def ConnEvent.Quiet (key : FlowKey) : ConnEvent → Prop
  | .packet k _ | .add k _ | .findAndAdd k _ | .update k _ _ => k ≠ key
  | .find _ | .wait _ | .tick => True

instance (key : FlowKey) : DecidablePred (ConnEvent.Quiet key)
  | .packet .. | .add .. | .findAndAdd .. | .update .. => inferInstanceAs (Decidable (_ ≠ _))
  | .find _ | .wait _ | .tick => inferInstanceAs (Decidable True)

/-! ## One call -/

section Call

variable {hz} {hash} {t : ConnTable size word} {b : Fin size}

theorem cleanLoop_spec (n : ℕ) (i : Fin size) (t : ConnTable size word) :
    (cleanLoop hz n i t).1.jiffies = t.jiffies ∧
      (∀ b, b ∈ (cleanLoop hz n i t).2 ↔ (i : ℕ) ≤ b ∧ b < i + n) ∧
      ∀ b, (cleanLoop hz n i t).1.buckets b =
        if (i : ℕ) ≤ b ∧ b < i + n then (t.buckets b).filter fun conn => ¬ timedOut hz t conn
        else t.buckets b := by
  induction n generalizing i t with
  | zero =>
    refine ⟨rfl, fun b => ?_, fun b => ?_⟩
    · simp only [cleanLoop, not_mem_nil, false_iff]
      omega
    · rw [cleanLoop, if_neg (by omega)]
  | succ n ih =>
    rw [cleanLoop]
    split_ifs with hi
    · obtain ⟨hjiffies, hlook, hbuckets⟩ := ih ⟨i + 1, hi⟩
        { t with
          buckets := Function.update t.buckets i
            ((t.buckets i).filter fun conn => ¬ timedOut hz t conn)
          lastBucket := i }
      refine ⟨hjiffies, fun b => ?_, fun b => ?_⟩
      · rw [List.mem_cons, hlook, Fin.ext_iff]
        dsimp only
        omega
      · rw [hbuckets]
        dsimp only
        by_cases hb : b = i
        · subst hb
          rw [if_neg (by omega), if_pos (by omega), update_self]
        · have hne : (b : ℕ) ≠ i := fun h => hb (Fin.ext h)
          rw [update_of_ne hb]
          simp only [show ((i : ℕ) + 1 ≤ b ∧ b < i + 1 + n) ↔ ((i : ℕ) ≤ b ∧ b < i + (n + 1)) by
            omega]
          rfl
    · refine ⟨rfl, fun b => ?_, fun b => ?_⟩
      · rw [mem_singleton, Fin.ext_iff]
        omega
      · by_cases hb : b = i
        · subst hb
          rw [if_pos (by omega)]
          exact update_self ..
        · rw [if_neg (by omega)]
          exact update_of_ne hb ..

theorem cleanLoop_lastBucket (n : ℕ) (i : Fin size) (t : ConnTable size word) :
    ((cleanLoop hz (n + 1) i t).1.lastBucket : ℕ) = min (i + n) (size - 1) := by
  induction n generalizing i t with
  | zero =>
    rw [cleanLoop]
    split_ifs <;> simp only [cleanLoop] <;> omega
  | succ n ih =>
    rw [cleanLoop]
    split_ifs with hi
    · rw [ih]
      dsimp only
      omega
    · dsimp only
      omega

theorem afConnCleanTimeout_spec (t : ConnTable size word) :
    (afConnCleanTimeout hz t).1.jiffies = t.jiffies ∧ (afConnCleanTimeout hz t).1.lastBucket =
        Sweep.next size maxAfConnCheckCount t.lastBucket ∧
      (∀ b, b ∈ (afConnCleanTimeout hz t).2 ↔ Sweep.Looks maxAfConnCheckCount t.lastBucket b) ∧
      ∀ b, (afConnCleanTimeout hz t).1.buckets b =
        if Sweep.Looks maxAfConnCheckCount t.lastBucket b then
          (t.buckets b).filter fun conn => ¬ timedOut hz t conn
        else t.buckets b := by
  obtain ⟨hjiffies, hlook, hbuckets⟩ :=
    @cleanLoop_spec _ _ hz (maxAfConnCheckCount + 1) t.lastBucket t
  have hlast := @cleanLoop_lastBucket _ _ hz maxAfConnCheckCount t.lastBucket t
  have hlooks (b : Fin size) : (t.lastBucket : ℕ) ≤ b ∧
      (b : ℕ) < t.lastBucket + (maxAfConnCheckCount + 1) ↔
        Sweep.Looks maxAfConnCheckCount t.lastBucket b := by
    rw [Sweep.Looks, ← Nat.add_assoc, Nat.lt_succ_iff]
  simp only [hlooks] at hlook hbuckets
  rw [afConnCleanTimeout]
  split_ifs with hend
  · refine ⟨hjiffies, ?_, hlook, hbuckets⟩
    rw [Sweep.next, if_pos (by omega)]
  · refine ⟨hjiffies, ?_, hlook, hbuckets⟩
    rw [hlast, Sweep.next, if_neg (by omega)]
    omega

end Call

/-! ## Coverage -/

section Runs

variable {hz} {hash}

variable {e : ConnEvent}

theorem connStep_lastBucket (t : ConnTable size word) (he : e ≠ .tick) :
    (connStep hz hash t e).lastBucket = t.lastBucket := by
  cases e with
  | packet key mem =>
    simp only [connStep, receivePacket, writeConn, afConnFindAndAdd, afConnAdd]
    split_ifs <;> rfl
  | find key => rfl
  | add key mem =>
    simp only [connStep, afConnAdd]
    split_ifs <;> rfl
  | findAndAdd key mem =>
    simp only [connStep, afConnFindAndAdd, afConnAdd]
    split_ifs <;> rfl
  | update key appId drop => rfl
  | wait n => rfl
  | tick => exact absurd rfl he

variable {t : ConnTable size word} {es : List ConnEvent}

/-- As many ticks as the sweep has calls look at the bucket. -/
theorem mem_scanned {b : Fin size}
    (h : Sweep.calls size maxAfConnCheckCount t.lastBucket b ≤ es.count .tick) :
    b ∈ scanned hz hash t es := by
  induction es generalizing t with
  | nil => exact absurd h (Nat.not_le_of_lt Sweep.calls_pos)
  | cons e es ih =>
    rw [scanned, mem_append]
    by_cases he : e = .tick
    · subst he
      obtain ⟨-, hlast, hlook, -⟩ := @afConnCleanTimeout_spec _ _ hz t
      by_cases hnow : Sweep.Looks maxAfConnCheckCount t.lastBucket b
      · exact .inl ((hlook b).2 hnow)
      · refine .inr (ih ?_)
        have hless := @Sweep.calls_next size maxAfConnCheckCount t.lastBucket b (by decide)
          t.lastBucket.isLt b.isLt hnow
        rw [count_cons_self] at h
        rw [connStep, hlast]
        omega
    · refine .inr (ih ?_)
      rw [count_cons_of_ne he] at h
      rwa [connStep_lastBucket t he]

/-! ## Connections -/

variable {conn : AfConn word} {key : FlowKey}

theorem mem_writeConn {g : AfConn word → AfConn word} (hg : ∀ conn, (g conn).key = conn.key)
    (hkey : conn.key ≠ key) (b : Fin size) :
    conn ∈ (writeConn hash key g t).buckets b ↔ conn ∈ t.buckets b := by
  rw [writeConn]
  by_cases hb : b = hash key
  · subst hb
    dsimp only
    rw [update_self, mem_modifyKey_of_ne hg hkey]
  · dsimp only
    rw [update_of_ne hb]

theorem mem_afConnAdd {mem : Bool} (hkey : conn.key ≠ key) (b : Fin size) :
    conn ∈ (afConnAdd hash key mem t).buckets b ↔ conn ∈ t.buckets b := by
  rw [afConnAdd]
  split_ifs
  · by_cases hb : b = hash key
    · grind
    · dsimp only
      rw [update_of_ne hb]
  · rfl

theorem mem_afConnFindAndAdd {mem : Bool} (hkey : conn.key ≠ key) (b : Fin size) :
    conn ∈ (afConnFindAndAdd hash key mem t).buckets b ↔ conn ∈ t.buckets b := by
  rw [afConnFindAndAdd]
  split_ifs
  · exact mem_afConnAdd hkey b
  · rfl

theorem mem_of_quiet (hquiet : e.Quiet conn.key) {b : Fin size}
    (h : conn ∈ (connStep hz hash t e).buckets b) : conn ∈ t.buckets b := by
  cases e with
  | packet key mem =>
    have hkey : conn.key ≠ key := fun hk => hquiet hk.symm
    rw [connStep, receivePacket, mem_writeConn (by exact fun _ => rfl) hkey] at h
    exact (mem_afConnFindAndAdd hkey b).1 h
  | find key => exact h
  | add key mem => exact (mem_afConnAdd (fun hk => hquiet hk.symm) b).1 h
  | findAndAdd key mem => exact (mem_afConnFindAndAdd (fun hk => hquiet hk.symm) b).1 h
  | update key appId drop =>
    have hkey : conn.key ≠ key := fun hk => hquiet hk.symm
    rwa [connStep, afConnUpdate, mem_writeConn (by exact fun _ => rfl) hkey] at h
  | wait n => exact h
  | tick =>
    rw [connStep, (afConnCleanTimeout_spec t).2.2.2 b] at h
    split_ifs at h
    · exact mem_of_mem_filter h
    · exact h

theorem not_mem_run (hquiet : ∀ e ∈ es, e.Quiet conn.key) {b : Fin size} (h : conn ∉ t.buckets b) :
    conn ∉ (run (connStep hz hash) t es).buckets b := by
  induction es generalizing t with
  | nil => exact h
  | cons e es ih =>
    refine ih (fun e he => hquiet e (mem_cons_of_mem _ he)) fun hmem => ?_
    exact h (mem_of_quiet (hquiet e mem_cons_self) hmem)

theorem freed {b : Fin size}
    (h : Sweep.calls size maxAfConnCheckCount t.lastBucket b ≤ es.count .tick)
    (hquiet : ∀ e ∈ es, e.Quiet conn.key)
    (hold : Along (connStep hz hash) (fun t e => e = .tick → timedOut hz t conn = true) t es) :
    conn ∉ (run (connStep hz hash) t es).buckets b := by
  induction es generalizing t with
  | nil => exact absurd h (Nat.not_le_of_lt Sweep.calls_pos)
  | cons e es ih =>
    obtain ⟨hnow, hlater⟩ := hold
    have hquiet' : ∀ e ∈ es, e.Quiet conn.key := fun e he => hquiet e (mem_cons_of_mem _ he)
    by_cases he : e = .tick
    · subst he
      obtain ⟨-, hlast, -, hbuckets⟩ := @afConnCleanTimeout_spec _ _ hz t
      by_cases hlook : Sweep.Looks maxAfConnCheckCount t.lastBucket b
      · refine not_mem_run hquiet' fun hmem => ?_
        rw [connStep, hbuckets, if_pos hlook] at hmem
        have hkept := (mem_filter.1 hmem).2
        rw [hnow rfl] at hkept
        cases hkept
      · refine ih ?_ hquiet' hlater
        have hless := @Sweep.calls_next size maxAfConnCheckCount t.lastBucket b (by decide)
          t.lastBucket.isLt b.isLt hlook
        rw [count_cons_self] at h
        rw [connStep, hlast]
        omega
    · refine ih ?_ hquiet' hlater
      rw [count_cons_of_ne he] at h
      rwa [connStep_lastBucket t he]

theorem timeAfter_add {n : ℕ} (hn : n < 2 ^ (word - 1)) {start now : BitVec word}
    (h : (now - start).toNat ≤ n) : timeAfter now (start + BitVec.ofNat word n) = false := by
  have hdouble : 2 * n < 2 ^ word := by
    cases word with
    | zero => omega
    | succ word =>
      rw [Nat.add_sub_cancel] at hn
      rw [pow_succ]
      omega
  have hleft : start + BitVec.ofNat word n - now = BitVec.ofNat word n - (now - start) := by ring
  have hvalue : (start + BitVec.ofNat word n - now).toNat = n - (now - start).toNat := by
    have hsum : 2 ^ word - (now - start).toNat + n = 2 ^ word + (n - (now - start).toNat) := by
      omega
    rw [hleft, BitVec.toNat_sub, BitVec.toNat_ofNat, Nat.mod_eq_of_lt (a := n) (by omega), hsum,
      Nat.add_mod_left, Nat.mod_eq_of_lt (by omega)]
  rw [timeAfter, BitVec.toInt_eq_toNat_cond, hvalue, if_pos (by omega), decide_eq_false_iff_not]
  omega

theorem young_kept (hhz : 30 * hz < 2 ^ (word - 1)) {b : Fin size} (hmem : conn ∈ t.buckets b)
    (hyoung : (t.jiffies - conn.lastJiffies).toNat ≤ 30 * hz) :
    conn ∈ (afConnCleanTimeout hz t).1.buckets b := by
  rw [(afConnCleanTimeout_spec t).2.2.2 b]
  split_ifs
  · refine mem_filter.2 ⟨hmem, ?_⟩
    rw [timedOut, connTimeout, timeAfter_add hhz hyoung]
    rfl
  · exact hmem

theorem keys_kept (t : ConnTable size word) (he : e ≠ .tick) (b : Fin size) :
    List.Sublist ((t.buckets b).map AfConn.key)
      (((connStep hz hash t e).buckets b).map AfConn.key) := by
  have hwrite (key : FlowKey) (g : AfConn word → AfConn word)
      (hg : ∀ conn, (g conn).key = conn.key) (t : ConnTable size word) :
      ((writeConn hash key g t).buckets b).map AfConn.key = (t.buckets b).map AfConn.key := by
    rw [writeConn]
    by_cases hb : b = hash key
    · subst hb
      exact (congrArg _ (update_self ..)).trans (map_modifyKey hg)
    · exact congrArg _ (update_of_ne hb ..)
  have hadd (key : FlowKey) (mem : Bool) : List.Sublist ((t.buckets b).map AfConn.key)
      (((afConnAdd hash key mem t).buckets b).map AfConn.key) := by
    rw [afConnAdd]
    split_ifs
    · by_cases hb : b = hash key
      · subst hb
        dsimp only
        rw [update_self]
        exact sublist_cons_self ..
      · dsimp only
        rw [update_of_ne hb]
    · exact List.Sublist.refl _
  have hfind (key : FlowKey) (mem : Bool) : List.Sublist ((t.buckets b).map AfConn.key)
      (((afConnFindAndAdd hash key mem t).buckets b).map AfConn.key) := by
    rw [afConnFindAndAdd]
    split_ifs
    · exact hadd key mem
    · exact List.Sublist.refl _
  cases e with
  | packet key mem =>
    rw [connStep, receivePacket, hwrite _ _ (by exact fun _ => rfl)]
    exact hfind key mem
  | find key => exact List.Sublist.refl _
  | add key mem => exact hadd key mem
  | findAndAdd key mem => exact hfind key mem
  | update key appId drop => rw [connStep, afConnUpdate, hwrite _ _ (by exact fun _ => rfl)]
  | wait n => exact List.Sublist.refl _
  | tick => exact absurd rfl he

/-- So many ticks look at every bucket, and a connection without packets that has timed out is
    freed by then. No event frees a young one. -/
theorem clean_up (hhz : 30 * hz < 2 ^ (word - 1)) (t : ConnTable size word)
    (es : List ConnEvent) :
    ((size + 4) / 5 + 1 ≤ es.count .tick → (∀ b, b ∈ scanned hz hash t es) ∧
      ∀ b, ∀ conn ∈ t.buckets b, (∀ e ∈ es, e.Quiet conn.key) →
        Along (connStep hz hash) (fun t e => e = .tick → timedOut hz t conn = true) t es →
        conn ∉ (run (connStep hz hash) t es).buckets b) ∧
    Along (connStep hz hash) (fun t e => ∀ b, if e = .tick then ∀ conn ∈ t.buckets b,
        (t.jiffies - conn.lastJiffies).toNat ≤ 30 * hz → conn ∈ (connStep hz hash t e).buckets b
      else List.Sublist ((t.buckets b).map AfConn.key)
        (((connStep hz hash t e).buckets b).map AfConn.key)) t es := by
  refine ⟨fun hticks => ?_, ?_⟩
  · have hcalls (b : Fin size) :
        Sweep.calls size maxAfConnCheckCount t.lastBucket b ≤ es.count .tick :=
      (Sweep.calls_le t.lastBucket.isLt b.isLt).trans hticks
    exact ⟨fun b => mem_scanned (hcalls b),
      fun b conn _ hquiet hold => freed (hcalls b) hquiet hold⟩
  · have hstep (t : ConnTable size word) (e : ConnEvent) : True → ∀ b,
        if e = .tick then ∀ conn ∈ t.buckets b, (t.jiffies - conn.lastJiffies).toNat ≤ 30 * hz →
            conn ∈ (connStep hz hash t e).buckets b
        else List.Sublist ((t.buckets b).map AfConn.key)
          (((connStep hz hash t e).buckets b).map AfConn.key) := by
      intro _ b
      split_ifs with he
      · subst he
        exact fun conn hmem hyoung => young_kept hhz hmem hyoung
      · exact keys_kept t he b
    exact @along_always _ _ _ _ (fun _ => True) (fun _ _ _ => trivial) hstep _ trivial es

end Runs

/-! ## The table as a map -/

section Map

variable {hz : ℕ} {hash : FlowKey → Fin size} {t : ConnTable size word} {key k : FlowKey}

/-- Every connection is in the bucket of its key, and no key is there twice. -/
def Keyed (hash : FlowKey → Fin size) (t : ConnTable size word) : Prop :=
  ∀ b, ((t.buckets b).map AfConn.key).Nodup ∧ ∀ k ∈ (t.buckets b).map AfConn.key, hash k = b

/-- `af_conn_add` is called, whether the connection is there or not. -/
def ConnEvent.adds : ConnEvent → Bool
  | .add _ _ => true
  | _ => false

/-- The connection that `af_conn_add` makes. -/
def madeConn (t : ConnTable size word) (key : FlowKey) (mem : Bool) : Option (AfConn word) :=
  if mem then some ⟨key, 0, 0, 0, 0, .new, t.jiffies⟩ else none

/-- What an event makes of the connection that was found for a key. -/
def seenAfter (hz : ℕ) (hash : FlowKey → Fin size) (t : ConnTable size word) (key : FlowKey)
    (found : Option (AfConn word)) : ConnEvent → Option (AfConn word)
  | .packet k mem =>
    if key = k then
      (found.or (madeConn t k mem)).map fun conn =>
        { conn with lastJiffies := t.jiffies, totalPkts := conn.totalPkts + 1 }
    else found
  | .findAndAdd k mem => if key = k then found.or (madeConn t k mem) else found
  | .add k mem => if key = k then (madeConn t k mem).or found else found
  | .update k appId drop =>
    if key = k then
      found.map fun conn => { conn with appId := appId, drop := drop, lastJiffies := t.jiffies }
    else found
  | .tick =>
    if Sweep.Looks maxAfConnCheckCount t.lastBucket (hash key) then
      found.filter fun conn => ¬ timedOut hz t conn
    else found
  | .find _ | .wait _ => found

theorem find_writeConn {g : AfConn word → AfConn word} (hg : ∀ conn, (g conn).key = conn.key) :
    afConnFind hash key (writeConn hash k g t) =
      if key = k then (afConnFind hash key t).map g else afConnFind hash key t := by
  unfold afConnFind writeConn
  dsimp only
  rw [update_apply]
  split
  · rename_i hb
    rw [hb, findKey_modifyKey hg]
  · rename_i hb
    rw [if_neg fun h : key = k => hb (congrArg hash h)]

theorem find_afConnAdd {mem : Bool} : afConnFind hash key (afConnAdd hash k mem t) =
      if key = k then (madeConn t k mem).or (afConnFind hash key t) else afConnFind hash key t := by
  cases mem with
  | false => exact (ite_self _).symm
  | true =>
    unfold afConnFind afConnAdd
    rw [if_pos rfl]
    dsimp only
    rw [update_apply]
    by_cases hkey : key = k
    · rw [if_pos hkey, hkey, if_pos rfl]
      exact find?_cons_of_pos (decide_eq_true rfl)
    · rw [if_neg hkey]
      split
      · rename_i hb
        rw [hb]
        exact find?_cons_of_neg fun h => hkey (of_decide_eq_true h).symm
      · rfl

theorem find_afConnFindAndAdd {mem : Bool} : afConnFind hash key (afConnFindAndAdd hash k mem t) =
      if key = k then (afConnFind hash key t).or (madeConn t k mem)
      else afConnFind hash key t := by
  unfold afConnFindAndAdd
  by_cases hkey : key = k
  · subst hkey
    rw [if_pos rfl]
    cases hfound : afConnFind hash key t with
    | none =>
      rw [Option.isNone_none, if_pos rfl, find_afConnAdd, if_pos rfl, hfound]
      exact Option.or_none
    | some conn => exact hfound
  · rw [if_neg hkey]
    split
    · rw [find_afConnAdd, if_neg hkey]
    · rfl

theorem find_connStep (ht : Keyed hash t) (e : ConnEvent) :
    afConnFind hash key (connStep hz hash t e) =
      seenAfter hz hash t key (afConnFind hash key t) e := by
  cases e with
  | packet k mem =>
    rw [connStep, receivePacket, find_writeConn (by exact fun _ => rfl), find_afConnFindAndAdd,
      seenAfter]
    split <;> rfl
  | find k => rfl
  | add k mem => exact find_afConnAdd
  | findAndAdd k mem => exact find_afConnFindAndAdd
  | update k appId drop => exact find_writeConn fun _ => rfl
  | wait n => rfl
  | tick =>
    rw [connStep, seenAfter, afConnFind, (afConnCleanTimeout_spec t).2.2.2]
    split
    · exact findKey_filter (ht _).1 _
    · rfl

theorem Keyed.write {g : AfConn word → AfConn word} (hg : ∀ conn, (g conn).key = conn.key)
    (ht : Keyed hash t) : Keyed hash (writeConn hash k g t) := by
  intro b
  unfold writeConn
  dsimp only
  rw [update_apply]
  split
  · rename_i hb
    rw [map_modifyKey hg, hb]
    exact ht _
  · exact ht b

theorem Keyed.findAndAdd {mem : Bool} (ht : Keyed hash t) :
    Keyed hash (afConnFindAndAdd hash k mem t) := by
  unfold afConnFindAndAdd afConnAdd
  split
  · rename_i hnone
    cases mem with
    | false => exact ht
    | true =>
      intro b
      rw [if_pos rfl]
      dsimp only
      rw [update_apply]
      split
      · rename_i hb
        subst hb
        have hnew := findKey_eq_none (Option.isNone_iff_eq_none.1 hnone)
        exact ⟨nodup_cons.2 ⟨hnew, (ht _).1⟩, forall_mem_cons.2 ⟨rfl, (ht _).2⟩⟩
      · exact ht b
  · exact ht

theorem Keyed.step {e : ConnEvent} (ht : Keyed hash t) (he : e.adds = false) :
    Keyed hash (connStep hz hash t e) := by
  cases e with
  | packet k mem => exact ht.findAndAdd.write fun _ => rfl
  | find k => exact ht
  | add k mem => cases he
  | findAndAdd k mem => exact ht.findAndAdd
  | update k appId drop => exact ht.write fun _ => rfl
  | wait n => exact ht
  | tick =>
    intro b
    rw [connStep, (afConnCleanTimeout_spec t).2.2.2]
    split
    · have hsub := (filter_sublist (p := fun conn => ¬ timedOut hz t conn)
        (l := t.buckets b)).map AfConn.key
      exact ⟨(ht b).1.sublist hsub, fun k hk => (ht b).2 k (hsub.subset hk)⟩
    · exact ht b

/-- From the empty table on, with connections added by `af_conn_find_and_add` only, every
    connection is found by its key, and what is found for a key changes as in a map. -/
theorem conn_table_map (last : Fin size) (now : BitVec word) (es : List ConnEvent)
    (hes : ∀ e ∈ es, e.adds = false) :
    (∀ b, ∀ conn ∈ (run (connStep hz hash) ⟨fun _ => [], last, now⟩ es).buckets b,
      afConnFind hash conn.key (run (connStep hz hash) ⟨fun _ => [], last, now⟩ es) = some conn) ∧
    Along (connStep hz hash) (fun t e => ∀ key, afConnFind hash key (connStep hz hash t e) =
      seenAfter hz hash t key (afConnFind hash key t) e) ⟨fun _ => [], last, now⟩ es := by
  have hempty : Keyed hash (⟨fun _ => [], last, now⟩ : ConnTable size word) :=
    fun _ => ⟨nodup_nil, nofun⟩
  have halong : Along (connStep hz hash) (fun _ e => e.adds = false)
      (⟨fun _ => [], last, now⟩ : ConnTable size word) es := along_of_forall hes
  refine ⟨fun b conn hconn => ?_,
    along_invariant (fun t e => Keyed.step) (fun t e ht _ key => find_connStep ht e) hempty halong⟩
  obtain ⟨hnodup, hplace⟩ := run_invariant (fun t e => Keyed.step) hempty halong b
  rw [afConnFind, hplace _ (mem_map_of_mem hconn)]
  exact (findKey_eq_some_iff hnodup).2 ⟨hconn, rfl⟩

theorem conn_table_map_eight :
    let es := [.packet ⟨9, 2, 3, 4, 6⟩ true, .update ⟨9, 2, 3, 4, 6⟩ 7 1, .wait 100, .tick]
    let t : ConnTable 8 32 := run (connStep 100 fun _ => 6) ⟨fun _ => [], 7, 0⟩ es
    ∀ b, ∀ conn ∈ t.buckets b, afConnFind (fun _ => 6) conn.key t = some conn :=
  (conn_table_map 7 0 _ (by decide)).1

end Map

/-- A connection of 5000 jiffies ago, behind the cursor. -/
def idleConn : AfConn 32 := ⟨⟨1, 2, 3, 4, 6⟩, 0, 0, 0, 0, .new, 0⟩

def eightBuckets : ConnTable 8 32 := ⟨fun b => if b = 6 then [idleConn] else [], 7, 5000⟩

theorem clean_up_eight : let es := [.tick, .packet ⟨9, 2, 3, 4, 6⟩ true, .wait 100, .tick, .tick]
    (∀ b, b ∈ scanned 100 (fun _ => 6) eightBuckets es) ∧
      idleConn ∉ (run (connStep 100 fun _ => 6) eightBuckets es).buckets 6 := by
  intro es
  obtain ⟨hscanned, hfreed⟩ :=
    (@clean_up 8 32 100 (fun _ => 6) (by decide) eightBuckets es).1 (by decide)
  exact ⟨hscanned, hfreed 6 idleConn (by decide) (by decide) (by decide)⟩

end Apackage.OpenAppFilter.ConnClean
