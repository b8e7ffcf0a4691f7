import Apackage.Rtp2httpd.Status.Clients

/-
  What the death of a worker leaves behind.

  A step of a process only gives away what the process has, or takes for it what is free
  (`Touches`), so what one process knows of its slots and its lock stays true while the others
  go on. The supervisor acts for the dead worker that it reaps. It gives back the slots and the
  admission lock, but not the lock of the blocked addresses.
-/

namespace Apackage.Rtp2httpd

open Function List Lib.Run

/-! ## One step -/

/-- A free slot is not active, and the bytes of an active one have not been counted yet. -/
structure SlotOk (slot : ClientSlot) : Prop where
  free : slot.ownerPid = 0 → slot.active = false
  active : slot.active = true → slot.counted = 0
  counted : slot.counted ≤ 1

/-- What a step of the process `pid` may do to shared memory. -/
structure Touches (pid : ℕ) (before after : StatusShared) : Prop where
  admission : after.clientAdmissionOwnerPid = before.clientAdmissionOwnerPid ∨
    (before.clientAdmissionOwnerPid = 0 ∧ after.clientAdmissionOwnerPid = pid) ∨
    (before.clientAdmissionOwnerPid = pid ∧ after.clientAdmissionOwnerPid = 0)
  blockedIps : after.blockedIpOwnerPid = before.blockedIpOwnerPid ∨
    (before.blockedIpOwnerPid = 0 ∧ after.blockedIpOwnerPid = pid) ∨
    (before.blockedIpOwnerPid = pid ∧ after.blockedIpOwnerPid = 0)
  clients : ∀ slot, after.clients slot = before.clients slot ∨
    (before.owner slot = pid ∧ (after.owner slot = pid ∨ after.owner slot = 0)) ∨
    (before.owner slot = 0 ∧ after.owner slot = pid ∧ before.clientAdmissionOwnerPid = pid)

/-- A slot that was reserved and whose bytes are not counted. -/
def Held (pid : ℕ) (shared : StatusShared) (slot : ℕ) : Prop :=
  slot < statusMaxClients ∧ shared.owner slot = pid ∧ (shared.clients slot).active = false

def Uncounted (pid : ℕ) (shared : StatusShared) (slot : ℕ) : Prop :=
  Held pid shared slot ∧ (shared.clients slot).counted = 0

/-- What a worker knows between two steps. -/
def WorkerPc.Knows (maxclients pid : ℕ) (shared : StatusShared) : WorkerPc → Prop
  | .countSlots slot reserved => shared.clientAdmissionOwnerPid = pid ∧
      slot ≤ statusMaxClients ∧ shared.ownedBelow slot ≤ reserved
  | .reserve _ => shared.clientAdmissionOwnerPid = pid ∧
      shared.ownedBelow statusMaxClients < maxclients
  | .unlockAdmission (some slot) => Uncounted pid shared slot
  | .resetPayload slot => Uncounted pid shared slot
  | .nextGeneration slot => Uncounted pid shared slot
  | .skipGeneration slot => Uncounted pid shared slot
  | .fillPayload slot => Uncounted pid shared slot
  | .publish slot => Uncounted pid shared slot
  | .takeActive slot => slot < statusMaxClients ∧ shared.owner slot = pid
  | .addBytes slot => Uncounted pid shared slot
  | .clearPayload slot => Held pid shared slot
  | .release slot => Held pid shared slot
  | _ => True

/-- What the supervisor knows while it reaps a worker. -/
def ReapPc.Knows (pid : ℕ) (shared : StatusShared) : ReapPc → Prop
  | .checkOwner slot => slot ≤ statusMaxClients ∧ ∀ i < slot, shared.owner i ≠ pid
  | .takeActive slot => (slot < statusMaxClients ∧ shared.owner slot = pid) ∧
      ∀ i < slot, shared.owner i ≠ pid
  | .addBytes slot => Uncounted pid shared slot ∧ ∀ i < slot, shared.owner i ≠ pid
  | .clearPayload slot => Held pid shared slot ∧ ∀ i < slot, shared.owner i ≠ pid
  | .release slot => Held pid shared slot ∧ ∀ i < slot, shared.owner i ≠ pid
  | .unlockAdmission => ∀ i < statusMaxClients, shared.owner i ≠ pid

section Shared

variable {shared : StatusShared} {slot : ℕ} {client : ClientSlot}

theorem setClient_self : (shared.setClient slot client).clients slot = client :=
  update_self _ _ _

theorem setClient_ne {i : ℕ} (h : i ≠ slot) :
    (shared.setClient slot client).clients i = shared.clients i :=
  update_of_ne h _ _

theorem ownedBelow_succ (n : ℕ) : shared.ownedBelow (n + 1) =
    shared.ownedBelow n + if shared.owner n ≠ 0 then 1 else 0 := by
  unfold StatusShared.ownedBelow
  rw [range_succ, countP_append, countP_singleton]
  simp

theorem ownedBelow_mono {after : StatusShared} {n : ℕ}
    (h : ∀ i, after.owner i ≠ 0 → shared.owner i ≠ 0) :
    after.ownedBelow n ≤ shared.ownedBelow n := by
  refine countP_mono_left fun i _ hi => ?_
  rw [decide_eq_true_eq] at hi ⊢
  exact h i hi

theorem ownedBelow_setClient (n : ℕ) :
    (shared.setClient slot client).ownedBelow n ≤ shared.ownedBelow n + if slot < n then 1 else 0 := by
  induction n with
  | zero => exact Nat.zero_le _
  | succ n ih =>
    rw [ownedBelow_succ, ownedBelow_succ]
    by_cases hn : n = slot
    · grind
    · have howner : (shared.setClient slot client).owner n = shared.owner n :=
        congrArg ClientSlot.ownerPid (setClient_ne hn)
      have hlt : slot < n + 1 ↔ slot < n := by omega
      simp only [howner, hlt]
      omega

end Shared

/-! ## What the others do -/

section Frame

variable {p q maxclients : ℕ} {before after : StatusShared} (h : Touches p before after)
  (hne : q ≠ p) (hq : q ≠ 0)

include h hne hq

theorem Touches.clients_eq {slot : ℕ} (howner : before.owner slot = q) :
    after.clients slot = before.clients slot := by
  rcases h.clients slot with heq | ⟨hp, -⟩ | ⟨hzero, -⟩
  · exact heq
  · exact absurd (howner.symm.trans hp) hne
  · exact absurd (howner.symm.trans hzero) hq

theorem Touches.owner_ne {slot : ℕ} (howner : before.owner slot ≠ q) : after.owner slot ≠ q := by
  rcases h.clients slot with heq | ⟨-, hp | hzero⟩ | ⟨-, hp, -⟩
  · unfold StatusShared.owner
    rw [heq]
    exact howner
  · omega
  · omega
  · omega

theorem Touches.admission_iff :
    after.clientAdmissionOwnerPid = q ↔ before.clientAdmissionOwnerPid = q := by
  rcases h.admission with heq | ⟨h0, h1⟩ | ⟨h0, h1⟩ <;> omega

theorem Touches.blockedIps_iff : after.blockedIpOwnerPid = q ↔ before.blockedIpOwnerPid = q := by
  rcases h.blockedIps with heq | ⟨h0, h1⟩ | ⟨h0, h1⟩ <;> omega

omit hq in
theorem Touches.ownedBelow_le (hadmission : before.clientAdmissionOwnerPid = q) (n : ℕ) :
    after.ownedBelow n ≤ before.ownedBelow n := by
  refine ownedBelow_mono fun i hi => ?_
  rcases h.clients i with heq | ⟨hp, hp' | hzero⟩ | ⟨-, -, hlock⟩
  · unfold StatusShared.owner at hi ⊢
    rwa [heq] at hi
  · omega
  · exact absurd hzero hi
  · exact absurd (hadmission.symm.trans hlock) hne

theorem Touches.held {slot : ℕ} (hheld : Held q before slot) : Held q after slot := by
  obtain ⟨hlt, howner, hactive⟩ := hheld
  have heq := h.clients_eq hne hq howner
  unfold Held StatusShared.owner
  rw [heq]
  exact ⟨hlt, howner, hactive⟩

theorem Touches.fresh {slot : ℕ} (hfresh : Uncounted q before slot) : Uncounted q after slot := by
  refine ⟨h.held hne hq hfresh.1, ?_⟩
  rw [h.clients_eq hne hq hfresh.1.2.1]
  exact hfresh.2

theorem Touches.owner_eq {slot : ℕ} (howner : before.owner slot = q) : after.owner slot = q := by
  unfold StatusShared.owner
  rw [h.clients_eq hne hq howner]
  exact howner

theorem Touches.workerKnows {pc : WorkerPc} (hpc : pc.Knows maxclients q before) :
    pc.Knows maxclients q after := by
  cases pc with
  | countSlots slot reserved =>
    obtain ⟨hlock, hle, hcount⟩ := hpc
    exact ⟨(h.admission_iff hne hq).2 hlock, hle,
      (h.ownedBelow_le hne hlock slot).trans hcount⟩
  | reserve slot =>
    obtain ⟨hlock, hroom⟩ := hpc
    exact ⟨(h.admission_iff hne hq).2 hlock,
      (h.ownedBelow_le hne hlock _).trans_lt hroom⟩
  | unlockAdmission slot =>
    cases slot with
    | none => trivial
    | some slot => exact h.fresh hne hq hpc
  | takeActive slot => exact ⟨hpc.1, h.owner_eq hne hq hpc.2⟩
  | clearPayload slot => exact h.held hne hq hpc
  | release slot => exact h.held hne hq hpc
  | resetPayload slot => exact h.fresh hne hq hpc
  | nextGeneration slot => exact h.fresh hne hq hpc
  | skipGeneration slot => exact h.fresh hne hq hpc
  | fillPayload slot => exact h.fresh hne hq hpc
  | publish slot => exact h.fresh hne hq hpc
  | addBytes slot => exact h.fresh hne hq hpc
  | idle => trivial
  | lockAdmission => trivial
  | checkOwner slot => trivial
  | lockBlockedIps job => trivial
  | useBlockedIps job => trivial
  | unlockBlockedIps => trivial

theorem Touches.reapKnows {pc : ReapPc} (hpc : pc.Knows q before) : pc.Knows q after := by
  have hbelow : ∀ {n : ℕ}, (∀ i < n, before.owner i ≠ q) → ∀ i < n, after.owner i ≠ q :=
    fun hn i hi => h.owner_ne hne hq (hn i hi)
  cases pc with
  | checkOwner slot => exact ⟨hpc.1, hbelow hpc.2⟩
  | takeActive slot => exact ⟨⟨hpc.1.1, h.owner_eq hne hq hpc.1.2⟩, hbelow hpc.2⟩
  | addBytes slot => exact ⟨h.fresh hne hq hpc.1, hbelow hpc.2⟩
  | clearPayload slot => exact ⟨h.held hne hq hpc.1, hbelow hpc.2⟩
  | release slot => exact ⟨h.held hne hq hpc.1, hbelow hpc.2⟩
  | unlockAdmission => exact hbelow hpc

end Frame

/-! ## What a process does itself -/

/-- What is true of shared memory at any time. -/
structure SharedOk (maxclients : ℕ) (shared : StatusShared) : Prop where
  slots : ∀ slot, SlotOk (shared.clients slot)
  capacity : shared.ownedBelow statusMaxClients ≤ maxclients

section Own

variable {pid index maxclients slot : ℕ} {shared : StatusShared} {client : ClientSlot}

theorem Touches.refl (pid : ℕ) (shared : StatusShared) : Touches pid shared shared :=
  ⟨.inl rfl, .inl rfl, fun _ => .inl rfl⟩

theorem unlockAdmission_touches (pid : ℕ) (shared : StatusShared) :
    Touches pid shared (shared.unlockAdmission pid) ∧
      (shared.unlockAdmission pid).clients = shared.clients := by
  unfold StatusShared.unlockAdmission
  split
  · rename_i howner
    exact ⟨⟨.inr (.inr ⟨howner, rfl⟩), .inl rfl, fun _ => .inl rfl⟩, rfl⟩
  · exact ⟨Touches.refl pid shared, rfl⟩

theorem unlockBlockedIps_touches (pid : ℕ) (shared : StatusShared) :
    Touches pid shared (shared.unlockBlockedIps pid) ∧
      (shared.unlockBlockedIps pid).clients = shared.clients := by
  unfold StatusShared.unlockBlockedIps
  split
  · rename_i howner
    exact ⟨⟨.inl rfl, .inr (.inr ⟨howner, rfl⟩), fun _ => .inl rfl⟩, rfl⟩
  · exact ⟨Touches.refl pid shared, rfl⟩

theorem SharedOk.of_clients {after : StatusShared} (h : SharedOk maxclients shared)
    (hclients : after.clients = shared.clients) : SharedOk maxclients after := by
  refine ⟨fun slot => by rw [hclients]; exact h.slots slot, ?_⟩
  have howned : after.ownedBelow statusMaxClients = shared.ownedBelow statusMaxClients := by
    unfold StatusShared.ownedBelow StatusShared.owner
    rw [hclients]
  rw [howned]
  exact h.capacity

theorem own_slot (howner : shared.owner slot = pid)
    (hclient : client.ownerPid = pid ∨ client.ownerPid = 0) :
    Touches pid shared (shared.setClient slot client) := by
  refine ⟨.inl rfl, .inl rfl, fun i => ?_⟩
  by_cases hi : i = slot
  · subst hi
    right
    left
    unfold StatusShared.owner at *
    rw [setClient_self]
    exact ⟨howner, hclient⟩
  · exact .inl (setClient_ne hi)

theorem SharedOk.setClient (h : SharedOk maxclients shared) (hpid : pid ≠ 0)
    (howner : shared.owner slot = pid) (hclient : SlotOk client) :
    SharedOk maxclients (shared.setClient slot client) := by
  refine ⟨fun i => ?_, (ownedBelow_mono fun i hi => ?_).trans h.capacity⟩
  · by_cases hi : i = slot
    · rw [hi, setClient_self]
      exact hclient
    · rw [setClient_ne hi]
      exact h.slots i
  · by_cases heq : i = slot
    · rw [heq, howner]
      exact hpid
    · unfold StatusShared.owner at hi ⊢
      rwa [setClient_ne heq] at hi

theorem reserve_slot (h : SharedOk maxclients shared) (hpid : pid ≠ 0)
    (hlock : shared.clientAdmissionOwnerPid = pid)
    (hroom : shared.ownedBelow statusMaxClients < maxclients) (hlt : slot < statusMaxClients)
    (hfree : shared.owner slot = 0) :
    let after := shared.setClient slot { shared.clients slot with ownerPid := pid, counted := 0 }
    Touches pid shared after ∧ SharedOk maxclients after ∧ Uncounted pid after slot := by
  have hactive := (h.slots slot).free hfree
  intro after
  have hself : after.clients slot = { shared.clients slot with ownerPid := pid, counted := 0 } :=
    setClient_self
  refine ⟨⟨.inl rfl, .inl rfl, fun i => ?_⟩, ⟨fun i => ?_, ?_⟩, ⟨hlt, ?_, ?_⟩, ?_⟩
  · by_cases hi : i = slot
    · right
      right
      rw [hi]
      exact ⟨hfree, congrArg ClientSlot.ownerPid hself, hlock⟩
    · exact .inl (setClient_ne hi)
  · by_cases hi : i = slot
    · rw [hi, hself]
      exact ⟨fun hzero => absurd hzero hpid, fun _ => rfl, Nat.zero_le 1⟩
    · rw [setClient_ne hi]
      exact h.slots i
  · have hone : after.ownedBelow statusMaxClients ≤ shared.ownedBelow statusMaxClients +
        if slot < statusMaxClients then 1 else 0 := ownedBelow_setClient statusMaxClients
    rw [if_pos hlt] at hone
    exact hone.trans hroom
  · exact congrArg ClientSlot.ownerPid hself
  · rw [hself]
    exact hactive
  · rw [hself]

theorem addBytes_clients (shared : StatusShared) (slot : ℕ) :
    ∃ k ≤ 1, (shared.addBytes slot).clients = (shared.setClient slot
        { shared.clients slot with counted := (shared.clients slot).counted + k }).clients ∧
      (shared.addBytes slot).clientAdmissionOwnerPid = shared.clientAdmissionOwnerPid ∧
      (shared.addBytes slot).blockedIpOwnerPid = shared.blockedIpOwnerPid := by
  have hsame : shared.clients = (shared.setClient slot
      { shared.clients slot with counted := (shared.clients slot).counted + 0 }).clients :=
    (update_eq_self slot shared.clients).symm
  unfold StatusShared.addBytes
  split
  · split
    · exact ⟨1, Nat.le_refl 1, rfl, rfl, rfl⟩
    · exact ⟨0, Nat.zero_le 1, hsame, rfl, rfl⟩
  · exact ⟨0, Nat.zero_le 1, hsame, rfl, rfl⟩

theorem addBytes_step (h : SharedOk maxclients shared) (hpid : pid ≠ 0)
    (hfresh : Uncounted pid shared slot) :
    Touches pid shared (shared.addBytes slot) ∧ SharedOk maxclients (shared.addBytes slot) ∧
      Held pid (shared.addBytes slot) slot := by
  obtain ⟨⟨hlt, howner, hactive⟩, hcounted⟩ := hfresh
  obtain ⟨k, hk, hclients, hadmission, hblocked⟩ := addBytes_clients shared slot
  have hslot : SlotOk { shared.clients slot with counted := (shared.clients slot).counted + k } := by
    refine ⟨fun _ => hactive, fun hset => ?_, ?_⟩
    · exact absurd (hactive.symm.trans hset) (by decide)
    · show (shared.clients slot).counted + k ≤ 1
      omega
  have htouches : Touches pid shared (shared.setClient slot
      { shared.clients slot with counted := (shared.clients slot).counted + k }) :=
    own_slot howner (.inl howner)
  refine ⟨⟨.inl hadmission, .inl hblocked, fun i => ?_⟩, ?_, hlt, ?_, ?_⟩
  · unfold StatusShared.owner
    rw [hclients]
    exact htouches.clients i
  · exact (h.setClient hpid howner hslot).of_clients hclients
  · unfold StatusShared.owner
    rw [hclients, setClient_self]
    exact howner
  · rw [hclients, setClient_self]
    exact hactive

/-- A step after which a slot of its own is held as before. -/
structure KeepsSlot (maxclients pid slot : ℕ) (before after : StatusShared) : Prop where
  touches : Touches pid before after
  ok : SharedOk maxclients after
  held : Held pid before slot → Held pid after slot
  fresh : Uncounted pid before slot → Uncounted pid after slot

section

variable (h : SharedOk maxclients shared) (hpid : pid ≠ 0)

include h hpid

theorem keep_slot (hown : shared.owner slot = pid)
    (howner : client.ownerPid = (shared.clients slot).ownerPid)
    (hactive : client.active = (shared.clients slot).active)
    (hcounted : client.counted = (shared.clients slot).counted) :
    KeepsSlot maxclients pid slot shared (shared.setClient slot client) := by
  have hslot := h.slots slot
  have hheld : Held pid shared slot → Held pid (shared.setClient slot client) slot := by
    rintro ⟨hlt, -, hidle⟩
    refine ⟨hlt, (congrArg ClientSlot.ownerPid setClient_self).trans (howner.trans hown), ?_⟩
    rw [setClient_self, hactive]
    exact hidle
  refine ⟨own_slot hown (.inl (howner.trans hown)), h.setClient hpid hown ?_, hheld, ?_⟩
  · exact ⟨fun hfree => (by rw [hactive]; exact hslot.free (howner ▸ hfree)),
      fun hset => (by rw [hcounted]; exact hslot.active (hactive ▸ hset)),
      (by rw [hcounted]; exact hslot.counted)⟩
  · rintro ⟨hbefore, hzero⟩
    refine ⟨hheld hbefore, ?_⟩
    rw [setClient_self, hcounted]
    exact hzero

theorem takeActive_step (hlt : slot < statusMaxClients) (howner : shared.owner slot = pid)
    (hactive : (shared.clients slot).active = true) :
    Touches pid shared (shared.takeActive slot) ∧ SharedOk maxclients (shared.takeActive slot) ∧
      Uncounted pid (shared.takeActive slot) slot := by
  have hslot := h.slots slot
  have hcounted := hslot.active hactive
  have hself : (shared.takeActive slot).clients slot =
      { shared.clients slot with active := false } := setClient_self
  refine ⟨own_slot howner (.inl howner), h.setClient hpid howner ?_, ⟨hlt, ?_, ?_⟩, ?_⟩
  · exact ⟨fun _ => rfl, fun hset => (by cases hset), hslot.counted⟩
  · exact (congrArg ClientSlot.ownerPid hself).trans howner
  · rw [hself]
  · rw [hself]
    exact hcounted

theorem publish_step (hfresh : Uncounted pid shared slot) :
    Touches pid shared (shared.setClient slot { shared.clients slot with active := true }) ∧
      SharedOk maxclients (shared.setClient slot { shared.clients slot with active := true }) := by
  obtain ⟨⟨-, howner, -⟩, hcounted⟩ := hfresh
  refine ⟨own_slot howner (.inl howner), h.setClient hpid howner ?_⟩
  exact ⟨fun hfree => absurd (howner.symm.trans hfree) hpid, fun _ => hcounted,
    (h.slots slot).counted⟩

theorem releaseSlot_step (hheld : Held pid shared slot) :
    Touches pid shared (shared.releaseSlot slot) ∧ SharedOk maxclients (shared.releaseSlot slot) ∧
      (shared.releaseSlot slot).owner slot = 0 := by
  obtain ⟨-, howner, hactive⟩ := hheld
  have hslot := h.slots slot
  refine ⟨own_slot howner (.inr rfl), h.setClient hpid howner ?_, ?_⟩
  · exact ⟨fun _ => hactive, hslot.active, hslot.counted⟩
  · exact congrArg ClientSlot.ownerPid setClient_self

end

variable (index) in
theorem workerStep_spec (h : SharedOk maxclients shared) (hpid : pid ≠ 0) {pc : WorkerPc}
    (hpc : pc.Knows maxclients pid shared) :
    Touches pid shared (workerStep maxclients pid index shared pc).2 ∧
      SharedOk maxclients (workerStep maxclients pid index shared pc).2 ∧
      (workerStep maxclients pid index shared pc).1.Knows maxclients pid
        (workerStep maxclients pid index shared pc).2 := by
  cases pc with
  | idle => exact ⟨Touches.refl pid shared, h, trivial⟩
  | lockAdmission =>
    simp only [workerStep]
    split
    · rename_i hfree
      exact ⟨⟨.inr (.inl ⟨hfree, rfl⟩), .inl rfl, fun _ => .inl rfl⟩, h.of_clients rfl,
        rfl, Nat.zero_le _, Nat.le_refl 0⟩
    · exact ⟨Touches.refl pid shared, h, trivial⟩
  | countSlots slot reserved =>
    obtain ⟨hlock, hle, hcount⟩ := hpc
    simp only [workerStep]
    split
    · rename_i hlt
      refine ⟨Touches.refl pid shared, h, hlock, hlt, ?_⟩
      show shared.ownedBelow (slot + 1) ≤ _
      rw [ownedBelow_succ]
      split <;> omega
    · rename_i hend
      have hslot : slot = statusMaxClients := by omega
      split
      · rename_i hroom
        exact ⟨Touches.refl pid shared, h, hlock, hslot ▸ hcount.trans_lt hroom⟩
      · exact ⟨Touches.refl pid shared, h, trivial⟩
  | reserve slot =>
    obtain ⟨hlock, hroom⟩ := hpc
    simp only [workerStep]
    split
    · rename_i hlt
      split
      · rename_i hfree
        exact reserve_slot h hpid hlock hroom hlt hfree
      · exact ⟨Touches.refl pid shared, h, hlock, hroom⟩
    · exact ⟨Touches.refl pid shared, h, trivial⟩
  | unlockAdmission slot =>
    obtain ⟨htouches, hclients⟩ := unlockAdmission_touches pid shared
    refine ⟨htouches, h.of_clients hclients, ?_⟩
    cases slot with
    | none => trivial
    | some slot =>
      show Uncounted pid (shared.unlockAdmission pid) slot
      unfold Uncounted Held StatusShared.owner
      rw [hclients]
      exact hpc
  | resetPayload slot =>
    have hkeep : KeepsSlot maxclients pid slot shared (shared.resetPayload slot) :=
      keep_slot h hpid hpc.1.2.1 rfl rfl rfl
    exact ⟨hkeep.touches, hkeep.ok, hkeep.fresh hpc⟩
  | nextGeneration slot =>
    have hkeep : KeepsSlot maxclients pid slot shared (shared.nextGeneration slot) :=
      keep_slot h hpid hpc.1.2.1 rfl rfl rfl
    refine ⟨hkeep.touches, hkeep.ok, ?_⟩
    simp only [workerStep]
    split
    · exact hkeep.fresh hpc
    · exact hkeep.fresh hpc
  | skipGeneration slot =>
    have hkeep : KeepsSlot maxclients pid slot shared (shared.nextGeneration slot) :=
      keep_slot h hpid hpc.1.2.1 rfl rfl rfl
    exact ⟨hkeep.touches, hkeep.ok, hkeep.fresh hpc⟩
  | fillPayload slot =>
    have hkeep : KeepsSlot maxclients pid slot shared
        (shared.setClient slot { shared.clients slot with workerIndex := some index }) :=
      keep_slot h hpid hpc.1.2.1 rfl rfl rfl
    exact ⟨hkeep.touches, hkeep.ok, hkeep.fresh hpc⟩
  | publish slot =>
    obtain ⟨htouches, hok⟩ := publish_step h hpid hpc
    exact ⟨htouches, hok, trivial⟩
  | checkOwner slot =>
    simp only [workerStep]
    split
    · rename_i howner
      exact ⟨Touches.refl pid shared, h, howner⟩
    · exact ⟨Touches.refl pid shared, h, trivial⟩
  | takeActive slot =>
    obtain ⟨hlt, howner⟩ := hpc
    simp only [workerStep]
    split
    · rename_i hactive
      exact takeActive_step h hpid hlt howner hactive
    · exact ⟨Touches.refl pid shared, h, trivial⟩
  | addBytes slot => exact addBytes_step h hpid hpc
  | clearPayload slot =>
    have hkeep : KeepsSlot maxclients pid slot shared (shared.resetPayload slot) :=
      keep_slot h hpid hpc.2.1 rfl rfl rfl
    exact ⟨hkeep.touches, hkeep.ok, hkeep.held hpc⟩
  | release slot =>
    obtain ⟨htouches, hok, -⟩ := releaseSlot_step h hpid hpc
    exact ⟨htouches, hok, trivial⟩
  | lockBlockedIps job =>
    simp only [workerStep]
    split
    · rename_i hfree
      exact ⟨⟨.inl rfl, .inr (.inl ⟨hfree, rfl⟩), fun _ => .inl rfl⟩, h.of_clients rfl,
        trivial⟩
    · exact ⟨Touches.refl pid shared, h, trivial⟩
  | useBlockedIps job =>
    exact ⟨⟨.inl rfl, .inl rfl, fun _ => .inl rfl⟩, h.of_clients rfl, trivial⟩
  | unlockBlockedIps =>
    obtain ⟨htouches, hclients⟩ := unlockBlockedIps_touches pid shared
    exact ⟨htouches, h.of_clients hclients, trivial⟩

/-- What the supervisor knows after a step; none is the end. -/
def ReapedOrKnows (pid : ℕ) (shared : StatusShared) : Option ReapPc → Prop
  | some pc => pc.Knows pid shared
  | none => (∀ i < statusMaxClients, shared.owner i ≠ pid) ∧ shared.clientAdmissionOwnerPid ≠ pid

theorem below_setClient (hbelow : ∀ i < slot, shared.owner i ≠ pid) (client : ClientSlot) :
    ∀ i < slot, (shared.setClient slot client).owner i ≠ pid := by
  intro i hi
  unfold StatusShared.owner
  rw [setClient_ne (Nat.ne_of_lt hi)]
  exact hbelow i hi

theorem reapStep_spec (h : SharedOk maxclients shared) (hpid : pid ≠ 0) {pc : ReapPc}
    (hpc : pc.Knows pid shared) :
    Touches pid shared (reapStep pid shared pc).2 ∧
      SharedOk maxclients (reapStep pid shared pc).2 ∧
      ReapedOrKnows pid (reapStep pid shared pc).2 (reapStep pid shared pc).1 := by
  cases pc with
  | checkOwner slot =>
    obtain ⟨hle, hbelow⟩ := hpc
    simp only [reapStep]
    split
    · rename_i hlt
      split
      · rename_i howner
        exact ⟨Touches.refl pid shared, h, ⟨hlt, howner⟩, hbelow⟩
      · rename_i howner
        refine ⟨Touches.refl pid shared, h, hlt, fun i hi => ?_⟩
        rcases Nat.lt_succ_iff_lt_or_eq.1 hi with hi | rfl
        · exact hbelow i hi
        · exact howner
    · rename_i hend
      have hslot : slot = statusMaxClients := by omega
      exact ⟨Touches.refl pid shared, h, fun i hi => hbelow i (hslot ▸ hi)⟩
  | takeActive slot =>
    obtain ⟨⟨hlt, howner⟩, hbelow⟩ := hpc
    simp only [reapStep]
    split
    · rename_i hactive
      obtain ⟨htouches, hok, hfresh⟩ := takeActive_step h hpid hlt howner hactive
      exact ⟨htouches, hok, hfresh, below_setClient hbelow _⟩
    · rename_i hactive
      exact ⟨Touches.refl pid shared, h, ⟨hlt, howner, Bool.eq_false_iff.2 hactive⟩, hbelow⟩
  | addBytes slot =>
    obtain ⟨hfresh, hbelow⟩ := hpc
    obtain ⟨htouches, hok, hheld⟩ := addBytes_step h hpid hfresh
    obtain ⟨k, -, hclients, -, -⟩ := addBytes_clients shared slot
    refine ⟨htouches, hok, hheld, fun i hi => ?_⟩
    have hother := below_setClient hbelow
      { shared.clients slot with counted := (shared.clients slot).counted + k } i hi
    show (shared.addBytes slot).owner i ≠ pid
    unfold StatusShared.owner at *
    rwa [hclients]
  | clearPayload slot =>
    obtain ⟨hheld, hbelow⟩ := hpc
    have hkeep : KeepsSlot maxclients pid slot shared (shared.resetPayload slot) :=
      keep_slot h hpid hheld.2.1 rfl rfl rfl
    exact ⟨hkeep.touches, hkeep.ok, hkeep.held hheld, below_setClient hbelow _⟩
  | release slot =>
    obtain ⟨hheld, hbelow⟩ := hpc
    obtain ⟨htouches, hok, hfree⟩ := releaseSlot_step h hpid hheld
    refine ⟨htouches, hok, hheld.1, fun i hi => ?_⟩
    rcases Nat.lt_succ_iff_lt_or_eq.1 hi with hi | rfl
    · exact below_setClient hbelow _ i hi
    · show (shared.releaseSlot i).owner i ≠ pid
      rw [hfree]
      exact hpid.symm
  | unlockAdmission =>
    obtain ⟨htouches, hclients⟩ := unlockAdmission_touches pid shared
    refine ⟨htouches, h.of_clients hclients, fun i hi => ?_, ?_⟩
    · show (shared.unlockAdmission pid).owner i ≠ pid
      unfold StatusShared.owner
      rw [hclients]
      exact hpc i hi
    · show (shared.unlockAdmission pid).clientAdmissionOwnerPid ≠ pid
      unfold StatusShared.unlockAdmission
      split
      · exact hpid.symm
      · assumption

end Own

theorem reapStep_blockedIps (pid : ℕ) (shared : StatusShared) (pc : ReapPc) :
    (reapStep pid shared pc).2.blockedIpOwnerPid = shared.blockedIpOwnerPid := by
  cases pc with
  | checkOwner slot => simp only [reapStep, apply_ite Prod.snd, ite_self]
  | takeActive slot =>
    simp only [reapStep]
    split <;> rfl
  | addBytes slot => exact (addBytes_clients shared slot).choose_spec.2.2.2
  | clearPayload slot => rfl
  | release slot => rfl
  | unlockAdmission =>
    show (shared.unlockAdmission pid).blockedIpOwnerPid = _
    unfold StatusShared.unlockAdmission
    split <;> rfl

/-! ## Runs -/

/-- Nothing in shared memory names the process. -/
structure Unowned (pid : ℕ) (shared : StatusShared) : Prop where
  clients : ∀ slot < statusMaxClients, shared.owner slot ≠ pid
  admission : shared.clientAdmissionOwnerPid ≠ pid
  blockedIps : shared.blockedIpOwnerPid ≠ pid

structure RecoveryInv (maxclients : ℕ) (s : StatusSystem) : Prop where
  shared : SharedOk maxclients s.shared
  present : s.workers 0 = .absent
  running : ∀ pid index pc, s.workers pid = .running index pc →
    pc.Knows maxclients pid s.shared
  absent : ∀ pid, pid ≠ 0 → s.workers pid = .absent → Unowned pid s.shared
  dead : ∀ pid, s.workers pid = .dead → s.shared.blockedIpOwnerPid ≠ pid
  reaping : ∀ pid pc, s.reaping = some (pid, pc) → s.workers pid = .dead ∧ pc.Knows pid s.shared

/-- A worker is not killed while it has the lock of the blocked addresses. -/
def KilledUnlocked (s : StatusSystem) : StatusEvent → Prop
  | .kill pid => s.shared.blockedIpOwnerPid ≠ pid
  | _ => True

instance KilledUnlocked.decidable (s : StatusSystem) : ∀ e, Decidable (KilledUnlocked s e)
  | .kill _ => inferInstanceAs (Decidable (_ ≠ _))
  | .fork _ _ => inferInstanceAs (Decidable True)
  | .call _ _ => inferInstanceAs (Decidable True)
  | .step _ => inferInstanceAs (Decidable True)
  | .count _ _ _ => inferInstanceAs (Decidable True)
  | .reap _ => inferInstanceAs (Decidable True)
  | .supervise => inferInstanceAs (Decidable True)

theorem recoveryInv_init (maxclients : ℕ) : RecoveryInv maxclients statusSystemInit where
  shared := by
    refine ⟨fun slot => ⟨fun _ => rfl, fun h => (by cases h), Nat.zero_le 1⟩, ?_⟩
    have hzero : statusSystemInit.shared.ownedBelow statusMaxClients = 0 := by
      unfold StatusShared.ownedBelow
      rw [countP_eq_zero]
      intro i _
      exact Bool.not_eq_true _ ▸ decide_eq_false (not_not.2 rfl)
    rw [hzero]
    exact Nat.zero_le _
  present := rfl
  running _ _ _ h := by cases h
  absent pid hpid _ := ⟨fun _ _ => hpid.symm, hpid.symm, hpid.symm⟩
  dead _ h := by cases h
  reaping _ _ h := by cases h

section Runs

variable {maxclients : ℕ} {s : StatusSystem}

variable {after : StatusShared}

theorem Unowned.touches {p q : ℕ} {before : StatusShared} (h : Unowned q before)
    (ht : Touches p before after) (hne : q ≠ p) (hq : q ≠ 0) : Unowned q after :=
  ⟨fun slot hslot => ht.owner_ne hne hq (h.clients slot hslot),
    fun hlock => h.admission ((ht.admission_iff hne hq).1 hlock),
    fun hlock => h.blockedIps ((ht.blockedIps_iff hne hq).1 hlock)⟩

theorem RecoveryInv.pid_ne (h : RecoveryInv maxclients s) {pid : ℕ}
    (hworker : s.workers pid ≠ .absent) : pid ≠ 0 := fun hzero => hworker (hzero ▸ h.present)

/-- What a step of the process `p` leaves of the invariant for the others. -/
structure OthersKeep (maxclients p : ℕ) (s : StatusSystem) (after : StatusShared) : Prop where
  running : ∀ q index pc, q ≠ p → s.workers q = .running index pc → pc.Knows maxclients q after
  absent : ∀ q, q ≠ p → q ≠ 0 → s.workers q = .absent → Unowned q after
  dead : ∀ q, q ≠ p → s.workers q = .dead → after.blockedIpOwnerPid ≠ q
  reaping : ∀ q pc, q ≠ p → s.reaping = some (q, pc) → s.workers q = .dead ∧ pc.Knows q after

theorem RecoveryInv.others (h : RecoveryInv maxclients s) {p : ℕ} (ht : Touches p s.shared after) :
    OthersKeep maxclients p s after where
  running q index pc hne hq :=
    ht.workerKnows hne (h.pid_ne (by rw [hq]; simp)) (h.running q index pc hq)
  absent q hne hzero hq := (h.absent q hzero hq).touches ht hne hzero
  dead q hne hq hlock := h.dead q hq
    ((ht.blockedIps_iff hne (h.pid_ne (by rw [hq]; simp))).1 hlock)
  reaping q pc hne hq := by
    obtain ⟨hdead, hpc⟩ := h.reaping q pc hq
    exact ⟨hdead, ht.reapKnows hne (h.pid_ne (by rw [hdead]; simp)) hpc⟩

theorem setWorker_self (s : StatusSystem) (pid : ℕ) (worker : WorkerState) :
    (s.setWorker pid worker).workers pid = worker := update_self _ _ _

theorem setWorker_ne {q pid : ℕ} (h : q ≠ pid) (worker : WorkerState) :
    (s.setWorker pid worker).workers q = s.workers q := update_of_ne h _ _

section

variable (h : RecoveryInv maxclients s)

include h

theorem RecoveryInv.goOn {pid index : ℕ} {pc pc' : WorkerPc}
    (hrunning : s.workers pid = .running index pc) (ht : Touches pid s.shared after)
    (hok : SharedOk maxclients after) (hpc : pc'.Knows maxclients pid after) :
    RecoveryInv maxclients { s.setWorker pid (.running index pc') with shared := after } := by
  have hothers := h.others ht
  have hpid : pid ≠ 0 := h.pid_ne (by rw [hrunning]; simp)
  have hself := setWorker_self s pid (.running index pc')
  have hne : ∀ q, q ≠ pid →
      (s.setWorker pid (.running index pc')).workers q = s.workers q :=
    fun q hq => setWorker_ne hq _
  refine ⟨hok, (hne 0 hpid.symm).trans h.present, fun q i c hq => ?_, fun q hzero hq => ?_,
    fun q hq => ?_, fun q c hq => ?_⟩
  · by_cases heq : q = pid
    · rw [heq] at hq ⊢
      cases hself.symm.trans hq
      exact hpc
    · exact hothers.running q i c heq ((hne q heq).symm.trans hq)
  · have heq : q ≠ pid := fun heq => by
      rw [heq] at hq
      cases hself.symm.trans hq
    exact hothers.absent q heq hzero ((hne q heq).symm.trans hq)
  · have heq : q ≠ pid := fun heq => by
      rw [heq] at hq
      cases hself.symm.trans hq
    exact hothers.dead q heq ((hne q heq).symm.trans hq)
  · have heq : q ≠ pid := fun heq => by
      have hdead := (h.reaping q c hq).1
      rw [heq, hrunning] at hdead
      cases hdead
    obtain ⟨hdead, hc⟩ := hothers.reaping q c heq hq
    exact ⟨(hne q heq).trans hdead, hc⟩

theorem stepWorker_inv (pid : ℕ) : RecoveryInv maxclients (stepWorker s maxclients pid) := by
  unfold stepWorker
  split
  · rename_i index pc hrunning
    have hpid : pid ≠ 0 := h.pid_ne (by rw [hrunning]; simp)
    obtain ⟨ht, hok, hpc⟩ :=
      workerStep_spec index h.shared hpid (h.running pid index pc hrunning)
    exact h.goOn hrunning ht hok hpc
  · exact h

theorem updateClientBytes_inv (pid slot bytes : ℕ) :
    RecoveryInv maxclients (updateClientBytes s pid slot bytes) := by
  unfold updateClientBytes
  split
  · rename_i index hrunning
    split
    · rename_i howner
      have hpid : pid ≠ 0 := h.pid_ne (by rw [hrunning]; simp)
      have hkeep : KeepsSlot maxclients pid slot s.shared
          (s.shared.setClient slot { s.shared.clients slot with bytesSent := bytes }) :=
        keep_slot h.shared hpid howner.2.1 rfl rfl rfl
      have hsame : s.setWorker pid (.running index .idle) = s := by
        unfold StatusSystem.setWorker
        rw [← hrunning, update_eq_self]
      have hgo : RecoveryInv maxclients { s.setWorker pid (.running index .idle) with
          shared := s.shared.setClient slot { s.shared.clients slot with bytesSent := bytes } } :=
        h.goOn hrunning hkeep.touches hkeep.ok trivial
      rwa [hsame] at hgo
    · exact h
  · exact h

theorem superviseStep_inv : RecoveryInv maxclients (superviseStep s) := by
  unfold superviseStep
  split
  · rename_i pid pc hreaping
    obtain ⟨hdead, hpc⟩ := h.reaping pid pc hreaping
    have hpid : pid ≠ 0 := h.pid_ne (by rw [hdead]; simp)
    obtain ⟨ht, hok, hresult⟩ := reapStep_spec h.shared hpid hpc
    have hothers := h.others ht
    -- the supervisor never takes the lock of the blocked addresses
    have hblocked : (reapStep pid s.shared pc).2.blockedIpOwnerPid = s.shared.blockedIpOwnerPid :=
      reapStep_blockedIps pid s.shared pc
    have hunlocked : (reapStep pid s.shared pc).2.blockedIpOwnerPid ≠ pid := by
      rw [hblocked]
      exact h.dead pid hdead
    generalize reapStep pid s.shared pc = result at *
    obtain ⟨_ | pc', after⟩ := result
    · have hself := setWorker_self s pid .absent
      have hne : ∀ q, q ≠ pid → (s.setWorker pid .absent).workers q = s.workers q :=
        fun q hq => setWorker_ne hq _
      refine ⟨hok, (hne 0 hpid.symm).trans h.present, fun q i c hq => ?_, fun q hzero hq => ?_,
        fun q hq => ?_, fun q c hq => by cases hq⟩
      · have heq : q ≠ pid := fun heq => by
          rw [heq] at hq
          cases hself.symm.trans hq
        exact hothers.running q i c heq ((hne q heq).symm.trans hq)
      · by_cases heq : q = pid
        · rw [heq]
          exact ⟨hresult.1, hresult.2, hunlocked⟩
        · exact hothers.absent q heq hzero ((hne q heq).symm.trans hq)
      · have heq : q ≠ pid := fun heq => by
          rw [heq] at hq
          cases hself.symm.trans hq
        exact hothers.dead q heq ((hne q heq).symm.trans hq)
    · refine ⟨hok, h.present, fun q i c hq => ?_, fun q hzero hq => ?_, fun q hq => ?_,
        fun q c hq => ?_⟩
      · exact hothers.running q i c (fun heq => by rw [heq, hdead] at hq; cases hq) hq
      · exact hothers.absent q (fun heq => by rw [heq, hdead] at hq; cases hq) hzero hq
      · by_cases heq : q = pid
        · rw [heq]
          exact hunlocked
        · exact hothers.dead q heq hq
      · cases hq
        exact ⟨hdead, hresult⟩
  · exact h

theorem RecoveryInv.setWorker {pid : ℕ} {worker : WorkerState} (hpid : pid ≠ 0)
    (halive : s.workers pid ≠ .dead) (hworker : worker ≠ .absent)
    (hrunning : ∀ index pc, worker = .running index pc → pc.Knows maxclients pid s.shared)
    (hdead : worker = .dead → s.shared.blockedIpOwnerPid ≠ pid) :
    RecoveryInv maxclients (s.setWorker pid worker) := by
  have hself := setWorker_self s pid worker
  have hne : ∀ q, q ≠ pid → (s.setWorker pid worker).workers q = s.workers q :=
    fun q hq => setWorker_ne hq _
  refine ⟨h.shared, (hne 0 hpid.symm).trans h.present, fun q i c hq => ?_, fun q hzero hq => ?_,
    fun q hq => ?_, fun q c hq => ?_⟩
  · by_cases heq : q = pid
    · rw [heq] at hq ⊢
      exact hrunning i c (hself.symm.trans hq)
    · exact h.running q i c ((hne q heq).symm.trans hq)
  · have heq : q ≠ pid := fun heq => by
      rw [heq] at hq
      exact hworker (hself.symm.trans hq)
    exact h.absent q hzero ((hne q heq).symm.trans hq)
  · by_cases heq : q = pid
    · rw [heq] at hq ⊢
      exact hdead (hself.symm.trans hq)
    · exact h.dead q ((hne q heq).symm.trans hq)
  · obtain ⟨hdeadq, hc⟩ := h.reaping q c hq
    have heq : q ≠ pid := fun heq => halive (heq ▸ hdeadq)
    exact ⟨(hne q heq).trans hdeadq, hc⟩

theorem statusStep_inv (e : StatusEvent) (hok : KilledUnlocked s e) :
    RecoveryInv maxclients (statusStep s maxclients e) := by
  cases e with
  | fork pid index =>
    simp only [statusStep]
    split
    · rename_i hfork
      refine h.setWorker hfork.1 (by rw [hfork.2]; simp) (by simp) (fun i c heq => ?_)
        (fun heq => by cases heq)
      cases heq
      trivial
    · exact h
  | call pid op =>
    simp only [statusStep]
    split
    · rename_i index hrunning
      have hpid : pid ≠ 0 := h.pid_ne (by rw [hrunning]; simp)
      refine h.setWorker hpid (by rw [hrunning]; simp) (by simp) (fun i c heq => ?_)
        (fun heq => by cases heq)
      cases heq
      cases op <;> trivial
    · exact h
  | step pid => exact stepWorker_inv h pid
  | count pid slot bytes => exact updateClientBytes_inv h pid slot bytes
  | kill pid =>
    simp only [statusStep]
    split
    · rename_i index pc hrunning
      have hpid : pid ≠ 0 := h.pid_ne (by rw [hrunning]; simp)
      exact h.setWorker hpid (by rw [hrunning]; simp) (by simp) (fun i c heq => by cases heq)
        (fun _ => hok)
    · exact h
  | reap pid =>
    simp only [statusStep]
    split
    · rename_i hreap
      refine ⟨h.shared, h.present, h.running, h.absent, h.dead, fun q c hq => ?_⟩
      cases hq
      exact ⟨hreap.2, Nat.zero_le _, fun i hi => absurd hi (Nat.not_lt_zero i)⟩
    · exact h
  | supervise => exact superviseStep_inv h

end

/-- Unless a worker is killed while it has the lock of the blocked addresses: no slot and no lock
is owned by a process that is gone, the slots stay within their limit, and the bytes of each
client are counted once at most. -/
theorem nothing_orphaned (maxclients : ℕ) (es : List StatusEvent)
    (hok : Along (statusStep · maxclients) KilledUnlocked statusSystemInit es) :
    let s := run (statusStep · maxclients) statusSystemInit es
    (∀ pid, pid ≠ 0 → s.workers pid = .absent → Unowned pid s.shared) ∧
      s.shared.ownedBelow statusMaxClients ≤ maxclients ∧
      ∀ slot, (s.shared.clients slot).counted ≤ 1 := by
  have hinv : RecoveryInv maxclients (run (statusStep · maxclients) statusSystemInit es) :=
    run_invariant (I := RecoveryInv maxclients) (fun s e h hok => statusStep_inv h e hok)
      (recoveryInv_init maxclients) hok
  exact ⟨hinv.absent, hinv.shared.capacity, fun slot => (hinv.shared.slots slot).counted⟩

end Runs

/-- A worker that dies while it counts the slots. -/
theorem nothing_orphaned_counting :
    let s := run (statusStep · 1) statusSystemInit
      [.fork 7 0, .call 7 .register, .step 7, .step 7, .kill 7, .reap 7, .supervise]
    (∀ pid, pid ≠ 0 → s.workers pid = .absent → Unowned pid s.shared) ∧
      s.shared.ownedBelow statusMaxClients ≤ 1 ∧ ∀ slot, (s.shared.clients slot).counted ≤ 1 :=
  nothing_orphaned 1 [.fork 7 0, .call 7 .register, .step 7, .step 7, .kill 7, .reap 7, .supervise]
    (by decide +kernel)

/-- The worker takes the lock of the blocked addresses and dies, and the supervisor reaps it. -/
def blockedLockRun : List StatusEvent :=
  [.fork 7 0, .call 7 (.ip (.check (ascii "192.0.2.1") 0)), .step 7, .kill 7, .reap 7] ++
    List.replicate (statusMaxClients + 2) .supervise

theorem blocked_lock_orphaned :
    let s := run (statusStep · 1) statusSystemInit blockedLockRun
    s.workers 7 = .absent ∧ s.reaping = none ∧ s.shared.blockedIpOwnerPid = 7 := by
  decide +kernel

/-! ## Runs with any deaths -/

/-- The slot that a worker holds, or is about to take back. -/
def WorkerPc.slotInHand : WorkerPc → Option ℕ
  | .unlockAdmission slot => slot
  | .resetPayload slot | .nextGeneration slot | .skipGeneration slot | .fillPayload slot
  | .publish slot | .takeActive slot | .addBytes slot | .clearPayload slot | .release slot =>
    some slot
  | _ => none

def ReapPc.slotInHand : ReapPc → Option ℕ
  | .takeActive slot | .addBytes slot | .clearPayload slot | .release slot => some slot
  | _ => none

/-- The worker counts or reserves slots. -/
def WorkerPc.Admits : WorkerPc → Prop
  | .countSlots _ _ | .reserve _ => True
  | _ => False

/-- The process, or the supervisor for it, works on the slot. -/
def StatusSystem.WorksOn (s : StatusSystem) (pid slot : ℕ) : Prop :=
  (∃ index pc, s.workers pid = .running index pc ∧ pc.slotInHand = some slot) ∨
    ∃ pc, s.reaping = some (pid, pc) ∧ pc.slotInHand = some slot

/-- Nobody has the lock of the blocked addresses. -/
def StatusShared.withoutIpLock (shared : StatusShared) : StatusShared :=
  { shared with blockedIpOwnerPid := 0 }

def StatusSystem.withoutIpLock (s : StatusSystem) : StatusSystem :=
  { s with shared := s.shared.withoutIpLock }

@[simp] theorem clients_withoutIpLock (shared : StatusShared) :
    shared.withoutIpLock.clients = shared.clients := rfl

@[simp] theorem owner_withoutIpLock (shared : StatusShared) (slot : ℕ) :
    shared.withoutIpLock.owner slot = shared.owner slot := rfl

theorem knows_withoutIpLock {maxclients pid : ℕ} {shared : StatusShared} (pc : WorkerPc) :
    pc.Knows maxclients pid shared.withoutIpLock ↔ pc.Knows maxclients pid shared := by
  cases pc with
  | unlockAdmission slot => cases slot <;> exact Iff.rfl
  | _ => exact Iff.rfl

theorem WorkerPc.Knows.owner {maxclients pid slot : ℕ} {shared : StatusShared} {pc : WorkerPc}
    (h : pc.Knows maxclients pid shared) (hslot : pc.slotInHand = some slot) :
    shared.owner slot = pid := by
  cases pc <;> cases hslot
  case takeActive => exact h.2
  case clearPayload => exact h.2.1
  case release => exact h.2.1
  all_goals exact h.1.2.1

theorem ReapPc.Knows.owner {pid slot : ℕ} {shared : StatusShared} {pc : ReapPc}
    (h : pc.Knows pid shared) (hslot : pc.slotInHand = some slot) : shared.owner slot = pid := by
  cases pc <;> cases hslot
  case takeActive => exact h.1.2
  case addBytes => exact h.1.1.2.1
  all_goals exact h.1.2.1

theorem reapStep_withoutIpLock (pid : ℕ) (shared : StatusShared) (pc : ReapPc) :
    reapStep pid shared.withoutIpLock pc =
      ((reapStep pid shared pc).1, (reapStep pid shared pc).2.withoutIpLock) := by
  cases pc with
  | checkOwner slot =>
    by_cases hlt : slot < statusMaxClients <;> by_cases howner : shared.owner slot = pid <;>
      simp [reapStep, hlt, howner]
  | takeActive slot =>
    cases hactive : (shared.clients slot).active with
    | false => simp [reapStep, hactive]
    | true =>
      simp [reapStep, hactive]
      rfl
  | addBytes slot =>
    simp only [reapStep, StatusShared.addBytes, clients_withoutIpLock]
    split
    · split <;> rfl
    · rfl
  | clearPayload slot => rfl
  | release slot => rfl
  | unlockAdmission =>
    show (none, shared.withoutIpLock.unlockAdmission pid) = _
    simp only [reapStep, StatusShared.unlockAdmission, Prod.mk.injEq, true_and]
    show (if shared.clientAdmissionOwnerPid = pid then _ else _) = _
    split <;> rfl

section AnyDeaths

variable {maxclients : ℕ} {s : StatusSystem}

/-- Only the steps of workers see that lock. -/
theorem statusStep_withoutIpLock (e : StatusEvent) : (∃ pid, e = .step pid) ∨
    (statusStep s maxclients e).withoutIpLock = statusStep s.withoutIpLock maxclients e := by
  have hworkers : s.withoutIpLock.workers = s.workers := rfl
  cases e with
  | step pid => exact .inl ⟨pid, rfl⟩
  | fork pid _ | reap pid => exact .inr (apply_ite StatusSystem.withoutIpLock _ _ _)
  | call pid _ | kill pid =>
    refine .inr ?_
    simp only [statusStep, hworkers]
    split <;> rfl
  | count pid slot bytes =>
    refine .inr ?_
    simp only [statusStep, updateClientBytes, hworkers]
    split
    · exact apply_ite StatusSystem.withoutIpLock _ _ _
    · rfl
  | supervise =>
    have hreaping : s.withoutIpLock.reaping = s.reaping := rfl
    have hshared : s.withoutIpLock.shared = s.shared.withoutIpLock := rfl
    refine .inr ?_
    simp only [statusStep, superviseStep, hreaping, hshared, reapStep_withoutIpLock]
    split
    · generalize reapStep _ s.shared _ = result
      obtain ⟨_ | pc, after⟩ := result <;> rfl
    · rfl

variable (h : RecoveryInv maxclients s.withoutIpLock)

include h

/-- What a worker does is as right without that lock, which no invariant needs. -/
theorem stepWorker_withoutIpLock (pid : ℕ) :
    RecoveryInv maxclients (stepWorker s maxclients pid).withoutIpLock := by
  unfold stepWorker
  split
  · rename_i index pc hrunning
    have hworker : s.withoutIpLock.workers pid = .running index pc := hrunning
    have hpid : pid ≠ 0 := h.pid_ne (by simp [hworker])
    have hpc := (knows_withoutIpLock pc).1 (h.running pid index pc hrunning)
    have hshared : SharedOk maxclients s.shared := h.shared.of_clients rfl
    obtain ⟨ht, hok, hpc'⟩ := workerStep_spec index hshared hpid hpc
    generalize workerStep maxclients pid index s.shared pc = next at ht hok hpc' ⊢
    have htouches : Touches pid s.withoutIpLock.shared next.2.withoutIpLock :=
      ⟨ht.admission, .inl rfl, ht.clients⟩
    exact h.goOn hworker htouches (hok.of_clients rfl) ((knows_withoutIpLock _).2 hpc')
  · exact h

theorem statusStep_anyDeaths (e : StatusEvent) :
    RecoveryInv maxclients (statusStep s maxclients e).withoutIpLock := by
  rcases statusStep_withoutIpLock e with ⟨pid, rfl⟩ | heq
  · exact stepWorker_withoutIpLock h pid
  rw [heq]
  cases e with
  | kill pid =>
    by_cases hpid : pid = 0
    · have habsent : s.withoutIpLock.workers pid = .absent := by
        by_contra hne
        exact h.pid_ne hne hpid
      rw [statusStep, habsent]
      exact h
    · exact statusStep_inv h _ (Ne.symm hpid)
  | _ => exact statusStep_inv h _ trivial

end AnyDeaths

/-- **Wherever workers are killed**, in every interleaving: each slot is worked on by one process at
    most, its owner; one worker at a time counts and reserves slots, with the admission lock; there
    are at most `maxclients` clients, the bytes of each are counted once at most, and a worker that
    has been reaped has nothing any more. -/
theorem slots_exclusive (maxclients : ℕ) (es : List StatusEvent) :
    let s := run (statusStep · maxclients) statusSystemInit es
    (∀ p q slot, s.WorksOn p slot → s.WorksOn q slot → p = q ∧ s.shared.owner slot = p) ∧
      (∀ p index pc, s.workers p = .running index pc → pc.Admits →
        s.shared.clientAdmissionOwnerPid = p) ∧
      s.shared.ownedBelow statusMaxClients ≤ maxclients ∧
      (∀ slot, (s.shared.clients slot).counted ≤ 1) ∧
      ∀ p, p ≠ 0 → s.workers p = .absent →
        (∀ slot < statusMaxClients, s.shared.owner slot ≠ p) ∧
          s.shared.clientAdmissionOwnerPid ≠ p := by
  intro s
  have h : RecoveryInv maxclients s.withoutIpLock :=
    run_always (I := fun s : StatusSystem => RecoveryInv maxclients s.withoutIpLock)
      (fun _ e h => statusStep_anyDeaths h e)
      (show RecoveryInv maxclients statusSystemInit.withoutIpLock from recoveryInv_init maxclients)
      es
  have howner : ∀ p slot, s.WorksOn p slot → s.shared.owner slot = p := by
    rintro p slot (⟨index, pc, hrunning, hslot⟩ | ⟨pc, hreaping, hslot⟩)
    · exact ((knows_withoutIpLock pc).1 (h.running p index pc hrunning)).owner hslot
    · exact (h.reaping p pc hreaping).2.owner hslot
  refine ⟨fun p q slot hp hq =>
      ⟨(howner p slot hp).symm.trans (howner q slot hq), howner p slot hp⟩,
    fun p index pc hrunning hadmits => ?_, h.shared.capacity,
    fun slot => (h.shared.slots slot).counted,
    fun p hp habsent => ⟨(h.absent p hp habsent).clients, (h.absent p hp habsent).admission⟩⟩
  have hknows := h.running p index pc hrunning
  cases pc <;> cases hadmits
  · exact hknows.1
  · exact hknows.1

end Apackage.Rtp2httpd
