import Apackage.Lib.Run
import Apackage.Rtp2httpd.Supervisor.Workers

/-
  Which workers the supervisor keeps running.

  `Tracked` holds in every iteration: the pids are those of the children, one for each index,
  and only desired indices are started. A worker is forgotten when it neither runs nor waits
  for its rate limit: that is when a `fork` for it has failed.
-/

namespace Apackage.Rtp2httpd.Supervisor

open Function List Lib.Run

structure Tracked (s : SupervisorState) : Prop where
  pids : ∀ i p, (p, i) ∈ s.children ↔ 0 < p ∧ (s.workers i).pid = p
  nodup : (s.children.map Prod.fst).Nodup
  retiring : ∀ i, (s.workers i).retiring = true → s.desiredWorkers ≤ i.val
  limited : ∀ i, (s.workers i).rateLimited = true → i.val < s.desiredWorkers ∧ (s.workers i).pid = 0
  below : ∀ p ∈ s.started, p.1.val < p.2

/-- The worker does not run, and no later iteration starts it again. -/
def Forgotten (s : SupervisorState) (i : Index) : Prop :=
  (s.workers i).pid = 0 ∧ ¬((s.workers i).rateLimited = true ∧ (s.workers i).retiring = false)
  deriving Decidable

/-! ## One worker -/

@[simp] theorem setWorker_self (i : Index) (w : WorkerInfo) (s : SupervisorState) :
    (s.setWorker i w).workers i = w := update_self _ _ _

theorem setWorker_of_ne {i j : Index} (h : j ≠ i) (w : WorkerInfo) (s : SupervisorState) :
    (s.setWorker i w).workers j = s.workers j := update_of_ne h _ _

@[simp] theorem setWorker_children (i : Index) (w : WorkerInfo) (s : SupervisorState) :
    (s.setWorker i w).children = s.children := rfl

variable {s : SupervisorState} {i : Index}

theorem Tracked.setWorker (hs : Tracked s) {w : WorkerInfo} (hpid : w.pid = (s.workers i).pid)
    (hretiring : w.retiring = true → s.desiredWorkers ≤ i.val)
    (hlimited : w.rateLimited = true → i.val < s.desiredWorkers ∧ w.pid = 0) :
    Tracked (s.setWorker i w) where
  pids := by
    intro j p
    rw [setWorker_children, hs.pids]
    by_cases hj : j = i
    · rw [hj, setWorker_self, hpid]
    · rw [setWorker_of_ne hj]
  nodup := hs.nodup
  retiring := by
    intro j
    by_cases hj : j = i
    · rw [hj, setWorker_self]
      exact hretiring
    · rw [setWorker_of_ne hj]
      exact hs.retiring j
  limited := by
    intro j
    by_cases hj : j = i
    · rw [hj, setWorker_self]
      exact hlimited
    · rw [setWorker_of_ne hj]
      exact hs.limited j
  below := hs.below

theorem le_foldr_max {p : ℕ} {ps : List ℕ} (h : p ∈ ps) : p ≤ ps.foldr max 0 := by
  induction ps with
  | nil => cases h
  | cons q ps ih =>
    rw [foldr_cons]
    rcases List.mem_cons.1 h with rfl | h
    · exact Nat.le_max_left _ _
    · exact Nat.le_trans (ih h) (Nat.le_max_right _ _)

theorem newPid_fresh (candidate : ℕ) (children : List (ℕ × Index)) :
    0 < newPid candidate children ∧ ∀ c ∈ children, c.1 ≠ newPid candidate children := by
  unfold newPid
  split
  · assumption
  · refine ⟨Nat.succ_pos _, fun c hc heq => ?_⟩
    have hle := le_foldr_max (List.mem_map_of_mem (f := Prod.fst) hc)
    omega

theorem Tracked.spawn (hs : Tracked s) (fork : Option ℕ) (hpid : (s.workers i).pid = 0)
    (hlimited : (s.workers i).rateLimited = false) (hdesired : i.val < s.desiredWorkers) :
    Tracked (spawnWorker fork i s) := by
  unfold spawnWorker
  cases fork with
  | none => exact hs
  | some candidate =>
    obtain ⟨hpos, hfresh⟩ := newPid_fresh candidate s.children
    dsimp only
    generalize newPid candidate s.children = pid at hpos hfresh ⊢
    exact
      { pids := by
          intro j p
          rw [List.mem_cons, hs.pids, Prod.mk.injEq]
          by_cases hj : j = i
          · subst hj
            rw [setWorker_self, hpid]
            constructor
            · rintro (⟨rfl, -⟩ | ⟨hp, rfl⟩)
              · exact ⟨hpos, rfl⟩
              · exact absurd hp (Nat.lt_irrefl 0)
            · tauto
          · rw [setWorker_of_ne hj]
            exact ⟨fun h => h.resolve_left fun hand => hj hand.2, .inr⟩
        nodup := by
          refine nodup_cons.2 ⟨fun hmem => ?_, hs.nodup⟩
          obtain ⟨c, hc, heq⟩ := List.mem_map.1 hmem
          exact hfresh c hc heq
        retiring := by
          intro j
          by_cases hj : j = i
          · rw [hj, setWorker_self]
            exact nofun
          · rw [setWorker_of_ne hj]
            exact hs.retiring j
        limited := by
          intro j
          by_cases hj : j = i
          · rw [hj, setWorker_self]
            exact fun h => absurd (hlimited.symm.trans h) (by decide)
          · rw [setWorker_of_ne hj]
            exact hs.limited j
        below := by
          intro p hp
          rcases mem_append.1 hp with hp | hp
          · exact hs.below p hp
          · rw [mem_singleton.1 hp]
            exact hdesired }

theorem Tracked.restart (hs : Tracked s) (r : Restart) (hpid : (s.workers i).pid = 0)
    (hdesired : i.val < s.desiredWorkers) : Tracked (restartWorker r i s) := by
  have hset := hs.setWorker (i := i)
    (w := { recordRestart r.recorded (s.workers i) with rateLimited := false }) rfl
    (hs.retiring i) nofun
  refine hset.spawn r.fork ?_ ?_ hdesired
  · rw [setWorker_self]
    exact hpid
  · rw [setWorker_self]

variable (fork : Option ℕ)

theorem spawn_desired (i : Index) (s : SupervisorState) :
    (spawnWorker fork i s).desiredWorkers = s.desiredWorkers := by
  cases fork <;> rfl

theorem spawn_of_ne {i j : Index} (h : j ≠ i) (s : SupervisorState) :
    (spawnWorker fork i s).workers j = s.workers j := by
  cases fork with
  | none => rfl
  | some candidate => exact setWorker_of_ne h _ s

theorem forgotten_spawn (i : Index) (s : SupervisorState) :
    Forgotten (spawnWorker fork i s) i ↔ fork = none ∧ Forgotten s i := by
  unfold spawnWorker
  cases fork with
  | none => exact ⟨fun h => ⟨rfl, h⟩, fun h => h.2⟩
  | some candidate =>
    refine ⟨fun h => ?_, fun h => nomatch h.1⟩
    have hpid : newPid candidate s.children = 0 := by
      have hzero := h.1
      rw [setWorker_self] at hzero
      exact hzero
    have hpos := (newPid_fresh candidate s.children).1
    omega

variable (r : Restart)

theorem restart_desired (i : Index) (s : SupervisorState) :
    (restartWorker r i s).desiredWorkers = s.desiredWorkers := spawn_desired _ _ _

theorem restart_of_ne {i j : Index} (h : j ≠ i) (s : SupervisorState) :
    (restartWorker r i s).workers j = s.workers j := by
  unfold restartWorker
  rw [spawn_of_ne _ h, setWorker_of_ne h]

theorem forgotten_restart (hpid : (s.workers i).pid = 0) :
    Forgotten (restartWorker r i s) i ↔ r.fork = none := by
  unfold restartWorker
  rw [forgotten_spawn]
  refine and_iff_left ⟨?_, ?_⟩
  · rw [setWorker_self]
    exact hpid
  · rw [setWorker_self]
    exact fun h => nomatch h.1

theorem forgotten_congr {s t : SupervisorState} (h : s.workers i = t.workers i) :
    Forgotten s i ↔ Forgotten t i := by
  unfold Forgotten
  rw [h]

/-! ## An exit -/

/-- The fork for a worker that has exited fails. -/
def LostAtExit (s : SupervisorState) (e : Exit) (i : Index) : Prop :=
  (e.pid, i) ∈ s.children ∧ i.val < s.desiredWorkers ∧ (s.workers i).retiring = false ∧
    restartAllowed e.restart.checked (s.workers i) = true ∧ e.restart.fork = none
  deriving Decidable

theorem Tracked.unique (hs : Tracked s) {p : ℕ} {i j : Index} (hi : (p, i) ∈ s.children)
    (hj : (p, j) ∈ s.children) : i = j := by
  have hinj := inj_on_of_nodup_map hs.nodup hi hj rfl
  exact (Prod.mk.inj hinj).2

theorem find_child (hs : Tracked s) {p : ℕ} (hi : (p, i) ∈ s.children) :
    findWorkerByPid p s = some i := by
  have hp := (hs.pids i p).1 hi
  unfold findWorkerByPid
  cases hfind : (List.finRange statusMaxWorkers).find? fun i => (s.workers i).pid = p with
  | none =>
    have hnone := find?_eq_none.1 hfind i (mem_finRange i)
    exact absurd hp.2 (by simpa using hnone)
  | some j =>
    have hj : (s.workers j).pid = p := by simpa using find?_some hfind
    rw [hs.unique hi ((hs.pids j p).2 ⟨hp.1, hj⟩)]

/-- The worker whose process has been waited for. -/
def waitedFor (e : Exit) (i : Index) (s : SupervisorState) : SupervisorState :=
  { s with children := s.children.filter fun c => c.1 ≠ e.pid }.setWorker i
    { s.workers i with pid := 0 }

theorem Tracked.released (hs : Tracked s) {e : Exit} (hi : (e.pid, i) ∈ s.children) :
    Tracked (waitedFor e i s) := by
  have hp := (hs.pids i e.pid).1 hi
  exact
    { pids := by
        intro j p
        show (p, j) ∈ s.children.filter _ ↔ 0 < p ∧ ((s.setWorker i _).workers j).pid = p
        rw [mem_filter, hs.pids]
        by_cases hj : j = i
        · subst hj
          rw [setWorker_self]
          constructor
          · rintro ⟨⟨hpos, rfl⟩, hne⟩
            exact absurd hp.2 (by simpa using hne)
          · rintro ⟨hpos, rfl⟩
            exact absurd hpos (Nat.lt_irrefl 0)
        · rw [setWorker_of_ne hj]
          refine and_iff_left_of_imp fun hand => ?_
          have hne : p ≠ e.pid := by
            rintro rfl
            exact hj (hs.unique ((hs.pids j _).2 hand) hi)
          simpa using hne
      nodup := hs.nodup.sublist (filter_sublist.map _)
      retiring := by
        intro j
        show ((s.setWorker i _).workers j).retiring = true → _
        by_cases hj : j = i
        · rw [hj, setWorker_self]
          exact hs.retiring i
        · rw [setWorker_of_ne hj]
          exact hs.retiring j
      limited := by
        intro j
        show ((s.setWorker i _).workers j).rateLimited = true →
          _ ∧ ((s.setWorker i _).workers j).pid = 0
        by_cases hj : j = i
        · rw [hj, setWorker_self]
          exact fun h => ⟨(hs.limited i h).1, rfl⟩
        · rw [setWorker_of_ne hj]
          exact hs.limited j
      below := hs.below }

/-- The worker that is rate limited after its exit. -/
def limited (e : Exit) (i : Index) (s : SupervisorState) : SupervisorState :=
  (waitedFor e i s).setWorker i { (waitedFor e i s).workers i with rateLimited := true }

section

variable (hs : Tracked s) (e : Exit)

include hs e

theorem reap_cases : ((∀ i, (e.pid, i) ∉ s.children) ∧ reapWorker s e = s) ∨
      ∃ i, (e.pid, i) ∈ s.children ∧ reapWorker s e =
          if i.val < s.desiredWorkers ∧ (s.workers i).retiring = false then
            if restartAllowed e.restart.checked (s.workers i) then
              restartWorker e.restart i (waitedFor e i s)
            else limited e i s
          else waitedFor e i s := by
  unfold reapWorker
  by_cases hnone : ∀ c ∈ s.children, c.1 ≠ e.pid
  · rw [if_pos hnone]
    exact .inl ⟨fun i hi => hnone _ hi rfl, rfl⟩
  · rw [if_neg hnone]
    simp only [not_forall, not_not] at hnone
    obtain ⟨⟨p, i⟩, hi, rfl⟩ := hnone
    refine .inr ⟨i, hi, ?_⟩
    have hfind : findWorkerByPid e.pid { s with children := s.children.filter fun c => c.1 ≠ e.pid } =
        some i := find_child hs hi
    have hself : (waitedFor e i s).workers i = { s.workers i with pid := 0 } := setWorker_self _ _ _
    dsimp only
    rw [hfind]
    show (if i.val < s.desiredWorkers ∧ ((waitedFor e i s).workers i).retiring = false then
        if restartAllowed e.restart.checked ((waitedFor e i s).workers i) then
          restartWorker e.restart i (waitedFor e i s)
        else limited e i s
      else waitedFor e i s) = _
    rw [hself]
    rfl

theorem reap_desired : (reapWorker s e).desiredWorkers = s.desiredWorkers := by
  rcases reap_cases hs e with ⟨-, heq⟩ | ⟨i, -, heq⟩
  · rw [heq]
  · rw [heq]
    split
    · split
      · exact restart_desired _ _ _
      · rfl
    · rfl

theorem Tracked.reap : Tracked (reapWorker s e) := by
  rcases reap_cases hs e with ⟨-, heq⟩ | ⟨i, hi, heq⟩
  · rw [heq]
    exact hs
  · have hreleased := hs.released hi
    have hself : (waitedFor e i s).workers i = { s.workers i with pid := 0 } := setWorker_self _ _ _
    have hpid : ((waitedFor e i s).workers i).pid = 0 := by rw [hself]
    rw [heq]
    split
    · rename_i hwanted
      split
      · exact hreleased.restart _ hpid hwanted.1
      · exact hreleased.setWorker rfl (hreleased.retiring i) fun _ => ⟨hwanted.1, hpid⟩
    · exact hreleased

theorem forgotten_reap {j : Index} (hj : j.val < s.desiredWorkers) :
    Forgotten (reapWorker s e) j ↔ Forgotten s j ∨ LostAtExit s e j := by
  rcases reap_cases hs e with ⟨hnone, heq⟩ | ⟨i, hi, heq⟩
  · rw [heq]
    exact ⟨.inl, fun h => h.resolve_right fun hlost => hnone j hlost.1⟩
  · rw [heq]
    by_cases hji : j = i
    · subst hji
      have hself : (waitedFor e j s).workers j = { s.workers j with pid := 0 } := setWorker_self _ _ _
      have hpid : ((waitedFor e j s).workers j).pid = 0 := by rw [hself]
      have hruns : ¬Forgotten s j := fun h => by
        have hp := (hs.pids j e.pid).1 hi
        have hzero := h.1
        omega
      have hkept : (s.workers j).retiring = false := by
        cases hretiring : (s.workers j).retiring with
        | false => rfl
        | true => exact absurd (hs.retiring j hretiring) (Nat.not_le_of_lt hj)
      rw [if_pos ⟨hj, hkept⟩]
      by_cases hallowed : restartAllowed e.restart.checked (s.workers j) = true
      · rw [if_pos hallowed, forgotten_restart _ hpid]
        exact ⟨fun h => .inr ⟨hi, hj, hkept, hallowed, h⟩, fun h => (h.resolve_left hruns).2.2.2.2⟩
      · rw [if_neg hallowed]
        refine ⟨fun h => ?_, fun h => (h.elim hruns fun hlost => hallowed hlost.2.2.2.1).elim⟩
        refine absurd h.2 (not_not.2 ?_)
        unfold limited
        rw [setWorker_self, hself]
        exact ⟨rfl, hkept⟩
    · have hsame : ∀ t : SupervisorState, t.workers j = (waitedFor e i s).workers j →
          t.workers j = s.workers j :=
        fun t ht => ht.trans (setWorker_of_ne hji _ _)
      have hkeep : (if i.val < s.desiredWorkers ∧ (s.workers i).retiring = false then
          if restartAllowed e.restart.checked (s.workers i) then
            restartWorker e.restart i (waitedFor e i s)
          else limited e i s
        else waitedFor e i s).workers j = s.workers j := by
        apply hsame
        split
        · split
          · exact restart_of_ne _ hji _
          · exact setWorker_of_ne hji _ _
        · rfl
      rw [forgotten_congr hkeep]
      exact ⟨.inl, fun h => h.resolve_right fun hlost => hji (hs.unique hlost.1 hi)⟩

end

/-! ## The exits of an iteration -/

/-- The forks that fail as the children of the list exit. -/
def LostAtExits (i : Index) : SupervisorState → List Exit → Prop
  | _, [] => False
  | s, e :: es => LostAtExit s e i ∨ LostAtExits i (reapWorker s e) es

instance LostAtExits.decidable (i : Index) : ∀ s es, Decidable (LostAtExits i s es)
  | _, [] => isFalse id
  | s, e :: es =>
    have : Decidable (LostAtExits i (reapWorker s e) es) := LostAtExits.decidable i _ es
    inferInstanceAs (Decidable (_ ∨ _))

theorem Tracked.reaps (hs : Tracked s) (es : List Exit) :
    Tracked (reapWorkers es s) ∧ (reapWorkers es s).desiredWorkers = s.desiredWorkers := by
  induction es generalizing s with
  | nil => exact ⟨hs, rfl⟩
  | cons e es ih =>
    obtain ⟨htracked, hdesired⟩ := ih (hs.reap e)
    exact ⟨htracked, hdesired.trans (reap_desired hs e)⟩

theorem forgotten_reaps (hs : Tracked s) (es : List Exit) {j : Index}
    (hj : j.val < s.desiredWorkers) :
    Forgotten (reapWorkers es s) j ↔ Forgotten s j ∨ LostAtExits j s es := by
  induction es generalizing s with
  | nil => exact ⟨.inl, fun h => h.resolve_right id⟩
  | cons e es ih =>
    have hnext := ih (hs.reap e) (by rw [reap_desired hs e]; exact hj)
    rw [forgotten_reap hs e hj, or_assoc] at hnext
    exact hnext

/-! ## Loops over the workers -/

/-- A loop body that touches one worker: `Ready` lets it run on a worker, given the number of
    desired workers, and `After` says when the worker is forgotten afterwards. -/
structure PerWorker (body : SupervisorState → Index → SupervisorState)
    (Ready : ℕ → Index → WorkerInfo → Prop) (After : Index → WorkerInfo → Prop) : Prop where
  tracked : ∀ {s i}, Tracked s → Ready s.desiredWorkers i (s.workers i) → Tracked (body s i)
  desired : ∀ s i, (body s i).desiredWorkers = s.desiredWorkers
  other : ∀ s {i j}, j ≠ i → (body s i).workers j = s.workers j
  forgotten : ∀ {s i}, Ready s.desiredWorkers i (s.workers i) →
    (Forgotten (body s i) i ↔ After i (s.workers i))

theorem PerWorker.foldl {body : SupervisorState → Index → SupervisorState}
    {Ready : ℕ → Index → WorkerInfo → Prop} {After : Index → WorkerInfo → Prop}
    (h : PerWorker body Ready After) {is : List Index} (hnodup : is.Nodup) (hs : Tracked s)
    (hready : ∀ i ∈ is, Ready s.desiredWorkers i (s.workers i)) :
    Tracked (is.foldl body s) ∧ (is.foldl body s).desiredWorkers = s.desiredWorkers ∧
      (∀ j ∉ is, (is.foldl body s).workers j = s.workers j) ∧
      ∀ j ∈ is, Forgotten (is.foldl body s) j ↔ After j (s.workers j) := by
  induction is generalizing s with
  | nil => exact ⟨hs, rfl, fun _ _ => rfl, nofun⟩
  | cons i is ih =>
    obtain ⟨hi, hnodup⟩ := nodup_cons.1 hnodup
    have hreadyi := hready i mem_cons_self
    have hne : ∀ j ∈ is, j ≠ i := fun j hj heq => hi (heq ▸ hj)
    obtain ⟨htracked, hdesired, hother, hforgotten⟩ :=
      ih hnodup (h.tracked hs hreadyi) fun j hj => by
        rw [h.desired, h.other s (hne j hj)]
        exact hready j (mem_cons_of_mem _ hj)
    refine ⟨htracked, hdesired.trans (h.desired s i), fun j hj => ?_, fun j hj => ?_⟩
    · obtain ⟨hji, hj⟩ := not_or.1 (List.mem_cons.not.1 hj)
      exact (hother j hj).trans (h.other s hji)
    · rcases List.mem_cons.1 hj with rfl | hj
      · rw [foldl_cons, forgotten_congr (hother j hi)]
        exact h.forgotten hreadyi
      · rw [foldl_cons, hforgotten j hj, h.other s (hne j hj)]

theorem mem_indices {lo hi : ℕ} : i ∈ indices lo hi ↔ lo ≤ i.val ∧ i.val < hi := by
  unfold indices
  simp

theorem nodup_indices (lo hi : ℕ) : (indices lo hi).Nodup := (nodup_finRange _).filter _

/-- The fork for a worker whose rate limit has expired fails. -/
def LostAtRetry (r : Index → Restart) (i : Index) (w : WorkerInfo) : Prop :=
  (w.rateLimited = true ∧ w.pid = 0 ∧ w.retiring = false) ∧
    restartAllowed (r i).checked w = true ∧ (r i).fork = none
  deriving Decidable

theorem retry_perWorker (r : Index → Restart) :
    PerWorker (retryWorker r) (fun desired i _ => i.val < desired) fun i w =>
      (w.pid = 0 ∧ ¬(w.rateLimited = true ∧ w.retiring = false)) ∨ LostAtRetry r i w where
  tracked := by
    intro s i hs hi
    unfold retryWorker
    split
    · rename_i hwaits
      split
      · exact hs.restart _ hwaits.2.1 hi
      · exact hs
    · exact hs
  desired := by
    intro s i
    unfold retryWorker
    split
    · split
      · exact restart_desired _ _ _
      · rfl
    · rfl
  other := by
    intro s i j hj
    unfold retryWorker
    split
    · split
      · exact restart_of_ne _ hj _
      · rfl
    · rfl
  forgotten := by
    intro s i _
    unfold retryWorker
    split
    · rename_i hwaits
      have hmarked : ¬Forgotten s i := fun h => h.2 ⟨hwaits.1, hwaits.2.2⟩
      split
      · rename_i hallowed
        rw [forgotten_restart _ hwaits.2.1]
        exact ⟨fun h => .inr ⟨hwaits, hallowed, h⟩, fun h => (h.resolve_left hmarked).2.2⟩
      · rename_i hallowed
        exact ⟨.inl, fun h => h.resolve_right fun hlost => hallowed hlost.2.1⟩
    · rename_i hwaits
      exact ⟨.inl, fun h => h.resolve_right fun hlost => hwaits hlost.1⟩

theorem added_perWorker (fork : Index → Option ℕ) :
    PerWorker (spawnAdded fork) (fun desired i w => i.val < desired ∧ w.rateLimited = false)
      fun i w => w.pid = 0 ∧ fork i = none where
  tracked := by
    intro s i hs hi
    unfold spawnAdded
    split
    · rename_i hpid
      exact hs.spawn _ hpid hi.2 hi.1
    · exact hs
  desired := by
    intro s i
    unfold spawnAdded
    split
    · exact spawn_desired _ _ _
    · rfl
  other := by
    intro s i j hj
    unfold spawnAdded
    split
    · exact spawn_of_ne _ hj _
    · rfl
  forgotten := by
    intro s i hi
    have hnot : ¬((s.workers i).rateLimited = true ∧ (s.workers i).retiring = false) :=
      fun h => absurd (hi.2.symm.trans h.1) (by decide)
    unfold spawnAdded
    split
    · rename_i hpid
      rw [forgotten_spawn]
      exact ⟨fun h => ⟨hpid, h.1⟩, fun h => ⟨h.2, hpid, hnot⟩⟩
    · rename_i hpid
      exact ⟨fun h => absurd h.1 hpid, fun h => absurd h.1 hpid⟩

theorem spawn_perWorker (fork : Index → Option ℕ) : PerWorker (fun s i => spawnWorker (fork i) i s)
      (fun desired i w => i.val < desired ∧ w.pid = 0 ∧ w.rateLimited = false)
      fun i _ => fork i = none where
  tracked := fun hs hi => hs.spawn _ hi.2.1 hi.2.2 hi.1
  desired := fun s i => spawn_desired _ _ _
  other := fun s _ _ hj => spawn_of_ne _ hj _
  forgotten := by
    intro s i hi
    rw [forgotten_spawn]
    exact and_iff_left ⟨hi.2.1, fun h => absurd (hi.2.2.symm.trans h.1) (by decide)⟩

/-! ## The iteration -/

theorem Tracked.retries (hs : Tracked s) (r : Index → Restart) :
    Tracked (retryWorkers r s) ∧ (retryWorkers r s).desiredWorkers = s.desiredWorkers ∧
      ∀ j : Index, j.val < s.desiredWorkers →
        (Forgotten (retryWorkers r s) j ↔ Forgotten s j ∨ LostAtRetry r j (s.workers j)) := by
  obtain ⟨htracked, hdesired, -, hforgotten⟩ :=
    (retry_perWorker r).foldl (nodup_indices 0 s.desiredWorkers) hs fun i hi => (mem_indices.1 hi).2
  exact ⟨htracked, hdesired, fun j hj => hforgotten j (mem_indices.2 ⟨Nat.zero_le _, hj⟩)⟩

/-- The fork for a worker that is added fails. -/
def LostAtReload (s : SupervisorState) (reload : Reload) (i : Index) : Prop :=
  s.desiredWorkers ≤ i.val ∧ (s.workers i).pid = 0 ∧ reload.fork i = none
  deriving Decidable

theorem Tracked.resize (hs : Tracked s) {desired : ℕ} {workers : Index → WorkerInfo}
    (hpid : ∀ j, (workers j).pid = (s.workers j).pid)
    (hretiring : ∀ j, (workers j).retiring = true → desired ≤ j.val)
    (hlimited : ∀ j, (workers j).rateLimited = true → j.val < desired ∧ (workers j).pid = 0) :
    Tracked { s with workers := workers, desiredWorkers := desired } where
  pids := fun j p => by
    show _ ↔ 0 < p ∧ (workers j).pid = p
    rw [hpid]
    exact hs.pids j p
  nodup := hs.nodup
  retiring := hretiring
  limited := hlimited
  below := hs.below

theorem Tracked.enlarge (hs : Tracked s) {count : ℕ} (hmore : s.desiredWorkers < count) :
    Tracked { s with
      desiredWorkers := count
      workers := fun i =>
        if s.desiredWorkers ≤ i.val ∧ i.val < count then { s.workers i with retiring := false }
        else s.workers i } := by
  refine hs.resize (fun j => ?_) (fun j => ?_) fun j => ?_
  · split <;> rfl
  · split
    · exact nofun
    · rename_i hj
      intro h
      have := hs.retiring j h
      omega
  · have hlimited := hs.limited j
    split
    · tauto
    · intro h
      exact ⟨Nat.lt_trans (hlimited h).1 hmore, (hlimited h).2⟩

theorem Tracked.reduce (hs : Tracked s) {count : ℕ} (hless : count ≤ s.desiredWorkers) :
    Tracked { s with
      desiredWorkers := count
      workers := fun i =>
        if count ≤ i.val ∧ i.val < s.desiredWorkers then
          { s.workers i with retiring := true, rateLimited := false }
        else s.workers i } := by
  refine hs.resize (fun j => ?_) (fun j => ?_) fun j => ?_
  · split <;> rfl
  · split
    · omega
    · intro h
      exact Nat.le_trans hless (hs.retiring j h)
  · split
    · exact nofun
    · rename_i hj
      intro h
      obtain ⟨hlt, hpid⟩ := hs.limited j h
      exact ⟨by omega, hpid⟩

theorem Tracked.change (hs : Tracked s) (reload : Reload) :
    Tracked (changeWorkers reload.count reload.fork s) ∧
      (changeWorkers reload.count reload.fork s).desiredWorkers = reload.count.val ∧
      ∀ j : Index, j.val < reload.count.val →
        (Forgotten (changeWorkers reload.count reload.fork s) j ↔
          j.val < s.desiredWorkers ∧ Forgotten s j ∨ LostAtReload s reload j) := by
  unfold changeWorkers
  dsimp only
  split
  · rename_i hmore
    have hlarger := hs.enlarge hmore
    obtain ⟨htracked, hdesired, hother, hforgotten⟩ :=
      (added_perWorker reload.fork).foldl (nodup_indices s.desiredWorkers reload.count.val) hlarger
        fun i hi => by
          obtain ⟨hlo, hhi⟩ := mem_indices.1 hi
          refine ⟨hhi, ?_⟩
          cases hlimited : (s.workers i).rateLimited with
          | false =>
            simp [*]
          | true => exact absurd (hs.limited i hlimited).1 (Nat.not_lt_of_le hlo)
    refine ⟨htracked, hdesired, fun j hj => ?_⟩
    by_cases hold : j.val < s.desiredWorkers
    · have hout : j ∉ indices s.desiredWorkers reload.count.val := fun h =>
        Nat.not_lt_of_le (mem_indices.1 h).1 hold
      have hsame := hother j hout
      dsimp only at hsame
      rw [if_neg fun h => Nat.not_lt_of_le h.1 hold] at hsame
      rw [forgotten_congr hsame]
      exact ⟨fun h => .inl ⟨hold, h⟩,
        fun h => (h.resolve_right fun hlost => Nat.not_lt_of_le hlost.1 hold).2⟩
    · have hin : j ∈ indices s.desiredWorkers reload.count.val :=
        mem_indices.2 ⟨Nat.le_of_not_lt hold, hj⟩
      rw [hforgotten j hin]
      dsimp only
      rw [if_pos ⟨Nat.le_of_not_lt hold, hj⟩]
      exact ⟨fun h => .inr ⟨Nat.le_of_not_lt hold, h⟩,
        fun h => (h.resolve_left fun hlost => hold hlost.1).2⟩
  · rename_i hless
    refine ⟨hs.reduce (Nat.le_of_not_lt hless), rfl, fun j hj => ?_⟩
    have hold : j.val < s.desiredWorkers := Nat.lt_of_lt_of_le hj (Nat.le_of_not_lt hless)
    rw [forgotten_congr (t := s) (if_neg fun h => Nat.not_lt_of_le h.1 hj)]
    exact ⟨fun h => .inl ⟨hold, h⟩,
      fun h => (h.resolve_right fun hlost => Nat.not_lt_of_le hlost.1 hold).2⟩

/-- A fork of the iteration fails for the worker, and no later one of it is for this worker. -/
def LostAt (s : SupervisorState) (it : Iteration) (i : Index) : Prop :=
  (i.val < s.desiredWorkers ∧ (LostAtExits i s it.exits ∨
        LostAtRetry it.retries i ((reapWorkers it.exits s).workers i))) ∨
    ∃ reload, it.reload = some reload ∧
      LostAtReload (retryWorkers it.retries (reapWorkers it.exits s)) reload i
  deriving Decidable

/-- The workers that are desired at the end of the iteration. -/
def desiredAfter (s : SupervisorState) (it : Iteration) : ℕ :=
  match it.reload with
  | none => s.desiredWorkers
  | some reload => reload.count.val

theorem Tracked.iteration (hs : Tracked s) (it : Iteration) : Tracked (supervisorIteration s it) ∧
      (supervisorIteration s it).desiredWorkers = desiredAfter s it ∧
      ∀ j : Index, j.val < desiredAfter s it → (Forgotten (supervisorIteration s it) j ↔
          j.val < s.desiredWorkers ∧ Forgotten s j ∨ LostAt s it j) := by
  obtain ⟨hreaped, hdesired⟩ := hs.reaps it.exits
  obtain ⟨hretried, hdesired', hforgotten⟩ := hreaped.retries it.retries
  have hkept : ∀ j : Index, j.val < s.desiredWorkers →
      (Forgotten (retryWorkers it.retries (reapWorkers it.exits s)) j ↔
        Forgotten s j ∨ LostAtExits j s it.exits ∨
          LostAtRetry it.retries j ((reapWorkers it.exits s).workers j)) := fun j hj => by
    rw [hforgotten j (by rw [hdesired]; exact hj), forgotten_reaps hs it.exits hj, or_assoc]
  unfold supervisorIteration desiredAfter LostAt
  cases it.reload with
  | none =>
    refine ⟨hretried, hdesired'.trans hdesired, fun j hj => ?_⟩
    rw [hkept j hj]
    constructor
    · rintro (h | h)
      · exact .inl ⟨hj, h⟩
      · exact .inr (.inl ⟨hj, h⟩)
    · rintro (⟨-, h⟩ | ⟨-, h⟩ | ⟨reload, h, -⟩)
      · exact .inl h
      · exact .inr h
      · cases h
  | some reload =>
    obtain ⟨hchanged, hcount, hforgotten'⟩ := hretried.change reload
    refine ⟨hchanged, hcount, fun j hj => ?_⟩
    rw [hforgotten' j hj, hdesired', hdesired]
    constructor
    · rintro (⟨hold, h⟩ | h)
      · rcases (hkept j hold).1 h with h | h
        · exact .inl ⟨hold, h⟩
        · exact .inr (.inl ⟨hold, h⟩)
      · exact .inr (.inr ⟨reload, rfl, h⟩)
    · rintro (⟨hold, h⟩ | ⟨hold, h⟩ | ⟨reload', h, hlost⟩)
      · exact .inl ⟨hold, (hkept j hold).2 (.inl h)⟩
      · exact .inl ⟨hold, (hkept j hold).2 (.inr h)⟩
      · obtain rfl := Option.some.inj h
        exact .inr hlost

/-! ## Runs -/

/-- What the supervisor is to keep: every desired worker runs or waits for its rate limit, no
    index has two processes, and only desired workers have been started. -/
structure Supervised (s : SupervisorState) : Prop where
  remembered : ∀ i : Index, i.val < s.desiredWorkers → ¬Forgotten s i
  single : (s.children.map Prod.snd).Nodup
  started : ∀ p ∈ s.started, p.1.val < p.2

theorem Tracked.single (hs : Tracked s) : (s.children.map Prod.snd).Nodup := by
  refine List.Nodup.map_on ?_ hs.nodup.of_map
  rintro ⟨p, i⟩ hp ⟨q, j⟩ hq heq
  obtain rfl : i = j := heq
  rw [Prod.mk.injEq, ← ((hs.pids i p).1 hp).2, ← ((hs.pids i q).1 hq).2]
  exact ⟨rfl, rfl⟩

theorem Tracked.supervised_exactly (hs : Tracked s) :
    Supervised s ↔ ∀ i : Index, i.val < s.desiredWorkers → ¬Forgotten s i :=
  ⟨fun h => h.remembered, fun h => ⟨h, hs.single, hs.below⟩⟩

theorem start_spec (count : WorkerCount) (fork : Index → Option ℕ) :
    Tracked (supervisorStart count fork) ∧ (supervisorStart count fork).desiredWorkers = count.val ∧
      ∀ j : Index, j.val < count.val →
        (Forgotten (supervisorStart count fork) j ↔ fork j = none) := by
  obtain ⟨htracked, hdesired, -, hforgotten⟩ :=
    (spawn_perWorker fork).foldl (nodup_indices 0 count.val)
      (s := { workers := fun _ => ⟨0, List.replicate maxRestartsInWindow 0, false, false⟩
              desiredWorkers := count.val
              children := []
              started := [] })
      { pids := fun i p => ⟨nofun, fun h => absurd h.1 (by rw [← h.2]; exact Nat.lt_irrefl 0)⟩
        nodup := nodup_nil
        retiring := nofun
        limited := nofun
        below := nofun }
      fun i hi => ⟨(mem_indices.1 hi).2, rfl, rfl⟩
  exact ⟨htracked, hdesired, fun j hj => hforgotten j (mem_indices.2 ⟨Nat.zero_le _, hj⟩)⟩

/-- The forks of an iteration succeed for the workers that are desired at its end. -/
def ForksSucceed (s : SupervisorState) (it : Iteration) : Prop :=
  ∀ i : Index, i.val < desiredAfter s it → ¬LostAt s it i

/-- The supervisor keeps its workers through the iterations exactly when every fork for a
    worker that stays desired succeeds. -/
theorem supervised_iff (count : WorkerCount) (fork : Index → Option ℕ) (its : List Iteration) :
    (∀ its₁ its₂, its₁ ++ its₂ = its →
        Supervised (run supervisorIteration (supervisorStart count fork) its₁)) ↔
      (∀ i : Index, i.val < count.val → fork i ≠ none) ∧
        Along supervisorIteration ForksSucceed (supervisorStart count fork) its := by
  obtain ⟨htracked, hdesired, hforgotten⟩ := start_spec count fork
  have hstart : Supervised (supervisorStart count fork) ↔
      ∀ i : Index, i.val < count.val → fork i ≠ none := by
    rw [htracked.supervised_exactly, hdesired]
    exact forall₂_congr fun i hi => not_congr (hforgotten i hi)
  have hstep : ∀ s it, Tracked s → Supervised s →
      (Supervised (supervisorIteration s it) ↔ ForksSucceed s it) := by
    intro s it hs hkept
    obtain ⟨htracked, hdesired, hforgotten⟩ := hs.iteration it
    rw [htracked.supervised_exactly, hdesired]
    refine forall₂_congr fun i hi => not_congr ?_
    rw [hforgotten i hi]
    exact or_iff_right fun h => hkept.remembered i h.1 h.2
  constructor
  · intro h
    have hs := h [] its rfl
    exact ⟨hstart.1 hs, (prefixes_iff_along (fun s it hs => (hs.iteration it).1) hstep htracked hs
      its).1 h⟩
  · rintro ⟨hforks, halong⟩
    exact (prefixes_iff_along (fun s it hs => (hs.iteration it).1) hstep htracked
      (hstart.2 hforks) its).2 halong

/-- A worker exits, and the fork for it fails once. -/
theorem worker_forgotten :
    ¬∀ (count : WorkerCount) (fork : Index → Option ℕ) (its : List Iteration),
      ∀ its₁ its₂, its₁ ++ its₂ = its →
        Supervised (run supervisorIteration (supervisorStart count fork) its₁) := by
  intro h
  let exits : List Exit := [⟨7, 100000, 100000, none⟩]
  have hkept := h ⟨1, by decide, by decide⟩ (fun _ => some 7)
    [⟨exits, fun _ => ⟨200000, 200000, some 8⟩, none⟩] _ [] (append_nil _)
  exact absurd hkept.remembered (by decide)

end Apackage.Rtp2httpd.Supervisor
