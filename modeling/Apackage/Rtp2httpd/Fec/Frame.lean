import Apackage.Rtp2httpd.Fec.Groups

/-
  What the FEC functions do to the reorder buffer, and the shape of the groups they keep.

  Proved:
  * `Sheds R s t`: between `s` and `t` the reorder buffer only lost slots whose sequence
    number satisfies `R`, and the trace only gained their releases and accesses to parity
    slots. `fec_process_packet` sheds the range of the group it evicts,
    `fec_release_expired_groups` the ranges of expired groups, `fec_attempt_recovery`
    nothing.
  * `GroupsOk`: an active group has as many parity slots as it announces, and its range does
    not run backwards.
-/

namespace Apackage.Rtp2httpd

open List Option Lib.Serial

/-- An observation of a function that drops only slots with a number in `R`. -/
def ShedObs (R : Seq → Prop) (s : StreamContext) : Obs → Prop
  | .release buf seq base kept =>
    R seq ∧ base = s.base ∧
      ∃ i, s.reorder.slots i = some buf ∧ s.reorder.seq i = seq ∧ s.kept i = kept
  | .slotAccess _ _ => True
  | _ => False

structure Sheds (R : Seq → Prop) (s t : StreamContext) : Prop where
  slots : ∀ i, t.reorder.slots i = s.reorder.slots i ∨
    t.reorder.slots i = none ∧ s.reorder.slots i ≠ none ∧ R (s.reorder.seq i)
  seq : t.reorder.seq = s.reorder.seq
  window : t.reorder.window = s.reorder.window
  base : t.reorder.baseSeq = s.reorder.baseSeq
  count : t.reorder.count = s.reorder.count
  phase : t.reorder.phase = s.reorder.phase
  kept : t.kept = s.kept
  totalBytes : t.totalBytes = s.totalBytes
  trace : ∃ tr, t.trace = tr ++ s.trace ∧ ∀ o ∈ tr, ShedObs R s o

namespace Sheds

variable {R S : Seq → Prop} {s t u : StreamContext}

theorem refl (s : StreamContext) : Sheds R s s where
  slots _ := .inl rfl
  seq := rfl
  window := rfl
  base := rfl
  count := rfl
  phase := rfl
  kept := rfl
  totalBytes := rfl
  trace := ⟨[], rfl, by simp⟩

theorem of_fec (s : StreamContext) (f : FecContext) : Sheds R s { s with fec := f } :=
  { refl s with }

section

variable (h : Sheds R s t)

include h

theorem mono (hR : ∀ q, R q → S q) : Sheds S s t where
  __ := h
  slots i := (h.slots i).imp_right (fun ⟨h1, h2, h3⟩ => ⟨h1, h2, hR _ h3⟩)
  trace := by
    obtain ⟨tr, he, ho⟩ := h.trace
    refine ⟨tr, he, fun o hm => ?_⟩
    have := ho o hm
    cases o <;> simp_all [ShedObs]

theorem slots_of_some {i : ℕ} {buf : BufferRef} (hi : t.reorder.slots i = some buf) :
    s.reorder.slots i = some buf := by
  rcases h.slots i with h1 | ⟨h1, -, -⟩
  · rw [← h1, hi]
  · rw [h1] at hi
    cases hi

theorem trans (h' : Sheds R t u) : Sheds R s u where
  slots i := by
    rcases h'.slots i with h1 | ⟨h1, h2, h3⟩
    · rw [h1]
      exact h.slots i
    · obtain ⟨buf, hb⟩ := ne_none_iff_exists'.mp h2
      refine .inr ⟨h1, ?_, h.seq ▸ h3⟩
      rw [h.slots_of_some hb]
      exact some_ne_none buf
  seq := h'.seq.trans h.seq
  window := h'.window.trans h.window
  base := h'.base.trans h.base
  count := h'.count.trans h.count
  phase := h'.phase.trans h.phase
  kept := h'.kept.trans h.kept
  totalBytes := h'.totalBytes.trans h.totalBytes
  trace := by
    obtain ⟨tr, he, ho⟩ := h.trace
    obtain ⟨tr', he', ho'⟩ := h'.trace
    refine ⟨tr' ++ tr, by rw [he', he, append_assoc], fun o hm => ?_⟩
    rcases mem_append.mp hm with hm | hm
    · have := ho' o hm
      cases o with
      | release buf seq base kept =>
        obtain ⟨hR, hb, i, hi, hq, hk⟩ := this
        exact ⟨hR, hb.trans h.base, i, h.slots_of_some hi, h.seq ▸ hq, h.kept ▸ hk⟩
      | slotAccess => trivial
      | deliver => exact this
      | deliverRaw => exact this
      | countDec => exact this
      | initComplete => exact this
    · exact ho o hm

/-- A slot waiting afterwards was waiting before, and holds the same number. -/
theorem waiting {i : ℕ} (hi : t.waiting i = true) : s.waiting i = true := by
  simp only [StreamContext.waiting, Bool.and_eq_true] at hi ⊢
  obtain ⟨buf, hb⟩ := isSome_iff_exists.mp hi.1
  exact ⟨by rw [h.slots_of_some hb]; rfl, by rw [← h.kept]; exact hi.2⟩

theorem waiting_eq (hR : ∀ i, s.waiting i = true → ¬ R (s.reorder.seq i)) (i : ℕ) :
    t.waiting i = s.waiting i := by
  rw [Bool.eq_iff_iff]
  refine ⟨h.waiting, fun hi => ?_⟩
  rcases h.slots i with h1 | ⟨-, -, h3⟩
  · simpa only [StreamContext.waiting, h1, h.kept] using hi
  · exact absurd h3 (hR i hi)

end

end Sheds

/-! ## Releasing a range -/

variable (s : StreamContext)

theorem releaseOne_sheds (q : Seq) : Sheds (· = q) s (releaseOne s q) := by
  simp only [releaseOne]
  split
  · exact Sheds.refl s
  · rename_i buf hb
    split
    · rename_i hq
      refine { Sheds.refl (R := (· = q)) s with slots := fun i => ?_, trace := ?_ }
      · by_cases hi : i = s.slot q
        · simp [*]
        · exact .inl (by simp [hi])
      · exact ⟨[_], rfl, by simpa [ShedObs] using ⟨s.slot q, hb, hq, rfl⟩⟩
    · exact Sheds.refl s

@[simp] theorem releaseOne_fec (q : Seq) : (releaseOne s q).fec = s.fec := by
  simp only [releaseOne]
  split
  · rfl
  · split <;> rfl

theorem foldl_releaseOne_sheds (l : List Seq) (s : StreamContext) :
    Sheds (· ∈ l) s (l.foldl releaseOne s) := by
  induction l generalizing s with
  | nil => exact Sheds.refl s
  | cons q l ih =>
    exact ((releaseOne_sheds s q).mono (by simp +contextual)).trans
      ((ih _).mono (by simp +contextual))

theorem rtpReorderReleaseRange_sheds (b e : Seq) (s : StreamContext) :
    Sheds (· ∈ seqRange b e) s (rtpReorderReleaseRange b e s) :=
  foldl_releaseOne_sheds _ s

@[simp] theorem rtpReorderReleaseRange_fec (b e : Seq) (s : StreamContext) :
    (rtpReorderReleaseRange b e s).fec = s.fec := by
  unfold rtpReorderReleaseRange
  induction seqRange b e generalizing s with
  | nil => rfl
  | cons q l ih => rw [foldl_cons, ih, releaseOne_fec]

/-! ## Groups -/

variable (g : FecGroup)

theorem logSlots_trace (n : ℕ) : s.logSlots g n = { s with
      trace := ((List.range n).map
        (fun i => Obs.slotAccess i (g.fecSlots.getD []).length)).reverse ++ s.trace } := by
  unfold StreamContext.logSlots
  induction n with
  | zero => rfl
  | succ n ih =>
    rw [range_succ, foldl_append, ih, foldl_cons, foldl_nil, map_append, reverse_append]
    rfl

variable {R : Seq → Prop}

theorem logSlots_sheds (n : ℕ) : Sheds R s (s.logSlots g n) := by
  rw [logSlots_trace]
  refine { Sheds.refl (R := R) s with trace := ⟨_, rfl, fun o ho => ?_⟩ }
  simp only [mem_reverse, List.mem_map] at ho
  obtain ⟨i, -, rfl⟩ := ho
  trivial

@[simp] theorem logSlots_fec (n : ℕ) : (s.logSlots g n).fec = s.fec := by rw [logSlots_trace]

theorem freeGroup_sheds (i : ℕ) :
    Sheds (· ∈ seqRange (s.group i).beginSeq (s.group i).endSeq) s (s.freeGroup i) :=
  ((rtpReorderReleaseRange_sheds _ _ s).trans (logSlots_sheds _ _ _)).trans (Sheds.of_fec _ _)

theorem freeGroup_groups (i : ℕ) : (s.freeGroup i).fec.groupList =
      s.fec.groupList.set i { s.group i with fecSlots := none } := by
  simp [StreamContext.freeGroup, StreamContext.setGroup, FecContext.groupList]

theorem getD_set (l : List FecGroup) (i j : ℕ) (g : FecGroup) :
    (l.set i g).getD j FecGroup.empty = if i = j ∧ i < l.length then g
      else l.getD j FecGroup.empty := by
  rw [getD_eq_getElem?_getD, getD_eq_getElem?_getD, getElem?_set]
  by_cases hij : i = j
  · by_cases hlen : i < l.length
    · simp [hij, hij ▸ hlen]
    · simp [hij, hij ▸ hlen]
  · simp [hij]

theorem freeGroup_group (i j : ℕ) :
    (s.freeGroup i).group j = s.group j ∨ ((s.freeGroup i).group j).active = false := by
  simp only [StreamContext.group, freeGroup_groups, getD_set]
  split
  · exact .inr rfl
  · exact .inl rfl

/-- The ranges that `fec_release_expired_groups` releases. -/
def ExpiredSeq (s : StreamContext) (base q : Seq) : Prop :=
  ∃ i, (s.group i).expired base = true ∧ q ∈ seqRange (s.group i).beginSeq (s.group i).endSeq

theorem foldl_releaseExpiredOne (base : Seq) (l : List ℕ) (s : StreamContext) :
    Sheds (ExpiredSeq s base) s (l.foldl (releaseExpiredOne base) s) ∧
      ∀ j, (l.foldl (releaseExpiredOne base) s).group j = s.group j ∨
        ((l.foldl (releaseExpiredOne base) s).group j).active = false := by
  induction l using List.reverseRecOn with
  | nil => exact ⟨Sheds.refl s, fun _ => .inl rfl⟩
  | append_singleton l i ih =>
    rw [foldl_append, foldl_cons, foldl_nil]
    generalize l.foldl (releaseExpiredOne base) s = t at ih
    obtain ⟨hsheds, hgroup⟩ := ih
    rw [releaseExpiredOne]
    split
    · rename_i hexp
      have hsame : t.group i = s.group i := by
        rcases hgroup i with h | h
        · exact h
        · simp [FecGroup.expired, h] at hexp
      constructor
      · refine hsheds.trans ((freeGroup_sheds t i).mono (fun q hq => ⟨i, ?_, ?_⟩))
        · rw [← hsame]
          exact hexp
        · rw [← hsame]
          exact hq
      · intro j
        rcases freeGroup_group t i j with h | h
        · rw [h]
          exact hgroup j
        · exact .inr h
    · exact ⟨hsheds, hgroup⟩

theorem fecReleaseExpiredGroups_sheds (base : Seq) (s : StreamContext) :
    Sheds (ExpiredSeq s base) s (fecReleaseExpiredGroups base s) := by
  rw [fecReleaseExpiredGroups]
  split
  · exact Sheds.refl s
  · exact (foldl_releaseExpiredOne base _ s).1.trans (Sheds.of_fec _ _)

/-! ## Recovery -/

theorem recoverFrom_sheds (target : ℕ) (s : StreamContext) :
    Sheds R s (recoverFrom g target s).1 := by
  unfold recoverFrom
  dsimp only
  split
  · exact Sheds.of_fec s _
  · have h := (Sheds.of_fec s (decoderFor s.fec g)).trans
      (logSlots_sheds (R := R) { s with fec := decoderFor s.fec g } g g.parityIterations)
    split
    · exact h
    · split
      · exact h
      · exact h.trans (Sheds.of_fec _ _)

theorem fecAttemptRecovery_sheds (seq : Seq) (s : StreamContext) :
    Sheds R s (fecAttemptRecovery seq s).1 := by
  simp only [fecAttemptRecovery]
  repeat' split
  all_goals first | exact Sheds.refl s | exact recoverFrom_sheds _ _ s

theorem decoderFor_groups (f : FecContext) (g : FecGroup) : (decoderFor f g).groups = f.groups := by
  unfold decoderFor
  split
  · split <;> rfl
  · rfl

theorem fecAttemptRecovery_groups (seq : Seq) (s : StreamContext) :
    (fecAttemptRecovery seq s).1.fec.groups = s.fec.groups := by
  simp only [fecAttemptRecovery]
  repeat' split
  all_goals first
    | rfl
    | unfold recoverFrom
      dsimp only
      repeat' split
      all_goals simp [decoderFor_groups]

/-! ## Processing a packet -/

def evictedGroup (s : StreamContext) (fr : FecFrame) : Option FecGroup :=
  let t := s.allocGroups
  if 0 < seqDiff s.base fr.endSeq then none
  else if (existingGroup fr t.fec).isSome then none
  else if (freeGroupIdx t.fec).isSome then none
  else some (t.group (oldestGroup t.fec.groupList fr.beginSeq))

variable (fr : FecFrame)

theorem initGroup_sheds (i : ℕ) (ev : Bool) : Sheds R s (initGroup s fr i ev) := by
  simp only [initGroup]
  have h : ∀ g, Sheds R s (s.setGroup i g) := fun g => Sheds.of_fec s _
  split
  · exact (h _).trans (Sheds.of_fec _ _)
  · split <;> exact (h _).trans (Sheds.of_fec _ _)

theorem storeParity_sheds (i : ℕ) : Sheds R s (storeParity s fr i) := by
  simp only [storeParity]
  have h : Sheds R s (s.log (.slotAccess fr.redundIdx ((s.group i).fecSlots.getD []).length)) :=
    { Sheds.refl (R := R) s with trace := ⟨[_], rfl, by simp [ShedObs]⟩ }
  split
  · exact h
  · exact h.trans (Sheds.of_fec _ _)

/-- The numbers in the range of the group that the packet evicts. -/
def EvictedSeq (s : StreamContext) (fr : FecFrame) (q : Seq) : Prop :=
  ∃ g, evictedGroup s fr = some g ∧ q ∈ seqRange g.beginSeq g.endSeq

theorem fecFindOrCreateGroup_sheds (s : StreamContext) :
    Sheds (EvictedSeq s fr) s (fecFindOrCreateGroup fr s).1 := by
  unfold fecFindOrCreateGroup
  split
  · exact Sheds.refl s
  · rename_i hexp
    have halloc : Sheds (EvictedSeq s fr) s s.allocGroups := Sheds.of_fec s _
    dsimp only
    split
    · exact halloc
    · rename_i hfind
      simp only [claimGroup]
      cases hfree : freeGroupIdx s.allocGroups.fec with
      | some i => exact halloc.trans (initGroup_sheds _ _ _ _)
      | none =>
        refine (halloc.trans ((freeGroup_sheds _ _).mono (fun q hq => ⟨_, ?_, hq⟩))).trans
          (initGroup_sheds _ _ _ _)
        simp [evictedGroup, hexp, hfind, hfree]

/-- `fec_process_packet` sheds only the range of the group it evicts. -/
theorem fecProcessPacket_sheds (data : List UInt8) (s : StreamContext) :
    Sheds (fun q => ∃ fr, parseFecPacket data = some fr ∧ EvictedSeq s fr q) s
      (fecProcessPacket data s) := by
  unfold fecProcessPacket
  split
  · exact Sheds.refl s
  · rename_i fr hfr
    dsimp only
    have h := (Sheds.of_fec s { s.fec with fecActive := true }).trans
      ((fecFindOrCreateGroup_sheds fr { s with fec := { s.fec with fecActive := true } }).mono
        (S := fun q => ∃ fr, parseFecPacket data = some fr ∧ EvictedSeq s fr q)
        (fun q hq => ⟨fr, hfr, hq⟩))
    split
    · rename_i hres
      rw [hres] at h
      exact h
    · rename_i hres
      rw [hres] at h
      exact h.trans (storeParity_sheds _ _ _)

/-! ## The shape of the groups -/

theorem fecRecalcMinEndSeq_groups (f : FecContext) : (fecRecalcMinEndSeq f).groups = f.groups := by
  unfold fecRecalcMinEndSeq
  generalize f.groupList = l
  suffices h : ∀ f : FecContext, (l.foldl lowerMin f).groups = f.groups from h _
  induction l with
  | nil => exact fun _ => rfl
  | cons g l ih =>
    intro f
    rw [foldl_cons, ih, lowerMin]
    split <;> rfl

theorem initGroup_groups (i : ℕ) (ev : Bool) :
    (initGroup s fr i ev).fec.groups = (s.setGroup i (newGroup fr)).fec.groups := by
  simp only [initGroup]
  split
  · rfl
  · split
    · rw [fecRecalcMinEndSeq_groups]
    · rfl

theorem claimGroup_isSome (h : s.fec.groups.isSome) (b : Seq) :
    (claimGroup s b).1.fec.groups.isSome := by
  unfold claimGroup
  split
  · exact h
  · rfl

theorem oldestGroup_lt (groups : List FecGroup) (b : Seq) : oldestGroup groups b < fecMaxGroups := by
  suffices h : ∀ (l : List ℕ) (acc : ℕ × ℤ), (∀ i ∈ l, i < fecMaxGroups) → acc.1 < fecMaxGroups →
      (l.foldl (fun (acc : ℕ × ℤ) i =>
        let diff := seqDiff b (groups.getD i FecGroup.empty).beginSeq
        if diff > acc.2 then (i, diff) else acc) acc).1 < fecMaxGroups from
    h _ _ (by simp) (by decide)
  intro l
  induction l with
  | nil => exact fun _ _ h => h
  | cons i l ih =>
    intro acc hl hacc
    rw [foldl_cons]
    refine ih _ (fun j hj => hl j (mem_cons_of_mem _ hj)) ?_
    dsimp only
    split
    · exact hl i mem_cons_self
    · exact hacc

theorem parseFecPacket_spec {data : List UInt8} {fr : FecFrame}
    (h : parseFecPacket data = some fr) :
    0 ≤ seqDiff fr.endSeq fr.beginSeq ∧ fr.k = (seqDiff fr.endSeq fr.beginSeq + 1).toNat ∧
      0 < fr.m ∧ fr.redundIdx < fr.m ∧ 12 ≤ fr.rtpLen ∧ fr.rtpLen ≤ bufferPoolBufferSize := by
  unfold parseFecPacket at h
  split at h
  · cases h
  split at h
  · cases h
  split at h
  · cases h
  split at h
  · cases h
  split at h
  · cases h
  dsimp only at h
  split at h
  · cases h
  split at h
  · cases h
  split at h
  · cases h
  split at h
  · cases h
  cases h
  dsimp only
  exact ⟨by omega, rfl, by omega, by omega, by omega, by omega⟩

/-- An active group has `m` parity slots and a range that runs forward. -/
structure GroupOk (g : FecGroup) : Prop where
  slots : ∀ l, g.fecSlots = some l → l.length = g.m
  range : g.active = true → 0 ≤ seqDiff g.endSeq g.beginSeq

structure GroupsOk (f : FecContext) : Prop where
  length : ∀ l, f.groups = some l → l.length = fecMaxGroups
  each : ∀ g ∈ f.groupList, GroupOk g

theorem groupOk_inactive {g : FecGroup} (h : g.fecSlots = none) : GroupOk g :=
  ⟨by simp [h], by simp [FecGroup.active, h]⟩

theorem GroupsOk.congr {f f' : FecContext} (hf : GroupsOk f) (h : f'.groups = f.groups) :
    GroupsOk f' := by
  refine ⟨h ▸ hf.length, ?_⟩
  rw [FecContext.groupList, h]
  exact hf.each

theorem claimGroup_lt {s : StreamContext} (h : GroupsOk s.fec) (hsome : s.fec.groups.isSome)
    (b : Seq) : (claimGroup s b).2.1 < (claimGroup s b).1.fec.groupList.length := by
  unfold claimGroup
  split
  · rename_i i hi
    exact (findIdx?_eq_some_iff_getElem.mp hi).1
  · obtain ⟨l, hl⟩ := isSome_iff_exists.mp hsome
    have hlen : s.fec.groupList.length = fecMaxGroups := by
      rw [FecContext.groupList, hl]
      exact h.length l hl
    simp only [freeGroup_groups, length_set, hlen]
    exact oldestGroup_lt _ _

namespace GroupsOk

theorem getD {f : FecContext} (h : GroupsOk f) (i : ℕ) :
    GroupOk (f.groupList.getD i FecGroup.empty) := by
  rw [getD_eq_getElem?_getD]
  cases hi : f.groupList[i]? with
  | none => exact groupOk_inactive rfl
  | some g => exact h.each g (mem_of_getElem? hi)

variable {s : StreamContext}

section

variable (h : GroupsOk s.fec)

include h

theorem setGroup (hsome : s.fec.groups.isSome) (i : ℕ) {g : FecGroup} (hg : GroupOk g) :
    GroupsOk (s.setGroup i g).fec := by
  obtain ⟨l, hl⟩ := isSome_iff_exists.mp hsome
  constructor
  · intro l' hl'
    simp only [StreamContext.setGroup, FecContext.groupList, hl, getD_some,
      Option.some.injEq] at hl'
    rw [← hl', length_set]
    exact h.length l hl
  · intro x hx
    rcases mem_or_eq_of_mem_set hx with hx | rfl
    · exact h.each x hx
    · exact hg

theorem freeGroup (hsome : s.fec.groups.isSome) (i : ℕ) : GroupsOk (s.freeGroup i).fec := by
  have h' := setGroup (s := (rtpReorderReleaseRange (s.group i).beginSeq (s.group i).endSeq
    s).logSlots (s.group i) (s.group i).m) (i := i) (g := { s.group i with fecSlots := none })
    (by simpa using h) (by simpa using hsome) (groupOk_inactive rfl)
  exact h'.congr rfl

theorem releaseExpired (base : Seq) : GroupsOk (fecReleaseExpiredGroups base s).fec := by
  rw [fecReleaseExpiredGroups]
  split
  · exact h
  · rename_i hnone
    refine congr (f := _) ?_ (fecRecalcMinEndSeq_groups _)
    have hsome : s.fec.groups.isSome := by simpa [isSome_iff_ne_none] using hnone
    clear hnone
    generalize List.range fecMaxGroups = l
    induction l generalizing s with
    | nil => exact h
    | cons i l ih =>
      rw [foldl_cons, releaseExpiredOne]
      split
      · exact ih (h.freeGroup hsome i) rfl
      · exact ih h hsome

theorem allocGroups : GroupsOk s.allocGroups.fec := by
  cases hg : s.fec.groups with
  | some l => exact h.congr (by simp [StreamContext.allocGroups, hg])
  | none =>
    constructor
    · intro l hl
      simp only [StreamContext.allocGroups, hg, getD_none, Option.some.injEq] at hl
      rw [← hl, length_replicate]
    · intro g hm
      simp only [StreamContext.allocGroups, FecContext.groupList, hg, getD_none,
        getD_some, mem_replicate] at hm
      rw [hm.2]
      exact groupOk_inactive rfl

theorem claimGroup (hsome : s.fec.groups.isSome) (b : Seq) : GroupsOk (claimGroup s b).1.fec := by
  unfold Rtp2httpd.claimGroup
  split
  · exact h
  · exact h.freeGroup hsome _

end

variable {fr : FecFrame}

theorem initGroup (h : GroupsOk s.fec) (hsome : s.fec.groups.isSome)
    (hfr : 0 ≤ seqDiff fr.endSeq fr.beginSeq) (i : ℕ) (ev : Bool) :
    GroupsOk (initGroup s fr i ev).fec :=
  (h.setGroup hsome i (g := newGroup fr) ⟨by simp [newGroup], fun _ => hfr⟩).congr
    (initGroup_groups s fr i ev)

theorem findOrCreate (h : GroupsOk s.fec) (hfr : 0 ≤ seqDiff fr.endSeq fr.beginSeq) :
    GroupsOk (fecFindOrCreateGroup fr s).1.fec := by
  unfold fecFindOrCreateGroup
  split
  · exact h
  · dsimp only
    split
    · exact h.allocGroups
    · exact (h.allocGroups.claimGroup rfl _).initGroup (claimGroup_isSome _ rfl _) hfr _ _

theorem storeParity (h : GroupsOk s.fec) (hsome : s.fec.groups.isSome) (fr : FecFrame) {i : ℕ}
    (hact : (s.group i).active = true) : GroupsOk (storeParity s fr i).fec := by
  simp only [Rtp2httpd.storeParity]
  split
  · exact h
  · obtain ⟨l, hl⟩ := isSome_iff_exists.mp hact
    have hg : GroupOk (s.group i) := h.getD i
    refine setGroup (s := s.log _) h hsome i ⟨fun l' hl' => ?_, fun _ => hg.range hact⟩
    have hlen := hg.slots l hl
    simp only [hl, getD_some, Option.some.injEq] at hl'
    rw [← hl', length_set, hlen]

/-- The group a packet ends up in: an existing one of its range, or a new one. -/
theorem findOrCreate_some {s t : StreamContext} (h : GroupsOk s.fec) {i : ℕ}
    (hres : fecFindOrCreateGroup fr s = (t, some i)) :
    t.fec.groups.isSome ∧ (t.group i).active = true ∧
      (existingGroup fr s.allocGroups.fec = some i ∧ t = s.allocGroups ∨
        existingGroup fr s.allocGroups.fec = none ∧ t.group i = newGroup fr) := by
  unfold fecFindOrCreateGroup at hres
  split at hres
  · simp at hres
  · dsimp only at hres
    split at hres
    · rename_i j hj
      obtain ⟨rfl, rfl⟩ := hres
      refine ⟨rfl, ?_, .inl ⟨hj, rfl⟩⟩
      obtain ⟨hlt, hp, -⟩ := findIdx?_eq_some_iff_getElem.mp hj
      simp only [FecGroup.isFor, Bool.and_eq_true] at hp
      rw [StreamContext.group, getD_eq_getElem?_getD, getElem?_eq_getElem hlt]
      exact hp.1.1
    · rename_i hj
      obtain ⟨rfl, rfl⟩ := hres
      have hnew : (Rtp2httpd.initGroup (Rtp2httpd.claimGroup s.allocGroups fr.beginSeq).1 fr
          (Rtp2httpd.claimGroup s.allocGroups fr.beginSeq).2.1
          (Rtp2httpd.claimGroup s.allocGroups fr.beginSeq).2.2).group
          (Rtp2httpd.claimGroup s.allocGroups fr.beginSeq).2.1 = newGroup fr := by
        have hlt := claimGroup_lt h.allocGroups rfl fr.beginSeq
        simp only [StreamContext.group, FecContext.groupList, initGroup_groups]
        simp only [StreamContext.setGroup, getD_some, getD_set, true_and]
        rw [if_pos hlt]
      refine ⟨?_, ?_, .inr ⟨hj, hnew⟩⟩
      · rw [initGroup_groups]
        rfl
      · rw [hnew]
        rfl

theorem processPacket (h : GroupsOk s.fec) (data : List UInt8) :
    GroupsOk (fecProcessPacket data s).fec := by
  unfold fecProcessPacket
  split
  · exact h
  · rename_i fr hfr
    have hspec := (parseFecPacket_spec hfr).1
    have h1 : GroupsOk ({ s with fec := { s.fec with fecActive := true } } : StreamContext).fec :=
      h.congr rfl
    have h2 := h1.findOrCreate hspec
    dsimp only
    split
    · rename_i hres
      rw [hres] at h2
      exact h2
    · rename_i hres
      rw [hres] at h2
      obtain ⟨hsome, hact, -⟩ := h1.findOrCreate_some hres
      exact h2.storeParity hsome fr hact

end GroupsOk

end Apackage.Rtp2httpd
