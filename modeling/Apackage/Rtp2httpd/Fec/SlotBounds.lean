import Apackage.Rtp2httpd.Reorder.Walk

/-
  Accesses to the parity slots of a FEC group, in runs of RTP and FEC packets that may end with
  `fec_cleanup`.

  A group has as many parity slots as the packet announced that created it. A later packet of the
  same range indexes them with `redund_idx`, which `fec_process_packet` compares with the `m` of
  this packet: all accesses of a run are in bounds exactly when each packet that finds a group has
  an index below the `m` of that group (`slotAccess_inBounds_iff`).
-/

namespace Apackage.Rtp2httpd

open List Lib.Serial Lib.Run

def fecFreeGroup (s : StreamContext) (i : ℕ) : StreamContext :=
  if (s.group i).active then
    (s.logSlots (s.group i) (s.group i).m).setGroup i { s.group i with fecSlots := none }
  else s

def fecCleanup (s : StreamContext) : StreamContext :=
  if ¬ s.fec.initialized then s
  else
    let t := if s.fec.groups.isSome then (List.range fecMaxGroups).foldl fecFreeGroup s else s
    { t with fec := { t.fec with
        groups := none, groupCount := 0, rsDecoder := none, initialized := false } }

/-- An access is to an existing slot. -/
@[simp] def Obs.InBounds : Obs → Prop
  | .slotAccess i n => i < n
  | _ => True

/-- Every access recorded so far is to an existing slot. -/
def InBounds (tr : List Obs) : Prop := ∀ o ∈ tr, o.InBounds

@[simp] theorem inBounds_cons (o : Obs) (tr : List Obs) :
    InBounds (o :: tr) ↔ o.InBounds ∧ InBounds tr := forall_mem_cons

/-- Between `s` and `t` parity slots were accessed in bounds only. -/
structure SafeStep (s t : StreamContext) : Prop where
  groups : GroupsOk t.fec
  bounds : InBounds t.trace ↔ InBounds s.trace

namespace SafeStep

variable {s t u : StreamContext}

theorem refl (h : GroupsOk s.fec) : SafeStep s s := ⟨h, Iff.rfl⟩

theorem trans (h : SafeStep s t) (h' : SafeStep t u) : SafeStep s u :=
  ⟨h'.groups, h'.bounds.trans h.bounds⟩

theorem of_eq (h : GroupsOk s.fec) (hg : t.fec.groups = s.fec.groups) (ht : t.trace = s.trace) :
    SafeStep s t :=
  ⟨h.congr hg, by rw [ht]⟩

end SafeStep

/-! ## Freeing groups -/

theorem releaseOne_inBounds (s : StreamContext) (q : Seq) :
    InBounds (releaseOne s q).trace ↔ InBounds s.trace := by
  simp only [releaseOne]
  split
  · rfl
  · split
    · simp
    · rfl

theorem rtpReorderReleaseRange_inBounds (b e : Seq) (s : StreamContext) :
    InBounds (rtpReorderReleaseRange b e s).trace ↔ InBounds s.trace := by
  unfold rtpReorderReleaseRange
  induction seqRange b e generalizing s with
  | nil => rfl
  | cons q l ih => rw [foldl_cons, ih, releaseOne_inBounds]

variable {g : FecGroup}

theorem logSlots_inBounds (s : StreamContext) {n : ℕ} (h : n ≤ (g.fecSlots.getD []).length) :
    InBounds (s.logSlots g n).trace ↔ InBounds s.trace := by
  unfold StreamContext.logSlots
  induction n with
  | zero => rfl
  | succ n ih =>
    rw [range_succ, foldl_append, foldl_cons, foldl_nil,
      StreamContext.log_trace, inBounds_cons, ih (by omega)]
    exact and_iff_right (show n < _ by omega)

theorem GroupOk.slots_length (h : GroupOk g) (hact : g.active = true) :
    (g.fecSlots.getD []).length = g.m := by
  obtain ⟨l, hl⟩ := Option.isSome_iff_exists.mp hact
  rw [hl]
  exact h.slots l hl

variable {s : StreamContext}

section

variable (h : GroupsOk s.fec)

include h

theorem safeStep_freeGroup (hsome : s.fec.groups.isSome) {i : ℕ}
    (hact : (s.group i).active = true) : SafeStep s (s.freeGroup i) := by
  refine ⟨h.freeGroup hsome i, ?_⟩
  have hlen := GroupOk.slots_length (h.getD i) hact
  exact (logSlots_inBounds _ (g := s.group i) (le_of_eq hlen.symm)).trans
    (rtpReorderReleaseRange_inBounds _ _ s)

theorem safeStep_releaseExpiredGroups (base : Seq) :
    SafeStep s (fecReleaseExpiredGroups base s) := by
  refine ⟨h.releaseExpired base, ?_⟩
  rw [fecReleaseExpiredGroups]
  split
  · rfl
  · rename_i hnone
    have hsome : s.fec.groups.isSome := by simpa [Option.isSome_iff_ne_none] using hnone
    clear hnone
    generalize List.range fecMaxGroups = l
    induction l generalizing s with
    | nil => rfl
    | cons i l ih =>
      rw [foldl_cons, releaseExpiredOne]
      split
      · rename_i hexp
        simp only [FecGroup.expired, Bool.and_eq_true] at hexp
        have hfree := safeStep_freeGroup h hsome hexp.1
        exact (ih hfree.groups rfl).trans hfree.bounds
      · exact ih h hsome

theorem safeStep_fecFreeGroup (hsome : s.fec.groups.isSome) (i : ℕ) :
    SafeStep s (fecFreeGroup s i) ∧ (fecFreeGroup s i).fec.groups.isSome := by
  rw [fecFreeGroup]
  split
  · rename_i hact
    have hlen := GroupOk.slots_length (h.getD i) hact
    have h' : GroupsOk (s.logSlots (s.group i) (s.group i).m).fec := by simpa using h
    exact ⟨⟨h'.setGroup (by simpa using hsome) i (groupOk_inactive rfl),
      logSlots_inBounds _ (g := s.group i) (le_of_eq hlen.symm)⟩, rfl⟩
  · exact ⟨.refl h, hsome⟩

theorem fecCleanup_inBounds : InBounds (fecCleanup s).trace ↔ InBounds s.trace := by
  rw [fecCleanup]
  split
  · rfl
  · rename_i hinit
    clear hinit
    split
    · rename_i hsome
      generalize List.range fecMaxGroups = l
      induction l generalizing s with
      | nil => rfl
      | cons i l ih =>
        obtain ⟨hfree, hsome'⟩ := safeStep_fecFreeGroup h hsome i
        rw [foldl_cons]
        exact (ih hfree.groups hsome').trans hfree.bounds
    · rfl

end

/-! ## RTP packets -/

theorem parityIterations_le (g : FecGroup) : g.parityIterations ≤ g.m := by
  unfold FecGroup.parityIterations
  split
  · exact le_rfl
  · rename_i i hi
    have hlt := (findIdx?_eq_some_iff_getElem.mp hi).1
    rw [length_range] at hlt
    omega

theorem recoverFrom_inBounds (hg : GroupOk g) (hact : g.active = true) (target : ℕ)
    (s : StreamContext) : InBounds (recoverFrom g target s).1.trace ↔ InBounds s.trace := by
  have hlog : ∀ t : StreamContext, t.trace = s.trace →
      (InBounds (t.logSlots g g.parityIterations).trace ↔ InBounds s.trace) := by
    intro t ht
    rw [logSlots_inBounds t (by rw [hg.slots_length hact]; exact parityIterations_le g), ht]
  unfold recoverFrom
  dsimp only
  split
  · rfl
  · split
    · exact hlog _ rfl
    · split
      · exact hlog _ rfl
      · exact hlog _ rfl

section

variable (h : GroupsOk s.fec)

include h

theorem safeStep_attemptRecovery (q : Seq) : SafeStep s (fecAttemptRecovery q s).1 := by
  refine ⟨h.congr (fecAttemptRecovery_groups q s), ?_⟩
  simp only [fecAttemptRecovery]
  split
  · rfl
  split
  · rfl
  rename_i g hg
  have hact : g.active = true := by
    have := find?_some hg
    simp only [Bool.and_eq_true] at this
    exact this.1
  have hok : GroupOk g := h.each g (mem_of_find?_eq_some hg)
  split
  · rfl
  split
  · rfl
  split
  · rfl
  split
  · rfl
  · exact recoverFrom_inBounds hok hact _ s

theorem safeStep_flushConsecutive (conn : Conn) : SafeStep s (flushConsecutive conn s) := by
  have hloop : SafeStep s (flushLoop conn (fecIsEnabled s.fec) s) := by
    refine iterWhile_inv (P := SafeStep s) (fun t ht hc => ht.trans ?_) (.refl h) _
    obtain ⟨-, buf, hbuf⟩ := flushCond_iff.mp hc
    obtain ⟨-, -, -, -, hf⟩ := flushBody_fields conn (fecIsEnabled s.fec) hc
    refine ⟨ht.groups.congr (by rw [hf]), ?_⟩
    rw [flushBody_of_some hbuf]
    split <;> simp
  refine hloop.trans ?_
  rw [flushConsecutive, releaseExpired]
  split
  · exact safeStep_releaseExpiredGroups hloop.groups _
  · exact .refl hloop.groups

theorem safeStep_makeRoom (conn : Conn) (q : Seq) : SafeStep s (makeRoom conn q s) := by
  rw [makeRoom]
  split
  · refine iterWhile_inv (P := SafeStep s) (fun t ht _ => ht.trans ?_) (.refl h) _
    cases hb : t.reorder.slots (t.slot t.base) with
    | none =>
      obtain ⟨f, hf, hg⟩ := forceFlushBody_of_none conn hb
      rw [hf]
      exact .of_eq ht.groups hg rfl
    | some buf =>
      rw [forceFlushBody_of_some hb]
      exact ⟨ht.groups, by simp⟩
  · exact .refl h

theorem safeStep_recoverHead (conn : Conn) : SafeStep s (recoverHead conn s) := by
  rw [recoverHead]
  split
  · have hrec := safeStep_attemptRecovery h s.base
    split
    · rename_i hres
      rw [hres] at hrec
      exact hrec
    · rename_i t data hres
      rw [hres] at hrec
      have hd : SafeStep t (deliverRecovered conn data t) := by
        rw [deliverRecovered]
        split
        · exact ⟨hrec.groups, by simp⟩
        · exact ⟨hrec.groups, by simp⟩
      exact (hrec.trans hd).trans (safeStep_flushConsecutive hd.groups conn)
  · exact .refl h

theorem safeStep_insertActive (conn : Conn) (buf : BufferRef) (q : Seq) :
    SafeStep s (insertActive conn buf q s) := by
  have hstore : ∀ {t}, SafeStep s t → SafeStep s (t.storePacket buf q) :=
    fun ht => ht.trans (.of_eq ht.groups rfl rfl)
  rw [insertActive]
  split
  · rw [insertExpected]
    split
    · exact ⟨h, by simp [deliverInOrder]⟩
    · exact (hstore (.refl h)).trans (safeStep_flushConsecutive (hstore (.refl h)).groups conn)
  · split
    · exact .refl h
    · have hm := safeStep_makeRoom h conn q
      rw [insertAhead]
      split
      · exact hm
      · exact (hstore hm).trans (safeStep_recoverHead (hstore hm).groups conn)

theorem safeStep_insert (conn : Conn) (buf : BufferRef) (q : Seq) :
    SafeStep s (rtpReorderInsert conn buf q s) := by
  have h0 : SafeStep s s.resetBytes := .of_eq h rfl rfl
  cases hp : s.reorder.phase with
  | notStarted =>
    rw [insert_of_notStarted hp]
    exact .of_eq h rfl rfl
  | collecting =>
    have hc : SafeStep s (collectPacket buf q s.resetBytes) := by
      rw [collectPacket_eq]
      split
      · exact h0
      · exact .of_eq h rfl rfl
    rw [insert_of_collecting hp]
    split
    · have ha : SafeStep (collectPacket buf q s.resetBytes)
          (activate (collectPacket buf q s.resetBytes)) := ⟨hc.groups, by simp [activate]⟩
      exact (hc.trans ha).trans (safeStep_flushConsecutive ha.groups conn)
    · exact hc
  | active =>
    rw [insert_of_active hp]
    exact h0.trans (safeStep_insertActive h0.groups conn buf q)

end

/-! ## FEC packets -/

theorem initGroup_trace (s : StreamContext) (fr : FecFrame) (i : ℕ) (ev : Bool) :
    (initGroup s fr i ev).trace = s.trace := by
  simp only [initGroup]
  split
  · rfl
  · split <;> rfl

theorem safeStep_findOrCreate (h : GroupsOk s.fec) {fr : FecFrame}
    (hfr : 0 ≤ seqDiff fr.endSeq fr.beginSeq) : SafeStep s (fecFindOrCreateGroup fr s).1 := by
  refine ⟨h.findOrCreate hfr, ?_⟩
  unfold fecFindOrCreateGroup
  split
  · rfl
  dsimp only
  split
  · rfl
  rw [initGroup_trace, claimGroup]
  split
  · rfl
  · rename_i hfree
    -- every group is in use, so the evicted one has its slots
    have hlt : oldestGroup s.allocGroups.fec.groupList fr.beginSeq <
        s.allocGroups.fec.groupList.length := by
      have hlen : s.allocGroups.fec.groupList.length = fecMaxGroups := h.allocGroups.length _ rfl
      rw [hlen]
      exact oldestGroup_lt _ _
    have hact : (s.allocGroups.group
        (oldestGroup s.allocGroups.fec.groupList fr.beginSeq)).active = true := by
      have := findIdx?_eq_none_iff.mp hfree _ (getElem_mem hlt)
      rw [StreamContext.group, getD_eq_getElem?_getD, getElem?_eq_getElem hlt]
      simpa using this
    exact (safeStep_freeGroup h.allocGroups rfl hact).bounds

/-- The index of a packet that finds a group of its range is below the `m` of this group. -/
def IndexFits (s : StreamContext) : Input → Prop
  | .rtp _ _ => True
  | .fecPacket data => s.fec.initialized = true → ∀ fr, parseFecPacket data = some fr →
      ¬ 0 < seqDiff s.base fr.endSeq → ∀ i, existingGroup fr s.fec = some i →
        fr.redundIdx < (s.group i).m

theorem existingGroup_allocGroups (fr : FecFrame) (s : StreamContext) :
    existingGroup fr s.allocGroups.fec = existingGroup fr s.fec := by
  cases hg : s.fec.groups with
  | some l => simp [existingGroup, FecContext.groupList, StreamContext.allocGroups, hg]
  | none =>
    simp [existingGroup, FecContext.groupList, StreamContext.allocGroups, hg, FecGroup.isFor,
      FecGroup.active, FecGroup.empty]

theorem group_allocGroups {fr : FecFrame} {i : ℕ} (h : existingGroup fr s.fec = some i) :
    s.allocGroups.group i = s.group i := by
  cases hg : s.fec.groups with
  | some l => simp [StreamContext.group, FecContext.groupList, StreamContext.allocGroups, hg]
  | none => simp [existingGroup, FecContext.groupList, hg] at h

theorem storeParity_inBounds (h : GroupsOk s.fec) (fr : FecFrame) {i : ℕ}
    (hact : (s.group i).active = true) :
    InBounds (storeParity s fr i).trace ↔ fr.redundIdx < (s.group i).m ∧ InBounds s.trace := by
  have hlen := GroupOk.slots_length (h.getD i) hact
  rw [← StreamContext.group] at hlen
  rw [← hlen]
  simp only [storeParity]
  split
  · exact inBounds_cons _ _
  · exact inBounds_cons _ _

theorem fecProcessPacket_inBounds (h : GroupsOk s.fec) (data : List UInt8) :
    InBounds (fecProcessPacket data s).trace ↔ InBounds s.trace ∧
      ∀ fr, parseFecPacket data = some fr → ¬ 0 < seqDiff s.base fr.endSeq →
        ∀ i, existingGroup fr s.fec = some i → fr.redundIdx < (s.group i).m := by
  unfold fecProcessPacket
  cases hparse : parseFecPacket data with
  | none => simp
  | some fr =>
    obtain ⟨hfr, -, -, hidx, -⟩ := parseFecPacket_spec hparse
    have h1 : GroupsOk ({ s with fec := { s.fec with fecActive := true } } : StreamContext).fec :=
      h.congr rfl
    have hfind := safeStep_findOrCreate h1 hfr
    have hbounds := hfind.bounds
    simp only [Option.some.injEq, forall_eq']
    cases hres : fecFindOrCreateGroup fr { s with fec := { s.fec with fecActive := true } } with
    | mk t i =>
      rw [hres] at hfind hbounds
      cases i with
      | none =>
        have hexp : 0 < seqDiff s.base fr.endSeq := by
          by_contra hexp
          rw [fecFindOrCreateGroup, if_neg hexp] at hres
          dsimp only at hres
          split at hres <;> simp at hres
        simpa [hexp] using hbounds
      | some i =>
        have hexp : ¬ 0 < seqDiff s.base fr.endSeq := by
          intro hexp
          rw [fecFindOrCreateGroup, if_pos hexp] at hres
          simp at hres
        obtain ⟨-, hact, hgroup⟩ := h1.findOrCreate_some hres
        rw [storeParity_inBounds hfind.groups fr hact, hbounds, and_comm]
        refine and_congr_right (fun _ => ?_)
        simp only [hexp, not_false_eq_true, forall_const]
        rw [existingGroup_allocGroups] at hgroup
        have hsame : existingGroup fr { s.fec with fecActive := true } =
            existingGroup fr s.fec := rfl
        rw [hsame] at hgroup
        rcases hgroup with ⟨hex, rfl⟩ | ⟨hex, hnew⟩
        · simp only [hex, Option.some.injEq, forall_eq']
          rw [← group_allocGroups hex]
          rfl
        · simp only [hex, reduceCtorEq, false_implies, implies_true, iff_true]
          rw [hnew]
          exact hidx

theorem streamStep_inBounds (h : GroupsOk s.fec) (conn : Conn) (e : Input) :
    GroupsOk (streamStep conn s e).fec ∧
      (InBounds (streamStep conn s e).trace ↔ InBounds s.trace ∧ IndexFits s e) := by
  cases e with
  | rtp buf q =>
    have hs := safeStep_insert h conn buf q
    exact ⟨hs.groups, hs.bounds.trans (and_iff_left trivial).symm⟩
  | fecPacket data =>
    rw [streamStep]
    split
    · rename_i hinit
      refine ⟨h.processPacket data, (fecProcessPacket_inBounds h data).trans ?_⟩
      simp [IndexFits, hinit]
    · tauto

/-- All accesses of a run, the final cleanup included, are in bounds if and only if each FEC
    packet that finds a group has an index below the `m` of the group. -/
theorem slotAccess_inBounds_iff (conn : Conn) (useFec : Bool) (port : BitVec 16)
    (es : List Input) :
    InBounds (fecCleanup (run (streamStep conn) (.init useFec (fecInit port)) es)).trace ↔
      Along (streamStep conn) IndexFits (.init useFec (fecInit port)) es := by
  have h0 : GroupsOk (StreamContext.init useFec (fecInit port)).fec :=
    ⟨by simp [StreamContext.init, fecInit, FecContext.zero],
      by simp [StreamContext.init, fecInit, FecContext.zero, FecContext.groupList]⟩
  have hI : ∀ s e, GroupsOk s.fec → GroupsOk (streamStep conn s e).fec :=
    fun s e hs => (streamStep_inBounds hs conn e).1
  have hP : ∀ s e, GroupsOk s.fec →
      (InBounds (streamStep conn s e).trace ↔ InBounds s.trace ∧ IndexFits s e) :=
    fun s e hs => (streamStep_inBounds hs conn e).2
  have hrun := run_iff_along (I := fun s : StreamContext => GroupsOk s.fec)
    (P := fun s => InBounds s.trace) hI hP h0 es
  rw [fecCleanup_inBounds hrun.1, hrun.2]
  exact and_iff_right (by simp [StreamContext.init, InBounds])

/-- Two parities of one range: the first makes a group with one slot, the second is the last
    of five. -/
def widerParityRun : List Input :=
  [.fecPacket [0x80, 127, 0, 0, 0, 0, 0, 0, 0, 0, 0, 0, 0, 8, 0, 9, 1, 0, 0, 0, 0, 13, 0, 0],
    .fecPacket [0x80, 127, 0, 1, 0, 0, 0, 0, 0, 0, 0, 0, 0, 8, 0, 9, 5, 4, 0, 0, 0, 13, 0, 0]]

/-- The second parity is stored in slot 4 of 1. -/
theorem slotAccess_out_of_bounds : ¬ InBounds (fecCleanup
      (run (streamStep (fun _ => 0)) (.init true (fecInit 1)) widerParityRun)).trace := by
  intro h
  exact absurd (h (.slotAccess 4 1) (by decide +kernel)) (show ¬ 4 < 1 by decide)

end Apackage.Rtp2httpd
