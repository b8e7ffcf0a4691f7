import Apackage.OpenAppFilter.Gateway

/-
  The address rules and the packets of a connection in the gateway.

  A drop by an address rule and one by an application rule share a bit of the mark. When the
  application rules have just been changed and do not match the id in the mark, the hook clears the
  bit, whoever set it, and accepts the packet (`block_lifted`). `mac_block_stays` says which packets
  keep the block.
-/

namespace Apackage.OpenAppFilter

open Lib.Run

/-! ## Marked connections -/

/-- The packet leaves a drop mark alone: the application rules do not decide anew that the id goes
    on, and an id that is not valid is looked for again. -/
def Keeps (hz : ℕ) (g : Filters) (mac : Mac) (mark : Mark) (p : Packet) : Prop :=
  (1000 < fwxCtGetAppid mark ∧ fwxCtGetAppid mark ≤ 32000 ∧
      recentlyChanged hz g.appFilter p.jiffies = true →
    appMatches g (fwxCtGetAppid mark) mac = true) ∧
  (32000 < fwxCtGetAppid mark → ∃ total ∈ p.acct, total ≤ maxDpiPktNum ∧ p.readable = true)

section Marked

variable {hz : ℕ} {g : Filters} {mac : Mac} {mark : Mark} {p : Packet} {r : Handled Mark}

theorem gateway_unidentified (hhandled : p.guards.gateway = true)
    (hid : fwxCtIsValidAppid (fwxCtGetAppid mark) = false) :
    fwxHookGatewayHandle hz g mac mark p =
      if fwxCtTestBit mark fwxCtDropBit && fwxCtHasValidDropMark mark then
        .ok ⟨mark, .drop, false⟩
      else
        match p.acct with
        | none => .ok ⟨mark, .accept, false⟩
        | some totalPackets =>
          if maxDpiPktNum < totalPackets || !p.readable then .ok ⟨mark, .accept, false⟩
          else gatewayDpi g mac mark p := by
  have hcached : gatewayCached hz g mac mark p = .ok (mark, false) := by
    unfold gatewayCached
    dsimp only
    rw [hid]
    rfl
  unfold fwxHookGatewayHandle
  rw [hhandled, hcached]
  show (if (_ && _) = true then _ else if fwxCtIsValidAppid (fwxCtGetAppid mark) = true then _
    else _) = _
  rw [hid]
  rfl

theorem gatewayDpi_cases (h : gatewayDpi g mac mark p = .ok r) :
    ∃ m, r = ⟨fwxCtSetBit m fwxCtDropBit true, .drop, false⟩ ∨ r = gatewayMac g mac m := by
  unfold gatewayDpi at h
  cases hf : p.feature with
  | none =>
    rw [hf] at h
    cases h
    exact ⟨_, .inr rfl⟩
  | some feature =>
    rw [hf] at h
    dsimp only at h
    cases hmatch : matchAppFilterRule g feature.appId mac with
    | error stop =>
      rw [hmatch] at h
      cases h
    | ok matched =>
      rw [hmatch] at h
      cases matched with
      | true =>
        cases h
        exact ⟨_, .inl rfl⟩
      | false =>
        simp only [bind, Except.bind, Bool.false_eq_true, if_false, pure, Except.pure,
          Except.ok.injEq] at h
        exact ⟨_, .inr h.symm⟩

theorem gatewayDpi_blocked (hmac : matchMacFilterRule g mac = true)
    (h : gatewayDpi g mac mark p = .ok r) :
    r.verdict = .drop ∧ fwxCtTestBit r.conn fwxCtDropBit = true := by
  have hend : ∀ m : Mark, gatewayMac g mac m = ⟨fwxCtSetBit m fwxCtDropBit true, .drop, true⟩ :=
    fun m => if_pos hmac
  obtain ⟨m, rfl | rfl⟩ := gatewayDpi_cases h
  · exact ⟨rfl, fwxCtTestBit_setDrop _⟩
  · rw [hend]
    exact ⟨rfl, fwxCtTestBit_setDrop _⟩

/-- A packet of a connection with the drop bit, whose client the address rules block, is dropped if
    and only if it keeps the mark. -/
theorem gateway_marked (hhandled : p.guards.gateway = true)
    (hbit : fwxCtTestBit mark fwxCtDropBit = true) (hmac : matchMacFilterRule g mac = true)
    (h : fwxHookGatewayHandle hz g mac mark p = .ok r) :
    (r.verdict = .drop ↔ Keeps hz g mac mark p) ∧
      (r.verdict = .drop → fwxCtTestBit r.conn fwxCtDropBit = true) := by
  unfold Keeps
  cases hid : fwxCtIsValidAppid (fwxCtGetAppid mark) with
  | true =>
    obtain ⟨hpos, hle⟩ := validAppid_iff.1 hid
    obtain ⟨mark', hmark, -, hbit'⟩ := gateway_identified hz g mac hhandled hid
    rw [hmark] at h
    cases h
    rw [Verdict.ofDrop_eq_drop, hbit', hbit]
    refine ⟨?_, id⟩
    by_cases hanew : 1000 < fwxCtGetAppid mark ∧ recentlyChanged hz g.appFilter p.jiffies = true
    · rw [decision_anew hanew.1 hanew.2]
      exact ⟨fun hm => ⟨fun _ => hm, fun hn => by omega⟩, fun hk => hk.1 ⟨hanew.1, hle, hanew.2⟩⟩
    · rw [decision_kept hanew]
      exact ⟨fun _ => ⟨fun hn => absurd ⟨hn.1, hn.2.2⟩ hanew, fun hn => by omega⟩, fun _ => rfl⟩
  | false =>
    rw [gateway_unidentified hhandled hid, hbit, Bool.true_and] at h
    have hrange : fwxCtGetAppid mark = 0 ∨ 32000 < fwxCtGetAppid mark := by
      by_contra hn
      rw [validAppid_iff.2 (by omega)] at hid
      exact Bool.noConfusion hid
    rcases hrange with hzero | hlarge
    · have hvalid : fwxCtHasValidDropMark mark = true := by
        unfold fwxCtHasValidDropMark
        rw [hbit, hzero]
        rfl
      rw [if_pos hvalid] at h
      cases h
      exact ⟨iff_of_true rfl ⟨fun hn => by omega, fun hn => by omega⟩, fun _ => hbit⟩
    · have hinvalid : fwxCtHasValidDropMark mark = false := by
        unfold fwxCtHasValidDropMark
        rw [hid, Bool.or_false, decide_eq_false (by omega), Bool.and_false]
      rw [hinvalid, if_neg Bool.false_ne_true] at h
      have hsmall : ¬ (1000 < fwxCtGetAppid mark ∧ fwxCtGetAppid mark ≤ 32000 ∧
          recentlyChanged hz g.appFilter p.jiffies = true) := fun hn => by omega
      have hunseen : ∀ {s : Handled Mark}, (.ok ⟨mark, .accept, false⟩ : Except Stop _) = .ok s →
          s.verdict ≠ .drop := by
        rintro s ⟨⟩
        exact fun hn => Verdict.noConfusion hn
      cases hacct : p.acct with
      | none =>
        rw [hacct] at h
        refine ⟨iff_of_false (hunseen h) fun hk => ?_, fun hd => absurd hd (hunseen h)⟩
        obtain ⟨total, htotal, -⟩ := hk.2 hlarge
        cases htotal
      | some total =>
        rw [hacct] at h
        dsimp only at h
        by_cases hskip : (maxDpiPktNum < total || !p.readable) = true
        · rw [if_pos hskip] at h
          refine ⟨iff_of_false (hunseen h) fun hk => ?_, fun hd => absurd hd (hunseen h)⟩
          obtain ⟨total', htotal, hle, hread⟩ := hk.2 hlarge
          cases htotal
          rw [hread, Bool.not_true, Bool.or_false, decide_eq_true_iff] at hskip
          omega
        · rw [if_neg hskip] at h
          obtain ⟨hdrop, hbit'⟩ := gatewayDpi_blocked hmac h
          refine ⟨iff_of_true hdrop ⟨fun hn => absurd hn hsmall, fun _ => ⟨total, rfl, ?_⟩⟩,
            fun _ => hbit'⟩
          rw [Bool.or_eq_true, decide_eq_true_iff] at hskip
          cases hread : p.readable <;> simp_all

/-- A hook that comes back drops the packet. -/
def Drops (r : Except Stop (Handled Mark)) : Prop :=
  match r with
  | .ok r => r.verdict = .drop
  | .error _ => True

instance (r : Except Stop (Handled Mark)) : Decidable (Drops r) := by
  unfold Drops
  split <;> infer_instance

theorem gateway_drops_iff (hhandled : p.guards.gateway = true)
    (hbit : fwxCtTestBit mark fwxCtDropBit = true) (hmac : matchMacFilterRule g mac = true) :
    Drops (fwxHookGatewayHandle hz g mac mark p) ↔ Keeps hz g mac mark p := by
  cases hrun : fwxHookGatewayHandle hz g mac mark p with
  | ok r => exact (gateway_marked hhandled hbit hmac hrun).1
  | error stop =>
    -- only the rules for a new id can stop the hook, and the packet is looked at then
    refine iff_of_true trivial ?_
    cases hid : fwxCtIsValidAppid (fwxCtGetAppid mark) with
    | true =>
      obtain ⟨mark', hmark, -⟩ := gateway_identified hz g mac hhandled hid
      rw [hmark] at hrun
      cases hrun
    | false =>
      rw [gateway_unidentified hhandled hid] at hrun
      split at hrun
      · cases hrun
      split at hrun
      · cases hrun
      split at hrun
      · cases hrun
      · rename_i total hacct hseen
        rw [Bool.or_eq_true, decide_eq_true_iff, not_or, not_lt, Bool.not_eq_true'] at hseen
        refine ⟨fun hn => ?_, fun _ => ⟨total, hacct, hseen.1, Bool.not_eq_false _ ▸ hseen.2⟩⟩
        rw [validAppid_iff.2 (by omega)] at hid
        exact Bool.noConfusion hid

theorem gateway_byMac (h : fwxHookGatewayHandle hz g mac mark p = .ok r) (hby : r.byMac = true) :
    matchMacFilterRule g mac = true ∧ fwxCtTestBit r.conn fwxCtDropBit = true := by
  cases hhandled : p.guards.gateway with
  | false =>
    unfold fwxHookGatewayHandle at h
    rw [hhandled] at h
    cases h
    cases hby
  | true =>
    cases hid : fwxCtIsValidAppid (fwxCtGetAppid mark) with
    | true =>
      obtain ⟨mark', hmark, -⟩ := gateway_identified hz g mac hhandled hid
      rw [hmark] at h
      cases h
      cases hby
    | false =>
      rw [gateway_unidentified hhandled hid] at h
      split at h
      · cases h
        cases hby
      split at h
      · cases h
        cases hby
      split at h
      · cases h
        cases hby
      · obtain ⟨m, rfl | rfl⟩ := gatewayDpi_cases h
        · cases hby
        · unfold gatewayMac at hby ⊢
          cases hmac : matchMacFilterRule g mac with
          | true => exact ⟨rfl, fwxCtTestBit_setDrop _⟩
          | false =>
            rw [hmac] at hby
            cases hby

end Marked

/-! ## Runs -/

inductive GatewayEvent
  | call (jiffies : ℕ) (request : AppRequest)
  | appfilterEnable (on : Bool)
  | macs (on : Bool) (whitelist : MacConfig) (filter : MacFilter)
  | packet (p : Packet)

/-- The filters and the mark; and, for the statement only, whether an address rule has dropped a
    packet, and the rules have blocked the client since. -/
structure Guarded where
  filters : Filters
  mark : Mark
  held : Bool

section Runs

variable (scan : List Char → Option UInt8) (scanRange : String → Option (Int32 × Int32))
  (kstrtoint : String → Option Int32) (hz : ℕ) (mac : Mac)

def guardedStep (s : Except Stop Guarded) (e : GatewayEvent) : Except Stop Guarded := do
  let w ← s
  match e with
  | .call jiffies request =>
    let f ← appFilterStep scan scanRange kstrtoint jiffies w.filters.appFilter request
    return { w with filters := { w.filters with appFilter := f } }
  | .appfilterEnable on => return { w with filters := { w.filters with appfilterEnable := on } }
  | .macs on whitelist filter =>
    let filters :=
      { w.filters with macFilterEnable := on, macWhitelist := whitelist, macFilter := filter }
    return { w with filters := filters, held := w.held && matchMacFilterRule filters mac }
  | .packet p =>
    let r ← fwxHookGatewayHandle hz w.filters mac w.mark p
    return { w with mark := r.conn, held := w.held || r.byMac }

/-- A packet that reaches the hook while the block holds is dropped. -/
def BlockHolds (s : Except Stop Guarded) (e : GatewayEvent) : Prop :=
  match s, e with
  | .ok w, .packet p =>
    w.held = true → p.guards.gateway = true → Drops (fwxHookGatewayHandle hz w.filters mac w.mark p)
  | _, _ => True

instance (s : Except Stop Guarded) (e : GatewayEvent) : Decidable (BlockHolds hz mac s e) := by
  unfold BlockHolds
  split <;> infer_instance

/-- A packet that reaches the hook while the block holds keeps the mark. -/
def BlockKept (s : Except Stop Guarded) (e : GatewayEvent) : Prop :=
  match s, e with
  | .ok w, .packet p => w.held = true → p.guards.gateway = true → Keeps hz w.filters mac w.mark p
  | _, _ => True

/-- While the block holds the client is blocked, and the mark has the drop bit. -/
structure GuardedInv (w : Guarded) : Prop where
  blocked : w.held = true → matchMacFilterRule w.filters mac = true
  marked : w.held = true → fwxCtTestBit w.mark fwxCtDropBit = true

variable {scan scanRange kstrtoint hz mac}

variable {s : Except Stop Guarded} {e : GatewayEvent}

theorem blockKept_iff (h : ∀ w, s = .ok w → GuardedInv mac w) :
    BlockKept hz mac s e ↔ BlockHolds hz mac s e := by
  cases s with
  | error stop => exact Iff.rfl
  | ok w =>
    cases e with
    | call | appfilterEnable | macs => exact Iff.rfl
    | packet p =>
      obtain ⟨hblocked, hmarked⟩ := h w rfl
      exact forall_congr' fun hheld => forall_congr' fun hguards =>
        (gateway_drops_iff hguards (hmarked hheld) (hblocked hheld)).symm

theorem guardedInv_step (h : ∀ w, s = .ok w → GuardedInv mac w) (hkept : BlockKept hz mac s e)
    (w' : Guarded) (hstep : guardedStep scan scanRange kstrtoint hz mac s e = .ok w') :
    GuardedInv mac w' := by
  cases s with
  | error stop => cases hstep
  | ok w =>
    have hholds := (blockKept_iff h).1 hkept
    obtain ⟨hblocked, hmarked⟩ := h w rfl
    cases e with
    | call jiffies request =>
      unfold guardedStep at hstep
      cases hcall : appFilterStep scan scanRange kstrtoint jiffies w.filters.appFilter request with
      | error stop =>
        simp only [bind, Except.bind, hcall] at hstep
        cases hstep
      | ok f =>
        simp only [bind, Except.bind, hcall] at hstep
        cases hstep
        exact ⟨hblocked, hmarked⟩
    | appfilterEnable on =>
      cases hstep
      exact ⟨hblocked, hmarked⟩
    | macs on whitelist filter =>
      cases hstep
      exact ⟨fun hheld => (Bool.and_eq_true_iff.1 hheld).2,
        fun hheld => hmarked (Bool.and_eq_true_iff.1 hheld).1⟩
    | packet p =>
      unfold guardedStep at hstep
      cases hrun : fwxHookGatewayHandle hz w.filters mac w.mark p with
      | error stop =>
        simp only [bind, Except.bind, hrun] at hstep
        cases hstep
      | ok r =>
        simp only [bind, Except.bind, hrun] at hstep
        cases hstep
        refine ⟨fun hheld => ?_, fun hheld => ?_⟩
        · rcases Bool.or_eq_true_iff.1 hheld with hold | hby
          · exact hblocked hold
          · exact (gateway_byMac hrun hby).1
        · rcases Bool.or_eq_true_iff.1 hheld with hold | hby
          · cases hguards : p.guards.gateway with
            | true =>
              have hdrops := hholds hold hguards
              rw [hrun] at hdrops
              exact (gateway_marked hguards (hmarked hold) (hblocked hold) hrun).2 hdrops
            | false =>
              unfold fwxHookGatewayHandle at hrun
              rw [hguards] at hrun
              cases hrun
              exact hmarked hold
          · exact (gateway_byMac hrun hby).2

variable (scan scanRange kstrtoint hz mac)

/-- From any filters and any mark: the packets are dropped while the block holds if and only if each
    of them keeps the mark. -/
theorem mac_block_stays (g : Filters) (mark : Mark) (events : List GatewayEvent) :
    Along (guardedStep scan scanRange kstrtoint hz mac) (BlockKept hz mac)
        (.ok ⟨g, mark, false⟩) events ↔
      Along (guardedStep scan scanRange kstrtoint hz mac) (BlockHolds hz mac)
        (.ok ⟨g, mark, false⟩) events := by
  have hstep : ∀ s e, (∀ w, s = .ok w → GuardedInv mac w) → BlockKept hz mac s e →
      ∀ w, guardedStep scan scanRange kstrtoint hz mac s e = .ok w → GuardedInv mac w :=
    fun s e hs hkept => guardedInv_step hs hkept
  refine along_congr hstep (fun s e hs => blockKept_iff hs) (fun w hw => ?_) events
  cases hw
  exact ⟨fun hn => Bool.noConfusion hn, fun hn => Bool.noConfusion hn⟩

/-- All users are blocked, and the first packet says that the application is 1001. -/
def blockedUsers : Filters := ⟨true, .init, true, .init, ⟨[⟨1, macFilterModeAllUsers, .init⟩], 1⟩⟩

/-- The id is found; a rule for some other application is changed; the next packet comes. -/
def changedMeanwhile : List GatewayEvent :=
  let guards : Guards := ⟨true, false, true, false, 443, true, true, true, true, true, true, false,
    false, true, true⟩
  [.packet ⟨100, guards, some 4, true, false, some ⟨1001, false, false⟩⟩,
    .call 200 (.add (.object [.number "rule_id" 1])),
    .packet ⟨300, guards, some 5, true, false, none⟩]

/-- The second packet is accepted. -/
theorem block_lifted :
    ¬ Along (guardedStep (fun _ => none) (fun _ => none) (fun _ => none) 100 client)
      (BlockHolds 100 client) (.ok ⟨blockedUsers, 0, false⟩) changedMeanwhile := by
  decide

end Runs

end Apackage.OpenAppFilter
