import Apackage.OpenAppFilter.AppIdList
import Apackage.OpenAppFilter.MacFilter
import Mathlib.Algebra.Ring.Nat

/-
  The hooks that decide the packets of a client (`fwx_main.c`): `fwx_hook_gateway_handle`, which
  keeps what it knows of a connection in its mark (the application id in the low 16 bits, single
  bits above), and `fwx_hook_bypass_handle`, which has a table of its own.

  Model. A packet says what the guards of the hooks look at, and what `fwx_match_feature` finds in
  it. The records of visits, the resets sent to clients and the logs decide nothing and are left
  out.
-/

namespace Apackage.OpenAppFilter

/-! ## The mark -/

/-- `ct->mark`. -/
abbrev Mark := BitVec 32

def fwxCtAppidMask : Mark := 0x0000FFFF

def fwxCtDnsMatchBit : Mark := 0x10000000

def fwxCtIgnoreBit : Mark := 0x20000000

def fwxCtClientHelloBit : Mark := 0x40000000

def fwxCtDropBit : Mark := 0x80000000

def fwxCtMarkUpdate (mark mask value : Mark) : Mark := (mark &&& ~~~mask) ||| (value &&& mask)

def fwxCtGetAppid (mark : Mark) : ℕ := (mark &&& fwxCtAppidMask).toNat

def fwxCtIsValidAppid (appId : ℕ) : Bool := 0 < appId && appId ≤ 32000

def fwxCtSetAppid (mark : Mark) (appId : ℕ) : Mark :=
  fwxCtMarkUpdate mark fwxCtAppidMask (.ofNat 32 appId)

def fwxCtTestBit (mark bit : Mark) : Bool := mark &&& bit ≠ 0

def fwxCtSetBit (mark bit : Mark) (set : Bool) : Mark :=
  fwxCtMarkUpdate mark bit (if set then bit else 0)

def fwxCtHasValidDropMark (mark : Mark) : Bool :=
  fwxCtTestBit mark fwxCtDropBit &&
    (fwxCtGetAppid mark = 0 || fwxCtIsValidAppid (fwxCtGetAppid mark))

/-! ## Updates -/

section Updates

variable {mark mask value other : Mark}

theorem fwxCtMarkUpdate_and (h : mask &&& other = 0) :
    fwxCtMarkUpdate mark mask value &&& other = mark &&& other := by
  ext i hi
  have hbit := congrArg (fun m : Mark => m[i]) h
  simp only [BitVec.getElem_and] at hbit
  simp only [fwxCtMarkUpdate, BitVec.getElem_and, BitVec.getElem_or, BitVec.getElem_not]
  cases hmask : mask[i] <;> cases hother : other[i] <;> simp_all

theorem fwxCtMarkUpdate_self : fwxCtMarkUpdate mark mask value &&& mask = value &&& mask := by
  ext i hi
  simp only [fwxCtMarkUpdate, BitVec.getElem_and, BitVec.getElem_or, BitVec.getElem_not]
  cases mask[i] <;> simp

@[simp] theorem fwxCtGetAppid_setDrop (set : Bool) :
    fwxCtGetAppid (fwxCtSetBit mark fwxCtDropBit set) = fwxCtGetAppid mark := by
  unfold fwxCtGetAppid fwxCtSetBit
  rw [fwxCtMarkUpdate_and (by decide)]

@[simp] theorem fwxCtTestBit_setDrop (set : Bool) :
    fwxCtTestBit (fwxCtSetBit mark fwxCtDropBit set) fwxCtDropBit = set := by
  unfold fwxCtTestBit fwxCtSetBit
  rw [fwxCtMarkUpdate_self]
  cases set <;> decide

end Updates

/-! ## The filters -/

/-- `g_appfilter_enable`, the application rules, `g_mac_filter_enable`, `g_mac_filter_whitelist` and
    the address rules. -/
structure Filters where
  appfilterEnable : Bool
  appFilter : AppFilter
  macFilterEnable : Bool
  macWhitelist : MacConfig
  macFilter : MacFilter

/-- `match_app_filter_rule`; the `u_int32_t` is handed over as an `int`. -/
def matchAppFilterRule (g : Filters) (appId : ℕ) (mac : Mac) : Except Stop Bool := do
  if !g.appfilterEnable then return false
  if fwxMatchAppFilterWhitelist g.appFilter mac then return false
  let rule ← fwxMatchAppFilterRule g.appFilter ((appId : ℤ).bmod (2 ^ 32)) mac
  return rule.isSome

def matchMacFilterRule (g : Filters) (mac : Mac) : Bool :=
  g.macFilterEnable && !fwxFindMacNode g.macWhitelist mac &&
    (fwxMatchMacFilterRule g.macFilter mac).isSome

/-- `interval_jiffies < max_jiffies`: the rules were changed in the last 30 seconds. -/
def recentlyChanged (hz : ℕ) (f : AppFilter) (jiffies : ℕ) : Bool :=
  ((jiffies : ℤ) - f.updateJiffies) % 2 ^ 32 < 30 * hz

def checkAppActionChanged (hz : ℕ) (g : Filters) (jiffies : ℕ) (action : Bool) (appId : ℕ)
    (mac : Mac) : Except Stop Bool := do
  if recentlyChanged hz g.appFilter jiffies then
    if ← matchAppFilterRule g appId mac then return !action else return action
  else return false

/-! ## Packets -/

/-- What `fwx_match_feature` finds. -/
structure Feature where
  appId : ℕ
  ignore : Bool
  matchByDns : Bool

/-- What the hooks look at before anything else. -/
structure Guards where
  lanDevice : Bool
  docker : Bool
  parsed : Bool
  privateLanDst : Bool
  dport : ℕ
  tracked : Bool
  tcp : Bool
  confirmed : Bool
  knownClient : Bool
  lanSet : Bool
  ipv4 : Bool
  router : Bool
  broadcastOrLocal : Bool
  fromLan : Bool
  connFound : Bool

/-- The gateway's hook does not accept the packet unseen. -/
def Guards.gateway (g : Guards) : Bool :=
  g.lanDevice && g.parsed && !(g.privateLanDst && g.dport ≠ 53) && g.tracked &&
    !(g.tcp && !g.confirmed) && g.knownClient

/-- The bypass hook does not accept the packet unseen. -/
def Guards.bypass (g : Guards) : Bool :=
  g.lanSet && !g.docker && g.parsed && !(g.privateLanDst && g.dport ≠ 53) && g.ipv4 && !g.router &&
    !g.broadcastOrLocal && g.fromLan && g.knownClient && g.connFound

structure Packet where
  jiffies : ℕ
  guards : Guards
  /-- `nf_conn_acct`: the packets of both directions. -/
  acct : Option ℕ
  /-- The data is linear, or could be copied. -/
  readable : Bool
  clientHello : Bool
  feature : Option Feature

inductive Verdict
  | accept
  | drop
  deriving DecidableEq

def maxDpiPktNum : ℕ := 256

/-! ## The gateway -/

/-- What a hook leaves of a connection, its verdict, and whether an address rule was the reason. -/
structure Handled (σ : Type) where
  conn : σ
  verdict : Verdict
  byMac : Bool

/-- The end of the gateway's hook: the address rules. -/
def gatewayMac (g : Filters) (mac : Mac) (mark : Mark) : Handled Mark :=
  if matchMacFilterRule g mac then ⟨fwxCtSetBit mark fwxCtDropBit true, .drop, true⟩
  else ⟨mark, .accept, false⟩

/-- From `dpi_main` on. -/
def gatewayDpi (g : Filters) (mac : Mac) (mark : Mark) (p : Packet) :
    Except Stop (Handled Mark) := do
  let mark := fwxCtSetBit mark fwxCtClientHelloBit p.clientHello
  match p.feature with
  | none => return gatewayMac g mac mark
  | some feature =>
    let mark := fwxCtSetAppid mark feature.appId
    let mark := fwxCtSetBit mark fwxCtDnsMatchBit feature.matchByDns
    let mark := if feature.appId < 1000 then mark
      else if feature.ignore then fwxCtSetBit mark fwxCtIgnoreBit true else mark
    if ← matchAppFilterRule g feature.appId mac then
      return ⟨fwxCtSetBit mark fwxCtDropBit true, .drop, false⟩
    else return gatewayMac g mac mark

/-- What the hook does with the id in the mark: the mark, and whether the packet is dropped here. -/
def gatewayCached (hz : ℕ) (g : Filters) (mac : Mac) (mark : Mark) (p : Packet) :
    Except Stop (Mark × Bool) := do
  let appId := fwxCtGetAppid mark
  let ctAction := fwxCtTestBit mark fwxCtDropBit
  if fwxCtIsValidAppid appId then
    if appId < 1000 then return (mark, g.appfilterEnable && ctAction)
    else if 1000 < appId ∧ appId ≤ 32000 then
      if ← checkAppActionChanged hz g p.jiffies ctAction appId mac then
        return (fwxCtSetBit mark fwxCtDropBit !ctAction, g.appfilterEnable && !ctAction)
      else return (mark, g.appfilterEnable && ctAction)
    else return (mark, false)
  else return (mark, false)

def fwxHookGatewayHandle (hz : ℕ) (g : Filters) (mac : Mac) (mark : Mark) (p : Packet) :
    Except Stop (Handled Mark) := do
  if !p.guards.gateway then return ⟨mark, .accept, false⟩
  let (mark, dropped) ← gatewayCached hz g mac mark p
  if dropped then return ⟨mark, .drop, false⟩
  if fwxCtTestBit mark fwxCtDropBit && fwxCtHasValidDropMark mark then
    return ⟨mark, .drop, false⟩
  if fwxCtIsValidAppid (fwxCtGetAppid mark) then return ⟨mark, .accept, false⟩
  match p.acct with
  | none => return ⟨mark, .accept, false⟩
  | some totalPackets =>
    if maxDpiPktNum < totalPackets || !p.readable then return ⟨mark, .accept, false⟩
    else gatewayDpi g mac mark p

/-! ## The bypass -/

/-- `af_conn_t`. -/
structure AfConn where
  appId : ℕ
  drop : Bool
  ignore : Bool
  clientHello : Bool
  totalPkts : ℕ

/-- The end of the bypass hook: the address rules, and the verdict. -/
def bypassMac (g : Filters) (mac : Mac) (conn : AfConn) (flowDrop : Bool) : Handled AfConn :=
  if !flowDrop && matchMacFilterRule g mac then ⟨{ conn with drop := true }, .drop, true⟩
  else ⟨conn, if flowDrop then .drop else .accept, false⟩

/-- From `dpi_main` on. -/
def bypassDpi (g : Filters) (mac : Mac) (conn : AfConn) (p : Packet) :
    Except Stop (Handled AfConn) := do
  let conn := { conn with clientHello := p.clientHello }
  match p.feature with
  | none => return bypassMac g mac conn false
  | some feature =>
    let conn := { conn with
      appId := feature.appId
      drop := false
      ignore := feature.appId < 1000 || feature.ignore }
    if ← matchAppFilterRule g feature.appId mac then
      return bypassMac g mac { conn with drop := true } true
    else return bypassMac g mac conn false

/-- `fwx_hook_bypass_handle`; `accl` is `g_by_pass_accl`. -/
def fwxHookBypassHandle (hz : ℕ) (accl : Bool) (g : Filters) (mac : Mac) (conn : AfConn)
    (p : Packet) : Except Stop (Handled AfConn) := do
  if !p.guards.bypass then return ⟨conn, .accept, false⟩
  let conn := { conn with totalPkts := (conn.totalPkts + 1) % 2 ^ 32 }
  if conn.appId = 0 ∧ conn.drop then return ⟨conn, .drop, false⟩
  if conn.appId ≠ 0 then
    if 1000 < conn.appId then
      if ← checkAppActionChanged hz g p.jiffies conn.drop conn.appId mac then
        return bypassMac g mac conn !conn.drop
      else return bypassMac g mac conn conn.drop
    else return bypassMac g mac conn conn.drop
  else if accl && 256 < conn.totalPkts || !p.readable then return ⟨conn, .accept, false⟩
  else bypassDpi g mac conn p

/-! ## Connections with an id -/

section Identified

variable {hz : ℕ} {g : Filters} {mac : Mac} {p : Packet}

/-- `match_app_filter_rule` for an id that has a place in the table. -/
def appMatches (g : Filters) (appId : ℕ) (mac : Mac) : Bool :=
  match matchAppFilterRule g appId mac with
  | .ok matched => matched
  | .error _ => false

theorem matchRules_inTable (mac : Mac) {appId : ℤ} (h : InTable appId) (rules : List AppFilterRule) :
    ∃ found, matchRules appId mac rules = .ok found := by
  induction rules with
  | nil => exact ⟨none, rfl⟩
  | cons rule rules ih =>
    unfold matchRules
    split
    · split
      · split
        · exact ⟨some rule, rfl⟩
        · exact ih
      · unfold findAppIdNode
        rw [appIdIndex_ok h]
        by_cases hmem : appId ∈ rule.appIdList.hashTable (chainOf appId)
        · refine ⟨some rule, ?_⟩
          show (if decide _ = true then _ else _) = _
          rw [if_pos (decide_eq_true hmem)]
          rfl
        · obtain ⟨found, hfound⟩ := ih
          refine ⟨found, ?_⟩
          show (if decide _ = true then _ else _) = _
          rw [if_neg (by simpa using hmem)]
          exact hfound
    · exact ih

variable {appId : ℕ}

theorem matchAppFilterRule_ok (h : appId < 2 ^ 31) :
    matchAppFilterRule g appId mac = .ok (appMatches g appId mac) := by
  have hint : ((appId : ℤ).bmod (2 ^ 32)) = appId := by
    rw [Int.bmod_def]
    split <;> omega
  have hin : InTable ((appId : ℤ).bmod (2 ^ 32)) := inTable_of_nonneg (by omega)
  obtain ⟨found, hfound⟩ := matchRules_inTable mac hin g.appFilter.rules
  have hok : ∃ matched, matchAppFilterRule g appId mac = .ok matched := by
    unfold matchAppFilterRule fwxMatchAppFilterRule
    rw [hfound]
    cases g.appfilterEnable with
    | false => exact ⟨false, rfl⟩
    | true =>
      cases fwxMatchAppFilterWhitelist g.appFilter mac with
      | true => exact ⟨false, rfl⟩
      | false => exact ⟨found.isSome, rfl⟩
  obtain ⟨matched, hmatched⟩ := hok
  unfold appMatches
  rw [hmatched]

/-- What is decided for a packet of a connection with an id: ids above 1000 anew in the window after
    a change, and all others as before. -/
def decision (hz : ℕ) (g : Filters) (mac : Mac) (jiffies appId : ℕ) (before : Bool) : Bool :=
  if 1000 < appId ∧ recentlyChanged hz g.appFilter jiffies then appMatches g appId mac else before

variable {jiffies : ℕ}

theorem decision_anew {before : Bool} (hlarge : 1000 < appId)
    (hrecent : recentlyChanged hz g.appFilter jiffies = true) :
    decision hz g mac jiffies appId before = appMatches g appId mac :=
  if_pos ⟨hlarge, hrecent⟩

theorem decision_kept {before : Bool}
    (h : ¬ (1000 < appId ∧ recentlyChanged hz g.appFilter jiffies = true)) :
    decision hz g mac jiffies appId before = before :=
  if_neg h

def Verdict.ofDrop (drop : Bool) : Verdict := if drop then .drop else .accept

theorem Verdict.ofDrop_eq_drop {drop : Bool} : ofDrop drop = .drop ↔ drop = true := by
  cases drop <;> decide

theorem checkAppActionChanged_ok (h : appId < 2 ^ 31) (hlarge : 1000 < appId) (action : Bool) :
    checkAppActionChanged hz g jiffies action appId mac =
      .ok (xor action (decision hz g mac jiffies appId action)) := by
  unfold checkAppActionChanged
  cases hrecent : recentlyChanged hz g.appFilter jiffies with
  | false =>
    rw [decision_kept fun hn => Bool.noConfusion (hrecent.symm.trans hn.2), Bool.xor_self]
    rfl
  | true =>
    rw [decision_anew hlarge hrecent, matchAppFilterRule_ok h]
    cases appMatches g appId mac <;> cases action <;> rfl

theorem validAppid_iff : fwxCtIsValidAppid appId = true ↔ 0 < appId ∧ appId ≤ 32000 := by
  unfold fwxCtIsValidAppid
  rw [Bool.and_eq_true, decide_eq_true_iff, decide_eq_true_iff]

variable (hz g mac) in
/-- The gateway decides the packets of a connection with a valid id by the drop bit, which it
    brings up to date first. -/
theorem gateway_identified {mark : Mark} (hhandled : p.guards.gateway = true)
    (hid : fwxCtIsValidAppid (fwxCtGetAppid mark) = true) :
    ∃ mark', fwxHookGatewayHandle hz g mac mark p = .ok ⟨mark',
        .ofDrop (decision hz g mac p.jiffies (fwxCtGetAppid mark) (fwxCtTestBit mark fwxCtDropBit)),
        false⟩ ∧
      fwxCtGetAppid mark' = fwxCtGetAppid mark ∧
      fwxCtTestBit mark' fwxCtDropBit =
        decision hz g mac p.jiffies (fwxCtGetAppid mark) (fwxCtTestBit mark fwxCtDropBit) := by
  obtain ⟨hpos, hle⟩ := validAppid_iff.1 hid
  -- the id, and the bit it is decided by
  have hcached : ∃ mark' dropped, gatewayCached hz g mac mark p = .ok (mark', dropped) ∧
      fwxCtGetAppid mark' = fwxCtGetAppid mark ∧
      fwxCtTestBit mark' fwxCtDropBit =
        decision hz g mac p.jiffies (fwxCtGetAppid mark) (fwxCtTestBit mark fwxCtDropBit) ∧
      (dropped = true → fwxCtTestBit mark' fwxCtDropBit = true) := by
    unfold gatewayCached
    rw [if_pos hid]
    by_cases hsmall : fwxCtGetAppid mark < 1000
    · rw [if_pos hsmall]
      refine ⟨mark, _, rfl, rfl, ?_, fun hd => (Bool.and_eq_true_iff.1 hd).2⟩
      exact (decision_kept fun hn => by omega).symm
    rw [if_neg hsmall]
    by_cases hlarge : 1000 < fwxCtGetAppid mark
    · rw [if_pos ⟨hlarge, hle⟩, checkAppActionChanged_ok (by omega) hlarge]
      generalize decision hz g mac p.jiffies (fwxCtGetAppid mark)
        (fwxCtTestBit mark fwxCtDropBit) = new
      cases hbit : fwxCtTestBit mark fwxCtDropBit <;> cases new
      · exact ⟨mark, _, rfl, rfl, hbit, fun hd => absurd hd (by simp)⟩
      · exact ⟨_, _, rfl, fwxCtGetAppid_setDrop _, fwxCtTestBit_setDrop _,
          fun _ => fwxCtTestBit_setDrop _⟩
      · exact ⟨_, _, rfl, fwxCtGetAppid_setDrop _, fwxCtTestBit_setDrop _,
          fun hd => absurd hd (by simp)⟩
      · exact ⟨mark, _, rfl, rfl, hbit, fun _ => hbit⟩
    · rw [if_neg fun hn => hlarge hn.1]
      exact ⟨mark, _, rfl, rfl, (decision_kept fun hn => hlarge hn.1).symm,
        fun hd => Bool.noConfusion hd⟩
  obtain ⟨mark', dropped, hrun, happid, hbit, hdropped⟩ := hcached
  refine ⟨mark', ?_, happid, hbit⟩
  unfold fwxHookGatewayHandle
  rw [hhandled, hrun, ← hbit]
  cases dropped with
  | true =>
    rw [hdropped rfl]
    rfl
  | false =>
    have hvalid : fwxCtHasValidDropMark mark' = fwxCtTestBit mark' fwxCtDropBit := by
      unfold fwxCtHasValidDropMark
      rw [happid, hid, Bool.or_true, Bool.and_true]
    show (if (fwxCtTestBit mark' fwxCtDropBit && fwxCtHasValidDropMark mark') = true then _ else _) = _
    rw [hvalid, Bool.and_self]
    cases fwxCtTestBit mark' fwxCtDropBit with
    | true => rfl
    | false =>
      rw [happid, if_pos hid]
      rfl

variable (hz g mac) in
/-- The bypass decides the packets of a connection with an id by what it knew when the id was set,
    and keeps it. -/
theorem bypass_identified (accl : Bool) {conn : AfConn} (hhandled : p.guards.bypass = true)
    (hpos : 0 < conn.appId) (hle : conn.appId < 2 ^ 31) (hmac : matchMacFilterRule g mac = false) :
    ∃ conn', fwxHookBypassHandle hz accl g mac conn p = .ok ⟨conn',
        .ofDrop (decision hz g mac p.jiffies conn.appId conn.drop), false⟩ ∧
      conn'.appId = conn.appId ∧ conn'.drop = conn.drop := by
  have hend : ∀ (conn : AfConn) flowDrop,
      bypassMac g mac conn flowDrop = ⟨conn, .ofDrop flowDrop, false⟩ := by
    intro conn flowDrop
    unfold bypassMac
    rw [hmac, Bool.and_false]
    rfl
  refine ⟨{ conn with totalPkts := (conn.totalPkts + 1) % 2 ^ 32 }, ?_, rfl, rfl⟩
  unfold fwxHookBypassHandle
  rw [hhandled]
  show (if conn.appId = 0 ∧ conn.drop = true then _ else _) = _
  rw [if_neg fun hn => by omega]
  show (if conn.appId ≠ 0 then _ else _) = _
  rw [if_pos (by omega)]
  by_cases hlarge : 1000 < conn.appId
  · rw [if_pos hlarge, checkAppActionChanged_ok hle hlarge]
    generalize decision hz g mac p.jiffies conn.appId conn.drop = new
    cases hdrop : conn.drop <;> cases new <;> exact congrArg Except.ok (hend _ _)
  · rw [if_neg hlarge, hend, decision_kept fun hn => hlarge hn.1]
    rfl

end Identified

end Apackage.OpenAppFilter
