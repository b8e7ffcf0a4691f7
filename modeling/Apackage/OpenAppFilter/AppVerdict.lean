import Apackage.OpenAppFilter.Gateway

/-
  The application rules and the packets of a connection whose id is set.

  A change of the rules is noted by its time, and for 30 seconds the hooks decide ids above 1000
  anew. The gateway writes the new decision to the mark, where it stays; the bypass forgets it. Both
  decide ids up to 1000 once, when they are set (`decided_once`).
-/

namespace Apackage.OpenAppFilter

open Lib.KeyedList Lib.Run

/-! ## Changes -/

/-- The call gets past its checks, and notes the time. -/
def callChanges (f : AppFilter) : AppRequest → Bool
  | .add data | .del data => (data.getObjectItem "rule_id").isSome
  | .mod data =>
    (data.getObjectItem "rule_id").elim false fun ruleId =>
      (fwxFindAppFilterRule f ruleId.valueint).isSome
  | .addWhitelist data => (data.getObjectItem "mac_list").isSome
  | .flush | .flushWhitelist => true

section Changes

variable {scan : List Char → Option UInt8} {scanRange : String → Option (Int32 × Int32)}
  {kstrtoint : String → Option Int32} {f f' : AppFilter} {jiffies : ℕ}

theorem forRange_keeps {σ : Type} {P : σ → Prop} {body : σ → ℤ → Except Stop (σ × Bool)}
    (hbody : ∀ s i s' goOn, P s → body s i = .ok (s', goOn) → P s') {last : ℤ} {n : ℕ} {i : ℤ}
    {s s' : σ} (hs : P s) (h : forRange body last n i s = .ok s') : P s' := by
  induction n generalizing i s with
  | zero => cases h
  | succ n ih =>
    rw [forRange] at h
    split at h
    · cases hrun : body s i with
      | error e =>
        rw [hrun] at h
        cases h
      | ok r =>
        rw [hrun] at h
        have hnext := hbody s i r.1 r.2 hs hrun
        cases hgo : r.2 with
        | true => exact ih hnext (by simpa [bind, Except.bind, hgo] using h)
        | false =>
          have : r.1 = s' := by simpa [bind, Except.bind, hgo, pure, Except.pure] using h
          exact this ▸ hnext
    · cases h
      exact hs

theorem fwxDelAppIdFromRule_time {ruleId appId : ℤ}
    (h : fwxDelAppIdFromRule f ruleId appId = .ok f') : f'.updateJiffies = f.updateJiffies := by
  unfold fwxDelAppIdFromRule at h
  split at h
  · cases h
    rfl
  · cases hindex : appIdIndex appId with
    | error e =>
      rw [hindex] at h
      cases h
    | ok hash =>
      rw [hindex] at h
      simp only [bind, Except.bind] at h
      split at h
      · cases h
        rfl
      · cases h
        rfl

theorem delAppIdTokenFromRule_time {ruleId : ℤ} {appIdObj : CJson}
    (h : delAppIdTokenFromRule scanRange kstrtoint f ruleId appIdObj = .ok f') :
    f'.updateJiffies = f.updateJiffies := by
  unfold delAppIdTokenFromRule at h
  split at h
  · exact fwxDelAppIdFromRule_time h
  · refine forRange_keeps (P := fun s => s.updateJiffies = f.updateJiffies) ?_ rfl h
    intro s i s' goOn hs hrun
    cases hdel : fwxDelAppIdFromRule s ruleId i with
    | error e =>
      rw [hdel] at hrun
      cases hrun
    | ok s'' =>
      rw [hdel] at hrun
      cases hrun
      exact (fwxDelAppIdFromRule_time hdel).trans hs
  · exact fwxDelAppIdFromRule_time h
  · cases h
    rfl

theorem appFilterStep_time {request : AppRequest}
    (h : appFilterStep scan scanRange kstrtoint jiffies f request = .ok f') :
    (callChanges f request = true → f'.updateJiffies = jiffies % 2 ^ 32) ∧
      (callChanges f request = false → f' = f) := by
  unfold callChanges
  cases request with
  | add data =>
    cases h
    unfold fwxApiAddAppFilterRule
    dsimp only
    cases data.getObjectItem "rule_id" with
    | none => exact ⟨fun hn => Bool.noConfusion hn, fun _ => rfl⟩
    | some ruleId =>
      refine ⟨fun _ => ?_, fun hn => Bool.noConfusion hn⟩
      dsimp only
      unfold fwxAddAppFilterRule
      split
      · rfl
      split
      · rfl
      · rfl
  | mod data =>
    unfold appFilterStep fwxApiModAppFilterRule at h
    dsimp only at h ⊢
    cases hid : data.getObjectItem "rule_id" with
    | none =>
      rw [hid] at h
      cases h
      exact ⟨fun hn => Bool.noConfusion hn, fun _ => rfl⟩
    | some ruleId =>
      rw [hid] at h
      dsimp only [Option.elim_some] at h ⊢
      cases hfind : fwxFindAppFilterRule f ruleId.valueint with
      | none =>
        rw [hfind] at h
        cases h
        exact ⟨fun hn => Bool.noConfusion hn, fun _ => rfl⟩
      | some rule =>
        rw [hfind] at h
        dsimp only at h
        refine ⟨fun _ => ?_, fun hn => Bool.noConfusion hn⟩
        cases hmod : modAppIdList scanRange kstrtoint data rule.appIdList with
        | error e =>
          rw [hmod] at h
          cases h
        | ok appIdList =>
          rw [hmod] at h
          cases h
          rfl
  | del data =>
    unfold appFilterStep fwxApiDelAppFilterRule at h
    dsimp only at h ⊢
    cases hid : data.getObjectItem "rule_id" with
    | none =>
      rw [hid] at h
      cases h
      exact ⟨fun hn => Bool.noConfusion hn, fun _ => rfl⟩
    | some ruleId =>
      rw [hid] at h
      refine ⟨fun _ => ?_, fun hn => Bool.noConfusion hn⟩
      cases hobj : data.getObjectItem "app_id" with
      | none =>
        rw [hobj] at h
        cases h
        unfold fwxDelAppFilterRule
        split
        · rfl
        · rfl
      | some appIdObj =>
        rw [hobj] at h
        exact delAppIdTokenFromRule_time h
  | flush =>
    cases h
    exact ⟨fun _ => rfl, fun hn => Bool.noConfusion hn⟩
  | addWhitelist data =>
    cases h
    unfold fwxApiAddAppFilterWhitelist
    dsimp only
    cases data.getObjectItem "mac_list" with
    | none => exact ⟨fun hn => Bool.noConfusion hn, fun _ => rfl⟩
    | some macArray => exact ⟨fun _ => rfl, fun hn => Bool.noConfusion hn⟩
  | flushWhitelist =>
    cases h
    exact ⟨fun _ => rfl, fun hn => Bool.noConfusion hn⟩

end Changes

/-! ## Packets of one connection -/

inductive AppEvent
  | call (jiffies : ℕ) (request : AppRequest)
  | packet (p : Packet)

/-- The rules and what a hook keeps of the connection; and, for the statement only, what the rules
    said of the id when it was set, the time of the last change, and whether a packet came within 30
    seconds of it. -/
structure Watched (σ : Type) where
  filter : AppFilter
  conn : σ
  decided : Bool
  changed : ℕ
  fresh : Bool

/-- A hook, and the guards in front of it. -/
structure Hook (σ : Type) where
  handle : Filters → σ → Packet → Except Stop (Handled σ)
  guards : Guards → Bool

def gatewayHook (hz : ℕ) (mac : Mac) : Hook Mark where
  handle g mark p := fwxHookGatewayHandle hz g mac mark p
  guards := Guards.gateway

def bypassHook (hz : ℕ) (accl : Bool) (mac : Mac) : Hook AfConn where
  handle g conn p := fwxHookBypassHandle hz accl g mac conn p
  guards := Guards.bypass

/-- The application filter is on, that of addresses is off. -/
def appOnly (g : Filters) (f : AppFilter) : Filters :=
  { g with appfilterEnable := true, appFilter := f, macFilterEnable := false }

/-- Less than 30 seconds have passed. -/
def within (hz changed jiffies : ℕ) : Bool := changed ≤ jiffies && jiffies < changed + 30 * hz

theorem recentlyChanged_of_within {hz changed jiffies : ℕ} {f : AppFilter}
    (htime : f.updateJiffies = changed % 2 ^ 32) (h : within hz changed jiffies = true) :
    recentlyChanged hz f jiffies = true := by
  unfold within at h
  rw [Bool.and_eq_true, decide_eq_true_iff, decide_eq_true_iff] at h
  unfold recentlyChanged
  rw [htime, decide_eq_true_iff]
  omega

section Watch

variable {σ : Type} (scan : List Char → Option UInt8) (scanRange : String → Option (Int32 × Int32))
  (kstrtoint : String → Option Int32) (hz : ℕ) (g : Filters) (mac : Mac) (hook : Hook σ)

/-- The packet is for the hook to decide, and one has come within 30 seconds of the last change. -/
def inForce (w : Watched σ) (p : Packet) : Bool :=
  hook.guards p.guards && (w.fresh || within hz w.changed p.jiffies)

def watchStep (s : Except Stop (Watched σ)) (e : AppEvent) : Except Stop (Watched σ) := do
  let w ← s
  match e with
  | .call jiffies request =>
    let f ← appFilterStep scan scanRange kstrtoint jiffies w.filter request
    return if callChanges w.filter request then
      { w with filter := f, changed := jiffies, fresh := false }
    else { w with filter := f }
  | .packet p =>
    let r ← hook.handle (appOnly g w.filter) w.conn p
    return { w with conn := r.conn, fresh := w.fresh || inForce hz hook w p }

/-- The hook comes back, and drops if and only if the rules match. -/
def DropsIff (r : Except Stop (Handled σ)) (matched : Bool) : Prop :=
  match r with
  | .ok r => r.verdict = .drop ↔ matched = true
  | .error _ => False

instance (r : Except Stop (Handled σ)) (matched : Bool) : Decidable (DropsIff r matched) := by
  unfold DropsIff
  split <;> infer_instance

/-- A packet in force is dropped if and only if the rules match the id. -/
def Follows (appId : ℕ) (s : Except Stop (Watched σ)) (e : AppEvent) : Prop :=
  match s, e with
  | .ok w, .packet p =>
    inForce hz hook w p = true → DropsIff (hook.handle (appOnly g w.filter) w.conn p)
        (appMatches (appOnly g w.filter) appId mac)
  | _, _ => True

instance (appId : ℕ) (s : Except Stop (Watched σ)) (e : AppEvent) :
    Decidable (Follows hz g mac hook appId s e) := by
  unfold Follows
  split <;> infer_instance

/-- A packet in force is decided anew, or the rules say what they said when the id was set. -/
def Settled (anew : Watched σ → Packet → Prop) (appId : ℕ) (s : Except Stop (Watched σ))
    (e : AppEvent) : Prop :=
  match s, e with
  | .ok w, .packet p =>
    inForce hz hook w p = true → anew w p ∨ appMatches (appOnly g w.filter) appId mac = w.decided
  | _, _ => True

def watchStart (appId : ℕ) (f : AppFilter) (conn : σ) : Except Stop (Watched σ) :=
  .ok ⟨f, conn, appMatches (appOnly g f) appId mac, 0, true⟩

variable {scan scanRange kstrtoint hz g mac hook}

theorem watchStep_cases {s : Except Stop (Watched σ)} {e : AppEvent} {w' : Watched σ}
    (h : watchStep scan scanRange kstrtoint hz g hook s e = .ok w') :
    ∃ w, s = .ok w ∧ ((∃ jiffies request, e = .call jiffies request ∧ w'.conn = w.conn ∧
          w'.decided = w.decided ∧
          ((w'.fresh = false ∧ w'.filter.updateJiffies = w'.changed % 2 ^ 32) ∨ w' = w)) ∨
        ∃ p r, e = .packet p ∧ hook.handle (appOnly g w.filter) w.conn p = .ok r ∧
          w' = { w with conn := r.conn, fresh := w.fresh || inForce hz hook w p }) := by
  unfold watchStep at h
  cases s with
  | error stop => cases h
  | ok w =>
    refine ⟨w, rfl, ?_⟩
    cases e with
    | call jiffies request =>
      refine .inl ⟨jiffies, request, rfl, ?_⟩
      cases hstep : appFilterStep scan scanRange kstrtoint jiffies w.filter request with
      | error stop =>
        simp only [bind, Except.bind, hstep] at h
        cases h
      | ok f =>
        obtain ⟨htime, hsame⟩ := appFilterStep_time hstep
        simp only [bind, Except.bind, hstep, pure, Except.pure, Except.ok.injEq] at h
        subst h
        cases hchange : callChanges w.filter request with
        | true => exact ⟨rfl, rfl, .inl ⟨rfl, htime hchange⟩⟩
        | false =>
          rw [hsame hchange]
          exact ⟨rfl, rfl, .inr rfl⟩
    | packet p =>
      refine .inr ⟨p, ?_⟩
      cases hrun : hook.handle (appOnly g w.filter) w.conn p with
      | error stop =>
        simp only [bind, Except.bind, hrun] at h
        cases h
      | ok r =>
        simp only [bind, Except.bind, hrun, pure, Except.pure, Except.ok.injEq] at h
        exact ⟨r, rfl, rfl, h.symm⟩

end Watch

/-! ## The gateway -/

section Gateway

variable {scan : List Char → Option UInt8} {scanRange : String → Option (Int32 × Int32)}
  {kstrtoint : String → Option Int32} {hz : ℕ} {g : Filters} {mac : Mac} {appId : ℕ}

/-- The mark has the id. The drop bit of an id up to 1000 is what was decided, and that of another is
    what the rules say once a packet came in time; otherwise the time of the change is noted. -/
structure GatewayInv (g : Filters) (mac : Mac) (appId : ℕ) (w : Watched Mark) : Prop where
  ident : fwxCtGetAppid w.conn = appId
  small : appId ≤ 1000 → fwxCtTestBit w.conn fwxCtDropBit = w.decided
  large : 1000 < appId → w.fresh = true →
    fwxCtTestBit w.conn fwxCtDropBit = appMatches (appOnly g w.filter) appId mac
  time : w.fresh = false → w.filter.updateJiffies = w.changed % 2 ^ 32

/-- A packet in force of a connection with an id above 1000 is decided as the rules say. -/
theorem GatewayInv.decision {w : Watched Mark} (h : GatewayInv g mac appId w) {p : Packet}
    (hlarge : 1000 < appId) (hforce : (w.fresh || within hz w.changed p.jiffies) = true) :
    decision hz (appOnly g w.filter) mac p.jiffies appId (fwxCtTestBit w.conn fwxCtDropBit) =
      appMatches (appOnly g w.filter) appId mac := by
  cases hrecent : recentlyChanged hz w.filter p.jiffies with
  | true => exact decision_anew hlarge hrecent
  | false =>
    have hkept : OpenAppFilter.decision hz (appOnly g w.filter) mac p.jiffies appId
        (fwxCtTestBit w.conn fwxCtDropBit) = fwxCtTestBit w.conn fwxCtDropBit :=
      decision_kept fun hn => Bool.noConfusion (hrecent.symm.trans hn.2)
    rw [hkept]
    cases hfresh : w.fresh with
    | true => exact h.large hlarge hfresh
    | false =>
      rw [hfresh, Bool.false_or] at hforce
      exact Bool.noConfusion (hrecent.symm.trans (recentlyChanged_of_within (h.time hfresh) hforce))

variable {s : Except Stop (Watched Mark)}

section

variable (hid : fwxCtIsValidAppid appId = true) (h : ∀ w, s = .ok w → GatewayInv g mac appId w)

include hid h

theorem gatewayInv_step {e : AppEvent} (w' : Watched Mark)
    (hstep : watchStep scan scanRange kstrtoint hz g (gatewayHook hz mac) s e = .ok w') :
    GatewayInv g mac appId w' := by
  obtain ⟨w, rfl, ⟨_, _, rfl, hconn, hdecided, hcase⟩ | ⟨p, r, rfl, hrun, rfl⟩⟩ := watchStep_cases hstep
  · have hinv := h w rfl
    rcases hcase with ⟨hfresh, htime⟩ | rfl
    · refine ⟨hconn ▸ hinv.ident, ?_, fun _ hf => Bool.noConfusion (hfresh.symm.trans hf),
        fun _ => htime⟩
      rw [hconn, hdecided]
      exact hinv.small
    · exact hinv
  · have hinv := h w rfl
    cases hguards : p.guards.gateway with
    | false =>
      have hsame : r.conn = w.conn := by
        have hskip : fwxHookGatewayHandle hz (appOnly g w.filter) mac w.conn p =
            .ok ⟨w.conn, .accept, false⟩ := by
          unfold fwxHookGatewayHandle
          rw [hguards]
          rfl
        rw [show (gatewayHook hz mac).handle _ _ _ = _ from hskip] at hrun
        cases hrun
        rfl
      have hforce : inForce hz (gatewayHook hz mac) w p = false := by
        show (p.guards.gateway && _) = false
        rw [hguards, Bool.false_and]
      rw [hsame, hforce, Bool.or_false]
      exact hinv
    | true =>
      obtain ⟨mark', hmark, happid, hbit⟩ := gateway_identified hz (appOnly g w.filter) mac
        hguards (hinv.ident.symm ▸ hid)
      rw [show (gatewayHook hz mac).handle _ _ _ = _ from hmark] at hrun
      cases hrun
      rw [hinv.ident] at hbit happid
      have hforce : inForce hz (gatewayHook hz mac) w p =
          (w.fresh || within hz w.changed p.jiffies) := by
        show (p.guards.gateway && _) = _
        rw [hguards, Bool.true_and]
      refine ⟨happid, fun hsmall => ?_, fun hlarge hf => ?_, fun hf => hinv.time ?_⟩
      · rw [hbit, decision_kept fun hn => by omega]
        exact hinv.small hsmall
      · refine hbit.trans (hinv.decision hlarge ?_)
        have hf' : (w.fresh || inForce hz (gatewayHook hz mac) w p) = true := hf
        rw [hforce, ← Bool.or_assoc, Bool.or_self] at hf'
        exact hf'
      · exact (Bool.or_eq_false_iff.1 hf).1

theorem gateway_follows {e : AppEvent}
    (hok : Settled hz g mac (gatewayHook hz mac) (fun _ _ => 1000 < appId) appId s e) :
    Follows hz g mac (gatewayHook hz mac) appId s e := by
  cases s with
  | error stop => trivial
  | ok w =>
    cases e with
    | call => trivial
    | packet p =>
      intro hforce
      have hinv := h w rfl
      have hsettled := hok hforce
      obtain ⟨hguards, hfresh⟩ := Bool.and_eq_true_iff.1 hforce
      obtain ⟨mark', hmark, -⟩ := gateway_identified hz (appOnly g w.filter) mac
        hguards (hinv.ident.symm ▸ hid)
      rw [show (gatewayHook hz mac).handle _ _ _ = _ from hmark]
      show Verdict.ofDrop _ = .drop ↔ _
      rw [Verdict.ofDrop_eq_drop, hinv.ident]
      by_cases hlarge : 1000 < appId
      · rw [hinv.decision hlarge hfresh]
      · rw [decision_kept fun hn => hlarge hn.1, hinv.small (by omega),
          hsettled.resolve_left hlarge]

end

end Gateway

/-! ## The bypass -/

section Bypass

variable {scan : List Char → Option UInt8} {scanRange : String → Option (Int32 × Int32)}
  {kstrtoint : String → Option Int32} {hz : ℕ} {accl : Bool} {g : Filters} {mac : Mac} {appId : ℕ}

/-- The connection has the id and what was decided. -/
structure BypassInv (appId : ℕ) (w : Watched AfConn) : Prop where
  ident : w.conn.appId = appId
  drop : w.conn.drop = w.decided

variable {s : Except Stop (Watched AfConn)}

theorem bypassInv_step (hid : fwxCtIsValidAppid appId = true) {e : AppEvent}
    (h : ∀ w, s = .ok w → BypassInv appId w) (w' : Watched AfConn)
    (hstep : watchStep scan scanRange kstrtoint hz g (bypassHook hz accl mac) s e = .ok w') :
    BypassInv appId w' := by
  obtain ⟨w, rfl, ⟨_, _, rfl, hconn, hdecided, -⟩ | ⟨p, r, rfl, hrun, rfl⟩⟩ := watchStep_cases hstep
  · have hinv := h w rfl
    exact ⟨hconn ▸ hinv.ident, by rw [hconn, hdecided]; exact hinv.drop⟩
  · have hinv := h w rfl
    obtain ⟨hpos, hle⟩ := validAppid_iff.1 hid
    cases hguards : p.guards.bypass with
    | false =>
      have hskip : fwxHookBypassHandle hz accl (appOnly g w.filter) mac w.conn p =
          .ok ⟨w.conn, .accept, false⟩ := by
        unfold fwxHookBypassHandle
        rw [hguards]
        rfl
      rw [show (bypassHook hz accl mac).handle _ _ _ = _ from hskip] at hrun
      cases hrun
      exact ⟨hinv.ident, hinv.drop⟩
    | true =>
      obtain ⟨conn', hconn, happid, hdrop⟩ := bypass_identified hz (appOnly g w.filter) mac accl
        hguards (hinv.ident ▸ hpos) (by rw [hinv.ident]; omega) rfl
      rw [show (bypassHook hz accl mac).handle _ _ _ = _ from hconn] at hrun
      cases hrun
      exact ⟨happid.trans hinv.ident, hdrop.trans hinv.drop⟩

theorem bypass_follows (hid : fwxCtIsValidAppid appId = true) {e : AppEvent}
    (h : ∀ w, s = .ok w → BypassInv appId w) (hok : Settled hz g mac (bypassHook hz accl mac)
      (fun w p => 1000 < appId ∧ recentlyChanged hz w.filter p.jiffies = true) appId s e) :
    Follows hz g mac (bypassHook hz accl mac) appId s e := by
  cases s with
  | error stop => trivial
  | ok w =>
    cases e with
    | call => trivial
    | packet p =>
      intro hforce
      have hinv := h w rfl
      obtain ⟨hpos, hle⟩ := validAppid_iff.1 hid
      obtain ⟨hguards, -⟩ := Bool.and_eq_true_iff.1 hforce
      obtain ⟨conn', hconn, -⟩ := bypass_identified hz (appOnly g w.filter) mac accl
        hguards (hinv.ident ▸ hpos) (by rw [hinv.ident]; omega) rfl
      rw [show (bypassHook hz accl mac).handle _ _ _ = _ from hconn]
      show Verdict.ofDrop _ = .drop ↔ _
      rw [Verdict.ofDrop_eq_drop, hinv.ident, hinv.drop]
      by_cases hanew : 1000 < appId ∧ recentlyChanged hz w.filter p.jiffies = true
      · rw [decision_anew (g := appOnly g w.filter) hanew.1 hanew.2]
      · rw [decision_kept (g := appOnly g w.filter) hanew, (hok hforce).resolve_left hanew]

end Bypass

/-! ## Runs -/

section Runs

variable (scan : List Char → Option UInt8) (scanRange : String → Option (Int32 × Int32))
  (kstrtoint : String → Option Int32) (hz : ℕ) (accl : Bool) (g : Filters) (mac : Mac)

/-- From when the id is set, and with any calls in between: a packet in force that is decided anew,
    or meets rules that say what they said when the id was set, is dropped if and only if the rules
    match. The gateway decides ids above 1000 anew; the bypass does for 30 seconds after a change. -/
theorem app_rules_decide {appId : ℕ} (hid : fwxCtIsValidAppid appId = true) (f : AppFilter)
    (events : List AppEvent) :
    (∀ mark, fwxCtGetAppid mark = appId →
      fwxCtTestBit mark fwxCtDropBit = appMatches (appOnly g f) appId mac →
      Along (watchStep scan scanRange kstrtoint hz g (gatewayHook hz mac))
        (fun s e => Settled hz g mac (gatewayHook hz mac) (fun _ _ => 1000 < appId) appId s e →
          Follows hz g mac (gatewayHook hz mac) appId s e)
        (watchStart g mac appId f mark) events) ∧
    ∀ conn : AfConn, conn.appId = appId → conn.drop = appMatches (appOnly g f) appId mac →
      Along (watchStep scan scanRange kstrtoint hz g (bypassHook hz accl mac))
        (fun s e => Settled hz g mac (bypassHook hz accl mac)
            (fun w p => 1000 < appId ∧ recentlyChanged hz w.filter p.jiffies = true) appId s e →
          Follows hz g mac (bypassHook hz accl mac) appId s e)
        (watchStart g mac appId f conn) events := by
  constructor
  · intro mark hmark hbit
    have hstep : ∀ s e, (∀ w, s = .ok w → GatewayInv g mac appId w) →
        ∀ w, watchStep scan scanRange kstrtoint hz g (gatewayHook hz mac) s e = .ok w →
          GatewayInv g mac appId w := fun s e hs => gatewayInv_step hid hs
    refine along_always hstep ?_ (fun w hw => ?_) events
    · exact fun s e hs hok => gateway_follows hid hs hok
    cases hw
    exact ⟨hmark, fun _ => hbit, fun _ _ => hbit, fun hf => Bool.noConfusion hf⟩
  · intro conn hconn hdrop
    have hstep : ∀ s e, (∀ w, s = .ok w → BypassInv appId w) →
        ∀ w, watchStep scan scanRange kstrtoint hz g (bypassHook hz accl mac) s e = .ok w →
          BypassInv appId w := fun s e hs => bypassInv_step hid hs
    refine along_always hstep ?_ (fun w hw => ?_) events
    · exact fun s e hs hok => bypass_follows hid hs hok
    cases hw
    exact ⟨hconn, hdrop⟩

def noRules : Filters := ⟨true, .init, false, .init, .init⟩

def anyPacket (jiffies : ℕ) : Packet :=
  ⟨jiffies, ⟨true, false, true, false, 443, true, true, true, true, true, true, false, false, true,
    true⟩, some 300, true, false, none⟩

/-- Rule 1 comes to block an application, or QUIC; a packet follows at once, and one much later. -/
def blocked (field : String) (value : ℤ) : List AppEvent :=
  [.call 100 (.add (.object [.number "rule_id" 1])),
    .call 100 (.mod (.object [.number "rule_id" 1, .number "app_action" 3, .number field value])),
    .packet (anyPacket 200), .packet (anyPacket 20000)]

/-- The rule that comes to block application 1001. -/
theorem app_rules_decide_1001 :
    Along (watchStep (fun _ => none) (fun _ => none) (fun _ => none) 100 noRules
        (gatewayHook 100 client))
      (fun s e => Settled 100 noRules client (gatewayHook 100 client) (fun _ _ => 1000 < 1001) 1001
          s e →
        Follows 100 noRules client (gatewayHook 100 client) 1001 s e)
      (watchStart noRules client 1001 .init 1001) (blocked "app_id" 1001) ∧
    Along (watchStep (fun _ => none) (fun _ => none) (fun _ => none) 100 noRules
        (bypassHook 100 false client))
      (fun s e => Settled 100 noRules client (bypassHook 100 false client)
          (fun w p => 1000 < 1001 ∧ recentlyChanged 100 w.filter p.jiffies = true) 1001 s e →
        Follows 100 noRules client (bypassHook 100 false client) 1001 s e)
      (watchStart noRules client 1001 .init ⟨1001, false, false, false, 1⟩)
      (blocked "app_id" 1001) :=
  let ⟨hgateway, hbypass⟩ := app_rules_decide (fun _ => none) (fun _ => none) (fun _ => none) 100
    false noRules client (by decide) .init (blocked "app_id" 1001)
  ⟨hgateway 1001 (by decide) (by decide), hbypass ⟨1001, false, false, false, 1⟩ rfl (by decide)⟩

/-- In the gateway a connection of QUIC that was there before the rule goes on, and the bypass lets
    application 1001 go on after the 30 seconds. -/
theorem decided_once :
    ¬ Along (watchStep (fun _ => none) (fun _ => none) (fun _ => none) 100 noRules
        (gatewayHook 100 client))
      (Follows 100 noRules client (gatewayHook 100 client) 10)
      (watchStart noRules client 10 .init 10) (blocked "filter_quic" 1) ∧
    ¬ Along (watchStep (fun _ => none) (fun _ => none) (fun _ => none) 100 noRules
        (bypassHook 100 false client))
      (Follows 100 noRules client (bypassHook 100 false client) 1001)
      (watchStart noRules client 1001 .init ⟨1001, false, false, false, 1⟩)
      (blocked "app_id" 1001) := by
  decide +kernel

end Runs

end Apackage.OpenAppFilter
