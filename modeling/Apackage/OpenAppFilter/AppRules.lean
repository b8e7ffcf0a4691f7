import Apackage.Lib.Run
import Apackage.OpenAppFilter.AppIdList

/-
  The rules of the application filter as a map of sets: for each rule id the switches, the
  application ids and the addresses.

  A deletion does not check the sign of an id that is given as a number, and a negative remainder is
  an index before the table (`delete_outside`). A range that ends at the largest `int` never ends, or
  gets to such an index too. In runs without these the rules are the sets (`app_rules_are_sets`).
-/

namespace Apackage.OpenAppFilter

open List Option Lib.HashChain Lib.KeyedList Lib.Run

/-! ## The sets -/

/-- What a rule is for. -/
structure RuleSet where
  enabled : Bool
  quic : Bool
  apps : Finset ℤ
  macs : Finset Mac

namespace RuleSet

def new : RuleSet := ⟨true, false, ∅, ∅⟩

def Matches (r : RuleSet) (appId : ℤ) (mac : Mac) : Prop :=
  (r.enabled = true ∧ (mac ∈ r.macs ∨ r.macs = ∅)) ∧
    if appId = fwxQuicProto then r.quic = true else appId ∈ r.apps

variable (scan : List Char → Option UInt8) (scanRange : String → Option (Int32 × Int32))
  (kstrtoint : String → Option Int32)

/-- What `app_action` is for: 1 replaces the ids by those listed, 2 and 3 add the listed ones or one
    token, and anything else leaves none. -/
def specApps (data : CJson) (apps : Finset ℤ) : Finset ℤ :=
  (data.getObjectItem "app_action").elim apps fun action =>
    if action.valueint = 1 ∨ action.valueint = 2 then
      (data.getObjectItem "app_id_list").elim apps fun appIdArray =>
        addIds (if action.valueint = 1 then ∅ else apps)
          (listedIds scanRange kstrtoint appIdArray.child)
    else if action.valueint = 3 then
      (data.getObjectItem "app_id").elim apps fun appIdObj =>
        addIds apps (appIdToken scanRange kstrtoint appIdObj).ids
    else ∅

def mod (data : CJson) (r : RuleSet) : RuleSet where
  enabled := (data.getObjectItem "enable").elim r.enabled fun enable => enable.valueint ≠ 0
  quic := (data.getObjectItem "filter_quic").elim r.quic fun quic => quic.valueint = 1
  apps := specApps scanRange kstrtoint data r.apps
  macs := (data.getObjectItem "mac_action").elim r.macs fun action =>
    specMacs scan data action.valueint r.macs

end RuleSet

/-- The ids of the rules, and what each rule is for. -/
structure AppSets where
  ids : Finset ℤ
  rule : ℤ → RuleSet

namespace AppSets

def empty : AppSets := ⟨∅, fun _ => .new⟩

/-- Some rule decides that the packets of the application are dropped. -/
def Blocks (t : AppSets) (appId : ℤ) (mac : Mac) : Prop :=
  ∃ id ∈ t.ids, (t.rule id).Matches appId mac

/-- A rule is added if there is room and it is not there. -/
def add (t : AppSets) (id : ℤ) : AppSets :=
  if t.ids.card < 64 ∧ id ∉ t.ids then ⟨insert id t.ids, Function.update t.rule id .new⟩ else t

def set (t : AppSets) (id : ℤ) (r : RuleSet) : AppSets :=
  { t with rule := Function.update t.rule id r }

def delId (t : AppSets) (id appId : ℤ) : AppSets :=
  t.set id { t.rule id with apps := (t.rule id).apps.erase appId }

def del (t : AppSets) (id : ℤ) : AppSets := { t with ids := t.ids.erase id }

variable (scan : List Char → Option UInt8) (scanRange : String → Option (Int32 × Int32))
  (kstrtoint : String → Option Int32)

def step (t : AppSets) : AppRequest → AppSets
  | .add data => (data.getObjectItem "rule_id").elim t fun ruleId => t.add ruleId.valueint
  | .mod data =>
    (data.getObjectItem "rule_id").elim t fun ruleId =>
      t.set ruleId.valueint ((t.rule ruleId.valueint).mod scan scanRange kstrtoint data)
  | .del data =>
    (data.getObjectItem "rule_id").elim t fun ruleId =>
      (data.getObjectItem "app_id").elim (t.del ruleId.valueint) fun appIdObj =>
        (appIdToken scanRange kstrtoint appIdObj).deletedIds.foldl
          (fun t appId => t.delId ruleId.valueint appId) t
  | .flush => { t with ids := ∅ }
  | .addWhitelist _ | .flushWhitelist => t

end AppSets

/-! ## The rules are the sets -/

namespace AppFilterRule

def toSet (rule : AppFilterRule) : RuleSet where
  enabled := rule.enable ≠ 0
  quic := rule.filterQuic = 1
  apps := rule.appIdList.apps
  macs := rule.macList.macs

/-- The tables of the rule are in order. -/
structure Ok (rule : AppFilterRule) : Prop where
  macs : rule.macList.Ok
  apps : rule.appIdList.Ok

variable {rule : AppFilterRule} {appId : ℤ} {mac : Mac}

theorem isFor_iff (h : rule.Ok) (mac : Mac) : rule.isFor mac = true ↔
    rule.toSet.enabled = true ∧ (mac ∈ rule.toSet.macs ∨ rule.toSet.macs = ∅) := by
  have hempty : macListEmpty rule.macList = true ↔ rule.macList.macs = ∅ := by
    unfold macListEmpty MacConfig.macs
    rw [keys_eq_empty, List.all_eq_true]
    simp only [mem_range, List.isEmpty_iff]
  unfold isFor toSet
  rw [Bool.and_eq_true, Bool.or_eq_true, fwxFindMacNode_iff h.macs, hempty]

theorem matchRules_ok {rules : List AppFilterRule} (hok : ∀ rule ∈ rules, rule.Ok)
    (hin : InTable appId ∨ ∀ rule ∈ rules, rule.isFor mac = false) :
    ∃ found, matchRules appId mac rules = .ok found ∧
      (found.isSome = true ↔ ∃ rule ∈ rules, rule.toSet.Matches appId mac) := by
  induction rules with
  | nil => exact ⟨none, rfl, by simp⟩
  | cons rule rules ih =>
    obtain ⟨found, hfound, hiff⟩ := ih (fun r hr => hok r (mem_cons_of_mem _ hr))
      (hin.imp id fun hnone r hr => hnone r (mem_cons_of_mem _ hr))
    have hrule := hok rule mem_cons_self
    have hfor := isFor_iff hrule mac
    -- the rule does not match
    have hnext : ¬ rule.toSet.Matches appId mac →
        (found.isSome = true ↔ ∃ r ∈ rule :: rules, r.toSet.Matches appId mac) := by
      intro hnot
      rw [hiff, exists_mem_cons_iff, or_iff_right hnot]
    have hhere : rule.toSet.Matches appId mac →
        ((some rule).isSome = true ↔ ∃ r ∈ rule :: rules, r.toSet.Matches appId mac) :=
      fun hmatch => iff_of_true rfl ⟨rule, mem_cons_self, hmatch⟩
    unfold matchRules
    by_cases hmac : rule.isFor mac = true
    · rw [if_pos hmac]
      by_cases hquic : appId = fwxQuicProto
      · rw [if_pos hquic]
        by_cases hfilter : rule.filterQuic = 1
        · rw [if_pos hfilter]
          refine ⟨some rule, rfl, hhere ⟨hfor.1 hmac, ?_⟩⟩
          rw [if_pos hquic]
          exact decide_eq_true hfilter
        · rw [if_neg hfilter]
          refine ⟨found, hfound, hnext fun hmatch => hfilter ?_⟩
          have := hmatch.2
          rw [if_pos hquic] at this
          exact of_decide_eq_true this
      · have htable : InTable appId := hin.resolve_right fun hnone => by
          rw [hnone rule mem_cons_self] at hmac
          exact Bool.noConfusion hmac
        rw [if_neg hquic, hrule.apps.find htable]
        by_cases hmem : appId ∈ rule.appIdList.apps
        · rw [decide_eq_true hmem]
          refine ⟨some rule, rfl, hhere ⟨hfor.1 hmac, ?_⟩⟩
          rw [if_neg hquic]
          exact hmem
        · rw [decide_eq_false hmem]
          refine ⟨found, hfound, hnext fun hmatch => hmem ?_⟩
          have := hmatch.2
          rw [if_neg hquic] at this
          exact this
    · rw [if_neg hmac]
      exact ⟨found, hfound, hnext fun hmatch => hmac (hfor.2 hmatch.1)⟩

end AppFilterRule

namespace AppFilter

/-- The rules represent the sets, are counted, and their tables are in order. -/
structure Refines (f : AppFilter) (t : AppSets) : Prop where
  represents : Represents AppFilterRule.ruleId AppFilterRule.toSet f.rules t.ids t.rule
  count : f.ruleCount = f.rules.length
  le : f.ruleCount ≤ maxAppFilterRuleNum
  ok : ∀ rule ∈ f.rules, rule.Ok

namespace Refines

variable {f : AppFilter} {t : AppSets}

theorem init : Refines .init .empty := ⟨.nil, rfl, by decide, fun _ h => (nomatch h)⟩

section

variable (h : Refines f t)

include h

theorem updated (jiffies : ℕ) : Refines (f.updated jiffies) t := ⟨h.represents, h.count, h.le, h.ok⟩

theorem add (id : ℤ) : Refines (fwxAddAppFilterRule f id) (t.add id) := by
  have hcount := h.count
  have hcard := h.represents.card
  have hle := h.le
  unfold fwxAddAppFilterRule AppSets.add maxAppFilterRuleNum
  by_cases hfull : f.ruleCount ≥ 64
  · rw [if_pos hfull, if_neg fun hn => by omega]
    exact h
  rw [if_neg hfull]
  cases hfind : fwxFindAppFilterRule f id with
  | some r =>
    rw [isSome_some, if_pos rfl, if_neg fun hn => hn.2 (h.represents.found hfind).2.2]
    exact h
  | none =>
    have hnew := h.represents.notFound hfind
    have hset : AppFilterRule.toSet ⟨id, 1, 0, .init, .init⟩ = .new := by
      have happs : AppIdConfig.init.apps = ∅ := keys_empty
      have hmacs : MacConfig.init.macs = ∅ := keys_empty
      unfold AppFilterRule.toSet RuleSet.new
      rw [happs, hmacs]
      rfl
    have hcons := h.represents.cons (a := ⟨id, 1, 0, .init, .init⟩) hnew
    rw [hset] at hcons
    rw [if_neg (by exact Bool.false_ne_true), if_pos ⟨by omega, hnew⟩]
    refine ⟨hcons, ?_, ?_, fun rule hrule => ?_⟩
    · simp [*]
    · show f.ruleCount + 1 ≤ 64
      omega
    · rcases List.mem_cons.1 hrule with rfl | hrule
      · exact ⟨placed_empty, AppIdConfig.ok_init⟩
      · exact h.ok rule hrule

theorem del (id : ℤ) : Refines (fwxDelAppFilterRule f id) (t.del id) := by
  unfold fwxDelAppFilterRule AppSets.del
  cases hfind : fwxFindAppFilterRule f id with
  | none =>
    rw [Finset.erase_eq_of_notMem (h.represents.notFound hfind)]
    exact h
  | some r =>
    obtain ⟨hmem, hid, -⟩ := h.represents.found hfind
    have hcount := h.count
    have hle := h.le
    have hlen : (eraseKey AppFilterRule.ruleId id f.rules).length + 1 = f.rules.length :=
      length_eraseKey (List.mem_map.2 ⟨r, hmem, hid⟩)
    refine ⟨h.represents.erase, ?_, ?_, fun rule hrule =>
      h.ok rule ((mem_eraseKey h.represents.nodup).1 hrule).1⟩
    · dsimp only
      omega
    · dsimp only
      omega

theorem modify {id : ℤ} {g : AppFilterRule → AppFilterRule} (hg : ∀ r, (g r).ruleId = r.ruleId)
    {r : RuleSet} (hset : ∀ rule ∈ f.rules, rule.ruleId = id → (g rule).Ok ∧ r = (g rule).toSet) :
    Refines (f.modify id g) (t.set id r) := by
  have hlen : (f.modify id g).rules.length = f.rules.length := by
    have hmap := congrArg List.length (map_modifyKey (k := id) (l := f.rules) hg)
    rw [length_map, length_map] at hmap
    exact hmap
  refine ⟨h.represents.modify hg fun rule hrule hid => (hset rule hrule hid).2,
    h.count.trans (by rw [hlen]), h.le, fun rule hrule => ?_⟩
  rcases (mem_modifyKey h.represents.nodup).1 hrule with ⟨hmem, -⟩ | ⟨rule, hmem, hid, rfl⟩
  · exact h.ok rule hmem
  · exact (hset rule hmem hid).1

theorem set_absent {id : ℤ} (hid : id ∉ t.ids) (r : RuleSet) : Refines f (t.set id r) :=
  ⟨h.represents.update hid r, h.count, h.le, h.ok⟩

theorem delId {id appId : ℤ} (hin : InTable appId ∨ fwxFindAppFilterRule f id = none) :
    ∃ f', fwxDelAppIdFromRule f id appId = .ok f' ∧ Refines f' (t.delId id appId) := by
  unfold fwxDelAppIdFromRule
  cases hfind : fwxFindAppFilterRule f id with
  | none => exact ⟨f, rfl, h.set_absent (h.represents.notFound hfind) _⟩
  | some rule =>
    obtain ⟨hmem, hid, -⟩ := h.represents.found hfind
    have hok := (h.ok rule hmem).apps
    have hrule : t.rule id = rule.toSet := hid ▸ h.represents.value rule hmem
    have hindex := appIdIndex_ok (hin.resolve_right fun hnone => by rw [hfind] at hnone; cases hnone)
    rw [hindex]
    show ∃ f', (if appId ∈ rule.appIdList.hashTable (chainOf appId) then _ else _) = _ ∧ _
    by_cases hnode : appId ∈ rule.appIdList.hashTable (chainOf appId)
    · rw [if_pos hnode]
      obtain ⟨hdel, happs⟩ := hok.del (hok.placed.mem_keys.2 hnode)
      refine ⟨_, rfl, h.modify (g := AppFilterRule.delAppId (chainOf appId) appId) (fun _ => rfl)
        fun rule' hmem' hid' => ?_⟩
      obtain rfl := h.represents.unique hmem' hmem (hid'.trans hid.symm)
      refine ⟨⟨(h.ok rule' hmem).macs, hdel⟩, ?_⟩
      rw [hrule]
      exact congrArg (fun apps => { rule'.toSet with apps := apps }) happs.symm
    · rw [if_neg hnode]
      refine ⟨f, rfl, ?_⟩
      have hsame : t.delId id appId = t := by
        have hnot : appId ∉ (t.rule id).apps := by
          rw [hrule]
          exact fun hm => hnode (hok.placed.mem_keys.1 hm)
        unfold AppSets.delId AppSets.set
        rw [Finset.erase_eq_of_notMem hnot]
        exact congrArg (AppSets.mk t.ids) (Function.update_eq_self id t.rule)
      rw [hsame]
      exact h

end

end Refines

end AppFilter

/-! ## Calls -/

section Calls

variable (scan : List Char → Option UInt8) (scanRange : String → Option (Int32 × Int32))
  (kstrtoint : String → Option Int32)

/-- The ranges that a change of a rule's ids names end, or fill the table. -/
def ModFits (data : CJson) (apps : Finset ℤ) : Prop :=
  ∀ action ∈ data.getObjectItem "app_action", if action.valueint = 1 ∨ action.valueint = 2 then
      ∀ appIdArray ∈ data.getObjectItem "app_id_list",
        TokensFit scanRange kstrtoint (if action.valueint = 1 then ∅ else apps) appIdArray.child
    else action.valueint = 3 → ∀ appIdObj ∈ data.getObjectItem "app_id",
      (appIdToken scanRange kstrtoint appIdObj).Fits apps
  deriving Decidable

/-- A number has a place in the table, unless there is no such rule, and a range ends. -/
def DelFits (f : AppFilter) (ruleId : ℤ) : AppIdToken → Prop
  | .number value => InTable value ∨ fwxFindAppFilterRule f ruleId = none
  | .range _ last => last < intMax
  | _ => True

instance (f : AppFilter) (ruleId : ℤ) : DecidablePred (DelFits f ruleId)
  | .number _ => inferInstanceAs (Decidable (_ ∨ _))
  | .range _ last => inferInstanceAs (Decidable (last < intMax))
  | .single _ | .invalid => isTrue trivial

/-- The call stays inside the tables, and comes back. -/
def CallFits (f : AppFilter) : AppRequest → Prop
  | .mod data =>
    ∀ ruleId ∈ data.getObjectItem "rule_id", ∀ rule ∈ fwxFindAppFilterRule f ruleId.valueint,
      ModFits scanRange kstrtoint data rule.appIdList.apps
  | .del data =>
    ∀ ruleId ∈ data.getObjectItem "rule_id", ∀ appIdObj ∈ data.getObjectItem "app_id",
      DelFits f ruleId.valueint (appIdToken scanRange kstrtoint appIdObj)
  | _ => True

instance (f : AppFilter) : DecidablePred (CallFits scanRange kstrtoint f) := fun request => by
  cases request <;> unfold CallFits <;> infer_instance

variable {scan scanRange kstrtoint} {f : AppFilter} {t : AppSets}

theorem modAppIdList_ok {config : AppIdConfig} (h : config.Ok) {data : CJson}
    (hfits : ModFits scanRange kstrtoint data config.apps) :
    ∃ config', modAppIdList scanRange kstrtoint data config = .ok config' ∧ config'.Ok ∧
      config'.apps = RuleSet.specApps scanRange kstrtoint data config.apps := by
  have hinit : AppIdConfig.init.apps = ∅ := keys_empty
  unfold modAppIdList RuleSet.specApps
  cases haction : data.getObjectItem "app_action" with
  | none => exact ⟨config, rfl, h, rfl⟩
  | some action =>
    have hfit := hfits action haction
    dsimp only [elim_some]
    by_cases hlist : action.valueint = 1 ∨ action.valueint = 2
    · rw [if_pos hlist] at hfit ⊢
      rw [if_pos hlist]
      cases harray : data.getObjectItem "app_id_list" with
      | none => exact ⟨config, rfl, h, rfl⟩
      | some appIdArray =>
        have htokens := hfit appIdArray harray
        by_cases hreplace : action.valueint = 1
        · rw [if_pos hreplace] at htokens ⊢
          rw [if_pos hreplace, h.flush, ← hinit]
          exact foldlM_addAppIdTokenToRule AppIdConfig.ok_init (.inl rfl) (hinit ▸ htokens)
        · rw [if_neg hreplace] at htokens ⊢
          rw [if_neg hreplace]
          exact foldlM_addAppIdTokenToRule h (.inl rfl) htokens
    · rw [if_neg hlist] at hfit ⊢
      rw [if_neg hlist]
      by_cases hone : action.valueint = 3
      · rw [if_pos hone, if_pos hone]
        cases hobj : data.getObjectItem "app_id" with
        | none => exact ⟨config, rfl, h, rfl⟩
        | some appIdObj => exact addAppIdTokenToRule_ok h (hfit hone appIdObj hobj)
      · rw [if_neg hone, if_neg hone, h.flush]
        exact ⟨.init, rfl, AppIdConfig.ok_init, hinit⟩

theorem AppFilterRule.mod_ok {rule : AppFilterRule} (h : rule.Ok) {data : CJson}
    {appIdList : AppIdConfig} (hok : appIdList.Ok)
    (happs : appIdList.apps = RuleSet.specApps scanRange kstrtoint data rule.appIdList.apps) :
    (rule.mod scan data appIdList).Ok ∧
      rule.toSet.mod scan scanRange kstrtoint data = (rule.mod scan data appIdList).toSet := by
  have hmacs : (rule.mod scan data appIdList).macList.Ok ∧
      (rule.mod scan data appIdList).macList.macs =
        (data.getObjectItem "mac_action").elim rule.macList.macs fun action =>
          specMacs scan data action.valueint rule.macList.macs := by
    unfold AppFilterRule.mod
    cases data.getObjectItem "mac_action" with
    | none => exact ⟨h.macs, rfl⟩
    | some action => exact modMacList_ok scan h.macs data action.valueint
  refine ⟨⟨hmacs.1, hok⟩, ?_⟩
  unfold RuleSet.mod AppFilterRule.toSet
  rw [hmacs.2, show (rule.mod scan data appIdList).appIdList.apps = _ from happs]
  congr 1
  · unfold AppFilterRule.mod
    cases data.getObjectItem "enable" <;> rfl
  · unfold AppFilterRule.mod
    cases data.getObjectItem "filter_quic" with
    | none => rfl
    | some quic =>
      simp

theorem AppFilter.Refines.delToken (h : f.Refines t) {ruleId : ℤ} {appIdObj : CJson}
    (hfits : DelFits f ruleId (appIdToken scanRange kstrtoint appIdObj)) :
    ∃ f', delAppIdTokenFromRule scanRange kstrtoint f ruleId appIdObj = .ok f' ∧
      f'.Refines ((appIdToken scanRange kstrtoint appIdObj).deletedIds.foldl
        (fun t appId => t.delId ruleId appId) t) := by
  have hwf := appIdToken_wellFormed scanRange kstrtoint appIdObj
  unfold delAppIdTokenFromRule
  cases htoken : appIdToken scanRange kstrtoint appIdObj with
  | number value =>
    rw [htoken] at hfits
    exact h.delId hfits
  | range first last =>
    rw [htoken] at hwf hfits
    obtain ⟨hfirst, hle, hmax⟩ := hwf
    have hstep : ∀ (f : AppFilter) (t : AppSets) (appId : ℤ), 0 < appId → f.Refines t →
        ∃ f' goOn, (fun f => (f, true)) <$> fwxDelAppIdFromRule f ruleId appId = .ok (f', goOn) ∧
          f'.Refines (t.delId ruleId appId) ∧ (goOn = false → ∀ ids : List ℤ,
            ids.foldl (fun t appId => t.delId ruleId appId) (t.delId ruleId appId) =
              t.delId ruleId appId) := by
      intro f t appId hpos hrel
      obtain ⟨f', hdel, hrel'⟩ := hrel.delId (.inl (inTable_of_nonneg hpos.le))
      exact ⟨f', true, by rw [hdel]; rfl, hrel', fun hn => Bool.noConfusion hn⟩
    have hfuel : (last - first + 1).toNat + 2 ≤ 2 ^ 32 := by
      unfold intMax at hmax
      omega
    have hrange := forRange_simulates hmax hstep hfirst (by omega) hfuel (.inl hfits) h
    rw [bmod_of_int hfirst (hle.trans hmax)] at hrange
    exact hrange
  | single value =>
    rw [htoken] at hwf
    exact h.delId (.inl (inTable_of_nonneg (le_of_lt hwf)))
  | invalid => exact ⟨f, rfl, h⟩

theorem appFilterStep_refines (h : f.Refines t) {request : AppRequest}
    (hfits : CallFits scanRange kstrtoint f request) (jiffies : ℕ) :
    ∃ f', appFilterStep scan scanRange kstrtoint jiffies f request = .ok f' ∧
      f'.Refines (t.step scan scanRange kstrtoint request) := by
  cases request with
  | add data =>
    refine ⟨_, rfl, ?_⟩
    unfold fwxApiAddAppFilterRule AppSets.step
    dsimp only
    cases data.getObjectItem "rule_id" with
    | none => exact h
    | some ruleId => exact (h.updated jiffies).add ruleId.valueint
  | mod data =>
    unfold appFilterStep fwxApiModAppFilterRule AppSets.step
    dsimp only
    cases hid : data.getObjectItem "rule_id" with
    | none => exact ⟨f, rfl, h⟩
    | some ruleId =>
      dsimp only [elim_some]
      cases hfind : fwxFindAppFilterRule f ruleId.valueint with
      | none => exact ⟨f, rfl, h.set_absent (h.represents.notFound hfind) _⟩
      | some rule =>
        obtain ⟨hmem, hkey, -⟩ := h.represents.found hfind
        have hrule : t.rule ruleId.valueint = rule.toSet := hkey ▸ h.represents.value rule hmem
        obtain ⟨appIdList, hmod, hok, happs⟩ :=
          modAppIdList_ok (h.ok rule hmem).apps (hfits _ hid _ hfind)
        dsimp only
        rw [hmod]
        refine ⟨_, rfl, (h.modify (g := AppFilterRule.mod scan data appIdList) (fun _ => rfl)
          fun rule' hmem' hkey' => ?_).updated jiffies⟩
        obtain rfl := h.represents.unique hmem' hmem (hkey'.trans hkey.symm)
        rw [hrule]
        exact AppFilterRule.mod_ok (h.ok rule' hmem) hok happs
  | del data =>
    unfold appFilterStep fwxApiDelAppFilterRule AppSets.step
    dsimp only
    cases hid : data.getObjectItem "rule_id" with
    | none => exact ⟨f, rfl, h⟩
    | some ruleId =>
      cases hobj : data.getObjectItem "app_id" with
      | none => exact ⟨_, rfl, (h.updated jiffies).del ruleId.valueint⟩
      | some appIdObj => exact (h.updated jiffies).delToken (hfits _ hid _ hobj)
  | flush =>
    exact ⟨_, rfl, ⟨nodup_nil, rfl, fun _ hr => (nomatch hr)⟩, rfl,
      show (0 : ℤ) ≤ 64 by decide, fun _ hr => (nomatch hr)⟩
  | addWhitelist data =>
    refine ⟨_, rfl, ?_⟩
    unfold fwxApiAddAppFilterWhitelist AppSets.step
    cases data.getObjectItem "mac_list" with
    | none => exact h
    | some macArray => exact ⟨h.represents, h.count, h.le, h.ok⟩
  | flushWhitelist => exact ⟨_, rfl, h.represents, h.count, h.le, h.ok⟩

end Calls

/-! ## Runs -/

section Runs

variable (scan : List Char → Option UInt8) (scanRange : String → Option (Int32 × Int32))
  (kstrtoint : String → Option Int32)

def appFilterCall (s : Except Stop AppFilter) (call : ℕ × AppRequest) : Except Stop AppFilter :=
  s.bind fun f => appFilterStep scan scanRange kstrtoint call.1 f call.2

/-- The call finds a filter, and fits it. -/
def Fits (s : Except Stop AppFilter) (call : ℕ × AppRequest) : Prop :=
  match s with
  | .ok f => CallFits scanRange kstrtoint f call.2
  | .error _ => False

instance (s : Except Stop AppFilter) (call : ℕ × AppRequest) :
    Decidable (Fits scanRange kstrtoint s call) := by
  unfold Fits
  split <;> infer_instance

/-- Rule ids are unique and there are as many as counted; each rule has as many ids as counted, and
    none twice. -/
structure AppFilter.Counted (f : AppFilter) : Prop where
  nodup : (f.rules.map AppFilterRule.ruleId).Nodup
  count : f.ruleCount = f.rules.length
  le : f.ruleCount ≤ maxAppFilterRuleNum
  ids : ∀ rule ∈ f.rules,
    rule.appIdList.count = (nodes appidHashSize rule.appIdList.hashTable).length ∧
      rule.appIdList.count ≤ maxAppIdPerRule ∧
      (nodes appidHashSize rule.appIdList.hashTable).Nodup

theorem AppFilter.Refines.counted {f : AppFilter} {t : AppSets} (h : f.Refines t) : f.Counted := by
  refine ⟨h.represents.nodup, h.count, h.le, fun rule hrule => ?_⟩
  have hok := (h.ok rule hrule).apps
  refine ⟨?_, hok.le, hok.placed.nodup_nodes hok.nodup⟩
  rw [hok.count, hok.placed.length_nodes hok.nodup]
  rfl

/-- In every run of calls that fit, all calls come back and stay inside the tables; the rules are
    counted, and one is found for an id in the table if and only if a rule of the map matches. A
    negative id without a place is as good as any other when no enabled rule is for the client. -/
theorem app_rules_are_sets (calls : List (ℕ × AppRequest))
    (hok : Along (appFilterCall scan scanRange kstrtoint) (Fits scanRange kstrtoint) (.ok .init)
      calls) :
    ∃ f, run (appFilterCall scan scanRange kstrtoint) (.ok .init) calls = .ok f ∧ f.Counted ∧
      ∀ appId mac, (InTable appId ∨ ∀ rule ∈ f.rules, rule.isFor mac = false) →
        ∃ found, fwxMatchAppFilterRule f appId mac = .ok found ∧ (found.isSome = true ↔
            (run (fun t call => AppSets.step scan scanRange kstrtoint t call.2) .empty
              calls).Blocks appId mac) := by
  have hstep : ∀ (s : Except Stop AppFilter) (t : AppSets) (call : ℕ × AppRequest),
      (∃ f, s = .ok f ∧ f.Refines t) → Fits scanRange kstrtoint s call →
      ∃ f, appFilterCall scan scanRange kstrtoint s call = .ok f ∧
        f.Refines (t.step scan scanRange kstrtoint call.2) := by
    rintro _ t call ⟨f, rfl, hrel⟩ hfits
    exact appFilterStep_refines hrel hfits call.1
  obtain ⟨f, hrun, hrel⟩ := run_simulation hstep ⟨.init, rfl, .init⟩ hok
  refine ⟨f, hrun, hrel.counted, fun appId mac hin => ?_⟩
  obtain ⟨found, hfound, hiff⟩ := AppFilterRule.matchRules_ok hrel.ok hin
  refine ⟨found, hfound, hiff.trans ?_⟩
  constructor
  · rintro ⟨rule, hrule, hmatch⟩
    refine ⟨rule.ruleId, hrel.represents.mem_ids.2 ⟨rule, hrule, rfl⟩, ?_⟩
    rw [hrel.represents.value rule hrule]
    exact hmatch
  · rintro ⟨id, hid, hmatch⟩
    obtain ⟨rule, hrule, rfl⟩ := hrel.represents.mem_ids.1 hid
    rw [hrel.represents.value rule hrule] at hmatch
    exact ⟨rule, hrule, hmatch⟩

/-- Rule 1 gets the ids 1001 to 1003 and 2001, and loses 1002. -/
def someIds : List (ℕ × AppRequest) :=
  [(0, .add (.object [.number "rule_id" 1])),
    (1, .mod (.object [.number "rule_id" 1, .number "app_action" 2,
      .array "app_id_list" [.text "" "1001-1003", .number "" 2001]])),
    (2, .del (.object [.number "rule_id" 1, .number "app_id" 1002]))]

def scanRange1001 (token : String) : Option (Int32 × Int32) :=
  if token = "1001-1003" then some (1001, 1003) else none

theorem app_rules_are_sets_some : ∃ f found,
    run (appFilterCall (fun _ => none) scanRange1001 fun _ => none) (.ok .init) someIds = .ok f ∧
      f.Counted ∧ fwxMatchAppFilterRule f 1003 ⟨[2, 0, 0, 0, 0, 1], rfl⟩ = .ok found ∧
      (found.isSome = true ↔ (run (fun t call => AppSets.step (fun _ => none) scanRange1001
        (fun _ => none) t call.2) .empty someIds).Blocks 1003 ⟨[2, 0, 0, 0, 0, 1], rfl⟩) :=
  let ⟨f, hrun, hcounted, hmatch⟩ := app_rules_are_sets (fun _ => none) scanRange1001
    (fun _ => none) someIds (by decide)
  let ⟨found, hfound, hiff⟩ := hmatch 1003 ⟨[2, 0, 0, 0, 0, 1], rfl⟩ (.inl (by decide))
  ⟨f, found, hrun, hcounted, hfound, hiff⟩

/-- The number -1 has the remainder -1. -/
theorem delete_outside : run (appFilterCall (fun _ => none) scanRange1001 fun _ => none) (.ok .init)
      [(0, .add (.object [.number "rule_id" 1])),
        (1, .del (.object [.number "rule_id" 1, .number "app_id" (-1)]))] = .error .outside :=
  rfl

end Runs

end Apackage.OpenAppFilter
