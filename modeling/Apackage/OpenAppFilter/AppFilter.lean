import Apackage.Lib.KeyedList
import Apackage.OpenAppFilter.Mac

/-
  The rules of the application filter (`fwx_app_filter.c`): the hash table of application ids of a
  rule, the tokens that name ids, the rules, and the whitelist.

  Model. `int` values are integers, and only the counter of a range loop can leave the range of
  `int`; there it wraps. A call that would use an index outside `hash_table`, or whose loop does not
  end, gives a `Stop`. What `sscanf` reads with `%d-%d` and what `kstrtoint` reads are parameters.
-/

namespace Apackage.OpenAppFilter

open Lib.HashChain Lib.KeyedList

/-- Why a call does not come back properly. -/
inductive Stop
  | outside
  | endless

/-! ## Lists of application ids -/

def appidHashSize : ℕ := 256

def maxAppIdPerRule : ℤ := 1024

/-- `app_id_config_t`. -/
structure AppIdConfig where
  hashTable : Chains ℤ
  count : ℤ

/-- `app_id_config_init`; `flush_app_id_list` leaves the same. -/
def AppIdConfig.init : AppIdConfig := ⟨fun _ => [], 0⟩

def flushAppIdList (config : AppIdConfig) : AppIdConfig := ⟨config.hashTable.flush appidHashSize, 0⟩

/-- `app_id % APPID_HASH_SIZE` as an index of the table; the remainder has the sign of the id. -/
def appIdIndex (appId : ℤ) : Except Stop ℕ :=
  if 0 ≤ appId.tmod appidHashSize then .ok (appId.tmod appidHashSize).toNat else .error .outside

def findAppIdNode (config : AppIdConfig) (appId : ℤ) : Except Stop Bool := do
  let hash ← appIdIndex appId
  return decide (appId ∈ config.hashTable hash)

def addAppIdNode (config : AppIdConfig) (appId : ℤ) : Except Stop (AppIdConfig × ℤ) := do
  if ← findAppIdNode config appId then return (config, 0)
  if config.count ≥ maxAppIdPerRule then return (config, -1)
  let hash ← appIdIndex appId
  return (⟨config.hashTable.add hash appId, config.count + 1⟩, 0)

/-! ## Tokens -/

def intMax : ℤ := 2 ^ 31 - 1

/-- `for (i = i; i <= last; i++)`, where the body says whether to go on. After `2 ^ 32` rounds the
    counter has had every value. -/
def forRange {σ : Type} (body : σ → ℤ → Except Stop (σ × Bool)) (last : ℤ) :
    ℕ → ℤ → σ → Except Stop σ
  | 0, _, _ => .error .endless
  | n + 1, i, s =>
    if i ≤ last then do
      let (s, goOn) ← body s i
      if goOn then forRange body last n ((i + 1).bmod (2 ^ 32)) s else return s
    else return s

/-- What `app_id_obj` says. -/
inductive AppIdToken
  | number (value : ℤ)
  | range (first last : ℤ)
  | single (value : ℤ)
  | invalid

section Tokens

variable (scanRange : String → Option (Int32 × Int32)) (kstrtoint : String → Option Int32)

/-- How `add_app_id_token_to_rule` and `del_app_id_token_from_rule` read a token. -/
def appIdToken (appIdObj : CJson) : AppIdToken :=
  if appIdObj.type = .number then .number appIdObj.valueint
  else if appIdObj.type ≠ .string then .invalid
  else
    match appIdObj.valuestring with
    | none => .invalid
    | some token =>
      match scanRange token with
      | some (first, last) =>
        if first.toInt ≤ 0 ∨ last.toInt < first.toInt then .invalid
        else .range first.toInt last.toInt
      | none =>
        match kstrtoint token with
        | some value => if 0 < value.toInt then .single value.toInt else .invalid
        | none => .invalid

/-- The loop's body of `add_app_id_token_to_rule`: a failure ends it. -/
def addAppIdInRange (config : AppIdConfig) (appId : ℤ) : Except Stop (AppIdConfig × Bool) := do
  let (config, ret) ← addAppIdNode config appId
  return (config, decide (0 ≤ ret))

/-- `add_app_id_token_to_rule`, which changes the rule's id list only. -/
def addAppIdTokenToRule (config : AppIdConfig) (appIdObj : CJson) : Except Stop AppIdConfig :=
  match appIdToken scanRange kstrtoint appIdObj with
  | .number value => if 0 < value then Prod.fst <$> addAppIdNode config value else return config
  | .range first last => forRange addAppIdInRange last (2 ^ 32) first config
  | .single value => Prod.fst <$> addAppIdNode config value
  | .invalid => return config

end Tokens

/-! ## Rules -/

def maxAppFilterRuleNum : ℤ := 64

def fwxQuicProto : ℤ := 10

/-- `app_filter_rule_t`. -/
structure AppFilterRule where
  ruleId : ℤ
  enable : ℤ
  filterQuic : ℤ
  macList : MacConfig
  appIdList : AppIdConfig

/-- `app_filter_rule_list`, `g_app_rule_count`, `g_app_filter_whitelist` and
    `g_appfilter_update_jiffies`. -/
structure AppFilter where
  rules : List AppFilterRule
  ruleCount : ℤ
  whitelist : MacConfig
  updateJiffies : ℕ

def AppFilter.init : AppFilter := ⟨[], 0, .init, 0⟩

/-- `fwx_update_appfilter_jiffies`; the variable has 32 bits. -/
def AppFilter.updated (f : AppFilter) (jiffies : ℕ) : AppFilter :=
  { f with updateJiffies := jiffies % 2 ^ 32 }

def fwxFindAppFilterRule (f : AppFilter) (ruleId : ℤ) : Option AppFilterRule :=
  findKey AppFilterRule.ruleId ruleId f.rules

/-- The rule found under an id is changed in place. -/
def AppFilter.modify (f : AppFilter) (ruleId : ℤ) (g : AppFilterRule → AppFilterRule) : AppFilter :=
  { f with rules := modifyKey AppFilterRule.ruleId ruleId g f.rules }

def fwxAddAppFilterRule (f : AppFilter) (ruleId : ℤ) : AppFilter :=
  if f.ruleCount ≥ maxAppFilterRuleNum then f
  else if (fwxFindAppFilterRule f ruleId).isSome then f
  else { f with rules := ⟨ruleId, 1, 0, .init, .init⟩ :: f.rules, ruleCount := f.ruleCount + 1 }

def fwxDelAppFilterRule (f : AppFilter) (ruleId : ℤ) : AppFilter :=
  match fwxFindAppFilterRule f ruleId with
  | some _ =>
    { f with rules := eraseKey AppFilterRule.ruleId ruleId f.rules, ruleCount := f.ruleCount - 1 }
  | none => f

/-- `hlist_del` of the node that was found in a chain. -/
def AppFilterRule.delAppId (hash : ℕ) (appId : ℤ) (rule : AppFilterRule) : AppFilterRule :=
  { rule with
    appIdList := ⟨rule.appIdList.hashTable.remove hash appId, rule.appIdList.count - 1⟩ }

def fwxDelAppIdFromRule (f : AppFilter) (ruleId appId : ℤ) : Except Stop AppFilter :=
  match fwxFindAppFilterRule f ruleId with
  | none => return f
  | some rule => do
    let hash ← appIdIndex appId
    if appId ∈ rule.appIdList.hashTable hash then
      return f.modify ruleId (AppFilterRule.delAppId hash appId)
    else return f

/-- `hlist_empty` for each chain. -/
def macListEmpty (config : MacConfig) : Bool :=
  (List.range macHashSize).all fun i => (config i).isEmpty

/-- The rule is enabled, and its addresses are none or have this one. -/
def AppFilterRule.isFor (rule : AppFilterRule) (mac : Mac) : Bool :=
  rule.enable ≠ 0 && (fwxFindMacNode rule.macList mac || macListEmpty rule.macList)

/-- The loop of `fwx_match_app_filter_rule`. -/
def matchRules (appId : ℤ) (mac : Mac) : List AppFilterRule → Except Stop (Option AppFilterRule)
  | [] => return none
  | rule :: rules =>
    if rule.isFor mac then
      if appId = fwxQuicProto then
        if rule.filterQuic = 1 then return some rule else matchRules appId mac rules
      else do
        if ← findAppIdNode rule.appIdList appId then return some rule
        else matchRules appId mac rules
    else matchRules appId mac rules

def fwxMatchAppFilterRule (f : AppFilter) (appId : ℤ) (mac : Mac) :
    Except Stop (Option AppFilterRule) :=
  matchRules appId mac f.rules

def fwxMatchAppFilterWhitelist (f : AppFilter) (mac : Mac) : Bool := fwxFindMacNode f.whitelist mac

/-! ## Requests -/

/-- A call of one of the functions that change the rules or the whitelist. -/
inductive AppRequest
  | add (data : CJson)
  | mod (data : CJson)
  | del (data : CJson)
  | flush
  | addWhitelist (data : CJson)
  | flushWhitelist

section Api

variable (scan : List Char → Option UInt8) (scanRange : String → Option (Int32 × Int32))
  (kstrtoint : String → Option Int32) (jiffies : ℕ) (f : AppFilter)

def fwxApiAddAppFilterRule (data : CJson) : AppFilter :=
  match data.getObjectItem "rule_id" with
  | none => f
  | some ruleId => fwxAddAppFilterRule (f.updated jiffies) ruleId.valueint

def modAppIdList (data : CJson) (config : AppIdConfig) : Except Stop AppIdConfig :=
  match data.getObjectItem "app_action" with
  | none => return config
  | some action =>
    if action.valueint = 1 ∨ action.valueint = 2 then
      match data.getObjectItem "app_id_list" with
      | none => return config
      | some appIdArray =>
        appIdArray.child.foldlM (addAppIdTokenToRule scanRange kstrtoint)
          (if action.valueint = 1 then flushAppIdList config else config)
    else if action.valueint = 3 then
      match data.getObjectItem "app_id" with
      | none => return config
      | some appIdObj => addAppIdTokenToRule scanRange kstrtoint config appIdObj
    else return flushAppIdList config

/-- The changes of `fwx_api_mod_app_filter_rule` to the rule, but for its ids. -/
def AppFilterRule.mod (data : CJson) (appIdList : AppIdConfig) (rule : AppFilterRule) :
    AppFilterRule :=
  { rule with
    macList := (data.getObjectItem "mac_action").elim rule.macList fun action =>
      modMacList scan data action.valueint rule.macList
    appIdList := appIdList
    enable := (data.getObjectItem "enable").elim rule.enable CJson.valueint
    filterQuic := (data.getObjectItem "filter_quic").elim rule.filterQuic fun quic =>
      if quic.valueint = 1 then 1 else 0 }

def fwxApiModAppFilterRule (data : CJson) : Except Stop AppFilter :=
  match data.getObjectItem "rule_id" with
  | none => return f
  | some ruleId =>
    match fwxFindAppFilterRule f ruleId.valueint with
    | none => return f
    | some rule => do
      let appIdList ← modAppIdList scanRange kstrtoint data rule.appIdList
      return (f.modify ruleId.valueint (AppFilterRule.mod scan data appIdList)).updated jiffies

def delAppIdTokenFromRule (ruleId : ℤ) (appIdObj : CJson) : Except Stop AppFilter :=
  match appIdToken scanRange kstrtoint appIdObj with
  | .number value => fwxDelAppIdFromRule f ruleId value
  | .range first last =>
    forRange (fun f appId => (fun f => (f, true)) <$> fwxDelAppIdFromRule f ruleId appId) last
      (2 ^ 32) first f
  | .single value => fwxDelAppIdFromRule f ruleId value
  | .invalid => return f

def fwxApiDelAppFilterRule (data : CJson) : Except Stop AppFilter :=
  match data.getObjectItem "rule_id" with
  | none => return f
  | some ruleId =>
    match data.getObjectItem "app_id" with
    | some appIdObj =>
      delAppIdTokenFromRule scanRange kstrtoint (f.updated jiffies) ruleId.valueint appIdObj
    | none => return fwxDelAppFilterRule (f.updated jiffies) ruleId.valueint

def fwxApiFlushAppFilterRule : AppFilter := { f with rules := [], ruleCount := 0 }.updated jiffies

def fwxApiAddAppFilterWhitelist (data : CJson) : AppFilter :=
  match data.getObjectItem "mac_list" with
  | none => f
  | some macArray =>
    { f with whitelist := macArray.child.foldl (addMacObj scan) f.whitelist }.updated jiffies

def fwxApiFlushAppFilterWhitelist : AppFilter :=
  { f with whitelist := fwxFlushMacList f.whitelist }.updated jiffies

def appFilterStep : AppRequest → Except Stop AppFilter
  | .add data => return fwxApiAddAppFilterRule jiffies f data
  | .mod data => fwxApiModAppFilterRule scan scanRange kstrtoint jiffies f data
  | .del data => fwxApiDelAppFilterRule scanRange kstrtoint jiffies f data
  | .flush => return fwxApiFlushAppFilterRule jiffies f
  | .addWhitelist data => return fwxApiAddAppFilterWhitelist scan jiffies f data
  | .flushWhitelist => return fwxApiFlushAppFilterWhitelist jiffies f

end Api

end Apackage.OpenAppFilter
