import Apackage.Lib.KeyedList
import Apackage.Lib.Run
import Apackage.OpenAppFilter.Mac

/-
  The rules of the MAC filter (`fwx_mac_filter.c`) and what they are for: a set of addresses, or all
  users, for each rule id.

  `fwx_add_mac_node` does not look for the address, and a deletion takes out one node. An address
  that was added twice is still matched after its deletion (`deleted_still_matched`). In runs where
  no deletion names such an address the rules are the sets (`rules_are_sets`).
-/

namespace Apackage.OpenAppFilter

open Function List Option Lib.HashChain Lib.KeyedList Lib.Run

/-! ## The rules -/

def maxMacFilterRuleNum : ℤ := 64

def macFilterModeAllUsers : ℤ := 1

def macFilterModeSingleUser : ℤ := 2

/-- `mac_filter_rule_t`. -/
structure MacFilterRule where
  ruleId : ℤ
  mode : ℤ
  macList : MacConfig

/-- `mac_filter_rule_list` and `g_mac_rule_count`. -/
structure MacFilter where
  rules : List MacFilterRule
  ruleCount : ℤ

def MacFilter.init : MacFilter := ⟨[], 0⟩

/-- Any mode but that of single users is that of all users. -/
def clampMode (mode : ℤ) : ℤ :=
  if mode = macFilterModeSingleUser then macFilterModeSingleUser else macFilterModeAllUsers

def fwxFindMacFilterRule (f : MacFilter) (ruleId : ℤ) : Option MacFilterRule :=
  findKey MacFilterRule.ruleId ruleId f.rules

def fwxAddMacFilterRule (f : MacFilter) (ruleId mode : ℤ) : MacFilter × ℤ :=
  if f.ruleCount ≥ maxMacFilterRuleNum then (f, -1)
  else if (fwxFindMacFilterRule f ruleId).isSome then (f, -1)
  else (⟨⟨ruleId, clampMode mode, .init⟩ :: f.rules, f.ruleCount + 1⟩, 0)

def fwxDelMacFilterRule (f : MacFilter) (ruleId : ℤ) : MacFilter × ℤ :=
  match fwxFindMacFilterRule f ruleId with
  | some _ => (⟨eraseKey MacFilterRule.ruleId ruleId f.rules, f.ruleCount - 1⟩, 0)
  | none => (f, -1)

/-- The rule found under an id is changed in place. -/
def MacFilter.modify (f : MacFilter) (ruleId : ℤ) (g : MacFilterRule → MacFilterRule) : MacFilter :=
  { f with rules := modifyKey MacFilterRule.ruleId ruleId g f.rules }

/-- `hlist_del` of the node that was found. -/
def MacFilterRule.delMac (mac : Mac) (rule : MacFilterRule) : MacFilterRule :=
  { rule with macList := rule.macList.remove (macHash mac) mac }

def fwxDelMacFromRule (f : MacFilter) (ruleId : ℤ) (mac : Mac) : MacFilter × ℤ :=
  match fwxFindMacFilterRule f ruleId with
  | some rule =>
    if fwxFindMacNode rule.macList mac then (f.modify ruleId (MacFilterRule.delMac mac), 0)
    else (f, -1)
  | none => (f, -1)

def fwxMatchMacFilterRule (f : MacFilter) (mac : Mac) : Option MacFilterRule :=
  f.rules.find? fun rule => rule.mode = macFilterModeAllUsers || fwxFindMacNode rule.macList mac

section Api

variable (scan : List Char → Option UInt8)

def fwxApiAddMacFilterRule (f : MacFilter) (data : CJson) : MacFilter × ℤ :=
  let mode := clampMode ((data.getObjectItem "mode").elim macFilterModeAllUsers CJson.valueint)
  match data.getObjectItem "rule_id" with
  | none => (f, -1)
  | some ruleId =>
    let (f, ret) := fwxAddMacFilterRule f ruleId.valueint mode
    if ret < 0 then (f, -1) else (f, 0)

/-- The changes of `fwx_api_mod_mac_filter_rule` to the rule. -/
def MacFilterRule.mod (data : CJson) (rule : MacFilterRule) : MacFilterRule :=
  let rule := (data.getObjectItem "mode").elim rule fun mode =>
    { rule with mode := clampMode mode.valueint }
  (data.getObjectItem "mac_action").elim rule fun action =>
    { rule with macList := modMacList scan data action.valueint rule.macList }

def fwxApiModMacFilterRule (f : MacFilter) (data : CJson) : MacFilter × ℤ :=
  match data.getObjectItem "rule_id" with
  | none => (f, -1)
  | some ruleId =>
    match fwxFindMacFilterRule f ruleId.valueint with
    | none => (f, -1)
    | some _ => (f.modify ruleId.valueint (MacFilterRule.mod scan data), 0)

def fwxApiDelMacFilterRule (f : MacFilter) (data : CJson) : MacFilter × ℤ :=
  match data.getObjectItem "rule_id" with
  | none => (f, -1)
  | some ruleId =>
    match data.getObjectItem "mac" with
    | some macObj =>
      match macOf scan macObj with
      | some mac => fwxDelMacFromRule f ruleId.valueint mac
      | none => (f, -1)
    | none => fwxDelMacFilterRule f ruleId.valueint

inductive MacRequest
  | add (data : CJson)
  | mod (data : CJson)
  | del (data : CJson)

def macFilterStep (f : MacFilter) : MacRequest → MacFilter
  | .add data => (fwxApiAddMacFilterRule f data).1
  | .mod data => (fwxApiModMacFilterRule scan f data).1
  | .del data => (fwxApiDelMacFilterRule scan f data).1

end Api

/-! ## The sets -/

/-- What the rules are for: of each rule that is there the mode and the addresses. -/
structure MacSets where
  ids : Finset ℤ
  mode : ℤ → ℤ
  macs : ℤ → Finset Mac

namespace MacSets

def empty : MacSets := ⟨∅, fun _ => 0, fun _ => ∅⟩

/-- An address is blocked by a rule for all users, or by one whose set has it. -/
def Blocks (t : MacSets) (mac : Mac) : Prop :=
  ∃ id ∈ t.ids, t.mode id = macFilterModeAllUsers ∨ mac ∈ t.macs id
  deriving Decidable

def set (t : MacSets) (id mode : ℤ) (macs : Finset Mac) : MacSets :=
  ⟨insert id t.ids, Function.update t.mode id mode, Function.update t.macs id macs⟩

variable (scan : List Char → Option UInt8)

/-- A rule is added without addresses, if there is room and it is not there. -/
def add (t : MacSets) (id mode : ℤ) : MacSets :=
  if t.ids.card < 64 ∧ id ∉ t.ids then t.set id mode ∅ else t

def mod (t : MacSets) (id : ℤ) (data : CJson) : MacSets :=
  if id ∈ t.ids then
    t.set id
      ((data.getObjectItem "mode").elim (t.mode id) fun mode => clampMode mode.valueint)
      ((data.getObjectItem "mac_action").elim (t.macs id) fun action =>
        specMacs scan data action.valueint (t.macs id))
  else t

/-- Deleting an address from a rule removes it. -/
def delMac (t : MacSets) (id : ℤ) (mac : Mac) : MacSets :=
  { t with macs := Function.update t.macs id ((t.macs id).erase mac) }

def del (t : MacSets) (id : ℤ) : MacSets := { t with ids := t.ids.erase id }

def step (t : MacSets) : MacRequest → MacSets
  | .add data =>
    (data.getObjectItem "rule_id").elim t fun ruleId =>
      t.add ruleId.valueint
        (clampMode ((data.getObjectItem "mode").elim macFilterModeAllUsers CJson.valueint))
  | .mod data => (data.getObjectItem "rule_id").elim t fun ruleId => t.mod scan ruleId.valueint data
  | .del data =>
    (data.getObjectItem "rule_id").elim t fun ruleId =>
      (data.getObjectItem "mac").elim (t.del ruleId.valueint) fun macObj =>
        (macOf scan macObj).elim t fun mac => t.delMac ruleId.valueint mac

end MacSets

/-! ## The rules are the sets -/

/-- Rule ids are unique, the count is right, and each rule has the mode and the addresses of its
    set. -/
structure Refines (f : MacFilter) (t : MacSets) : Prop where
  nodup : (f.rules.map MacFilterRule.ruleId).Nodup
  count : f.ruleCount = f.rules.length
  ids : t.ids = (f.rules.map MacFilterRule.ruleId).toFinset
  rules : ∀ r ∈ f.rules, r.macList.Ok ∧ t.mode r.ruleId = r.mode ∧ t.macs r.ruleId = r.macList.macs

namespace Refines

variable {f : MacFilter} {t : MacSets}

theorem init : Refines .init .empty := ⟨nodup_nil, rfl, rfl, fun _ hr => (nomatch hr)⟩

section

variable (h : Refines f t)

include h

theorem found {id : ℤ} {r : MacFilterRule} (hr : fwxFindMacFilterRule f id = some r) :
    r ∈ f.rules ∧ r.ruleId = id ∧ id ∈ t.ids := by
  obtain ⟨hmem, hid⟩ := mem_of_findKey hr
  refine ⟨hmem, hid, ?_⟩
  rw [h.ids, List.mem_toFinset, ← hid]
  exact List.mem_map_of_mem hmem

theorem notFound {id : ℤ} (hr : fwxFindMacFilterRule f id = none) : id ∉ t.ids := by
  rw [h.ids, List.mem_toFinset]
  exact findKey_eq_none hr

theorem modify {id : ℤ} {g : MacFilterRule → MacFilterRule} (hg : ∀ r, (g r).ruleId = r.ruleId)
    {t' : MacSets} (hids : t'.ids = t.ids) (hrule : ∀ r ∈ f.rules, r.ruleId = id →
      (g r).macList.Ok ∧ t'.mode id = (g r).mode ∧ t'.macs id = (g r).macList.macs)
    (hrest : ∀ x, x ≠ id → t'.mode x = t.mode x ∧ t'.macs x = t.macs x) :
    Refines (f.modify id g) t' := by
  have hmap : (f.modify id g).rules.map MacFilterRule.ruleId = f.rules.map MacFilterRule.ruleId :=
    map_modifyKey hg
  have hlen := congrArg List.length hmap
  rw [length_map, length_map] at hlen
  refine ⟨hmap ▸ h.nodup, h.count.trans (by rw [hlen]), by rw [hids, hmap, h.ids], ?_⟩
  intro r hr
  rcases (mem_modifyKey h.nodup).1 hr with ⟨hmem, hne⟩ | ⟨r, hmem, hid, rfl⟩
  · rw [(hrest _ hne).1, (hrest _ hne).2]
    exact h.rules r hmem
  · rw [hg, hid]
    exact hrule r hmem hid

theorem add (id mode : ℤ) :
    Refines (fwxAddMacFilterRule f id mode).1 (t.add id (clampMode mode)) := by
  have hcard : t.ids.card = f.rules.length := by
    rw [h.ids, toFinset_card_of_nodup h.nodup, length_map]
  have hcount := h.count
  unfold fwxAddMacFilterRule MacSets.add maxMacFilterRuleNum
  by_cases hfull : f.ruleCount ≥ 64
  · rw [if_pos hfull, if_neg fun hn => by omega]
    exact h
  rw [if_neg hfull]
  cases hfind : fwxFindMacFilterRule f id with
  | some r =>
    rw [isSome_some, if_pos rfl, if_neg fun hn => hn.2 (h.found hfind).2.2]
    exact h
  | none =>
    have hnew := h.notFound hfind
    rw [if_neg (by exact Bool.false_ne_true), if_pos ⟨by omega, hnew⟩]
    rw [h.ids, List.mem_toFinset] at hnew
    refine ⟨nodup_cons.2 ⟨hnew, h.nodup⟩, ?_, ?_, ?_⟩
    · simp [*]
    · show insert id t.ids = (id :: f.rules.map MacFilterRule.ruleId).toFinset
      rw [h.ids, toFinset_cons]
    · intro r hr
      rcases List.mem_cons.1 hr with rfl | hr
      · refine ⟨placed_empty, update_self .., ?_⟩
        show Function.update t.macs id ∅ id = _
        rw [update_self]
        exact keys_empty.symm
      · have hne : r.ruleId ≠ id := fun he => hnew (he ▸ List.mem_map_of_mem hr)
        show _ ∧ Function.update _ _ _ _ = _ ∧ Function.update _ _ _ _ = _
        rw [update_of_ne hne, update_of_ne hne]
        exact h.rules r hr

theorem del (id : ℤ) : Refines (fwxDelMacFilterRule f id).1 (t.del id) := by
  unfold fwxDelMacFilterRule
  cases hfind : fwxFindMacFilterRule f id with
  | none =>
    have hids : t.del id = t := by
      unfold MacSets.del
      rw [Finset.erase_eq_of_notMem (h.notFound hfind)]
    rw [hids]
    exact h
  | some r =>
    obtain ⟨hmem, hid, -⟩ := h.found hfind
    have hlen : (eraseKey MacFilterRule.ruleId id f.rules).length + 1 = f.rules.length :=
      length_eraseKey (List.mem_map.2 ⟨r, hmem, hid⟩)
    refine ⟨nodup_eraseKey h.nodup, ?_, ?_, fun r hr => h.rules r ((mem_eraseKey h.nodup).1 hr).1⟩
    · have := h.count
      dsimp only
      omega
    · ext x
      show x ∈ t.ids.erase id ↔ _
      rw [Finset.mem_erase, h.ids, List.mem_toFinset, List.mem_toFinset, List.mem_map, List.mem_map]
      constructor
      · rintro ⟨hne, r, hr, rfl⟩
        exact ⟨r, (mem_eraseKey h.nodup).2 ⟨hr, hne⟩, rfl⟩
      · rintro ⟨r, hr, rfl⟩
        obtain ⟨hr, hne⟩ := (mem_eraseKey h.nodup).1 hr
        exact ⟨hne, r, hr, rfl⟩

theorem delMac (id : ℤ) (mac : Mac)
    (hone : ∀ r ∈ f.rules, r.ruleId = id → (r.macList (macHash mac)).count mac ≤ 1) :
    Refines (fwxDelMacFromRule f id mac).1 (t.delMac id mac) := by
  have hids : (t.delMac id mac).ids = t.ids := rfl
  have hrest : ∀ x, x ≠ id →
      (t.delMac id mac).mode x = t.mode x ∧ (t.delMac id mac).macs x = t.macs x :=
    fun x hx => ⟨rfl, update_of_ne hx ..⟩
  have herase : ∀ r ∈ f.rules, r.ruleId = id →
      (t.delMac id mac).macs id = r.macList.macs.erase mac := by
    intro r hr hid
    show Function.update t.macs id _ id = _
    rw [update_self, ← hid, (h.rules r hr).2.2]
  -- without a node to delete the sets do not change either
  have hsame : (∀ r ∈ f.rules, r.ruleId = id → mac ∉ r.macList.macs) →
      Refines f (t.delMac id mac) := by
    refine fun hnot => ⟨h.nodup, h.count, h.ids, fun r hr => ?_⟩
    obtain ⟨hok, hmode, hmacs⟩ := h.rules r hr
    refine ⟨hok, hmode, ?_⟩
    by_cases hid : r.ruleId = id
    · rw [hid, herase r hr hid, Finset.erase_eq_of_notMem (hnot r hr hid)]
    · rw [(hrest _ hid).2, hmacs]
  unfold fwxDelMacFromRule
  cases hfind : fwxFindMacFilterRule f id with
  | none =>
    have hnew := h.notFound hfind
    rw [h.ids, List.mem_toFinset] at hnew
    exact hsame fun r hr hid => absurd (List.mem_map.2 ⟨r, hr, hid⟩) hnew
  | some r =>
    obtain ⟨hmem, hid, -⟩ := h.found hfind
    dsimp only
    split
    · refine h.modify (g := MacFilterRule.delMac mac) (fun _ => rfl) hids (fun r hr hid => ?_) hrest
      obtain ⟨hok, hmode, -⟩ := h.rules r hr
      rw [herase r hr hid]
      refine ⟨hok.remove mac, ?_, (hok.keys_remove (hone r hr hid)).symm⟩
      rw [← hid]
      exact hmode
    · rename_i hnot
      refine hsame fun r' hr' hid' => ?_
      rw [inj_on_of_nodup_map h.nodup hr' hmem (hid'.trans hid.symm),
        ← fwxFindMacNode_iff (h.rules r hmem).1]
      exact hnot

theorem mod (scan : List Char → Option UInt8) (data : CJson) {id : ℤ} (hmem : id ∈ t.ids) :
    Refines (f.modify id (MacFilterRule.mod scan data)) (t.mod scan id data) := by
  have hfields : ∀ r : MacFilterRule, (r.mod scan data).ruleId = r.ruleId ∧ (r.mod scan data).mode =
        (data.getObjectItem "mode").elim r.mode (fun mode => clampMode mode.valueint) ∧
      (r.mod scan data).macList = (data.getObjectItem "mac_action").elim r.macList
        fun action => modMacList scan data action.valueint r.macList := by
    intro r
    unfold MacFilterRule.mod
    cases data.getObjectItem "mode" <;> cases data.getObjectItem "mac_action" <;>
      exact ⟨rfl, rfl, rfl⟩
  have hmod : t.mod scan id data = t.set id _ _ := if_pos hmem
  rw [hmod]
  refine h.modify (fun r => (hfields r).1) (Finset.insert_eq_of_mem hmem) (fun r hr hid => ?_)
    fun x hx => ⟨update_of_ne hx .., update_of_ne hx ..⟩
  obtain ⟨hok, hmode, hmacs⟩ := h.rules r hr
  rw [(hfields r).2.1, (hfields r).2.2]
  show _ ∧ Function.update _ _ _ _ = _ ∧ Function.update _ _ _ _ = _
  rw [update_self, update_self, ← hid, hmode, hmacs]
  cases data.getObjectItem "mac_action" with
  | none => exact ⟨hok, rfl, rfl⟩
  | some action =>
    obtain ⟨hok', hmacs'⟩ := modMacList_ok scan hok data action.valueint
    exact ⟨hok', rfl, hmacs'.symm⟩

theorem match_iff (mac : Mac) : (fwxMatchMacFilterRule f mac).isSome = true ↔ t.Blocks mac := by
  unfold fwxMatchMacFilterRule MacSets.Blocks
  rw [find?_isSome]
  constructor
  · rintro ⟨r, hr, hmatch⟩
    obtain ⟨hok, hmode, hmacs⟩ := h.rules r hr
    refine ⟨r.ruleId, ?_, ?_⟩
    · rw [h.ids, List.mem_toFinset]
      exact List.mem_map_of_mem hr
    · rw [hmode, hmacs, ← fwxFindMacNode_iff hok]
      simpa using hmatch
  · rintro ⟨id, hid, hmatch⟩
    rw [h.ids, List.mem_toFinset, List.mem_map] at hid
    obtain ⟨r, hr, rfl⟩ := hid
    obtain ⟨hok, hmode, hmacs⟩ := h.rules r hr
    rw [hmode, hmacs, ← fwxFindMacNode_iff hok] at hmatch
    exact ⟨r, hr, by simpa using hmatch⟩

end

end Refines

/-! ## Runs -/

section Runs

variable (scan : List Char → Option UInt8)

/-- An address that the request deletes has at most one node in its rule. -/
def DeletesWhole (f : MacFilter) : MacRequest → Prop
  | .del data =>
    ∀ ruleId ∈ data.getObjectItem "rule_id", ∀ macObj ∈ data.getObjectItem "mac",
      ∀ mac ∈ macOf scan macObj, ∀ r ∈ f.rules, r.ruleId = ruleId.valueint →
        (r.macList (macHash mac)).count mac ≤ 1
  | _ => True

instance (f : MacFilter) (request : MacRequest) : Decidable (DeletesWhole scan f request) := by
  cases request <;> unfold DeletesWhole <;> infer_instance

variable {scan} {f : MacFilter} {t : MacSets}

theorem clampMode_clampMode (mode : ℤ) : clampMode (clampMode mode) = clampMode mode := by
  unfold clampMode
  split
  · rfl
  · rfl

theorem addRule_failed {id mode : ℤ} (h : (fwxAddMacFilterRule f id mode).2 < 0) :
    (fwxAddMacFilterRule f id mode).1 = f := by
  unfold fwxAddMacFilterRule at h ⊢
  split
  · rfl
  · split
    · rfl
    · rename_i hroom hnew
      rw [if_neg hroom, if_neg hnew] at h
      exact absurd h (lt_irrefl _)

theorem refines_step (h : Refines f t) {request : MacRequest}
    (hok : DeletesWhole scan f request) :
    Refines (macFilterStep scan f request) (t.step scan request) := by
  cases request with
  | add data =>
    unfold macFilterStep fwxApiAddMacFilterRule MacSets.step
    dsimp only
    cases data.getObjectItem "rule_id" with
    | none => exact h
    | some ruleId =>
      have hadd := h.add ruleId.valueint
        (clampMode ((data.getObjectItem "mode").elim macFilterModeAllUsers CJson.valueint))
      rw [clampMode_clampMode] at hadd
      dsimp only [elim_some]
      split
      · rename_i hret
        have hsame := addRule_failed hret
        exact hsame ▸ hadd
      · exact hadd
  | mod data =>
    unfold macFilterStep fwxApiModMacFilterRule MacSets.step
    dsimp only
    cases data.getObjectItem "rule_id" with
    | none => exact h
    | some ruleId =>
      dsimp only [elim_some]
      cases hfind : fwxFindMacFilterRule f ruleId.valueint with
      | none =>
        unfold MacSets.mod
        rw [if_neg (h.notFound hfind)]
        exact h
      | some r => exact h.mod scan data (h.found hfind).2.2
  | del data =>
    unfold macFilterStep fwxApiDelMacFilterRule MacSets.step
    dsimp only
    cases hid : data.getObjectItem "rule_id" with
    | none => exact h
    | some ruleId =>
      cases hobj : data.getObjectItem "mac" with
      | none => exact h.del ruleId.valueint
      | some macObj =>
        dsimp only [elim_some]
        cases hmac : macOf scan macObj with
        | none => exact h
        | some mac => exact h.delMac ruleId.valueint mac (hok _ hid _ hobj _ hmac)

/-- In every run in which no deletion names an address with several nodes, a rule is found for an
    address if and only if one is for all users or has the address in its set; rule ids are unique,
    and the count is the number of rules. -/
theorem rules_are_sets (scan : List Char → Option UInt8) (requests : List MacRequest)
    (hok : Along (macFilterStep scan) (DeletesWhole scan) .init requests) :
    let f := run (macFilterStep scan) .init requests
    (∀ mac, (fwxMatchMacFilterRule f mac).isSome = true ↔
      (run (MacSets.step scan) .empty requests).Blocks mac) ∧
    (f.rules.map MacFilterRule.ruleId).Nodup ∧ f.ruleCount = f.rules.length := by
  have hstep : ∀ f t request, Refines f t → DeletesWhole scan f request →
      Refines (macFilterStep scan f request) (MacSets.step scan t request) :=
    fun f t request hr hok => refines_step hr hok
  have h := run_simulation hstep .init hok
  exact ⟨h.match_iff, h.nodup, h.count⟩

/-- Two hexadecimal digits, as `%2hhx` reads them. -/
def scanHex : List Char → Option UInt8
  | a :: b :: _ => if a.isDigit ∧ b.isDigit then
      some (UInt8.ofNat ((a.toNat - 48) * 16 + (b.toNat - 48))) else none
  | _ => none

def client : Mac := ⟨[2, 0, 0, 0, 0, 1], rfl⟩

/-- Rule 1 is for single users, and gets the address twice. -/
def addTwice (action : ℤ) : List MacRequest :=
  [.add (.object [.number "rule_id" 1, .number "mode" 2]),
    .mod (.object [.number "rule_id" 1, .number "mac_action" action,
      .array "mac_list" [.text "" "02:00:00:00:00:01"]]),
    .mod (.object [.number "rule_id" 1, .number "mac_action" action,
      .array "mac_list" [.text "" "02:00:00:00:00:01"]]),
    .del (.object [.number "rule_id" 1, .text "mac" "02:00:00:00:00:01"])]

/-- Listed anew each time, the address is gone after its deletion. -/
theorem rules_are_sets_replaced : ¬ (run (MacSets.step scanHex) .empty (addTwice 1)).Blocks client ∧
    ((fwxMatchMacFilterRule (run (macFilterStep scanHex) .init (addTwice 1)) client).isSome = true ↔
      (run (MacSets.step scanHex) .empty (addTwice 1)).Blocks client) :=
  ⟨by decide +kernel, (rules_are_sets scanHex (addTwice 1) (by decide +kernel)).1 _⟩

/-- Appended twice, the address is still matched after its deletion. -/
theorem deleted_still_matched :
    ¬ ((fwxMatchMacFilterRule (run (macFilterStep scanHex) .init (addTwice 2)) client).isSome =
        true ↔
      (run (MacSets.step scanHex) .empty (addTwice 2)).Blocks client) := by
  decide +kernel

end Runs

end Apackage.OpenAppFilter
