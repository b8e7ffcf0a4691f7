import Mathlib.Algebra.Ring.Nat
import Mathlib.Data.Vector.Basic
import Apackage.Lib.HashChain

/-
  Requests and lists of hardware addresses: the nodes of a parsed request (`k_json.c`), the
  reading of an address (`fwx_utils.c`) and the hash table of addresses (`fwx_mac.c`).

  Model. A parsed request is a tree; any of its nodes may have a text and a number, as in the
  `cJSON` struct. What `sscanf` reads with `%2hhx` is a parameter. Allocations succeed.
-/

namespace Apackage.OpenAppFilter

open List Option Lib.HashChain

/-! ## Requests -/

inductive CJsonType
  | false
  | true
  | null
  | number
  | string
  | array
  | object
  deriving DecidableEq

/-- `cJSON`; `child` is the list behind the pointer of that name. -/
inductive CJson
  | node (type : CJsonType) (valuestring : Option String) (valueint : ℤ) (name : String)
    (child : List CJson)

namespace CJson

def type : CJson → CJsonType
  | node type _ _ _ _ => type

def valuestring : CJson → Option String
  | node _ valuestring _ _ _ => valuestring

def valueint : CJson → ℤ
  | node _ _ valueint _ _ => valueint

def name : CJson → String
  | node _ _ _ name _ => name

def child : CJson → List CJson
  | node _ _ _ _ child => child

/-- `strcasecmp(c->string, string) == 0`. -/
def isNamed (key : String) (c : CJson) : Bool :=
  c.name.toList.map Char.toLower = key.toList.map Char.toLower

def getObjectItem (object : CJson) (key : String) : Option CJson := object.child.find? (isNamed key)

def number (key : String) (n : ℤ) : CJson := node .number none n key []

def text (key s : String) : CJson := node .string (some s) 0 key []

def array (key : String) (items : List CJson) : CJson := node .array none 0 key items

def object (items : List CJson) : CJson := node .object none 0 "" items

end CJson

/-! ## Addresses -/

/-- `ETH_ALEN` bytes. -/
abbrev Mac := List.Vector UInt8 6

/-- `mac_str_to_bin`, from the byte on from which `n` are missing. -/
def macBytes (scan : List Char → Option UInt8) : (n : ℕ) → List Char → Option (List.Vector UInt8 n)
  | 0, _ => some .nil
  | _ + 1, [] => none
  | n + 1, c :: p => do
    let byte ← scan (c :: p)
    let rest ← macBytes scan n (((c :: p).dropWhile fun x => x ≠ ':').drop 1)
    return .cons byte rest

def macStrToBin (scan : List Char → Option UInt8) (macStr : Option String) : Option Mac :=
  macStr.bind fun s => macBytes scan 6 s.toList

/-- `mac_str_to_bin(mac_obj->valuestring, ..)`. -/
def macOf (scan : List Char → Option UInt8) (macObj : CJson) : Option Mac :=
  macStrToBin scan macObj.valuestring

def macHashSize : ℕ := 128

def macHash (mac : Mac) : ℕ := (mac.toList.map UInt8.toNat).sum % macHashSize

/-- `mac_config_t`. -/
abbrev MacConfig := Chains Mac

def MacConfig.init : MacConfig := fun _ => []

def fwxAddMacNode (config : MacConfig) (mac : Mac) : MacConfig := config.add (macHash mac) mac

def fwxFindMacNode (config : MacConfig) (mac : Mac) : Bool := decide (mac ∈ config (macHash mac))

def fwxFlushMacList (config : MacConfig) : MacConfig := config.flush macHashSize

/-- The address of an array element or of `mac`, added if it can be read. -/
def addMacObj (scan : List Char → Option UInt8) (config : MacConfig) (macObj : CJson) : MacConfig :=
  match macOf scan macObj with
  | some mac => fwxAddMacNode config mac
  | none => config

def modMacList (scan : List Char → Option UInt8) (data : CJson) (action : ℤ) (config : MacConfig) :
    MacConfig :=
  if action = 1 ∨ action = 2 then
    match data.getObjectItem "mac_list" with
    | none => config
    | some macArray =>
      macArray.child.foldl (addMacObj scan) (if action = 1 then fwxFlushMacList config else config)
  else if action = 3 then
    match data.getObjectItem "mac" with
    | none => config
    | some macObj => addMacObj scan config macObj
  else fwxFlushMacList config

/-! ## Lists as sets -/

theorem macHash_lt (mac : Mac) : macHash mac < macHashSize := Nat.mod_lt _ (by decide)

/-- The addresses of a list. -/
def MacConfig.macs (config : MacConfig) : Finset Mac := keys macHashSize config

abbrev MacConfig.Ok (config : MacConfig) : Prop := Placed macHash macHashSize config

section Sets

variable (scan : List Char → Option UInt8) {config : MacConfig}

section

variable (h : config.Ok)

include h

theorem fwxFindMacNode_iff (mac : Mac) : fwxFindMacNode config mac = true ↔ mac ∈ config.macs := by
  unfold fwxFindMacNode MacConfig.macs
  rw [decide_eq_true_iff, h.mem_keys]

def listedMacs (scan : List Char → Option UInt8) (macArray : CJson) : Finset Mac :=
  (macArray.child.filterMap (macOf scan)).toFinset

/-- What `mac_action` is for: 1 replaces the addresses by those listed, 2 adds these, 3 adds one
    address, and anything else leaves none. -/
def specMacs (scan : List Char → Option UInt8) (data : CJson) (action : ℤ) (macs : Finset Mac) :
    Finset Mac :=
  if action = 1 then (data.getObjectItem "mac_list").elim macs (listedMacs scan)
  else if action = 2 then
    (data.getObjectItem "mac_list").elim macs fun macArray => macs ∪ listedMacs scan macArray
  else if action = 3 then
    ((data.getObjectItem "mac").bind (macOf scan)).elim macs fun mac => insert mac macs
  else ∅

theorem flush_ok : (fwxFlushMacList config).Ok ∧ (fwxFlushMacList config).macs = ∅ := by
  unfold fwxFlushMacList MacConfig.macs
  rw [h.flush]
  exact ⟨placed_empty, keys_empty⟩

theorem addMacObj_ok (macObj : CJson) : (addMacObj scan config macObj).Ok ∧
      (addMacObj scan config macObj).macs =
        (macOf scan macObj).elim config.macs fun mac => insert mac config.macs := by
  unfold addMacObj
  split
  · rename_i mac hmac
    rw [hmac]
    exact ⟨h.add (macHash_lt mac), h.keys_add (macHash_lt mac)⟩
  · simp [*]

theorem foldl_addMacObj (items : List CJson) : (items.foldl (addMacObj scan) config).Ok ∧
      (items.foldl (addMacObj scan) config).macs = config.macs ∪
        (items.filterMap (macOf scan)).toFinset := by
  induction items generalizing config with
  | nil => exact ⟨h, by rw [filterMap_nil, toFinset_nil, Finset.union_empty]; rfl⟩
  | cons macObj items ih =>
    obtain ⟨hok, hmacs⟩ := addMacObj_ok scan h macObj
    obtain ⟨hok', hmacs'⟩ := ih hok
    refine ⟨hok', ?_⟩
    rw [foldl_cons, hmacs', hmacs]
    cases hmac : macOf scan macObj with
    | none =>
      simp [*]
    | some mac =>
      simp [*]

/-- The list of a rule is changed as the set of its addresses is. -/
theorem modMacList_ok (data : CJson) (action : ℤ) : (modMacList scan data action config).Ok ∧
      (modMacList scan data action config).macs = specMacs scan data action config.macs := by
  obtain ⟨hflush, hnone⟩ := flush_ok h
  unfold modMacList specMacs
  by_cases h1 : action = 1
  · simp only [if_pos h1, if_pos (.inl h1 : action = 1 ∨ action = 2)]
    cases data.getObjectItem "mac_list" with
    | none =>
      tauto
    | some macArray =>
      obtain ⟨hok, hmacs⟩ := foldl_addMacObj scan hflush macArray.child
      exact ⟨hok, by rw [hmacs, hnone, Finset.empty_union]; rfl⟩
  · by_cases h2 : action = 2
    · simp only [if_neg h1, if_pos h2, if_pos (.inr h2 : action = 1 ∨ action = 2)]
      cases data.getObjectItem "mac_list" with
      | none =>
        tauto
      | some macArray => exact foldl_addMacObj scan h macArray.child
    · rw [if_neg (not_or.2 ⟨h1, h2⟩), if_neg h1, if_neg h2]
      split
      · cases data.getObjectItem "mac" with
        | none =>
          tauto
        | some macObj => exact addMacObj_ok scan h macObj
      · exact ⟨hflush, hnone⟩

end

end Sets

end Apackage.OpenAppFilter
