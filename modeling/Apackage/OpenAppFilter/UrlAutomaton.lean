import Apackage.Lib.AhoCorasick

/-
  The features and the automaton over their host patterns (`fwx_main.c`): the trie, its fail links,
  and the search in a host.

  Model. A C string is the list of its bytes before the terminating zero. A feature is the number of
  its allocation and its contents, which never change. A node is the number of its allocation since
  the last reset; the fail link of a node that has none yet is `none`. Allocations succeed. A loop
  has a bound on its rounds; `none` says that it goes on after that, or follows a null pointer. The
  counters and the statistics of a search are only logged and are left out.
-/

namespace Apackage.OpenAppFilter

open Lib.AhoCorasick

/-! ## Features -/

/-- `range_value_t`. -/
structure RangeValue where
  not : Bool
  start : ℤ
  stop : ℤ
  deriving DecidableEq

/-- What a feature says of the flows that it matches, in `af_feature_node_t`; a byte of `pos_info` is
    its position and its value. -/
structure AppFeature where
  appId : ℕ
  proto : ℕ
  sport : ℕ
  dportInfo : List RangeValue
  hostUrl : List UInt8
  requestUrl : List UInt8
  searchStr : List UInt8
  posInfo : List (ℤ × UInt8)

/-- `af_feature_node_t`, in the allocation `addr`. -/
structure FeatureNode extends AppFeature where
  addr : ℕ

/-- `http_proto_t`; a text that was not found is empty. -/
structure HttpProto where
  matched : Bool
  urlPos : List UInt8
  hostPos : List UInt8

/-- `https_proto_t`. -/
structure HttpsProto where
  matched : Bool
  urlPos : List UInt8

/-- `dns_proto_t`, with the names that were read. -/
structure DnsProto where
  matched : Bool
  domain : List (List UInt8)

/-- What the features look at in `flow_info_t`. -/
structure FlowInfo where
  l4Protocol : ℕ
  sport : ℕ
  dport : ℕ
  l4Data : List UInt8
  http : HttpProto
  https : HttpsProto
  dns : DnsProto

def RangeValue.has (r : RangeValue) (port : ℤ) : Bool := r.start ≤ port && port ≤ r.stop

def afMatchPort (rangeList : List RangeValue) (port : ℤ) : Bool :=
  if rangeList.length = 0 then true
  else if rangeList.any (·.not) then !rangeList.any fun r => r.not && r.has port
  else rangeList.any (·.has port)

def afMatchBasicCond (flow : FlowInfo) (node : FeatureNode) : Bool :=
  if 0 < node.proto ∧ flow.l4Protocol ≠ node.proto then false
  else if node.sport ≠ 0 ∧ flow.sport ≠ node.sport then false
  else afMatchPort node.dportInfo flow.dport

def afIsRegexHostPattern (hostUrl : List UInt8) : Bool :=
  hostUrl.head? == some '^'.toUInt8 && hostUrl.contains '*'.toUInt8 && hostUrl.contains '$'.toUInt8

/-- The features whose patterns `af_rebuild_url_ac_locked` inserts. -/
def FeatureNode.plain (node : FeatureNode) : Bool :=
  node.hostUrl.length != 0 && !afIsRegexHostPattern node.hostUrl

/-! ## The automaton -/

/-- `af_url_ac_t`, with the nodes. -/
structure UrlAc where
  root : Option ℕ
  nodeCount : ℕ
  ready : Bool
  edges : ℕ → List (UInt8 × ℕ)
  outputList : ℕ → List FeatureNode
  fail : ℕ → Option ℕ

/-- `af_ac_reset_locked` leaves the automaton without nodes. -/
def afAcReset : UrlAc := ⟨none, 0, false, fun _ => [], fun _ => [], fun _ => none⟩

def afAcAllocNode (ac : UrlAc) : ℕ × UrlAc :=
  (ac.nodeCount, { ac with
      nodeCount := ac.nodeCount + 1
      edges := Function.update ac.edges ac.nodeCount []
      outputList := Function.update ac.outputList ac.nodeCount []
      fail := Function.update ac.fail ac.nodeCount none })

def afAcFindNext (ac : UrlAc) (node : ℕ) (ch : UInt8) : Option ℕ :=
  ((ac.edges node).find? fun edge => edge.1 == ch).map Prod.snd

def afAcGetOrCreateNext (ac : UrlAc) (node : ℕ) (ch : UInt8) : ℕ × UrlAc :=
  match afAcFindNext ac node ch with
  | some child => (child, ac)
  | none =>
    let (child, ac) := afAcAllocNode ac
    (child, { ac with edges := Function.update ac.edges node ((ch, child) :: ac.edges node) })

def afAcAddOutput (ac : UrlAc) (node : ℕ) (feature : FeatureNode) : UrlAc :=
  { ac with
    outputList := Function.update ac.outputList node (ac.outputList node ++ [feature]) }

/-- The loop of `af_ac_insert_pattern` over the pattern, from the node `cur`. -/
def afAcDescend (ac : UrlAc) (cur : ℕ) : List UInt8 → ℕ × UrlAc
  | [] => (cur, ac)
  | ch :: rest =>
    let (cur, ac) := afAcGetOrCreateNext ac cur ch
    afAcDescend ac cur rest

def afAcInsertPattern (ac : UrlAc) (feature : FeatureNode) : UrlAc :=
  match ac.root with
  | none => ac
  | some root =>
    if feature.hostUrl.length = 0 then ac
    else
      let (cur, ac) := afAcDescend ac root feature.hostUrl
      afAcAddOutput ac cur feature

/-- `af_ac_build_fail_links_locked`. The queue has a place for each node, so it takes no more rounds
    than there are nodes. -/
def afAcBuildFailLinks (ac : UrlAc) : Option UrlAc :=
  match ac.root with
  | none => some ac
  | some root =>
    if ac.nodeCount = 0 then some ac
    else
      let children := (ac.edges root).map Prod.snd
      let fail := children.foldl (fun fail child => Function.update fail child (some root))
        (Function.update ac.fail root (some root))
      match linkAll ac.edges (afAcFindNext ac) root ac.nodeCount ac.nodeCount fail children with
      | none => none
      | some fail => some { ac with fail := fail }

/-- The part of `af_rebuild_url_ac_locked` before the fail links. -/
def afInsertPatterns (features : List FeatureNode) : UrlAc :=
  let (root, ac) := afAcAllocNode afAcReset
  (features.filter FeatureNode.plain).foldl afAcInsertPattern { ac with root := some root }

/-- `af_match_url_text_ac`: the first feature on the way along the fail links, at the first byte
    where there is one. -/
def afMatchUrlTextAc (ac : UrlAc) (flow : FlowInfo) (hostBuf : List UInt8)
    (checkBasicCond : Bool) : Option (Option FeatureNode) :=
  if hostBuf.length = 0 ∨ !ac.ready then some none
  else
    match ac.root with
    | none => some none
    | some root =>
      search (afAcFindNext ac) ac.fail root
        (fun node => (ac.outputList node).find? fun feature =>
          !(checkBasicCond && !afMatchBasicCond flow feature))
        ac.nodeCount root hostBuf

/-! ## The list of features -/

/-- `af_feature_head`, `g_url_ac` and `g_url_ac_dirty`; `allocs` counts the features so far. -/
structure FeatureList where
  featureHead : List FeatureNode
  urlAc : UrlAc
  dirty : Bool
  allocs : ℕ

def FeatureList.init : FeatureList := ⟨[], afAcReset, true, 0⟩

def addAppFeature (s : FeatureList) (feature : AppFeature) : FeatureList :=
  let node : FeatureNode := { feature with addr := s.allocs }
  { s with
    featureHead := node :: s.featureHead
    dirty := s.dirty || node.plain
    allocs := s.allocs + 1 }

/-- `af_rebuild_url_ac_locked`. -/
def afRebuildUrlAc (s : FeatureList) : Option FeatureList :=
  match afAcBuildFailLinks (afInsertPatterns s.featureHead) with
  | none => none
  | some ac => some { s with urlAc := { ac with ready := true }, dirty := false }

/-- The messages about features. One that adds features is the list of those that `af_init_feature`
    reads from its line. -/
inductive FeatureMsg
  | add (features : List AppFeature)
  | clean
  | loadDone

/-- `af_add_feature_msg_handle`, `af_clean_feature_list` and `af_feature_load_done_msg_handle`. -/
def handleFeatureMsg (s : FeatureList) : FeatureMsg → Option FeatureList
  | .add features => some (features.foldl addAppFeature s)
  | .clean => some { s with featureHead := [], urlAc := afAcReset, dirty := true }
  | .loadDone => if s.dirty then afRebuildUrlAc s else some s

def runFeatureMsgs (msgs : List FeatureMsg) : Option FeatureList :=
  msgs.foldlM handleFeatureMsg FeatureList.init

end Apackage.OpenAppFilter
