import Mathlib.Data.List.Sort
import Apackage.OpenAppFilter.Mac

/-
  The report of the visited applications of a client (`__af_visit_info_report`).

  One pass over the hash table collects the applications to report, in an array of 64 places, and
  clears their counters. The pointers are sorted after it, by counters that are zero then, so the
  order is any (`report_iff`).

  Model. `sort` is the kernel's, a parameter. Pointers are numbers. A result is none when a pointer
  is written behind the array. There is memory for the JSON objects.
-/

namespace Apackage.OpenAppFilter

open Function List Option

/-- `app_visit_info_t`. -/
structure AppVisitInfo where
  appId : ℕ
  totalNum : ℕ
  latestAction : ℕ
  connCount : ℕ
  isHttp : ℕ

/-- `af_client_info_t`: `visitInfo` is what the pointers of the chains point to. -/
structure VisitClient where
  mac : Mac
  ip : ℕ
  visitAppNum : ℕ
  upBytes : ℕ
  downBytes : ℕ
  active : ℤ
  reportCount : ℕ
  visitInfo : ℕ → AppVisitInfo
  visitInfoHash : Fin 32 → List ℕ
  /-- A node is in one chain, once. -/
  nodup : ((List.finRange 32).flatMap visitInfoHash).Nodup

/-- The message, with the id and the action of each application. -/
structure VisitReport where
  mac : Mac
  ip : ℕ
  appNum : ℕ
  upFlow : ℕ
  downFlow : ℕ
  active : ℤ
  visitInfo : List (ℕ × ℕ)

/-- `sort` of the kernel with a comparison of two elements. -/
abbrev KernelSort := (ℕ → ℕ → ℤ) → List ℕ → List ℕ

def maxRecordAppNum : ℕ := 64

namespace VisitClient

variable (node : VisitClient)

def nodes : List ℕ := (List.finRange 32).flatMap node.visitInfoHash

end VisitClient

/-- `info->total_num = 0`. -/
def clearTotal (heap : ℕ → AppVisitInfo) (info : ℕ) : ℕ → AppVisitInfo :=
  Function.update heap info { heap info with totalNum := 0 }

/-- `info->is_http && info->conn_count <= g_min_http_match_count`, a comparison of unsigned
    numbers. -/
def belowHttpCount (minHttpMatchCount : ℤ) (info : AppVisitInfo) : Bool :=
  info.isHttp ≠ 0 && info.connCount ≤ (minHttpMatchCount % 2 ^ 32).toNat

/-- A node in the pass over the table: the heap and `info_array`. -/
def collectNode (minHttpMatchCount : ℤ) (s : (ℕ → AppVisitInfo) × List ℕ) (info : ℕ) :
    Option ((ℕ → AppVisitInfo) × List ℕ) :=
  if (s.1 info).totalNum = 0 then some s
  else if belowHttpCount minHttpMatchCount (s.1 info) then some (clearTotal s.1 info, s.2)
  else if s.2.length < maxRecordAppNum then some (clearTotal s.1 info, s.2 ++ [info])
  else none

def compareVisitInfoCount (heap : ℕ → AppVisitInfo) (a b : ℕ) : ℤ :=
  if (heap b).totalNum < (heap a).totalNum then -1
  else if (heap a).totalNum < (heap b).totalNum then 1
  else 0

def reportCount (maxAppReportCount : ℤ) (totalCount : ℕ) : ℤ :=
  if 0 < totalCount then
    if maxAppReportCount < totalCount then maxAppReportCount else totalCount
  else 0

/-- What a report leaves: the heap, the pointers that were reported and the message. -/
structure Reported where
  visitInfo : ℕ → AppVisitInfo
  reported : List ℕ
  report : VisitReport
  reportCount : ℕ
  upBytes : ℕ
  downBytes : ℕ

def afVisitInfoReport (sort : KernelSort) (maxAppReportCount minHttpMatchCount : ℤ)
    (node : VisitClient) : Option Reported := do
  let collected ← node.nodes.foldlM (collectNode minHttpMatchCount) (node.visitInfo, [])
  let heap := collected.1
  let infoArray :=
    if 0 < collected.2.length then sort (compareVisitInfoCount heap) collected.2 else collected.2
  let reported := infoArray.take (reportCount maxAppReportCount collected.2.length).toNat
  return {
    visitInfo := reported.foldl clearTotal heap
    reported := reported
    report := {
      mac := node.mac
      ip := node.ip
      appNum := node.visitAppNum
      upFlow := node.upBytes / 2 ^ 10 % 2 ^ 32
      downFlow := node.downBytes / 2 ^ 10 % 2 ^ 32
      active := node.active
      visitInfo := reported.map fun info => ((heap info).appId, (heap info).latestAction) }
    reportCount := node.reportCount + 1
    upBytes := 0
    downBytes := 0 }

/-! ## What a report should be -/

namespace VisitClient

variable (node : VisitClient)

theorem nodup_nodes : node.nodes.Nodup := node.nodup

def total (info : ℕ) : ℕ := (node.visitInfo info).totalNum

end VisitClient

/-- Visited in the period, and not below the threshold. -/
def reportable (minHttpMatchCount : ℤ) (heap : ℕ → AppVisitInfo) (info : ℕ) : Bool :=
  (heap info).totalNum ≠ 0 && !belowHttpCount minHttpMatchCount (heap info)

def VisitClient.eligible (node : VisitClient) (minHttpMatchCount : ℤ) : List ℕ :=
  node.nodes.filter (reportable minHttpMatchCount node.visitInfo)

/-- As many of the eligible as asked for, with the largest totals, in their order. -/
structure MostUsed (total : ℕ → ℕ) (eligible : List ℕ) (count : ℕ) (reported : List ℕ) : Prop where
  nodup : reported.Nodup
  subset : reported ⊆ eligible
  length_eq : reported.length = min count eligible.length
  order : reported.Pairwise fun a b => total b ≤ total a
  largest : ∀ a ∈ eligible, a ∉ reported → ∀ b ∈ reported, total a ≤ total b

def ReportsMostUsed (sort : KernelSort) (maxAppReportCount minHttpMatchCount : ℤ)
    (node : VisitClient) : Prop :=
  ∃ r, afVisitInfoReport sort maxAppReportCount minHttpMatchCount node = some r ∧
    MostUsed node.total (node.eligible minHttpMatchCount) maxAppReportCount.toNat r.reported ∧
    (r.report.visitInfo = r.reported.map fun info =>
      ((node.visitInfo info).appId, (node.visitInfo info).latestAction)) ∧
    ∀ info ∈ node.nodes, (r.visitInfo info).totalNum = 0

/-- What is documented of the kernel's sort: the elements in the order of a comparison that is one.
    Equal elements are left in any order. -/
structure Sorts (sort : KernelSort) : Prop where
  perm : ∀ compare l, (sort compare l).Perm l
  order : ∀ compare l, (∀ a b, compare a b ≤ 0 ∨ compare b a ≤ 0) →
    (∀ a b c, compare a b ≤ 0 → compare b c ≤ 0 → compare a c ≤ 0) →
    (sort compare l).Pairwise fun a b => compare a b ≤ 0

/-! ## The pass over the table -/

section Pass

variable {minHttpMatchCount : ℤ} {heap : ℕ → AppVisitInfo}

def clearAll (nodes : List ℕ) (heap : ℕ → AppVisitInfo) (info : ℕ) : AppVisitInfo :=
  if info ∈ nodes then { heap info with totalNum := 0 } else heap info

theorem clearTotal_of_zero {info : ℕ} (h : (heap info).totalNum = 0) :
    clearTotal heap info = heap := by
  rw [clearTotal, ← h]
  exact update_eq_self info heap

theorem clearTotal_totalNum (info p : ℕ) :
    (clearTotal heap info p).totalNum = if p = info then 0 else (heap p).totalNum := by
  rw [clearTotal]
  split_ifs with hp
  · rw [hp, update_self]
  · rw [update_of_ne hp]

theorem foldl_clearTotal_zero {p : ℕ} (reported : List ℕ) (h : (heap p).totalNum = 0) :
    (reported.foldl clearTotal heap p).totalNum = 0 := by
  induction reported generalizing heap with
  | nil => exact h
  | cons info reported ih =>
    refine ih ?_
    rw [clearTotal_totalNum, h, ite_self]

theorem clearTotal_of_ne {info p : ℕ} (h : p ≠ info) : clearTotal heap info p = heap p :=
  update_of_ne h ..

theorem clearAll_cons {info : ℕ} {nodes : List ℕ} (hinfo : info ∉ nodes) :
    clearAll nodes (clearTotal heap info) = clearAll (info :: nodes) heap := by
  funext p
  rw [clearAll, clearAll]
  by_cases hp : p = info
  · subst hp
    rw [if_neg hinfo, if_pos mem_cons_self]
    exact update_self ..
  · rw [clearTotal_of_ne hp]
    simp only [List.mem_cons, hp, false_or]

theorem collectNode_eq (infoArray : List ℕ) (info : ℕ) :
    collectNode minHttpMatchCount (heap, infoArray) info =
      if reportable minHttpMatchCount heap info then
        if infoArray.length < maxRecordAppNum then
          some (clearTotal heap info, infoArray ++ [info])
        else none
      else some (clearTotal heap info, infoArray) := by
  rw [collectNode, reportable]
  by_cases hzero : (heap info).totalNum = 0
  · simp [hzero, clearTotal_of_zero]
  · cases hbelow : belowHttpCount minHttpMatchCount (heap info) with
    | true => simp [hzero]
    | false => simp [hzero]

theorem collect_spec {nodes infoArray : List ℕ} (hnodup : nodes.Nodup)
    (hroom : infoArray.length ≤ maxRecordAppNum) :
    nodes.foldlM (collectNode minHttpMatchCount) (heap, infoArray) =
      if infoArray.length + (nodes.filter (reportable minHttpMatchCount heap)).length ≤
          maxRecordAppNum then
        some (clearAll nodes heap, infoArray ++ nodes.filter (reportable minHttpMatchCount heap))
      else none := by
  induction nodes generalizing heap infoArray with
  | nil =>
    rw [filter_nil, length_nil, Nat.add_zero, if_pos hroom, append_nil]
    rfl
  | cons info nodes ih =>
    obtain ⟨hinfo, hnodup⟩ := nodup_cons.1 hnodup
    have hrest : nodes.filter (reportable minHttpMatchCount (clearTotal heap info)) =
        nodes.filter (reportable minHttpMatchCount heap) := by
      refine filter_congr fun p hp => ?_
      have hne : p ≠ info := fun h => hinfo (h ▸ hp)
      rw [reportable, reportable, clearTotal_of_ne hne]
    rw [foldlM_cons, collectNode_eq, filter_cons]
    by_cases hrep : reportable minHttpMatchCount heap info = true
    · rw [if_pos hrep, if_pos hrep, length_cons]
      by_cases hplace : infoArray.length < maxRecordAppNum
      · rw [if_pos hplace, bind_eq_bind, bind_some,
          ih hnodup (by rw [length_append, length_singleton]; omega), hrest,
          clearAll_cons hinfo, length_append, length_singleton, append_assoc,
          Nat.add_assoc, Nat.add_comm 1]
        rfl
      · rw [if_neg hplace, if_neg (by omega)]
        rfl
    · rw [if_neg hrep, if_neg hrep, bind_eq_bind, bind_some, ih hnodup hroom, hrest,
        clearAll_cons hinfo]

end Pass

/-! ## The report -/

section Report

variable {sort : KernelSort} {maxAppReportCount minHttpMatchCount : ℤ} {node : VisitClient}

/-- The pointers as they are sorted and cut. -/
def sortedNodes (sort : KernelSort) (maxAppReportCount minHttpMatchCount : ℤ)
    (node : VisitClient) : List ℕ :=
  (sort (compareVisitInfoCount (clearAll node.nodes node.visitInfo))
    (node.eligible minHttpMatchCount)).take maxAppReportCount.toNat

theorem clearAll_appId (nodes : List ℕ) (heap : ℕ → AppVisitInfo) (p : ℕ) :
    (clearAll nodes heap p).appId = (heap p).appId ∧
      (clearAll nodes heap p).latestAction = (heap p).latestAction := by
  rw [clearAll]
  split_ifs <;> exact ⟨rfl, rfl⟩

theorem reportCount_toNat (count : ℕ) {l : List ℕ} (hl : l.length = count) :
    l.take (reportCount maxAppReportCount count).toNat = l.take maxAppReportCount.toNat := by
  rw [reportCount]
  split_ifs with hpos hless
  · rfl
  · rw [Int.toNat_natCast, ← hl, take_length, take_of_length_le (by omega)]
  · rw [eq_nil_of_length_eq_zero (by omega : l.length = 0), take_nil, take_nil]

theorem report_eq_none (h : maxRecordAppNum < (node.eligible minHttpMatchCount).length) :
    afVisitInfoReport sort maxAppReportCount minHttpMatchCount node = none := by
  rw [afVisitInfoReport, collect_spec node.nodup_nodes (Nat.zero_le _), if_neg]
  · rfl
  · rw [length_nil, Nat.zero_add]
    exact Nat.not_le_of_lt h

theorem report_spec (hsort : Sorts sort)
    (h : (node.eligible minHttpMatchCount).length ≤ maxRecordAppNum) :
    ∃ r, afVisitInfoReport sort maxAppReportCount minHttpMatchCount node = some r ∧
      r.reported = sortedNodes sort maxAppReportCount minHttpMatchCount node ∧
      (r.report.visitInfo = r.reported.map fun info =>
        ((node.visitInfo info).appId, (node.visitInfo info).latestAction)) ∧
      ∀ info ∈ node.nodes, (r.visitInfo info).totalNum = 0 := by
  have hcollect := @collect_spec minHttpMatchCount node.visitInfo node.nodes [] node.nodup_nodes
    (Nat.zero_le _)
  rw [length_nil, Nat.zero_add, if_pos (by exact h), nil_append] at hcollect
  rw [afVisitInfoReport, hcollect]
  refine ⟨_, rfl, ?_, ?_, fun info hinfo => ?_⟩
  · have hlength := (hsort.perm (compareVisitInfoCount (clearAll node.nodes node.visitInfo))
      (node.eligible minHttpMatchCount)).length_eq
    rw [sortedNodes]
    by_cases hpos : 0 < (node.eligible minHttpMatchCount).length
    · rw [if_pos (by exact hpos)]
      exact reportCount_toNat _ hlength
    · have hnil : node.eligible minHttpMatchCount = [] := eq_nil_of_length_eq_zero (by omega)
      rw [hnil, length_nil] at hlength
      rw [if_neg (by exact hpos), hnil, eq_nil_of_length_eq_zero hlength, take_nil]
      change (node.eligible minHttpMatchCount).take _ = []
      rw [hnil, take_nil]
  · refine map_congr_left fun info _ => ?_
    rw [(clearAll_appId _ _ info).1, (clearAll_appId _ _ info).2]
  · refine foldl_clearTotal_zero _ ?_
    dsimp only
    rw [clearAll, if_pos hinfo]

/-! ## When it is right -/

theorem compare_nonpos_iff (heap : ℕ → AppVisitInfo) (a b : ℕ) :
    compareVisitInfoCount heap a b ≤ 0 ↔ (heap b).totalNum ≤ (heap a).totalNum := by
  rw [compareVisitInfoCount]
  split_ifs <;> omega

/-- A sort that leaves one list as it is. -/
def sortWith (first : List ℕ) : KernelSort := fun compare l =>
  if first.Perm l ∧ first.Pairwise fun a b => compare a b ≤ 0 then first
  else l.mergeSort fun a b => compare a b ≤ 0

theorem sorts_sortWith (first : List ℕ) : Sorts (sortWith first) where
  perm compare l := by
    rw [sortWith]
    split_ifs with hfirst
    · exact hfirst.1
    · exact mergeSort_perm l _
  order compare l htotal htrans := by
    rw [sortWith]
    split_ifs with hfirst
    · exact hfirst.2
    · have hpairwise := @List.pairwise_mergeSort _ (fun a b => decide (compare a b ≤ 0))
        (fun a b c hab hbc => by
          rw [decide_eq_true_eq] at *
          exact htrans a b c hab hbc)
        (fun a b => by
          rw [Bool.or_eq_true, decide_eq_true_eq, decide_eq_true_eq]
          exact htotal a b) l
      exact hpairwise.imp fun h => of_decide_eq_true h

theorem sortWith_eligible {first : List ℕ} (h : first.Perm (node.eligible minHttpMatchCount)) :
    sortWith first (compareVisitInfoCount (clearAll node.nodes node.visitInfo))
      (node.eligible minHttpMatchCount) = first := by
  rw [sortWith, if_pos]
  refine ⟨h, pairwise_of_forall_mem_list fun a ha b hb => ?_⟩
  have hnode (p : ℕ) (hp : p ∈ first) : p ∈ node.nodes := mem_of_mem_filter (h.mem_iff.1 hp)
  rw [compare_nonpos_iff, clearAll, clearAll, if_pos (hnode a ha), if_pos (hnode b hb)]

theorem nodup_eligible : (node.eligible minHttpMatchCount).Nodup := node.nodup_nodes.filter _

/-- With every sort, the report is right exactly if the eligible fit in the array and none is asked
    for, or all were used as often. -/
theorem report_iff : (∀ sort, Sorts sort →
      ReportsMostUsed sort maxAppReportCount minHttpMatchCount node) ↔
    (node.eligible minHttpMatchCount).length ≤ maxRecordAppNum ∧
      (0 < maxAppReportCount → ∀ a ∈ node.eligible minHttpMatchCount,
        ∀ b ∈ node.eligible minHttpMatchCount, node.total a = node.total b) := by
  constructor
  · intro hall
    have hfits : (node.eligible minHttpMatchCount).length ≤ maxRecordAppNum := by
      by_contra hlong
      obtain ⟨r, hr, -⟩ := hall (sortWith []) (sorts_sortWith [])
      rw [report_eq_none (Nat.lt_of_not_le hlong)] at hr
      cases hr
    refine ⟨hfits, fun hpos => ?_⟩
    -- the sort may leave the less used of two in front of the other
    have hle (a b : ℕ) (ha : a ∈ node.eligible minHttpMatchCount)
        (hb : b ∈ node.eligible minHttpMatchCount) : node.total b ≤ node.total a := by
      by_cases hab : a = b
      · rw [hab]
      · have hb' : b ∈ (node.eligible minHttpMatchCount).erase a :=
          (mem_erase_of_ne (Ne.symm hab)).2 hb
        obtain ⟨rest, hrest⟩ : ∃ rest, (a :: b :: rest).Perm (node.eligible minHttpMatchCount) :=
          ⟨_, ((perm_cons_erase ha).trans ((perm_cons_erase hb').cons a)).symm⟩
        obtain ⟨r, hr, hmost, -⟩ := hall _ (sorts_sortWith (a :: b :: rest))
        obtain ⟨r', hr', hreported, -⟩ := @report_spec (sortWith (a :: b :: rest))
          maxAppReportCount minHttpMatchCount node (sorts_sortWith _) hfits
        obtain rfl := some.inj (hr.symm.trans hr')
        rw [hreported, sortedNodes, sortWith_eligible hrest] at hmost
        obtain ⟨n, hn⟩ : ∃ n, maxAppReportCount.toNat = n + 1 :=
          ⟨maxAppReportCount.toNat - 1, by omega⟩
        rw [hn, take_succ_cons] at hmost
        cases n with
        | zero =>
          refine hmost.largest b hb ?_ a mem_cons_self
          rw [take_zero, mem_singleton]
          exact Ne.symm hab
        | succ n =>
          have horder := hmost.order
          rw [take_succ_cons] at horder
          exact rel_of_pairwise_cons horder mem_cons_self
    exact fun a ha b hb => le_antisymm (hle b a hb ha) (hle a b ha hb)
  · rintro ⟨hfits, hequal⟩ sort hsort
    obtain ⟨r, hr, hreported, hinfo, hzero⟩ := @report_spec sort maxAppReportCount
      minHttpMatchCount node hsort hfits
    have hperm := hsort.perm (compareVisitInfoCount (clearAll node.nodes node.visitInfo))
      (node.eligible minHttpMatchCount)
    have hmem (a : ℕ) (ha : a ∈ r.reported) :
        a ∈ node.eligible minHttpMatchCount ∧ 0 < maxAppReportCount := by
      rw [hreported, sortedNodes] at ha
      refine ⟨hperm.mem_iff.1 (mem_of_mem_take ha), ?_⟩
      by_contra hneg
      rw [Int.toNat_of_nonpos (by omega), take_zero] at ha
      cases ha
    refine ⟨r, hr, ⟨?_, fun a ha => (hmem a ha).1, ?_, ?_, ?_⟩, hinfo, hzero⟩
    · rw [hreported, sortedNodes]
      exact (hperm.nodup_iff.2 nodup_eligible).sublist (take_sublist _ _)
    · rw [hreported, sortedNodes, length_take, hperm.length_eq]
    · refine pairwise_of_forall_mem_list fun a ha b hb => ?_
      exact (hequal (hmem a ha).2 b (hmem b hb).1 a (hmem a ha).1).le
    · intro a ha _ b hb
      exact (hequal (hmem b hb).2 a ha b (hmem b hb).1).le

end Report

/-- Two applications with counters `first` and `second`, in the first chains. -/
def twoApps (first second : ℕ) : VisitClient where
  mac := ⟨[2, 17, 34, 51, 68, 85], rfl⟩
  ip := 0xc0a80102
  visitAppNum := 2
  upBytes := 0
  downBytes := 0
  active := 1
  reportCount := 0
  visitInfo p := ⟨1001 + p, if p = 0 then first else second, 0, 0, 0⟩
  visitInfoHash i := if i.val = 0 then [0] else if i.val = 1 then [1] else []
  nodup := by decide

theorem report_iff_equal : ReportsMostUsed (sortWith [1, 0]) 3 3 (twoApps 2 2) :=
  report_iff.2 ⟨by decide, fun _ => by decide⟩ (sortWith [1, 0]) (sorts_sortWith [1, 0])

/-- Of two equal elements the sort leaves the second in front, and with it the less used. -/
theorem less_used_first :
    Sorts (sortWith [1, 0]) ∧ ¬ ReportsMostUsed (sortWith [1, 0]) 3 3 (twoApps 2 1) := by
  refine ⟨sorts_sortWith [1, 0], fun ⟨r, hr, hmost, _⟩ => ?_⟩
  obtain ⟨r', hr', hreported, -⟩ := @report_spec (sortWith [1, 0]) 3 3 (twoApps 2 1)
    (sorts_sortWith _) (by decide)
  obtain rfl := some.inj (hr.symm.trans hr')
  rw [hreported, sortedNodes, sortWith_eligible (by decide)] at hmost
  exact absurd hmost.order (by decide)

end Apackage.OpenAppFilter
