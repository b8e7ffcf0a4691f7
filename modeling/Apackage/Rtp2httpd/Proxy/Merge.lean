import Apackage.Lib.KeyedMerge
import Apackage.Rtp2httpd.Proxy.Rewrite

/-
  Merging the query of a request into the query of a configured URL
  (`merge_query_strings` in `service.c`).

  The code takes what stands between two `&` for a parameter, also when that is empty: an empty
  one has the empty name, and it is lost in front of all others. `params` are the parameters that
  a reader finds in a query, where a stray `&` is none.
-/

namespace Apackage.Rtp2httpd

open Lib.Fields Lib.KeyedMerge

/-- The parameters that the loops `while (p && *p)` visit: an empty one at the end is not seen. -/
def queryParams (query : Bytes) : List Bytes :=
  let fields := query.splitOn ampersand
  if fields.getLast? = some [] then fields.dropLast else fields

def nameOf (param : Bytes) : Bytes := param.takeWhile (· ≠ equals)

/-- `output` up to `out_pos`, and what was written to it. -/
structure MergeOutput where
  text : Bytes
  writes : List Write

def MergeOutput.put (size : ℕ) (src : Bytes) (o : MergeOutput) : MergeOutput where
  text := o.text ++ src
  writes := o.writes ++ [⟨o.text.length, src.length, size⟩]

/-- `MERGE_APPEND_SEP`; an error is the return of -1. -/
def mergeAppendSep (size : ℕ) (o : MergeOutput) : Except MergeOutput MergeOutput :=
  if o.text.length > 0 then
    if o.text.length + 1 ≥ size then .error o else .ok (o.put size [ampersand])
  else .ok o

def mergeAppendParam (size : ℕ) (o : MergeOutput) (src : Bytes) :
    Except MergeOutput MergeOutput := do
  let o ← mergeAppendSep size o
  if o.text.length + src.length ≥ size then .error o else .ok (o.put size src)

/-- What a parameter of `base` turns into, after the parameters `seen`. -/
def mergeBaseParam (size : ℕ) (override seen : List Bytes) (o : MergeOutput) (p : Bytes) :
    Except MergeOutput MergeOutput :=
  if occurs nameOf (nameOf p) override then
    if occurs nameOf (nameOf p) seen then .ok o
    else (valuesOf nameOf (nameOf p) override).foldlM (mergeAppendParam size) o
  else mergeAppendParam size o p

def mergeBase (size : ℕ) (override : List Bytes) :
    (seen : List Bytes) → List Bytes → MergeOutput → Except MergeOutput MergeOutput
  | _, [], o => .ok o
  | seen, p :: rest, o => do
    let o ← mergeBaseParam size override seen o p
    mergeBase size override (seen ++ [p]) rest o

/-- The walk over `override`. -/
def mergeAppended (size : ℕ) (base override : List Bytes) (o : MergeOutput) :
    Except MergeOutput MergeOutput :=
  (override.filter fun p => !occurs nameOf (nameOf p) base).foldlM (mergeAppendParam size) o

def mergeQueryStrings (baseQuery overrideQuery : Bytes) (outputSize : ℕ) :
    Except MergeOutput MergeOutput :=
  if outputSize = 0 then .error ⟨[], []⟩
  else do
    let base := queryParams baseQuery
    let override := queryParams overrideQuery
    let o ← mergeBase outputSize override [] base ⟨[], [⟨0, 1, outputSize⟩]⟩
    let o ← mergeAppended outputSize base override o
    .ok { o with writes := o.writes ++ [⟨o.text.length, 1, outputSize⟩] }

/-- The query, if the call succeeds. -/
def mergedText : Except MergeOutput MergeOutput → Option Bytes
  | .ok o => some o.text
  | .error _ => none

/-- All that a call wrote, whether it succeeds or not. -/
def writesOf : Except MergeOutput MergeOutput → List Write
  | .ok o => o.writes
  | .error o => o.writes

/-! ## The loops -/

theorem mergeBase_eq (size : ℕ) (override seen base : List Bytes) (o : MergeOutput) :
    mergeBase size override seen base o =
      (replaceFrom nameOf override seen base).foldlM (mergeAppendParam size) o := by
  induction base generalizing seen o with
  | nil => rfl
  | cons p rest ih =>
    have hstep : mergeBaseParam size override seen o p =
        (replacement nameOf override seen p).foldlM (mergeAppendParam size) o := by
      unfold mergeBaseParam replacement
      split
      · split <;> rfl
      · exact (bind_pure _).symm
    rw [mergeBase, hstep, replaceFrom, List.foldlM_append]
    exact bind_congr fun o => ih (seen ++ [p]) o

/-- Every write so far was inside the buffer. -/
def Inside (writes : List Write) : Prop := ∀ w ∈ writes, w.start + w.length ≤ w.blockSize

variable {o : MergeOutput}

theorem Inside.put {size : ℕ} {src : Bytes} (h : Inside o.writes)
    (hfits : o.text.length + src.length ≤ size) : Inside (o.put size src).writes := by
  intro w hw
  rcases List.mem_append.1 hw with hw | hw
  · exact h w hw
  · rw [List.mem_singleton.1 hw]
    exact hfits

/-- Where a loop stands: with room for the terminator, or stopped because a text does not fit. -/
def Wrote (size : ℕ) (text : Bytes) : Except MergeOutput MergeOutput → Prop
  | .ok o => o.text = text ∧ text.length < size ∧ Inside o.writes
  | .error o => size ≤ text.length ∧ Inside o.writes

theorem appendParam_wrote {size : ℕ} (hroom : o.text.length < size) (hin : Inside o.writes)
    (src : Bytes) :
    Wrote size (appendField [ampersand] o.text src) (mergeAppendParam size o src) := by
  unfold mergeAppendParam mergeAppendSep appendField
  by_cases hnil : o.text = []
  · have hlen : o.text.length = 0 := by rw [hnil]; rfl
    rw [if_pos hnil, if_neg (by omega)]
    show Wrote size src (if _ then _ else _)
    split
    · exact ⟨by omega, hin⟩
    · refine ⟨?_, by omega, hin.put (by omega)⟩
      show o.text ++ src = src
      rw [hnil, List.nil_append]
  · have hpos : o.text.length > 0 := List.length_pos_iff.2 hnil
    rw [if_neg hnil, if_pos hpos]
    have hlen : (o.text ++ [ampersand] ++ src).length = o.text.length + 1 + src.length := by
      rw [List.length_append, List.length_append]
      rfl
    split
    · exact ⟨by rw [hlen]; omega, hin⟩
    · have hsep : Inside (o.put size [ampersand]).writes :=
        hin.put (by rw [List.length_singleton]; omega)
      have hput : (o.put size [ampersand]).text.length = o.text.length + 1 := List.length_append
      show Wrote size _ (if _ then _ else _)
      split
      · exact ⟨by omega, hsep⟩
      · exact ⟨rfl, by omega, hsep.put (by omega)⟩

theorem foldlM_wrote {size : ℕ} (hroom : o.text.length < size) (hin : Inside o.writes)
    (fields : List Bytes) :
    Wrote size (fields.foldl (appendField [ampersand]) o.text)
      (fields.foldlM (mergeAppendParam size) o) := by
  induction fields generalizing o with
  | nil => exact ⟨rfl, hroom, hin⟩
  | cons f fields ih =>
    have hstep := appendParam_wrote hroom hin f
    rw [List.foldl_cons, List.foldlM_cons]
    cases hf : mergeAppendParam size o f with
    | error o' =>
      rw [hf] at hstep
      exact ⟨hstep.1.trans (length_foldl_appendField fields _), hstep.2⟩
    | ok o' =>
      rw [hf] at hstep
      obtain ⟨htext, hlt, hin'⟩ := hstep
      rw [← htext] at hlt ⊢
      exact ih hlt hin'

/-- The text that the call writes when the buffer is large enough. -/
def mergedQuery (baseQuery overrideQuery : Bytes) : Bytes :=
  [ampersand].intercalate
    ((merge nameOf (queryParams baseQuery) (queryParams overrideQuery)).dropWhile List.isEmpty)

theorem mergeQueryStrings_eq (baseQuery overrideQuery : Bytes) (size : ℕ) :
    mergedText (mergeQueryStrings baseQuery overrideQuery size) =
        (if (mergedQuery baseQuery overrideQuery).length < size then
          some (mergedQuery baseQuery overrideQuery) else none) ∧
      Inside (writesOf (mergeQueryStrings baseQuery overrideQuery size)) := by
  unfold mergeQueryStrings
  by_cases hsize : size = 0
  · rw [if_pos hsize, if_neg (by omega)]
    exact ⟨rfl, fun w hw => absurd hw List.not_mem_nil⟩
  rw [if_neg hsize]
  have hfirst : Inside [⟨0, 1, size⟩] := fun w hw => by
    rw [List.mem_singleton.1 hw]
    show 0 + 1 ≤ size
    omega
  have hrun : Wrote size
      ((merge nameOf (queryParams baseQuery) (queryParams overrideQuery)).foldl
        (appendField [ampersand]) [])
      ((merge nameOf (queryParams baseQuery) (queryParams overrideQuery)).foldlM
        (mergeAppendParam size) ⟨[], [⟨0, 1, size⟩]⟩) :=
    foldlM_wrote (Nat.pos_of_ne_zero hsize) hfirst _
  have hloops : (do
      let o ← mergeBase size (queryParams overrideQuery) [] (queryParams baseQuery)
        ⟨[], [⟨0, 1, size⟩]⟩
      mergeAppended size (queryParams baseQuery) (queryParams overrideQuery) o) =
      (merge nameOf (queryParams baseQuery) (queryParams overrideQuery)).foldlM
        (mergeAppendParam size) ⟨[], [⟨0, 1, size⟩]⟩ := by
    rw [merge, List.foldlM_append, mergeBase_eq]
    rfl
  rw [← hloops] at hrun
  rw [← bind_assoc]
  rw [foldl_appendField] at hrun
  cases hout : (do
      let o ← mergeBase size (queryParams overrideQuery) [] (queryParams baseQuery)
        ⟨[], [⟨0, 1, size⟩]⟩
      mergeAppended size (queryParams baseQuery) (queryParams overrideQuery) o) with
  | error o =>
    rw [hout] at hrun
    exact ⟨(if_neg (not_lt.2 hrun.1)).symm, hrun.2⟩
  | ok o =>
    rw [hout] at hrun
    obtain ⟨htext, hlt, hin⟩ := hrun
    refine ⟨?_, ?_⟩
    · rw [mergedQuery, if_pos hlt, ← htext]
      rfl
    · intro w hw
      rcases List.mem_append.1 hw with hw | hw
      · exact hin w hw
      · rw [List.mem_singleton.1 hw]
        rw [htext]
        exact hlt

/-! ## The parameters a reader finds -/

/-- The parameters of a query: a stray `&` is none. -/
def params (query : Bytes) : List Bytes := (query.splitOn ampersand).filter (· ≠ [])

def hasParam (name query : Bytes) : Bool := occurs nameOf name (params query)

def paramsNamed (name query : Bytes) : List Bytes := valuesOf nameOf name (params query)

/-- A stray `&` in front of the end, which passes for a parameter with the empty name. -/
def stray (name query : Bytes) : Bool := name = [] && [] ∈ queryParams query

/-- Nothing in the query passes for a parameter of this name. -/
def lacks (name query : Bytes) : Bool := !hasParam name query && !stray name query

theorem queryParams_subset (query : Bytes) : queryParams query ⊆ query.splitOn ampersand := by
  unfold queryParams
  dsimp only
  split
  · exact List.dropLast_subset _
  · exact List.Subset.refl _

theorem filter_queryParams (query : Bytes) : (queryParams query).filter (· ≠ []) = params query := by
  unfold queryParams params
  dsimp only
  split
  · rename_i h
    conv_rhs => rw [← List.dropLast_append_getLast? [] h]
    rw [List.filter_append]
    simp
  · rfl

theorem valuesOf_queryParams (name query : Bytes) :
    (valuesOf nameOf name (queryParams query)).filter (· ≠ []) = paramsNamed name query := by
  unfold paramsNamed valuesOf
  rw [← filter_queryParams, List.filter_filter, List.filter_filter]
  exact List.filter_congr fun p _ => Bool.and_comm _ _

theorem occurs_queryParams (name query : Bytes) :
    occurs nameOf name (queryParams query) = (hasParam name query || stray name query) := by
  rw [Bool.eq_iff_iff, Bool.or_eq_true, hasParam, occurs_iff, occurs_iff]
  unfold stray
  rw [Bool.and_eq_true, decide_eq_true_eq, decide_eq_true_eq, ← filter_queryParams]
  constructor
  · intro ⟨p, hp, hname⟩
    by_cases hnil : p = []
    · subst hnil
      exact .inr ⟨hname.symm, hp⟩
    · exact .inl ⟨p, List.mem_filter.2 ⟨hp, by simpa using hnil⟩, hname⟩
  · rintro (⟨p, hp, hname⟩ | ⟨rfl, hnil⟩)
    · exact ⟨p, List.mem_of_mem_filter hp, hname⟩
    · exact ⟨[], hnil, rfl⟩

theorem occurs_of_lacks {name query : Bytes} (h : lacks name query = true) :
    occurs nameOf name (queryParams query) = false := by
  rw [occurs_queryParams, ← Bool.not_eq_true', Bool.not_or]
  exact h

theorem params_mergedQuery (baseQuery overrideQuery : Bytes) :
    params (mergedQuery baseQuery overrideQuery) =
      (merge nameOf (queryParams baseQuery) (queryParams overrideQuery)).filter (· ≠ []) := by
  have hfields : ∀ p ∈ merge nameOf (queryParams baseQuery) (queryParams overrideQuery),
      ampersand ∉ p := by
    intro p hp
    rcases mem_merge hp with hp | hp
    · exact (exists_of_mem_splitOn (queryParams_subset _ hp)).1
    · exact (exists_of_mem_splitOn (queryParams_subset _ hp)).1
  have hdrop : ∀ l : List Bytes, (l.dropWhile List.isEmpty).filter (· ≠ []) = l.filter (· ≠ []) := by
    intro l
    have hnone : (l.takeWhile List.isEmpty).filter (· ≠ []) = [] :=
      List.filter_eq_nil_iff.2 fun p hp => by simpa using List.mem_takeWhile_imp hp
    conv_rhs => rw [← List.takeWhile_append_dropWhile (p := List.isEmpty) (l := l)]
    rw [List.filter_append, hnone, List.nil_append]
  rw [← hdrop]
  unfold params mergedQuery
  generalize hl : (merge nameOf (queryParams baseQuery) (queryParams overrideQuery)).dropWhile
    List.isEmpty = l
  by_cases hnil : l = []
  · rw [hnil]
    rfl
  · rw [List.splitOn_intercalate ampersand (fun p hp => ?_) hnil]
    exact hfields p ((List.dropWhile_suffix _).subset (hl ▸ hp))

section Reading

variable {baseQuery overrideQuery name : Bytes}

theorem paramsNamed_merged : paramsNamed name (mergedQuery baseQuery overrideQuery) =
      if hasParam name overrideQuery || stray name overrideQuery then
        paramsNamed name overrideQuery
      else paramsNamed name baseQuery := by
  have hcomm : paramsNamed name (mergedQuery baseQuery overrideQuery) = (valuesOf nameOf name
        (merge nameOf (queryParams baseQuery) (queryParams overrideQuery))).filter (· ≠ []) := by
    unfold paramsNamed valuesOf
    rw [params_mergedQuery, List.filter_filter, List.filter_filter]
    exact List.filter_congr fun p _ => Bool.and_comm _ _
  rw [hcomm, valuesOf_merge, occurs_queryParams]
  split
  · exact valuesOf_queryParams ..
  · exact valuesOf_queryParams ..

theorem merged_named
    (h : stray name overrideQuery = false ∨ hasParam name overrideQuery = true ∨
      hasParam name baseQuery = false) :
    paramsNamed name (mergedQuery baseQuery overrideQuery) =
      if hasParam name overrideQuery then paramsNamed name overrideQuery
      else paramsNamed name baseQuery := by
  rw [paramsNamed_merged]
  by_cases hover : hasParam name overrideQuery = true
  · rw [hover, Bool.true_or]
  rw [Bool.eq_false_of_not_eq_true hover, Bool.false_or]
  rcases h with h | h | h
  · rw [h]
  · exact absurd h hover
  · rw [show paramsNamed name baseQuery = [] from valuesOf_eq_nil h,
      show paramsNamed name overrideQuery = [] from
        valuesOf_eq_nil (Bool.eq_false_of_not_eq_true hover)]
    split <;> rfl

theorem merged_base_order : (params (mergedQuery baseQuery overrideQuery)).filter
        (fun p => lacks (nameOf p) overrideQuery) =
      (params baseQuery).filter (fun p => lacks (nameOf p) overrideQuery) := by
  rw [params_mergedQuery, ← filter_queryParams, List.filter_filter, List.filter_filter]
  exact filter_merge_base fun p hp => occurs_of_lacks (Bool.and_eq_true_iff.1 hp).1

theorem merged_override_order : (params (mergedQuery baseQuery overrideQuery)).filter
        (fun p => lacks (nameOf p) baseQuery) =
      (params overrideQuery).filter (fun p => lacks (nameOf p) baseQuery) := by
  rw [params_mergedQuery, ← filter_queryParams, List.filter_filter, List.filter_filter]
  exact filter_merge_over fun p hp => occurs_of_lacks (Bool.and_eq_true_iff.1 hp).1

end Reading

/-- What merging promises, for every two queries and every size of the buffer. -/
theorem mergeQueryStrings_spec (baseQuery overrideQuery : Bytes) : ∃ merged : Bytes,
      (∀ name, stray name overrideQuery = false ∨ hasParam name overrideQuery = true ∨
          hasParam name baseQuery = false →
        paramsNamed name merged = if hasParam name overrideQuery then paramsNamed name overrideQuery
          else paramsNamed name baseQuery) ∧
      (params merged).filter (fun p => lacks (nameOf p) overrideQuery) =
        (params baseQuery).filter (fun p => lacks (nameOf p) overrideQuery) ∧
      (params merged).filter (fun p => lacks (nameOf p) baseQuery) =
        (params overrideQuery).filter (fun p => lacks (nameOf p) baseQuery) ∧
      ∀ size, mergedText (mergeQueryStrings baseQuery overrideQuery size) =
            (if merged.length < size then some merged else none) ∧
          Inside (writesOf (mergeQueryStrings baseQuery overrideQuery size)) :=
  ⟨mergedQuery baseQuery overrideQuery, fun _ => merged_named, merged_base_order,
    merged_override_order, mergeQueryStrings_eq baseQuery overrideQuery⟩

/-- The parameters that override others stand where those stood, in the base's order. -/
theorem override_reordered : mergedText (mergeQueryStrings (ascii "b=0&a=0") (ascii "a=1&b=2") 64) =
        some (ascii "b=2&a=1") ∧
      (params (ascii "b=2&a=1")).filter
          (fun p => hasParam (nameOf p) (ascii "a=1&b=2")) ≠ params (ascii "a=1&b=2") := by
  decide

end Apackage.Rtp2httpd
