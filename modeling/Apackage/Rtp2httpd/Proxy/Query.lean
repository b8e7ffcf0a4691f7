import Mathlib.Logic.Function.Iterate
import Apackage.Lib.Fields
import Apackage.Rtp2httpd.CString

/-
  Query parameters: taking them out of a query in place (`find_query_param`,
  `remove_query_param`, `extract_query_param` in `service.c`) and filtering a query
  (`http_filter_query_param` in `http.c`).

  Model. A query text is what a pointer to the `?` of a URL sees, so it starts with `?`; a
  query that was emptied, where the code sets the pointer to NULL, is the empty text.
-/

namespace Apackage.Rtp2httpd

open List Option Lib.Fields Lib.PercentCoding

def ampersand : UInt8 := 0x26
def equals : UInt8 := 0x3D

/-- A parameter `name=...`, in any case, starts here. -/
def named (name p : Bytes) : Bool := hasPrefixNoCase name p && p[name.length]? = some equals

/-- The search of `find_query_param` after the `?`; `leading` says whether a parameter may
    start at the head. -/
def findFrom (name : Bytes) : (leading : Bool) → Bytes → Option ℕ
  | _, [] => none
  | leading, c :: rest =>
    if leading && named name (c :: rest) then some 0
    else (findFrom name (c = ampersand) rest).map (· + 1)

def findQueryParam (qs name : Bytes) : Option ℕ :=
  match qs with
  | [] => none
  | _ :: body => (findFrom name true body).map (· + 1)

def removeQueryParam (qs : Bytes) (paramStart valueEnd : ℕ) : Bytes :=
  if paramStart = 1 then
    if qs[valueEnd]? = some ampersand then qs.take 1 ++ qs.drop (valueEnd + 1) else []
  else if qs[valueEnd]? = some ampersand then qs.take (paramStart - 1) ++ qs.drop valueEnd
  else qs.take (paramStart - 1)

def valueAt (qs : Bytes) (valueStart : ℕ) : Bytes := (qs.drop valueStart).takeWhile (· ≠ ampersand)

def stripFirst (name qs : Bytes) : Bytes :=
  match findQueryParam qs name with
  | none => qs
  | some m =>
    let valueStart := m + name.length + 1
    removeQueryParam qs m (valueStart + (valueAt qs valueStart).length)

/-- What `extract_query_param` returns: 0, -1 or 1 with the value. -/
inductive Extracted
  | absent
  | failed
  | value (v : Bytes)

def Extracted.toOption : Extracted → Option Bytes
  | .value v => some v
  | _ => none

/-- `extract_query_param`: the query that remains and the result. Each round of the loop over
    duplicates shortens the query. -/
def extractQueryParam (qs name : Bytes) (outSize : ℕ) : Bytes × Extracted :=
  match findQueryParam qs name with
  | none => (qs, .absent)
  | some m =>
    let value := valueAt qs (m + name.length + 1)
    let qs := (stripFirst name)^[qs.length] (stripFirst name qs)
    if outSize ≤ value.length then (qs, .failed)
    else
      match httpUrlDecode value with
      | none => (qs, .failed)
      | some v => (qs, .value (cstr v))

/-- `http_filter_query_param`; none is -1. -/
def httpFilterQueryParam (query exclude : Bytes) (outputSize : ℕ) : Option Bytes :=
  writeFields (fun p => !named exclude p) [ampersand] outputSize (query.splitOn ampersand)

theorem ampersand_not_mem_encode (str : Bytes) : ampersand ∉ httpUrlEncode str :=
  not_mem_encode (by decide) (by decide) (by decide) str

/-! ## Where parameters start -/

def ParamAt (query p : Bytes) : Prop := ∃ s, query = s ++ p ∧ (s = [] ∨ s.getLast? = some ampersand)

theorem named_append {name p : Bytes} (h : named name p = true) (t : Bytes) :
    named name (p ++ t) = true := by
  unfold named at h ⊢
  rw [Bool.and_eq_true, decide_eq_true_eq] at h ⊢
  refine ⟨prefixNoCase_append h.1 t, ?_⟩
  obtain ⟨hlt, -⟩ := List.getElem?_eq_some_iff.1 h.2
  rw [getElem?_append_left hlt]
  exact h.2

theorem named_of_append {name p t : Bytes} (hname : ∀ k ∈ name, toLower k ≠ ampersand)
    (h : named name (p ++ ampersand :: t) = true) : named name p = true := by
  unfold named at h ⊢
  rw [Bool.and_eq_true, decide_eq_true_eq] at h ⊢
  have hp : hasPrefixNoCase name p = true :=
    prefixNoCase_of_append (fun k hk => by simpa [toLower, ampersand] using hname k hk) h.1
  refine ⟨hp, ?_⟩
  rcases Nat.lt_trichotomy name.length p.length with hlt | heq | hgt
  · rw [getElem?_append_left hlt] at h
    exact h.2
  · rw [heq, getElem?_append_right (Nat.le_refl _), Nat.sub_self] at h
    exact absurd (Option.some.inj h.2) (by decide)
  · exact absurd (prefixNoCase_length hp) (by omega)

theorem named_of_prefix {name p : Bytes}
    (h : hasPrefixNoCase (name ++ [equals]) p = true) : named name p = true := by
  unfold named
  rw [Bool.and_eq_true, decide_eq_true_eq]
  induction name generalizing p with
  | nil =>
    cases p with
    | nil => cases h
    | cons c p =>
      rw [nil_append, hasPrefixNoCase, Bool.and_eq_true, decide_eq_true_eq] at h
      refine ⟨rfl, congrArg some ?_⟩
      have hlower : toLower c = equals := h.1.symm
      unfold toLower at hlower
      split at hlower
      · rename_i hc
        rw [Bool.and_eq_true, decide_eq_true_eq, decide_eq_true_eq] at hc
        have hlow : 0x41 ≤ c.toNat := UInt8.le_iff_toNat_le.1 hc.1
        have hhigh : c.toNat ≤ 0x5A := UInt8.le_iff_toNat_le.1 hc.2
        have hsum : (c.toNat + 0x20) % 2 ^ 8 = 0x3D :=
          (UInt8.toNat_add c 0x20).symm.trans (congrArg UInt8.toNat hlower)
        omega
      · exact hlower
  | cons k name ih =>
    cases p with
    | nil => cases h
    | cons c p =>
      rw [cons_append, hasPrefixNoCase, Bool.and_eq_true] at h
      rw [hasPrefixNoCase, Bool.and_eq_true]
      exact ⟨⟨h.1, (ih h.2).1⟩, (ih h.2).2⟩

theorem findFrom_eq_none {name : Bytes} {leading : Bool} {body : Bytes} :
    findFrom name leading body = none ↔
      ∀ s p, body = s ++ p → (s = [] ∧ leading = true ∨ s.getLast? = some ampersand) →
        named name p = false := by
  induction body generalizing leading with
  | nil =>
    refine iff_of_true rfl fun s p h _ => ?_
    rw [(append_eq_nil_iff.1 h.symm).2]
    simp [named]
  | cons c rest ih =>
    rw [findFrom]
    constructor
    · intro h s p hsp hs
      split at h
      · cases h
      rename_i hhead
      rw [map_eq_none_iff, ih] at h
      cases s with
      | nil =>
        rw [nil_append] at hsp
        simpa [hsp, hs.resolve_right (by simp)] using hhead
      | cons d s =>
        obtain ⟨rfl, hrest⟩ := cons_eq_cons.1 hsp
        have hlast := hs.resolve_left fun h => cons_ne_nil _ _ h.1
        refine h s p hrest ?_
        cases s with
        | nil => exact .inl ⟨rfl, by simpa using hlast⟩
        | cons e s => exact .inr (by simpa using hlast)
    · intro h
      have hhead : (leading && named name (c :: rest)) = false := by
        cases leading with
        | false => rfl
        | true => exact h [] (c :: rest) rfl (.inl ⟨rfl, rfl⟩)
      rw [hhead, if_neg Bool.false_ne_true, map_eq_none_iff, ih]
      intro s p hsp hs
      refine h (c :: s) p (by rw [hsp, cons_append]) (.inr ?_)
      rcases hs with ⟨rfl, hc⟩ | hs
      · simpa using hc
      · cases s with
        | nil => cases hs
        | cons e s => simpa using hs

theorem findQueryParam_eq_none {name body : Bytes} {c : UInt8} :
    findQueryParam (c :: body) name = none ↔ ∀ p, ParamAt body p → named name p = false := by
  rw [findQueryParam, map_eq_none_iff, findFrom_eq_none]
  constructor
  · rintro h p ⟨s, hsp, hs⟩
    exact h s p hsp (hs.imp_left fun h => ⟨h, rfl⟩)
  · intro h s p hsp hs
    exact h p ⟨s, hsp, hs.imp_left And.left⟩

theorem paramAt_single {p p' : Bytes} (hp : ampersand ∉ p) (h : ParamAt p p') : p' = p := by
  obtain ⟨s, rfl, rfl | hs⟩ := h
  · rfl
  · exact absurd (mem_append_left _ (mem_of_getLast? hs)) hp

/-- The last parameter starts after the last `&`, every other one goes on to the end. -/
theorem paramAt_last {q p p' : Bytes} (hp : ampersand ∉ p)
    (h : ParamAt (q ++ ampersand :: p) p') :
    p' = p ∨ ∃ q', ParamAt q q' ∧ p' = q' ++ ampersand :: p := by
  obtain ⟨s, hsp, hs⟩ := h
  rcases append_eq_append_iff.1 hsp with ⟨a, rfl, ha⟩ | ⟨a, rfl, ha⟩
  · cases a with
    | nil =>
      right
      refine ⟨[], ⟨q, by simp, by simpa using hs⟩, by simpa using ha.symm⟩
    | cons c a =>
      obtain ⟨rfl, hrest⟩ := cons_eq_cons.1 ha
      cases a with
      | nil => exact .inl (by simpa using hrest.symm)
      | cons d a =>
        grind
  · exact .inr ⟨a, ⟨s, rfl, hs⟩, ha⟩

theorem findFrom_append {name : Bytes} {leading : Bool} {s p : Bytes} (hp : named name p = true)
    (hs : s = [] ∧ leading = true ∨ s.getLast? = some ampersand)
    (hbefore : ∀ s₁ p', s = s₁ ++ p' → p' ≠ [] →
      (s₁ = [] ∧ leading = true ∨ s₁.getLast? = some ampersand) → named name (p' ++ p) = false) :
    findFrom name leading (s ++ p) = some s.length := by
  induction s generalizing leading with
  | nil =>
    cases p with
    | nil => simp [named] at hp
    | cons c p =>
      rw [nil_append, findFrom, (hs.resolve_right (by simp)).2, hp]
      rfl
  | cons c s ih =>
    have hhead : (leading && named name (c :: (s ++ p))) = false := by
      cases leading with
      | false => rfl
      | true => exact hbefore [] (c :: s) rfl (cons_ne_nil _ _) (.inl ⟨rfl, rfl⟩)
    have hlast := hs.resolve_left fun h => cons_ne_nil _ _ h.1
    have hnext : findFrom name (c = ampersand) (s ++ p) = some s.length := by
      refine ih ?_ fun s₁ p' hsp hne hs₁ => ?_
      · cases s with
        | nil => exact .inl ⟨rfl, by simpa using hlast⟩
        | cons e s => exact .inr (by simpa using hlast)
      · refine hbefore (c :: s₁) p' (by rw [hsp, cons_append]) hne (.inr ?_)
        rcases hs₁ with ⟨rfl, hc⟩ | hs₁
        · simpa using hc
        · cases s₁ with
          | nil => cases hs₁
          | cons e s₁ => simpa using hs₁
    rw [cons_append, findFrom, hhead, if_neg Bool.false_ne_true, hnext]
    rfl

/-! ## Extraction -/

theorem stripFirst_absent {qs name : Bytes} (h : findQueryParam qs name = none) :
    stripFirst name qs = qs := by
  rw [stripFirst, h]

theorem extractQueryParam_absent {qs name : Bytes} (h : findQueryParam qs name = none)
    (outSize : ℕ) : extractQueryParam qs name outSize = (qs, .absent) := by
  rw [extractQueryParam, h]

theorem extractQueryParam_fst {qs name : Bytes} {m : ℕ} (h : findQueryParam qs name = some m)
    (hnext : findQueryParam (stripFirst name qs) name = none) (outSize : ℕ) :
    (extractQueryParam qs name outSize).1 = stripFirst name qs := by
  have hloop : (stripFirst name)^[qs.length] (stripFirst name qs) = stripFirst name qs :=
    Function.iterate_fixed (stripFirst_absent hnext) _
  unfold extractQueryParam
  rw [h]
  dsimp only
  rw [hloop]
  split
  · rfl
  · split <;> rfl

/-- The last parameter of a query, if it is the only one of its name. -/
theorem stripFirst_last {name body p : Bytes} {c : UInt8} (hbody : body = [] ∨
    body.getLast? = some ampersand) (hp : ampersand ∉ p)
    (hfind : findFrom name true (body ++ p) = some body.length) :
    stripFirst name (c :: (body ++ p)) = if body = [] then [] else c :: body.dropLast := by
  have hvalue : valueAt (c :: (body ++ p)) (body.length + 1 + name.length + 1) =
      p.drop (name.length + 1) := by
    unfold valueAt
    rw [show body.length + 1 + name.length + 1 = (body.length + (name.length + 1)) + 1 by omega,
      drop_succ_cons, drop_length_add_append]
    refine takeWhile_eq_self_iff.2 fun x hx => ?_
    rw [decide_eq_true_eq]
    rintro rfl
    exact hp (mem_of_mem_drop hx)
  have hend : (c :: (body ++ p))[body.length + 1 + name.length + 1 +
      (p.drop (name.length + 1)).length]? = none := by
    rw [List.getElem?_eq_none_iff, length_cons, length_append, length_drop]
    omega
  unfold stripFirst
  rw [findQueryParam, hfind]
  dsimp only [map_some]
  rw [hvalue, removeQueryParam, hend]
  rcases hbody with rfl | hbody
  · simp
  · have hne : body ≠ [] := by
      rintro rfl
      cases hbody
    have hpos : 0 < body.length := length_pos_of_ne_nil hne
    rw [if_neg (by omega), if_neg (by simp), if_neg hne, Nat.add_sub_cancel]
    obtain ⟨k, hk⟩ : ∃ k, body.length = k + 1 := ⟨body.length - 1, by omega⟩
    rw [hk, take_succ_cons, take_append_of_le_length (by omega), dropLast_eq_take,
      hk, Nat.add_sub_cancel]

/-! ## Filtering -/

theorem paramAt_of_mem_splitOn {query p : Bytes} (h : p ∈ query.splitOn ampersand) :
    ∃ t, ParamAt query (p ++ t) ∧ (t = [] ∨ t.head? = some ampersand) := by
  obtain ⟨-, s, t, hq, hs, ht⟩ := exists_of_mem_splitOn h
  exact ⟨t, ⟨s, hq, hs⟩, ht⟩

/-- Without a parameter of the name, the filter drops the empty parameters. -/
theorem httpFilterQueryParam_eq {query exclude : Bytes} {outputSize : ℕ}
    (hnamed : ∀ p ∈ query.splitOn ampersand, named exclude p = false)
    (hsize : query.length < outputSize) :
    httpFilterQueryParam query exclude outputSize =
      some ([ampersand].intercalate ((query.splitOn ampersand).filter (· ≠ []))) := by
  have hkept : kept (fun p => !named exclude p) (query.splitOn ampersand) =
      (query.splitOn ampersand).filter (· ≠ []) := by
    apply filter_congr
    intro p hp
    dsimp only
    rw [hnamed p hp]
    rfl
  have hle := length_intercalate_le (x := ampersand)
    (filter_sublist (p := (· ≠ [])) (l := query.splitOn ampersand))
  rw [intercalate_splitOn] at hle
  rw [httpFilterQueryParam, writeFields_fits (by rw [hkept]; omega), hkept]

end Apackage.Rtp2httpd
