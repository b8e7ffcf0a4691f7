import Apackage.Rtp2httpd.Proxy.Query

/-
  Queries as lists of parameters.

  A query text is the `?` and its parameters with `&` between them (`queryText`). Splicing a
  parameter out of the text takes it out of the list (`removeQueryParam_parameter`), so that
  `extract_query_param` drops all parameters of the name and reads the first of them
  (`extractQueryParam_queryText`). The name of a parameter is what stands before its first `=`
  (`isNamed`).
-/

namespace Apackage.Rtp2httpd

open List Lib.Fields

/-- The text of a query; one without parameters is the empty text. -/
def queryText (params : List Bytes) : Bytes :=
  if params = [] then [] else question :: [ampersand].intercalate params

/-- The text that parameters leave before the next one. -/
def before (params : List Bytes) : Bytes := params.flatMap (· ++ [ampersand])

/-- The text of parameters behind another one. -/
def behind (params : List Bytes) : Bytes := params.flatMap (ampersand :: ·)

/-- Parameters as the text of a query has them. -/
def Separated (params : List Bytes) : Prop := ∀ p ∈ params, ampersand ∉ p

def isNamed (name p : Bytes) : Bool :=
  equals ∈ p && (p.takeWhile (· ≠ equals)).map toLower = name.map toLower

def parameterValue (p : Bytes) : Bytes := (p.dropWhile (· ≠ equals)).drop 1

/-! ## The text -/

@[simp] theorem before_nil : before [] = [] := rfl

variable (p : Bytes)

@[simp] theorem before_cons (l : List Bytes) : before (p :: l) = p ++ ampersand :: before l := by
  simp [before]

@[simp] theorem behind_nil : behind [] = [] := rfl

@[simp] theorem behind_cons (l : List Bytes) : behind (p :: l) = ampersand :: (p ++ behind l) := rfl

theorem queryText_splitOn (body : Bytes) :
    queryText (body.splitOn ampersand) = question :: body := by
  rw [queryText, if_neg (splitOn_ne_nil _ _), intercalate_splitOn]

theorem separated_splitOn (body : Bytes) : Separated (body.splitOn ampersand) :=
  fun _ hp => (exists_of_mem_splitOn hp).1

theorem Separated.sublist {l l' : List Bytes} (h : Separated l) (hl : l'.Sublist l) :
    Separated l' := fun p hp => h p (hl.subset hp)

theorem intercalate_behind (l : List Bytes) : [ampersand].intercalate (p :: l) = p ++ behind l := by
  induction l generalizing p with
  | nil => simp
  | cons q l ih => rw [intercalate_cons_cons, ih, behind_cons, append_assoc, singleton_append]

variable (l₁ : List Bytes)

theorem intercalate_before (p : Bytes) (l₂ : List Bytes) :
    [ampersand].intercalate (l₁ ++ p :: l₂) = before l₁ ++ (p ++ behind l₂) := by
  induction l₁ with
  | nil => exact intercalate_behind p l₂
  | cons q l₁ ih =>
    have hcons : ∀ l : List Bytes, l ≠ [] →
        [ampersand].intercalate (q :: l) = q ++ [ampersand] ++ [ampersand].intercalate l := by
      intro l hl
      obtain ⟨r, l, rfl⟩ := exists_cons_of_ne_nil hl
      exact intercalate_cons_cons
    rw [cons_append, hcons _ (by simp), ih, before_cons]
    simp

theorem queryText_at (p : Bytes) (l₂ : List Bytes) :
    queryText (l₁ ++ p :: l₂) = question :: (before l₁ ++ (p ++ behind l₂)) := by
  rw [queryText, if_neg (by simp), intercalate_before]

variable {l : List Bytes}

theorem before_eq (h : l ≠ []) : before l = [ampersand].intercalate l ++ [ampersand] := by
  obtain ⟨l, p, rfl⟩ := (eq_nil_or_concat l).resolve_left h
  rw [concat_eq_append, intercalate_before, behind_nil, append_nil, before, flatMap_append]
  simp [before]

theorem before_concat_length (l : List Bytes) (p : Bytes) :
    (before (l ++ [p])).length = (before l).length + 1 + p.length := by
  simp only [before, flatMap_append, flatMap_cons, flatMap_nil,
    length_append, length_singleton, length_nil]
  omega

theorem queryText_append {l₁ : List Bytes} (h : l₁ ≠ []) (l₂ : List Bytes) :
    queryText (l₁ ++ l₂) = queryText l₁ ++ behind l₂ := by
  obtain ⟨l₁, p, rfl⟩ := (eq_nil_or_concat l₁).resolve_left h
  rw [concat_eq_append, append_assoc, singleton_append, queryText_at, queryText_at]
  simp

theorem queryText_length (h : l ≠ []) :
    (queryText l).length = (l.map List.length).sum + l.length := by
  have hpos := length_pos_of_ne_nil h
  rw [queryText, if_neg h, length_cons, length_intercalate]
  omega

theorem length_le_queryText (l : List Bytes) : l.length ≤ (queryText l).length := by
  by_cases h : l = []
  · rw [h]
    exact Nat.zero_le _
  · rw [queryText_length h]
    exact Nat.le_add_left ..

theorem drop_parameter (p : Bytes) (l₂ : List Bytes) {n : ℕ} (hn : n ≤ p.length) :
    (queryText (l₁ ++ p :: l₂)).drop ((before l₁).length + 1 + n) = p.drop n ++ behind l₂ := by
  rw [queryText_at, Nat.add_right_comm, drop_succ_cons, drop_length_add_append,
    drop_append_of_le_length hn]

theorem valueAt_parameter {p : Bytes} (hp : ampersand ∉ p) (l₂ : List Bytes) {n : ℕ}
    (hn : n ≤ p.length) :
    valueAt (queryText (l₁ ++ p :: l₂)) ((before l₁).length + 1 + n) = p.drop n := by
  have hall : ∀ c ∈ p.drop n, decide (c ≠ ampersand) = true := by
    intro c hc
    rw [decide_eq_true_eq]
    rintro rfl
    exact hp (mem_of_mem_drop hc)
  unfold valueAt
  rw [drop_parameter l₁ p l₂ hn, takeWhile_append_of_pos hall]
  cases l₂ with
  | nil => simp
  | cons q l₂ => rw [behind_cons, takeWhile_cons_of_neg (by simp), append_nil]

theorem parameter_end (p : Bytes) (l₂ : List Bytes) :
    (queryText (l₁ ++ p :: l₂))[(before l₁).length + 1 + p.length]? = (behind l₂).head? := by
  have hdrop := drop_parameter l₁ p l₂ (Nat.le_refl p.length)
  rw [drop_length, nil_append] at hdrop
  rw [← hdrop, head?_drop]

/-- Nothing of a parameter is left when the text from it to its end is taken out. -/
theorem removeQueryParam_parameter (p : Bytes) (l₂ : List Bytes) :
    removeQueryParam (queryText (l₁ ++ p :: l₂)) ((before l₁).length + 1)
      ((before l₁).length + 1 + p.length) = queryText (l₁ ++ l₂) := by
  have hdrop := drop_parameter l₁ p l₂ (Nat.le_refl p.length)
  rw [drop_length, nil_append] at hdrop
  unfold removeQueryParam
  rw [parameter_end]
  by_cases hfirst : l₁ = []
  · subst hfirst
    rw [before_nil, length_nil, if_pos rfl]
    cases l₂ with
    | nil => rfl
    | cons q l₂ =>
      have hnext := congrArg (List.drop 1) hdrop
      rw [drop_drop, behind_cons, drop_succ_cons, drop_zero] at hnext
      rw [before_nil, length_nil] at hnext
      rw [behind_cons, head?_cons, if_pos rfl, hnext, queryText_at, nil_append,
        queryText, if_neg (cons_ne_nil _ _), intercalate_behind]
      rfl
  · have hlen : (before l₁).length + 1 - 1 = (queryText l₁).length := by
      rw [before_eq hfirst, queryText, if_neg hfirst, length_append]
      rfl
    have hpos : (before l₁).length + 1 ≠ 1 := by
      have hone := length_pos_of_ne_nil hfirst
      have hle := length_le_queryText l₁
      omega
    have htake : (queryText (l₁ ++ p :: l₂)).take ((before l₁).length + 1 - 1) = queryText l₁ := by
      rw [queryText_append hfirst, hlen, take_left]
    rw [if_neg hpos, htake, hdrop]
    cases l₂ with
    | nil => simp
    | cons q l₂ => rw [behind_cons, head?_cons, if_pos rfl, queryText_append hfirst, behind_cons]

/-! ## Names -/

theorem toLower_eq_equals {c : UInt8} : toLower c = equals ↔ c = equals := by
  obtain ⟨⟨n⟩⟩ := c
  revert n
  decide +kernel

theorem equals_not_mem_of_lower {m name : Bytes} (h : m.map toLower = name.map toLower)
    (hname : equals ∉ name) : equals ∉ m := by
  intro hm
  have hlow : equals ∈ name.map toLower := h ▸ List.mem_map.2 ⟨equals, hm, rfl⟩
  obtain ⟨c, hc, hlower⟩ := List.mem_map.1 hlow
  exact hname (toLower_eq_equals.1 hlower ▸ hc)

theorem ne_equals {m : Bytes} (hm : equals ∉ m) : ∀ c ∈ m, decide (c ≠ equals) = true := by
  intro c hc
  rw [decide_eq_true_eq]
  rintro rfl
  exact hm hc

theorem isNamed_iff {name p : Bytes} : isNamed name p = true ↔
      ∃ m v, p = m ++ equals :: v ∧ equals ∉ m ∧ m.map toLower = name.map toLower := by
  unfold isNamed
  rw [Bool.and_eq_true, decide_eq_true_eq, decide_eq_true_eq]
  constructor
  · rintro ⟨hmem, hname⟩
    obtain ⟨m, v, rfl, hm⟩ := eq_append_cons_of_mem hmem
    refine ⟨m, v, rfl, hm, ?_⟩
    rwa [takeWhile_append_of_pos (ne_equals hm),
      takeWhile_cons_of_neg (by simp), append_nil] at hname
  · rintro ⟨m, v, rfl, hm, hname⟩
    refine ⟨by simp, ?_⟩
    rwa [takeWhile_append_of_pos (ne_equals hm), takeWhile_cons_of_neg (by simp), append_nil]

theorem parameterValue_eq {m v : Bytes} (hm : equals ∉ m) :
    parameterValue (m ++ equals :: v) = v := by
  unfold parameterValue
  rw [dropWhile_append_of_pos (ne_equals hm),
    dropWhile_cons_of_neg (by simp), drop_succ_cons, drop_zero]

theorem parameterValue_of_named {name p : Bytes} (h : isNamed name p = true) :
    parameterValue p = p.drop (name.length + 1) := by
  obtain ⟨m, v, rfl, hm, hname⟩ := isNamed_iff.1 h
  have hlen : name.length = m.length := by rw [← length_map (f := toLower), ← hname, length_map]
  rw [parameterValue_eq hm, hlen, drop_length_add_append, drop_succ_cons, drop_zero]

/-- The code looks for `name=` at the beginning of a parameter. -/
theorem named_eq_isNamed {name : Bytes} (hname : equals ∉ name) (p : Bytes) :
    named name p = isNamed name p := by
  rw [Bool.eq_iff_iff, isNamed_iff]
  unfold named
  rw [Bool.and_eq_true, decide_eq_true_eq, hasPrefixNoCase_iff]
  constructor
  · rintro ⟨⟨m, t, rfl, hm⟩, hnext⟩
    have hlen : name.length = m.length := by rw [← length_map (f := toLower), ← hm, length_map]
    rw [hlen, getElem?_append_right (Nat.le_refl _), Nat.sub_self] at hnext
    cases t with
    | nil => cases hnext
    | cons c t =>
      obtain rfl : c = equals := Option.some.inj hnext
      exact ⟨m, t, rfl, equals_not_mem_of_lower hm hname, hm⟩
  · rintro ⟨m, v, rfl, -, hm⟩
    have hlen : name.length = m.length := by rw [← length_map (f := toLower), ← hm, length_map]
    refine ⟨⟨m, equals :: v, rfl, hm⟩, ?_⟩
    rw [hlen, getElem?_append_right (Nat.le_refl _), Nat.sub_self]
    rfl

/-! ## Extraction -/

theorem toLower_eq_ampersand {c : UInt8} : toLower c = ampersand ↔ c = ampersand := by
  obtain ⟨⟨n⟩⟩ := c
  revert n
  decide +kernel

theorem paramAt_intercalate (hl : Separated l) (hne : l ≠ []) {p' : Bytes}
    (h : ParamAt ([ampersand].intercalate l) p') :
    ∃ p ∈ l, ∃ t, p' = p ++ t ∧ (t = [] ∨ t.head? = some ampersand) := by
  induction l with
  | nil => exact absurd rfl hne
  | cons p l ih =>
    have hp := hl p mem_cons_self
    cases l with
    | nil =>
      rw [intercalate_singleton] at h
      exact ⟨p, mem_cons_self, [], by rw [paramAt_single hp h, append_nil], .inl rfl⟩
    | cons q l =>
      rw [intercalate_cons_cons, append_assoc, singleton_append] at h
      obtain ⟨s, hsp, hs⟩ := h
      rcases append_eq_append_iff.1 hsp with ⟨a, rfl, ha⟩ | ⟨a, rfl, ha⟩
      · cases a with
        | nil =>
          grind
        | cons c a =>
          obtain ⟨rfl, hrest⟩ := cons_eq_cons.1 ha
          have hnext : ParamAt ([ampersand].intercalate (q :: l)) p' := by
            refine ⟨a, hrest, ?_⟩
            cases a with
            | nil => exact .inl rfl
            | cons d a =>
              right
              simpa [getLast?_append] using hs
          obtain ⟨p₁, hp₁, ht⟩ := ih (hl.sublist (sublist_cons_self _ _)) (cons_ne_nil _ _) hnext
          exact ⟨p₁, mem_cons_of_mem _ hp₁, ht⟩
      · grind

variable {name : Bytes}

theorem named_of_paramAt (hname : ampersand ∉ name) (hl : Separated l) (hne : l ≠ []) {p' : Bytes}
    (h : ParamAt ([ampersand].intercalate l) p') (hn : named name p' = true) :
    ∃ p ∈ l, named name p = true := by
  obtain ⟨p, hp, t, rfl, ht⟩ := paramAt_intercalate hl hne h
  refine ⟨p, hp, ?_⟩
  rcases ht with rfl | ht
  · rwa [append_nil] at hn
  · cases t with
    | nil => cases ht
    | cons c t =>
      obtain rfl : c = ampersand := Option.some.inj ht
      exact named_of_append (fun k hk he => hname (toLower_eq_ampersand.1 he ▸ hk)) hn

theorem find_none (hname : ampersand ∉ name) (hl : Separated l) (h : ∀ p ∈ l, named name p = false) :
    findQueryParam (queryText l) name = none := by
  unfold queryText
  split
  · rfl
  · rename_i hne
    rw [findQueryParam_eq_none]
    intro p' hp'
    by_contra hn
    rw [Bool.not_eq_false] at hn
    obtain ⟨p, hp, hn⟩ := named_of_paramAt hname hl hne hp' hn
    rw [h p hp] at hn
    cases hn

theorem find_first (hname : ampersand ∉ name) {l₁ : List Bytes} (hl : Separated l₁)
    (h : ∀ p ∈ l₁, named name p = false) {p : Bytes} (hp : named name p = true)
    (l₂ : List Bytes) :
    findQueryParam (queryText (l₁ ++ p :: l₂)) name = some ((before l₁).length + 1) := by
  have hfind : findFrom name true (before l₁ ++ (p ++ behind l₂)) = some (before l₁).length := by
    by_cases hfirst : l₁ = []
    · subst hfirst
      refine findFrom_append (named_append hp _) (.inl ⟨rfl, rfl⟩) fun s p' hsp hne => ?_
      exact absurd (append_eq_nil_iff.1 hsp.symm).2 hne
    · rw [before_eq hfirst]
      refine findFrom_append (named_append hp _) (.inr (by simp)) ?_
      intro s p' hsp hne hs
      -- what stands between two starts ends in `&`, so the name would be found before
      obtain ⟨q, x, rfl⟩ := (eq_nil_or_concat p').resolve_left hne
      rw [concat_eq_append, ← append_assoc] at hsp
      obtain ⟨hq, hx⟩ := append_inj' hsp rfl
      obtain rfl := singleton_inj.1 hx
      by_contra hn
      rw [Bool.not_eq_false, concat_eq_append, append_assoc, singleton_append] at hn
      have hn' := named_of_append (fun k hk he => hname (toLower_eq_ampersand.1 he ▸ hk)) hn
      obtain ⟨p₁, hp₁, hn₁⟩ := named_of_paramAt hname hl hfirst ⟨s, hq, hs.imp_left And.left⟩ hn'
      rw [h p₁ hp₁] at hn₁
      cases hn₁
  rw [queryText_at, findQueryParam, hfind]
  rfl

theorem named_length {p : Bytes} (h : named name p = true) : name.length + 1 ≤ p.length := by
  unfold named at h
  rw [Bool.and_eq_true, decide_eq_true_eq] at h
  exact (List.getElem?_eq_some_iff.1 h.2).1

theorem stripFirst_queryText (hname : ampersand ∉ name) (hl : Separated l) :
    stripFirst name (queryText l) = queryText (l.eraseP (named name)) := by
  by_cases h : ∃ p ∈ l, named name p = true
  · obtain ⟨p, hp, hn⟩ := h
    obtain ⟨a, l₁, l₂, hl₁, ha, rfl, herase⟩ := exists_of_eraseP hp hn
    have hl₁' : ∀ q ∈ l₁, named name q = false := fun q hq => by simpa using hl₁ q hq
    have hlen := named_length ha
    have hvalue := valueAt_parameter l₁ (hl a (by simp)) l₂ hlen
    have hend : (before l₁).length + 1 + (name.length + 1) +
        (a.drop (name.length + 1)).length = (before l₁).length + 1 + a.length := by
      rw [length_drop]
      omega
    rw [herase, stripFirst, find_first hname (hl.sublist (sublist_append_left _ _)) hl₁' ha l₂]
    dsimp only
    rw [Nat.add_assoc _ name.length 1, hvalue, hend, removeQueryParam_parameter]
  · have hnone : ∀ p ∈ l, named name p = false := fun p hp => by
      rw [← Bool.not_eq_true]
      exact fun hn => h ⟨p, hp, hn⟩
    rw [stripFirst_absent (find_none hname hl hnone),
      eraseP_of_forall_not fun p hp => by simp [hnone p hp]]

theorem iterate_eraseP (p : Bytes → Bool) (n : ℕ) (l : List Bytes) (h : l.countP p ≤ n) :
    (List.eraseP p)^[n] l = l.filter fun a => !p a := by
  induction n generalizing l with
  | zero =>
    have hnone : ∀ a ∈ l, ¬ p a = true := countP_eq_zero.1 (Nat.le_zero.1 h)
    rw [Function.iterate_zero, id_eq, filter_eq_self.2 fun a ha => by simp [hnone a ha]]
  | succ n ih =>
    rw [Function.iterate_succ_apply]
    by_cases hex : ∃ a ∈ l, p a = true
    · obtain ⟨a, ha, hpa⟩ := hex
      obtain ⟨b, l₁, l₂, hl₁, hb, rfl, herase⟩ := exists_of_eraseP ha hpa
      have hcount : (l₁ ++ l₂).countP p ≤ n := by
        rw [countP_append, countP_cons_of_pos hb] at h
        rw [countP_append]
        omega
      rw [herase, ih _ hcount, filter_append, filter_append, filter_cons_of_neg (by simp [hb])]
    · have hnone : ∀ a ∈ l, ¬ p a = true := fun a ha hpa => hex ⟨a, ha, hpa⟩
      have hzero : l.countP p ≤ n := by
        rw [countP_eq_zero.2 hnone]
        exact Nat.zero_le _
      rw [eraseP_of_forall_not hnone, ih l hzero]

theorem iterate_stripFirst (hname : ampersand ∉ name) (n : ℕ) (hl : Separated l) :
    (stripFirst name)^[n] (queryText l) = queryText ((List.eraseP (named name))^[n] l) := by
  induction n generalizing l with
  | zero => rfl
  | succ n ih =>
    rw [Function.iterate_succ_apply, Function.iterate_succ_apply, stripFirst_queryText hname hl,
      ih (hl.sublist eraseP_sublist)]

/-- The value of a parameter in a buffer of a size. -/
def readValue (outSize : ℕ) (value : Bytes) : Extracted :=
  if outSize ≤ value.length then .failed
  else
    match httpUrlDecode value with
    | none => .failed
    | some v => .value (cstr v)

/-- All parameters of the name are taken out, and the first is read. -/
theorem extractQueryParam_queryText (hamp : ampersand ∉ name) (heq : equals ∉ name)
    (hl : Separated l) (outSize : ℕ) :
    extractQueryParam (queryText l) name outSize = (queryText (l.filter fun p => !isNamed name p),
        match l.find? (isNamed name) with
        | none => .absent
        | some p => readValue outSize (parameterValue p)) := by
  have hnamed : isNamed name = named name := funext fun p => (named_eq_isNamed heq p).symm
  rw [hnamed]
  have hloop : (stripFirst name)^[(queryText l).length] (stripFirst name (queryText l)) =
      queryText (l.filter fun p => !named name p) := by
    have hcount : l.countP (named name) ≤ (queryText l).length + 1 :=
      Nat.le_succ_of_le (Nat.le_trans countP_le_length (length_le_queryText l))
    rw [← Function.iterate_succ_apply, iterate_stripFirst hamp _ hl, iterate_eraseP _ _ _ hcount]
  cases hfind : l.find? (named name) with
  | none =>
    have hnone : ∀ p ∈ l, named name p = false := fun p hp => by
      simpa using find?_eq_none.1 hfind p hp
    rw [extractQueryParam_absent (find_none hamp hl hnone),
      filter_eq_self.2 fun p hp => by simp [hnone p hp]]
  | some p =>
    obtain ⟨hn, l₁, l₂, rfl, hl₁⟩ := find?_eq_some_iff_append.1 hfind
    have hl₁' : ∀ q ∈ l₁, named name q = false := fun q hq => by simpa using hl₁ q hq
    have hvalue := valueAt_parameter l₁ (hl p (by simp)) l₂ (named_length hn)
    unfold extractQueryParam
    rw [find_first hamp (hl.sublist (sublist_append_left _ _)) hl₁' hn l₂]
    dsimp only
    rw [hloop, Nat.add_assoc _ name.length 1, hvalue,
      ← parameterValue_of_named ((named_eq_isNamed heq p).symm.trans hn)]
    unfold readValue
    split
    · rfl
    · cases httpUrlDecode (parameterValue p) <;> rfl

end Apackage.Rtp2httpd
