import Mathlib.Algebra.Order.BigOperators.Group.List
import Mathlib.Algebra.Order.Group.Nat
import Apackage.Rtp2httpd.Proxy.SeekSearch

/-
  Taking the control parameters out of a query (`service_extract_seek_params`,
  `service_extract_ifname_params` and `service_strip_query_param` in `service.c`).

  `ControlsTakenOut` says of a query what is meant. The steps that use `extract_query_param` do so
  for every query. The search for the seek parameter takes its pattern for a parameter behind any
  `?`, its pattern holds 127 bytes of `name=`, and the name may itself hold an `&` or an `=`
  (`controlsTakenOut_iff`).
-/

namespace Apackage.Rtp2httpd

open List Option

/-- The decoded value of the first parameter of the name. -/
def firstValue (name : Bytes) (outSize : ℕ) (params : List Bytes) : Option Bytes :=
  (params.find? (isNamed name)).bind fun p => (readValue outSize (parameterValue p)).toOption

/-- The parameters with none of the names. -/
def others (names params : List Bytes) : List Bytes :=
  params.filter fun p => names.all fun name => !isNamed name p

/-- What the seek parameter means: its first value without a brace, else its first value. -/
def seekValueOf (name : Bytes) (params : List Bytes) : Option Bytes :=
  let values := (params.filter (isNamed name)).filterMap fun p => decoded (parameterValue p)
  (values.find? fun v => 0x7B ∉ v ∧ 0x7D ∉ v).or values.head?

def seekControls : List Bytes :=
  [ascii "r2h-seek-name", ascii "r2h-seek-offset", ascii "r2h-seek-mode"]

def serviceControls : List Bytes :=
  [ascii "r2h-ifname-fcc", ascii "r2h-ifname", ascii "r2h-token", ascii "r2h-filename"]

/-- The name of the seek parameter: the one given, else the one that is detected. -/
def seekNameOf (params : List Bytes) : Option Bytes :=
  (firstValue (ascii "r2h-seek-name") 128 params).or
    (heuristicSeekName (queryText (others seekControls params)))

def seekPattern (name : Bytes) : Bytes := (name ++ [equals]).take 127

/-! ## The steps -/

theorem others_others (names names' l : List Bytes) :
    others names' (others names l) = others (names ++ names') l := by
  unfold others
  rw [List.filter_filter]
  refine filter_congr fun p _ => ?_
  rw [all_append, Bool.and_comm]

theorem others_single (name : Bytes) (l : List Bytes) :
    others [name] l = l.filter fun p => !isNamed name p := by
  refine filter_congr fun p _ => ?_
  simp

variable {l : List Bytes}

theorem Separated.others (h : Separated l) (names : List Bytes) : Separated (others names l) :=
  h.sublist filter_sublist

theorem extract_rest {name : Bytes} (hamp : ampersand ∉ name) (heq : equals ∉ name)
    (hl : Separated l) (outSize : ℕ) :
    (extractQueryParam (queryText l) name outSize).1 = queryText (others [name] l) := by
  rw [extractQueryParam_queryText hamp heq hl, others_single]

theorem extract_value {name : Bytes} (hamp : ampersand ∉ name) (heq : equals ∉ name)
    (hl : Separated l) (outSize : ℕ) :
    (extractQueryParam (queryText l) name outSize).2.toOption = firstValue name outSize l := by
  rw [extractQueryParam_queryText hamp heq hl, firstValue]
  cases l.find? (isNamed name) <;> rfl

theorem head?_queryText (l : List Bytes) :
    (queryText l).head? = some question ∨ queryText l = [] ∧ l = [] := by
  unfold queryText
  split
  · tauto
  · exact .inl rfl

theorem serviceExtractIfnameParams_queryText (hl : Separated l) :
    serviceExtractIfnameParams (queryText l) =
      (queryText (others [ascii "r2h-ifname-fcc", ascii "r2h-ifname"] l),
        firstValue (ascii "r2h-ifname") 16 (others [ascii "r2h-ifname-fcc"] l),
        firstValue (ascii "r2h-ifname-fcc") 16 l) := by
  unfold serviceExtractIfnameParams
  rcases head?_queryText l with h | ⟨-, rfl⟩
  · rw [if_neg (by rw [h]; simp)]
    dsimp only
    rw [extract_rest (by decide +kernel) (by decide +kernel) hl,
      extract_rest (by decide +kernel) (by decide +kernel) (hl.others _), others_others,
      extract_value (by decide +kernel) (by decide +kernel) hl,
      extract_value (by decide +kernel) (by decide +kernel) (hl.others _)]
    rfl
  · rfl

theorem serviceStripQueryParam_queryText {name : Bytes} (hamp : ampersand ∉ name)
    (heq : equals ∉ name) (hl : Separated l) :
    serviceStripQueryParam (queryText l) name = queryText (others [name] l) := by
  unfold serviceStripQueryParam
  rcases head?_queryText l with h | ⟨-, rfl⟩
  · rw [if_neg (by rw [h]; simp), extract_rest hamp heq hl]
  · rfl

variable {qs : Bytes}

theorem extractControls_of_seek {m : List Bytes} (h : (serviceExtractSeekParams qs).1 = queryText m)
    (hm : Separated m) :
    extractControls qs = (queryText (others serviceControls m), (serviceExtractSeekParams qs).2,
        firstValue (ascii "r2h-ifname") 16 (others [ascii "r2h-ifname-fcc"] m),
        firstValue (ascii "r2h-ifname-fcc") 16 m) := by
  unfold extractControls
  dsimp only
  rw [h, serviceExtractIfnameParams_queryText hm]
  rw [serviceStripQueryParam_queryText (by decide +kernel) (by decide +kernel) (hm.others _),
    others_others,
    serviceStripQueryParam_queryText (by decide +kernel) (by decide +kernel) (hm.others _),
    others_others]
  rfl

theorem serviceExtractSeekParams_queryText (hl : Separated l) :
    serviceExtractSeekParams (queryText l) = match seekNameOf l with
      | none => (queryText (others seekControls l), some ⟨none, none⟩)
      | some name =>
        if others seekControls l = [] then ([], some ⟨some name, none⟩)
        else
          match seekValues (queryText (others seekControls l)) (seekPattern name)
              ((queryText (others seekControls l)).length + 1) 0 with
          | none => (queryText (others seekControls l), none)
          | some values =>
            (if values = [] then queryText (others seekControls l)
              else removeSeekParams (seekPattern name)
                ((queryText (others seekControls l)).length + 1) 0
                (queryText (others seekControls l)),
              some ⟨some name, selectedValue values⟩) := by
  have hthree : queryText (others [ascii "r2h-seek-mode"] (others [ascii "r2h-seek-offset"]
      (others [ascii "r2h-seek-name"] l))) = queryText (others seekControls l) := by
    rw [others_others, others_others]
    rfl
  have hnil : queryText (others seekControls l) = [] ↔ others seekControls l = [] := by
    rcases head?_queryText (others seekControls l) with h | ⟨h, h'⟩
    · refine iff_of_false (fun he => ?_) fun he => ?_
      · rw [he] at h
        cases h
      · rw [he] at h
        cases h
    · exact iff_of_true h h'
  unfold serviceExtractSeekParams seekNameOf
  dsimp only
  rw [extract_value (by decide +kernel) (by decide +kernel) hl,
    extract_rest (by decide +kernel) (by decide +kernel) hl,
    extract_rest (by decide +kernel) (by decide +kernel) (hl.others _),
    extract_rest (by decide +kernel) (by decide +kernel) ((hl.others _).others _), hthree]
  cases (firstValue (ascii "r2h-seek-name") 128 l).or
    (heuristicSeekName (queryText (others seekControls l))) with
  | none => rfl
  | some name =>
    dsimp only
    by_cases hempty : others seekControls l = []
    · rw [if_pos hempty, if_pos (hnil.2 hempty), hempty]
      rfl
    · rw [if_neg hempty, if_neg (fun h => hempty (hnil.1 h))]
      rfl

/-! ## The pattern and the parameters of the name -/

variable {name : Bytes}

theorem seekPattern_ne_nil (name : Bytes) : seekPattern name ≠ [] := by
  unfold seekPattern
  cases name <;> simp

theorem seekPattern_ampersand (h : ampersand ∉ name) : ampersand ∉ seekPattern name := by
  intro hmem
  rcases mem_append.1 (mem_of_mem_take hmem) with h' | h'
  · exact h h'
  · exact absurd (mem_singleton.1 h') (by decide)

theorem seekPattern_short (h : name.length ≤ 126) : seekPattern name = name ++ [equals] :=
  take_of_length_le (by rw [length_append, length_singleton]; omega)

variable {p : Bytes}

theorem isNamed_start (h : isNamed name p = true) :
    hasPrefixNoCase (name ++ [equals]) p = true := by
  obtain ⟨m, v, rfl, -, hm⟩ := isNamed_iff.1 h
  refine hasPrefixNoCase_iff.2 ⟨m ++ [equals], v, by simp, ?_⟩
  rw [map_append, map_append, hm]

theorem isNamed_name (hp : ampersand ∉ p) (h : isNamed name p = true) :
    ampersand ∉ name ∧ equals ∉ name := by
  obtain ⟨m, v, rfl, hm, hlower⟩ := isNamed_iff.1 h
  refine ⟨fun hamp => ?_, equals_not_mem_of_lower hlower.symm hm⟩
  have hlow : ampersand ∈ m.map toLower := hlower ▸ List.mem_map.2 ⟨ampersand, hamp, rfl⟩
  obtain ⟨c, hc, hc'⟩ := List.mem_map.1 hlow
  exact hp (mem_append_left _ (toLower_eq_ampersand.1 hc' ▸ hc))

variable {s : Bytes}

theorem strcasestr_of_prefix {pattern : Bytes} (hne : pattern ≠ [])
    (h : hasPrefixNoCase pattern s = true) : strcasestr pattern s = some 0 := by
  cases s with
  | nil =>
    obtain ⟨k, rest, rfl⟩ := exists_cons_of_ne_nil hne
    cases h
  | cons c s => rw [strcasestr, if_pos h]

theorem stopIn_of_prefix {pattern p : Bytes} (hne : pattern ≠ [])
    (h : hasPrefixNoCase pattern p = true) : stopIn pattern p = some 0 := by
  rw [stopIn_eq_some hne, nextStop, seekSearch, drop_succ_cons, drop_zero,
    strcasestr_of_prefix hne h]
  rfl

theorem stopIn_of_named (h : isNamed name p = true) : stopIn (seekPattern name) p = some 0 := by
  have hwhole : hasPrefixNoCase (seekPattern name ++ (name ++ [equals]).drop 127) p = true := by
    rw [seekPattern, take_append_drop]
    exact isNamed_start h
  exact stopIn_of_prefix (seekPattern_ne_nil name) (prefixNoCase_of_key hwhole)

theorem named_of_stopIn (hlen : name.length ≤ 126) (heq : equals ∉ name)
    (h : stopIn (seekPattern name) p = some 0) : isNamed name p = true := by
  have hocc := (stopIn_occurrence (seekPattern_ne_nil name) h).2
  rw [seekPattern_short hlen, drop_zero] at hocc
  rw [← named_eq_isNamed heq]
  exact named_of_prefix hocc

/-! ## No harm -/

variable {α β : Type} {f : α → Option β}

theorem filterMap_eq_map_filter {q : α → Bool} {g : α → β} {l : List α}
    (h : ∀ a ∈ l, f a = if q a then some (g a) else none) : l.filterMap f = (l.filter q).map g := by
  induction l with
  | nil => rfl
  | cons a l ih =>
    have hrest := ih fun b hb => h b (mem_cons_of_mem _ hb)
    rw [filterMap_cons, h a mem_cons_self]
    cases hq : q a with
    | true => rw [filter_cons_of_pos hq, map_cons, ← hrest]; rfl
    | false => rw [filter_cons_of_neg (by simp [hq]), ← hrest]; rfl

theorem filterMap_of_mapM {l : List α} {vs : List β} (h : l.mapM f = some vs) :
    l.filterMap f = vs := by
  induction l generalizing vs with
  | nil => exact some.inj h
  | cons a l ih =>
    rw [mapM_cons] at h
    obtain ⟨v, hv, h⟩ := bind_eq_some_iff.1 h
    obtain ⟨ws, hws, h⟩ := bind_eq_some_iff.1 h
    obtain rfl := some.inj h
    rw [filterMap_cons, hv, ih hws]

theorem eq_nil_of_mapM {l : List α} (h : l.mapM f = some []) : l = [] := by
  cases l with
  | nil => rfl
  | cons a l =>
    rw [mapM_cons] at h
    obtain ⟨v, -, h⟩ := bind_eq_some_iff.1 h
    obtain ⟨vs, -, h⟩ := bind_eq_some_iff.1 h
    cases h

theorem selectedValue_eq (values : List Bytes) : selectedValue values =
      (values.find? fun v => 0x7B ∉ v ∧ 0x7D ∉ v).or values.head? := by
  unfold selectedValue
  cases values.find? fun v => 0x7B ∉ v ∧ 0x7D ∉ v <;> rfl

theorem nextStop_head {pattern : Bytes} (hne : pattern ≠ []) (h : hasPrefixNoCase pattern qs = true)
    (n : ℕ) : nextStop qs pattern (n + 1) 0 = some 0 := by
  rw [nextStop, seekSearch, drop_zero, strcasestr_of_prefix hne h]
  rfl

variable {pattern : Bytes}

theorem seekValues_first (hne : pattern ≠ []) (hamp : ampersand ∉ pattern) (hl : l ≠ [])
    (hsep : Separated l) (hhead : hasPrefixNoCase pattern (queryText l) = false) :
    seekValues (queryText l) pattern ((queryText l).length + 1) 0 =
      (l.filterMap (foundValue pattern)).mapM decoded := by
  rw [seekValues_eq, seekSearch_pass hne (by rwa [drop_zero]), ← seekValues_eq]
  exact seekValues_queryText hne hamp hl hsep (by omega)

theorem removeSeekParams_first (hne : pattern ≠ []) (hamp : ampersand ∉ pattern)
    (hsep : Separated l) (hhead : hasPrefixNoCase pattern (queryText l) = false) :
    removeSeekParams pattern ((queryText l).length + 1) 0 (queryText l) =
      queryText (l.filterMap (keptPart pattern)) := by
  have hpass : ∀ n, removeSeekParams pattern n 0 (queryText l) =
      removeSeekParams pattern n 1 (queryText l) := by
    intro n
    cases n with
    | zero => rfl
    | succ n =>
      rw [removeSeekParams, removeSeekParams, drop_zero]
      generalize queryText l = qs at hhead
      cases qs with
      | nil => rw [drop_nil, strcasestr_nil hne]
      | cons c s =>
        rw [strcasestr_cons_of_not hhead, drop_succ_cons, drop_zero]
        cases strcasestr pattern s with
        | none => rfl
        | some i => simp only [map_some, Nat.zero_add, Nat.add_comm 1]
  rw [hpass]
  exact removeSeekParams_behind hne hamp [] hsep (Nat.lt_succ_of_lt (Nat.lt_succ_self _))

theorem foundValue_eq_none {pattern p : Bytes} :
    foundValue pattern p = none ↔ stopIn pattern p = none := by
  rw [foundValue, map_eq_none_iff]

theorem stopIn_none_of_silent (hne : pattern ≠ []) (hamp : ampersand ∉ pattern) (hsep : Separated l)
    (h : nextStop (queryText l) pattern ((queryText l).length + 1) 0 = none) :
    ∀ p ∈ l, stopIn pattern p = none := by
  intro p hp
  have hhead : hasPrefixNoCase pattern (queryText l) = false := by
    rw [← Bool.not_eq_true]
    intro hpre
    rw [nextStop_head hne hpre] at h
    cases h
  have hvalues := seekValues_first hne hamp (ne_nil_of_mem hp) hsep hhead
  rw [seekValues_eq, seekSearch_none h] at hvalues
  have hnil : l.filterMap (foundValue pattern) = [] := eq_nil_of_mapM hvalues.symm
  exact foundValue_eq_none.1 (filterMap_eq_nil_iff.1 hnil p hp)

theorem kept_of_safe (l : List Bytes)
    (h : ∀ p ∈ l, isNamed name p = false → stopIn (seekPattern name) p = none) :
    l.filterMap (keptPart (seekPattern name)) = others [name] l := by
  rw [others_single, filterMap_eq_map_filter (q := fun p => !isNamed name p) (g := id) ?_,
    List.map_id]
  intro p hp
  unfold keptPart
  cases hn : isNamed name p with
  | true =>
    rw [stopIn_of_named hn]
    rfl
  | false =>
    rw [h p hp hn]
    rfl

theorem found_of_safe (hlen : name.length ≤ 126) (l : List Bytes)
    (h : ∀ p ∈ l, isNamed name p = false → stopIn (seekPattern name) p = none) :
    l.filterMap (foundValue (seekPattern name)) = (l.filter (isNamed name)).map parameterValue := by
  refine filterMap_eq_map_filter fun p hp => ?_
  unfold foundValue
  cases hn : isNamed name p with
  | true =>
    rw [stopIn_of_named hn, seekPattern_short hlen, map_some, Nat.zero_add,
      length_append, length_singleton, parameterValue_of_named hn]
    rfl
  | false =>
    rw [h p hp hn]
    rfl

/-- No parameter but those of the name has `name=` behind a `?`. -/
def OnlyNamed (name : Bytes) (params : List Bytes) : Prop :=
  ∀ p ∈ params, isNamed name p = false →
    ∀ u v, p = u ++ question :: v → hasPrefixNoCase (name ++ [equals]) v = false

/-- The search finds nothing, or a name that the pattern holds and nothing but the parameters
    of this name. -/
def SeekNameSafe (name : Bytes) (params : List Bytes) : Prop :=
  nextStop (queryText params) (seekPattern name) ((queryText params).length + 1) 0 = none ∨
    name.length ≤ 126 ∧ ampersand ∉ name ∧ equals ∉ name ∧
      hasPrefixNoCase (name ++ [equals]) (queryText params) = false ∧ OnlyNamed name params

theorem stopIn_of_onlyNamed (hlen : name.length ≤ 126) (heq : equals ∉ name) (hsep : Separated l)
    (h : OnlyNamed name l) :
    ∀ p ∈ l, isNamed name p = false → stopIn (seekPattern name) p = none := by
  intro p hp hn
  have hne := seekPattern_ne_nil name
  cases hstop : stopIn (seekPattern name) p with
  | none => rfl
  | some k =>
    exfalso
    cases k with
    | zero =>
      rw [named_of_stopIn hlen heq hstop] at hn
      cases hn
    | succ k =>
      obtain ⟨u, v, hsplit, hu⟩ := stopIn_succ hne (hsep p hp) hstop
      have hocc := (stopIn_occurrence hne hstop).2
      rw [seekPattern_short hlen, hsplit, ← hu, drop_length_add_append, drop_succ_cons,
        drop_zero, h p hp hn u v hsplit] at hocc
      cases hocc

theorem others_eq_self (h : ∀ p ∈ l, isNamed name p = false) : others [name] l = l := by
  rw [others_single]
  exact filter_eq_self.2 fun p hp => by rw [h p hp]; rfl

theorem seekValueOf_eq_none (h : ∀ p ∈ l, isNamed name p = false) : seekValueOf name l = none := by
  have hnil : l.filter (isNamed name) = [] :=
    filter_eq_nil_iff.2 fun p hp => by rw [h p hp]; exact Bool.false_ne_true
  rw [seekValueOf, hnil]
  rfl

theorem not_named_of_silent (hsep : Separated l)
    (h : nextStop (queryText l) (seekPattern name) ((queryText l).length + 1) 0 = none) :
    ∀ p ∈ l, isNamed name p = false := by
  intro p hp
  rw [← Bool.not_eq_true]
  intro hn
  have hamp := seekPattern_ampersand (isNamed_name (hsep p hp) hn).1
  have hstop := stopIn_none_of_silent (seekPattern_ne_nil name) hamp hsep h p hp
  rw [stopIn_of_named hn] at hstop
  cases hstop

theorem extractSeek_of_safe (hl : Separated l) {seek : SeekParams}
    (hseek : (serviceExtractSeekParams (queryText l)).2 = some seek)
    (h : ∀ name, seekNameOf l = some name → SeekNameSafe name (others seekControls l)) :
    (serviceExtractSeekParams (queryText l)).1 =
        queryText (others seek.paramName.toList (others seekControls l)) ∧
      seek.paramName = seekNameOf l ∧
      seek.paramValue = seek.paramName.bind fun name =>
        seekValueOf name (others seekControls l) := by
  have hall : others [] (others seekControls l) = others seekControls l :=
    filter_eq_self.2 fun p _ => rfl
  rw [serviceExtractSeekParams_queryText hl] at hseek ⊢
  cases hname : seekNameOf l with
  | none =>
    rw [hname] at hseek
    obtain rfl := some.inj hseek
    exact ⟨congrArg queryText hall.symm, rfl, rfl⟩
  | some name =>
    rw [hname] at hseek
    dsimp only at hseek ⊢
    have hsafe := h name hname
    have hsep := hl.others seekControls
    generalize others seekControls l = params at *
    split at hseek
    · rename_i hempty
      obtain rfl := some.inj hseek
      rw [if_pos hempty, hempty]
      exact ⟨rfl, rfl, rfl⟩
    rename_i hempty
    rw [if_neg hempty]
    rcases hsafe with hsilent | ⟨hlen, hamp, heq, hhead, honly⟩
    · have hnone := not_named_of_silent hsep hsilent
      have hvalues : seekValues (queryText params) (seekPattern name)
          ((queryText params).length + 1) 0 = some [] := by
        rw [seekValues_eq, seekSearch_none hsilent]
      rw [hvalues] at hseek ⊢
      obtain rfl := some.inj hseek
      refine ⟨?_, rfl, ?_⟩
      · exact congrArg queryText (others_eq_self hnone).symm
      · exact (seekValueOf_eq_none hnone).symm
    · have hne := seekPattern_ne_nil name
      have hpattern := seekPattern_ampersand hamp
      have hstops := stopIn_of_onlyNamed hlen heq hsep honly
      rw [← seekPattern_short hlen] at hhead
      have hvalues := seekValues_first hne hpattern hempty hsep hhead
      rw [found_of_safe hlen params hstops] at hvalues
      have hrest := removeSeekParams_first hne hpattern hsep hhead
      rw [kept_of_safe params hstops] at hrest
      rw [hrest]
      cases hread : seekValues (queryText params) (seekPattern name)
          ((queryText params).length + 1) 0 with
      | none =>
        rw [hread] at hseek
        cases hseek
      | some values =>
        rw [hread] at hseek hvalues
        obtain rfl := some.inj hseek
        have hmap := filterMap_of_mapM hvalues.symm
        rw [filterMap_map] at hmap
        refine ⟨?_, rfl, ?_⟩
        · dsimp only [toList_some]
          split
          · rename_i hnil
            refine congrArg queryText (others_eq_self fun p hp => ?_).symm
            have hno := eq_nil_of_mapM (hnil ▸ hvalues.symm)
            simpa using filter_eq_nil_iff.1 (map_eq_nil_iff.1 hno) p hp
          · rfl
        · rw [selectedValue_eq, ← hmap]
          rfl

/-! ## Harm -/

theorem prefixNoCase_getElem {key : Bytes} (h : hasPrefixNoCase key s = true) {k : ℕ}
    (hk : k < key.length) : s[k]?.map toLower = some (toLower key[k]) := by
  obtain ⟨m, t, rfl, hm⟩ := hasPrefixNoCase_iff.1 h
  have hlen : m.length = key.length := by rw [← length_map (f := toLower), hm, length_map]
  have hget := congrArg (·[k]?) hm
  rw [getElem?_append_left (by omega)]
  simpa [getElem?_map, hk] using hget

theorem strcasestr_le {pattern : Bytes} (hne : pattern ≠ []) {j : ℕ}
    (h : hasPrefixNoCase pattern (s.drop j) = true) : ∃ i ≤ j, strcasestr pattern s = some i := by
  induction s generalizing j with
  | nil =>
    obtain ⟨k, rest, rfl⟩ := exists_cons_of_ne_nil hne
    rw [drop_nil] at h
    cases h
  | cons c s ih =>
    rw [strcasestr]
    split
    · exact ⟨0, Nat.zero_le _, rfl⟩
    · rename_i hhead
      cases j with
      | zero => exact absurd h hhead
      | succ j =>
        obtain ⟨i, hi, hs⟩ := ih h
        exact ⟨i + 1, by omega, by rw [hs, map_some]⟩

theorem nextStop_reaches {pattern : Bytes} (hne : pattern ≠ []) {n pos j : ℕ}
    (hn : qs.length < n + pos) (hle : pos ≤ j) (hat : hasPrefixNoCase pattern (qs.drop j) = true)
    (hin : insideParam qs j = false)
    (hoverlap : ∀ i, i < j → j < i + pattern.length → hasPrefixNoCase pattern (qs.drop i) = false) :
    nextStop qs pattern n pos ≠ none := by
  have hlen := prefixNoCase_length hat
  have hpos := length_pos_of_ne_nil hne
  rw [length_drop] at hlen
  induction n generalizing pos with
  | zero => omega
  | succ n ih =>
    have hat' : hasPrefixNoCase pattern ((qs.drop pos).drop (j - pos)) = true := by
      rwa [drop_drop, Nat.add_sub_cancel' hle]
    obtain ⟨i, hi, hfound⟩ := strcasestr_le hne hat'
    have hstart := strcasestr_starts hfound
    rw [drop_drop] at hstart
    rw [nextStop, seekSearch, hfound]
    dsimp only
    by_cases hinside : insideParam qs (pos + i) = true
    · have hbefore : pos + i < j := by
        refine lt_of_le_of_ne (by omega) fun he => ?_
        rw [he, hin] at hinside
        cases hinside
      have hskip : pos + i + pattern.length ≤ j := by
        by_contra hover
        rw [hoverlap (pos + i) hbefore (by omega)] at hstart
        cases hstart
      rw [if_pos hinside]
      exact ih (by omega) hskip
    · simp [*]

theorem no_overlap (heq : equals ∉ name) {i j : ℕ} (hij : i < j)
    (hj : j < i + (name ++ [equals]).length)
    (hat : hasPrefixNoCase (name ++ [equals]) (s.drop j) = true) :
    hasPrefixNoCase (name ++ [equals]) (s.drop i) = false := by
  rw [← Bool.not_eq_true]
  intro hat'
  rw [length_append, length_singleton] at hj
  have hlast := prefixNoCase_getElem hat' (k := name.length) (by simp)
  have hmid := prefixNoCase_getElem hat (k := i + name.length - j) (by simp; omega)
  rw [getElem?_drop, show j + (i + name.length - j) = i + name.length by omega] at hmid
  rw [getElem?_drop, hmid, getElem_append_left (by omega)] at hlast
  have hlower : toLower name[i + name.length - j] = equals := by
    simpa [toLower_eq_equals.2 rfl] using some.inj hlast
  exact heq (toLower_eq_equals.1 hlower ▸ getElem_mem _)

variable {v : Bytes}

theorem stopIn_ne_none (hlen : name.length ≤ 126) (heq : equals ∉ name) {u : Bytes}
    (h : hasPrefixNoCase (name ++ [equals]) v = true) :
    stopIn (seekPattern name) (u ++ question :: v) ≠ none := by
  rw [Ne, stopIn_eq_none, seekPattern_short hlen]
  have hdrop : (ampersand :: (u ++ question :: v)).drop (u.length + 2) = v := by
    rw [drop_succ_cons, drop_length_add_append, drop_succ_cons, drop_zero]
  refine nextStop_reaches (by simp) (j := u.length + 2) (by simp) (by omega) ?_ ?_ ?_
  · rwa [hdrop]
  · simp [insideParam]
  · intro i hi hover
    exact no_overlap heq hi hover (by rwa [hdrop])

/-- What a parameter adds to the length of a query. -/
def weight (kept : Option Bytes) : ℕ :=
  match kept with
  | some q => q.length + 1
  | none => 0

theorem queryText_weight (f : Bytes → Option Bytes) (l : List Bytes) :
    (queryText (l.filterMap f)).length = (l.map fun p => weight (f p)).sum := by
  have hsum : ∀ l : List Bytes, (queryText l).length = (l.map fun q => q.length + 1).sum := by
    intro l
    by_cases h : l = []
    · rw [h]
      rfl
    · rw [queryText_length h]
      clear h
      induction l with
      | nil => rfl
      | cons p l ih =>
        simp only [map_cons, sum_cons, length_cons]
        omega
  rw [hsum]
  induction l with
  | nil => rfl
  | cons p l ih =>
    rw [filterMap_cons, map_cons, sum_cons, ← ih]
    cases f p with
    | none => exact (Nat.zero_add _).symm
    | some q => rfl

theorem eq_of_sum_eq {f g : α → ℕ} {l : List α} (hle : ∀ a ∈ l, f a ≤ g a)
    (hsum : (l.map f).sum = (l.map g).sum) : ∀ a ∈ l, f a = g a := by
  induction l with
  | nil =>
    intro a ha
    cases ha
  | cons b l ih =>
    have hrest : ∀ a ∈ l, f a ≤ g a := fun a ha => hle a (mem_cons_of_mem _ ha)
    have hhead := hle b mem_cons_self
    have htail := sum_le_sum hrest
    rw [map_cons, map_cons, sum_cons, sum_cons] at hsum
    intro a ha
    rcases List.mem_cons.1 ha with rfl | ha
    · omega
    · exact ih hrest (by omega) a ha

theorem stops_of_rest
    (h : queryText (l.filterMap (keptPart (seekPattern name))) = queryText (others [name] l)) :
    ∀ p ∈ l, isNamed name p = false → stopIn (seekPattern name) p = none := by
  have hne := seekPattern_ne_nil name
  have hothers : others [name] l =
      l.filterMap fun p => if isNamed name p then none else some p := by
    rw [filterMap_eq_map_filter (q := fun p => !isNamed name p) (g := id) ?_, List.map_id,
      others_single]
    intro p _
    cases isNamed name p <;> rfl
  rw [hothers] at h
  have hsum := congrArg List.length h
  rw [queryText_weight, queryText_weight] at hsum
  have hlong : ∀ p k, stopIn (seekPattern name) p = some (k + 1) →
      weight (keptPart (seekPattern name) p) < p.length + 1 := by
    intro p k hstop
    have hocc := (stopIn_occurrence hne hstop).1
    rw [keptPart, hstop]
    dsimp only [weight]
    rw [length_take]
    omega
  have hle : ∀ p ∈ l, weight (keptPart (seekPattern name) p) ≤
      weight (if isNamed name p then none else some p) := by
    intro p _
    cases hn : isNamed name p with
    | true =>
      rw [keptPart, stopIn_of_named hn]
      exact Nat.le_refl _
    | false =>
      cases hstop : stopIn (seekPattern name) p with
      | none =>
        rw [keptPart, hstop]
        exact Nat.le_refl _
      | some k =>
        cases k with
        | zero =>
          rw [keptPart, hstop]
          exact Nat.zero_le _
        | succ k => exact Nat.le_of_lt (hlong p k hstop)
  intro p hp hn
  have heach := eq_of_sum_eq hle hsum p hp
  rw [hn, if_neg Bool.false_ne_true] at heach
  cases hstop : stopIn (seekPattern name) p with
  | none => rfl
  | some k =>
    exfalso
    cases k with
    | zero =>
      rw [keptPart, hstop] at heach
      cases heach
    | succ k => exact Nat.ne_of_lt (hlong p k hstop) heach

/-! ### Values that keep a part of the name -/

/-- A text that is read for a parameter, with more than the value. -/
def Padded (text p : Bytes) : Prop :=
  ∃ pad, pad ≠ [] ∧ (∀ c ∈ pad, c = equals ∨ c = question) ∧ text = pad ++ parameterValue p

theorem decoded_cons {c : UInt8} (h : c = equals ∨ c = question) (text : Bytes) :
    decoded (c :: text) = (decoded text).map (c :: ·) := by
  have hpercent : c ≠ Lib.PercentCoding.percent := by rcases h with rfl | rfl <;> decide
  have hnul : decide (c ≠ 0) = true := by rcases h with rfl | rfl <;> decide
  have hcstr : ∀ w, cstr (c :: w) = c :: cstr w := fun w => takeWhile_cons_of_pos hnul
  unfold decoded httpUrlDecode
  rw [Lib.PercentCoding.decode_cons_of_ne hpercent, Option.map_map, Option.map_map]
  congr 1
  funext w
  exact hcstr w

theorem decoded_pad {pad : Bytes} (h : ∀ c ∈ pad, c = equals ∨ c = question) (text : Bytes) :
    decoded (pad ++ text) = (decoded text).map (pad ++ ·) := by
  induction pad with
  | nil => simp
  | cons c pad ih =>
    rw [cons_append, decoded_cons (h c mem_cons_self),
      ih fun d hd => h d (mem_cons_of_mem _ hd), Option.map_map]
    rfl

/-- A value with something in front, as far as braces go. -/
def Extends (v w : Bytes) : Prop :=
  ∃ pad, pad ≠ [] ∧ (∀ c ∈ pad, c = equals ∨ c = question) ∧ v = pad ++ w

variable {values : List Bytes}

theorem extends_of_padded {texts params : List Bytes} (h : List.Forall₂ Padded texts params)
    (hvalues : texts.mapM decoded = some values) :
    List.Forall₂ Extends values (params.filterMap fun p => decoded (parameterValue p)) := by
  induction h generalizing values with
  | nil =>
    obtain rfl := some.inj hvalues
    exact List.Forall₂.nil
  | cons hp _ ih =>
    obtain ⟨pad, hne, hpad, rfl⟩ := hp
    rw [mapM_cons] at hvalues
    obtain ⟨v, hv, hvalues⟩ := bind_eq_some_iff.1 hvalues
    obtain ⟨vs, hvs, hvalues⟩ := bind_eq_some_iff.1 hvalues
    obtain rfl := some.inj hvalues
    rw [decoded_pad hpad] at hv
    obtain ⟨w, hw, rfl⟩ := map_eq_some_iff.1 hv
    rw [filterMap_cons, hw]
    exact List.Forall₂.cons ⟨pad, hne, hpad, rfl⟩ (ih hvs)

theorem Extends.braces {w : Bytes} (h : Extends v w) :
    (0x7B ∉ v ∧ 0x7D ∉ v) ↔ (0x7B ∉ w ∧ 0x7D ∉ w) := by
  obtain ⟨pad, -, hpad, rfl⟩ := h
  have hopen : (0x7B : UInt8) ∉ pad := fun hmem => by
    rcases hpad _ hmem with h | h <;> exact absurd h (by decide)
  have hclose : (0x7D : UInt8) ∉ pad := fun hmem => by
    rcases hpad _ hmem with h | h <;> exact absurd h (by decide)
  simp only [mem_append, not_or, hopen, hclose, not_false_eq_true, true_and]

theorem Extends.ne {w : Bytes} (h : Extends v w) : v ≠ w := by
  obtain ⟨pad, hne, -, rfl⟩ := h
  intro heq
  exact hne (append_left_eq_self.1 heq)

theorem extends_find {ws : List Bytes} (h : List.Forall₂ Extends values ws) :
    Option.Rel Extends (values.find? fun v => 0x7B ∉ v ∧ 0x7D ∉ v)
      (ws.find? fun v => 0x7B ∉ v ∧ 0x7D ∉ v) := by
  induction h with
  | nil => exact Option.Rel.none
  | @cons v w values ws hvw _ ih =>
    by_cases hb : 0x7B ∉ w ∧ 0x7D ∉ w
    · rw [find?_cons_of_pos (by simpa using hvw.braces.2 hb), find?_cons_of_pos (by simpa using hb)]
      exact Option.Rel.some hvw
    · rw [find?_cons_of_neg (by simpa using fun h => hb (hvw.braces.1 h)),
        find?_cons_of_neg (by simpa using hb)]
      exact ih

theorem selectedValue_extends {values ws : List Bytes} (hne : values ≠ [])
    (h : List.Forall₂ Extends values ws) :
    selectedValue values ≠ (ws.find? fun v => 0x7B ∉ v ∧ 0x7D ∉ v).or ws.head? := by
  have hfind := extends_find h
  rw [selectedValue_eq]
  generalize (values.find? fun v => 0x7B ∉ v ∧ 0x7D ∉ v) = a at *
  generalize (ws.find? fun v => 0x7B ∉ v ∧ 0x7D ∉ v) = b at *
  cases hfind with
  | some hvw => exact fun he => hvw.ne (some.inj he)
  | none =>
    cases h with
    | nil => exact absurd rfl hne
    | cons hvw _ => exact fun he => hvw.ne (some.inj he)

theorem toLower_eq_question {c : UInt8} : toLower c = question ↔ c = question := by
  obtain ⟨⟨n⟩⟩ := c
  revert n
  decide +kernel

theorem drop_name (h : isNamed name p = true) :
    p.drop name.length = equals :: parameterValue p := by
  obtain ⟨m, v, rfl, hm, hlower⟩ := isNamed_iff.1 h
  have hlen : name.length = m.length := by rw [← length_map (f := toLower), ← hlower, length_map]
  rw [hlen, drop_left, parameterValue_eq hm]

theorem seekPattern_long (h : name.length = 127) : seekPattern name = name := by
  unfold seekPattern
  rw [← h, take_left]

theorem padded_found (hlen : name.length = 127)
    (h : ∀ p ∈ l, isNamed name p = false → stopIn (seekPattern name) p = none) :
    List.Forall₂ Padded (l.filterMap (foundValue (seekPattern name)))
      (l.filter (isNamed name)) := by
  have hfound : l.filterMap (foundValue (seekPattern name)) =
      (l.filter (isNamed name)).map (·.drop name.length) := by
    refine filterMap_eq_map_filter fun p hp => ?_
    unfold foundValue
    cases hn : isNamed name p with
    | true =>
      rw [stopIn_of_named hn, seekPattern_long hlen, map_some, Nat.zero_add]
      rfl
    | false =>
      rw [h p hp hn]
      rfl
  rw [hfound, forall₂_map_left_iff, forall₂_same]
  intro p hp
  refine ⟨[equals], cons_ne_nil _ _, fun c hc => .inl (mem_singleton.1 hc), ?_⟩
  exact drop_name (mem_filter.1 hp).2

/-! ### A name that begins with `?` -/

section Head

variable {p : Bytes} {l : List Bytes}

variable {pattern : Bytes}

section

variable (hne : pattern ≠ []) (hamp : ampersand ∉ pattern)

include hne hamp

theorem seekValues_head (hsep : Separated (p :: l))
    (hhead : hasPrefixNoCase pattern (queryText (p :: l)) = true) :
    seekValues (queryText (p :: l)) pattern ((queryText (p :: l)).length + 1) 0 =
      (p.drop (pattern.length - 1) :: l.filterMap (foundValue pattern)).mapM decoded := by
  have hpos := length_pos_of_ne_nil hne
  have htext : queryText (p :: l) = question :: p ++ behind l := queryText_at [] p l
  have hlen : pattern.length - 1 ≤ p.length := by
    have hfit := hhead
    rw [htext, prefixNoCase_behind hamp] at hfit
    have := prefixNoCase_length hfit
    rw [length_cons] at this
    omega
  have hvalue := valueAt_parameter [] (hsep p mem_cons_self) l hlen
  have hrest := seekValues_behind hne hamp [] p
    (hsep.sublist (sublist_cons_self _ _)) (n := (queryText (p :: l)).length)
    (Nat.lt_add_of_pos_right (by omega))
  rw [nil_append, before_nil, length_nil] at hvalue hrest
  have hplace : 0 + 0 + pattern.length = 0 + 1 + (pattern.length - 1) := by omega
  have hend : 0 + 1 + (pattern.length - 1) + (p.drop (pattern.length - 1)).length =
      0 + 1 + p.length := by
    rw [length_drop]
    omega
  rw [seekValues_eq, seekSearch, drop_zero, strcasestr_of_prefix hne hhead]
  dsimp only
  rw [if_neg (by simp [insideParam]), hplace, hvalue, hend, hrest, mapM_cons]
  cases decoded (p.drop (pattern.length - 1)) with
  | none => rfl
  | some v => cases (l.filterMap (foundValue pattern)).mapM decoded <;> rfl

theorem removeSeekParams_lost (n pos : ℕ) (s : Bytes) :
    removeSeekParams pattern n pos (ampersand :: s) = [] ∨
      ∃ s', removeSeekParams pattern n pos (ampersand :: s) = ampersand :: s' := by
  induction n generalizing pos s with
  | zero => exact .inr ⟨s, rfl⟩
  | succ n ih =>
    rw [removeSeekParams]
    cases hi : strcasestr pattern ((ampersand :: s).drop pos) with
    | none => exact .inr ⟨s, rfl⟩
    | some i =>
      dsimp only
      split
      · exact ih _ s
      obtain ⟨k, hk⟩ : ∃ k, pos + i = k + 1 := by
        refine Nat.exists_eq_succ_of_ne_zero fun hzero => ?_
        obtain ⟨rfl, rfl⟩ : pos = 0 ∧ i = 0 := by omega
        have hstart := strcasestr_starts hi
        rw [drop_zero, drop_zero, not_prefixNoCase_ampersand hne hamp] at hstart
        cases hstart
      rw [hk]
      cases k with
      | zero =>
        rw [if_pos (rfl : 0 + 1 = 1), if_pos (rfl : 0 + 1 = 1)]
        split
        · exact ih _ _
        · exact .inl rfl
      | succ k =>
        rw [if_neg (by omega : ¬ k + 1 + 1 = 1), if_neg (by omega : ¬ k + 1 + 1 = 1),
          if_pos (by omega : 1 < k + 1 + 1), Nat.add_sub_cancel, take_succ_cons]
        split
        · exact ih _ _
        · exact .inr ⟨_, rfl⟩

theorem removeSeekParams_head (hsep : Separated (p :: l))
    (hhead : hasPrefixNoCase pattern (queryText (p :: l)) = true) (n : ℕ) :
    removeSeekParams pattern (n + 1) 0 (queryText (p :: l)) = [] ∨
      ∃ s, removeSeekParams pattern (n + 1) 0 (queryText (p :: l)) = ampersand :: s := by
  have htext : queryText (p :: l) = (question :: p) ++ behind l := queryText_at [] p l
  have hp : ∀ c ∈ question :: p, decide (c ≠ ampersand) = true := by
    intro c hc
    rw [decide_eq_true_eq]
    rintro rfl
    rcases List.mem_cons.1 hc with h | h
    · exact absurd h (by decide)
    · exact hsep p mem_cons_self h
  have hvalue : valueAt (queryText (p :: l)) 0 = question :: p := by
    unfold valueAt
    rw [drop_zero, htext, takeWhile_append_of_pos hp]
    cases l with
    | nil => simp
    | cons q l => rw [behind_cons, takeWhile_cons_of_neg (by simp), append_nil]
  rw [removeSeekParams, drop_zero, strcasestr_of_prefix hne hhead]
  dsimp only
  rw [if_neg (by simp [insideParam]), hvalue]
  rw [if_neg (by omega : ¬ 0 + 0 = 1), if_neg (by omega : ¬ 0 + 0 = 1),
    if_neg (by omega : ¬ 1 < 0 + 0), htext, Nat.add_zero, Nat.zero_add, take_zero,
    nil_append]
  split
  · rename_i hmore
    rw [drop_left]
    cases l with
    | nil =>
      rw [behind_nil, append_nil, getElem?_eq_none (Nat.le_refl _)] at hmore
      cases hmore
    | cons q l => exact removeSeekParams_lost hne hamp n 0 _
  · exact .inl rfl

end

theorem head_not_named
    (hhead : hasPrefixNoCase (name ++ [equals]) (question :: p) = true) :
    isNamed name p = false := by
  rw [← Bool.not_eq_true]
  intro hn
  obtain ⟨m, v, rfl, hm, hlower⟩ := isNamed_iff.1 hn
  have hlen : name.length = m.length := by rw [← length_map (f := toLower), ← hlower, length_map]
  have hlast := prefixNoCase_getElem hhead (k := name.length) (by simp)
  rw [getElem_concat_length rfl, toLower_eq_equals.2 rfl, hlen] at hlast
  obtain ⟨c, hc, hlow⟩ := map_eq_some_iff.1 hlast
  obtain rfl := toLower_eq_equals.1 hlow
  cases m with
  | nil => exact absurd (some.inj hc) (by decide)
  | cons d m =>
    rw [length_cons, getElem?_cons_succ, getElem?_append_left (by simp)] at hc
    exact hm (mem_of_getElem? hc)

theorem padded_head (hlen : name.length = 127) (hn : isNamed name p = true)
    (hhead : hasPrefixNoCase name (question :: p) = true) : Padded (p.drop 126) p := by
  -- the name is its own beginning one byte later
  have hshift : ∀ k, k < 127 → p[k]?.map toLower = (question :: p)[k]?.map toLower := by
    intro k hk
    have hat := prefixNoCase_getElem (isNamed_start hn) (k := k) (by simp; omega)
    have hbefore := prefixNoCase_getElem hhead (k := k) (by omega)
    rw [getElem_append_left (by omega)] at hat
    exact hat.trans hbefore.symm
  have hlower : ∀ k, k < 127 → p[k]?.map toLower = some question := by
    intro k hk
    induction k with
    | zero => exact hshift 0 hk
    | succ k ih => exact (hshift (k + 1) hk).trans (ih (by omega))
  have hlast : p[126]? = some question := by
    obtain ⟨c, hc, hlow⟩ := map_eq_some_iff.1 (hlower 126 (by omega))
    rw [hc, toLower_eq_question.1 hlow]
  refine ⟨[question, equals], cons_ne_nil _ _, by simp, ?_⟩
  obtain ⟨hlt, hget⟩ := List.getElem?_eq_some_iff.1 hlast
  have hrest := drop_name hn
  rw [hlen] at hrest
  rw [drop_eq_getElem_cons hlt, hget, hrest]
  rfl

end Head

theorem seekNameOf_length (h : seekNameOf l = some name) : name.length ≤ 127 := by
  rcases or_eq_some_iff.1 h with h | ⟨-, h⟩
  · obtain ⟨p, -, h⟩ := bind_eq_some_iff.1 h
    unfold readValue at h
    split at h
    · cases h
    rename_i hfit
    cases hv : httpUrlDecode (parameterValue p) with
    | none =>
      rw [hv] at h
      cases h
    | some v =>
      rw [hv] at h
      obtain rfl := some.inj h
      have hdecode := Lib.PercentCoding.length_decode_le hv
      have hcstr : (cstr v).length ≤ v.length := ( takeWhile_prefix _).length_le
      omega
  · have hat : ∀ (i n : ℕ) (starts : Bool) (qs : Bytes),
        (if starts then some ((qs.drop i).take n) else none) = some name → name.length ≤ n := by
      intro i n starts qs hn
      split at hn
      · obtain rfl := some.inj hn
        exact length_take_le _ _
      · cases hn
    unfold heuristicSeekName at h
    dsimp only at h
    split at h
    · rename_i hplayseek
      obtain rfl := some.inj h
      obtain ⟨i, -, hi⟩ := bind_eq_some_iff.1 hplayseek
      exact Nat.le_trans (hat _ _ _ _ hi) (by decide)
    · obtain ⟨i, -, hi⟩ := bind_eq_some_iff.1 h
      exact Nat.le_trans (hat _ _ _ _ hi) (by decide)

/-- A query in which the search finds anything holds a parameter of the name, if what is
    read is what the name means. -/
theorem named_of_value (hne : values ≠ []) (h : selectedValue values = seekValueOf name l) :
    ∃ p ∈ l, isNamed name p = true := by
  by_contra hno
  have hnone : seekValueOf name l = none := by
    refine seekValueOf_eq_none fun p hp => ?_
    rw [← Bool.not_eq_true]
    exact fun hn => hno ⟨p, hp, hn⟩
  obtain ⟨v, vs, rfl⟩ := exists_cons_of_ne_nil hne
  rw [hnone, selectedValue_eq, head?_cons] at h
  cases hfind : (v :: vs).find? fun v => 0x7B ∉ v ∧ 0x7D ∉ v <;> rw [hfind] at h <;> cases h

theorem safe_of_extractSeek {params : List Bytes} (hsep : Separated params)
    (hlen : name.length ≤ 127) (hvalues : seekValues (queryText params) (seekPattern name)
      ((queryText params).length + 1) 0 = some values)
    (hrest : (if values = [] then queryText params
      else removeSeekParams (seekPattern name) ((queryText params).length + 1) 0
        (queryText params)) = queryText (others [name] params))
    (hvalue : selectedValue values = seekValueOf name params) : SeekNameSafe name params := by
  have hne := seekPattern_ne_nil name
  by_cases hsilent : nextStop (queryText params) (seekPattern name)
      ((queryText params).length + 1) 0 = none
  · exact .inl hsilent
  have hsome : values ≠ [] := by
    rintro rfl
    exact hsilent (nextStop_of_values hvalues)
  obtain ⟨q, hq, hqn⟩ := named_of_value hsome hvalue
  obtain ⟨hamp, heq⟩ := isNamed_name (hsep q hq) hqn
  have hpattern := seekPattern_ampersand hamp
  rw [if_neg hsome] at hrest
  have hselected := @selectedValue_extends values
  right
  cases hhead : hasPrefixNoCase (seekPattern name) (queryText params) with
  | true =>
    exfalso
    obtain ⟨p, l, rfl⟩ := exists_cons_of_ne_nil (ne_nil_of_mem hq)
    have hall : others [name] (p :: l) = [] := by
      rcases head?_queryText (others [name] (p :: l)) with hq | ⟨-, hnil⟩
      · rw [← hrest] at hq
        rcases removeSeekParams_head hne hpattern hsep hhead
          (queryText (p :: l)).length with h | ⟨s, h⟩
        · rw [h] at hq
          cases hq
        · rw [h] at hq
          exact absurd (some.inj hq) (by decide)
      · exact hnil
    have hnamed : ∀ x ∈ p :: l, isNamed name x = true := by
      rw [others_single, filter_eq_nil_iff] at hall
      simpa using hall
    have hp := hnamed p mem_cons_self
    have hstart : hasPrefixNoCase (seekPattern name) (question :: p) = true := by
      rw [← prefixNoCase_behind hpattern _ l]
      exact (congrArg _ (queryText_at [] p l)).symm.trans hhead
    rcases Nat.lt_or_ge name.length 127 with hshort | hlong
    · rw [seekPattern_short (by omega)] at hstart
      rw [head_not_named hstart] at hp
      cases hp
    · have hlen127 : name.length = 127 := by omega
      rw [seekValues_head hne hpattern hsep hhead, seekPattern_long hlen127, hlen127] at hvalues
      rw [seekPattern_long hlen127] at hstart
      have hpadded := padded_found hlen127 (l := l) fun x hx hn => by
        rw [hnamed x (mem_cons_of_mem _ hx)] at hn
        cases hn
      rw [seekPattern_long hlen127] at hpadded
      have hall : List.Forall₂ Padded (p.drop (127 - 1) :: l.filterMap (foundValue name))
          ((p :: l).filter (isNamed name)) := by
        rw [filter_cons_of_pos hp]
        exact List.Forall₂.cons (padded_head hlen127 hp hstart) hpadded
      exact hselected hsome (extends_of_padded hall hvalues) hvalue
  | false =>
    rw [removeSeekParams_first hne hpattern hsep hhead] at hrest
    have hstops := stops_of_rest hrest
    rw [seekValues_first hne hpattern (ne_nil_of_mem hq) hsep hhead] at hvalues
    have hshort : name.length ≤ 126 := by
      by_contra hlong
      have hpadded := padded_found (by omega) hstops
      exact hselected hsome (extends_of_padded hpadded hvalues) hvalue
    refine ⟨hshort, hamp, heq, by rwa [← seekPattern_short hshort], ?_⟩
    intro p hp hn u v hsplit
    rw [← Bool.not_eq_true]
    intro hpre
    subst hsplit
    exact stopIn_ne_none hshort heq hpre (hstops _ hp hn)

/-! ## What is taken out -/

def parameters (body : Bytes) : List Bytes := body.splitOn ampersand

/-- The control parameters of a query are taken out, and nothing else is. -/
structure ControlsTakenOut (body : Bytes) (seek : SeekParams) : Prop where
  seekName : seek.paramName = seekNameOf (parameters body)
  seekOffset : (extractQueryParam (extractQueryParam (question :: body)
      (ascii "r2h-seek-name") 128).1 (ascii "r2h-seek-offset") 32).2.toOption =
    firstValue (ascii "r2h-seek-offset") 32 (parameters body)
  seekMode : (extractQueryParam (extractQueryParam (extractQueryParam (question :: body)
      (ascii "r2h-seek-name") 128).1 (ascii "r2h-seek-offset") 32).1
      (ascii "r2h-seek-mode") 96).2.toOption =
    firstValue (ascii "r2h-seek-mode") 96 (parameters body)
  seekRest : (serviceExtractSeekParams (question :: body)).1 =
    queryText (others (seekControls ++ seek.paramName.toList) (parameters body))
  seekValue : seek.paramValue = seek.paramName.bind fun name =>
    seekValueOf name (others seekControls (parameters body))
  rest : (extractControls (question :: body)).1 =
    queryText (others (seekControls ++ seek.paramName.toList ++ serviceControls) (parameters body))
  ifname : (extractControls (question :: body)).2.2.1 =
    firstValue (ascii "r2h-ifname") 16 (others seek.paramName.toList (parameters body))
  ifnameFcc : (extractControls (question :: body)).2.2.2 =
    firstValue (ascii "r2h-ifname-fcc") 16 (others seek.paramName.toList (parameters body))

theorem isNamed_unique {name' p : Bytes} (h : isNamed name p = true)
    (h' : isNamed name' p = true) : name.map toLower = name'.map toLower := by
  unfold isNamed at h h'
  rw [Bool.and_eq_true, decide_eq_true_eq, decide_eq_true_eq] at h h'
  exact h.2.symm.trans h'.2

theorem firstValue_others {names : List Bytes}
    (h : ∀ n ∈ names, n.map toLower ≠ name.map toLower) (outSize : ℕ) (l : List Bytes) :
    firstValue name outSize (others names l) = firstValue name outSize l := by
  have hfind : (others names l).find? (isNamed name) = l.find? (isNamed name) := by
    unfold others
    rw [find?_filter]
    congr 1
    funext p
    rw [Bool.eq_iff_iff]
    constructor
    · intro hp
      simp only [decide_eq_true_eq] at hp
      exact hp.2
    · intro hp
      simp only [decide_eq_true_eq]
      refine ⟨List.all_eq_true.2 fun n hn => ?_, hp⟩
      rw [Bool.not_eq_true', ← Bool.not_eq_true]
      exact fun hn' => h n hn (isNamed_unique hn' hp)
  rw [firstValue, hfind, firstValue]

theorem others_comm (names names' l : List Bytes) :
    others names (others names' l) = others names' (others names l) := by
  rw [others_others, others_others]
  refine filter_congr fun p _ => ?_
  rw [all_append, all_append, Bool.and_comm]

/-- **Control parameters.** When `service_extract_seek_params` succeeds, the control
    parameters are taken out and nothing else is, with the values meant, exactly if the name
    of the seek parameter is safe. -/
theorem controlsTakenOut_iff {body : Bytes} {seek : SeekParams}
    (hseek : (serviceExtractSeekParams (question :: body)).2 = some seek) :
    ControlsTakenOut body seek ↔ ∀ name, seekNameOf (parameters body) = some name →
        SeekNameSafe name (others seekControls (parameters body)) := by
  have hl : Separated (parameters body) := separated_splitOn body
  have htext : question :: body = queryText (parameters body) := (queryText_splitOn body).symm
  constructor
  · intro h name hname
    have hrest := h.seekRest
    have hvalue := h.seekValue
    have hsep := hl.others seekControls
    rw [h.seekName, hname] at hrest hvalue
    rw [← others_others, htext, serviceExtractSeekParams_queryText hl, hname] at hrest
    rw [htext, serviceExtractSeekParams_queryText hl, hname] at hseek
    dsimp only at hseek hrest
    generalize others seekControls (parameters body) = params at *
    split at hseek
    · rename_i hempty
      rw [hempty]
      exact .inl (seekSearch_end (seekPattern_ne_nil name) rfl _)
    rename_i hempty
    rw [if_neg hempty] at hrest
    cases hread : seekValues (queryText params) (seekPattern name)
        ((queryText params).length + 1) 0 with
    | none =>
      rw [hread] at hseek
      cases hseek
    | some values =>
      rw [hread] at hseek hrest
      obtain rfl := some.inj hseek
      exact safe_of_extractSeek hsep (seekNameOf_length hname) hread hrest hvalue
  · intro h
    rw [htext] at hseek
    obtain ⟨hrest, hname, hvalue⟩ := extractSeek_of_safe hl hseek h
    have hcontrols := extractControls_of_seek hrest ((hl.others _).others _)
    have hdistinct : ∀ n ∈ [ascii "r2h-ifname-fcc"], n.map toLower ≠
        (ascii "r2h-ifname").map toLower := by decide +kernel
    have hdistinct' : ∀ n ∈ seekControls, n.map toLower ≠ (ascii "r2h-ifname").map toLower := by
      decide +kernel
    have hdistinct'' : ∀ n ∈ seekControls,
        n.map toLower ≠ (ascii "r2h-ifname-fcc").map toLower := by decide +kernel
    have hoffset : ∀ n ∈ [ascii "r2h-seek-name"],
        n.map toLower ≠ (ascii "r2h-seek-offset").map toLower := by decide +kernel
    have hmode : ∀ n ∈ [ascii "r2h-seek-name"] ++ [ascii "r2h-seek-offset"],
        n.map toLower ≠ (ascii "r2h-seek-mode").map toLower := by decide +kernel
    refine ⟨hname, ?_, ?_, ?_, hvalue, ?_, ?_, ?_⟩
    · rw [htext, extract_rest (by decide +kernel) (by decide +kernel) hl,
        extract_value (by decide +kernel) (by decide +kernel) (hl.others _),
        firstValue_others hoffset]
    · rw [htext, extract_rest (by decide +kernel) (by decide +kernel) hl,
        extract_rest (by decide +kernel) (by decide +kernel) (hl.others _), others_others,
        extract_value (by decide +kernel) (by decide +kernel) (hl.others _),
        firstValue_others hmode]
    · rw [htext, hrest, others_others]
    · rw [htext, hcontrols, others_others, others_others, append_assoc]
    · rw [htext, hcontrols]
      dsimp only
      rw [firstValue_others hdistinct, others_comm, firstValue_others hdistinct']
    · rw [htext, hcontrols]
      dsimp only
      rw [others_comm, firstValue_others hdistinct'']

/-- A repeated seek parameter among others: the one without a brace counts. -/
theorem controlsTakenOut_repeated :
    ControlsTakenOut (ascii "playseek=%7Bb%7D&a=1&PlaySeek=2&r2h-token=t")
      ⟨some (ascii "playseek"), some (ascii "2")⟩ :=
  (controlsTakenOut_iff (by decide +kernel)).2 fun name hname => by
    have hplayseek : seekNameOf (parameters
        (ascii "playseek=%7Bb%7D&a=1&PlaySeek=2&r2h-token=t")) = some (ascii "playseek") := by
      decide +kernel
    obtain rfl := some.inj (hplayseek.symm.trans hname)
    refine .inr ⟨by decide +kernel, by decide +kernel, by decide +kernel, by decide +kernel, ?_⟩
    intro p hp _ u v hsplit
    have hno : ∀ p ∈ others seekControls (parameters
        (ascii "playseek=%7Bb%7D&a=1&PlaySeek=2&r2h-token=t")), question ∉ p := by
      decide +kernel
    exact absurd (hsplit ▸ by simp) (hno p hp)

/-- A seek parameter of the URL in another parameter is taken for one of the query, and the
    value that is read is its value. -/
theorem inner_query_cut : (serviceExtractSeekParams
        (ascii "?r2h-seek-name=playseek&u=http://x/?playseek=1&playseek=2")).2 =
      some ⟨some (ascii "playseek"), some (ascii "1")⟩ ∧
    (extractControls (ascii "?r2h-seek-name=playseek&u=http://x/?playseek=1&playseek=2")).1 =
      ascii "?u=http://x/" ∧
    ¬ ControlsTakenOut (ascii "r2h-seek-name=playseek&u=http://x/?playseek=1&playseek=2")
        ⟨some (ascii "playseek"), some (ascii "1")⟩ := by
  refine ⟨by decide +kernel, by decide +kernel, fun h => ?_⟩
  have hrest := h.rest
  revert hrest
  decide +kernel

end Apackage.Rtp2httpd
