import Apackage.Rtp2httpd.Proxy.Parameters
import Apackage.Rtp2httpd.Proxy.Service

/-
  The search for the seek parameter (`service_extract_seek_params` in `service.c`).

  `nextStop` is the search both loops make: the next occurrence of the pattern that stands at the
  head of the query, behind a `?` or behind an `&`. In a query made of parameters a pattern without
  `&` is found within the single parameters (`stopIn`). The first loop reads the text behind each
  stop, the second takes out what stands from the stop to the end of the parameter; a stop behind a
  `?` within a parameter leaves the part before the `?`.
-/

namespace Apackage.Rtp2httpd

open List Option

/-- The search of both loops: occurrences inside a parameter are passed over, and the loop
    does its work at the first other one. -/
def seekSearch {α : Type} (qs pattern : Bytes) (ends : α) (stops : ℕ → ℕ → α) : ℕ → ℕ → α
  | 0, _ => ends
  | n + 1, pos =>
    match strcasestr pattern (qs.drop pos) with
    | none => ends
    | some i =>
      if insideParam qs (pos + i) then
        seekSearch qs pattern ends stops n (pos + i + pattern.length)
      else stops n (pos + i)

def nextStop (qs pattern : Bytes) (n pos : ℕ) : Option ℕ :=
  seekSearch qs pattern none (fun _ k => some k) n pos

/-- Where the search stops in a parameter. -/
def stopIn (pattern p : Bytes) : Option ℕ :=
  (nextStop (ampersand :: p) pattern (p.length + 1) 1).map (· - 1)

/-- What the second loop leaves of a parameter. -/
def keptPart (pattern p : Bytes) : Option Bytes :=
  match stopIn pattern p with
  | none => some p
  | some 0 => none
  | some (k + 1) => some (p.take k)

/-- What the first loop reads in a parameter. -/
def foundValue (pattern p : Bytes) : Option Bytes :=
  (stopIn pattern p).map fun k => p.drop (k + pattern.length)

def decoded (value : Bytes) : Option Bytes := (httpUrlDecode value).map cstr

variable {pattern : Bytes}

/-! ## Occurrences -/

/-- A pattern without `&` does not go on behind the end of a parameter. -/
theorem prefixNoCase_behind (hamp : ampersand ∉ pattern) (x : Bytes)
    (l : List Bytes) : hasPrefixNoCase pattern (x ++ behind l) = hasPrefixNoCase pattern x := by
  cases l with
  | nil => rw [behind_nil, append_nil]
  | cons p l =>
    rw [Bool.eq_iff_iff, behind_cons]
    refine ⟨fun h => ?_, fun h => prefixNoCase_append h _⟩
    refine prefixNoCase_of_append (fun k hk he => ?_) h
    exact hamp (toLower_eq_ampersand.1 he ▸ hk)

theorem not_prefixNoCase_ampersand (hne : pattern ≠ []) (hamp : ampersand ∉ pattern)
    (s : Bytes) : hasPrefixNoCase pattern (ampersand :: s) = false := by
  obtain ⟨k, rest, rfl⟩ := exists_cons_of_ne_nil hne
  rw [hasPrefixNoCase, Bool.and_eq_false_iff, decide_eq_false_iff_not]
  left
  intro h
  exact hamp (toLower_eq_ampersand.1 h ▸ mem_cons_self)

theorem strcasestr_cons_of_not {c : UInt8} {s : Bytes}
    (h : hasPrefixNoCase pattern (c :: s) = false) :
    strcasestr pattern (c :: s) = (strcasestr pattern s).map (· + 1) := by
  rw [strcasestr, h, if_neg Bool.false_ne_true]

theorem strcasestr_behind (hne : pattern ≠ []) (hamp : ampersand ∉ pattern) (x : Bytes)
    (l : List Bytes) :
    strcasestr pattern (x ++ behind l) = match strcasestr pattern x with
      | some i => some i
      | none => (strcasestr pattern (behind l)).map (· + x.length) := by
  induction x with
  | nil =>
    have hnil : strcasestr pattern [] = none := if_neg hne
    rw [nil_append, hnil]
    cases strcasestr pattern (behind l) <;> rfl
  | cons c x ih =>
    have hhead := prefixNoCase_behind hamp (c :: x) l
    rw [cons_append] at hhead ⊢
    rw [strcasestr, strcasestr, hhead, ih]
    split
    · rfl
    · cases strcasestr pattern x with
      | some i => rfl
      | none => cases strcasestr pattern (behind l) <;> simp [Nat.add_assoc]

theorem strcasestr_length {s : Bytes} {i : ℕ} (hne : pattern ≠ [])
    (h : strcasestr pattern s = some i) : i + pattern.length ≤ s.length := by
  have hlen := prefixNoCase_length (strcasestr_starts h)
  have hpos := length_pos_of_ne_nil hne
  rw [length_drop] at hlen
  omega

theorem strcasestr_nil (hne : pattern ≠ []) : strcasestr pattern [] = none := if_neg hne

/-! ## The search -/

variable {qs : Bytes}

theorem seekValues_eq (n pos : ℕ) : seekValues qs pattern n pos = seekSearch qs pattern (some [])
        (fun n k =>
          let value := valueAt qs (k + pattern.length)
          (decoded value).bind fun v =>
            (seekValues qs pattern n (k + pattern.length + value.length)).map (v :: ·)) n pos := by
  induction n generalizing pos with
  | zero => rfl
  | succ n ih =>
    rw [seekValues, seekSearch]
    cases strcasestr pattern (qs.drop pos) with
    | none => rfl
    | some i =>
      dsimp only
      split
      · exact ih _
      · unfold decoded
        cases httpUrlDecode (valueAt qs (pos + i + pattern.length)) <;> rfl

/-- The second loop takes out the text from the stop to the end of the parameter, and goes
    on where it stood. -/
theorem removeSeekParams_eq (n pos : ℕ) (hpos : 1 ≤ pos) : removeSeekParams pattern n pos qs =
      seekSearch qs pattern qs
        (fun n k =>
          let valueEnd := k + (valueAt qs k).length
          if qs[valueEnd]? = some ampersand then
            removeSeekParams pattern n (max 1 (k - 1)) (removeQueryParam qs k valueEnd)
          else removeQueryParam qs k valueEnd) n pos := by
  induction n generalizing pos with
  | zero => rfl
  | succ n ih =>
    rw [removeSeekParams, seekSearch]
    cases strcasestr pattern (qs.drop pos) with
    | none => rfl
    | some i =>
      dsimp only
      split
      · exact ih _ (by omega)
      · unfold removeQueryParam
        by_cases hone : pos + i = 1
        · rw [if_pos hone, if_pos hone, if_pos hone, if_neg (by omega : ¬ 1 < pos + i), hone]
          split
          · rfl
          · rfl
        · rw [if_neg hone, if_neg hone, if_neg hone, if_pos (by omega : 1 < pos + i),
            max_eq_right (by omega : 1 ≤ pos + i - 1)]
          split
          · rfl
          · rfl

variable {α : Type} {stops : ℕ → ℕ → α} {ends : α}

theorem seekSearch_none {n pos : ℕ} (h : nextStop qs pattern n pos = none) :
    seekSearch qs pattern ends stops n pos = ends := by
  induction n generalizing pos with
  | zero => rfl
  | succ n ih =>
    rw [nextStop, seekSearch] at h
    rw [seekSearch]
    cases hi : strcasestr pattern (qs.drop pos) with
    | none => rfl
    | some i =>
      rw [hi] at h
      dsimp only at h ⊢
      split at h
      · rename_i hin
        rw [if_pos hin]
        exact ih h
      · cases h

theorem seekSearch_some {n pos k : ℕ} (h : nextStop qs pattern n pos = some k) :
    ∃ m, seekSearch qs pattern ends stops n pos = stops m k := by
  induction n generalizing pos with
  | zero => cases h
  | succ n ih =>
    rw [nextStop, seekSearch] at h
    rw [seekSearch]
    cases hi : strcasestr pattern (qs.drop pos) with
    | none =>
      rw [hi] at h
      cases h
    | some i =>
      rw [hi] at h
      dsimp only at h ⊢
      split at h
      · rename_i hin
        rw [if_pos hin]
        exact ih h
      · rename_i hin
        rw [if_neg hin]
        exact ⟨n, by rw [some.inj h]⟩

theorem nextStop_of_values {n pos : ℕ} (h : seekValues qs pattern n pos = some []) :
    nextStop qs pattern n pos = none := by
  cases hk : nextStop qs pattern n pos with
  | none => rfl
  | some k =>
    rw [seekValues_eq, (seekSearch_some hk).choose_spec] at h
    obtain ⟨v, -, hv⟩ := bind_eq_some_iff.1 h
    obtain ⟨vs, -, hvs⟩ := map_eq_some_iff.1 hv
    cases hvs

theorem nextStop_bounds (hne : pattern ≠ []) {n pos k : ℕ}
    (h : nextStop qs pattern n pos = some k) :
    pos ≤ k ∧ k + pattern.length ≤ qs.length ∧ insideParam qs k = false ∧
      hasPrefixNoCase pattern (qs.drop k) = true := by
  induction n generalizing pos with
  | zero => cases h
  | succ n ih =>
    rw [nextStop, seekSearch] at h
    split at h
    · cases h
    rename_i i hi
    split at h
    · have hrest := ih h
      exact ⟨by omega, hrest.2⟩
    · rename_i hin
      obtain rfl := some.inj h
      have hlen := strcasestr_length hne hi
      have hpos := length_pos_of_ne_nil hne
      have hstart := strcasestr_starts hi
      rw [drop_drop] at hstart
      rw [length_drop] at hlen
      exact ⟨by omega, by omega, by simpa using hin, hstart⟩

theorem seekSearch_end (hne : pattern ≠ []) {pos : ℕ} (h : qs.drop pos = []) (n : ℕ) :
    seekSearch qs pattern ends stops n pos = ends := by
  cases n with
  | zero => rfl
  | succ n => rw [seekSearch, h, strcasestr_nil hne]

theorem seekSearch_pass (hne : pattern ≠ []) {n pos : ℕ}
    (h : hasPrefixNoCase pattern (qs.drop pos) = false) :
    seekSearch qs pattern ends stops n pos = seekSearch qs pattern ends stops n (pos + 1) := by
  by_cases hlt : pos < qs.length
  · cases n with
    | zero => rfl
    | succ n =>
      rw [seekSearch, seekSearch]
      have hcons : qs.drop pos = qs[pos] :: qs.drop (pos + 1) := drop_eq_getElem_cons hlt
      rw [hcons] at h ⊢
      rw [strcasestr_cons_of_not h]
      cases strcasestr pattern (qs.drop (pos + 1)) with
      | none => rfl
      | some i => simp only [map_some, Nat.add_assoc, Nat.add_comm 1]
  · rw [seekSearch_end hne (drop_eq_nil_iff.2 (by omega)),
      seekSearch_end hne (drop_eq_nil_iff.2 (by omega))]

/-! ## Within a parameter -/

variable (l₁ : List Bytes)

theorem insideParam_parameter (p : Bytes) (l₂ : List Bytes) {i : ℕ} (hi : i ≤ p.length) :
    insideParam (queryText (l₁ ++ p :: l₂)) ((before l₁).length + 1 + i) =
      insideParam (ampersand :: p) (1 + i) := by
  cases i with
  | zero =>
    have hstart : (queryText (l₁ ++ p :: l₂))[(before l₁).length]? = some question ∨
        (queryText (l₁ ++ p :: l₂))[(before l₁).length]? = some ampersand := by
      rw [queryText_at]
      by_cases hl : l₁ = []
      · subst hl
        exact .inl rfl
      · right
        rw [before_eq hl, length_append, length_singleton, getElem?_cons_succ,
          append_assoc, getElem?_append_right (Nat.le_refl _), Nat.sub_self]
        rfl
    have hleft : insideParam (ampersand :: p) (1 + 0) = false := by simp [insideParam]
    rw [hleft]
    unfold insideParam
    rw [Nat.add_zero, Nat.add_sub_cancel]
    rcases hstart with h | h <;> simp [h]
  | succ i =>
    have hprev : (queryText (l₁ ++ p :: l₂))[(before l₁).length + 1 + i]? = p[i]? := by
      have hdrop := drop_parameter l₁ p l₂ (Nat.le_of_succ_le hi)
      have hhead := congrArg List.head? hdrop
      have hsome : p.drop i ≠ [] := by
        rw [Ne, drop_eq_nil_iff]
        omega
      rw [head?_drop, head?_append_of_ne_nil _ hsome, head?_drop] at hhead
      exact hhead
    unfold insideParam
    rw [← Nat.add_assoc, Nat.add_sub_cancel, hprev, Nat.add_sub_cancel_left,
      getElem?_cons_succ, decide_eq_true (Nat.succ_pos _ : 0 < _ + 1),
      decide_eq_true (by omega : 0 < 1 + (i + 1))]

/-- The search within a parameter of a query is the search in the parameter alone: where
    this stops it stops, and else it goes on behind the parameter. -/
theorem search_within (hne : pattern ≠ []) (hamp : ampersand ∉ pattern) (l₁ : List Bytes)
    (p : Bytes) (l₂ : List Bytes) {m n j : ℕ} (hj : j ≤ p.length)
    (hm : (ampersand :: p).length < m + (1 + j))
    (hn : (queryText (l₁ ++ p :: l₂)).length < n + ((before l₁).length + 1 + j)) :
    match nextStop (ampersand :: p) pattern m (1 + j) with
    | some k => ∃ n', (queryText (l₁ ++ p :: l₂)).length ≤ n' + ((before l₁).length + k) ∧
        ∀ (α : Type) (ends : α) (stops : ℕ → ℕ → α),
          seekSearch (queryText (l₁ ++ p :: l₂)) pattern ends stops n
            ((before l₁).length + 1 + j) = stops n' ((before l₁).length + k)
    | none => ∃ n', (queryText (l₁ ++ p :: l₂)).length < n' + ((before l₁).length + 1 + p.length) ∧
        ∀ (α : Type) (ends : α) (stops : ℕ → ℕ → α),
          seekSearch (queryText (l₁ ++ p :: l₂)) pattern ends stops n ((before l₁).length + 1 + j) =
          seekSearch (queryText (l₁ ++ p :: l₂)) pattern ends stops n'
            ((before l₁).length + 1 + p.length) := by
  have hpos := length_pos_of_ne_nil hne
  have hend := drop_parameter l₁ p l₂ (Nat.le_refl p.length)
  have hlen : (before l₁).length + 1 + p.length ≤ (queryText (l₁ ++ p :: l₂)).length := by
    rw [queryText_at, length_cons, length_append, length_append]
    omega
  rw [drop_length, nil_append] at hend
  induction m generalizing j n with
  | zero =>
    rw [length_cons] at hm
    omega
  | succ m ih =>
    obtain ⟨n, rfl⟩ : ∃ k, n = k + 1 := ⟨n - 1, by omega⟩
    have hsearch : strcasestr pattern ((queryText (l₁ ++ p :: l₂)).drop
        ((before l₁).length + 1 + j)) = match strcasestr pattern (p.drop j) with
          | some i => some i
          | none => (strcasestr pattern (behind l₂)).map (· + (p.drop j).length) := by
      rw [drop_parameter l₁ p l₂ hj, strcasestr_behind hne hamp]
    have halone : (ampersand :: p).drop (1 + j) = p.drop j := by rw [Nat.add_comm, drop_succ_cons]
    unfold nextStop
    rw [seekSearch, halone]
    cases hi : strcasestr pattern (p.drop j) with
    | none =>
      rw [hi] at hsearch
      refine ⟨n + 1, by omega, fun α ends stops => ?_⟩
      rw [seekSearch, seekSearch, hsearch, hend]
      cases strcasestr pattern (behind l₂) with
      | none => rfl
      | some i =>
        have hplace : (before l₁).length + 1 + j + (i + (p.drop j).length) =
            (before l₁).length + 1 + p.length + i := by
          rw [length_drop]
          omega
        simp only [map_some, hplace]
    | some i =>
      rw [hi] at hsearch
      have hin := strcasestr_length hne hi
      rw [length_drop] at hin
      have hinside := insideParam_parameter l₁ p l₂ (by omega : j + i ≤ p.length)
      dsimp only
      rw [Nat.add_assoc 1 j i]
      by_cases hpass : insideParam (ampersand :: p) (1 + (j + i)) = true
      · rw [if_pos hpass, Nat.add_assoc 1 (j + i)]
        have hrest := ih (j := j + i + pattern.length) (n := n) (by omega) (by omega) (by omega)
        have hskip : ∀ (α : Type) (ends : α) (stops : ℕ → ℕ → α),
            seekSearch (queryText (l₁ ++ p :: l₂)) pattern ends stops (n + 1)
              ((before l₁).length + 1 + j) =
            seekSearch (queryText (l₁ ++ p :: l₂)) pattern ends stops n
              ((before l₁).length + 1 + (j + i + pattern.length)) := by
          intro α ends stops
          rw [seekSearch, hsearch]
          dsimp only
          rw [Nat.add_assoc ((before l₁).length + 1) j i, hinside, if_pos hpass,
            Nat.add_assoc _ (j + i)]
        simp only [hskip]
        exact hrest
      · rw [if_neg hpass]
        refine ⟨n, by omega, fun α ends stops => ?_⟩
        rw [seekSearch, hsearch]
        dsimp only
        rw [Nat.add_assoc ((before l₁).length + 1) j i, hinside, if_neg hpass]
        exact congrArg (stops n) (by omega)

variable {p : Bytes}

theorem stopIn_eq_some (hne : pattern ≠ []) {k : ℕ} : stopIn pattern p = some k ↔
      nextStop (ampersand :: p) pattern (p.length + 1) 1 = some (k + 1) := by
  unfold stopIn
  rw [map_eq_some_iff]
  constructor
  · rintro ⟨k', hk', rfl⟩
    have hpos := (nextStop_bounds hne hk').1
    rw [hk', Nat.sub_add_cancel hpos]
  · tauto

theorem stopIn_eq_none :
    stopIn pattern p = none ↔ nextStop (ampersand :: p) pattern (p.length + 1) 1 = none := by
  rw [stopIn, map_eq_none_iff]

theorem stopIn_occurrence (hne : pattern ≠ []) {k : ℕ} (h : stopIn pattern p = some k) :
    k + pattern.length ≤ p.length ∧ hasPrefixNoCase pattern (p.drop k) = true := by
  obtain ⟨-, hlen, -, hprefix⟩ := nextStop_bounds hne ((stopIn_eq_some hne).1 h)
  rw [length_cons] at hlen
  exact ⟨by omega, hprefix⟩

/-- A stop that is not the beginning of the parameter is behind a `?`. -/
theorem stopIn_succ (hne : pattern ≠ []) (hp : ampersand ∉ p) {k : ℕ}
    (h : stopIn pattern p = some (k + 1)) : ∃ u v, p = u ++ question :: v ∧ u.length = k := by
  obtain ⟨-, -, hinside, -⟩ := nextStop_bounds hne ((stopIn_eq_some hne).1 h)
  have hprev : p[k]? = some question := by
    unfold insideParam at hinside
    rw [Nat.add_sub_cancel, getElem?_cons_succ] at hinside
    have hamp : p[k]? ≠ some ampersand := fun h => hp (mem_of_getElem? h)
    by_contra hq
    simp [hamp, hq] at hinside
  obtain ⟨hlt, hget⟩ := List.getElem?_eq_some_iff.1 hprev
  refine ⟨p.take k, p.drop (k + 1), ?_, length_take_of_le (Nat.le_of_lt hlt)⟩
  rw [← hget, ← drop_eq_getElem_cons hlt, take_append_drop]

variable {n : ℕ}

theorem search_parameter (hne : pattern ≠ []) (hamp : ampersand ∉ pattern) (l₁ : List Bytes)
    (p : Bytes) (l₂ : List Bytes)
    (hn : (queryText (l₁ ++ p :: l₂)).length < n + ((before l₁).length + 1)) :
    match stopIn pattern p with
    | some k => ∃ n', (queryText (l₁ ++ p :: l₂)).length ≤ n' + ((before l₁).length + 1 + k) ∧
        ∀ (α : Type) (ends : α) (stops : ℕ → ℕ → α),
          seekSearch (queryText (l₁ ++ p :: l₂)) pattern ends stops n ((before l₁).length + 1) =
            stops n' ((before l₁).length + 1 + k)
    | none => ∃ n', (queryText (l₁ ++ p :: l₂)).length < n' + ((before l₁).length + 1 + p.length) ∧
        ∀ (α : Type) (ends : α) (stops : ℕ → ℕ → α),
          seekSearch (queryText (l₁ ++ p :: l₂)) pattern ends stops n ((before l₁).length + 1) =
          seekSearch (queryText (l₁ ++ p :: l₂)) pattern ends stops n'
            ((before l₁).length + 1 + p.length) := by
  have hwithin := search_within hne hamp l₁ p l₂ (m := p.length + 1) (j := 0) (Nat.zero_le _)
    (Nat.lt_succ_self _) hn
  cases hstop : stopIn pattern p with
  | none =>
    rw [stopIn_eq_none.1 hstop] at hwithin
    exact hwithin
  | some k =>
    rw [(stopIn_eq_some hne).1 hstop] at hwithin
    dsimp only at hwithin ⊢
    rw [Nat.add_assoc _ 1 k, Nat.add_comm 1 k]
    exact hwithin

/-! ## The two loops -/

theorem search_next (hne : pattern ≠ []) (hamp : ampersand ∉ pattern) (l₁ : List Bytes) (p : Bytes)
    (l₂ : List Bytes) (n : ℕ) :
    seekSearch (queryText (l₁ ++ p :: l₂)) pattern ends stops n
        ((before l₁).length + 1 + p.length) =
      seekSearch (queryText (l₁ ++ p :: l₂)) pattern ends stops n
        ((before (l₁ ++ [p])).length + 1) := by
  have hdrop := drop_parameter l₁ p l₂ (Nat.le_refl p.length)
  rw [drop_length, nil_append] at hdrop
  rw [before_concat_length]
  refine seekSearch_pass hne ?_
  rw [hdrop]
  cases l₂ with
  | nil =>
    obtain ⟨k, rest, rfl⟩ := exists_cons_of_ne_nil hne
    rfl
  | cons q l₂ => exact not_prefixNoCase_ampersand hne hamp _

theorem seekValues_parameter (hne : pattern ≠ []) (hamp : ampersand ∉ pattern) (l₁ : List Bytes)
    (hp : ampersand ∉ p) (l₂ : List Bytes) {rest : Option (List Bytes)}
    (hrest : ∀ n, (queryText (l₁ ++ p :: l₂)).length < n + ((before l₁).length + 1 + p.length) →
      seekValues (queryText (l₁ ++ p :: l₂)) pattern n ((before l₁).length + 1 + p.length) = rest)
    (hn : (queryText (l₁ ++ p :: l₂)).length < n + ((before l₁).length + 1)) :
    seekValues (queryText (l₁ ++ p :: l₂)) pattern n ((before l₁).length + 1) =
      match foundValue pattern p with
      | some value => (decoded value).bind fun v => rest.map (v :: ·)
      | none => rest := by
  have hsearch := search_parameter hne hamp l₁ p l₂ hn
  rw [seekValues_eq, foundValue]
  cases hstop : stopIn pattern p with
  | none =>
    rw [hstop] at hsearch
    obtain ⟨n', hn', hsearch⟩ := hsearch
    rw [hsearch, ← seekValues_eq]
    exact hrest n' hn'
  | some k =>
    rw [hstop] at hsearch
    obtain ⟨n', hn', hsearch⟩ := hsearch
    have hlen := (stopIn_occurrence hne hstop).1
    have hpos := length_pos_of_ne_nil hne
    have hvalue := valueAt_parameter l₁ hp l₂ hlen
    have hend : (before l₁).length + 1 + (k + pattern.length) +
        (p.drop (k + pattern.length)).length = (before l₁).length + 1 + p.length := by
      rw [length_drop]
      omega
    rw [hsearch, map_some]
    dsimp only
    rw [Nat.add_assoc _ k, hvalue, hend, hrest n' (by omega)]

theorem decoded_values (found : Bytes → Option Bytes) (p : Bytes) (l : List Bytes) :
    ((p :: l).filterMap found).mapM decoded = match found p with
      | some value => (decoded value).bind fun v => ((l.filterMap found).mapM decoded).map (v :: ·)
      | none => (l.filterMap found).mapM decoded := by
  rw [filterMap_cons]
  cases found p with
  | none => rfl
  | some value =>
    dsimp only
    rw [mapM_cons]
    cases hv : decoded value with
    | none => rfl
    | some v => cases (l.filterMap found).mapM decoded <;> rfl

variable {l₂ : List Bytes}

theorem seekValues_behind (hne : pattern ≠ []) (hamp : ampersand ∉ pattern) (l₁ : List Bytes)
    (p : Bytes) (hsep : Separated l₂)
    (hn : (queryText (l₁ ++ p :: l₂)).length < n + ((before l₁).length + 1 + p.length)) :
    seekValues (queryText (l₁ ++ p :: l₂)) pattern n ((before l₁).length + 1 + p.length) =
      (l₂.filterMap (foundValue pattern)).mapM decoded := by
  induction l₂ generalizing l₁ p n with
  | nil =>
    have hdrop := drop_parameter l₁ p [] (Nat.le_refl p.length)
    rw [drop_length, behind_nil, append_nil] at hdrop
    rw [seekValues_eq, seekSearch_end hne hdrop]
    rfl
  | cons q l₂ ih =>
    have hlist : l₁ ++ p :: q :: l₂ = (l₁ ++ [p]) ++ q :: l₂ := by simp
    have hrest : Separated l₂ := hsep.sublist (sublist_cons_self _ _)
    rw [seekValues_eq, search_next hne hamp, ← seekValues_eq, decoded_values]
    rw [hlist] at hn ⊢
    refine seekValues_parameter hne hamp (l₁ ++ [p]) (hsep q mem_cons_self) l₂
      (fun m hm => ih (l₁ ++ [p]) q hrest hm) ?_
    rw [before_concat_length]
    omega

/-- The first loop reads the values of the parameters it stops in. -/
theorem seekValues_queryText (hne : pattern ≠ []) (hamp : ampersand ∉ pattern) {l : List Bytes}
    (hl : l ≠ []) (hsep : Separated l) (hn : (queryText l).length < n + 1) :
    seekValues (queryText l) pattern n 1 = (l.filterMap (foundValue pattern)).mapM decoded := by
  obtain ⟨p, l, rfl⟩ := exists_cons_of_ne_nil hl
  rw [decoded_values]
  exact seekValues_parameter hne hamp [] (hsep p mem_cons_self) l
    (fun m hm => seekValues_behind hne hamp [] p (hsep.sublist (sublist_cons_self _ _)) hm) hn

/-- Where the second loop goes on when it has left the parameters `l`. -/
def resume (l : List Bytes) : ℕ := max 1 (before l).length

theorem resume_concat (l : List Bytes) (p : Bytes) :
    resume (l ++ [p]) = (before l).length + 1 + p.length := by
  rw [resume, before_concat_length]
  omega

theorem search_resume (hne : pattern ≠ []) (hamp : ampersand ∉ pattern) (l₁ : List Bytes)
    (p : Bytes) (l₂ : List Bytes) (n : ℕ) :
    seekSearch (queryText (l₁ ++ p :: l₂)) pattern ends stops n (resume l₁) =
      seekSearch (queryText (l₁ ++ p :: l₂)) pattern ends stops n ((before l₁).length + 1) := by
  rcases eq_nil_or_concat l₁ with rfl | ⟨l, q, rfl⟩
  · rfl
  · have hlist : l ++ [q] ++ p :: l₂ = l ++ q :: p :: l₂ := by simp
    rw [concat_eq_append, resume_concat, hlist]
    exact search_next hne hamp l q (p :: l₂) n

theorem removeQueryParam_part (u v : Bytes) (l₂ : List Bytes) :
    removeQueryParam (queryText (l₁ ++ (u ++ question :: v) :: l₂))
      ((before l₁).length + 1 + (u.length + 1))
      ((before l₁).length + 1 + (u ++ question :: v).length) = queryText (l₁ ++ u :: l₂) := by
  have hdrop := drop_parameter l₁ (u ++ question :: v) l₂ (Nat.le_refl _)
  rw [drop_length, nil_append] at hdrop
  have htake : (queryText (l₁ ++ (u ++ question :: v) :: l₂)).take
      ((before l₁).length + 1 + (u.length + 1) - 1) = question :: (before l₁ ++ u) := by
    have hplace : (before l₁).length + 1 + (u.length + 1) - 1 = (before l₁ ++ u).length + 1 := by
      rw [length_append]
      omega
    rw [hplace, queryText_at, append_assoc, ← append_assoc, take_succ_cons, take_left]
  have hresult : question :: (before l₁ ++ u) ++ behind l₂ = queryText (l₁ ++ u :: l₂) := by
    rw [queryText_at]
    simp
  unfold removeQueryParam
  rw [parameter_end, if_neg (by omega), htake, hdrop]
  cases l₂ with
  | nil => rw [behind_nil, head?_nil, if_neg (by simp), ← hresult, behind_nil, append_nil]
  | cons q l₂ => rw [behind_cons, head?_cons, if_pos rfl, ← hresult, behind_cons]

theorem queryText_insert (p : Bytes) (l₂ : List Bytes) (h : l₁ ++ l₂ ≠ []) :
    (queryText (l₁ ++ p :: l₂)).length = (queryText (l₁ ++ l₂)).length + p.length + 1 := by
  rw [queryText_length h, queryText_length (by simp)]
  simp only [map_append, map_cons, sum_append, sum_cons, length_append, length_cons]
  omega

/-- The second loop leaves what `keptPart` says of each parameter. -/
theorem removeSeekParams_behind (hne : pattern ≠ []) (hamp : ampersand ∉ pattern) (l₁ : List Bytes)
    (hsep : Separated l₂) (hn : (queryText (l₁ ++ l₂)).length < n + resume l₁) :
    removeSeekParams pattern n (resume l₁) (queryText (l₁ ++ l₂)) =
      queryText (l₁ ++ l₂.filterMap (keptPart pattern)) := by
  have hone : ∀ l, 1 ≤ resume l := fun l => le_max_left _ _
  induction l₂ generalizing l₁ n with
  | nil =>
    have hdrop : (queryText (l₁ ++ [])).drop (resume l₁) = [] := by
      rw [drop_eq_nil_iff, append_nil]
      rcases eq_nil_or_concat l₁ with rfl | ⟨l, q, rfl⟩
      · exact Nat.zero_le _
      · rw [concat_eq_append, resume_concat, queryText_at, behind_nil, append_nil,
          length_cons, length_append]
        omega
    rw [removeSeekParams_eq _ _ (hone l₁), seekSearch_end hne hdrop]
    rfl
  | cons p l₂ ih =>
    have hp := hsep p mem_cons_self
    have hrest : Separated l₂ := hsep.sublist (sublist_cons_self _ _)
    have hstart : resume l₁ ≤ (before l₁).length + 1 := by
      unfold resume
      omega
    have hsearch := search_parameter hne hamp l₁ p l₂ (n := n) (by omega)
    have hpos := length_pos_of_ne_nil hne
    rw [removeSeekParams_eq _ _ (hone l₁), search_resume hne hamp, filterMap_cons, keptPart]
    cases hstop : stopIn pattern p with
    | none =>
      rw [hstop] at hsearch
      obtain ⟨n', hn', hsearch⟩ := hsearch
      have hlist : ∀ l : List Bytes, l₁ ++ p :: l = (l₁ ++ [p]) ++ l := fun l => by simp
      rw [hlist l₂, ← resume_concat] at hn'
      rw [hsearch, ← removeSeekParams_eq _ _ (by omega), ← resume_concat]
      rw [hlist l₂, hlist (l₂.filterMap (keptPart pattern))]
      exact ih (l₁ ++ [p]) hrest hn'
    | some k =>
      rw [hstop] at hsearch
      obtain ⟨n', hn', hsearch⟩ := hsearch
      obtain ⟨hlen, -⟩ := stopIn_occurrence hne hstop
      have hvalue := valueAt_parameter l₁ hp l₂ (by omega : k ≤ p.length)
      have hend : (before l₁).length + 1 + k + (p.drop k).length =
          (before l₁).length + 1 + p.length := by
        rw [length_drop]
        omega
      rw [hsearch]
      dsimp only
      rw [hvalue, hend, parameter_end]
      cases k with
      | zero =>
        rw [Nat.add_zero, removeQueryParam_parameter]
        cases l₂ with
        | nil => rfl
        | cons q l₂ =>
          have hlength := queryText_insert l₁ p (q :: l₂) (by simp)
          have hplace : max 1 ((before l₁).length + 1 - 1) = resume l₁ := rfl
          rw [behind_cons, head?_cons, if_pos rfl, hplace]
          refine ih l₁ hrest ?_
          omega
      | succ k =>
        obtain ⟨u, v, rfl, rfl⟩ := stopIn_succ hne hp hstop
        rw [removeQueryParam_part]
        dsimp only
        rw [take_left]
        cases l₂ with
        | nil => rfl
        | cons q l₂ =>
          have hlist : ∀ l : List Bytes, l₁ ++ u :: l = (l₁ ++ [u]) ++ l := fun l => by simp
          have hshort := queryText_insert l₁ u (q :: l₂) (by simp)
          have hlong := queryText_insert l₁ (u ++ question :: v) (q :: l₂) (by simp)
          have hplace : max 1 ((before l₁).length + 1 + (u.length + 1) - 1) =
              resume (l₁ ++ [u]) := by
            rw [resume_concat]
            omega
          rw [length_append, length_cons] at hlen hlong
          rw [behind_cons, head?_cons, if_pos rfl, hplace, hlist (q :: l₂),
            hlist ((q :: l₂).filterMap (keptPart pattern))]
          refine ih (l₁ ++ [u]) hrest ?_
          rw [← hlist, resume_concat]
          omega

end Apackage.Rtp2httpd
