import Mathlib.Data.Int.Notation
import Mathlib.Data.List.TakeWhile
import Apackage.Lib.Digits
import Apackage.Rtp2httpd.Http.Url

/-
  Functions of the C library on byte strings, in the C locale.
-/

namespace Apackage.Rtp2httpd

open List Lib.Digits

def isSpace (c : UInt8) : Bool := c = 0x20 || (0x09 ≤ c && c ≤ 0x0D)

def isDigit (c : UInt8) : Bool := 0x30 ≤ c && c ≤ 0x39

def toLower (c : UInt8) : UInt8 := if 0x41 ≤ c && c ≤ 0x5A then c + 0x20 else c

/-- `strncasecmp(s, key, strlen(key)) == 0`. -/
def hasPrefixNoCase : (key s : Bytes) → Bool
  | [], _ => true
  | _ :: _, [] => false
  | k :: key, c :: s => toLower k = toLower c && hasPrefixNoCase key s

/-- `strcasestr`: the position of the first occurrence. -/
def strcasestr (needle : Bytes) : Bytes → Option ℕ
  | [] => if needle = [] then some 0 else none
  | c :: rest =>
    if hasPrefixNoCase needle (c :: rest) then some 0
    else (strcasestr needle rest).map (· + 1)

def decimalValue (digits : Bytes) : ℕ := digits.foldl (fun n d => 10 * n + (d.toNat - 0x30)) 0

def afterSign (s : Bytes) : Bytes :=
  let s := s.dropWhile isSpace
  if s.head? = some 0x2D ∨ s.head? = some 0x2B then s.drop 1 else s

/-- `strtol` in base 10 with a 64-bit `long`: the value and what follows the number; none if
    there is no number. -/
def strtol (s : Bytes) : Option (ℤ × Bytes) :=
  let digits := (afterSign s).takeWhile isDigit
  let magnitude : ℤ := decimalValue digits
  let value := if (s.dropWhile isSpace).head? = some 0x2D then -magnitude else magnitude
  if digits = [] then none
  else some (max (-2 ^ 63) (min value (2 ^ 63 - 1)), (afterSign s).dropWhile isDigit)

def digitByte (d : ℕ) : UInt8 := UInt8.ofNat (d + 0x30)

/-- `%d` for a number that is not negative. -/
def printDecimal (n : ℕ) : Bytes := (shortest 10 n).map digitByte

/-! ## Prefixes up to case -/

variable {s key : Bytes}

theorem prefixNoCase_append (h : hasPrefixNoCase key s = true) (t : Bytes) :
    hasPrefixNoCase key (s ++ t) = true := by
  induction key generalizing s with
  | nil => rfl
  | cons k key ih =>
    cases s with
    | nil => cases h
    | cons c s =>
      rw [hasPrefixNoCase, Bool.and_eq_true] at h
      rw [cons_append, hasPrefixNoCase, Bool.and_eq_true]
      exact ⟨h.1, ih h.2⟩

theorem prefixNoCase_of_append {t : Bytes} {x : UInt8} (hx : ∀ k ∈ key, toLower k ≠ toLower x)
    (h : hasPrefixNoCase key (s ++ x :: t) = true) : hasPrefixNoCase key s = true := by
  induction key generalizing s with
  | nil => rfl
  | cons k key ih =>
    cases s with
    | nil =>
      rw [nil_append, hasPrefixNoCase, Bool.and_eq_true] at h
      exact absurd (of_decide_eq_true h.1) (hx k mem_cons_self)
    | cons c s =>
      rw [cons_append, hasPrefixNoCase, Bool.and_eq_true] at h
      rw [hasPrefixNoCase, Bool.and_eq_true]
      exact ⟨h.1, ih (fun k hk => hx k (mem_cons_of_mem _ hk)) h.2⟩

theorem prefixNoCase_of_key {more : Bytes} (h : hasPrefixNoCase (key ++ more) s = true) :
    hasPrefixNoCase key s = true := by
  induction key generalizing s with
  | nil => rfl
  | cons k key ih =>
    cases s with
    | nil => cases h
    | cons c s =>
      rw [cons_append, hasPrefixNoCase, Bool.and_eq_true] at h
      rw [hasPrefixNoCase, Bool.and_eq_true]
      exact ⟨h.1, ih h.2⟩

theorem prefixNoCase_length (h : hasPrefixNoCase key s = true) : key.length ≤ s.length := by
  induction key generalizing s with
  | nil => exact Nat.zero_le _
  | cons k key ih =>
    cases s with
    | nil => cases h
    | cons c s =>
      rw [hasPrefixNoCase, Bool.and_eq_true] at h
      exact Nat.succ_le_succ (ih h.2)

theorem hasPrefixNoCase_iff :
    hasPrefixNoCase key s = true ↔ ∃ m t, s = m ++ t ∧ m.map toLower = key.map toLower := by
  induction key generalizing s with
  | nil => exact iff_of_true rfl ⟨[], s, rfl, rfl⟩
  | cons k key ih =>
    cases s with
    | nil =>
      refine iff_of_false Bool.false_ne_true ?_
      rintro ⟨m, t, hs, hm⟩
      rw [(append_eq_nil_iff.1 hs.symm).1] at hm
      cases hm
    | cons c s =>
      rw [hasPrefixNoCase, Bool.and_eq_true, decide_eq_true_eq, ih]
      constructor
      · grind
      · rintro ⟨m, t, hs, hm⟩
        cases m with
        | nil => cases hm
        | cons d m =>
          grind

theorem strcasestr_starts {needle : Bytes} {i : ℕ} (h : strcasestr needle s = some i) :
    hasPrefixNoCase needle (s.drop i) = true := by
  induction s generalizing i with
  | nil =>
    rw [strcasestr] at h
    split at h
    · rename_i hn
      rw [hn]
      rfl
    · cases h
  | cons c rest ih =>
    rw [strcasestr] at h
    split at h
    · rename_i hp
      obtain rfl := Option.some.inj h
      exact hp
    · obtain ⟨j, hj, rfl⟩ := Option.map_eq_some_iff.1 h
      exact ih hj

/-! ## Scanning -/

variable {stop : UInt8 → Bool}

theorem scan_cons {rest : Bytes} {c : UInt8} (h : s.drop (s.takeWhile stop).length = c :: rest) :
    stop c = false ∧ s = s.takeWhile stop ++ c :: rest := by
  induction s with
  | nil => simp at h
  | cons d s ih =>
    by_cases hd : stop d = true
    · rw [takeWhile_cons_of_pos hd] at h ⊢
      rw [length_cons, drop_succ_cons] at h
      exact ⟨(ih h).1, congrArg (d :: ·) (ih h).2⟩
    · rw [takeWhile_cons_of_neg hd] at h ⊢
      obtain ⟨rfl, rfl⟩ := cons_eq_cons.1 h
      exact ⟨by simpa using hd, rfl⟩

theorem scan_nil (h : s.drop (s.takeWhile stop).length = []) : s.takeWhile stop = s :=
  ( takeWhile_prefix stop).eq_of_length_le (drop_eq_nil_iff.1 h)

/-! ## Numbers -/

theorem strtol_all {v : ℤ} (h : strtol s = some (v, [])) :
    ∀ c ∈ s, isSpace c = true ∨ isDigit c = true ∨ c = 0x2D ∨ c = 0x2B := by
  unfold strtol at h
  dsimp only at h
  split at h
  · cases h
  have hdigits : ∀ c ∈ afterSign s, isDigit c = true := by
    rw [← dropWhile_eq_nil_iff]
    exact congrArg Prod.snd (Option.some.inj h)
  intro c hc
  rw [← takeWhile_append_dropWhile (p := isSpace) (l := s)] at hc
  rcases mem_append.1 hc with hc | hc
  · exact .inl (mem_takeWhile_imp hc)
  right
  unfold afterSign at hdigits
  dsimp only at hdigits
  generalize s.dropWhile isSpace = s' at hc hdigits
  split at hdigits
  · rename_i hsign
    cases s' with
    | nil => cases hc
    | cons x s' =>
      rcases List.mem_cons.1 hc with rfl | hc
      · right
        simpa using hsign
      · exact .inl (hdigits c hc)
  · exact .inl (hdigits c hc)

theorem digitByte_isDigit {d : ℕ} (h : d < 10) : isDigit (digitByte d) = true := by
  revert d
  decide

theorem digitByte_value {d : ℕ} (h : d < 10) : (digitByte d).toNat - 0x30 = d := by
  revert d
  decide

theorem decimalValue_digits {ds : List ℕ} (h : ∀ d ∈ ds, d < 10) :
    decimalValue (ds.map digitByte) = value 10 ds := by
  induction ds using List.reverseRecOn with
  | nil => rfl
  | append_singleton ds d ih =>
    have hread : decimalValue ((ds ++ [d]).map digitByte) =
        10 * decimalValue (ds.map digitByte) + ((digitByte d).toNat - 0x30) := by
      simp [decimalValue]
    rw [hread, value_concat, ih fun d hd => h d (mem_append_left _ hd),
      digitByte_value (h d (by simp))]

theorem printDecimal_isDigit {n : ℕ} {c : UInt8} (h : c ∈ printDecimal n) : isDigit c = true := by
  obtain ⟨d, hd, rfl⟩ := List.mem_map.1 h
  exact digitByte_isDigit (fixed_lt (by decide) hd)

theorem printDecimal_ne_nil (n : ℕ) : printDecimal n ≠ [] := fun h =>
  shortest_ne_nil 10 n (map_eq_nil_iff.1 h)

theorem length_printDecimal (n : ℕ) : (printDecimal n).length = Nat.log 10 n + 1 := by
  rw [printDecimal, length_map, shortest, length_fixed]

theorem decimalValue_printDecimal (n : ℕ) : decimalValue (printDecimal n) = n :=
  (decimalValue_digits fun _ hd => fixed_lt (by decide) hd).trans (value_shortest (by decide) n)

theorem strtol_printDecimal {n : ℕ} (h : n < 2 ^ 63) : strtol (printDecimal n) = some ((n : ℤ), []) := by
  obtain ⟨c, digits, hdigits⟩ := exists_cons_of_ne_nil (printDecimal_ne_nil n)
  have hall : ∀ d ∈ c :: digits, isDigit d = true := fun d hd => printDecimal_isDigit (hdigits ▸ hd)
  obtain ⟨hspace, hminus, hplus⟩ : isSpace c = false ∧ c ≠ 0x2D ∧ c ≠ 0x2B := by
    have hc : c ∈ printDecimal n := hdigits ▸ mem_cons_self
    obtain ⟨d, hd, rfl⟩ := List.mem_map.1 hc
    have hfirst : ∀ d < 10, isSpace (digitByte d) = false ∧ digitByte d ≠ 0x2D ∧
        digitByte d ≠ 0x2B := by decide
    exact hfirst d (fixed_lt (by decide) hd)
  have hskip : (c :: digits).dropWhile isSpace = c :: digits :=
    dropWhile_cons_of_neg (by simp [hspace])
  have hsign : afterSign (c :: digits) = c :: digits := by
    unfold afterSign
    rw [hskip]
    simp [hminus, hplus]
  have hvalue : decimalValue (c :: digits) = n := hdigits ▸ decimalValue_printDecimal n
  have htake : (c :: digits).takeWhile isDigit = c :: digits := takeWhile_eq_self_iff.2 hall
  have hdrop : (c :: digits).dropWhile isDigit = [] := dropWhile_eq_nil_iff.2 hall
  rw [hdigits]
  unfold strtol
  rw [hsign, hskip, htake, hdrop]
  simp only [hvalue, head?_cons, Option.some.injEq, hminus, if_false, reduceCtorEq]
  rw [min_eq_left (by omega), max_eq_right (by omega)]

end Apackage.Rtp2httpd
