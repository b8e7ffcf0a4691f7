import Apackage.Rtp2httpd.Time.Timezone

/-
  What `printf` writes with leading zeros, `sscanf` reads back. And where `timezone_parse_iso8601`
  looks behind the seconds: at the byte 19, also where the base fields are shorter. It stays within
  the string exactly if it refuses these or the string has 19 bytes (`inspected_le_iff`).
-/

namespace Apackage.Rtp2httpd

open List Lib.Digits

section Scan

variable {w n : ℕ} {z : ℤ} {rest : Bytes}

theorem digitByte_plain {d : ℕ} (h : d < 10) : isSpace (digitByte d) = false ∧
    digitByte d ≠ 0x2D ∧ digitByte d ≠ 0x2B ∧ digitByte d ≠ letterT ∧ digitByte d ≠ 0 ∧
    digitByte d ≠ letterZ ∧ digitByte d ≠ dot := by
  revert d
  decide

variable {ds : List ℕ}

theorem takeWhile_digits (h : ∀ d ∈ ds, d < 10) :
    (ds.map digitByte).takeWhile isDigit = ds.map digitByte := by
  rw [takeWhile_eq_self_iff]
  intro c hc
  obtain ⟨d, hd, rfl⟩ := List.mem_map.1 hc
  exact digitByte_isDigit (h d hd)

theorem scanInt_digits_le (hne : ds ≠ []) (h : ∀ d ∈ ds, d < 10) (hlen : ds.length ≤ w)
    (hstop : ds.length = w ∨ ∀ c, rest.head? = some c → isDigit c = false) :
    scanInt w (ds.map digitByte ++ rest) = some ((value 10 ds : ℤ), rest) := by
  have htake : ((ds.map digitByte ++ rest).take w).takeWhile isDigit = ds.map digitByte := by
    obtain ⟨k, rfl⟩ := Nat.exists_eq_add_of_le hlen
    have hall : ∀ c ∈ ds.map digitByte, isDigit c = true :=
      takeWhile_eq_self_iff.1 (takeWhile_digits h)
    rw [take_append, length_map, take_of_length_le (by simp),
      takeWhile_append_of_pos hall, Nat.add_sub_cancel_left]
    rcases rest with _ | ⟨c, rest⟩
    · simp
    rcases hstop with hfull | hstop
    · obtain rfl : k = 0 := by omega
      simp
    · rcases k with _ | k
      · simp
      · rw [take_succ_cons, takeWhile_cons_of_neg (by simp [hstop c rfl]), append_nil]
  have hvalue := decimalValue_digits h
  have hdrop : (ds.map digitByte ++ rest).drop (ds.map digitByte).length = rest := drop_left
  have hdigits : ds.map digitByte ≠ [] := fun hnil => hne (map_eq_nil_iff.1 hnil)
  obtain ⟨d, ds, rfl⟩ := exists_cons_of_ne_nil hne
  obtain ⟨hspace, hminus, hplus, -⟩ := digitByte_plain (h d mem_cons_self)
  have hskip : ((d :: ds).map digitByte ++ rest).dropWhile isSpace =
      (d :: ds).map digitByte ++ rest := dropWhile_cons_of_neg (by simp [hspace])
  have hhead : ((d :: ds).map digitByte ++ rest).head? = some (digitByte d) := rfl
  unfold scanInt
  simp only [hskip, hhead, Option.some.injEq, hminus, hplus, or_self, if_false]
  rw [htake, if_neg hdigits, hdrop, hvalue]

theorem scanInt_digits (rest : Bytes) (hne : ds ≠ []) (h : ∀ d ∈ ds, d < 10) :
    scanInt ds.length (ds.map digitByte ++ rest) = some ((value 10 ds : ℤ), rest) :=
  scanInt_digits_le hne h (Nat.le_refl _) (.inl rfl)

variable {c : UInt8}

theorem scanInt_signed (rest : Bytes) (hc : c = 0x2D ∨ c = 0x2B) (hne : ds ≠ [])
    (h : ∀ d ∈ ds, d < 10) :
    scanInt (ds.length + 1) (c :: (ds.map digitByte ++ rest)) =
      some (if c = 0x2D then -(value 10 ds : ℤ) else value 10 ds, rest) := by
  have hspace : isSpace c = false := by rcases hc with rfl | rfl <;> decide
  have hskip : (c :: (ds.map digitByte ++ rest)).dropWhile isSpace =
      c :: (ds.map digitByte ++ rest) := dropWhile_cons_of_neg (by simp [hspace])
  have htake : (ds.map digitByte ++ rest).take ds.length = ds.map digitByte :=
    take_left' (length_map _)
  have hdrop : (ds.map digitByte ++ rest).drop (ds.map digitByte).length = rest := drop_left
  have hdigits : ds.map digitByte ≠ [] := fun hnil => hne (map_eq_nil_iff.1 hnil)
  unfold scanInt
  rw [hskip]
  simp only [head?_cons, drop_one, tail_cons, Nat.add_sub_cancel, Option.some.injEq, if_pos hc]
  rw [htake, takeWhile_digits h, if_neg hdigits, hdrop, decimalValue_digits h]

theorem padDecimal_eq (h : n < 10 ^ w) : padDecimal w n = (fixed 10 w n).map digitByte := by
  rw [padDecimal, if_pos h]

theorem scanInt_padDecimal (hw : 0 < w) (h : n < 10 ^ w) :
    scanInt w (padDecimal w n ++ rest) = some ((n : ℤ), rest) := by
  have hne : fixed 10 w n ≠ [] := fun hnil => by
    have := length_fixed 10 w n
    rw [hnil, length_nil] at this
    omega
  have hscan := scanInt_digits rest hne fun d hd => fixed_lt (by decide) hd
  rwa [length_fixed, value_fixed_of_lt h, ← padDecimal_eq h] at hscan

theorem toNat_lt_pow (h0 : 0 ≤ z) (h1 : z < 10 ^ w) : z.toNat < 10 ^ w := by
  rw [Int.toNat_lt h0]
  exact h1

theorem printPadded_nonneg (h : 0 ≤ z) : printPadded w z = padDecimal w z.toNat := by
  have hz : z.natAbs = z.toNat := by omega
  rw [printPadded, if_neg (by omega), hz]

theorem scanInt_printPadded (hw : 0 < w) (h0 : 0 ≤ z) (h1 : z < 10 ^ w) :
    scanInt w (printPadded w z ++ rest) = some (z, rest) := by
  have hlt := toNat_lt_pow h0 h1
  rw [printPadded_nonneg h0, scanInt_padDecimal hw hlt, Int.toNat_of_nonneg h0]

theorem scanInt_signed_printPadded (hc : c = 0x2D ∨ c = 0x2B) (hw : 0 < w) (h0 : 0 ≤ z)
    (h1 : z < 10 ^ w) :
    scanInt (w + 1) (c :: (printPadded w z ++ rest)) = some (if c = 0x2D then -z else z, rest) := by
  have hlt := toNat_lt_pow h0 h1
  have hne : fixed 10 w z.toNat ≠ [] := fun hnil => by
    have := length_fixed 10 w z.toNat
    rw [hnil, length_nil] at this
    omega
  have hscan := scanInt_signed rest hc hne fun d hd => fixed_lt (by decide) hd
  rwa [length_fixed, value_fixed_of_lt hlt, ← padDecimal_eq hlt, ← printPadded_nonneg h0,
    Int.toNat_of_nonneg h0] at hscan

theorem length_printPadded (h0 : 0 ≤ z) (h1 : z < 10 ^ w) : (printPadded w z).length = w := by
  have hlt := toNat_lt_pow h0 h1
  rw [printPadded_nonneg h0, padDecimal_eq hlt, length_map, length_fixed]

theorem printPadded_isDigit (h0 : 0 ≤ z) (hc : c ∈ printPadded w z) : isDigit c = true := by
  rw [printPadded_nonneg h0, padDecimal] at hc
  obtain ⟨d, hd, rfl⟩ := List.mem_map.1 hc
  split at hd
  · exact digitByte_isDigit (fixed_lt (by decide) hd)
  · exact digitByte_isDigit (fixed_lt (by decide) hd)

theorem decimalValue_lt {s : Bytes} (h : ∀ c ∈ s, isDigit c = true) :
    decimalValue s < 10 ^ s.length := by
  induction s using List.reverseRecOn with
  | nil => decide
  | append_singleton s c ih =>
    have hs := ih fun c hc => h c (mem_append_left _ hc)
    have hc : c.toNat - 0x30 < 10 := by
      have hdigit := h c (by simp)
      unfold isDigit at hdigit
      rw [Bool.and_eq_true, decide_eq_true_eq, decide_eq_true_eq, UInt8.le_iff_toNat_le,
        UInt8.le_iff_toNat_le] at hdigit
      have hnine : (0x39 : UInt8).toNat = 57 := rfl
      omega
    have hread : decimalValue (s ++ [c]) = 10 * decimalValue s + (c.toNat - 0x30) := by
      simp [decimalValue]
    rw [hread, length_append, length_singleton, Nat.pow_succ]
    omega

theorem scanInt_bounds {s : Bytes} (h : scanInt w s = some (z, rest)) :
    ∃ k : ℕ, k ≤ w ∧ k + rest.length ≤ s.length ∧ z < 10 ^ k ∧ (z < 0 → k < w ∧ -(10 ^ k) < z) := by
  unfold scanInt at h
  dsimp only at h
  have hlen := (dropWhile_suffix isSpace (l := s)).length_le
  generalize s.dropWhile isSpace = t at h hlen
  have hminusRoom : t.head? = some 0x2D →
      (if t.head? = some 0x2D ∨ t.head? = some 0x2B then w - 1 else w) = w - 1 :=
    fun h => if_pos (.inl h)
  generalize hbody : (if t.head? = some 0x2D ∨ t.head? = some 0x2B then t.drop 1 else t) = body at h
  generalize hroom : (if t.head? = some 0x2D ∨ t.head? = some 0x2B then w - 1 else w) = room at *
  have hdigits : ∀ c ∈ (body.take room).takeWhile isDigit, isDigit c = true :=
    fun c hc => mem_takeWhile_imp hc
  have hstart := takeWhile_prefix (l := body.take room) isDigit
  generalize (body.take room).takeWhile isDigit = digits at h hdigits hstart
  have hlt := decimalValue_lt hdigits
  have hk := hstart.length_le
  rw [length_take] at hk
  have hlt' : (decimalValue digits : ℤ) < 10 ^ digits.length := by exact_mod_cast hlt
  have hbodyLen : body.length ≤ t.length := by
    rw [← hbody]
    split
    · simp
    · exact Nat.le_refl _
  have hroomLe : room ≤ w := by
    rw [← hroom]
    split <;> omega
  rw [Option.ite_none_left_eq_some] at h
  obtain ⟨hne, h⟩ := h
  obtain ⟨hz, hrest⟩ := Prod.mk.inj (Option.some.inj h)
  refine ⟨digits.length, by omega, ?_, ?_, ?_⟩
  · rw [← hrest, length_drop]
    omega
  · omega
  · intro hneg
    rw [← hz] at hneg ⊢
    split at hneg
    · grind
    · omega

@[simp] theorem scanByte_cons (c : UInt8) (s : Bytes) : scanByte c (c :: s) = some s := by
  simp [scanByte]

end Scan

/-! ## What is read behind the seconds -/

/-- The date and time of a string that passes the checks in front of `p`. -/
def parseIsoBase (isoStr : Bytes) : Option Tm := do
  guard (letterT ∈ isoStr)
  let tm ← scanIso isoStr
  guard (validComponents tm)
  return tm

/-- The positions that `sscanf` reads from `i` on: to the next NUL, in `rest` bytes. -/
def scanned (i : ℕ) (rest : Bytes) : List ℕ := List.range' i (rest.length + 1)

/-- The positions that `timezone_parse_iso8601` inspects through `p`: the byte 19, the
    milliseconds, the byte behind them, the zone. -/
def inspected (beyond isoStr : Bytes) : List ℕ :=
  match parseIsoBase isoStr with
  | none => []
  | some _ =>
    let p := cstr ((isoStr ++ 0 :: beyond).drop 19)
    let zone := (parseMilliseconds p).2
    let zoneStart := 19 + (p.length - zone.length)
    19 :: ((if p.head? = some dot then scanned 20 (p.drop 1) else []) ++ zoneStart ::
        if zone.head? = some plus ∨ zone.head? = some minus then scanned zoneStart zone else [])

section Positions

variable {i n : ℕ} {rest p : Bytes}

theorem mem_scanned : n ∈ scanned i rest ↔ i ≤ n ∧ n ≤ i + rest.length := by
  unfold scanned
  rw [mem_range'_1]
  omega

theorem length_cstr_drop (s beyond : Bytes) (i : ℕ) (h : i ≤ s.length) :
    (cstr ((s ++ 0 :: beyond).drop i)).length ≤ s.length - i := by
  have hdrop : (s ++ 0 :: beyond).drop i = s.drop i ++ 0 :: beyond := drop_append_of_le_length h
  have hstop : cstr (s.drop i ++ 0 :: beyond) = cstr (s.drop i) := by
    unfold cstr
    generalize s.drop i = t
    induction t with
    | nil => rfl
    | cons c t ih => rw [cons_append, takeWhile_cons, takeWhile_cons, ih]
  rw [hdrop, hstop, ← length_drop]
  exact ( takeWhile_prefix _).length_le

theorem length_parseMilliseconds (p : Bytes) : (parseMilliseconds p).2.length ≤ p.length := by
  unfold parseMilliseconds
  split
  · dsimp only
    have hdrop : (p.drop 1).length ≤ p.length := by
      simp
    rcases h : scanInt 3 (p.drop 1) with _ | ⟨value, rest⟩
    · exact hdrop
    · obtain ⟨k, -, hk, -⟩ := scanInt_bounds h
      dsimp only
      omega
  · exact Nat.le_refl _

theorem inspected_le {beyond isoStr : Bytes} (h : 19 ≤ isoStr.length)
    (hn : n ∈ inspected beyond isoStr) : n ≤ isoStr.length := by
  have hp := length_cstr_drop isoStr beyond 19 h
  unfold inspected at hn
  split at hn
  · cases hn
  dsimp only at hn
  generalize cstr ((isoStr ++ 0 :: beyond).drop 19) = p at hn hp
  have hzone := length_parseMilliseconds p
  generalize (parseMilliseconds p).2 = zone at hn hzone
  rcases List.mem_cons.1 hn with rfl | hn
  · exact h
  rcases mem_append.1 hn with hn | hn
  · split at hn
    · rename_i hdot
      obtain ⟨rest, rfl⟩ := head?_eq_some_iff.1 hdot
      rw [length_cons] at hp
      have hms := (mem_scanned.1 hn).2
      rw [drop_one, tail_cons] at hms
      omega
    · cases hn
  · rcases List.mem_cons.1 hn with rfl | hn
    · omega
    · split at hn
      · have hread := (mem_scanned.1 hn).2
        omega
      · cases hn

end Positions

/-- The parser looks at no byte behind the end of the string if and only if it refuses the base
    fields or the string has the 19 bytes that it assumes. -/
theorem inspected_le_iff (beyond isoStr : Bytes) :
    (∀ n ∈ inspected beyond isoStr, n ≤ isoStr.length) ↔
      parseIsoBase isoStr = none ∨ 19 ≤ isoStr.length := by
  constructor
  · intro hall
    rcases hbase : parseIsoBase isoStr with _ | tm
    · exact .inl rfl
    · refine .inr (hall 19 ?_)
      unfold inspected
      rw [hbase]
      exact mem_cons_self
  · rintro (hbase | hlen) n hn
    · unfold inspected at hn
      rw [hbase] at hn
      cases hn
    · exact inspected_le hlen hn

/-- Fields of one digit: the string ends at the byte 14, and the byte 19 is taken for its end. -/
theorem short_fields_overread : parseIsoBase (ascii "2024-1-2T3:4:5") = some ⟨2024, 1, 2, 3, 4, 5⟩ ∧
      (ascii "2024-1-2T3:4:5").length = 14 ∧
      ¬ ∀ n ∈ inspected (ascii "rest+07:00") (ascii "2024-1-2T3:4:5"),
        n ≤ (ascii "2024-1-2T3:4:5").length := by
  refine ⟨by decide, by decide, fun hall => ?_⟩
  have hread : 19 ∈ inspected (ascii "rest+07:00") (ascii "2024-1-2T3:4:5") := by decide
  exact absurd (hall 19 hread) (by decide)

end Apackage.Rtp2httpd
