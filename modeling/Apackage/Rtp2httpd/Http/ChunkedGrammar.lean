import Apackage.Rtp2httpd.Http.ChunkedSplit

/-
  The decoder accepts its grammar and inverts the coding.

  `ChunkedBody input out` is the grammar: `input` codes the bytes `out`. `Accepts d input out`
  says what the byte by byte decoder does from `d`. For each state the latter is rewritten
  into the part of the grammar that is left to read, up to the start of the next line;
  `accepts_init` puts the lines together.
-/

namespace Apackage.Rtp2httpd

open List

/-! ## The grammar -/

/-- The number that hex digits write, after `v`. -/
def hexNumber (v : ℕ) (digits : List UInt8) : ℕ :=
  digits.foldl (fun n ch => n * 16 + (httpChunkedHexValue ch).getD 0) v

/-- No control byte but TAB. -/
def ExtByte (ch : UInt8) : Prop := (0x20 ≤ ch ∨ ch = 0x09) ∧ ch ≠ 0x7f

/-- The line of a chunk of `n` bytes. The limit does not count its LF. -/
structure SizeLine (n : ℕ) (digits ext : List UInt8) : Prop where
  nonempty : digits ≠ []
  hex : ∀ ch ∈ digits, (httpChunkedHexValue ch).isSome
  number : hexNumber 0 digits = n
  fits : n < 2 ^ 64
  extension : ext = [] ∨ ∃ e, ext = 0x3b :: e ∧ ∀ ch ∈ e, ExtByte ch
  limit : (digits ++ ext ++ [CR]).length ≤ maxSizeLine

/-- Trailer lines and the empty line. -/
inductive TrailerSection : List UInt8 → Prop
  | done : TrailerSection [CR, LF]
  | line {l t : List UInt8} : l ≠ [] → (∀ b ∈ l, b ≠ CR ∧ b ≠ LF) → TrailerSection t →
      TrailerSection (l ++ CR :: LF :: t)

/-- A chunked body and the bytes that it codes. -/
inductive ChunkedBody : List UInt8 → List UInt8 → Prop
  | last {digits ext t : List UInt8} : SizeLine 0 digits ext → TrailerSection t →
      t.length ≤ maxTrailerSize → ChunkedBody (digits ++ ext ++ CR :: LF :: t) []
  | chunk {digits ext data rest out : List UInt8} : SizeLine data.length digits ext →
      data ≠ [] → ChunkedBody rest out →
      ChunkedBody (digits ++ ext ++ CR :: LF :: (data ++ CR :: LF :: rest)) (data ++ out)

/-! ## Acceptance -/

/-- The decoder reads the string to its end and emits `out`. -/
def Accepts : ChunkedDecoder → List UInt8 → List UInt8 → Prop
  | d, [], out => d.state = .done ∧ out = []
  | d, ch :: bs, out =>
    if d.state = .data then ∃ out', out = ch :: out' ∧ Accepts (chunkedByte d ch) bs out'
    else Accepts (chunkedByte d ch) bs out

theorem foldl_absorb_out (d : ChunkedDecoder) (o bs : List UInt8) : bs.foldl absorb (d, o) =
      ((bs.foldl absorb (d, [])).1, o ++ (bs.foldl absorb (d, [])).2) := by
  induction bs generalizing d o with
  | nil => simp
  | cons ch bs ih =>
    simp only [foldl_cons, absorb]
    split
    · rw [ih _ (o ++ [ch]), ih _ ([] ++ [ch])]
      simp
    · rw [ih _ o]

theorem accepts_iff (d : ChunkedDecoder) (bs out : List UInt8) : Accepts d bs out ↔
      (bs.foldl absorb (d, [])).1.state = .done ∧ (bs.foldl absorb (d, [])).2 = out := by
  induction bs generalizing d out with
  | nil => simp [Accepts, eq_comm]
  | cons ch bs ih =>
    rw [Accepts, foldl_cons]
    by_cases h : d.state = .data
    · have hstep : absorb (d, []) ch = (chunkedByte d ch, [ch]) := by simp [absorb, h]
      rw [if_pos h, hstep, foldl_absorb_out]
      constructor
      · rintro ⟨out', rfl, hacc⟩
        obtain ⟨hdone, rfl⟩ := (ih _ _).mp hacc
        exact ⟨hdone, rfl⟩
      · rintro ⟨hdone, rfl⟩
        exact ⟨_, rfl, (ih _ _).mpr ⟨hdone, rfl⟩⟩
    · have hstep : absorb (d, []) ch = (chunkedByte d ch, []) := by simp [absorb, h]
      rw [if_neg h, hstep, ih]

variable {d : ChunkedDecoder}

theorem accepts_cons (h : d.state ≠ .data) (ch : UInt8) (bs out : List UInt8) :
    Accepts d (ch :: bs) out ↔ Accepts (chunkedControlByte d ch) bs out := by
  rw [Accepts, if_neg h, chunkedByte, if_neg h]

theorem not_accepts_error (h : d.state = .error) (bs out : List UInt8) : ¬ Accepts d bs out := by
  rw [accepts_iff, foldl_absorb_error h]
  rintro ⟨hdone, -⟩
  rw [h] at hdone
  cases hdone

theorem accepts_done (h : d.state = .done) (bs out : List UInt8) :
    Accepts d bs out ↔ bs = [] ∧ out = [] := by
  cases bs with
  | nil => simp [Accepts, h]
  | cons ch bs =>
    rw [accepts_iff, foldl_absorb_done h [] (by simp)]
    simp

theorem exists_run_cons {P : List UInt8 → UInt8 → List UInt8 → Prop} {ch : UInt8}
    {bs : List UInt8} :
    (∃ l a r, ch :: bs = l ++ a :: r ∧ P l a r) ↔
      P [] ch bs ∨ ∃ l a r, bs = l ++ a :: r ∧ P (ch :: l) a r := by
  constructor
  · rintro ⟨l, a, r, heq, hP⟩
    cases l with
    | nil =>
      rw [nil_append, List.cons.injEq] at heq
      exact .inl (heq.1 ▸ heq.2 ▸ hP)
    | cons b l =>
      rw [cons_append, List.cons.injEq] at heq
      exact .inr ⟨l, a, r, heq.2, heq.1 ▸ hP⟩
  · rintro (hP | ⟨l, a, r, rfl, hP⟩)
    · exact ⟨[], ch, bs, rfl, hP⟩
    · exact ⟨ch :: l, a, r, rfl, hP⟩

/-! ## The lines -/

variable {v r k t : ℕ} {s : Bool} {bs out : List UInt8}

theorem accepts_sizeLf : Accepts ⟨.sizeLf, v, r, k, t, s⟩ bs out ↔ ∃ rest, bs = LF :: rest ∧
      Accepts ⟨if v = 0 then .trailerStart else .data, v, v, k, t, s⟩ rest out := by
  cases bs with
  | nil => simp [Accepts]
  | cons ch bs =>
    rw [accepts_cons (by simp)]
    by_cases hch : ch = LF
    · simp [chunkedControlByte, hch]
    · have herr : (chunkedControlByte ⟨.sizeLf, v, r, k, t, s⟩ ch).state = .error := by
        simp [chunkedControlByte, hch]
      simp [not_accepts_error herr, hch]

theorem accepts_extension : Accepts ⟨.extension, v, r, k, t, s⟩ bs out ↔
    ∃ e a rest, bs = e ++ a :: rest ∧ a = CR ∧ (∀ ch ∈ e, ExtByte ch) ∧
      k + e.length + 1 ≤ maxSizeLine ∧
      Accepts ⟨.sizeLf, v, r, k + e.length + 1, t, s⟩ rest out := by
  induction bs generalizing k with
  | nil => simp [Accepts]
  | cons ch bs ih =>
    rw [accepts_cons (by simp), exists_run_cons]
    by_cases hlimit : k + 1 > maxSizeLine
    · have herr : (chunkedControlByte ⟨.extension, v, r, k, t, s⟩ ch).state = .error := by
        simp [chunkedControlByte, hlimit]
      refine iff_of_false (not_accepts_error herr bs out) ?_
      rintro (⟨-, -, hlen, -⟩ | ⟨e, a, rest, -, -, -, hlen, -⟩)
      · omega
      · omega
    · have hnot : ¬ maxSizeLine < k + 1 := hlimit
      by_cases hcr : ch = CR
      · subst hcr
        have hbyte : ¬ ExtByte CR := by
          rintro ⟨h | h, -⟩
          · exact absurd h (by decide)
          · exact absurd h (by decide)
        simp only [chunkedControlByte, gt_iff_lt, if_neg hnot, if_true, length_nil]
        constructor
        · exact fun h => .inl ⟨trivial, by simp, by omega, h⟩
        · rintro (⟨-, -, -, h⟩ | ⟨e, a, rest, -, -, hall, -⟩)
          · exact h
          · exact absurd (hall CR mem_cons_self) hbyte
      · by_cases hbad : ch = LF ∨ (ch < 0x20 ∧ ch ≠ 0x09) ∨ ch = 0x7f
        · have herr : (chunkedControlByte ⟨.extension, v, r, k, t, s⟩ ch).state = .error := by
            simp [chunkedControlByte, hnot, hcr, hbad]
          refine iff_of_false (not_accepts_error herr bs out) ?_
          rintro (⟨h, -⟩ | ⟨e, a, rest, -, -, hall, -⟩)
          · exact hcr h
          · obtain ⟨hge, h7f⟩ := hall ch mem_cons_self
            rcases hbad with rfl | ⟨hlt, htab⟩ | h
            · exact absurd hge (by decide)
            · exact hge.elim (fun hge => absurd hlt (UInt8.not_lt.mpr hge)) htab
            · exact h7f h
        · have hstep : chunkedControlByte ⟨.extension, v, r, k, t, s⟩ ch =
              ⟨.extension, v, r, k + 1, t, s⟩ := by
            simp [chunkedControlByte, hnot, hcr, hbad]
          have hbyte : ExtByte ch := by
            simp only [not_or, not_and, not_not] at hbad
            refine ⟨?_, hbad.2.2⟩
            by_cases hlt : ch < 0x20
            · exact .inr (hbad.2.1 hlt)
            · exact .inl (UInt8.not_lt.mp hlt)
          rw [hstep, ih]
          constructor
          · rintro ⟨e, a, rest, rfl, ha, hall, hlen, hacc⟩
            refine .inr ⟨e, a, rest, rfl, ha, forall_mem_cons.mpr ⟨hbyte, hall⟩, ?_, ?_⟩
            · rw [length_cons]
              omega
            · rwa [length_cons, ← Nat.add_assoc, Nat.add_right_comm k]
          · rintro (⟨h, -⟩ | ⟨e, a, rest, rfl, ha, hall, hlen, hacc⟩)
            · exact absurd h hcr
            · grind

theorem hexValue_lt {ch : UInt8} {digit : ℕ} (h : httpChunkedHexValue ch = some digit) :
    digit < 16 := by
  unfold httpChunkedHexValue at h
  split at h
  · rename_i hdec
    have := UInt8.le_iff_toNat_le.mp hdec.2
    simp only [Option.some.injEq] at h
    change ch.toNat ≤ 57 at this
    omega
  · split at h
    · rename_i hlower
      have := UInt8.le_iff_toNat_le.mp hlower.2
      simp only [Option.some.injEq] at h
      change ch.toNat ≤ 102 at this
      omega
    · split at h
      · rename_i hupper
        have := UInt8.le_iff_toNat_le.mp hupper.2
        simp only [Option.some.injEq] at h
        change ch.toNat ≤ 70 at this
        omega
      · cases h

theorem le_hexNumber (v : ℕ) (digits : List UInt8) : v ≤ hexNumber v digits := by
  induction digits generalizing v with
  | nil => exact Nat.le_refl v
  | cons ch digits ih =>
    calc v ≤ v * 16 + (httpChunkedHexValue ch).getD 0 := by omega
      _ ≤ hexNumber v (ch :: digits) := ih _

theorem overflow_iff {v digit : ℕ} (h : digit < 16) :
    v > (uint64Max - digit) / 16 ↔ ¬ v * 16 + digit < 2 ^ 64 := by
  unfold uint64Max
  omega

theorem accepts_size : Accepts ⟨.size, v, r, k, t, s⟩ bs out ↔
    ∃ digits a rest, bs = digits ++ a :: rest ∧ (a = 0x3b ∨ a = CR) ∧
      (∀ ch ∈ digits, (httpChunkedHexValue ch).isSome) ∧ (s = true ∨ digits ≠ []) ∧
      (digits ≠ [] → hexNumber v digits < 2 ^ 64) ∧ k + digits.length + 1 ≤ maxSizeLine ∧
      Accepts ⟨if a = CR then .sizeLf else .extension, hexNumber v digits, r,
        k + digits.length + 1, t, true⟩ rest out := by
  induction bs generalizing v k s with
  | nil => simp [Accepts]
  | cons ch bs ih =>
    rw [accepts_cons (by simp), exists_run_cons]
    by_cases hlimit : k + 1 > maxSizeLine
    · have herr : (chunkedControlByte ⟨.size, v, r, k, t, s⟩ ch).state = .error := by
        simp [chunkedControlByte, hlimit]
      refine iff_of_false (not_accepts_error herr bs out) ?_
      rintro (⟨-, -, -, -, hlen, -⟩ | ⟨e, a, rest, -, -, -, -, -, hlen, -⟩)
      · omega
      · omega
    · have hnot : ¬ maxSizeLine < k + 1 := hlimit
      cases hhex : httpChunkedHexValue ch with
      | some digit =>
        have hnone : ¬ (ch = 0x3b ∨ ch = CR) := by
          rintro (rfl | rfl)
          · tauto
          · tauto
        by_cases hover : v > (uint64Max - digit) / 16
        · have herr : (chunkedControlByte ⟨.size, v, r, k, t, s⟩ ch).state = .error := by
            simp [chunkedControlByte, hnot, hhex, hover]
          refine iff_of_false (not_accepts_error herr bs out) ?_
          rintro (⟨h, -⟩ | ⟨e, a, rest, -, -, -, -, hfits, -⟩)
          · exact hnone h
          · rw [overflow_iff (hexValue_lt hhex)] at hover
            have hle := le_hexNumber (v * 16 + digit) e
            have hnum : hexNumber v (ch :: e) = hexNumber (v * 16 + digit) e := by
              simp [hexNumber, hhex]
            have := hfits (by simp)
            omega
        · have hstep : chunkedControlByte ⟨.size, v, r, k, t, s⟩ ch =
              ⟨.size, v * 16 + digit, r, k + 1, t, true⟩ := by
            simp [chunkedControlByte, hnot, hhex, hover]
          rw [overflow_iff (hexValue_lt hhex), not_not] at hover
          have hnum : ∀ e, hexNumber v (ch :: e) = hexNumber (v * 16 + digit) e := by
            intro e
            simp [hexNumber, hhex]
          rw [hstep, ih]
          constructor
          · rintro ⟨e, a, rest, rfl, ha, hall, -, hfits, hlen, hacc⟩
            refine .inr ⟨e, a, rest, rfl, ha,
              forall_mem_cons.mpr ⟨by rw [hhex]; rfl, hall⟩, .inr (by simp), ?_, ?_, ?_⟩
            · intro
              rw [hnum]
              by_cases he : e = []
              · subst he
                exact hover
              · exact hfits he
            · rw [length_cons]
              omega
            · rwa [length_cons, ← Nat.add_assoc, Nat.add_right_comm k, hnum]
          · rintro (⟨h, -⟩ | ⟨e, a, rest, rfl, ha, hall, -, hfits, hlen, hacc⟩)
            · exact absurd h hnone
            · grind
      | none =>
        have hno : ¬ ∃ l a rest, bs = l ++ a :: rest ∧ (a = 0x3b ∨ a = CR) ∧
            (∀ c ∈ ch :: l, (httpChunkedHexValue c).isSome) ∧ (s = true ∨ ch :: l ≠ []) ∧
            (ch :: l ≠ [] → hexNumber v (ch :: l) < 2 ^ 64) ∧
            k + (ch :: l).length + 1 ≤ maxSizeLine ∧
            Accepts ⟨if a = CR then .sizeLf else .extension, hexNumber v (ch :: l), r,
              k + (ch :: l).length + 1, t, true⟩ rest out := by
          rintro ⟨l, a, rest, -, -, hall, -⟩
          have := hall ch mem_cons_self
          rw [hhex] at this
          cases this
        rw [or_iff_left hno]
        by_cases hs : s = true
        · subst hs
          by_cases hsemi : ch = 0x3b
          · subst hsemi
            have hstep : chunkedControlByte ⟨.size, v, r, k, t, true⟩ 0x3b =
                ⟨.extension, v, r, k + 1, t, true⟩ := by
              simp [chunkedControlByte, hnot, hhex]
            rw [hstep]
            simp only [true_or, not_mem_nil, false_implies, implies_true, true_and,
              ne_eq, not_true_eq_false, length_nil, Nat.add_zero]
            exact ⟨fun h => ⟨by omega, h⟩, fun h => h.2⟩
          · by_cases hcr : ch = CR
            · subst hcr
              have hstep : chunkedControlByte ⟨.size, v, r, k, t, true⟩ CR =
                  ⟨.sizeLf, v, r, k + 1, t, true⟩ := by
                simp [chunkedControlByte, hnot, hhex, hsemi]
              rw [hstep]
              simp only [or_true, true_or, not_mem_nil, false_implies, implies_true, true_and,
                ne_eq, not_true_eq_false, length_nil, Nat.add_zero, if_true]
              exact ⟨fun h => ⟨by omega, h⟩, fun h => h.2⟩
            · have herr : (chunkedControlByte ⟨.size, v, r, k, t, true⟩ ch).state = .error := by
                simp [chunkedControlByte, hnot, hhex, hsemi, hcr]
              refine iff_of_false (not_accepts_error herr bs out) ?_
              rintro ⟨h | h, -⟩
              · exact hsemi h
              · exact hcr h
        · have herr : (chunkedControlByte ⟨.size, v, r, k, t, s⟩ ch).state = .error := by
            simp [chunkedControlByte, hnot, hhex, hs]
          refine iff_of_false (not_accepts_error herr bs out) ?_
          rintro ⟨-, -, h | h, -⟩
          · exact hs h
          · exact h rfl

/-! ## The trailer -/

theorem accepts_trailerEndLf : Accepts ⟨.trailerEndLf, v, r, k, t, s⟩ bs out ↔
    bs = [LF] ∧ t + 1 ≤ maxTrailerSize ∧ out = [] := by
  cases bs with
  | nil => simp [Accepts]
  | cons ch bs =>
    rw [accepts_cons (by simp)]
    by_cases hbad : t + 1 > maxTrailerSize ∨ ch ≠ LF
    · have herr : (chunkedControlByte ⟨.trailerEndLf, v, r, k, t, s⟩ ch).state = .error := by
        show (if t + 1 > maxTrailerSize ∨ ch ≠ LF then _ else _ : ChunkedDecoder).state = .error
        rw [if_pos hbad]
        rfl
      refine iff_of_false (not_accepts_error herr bs out) ?_
      rintro ⟨heq, hlen, -⟩
      rw [List.cons.injEq] at heq
      rcases hbad with h | h
      · omega
      · exact h heq.1
    · have hdone : (chunkedControlByte ⟨.trailerEndLf, v, r, k, t, s⟩ ch).state = .done := by
        show (if t + 1 > maxTrailerSize ∨ ch ≠ LF then _ else _ : ChunkedDecoder).state = .done
        rw [if_neg hbad]
      rw [accepts_done hdone]
      simp only [not_or, gt_iff_lt, Nat.not_lt, ne_eq, Decidable.not_not] at hbad
      simp [hbad.1, hbad.2]

theorem accepts_trailerLf : Accepts ⟨.trailerLf, v, r, k, t, s⟩ bs out ↔
    ∃ rest, bs = LF :: rest ∧ t + 1 ≤ maxTrailerSize ∧
      Accepts ⟨.trailerStart, v, r, k, t + 1, s⟩ rest out := by
  cases bs with
  | nil => simp [Accepts]
  | cons ch bs =>
    rw [accepts_cons (by simp)]
    by_cases hbad : t + 1 > maxTrailerSize ∨ ch ≠ LF
    · have herr : (chunkedControlByte ⟨.trailerLf, v, r, k, t, s⟩ ch).state = .error := by
        show (if t + 1 > maxTrailerSize ∨ ch ≠ LF then _ else _ : ChunkedDecoder).state = .error
        rw [if_pos hbad]
        rfl
      refine iff_of_false (not_accepts_error herr bs out) ?_
      rintro ⟨rest, heq, hlen, -⟩
      rw [List.cons.injEq] at heq
      rcases hbad with h | h
      · omega
      · exact h heq.1
    · have hstep : chunkedControlByte ⟨.trailerLf, v, r, k, t, s⟩ ch =
          ⟨.trailerStart, v, r, k, t + 1, s⟩ :=
        if_neg hbad
      rw [hstep]
      simp only [not_or, gt_iff_lt, Nat.not_lt, ne_eq, Decidable.not_not] at hbad
      simp [hbad.1, hbad.2]

theorem accepts_trailer : Accepts ⟨.trailer, v, r, k, t, s⟩ bs out ↔
    ∃ l a rest, bs = l ++ a :: rest ∧ a = CR ∧ (∀ b ∈ l, b ≠ CR ∧ b ≠ LF) ∧
      t + l.length + 1 ≤ maxTrailerSize ∧
      Accepts ⟨.trailerLf, v, r, k, t + l.length + 1, s⟩ rest out := by
  induction bs generalizing t with
  | nil => simp [Accepts]
  | cons ch bs ih =>
    rw [accepts_cons (by simp), exists_run_cons]
    by_cases hlimit : t + 1 > maxTrailerSize
    · have herr : (chunkedControlByte ⟨.trailer, v, r, k, t, s⟩ ch).state = .error := by
        simp [chunkedControlByte, hlimit]
      refine iff_of_false (not_accepts_error herr bs out) ?_
      rintro (⟨-, -, hlen, -⟩ | ⟨l, a, rest, -, -, -, hlen, -⟩)
      · omega
      · omega
    · have hnot : ¬ maxTrailerSize < t + 1 := hlimit
      by_cases hcr : ch = CR
      · subst hcr
        simp only [chunkedControlByte, gt_iff_lt, if_neg hnot, if_true, length_nil]
        constructor
        · exact fun h => .inl ⟨trivial, by simp, by omega, h⟩
        · rintro (⟨-, -, -, h⟩ | ⟨l, a, rest, -, -, hall, -⟩)
          · exact h
          · exact absurd rfl (hall CR mem_cons_self).1
      · by_cases hlf : ch = LF
        · subst hlf
          have herr : (chunkedControlByte ⟨.trailer, v, r, k, t, s⟩ LF).state = .error := by
            simp [chunkedControlByte, hnot, hcr]
          refine iff_of_false (not_accepts_error herr bs out) ?_
          rintro (⟨h, -⟩ | ⟨l, a, rest, -, -, hall, -⟩)
          · exact hcr h
          · exact (hall LF mem_cons_self).2 rfl
        · have hstep : chunkedControlByte ⟨.trailer, v, r, k, t, s⟩ ch =
              ⟨.trailer, v, r, k, t + 1, s⟩ := by
            simp [chunkedControlByte, hnot, hcr, hlf]
          rw [hstep, ih]
          constructor
          · rintro ⟨l, a, rest, rfl, ha, hall, hlen, hacc⟩
            refine .inr ⟨l, a, rest, rfl, ha, forall_mem_cons.mpr ⟨⟨hcr, hlf⟩, hall⟩, ?_, ?_⟩
            · rw [length_cons]
              omega
            · rwa [length_cons, ← Nat.add_assoc, Nat.add_right_comm t]
          · rintro (⟨h, -⟩ | ⟨l, a, rest, rfl, ha, hall, hlen, hacc⟩)
            · exact absurd h hcr
            · grind

theorem accepts_trailerStart_cons (ch : UInt8) :
    Accepts ⟨.trailerStart, v, r, k, t, s⟩ (ch :: bs) out ↔ t + 1 ≤ maxTrailerSize ∧
      (ch = CR ∧ Accepts ⟨.trailerEndLf, v, r, k, t + 1, s⟩ bs out ∨
        (ch ≠ CR ∧ ch ≠ LF) ∧ Accepts ⟨.trailer, v, r, k, t + 1, s⟩ bs out) := by
  rw [accepts_cons (by simp)]
  by_cases hlimit : t + 1 > maxTrailerSize
  · have herr : (chunkedControlByte ⟨.trailerStart, v, r, k, t, s⟩ ch).state = .error := by
      simp [chunkedControlByte, hlimit]
    refine iff_of_false (not_accepts_error herr bs out) ?_
    rintro ⟨hlen, -⟩
    omega
  · have hnot : ¬ maxTrailerSize < t + 1 := hlimit
    rw [and_iff_right (by omega : t + 1 ≤ maxTrailerSize)]
    by_cases hcr : ch = CR
    · simp [chunkedControlByte, hnot, hcr]
    · by_cases hlf : ch = LF
      · subst hlf
        have herr : (chunkedControlByte ⟨.trailerStart, v, r, k, t, s⟩ LF).state = .error := by
          simp [chunkedControlByte, hnot, hcr]
        refine iff_of_false (not_accepts_error herr bs out) ?_
        rintro (⟨h, -⟩ | ⟨⟨-, h⟩, -⟩)
        · exact hcr h
        · exact h rfl
      · simp [chunkedControlByte, hnot, hcr, hlf]

theorem accepts_trailerStart : Accepts ⟨.trailerStart, v, r, k, t, s⟩ bs out ↔
    TrailerSection bs ∧ t + bs.length ≤ maxTrailerSize ∧ out = [] := by
  constructor
  · intro h
    induction hn : bs.length using Nat.strongRecOn generalizing bs t with
    | _ n ih =>
      cases bs with
      | nil => simp [Accepts] at h
      | cons ch bs =>
        obtain ⟨-, ⟨rfl, hend⟩ | ⟨hch, hline⟩⟩ := (accepts_trailerStart_cons ch).mp h
        · obtain ⟨rfl, hlen, rfl⟩ := accepts_trailerEndLf.mp hend
          subst hn
          exact ⟨.done, hlen, rfl⟩
        · obtain ⟨l, a, rest, rfl, rfl, hall, hlen, hlf⟩ := accepts_trailer.mp hline
          obtain ⟨rest, rfl, -, hrest⟩ := accepts_trailerLf.mp hlf
          simp only [length_cons, length_append] at hn
          obtain ⟨hsec, htotal, rfl⟩ := ih rest.length (by omega) hrest rfl
          refine ⟨?_, by omega, rfl⟩
          exact .line (l := ch :: l) (by simp) (forall_mem_cons.mpr ⟨hch, hall⟩) hsec
  · rintro ⟨hsec, hlen, rfl⟩
    induction hsec generalizing t with
    | done =>
      simp only [length_cons, length_nil] at hlen
      exact (accepts_trailerStart_cons CR).mpr
        ⟨by omega, .inl ⟨rfl, accepts_trailerEndLf.mpr ⟨rfl, by omega, rfl⟩⟩⟩
    | @line l rest hne hall hsec ih =>
      obtain ⟨ch, l, rfl⟩ := exists_cons_of_ne_nil hne
      obtain ⟨hch, hall⟩ := forall_mem_cons.mp hall
      simp only [length_cons, length_append] at hlen
      refine (accepts_trailerStart_cons ch).mpr ⟨by omega, .inr ⟨hch, ?_⟩⟩
      refine accepts_trailer.mpr ⟨l, CR, LF :: rest, rfl, rfl, hall, by omega, ?_⟩
      exact accepts_trailerLf.mpr ⟨rest, rfl, by omega, ih (by omega)⟩

/-! ## The data -/

theorem accepts_dataCr : Accepts ⟨.dataCr, v, r, k, t, s⟩ bs out ↔
    ∃ rest, bs = CR :: LF :: rest ∧ Accepts ⟨.size, 0, r, 0, t, false⟩ rest out := by
  match bs with
  | [] => simp [Accepts]
  | [ch] =>
    rw [accepts_cons (by simp)]
    by_cases hch : ch = CR <;> simp [Accepts, chunkedControlByte, hch]
  | ch :: ch' :: rest =>
    rw [accepts_cons (by simp)]
    by_cases hch : ch = CR
    · subst hch
      have hstep : chunkedControlByte ⟨.dataCr, v, r, k, t, s⟩ CR = ⟨.dataLf, v, r, k, t, s⟩ := by
        simp [chunkedControlByte]
      rw [hstep, accepts_cons (by simp)]
      by_cases hlf : ch' = LF
      · simp [chunkedControlByte, hlf]
      · have herr : (chunkedControlByte ⟨.dataLf, v, r, k, t, s⟩ ch').state = .error := by
          simp [chunkedControlByte, hlf]
        simp [not_accepts_error herr, hlf]
    · have herr : (chunkedControlByte ⟨.dataCr, v, r, k, t, s⟩ ch).state = .error := by
        simp [chunkedControlByte, hch]
      simp [not_accepts_error herr, hch]

theorem accepts_data (hr : 0 < r) : Accepts ⟨.data, v, r, k, t, s⟩ bs out ↔
    ∃ data rest out', bs = data ++ rest ∧ data.length = r ∧ out = data ++ out' ∧
      Accepts ⟨.dataCr, v, 0, k, t, s⟩ rest out' := by
  induction bs generalizing r out with
  | nil =>
    refine iff_of_false (by simp [Accepts]) ?_
    rintro ⟨data, rest, out', heq, hlen, -⟩
    obtain ⟨rfl, -⟩ := append_eq_nil_iff.mp heq.symm
    simp only [length_nil] at hlen
    omega
  | cons ch bs ih =>
    rw [Accepts, if_pos rfl]
    by_cases hlast : r - 1 = 0
    · have hstep : chunkedByte ⟨.data, v, r, k, t, s⟩ ch = ⟨.dataCr, v, 0, k, t, s⟩ := by
        simp [chunkedByte, hlast]
      rw [hstep]
      constructor
      · rintro ⟨out', rfl, h⟩
        exact ⟨[ch], bs, out', rfl, by rw [length_singleton]; omega, rfl, h⟩
      · rintro ⟨data, rest, out', heq, hlen, rfl, h⟩
        obtain ⟨b, rfl⟩ := length_eq_one_iff.mp (show data.length = 1 by omega)
        rw [singleton_append, List.cons.injEq] at heq
        obtain ⟨rfl, rfl⟩ := heq
        exact ⟨out', rfl, h⟩
    · have hstep : chunkedByte ⟨.data, v, r, k, t, s⟩ ch = ⟨.data, v, r - 1, k, t, s⟩ := by
        simp [chunkedByte, hlast]
      rw [hstep]
      constructor
      · rintro ⟨out', rfl, h⟩
        obtain ⟨data, rest, o, rfl, hlen, rfl, hcr⟩ := (ih (Nat.pos_of_ne_zero hlast)).mp h
        exact ⟨ch :: data, rest, o, rfl, by rw [length_cons]; omega, rfl, hcr⟩
      · rintro ⟨data, rest, out', heq, hlen, rfl, h⟩
        cases data with
        | nil =>
          simp only [length_nil] at hlen
          omega
        | cons b data =>
          rw [cons_append, List.cons.injEq] at heq
          obtain ⟨rfl, rfl⟩ := heq
          rw [length_cons] at hlen
          exact ⟨data ++ out', rfl,
            (ih (Nat.pos_of_ne_zero hlast)).mpr ⟨data, rest, out', rfl, by omega, rfl, h⟩⟩

/-! ## The body -/

theorem accepts_line : Accepts .init bs out ↔
    ∃ n digits ext rest, bs = digits ++ ext ++ CR :: LF :: rest ∧ SizeLine n digits ext ∧
      Accepts ⟨if n = 0 then .trailerStart else .data, n, n, digits.length + ext.length + 1, 0,
        true⟩ rest out := by
  rw [ChunkedDecoder.init, accepts_size]
  constructor
  · rintro ⟨digits, a, rest, rfl, ha, hhex, hne, hfits, hlen, hacc⟩
    have hne := hne.resolve_left (by simp)
    by_cases hcr : a = CR
    · subst hcr
      rw [if_pos rfl, accepts_sizeLf] at hacc
      obtain ⟨rest, rfl, hacc⟩ := hacc
      refine ⟨_, digits, [], rest, by simp, ⟨hne, hhex, rfl, hfits hne, .inl rfl, ?_⟩, ?_⟩
      · simp only [append_nil, length_append, length_singleton]
        omega
      · simpa using hacc
    · have hsemi := ha.resolve_right hcr
      subst hsemi
      rw [if_neg hcr, accepts_extension] at hacc
      obtain ⟨e, a, rest, rfl, rfl, hext, hlen', hacc⟩ := hacc
      obtain ⟨rest, rfl, hacc⟩ := accepts_sizeLf.mp hacc
      refine ⟨_, digits, 0x3b :: e, rest, by simp,
        ⟨hne, hhex, rfl, hfits hne, .inr ⟨e, rfl, hext⟩, ?_⟩, ?_⟩
      · simp only [length_append, length_cons, length_nil]
        omega
      · grind
  · rintro ⟨n, digits, ext, rest, rfl, hline, hacc⟩
    have hlimit := hline.limit
    simp only [length_append, length_singleton] at hlimit
    have hnum := hline.number
    rcases hline.extension with rfl | ⟨e, rfl, hext⟩
    · refine ⟨digits, CR, LF :: rest, by simp, .inr rfl, hline.hex, .inr hline.nonempty,
        fun _ => hnum ▸ hline.fits, by simpa using hlimit, ?_⟩
      rw [if_pos rfl, accepts_sizeLf, hnum]
      exact ⟨rest, rfl, by simpa using hacc⟩
    · rw [length_cons] at hlimit hacc
      refine ⟨digits, 0x3b, e ++ CR :: LF :: rest, by simp, .inl rfl, hline.hex,
        .inr hline.nonempty, fun _ => hnum ▸ hline.fits, by omega, ?_⟩
      rw [if_neg (by decide), accepts_extension, hnum]
      refine ⟨e, CR, LF :: rest, rfl, rfl, hext, by omega, accepts_sizeLf.mpr ⟨rest, rfl, ?_⟩⟩
      rwa [Nat.zero_add, Nat.add_right_comm digits.length, Nat.add_assoc digits.length]

theorem accepts_init : Accepts .init bs out ↔ ChunkedBody bs out := by
  constructor
  · intro h
    induction hn : bs.length using Nat.strongRecOn generalizing bs out with
    | _ m ih =>
      obtain ⟨n, digits, ext, rest, rfl, hline, hacc⟩ := accepts_line.mp h
      by_cases hzero : n = 0
      · subst hzero
        obtain ⟨hsec, hlen, rfl⟩ := accepts_trailerStart.mp hacc
        exact .last hline hsec (by omega)
      · rw [if_neg hzero] at hacc
        obtain ⟨data, tail, out', rfl, hlen, rfl, hcr⟩ :=
          (accepts_data (Nat.pos_of_ne_zero hzero)).mp hacc
        obtain ⟨rest, rfl, hrest⟩ := accepts_dataCr.mp hcr
        have hbody := ih rest.length (by subst hn; simp; omega) hrest rfl
        have hne : data ≠ [] := by
          rintro rfl
          exact hzero hlen.symm
        exact .chunk (hlen ▸ hline) hne hbody
  · intro h
    induction h with
    | last hline hsec hlen =>
      refine accepts_line.mpr ⟨0, _, _, _, rfl, hline, ?_⟩
      exact accepts_trailerStart.mpr ⟨hsec, by omega, rfl⟩
    | @chunk digits ext data rest out hline hne hbody ih =>
      have hpos : 0 < data.length := length_pos_of_ne_nil hne
      refine accepts_line.mpr ⟨data.length, _, _, _, rfl, hline, ?_⟩
      rw [if_neg (by omega)]
      exact (accepts_data hpos).mpr
        ⟨data, _, out, rfl, rfl, rfl, accepts_dataCr.mpr ⟨rest, rfl, ih⟩⟩

/-- A call with the whole string, followed by `finish`, reports the end exactly on the strings
    of the grammar, and then the emitted bytes are the coded ones. -/
theorem feed_done_iff {emit : List (List UInt8) → List UInt8 → ℤ}
    (hemit : ∀ done piece, 0 ≤ emit done piece) (input out : List UInt8) :
    (httpChunkedDecoderFinish (httpChunkedDecoderFeed emit .init [] input).decoder).2 = .done ∧
      (httpChunkedDecoderFeed emit .init [] input).emitted.flatten = out ↔
    ChunkedBody input out := by
  have hinit : ChunkedDecoder.init.Ready := fun h => by cases h
  obtain ⟨hfold, -, -⟩ := feed_eq_foldl hemit hinit [] input
  rw [flatten_nil] at hfold
  rw [← accepts_init, accepts_iff, finish_eq, ← hfold]
  simp

/-- `1\r\na\r\n0\r\n\r\n` codes `a`. -/
theorem feed_done_iff_a : ChunkedBody [0x31, 13, 10, 0x61, 13, 10, 0x30, 13, 10, 13, 10] [0x61] :=
  (@feed_done_iff (fun _ _ => 0) (fun _ _ => Int.le_refl 0) _ _).mp (by decide)

end Apackage.Rtp2httpd
