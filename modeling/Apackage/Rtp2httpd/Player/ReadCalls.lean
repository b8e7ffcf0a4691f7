import Apackage.Rtp2httpd.Player.ExpGolomb

/-
  Which calls of the bit reader say what the bits are (`exp-golomb.ts`).

  A call is compared with its meaning on the bits that are left (`Right`). A field that runs into
  the next word becomes negative when its 32 bits begin with a one, one that runs over the end is
  cut short as long as a byte is left behind the word, and one of no bits is the word itself.
-/

namespace Apackage.Rtp2httpd.Player.ExpGolomb

open List Option Lib.BitSyntax

/-! ## Calls -/

/-- `readBits(n)`, `readUEG()` and `readSEG()`. -/
inductive ReadCall
  | bits (n : Fin 33)
  | ueg
  | seg

def ReadCall.run : ReadCall → StateT ExpGolomb Option ℤ
  | .bits n => readBits n
  | .ueg => readUEG
  | .seg => readSEG

def zeros (bs : List Bool) : ℕ := (bs.takeWhile (! ·)).length

/-- The Exp-Golomb code that comes next, if it is there. -/
def takeUe : StateT (List Bool) Option ℤ := fun bs =>
  ((takeBits (zeros bs + 1)) (bs.drop (zeros bs))).map (Prod.map (· - 1) id)

/-- The numbers of the codes in the order 0, 1, -1, 2, -2. -/
def alternating (v : ℤ) : ℤ := if v % 2 = 1 then (v + 1) / 2 else -(v / 2)

/-- What a call is on the bits: none where they are not all there. -/
def ReadCall.meaning : ReadCall → StateT (List Bool) Option ℤ
  | .bits n => takeBits n
  | .ueg => takeUe
  | .seg => fun bs => (takeUe bs).map (Prod.map alternating id)

/-- The number that the bits say, and behind it the bits that follow. -/
def Right (p : StateT ExpGolomb Option ℤ) (q : StateT (List Bool) Option ℤ) (gb : ExpGolomb) :
    Prop := (p gb).map (Prod.map id view) = q gb.view

/-! ## Conditions -/

/-- The bytes behind the word that has the bit `z`. -/
def bytesBehind (gb : ExpGolomb) (z : ℕ) : ℕ :=
  if z < gb.currentWordBitsLeft then gb.buffer.length
  else gb.buffer.length - 4 * ((z - gb.currentWordBitsLeft) / 32 + 1)

/-- A field of `n` bits. -/
def FieldFits (gb : ExpGolomb) (n : ℕ) : Prop :=
  if n = 0 then gb.currentWord = 0
  else if n ≤ gb.view.length then
    n = 32 → gb.currentWordBitsLeft < 32 → gb.view.head? = some false
  else gb.buffer = []

/-- A code with `z` zeros, of which less than `bound` fit if it is there. -/
def CodeFits (gb : ExpGolomb) (z bound : ℕ) : Prop :=
  if z = gb.view.length then True
  else if 2 * z + 1 ≤ gb.view.length then z < bound ∨ z = 31 ∧ gb.currentWordBitsLeft = 31
  else 32 ≤ z ∨ gb.bytesBehind z = 0

def ReadCall.Fits (gb : ExpGolomb) : ReadCall → Prop
  | .bits n => FieldFits gb n
  | .ueg => CodeFits gb (zeros gb.view) 31
  | .seg => CodeFits gb (zeros gb.view) 32

/-! ## Fields -/

theorem signed_range (x : UInt32) : -2 ^ 31 ≤ signed x ∧ signed x < 2 ^ 31 := by
  have hlt := x.toNat_lt
  rw [signed_eq]
  split_ifs <;> omega

variable {gb gb' : ExpGolomb} {n : ℕ}

theorem readBits_range {x : ℤ} (h : readBits n gb = some (x, gb')) :
    if n ≤ gb.currentWordBitsLeft then 0 ≤ x else -2 ^ 31 ≤ x ∧ x < 2 ^ 31 := by
  rw [readBits] at h
  by_cases hn : 32 < n
  · rw [if_pos hn] at h
    cases h
  rw [if_neg hn] at h
  by_cases hword : n ≤ gb.currentWordBitsLeft
  · grind
  · rw [if_neg hword] at h ⊢
    obtain ⟨gb₁, -, heq⟩ := map_eq_some_iff.1 h
    obtain ⟨rfl, -⟩ := Prod.mk.inj heq
    exact signed_range _

theorem head_of_value {bs : List Bool} (h : bs.length = 32) :
    value bs < 2 ^ 31 ↔ bs.head? = some false := by
  cases bs with
  | nil => cases h
  | cons b bs =>
    have hlen : bs.length = 31 := Nat.succ.inj h
    have hlt := value_lt bs
    rw [value_cons, hlen, head?_cons, Option.some.injEq]
    rw [hlen] at hlt
    cases b with
    | false =>
      simp
      omega
    | true => simp

theorem fieldFits_iff (hn : n ≤ 32) (gb : ExpGolomb) :
    Right (readBits n) (takeBits n) gb ↔ FieldFits gb n := by
  unfold Right FieldFits takeBits
  by_cases hzero : n = 0
  · -- the whole word is shifted by nothing
    subst hzero
    have hword : readBits 0 gb = some ((gb.currentWord.toNat : ℤ), gb.shift 0) := by
      rw [readBits, if_neg (by omega), if_pos (Nat.zero_le _), high]
      simp
    have hview : (gb.shift 0).view = gb.view := by
      have h := @shift_view gb [] gb.view (Nat.zero_le _) rfl
      exact h
    rw [if_pos rfl, if_pos (Nat.zero_le _), hword, map_some, Prod.map, hview,
      take_zero, drop_zero, value_nil, ← UInt32.toNat_inj]
    simp
  rw [if_neg hzero]
  by_cases hall : n ≤ gb.view.length
  · rw [if_pos hall, if_pos hall]
    have hlen := length_take_of_le hall
    obtain ⟨x, gb', hrun, hview, hx⟩ := readBits_spec (Nat.pos_of_ne_zero hzero) hn hlen
      (take_append_drop n gb.view).symm
    have hrange := readBits_range hrun
    have hbound := value_lt (gb.view.take n)
    have hiff : x = value (gb.view.take n) ↔
        (n = 32 → gb.currentWordBitsLeft < 32 → gb.view.head? = some false) := by
      rw [hlen] at hbound
      by_cases h32 : n = 32
      · subst h32
        have hhead : (gb.view.take 32).head? = gb.view.head? := by
          rw [head?_take, if_neg (by decide)]
        rw [← hhead, ← head_of_value hlen]
        split_ifs at hrange with hword <;> constructor <;> intro h <;> omega
      · exact ⟨fun _ h => absurd h h32, fun _ => hx.resolve_right fun h => h32 h.1⟩
    rw [← hiff, hrun, map_some, Prod.map, hview]
    simp
  · rw [if_neg hall, if_neg hall, map_eq_none_iff]
    rw [length_view] at hall
    rw [readBits, if_neg (by omega), if_neg (by omega), map_eq_none_iff, fillCurrentWord]
    split_ifs with hnil <;> simp [hnil]

/-! ## Codes -/

theorem zeros_cases (bs : List Bool) : true ∉ bs ∧ zeros bs = bs.length ∨
    ∃ rest, bs = List.replicate (zeros bs) false ++ true :: rest := by
  induction bs with
  | nil => exact .inl ⟨not_mem_nil, rfl⟩
  | cons b bs ih =>
    cases b with
    | true => exact .inr ⟨bs, rfl⟩
    | false =>
      have hzeros : zeros (false :: bs) = zeros bs + 1 := rfl
      rw [hzeros]
      obtain ⟨hnot, heq⟩ | ⟨rest, hrest⟩ := ih
      · exact .inl ⟨by simpa using hnot, by rw [heq, length_cons]⟩
      · tauto

theorem skipLeadingZeroFrom_none (h : true ∉ gb.view) : skipLeadingZeroFrom n gb = none := by
  have hcount {gb : ExpGolomb} (h : true ∉ gb.view) : gb.zeroCount = none := by
    cases hword : gb.zeroCount with
    | none => rfl
    | some k =>
      rw [zeroCount_eq] at hword
      obtain ⟨later, hbits⟩ := first_true hword
      refine absurd ?_ h
      rw [view, hbits]
      simp
  induction n generalizing gb with
  | zero => rw [skipLeadingZeroFrom, hcount h, map_none]
  | succ n ih =>
    rw [skipLeadingZeroFrom, hcount h]
    cases hfill : gb.fillCurrentWord with
    | none => rfl
    | some gb' =>
      have hnext : true ∉ gb'.view := by
        rw [(fillCurrentWord_spec hfill).1]
        exact fun hmem => h (mem_append_right _ hmem)
      simp only [bind_eq_bind, bind_some, ih hnext]
      rfl

theorem skipLeadingZeroFrom_buffer {z : ℕ} (h : skipLeadingZeroFrom n gb = some (z, gb')) :
    gb'.buffer.length = gb.bytesBehind z := by
  have hword {gb : ExpGolomb} {z : ℕ} (h : gb.zeroCount = some z) :
      (gb.shift z).buffer.length = gb.bytesBehind z := by
    have hmem := mem_range.1 (mem_of_find?_eq_some h)
    rw [bytesBehind, if_pos hmem, shift_buffer]
  induction n generalizing gb z with
  | zero =>
    rw [skipLeadingZeroFrom] at h
    obtain ⟨k, hcount, heq⟩ := map_eq_some_iff.1 h
    obtain ⟨rfl, rfl⟩ := Prod.mk.inj heq
    exact hword hcount
  | succ n ih =>
    rw [skipLeadingZeroFrom] at h
    cases hcount : gb.zeroCount with
    | some k =>
      rw [hcount] at h
      obtain ⟨rfl, rfl⟩ := Prod.mk.inj (some.inj h)
      exact hword hcount
    | none =>
      rw [hcount] at h
      obtain ⟨gb₁, hfill, h⟩ := bind_eq_some_iff.1 h
      obtain ⟨⟨k, gb₂⟩, hskip, h⟩ := bind_eq_some_iff.1 h
      obtain ⟨rfl, rfl⟩ := Prod.mk.inj (some.inj h)
      obtain ⟨-, hleft, hbuffer⟩ := fillCurrentWord_spec hfill
      have hlen := congrArg List.length hbuffer
      rw [length_drop] at hlen
      rw [ih hskip, bytesBehind, bytesBehind, hleft, hlen]
      split_ifs <;> omega

theorem codeFits_iff {z bound : ℕ} {rest : List Bool} {f g : ℤ → ℤ}
    (hview : gb.view = List.replicate z false ++ true :: rest) (hview' : gb'.view = true :: rest)
    (hbuffer : gb'.buffer.length = gb.bytesBehind z) (hbound : bound = 31 ∨ bound = 32)
    (hfg : ∀ v, 0 ≤ v → v < 2 ^ 32 → f v = g v)
    (hsigned : ∀ v, 2 ^ 31 ≤ v → v < 2 ^ 32 → (f (v - 2 ^ 32) = g v ↔ bound = 32)) :
    (readBits (z + 1) gb').map (Prod.map f view) =
        (takeBits (z + 1) (true :: rest)).map (Prod.map g id) ↔ CodeFits gb z bound := by
  have hlen := congrArg List.length hview
  have hlen' := congrArg List.length hview'
  rw [length_view, length_append, length_replicate, length_cons] at hlen
  rw [length_view, length_cons] at hlen'
  rw [CodeFits, length_view, if_neg (by omega)]
  by_cases hall : z + 1 ≤ (true :: rest).length
  · rw [takeBits, if_pos hall, if_pos (by rw [length_cons] at hall; omega)]
    by_cases hz : z + 1 ≤ 32
    · obtain ⟨x, gb'', hrun, hrest, hx⟩ := readBits_spec (Nat.succ_pos z) hz
        (length_take_of_le hall) (hview'.trans (take_append_drop _ _).symm)
      have hrange := readBits_range hrun
      generalize hv : value ((true :: rest).take (z + 1)) = v at hx ⊢
      have hhigh : 2 ^ z ≤ v ∧ v < 2 ^ (z + 1) := by
        have hlt := value_lt ((true :: rest).take (z + 1))
        rw [length_take_of_le hall, hv] at hlt
        refine ⟨?_, hlt⟩
        rw [length_cons] at hall
        rw [← hv, take_succ_cons, value_cons, length_take_of_le (by omega)]
        exact Nat.le_trans (by simp) (Nat.le_add_right _ _)
      rw [hrun, map_some, map_some, Prod.map, Prod.map, hrest]
      simp only [Option.some.injEq, Prod.mk.injEq, id, and_true]
      by_cases h31 : z = 31
      · subst h31
        have hword : 32 ≤ gb'.currentWordBitsLeft ↔ gb.currentWordBitsLeft = 31 := by
          have hle := gb.bitsLeft_le
          rw [length_cons] at hall
          rw [bytesBehind] at hbuffer
          split_ifs at hbuffer <;> omega
        by_cases hfull : gb.currentWordBitsLeft = 31
        · grind
        · grind
      · have hpow : 2 ^ (z + 1) ≤ 2 ^ 31 := Nat.pow_le_pow_right (by decide) (by omega)
        obtain rfl : x = v := hx.resolve_right fun h => h31 (by omega)
        exact iff_of_true (hfg _ (by omega) (by omega)) (.inl (by omega))
    · rw [readBits, if_pos (by omega)]
      exact iff_of_false (by rintro ⟨⟩) (by omega)
  · rw [takeBits, if_neg hall, if_neg (by rw [length_cons] at hall; omega),
      map_none, map_eq_none_iff]
    by_cases hz : z + 1 ≤ 32
    · have hfield := fieldFits_iff hz gb'
      rw [Right, FieldFits, if_neg (Nat.succ_ne_zero z), hview', takeBits, if_neg hall, if_neg hall,
        map_eq_none_iff, ← length_eq_zero_iff, hbuffer] at hfield
      rw [hfield]
      omega
    · rw [readBits, if_pos (by omega)]
      exact iff_of_true rfl (.inl (by omega))

/-! ## Calls one after the other -/

/-- `(value + 1) >>> 1` or `-1 * (value >>> 1)`. -/
def signedCode (value : ℤ) : ℤ :=
  if value % 2 = 1 then (value + 1) % 2 ^ 32 / 2 else -1 * (value % 2 ^ 32 / 2)

theorem readUEG_eq (gb : ExpGolomb) : readUEG gb = (skipLeadingZero gb).bind fun r =>
      (readBits (r.1 + 1) r.2).map (Prod.map (· - 1) id) := by
  simp only [readUEG, Bind.bind, StateT.bind]
  refine congrArg _ (funext fun r => ?_)
  cases readBits (r.1 + 1) r.2 <;> rfl

theorem readSEG_eq (gb : ExpGolomb) : readSEG gb = (readUEG gb).map (Prod.map signedCode id) := by
  simp only [readSEG, Bind.bind, StateT.bind]
  cases readUEG gb with
  | none => rfl
  | some r =>
    simp only [bind_some, map_some, Prod.map, signedCode]
    split_ifs <;> rfl

theorem right_iff (c : ReadCall) (gb : ExpGolomb) : Right c.run c.meaning gb ↔ c.Fits gb := by
  have hcode {f g : ℤ → ℤ} {bound : ℕ} (hbound : bound = 31 ∨ bound = 32)
      (hfg : ∀ v, 0 ≤ v → v < 2 ^ 32 → f (v - 1) = g (v - 1))
      (hsigned : ∀ v, 2 ^ 31 ≤ v → v < 2 ^ 32 → (f (v - 2 ^ 32 - 1) = g (v - 1) ↔ bound = 32)) :
      (readUEG gb).map (Prod.map f view) = (takeUe gb.view).map (Prod.map g id) ↔
        CodeFits gb (zeros gb.view) bound := by
    rw [readUEG_eq, takeUe]
    obtain ⟨hnot, heq⟩ | ⟨rest, hrest⟩ := zeros_cases gb.view
    · rw [skipLeadingZero, skipLeadingZeroFrom_none hnot, CodeFits, if_pos heq, heq,
        drop_length, takeBits, if_neg (by simp)]
      exact iff_of_true rfl trivial
    · obtain ⟨gb', hskip, hview'⟩ := takes_skipLeadingZero hrest
      have hdrop : gb.view.drop (zeros gb.view) = true :: rest := by
        generalize zeros gb.view = z at hrest
        rw [hrest]
        exact drop_left' length_replicate
      have hfits := codeFits_iff hrest hview' (skipLeadingZeroFrom_buffer hskip) hbound hfg hsigned
      rw [hskip, bind_some, hdrop, Option.map_map, Option.map_map, Prod.map_comp_map,
        Prod.map_comp_map]
      exact hfits
  cases c with
  | bits n => exact fieldFits_iff (Nat.le_of_lt_succ n.isLt) gb
  | ueg =>
    refine Iff.trans ?_ (@hcode id id 31 (.inl rfl) (fun _ _ _ => rfl) fun v _ _ => ?_)
    · rw [Prod.map_id, Option.map_id]
      exact Iff.rfl
    · simp
  | seg =>
    refine Iff.trans ?_ (@hcode signedCode alternating 32 (.inr rfl) (fun v _ _ => ?_)
      fun v _ _ => ?_)
    · rw [Right, ReadCall.run, readSEG_eq, Option.map_map, Prod.map_comp_map]
      exact Iff.rfl
    · unfold signedCode alternating
      split_ifs <;> omega
    · unfold signedCode alternating
      split_ifs <;> omega

/-- Every call up to the first exception, from the state that the ones before leave. -/
def Always (holds : ReadCall → ExpGolomb → Prop) : List ReadCall → ExpGolomb → Prop
  | [], _ => True
  | c :: calls, gb => holds c gb ∧ ∀ r, c.run gb = some r → Always holds calls r.2

/-- What the calls return, none for the exception that ends them. -/
def answers {σ : Type} (read : ReadCall → StateT σ Option ℤ) : List ReadCall → σ → List (Option ℤ)
  | [], _ => []
  | c :: calls, s =>
    match read c s with
    | none => [none]
    | some r => some r.1 :: answers read calls r.2

theorem answers_of_right {calls : List ReadCall}
    (h : Always (fun c => Right c.run c.meaning) calls gb) :
    answers ReadCall.run calls gb = answers ReadCall.meaning calls gb.view := by
  induction calls generalizing gb with
  | nil => rfl
  | cons c calls ih =>
    obtain ⟨hright, hnext⟩ := h
    rw [Right] at hright
    rw [answers, answers, ← hright]
    cases hrun : c.run gb with
    | none => rfl
    | some r => exact congrArg _ (ih (hnext r hrun))

/-- Along a run of calls over an array of bytes, every one says what the bits are exactly where
    every one fits. -/
theorem read_calls_right_iff (data : Bytes) (calls : List ReadCall) :
    Always (fun c => Right c.run c.meaning) calls (ofBytes data) ↔
      Always (fun c gb => c.Fits gb) calls (ofBytes data) := by
  generalize ofBytes data = gb
  induction calls generalizing gb with
  | nil => exact Iff.rfl
  | cons c calls ih =>
    exact and_congr (right_iff c gb) (forall_congr' fun r => imp_congr_right fun _ => ih r.2)

/-- Eight bits and then 32: the second number runs into the next word. -/
theorem straddling_field_negative :
    answers ReadCall.run [.bits 8, .bits 32] (ofBytes [0, 255, 255, 255, 255]) =
        [some 0, some (-1)] ∧
      ¬ Always (fun c => Right c.run c.meaning) [.bits 8, .bits 32]
        (ofBytes [0, 255, 255, 255, 255]) := by
  have hrun : answers ReadCall.run [.bits 8, .bits 32] (ofBytes [0, 255, 255, 255, 255]) =
      [some 0, some (-1)] := by decide
  refine ⟨hrun, fun h => ?_⟩
  have hmeaning := answers_of_right h
  rw [hrun] at hmeaning
  exact absurd hmeaning (by decide)

end Apackage.Rtp2httpd.Player.ExpGolomb
