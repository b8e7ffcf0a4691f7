import Mathlib.Data.Nat.Log
import Mathlib.Data.List.Basic
import Mathlib.Tactic.Ring

/-
  Syntax written in bits and its readers.

  `bits n v` are the `n` low bits of `v`, the highest first, `value` is their number, `ue` and
  `se` are the Exp-Golomb codes. A reader is a `StateT σ Option`, none for an exception, and
  `view : σ → List Bool` says which bits are still to come.

  - `Takes view p bs post`: where the bits `bs` come next, `p` takes them and returns a value that
    meets `post`. Readers put together read the bits put together (`Takes.bind`).
  - `Simulates view p q`: `p` does on a state what `q` does on its view.
-/

namespace Apackage.Lib.BitSyntax

open List Option

/-! ## Numbers -/

def bits : ℕ → ℕ → List Bool
  | 0, _ => []
  | n + 1, v => v.testBit n :: bits n v

def value (bs : List Bool) : ℕ := bs.foldl (fun v b => 2 * v + b.toNat) 0

@[simp] theorem length_bits (n v : ℕ) : (bits n v).length = n := by
  induction n with
  | zero => rfl
  | succ n ih => rw [bits, length_cons, ih]

@[simp] theorem value_nil : value [] = 0 := rfl

theorem value_foldl (bs : List Bool) (v : ℕ) :
    bs.foldl (fun v b => 2 * v + b.toNat) v = v * 2 ^ bs.length + value bs := by
  induction bs generalizing v with
  | nil => simp
  | cons b bs ih =>
    rw [value, foldl_cons, foldl_cons, ih, ih (2 * 0 + b.toNat), length_cons, Nat.pow_succ]
    ring

theorem value_cons (b : Bool) (bs : List Bool) :
    value (b :: bs) = b.toNat * 2 ^ bs.length + value bs := by
  rw [value, foldl_cons, value_foldl, Nat.mul_zero, Nat.zero_add]

theorem value_append (as bs : List Bool) :
    value (as ++ bs) = value as * 2 ^ bs.length + value bs := by
  rw [value, foldl_append, value_foldl]
  rfl

theorem value_lt (bs : List Bool) : value bs < 2 ^ bs.length := by
  induction bs with
  | nil => decide
  | cons b bs ih =>
    have hb : b.toNat * 2 ^ bs.length ≤ 1 * 2 ^ bs.length := Nat.mul_le_mul_right _ b.toNat_le
    rw [value_cons, length_cons, Nat.pow_succ]
    omega

theorem value_bits (n v : ℕ) : value (bits n v) = v % 2 ^ n := by
  induction n with
  | zero => rw [bits, value_nil, Nat.pow_zero, Nat.mod_one]
  | succ n ih =>
    rw [bits, value_cons, ih, length_bits, Nat.mod_pow_succ, Nat.toNat_testBit, Nat.mul_comm,
      Nat.add_comm]

theorem value_bits_of_lt {n v : ℕ} (h : v < 2 ^ n) : value (bits n v) = v := by
  rw [value_bits, Nat.mod_eq_of_lt h]

theorem getElem?_bits {n i : ℕ} (h : i < n) (v : ℕ) :
    (bits n v)[i]? = some (v.testBit (n - 1 - i)) := by
  induction n generalizing i with
  | zero => omega
  | succ n ih =>
    cases i with
    | zero => rfl
    | succ i =>
      rw [bits, getElem?_cons_succ, ih (by omega)]
      congr 2
      omega

theorem bits_congr {n v w : ℕ} (h : v % 2 ^ n = w % 2 ^ n) : bits n v = bits n w := by
  induction n with
  | zero => rfl
  | succ n ih =>
    have htop : v.testBit n = w.testBit n := by
      have hbit := congrArg (Nat.testBit · n) h
      simpa [Nat.testBit_mod_two_pow] using hbit
    have hlow : v % 2 ^ n = w % 2 ^ n := by
      have hmod := congrArg (· % 2 ^ n) h
      simpa [Nat.mod_mod_of_dvd _ (Nat.pow_dvd_pow 2 n.le_succ)] using hmod
    rw [bits, bits, htop, ih hlow]

theorem bits_mod (n v : ℕ) : bits n (v % 2 ^ n) = bits n v := bits_congr (Nat.mod_mod _ _)

theorem bits_value (bs : List Bool) : bits bs.length (value bs) = bs := by
  induction bs with
  | nil => rfl
  | cons b bs ih =>
    have hlt := value_lt bs
    have htop : (b.toNat * 2 ^ bs.length + value bs).testBit bs.length = b := by
      rw [Nat.testBit_eq_decide_div_mod_eq, Nat.add_comm, Nat.add_mul_div_right _ _ (by omega),
        Nat.div_eq_of_lt hlt]
      cases b with
      | false => rfl
      | true => rfl
    have hlow : (b.toNat * 2 ^ bs.length + value bs) % 2 ^ bs.length =
        value bs % 2 ^ bs.length := by
      rw [Nat.add_comm, Nat.add_mul_mod_self_right]
    rw [value_cons, length_cons, bits, htop, bits_congr hlow, ih]

theorem bits_add (n k v : ℕ) : bits (n + k) v = bits n (v / 2 ^ k) ++ bits k v := by
  induction n with
  | zero => rw [Nat.zero_add]; rfl
  | succ n ih => rw [Nat.add_right_comm, bits, bits, ih, cons_append, Nat.testBit_div_two_pow]

theorem bits_mul (n k v : ℕ) : bits (n + k) (v * 2 ^ k) = bits n v ++ bits k 0 := by
  rw [bits_add, Nat.mul_div_cancel _ (Nat.two_pow_pos k)]
  exact congrArg _ (bits_congr (by rw [Nat.mul_mod_left, Nat.zero_mod]))

/-! ## Exp-Golomb codes -/

/-- As many zeros as `v + 1` has bits behind its highest one, and these bits. -/
def ue (v : ℕ) : List Bool :=
  List.replicate (Nat.log 2 (v + 1)) false ++ bits (Nat.log 2 (v + 1) + 1) (v + 1)

/-- The signed numbers in the order 0, 1, -1, 2, -2. -/
def se (k : ℤ) : List Bool := ue (if 0 < k then 2 * k - 1 else -2 * k).toNat

/-- A flag, and what follows it when it is set. -/
def flagged {α : Type*} (f : α → List Bool) : Option α → List Bool
  | none => [false]
  | some a => true :: f a

theorem bits_log_succ {v : ℕ} (h : v ≠ 0) :
    bits (Nat.log 2 v + 1) v = true :: bits (Nat.log 2 v) v := by
  have htop : v / 2 ^ Nat.log 2 v = 1 := by
    have hlo := Nat.pow_log_le_self 2 h
    have hhi := Nat.lt_pow_succ_log_self Nat.one_lt_two v
    rw [Nat.pow_succ] at hhi
    exact Nat.div_eq_of_lt_le (by omega) (by omega)
  rw [bits, Nat.testBit_eq_decide_div_mod_eq, htop]
  rfl

theorem replicate_true_inj {k z : ℕ} {as bs : List Bool}
    (h : List.replicate k false ++ true :: as = List.replicate z false ++ true :: bs) :
    k = z ∧ as = bs := by
  induction k generalizing z with
  | zero =>
    cases z with
    | zero => exact ⟨rfl, tail_eq_of_cons_eq h⟩
    | succ z => cases h
  | succ k ih =>
    cases z with
    | zero => cases h
    | succ z =>
      obtain ⟨hk, hrest⟩ := ih (tail_eq_of_cons_eq h)
      exact ⟨congrArg _ hk, hrest⟩

theorem replicate_le {k z : ℕ} {as bs : List Bool}
    (h : List.replicate k false ++ as = List.replicate z false ++ true :: bs) :
    k ≤ z ∧ as = List.replicate (z - k) false ++ true :: bs := by
  induction k generalizing z with
  | zero => exact ⟨Nat.zero_le z, h⟩
  | succ k ih =>
    cases z with
    | zero => cases h
    | succ z =>
      grind

variable {bs : List Bool}

theorem first_true {k : ℕ} (h : (List.range bs.length).find? (fun i => bs[i]?.getD false) = some k)
    :
    ∃ later, bs = List.replicate k false ++ true :: later := by
  rw [find?_range_eq_some] at h
  obtain ⟨htrue, hmem, hfalse⟩ := h
  have hlt := mem_range.1 hmem
  rw [getElem?_eq_getElem hlt, getD_some] at htrue
  refine ⟨bs.drop (k + 1), ?_⟩
  conv_lhs => rw [← take_append_drop k bs, drop_eq_getElem_cons hlt, htrue]
  congr 1
  refine eq_replicate_iff.2 ⟨by rw [length_take]; omega, fun b hb => ?_⟩
  obtain ⟨i, hi, rfl⟩ := getElem_of_mem hb
  rw [length_take] at hi
  have hnot := hfalse i (by omega)
  rw [getElem?_eq_getElem (by omega), getD_some] at hnot
  rw [getElem_take]
  simpa using hnot

theorem no_true (h : (List.range bs.length).find? (fun i => bs[i]?.getD false) = none) :
    bs = List.replicate bs.length false := by
  rw [find?_range_eq_none] at h
  refine eq_replicate_iff.2 ⟨rfl, fun b hb => ?_⟩
  obtain ⟨i, hi, rfl⟩ := getElem_of_mem hb
  have hnot := h i hi
  rw [getElem?_eq_getElem hi, getD_some] at hnot
  simpa using hnot

/-! ## Readers -/

section Readers

variable {σ τ α β : Type} {view : σ → List Bool}

def Takes (view : σ → List Bool) (p : StateT σ Option α) (bs : List Bool) (post : α → Prop) :
    Prop :=
  ∀ s rest, view s = bs ++ rest → ∃ a s', p s = some (a, s') ∧ view s' = rest ∧ post a

/-- Where the bits `bs` come next, `p` takes them and returns `a`. -/
def Reads (view : σ → List Bool) (p : StateT σ Option α) (bs : List Bool) (a : α) : Prop :=
  Takes view p bs (· = a)

variable {p : StateT σ Option α} {f : α → StateT σ Option β}

theorem bind_run {s s' : σ} {a : α} (h : p s = some (a, s')) : (p >>= f) s = f a s' := by
  simp [Bind.bind, StateT.bind, h, bind_some]

variable {post : α → Prop} {post' : β → Prop}

theorem Takes.bind {bs cs : List Bool} (hp : Takes view p bs post)
    (hf : ∀ a, post a → Takes view (f a) cs post') : Takes view (p >>= f) (bs ++ cs) post' := by
  intro s rest hs
  rw [append_assoc] at hs
  obtain ⟨a, s', hrun, hview, hpost⟩ := hp s (cs ++ rest) hs
  obtain ⟨b, s'', hrun', hview', hpost'⟩ := hf a hpost s' rest hview
  exact ⟨b, s'', (bind_run hrun).trans hrun', hview', hpost'⟩

variable {bs : List Bool}

theorem Takes.mono {post post' : α → Prop} (h : ∀ a, post a → post' a) (hp : Takes view p bs post) :
    Takes view p bs post' := by
  intro s rest hs
  obtain ⟨a, s', hrun, hview, hpost⟩ := hp s rest hs
  exact ⟨a, s', hrun, hview, h a hpost⟩

theorem Reads.pure (a : α) : Reads view (Pure.pure a : StateT σ Option α) [] a :=
  fun s _ hs => ⟨a, s, rfl, hs, rfl⟩

theorem Reads.next {p : StateT σ Option α} {f : α → StateT σ Option β} {bs cs : List Bool}
    {a : α} {post : β → Prop} (hp : Reads view p bs a) (hf : Takes view (f a) cs post) :
    Takes view (p >>= f) (bs ++ cs) post := by
  refine Takes.bind hp ?_
  rintro _ rfl
  exact hf

theorem Reads.bind {bs cs : List Bool} {a : α} {b : β} (hp : Reads view p bs a)
    (hf : Reads view (f a) cs b) : Reads view (p >>= f) (bs ++ cs) b :=
  hp.next hf

theorem Takes.skip {bs cs : List Bool} {b : β} (hp : Takes view p bs post)
    (hf : ∀ a, Reads view (f a) cs b) : Reads view (p >>= f) (bs ++ cs) b :=
  Takes.bind hp fun a _ => hf a

theorem Takes.bind_pure {f : α → β} (hp : Takes view p bs post) (h : ∀ a, post a → post' (f a)) :
    Takes view (p >>= fun a => Pure.pure (f a)) bs post' := by
  have hbind : Takes view (p >>= fun a => Pure.pure (f a)) (bs ++ []) post' :=
    Takes.bind hp fun a ha s _ hs => ⟨f a, s, rfl, hs, h a ha⟩
  rwa [append_nil] at hbind

theorem Reads.bind_pure {a : α} (hp : Reads view p bs a) (f : α → β) :
    Reads view (p >>= fun a => Pure.pure (f a)) bs (f a) :=
  Takes.bind_pure hp fun _ h => congrArg f h

theorem Takes.flagged {r : StateT σ Option Bool} (hr : ∀ b, Reads view r [b] b)
    {p q : StateT σ Option β} {f : α → List Bool} {o : Option α} {post : β → Prop}
    (hsome : ∀ a, o = some a → Takes view p (f a) post)
    (hnone : o = none → Takes view q [] post) :
    Takes view (do if ← r then p else q) (flagged f o) post := by
  cases o with
  | none =>
    refine Takes.bind (hr false) fun b hb => ?_
    rw [hb]
    exact hnone rfl
  | some a =>
    refine Takes.bind (hr true) fun b hb => ?_
    rw [hb]
    exact hsome a rfl

/-- `n` rounds of a loop, with the numbers from `i` on. -/
def countUp (p : ℕ → StateT σ Option α) : ℕ → ℕ → StateT σ Option Unit
  | _, 0 => pure ()
  | i, n + 1 => do
    let _ ← p i
    countUp p (i + 1) n

theorem takes_countUp {p : ℕ → StateT σ Option α} {f : β → List Bool} {bs : List β} {i : ℕ}
    (h : ∀ j b, bs[j]? = some b → Takes view (p (i + j)) (f b) fun _ => True) :
    Takes view (countUp p i bs.length) (bs.flatMap f) fun _ => True := by
  induction bs generalizing i with
  | nil => exact Takes.mono (fun _ _ => trivial) (Reads.pure ())
  | cons b bs ih =>
    refine Takes.bind (h 0 b rfl) fun _ _ => ih fun j c hc => ?_
    rw [Nat.add_right_comm]
    exact h (j + 1) c hc

end Readers

/-! ## A reader on a view -/

section Simulations

variable {σ τ α β : Type} {view : σ → τ}

/-- `p` does on a state what `q` does on its view. -/
def Simulates (view : σ → τ) (p : StateT σ Option α) (q : StateT τ Option α) : Prop :=
  ∀ s, (p s).map (Prod.map id view) = q (view s)

theorem Simulates.pure (a : α) :
    Simulates view (Pure.pure a : StateT σ Option α) (Pure.pure a) := fun _ => rfl

theorem Simulates.failure : Simulates view (failure : StateT σ Option α) failure := fun _ => rfl

variable {p : StateT σ Option α} {q : StateT τ Option α}

theorem Simulates.bind {f : α → StateT σ Option β} {g : α → StateT τ Option β}
    (hp : Simulates view p q) (hf : ∀ a, Simulates view (f a) (g a)) :
    Simulates view (p >>= f) (q >>= g) := by
  intro s
  have hs := hp s
  simp only [Bind.bind, StateT.bind]
  cases hrun : p s with
  | none =>
    rw [hrun] at hs
    rw [← hs]
    rfl
  | some r =>
    rw [hrun] at hs
    rw [← hs]
    exact hf r.1 r.2

theorem Simulates.ite {c : Prop} [Decidable c] {p p' : StateT σ Option α}
    {q q' : StateT τ Option α} (h : c → Simulates view p q) (h' : ¬c → Simulates view p' q') :
    Simulates view (if c then p else p') (if c then q else q') := by
  split_ifs with hc
  · exact h hc
  · exact h' hc

theorem Simulates.eq_none_iff (h : Simulates view p q) (s : σ) :
    p s = none ↔ q (view s) = none := by
  rw [← h s, map_eq_none_iff]

end Simulations

/-! ## The reader of a list -/

/-- The number of the next `n` bits. -/
def takeBits (n : ℕ) : StateT (List Bool) Option ℤ := fun bs =>
  if n ≤ bs.length then some ((value (bs.take n) : ℤ), bs.drop n) else none

/-- The number of the `n` bits from `start` on. -/
def field (bs : List Bool) (start n : ℕ) : ℕ := value ((bs.drop start).take n)

theorem field_append {start n : ℕ} (h : start + n ≤ bs.length) (later : List Bool) :
    field (bs ++ later) start n = field bs start n := by
  rw [field, field, drop_append_of_le_length (by omega),
    take_append_of_le_length (by rw [length_drop]; omega)]

end Apackage.Lib.BitSyntax
