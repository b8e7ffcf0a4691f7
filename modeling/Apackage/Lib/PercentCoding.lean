import Mathlib.Data.List.Basic
import Mathlib.Data.Nat.Notation

/-
  Percent coding of byte strings over a set of bytes that stand for themselves.

  `encode safe` writes a byte outside `safe` as `%XX` with upper-case digits; `decode` accepts
  digits of either case and fails on any other use of `%`. When `%` is not safe the two are inverse
  (`decode_encode`), and encoding adds no bytes but `%`, digits and safe ones (`mem_encode`).
-/

namespace Apackage.Lib.PercentCoding

open List

/-- `%`. -/
def percent : UInt8 := 0x25

/-- The upper-case digit of a number below 16. -/
def hexChar (n : ℕ) : UInt8 :=
  if n < 10 then UInt8.ofNat (0x30 + n) else UInt8.ofNat (0x41 + (n - 10))

/-- `isxdigit` with the value of the digit. -/
def hexValue (c : UInt8) : Option ℕ :=
  if 0x30 ≤ c ∧ c ≤ 0x39 then some (c.toNat - 0x30)
  else if 0x41 ≤ c ∧ c ≤ 0x46 then some (c.toNat - 0x41 + 10)
  else if 0x61 ≤ c ∧ c ≤ 0x66 then some (c.toNat - 0x61 + 10)
  else none

variable (safe : UInt8 → Bool)

def encodeByte (c : UInt8) : List UInt8 :=
  if safe c then [c] else [percent, hexChar (c.toNat / 16), hexChar (c.toNat % 16)]

def encode (s : List UInt8) : List UInt8 := s.flatMap (encodeByte safe)

def decode : List UInt8 → Option (List UInt8)
  | [] => some []
  | c :: rest =>
    if c = percent then
      match rest with
      | h :: l :: rest' =>
        match hexValue h, hexValue l with
        | some a, some b => (decode rest').map (UInt8.ofNat (16 * a + b) :: ·)
        | _, _ => none
      | _ => none
    else (decode rest).map (c :: ·)

variable {safe}

@[simp] theorem encode_nil : encode safe [] = [] := rfl

variable (c : UInt8)

@[simp] theorem encode_cons (s : List UInt8) :
    encode safe (c :: s) = encodeByte safe c ++ encode safe s := rfl

@[simp] theorem encode_append (s t : List UInt8) :
    encode safe (s ++ t) = encode safe s ++ encode safe t := flatMap_append

theorem encodeByte_ne_nil : encodeByte safe c ≠ [] := by
  unfold encodeByte
  split <;> simp

/-! ## Digits -/

theorem hexValue_hexChar {n : ℕ} (h : n < 16) : hexValue (hexChar n) = some n := by
  have hall : ∀ m : Fin 16, hexValue (hexChar m) = some m.val := by decide
  exact hall ⟨n, h⟩

theorem hexChar_mem {n : ℕ} (h : n < 16) : hexChar n ∈ (List.range 16).map hexChar :=
  List.mem_map.2 ⟨n, mem_range.2 h, rfl⟩

theorem ofNat_digits : UInt8.ofNat (16 * (c.toNat / 16) + c.toNat % 16) = c := by
  rw [Nat.div_add_mod]
  exact UInt8.ofNat_toNat

/-! ## Decoding -/

theorem decode_cons_of_ne {c : UInt8} (h : c ≠ percent) (s : List UInt8) :
    decode (c :: s) = (decode s).map (c :: ·) := by
  conv_lhs => unfold decode
  rw [if_neg h]

theorem decode_escape (s : List UInt8) :
    decode (percent :: hexChar (c.toNat / 16) :: hexChar (c.toNat % 16) :: s) =
      (decode s).map (c :: ·) := by
  have hc := c.toNat_lt
  have hhi : c.toNat / 16 < 16 := by omega
  have hlo : c.toNat % 16 < 16 := by omega
  rw [decode, if_pos rfl]
  simp only [hexValue_hexChar hhi, hexValue_hexChar hlo, ofNat_digits]

theorem decode_encodeByte (hp : safe percent = false) (c : UInt8) (s : List UInt8) :
    decode (encodeByte safe c ++ s) = (decode s).map (c :: ·) := by
  unfold encodeByte
  split
  · rename_i hs
    exact decode_cons_of_ne (fun he => by rw [he, hp] at hs; cases hs) s
  · exact decode_escape c s

theorem decode_encode_append (hp : safe percent = false) (s t : List UInt8) :
    decode (encode safe s ++ t) = (decode t).map (s ++ ·) := by
  induction s with
  | nil => simp
  | cons c s ih =>
    rw [encode_cons, append_assoc, decode_encodeByte hp, ih, Option.map_map]
    rfl

theorem decode_encode (hp : safe percent = false) (s : List UInt8) :
    decode (encode safe s) = some s := by
  have h := decode_encode_append hp s []
  simpa [decode] using h

theorem length_decode_le {s t : List UInt8} (h : decode s = some t) : t.length ≤ s.length := by
  fun_induction decode s generalizing t with
  | case1 =>
    obtain rfl := Option.some.inj h
    exact Nat.le_refl _
  | case2 h₁ l₁ rest' a b _ _ ih =>
    obtain ⟨w, hw, rfl⟩ := Option.map_eq_some_iff.1 h
    have hle := ih hw
    simp only [length_cons]
    omega
  | case3 => cases h
  | case4 => cases h
  | case5 c rest _ ih =>
    obtain ⟨w, hw, rfl⟩ := Option.map_eq_some_iff.1 h
    have hle := ih hw
    simp only [length_cons]
    omega

/-! ## The bytes of an encoding -/

variable {x : UInt8}

theorem mem_encode {s : List UInt8} (h : x ∈ encode safe s) :
    x = percent ∨ x ∈ (List.range 16).map hexChar ∨ safe x = true := by
  obtain ⟨c, -, hx⟩ := mem_flatMap.1 h
  have hc := c.toNat_lt
  unfold encodeByte at hx
  split at hx
  · rename_i hs
    rw [mem_singleton.1 hx]
    exact .inr (.inr hs)
  · simp only [List.mem_cons, not_mem_nil, or_false] at hx
    rcases hx with rfl | rfl | rfl
    · exact .inl rfl
    · exact .inr (.inl (hexChar_mem (by omega)))
    · exact .inr (.inl (hexChar_mem (by omega)))

theorem not_mem_encode (hx : safe x = false) (hp : x ≠ percent)
    (hd : x ∉ (List.range 16).map hexChar) (s : List UInt8) : x ∉ encode safe s := by
  intro h
  rcases mem_encode h with h | h | h
  · exact hp h
  · exact hd h
  · exact absurd (hx.symm.trans h) (by decide)

/-- The last byte of an encoding is a safe byte `x` that is no digit exactly when the last
    byte encoded is. -/
theorem getLast?_encode (hx : safe x = true) (hd : x ∉ (List.range 16).map hexChar) (s : List UInt8)
    :
    (encode safe s).getLast? = some x ↔ s.getLast? = some x := by
  rcases eq_nil_or_concat s with rfl | ⟨t, c, rfl⟩
  · simp
  · rw [concat_eq_append, encode_append, encode_cons, encode_nil, append_nil,
      getLast?_append_of_ne_nil _ (encodeByte_ne_nil c), getLast?_concat]
    unfold encodeByte
    split
    · simp
    · rename_i hs
      refine iff_of_false (fun h => hd ?_) fun h => hs ?_
      · have hlast : hexChar (c.toNat % 16) = x := by simpa using h
        rw [← hlast]
        exact hexChar_mem (by omega)
      · rw [Option.some.inj h]
        exact hx

end Apackage.Lib.PercentCoding
