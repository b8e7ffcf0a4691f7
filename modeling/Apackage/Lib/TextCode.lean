import Mathlib.Data.List.Flatten
import Mathlib.Tactic.Linarith

/-
  Texts in code units.

  A text is a list of characters; `utf8` and `utf16` are its units. Both codes write a character
  below 0x80 as itself and use no unit below 0x80 for another one (`AsciiCode`), so a text can be
  taken apart at such a character in its units (`encode_split`).
-/

namespace Apackage.Lib.TextCode

open List

/-- A code that keeps the characters below 0x80. -/
structure AsciiCode (U : Type*) where
  encodeChar : Char → List U
  /-- The unit of a character below 0x80. -/
  unit : Char → U
  unit_inj : ∀ {c d : Char}, c.toNat < 0x80 → d.toNat < 0x80 → unit c = unit d → c = d
  ascii : ∀ {c : Char}, c.toNat < 0x80 → encodeChar c = [unit c]
  ne_nil : ∀ c : Char, encodeChar c ≠ []
  other : ∀ {c d : Char}, 0x80 ≤ c.toNat → d.toNat < 0x80 → unit d ∉ encodeChar c

namespace AsciiCode

variable {U : Type*} (code : AsciiCode U)

def encode (t : List Char) : List U := t.flatMap code.encodeChar

@[simp] theorem encode_nil : code.encode [] = [] := rfl

theorem encode_cons (c : Char) (t : List Char) :
    code.encode (c :: t) = code.encodeChar c ++ code.encode t := flatMap_cons

theorem encode_append (s t : List Char) :
    code.encode (s ++ t) = code.encode s ++ code.encode t := flatMap_append

variable {c : Char}

theorem encode_ascii (hc : c.toNat < 0x80) (t : List Char) :
    code.encode (c :: t) = code.unit c :: code.encode t := by
  rw [encode_cons, code.ascii hc, singleton_append]

variable {t : List Char}

@[simp] theorem encode_eq_nil : code.encode t = [] ↔ t = [] := by
  cases t with
  | nil => simp
  | cons c t => simp [encode_cons, code.ne_nil c]

/-- A character below 0x80 stands where its unit does. -/
theorem encode_split (hc : c.toNat < 0x80) {x y : List U}
    (h : code.encode t = x ++ code.unit c :: y) :
    ∃ a b, t = a ++ c :: b ∧ code.encode a = x ∧ code.encode b = y := by
  induction t generalizing x with
  | nil => simp at h
  | cons d t ih =>
    rw [encode_cons] at h
    rcases append_eq_append_iff.1 h with ⟨mid, hx, ht⟩ | ⟨mid, hd, hy⟩
    · obtain ⟨a, b, rfl, rfl, rfl⟩ := ih ht
      exact ⟨d :: a, b, rfl, by rw [encode_cons, hx], rfl⟩
    · cases mid with
      | nil =>
        obtain ⟨a, b, rfl, ha, rfl⟩ := ih (x := []) hy.symm
        refine ⟨d :: a, b, rfl, ?_, rfl⟩
        rw [encode_cons, ha, hd, append_nil, append_nil]
      | cons u mid =>
        -- the unit is one of `d`
        obtain ⟨rfl, hrest⟩ := cons_eq_cons.1 hy
        by_cases hlow : d.toNat < 0x80
        · rw [code.ascii hlow] at hd
          rw [singleton_eq_append_iff] at hd
          rcases hd with ⟨rfl, hd⟩ | ⟨-, hd⟩
          · obtain ⟨hunit, rfl⟩ := cons_eq_cons.1 hd
            obtain rfl := code.unit_inj hc hlow hunit
            exact ⟨[], t, rfl, rfl, hrest.symm⟩
          · cases hd
        · refine absurd ?_ (code.other (Nat.le_of_not_lt hlow) hc)
          rw [hd]
          exact mem_append_right _ mem_cons_self

theorem mem_encode (hc : c.toNat < 0x80) : code.unit c ∈ code.encode t ↔ c ∈ t := by
  constructor
  · intro h
    obtain ⟨before, after, h⟩ := List.append_of_mem h
    obtain ⟨a, b, rfl, -, -⟩ := code.encode_split hc h
    exact mem_append_right _ mem_cons_self
  · intro h
    obtain ⟨a, b, rfl⟩ := List.append_of_mem h
    rw [encode_append, code.encode_ascii hc]
    exact mem_append_right _ mem_cons_self

theorem head?_encode (hc : c.toNat < 0x80) :
    (code.encode t).head? = some (code.unit c) ↔ t.head? = some c := by
  constructor
  · intro h
    obtain ⟨after, h⟩ := head?_eq_some_iff.1 h
    obtain ⟨a, b, rfl, ha, -⟩ := code.encode_split hc (x := []) h
    rw [code.encode_eq_nil.1 ha]
    rfl
  · intro h
    obtain ⟨b, rfl⟩ := head?_eq_some_iff.1 h
    rw [code.encode_ascii hc]
    rfl

end AsciiCode

theorem char_eq {c d : Char} (h : c.toNat = d.toNat) : c = d := Char.ext (UInt32.toNat_inj.1 h)

/-! ## UTF-16 -/

/-- The units of a character in UTF-16: its number, or a surrogate pair. -/
def utf16Char (c : Char) : List UInt16 :=
  if c.toNat < 0x10000 then [UInt16.ofNat c.toNat]
  else [UInt16.ofNat (0xD800 + (c.toNat - 0x10000) / 0x400),
    UInt16.ofNat (0xDC00 + (c.toNat - 0x10000) % 0x400)]

theorem toNat_lt (c : Char) : c.toNat < 0x110000 := by
  rcases c.valid with h | ⟨-, h⟩
  · exact Nat.lt_trans h (by decide)
  · exact h

theorem not_surrogate (c : Char) : c.toNat < 0xD800 ∨ 0xDFFF < c.toNat := by
  rcases c.valid with h | ⟨h, -⟩
  · exact .inl h
  · exact .inr h

theorem utf16Char_append_inj {c d : Char} {x y : List UInt16}
    (h : utf16Char c ++ x = utf16Char d ++ y) : c = d ∧ x = y := by
  have hc := toNat_lt c
  have hd := toNat_lt d
  have hcs := not_surrogate c
  have hds := not_surrogate d
  rw [utf16Char, utf16Char] at h
  have hnum : c.toNat = d.toNat ∧ x = y := by
    split at h <;> split at h <;>
      simp only [cons_append, nil_append, List.cons.injEq, ← UInt16.toNat_inj,
        UInt16.toNat_ofNat'] at h
    · exact ⟨by omega, h.2⟩
    · omega
    · omega
    · exact ⟨by omega, h.2.2⟩
  exact ⟨char_eq hnum.1, hnum.2⟩

/-- UTF-16. -/
def utf16Code : AsciiCode UInt16 where
  encodeChar := utf16Char
  unit c := UInt16.ofNat c.toNat
  unit_inj hc hd h := by
    rw [← UInt16.toNat_inj, UInt16.toNat_ofNat', UInt16.toNat_ofNat'] at h
    exact char_eq (by omega)
  ascii hc := if_pos (by omega)
  ne_nil c := by
    rw [utf16Char]
    split <;> simp
  other {c d} hc hd h := by
    have hlt := toNat_lt c
    rw [utf16Char] at h
    split at h <;>
      simp only [List.mem_cons, not_mem_nil, or_false, ← UInt16.toNat_inj,
        UInt16.toNat_ofNat'] at h <;> omega

/-- A text in UTF-16. -/
def utf16 (t : List Char) : List UInt16 := utf16Code.encode t

theorem utf16_append (s t : List Char) : utf16 (s ++ t) = utf16 s ++ utf16 t :=
  utf16Code.encode_append s t

theorem utf16_injective : Function.Injective utf16 := by
  intro s t h
  induction s generalizing t with
  | nil => exact (utf16Code.encode_eq_nil.1 h.symm).symm
  | cons c s ih =>
    cases t with
    | nil => exact absurd (utf16Code.encode_eq_nil.1 h) (cons_ne_nil _ _)
    | cons d t =>
      obtain ⟨rfl, hst⟩ := utf16Char_append_inj h
      rw [ih hst]

/-! ## UTF-8 -/

/-- UTF-8. -/
def utf8Code : AsciiCode UInt8 where
  encodeChar := String.utf8EncodeChar
  unit c := UInt8.ofNat c.toNat
  unit_inj hc hd h := by
    rw [← UInt8.toNat_inj, UInt8.toNat_ofNat', UInt8.toNat_ofNat'] at h
    exact char_eq (by omega)
  ascii hc := if_pos (Nat.le_of_lt_succ hc)
  ne_nil c := String.utf8EncodeChar_ne_nil
  other {c d} hc hd h := by
    have hlt := toNat_lt c
    have hval : c.val.toNat = c.toNat := rfl
    rw [String.utf8EncodeChar] at h
    simp only [hval] at h
    split at h
    · omega
    split at h
    · simp only [List.mem_cons, not_mem_nil, or_false, ← UInt8.toNat_inj, UInt8.toNat_ofNat'] at h
      omega
    split at h <;>
      simp only [List.mem_cons, not_mem_nil, or_false, ← UInt8.toNat_inj,
        UInt8.toNat_ofNat'] at h <;> omega

/-- A text in UTF-8. -/
def utf8 (t : List Char) : List UInt8 := utf8Code.encode t

theorem utf8_append (s t : List Char) : utf8 (s ++ t) = utf8 s ++ utf8 t :=
  utf8Code.encode_append s t

theorem utf8_injective : Function.Injective utf8 := by
  intro s t h
  have hbytes : (String.ofList s).toByteArray = (String.ofList t).toByteArray := by
    rw [String.toByteArray_ofList, String.toByteArray_ofList]
    exact congrArg List.toByteArray h
  have htext := congrArg String.toList (String.toByteArray_inj.1 hbytes)
  simpa using htext

end Apackage.Lib.TextCode
