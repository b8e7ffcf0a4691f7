import Apackage.Lib.PercentCoding
import Apackage.Rtp2httpd.Rtp

/-
  URLs as byte strings (`http.c`): percent coding and the `$label` suffix.

  Model. A C string is the list of its bytes without the terminating NUL. A function that
  can write a NUL returns the bytes written, and `cstr` is what a reader of the buffer sees.
-/

namespace Apackage.Rtp2httpd

open List Option Lib.PercentCoding

abbrev Bytes := List UInt8

instance : LawfulBEq Bytes := inferInstance

/-- The bytes of an ASCII literal. -/
def ascii (s : String) : Bytes := s.toList.map fun c => UInt8.ofNat c.toNat

/-- A buffer read as a C string. -/
def cstr (buf : Bytes) : Bytes := buf.takeWhile (· ≠ 0)

def slash : UInt8 := 0x2F
def question : UInt8 := 0x3F
def dollar : UInt8 := 0x24

/-- `isalnum` in the C locale. -/
def isAlnum (c : UInt8) : Bool :=
  (0x30 ≤ c && c ≤ 0x39) || (0x41 ≤ c && c ≤ 0x5A) || (0x61 ≤ c && c ≤ 0x7A)

/-- The bytes `http_url_encode` keeps: alphanumerics and `-`, `_`, `.`, `~`, `/`. -/
def urlSafe (c : UInt8) : Bool :=
  isAlnum c || c = 0x2D || c = 0x5F || c = 0x2E || c = 0x7E || c = slash

def httpUrlEncode (str : Bytes) : Bytes := encode urlSafe str

/-- `http_url_decode`; none is -1. -/
def httpUrlDecode (str : Bytes) : Option Bytes := decode str

/-- `http_find_url_label`: the position of the last `$` that is neither the end of the
    string nor the start of a `${` placeholder. -/
def httpFindUrlLabel : Bytes → Option ℕ
  | [] => none
  | c :: rest =>
    match httpFindUrlLabel rest with
    | some i => some (i + 1)
    | none => if c = dollar ∧ rest ≠ [] ∧ rest.head? ≠ some 0x7B then some 0 else none

def httpStripUrlLabel (url : Bytes) : Bytes :=
  match httpFindUrlLabel url with
  | some i => url.take i
  | none => url

/-! ## Labels -/

variable {i : ℕ}

theorem label_lt {url : Bytes} (h : httpFindUrlLabel url = some i) : i < url.length := by
  induction url generalizing i with
  | nil => cases h
  | cons c rest ih =>
    rw [httpFindUrlLabel] at h
    split at h
    · rename_i j hj
      obtain rfl := some.inj h
      exact Nat.succ_lt_succ (ih hj)
    · split at h
      · obtain rfl := some.inj h
        exact Nat.succ_pos _
      · cases h

theorem label_dollar {url : Bytes} (h : httpFindUrlLabel url = some i) : url[i]? = some dollar := by
  induction url generalizing i with
  | nil => cases h
  | cons c rest ih =>
    rw [httpFindUrlLabel] at h
    split at h
    · rename_i j hj
      obtain rfl := some.inj h
      simpa using ih hj
    · split at h
      · rename_i hc
        obtain rfl := some.inj h
        simp [hc.1]
      · cases h

variable {s t : Bytes}

theorem label_append_of_some (h : httpFindUrlLabel t = some i) :
    httpFindUrlLabel (s ++ t) = some (s.length + i) := by
  induction s with
  | nil => simpa using h
  | cons c s ih =>
    rw [cons_append, httpFindUrlLabel, ih]
    simp only [length_cons, Option.some.injEq]
    omega

theorem label_append_of_none (hs : dollar ∉ s) (h : httpFindUrlLabel t = none) :
    httpFindUrlLabel (s ++ t) = none := by
  induction s with
  | nil => exact h
  | cons c s ih =>
    rw [List.mem_cons, not_or] at hs
    rw [cons_append, httpFindUrlLabel, ih hs.2]
    exact if_neg fun hc => hs.1 hc.1.symm

/-- Whether a string that ends in a byte other than `$` has a label does not depend on what
    follows, if that has none. -/
theorem label_append_not_dollar {x : UInt8} (hx : x ≠ dollar) (h : httpFindUrlLabel t = none) :
    httpFindUrlLabel (s ++ x :: t) = httpFindUrlLabel (s ++ [x]) := by
  induction s with
  | nil =>
    simp only [nil_append, httpFindUrlLabel, h]
    rw [if_neg fun hc => hx hc.1, if_neg fun hc => hx hc.1]
  | cons c s ih =>
    rw [cons_append, cons_append, httpFindUrlLabel, httpFindUrlLabel, ih]
    cases httpFindUrlLabel (s ++ [x]) with
    | some i => rfl
    | none => cases s <;> simp

theorem strip_length_le (url : Bytes) : (httpStripUrlLabel url).length ≤ url.length := by
  unfold httpStripUrlLabel
  split
  · exact length_take_le' _ _
  · exact Nat.le_refl _

theorem strip_of_none {url : Bytes} (h : httpFindUrlLabel url = none) :
    httpStripUrlLabel url = url := by
  rw [httpStripUrlLabel, h]

theorem strip_of_some {url : Bytes} (h : httpFindUrlLabel url = some i) :
    httpStripUrlLabel url = url.take i := by
  rw [httpStripUrlLabel, h]

/-! ## Percent coding -/

variable (str : Bytes)

theorem decode_httpUrlEncode : httpUrlDecode (httpUrlEncode str) = some str :=
  decode_encode (by decide) str

theorem dollar_not_mem_encode : dollar ∉ httpUrlEncode str :=
  not_mem_encode (by decide) (by decide) (by decide) str

theorem question_not_mem_encode : question ∉ httpUrlEncode str :=
  not_mem_encode (by decide) (by decide) (by decide) str

theorem getLast?_httpUrlEncode :
    (httpUrlEncode str).getLast? = some slash ↔ str.getLast? = some slash :=
  getLast?_encode (by decide) (by decide) str

theorem httpUrlEncode_concat_slash :
    httpUrlEncode (str ++ [slash]) = httpUrlEncode str ++ [slash] := by
  rw [httpUrlEncode, encode_append]
  rfl

end Apackage.Rtp2httpd
