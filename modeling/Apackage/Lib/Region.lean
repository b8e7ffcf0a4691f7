import Apackage.Lib.Digits

/-
  Checked access to a region of memory.

  `load mem i n` are the `n` elements at `i` and `store mem i src` is the region with `src`
  written at `i`; both are none if an element would lie outside. `loadNat` reads a big-endian
  number, as `bytesOf` writes it.
-/

namespace Apackage.Lib.Region

open List Option Lib.Digits

variable {α : Type*}

def load (mem : List α) (i n : ℕ) : Option (List α) :=
  if i + n ≤ mem.length then some ((mem.drop i).take n) else none

def store (mem : List α) (i : ℕ) (src : List α) : Option (List α) :=
  if i + src.length ≤ mem.length then some (mem.take i ++ src ++ mem.drop (i + src.length))
  else none

/-- The number in the `n` bytes at `i`, most significant byte first. -/
def loadNat (mem : List UInt8) (i n : ℕ) : Option ℕ :=
  (load mem i n).map fun bytes => value 256 (bytes.map UInt8.toNat)

/-- The last `n` bytes of a number, most significant byte first. -/
def bytesOf (n v : ℕ) : List UInt8 := (fixed 256 n v).map UInt8.ofNat

/-! ## Reading -/

variable {n i : ℕ}

theorem load_of_le {mem : List α} (h : i + n ≤ mem.length) :
    load mem i n = some ((mem.drop i).take n) := if_pos h

theorem length_load {mem bytes : List α} (h : load mem i n = some bytes) : bytes.length = n := by
  unfold load at h
  split at h
  · obtain rfl := some.inj h
    rw [length_take, length_drop]
    omega
  · cases h

variable {v : ℕ}

theorem loadNat_lt {mem : List UInt8} (h : loadNat mem i n = some v) : v < 256 ^ n := by
  obtain ⟨bytes, hload, rfl⟩ := map_eq_some_iff.1 h
  have hlt := @value_lt 256 (bytes.map UInt8.toNat) fun d hd => by
    obtain ⟨byte, -, rfl⟩ := List.mem_map.1 hd
    exact byte.toNat_lt
  rwa [length_map, length_load hload] at hlt

theorem loadNat_of_le {mem : List UInt8} {i n : ℕ} (h : i + n ≤ mem.length) :
    ∃ v, loadNat mem i n = some v := by
  rw [loadNat, load_of_le h]
  exact ⟨_, rfl⟩

variable (pre : List α)

theorem load_append (mem : List α) (i n : ℕ) :
    load (pre ++ mem) (pre.length + i) n = load mem i n := by
  unfold load
  rw [length_append, drop_length_add_append]
  by_cases h : i + n ≤ mem.length
  · rw [if_pos h, if_pos (by omega)]
  · rw [if_neg h, if_neg (by omega)]

theorem load_append_of_le {mem : List α} (h : i + n ≤ mem.length) (post : List α) :
    load (mem ++ post) i n = load mem i n := by
  rw [load_of_le h, load_of_le (by rw [length_append]; omega), drop_append_of_le_length (by omega),
    take_append_of_le_length (by rw [length_drop]; omega)]

theorem loadNat_append_of_le {mem : List UInt8} (h : i + n ≤ mem.length) (post : List UInt8) :
    loadNat (mem ++ post) i n = loadNat mem i n := by
  rw [loadNat, loadNat, load_append_of_le h]

theorem loadNat_append (pre mem : List UInt8) (i n : ℕ) :
    loadNat (pre ++ mem) (pre.length + i) n = loadNat mem i n := by
  rw [loadNat, loadNat, load_append]

theorem load_behind (src post : List α) :
    load (pre ++ (src ++ post)) pre.length src.length = some src := by
  rw [load_of_le (by simp), drop_left, take_left]

/-! ## Numbers -/

@[simp] theorem length_bytesOf (n v : ℕ) : (bytesOf n v).length = n := by
  rw [bytesOf, length_map, length_fixed]

theorem value_bytesOf (h : v < 256 ^ n) : value 256 ((bytesOf n v).map UInt8.toNat) = v := by
  have hback : (bytesOf n v).map UInt8.toNat = fixed 256 n v := by
    rw [bytesOf, List.map_map]
    refine (map_congr_left fun d hd => ?_).trans (List.map_id _)
    exact UInt8.toNat_ofNat_of_lt' (fixed_lt (by decide) hd)
  rw [hback, value_fixed_of_lt h]

theorem loadNat_behind (pre post : List UInt8) (h : v < 256 ^ n) :
    loadNat (pre ++ (bytesOf n v ++ post)) pre.length n = some v := by
  have hload := load_behind pre (bytesOf n v) post
  rw [length_bytesOf] at hload
  rw [loadNat, hload, map_some, value_bytesOf h]

theorem bytesOf_value (bytes : List UInt8) :
    bytesOf bytes.length (value 256 (bytes.map UInt8.toNat)) = bytes := by
  have hdigits := @fixed_value 256 (bytes.map UInt8.toNat) fun d hd => by
    obtain ⟨byte, -, rfl⟩ := List.mem_map.1 hd
    exact byte.toNat_lt
  rw [length_map] at hdigits
  rw [bytesOf, hdigits, List.map_map]
  refine (map_congr_left fun byte _ => ?_).trans (List.map_id _)
  exact UInt8.ofNat_toNat

theorem drop_of_loadNat {mem : List UInt8} (h : loadNat mem i n = some v) :
    mem.drop i = bytesOf n v ++ mem.drop (i + n) := by
  obtain ⟨bytes, hload, rfl⟩ := map_eq_some_iff.1 h
  obtain rfl := length_load hload
  unfold load at hload
  split at hload
  · rw [bytesOf_value, ← drop_drop]
    exact (take_append_drop bytes.length _).symm.trans (congrArg (· ++ _) (some.inj hload))
  · cases hload

theorem loadNat_of_drop {mem post : List UInt8} (hi : i ≤ mem.length)
    (h : mem.drop i = bytesOf n v ++ post) (hv : v < 256 ^ n) : loadNat mem i n = some v := by
  have hread := loadNat_behind (mem.take i) post hv
  rwa [← h, take_append_drop, length_take, Nat.min_eq_left hi] at hread

/-! ## Larger regions -/

/-- A result that stays where the first is one. -/
def Persists {β : Type*} (a b : Option β) : Prop := ∀ r, a = some r → b = some r

namespace Persists

variable {β γ : Type*}

theorem refl (a : Option β) : Persists a a := fun _ h => h

variable {a b : Option β}

theorem bind {f g : β → Option γ} (hab : Persists a b) (hfg : ∀ r, Persists (f r) (g r)) :
    Persists (a.bind f) (b.bind g) := by
  intro r h
  obtain ⟨x, hx, hr⟩ := bind_eq_some_iff.1 h
  exact bind_eq_some_iff.2 ⟨x, hab x hx, hfg x r hr⟩

theorem map (hab : Persists a b) (f : β → γ) : Persists (a.map f) (b.map f) := by
  intro r h
  obtain ⟨x, hx, hr⟩ := map_eq_some_iff.1 h
  exact map_eq_some_iff.2 ⟨x, hab x hx, hr⟩

theorem ite {p : Prop} [Decidable p] {a' b' : Option β} (h : Persists a b) (h' : Persists a' b') :
    Persists (if p then a else a') (if p then b else b') := by
  split
  · exact h
  · exact h'

end Persists

theorem persists_getElem? (mem post : List α) (i : ℕ) : Persists mem[i]? (mem ++ post)[i]? := by
  intro a h
  obtain ⟨hi, -⟩ := List.getElem?_eq_some_iff.1 h
  rw [getElem?_append_left hi, h]

theorem persists_loadNat (mem post : List UInt8) (i n : ℕ) :
    Persists (loadNat mem i n) (loadNat (mem ++ post) i n) := by
  intro v h
  by_cases hle : i + n ≤ mem.length
  · rw [loadNat_append_of_le hle, h]
  · rw [loadNat, load, if_neg hle] at h
    cases h

/-! ## Writing -/

theorem length_store {mem src mem' : List α} (h : store mem i src = some mem') :
    mem'.length = mem.length := by
  unfold store at h
  split at h
  · obtain rfl := some.inj h
    simp only [length_append, length_take, length_drop]
    omega
  · cases h

theorem store_behind (src old : List α) (h : src.length ≤ old.length) :
    store (pre ++ old) pre.length src = some (pre ++ (src ++ old.drop src.length)) := by
  unfold store
  rw [if_pos (by rw [length_append]; omega), take_left, drop_length_add_append, append_assoc]

/-- The parts are written one behind the other. -/
def storeAll (mem : List α) (i : ℕ) : List (List α) → Option (List α)
  | [] => some mem
  | part :: parts => (store mem i part).bind fun mem => storeAll mem (i + part.length) parts

theorem storeAll_behind (old : List α) {parts : List (List α)}
    (h : parts.flatten.length ≤ old.length) :
    storeAll (pre ++ old) pre.length parts =
      some (pre ++ (parts.flatten ++ old.drop parts.flatten.length)) := by
  induction parts generalizing pre old with
  | nil => rfl
  | cons part parts ih =>
    rw [flatten_cons, length_append] at h
    have hrest := ih (pre ++ part) (old.drop part.length) (by rw [length_drop]; omega)
    rw [length_append, append_assoc, append_assoc, drop_drop] at hrest
    rw [storeAll, store_behind pre part old (by omega), bind_some, hrest, flatten_cons,
      length_append, append_assoc]

theorem storeAll_fill (pre : List α) {old : List α} {parts : List (List α)}
    (h : parts.flatten.length = old.length) :
    storeAll (pre ++ old) pre.length parts = some (pre ++ parts.flatten) := by
  rw [storeAll_behind pre old h.le, h, drop_length, append_nil]

end Apackage.Lib.Region
