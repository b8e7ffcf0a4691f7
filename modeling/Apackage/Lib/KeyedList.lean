import Mathlib.Data.Finset.Card
import Mathlib.Data.List.Nodup

/-
  Lists whose elements have a key: the first element with a key is looked up, changed in place or
  removed.

  While no key occurs twice, such a list is a map. `Represents` relates the list to the map, given
  as the set of its keys and a function; each change of the list is a change of the map
  (`Represents.cons`, `Represents.modify`, `Represents.erase`).
-/

namespace Apackage.Lib.KeyedList

open Function List

variable {α κ : Type*} [DecidableEq κ] (key : α → κ) (k : κ)

def findKey (l : List α) : Option α := l.find? fun a => key a = k

def modifyKey (g : α → α) : List α → List α
  | [] => []
  | a :: l => if key a = k then g a :: l else a :: modifyKey g l

def eraseKey (l : List α) : List α := l.eraseP fun a => key a = k

variable {key k} {l : List α} {g : α → α}

theorem findKey_isSome : (findKey key k l).isSome = true ↔ k ∈ l.map key := by
  unfold findKey
  rw [find?_isSome, List.mem_map]
  simp only [decide_eq_true_eq]

theorem mem_of_findKey {a : α} (h : findKey key k l = some a) : a ∈ l ∧ key a = k :=
  ⟨mem_of_find?_eq_some h, of_decide_eq_true (find?_some (p := fun a => decide (key a = k)) h)⟩

theorem findKey_eq_none (h : findKey key k l = none) : k ∉ l.map key := by
  rw [← findKey_isSome, h]
  exact Bool.false_ne_true

theorem findKey_eq_some_iff (hn : (l.map key).Nodup) {a : α} :
    findKey key k l = some a ↔ a ∈ l ∧ key a = k := by
  refine ⟨mem_of_findKey, ?_⟩
  rintro ⟨ha, rfl⟩
  cases hf : findKey key (key a) l with
  | none => exact absurd (List.mem_map_of_mem ha) (findKey_eq_none hf)
  | some b =>
    obtain ⟨hb, hkey⟩ := mem_of_findKey hf
    rw [inj_on_of_nodup_map hn hb ha hkey]

theorem findKey_filter (hn : (l.map key).Nodup) (p : α → Bool) :
    findKey key k (l.filter p) = (findKey key k l).filter p := by
  ext a
  rw [findKey_eq_some_iff (hn.sublist (filter_sublist.map key)), Option.filter_eq_some_iff,
    findKey_eq_some_iff hn, mem_filter, and_right_comm]

theorem map_modifyKey (hg : ∀ a, key (g a) = key a) :
    (modifyKey key k g l).map key = l.map key := by
  induction l with
  | nil => rfl
  | cons a l ih =>
    rw [modifyKey]
    split
    · rw [map_cons, map_cons, hg]
    · rw [map_cons, map_cons, ih]

theorem findKey_modifyKey (hg : ∀ a, key (g a) = key a) {k' : κ} :
    findKey key k (modifyKey key k' g l) =
      if k = k' then (findKey key k l).map g else findKey key k l := by
  induction l with
  | nil => split <;> rfl
  | cons a l ih =>
    unfold findKey at ih ⊢
    rw [modifyKey]
    by_cases ha : key a = k'
    · subst ha
      by_cases hk : key a = k
      · subst hk
        simp [hg]
      · simp [hg, hk, Ne.symm hk]
    · by_cases hk : key a = k
      · subst hk
        simp [ha]
      · simp [ha, hk, ih]

theorem mem_modifyKey_of_ne (hg : ∀ a, key (g a) = key a) {b : α} (hb : key b ≠ k) :
    b ∈ modifyKey key k g l ↔ b ∈ l := by
  induction l with
  | nil => exact Iff.rfl
  | cons a l ih =>
    rw [modifyKey]
    split
    · grind
    · rw [List.mem_cons, List.mem_cons, ih]

theorem mem_modifyKey (hn : (l.map key).Nodup) {b : α} :
    b ∈ modifyKey key k g l ↔ b ∈ l ∧ key b ≠ k ∨ ∃ a ∈ l, key a = k ∧ b = g a := by
  induction l with
  | nil => simp [modifyKey]
  | cons a l ih =>
    rw [map_cons, nodup_cons] at hn
    rw [modifyKey]
    split
    · rename_i ha
      have hother : ∀ c ∈ l, key c ≠ k := fun c hc he =>
        hn.1 (List.mem_map.2 ⟨c, hc, he.trans ha.symm⟩)
      constructor
      · intro hb
        rcases List.mem_cons.1 hb with rfl | hb
        · exact .inr ⟨a, mem_cons_self, ha, rfl⟩
        · exact .inl ⟨mem_cons_of_mem _ hb, hother b hb⟩
      · rintro (⟨hb, hne⟩ | ⟨c, hc, hkey, rfl⟩)
        · rcases List.mem_cons.1 hb with rfl | hb
          · exact absurd ha hne
          · exact mem_cons_of_mem _ hb
        · rcases List.mem_cons.1 hc with rfl | hc
          · exact mem_cons_self
          · exact absurd hkey (hother c hc)
    · rename_i ha
      rw [List.mem_cons, ih hn.2]
      constructor
      · rintro (rfl | ⟨hb, hne⟩ | ⟨c, hc, hkey, rfl⟩)
        · exact .inl ⟨mem_cons_self, ha⟩
        · exact .inl ⟨mem_cons_of_mem _ hb, hne⟩
        · exact .inr ⟨c, mem_cons_of_mem _ hc, hkey, rfl⟩
      · rintro (⟨hb, hne⟩ | ⟨c, hc, hkey, rfl⟩)
        · exact (List.mem_cons.1 hb).imp id fun hb => .inl ⟨hb, hne⟩
        · rcases List.mem_cons.1 hc with rfl | hc
          · exact absurd hkey ha
          · exact .inr (.inr ⟨c, hc, hkey, rfl⟩)

theorem nodup_eraseKey (hn : (l.map key).Nodup) : ((eraseKey key k l).map key).Nodup :=
  hn.sublist (eraseP_sublist.map key)

theorem mem_eraseKey (hn : (l.map key).Nodup) {b : α} :
    b ∈ eraseKey key k l ↔ b ∈ l ∧ key b ≠ k := by
  induction l with
  | nil => simp [eraseKey]
  | cons a l ih =>
    rw [map_cons, nodup_cons] at hn
    unfold eraseKey at ih ⊢
    by_cases ha : key a = k
    · rw [eraseP_cons_of_pos (by simpa using ha), List.mem_cons]
      constructor
      · exact fun hb => ⟨.inr hb, fun he => hn.1 (List.mem_map.2 ⟨b, hb, he.trans ha.symm⟩)⟩
      · rintro ⟨rfl | hb, hne⟩
        · exact absurd ha hne
        · exact hb
    · rw [eraseP_cons_of_neg (by simpa using ha), List.mem_cons, List.mem_cons, ih hn.2]
      constructor
      · rintro (rfl | ⟨hb, hne⟩)
        · exact ⟨.inl rfl, ha⟩
        · exact ⟨.inr hb, hne⟩
      · rintro ⟨rfl | hb, hne⟩
        · exact .inl rfl
        · exact .inr ⟨hb, hne⟩

theorem length_eraseKey (h : k ∈ l.map key) : (eraseKey key k l).length + 1 = l.length := by
  obtain ⟨a, ha, hkey⟩ := List.mem_map.1 h
  unfold eraseKey
  rw [length_eraseP_of_mem ha (decide_eq_true hkey)]
  have := length_pos_of_mem ha
  omega

/-! ## Maps -/

section Maps

variable {β : Type*} {value : α → β} {ids : Finset κ} {m : κ → β} {a : α}

/-- Each of the `ids` is the key of one element, and `m` has the element's value there. -/
structure Represents (key : α → κ) (value : α → β) (l : List α) (ids : Finset κ) (m : κ → β) :
    Prop where
  nodup : (l.map key).Nodup
  ids : ids = (l.map key).toFinset
  value : ∀ a ∈ l, m (key a) = value a

namespace Represents

theorem nil : Represents key value [] ∅ m := ⟨nodup_nil, rfl, fun _ h => (nomatch h)⟩

variable (h : Represents key value l ids m)
include h

theorem card : ids.card = l.length := by rw [h.ids, toFinset_card_of_nodup h.nodup, length_map]

theorem mem_ids : k ∈ ids ↔ ∃ a ∈ l, key a = k := by rw [h.ids, List.mem_toFinset, List.mem_map]

theorem found (hf : findKey key k l = some a) : a ∈ l ∧ key a = k ∧ k ∈ ids := by
  obtain ⟨hmem, hkey⟩ := mem_of_findKey hf
  exact ⟨hmem, hkey, h.mem_ids.2 ⟨a, hmem, hkey⟩⟩

theorem notFound (hf : findKey key k l = none) : k ∉ ids := by
  rw [h.ids, List.mem_toFinset]
  exact findKey_eq_none hf

theorem unique {b : α} (ha : a ∈ l) (hb : b ∈ l) (hkey : key a = key b) : a = b :=
  inj_on_of_nodup_map h.nodup ha hb hkey

theorem update (hk : k ∉ ids) (v : β) : Represents key value l ids (Function.update m k v) := by
  refine ⟨h.nodup, h.ids, fun a ha => ?_⟩
  rw [update_of_ne fun he => hk (h.mem_ids.2 ⟨a, ha, he⟩)]
  exact h.value a ha

theorem cons (hnew : key a ∉ ids) :
    Represents key value (a :: l) (insert (key a) ids) (Function.update m (key a) (value a)) := by
  have hupdate := h.update hnew (value a)
  refine ⟨?_, ?_, fun b hb => ?_⟩
  · rw [h.ids, List.mem_toFinset] at hnew
    exact nodup_cons.2 ⟨hnew, h.nodup⟩
  · rw [h.ids, map_cons, toFinset_cons]
  · rcases List.mem_cons.1 hb with rfl | hb
    · exact update_self ..
    · exact hupdate.value b hb

theorem modify (hg : ∀ a, key (g a) = key a) {v : β} (hv : ∀ a ∈ l, key a = k → v = value (g a)) :
    Represents key value (modifyKey key k g l) ids (Function.update m k v) := by
  refine ⟨(map_modifyKey hg).symm ▸ h.nodup, (map_modifyKey hg).symm ▸ h.ids, fun b hb => ?_⟩
  rcases (mem_modifyKey h.nodup).1 hb with ⟨hmem, hne⟩ | ⟨a, hmem, hkey, rfl⟩
  · rw [update_of_ne hne]
    exact h.value b hmem
  · rw [hg, hkey, update_self]
    exact hv a hmem hkey

theorem erase : Represents key value (eraseKey key k l) (ids.erase k) m := by
  refine ⟨nodup_eraseKey h.nodup, ?_, fun a ha => h.value a ((mem_eraseKey h.nodup).1 ha).1⟩
  ext x
  rw [Finset.mem_erase, h.mem_ids, List.mem_toFinset, List.mem_map]
  constructor
  · rintro ⟨hne, a, ha, rfl⟩
    exact ⟨a, (mem_eraseKey h.nodup).2 ⟨ha, hne⟩, rfl⟩
  · rintro ⟨a, ha, rfl⟩
    obtain ⟨ha, hne⟩ := (mem_eraseKey h.nodup).1 ha
    exact ⟨hne, a, ha, rfl⟩

end Represents

end Maps

end Apackage.Lib.KeyedList
