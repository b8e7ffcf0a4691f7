import Mathlib.Data.List.Induction
import Mathlib.Order.Basic

/-
  Lists that are shared by keys.

  Several keys may refer to the same list. A value comes with its keys: the first of them that
  refers to a list decides which list it is appended to, a new one if none does, and all its keys
  refer to that list from then on. If the key sets of any two values are equal or disjoint, each key
  ends up with the values that came with it (`lookup_addAll`).
-/

namespace Apackage.Lib

open List Option

variable {κ α : Type*} [DecidableEq κ]

structure SharedLists (κ α : Type*) where
  lists : List (List α)
  ref : κ → Option ℕ

namespace SharedLists

def empty : SharedLists κ α := ⟨[], fun _ => none⟩

/-- The list a key refers to. -/
def lookup (s : SharedLists κ α) (k : κ) : Option (List α) := (s.ref k).bind (s.lists[·]?)

/-- All keys refer to list `i`. -/
def share (s : SharedLists κ α) (keys : List κ) (i : ℕ) : SharedLists κ α :=
  { s with ref := fun k => if k ∈ keys then some i else s.ref k }

/-- The list of the first key that refers to one, or a new list. -/
def getOrCreate (s : SharedLists κ α) (keys : List κ) : SharedLists κ α × ℕ :=
  match keys.findSome? s.ref with
  | some i => (s.share keys i, i)
  | none => ({ s with lists := s.lists ++ [[]] }.share keys s.lists.length, s.lists.length)

def push (s : SharedLists κ α) (i : ℕ) (a : α) : SharedLists κ α :=
  { s with lists := s.lists.modify i (· ++ [a]) }

def add (s : SharedLists κ α) (keys : List κ) (a : α) : SharedLists κ α :=
  (s.getOrCreate keys).1.push (s.getOrCreate keys).2 a

def addAll (s : SharedLists κ α) (items : List (List κ × α)) : SharedLists κ α :=
  items.foldl (fun s item => s.add item.1 item.2) s

/-- The values that came with a key. -/
def own (items : List (List κ × α)) (k : κ) : List α :=
  (items.filter fun item => k ∈ item.1).map Prod.snd

/-- Key sets are equal or disjoint. -/
def Separated (items : List (List κ × α)) : Prop :=
  ∀ p ∈ items, ∀ q ∈ items, ∀ x ∈ p.1, x ∈ q.1 → ∀ k, k ∈ p.1 ↔ k ∈ q.1

theorem own_concat (items : List (List κ × α)) (keys : List κ) (a : α) (k : κ) :
    own (items ++ [(keys, a)]) k = own items k ++ if k ∈ keys then [a] else [] := by
  rw [own, own, filter_append, map_append]
  by_cases hk : k ∈ keys <;> simp [hk]

variable {items : List (List κ × α)}

theorem mem_own {k : κ} {a : α} : a ∈ own items k ↔ ∃ keys, (keys, a) ∈ items ∧ k ∈ keys := by
  simp [own]

theorem addAll_concat (s : SharedLists κ α) (items : List (List κ × α)) (keys : List κ) (a : α) :
    s.addAll (items ++ [(keys, a)]) = (s.addAll items).add keys a := by
  rw [addAll, foldl_append]
  rfl

theorem addAll_append (s : SharedLists κ α) (items items' : List (List κ × α)) :
    s.addAll (items ++ items') = (s.addAll items).addAll items' := foldl_append

/-! ## What one value does -/

section

variable {s : SharedLists κ α} {keys : List κ}

/-- A list that a key refers to exists. -/
def Valid (s : SharedLists κ α) : Prop := ∀ k i, s.ref k = some i → i < s.lists.length

/-- The list taken: its keys refer to it, the others to what they referred to before. -/
theorem add_ref (s : SharedLists κ α) (keys : List κ) (a : α) (k : κ) :
    (s.add keys a).ref k = if k ∈ keys then some (s.getOrCreate keys).2 else s.ref k := by
  rw [add, push, getOrCreate]
  cases keys.findSome? s.ref <;> rfl

theorem getOrCreate_lists (hvalid : s.Valid) (keys : List κ) (i : ℕ) :
    (s.getOrCreate keys).1.lists[i]? =
      if i = (s.getOrCreate keys).2 then some (s.lists[i]?.getD []) else s.lists[i]? := by
  rw [getOrCreate]
  cases hfind : keys.findSome? s.ref with
  | some j =>
    obtain ⟨k, -, hk⟩ := exists_of_findSome?_eq_some hfind
    have hj := hvalid k j hk
    change s.lists[i]? = if i = j then some (s.lists[i]?.getD []) else s.lists[i]?
    split_ifs with hij
    · simp [hij, hj]
    · rfl
  | none =>
    change (s.lists ++ [[]])[i]? =
      if i = s.lists.length then some (s.lists[i]?.getD []) else s.lists[i]?
    split_ifs with hij
    · simp [hij]
    · by_cases hlt : i < s.lists.length
      · rw [getElem?_append_left hlt]
      · grind

theorem add_lists (hvalid : s.Valid) (keys : List κ) (a : α) (i : ℕ) : (s.add keys a).lists[i]? =
      if i = (s.getOrCreate keys).2 then some (s.lists[i]?.getD [] ++ [a]) else s.lists[i]? := by
  have hlists := getOrCreate_lists hvalid keys i
  rw [add, push]
  split_ifs at hlists ⊢ with hi
  · rw [← hi, getElem?_modify_eq, hlists]
    rfl
  · rw [getElem?_modify_ne _ _ (Ne.symm hi), hlists]

theorem add_valid (hvalid : s.Valid) (keys : List κ) (a : α) : (s.add keys a).Valid := by
  intro k i hk
  have hlists := add_lists hvalid keys a i
  rw [add_ref] at hk
  split_ifs at hk hlists with hkeys hi
  · exact (List.getElem?_eq_some_iff.1 hlists).1
  · exact absurd (some.inj hk).symm hi
  · exact (List.getElem?_eq_some_iff.1 hlists).1
  · rw [getElem?_eq_getElem (hvalid k i hk)] at hlists
    exact (List.getElem?_eq_some_iff.1 hlists).1

end

/-! ## Equal or disjoint key sets -/

/-- Every key refers to a list of its own values, shared with the keys of its set only. -/
structure Reads (items : List (List κ × α)) (s : SharedLists κ α) : Prop where
  valid : s.Valid
  lookup : ∀ k, s.lookup k = if own items k = [] then none else some (own items k)
  apart : ∀ k l i, s.ref k = some i → s.ref l = some i → ∃ item ∈ items, k ∈ item.1 ∧ l ∈ item.1
  joined : ∀ item ∈ items, ∀ k ∈ item.1, ∀ l ∈ item.1, s.ref k = s.ref l

theorem reads_empty : Reads [] (empty : SharedLists κ α) where
  valid k i h := by cases h
  lookup k := rfl
  apart k l i h := by cases h
  joined := by simp

namespace Reads

variable {items : List (List κ × α)} {s : SharedLists κ α} {keys : List κ} {a : α}

section

variable (h : Reads items s)

include h

theorem own_of_none {k : κ} (hk : s.ref k = none) : own items k = [] := by
  have hlookup := h.lookup k
  rw [SharedLists.lookup, hk] at hlookup
  by_contra hne
  rw [if_neg hne] at hlookup
  cases hlookup

theorem own_of_some {k : κ} {i : ℕ} (hk : s.ref k = some i) :
    own items k ≠ [] ∧ s.lists[i]? = some (own items k) := by
  have hlookup := h.lookup k
  rw [SharedLists.lookup, hk, bind_some, getElem?_eq_getElem (h.valid k i hk)] at hlookup
  split_ifs at hlookup with hown
  rw [getElem?_eq_getElem (h.valid k i hk)]
  exact ⟨hown, hlookup⟩

/-- The list taken for a value holds the values of each of its keys, and no other key refers to
    it. -/
theorem taken (hsep : Separated (items ++ [(keys, a)])) :
    (∀ k ∈ keys, s.lists[(s.getOrCreate keys).2]?.getD [] = own items k) ∧
      ∀ k ∉ keys, s.ref k ≠ some (s.getOrCreate keys).2 := by
  have hnew : (keys, a) ∈ items ++ [(keys, a)] := mem_append_right _ mem_cons_self
  rw [getOrCreate]
  cases hfind : keys.findSome? s.ref with
  | some i =>
    obtain ⟨x, hx, hxi⟩ := exists_of_findSome?_eq_some hfind
    have hown := (h.own_of_some hxi).1
    obtain ⟨b, hb⟩ := exists_mem_of_ne_nil _ hown
    obtain ⟨keys', hitem, hx'⟩ := mem_own.1 hb
    have hsame := hsep _ (mem_append_left _ hitem) _ hnew x hx' hx
    constructor
    · intro k hk
      have hki : s.ref k = some i := (h.joined _ hitem k ((hsame k).2 hk) x hx').trans hxi
      change s.lists[i]?.getD [] = own items k
      rw [(h.own_of_some hki).2, getD_some]
    · intro k hk hki
      obtain ⟨item, hmem, hk', hx''⟩ := h.apart k x i hki hxi
      exact hk ((hsep _ (mem_append_left _ hmem) _ hnew x hx'' hx k).1 hk')
  | none =>
    rw [findSome?_eq_none_iff] at hfind
    constructor
    · intro k hk
      change s.lists[s.lists.length]?.getD [] = own items k
      rw [getElem?_eq_none (Nat.le_refl _), h.own_of_none (hfind k hk)]
      rfl
    · intro k _ hk
      exact absurd (h.valid k _ hk) (Nat.lt_irrefl _)

theorem add (hsep : Separated (items ++ [(keys, a)])) :
    Reads (items ++ [(keys, a)]) (s.add keys a) := by
  obtain ⟨htaken, hothers⟩ := h.taken hsep
  have hnew : (keys, a) ∈ items ++ [(keys, a)] := mem_append_right _ mem_cons_self
  refine ⟨add_valid h.valid keys a, ?_, ?_, ?_⟩
  · intro k
    rw [SharedLists.lookup, add_ref, own_concat]
    by_cases hk : k ∈ keys
    · rw [if_pos hk, if_pos hk, bind_some, add_lists h.valid, if_pos rfl, htaken k hk,
        if_neg (by simp)]
    · rw [if_neg hk, if_neg hk, append_nil, ← h.lookup k, SharedLists.lookup]
      cases href : s.ref k with
      | none => rfl
      | some i =>
        have hi : i ≠ (s.getOrCreate keys).2 := fun hi => hothers k hk (hi ▸ href)
        rw [bind_some, bind_some, add_lists h.valid, if_neg hi]
  · intro k l i hk hl
    rw [add_ref] at hk hl
    split_ifs at hk hl with hkk hlk hlk
    · exact ⟨_, hnew, hkk, hlk⟩
    · exact absurd (hl.trans hk.symm) (hothers l hlk)
    · exact absurd (hk.trans hl.symm) (hothers k hkk)
    · obtain ⟨item, hmem, hitem⟩ := h.apart k l i hk hl
      exact ⟨item, mem_append_left _ hmem, hitem⟩
  · intro item hitem k hk l hl
    rw [add_ref, add_ref]
    rcases mem_append.1 hitem with hold | hold
    · have hsame : k ∈ keys ↔ l ∈ keys := by
        constructor
        · intro hkk
          exact (hsep _ hitem _ hnew k hk hkk l).1 hl
        · intro hlk
          exact (hsep _ hitem _ hnew l hl hlk k).1 hk
      by_cases hkk : k ∈ keys
      · rw [if_pos hkk, if_pos (hsame.1 hkk)]
      · rw [if_neg hkk, if_neg fun hlk => hkk (hsame.2 hlk)]
        exact h.joined item hold k hk l hl
    · obtain rfl := mem_singleton.1 hold
      rw [if_pos hk, if_pos hl]

end

end Reads

/-- With key sets that are equal or disjoint each key has the values that came with it. -/
theorem lookup_addAll (hsep : Separated items) (k : κ) :
    (empty.addAll items).lookup k = if own items k = [] then none else some (own items k) := by
  suffices Reads items (empty.addAll items) from this.lookup k
  induction items using List.reverseRecOn with
  | nil => exact reads_empty
  | append_singleton items item ih =>
    obtain ⟨keys, a⟩ := item
    rw [addAll_concat]
    exact (ih fun p hp q hq => hsep p (mem_append_left _ hp) q (mem_append_left _ hq)).add hsep

/-! ## Overlapping key sets -/

/-- There is one list, and the key refers to it. -/
structure Single (l : List α) (x : κ) (s : SharedLists κ α) : Prop where
  lists : s.lists = [l]
  ref : ∀ k i, s.ref k = some i → i = 0
  key : s.ref x = some 0

variable {s : SharedLists κ α} {l : List α} {x : κ}

theorem Single.add (h : Single l x s) {keys : List κ} (hx : x ∈ keys) (a : α) :
    Single (l ++ [a]) x (s.add keys a) := by
  have htaken : s.getOrCreate keys = (s.share keys 0, 0) := by
    rw [getOrCreate]
    cases hfind : keys.findSome? s.ref with
    | some i =>
      obtain ⟨k, -, hk⟩ := exists_of_findSome?_eq_some hfind
      rw [h.ref k i hk]
    | none =>
      have hnone := findSome?_eq_none_iff.1 hfind x hx
      rw [h.key] at hnone
      cases hnone
  have href : ∀ k, (s.add keys a).ref k = if k ∈ keys then some 0 else s.ref k := fun k => by
    rw [add_ref, htaken]
  refine ⟨?_, ?_, ?_⟩
  · rw [SharedLists.add, htaken]
    change s.lists.modify 0 (· ++ [a]) = [l ++ [a]]
    rw [h.lists]
    rfl
  · intro k i hk
    rw [href] at hk
    split_ifs at hk
    · exact (some.inj hk).symm
    · exact h.ref k i hk
  · rw [href, if_pos hx]

theorem single_first {keys : List κ} (hx : x ∈ keys) (a : α) :
    Single [a] x ((empty : SharedLists κ α).add keys a) := by
  have htaken : (empty : SharedLists κ α).getOrCreate keys =
      (share ⟨[[]], fun _ => none⟩ keys 0, 0) := by
    have hfind : keys.findSome? (empty : SharedLists κ α).ref = none :=
      findSome?_eq_none_iff.2 fun _ _ => rfl
    rw [getOrCreate, hfind]
    rfl
  have href : ∀ k, ((empty : SharedLists κ α).add keys a).ref k =
      if k ∈ keys then some 0 else none := fun k => by
    rw [add_ref, htaken]
    rfl
  refine ⟨?_, ?_, ?_⟩
  · rw [SharedLists.add, htaken]
    rfl
  · simp [*]
  · rw [href, if_pos hx]

theorem Single.addAll (h : Single l x s) (hx : ∀ item ∈ items, x ∈ item.1) :
    Single (l ++ items.map Prod.snd) x (s.addAll items) := by
  induction items generalizing l s with
  | nil => simpa [SharedLists.addAll] using h
  | cons item items ih =>
    have hrest := ih (h.add (hx item mem_cons_self) item.2) fun i hi => hx i (mem_cons_of_mem _ hi)
    rwa [append_assoc, singleton_append, ← map_cons] at hrest

/-- Every list has both values or neither. -/
structure Together (a b : α) (s : SharedLists κ α) : Prop where
  valid : s.Valid
  both : ∀ (i : ℕ) (l : List α), s.lists[i]? = some l → (a ∈ l ↔ b ∈ l)

theorem Together.add {a b : α} (h : Together a b s) (keys : List κ) {c : α} (ha : c ≠ a)
    (hb : c ≠ b) : Together a b (s.add keys c) := by
  refine ⟨add_valid h.valid keys c, fun i l hl => ?_⟩
  rw [add_lists h.valid] at hl
  split_ifs at hl
  · obtain rfl := some.inj hl
    simp only [mem_append, mem_singleton, Ne.symm ha, Ne.symm hb, or_false]
    cases hold : s.lists[i]? with
    | none => simp
    | some l => exact h.both i l hold
  · exact h.both i l hl

theorem Together.addAll {a b : α} (h : Together a b s)
    (hitems : ∀ item ∈ items, item.2 ≠ a ∧ item.2 ≠ b) : Together a b (s.addAll items) := by
  induction items generalizing s with
  | nil => exact h
  | cons item items ih =>
    have hitem := hitems item mem_cons_self
    exact ih (h.add item.1 hitem.1 hitem.2) fun i hi => hitems i (mem_cons_of_mem _ hi)

/-- Values that share a key and come first stay together, if neither comes again. -/
theorem lookup_together {first rest : List (List κ × α)} {a b : α} (hx : ∀ item ∈ first, x ∈ item.1)
    (ha : a ∈ first.map Prod.snd) (hb : b ∈ first.map Prod.snd)
    (hrest : ∀ item ∈ rest, item.2 ≠ a ∧ item.2 ≠ b) {k : κ}
    (hl : ((empty : SharedLists κ α).addAll (first ++ rest)).lookup k = some l) :
    a ∈ l ↔ b ∈ l := by
  have hsingle : Single (first.map Prod.snd) x ((empty : SharedLists κ α).addAll first) := by
    cases first with
    | nil => cases ha
    | cons item first =>
      exact (single_first (hx item mem_cons_self) item.2).addAll
        fun i hi => hx i (mem_cons_of_mem _ hi)
  have htogether : Together a b ((empty : SharedLists κ α).addAll first) := by
    constructor
    · intro k i hk
      rw [hsingle.ref k i hk, hsingle.lists]
      exact Nat.zero_lt_one
    · intro i l hi
      rw [hsingle.lists] at hi
      obtain rfl := mem_singleton.1 (mem_of_getElem? hi)
      exact iff_of_true ha hb
  rw [addAll_append, SharedLists.lookup, bind_eq_some_iff] at hl
  obtain ⟨i, -, hi⟩ := hl
  exact (htogether.addAll hrest).both i l hi

end SharedLists

end Apackage.Lib
