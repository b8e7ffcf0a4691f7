import Mathlib.Data.List.Infix
import Mathlib.Data.List.Nodup
import Mathlib.Logic.Function.Basic

/-
  The automaton of Aho and Corasick, over the nodes of a trie.

  Model. `Trie next root node word` says that `next` is the transition function of a trie whose
  nodes spell the words `word`; with `Longest w s` the node `s` spells the longest suffix of `w` in
  the trie. A fail link is right when it goes to the longest proper suffix (`Fails`). A
  breadth-first loop sets all links right (`linkAll_spec`), and a search finds the first position
  where an output ends, and there the longest (`search_spec`). A loop that exceeds its bound on
  rounds gives `none`.
-/

namespace Apackage.Lib.AhoCorasick

open Function List

variable {α σ φ : Type*}

/-! ## Tries -/

/-- `next` is the transition function of a trie with these nodes and words. -/
structure Trie (next : σ → α → Option σ) (root : σ) (node : σ → Prop) (word : σ → List α) :
    Prop where
  node_root : node root
  word_root : word root = []
  step : ∀ {s c t}, node s → next s c = some t → node t ∧ word t = word s ++ [c]
  closed : ∀ {t w c}, node t → word t = w ++ [c] → ∃ s, node s ∧ word s = w ∧ next s c = some t
  inj : ∀ {s t}, node s → node t → word s = word t → s = t

/-- The node spells the longest suffix of `w` in the trie. -/
structure Longest (node : σ → Prop) (word : σ → List α) (w : List α) (s : σ) : Prop where
  mem : node s
  suffix : word s <:+ w
  max : ∀ {t}, node t → word t <:+ w → (word t).length ≤ (word s).length

/-- The fail link of the node goes to its longest proper suffix. -/
def Fails (node : σ → Prop) (word : σ → List α) (fail : σ → Option σ) (s : σ) : Prop :=
  ∃ t, fail s = some t ∧ Longest node word (word s).tail t

variable {next : σ → α → Option σ} {root : σ} {node : σ → Prop} {word : σ → List α}
  {fail : σ → Option σ} {s t : σ} {c : α} {w : List α}

theorem suffix_concat_iff {u v : List α} {c : α} (hu : u <:+ v ++ [c]) (hne : u ≠ []) :
    ∃ u', u = u' ++ [c] ∧ u' <:+ v := by
  rcases eq_nil_or_concat u with rfl | ⟨u', d, rfl⟩
  · exact absurd rfl hne
  · obtain ⟨x, hx⟩ := hu
    rw [concat_eq_append, ← append_assoc] at hx
    obtain ⟨hv, hd⟩ := append_inj' hx rfl
    rw [concat_eq_append]
    exact ⟨u', by rw [(List.cons.inj hd).1], x, hv⟩

theorem Longest.suffix_of (h : Longest node word w s) (ht : node t) (hw : word t <:+ w) :
    word t <:+ word s :=
  suffix_of_suffix_length_le hw h.suffix (h.max ht hw)

theorem Longest.self (hs : node s) : Longest node word (word s) s :=
  ⟨hs, suffix_rfl, fun _ hw => hw.length_le⟩

namespace Trie

variable (h : Trie next root node word)
include h

theorem root_of_nil (hs : node s) (hw : word s = []) : s = root :=
  h.inj hs h.node_root (hw.trans h.word_root.symm)

theorem word_ne_nil (hs : node s) (hne : s ≠ root) : word s ≠ [] :=
  fun hw => hne (h.root_of_nil hs hw)

theorem longest_root : Longest node word [] root := by
  refine ⟨h.node_root, by rw [h.word_root], fun _ hw => ?_⟩
  rw [suffix_nil.1 hw]
  exact Nat.zero_le _

theorem longest_concat (hs : Longest node word w s) (ht : Longest node word (word s ++ [c]) t) :
    Longest node word (w ++ [c]) t := by
  have hmono : ∀ {u v : List α}, u <:+ v → u ++ [c] <:+ v ++ [c] := by
    rintro u v ⟨x, rfl⟩
    exact ⟨x, by rw [append_assoc]⟩
  refine ⟨ht.mem, ht.suffix.trans (hmono hs.suffix), fun {u} hu hw => ?_⟩
  by_cases hnil : word u = []
  · rw [hnil]
    exact Nat.zero_le _
  · obtain ⟨v, hv, hvw⟩ := suffix_concat_iff hw hnil
    obtain ⟨p, hp, hpv, -⟩ := h.closed hu hv
    refine ht.max hu ?_
    rw [hv]
    exact hmono (hpv ▸ hs.suffix_of hp (hpv.symm ▸ hvw))

theorem word_ne_concat (hs : node s) (hnone : next s c = none) (ht : node t) :
    word t ≠ word s ++ [c] := by
  intro hword
  obtain ⟨p, hp, hps, hpt⟩ := h.closed ht hword
  rw [h.inj hp hs hps, hnone] at hpt
  cases hpt

theorem add [DecidableEq σ] [DecidableEq α] {n : σ} (hs : node s) (hnone : next s c = none)
    (hn : ¬ node n) {next' : σ → α → Option σ}
    (hnext : ∀ i d, next' i d =
      if i = n then none else if i = s ∧ d = c then some n else next i d) :
    Trie next' root (fun i => node i ∨ i = n) (Function.update word n (word s ++ [c])) := by
  have hne : ∀ {i}, node i → i ≠ n := fun hi he => hn (he ▸ hi)
  have hold : ∀ {i}, node i → Function.update word n (word s ++ [c]) i = word i :=
    fun hi => update_of_ne (hne hi) ..
  have hnew : Function.update word n (word s ++ [c]) n = word s ++ [c] := update_self ..
  refine ⟨.inl h.node_root, (hold h.node_root).trans h.word_root, ?_, ?_, ?_⟩
  · intro i d t hi ht
    rw [hnext] at ht
    rcases hi with hi | rfl
    · rw [if_neg (hne hi)] at ht
      rw [hold hi]
      by_cases hd : i = s ∧ d = c
      · grind
      · rw [if_neg hd] at ht
        obtain ⟨htn, hword⟩ := h.step hi ht
        rw [hold htn]
        exact ⟨.inl htn, hword⟩
    · rw [if_pos rfl] at ht
      cases ht
  · intro t w d ht hword
    rcases ht with ht | rfl
    · rw [hold ht] at hword
      obtain ⟨p, hp, hpw, hpt⟩ := h.closed ht hword
      refine ⟨p, .inl hp, (hold hp).trans hpw, ?_⟩
      rw [hnext, if_neg (hne hp), if_neg, hpt]
      rintro ⟨rfl, rfl⟩
      rw [hnone] at hpt
      cases hpt
    · rw [hnew] at hword
      obtain ⟨rfl, hd⟩ := append_inj' hword rfl
      refine ⟨s, .inl hs, hold hs, ?_⟩
      rw [hnext, if_neg (hne hs), if_pos ⟨rfl, (List.cons.inj hd).1.symm⟩]
  · intro i j hi hj hword
    rcases hi with hi | rfl <;> rcases hj with hj | rfl
    · rw [hold hi, hold hj] at hword
      exact h.inj hi hj hword
    · rw [hold hi, hnew] at hword
      exact absurd hword (h.word_ne_concat hs hnone hi)
    · rw [hold hj, hnew] at hword
      exact absurd hword.symm (h.word_ne_concat hs hnone hj)
    · rfl

theorem length_lt {N : ℕ} (hN : ∀ l : List σ, l.Nodup → (∀ s ∈ l, node s) → l.length ≤ N)
    (ht : node t) : (word t).length < N := by
  obtain ⟨l, hnodup, hnode, hlen⟩ : ∃ l : List σ, l.Nodup ∧
      (∀ s ∈ l, node s ∧ (word s).length ≤ (word t).length) ∧ l.length = (word t).length + 1 := by
    generalize hk : (word t).length = k
    induction k generalizing t with
    | zero => exact ⟨[t], nodup_singleton t, by simpa using ⟨ht, length_eq_zero_iff.1 hk⟩, rfl⟩
    | succ k ih =>
      obtain ⟨w, c, hword⟩ : ∃ w c, word t = w ++ [c] := by
        rcases eq_nil_or_concat (word t) with hnil | ⟨w, c, hw⟩
        · rw [hnil] at hk
          cases hk
        · exact ⟨w, c, by rw [hw, concat_eq_append]⟩
      obtain ⟨p, hp, hpw, -⟩ := h.closed ht hword
      rw [hword, length_append, length_singleton, ← hpw] at hk
      obtain ⟨l, hnodup, hnode, hlen⟩ := ih hp (by omega)
      refine ⟨t :: l, nodup_cons.2 ⟨fun hm => ?_, hnodup⟩, fun s hs => ?_, by simp [hlen]⟩
      · grind
      · rcases List.mem_cons.1 hs with rfl | hs
        · refine ⟨ht, ?_⟩
          rw [hword, length_append, length_singleton, ← hpw]
          omega
        · exact ⟨(hnode s hs).1, (hnode s hs).2.trans (Nat.le_succ k)⟩
  have := hN l hnodup fun s hs => (hnode s hs).1
  omega

end Trie

/-! ## The walk -/

section Walk

variable [DecidableEq σ]

/-- Along the fail links to a node with an edge for the letter, and over it; or to the root. -/
def walk (next : σ → α → Option σ) (fail : σ → Option σ) (root : σ) : ℕ → σ → α → Option σ
  | 0, _, _ => none
  | n + 1, s, c =>
    match next s c with
    | some t => some t
    | none =>
      if s = root then some root
      else
        match fail s with
        | none => none
        | some u => walk next fail root n u c

/-- The walk ends at the longest suffix of the word and the letter. -/
theorem walk_longest (h : Trie next root node word) {n : ℕ} (hs : node s)
    (hfail : ∀ t, node t → t ≠ root → (word t).length ≤ (word s).length → Fails node word fail t)
    (hn : (word s).length < n) :
    ∃ t, walk next fail root n s c = some t ∧ Longest node word (word s ++ [c]) t := by
  induction n generalizing s with
  | zero => omega
  | succ n ih =>
    rw [walk]
    cases hnext : next s c with
    | some t =>
      obtain ⟨ht, hword⟩ := h.step hs hnext
      exact ⟨t, rfl, hword ▸ Longest.self ht⟩
    | none =>
      -- no node spells the whole word
      have hnot : ∀ u, node u → word u ≠ word s ++ [c] := fun u hu => h.word_ne_concat hs hnext hu
      by_cases hroot : s = root
      · rw [if_pos hroot]
        refine ⟨root, rfl, h.node_root, by rw [h.word_root]; exact nil_suffix, fun {u} hu hw => ?_⟩
        rw [h.word_root]
        by_contra hlen
        have hne : word u ≠ [] := fun hn => hlen (by rw [hn])
        obtain ⟨v, hv, hvs⟩ := suffix_concat_iff hw hne
        rw [hroot, h.word_root, suffix_nil] at hvs
        refine hnot u hu ?_
        rw [hv, hvs, hroot, h.word_root]
      · have hne := h.word_ne_nil hs hroot
        obtain ⟨u, hu, hf⟩ := hfail s hs hroot le_rfl
        have hlen : (word u).length < (word s).length := by
          have htail := hf.suffix.length_le
          have hpos := length_pos_iff.2 hne
          rw [length_tail] at htail
          omega
        obtain ⟨t, hwalk, ht⟩ := ih hf.mem (fun v hv hvr hlv => hfail v hv hvr (by omega)) (by omega)
        have ht' := h.longest_concat hf ht
        rw [if_neg hroot, hu]
        have htail : (word s).tail ++ [c] = (word s ++ [c]).tail := by
          rw [tail_append_of_ne_nil hne]
        refine ⟨t, hwalk, ht'.mem, ?_, fun {v} hv hw => ?_⟩
        · rw [htail] at ht'
          exact ht'.suffix.trans (tail_suffix _)
        · refine ht'.max hv ?_
          rw [htail]
          rcases suffix_cons_iff.1 (show word v <:+ (word s ++ [c]).head (by simp) ::
            (word s ++ [c]).tail by rw [cons_head_tail]; exact hw) with heq | hsuf
          · rw [cons_head_tail] at heq
            exact absurd heq (hnot v hv)
          · exact hsuf

/-! ## Outputs -/

/-- The first output on the way along the fail links to the root. -/
def findAlong (output : σ → Option φ) (fail : σ → Option σ) (root : σ) : ℕ → σ → Option (Option φ)
  | 0, _ => none
  | n + 1, s =>
    if s = root then some none
    else
      match output s with
      | some f => some (some f)
      | none =>
        match fail s with
        | none => some none
        | some u => findAlong output fail root n u

/-- No node but the root that spells a suffix of `w` has an output. -/
def NoOutput (node : σ → Prop) (word : σ → List α) (root : σ) (output : σ → Option φ)
    (w : List α) : Prop :=
  ∀ t, node t → t ≠ root → word t <:+ w → output t = none

/-- The output is that of the longest suffix of `w` that has one. -/
def LongestOutput (node : σ → Prop) (word : σ → List α) (root : σ) (output : σ → Option φ)
    (w : List α) (f : φ) : Prop :=
  ∃ s, node s ∧ s ≠ root ∧ word s <:+ w ∧ output s = some f ∧
    ∀ t, node t → t ≠ root → word t <:+ w → output t ≠ none → (word t).length ≤ (word s).length

/-- All fail links are right. -/
def Linked (node : σ → Prop) (word : σ → List α) (root : σ) (fail : σ → Option σ) : Prop :=
  ∀ t, node t → t ≠ root → Fails node word fail t

variable {output : σ → Option φ}

/-- Along the fail links are the outputs of the suffixes of the node's word, the longest first. -/
theorem findAlong_spec (h : Trie next root node word) (hfail : Linked node word root fail) {n : ℕ}
    (hs : node s) (hn : (word s).length < n) :
    ∃ found, findAlong output fail root n s = some found ∧
      (found = none → NoOutput node word root output (word s)) ∧
      ∀ f, found = some f → LongestOutput node word root output (word s) f := by
  induction n generalizing s with
  | zero => omega
  | succ n ih =>
    rw [findAlong]
    by_cases hroot : s = root
    · rw [if_pos hroot]
      refine ⟨none, rfl, fun _ t ht hne hw => ?_, fun f hf => (nomatch hf)⟩
      rw [hroot, h.word_root, suffix_nil] at hw
      exact absurd hw (h.word_ne_nil ht hne)
    rw [if_neg hroot]
    cases hout : output s with
    | some f =>
      refine ⟨some f, rfl, fun hn => (nomatch hn), fun g hg => ?_⟩
      cases hg
      exact ⟨s, hs, hroot, suffix_rfl, hout, fun t _ _ hw _ => hw.length_le⟩
    | none =>
      obtain ⟨p, hp, hf⟩ := hfail s hs hroot
      have hne := h.word_ne_nil hs hroot
      have hlen : (word p).length < (word s).length := by
        have htail := hf.suffix.length_le
        have hpos := length_pos_iff.2 hne
        rw [length_tail] at htail
        omega
      obtain ⟨found, hfind, hnone, hsome⟩ := ih hf.mem (by omega)
      -- a suffix of the word is the word, or one of its link's word
      have hsuffix : ∀ t, node t → word t <:+ word s → t = s ∨ word t <:+ word p := by
        intro t ht hw
        rw [← cons_head_tail hne, suffix_cons_iff, cons_head_tail] at hw
        rcases hw with heq | htail
        · exact .inl (h.inj ht hs heq)
        · exact .inr (hf.suffix_of ht htail)
      rw [hp]
      refine ⟨found, hfind, fun hf' t ht htr hw => ?_, fun f hf' => ?_⟩
      · rcases hsuffix t ht hw with rfl | hw
        · exact hout
        · exact hnone hf' t ht htr hw
      · obtain ⟨u, hu, hur, huw, huf, hmax⟩ := hsome f hf'
        refine ⟨u, hu, hur, huw.trans (hf.suffix.trans (tail_suffix _)), huf,
          fun t ht htr hw hto => ?_⟩
        rcases hsuffix t ht hw with rfl | hw
        · exact absurd hout hto
        · exact hmax t ht htr hw hto

/-! ## The search -/

/-- Reads the text, and stops at the first output. -/
def search (next : σ → α → Option σ) (fail : σ → Option σ) (root : σ) (output : σ → Option φ)
    (n : ℕ) : σ → List α → Option (Option φ)
  | _, [] => some none
  | s, c :: text =>
    match walk next fail root n s c with
    | none => none
    | some t =>
      match findAlong output fail root n t with
      | some none => search next fail root output n t text
      | found => found

variable {x : List α}

omit [DecidableEq σ] in
/-- The suffixes of the text in the trie are those of the state. -/
theorem Longest.noOutput_iff (hs : Longest node word x s) :
    NoOutput node word root output x ↔ NoOutput node word root output (word s) :=
  ⟨fun hno t ht hne hw => hno t ht hne (hw.trans hs.suffix),
    fun hno t ht hne hw => hno t ht hne (hs.suffix_of ht hw)⟩

omit [DecidableEq σ] in
theorem Longest.longestOutput (hs : Longest node word x s) {f : φ}
    (hf : LongestOutput node word root output (word s) f) :
    LongestOutput node word root output x f := by
  obtain ⟨u, hu, hur, huw, huf, hmax⟩ := hf
  exact ⟨u, hu, hur, huw.trans hs.suffix, huf,
    fun t ht htr hw hto => hmax t ht htr (hs.suffix_of ht hw) hto⟩

variable (output) in
/-- After `x`, the search of `text` finds an output if and only if one ends in the text: the longest
    at the first position. -/
theorem search_spec (h : Trie next root node word) (hfail : Linked node word root fail) {n : ℕ}
    (hn : ∀ t, node t → (word t).length < n) (hs : Longest node word x s) (text : List α) :
    ∃ found, search next fail root output n s text = some found ∧
      (found = none → ∀ y, y ≠ [] → y <+: text → NoOutput node word root output (x ++ y)) ∧
      ∀ f, found = some f → ∃ y, y <+: text ∧ LongestOutput node word root output (x ++ y) f ∧
        ∀ z, z ≠ [] → z <+: y → z ≠ y → NoOutput node word root output (x ++ z) := by
  induction text generalizing x s with
  | nil =>
    exact ⟨none, rfl, fun _ y hy hpre => absurd (prefix_nil.1 hpre) hy, fun f hf => (nomatch hf)⟩
  | cons c text ih =>
    obtain ⟨t, hwalk, ht⟩ := walk_longest (c := c) h hs.mem (fun u hu hur _ => hfail u hu hur)
      (hn s hs.mem)
    have htx := h.longest_concat hs ht
    obtain ⟨found, hfind, hnone, hsome⟩ : ∃ found, findAlong output fail root n t = some found ∧
          (found = none → NoOutput node word root output (word t)) ∧
          ∀ f, found = some f → LongestOutput node word root output (word t) f :=
      findAlong_spec h hfail ht.mem (hn t ht.mem)
    rw [search, hwalk]
    dsimp only
    rw [hfind]
    cases found with
    | some f =>
      refine ⟨some f, rfl, fun hn => (nomatch hn), fun g hg => ?_⟩
      cases hg
      refine ⟨[c], ⟨text, rfl⟩, htx.longestOutput (hsome f rfl), fun z hz hpre hne => ?_⟩
      rcases prefix_cons_iff.1 hpre with rfl | ⟨z', rfl, hz'⟩
      · exact absurd rfl hz
      · rw [prefix_nil.1 hz'] at hne
        exact absurd rfl hne
    | none =>
      have hhere : NoOutput node word root output (x ++ [c]) := htx.noOutput_iff.2 (hnone rfl)
      obtain ⟨rest, hrest, hrnone, hrsome⟩ := ih htx
      -- a prefix that has a letter is the first letter, or goes on after it
      have hcases : ∀ y, y ≠ [] → y <+: c :: text →
          y = [c] ∨ ∃ y', y = c :: y' ∧ y' ≠ [] ∧ y' <+: text := by
        intro y hy hpre
        rcases prefix_cons_iff.1 hpre with rfl | ⟨y', rfl, hy'⟩
        · exact absurd rfl hy
        · cases y' with
          | nil => exact .inl rfl
          | cons d y' => exact .inr ⟨d :: y', rfl, cons_ne_nil _ _, hy'⟩
      refine ⟨rest, hrest, fun hr y hy hpre => ?_, fun f hf => ?_⟩
      · rcases hcases y hy hpre with rfl | ⟨y', rfl, hne, hpre'⟩
        · exact hhere
        · have := hrnone hr y' hne hpre'
          rwa [append_assoc] at this
      · obtain ⟨y, hpre, hlongest, hfirst⟩ := hrsome f hf
        rw [append_assoc] at hlongest
        refine ⟨c :: y, cons_prefix_cons.2 ⟨rfl, hpre⟩, hlongest, fun z hz hzy hne => ?_⟩
        rcases hcases z hz (hzy.trans (cons_prefix_cons.2 ⟨rfl, hpre⟩)) with
          rfl | ⟨z', rfl, hz', -⟩
        · exact hhere
        · grind

end Walk

/-! ## The links -/

section Links

variable [DecidableEq σ]

/-- Sets the links of the ends of the edges of `s`, one after the other. -/
def linkEdges (next : σ → α → Option σ) (root : σ) (n : ℕ) (s : σ) :
    (σ → Option σ) → List (α × σ) → Option (σ → Option σ)
  | fail, [] => some fail
  | fail, (c, t) :: es =>
    match fail s with
    | none => none
    | some p =>
      match walk next fail root n p c with
      | none => none
      | some u => linkEdges next root n s (Function.update fail t (some u)) es

/-- Takes the nodes from the queue, at most as many as the first bound, and puts the ends of their
    edges at its end. -/
def linkAll (edges : σ → List (α × σ)) (next : σ → α → Option σ) (root : σ) (n : ℕ) :
    ℕ → (σ → Option σ) → List σ → Option (σ → Option σ)
  | _, fail, [] => some fail
  | 0, _, _ :: _ => none
  | m + 1, fail, s :: queue =>
    match linkEdges next root n s fail (edges s) with
    | none => none
    | some fail => linkAll edges next root n m fail (queue ++ (edges s).map Prod.snd)

section

variable (h : Trie next root node word)

include h

/-- Where the links of the shorter nodes are right, those of the ends of the edges become right. -/
theorem linkEdges_spec {n : ℕ} (hs : node s) (hne : s ≠ root)
    (hfail : ∀ t, node t → t ≠ root → (word t).length < (word s).length → Fails node word fail t)
    (hself : Fails node word fail s) (hn : (word s).length < n) {es : List (α × σ)}
    (hes : ∀ e ∈ es, next s e.1 = some e.2) (hnodup : (es.map Prod.snd).Nodup) :
    ∃ fail', linkEdges next root n s fail es = some fail' ∧
      (∀ t, t ∉ es.map Prod.snd → fail' t = fail t) ∧
      ∀ t ∈ es.map Prod.snd, Fails node word fail' t := by
  induction es generalizing fail with
  | nil => exact ⟨fail, rfl, fun _ _ => rfl, fun _ ht => absurd ht not_mem_nil⟩
  | cons e es ih =>
    obtain ⟨c, t⟩ := e
    rw [map_cons, nodup_cons] at hnodup
    obtain ⟨ht, hword⟩ := h.step hs (hes _ mem_cons_self)
    have hwne := h.word_ne_nil hs hne
    obtain ⟨p, hp, hpl⟩ := hself
    have hshort : (word p).length < (word s).length := by
      have htail := hpl.suffix.length_le
      have hpos := length_pos_iff.2 hwne
      rw [length_tail] at htail
      omega
    obtain ⟨u, hwalk, hu⟩ := walk_longest (c := c) h hpl.mem
      (fun v hv hvr hlen => hfail v hv hvr (by omega)) (show (word p).length < n by omega)
    have hlong : (word t).length = (word s).length + 1 := by rw [hword, length_append]; rfl
    have hother : ∀ v, v ≠ t → Function.update fail t (some u) v = fail v :=
      fun v hv => update_of_ne hv ..
    have hfail' : ∀ v, node v → v ≠ root → (word v).length < (word s).length →
        Fails node word (Function.update fail t (some u)) v := by
      intro v hv hvr hlen
      unfold Fails
      rw [hother v fun he => by rw [he] at hlen; omega]
      exact hfail v hv hvr hlen
    have hself' : Fails node word (Function.update fail t (some u)) s := by
      unfold Fails
      rw [hother s fun he => by rw [← he] at hlong; omega]
      exact ⟨p, hp, hpl⟩
    obtain ⟨fail', hrest, hsame, hlinked⟩ := ih hfail' hself'
      (fun e he => hes e (mem_cons_of_mem _ he)) hnodup.2
    refine ⟨fail', ?_, fun v hv => ?_, fun v hv => ?_⟩
    · rw [linkEdges, hp]
      dsimp only
      rw [hwalk]
      exact hrest
    · rw [map_cons, List.mem_cons, not_or] at hv
      rw [hsame v hv.2, hother v hv.1]
    · rcases List.mem_cons.1 hv with rfl | hv
      · unfold Fails
        rw [hsame _ hnodup.1, update_self, hword, tail_append_of_ne_nil hwne]
        exact ⟨u, rfl, h.longest_concat hpl hu⟩
      · exact hlinked v hv

/-- The links of the nodes that were put into the queue are right. The queue has the children of the
    root and of the nodes that were taken, the shorter ones first. -/
structure Bfs (next : σ → α → Option σ) (root : σ) (node : σ → Prop) (word : σ → List α)
    (fail : σ → Option σ) (done queue : List σ) : Prop where
  mem : ∀ t ∈ done ++ queue, node t ∧ t ≠ root ∧ Fails node word fail t
  nodup : (done ++ queue).Nodup
  parent : ∀ t ∈ done ++ queue, ∃ s ∈ root :: done, ∃ c, next s c = some t
  child : ∀ s ∈ root :: done, ∀ c t, next s c = some t → t ∈ done ++ queue
  sorted : queue.Pairwise fun s t => (word s).length ≤ (word t).length
  near : ∀ s ∈ queue, ∀ t ∈ queue, (word t).length ≤ (word s).length + 1

/-- All nodes that are not longer than those in the queue have been put into it. -/
theorem Bfs.cover {done queue : List σ} (hb : Bfs next root node word fail done queue) {k : ℕ}
    (hk : ∀ s ∈ queue, k ≤ (word s).length) {t : σ} (ht : node t) (hne : t ≠ root)
    (hlen : (word t).length ≤ k) : t ∈ done ++ queue := by
  generalize hl : (word t).length = l at hlen
  induction l using Nat.strong_induction_on generalizing t with
  | h l ih =>
    obtain ⟨w, c, hword⟩ : ∃ w c, word t = w ++ [c] := by
      rcases eq_nil_or_concat (word t) with hnil | ⟨w, c, hw⟩
      · exact absurd hnil (h.word_ne_nil ht hne)
      · exact ⟨w, c, by rw [hw, concat_eq_append]⟩
    obtain ⟨p, hp, hpw, hpt⟩ := h.closed ht hword
    have hshort : (word p).length + 1 = l := by rw [← hl, hword, hpw, length_append]; rfl
    by_cases hroot : p = root
    · exact hb.child p (by rw [hroot]; exact mem_cons_self) c t hpt
    · rcases mem_append.1 (ih _ (by omega) hp hroot rfl (by omega)) with hdone | hqueue
      · exact hb.child p (mem_cons_of_mem _ hdone) c t hpt
      · have := hk p hqueue
        omega

/-- The nodes are taken in time, and then all links are right. -/
theorem linkAll_spec {edges : σ → List (α × σ)} {n N : ℕ}
    (hedges : ∀ s, node s → ∀ c t, (c, t) ∈ edges s ↔ next s c = some t)
    (hends : ∀ s, node s → ((edges s).map Prod.snd).Nodup) (hn : ∀ t, node t → (word t).length < n)
    (hN : ∀ l : List σ, l.Nodup → (∀ t ∈ l, node t) → l.length ≤ N) {done queue : List σ} {m : ℕ}
    (hb : Bfs next root node word fail done queue) (hm : N ≤ done.length + m) :
    ∃ fail', linkAll edges next root n m fail queue = some fail' ∧ Linked node word root fail' := by
  induction m generalizing fail done queue with
  | zero =>
    cases queue with
    | nil =>
      refine ⟨fail, rfl, fun t ht hne => (hb.mem t ?_).2.2⟩
      exact hb.cover h (fun _ hs => absurd hs not_mem_nil) ht hne le_rfl
    | cons s queue =>
      have := hN _ hb.nodup fun t ht => (hb.mem t ht).1
      rw [length_append, length_cons] at this
      omega
  | succ m ih =>
    cases queue with
    | nil =>
      refine ⟨fail, rfl, fun t ht hne => (hb.mem t ?_).2.2⟩
      exact hb.cover h (fun _ hs => absurd hs not_mem_nil) ht hne le_rfl
    | cons s queue =>
      obtain ⟨hs, hne, hself⟩ := hb.mem s (by simp)
      have hhead : ∀ t ∈ s :: queue, (word s).length ≤ (word t).length := by
        intro t ht
        rcases List.mem_cons.1 ht with rfl | ht
        · exact le_rfl
        · exact (pairwise_cons.1 hb.sorted).1 t ht
      obtain ⟨fail', hrun, hsame, hlinked⟩ := linkEdges_spec h hs hne
        (fun t ht htr hlen => (hb.mem t (hb.cover h hhead ht htr hlen.le)).2.2) hself (hn s hs)
        (fun e he => (hedges s hs e.1 e.2).1 he) (hends s hs)
      have hkid : ∀ t, t ∈ (edges s).map Prod.snd ↔ ∃ c, next s c = some t := by
        intro t
        rw [List.mem_map]
        constructor
        · simp [*]
        · simp [*]
      have hkidlen : ∀ t ∈ (edges s).map Prod.snd, (word t).length = (word s).length + 1 := by
        intro t ht
        obtain ⟨c, hc⟩ := (hkid t).1 ht
        rw [(h.step hs hc).2, length_append]
        rfl
      have hnotdone : s ∉ root :: done := by
        rw [List.mem_cons, not_or]
        refine ⟨hne, fun hd => ?_⟩
        exact (nodup_append.1 hb.nodup).2.2 s hd s mem_cons_self rfl
      -- the ends of the edges are new
      have hnew : ∀ t ∈ (edges s).map Prod.snd, t ∉ done ++ s :: queue := by
        intro t ht hold
        obtain ⟨c, hc⟩ := (hkid t).1 ht
        obtain ⟨p, hp, d, hd⟩ := hb.parent t hold
        have hpnode : node p := by
          rcases List.mem_cons.1 hp with rfl | hp
          · exact h.node_root
          · exact (hb.mem p (mem_append_left _ hp)).1
        have hwords := (h.step hs hc).2.symm.trans (h.step hpnode hd).2
        have heq := h.inj hs hpnode (append_inj' hwords rfl).1
        exact hnotdone (heq ▸ hp)
      have happ : done ++ [s] ++ (queue ++ (edges s).map Prod.snd) =
          (done ++ s :: queue) ++ (edges s).map Prod.snd := by simp
      have hbfs : Bfs next root node word fail' (done ++ [s])
          (queue ++ (edges s).map Prod.snd) := by
        refine ⟨?_, ?_, ?_, ?_, ?_, ?_⟩
        · rw [happ]
          intro t ht
          rcases mem_append.1 ht with hold | hkid'
          · obtain ⟨htn, htr, htf⟩ := hb.mem t hold
            refine ⟨htn, htr, ?_⟩
            unfold Fails
            rw [hsame t fun hk => hnew t hk hold]
            exact htf
          · obtain ⟨c, hc⟩ := (hkid t).1 hkid'
            refine ⟨(h.step hs hc).1, fun hr => ?_, hlinked t hkid'⟩
            have := hkidlen t hkid'
            rw [hr, h.word_root] at this
            exact absurd this (by simp)
        · rw [happ]
          exact nodup_append.2 ⟨hb.nodup, hends s hs, fun t ht u hu he => hnew u hu (he ▸ ht)⟩
        · rw [happ]
          intro t ht
          rcases mem_append.1 ht with hold | hkid'
          · obtain ⟨p, hp, hpt⟩ := hb.parent t hold
            refine ⟨p, ?_, hpt⟩
            rw [← cons_append]
            exact mem_append_left _ hp
          · exact ⟨s, by simp, (hkid t).1 hkid'⟩
        · rw [happ, ← cons_append]
          intro p hp c t hpt
          rcases mem_append.1 hp with hold | hnow
          · exact mem_append_left _ (hb.child p hold c t hpt)
          · rw [mem_singleton.1 hnow] at hpt
            exact mem_append_right _ ((hkid t).2 ⟨c, hpt⟩)
        · refine pairwise_append.2 ⟨(pairwise_cons.1 hb.sorted).2, ?_, ?_⟩
          · refine List.Pairwise.imp_of_mem ?_ (hends s hs)
            intro t u ht hu _
            rw [hkidlen t ht, hkidlen u hu]
          · intro t ht u hu
            rw [hkidlen u hu]
            exact hb.near s mem_cons_self t (mem_cons_of_mem _ ht)
        · have hbounds : ∀ t ∈ queue ++ (edges s).map Prod.snd,
              (word s).length ≤ (word t).length ∧ (word t).length ≤ (word s).length + 1 := by
            intro t ht
            rcases mem_append.1 ht with hold | hkid'
            · exact ⟨hhead t (mem_cons_of_mem _ hold),
                hb.near s mem_cons_self t (mem_cons_of_mem _ hold)⟩
            · have := hkidlen t hkid'
              omega
          intro t ht u hu
          have := hbounds t ht
          have := hbounds u hu
          omega
      obtain ⟨fail'', hrest, hall⟩ := ih hbfs (by rw [length_append, length_singleton]; omega)
      refine ⟨fail'', ?_, hall⟩
      rw [linkAll, hrun]
      exact hrest

end

end Links

end Apackage.Lib.AhoCorasick
