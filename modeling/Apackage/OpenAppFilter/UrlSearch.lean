import Apackage.OpenAppFilter.UrlAutomaton
import Mathlib.Data.List.Perm.Subperm

/-
  The automaton over the host patterns finds what the naive search finds.

  `Spells ac word fs`: the nodes of the automaton spell the words `word`, and the outputs of a node
  are the features of `fs` with its word as their pattern. Inserting patterns keeps it, and then the
  links become right.
-/

namespace Apackage.OpenAppFilter

open Function List Lib.AhoCorasick

/-! ## The trie -/

/-- The nodes and their outputs for the features `fs`. -/
structure Spells (ac : UrlAc) (word : ℕ → List UInt8) (fs : List FeatureNode) : Prop where
  root : ac.root = some 0
  trie : Trie (afAcFindNext ac) 0 (· < ac.nodeCount) word
  labels : ∀ i < ac.nodeCount, ((ac.edges i).map Prod.fst).Nodup
  output : ∀ i < ac.nodeCount, ∀ f, f ∈ ac.outputList i ↔ f ∈ fs ∧ f.hostUrl = word i
  spelled : ∀ f ∈ fs, ∃ i < ac.nodeCount, word i = f.hostUrl

theorem find_edge_iff {es : List (UInt8 × ℕ)} (h : (es.map Prod.fst).Nodup) (ch : UInt8) (t : ℕ) :
    ((es.find? fun e => e.1 == ch).map Prod.snd) = some t ↔ (ch, t) ∈ es := by
  induction es with
  | nil => exact ⟨fun hf => (nomatch hf), fun hm => absurd hm not_mem_nil⟩
  | cons e es ih =>
    obtain ⟨d, u⟩ := e
    rw [map_cons, nodup_cons] at h
    by_cases hd : d = ch
    · subst hd
      rw [find?_cons_of_pos (by simp)]
      constructor
      · intro hu
        rw [← Option.some.inj hu]
        exact mem_cons_self
      · intro hm
        rcases List.mem_cons.1 hm with heq | hm
        · rw [(Prod.mk.inj heq).2]
          rfl
        · exact absurd (List.mem_map_of_mem (f := Prod.fst) hm) h.1
    · rw [find?_cons_of_neg (by simpa using hd), ih h.2, List.mem_cons]
      constructor
      · exact .inr
      · rintro (heq | hm)
        · exact absurd (Prod.mk.inj heq).1.symm hd
        · exact hm

variable {ac : UrlAc} {word : ℕ → List UInt8} {fs : List FeatureNode} {s : ℕ} {ch : UInt8}

/-- The automaton with a new node below `s`. -/
def UrlAc.create (ac : UrlAc) (s : ℕ) (ch : UInt8) : UrlAc :=
  { ac with
    nodeCount := ac.nodeCount + 1
    edges := Function.update (Function.update ac.edges ac.nodeCount []) s
      ((ch, ac.nodeCount) :: ac.edges s)
    outputList := Function.update ac.outputList ac.nodeCount []
    fail := Function.update ac.fail ac.nodeCount none }

theorem getOrCreate_of_none (hs : s < ac.nodeCount) (hnone : afAcFindNext ac s ch = none) :
    afAcGetOrCreateNext ac s ch = (ac.nodeCount, ac.create s ch) := by
  unfold afAcGetOrCreateNext
  rw [hnone]
  unfold afAcAllocNode UrlAc.create
  dsimp only
  rw [update_of_ne hs.ne]

theorem findNext_create (hs : s < ac.nodeCount) (i : ℕ) (d : UInt8) :
    afAcFindNext (ac.create s ch) i d = if i = ac.nodeCount then none
      else if i = s ∧ d = ch then some ac.nodeCount else afAcFindNext ac i d := by
  unfold UrlAc.create afAcFindNext
  dsimp only
  by_cases hi : i = s
  · subst hi
    rw [update_self, if_neg hs.ne]
    by_cases hd : d = ch
    · simp [*]
    · rw [if_neg fun h => hd h.2, find?_cons_of_neg (by simpa using fun h => hd h.symm)]
  · rw [update_of_ne hi]
    by_cases hn : i = ac.nodeCount
    · simp [*]
    · rw [if_neg hn, if_neg fun h => hi h.1, update_of_ne hn]

/-- A new node spells one more letter, and has no output. -/
theorem Spells.create (h : Spells ac word fs) (hs : s < ac.nodeCount)
    (hnone : afAcFindNext ac s ch = none) :
    Spells (ac.create s ch) (Function.update word ac.nodeCount (word s ++ [ch])) fs := by
  have hold : ∀ {i}, i < ac.nodeCount →
      Function.update word ac.nodeCount (word s ++ [ch]) i = word i :=
    fun hi => update_of_ne hi.ne ..
  have hcases : ∀ {i}, i < ac.nodeCount + 1 → i < ac.nodeCount ∨ i = ac.nodeCount := by omega
  have htrie := h.trie.add hs hnone (lt_irrefl _) (findNext_create hs)
  have hnode : (fun i => i < ac.nodeCount ∨ i = ac.nodeCount) = (· < (ac.create s ch).nodeCount) := by
    funext i
    exact propext Nat.lt_succ_iff_lt_or_eq.symm
  refine ⟨h.root, hnode ▸ htrie, fun i hi => ?_, fun i hi f => ?_, fun f hf => ?_⟩
  · show ((Function.update (Function.update ac.edges ac.nodeCount []) s
      ((ch, ac.nodeCount) :: ac.edges s) i).map Prod.fst).Nodup
    by_cases his : i = s
    · rw [his, update_self, map_cons, nodup_cons]
      refine ⟨fun hm => ?_, h.labels s hs⟩
      obtain ⟨⟨d, t⟩, he, rfl⟩ := List.mem_map.1 hm
      rw [afAcFindNext, (find_edge_iff (h.labels s hs) d t).2 he] at hnone
      cases hnone
    · rw [update_of_ne his]
      rcases hcases hi with hi | rfl
      · rw [update_of_ne hi.ne]
        exact h.labels i hi
      · simp
  · show f ∈ Function.update ac.outputList ac.nodeCount [] i ↔ _
    rcases hcases hi with hi | rfl
    · rw [update_of_ne hi.ne, hold hi]
      exact h.output i hi f
    · rw [update_self, update_self]
      refine ⟨fun hm => absurd hm not_mem_nil, fun ⟨hf, hword⟩ => ?_⟩
      obtain ⟨j, hj, hjf⟩ := h.spelled f hf
      exact absurd (hjf.trans hword) (h.trie.word_ne_concat hs hnone hj)
  · obtain ⟨i, hi, hword⟩ := h.spelled f hf
    exact ⟨i, Nat.lt_succ_of_lt hi, (hold hi).trans hword⟩

variable (ch) in
/-- A step of the insertion: to the node for one more letter, which is there afterwards. -/
theorem Spells.getOrCreate (h : Spells ac word fs) (hs : s < ac.nodeCount) :
    ∃ t ac' word', afAcGetOrCreateNext ac s ch = (t, ac') ∧ Spells ac' word' fs ∧
      t < ac'.nodeCount ∧ word' t = word s ++ [ch] := by
  cases hnext : afAcFindNext ac s ch with
  | some t =>
    obtain ⟨ht, hword⟩ := h.trie.step hs hnext
    refine ⟨t, ac, word, ?_, h, ht, hword⟩
    unfold afAcGetOrCreateNext
    rw [hnext]
  | none =>
    exact ⟨_, _, _, getOrCreate_of_none hs hnext, h.create hs hnext, Nat.lt_succ_self _,
      update_self ..⟩

theorem Spells.descend (h : Spells ac word fs) (hs : s < ac.nodeCount) (rest : List UInt8) :
    ∃ t ac' word', afAcDescend ac s rest = (t, ac') ∧ Spells ac' word' fs ∧
      t < ac'.nodeCount ∧ word' t = word s ++ rest := by
  induction rest generalizing ac word s with
  | nil => exact ⟨s, ac, word, rfl, h, hs, (append_nil _).symm⟩
  | cons ch rest ih =>
    obtain ⟨t, ac', word', hstep, h', ht, hword⟩ := h.getOrCreate ch hs
    obtain ⟨u, ac'', word'', hrest, h'', hu, hword'⟩ := ih h' ht
    refine ⟨u, ac'', word'', ?_, h'', hu, ?_⟩
    · rw [afAcDescend, hstep]
      exact hrest
    · rw [hword', hword, append_assoc, singleton_append]

variable {feature : FeatureNode}

theorem Spells.addOutput (h : Spells ac word fs) (hs : s < ac.nodeCount)
    (hword : word s = feature.hostUrl) :
    Spells (afAcAddOutput ac s feature) word (fs ++ [feature]) := by
  refine ⟨h.root, h.trie, h.labels, fun i hi f => ?_, fun f hf => ?_⟩
  · show f ∈ Function.update ac.outputList s (ac.outputList s ++ [feature]) i ↔ _
    rw [mem_append, mem_singleton]
    by_cases his : i = s
    · rw [his, update_self, mem_append, mem_singleton, h.output s hs]
      constructor
      · rintro (⟨hf, hfw⟩ | rfl)
        · exact ⟨.inl hf, hfw⟩
        · exact ⟨.inr rfl, hword.symm⟩
      · rintro ⟨hf | hf, hfw⟩
        · exact .inl ⟨hf, hfw⟩
        · exact .inr hf
    · rw [update_of_ne his, h.output i hi]
      constructor
      · tauto
      · rintro ⟨hf | rfl, hfw⟩
        · exact ⟨hf, hfw⟩
        · exact absurd (h.trie.inj hi hs (hfw.symm.trans hword.symm)) his
  · rcases mem_append.1 hf with hf | hf
    · exact h.spelled f hf
    · rw [mem_singleton.1 hf]
      exact ⟨s, hs, hword⟩

theorem Spells.insertPattern (h : Spells ac word fs) (hne : feature.hostUrl.length ≠ 0) :
    ∃ word', Spells (afAcInsertPattern ac feature) word' (fs ++ [feature]) := by
  obtain ⟨t, ac', word', hdescend, h', ht, hword⟩ := h.descend h.trie.node_root feature.hostUrl
  rw [h.trie.word_root, nil_append] at hword
  refine ⟨word', ?_⟩
  unfold afAcInsertPattern
  rw [h.root]
  dsimp only
  rw [if_neg hne, hdescend]
  exact h'.addOutput ht hword

theorem Spells.insertPatterns (h : Spells ac word fs) {features : List FeatureNode}
    (hne : ∀ f ∈ features, f.hostUrl.length ≠ 0) :
    ∃ word', Spells (features.foldl afAcInsertPattern ac) word' (fs ++ features) := by
  induction features generalizing ac word fs with
  | nil => exact ⟨word, by rwa [append_nil]⟩
  | cons f features ih =>
    obtain ⟨word', h'⟩ := h.insertPattern (hne f mem_cons_self)
    obtain ⟨word'', h''⟩ := ih h' fun g hg => hne g (mem_cons_of_mem _ hg)
    refine ⟨word'', ?_⟩
    rw [append_cons]
    exact h''

theorem spells_root :
    Spells { (afAcAllocNode afAcReset).2 with root := some 0 } (fun _ => []) [] := by
  have hnone : ∀ i c, afAcFindNext { (afAcAllocNode afAcReset).2 with root := some 0 } i c = none := by
    intro i c
    show (Option.map Prod.snd (List.find? _ (Function.update (fun _ => []) 0 [] i))) = none
    rw [update_eq_self]
    rfl
  have hzero : ∀ {i}, i < (afAcAllocNode afAcReset).2.nodeCount → i = 0 := Nat.lt_one_iff.1
  refine ⟨rfl, ⟨Nat.zero_lt_one, rfl, fun _ ht => ?_, fun _ hw => ?_, fun hi hj _ => ?_⟩, fun i hi => ?_,
    fun i hi f => ?_, fun f hf => absurd hf not_mem_nil⟩
  · rw [hnone] at ht
    cases ht
  · exact absurd hw (by simp)
  · rw [hzero hi, hzero hj]
  · rw [hzero hi]
    exact nodup_nil
  · rw [hzero hi]
    exact ⟨fun hf => absurd hf not_mem_nil, fun hf => absurd hf.1 not_mem_nil⟩

theorem FeatureNode.length_of_plain {f : FeatureNode} (h : f.plain) : f.hostUrl.length ≠ 0 := by
  unfold FeatureNode.plain at h
  rw [Bool.and_eq_true, bne_iff_ne] at h
  exact h.1

theorem spells_insertPatterns (features : List FeatureNode) :
    ∃ word, Spells (afInsertPatterns features) word (features.filter FeatureNode.plain) :=
  spells_root.insertPatterns fun _ hf => FeatureNode.length_of_plain (of_mem_filter hf)

/-! ## The links -/

variable {l : List ℕ}

theorem length_le_of_nodup {n : ℕ} (hl : l.Nodup) (hn : ∀ i ∈ l, i < n) : l.length ≤ n := by
  have hsub := subperm_of_subset hl fun i hi => mem_range.2 (hn i hi)
  rw [← length_range (n := n)]
  exact hsub.length_le

theorem Spells.ends_nodup (h : Spells ac word fs) (hs : s < ac.nodeCount) :
    ((ac.edges s).map Prod.snd).Nodup := by
  refine List.Nodup.map_on ?_ (h.labels s hs).of_map
  rintro ⟨c, t⟩ hc ⟨d, u⟩ hd rfl
  have hcw := (h.trie.step hs ((find_edge_iff (h.labels s hs) c t).2 hc)).2
  have hdw := (h.trie.step hs ((find_edge_iff (h.labels s hs) d t).2 hd)).2
  rw [(List.cons.inj (append_inj' (hcw.symm.trans hdw) rfl).2).1]

theorem foldl_update_keep {root t : ℕ} {fail : ℕ → Option ℕ} (h : fail t = some root) :
    l.foldl (fun fail child => Function.update fail child (some root)) fail t = some root := by
  induction l generalizing fail with
  | nil => exact h
  | cons u l ih =>
    rw [foldl_cons]
    apply ih
    by_cases hu : t = u
    · rw [hu, update_self]
    · rw [update_of_ne hu, h]

theorem foldl_update_mem {root t : ℕ} {fail : ℕ → Option ℕ} (ht : t ∈ l) :
    l.foldl (fun fail child => Function.update fail child (some root)) fail t = some root := by
  induction l generalizing fail with
  | nil => exact absurd ht not_mem_nil
  | cons u l ih =>
    rw [foldl_cons]
    rcases List.mem_cons.1 ht with rfl | ht
    · exact foldl_update_keep (update_self ..)
    · exact ih ht

theorem Spells.bfs (h : Spells ac word fs) {fail : ℕ → Option ℕ}
    (hfail : ∀ t ∈ (ac.edges 0).map Prod.snd, fail t = some 0) :
    Bfs (afAcFindNext ac) 0 (· < ac.nodeCount) word fail [] ((ac.edges 0).map Prod.snd) := by
  have hroot := h.trie.node_root
  have hkid : ∀ t, t ∈ (ac.edges 0).map Prod.snd ↔ ∃ c, afAcFindNext ac 0 c = some t := by
    intro t
    rw [List.mem_map]
    constructor
    · rintro ⟨⟨c, t⟩, he, rfl⟩
      exact ⟨c, (find_edge_iff (h.labels 0 hroot) c t).2 he⟩
    · rintro ⟨c, hc⟩
      exact ⟨(c, t), (find_edge_iff (h.labels 0 hroot) c t).1 hc, rfl⟩
  have hword : ∀ t ∈ (ac.edges 0).map Prod.snd, t < ac.nodeCount ∧ ∃ c, word t = [c] := by
    intro t ht
    obtain ⟨c, hc⟩ := (hkid t).1 ht
    obtain ⟨htn, hw⟩ := h.trie.step hroot hc
    rw [h.trie.word_root] at hw
    exact ⟨htn, c, hw⟩
  have hlen : ∀ t ∈ (ac.edges 0).map Prod.snd, (word t).length = 1 := by
    intro t ht
    obtain ⟨-, c, hc⟩ := hword t ht
    rw [hc]
    rfl
  refine ⟨fun t ht => ?_, h.ends_nodup hroot, fun t ht => ?_, fun p hp c t hpt => ?_, ?_,
    fun t ht u hu => ?_⟩
  · obtain ⟨htn, c, hc⟩ := hword t ht
    refine ⟨htn, fun h0 => ?_, 0, hfail t ht, ?_⟩
    · rw [h0, h.trie.word_root] at hc
      cases hc
    · rw [hc]
      exact h.trie.longest_root
  · exact ⟨0, mem_cons_self, (hkid t).1 ht⟩
  · rw [mem_singleton.1 hp] at hpt
    exact (hkid t).2 ⟨c, hpt⟩
  · refine List.Pairwise.imp_of_mem ?_ (h.ends_nodup hroot)
    intro t u ht hu _
    rw [hlen t ht, hlen u hu]
  · rw [hlen t ht, hlen u hu]
    exact Nat.le_succ 1

theorem Spells.length_lt (h : Spells ac word fs) (hs : s < ac.nodeCount) :
    (word s).length < ac.nodeCount :=
  h.trie.length_lt (fun _ hl hn => length_le_of_nodup hl hn) hs

theorem Spells.buildFailLinks (h : Spells ac word fs) :
    ∃ fail, afAcBuildFailLinks ac = some { ac with fail := fail } ∧
      Linked (· < ac.nodeCount) word 0 fail := by
  obtain ⟨fail, hlink, hlinked⟩ := linkAll_spec h.trie
    (fun s hs c t => (find_edge_iff (h.labels s hs) c t).symm)
    (fun s hs => h.ends_nodup hs) (fun t ht => h.length_lt ht)
    (fun l hl hn => length_le_of_nodup hl hn)
    (h.bfs fun _ ht => foldl_update_mem ht) (Nat.le_add_left ac.nodeCount 0)
  refine ⟨fail, ?_, hlinked⟩
  have hpos : ac.nodeCount ≠ 0 := Nat.pos_iff_ne_zero.1 h.trie.node_root
  unfold afAcBuildFailLinks
  rw [h.root]
  dsimp only
  rw [if_neg hpos, hlink]

/-! ## The search -/

/-- `f` counts for the search: it is on the list, its pattern is not empty and no regular expression,
    and its conditions hold where they are checked. -/
structure Candidate (features : List FeatureNode) (flow : FlowInfo) (checkBasicCond : Bool)
    (f : FeatureNode) : Prop where
  mem : f ∈ features
  nonempty : f.hostUrl ≠ []
  notRegex : afIsRegexHostPattern f.hostUrl = false
  cond : checkBasicCond = true → afMatchBasicCond flow f = true

def FirstLongest (candidate : FeatureNode → Prop) (text : List UInt8) (f : FeatureNode) : Prop :=
  candidate f ∧ ∃ k ≤ text.length, f.hostUrl <:+ text.take k ∧
    (∀ g, candidate g → ∀ j < k, ¬ g.hostUrl <:+ text.take j) ∧
    ∀ g, candidate g → g.hostUrl <:+ text.take k → g.hostUrl.length ≤ f.hostUrl.length

section Search

variable {features : List FeatureNode} {flow : FlowInfo} {check : Bool}

theorem FeatureNode.plain_iff {f : FeatureNode} :
    f.plain = true ↔ f.hostUrl ≠ [] ∧ afIsRegexHostPattern f.hostUrl = false := by
  unfold FeatureNode.plain
  rw [Bool.and_eq_true, bne_iff_ne, ne_eq, length_eq_zero_iff, Bool.not_eq_true']

/-- The first output of a node that counts. -/
def UrlAc.output (ac : UrlAc) (flow : FlowInfo) (check : Bool) (node : ℕ) : Option FeatureNode :=
  (ac.outputList node).find? fun feature => !(check && !afMatchBasicCond flow feature)

theorem candidate_iff {f : FeatureNode} :
    Candidate features flow check f ↔ f ∈ features.filter FeatureNode.plain ∧
      (!(check && !afMatchBasicCond flow f)) = true := by
  rw [mem_filter, FeatureNode.plain_iff]
  constructor
  · rintro ⟨hmem, hne, hreg, hcond⟩
    refine ⟨⟨hmem, hne, hreg⟩, ?_⟩
    cases check with
    | false => rfl
    | true => rw [hcond rfl]; rfl
  · rintro ⟨⟨hmem, hne, hreg⟩, hcond⟩
    refine ⟨hmem, hne, hreg, fun hcheck => ?_⟩
    rw [hcheck] at hcond
    simpa using hcond

variable (h : Spells ac word (features.filter FeatureNode.plain))
include h

theorem Spells.output_none_iff (hs : s < ac.nodeCount) : ac.output flow check s = none ↔
      ∀ g, Candidate features flow check g → g.hostUrl ≠ word s := by
  unfold UrlAc.output
  rw [find?_eq_none]
  constructor
  · intro hnone g hg hword
    obtain ⟨hmem, hcond⟩ := candidate_iff.1 hg
    exact hnone g ((h.output s hs g).2 ⟨hmem, hword⟩) hcond
  · intro hno g hg hcond
    obtain ⟨hmem, hword⟩ := (h.output s hs g).1 hg
    exact hno g (candidate_iff.2 ⟨hmem, hcond⟩) hword

theorem Spells.candidate_of_output (hs : s < ac.nodeCount) {f : FeatureNode}
    (hf : ac.output flow check s = some f) :
    Candidate features flow check f ∧ f.hostUrl = word s := by
  have hcond := find?_some hf
  obtain ⟨hmem, hword⟩ := (h.output s hs f).1 (mem_of_find?_eq_some hf)
  exact ⟨candidate_iff.2 ⟨hmem, hcond⟩, hword⟩

theorem Spells.node_of_candidate {g : FeatureNode} (hg : Candidate features flow check g) :
    ∃ t < ac.nodeCount, t ≠ 0 ∧ word t = g.hostUrl ∧ ac.output flow check t ≠ none := by
  obtain ⟨t, ht, hword⟩ := h.spelled g (candidate_iff.1 hg).1
  refine ⟨t, ht, fun h0 => hg.nonempty ?_, hword, fun hnone => ?_⟩
  · rw [← hword, h0, h.trie.word_root]
  · exact (h.output_none_iff ht).1 hnone g hg hword.symm

theorem Spells.noOutput_iff {w : List UInt8} :
    NoOutput (· < ac.nodeCount) word 0 (ac.output flow check) w ↔
      ∀ g, Candidate features flow check g → ¬ g.hostUrl <:+ w := by
  constructor
  · intro hno g hg hw
    obtain ⟨t, ht, hne, hword, hout⟩ := h.node_of_candidate hg
    exact hout (hno t ht hne (hword ▸ hw))
  · intro hno t ht _ hw
    exact (h.output_none_iff ht).2 fun g hg hgw => hno g hg (hgw ▸ hw)

variable (flow check) in
/-- A search ends. It finds no feature where no pattern occurs, and else one of the longest at the
    first end. -/
theorem Spells.matchUrlText (hlinked : Linked (· < ac.nodeCount) word 0 ac.fail)
    (hready : ac.ready = true) (text : List UInt8) :
    ∃ found, afMatchUrlTextAc ac flow text check = some found ∧
      (found = none → ∀ g, Candidate features flow check g → ¬ g.hostUrl <:+: text) ∧
      ∀ f, found = some f → FirstLongest (Candidate features flow check) text f := by
  unfold afMatchUrlTextAc
  by_cases hempty : text.length = 0
  · rw [if_pos (.inl hempty)]
    refine ⟨none, rfl, fun _ g hg hin => ?_, fun f hf => (nomatch hf)⟩
    rw [length_eq_zero_iff.1 hempty, infix_nil] at hin
    exact hg.nonempty hin
  rw [if_neg (by rw [hready]; simpa using hempty), h.root]
  obtain ⟨found, hsearch, hnone, hsome⟩ := search_spec (ac.output flow check) h.trie hlinked
    (fun _ ht => h.length_lt ht) h.trie.longest_root text
  refine ⟨found, hsearch, fun hf g hg hin => ?_, fun f hf => ?_⟩
  · obtain ⟨y, hsuf, hpre⟩ := infix_iff_suffix_prefix.1 hin
    have hne : y ≠ [] := fun hy => hg.nonempty (suffix_nil.1 (hy ▸ hsuf))
    exact h.noOutput_iff.1 (hnone hf y hne hpre) g hg hsuf
  · obtain ⟨y, hpre, ⟨t, ht, htr, hw, hout, hmax⟩, hfirst⟩ := hsome f hf
    obtain ⟨hcand, hword⟩ := h.candidate_of_output ht hout
    have htake : text.take y.length = y := (prefix_iff_eq_take.1 hpre).symm
    refine ⟨hcand, y.length, hpre.length_le, ?_, fun g hg j hj hsuf => ?_, fun g hg hsuf => ?_⟩
    · rw [htake, hword]
      exact hw
    · have hz : text.take j <+: y := by
        rw [← htake]
        exact take_prefix_take_left hj.le
      have hzne : text.take j ≠ [] := fun hz => hg.nonempty (suffix_nil.1 (hz ▸ hsuf))
      have hzy : text.take j ≠ y := by
        grind
      exact h.noOutput_iff.1 (hfirst _ hzne hz hzy) g hg hsuf
    · obtain ⟨u, hu, hur, huw, huout⟩ := h.node_of_candidate hg
      rw [htake] at hsuf
      rw [hword, ← huw]
      exact hmax u hu hur (huw ▸ hsuf) huout

end Search

/-! ## Runs -/

/-- Outputs are features of the list, and without changes since the last rebuild all is found. -/
structure FeatureList.Ok (s : FeatureList) : Prop where
  outputs : ∀ i < s.urlAc.nodeCount, ∀ f ∈ s.urlAc.outputList i, f ∈ s.featureHead
  built : s.dirty = false → s.urlAc.ready = true ∧
    ∃ word, Spells s.urlAc word (s.featureHead.filter FeatureNode.plain) ∧
      Linked (· < s.urlAc.nodeCount) word 0 s.urlAc.fail

theorem FeatureList.ok_init : FeatureList.init.Ok :=
  ⟨fun _ hi => absurd hi (Nat.not_lt_zero _), fun hd => (nomatch hd)⟩

theorem FeatureList.Ok.addAppFeature {s : FeatureList} (h : s.Ok) (feature : AppFeature) :
    (addAppFeature s feature).Ok := by
  refine ⟨fun i hi f hf => mem_cons_of_mem _ (h.outputs i hi f hf), fun hd => ?_⟩
  obtain ⟨hdirty, hplain⟩ := Bool.or_eq_false_iff.1 hd
  obtain ⟨hready, word, hspells, hlinked⟩ := h.built hdirty
  refine ⟨hready, word, ?_, hlinked⟩
  show Spells s.urlAc word (List.filter FeatureNode.plain (_ :: s.featureHead))
  rw [filter_cons_of_neg (by rw [hplain]; exact Bool.false_ne_true)]
  exact hspells

theorem FeatureList.Ok.rebuild (s : FeatureList) :
    ∃ s', afRebuildUrlAc s = some s' ∧ s'.Ok ∧ s'.dirty = false := by
  obtain ⟨word, hspells⟩ := spells_insertPatterns s.featureHead
  obtain ⟨fail, hbuild, hlinked⟩ := hspells.buildFailLinks
  refine ⟨_, by rw [afRebuildUrlAc, hbuild], ⟨fun i hi f hf => ?_, fun _ => ⟨rfl, word, ?_, hlinked⟩⟩,
    rfl⟩
  · exact mem_of_mem_filter ((hspells.output i hi f).1 hf).1
  · exact ⟨hspells.root, hspells.trie, hspells.labels, hspells.output, hspells.spelled⟩

theorem FeatureList.Ok.handle {s : FeatureList} (h : s.Ok) (msg : FeatureMsg) :
    ∃ s', handleFeatureMsg s msg = some s' ∧ s'.Ok ∧ (msg = .loadDone → s'.dirty = false) := by
  cases msg with
  | add features =>
    refine ⟨_, rfl, ?_, fun hm => (nomatch hm)⟩
    induction features generalizing s with
    | nil => exact h
    | cons f features ih => exact ih (h.addAppFeature f)
  | clean =>
    exact ⟨_, rfl, ⟨fun _ hi => absurd hi (Nat.not_lt_zero _), fun hd => (nomatch hd)⟩,
      fun hm => (nomatch hm)⟩
  | loadDone =>
    rw [handleFeatureMsg]
    cases hd : s.dirty with
    | true =>
      obtain ⟨s', hs', hok, hclean⟩ := FeatureList.Ok.rebuild s
      exact ⟨s', hs', hok, fun _ => hclean⟩
    | false => exact ⟨s, rfl, h, fun _ => hd⟩

theorem FeatureList.Ok.run {s : FeatureList} (h : s.Ok) (msgs : List FeatureMsg) :
    ∃ s', msgs.foldlM handleFeatureMsg s = some s' ∧ s'.Ok := by
  induction msgs generalizing s with
  | nil => exact ⟨s, rfl, h⟩
  | cons msg msgs ih =>
    obtain ⟨s', hstep, hok, -⟩ := h.handle msg
    obtain ⟨s'', hrun, hok'⟩ := ih hok
    refine ⟨s'', ?_, hok'⟩
    rw [foldlM_cons, hstep]
    exact hrun

theorem FeatureList.run_loaded (msgs : List FeatureMsg) :
    ∃ s, runFeatureMsgs (msgs ++ [.loadDone]) = some s ∧ s.Ok ∧ s.dirty = false := by
  obtain ⟨s, hrun, hok⟩ := FeatureList.ok_init.run msgs
  obtain ⟨s', hdone, hok', hclean⟩ := hok.handle .loadDone
  refine ⟨s', ?_, hok', hclean rfl⟩
  rw [runFeatureMsgs, foldlM_append, hrun]
  show handleFeatureMsg s .loadDone >>= pure = some s'
  rw [hdone]
  rfl

/-- After the end of a load, the search in a host ends, and it finds a feature if and only if the
    pattern of one that counts occurs in the host: one of the longest at the first end. The outputs
    of the automaton are features of the list. -/
theorem url_search_naive (msgs : List FeatureMsg) :
    ∃ s, runFeatureMsgs (msgs ++ [.loadDone]) = some s ∧
      (∀ i < s.urlAc.nodeCount, ∀ f ∈ s.urlAc.outputList i, f ∈ s.featureHead) ∧
      ∀ flow text check, ∃ found, afMatchUrlTextAc s.urlAc flow text check = some found ∧
        (found.isSome = true ↔ ∃ f, Candidate s.featureHead flow check f ∧ f.hostUrl <:+: text) ∧
        ∀ f, found = some f → FirstLongest (Candidate s.featureHead flow check) text f := by
  obtain ⟨s, hrun, hok, hclean⟩ := FeatureList.run_loaded msgs
  refine ⟨s, hrun, hok.outputs, fun flow text check => ?_⟩
  obtain ⟨hready, word, hspells, hlinked⟩ := hok.built hclean
  obtain ⟨found, hfound, hnone, hsome⟩ := hspells.matchUrlText flow check hlinked hready text
  refine ⟨found, hfound, ⟨fun hf => ?_, fun ⟨g, hg, hin⟩ => ?_⟩, hsome⟩
  · obtain ⟨f, rfl⟩ := Option.isSome_iff_exists.1 hf
    obtain ⟨hcand, k, -, hsuf, -⟩ := hsome f rfl
    exact ⟨f, hcand, infix_iff_suffix_prefix.2 ⟨_, hsuf, take_prefix ..⟩⟩
  · rw [Option.isSome_iff_ne_none]
    exact fun hn => hnone hn g hg hin

end Apackage.OpenAppFilter
