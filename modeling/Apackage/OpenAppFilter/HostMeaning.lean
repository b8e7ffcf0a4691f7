import Apackage.OpenAppFilter.FeatureMatch
import Apackage.OpenAppFilter.UrlSearch

/-
  What a host pattern means in the stages of `fwx_match_feature`.

  The automaton takes a plain pattern literally. The last stage hands it to `regexp_match` where the
  feature also has a pattern for requests, and takes the -1 of a pattern that does not compile for a
  match. `ReadAsMeant` says of the features and a flow that the pattern that decides the flow is not
  misread.
-/

namespace Apackage.OpenAppFilter

open List Option

/-! ## The meaning of a pattern -/

/-- The pattern is a regular expression that the host matches, or it occurs in the text. -/
def HostMatch (mem : Leftover) (pattern host text : List UInt8) : Prop :=
  afIsRegexHostPattern pattern = true ∧ regexpMatch mem pattern host = 1 ∨
    afIsRegexHostPattern pattern = false ∧ pattern <:+: text

/-- A pattern that was found compiles, and in the last stage means what it means in the others. -/
def SameMeaning (mem : Leftover) (pton : Pton) (flow : FlowInfo) : FeatureMatch → Prop
  | .url node _ => compile mem node.hostUrl ≠ []
  | .dnsRegex node _ => compile mem node.hostUrl ≠ []
  | .nonUrl node (.host host) =>
    compile mem node.hostUrl ≠ [] ∧
      ∃ text, afGetFlowHost pton flow = some text ∧ HostMatch mem node.hostUrl host text
  | .nonUrl node (.dns domain) =>
    compile mem node.hostUrl ≠ [] ∧ HostMatch mem node.hostUrl domain domain
  | _ => True

/-! ## What decides a flow -/

def First {α : Type} (p : α → Prop) (l : List α) (a : α) : Prop :=
  ∃ before after, l = before ++ a :: after ∧ p a ∧ ∀ b ∈ before, ¬ p b

section Decide

variable (mem : Leftover) (pton : Pton) (features : List FeatureNode) (flow : FlowInfo)

/-- The texts of the automaton stage, and whether the conditions of a feature are checked. -/
def urlTexts : List (List UInt8 × Bool) :=
  (afGetFlowHost pton flow).toList.map (·, true) ++ (dnsDomains flow).map (·, false)

def Occurs (text : List UInt8 × Bool) : Prop :=
  ∃ g, Candidate features flow text.2 g ∧ g.hostUrl <:+: text.1

/-- The feature has one of the longest plain patterns at the first end in the first text with one. -/
def UrlFirst (node : FeatureNode) : Prop :=
  ∃ text, First (Occurs features flow) (urlTexts pton flow) text ∧
    FirstLongest (Candidate features flow text.2) text.1 node

/-- The feature has a regular expression that `regexp_match` takes for the name. -/
def RegexTakes (domain : List UInt8) (node : FeatureNode) : Prop :=
  node.hostUrl ≠ [] ∧ afIsRegexHostPattern node.hostUrl = true ∧
    regexpMatch mem node.hostUrl domain ≠ 0

/-- The feature is the first with a regular expression for the first DNS name that has one. -/
def DnsRegexFirst (node : FeatureNode) : Prop :=
  ∃ domain, First (fun d => ∃ f ∈ features, RegexTakes mem d f) (dnsDomains flow) domain ∧
    First (RegexTakes mem domain) features node

/-- The last stage looks at the feature, and it matches. -/
def Accepts (node : FeatureNode) : Prop :=
  ¬ (node.plain ∧ node.requestUrl.length = 0) ∧ afMatchOne mem pton flow node ≠ none

/-- The hosts that `af_match_by_url` compares. -/
def urlHosts : List (List UInt8) := cString ((afGetFlowHost pton flow).getD []) :: dnsDomains flow

/-- `regexp_match` takes the pattern of the feature for a host of the flow. -/
def HostTaken (node : FeatureNode) : Prop :=
  node.hostUrl ≠ [] ∧ ∃ host ∈ urlHosts pton flow, host ≠ [] ∧ regexpMatch mem node.hostUrl host ≠ 0

/-- The pattern that decides the flow compiles, and in the last stage is a regular expression. -/
structure ReadAsMeant : Prop where
  url : ∀ node, UrlFirst pton features flow node → compile mem node.hostUrl ≠ []
  dnsRegex : (∀ text ∈ urlTexts pton flow, ¬ Occurs features flow text) →
    ∀ node, DnsRegexFirst mem features flow node → compile mem node.hostUrl ≠ []
  nonUrl : (∀ text ∈ urlTexts pton flow, ¬ Occurs features flow text) →
    (∀ d ∈ dnsDomains flow, ∀ f ∈ features, ¬ RegexTakes mem d f) →
    ∀ node, First (Accepts mem pton flow) features node → HostTaken mem pton flow node →
      afIsRegexHostPattern node.hostUrl = true ∧ compile mem node.hostUrl ≠ []

end Decide

variable {α : Type} {p : α → Prop} {l : List α}

variable {a : α}

theorem First.unique {b : α} (ha : First p l a) (hb : First p l b) : a = b := by
  obtain ⟨pre, post, hl, hpa, hpre⟩ := ha
  obtain ⟨pre', post', hl', hpb, hpre'⟩ := hb
  rw [hl] at hl'
  induction pre generalizing pre' l with
  | nil =>
    cases pre' with
    | nil => exact (List.cons.inj hl').1
    | cons c pre' =>
      grind
  | cons c pre ih =>
    cases pre' with
    | nil =>
      grind
    | cons d pre' =>
      grind

theorem First.mem (h : First p l a) : a ∈ l := by
  obtain ⟨pre, post, rfl, -, -⟩ := h
  simp

theorem First.holds (h : First p l a) : p a := by
  obtain ⟨-, -, -, hp, -⟩ := h
  exact hp

theorem First.cons {α : Type} {p : α → Prop} {l : List α} {a b : α} (hb : ¬ p b)
    (h : First p l a) : First p (b :: l) a := by
  obtain ⟨pre, post, rfl, hp, hpre⟩ := h
  refine ⟨b :: pre, post, rfl, hp, fun c hc => ?_⟩
  rcases List.mem_cons.1 hc with rfl | hc
  · exact hb
  · exact hpre c hc

theorem first_head (h : p a) : First p (a :: l) a :=
  ⟨[], l, rfl, h, fun _ hb => absurd hb not_mem_nil⟩

/-- All the longest patterns at the first end are the same. -/
theorem FirstLongest.unique {candidate : FeatureNode → Prop} {text : List UInt8}
    {f g : FeatureNode} (hf : FirstLongest candidate text f) (hg : FirstLongest candidate text g) :
    f.hostUrl = g.hostUrl := by
  obtain ⟨hfc, k, -, hfk, hfirst, hflong⟩ := hf
  obtain ⟨hgc, j, -, hgj, hfirst', hglong⟩ := hg
  have hkj : k = j := by
    rcases Nat.lt_trichotomy k j with h | h | h
    · exact absurd hfk (hfirst' f hfc k h)
    · exact h
    · exact absurd hgj (hfirst g hgc j h)
  subst hkj
  have hlen : f.hostUrl.length = g.hostUrl.length :=
    Nat.le_antisymm (hglong f hfc hfk) (hflong g hgc hgj)
  exact (suffix_of_suffix_length_le hfk hgj hlen.le).eq_of_length hlen

/-! ## The stages -/

variable {mem : Leftover} {pton : Pton} {s : FeatureList} {flow : FlowInfo}

variable (flow) in
/-- The automaton answers every text with the first longest, if a plain pattern occurs. -/
theorem FeatureList.Ok.answers (h : s.Ok) (hclean : s.dirty = false) (text : List UInt8 × Bool) :
    ∃ found, afMatchUrlTextAc s.urlAc flow text.1 text.2 = some found ∧
      (found = none → ¬ Occurs s.featureHead flow text) ∧
      ∀ node, found = some node → Occurs s.featureHead flow text ∧
        FirstLongest (Candidate s.featureHead flow text.2) text.1 node := by
  obtain ⟨hready, word, hspells, hlinked⟩ := h.built hclean
  obtain ⟨found, hfound, hnone, hsome⟩ := hspells.matchUrlText flow text.2 hlinked hready text.1
  refine ⟨found, hfound, fun hf ⟨g, hg, hin⟩ => hnone hf g hg hin, fun node hf => ?_⟩
  obtain ⟨hcand, k, hk, hsuf, hrest⟩ := hsome node hf
  exact ⟨⟨node, hcand, infix_iff_suffix_prefix.2 ⟨_, hsuf, take_prefix ..⟩⟩,
    hcand, k, hk, hsuf, hrest⟩

/-- What a loop over texts finds is from the first text in which a plain pattern occurs. -/
def FoundIn (s : FeatureList) (flow : FlowInfo) (texts : List (List UInt8 × Bool))
    (found : Option (FeatureNode × MatchedBy)) : Prop :=
  (found = none → ∀ text ∈ texts, ¬ Occurs s.featureHead flow text) ∧
    ∀ node how, found = some (node, how) → ∃ text, First (Occurs s.featureHead flow) texts text ∧
        FirstLongest (Candidate s.featureHead flow text.2) text.1 node

theorem FoundIn.cons {texts : List (List UInt8 × Bool)} {text : List UInt8 × Bool}
    {found : Option (FeatureNode × MatchedBy)} (hno : ¬ Occurs s.featureHead flow text)
    (h : FoundIn s flow texts found) : FoundIn s flow (text :: texts) found := by
  refine ⟨fun hf t ht => ?_, fun node how hf => ?_⟩
  · rcases List.mem_cons.1 ht with rfl | ht
    · exact hno
    · exact h.1 hf t ht
  · obtain ⟨t, hfirst, hlong⟩ := h.2 node how hf
    exact ⟨t, hfirst.cons hno, hlong⟩

variable {node : FeatureNode} {how : MatchedBy}

theorem foundIn_head {texts : List (List UInt8 × Bool)} {text : List UInt8 × Bool}
    (hoccurs : Occurs s.featureHead flow text)
    (hlong : FirstLongest (Candidate s.featureHead flow text.2) text.1 node) :
    FoundIn s flow (text :: texts) (some (node, how)) := by
  refine ⟨fun hf => (nomatch hf), fun node' how' hf => ?_⟩
  cases hf
  exact ⟨text, first_head hoccurs, hlong⟩

variable (flow) in
theorem FeatureList.Ok.dnsStage (h : s.Ok) (hclean : s.dirty = false)
    (domains : List (List UInt8)) :
    ∃ found, afMatchDnsDomains s.urlAc flow domains = some found ∧
      FoundIn s flow (domains.map (·, false)) found := by
  induction domains with
  | nil => exact ⟨none, rfl, fun _ _ ht => absurd ht not_mem_nil, fun _ _ hf => (nomatch hf)⟩
  | cons domain domains ih =>
    obtain ⟨found, hfound, hnone, hsome⟩ := h.answers flow hclean (domain, false)
    rw [afMatchDnsDomains, hfound]
    cases found with
    | none =>
      obtain ⟨rest, hrest, hin⟩ := ih
      exact ⟨rest, hrest, hin.cons (hnone rfl)⟩
    | some node =>
      obtain ⟨hoccurs, hlong⟩ := hsome node rfl
      exact ⟨_, rfl, foundIn_head hoccurs hlong⟩

variable (pton flow) in
/-- The automaton stage finds the first longest plain pattern of the first text with one. -/
theorem FeatureList.Ok.urlStage (h : s.Ok) (hclean : s.dirty = false) :
    ∃ found, afMatchUrlFeatureAc pton s.urlAc flow = some found ∧
      FoundIn s flow (urlTexts pton flow) found := by
  unfold afMatchUrlFeatureAc urlTexts
  cases afGetFlowHost pton flow with
  | none => exact h.dnsStage flow hclean _
  | some host =>
    obtain ⟨found, hfound, hnone, hsome⟩ := h.answers flow hclean (host, true)
    dsimp only at hfound ⊢
    rw [hfound]
    cases found with
    | none =>
      obtain ⟨rest, hrest, hin⟩ := h.dnsStage flow hclean (dnsDomains flow)
      exact ⟨rest, hrest, hin.cons (hnone rfl)⟩
    | some node =>
      obtain ⟨hoccurs, hlong⟩ := hsome node rfl
      exact ⟨_, rfl, foundIn_head hoccurs hlong⟩

theorem regexTakes_iff {domain : List UInt8} :
    (node.hostUrl.length != 0 && afIsRegexHostPattern node.hostUrl &&
      regexpMatch mem node.hostUrl domain != 0) = true ↔ RegexTakes mem domain node := by
  rw [Bool.and_eq_true, Bool.and_eq_true, bne_iff_ne, bne_iff_ne, ne_eq, length_eq_zero_iff,
    and_assoc]
  exact Iff.rfl

theorem dnsRegexStage (mem : Leftover) (flow : FlowInfo) (features : List FeatureNode) :
    (afMatchDnsRegexFeature mem features flow = none →
      ∀ d ∈ dnsDomains flow, ∀ f ∈ features, ¬ RegexTakes mem d f) ∧
    ∀ node how, afMatchDnsRegexFeature mem features flow = some (node, how) →
      DnsRegexFirst mem features flow node := by
  unfold afMatchDnsRegexFeature
  have hfind : ∀ d, (features.find? fun node =>
      node.hostUrl.length != 0 && afIsRegexHostPattern node.hostUrl &&
        regexpMatch mem node.hostUrl d != 0) = none ↔ ∀ f ∈ features, ¬ RegexTakes mem d f := by
    intro d
    rw [find?_eq_none]
    exact forall₂_congr fun f _ => not_congr regexTakes_iff
  constructor
  · simp [*]
  · intro node how hsome
    obtain ⟨pre, d, post, hd, hmap, hpre⟩ := findSome?_eq_some_iff.1 hsome
    obtain ⟨f, hf, heq⟩ := map_eq_some_iff.1 hmap
    cases heq
    obtain ⟨htake, before, after, hl, hbefore⟩ := find?_eq_some_iff_append.1 hf
    have htakes : RegexTakes mem d node := regexTakes_iff.1 htake
    refine ⟨d, ⟨pre, post, hd, ⟨node, mem_of_find?_eq_some hf, htakes⟩, fun e he => ?_⟩,
      before, after, hl, htakes, fun g hg hgt => ?_⟩
    · rintro ⟨g, hg, hgt⟩
      exact (hfind e).1 (map_eq_none_iff.1 (hpre e he)) g hg hgt
    · have := hbefore g hg
      rw [regexTakes_iff.2 hgt] at this
      cases this

theorem nonUrlStage (mem : Leftover) (pton : Pton) (flow : FlowInfo) (features : List FeatureNode) :
    (afMatchNonUrlFeature mem pton features flow = none →
      ∀ f ∈ features, ¬ Accepts mem pton flow f) ∧
    ∀ node how, afMatchNonUrlFeature mem pton features flow = some (node, how) →
      First (Accepts mem pton flow) features node ∧ afMatchOne mem pton flow node = some how := by
  have hstep : ∀ f : FeatureNode, (if f.plain ∧ f.requestUrl.length = 0 then none
      else (afMatchOne mem pton flow f).map (f, ·)) = none ↔ ¬ Accepts mem pton flow f := by
    intro f
    unfold Accepts
    by_cases hskip : f.plain ∧ f.requestUrl.length = 0
    · simp
    · simp
  constructor
  · intro hnone f hf
    exact (hstep f).1 (findSome?_eq_none_iff.1 hnone f hf)
  · intro node how hsome
    obtain ⟨pre, f, post, hl, hf, hpre⟩ := findSome?_eq_some_iff.1 hsome
    have hacc : Accepts mem pton flow f := by
      by_contra hno
      rw [(hstep f).2 hno] at hf
      cases hf
    rw [if_neg hacc.1] at hf
    obtain ⟨how', hhow, heq⟩ := map_eq_some_iff.1 hf
    cases heq
    exact ⟨⟨pre, post, hl, hacc, fun g hg => (hstep g).1 (hpre g hg)⟩, hhow⟩

/-! ## The last stage -/

variable {pattern : List UInt8}

theorem regexpMatch_of_compile {text : List UInt8} (hc : compile mem pattern ≠ [])
    (hm : regexpMatch mem pattern text ≠ 0) : regexpMatch mem pattern text = 1 := by
  unfold regexpMatch at hm ⊢
  cases hcomp : compile mem pattern with
  | nil => exact absurd hcomp hc
  | cons re rest =>
    grind

theorem ne_nil_of_mem_dnsDomains {d : List UInt8} (hd : d ∈ dnsDomains flow) : d ≠ [] := by
  unfold dnsDomains at hd
  by_cases hm : flow.dns.matched = true
  · rw [if_pos hm] at hd
    obtain ⟨e, he, rfl⟩ := List.mem_map.1 hd
    have hne := (mem_filter.1 he).2
    cases e with
    | nil => cases hne
    | cons c e => exact cons_ne_nil _ _
  · rw [if_neg hm] at hd
    exact absurd hd not_mem_nil

theorem afMatchByUrl_cases (h : afMatchByUrl mem pton flow node = some how) :
    (∃ text, afGetFlowHost pton flow = some text ∧ how = .host (cString text) ∧
        node.hostUrl ≠ [] ∧ cString text ≠ [] ∧
        regexpMatch mem node.hostUrl (cString text) ≠ 0) ∨
      (∃ d ∈ dnsDomains flow, how = .dns d ∧ node.hostUrl ≠ [] ∧
        regexpMatch mem node.hostUrl d ≠ 0) ∨
      how = .request ∧ ¬ HostTaken mem pton flow node := by
  unfold afMatchByUrl at h
  by_cases hhost : 0 < (cString ((afGetFlowHost pton flow).getD [])).length ∧
      0 < node.hostUrl.length ∧
      regexpMatch mem node.hostUrl (cString ((afGetFlowHost pton flow).getD [])) ≠ 0
  · rw [if_pos hhost] at h
    cases h
    obtain ⟨hpos, hne, hm⟩ := hhost
    cases hflow : afGetFlowHost pton flow with
    | none =>
      rw [hflow] at hpos
      exact absurd hpos (Nat.lt_irrefl 0)
    | some text =>
      grind
  · rw [if_neg hhost] at h
    cases hfind : (dnsDomains flow).find? fun domain =>
        node.hostUrl.length != 0 && regexpMatch mem node.hostUrl domain != 0 with
    | some d =>
      rw [hfind] at h
      cases h
      have htake := find?_some hfind
      rw [Bool.and_eq_true, bne_iff_ne, bne_iff_ne, ne_eq, length_eq_zero_iff] at htake
      exact .inr (.inl ⟨d, mem_of_find?_eq_some hfind, rfl, htake.1, htake.2⟩)
    | none =>
      rw [hfind] at h
      refine .inr (.inr ⟨?_, ?_⟩)
      · split_ifs at h
        cases h
        rfl
      · rintro ⟨hne, host, hmem, hhne, hm⟩
        rcases List.mem_cons.1 hmem with rfl | hmem
        · exact hhost ⟨length_pos_iff.2 hhne, length_pos_iff.2 hne, hm⟩
        · grind

theorem afMatchOne_cases (h : afMatchOne mem pton flow node = some how) :
    afMatchBasicCond flow node = true ∧
      ((∃ text, afGetFlowHost pton flow = some text ∧ how = .host (cString text) ∧
          node.hostUrl ≠ [] ∧ cString text ≠ [] ∧
          regexpMatch mem node.hostUrl (cString text) ≠ 0) ∨
        (∃ d ∈ dnsDomains flow, how = .dns d ∧ node.hostUrl ≠ [] ∧
          regexpMatch mem node.hostUrl d ≠ 0) ∨
        (how = .request ∨ how = .pos ∨ how = .ports) ∧ ¬ HostTaken mem pton flow node) := by
  unfold afMatchOne at h
  split_ifs at h with hcond hurl hpos hdata
  · refine ⟨by simpa using hcond, ?_⟩
    rcases afMatchByUrl_cases h with hh | hd | ⟨hr, hno⟩
    · exact .inl hh
    · exact .inr (.inl hd)
    · exact .inr (.inr ⟨.inl hr, hno⟩)
  · cases h
    refine ⟨by simpa using hcond, .inr (.inr ⟨.inr (.inl rfl), fun ht => hurl (.inr ?_)⟩)⟩
    exact length_pos_iff.2 ht.1
  · cases h
    refine ⟨by simpa using hcond, .inr (.inr ⟨.inr (.inr rfl), fun ht => hurl (.inr ?_)⟩)⟩
    exact length_pos_iff.2 ht.1

/-- Where no plain pattern occurs, a pattern means what it should if and only if it is a regular
    expression and compiles. -/
theorem hostMatch_iff {host text : List UInt8} (hm : regexpMatch mem pattern host ≠ 0)
    (hno : afIsRegexHostPattern pattern = false → ¬ pattern <:+: text) :
    compile mem pattern ≠ [] ∧ HostMatch mem pattern host text ↔
      afIsRegexHostPattern pattern = true ∧ compile mem pattern ≠ [] := by
  constructor
  · rintro ⟨hc, ⟨hreg, -⟩ | ⟨hplain, hin⟩⟩
    · exact ⟨hreg, hc⟩
    · exact absurd hin (hno hplain)
  · rintro ⟨hreg, hc⟩
    exact ⟨hc, .inl ⟨hreg, regexpMatch_of_compile hc hm⟩⟩

variable {features : List FeatureNode}

/-- A feature that the last stage finds means what it should if and only if its pattern is not
    misread. -/
theorem sameMeaning_nonUrl_iff (hnode : node ∈ features)
    (h : afMatchOne mem pton flow node = some how)
    (hno : ∀ text ∈ urlTexts pton flow, ¬ Occurs features flow text) :
    SameMeaning mem pton flow (.nonUrl node how) ↔ (HostTaken mem pton flow node →
        afIsRegexHostPattern node.hostUrl = true ∧ compile mem node.hostUrl ≠ []) := by
  obtain ⟨hcond, ⟨text, hflow, rfl, hne, htne, hm⟩ | ⟨d, hd, rfl, hne, hm⟩ | ⟨hhow, htaken⟩⟩ :=
    afMatchOne_cases h
  · have htaken : HostTaken mem pton flow node := by
      refine ⟨hne, cString text, ?_, htne, hm⟩
      unfold urlHosts
      rw [hflow]
      exact mem_cons_self
    have hnoText : afIsRegexHostPattern node.hostUrl = false → ¬ node.hostUrl <:+: text := by
      intro hplain hin
      refine hno (text, true) ?_ ⟨node, ⟨hnode, hne, hplain, fun _ => hcond⟩, hin⟩
      unfold urlTexts
      rw [hflow]
      exact mem_cons_self
    rw [forall_prop_of_true htaken, ← hostMatch_iff hm hnoText]
    constructor
    · rintro ⟨hc, text', hflow', hmatch⟩
      rw [hflow] at hflow'
      cases hflow'
      exact ⟨hc, hmatch⟩
    · rintro ⟨hc, hmatch⟩
      exact ⟨hc, text, hflow, hmatch⟩
  · have htaken : HostTaken mem pton flow node :=
      ⟨hne, d, mem_cons_of_mem _ hd, ne_nil_of_mem_dnsDomains hd, hm⟩
    have hnoText : afIsRegexHostPattern node.hostUrl = false → ¬ node.hostUrl <:+: d := by
      intro hplain hin
      refine hno (d, false) ?_ ⟨node, ⟨hnode, hne, hplain, fun hf => (nomatch hf)⟩, hin⟩
      exact mem_append_right _ (List.mem_map_of_mem hd)
    rw [forall_prop_of_true htaken, ← hostMatch_iff hm hnoText]
    exact Iff.rfl
  · refine ⟨fun _ ht => absurd ht htaken, fun _ => ?_⟩
    rcases hhow with rfl | rfl | rfl <;> trivial

/-! ## All stages -/

variable (mem pton) in
/-- Whatever the stages find means the same in all of them if and only if the pattern that decides the
    flow is not misread. -/
theorem sameMeaning_iff (hok : s.Ok) (hclean : s.dirty = false) (hquic : isQuicFlow flow = false) :
    ∃ found, fwxMatchFeature mem pton s flow = some found ∧
      (SameMeaning mem pton flow found ↔ ReadAsMeant mem pton s.featureHead flow) := by
  obtain ⟨found, hurl, hnone, hsome⟩ := hok.urlStage pton flow hclean
  unfold fwxMatchFeature
  rw [hquic, if_neg Bool.false_ne_true, hurl]
  cases found with
  | some found =>
    obtain ⟨node, how⟩ := found
    obtain ⟨text, hfirst, hlong⟩ := hsome node how rfl
    refine ⟨_, rfl, fun hc => ⟨?_, ?_, ?_⟩, fun hr => hr.url node ⟨text, hfirst, hlong⟩⟩
    · rintro node' ⟨text', hfirst', hlong'⟩
      rw [hfirst'.unique hfirst] at hlong'
      rw [hlong'.unique hlong]
      exact hc
    · exact fun hno => absurd hfirst.holds (hno text hfirst.mem)
    · exact fun hno => absurd hfirst.holds (hno text hfirst.mem)
  | none =>
    have hno := hnone rfl
    have hnoUrl : ∀ node, ¬ UrlFirst pton s.featureHead flow node :=
      fun node ⟨text, hfirst, _⟩ => hno text hfirst.mem hfirst.holds
    obtain ⟨hdnsNone, hdnsSome⟩ := dnsRegexStage mem flow s.featureHead
    cases hdns : afMatchDnsRegexFeature mem s.featureHead flow with
    | some found =>
      obtain ⟨node, how⟩ := found
      obtain ⟨d, hfirst, hnode⟩ := hdnsSome node how hdns
      refine ⟨_, rfl, fun hc => ⟨fun node' hu => absurd hu (hnoUrl node'), ?_, ?_⟩,
        fun hr => hr.dnsRegex hno node ⟨d, hfirst, hnode⟩⟩
      · rintro - node' ⟨d', hfirst', hnode'⟩
        rw [hfirst'.unique hfirst] at hnode'
        rw [hnode'.unique hnode]
        exact hc
      · intro _ hnoDns
        obtain ⟨f, hf, htakes⟩ := hfirst.holds
        exact absurd htakes (hnoDns d hfirst.mem f hf)
    | none =>
      have hnoDns := hdnsNone hdns
      have hnoFirst : ∀ node, ¬ DnsRegexFirst mem s.featureHead flow node := by
        rintro node ⟨d, hfirst, -⟩
        obtain ⟨f, hf, htakes⟩ := hfirst.holds
        exact hnoDns d hfirst.mem f hf htakes
      obtain ⟨hlastNone, hlastSome⟩ := nonUrlStage mem pton flow s.featureHead
      have hrest : ReadAsMeant mem pton s.featureHead flow ↔
          ∀ node, First (Accepts mem pton flow) s.featureHead node → HostTaken mem pton flow node →
              afIsRegexHostPattern node.hostUrl = true ∧ compile mem node.hostUrl ≠ [] :=
        ⟨fun hr => hr.nonUrl hno hnoDns, fun hl => ⟨fun node hu => absurd hu (hnoUrl node),
          fun _ node hd => absurd hd (hnoFirst node), fun _ _ => hl⟩⟩
      rw [hrest]
      cases hlast : afMatchNonUrlFeature mem pton s.featureHead flow with
      | some found =>
        obtain ⟨node, how⟩ := found
        obtain ⟨hfirst, hone⟩ := hlastSome node how hlast
        refine ⟨_, rfl, (sameMeaning_nonUrl_iff hfirst.mem hone hno).trans ?_⟩
        refine ⟨fun hm node' hfirst' => ?_, fun hm => hm node hfirst⟩
        rw [hfirst'.unique hfirst]
        exact hm
      | none =>
        refine ⟨_, rfl, fun _ node hfirst => ?_, fun _ => trivial⟩
        exact absurd hfirst.holds (hlastNone hlast node hfirst.mem)

/-- After the end of a load, a host pattern means the same in every stage for a flow if and only if
    the pattern that decides the flow is not misread. -/
theorem host_pattern_meaning (mem : Leftover) (pton : Pton) (msgs : List FeatureMsg) :
    ∃ s, runFeatureMsgs (msgs ++ [.loadDone]) = some s ∧
      ∀ flow, ∃ found, fwxMatchFeature mem pton s flow = some found ∧
        (SameMeaning mem pton flow found ↔
          isQuicFlow flow = true ∨ ReadAsMeant mem pton s.featureHead flow) := by
  obtain ⟨s, hrun, hok, hclean⟩ := FeatureList.run_loaded msgs
  refine ⟨s, hrun, fun flow => ?_⟩
  cases hquic : isQuicFlow flow with
  | true =>
    refine ⟨.quic, ?_, fun _ => .inl rfl, fun _ => trivial⟩
    unfold fwxMatchFeature
    rw [hquic, if_pos rfl]
  | false =>
    obtain ⟨found, hfound, hiff⟩ := sameMeaning_iff mem pton hok hclean hquic
    exact ⟨found, hfound, hiff.trans ⟨.inr, fun h => h.resolve_left Bool.false_ne_true⟩⟩

/-- `a.b`, with the request pattern `/`. -/
def dotted : AppFeature :=
  { appId := 1, proto := 0, sport := 0, dportInfo := [], hostUrl := [97, 46, 98],
    requestUrl := [47], searchStr := [], posInfo := [] }

/-- A connection with the server name `axb`. -/
def tlsFlow : FlowInfo :=
  { l4Protocol := 6, sport := 40000, dport := 443, l4Data := [], http := ⟨false, [], []⟩,
    https := ⟨true, [97, 120, 98]⟩, dns := ⟨false, []⟩ }

theorem dotted_misread : ∃ s, runFeatureMsgs [.add [dotted], .loadDone] = some s ∧
      ∃ found, fwxMatchFeature ⟨fun _ => none, fun _ => 0, fun _ => []⟩
          ⟨fun _ => false, fun _ => false⟩ s tlsFlow = some found ∧
        ¬ SameMeaning ⟨fun _ => none, fun _ => 0, fun _ => []⟩ ⟨fun _ => false, fun _ => false⟩
          tlsFlow found := by
  refine ⟨_, rfl, .nonUrl { dotted with addr := 0 } (.host [97, 120, 98]), rfl, ?_⟩
  rintro ⟨-, text, htext, ⟨hreg, -⟩ | ⟨-, hin⟩⟩
  · exact absurd hreg (by decide)
  · have : text = [97, 120, 98] := (Option.some.inj htext).symm
    rw [this] at hin
    exact absurd hin (by decide)

/-! ## Literal patterns -/

/-- No byte of the pattern has a meaning of its own. -/
def Literal (pattern : List UInt8) : Prop :=
  ∀ c ∈ pattern, c ∉ ['\\', '[', '.', '^', '$', '*', '+', '?'].map Char.toUInt8

theorem compileLoop_literal (h : Literal pattern) {n : ℕ} (hn : pattern.length ≤ n) (k : ℕ) :
    compileLoop mem n k pattern = .nodes (pattern.map fun c => ⟨.char, some c, [], false⟩) := by
  induction pattern generalizing n k with
  | nil => cases n <;> rfl
  | cons c pattern ih =>
    obtain ⟨m, rfl⟩ : ∃ m, n = m + 1 := ⟨n - 1, by rw [length_cons] at hn; omega⟩
    have hc := h c mem_cons_self
    simp only [map_cons, map_nil, List.mem_cons, not_mem_nil, or_false, not_or] at hc
    obtain ⟨hslash, hbracket, hdot, hbegin, hend, hstar, hplus, hques⟩ := hc
    have hrest := ih (fun d hd => h d (mem_cons_of_mem _ hd)) (n := m)
      (Nat.le_of_succ_le_succ hn) (k + 1)
    rw [compileLoop, if_neg hslash, if_neg hbracket, hrest, plainNode, if_neg hdot, if_neg hbegin,
      if_neg hend, if_neg hstar, if_neg hplus, if_neg hques]
    rfl

theorem matchHere_literal (pattern text : List UInt8) :
    matchHere (pattern.map fun c => ⟨.char, some c, [], false⟩) text = pattern.isPrefixOf text := by
  induction pattern generalizing text with
  | nil => rfl
  | cons c pattern ih =>
    have hone : ∀ d, matchOne ⟨.char, some c, [], false⟩ d = (c == d) := by
      tauto
    cases pattern with
    | nil =>
      cases text with
      | nil => rfl
      | cons d text =>
        show matchOne ⟨.char, some c, [], false⟩ d = _
        rw [hone]
        simp [List.isPrefixOf]
    | cons c' pattern =>
      cases text with
      | nil => rfl
      | cons d text =>
        show (matchOne ⟨.char, some c, [], false⟩ d && matchHere _ text) = _
        rw [hone]
        exact congrArg (c == d && ·) (ih text)

theorem infix_of_literal {text : List UInt8} (h : Literal pattern) (hne : pattern ≠ [])
    (hm : regexpMatch mem pattern text ≠ 0) : pattern <:+: text := by
  have hcomp : compile mem pattern = pattern.map fun c => ⟨.char, some c, [], false⟩ := by
    rw [compile, compileLoop_literal h le_rfl]
  obtain ⟨c, rest, rfl⟩ := exists_cons_of_ne_nil hne
  by_contra hin
  apply hm
  rw [regexpMatch, hcomp, map_cons]
  dsimp only
  rw [if_neg (by decide), if_neg]
  rw [Bool.not_eq_true, List.any_eq_false]
  intro t ht
  rw [← map_cons (f := fun c => (⟨.char, some c, [], false⟩ : Re)), matchHere_literal,
    isPrefixOf_iff_prefix]
  exact fun hpre => hin (infix_iff_prefix_suffix.2 ⟨t, hpre, (mem_tails _ _).1 ht⟩)

theorem readAsMeant_of_literal (h : ∀ f ∈ features, f.hostUrl ≠ [] → compile mem f.hostUrl ≠ [] ∧
      (afIsRegexHostPattern f.hostUrl = true ∨ Literal f.hostUrl ∨ f.requestUrl = [])) :
    ReadAsMeant mem pton features flow := by
  refine ⟨?_, ?_, ?_⟩
  · rintro node ⟨text, -, hcand, -⟩
    exact (h node hcand.mem hcand.nonempty).1
  · rintro - node ⟨d, -, hfirst⟩
    exact (h node hfirst.mem hfirst.holds.1).1
  · intro hno _ node hfirst htaken
    obtain ⟨hcomp, hkind⟩ := h node hfirst.mem htaken.1
    refine ⟨?_, hcomp⟩
    by_contra hplain
    rw [Bool.not_eq_true] at hplain
    have hne := htaken.1
    obtain ⟨hlook, hone⟩ := hfirst.holds
    obtain ⟨how, hhow⟩ := ne_none_iff_exists'.1 hone
    have hcond := (afMatchOne_cases hhow).1
    rcases hkind with hreg | hlit | hreq
    · rw [hplain] at hreg
      cases hreg
    · obtain ⟨-, host, hhost, -, hm⟩ := htaken
      have hin := infix_of_literal hlit hne hm
      rcases List.mem_cons.1 hhost with rfl | hd
      · cases hflow : afGetFlowHost pton flow with
        | none =>
          rw [hflow] at hin
          exact hne (infix_nil.1 hin)
        | some text =>
          rw [hflow] at hin
          refine hno (text, true) ?_ ⟨node, ⟨hfirst.mem, hne, hplain, fun _ => hcond⟩,
            hin.trans ( takeWhile_prefix _).isInfix⟩
          unfold urlTexts
          rw [hflow]
          exact mem_cons_self
      · exact hno (host, false) (mem_append_right _ (List.mem_map_of_mem hd))
          ⟨node, ⟨hfirst.mem, hne, hplain, fun hf => (nomatch hf)⟩, hin⟩
    · exact hlook ⟨FeatureNode.plain_iff.2 ⟨hne, hplain⟩, by rw [hreq]; rfl⟩

/-- Whatever features are loaded: if their host patterns compile, and are regular expressions,
    literal, or of features without a pattern for requests, the pattern that decides a flow means
    the same in every stage. -/
theorem literal_features_meaning (mem : Leftover) (pton : Pton) (msgs : List FeatureMsg) :
    ∃ s, runFeatureMsgs (msgs ++ [.loadDone]) = some s ∧
      ((∀ f ∈ s.featureHead, f.hostUrl ≠ [] → compile mem f.hostUrl ≠ [] ∧
        (afIsRegexHostPattern f.hostUrl = true ∨ Literal f.hostUrl ∨ f.requestUrl = [])) →
      ∀ flow, ∃ found, fwxMatchFeature mem pton s flow = some found ∧
        SameMeaning mem pton flow found) := by
  obtain ⟨s, hrun, hok, hclean⟩ := FeatureList.run_loaded msgs
  refine ⟨s, hrun, fun hfeatures flow => ?_⟩
  cases hquic : isQuicFlow flow with
  | true =>
    refine ⟨.quic, ?_, trivial⟩
    unfold fwxMatchFeature
    rw [hquic, if_pos rfl]
  | false =>
    obtain ⟨found, hfound, hiff⟩ := sameMeaning_iff mem pton hok hclean hquic
    exact ⟨found, hfound, hiff.2 (readAsMeant_of_literal hfeatures)⟩

/-- `xb`, with the request pattern `/`. -/
def literalHost : AppFeature := { dotted with appId := 2, hostUrl := [120, 98] }

/-- A literal pattern, and one that is not but stands without a request pattern. -/
theorem literal_features_meaning_two :
    ∃ s, runFeatureMsgs [.add [{ dotted with requestUrl := [] }, literalHost], .loadDone] = some s ∧
      ∃ found, fwxMatchFeature ⟨fun _ => none, fun _ => 0, fun _ => []⟩
          ⟨fun _ => false, fun _ => false⟩ s tlsFlow = some found ∧
        SameMeaning ⟨fun _ => none, fun _ => 0, fun _ => []⟩ ⟨fun _ => false, fun _ => false⟩
          tlsFlow found := by
  obtain ⟨s, hrun, hmeans⟩ := literal_features_meaning ⟨fun _ => none, fun _ => 0, fun _ => []⟩
    ⟨fun _ => false, fun _ => false⟩ [.add [{ dotted with requestUrl := [] }, literalHost]]
  refine ⟨s, hrun, hmeans ?_ tlsFlow⟩
  obtain rfl := Option.some.inj hrun
  rintro f (_ | ⟨_, _ | ⟨_, ⟨⟩⟩⟩) -
  · refine ⟨by decide, .inr (.inl ?_)⟩
    rintro c (_ | ⟨_, _ | ⟨_, ⟨⟩⟩⟩) <;> decide
  · exact ⟨by decide, .inr (.inr rfl)⟩

end Apackage.OpenAppFilter
