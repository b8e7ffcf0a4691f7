import Apackage.Rtp2httpd.Playlist.PlaylistText

/-
  The URL lines of the transformed playlist, and the indices computed on the way.

  Every URL line is the line of the source or the complete URL of its service, and every index is
  inside its array, if and only if each line meets `LineFits` in the state before it
  (`urls_whole_iff`). A URL of 2048 bytes or more is handed on as far as it fits the buffer; when
  the encoding fails, the buffer still holds the URL of the entry before; a label is cut to 255
  bytes and a line to 4095; and behind a name of 255 bytes the room for the group title is -1.
-/

namespace Apackage.Rtp2httpd

open List Lib.Run Lib.Fields

/-! ## What a URL line is to be -/

/-- The dynamic parameters of a URL, all of them. -/
def dynamicParams (url : Bytes) : Bytes :=
  [ampersand].intercalate ((urlParams url).filter dynamicParam)

def serviceUrl (cfg : TransformConfig) (uniqueServiceName line : Bytes) : Bytes :=
  baseUrlPlaceholder ++ httpUrlEncode uniqueServiceName ++
    serviceQuery (dynamicParams (httpStripUrlLabel line)) cfg.r2hToken

/-- The line of the source, or the complete URL of the service with or without the label. -/
def UrlLine.Whole (cfg : TransformConfig) (u : UrlLine) : Prop :=
  u.text = u.original ∨ ∃ name, u.service = some name ∧
    (u.text = serviceUrl cfg name u.line ∨ u.text = serviceUrl cfg name u.line ++ urlLabel u.line)
  deriving Decidable

/-- Every URL line is whole and every index inside. -/
def Transform.Sound (cfg : TransformConfig) (s : Transform) : Prop :=
  (∀ u ∈ s.urls, u.Whole cfg) ∧ ∀ i ∈ s.indices, i.Inside
  deriving Decidable

/-! ## The condition -/

/-- The name leaves room for a byte of the group title. -/
def ExtinfFits (line : Bytes) : Prop :=
  ∀ baseName, extractServiceName line maxServiceName = some baseName →
    ∀ groupTitle, extractAttribute line (ascii "group-title") maxServiceName = some groupTitle →
      groupTitle ≠ [] → baseName.length + 1 < maxServiceName

/-- The URL fits, and its label if it is appended; without the encoding, what the buffer holds
    is the URL by chance, or it holds nothing and the line fits. -/
def ServiceUrlFits (cfg : TransformConfig) (buffer : Bytes) (e : SourceLine) (name : Bytes) :
    Prop :=
  if e.encodesUrl then
    (serviceUrl cfg name e.line).length < maxUrlLength ∧
      ((urlLabel e.line).length < maxServiceName ∨
        maxUrlLength ≤ (serviceUrl cfg name e.line).length + (maxServiceName - 1))
  else if buffer = [] then e.original.length < maxM3uLine
  else
    buffer = e.original ∨ buffer = serviceUrl cfg name e.line ∨
      buffer = serviceUrl cfg name e.line ++ urlLabel e.line

def UrlFits (cfg : TransformConfig) (s : Transform) (e : SourceLine) : Prop :=
  match createdName cfg s e.line with
  | none => e.original.length < maxM3uLine
  | some name => ServiceUrlFits cfg s.proxyUrl e name

structure LineFits (cfg : TransformConfig) (s : Transform) (e : SourceLine) : Prop where
  extinf : ascii "#EXTINF:" <+: e.line → ExtinfFits e.line
  url : e.line ≠ [] → s.entry.takesUrl e.line = true → UrlFits cfg s e

/-! ## Lines -/

/-- A cut that leaves blanks out: a beginning of the line without its blanks, and all of it if
    that fits. -/
theorem take_rdropWhile {α : Type} (p : α → Bool) (l : List α) (n : ℕ) :
    (l.take n).rdropWhile p <+: l.rdropWhile p ∧
      ((l.rdropWhile p).length ≤ n → (l.take n).rdropWhile p = l.rdropWhile p) := by
  induction l using List.reverseRecOn with
  | nil => simp
  | append_singleton l x ih =>
    by_cases hn : l.length < n
    · rw [take_of_length_le (by rw [length_append, length_singleton]; omega)]
      exact ⟨prefix_rfl, fun _ => rfl⟩
    · rw [take_append_of_le_length (by omega)]
      by_cases hx : p x = true
      · rw [rdropWhile_concat_pos p l x hx]
        exact ih
      · rw [rdropWhile_concat_neg p l x hx]
        refine ⟨?_, fun hlen => ?_⟩
        · have hdrop := rdropWhile_prefix p (l := l.take n)
          have hcut : l.take n <+: l := take_prefix n l
          exact hdrop.trans (hcut.trans (prefix_append l [x]))
        · rw [length_append, length_singleton] at hlen
          omega

theorem line_eq_iff (e : SourceLine) : e.line = e.original ↔ e.original.length < maxM3uLine := by
  have hcut := take_rdropWhile isSpace e.raw (maxM3uLine - 1)
  have hpos : 0 < maxM3uLine := by decide
  constructor
  · intro h
    have hdrop : e.line <+: e.raw.take (maxM3uLine - 1) := rdropWhile_prefix isSpace _
    have hle := hdrop.length_le.trans (length_take_le _ _)
    rw [h] at hle
    omega
  · intro h
    exact hcut.2 (by show e.original.length ≤ _; omega)

theorem original_head {e : SourceLine} (h : e.line ≠ []) : e.original.head? = e.line.head? := by
  obtain ⟨rest, hrest⟩ := (take_rdropWhile isSpace e.raw (maxM3uLine - 1)).1
  calc e.original.head? = (e.line ++ rest).head? := congrArg List.head? hrest.symm
    _ = e.line.head? := head?_append_of_ne_nil _ h

theorem recognizable_head {appPathRoute line : Bytes}
    (h : isUrlRecognizable appPathRoute line = true) : line.head? ≠ some 0x7B := by
  intro hhead
  obtain ⟨rest, rfl⟩ : ∃ rest, line = 0x7B :: rest := head?_eq_some_iff.1 hhead
  have hwrapped : extractWrappedUrl appPathRoute (0x7B :: rest.take (m3uUrlSize - 2)) m3uUrlSize
      = none := by
    unfold extractWrappedUrl
    simp [ascii, cons_prefix_cons, guard]
  have hscheme : (directSchemes.any fun scheme =>
      decide (scheme <+: 0x7B :: rest.take (m3uUrlSize - 2))) = false := by
    simp [directSchemes, ascii, cons_prefix_cons]
  unfold isUrlRecognizable at h
  rw [show m3uUrlSize - 1 = m3uUrlSize - 2 + 1 by decide] at h
  dsimp only at h
  rw [take_succ_cons, hwrapped, hscheme] at h
  cases h

/-! ## The URL of a service -/

theorem appendDynamicParams_eq {result : Bytes} {params : List Bytes}
    (h : ((params.filter dynamicParam).foldl (appendField [ampersand]) result).length + 2 ≤
      m3uUrlSize) :
    appendDynamicParams result params =
      (params.filter dynamicParam).foldl (appendField [ampersand]) result := by
  induction params generalizing result with
  | nil => rfl
  | cons param rest ih =>
    rw [appendDynamicParams]
    by_cases hp : dynamicParam param = true
    · rw [filter_cons_of_pos hp, foldl_cons] at h ⊢
      have hlong :
          result.length + param.length ≤ (appendField [ampersand] result param).length := by
        unfold appendField
        split
        · simp_all
        · simp
      have hrest : (appendField [ampersand] result param).length ≤
          ((rest.filter dynamicParam).foldl (appendField [ampersand])
            (appendField [ampersand] result param)).length := length_foldl_appendField _ _
      rw [if_pos hp, if_neg (by omega)]
      exact ih h
    · rw [filter_cons_of_neg hp] at h ⊢
      rw [if_neg hp]
      exact ih h

theorem extractDynamicParams_eq {url : Bytes} (h : (dynamicParams url).length + 2 ≤ m3uUrlSize) :
    extractDynamicParams url = dynamicParams url := by
  have hjoin : ((urlParams url).filter dynamicParam).foldl (appendField [ampersand]) [] =
      dynamicParams url := by
    rw [foldl_appendField, dynamicParams]
    congr 1
    cases hl : (urlParams url).filter dynamicParam with
    | nil => rfl
    | cons param rest =>
      have hp : dynamicParam param = true := of_mem_filter (hl ▸ mem_cons_self)
      rw [dropWhile_cons_of_neg]
      intro hnil
      rw [List.isEmpty_iff.1 hnil] at hp
      exact absurd hp (by decide)
  rw [extractDynamicParams, appendDynamicParams_eq (hjoin ▸ h), hjoin]

theorem length_le_serviceQuery (queryParams r2hToken : Bytes) :
    queryParams.length ≤ (serviceQuery queryParams r2hToken).length := by
  unfold serviceQuery
  split
  · simp; omega
  · split
    · simp
    · simp_all

theorem placeholder_head (rest : Bytes) : (baseUrlPlaceholder ++ rest).head? = some 0x7B := by
  rw [head?_append_of_ne_nil _ (by decide)]
  decide

variable (cfg : TransformConfig)

theorem serviceUrl_head (name line label : Bytes) :
    (serviceUrl cfg name line ++ label).head? = some 0x7B := by
  unfold serviceUrl
  rw [append_assoc, append_assoc]
  exact placeholder_head _

theorem buildServiceUrl_eq {cfg : TransformConfig} {name line : Bytes}
    (h : (serviceUrl cfg name line).length < maxUrlLength) :
    buildServiceUrl name (extractDynamicParams (httpStripUrlLabel line)) cfg.r2hToken =
      some (serviceUrl cfg name line) := by
  have hquery := length_le_serviceQuery (dynamicParams (httpStripUrlLabel line)) cfg.r2hToken
  have hplace : baseUrlPlaceholder.length = 10 := by decide
  have hlen : (dynamicParams (httpStripUrlLabel line)).length + 2 ≤ m3uUrlSize := by
    unfold serviceUrl at h
    rw [length_append, length_append] at h
    have hsize : maxUrlLength = m3uUrlSize := rfl
    omega
  rw [extractDynamicParams_eq hlen, buildServiceUrl]
  exact if_neg (by simpa [serviceUrl] using h)

theorem buildServiceUrlInto_length (buffer name queryParams r2hToken : Bytes) :
    (buildServiceUrlInto buffer true name queryParams r2hToken).1.length < maxUrlLength := by
  have hpos : 0 < maxUrlLength := by decide
  unfold buildServiceUrlInto
  rw [if_pos rfl]
  cases hb : buildServiceUrl name queryParams r2hToken with
  | none =>
    refine (length_take_le _ _).trans_lt ?_
    omega
  | some output =>
    unfold buildServiceUrl at hb
    dsimp only at hb
    split at hb
    · cases hb
    · obtain rfl := Option.some.inj hb
      dsimp only
      omega

theorem buildServiceUrlInto_head (buffer name queryParams r2hToken : Bytes) :
    (buildServiceUrlInto buffer true name queryParams r2hToken).1.head? = some 0x7B := by
  unfold buildServiceUrlInto buildServiceUrl
  rw [if_pos rfl]
  dsimp only
  split
  · rename_i h
    split at h
    · cases h
    · obtain rfl := Option.some.inj h
      rw [append_assoc]
      exact placeholder_head _
  · rw [head?_take, if_neg (by decide), append_assoc]
    exact placeholder_head _

theorem proxyUrlFor_length (buffer name line : Bytes) :
    (proxyUrlFor cfg buffer true name line).1.length < maxUrlLength := by
  have hlen := buildServiceUrlInto_length buffer name
    (extractDynamicParams (httpStripUrlLabel line)) cfg.r2hToken
  unfold proxyUrlFor
  split
  · simp_all
  · dsimp only
    split
    · simp_all
    · simp_all

theorem proxyUrlFor_inside (buffer name line : Bytes) (encodes : Bool) :
    ∀ i ∈ (proxyUrlFor cfg buffer encodes name line).2, i.Inside := by
  unfold proxyUrlFor
  split
  · simp
  · dsimp only
    split
    · rename_i h
      intro i hi
      rw [mem_singleton.1 hi]
      exact h.2
    · simp

theorem proxyUrlFor_head (buffer name line : Bytes) :
    (proxyUrlFor cfg buffer true name line).1.head? = some 0x7B := by
  have hhead := buildServiceUrlInto_head buffer name
    (extractDynamicParams (httpStripUrlLabel line)) cfg.r2hToken
  unfold proxyUrlFor
  split
  · simp_all
  · rename_i url hb
    rw [hb] at hhead
    dsimp only at hhead ⊢
    split
    · rw [head?_append_of_ne_nil]
      · exact hhead
      · rintro rfl
        cases hhead
    · exact hhead

theorem proxyUrlFor_eq {cfg : TransformConfig} {name line : Bytes}
    (h : (serviceUrl cfg name line).length < maxUrlLength) (buffer : Bytes) :
    (proxyUrlFor cfg buffer true name line).1 =
      if (serviceUrl cfg name line).length + ((urlLabel line).take (maxServiceName - 1)).length <
          maxUrlLength then
        serviceUrl cfg name line ++ (urlLabel line).take (maxServiceName - 1)
      else serviceUrl cfg name line := by
  unfold proxyUrlFor buildServiceUrlInto
  rw [if_pos rfl, buildServiceUrl_eq h]
  dsimp only
  by_cases hl : (urlLabel line).take (maxServiceName - 1) = []
  · simp [hl]
  · by_cases hfit : (serviceUrl cfg name line).length +
        ((urlLabel line).take (maxServiceName - 1)).length < maxUrlLength
    · rw [if_pos ⟨hl, hfit⟩, if_pos hfit]
    · rw [if_neg (fun h => hfit h.2), if_neg hfit]

/-! ## Whole lines -/

section Whole

variable {cfg : TransformConfig} {e : SourceLine}

theorem whole_kept_iff :
    UrlLine.Whole cfg ⟨e.original, e.line, none, e.line⟩ ↔ e.original.length < maxM3uLine := by
  rw [← line_eq_iff]
  constructor
  · rintro (h | ⟨name, h, -⟩)
    · exact h
    · cases h
  · exact .inl

variable {name : Bytes}

section

variable (hhead : e.line.head? ≠ some 0x7B)

include hhead

theorem ne_original (hline : e.line ≠ []) {text : Bytes} (h : text.head? = some 0x7B) :
    text ≠ e.original := by
  rintro rfl
  exact hhead (original_head hline ▸ h)

theorem whole_encoded_iff (hline : e.line ≠ []) (buffer : Bytes) :
    UrlLine.Whole cfg ⟨e.original, e.line, some name, (proxyUrlFor cfg buffer true name e.line).1⟩ ↔
      (serviceUrl cfg name e.line).length < maxUrlLength ∧
        ((urlLabel e.line).length < maxServiceName ∨
          maxUrlLength ≤ (serviceUrl cfg name e.line).length + (maxServiceName - 1)) := by
  have hne := ne_original hhead hline (proxyUrlFor_head cfg buffer name e.line)
  have hwhole : UrlLine.Whole cfg
      ⟨e.original, e.line, some name, (proxyUrlFor cfg buffer true name e.line).1⟩ ↔
      (proxyUrlFor cfg buffer true name e.line).1 = serviceUrl cfg name e.line ∨
        (proxyUrlFor cfg buffer true name e.line).1 =
          serviceUrl cfg name e.line ++ urlLabel e.line := by
    simp [UrlLine.Whole, hne]
  rw [hwhole]
  by_cases hfit : (serviceUrl cfg name e.line).length < maxUrlLength
  · rw [proxyUrlFor_eq hfit buffer, and_iff_right hfit, length_take]
    have hsize : maxServiceName = 256 := rfl
    by_cases hlabel : (urlLabel e.line).length < maxServiceName
    · rw [take_of_length_le (by omega)]
      refine iff_of_true ?_ (.inl hlabel)
      split
      · exact .inr rfl
      · exact .inl rfl
    · rw [Nat.min_eq_left (by omega)]
      split
      · refine iff_of_false ?_ (by omega)
        -- the text is longer than the URL and shorter than the URL with its label
        rintro (h | h)
        · grind
        · have hlen := congrArg List.length h
          rw [length_append, length_append, length_take] at hlen
          omega
      · exact iff_of_true (.inl rfl) (by omega)
  · have hlen := proxyUrlFor_length cfg buffer name e.line
    refine iff_of_false ?_ fun h => hfit h.1
    rintro (h | h)
    · rw [h] at hlen
      exact hfit hlen
    · rw [h, length_append] at hlen
      omega

theorem whole_carried_iff (buffer : Bytes) : UrlLine.Whole cfg
        ⟨e.original, e.line, some name, if buffer = [] then e.line else buffer⟩ ↔
      if buffer = [] then e.original.length < maxM3uLine
      else
        buffer = e.original ∨ buffer = serviceUrl cfg name e.line ∨
          buffer = serviceUrl cfg name e.line ++ urlLabel e.line := by
  by_cases hb : buffer = []
  · rw [if_pos hb, if_pos hb, ← line_eq_iff]
    constructor
    · rintro (h | ⟨name, -, h | h⟩)
      · exact h
      · have hurl := serviceUrl_head cfg name e.line []
        rw [append_nil] at hurl
        exact absurd ((congrArg List.head? h).trans hurl) hhead
      · exact absurd ((congrArg List.head? h).trans (serviceUrl_head cfg name e.line _)) hhead
    · exact .inl
  · rw [if_neg hb, if_neg hb]
    simp [UrlLine.Whole]

theorem whole_proxied_iff (hline : e.line ≠ []) (buffer : Bytes) : UrlLine.Whole cfg
        ⟨e.original, e.line, some name,
          if (proxyUrlFor cfg buffer e.encodesUrl name e.line).1 = [] then e.line
          else (proxyUrlFor cfg buffer e.encodesUrl name e.line).1⟩ ↔
      ServiceUrlFits cfg buffer e name := by
  unfold ServiceUrlFits
  cases hen : e.encodesUrl with
  | true =>
    have hne : (proxyUrlFor cfg buffer true name e.line).1 ≠ [] := by
      intro h
      have := proxyUrlFor_head cfg buffer name e.line
      rw [h] at this
      cases this
    rw [if_neg hne, if_pos rfl]
    exact whole_encoded_iff hhead hline buffer
  | false =>
    rw [if_neg Bool.false_ne_true]
    exact whole_carried_iff hhead buffer

end

end Whole

/-! ## Indices -/

theorem extractServiceName_length {line baseName : Bytes} {nameSize : ℕ}
    (h : extractServiceName line nameSize = some baseName) : baseName.length ≤ nameSize - 1 := by
  unfold extractServiceName at h
  split at h
  · cases h
  · dsimp only at h
    split at h
    · cases h
    · obtain rfl := Option.some.inj h
      rename_i rest _ _
      have hdrop := rdropWhile_prefix isSpace ((rest.dropWhile isSpace).take (nameSize - 1))
      exact hdrop.length_le.trans (length_take_le _ _)

theorem extractAttribute_length {line attrName value : Bytes} {valueSize : ℕ}
    (h : extractAttribute line attrName valueSize = some value) : value.length < valueSize := by
  unfold extractAttribute at h
  split at h
  · cases h
  · dsimp only at h
    split at h
    all_goals
      split at h
      · cases h
      · obtain rfl := Option.some.inj h
        simp_all

theorem serviceNameIndices_inside (line : Bytes) {nameSize : ℕ} (hpos : 0 < nameSize) :
    ∀ i ∈ serviceNameIndices line nameSize, i.Inside := by
  unfold serviceNameIndices
  split
  · simp
  · rename_i rest _
    dsimp only
    split
    · simp
    · have hlen := length_take_le (nameSize - 1) (rest.dropWhile isSpace)
      intro i hi
      rw [List.mem_cons, List.mem_map] at hi
      rcases hi with rfl | ⟨j, hj, rfl⟩
      · exact Nat.sub_lt hpos Nat.one_pos
      · have hlt := mem_range.1 (mem_of_mem_filter hj)
        show j < nameSize
        omega

/-- The index for the group title is inside when the name leaves a byte for it, and far outside
    when it does not. -/
theorem maxGroupLen_lt_iff {baseLen : ℕ} (h : baseLen < maxServiceName) :
    maxGroupLen baseLen < maxServiceName ↔ baseLen + 1 < maxServiceName := by
  have hsize : maxServiceName = 256 := rfl
  unfold maxGroupLen
  omega

theorem entryNameIndices_inside {groupTitle baseName : Bytes}
    (htitle : groupTitle.length < maxServiceName) (hbase : baseName.length < maxServiceName) :
    (∀ i ∈ entryNameIndices groupTitle baseName, i.Inside) ↔
      (groupTitle ≠ [] → baseName.length + 1 < maxServiceName) := by
  have hlast : ArrayIndex.Inside ⟨maxServiceName - 1, maxServiceName⟩ := by decide
  unfold entryNameIndices
  by_cases hnil : groupTitle = []
  · simpa [hnil] using hlast
  · have htitle' : ArrayIndex.Inside ⟨groupTitle.length, maxServiceName⟩ := htitle
    rw [if_neg hnil, forall_prop_of_true hnil, forall_mem_cons, and_iff_right htitle']
    by_cases hfit : groupTitle.length + 1 + baseName.length < maxServiceName
    · rw [if_pos hfit]
      exact iff_of_true (by simp) (by omega)
    · have hcopied : ∀ i ∈ (if baseName.length + 2 ≤ maxServiceName then []
          else [(⟨maxServiceName - 1, maxServiceName⟩ : ArrayIndex)]), i.Inside := by
        split
        · simp
        · simpa using hlast
      rw [if_neg hfit, ← maxGroupLen_lt_iff hbase, forall_mem_cons, and_iff_left hcopied]
      rfl

theorem extinfIndices_inside (line : Bytes) :
    (∀ i ∈ extinfIndices line, i.Inside) ↔ ExtinfFits line := by
  have hname := serviceNameIndices_inside line (by decide : 0 < maxServiceName)
  have hsize : maxServiceName = 256 := rfl
  unfold extinfIndices ExtinfFits
  cases hb : extractServiceName line maxServiceName with
  | none => simpa using hname
  | some baseName =>
    have hbase := extractServiceName_length hb
    simp only [forall_mem_append, and_iff_right hname, Option.some.injEq, forall_eq']
    cases ht : extractAttribute line (ascii "group-title") maxServiceName with
    | none =>
      rw [entryNameIndices_inside (by simp [hsize]) (by omega)]
      simp
    | some groupTitle =>
      rw [Option.getD_some, entryNameIndices_inside (extractAttribute_length ht) (by omega)]
      simp

theorem urlIndices_inside (appPathRoute line : Bytes) :
    ∀ i ∈ urlIndices appPathRoute line, i.Inside := by
  have hlast : ArrayIndex.Inside ⟨maxServiceName - 1, maxServiceName⟩ := by decide
  intro i hi
  rcases mem_append.1 hi with hi | hi
  all_goals
    split at hi
    · simp_all
    · simp_all

/-! ## Steps -/

namespace Transform

variable {cfg : TransformConfig} {s : Transform} {e : SourceLine}

theorem sound_text (line : Bytes) : (s.write (.text line)).Sound cfg ↔ s.Sound cfg := by
  simp [Sound, urls, write]

theorem sound_gap : (s.write .gap).Sound cfg ↔ s.Sound cfg := by simp [Sound, urls, write]

theorem sound_url (u : UrlLine) : (s.write (.url u)).Sound cfg ↔ s.Sound cfg ∧ u.Whole cfg := by
  have hurls : (s.write (.url u)).urls = s.urls ++ [u] := by simp [urls, write]
  have hindices : (s.write (.url u)).indices = s.indices := rfl
  rw [Sound, Sound, hurls, hindices, forall_mem_append, forall_mem_singleton]
  tauto

theorem sound_access (is : List ArrayIndex) :
    (s.access is).Sound cfg ↔ s.Sound cfg ∧ ∀ i ∈ is, i.Inside := by
  simp only [Sound, access, forall_mem_append]
  tauto

theorem sound_flushGap : s.flushGap.Sound cfg ↔ s.Sound cfg := by
  unfold flushGap
  split
  · exact sound_gap
  · rfl

theorem sound_writeExtinf (extinf : Bytes) : (s.writeExtinf extinf).Sound cfg ↔ s.Sound cfg := by
  unfold writeExtinf
  split
  · rfl
  · exact sound_text extinf

theorem sound_tag (line : Bytes) :
    (s.tag line).Sound cfg ↔ s.Sound cfg ∧ (ascii "#EXTINF:" <+: line → ExtinfFits line) := by
  unfold tag
  dsimp only
  by_cases hheader : ascii "#EXTM3U" <+: line
  · have hextinf : ¬ ascii "#EXTINF:" <+: line := fun h =>
      absurd (prefix_of_prefix_length_le hheader h (by decide)) (by decide)
    rw [if_pos hheader, sound_flushGap]
    simp [hextinf]
  · rw [if_neg hheader]
    by_cases hextinf : ascii "#EXTINF:" <+: line
    · rw [if_pos hextinf, forall_prop_of_true hextinf, ← extinfIndices_inside,
        ← sound_flushGap (s := s), ← sound_access]
      split <;> rfl
    · rw [if_neg hextinf, sound_text, sound_flushGap]
      simp [hextinf]

theorem sound_keepLine :
    (s.keepLine e).Sound cfg ↔ s.Sound cfg ∧ e.original.length < maxM3uLine := by
  rw [keepLine, sound_url, sound_writeExtinf, whole_kept_iff]

theorem sound_proxyLine (hhead : e.line.head? ≠ some 0x7B) (hline : e.line ≠ []) (name : Bytes) :
    (s.proxyLine cfg e name).Sound cfg ↔ s.Sound cfg ∧ ServiceUrlFits cfg s.proxyUrl e name := by
  have hindices := proxyUrlFor_inside cfg s.proxyUrl name e.line e.encodesUrl
  rw [proxyLine, sound_url, sound_writeExtinf, sound_access, and_iff_left hindices]
  exact and_congr_right fun _ => whole_proxied_iff hhead hline s.proxyUrl

theorem sound_urlLine (hline : e.line ≠ []) :
    (s.url cfg e).Sound cfg ↔ s.Sound cfg ∧ UrlFits cfg s e := by
  have haccess : (s.access (urlIndices cfg.appPathRoute e.line)).Sound cfg ↔ s.Sound cfg := by
    rw [sound_access, and_iff_left (urlIndices_inside cfg.appPathRoute e.line)]
  have hname : createdName cfg (s.access (urlIndices cfg.appPathRoute e.line)) e.line =
      createdName cfg s e.line := rfl
  show ((s.access (urlIndices cfg.appPathRoute e.line)).writeUrl cfg e).Sound cfg ↔ _
  unfold UrlFits
  rw [← haccess, ← hname]
  rcases writeUrl_cases cfg (s.access (urlIndices cfg.appPathRoute e.line)) e with
    ⟨hnone, table, hwrite⟩ | ⟨name, table, hsome, hrec, hwrite⟩
  · rw [hwrite, hnone]
    exact sound_keepLine
  · rw [hwrite, hsome]
    exact sound_proxyLine (recognizable_head hrec) hline name

theorem sound_step (cfg : TransformConfig) (s : Transform) (e : SourceLine) :
    (transformStep cfg s e).Sound cfg ↔ s.Sound cfg ∧ LineFits cfg s e := by
  unfold transformStep
  by_cases hline : e.line = []
  · have hfits : LineFits cfg s e :=
      ⟨fun h => absurd (prefix_nil.1 (hline ▸ h)) (by decide), fun h => absurd hline h⟩
    rw [if_pos hline, and_iff_left hfits]
  · rw [if_neg hline]
    by_cases htag : e.line.head? = some hash
    · have hfits : LineFits cfg s e ↔ (ascii "#EXTINF:" <+: e.line → ExtinfFits e.line) := by
        refine ⟨fun h => h.extinf, fun h => ⟨h, fun _ htakes => ?_⟩⟩
        simp [EntryState.takesUrl, htag] at htakes
      rw [if_pos htag, sound_tag, hfits]
    · have hextinf : ¬ ascii "#EXTINF:" <+: e.line := by
        rintro ⟨rest, hrest⟩
        exact htag (hrest ▸ rfl)
      rw [if_neg htag]
      by_cases htakes : s.entry.takesUrl e.line = true
      · rw [if_pos htakes, sound_urlLine hline]
        exact and_congr_right fun _ =>
          ⟨fun h => ⟨fun h' => absurd h' hextinf, fun _ _ => h⟩, fun h => h.url hline htakes⟩
      · have hfits : LineFits cfg s e := ⟨fun h => absurd h hextinf, fun _ h => absurd h htakes⟩
        rw [if_neg htakes, and_iff_left hfits]

theorem sound_finish : s.finish.Sound cfg ↔ s.Sound cfg := by
  have hmark : ∀ s : Transform, Sound cfg
      (if s.source = .inline then { s with cache := s.cache.markInline } else s) ↔ s.Sound cfg := by
    intro s
    split <;> rfl
  unfold finish
  rw [hmark]
  split
  · exact sound_gap
  · rfl

theorem sound_start (source : ServiceSource) (table : ServiceTable) (cache : GrownCache)
    (buffers : Bytes × Bytes) : (start source table cache buffers).Sound cfg := by
  simp [Sound, urls, start]

end Transform

/-! ## Result -/

/-- The playlist is made of the lines that were handed to the cache; the URL lines among them are
    whole and the indices inside their arrays if and only if every line of the source fits. -/
theorem urls_whole_iff (cfg : TransformConfig) (source : ServiceSource) (table : ServiceTable)
    (cache : GrownCache) (buffers : Bytes × Bytes) (content : Bytes) (encodes : ℕ → Bool × Bool) :
    let s := Transform.start source table cache buffers
    let t := m3uParseAndCreateServices cfg s content encodes
    (∃ text, LaidOut t.written text ∧ t.cache.contents = cache.contents ++ text) ∧
      (t.Sound cfg ↔ Along (transformStep cfg) (LineFits cfg) s (sourceLines content encodes)) := by
  intro s t
  have hstart : s.Kept cache.toM3uCache := rfl
  have hkept : (run (transformStep cfg) s (sourceLines content encodes)).Kept cache.toM3uCache :=
    run_always (I := Transform.Kept cache.toM3uCache) (fun _ _ h => h.step) hstart _
  have hsound := run_iff_along (I := fun _ => True) (fun _ _ _ => trivial)
    (fun s e _ => Transform.sound_step cfg s e) (s := s) trivial (sourceLines content encodes)
  obtain ⟨text, hlaid, htext⟩ := M3uCache.foldl_laidOut t.written cache.grown
  refine ⟨⟨text, hlaid, hkept.finish.trans htext⟩, ?_⟩
  show (run (transformStep cfg) s (sourceLines content encodes)).finish.Sound cfg ↔ _
  rw [Transform.sound_finish, hsound.2,
    and_iff_right (Transform.sound_start source table cache buffers)]

def plainTransform : TransformConfig := ⟨⟨[], fun _ => true⟩, [], fun _ => []⟩

def noServices : ServiceTable := ⟨[], fun _ => none, 0⟩

def noPlaylist : GrownCache := ⟨.empty, fun h => absurd rfl h⟩

/-- The first playlist of a process whose stack holds nothing. -/
def firstPlaylist (content : Bytes) (encodes : ℕ → Bool × Bool) : Transform :=
  m3uParseAndCreateServices plainTransform (.start .external noServices noPlaylist ([], [])) content
    encodes

/-- The URL of the service `A` has 2056 bytes. -/
def longUrl : Transform :=
  firstPlaylist (ascii "#EXTINF:-1,A\nhttp://h/?t=\x7b" ++ List.replicate 2040 0x78 ++ ascii "\x7d")
    fun _ => (true, true)

/-- The label has 256 bytes. -/
def longLabel : Transform :=
  firstPlaylist (ascii "#EXTINF:-1,A\nhttp://h/a$" ++ List.replicate 255 0x78) fun _ => (true, true)

/-- The name of the second service is not encoded. -/
def notEncoded : Transform :=
  firstPlaylist (ascii "#EXTINF:-1,A\nhttp://h/a\n#EXTINF:-1,B\nhttp://h/b") fun i => (i < 3, true)

/-- The name has 255 bytes, and there is a group title. -/
def longName : Transform :=
  firstPlaylist (ascii "#EXTINF:-1 group-title=\"G\"," ++ List.replicate 255 0x41)
    fun _ => (true, true)

/-- A URL is cut to 2047 bytes, a label to 255, the second entry gets the URL of the first, and
    the group title is ended at the index -1. -/
theorem urls_cut_carried_outside :
    longUrl.urls.map (·.text.length) = [2047] ∧ ¬ longUrl.Sound plainTransform ∧
      longLabel.urls.map (·.text.length) = [520] ∧ ¬ longLabel.Sound plainTransform ∧
      notEncoded.urls.map (·.text) =
        [baseUrlPlaceholder ++ ascii "A", baseUrlPlaceholder ++ ascii "A"] ∧
      ¬ notEncoded.Sound plainTransform ∧
      ⟨2 ^ 64 - 1, 256⟩ ∈ longName.indices ∧ ¬ longName.Sound plainTransform := by
  decide +kernel

end Apackage.Rtp2httpd
