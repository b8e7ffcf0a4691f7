import Mathlib.Data.List.Destutter
import Apackage.Rtp2httpd.Http.DownloadName
import Apackage.Rtp2httpd.Web.JsString

/-
  Download names in the web player (`sanitizeMediaDownloadFilename` in `media-direct-link.ts`) and
  on the server (`http_sanitize_download_filename` in `http.c`).

  The player cleans a name, cuts it to 177 units and puts `.ts` behind it. A name of 175 units grows
  to 178, and the second pass cuts it in its suffix: that is the only length at which the function
  is not idempotent.

  Model. The server gets the name in UTF-8. A name with half of a surrogate pair has none:
  `encodeURIComponent` throws on it, and no request is made.
-/

namespace Apackage.Rtp2httpd

open List Option Lib.TextCode

def filenameForbiddenChars : JsString := "\\/:*?\"<>|".toList.map jsChar

def mediaDownloadFilenameMax : ℕ := 180

def forbiddenUnit (c : UInt16) : Bool := c < 32 || c = 127 || filenameForbiddenChars.contains c

/-- `replaceForbiddenFilenameChars`. A `ch` of two units is not replaced, and neither of its
    units would be. -/
def replaceForbiddenFilenameChars (name : JsString) : JsString :=
  name.map fun c => if forbiddenUnit c then jsChar '_' else c

/-- `[.\s_]`. -/
def isTail (c : UInt16) : Bool := c = jsChar '.' || jsSpace c || c = jsChar '_'

/-- `toLowerCase` on the units of `.ts`; no other unit has one of these in lower case. -/
def jsLower (c : UInt16) : UInt16 := if jsChar 'A' ≤ c && c ≤ jsChar 'Z' then c + 0x20 else c

def tsSuffix : JsString := [jsChar '.', jsChar 't', jsChar 's']

/-- `toLowerCase().endsWith(".ts")`. -/
def endsWithTs (s : JsString) : Bool :=
  3 ≤ s.length && (s.drop (s.length - 3)).map jsLower = tsSuffix

/-- `"download"` for an empty name. -/
def orDownload (s : JsString) : JsString := if s = [] then "download".toList.map jsChar else s

/-- The name as cleaned before its length is looked at. -/
def tidyFilename (name : JsString) : JsString :=
  let sanitized := jsTrim (squeeze jsSpace (jsChar ' ') (replaceForbiddenFilenameChars name))
  orDownload ((squeeze (· = jsChar '_') (jsChar '_') sanitized).rdropWhile isTail)

def cutFilename (sanitized : JsString) : JsString :=
  if sanitized.length > mediaDownloadFilenameMax - 3 then
    orDownload ((sanitized.take (mediaDownloadFilenameMax - 3)).rdropWhile isTail)
  else sanitized

def withTsSuffix (sanitized : JsString) : JsString :=
  if endsWithTs sanitized then sanitized else sanitized ++ tsSuffix

def sanitizeMediaDownloadFilename (name : JsString) : JsString :=
  withTsSuffix (cutFilename (tidyFilename name))

/-! ## What is left of a name -/

/-- A unit as it stands in a file name. -/
def plainUnit (c : UInt16) : UInt16 :=
  if forbiddenUnit c then jsChar '_' else if jsSpace c then jsChar ' ' else c

/-- A blank behind a blank, or an underscore behind an underscore. -/
def Repeats (a b : UInt16) : Prop := a = b ∧ (a = jsChar ' ' ∨ a = jsChar '_')
  deriving Decidable

/-- The name without repetitions, blanks before it and separators behind it. -/
def mergedName (name : JsString) : JsString :=
  (((name.map plainUnit).destutter fun a b => ¬ Repeats a b).dropWhile jsSpace).rdropWhile isTail

/-- What there is room for. -/
def stem (name : JsString) : JsString :=
  ((mergedName name).take (mediaDownloadFilenameMax - 3)).rdropWhile isTail

/-- The suffix is put behind 175 units. -/
def SuffixCut (name : JsString) : Prop :=
  (stem name).length = mediaDownloadFilenameMax - 5 ∧ endsWithTs (stem name) = false

/-! ## Runs -/

theorem squeezeFrom_map (inRun : Bool) (s : JsString) : squeezeFrom jsSpace (jsChar ' ') inRun s =
      squeezeFrom (· = jsChar ' ') (jsChar ' ') inRun
        (s.map fun c => if jsSpace c then jsChar ' ' else c) := by
  induction s generalizing inRun with
  | nil => rfl
  | cons c s ih =>
    rw [map_cons, squeezeFrom, squeezeFrom]
    by_cases hc : jsSpace c = true
    · simp [*]
    · have hblank : ¬ decide (c = jsChar ' ') = true := by
        rw [decide_eq_true_eq]
        rintro rfl
        exact hc (by decide)
      rw [if_neg hc, if_neg hc, if_neg hblank, ih]

theorem squeeze_squeeze (a : UInt16) (u : JsString) :
    a :: squeezeFrom (· = jsChar '_') (jsChar '_') (a = jsChar '_')
      (squeezeFrom (· = jsChar ' ') (jsChar ' ') (a = jsChar ' ') u) =
    u.destutter' (fun a b => ¬ Repeats a b) a := by
  have hne : jsChar ' ' ≠ jsChar '_' := by decide
  induction u generalizing a with
  | nil => rfl
  | cons b u ih =>
    by_cases hrep : Repeats a b
    · rw [destutter'_cons_neg _ (not_not.2 hrep), ← ih a]
      obtain ⟨rfl, rfl | rfl⟩ := hrep
      · simp [squeezeFrom]
      · simp [squeezeFrom, hne.symm]
    · rw [destutter'_cons_pos _ hrep, ← ih b]
      congr 1
      by_cases hblank : b = jsChar ' '
      · have ha : a ≠ jsChar ' ' := fun ha => hrep ⟨ha.trans hblank.symm, .inl ha⟩
        simp [squeezeFrom, hblank, ha, hne]
      by_cases hunder : b = jsChar '_'
      · have ha : a ≠ jsChar '_' := fun ha => hrep ⟨ha.trans hunder.symm, .inr ha⟩
        simp [squeezeFrom, hunder, ha, hne.symm]
      · simp [squeezeFrom, hblank, hunder]

theorem squeeze_destutter (u : JsString) :
    squeeze (· = jsChar '_') (jsChar '_') (squeeze (· = jsChar ' ') (jsChar ' ') u) =
      u.destutter fun a b => ¬ Repeats a b := by
  have hne : jsChar ' ' ≠ jsChar '_' := by decide
  cases u with
  | nil => rfl
  | cons a u =>
    rw [destutter_cons', ← squeeze_squeeze, squeeze, squeeze]
    by_cases hblank : a = jsChar ' '
    · simp [squeezeFrom, hblank, hne]
    by_cases hunder : a = jsChar '_'
    · simp [squeezeFrom, hunder, hne.symm]
    · simp [squeezeFrom, hblank, hunder]

section

variable {α : Type*} {p q : α → Bool} {r : α}

theorem squeezeFrom_append {s t : List α} (ht : ∀ c ∈ t, p c = false) (inRun : Bool) :
    squeezeFrom p r inRun (s ++ t) = squeezeFrom p r inRun s ++ t := by
  induction s generalizing inRun with
  | nil =>
    induction t generalizing inRun with
    | nil => rfl
    | cons c t ih =>
      have hrest := ih (fun d hd => ht d (mem_cons_of_mem _ hd)) false
      have hc : ¬ p c = true := by simp [ht c mem_cons_self]
      change squeezeFrom p r inRun (c :: t) = c :: t
      rw [squeezeFrom, if_neg hc]
      exact congrArg _ hrest
  | cons c s ih =>
    rw [cons_append, squeezeFrom, squeezeFrom]
    split_ifs
    · exact ih true
    · rw [ih true, cons_append]
    · rw [ih false, cons_append]

theorem squeezeFrom_dropWhile (hpq : ∀ c, q c = true → p c = false) (hr : q r = false)
    (s : List α) :
    squeezeFrom p r false (s.dropWhile q) = (squeezeFrom p r false s).dropWhile q := by
  induction s with
  | nil => rfl
  | cons c s ih =>
    by_cases hq : q c = true
    · rw [dropWhile_cons_of_pos hq, squeezeFrom, if_neg (by simp [hpq c hq]),
        dropWhile_cons_of_pos hq, ih]
    · rw [dropWhile_cons_of_neg hq, squeezeFrom]
      by_cases hp : p c = true
      · rw [if_pos hp, if_neg Bool.false_ne_true, dropWhile_cons_of_neg (by simp [hr])]
      · rw [if_neg hp, dropWhile_cons_of_neg hq]

theorem rdropWhile_append {s t : List α} (ht : ∀ c ∈ t, p c = true) :
    (s ++ t).rdropWhile p = s.rdropWhile p := by
  rw [List.rdropWhile, List.rdropWhile, reverse_append, dropWhile_append_of_pos (by simpa using ht)]

end

theorem plainUnit_plainUnit (c : UInt16) : plainUnit (plainUnit c) = plainUnit c := by
  rw [plainUnit.eq_1 c]
  split
  · decide
  split
  · decide
  · rw [plainUnit, if_neg ‹_›, if_neg ‹_›]

theorem squeezed_eq (name : JsString) : (squeeze (· = jsChar '_') (jsChar '_')
      (jsTrim (squeeze jsSpace (jsChar ' ') (replaceForbiddenFilenameChars name)))).rdropWhile
        isTail = mergedName name := by
  have hmap : (replaceForbiddenFilenameChars name).map
      (fun c => if jsSpace c then jsChar ' ' else c) = name.map plainUnit := by
    rw [replaceForbiddenFilenameChars, List.map_map]
    refine map_congr_left fun c _ => ?_
    rw [Function.comp_apply, plainUnit]
    by_cases hc : forbiddenUnit c = true
    · rw [if_pos hc, if_pos hc]
      decide
    · rw [if_neg hc, if_neg hc]
  have hblanks : squeeze jsSpace (jsChar ' ') (replaceForbiddenFilenameChars name) =
      squeeze (· = jsChar ' ') (jsChar ' ') (name.map plainUnit) := by
    rw [squeeze, squeezeFrom_map, hmap]
    rfl
  have hunder : ∀ c, jsSpace c = true → decide (c = jsChar '_') = false := by
    intro c hc
    rw [decide_eq_false_iff_not]
    rintro rfl
    revert hc
    decide
  rw [hblanks, mergedName, ← squeeze_destutter]
  generalize squeeze (· = jsChar ' ') (jsChar ' ') (name.map plainUnit) = w
  rw [squeeze, squeeze, ← squeezeFrom_dropWhile hunder (by decide), jsTrim]
  generalize w.dropWhile jsSpace = d
  -- the blanks cut by `trim` are separators behind the name
  nth_rewrite 2 [← rdropWhile_append_rtakeWhile (p := jsSpace) (l := d)]
  rw [squeezeFrom_append fun c hc => hunder c (mem_rtakeWhile_imp hc), rdropWhile_append]
  intro c hc
  have hspace := mem_rtakeWhile_imp hc
  simp [isTail, hspace]

theorem tidyFilename_eq (name : JsString) : tidyFilename name = orDownload (mergedName name) := by
  rw [← squeezed_eq]
  rfl

theorem cutFilename_eq (name : JsString) :
    cutFilename (tidyFilename name) = orDownload (stem name) := by
  rw [tidyFilename_eq, cutFilename]
  have htail : (mergedName name).rdropWhile isTail = mergedName name := rdropWhile_idempotent _ _
  by_cases hnil : mergedName name = []
  · rw [stem, hnil]
    decide
  · rw [orDownload, if_neg hnil]
    split_ifs with hlong
    · rfl
    · rw [stem, take_of_length_le (by omega), htail, orDownload, if_neg hnil]

/-! ## Names that stay -/

/-- A name that no pass before the length cut changes. -/
structure Tidy (s : JsString) : Prop where
  ne_nil : s ≠ []
  plain : ∀ c ∈ s, plainUnit c = c
  merged : s.IsChain fun a b => ¬ Repeats a b
  head : ∀ c ∈ s.head?, jsSpace c = false
  last : ∀ c ∈ s.getLast?, isTail c = false

variable {s : JsString}

theorem Tidy.tidyFilename_eq (h : Tidy s) : tidyFilename s = s := by
  have hmap : s.map plainUnit = s := (map_congr_left h.plain).trans (List.map_id s)
  have hdrop : s.dropWhile jsSpace = s := by
    cases s with
    | nil => rfl
    | cons c s => exact dropWhile_cons_of_neg (by simp [h.head c rfl])
  have hrdrop : s.rdropWhile isTail = s :=
    rdropWhile_eq_self_iff.2 fun hne => by
      simp [h.last _ (getLast?_eq_some_getLast hne)]
  rw [Rtp2httpd.tidyFilename_eq, mergedName, hmap,
    destutter_of_isChain _ s h.merged, hdrop, hrdrop, orDownload, if_neg h.ne_nil]

theorem plain_of_all (h : (s.all fun c => plainUnit c = c) = true) : ∀ c ∈ s, plainUnit c = c := by
  simpa using h

theorem tidy_download : Tidy ("download".toList.map jsChar) where
  ne_nil := by decide
  plain := plain_of_all (by decide)
  merged := by decide
  head c hc := by
    obtain rfl := some.inj hc
    decide
  last c hc := by
    obtain rfl := some.inj hc
    decide

theorem tidy_stem {name : JsString} (hne : stem name ≠ []) : Tidy (stem name) := by
  have hmerged : mergedName name <+: ((name.map plainUnit).destutter
      fun a b => ¬ Repeats a b).dropWhile jsSpace := rdropWhile_prefix _ _
  have hstem : stem name <+: ((name.map plainUnit).destutter
      fun a b => ¬ Repeats a b).dropWhile jsSpace :=
    (( rdropWhile_prefix _ _).trans ( take_prefix _ _)).trans hmerged
  refine ⟨hne, ?_, ?_, ?_, ?_⟩
  · intro c hc
    have hmem := (destutter_sublist _ _).subset ((dropWhile_suffix _).subset (hstem.subset hc))
    obtain ⟨d, -, rfl⟩ := List.mem_map.1 hmem
    exact plainUnit_plainUnit d
  · obtain ⟨t, ht⟩ := hstem
    have hchain := (isChain_destutter (fun a b => ¬ Repeats a b)
      (name.map plainUnit)).suffix (dropWhile_suffix jsSpace)
    rw [← ht] at hchain
    exact hchain.left_of_append
  · intro c hc
    obtain ⟨t, ht⟩ := hstem
    have hnot := head?_dropWhile_not jsSpace
      ((name.map plainUnit).destutter fun a b => ¬ Repeats a b)
    rw [← ht, head?_append_of_ne_nil _ hne, hc] at hnot
    simpa using hnot
  · intro c hc
    have hnot := rdropWhile_last_not isTail _ hne
    rw [getLast?_eq_some_getLast hne, Option.mem_some_iff] at hc
    rw [← hc]
    exact Bool.eq_false_of_not_eq_true hnot

theorem tidy_cut (name : JsString) : Tidy (orDownload (stem name)) := by
  rw [orDownload]
  split_ifs with h
  · exact tidy_download
  · exact tidy_stem h

theorem length_cut (name : JsString) :
    (orDownload (stem name)).length ≤ mediaDownloadFilenameMax - 3 := by
  rw [orDownload]
  split_ifs
  · decide
  · exact ( rdropWhile_prefix _ _).length_le.trans (length_take_le _ _)

theorem Tidy.append_ts (h : Tidy s) : Tidy (s ++ tsSuffix) := by
  refine ⟨by simp [h.ne_nil], ?_, ?_, ?_, ?_⟩
  · intro c hc
    rcases mem_append.1 hc with hc | hc
    · exact h.plain c hc
    · exact plain_of_all (by decide) c hc
  · refine isChain_append.2 ⟨h.merged, by decide, ?_⟩
    intro a _ b hb hrep
    obtain rfl := some.inj hb
    revert hrep
    rintro ⟨rfl, hrep⟩
    revert hrep
    decide
  · rw [head?_append_of_ne_nil _ h.ne_nil]
    exact h.head
  · rw [getLast?_append_of_ne_nil _ (by decide)]
    intro c hc
    obtain rfl := some.inj hc
    decide

theorem Tidy.withTs (h : Tidy s) : Tidy (withTsSuffix s) := by
  rw [withTsSuffix]
  split
  · exact h
  · exact h.append_ts

theorem endsWithTs_append (s : JsString) : endsWithTs (s ++ tsSuffix) = true := by
  have hlen : (s ++ tsSuffix).length = s.length + 3 := length_append
  rw [endsWithTs, hlen, Nat.add_sub_cancel, drop_left, Bool.and_eq_true, decide_eq_true_eq]
  exact ⟨by omega, by decide⟩

theorem jsLower_eq {c d : UInt16} (h : jsLower c = d) :
    c = d ∨ (c = d - 0x20 ∧ jsChar 'A' ≤ c ∧ c ≤ jsChar 'Z') := by
  rw [jsLower] at h
  split at h
  · grind
  · exact .inl h

theorem jsLower_dot {c : UInt16} (h : jsLower c = jsChar '.') : c = jsChar '.' := by
  rcases jsLower_eq h with h | ⟨rfl, hupper, -⟩
  · exact h
  · exact absurd hupper (by decide)

theorem Tidy.not_endsWithTs (h : Tidy s) : endsWithTs (s ++ [jsChar '.', jsChar 't']) = false := by
  obtain ⟨s', c, rfl⟩ := (eq_nil_or_concat' s).resolve_left h.ne_nil
  have hlast := h.last c (by simp)
  have hdrop : (s' ++ [c] ++ [jsChar '.', jsChar 't']).drop
      ((s' ++ [c] ++ [jsChar '.', jsChar 't']).length - 3) = [c, jsChar '.', jsChar 't'] := by
    rw [append_assoc, length_append]
    exact drop_left
  rw [Bool.eq_false_iff]
  intro hends
  rw [endsWithTs, hdrop, Bool.and_eq_true, decide_eq_true_eq] at hends
  have hmap : [jsLower c, jsLower (jsChar '.'), jsLower (jsChar 't')] = tsSuffix :=
    of_decide_eq_true hends.2
  have hc := jsLower_dot (cons_eq_cons.1 hmap).1
  rw [hc] at hlast
  revert hlast
  decide

theorem Tidy.again_iff (h : Tidy s) (hlen : s.length ≤ mediaDownloadFilenameMax - 3) :
    sanitizeMediaDownloadFilename (withTsSuffix s) = withTsSuffix s ↔
      ¬ (s.length = mediaDownloadFilenameMax - 5 ∧ endsWithTs s = false) := by
  rw [sanitizeMediaDownloadFilename, h.withTs.tidyFilename_eq]
  by_cases hts : endsWithTs s = true
  · have hs : withTsSuffix s = s := if_pos hts
    rw [hs, cutFilename, if_neg (by omega), hs]
    simp [hts]
  have hs : withTsSuffix s = s ++ tsSuffix := if_neg hts
  have hsuffixed : withTsSuffix (s ++ tsSuffix) = s ++ tsSuffix := if_pos (endsWithTs_append s)
  have hlong : (s ++ tsSuffix).length = s.length + 3 := length_append
  have htail : s.rdropWhile isTail = s := rdropWhile_eq_self_iff.2 fun hne => by
    simp [h.last _ (getLast?_eq_some_getLast hne)]
  have htake : (s ++ tsSuffix).take (mediaDownloadFilenameMax - 3) =
      s ++ tsSuffix.take (mediaDownloadFilenameMax - 3 - s.length) := by
    rw [take_append, take_of_length_le hlen]
  rw [hs, cutFilename, hlong, htake]
  have hmax : mediaDownloadFilenameMax = 180 := rfl
  by_cases hshort : s.length ≤ 174
  · rw [if_neg (by omega), hsuffixed]
    exact iff_of_true rfl fun hbad => by omega
  rw [if_pos (by omega)]
  obtain h175 | h176 | h177 : s.length = 175 ∨ s.length = 176 ∨ s.length = 177 := by omega
  · -- `.t` stays and gets a suffix of its own
    have hcut : tsSuffix.take (mediaDownloadFilenameMax - 3 - s.length) =
        [jsChar '.', jsChar 't'] := by rw [h175]; rfl
    have hkept : (s ++ [jsChar '.', jsChar 't']).rdropWhile isTail =
        s ++ [jsChar '.', jsChar 't'] := rdropWhile_eq_self_iff.2 fun hne => by
      rw [getLast_append_of_ne_nil _ (cons_ne_nil _ _)]
      decide
    rw [hcut, hkept, orDownload, if_neg (by simp), withTsSuffix, h.not_endsWithTs]
    refine iff_of_false (fun heq => ?_) (not_not.2 ⟨by omega, by simpa using hts⟩)
    have hgrown := congrArg List.length heq
    simp [tsSuffix] at hgrown
  · have hcut : tsSuffix.take (mediaDownloadFilenameMax - 3 - s.length) = [jsChar '.'] := by
      rw [h176]
      rfl
    rw [hcut, rdropWhile_concat_pos _ _ _ (by decide), htail, orDownload, if_neg h.ne_nil, hs]
    exact iff_of_true rfl fun hbad => by omega
  · have hcut : tsSuffix.take (mediaDownloadFilenameMax - 3 - s.length) = [] := by
      rw [h177]
      rfl
    rw [hcut, append_nil, htail, orDownload, if_neg h.ne_nil, hs]
    exact iff_of_true rfl fun hbad => by omega

theorem sanitize_idempotent_iff (name : JsString) :
    sanitizeMediaDownloadFilename (sanitizeMediaDownloadFilename name) =
      sanitizeMediaDownloadFilename name ↔ ¬ SuffixCut name := by
  rw [sanitizeMediaDownloadFilename.eq_1 name, cutFilename_eq,
    (tidy_cut name).again_iff (length_cut name), SuffixCut, orDownload]
  split_ifs with hnil
  · rw [hnil]
    decide
  · rfl

/-! ## The server -/

theorem utf8CharLen_lead (c : Char) :
    ∃ lead following, String.utf8EncodeChar c = lead :: following ∧
      httpUtf8CharLen lead = following.length + 1 := by
  have htwo : ∀ n : Fin 0x20, httpUtf8CharLen (UInt8.ofNat (n + 0xC0)) = 2 := by decide
  have hthree : ∀ n : Fin 0x10, httpUtf8CharLen (UInt8.ofNat (n + 0xE0)) = 3 := by decide
  have hfour : ∀ n : Fin 8, httpUtf8CharLen (UInt8.ofNat (n + 0xF0)) = 4 := by decide
  have hone : ∀ n : Fin 0x80, httpUtf8CharLen (UInt8.ofNat n) = 1 := by decide
  rw [String.utf8EncodeChar]
  split_ifs with h1 h2 h3
  · exact ⟨_, _, rfl, hone ⟨_, Nat.lt_succ_of_le h1⟩⟩
  · exact ⟨_, _, rfl, htwo ⟨_, Nat.mod_lt _ (by decide)⟩⟩
  · exact ⟨_, _, rfl, hthree ⟨_, Nat.mod_lt _ (by decide)⟩⟩
  · exact ⟨_, _, rfl, hfour ⟨_, Nat.mod_lt _ (by decide)⟩⟩

variable {t : List Char}

theorem sanitizeLoop_text {s : Bytes} {pendingSep : Bool}
    (hclean : ∀ b ∈ utf8 t, httpFilenameForbiddenChar b = false)
    (hlen : (s ++ utf8 t).length ≤ httpDownloadFilenameMax) :
    sanitizeLoop s pendingSep (utf8 t) = some (s ++ utf8 t) := by
  induction t generalizing s pendingSep with
  | nil =>
    change sanitizeLoop s pendingSep [] = some (s ++ [])
    rw [sanitizeLoop, append_nil]
  | cons c t ih =>
    obtain ⟨lead, following, hc, hlead⟩ := utf8CharLen_lead c
    have hsplit : utf8 (c :: t) = lead :: (following ++ utf8 t) := by
      rw [utf8, utf8Code.encode_cons]
      exact congrArg (· ++ utf8 t) hc
    rw [hsplit] at hclean hlen ⊢
    have hallowed := hclean lead mem_cons_self
    rw [length_append, length_cons, length_append] at hlen
    rw [loop_char (by omega) (by simp [hallowed]) hlead (by omega)
      (by rw [length_append]; omega), take_left, drop_left, ih]
    · simp
    · intro b hb
      exact hclean b (mem_cons_of_mem _ (mem_append_right _ hb))
    · simp [*]

theorem forbidden_replaced {b : UInt8} (hb : httpFilenameForbiddenChar b = true) :
    ∃ c : Char, c.toNat < 0x80 ∧ b = utf8Code.unit c ∧ plainUnit (jsChar c) ≠ jsChar c := by
  have hall : ∀ n : Fin 0x80, httpFilenameForbiddenChar (UInt8.ofNat n) = true →
      plainUnit (jsChar (Char.ofNat n)) ≠ jsChar (Char.ofNat n) := by decide
  have hunit : ∀ n : Fin 0x80, (Char.ofNat n).toNat = n := by decide
  have hlow : b.toNat < 0x80 := by
    simp only [httpFilenameForbiddenChar, Bool.or_eq_true, decide_eq_true_eq] at hb
    rcases hb with (((((((((hb | rfl) | rfl) | rfl) | rfl) | rfl) | rfl) | rfl) | rfl) | rfl) | rfl
    · exact Nat.lt_trans (UInt8.lt_iff_toNat_lt.1 hb) (by decide)
    all_goals decide
  refine ⟨Char.ofNat b.toNat, ?_, ?_, hall ⟨b.toNat, hlow⟩ (by simpa using hb)⟩
  · rw [hunit ⟨b.toNat, hlow⟩]
    exact hlow
  · change b = UInt8.ofNat (Char.ofNat b.toNat).toNat
    rw [hunit ⟨b.toNat, hlow⟩, UInt8.ofNat_toNat]

theorem Tidy.allowed (h : Tidy (utf16 t)) : ∀ b ∈ utf8 t, httpFilenameForbiddenChar b = false := by
  intro b hb
  rw [Bool.eq_false_iff]
  intro hforbidden
  obtain ⟨c, hc, rfl, hplain⟩ := forbidden_replaced hforbidden
  exact hplain (h.plain _ ((utf16Code.mem_encode hc).2 ((utf8Code.mem_encode hc).1 hb)))

theorem tsSuffix_text (h : endsWithTs (utf16 t) = true) :
    httpFilenameHasTsSuffix (utf8 t) = true ∧ (utf8 t).rdropWhile isSeparator = utf8 t := by
  rw [endsWithTs, Bool.and_eq_true, decide_eq_true_eq] at h
  obtain ⟨hlen, hmap⟩ := h
  obtain ⟨x, y, z, hxyz⟩ : ∃ x y z, (utf16 t).drop ((utf16 t).length - 3) = [x, y, z] :=
    length_eq_three.1 (by rw [length_drop]; omega)
  have hsplit : utf16 t = (utf16 t).take ((utf16 t).length - 3) ++ [x, y, z] := by
    rw [← hxyz, take_append_drop]
  rw [hxyz] at hmap
  have hmap' : [jsLower x, jsLower y, jsLower z] = tsSuffix := of_decide_eq_true hmap
  simp only [tsSuffix, List.cons.injEq, and_true] at hmap'
  obtain ⟨hx, hy, hz⟩ := hmap'
  obtain rfl := jsLower_dot hx
  obtain ⟨c, hc, rfl⟩ : ∃ c, (c = 't' ∨ c = 'T') ∧ y = jsChar c := by
    rcases jsLower_eq hy with rfl | ⟨rfl, -⟩
    · exact ⟨'t', .inl rfl, rfl⟩
    · exact ⟨'T', .inr rfl, by decide⟩
  obtain ⟨d, hd, rfl⟩ : ∃ d, (d = 's' ∨ d = 'S') ∧ z = jsChar d := by
    rcases jsLower_eq hz with rfl | ⟨rfl, -⟩
    · exact ⟨'s', .inl rfl, rfl⟩
    · exact ⟨'S', .inr rfl, by decide⟩
  have hclow : c.toNat < 0x80 := by rcases hc with rfl | rfl <;> decide
  have hdlow : d.toNat < 0x80 := by rcases hd with rfl | rfl <;> decide
  obtain ⟨a, b, rfl, -, hb⟩ := utf16Code.encode_split (by decide) hsplit
  obtain ⟨a', b', rfl, ha', hb'⟩ := utf16Code.encode_split (x := []) hclow hb
  obtain ⟨a'', b'', rfl, ha'', hb''⟩ := utf16Code.encode_split (x := []) hdlow hb'
  obtain rfl := utf16Code.encode_eq_nil.1 ha'
  obtain rfl := utf16Code.encode_eq_nil.1 ha''
  obtain rfl := utf16Code.encode_eq_nil.1 hb''
  obtain ⟨hlower, hthree, htail⟩ : (utf8 ['.', c, d]).map toLower = ascii ".ts" ∧
      (utf8 ['.', c, d]).length = 3 ∧
        (utf8 ['.', c, d]).rdropWhile isSeparator = utf8 ['.', c, d] := by
    rcases hc with rfl | rfl <;> rcases hd with rfl | rfl <;> decide
  change httpFilenameHasTsSuffix (utf8 (a ++ ['.', c, d])) = true ∧
    (utf8 (a ++ ['.', c, d])).rdropWhile isSeparator = utf8 (a ++ ['.', c, d])
  rw [utf8_append]
  constructor
  · rw [httpFilenameHasTsSuffix, length_append, hthree, Nat.add_sub_cancel, drop_left, hlower]
    simp
  · have hne : utf8 ['.', c, d] ≠ [] := fun hnil => by simp [hnil] at hthree
    rw [rdropWhile_eq_self_iff] at htail ⊢
    intro h
    rw [getLast_append_of_ne_nil _ hne]
    exact htail hne

/-- A tidy name with its suffix passes the server. -/
theorem Tidy.served (h : Tidy (utf16 t)) (hts : endsWithTs (utf16 t) = true)
    (hlen : (utf8 t).length ≤ httpDownloadFilenameMax) :
    httpSanitizeDownloadFilename (utf8 t) (httpDownloadFilenameMax + 8) = .written (utf8 t) := by
  obtain ⟨hsuffix, htail⟩ := tsSuffix_text hts
  have hne : utf8 t ≠ [] := fun hnil => h.ne_nil (by
    rw [utf16, utf8Code.encode_eq_nil.1 hnil]
    rfl)
  have hnul : 0 ∉ utf8 t := fun hmem => by
    have hallowed := h.allowed 0 hmem
    revert hallowed
    decide
  rw [httpSanitizeDownloadFilename, if_neg (by decide), sanitizeLoop_text (s := []) h.allowed hlen]
  change sanitizeTail (utf8 t) (httpDownloadFilenameMax + 8) = .written (utf8 t)
  rw [tail_eq hlen hnul, htail, if_neg hne, suffixed, if_pos hsuffix, if_neg (by omega)]

/-! ## Names that survive -/

/-- A second pass of the player changes nothing, and the server sends the name it is asked for
    if that fits. -/
def NameSurvives (name : JsString) : Prop :=
  sanitizeMediaDownloadFilename (sanitizeMediaDownloadFilename name) =
      sanitizeMediaDownloadFilename name ∧
    ∀ t, sanitizeMediaDownloadFilename name = utf16 t → (utf8 t).length ≤ httpDownloadFilenameMax →
      httpSanitizeDownloadFilename (utf8 t) (httpDownloadFilenameMax + 8) = .written (utf8 t)

theorem endsWithTs_withTs (s : JsString) : endsWithTs (withTsSuffix s) = true := by
  rw [withTsSuffix]
  split
  · assumption
  · exact endsWithTs_append s

/-- A name survives unless its suffix is put behind 175 units. -/
theorem download_name_survives_iff (name : JsString) : NameSurvives name ↔ ¬ SuffixCut name := by
  rw [NameSurvives, sanitize_idempotent_iff, and_iff_left_iff_imp]
  intro _ t ht hlen
  have htidy := (tidy_cut name).withTs
  have hts := endsWithTs_withTs (orDownload (stem name))
  rw [← cutFilename_eq] at htidy hts
  exact Tidy.served (ht ▸ htidy) (ht ▸ hts) hlen

/-- 175 letters: the name gets 178 units, and a second pass leaves `….t.ts`. -/
theorem long_name_grows : ¬ NameSurvives (List.replicate 175 (jsChar 'a')) := by
  rintro ⟨hagain, -⟩
  refine (sanitize_idempotent_iff _).1 hagain ?_
  rw [SuffixCut]
  decide +kernel

end Apackage.Rtp2httpd
