import Apackage.Rtp2httpd.Proxy.RewriteLines

/-
  When a rewritten playlist keeps the shape of the text.

  Every write stays in the block because one byte stays free after every line (`OutBuffer.Wf`), so
  the output of a text is its lines one by one (`content_text`). The output has a line for each line
  of the text if what stands in the output for a line is a line.
  And lines without an `http` or relative URL should be copied, but URLs with another scheme are
  rewritten as well (`LineOk`). An empty text has no block to write its NUL to (`empty_overrun`).
-/

namespace Apackage.Rtp2httpd

open List Option Lib.PercentCoding Lib.UriReference

section Rewrite

variable (r2hToken : Bytes) (ctx : RewriteContext)

/-! ## The block -/

/-- What stands in the output for a line. -/
def outLine (line : Bytes) : Bytes :=
  match rewriteM3uLine r2hToken ctx line with
  | some rewritten => rewritten ++ lineEnding line rewritten
  | none => line

namespace OutBuffer

/-- The block has `capacity` bytes at least, one of them free, and all writes were inside. -/
structure Wf (capacity : ℕ) (b : OutBuffer) : Prop where
  room : b.text.length + b.remaining = b.estimatedSize
  spare : 1 ≤ b.remaining
  size : capacity ≤ b.estimatedSize
  inside : ∀ w ∈ b.writes, w.start + w.length ≤ w.blockSize

variable {capacity : ℕ} {b : OutBuffer}

theorem grow_remaining (h : b.Wf capacity) : b.grow.remaining = b.estimatedSize + b.remaining := by
  have hroom := h.room
  show b.estimatedSize * 2 - b.text.length = _
  omega

theorem Wf.grow (h : b.Wf capacity) : b.grow.Wf capacity := by
  have hremaining := grow_remaining h
  have hspare := h.spare
  have hsize := h.size
  have hroom := h.room
  have hdouble : b.grow.estimatedSize = b.estimatedSize * 2 := rfl
  refine ⟨?_, by omega, by omega, h.inside⟩
  show b.text.length + b.grow.remaining = _
  omega

theorem growFor_spec {needed : ℕ} (fuel : ℕ) (h : b.Wf capacity)
    (hneeded : needed ≤ b.remaining + fuel) :
    ∃ b', b.growFor needed fuel = some b' ∧ b'.Wf capacity ∧ needed ≤ b'.remaining ∧
      b'.text = b.text := by
  induction fuel generalizing b with
  | zero =>
    refine ⟨b, ?_, h, hneeded, rfl⟩
    exact if_pos hneeded
  | succ fuel ih =>
    unfold growFor
    by_cases hfits : needed ≤ b.remaining
    · exact ⟨b, if_pos hfits, h, hfits, rfl⟩
    · rw [if_neg hfits]
      have hroom := h.room
      have hspare := h.spare
      exact ih h.grow (by rw [grow_remaining h]; omega)

theorem Wf.put (h : b.Wf capacity) (bytes : Bytes) (hfits : bytes.length + 1 ≤ b.remaining) :
    (b.put bytes).Wf capacity := by
  have hroom := h.room
  have hremaining : (b.put bytes).remaining = b.remaining - bytes.length := rfl
  refine ⟨?_, by omega, h.size, ?_⟩
  · show (b.text ++ bytes).length + (b.remaining - bytes.length) = b.estimatedSize
    rw [length_append]
    omega
  · intro w hw
    rcases mem_append.1 hw with hw | hw
    · exact h.inside w hw
    · rw [mem_singleton.1 hw]
      show b.text.length + bytes.length ≤ b.estimatedSize
      omega

end OutBuffer

theorem length_lineEnding (line rewritten : Bytes) : (lineEnding line rewritten).length ≤ 1 := by
  unfold lineEnding
  split
  · exact Nat.le_refl 1
  · exact Nat.zero_le 1

theorem writeLine_spec {n : ℕ} {b : OutBuffer} {line : Bytes} (h : b.Wf (n * 3))
    (hlen : line.length ≤ n) (hne : line ≠ []) :
    ∃ b', writeLine r2hToken ctx b line = some b' ∧ b'.Wf (n * 3) ∧
      b'.text = b.text ++ outLine r2hToken ctx line := by
  unfold writeLine outLine
  cases rewriteM3uLine r2hToken ctx line with
  | some rewritten =>
    have hfuel : rewritten.length + 2 ≤ b.remaining + (rewritten.length + 2) := by omega
    obtain ⟨b', hgrow, hwf, hfits, htext⟩ := OutBuffer.growFor_spec _ h hfuel
    have hending := length_lineEnding line rewritten
    dsimp only
    rw [hgrow, Option.map_some]
    refine ⟨_, rfl, ?_⟩
    have hput := hwf.put rewritten (by omega)
    split
    · rename_i hnil
      refine ⟨hput, ?_⟩
      show b'.text ++ rewritten = _
      rw [htext, hnil, append_nil]
    · have hremaining : (b'.put rewritten).remaining = b'.remaining - rewritten.length := rfl
      refine ⟨hput.put _ (by omega), ?_⟩
      show b'.text ++ rewritten ++ lineEnding line rewritten = _
      rw [htext, append_assoc]
  | none =>
    have hpos := length_pos_iff.2 hne
    refine ⟨_, rfl, ?_⟩
    split
    · have hsize := h.size
      have hremaining := OutBuffer.grow_remaining h
      exact ⟨h.grow.put line (by omega), rfl⟩
    · exact ⟨h.put line (by omega), rfl⟩

theorem writeLines_spec {n : ℕ} (lines : List Bytes) {b : OutBuffer} (h : b.Wf (n * 3))
    (hlen : ∀ line ∈ lines, line.length ≤ n ∧ line ≠ []) :
    ∃ b', lines.foldlM (writeLine r2hToken ctx) b = some b' ∧ b'.Wf (n * 3) ∧
      b'.text = b.text ++ lines.flatMap (outLine r2hToken ctx) := by
  induction lines generalizing b with
  | nil => exact ⟨b, rfl, h, (append_nil _).symm⟩
  | cons line lines ih =>
    obtain ⟨hline, hne⟩ := hlen line mem_cons_self
    obtain ⟨b', hwrite, hwf, htext⟩ := writeLine_spec r2hToken ctx h hline hne
    obtain ⟨b'', hrest, hwf', htext'⟩ := ih hwf fun l hl => hlen l (mem_cons_of_mem _ hl)
    refine ⟨b'', ?_, hwf', ?_⟩
    · simp [*]
    · rw [htext', htext, flatMap_cons, append_assoc]

theorem length_le_of_mem_splitLines {text line : Bytes} (h : line ∈ splitLines text) :
    line.length ≤ text.length := by
  have hlen := (sublist_flatten_of_mem h).length_le
  rwa [splitLines_flatten] at hlen

/-- The output are the lines one by one, and nothing is written beside the block. -/
theorem content_text {input : Bytes} (hmax : input.length ≤ rewriteMaxBodySize)
    (hne : input ≠ []) : ∃ o, rewriteM3uContent r2hToken ctx input = some o ∧
      (∀ w ∈ o.writes, w.start + w.length ≤ w.blockSize) ∧
      o.text = (splitLines input).flatMap (outLine r2hToken ctx) := by
  have hpos := length_pos_iff.2 hne
  have hstart : OutBuffer.Wf (input.length * 3) ⟨input.length * 3, [], input.length * 3, []⟩ := by
    refine ⟨Nat.zero_add _, ?_, Nat.le_refl _, fun w hw => absurd hw not_mem_nil⟩
    show 1 ≤ input.length * 3
    omega
  obtain ⟨b, hfold, hwf, htext⟩ := writeLines_spec r2hToken ctx (splitLines input) hstart
    fun line hline => ⟨length_le_of_mem_splitLines hline, (splitLines_isLine hline).nonempty⟩
  unfold rewriteM3uContent
  rw [if_neg (Nat.not_lt.2 hmax), hfold]
  refine ⟨b.terminate, rfl, fun w hw => ?_, htext⟩
  rcases mem_append.1 hw with hw | hw
  · exact hwf.inside w hw
  · rw [mem_singleton.1 hw]
    have hroom := hwf.room
    have hspare := hwf.spare
    show b.text.length + 1 ≤ b.estimatedSize
    omega

end Rewrite

/-- A line with a URL that should be rewritten. -/
def HasUrl (line : Bytes) : Prop := ∃ url ∈ lineUrls line, url ≠ [] ∧ HttpOrRelative url

section Shape

variable (r2hToken : Bytes) (ctx : RewriteContext)

/-- The output has the lines of the text, those without such a URL as they were, and any other
    as it was or rewritten. -/
structure KeepsShape (input output : Bytes) : Prop where
  count : (splitLines output).length = (splitLines input).length
  copied : ∀ (i : ℕ) (line : Bytes), (splitLines input)[i]? = some line → ¬ HasUrl line →
    (splitLines output)[i]? = some line
  rewritten : ∀ (i : ℕ) (line line' : Bytes), (splitLines input)[i]? = some line →
    (splitLines output)[i]? = some line' → line' ≠ line →
      ∃ r, rewriteM3uLine r2hToken ctx line = some r ∧ line' = r ++ lineEnding line r

/-- A line is rewritten only for a URL that should be, and the context has no line feed for it. -/
def LineOk (line : Bytes) : Prop :=
  ∀ url ∈ lineUrls line, shouldRewriteUrl url = true →
    ¬ Overflows r2hToken ctx (httpProxyPathSize * 2) (targetUrl ctx url) →
      HasUrl line ∧ lineFeed ∉ ctx.baseUrl ∧ lineFeed ∉ targetUrl ctx url

/-! ## The lines of the output -/

theorem outLine_getLast {line : Bytes} (h : line.getLast? = some lineFeed) :
    (outLine r2hToken ctx line).getLast? = some lineFeed := by
  unfold outLine
  cases rewriteM3uLine r2hToken ctx line with
  | none => exact h
  | some rewritten =>
    dsimp only
    unfold lineEnding
    by_cases hend : rewritten.getLast? = some lineFeed
    · simp [*]
    · rw [if_pos ⟨h, hend⟩, getLast?_concat]

theorem splitLines_flatMap (f : Bytes → Bytes) (lines : List Bytes) {last : Bytes}
    (h : ∀ line ∈ lines, (f line).getLast? = some lineFeed) :
    splitLines ((lines ++ [last]).flatMap f) =
      (lines ++ [last]).flatMap fun line => splitLines (f line) := by
  induction lines with
  | nil => simp
  | cons line lines ih =>
    rw [cons_append, flatMap_cons, flatMap_cons, splitLines_append (h line mem_cons_self),
      ih fun l hl => h l (mem_cons_of_mem _ hl)]

theorem splitLines_output (input : Bytes) :
    splitLines ((splitLines input).flatMap (outLine r2hToken ctx)) =
      (splitLines input).flatMap fun line => splitLines (outLine r2hToken ctx line) := by
  rcases eq_nil_or_concat (splitLines input) with hnil | ⟨lines, last, hlines⟩
  · rw [hnil]
    rfl
  · rw [concat_eq_append] at hlines
    rw [hlines]
    exact splitLines_flatMap _ lines fun line hline =>
      outLine_getLast r2hToken ctx (splitLines_getLast hlines line hline)

theorem length_flatMap_iff {α β : Type} (f : α → List β) (l : List α)
    (h : ∀ x ∈ l, 1 ≤ (f x).length) :
    l.length ≤ (l.flatMap f).length ∧
      ((l.flatMap f).length = l.length ↔ ∀ x ∈ l, (f x).length = 1) := by
  induction l with
  | nil => exact ⟨Nat.le_refl _, by simp⟩
  | cons x l ih =>
    grind

/-! ## Rewritten lines -/

section Line

variable {line url rewritten : Bytes}

theorem lineFeed_not_mem_lineCopy (h : IsLine line) : lineFeed ∉ lineCopy line := by
  intro hmem
  obtain ⟨tail, htail⟩ := rdropWhile_prefix (fun c => c = carriageReturn || c = lineFeed) line
  rcases eq_nil_or_concat tail with rfl | ⟨tail', c, rfl⟩
  · have hself : lineCopy line = line := by
      rw [append_nil] at htail
      exact htail
    have hne := h.nonempty
    have hlast := rdropWhile_eq_self_iff.1 hself hne
    rw [hself, ← dropLast_append_getLast hne, mem_append, mem_singleton] at hmem
    rcases hmem with hmem | hmem
    · exact h.single hmem
    · exact hlast (by rw [← hmem]; decide)
  · have hsingle := h.single
    rw [← htail, concat_eq_append, ← append_assoc, dropLast_concat] at hsingle
    exact hsingle (mem_append_left _ hmem)

variable {c : UInt8}

theorem mem_of_mem_uriValues (h : url ∈ uriValues line) (hc : c ∈ url) : c ∈ line := by
  generalize hn : line.length = n
  induction n using Nat.strong_induction_on generalizing line with
  | _ n ih =>
    rw [uriValues] at h
    split at h
    · cases h
    · rename_i p hsplit
      obtain ⟨htext, hlt⟩ := splitUri_text hsplit
      rw [htext]
      rcases List.mem_cons.1 h with rfl | h
      · refine mem_append_left _ ?_
        exact mem_append_left _ (mem_append_right _ hc)
      · exact mem_append_right _ (ih _ (hn ▸ hlt) h rfl)

theorem mem_of_mem_lineUrls (h : url ∈ lineUrls line) (hc : c ∈ url) : c ∈ lineCopy line := by
  unfold lineUrls at h
  split at h
  · exact mem_of_mem_uriValues h hc
  · split at h
    · cases h
    · rw [mem_singleton.1 h] at hc
      exact (dropWhile_suffix _).subset hc

theorem mem_rewrittenLine (h : c ∈ rewrittenLine r2hToken ctx line) :
    c ∈ line ∨ ∃ url ∈ uriValues line, ∃ r, uriRewrite r2hToken ctx url = some r ∧ c ∈ r := by
  generalize hn : line.length = n
  induction n using Nat.strong_induction_on generalizing line with
  | _ n ih =>
    rw [rewrittenLine] at h
    rw [uriValues]
    split at h
    · exact .inl h
    · rename_i p hsplit
      obtain ⟨htext, hlt⟩ := splitUri_text hsplit
      rcases mem_append.1 h with h | h
      · have hparts : c ∈ p.put p.value ∨ c ∈ (uriRewrite r2hToken ctx p.value).getD p.value := by
          unfold UriParts.put at h ⊢
          simp only [mem_append] at h ⊢
          tauto
        rcases hparts with hparts | hparts
        · exact .inl (by rw [htext]; exact mem_append_left _ hparts)
        · cases hrewrite : uriRewrite r2hToken ctx p.value with
          | none =>
            grind
          | some r =>
            rw [hrewrite] at hparts
            exact .inr ⟨p.value, mem_cons_self, r, hrewrite, hparts⟩
      · rcases ih _ (hn ▸ hlt) h rfl with hmem | ⟨url, hurl, hrest⟩
        · exact .inl (by rw [htext]; exact mem_append_right _ hmem)
        · exact .inr ⟨url, mem_cons_of_mem _ hurl, hrest⟩

theorem rewrittenLine_infix (h : url ∈ uriValues line)
    (hrewrite : uriRewrite r2hToken ctx url = some rewritten) :
    rewritten <:+: rewrittenLine r2hToken ctx line := by
  generalize hn : line.length = n
  induction n using Nat.strong_induction_on generalizing line with
  | _ n ih =>
    rw [uriValues] at h
    rw [rewrittenLine]
    split at h
    · cases h
    · rename_i p hsplit
      obtain ⟨htext, hlt⟩ := splitUri_text hsplit
      rcases List.mem_cons.1 h with rfl | h
      · rw [hrewrite, getD_some]
        unfold UriParts.put
        refine ⟨p.before ++ p.quotes, p.quotes ++ rewrittenLine r2hToken ctx p.rest, ?_⟩
        simp only [append_assoc]
      · obtain ⟨a, b, hab⟩ := ih _ (hn ▸ hlt) h rfl
        refine ⟨p.put ((uriRewrite r2hToken ctx p.value).getD p.value) ++ a, b, ?_⟩
        rw [← hab]
        simp only [append_assoc]

theorem lineText_infix (h : url ∈ lineUrls line)
    (hrewrite : uriRewrite r2hToken ctx url = some rewritten) :
    rewritten <:+: lineText r2hToken ctx line := by
  unfold lineUrls at h
  unfold lineText
  split at h
  · rename_i hcomment
    rw [if_pos hcomment]
    exact rewrittenLine_infix r2hToken ctx h hrewrite
  · rename_i hcomment
    rw [if_neg hcomment]
    split at h
    · cases h
    · obtain rfl := mem_singleton.1 h
      simpa only [hrewrite, getD_some] using infix_refl rewritten

theorem mem_lineText (h : c ∈ lineText r2hToken ctx line) :
    c ∈ lineCopy line ∨ ∃ url ∈ lineUrls line, ∃ r, uriRewrite r2hToken ctx url = some r ∧ c ∈ r := by
  unfold lineText at h
  unfold lineUrls
  split at h
  · rename_i hcomment
    rw [if_pos hcomment]
    exact mem_rewrittenLine r2hToken ctx h
  · rename_i hcomment
    rw [if_neg hcomment]
    right
    cases hrewrite : uriRewrite r2hToken ctx ((lineCopy line).dropWhile isSpace) with
    | none =>
      rw [hrewrite] at h
      cases h
    | some r =>
      rw [hrewrite] at h
      have hblank : (lineCopy line).dropWhile isSpace ≠ [] := fun hnil => by
        rw [hnil, uriRewrite_nil] at hrewrite
        cases hrewrite
      rw [if_neg hblank]
      exact ⟨_, mem_singleton_self _, r, hrewrite, h⟩

theorem lineFeed_not_mem_tokenQuery (s : Bytes) : lineFeed ∉ tokenQuery r2hToken s := by
  unfold tokenQuery
  split
  · exact not_mem_nil
  · rw [List.mem_cons, mem_append, not_or, not_or]
    refine ⟨?_, by decide, not_mem_encode (by decide) (by decide) (by decide) r2hToken⟩
    split <;> decide

theorem lineFeed_not_mem_rewrite (hrewrite : uriRewrite r2hToken ctx url = some rewritten)
    (hbase : lineFeed ∉ ctx.baseUrl) (htarget : lineFeed ∉ targetUrl ctx url) :
    lineFeed ∉ rewritten := by
  obtain ⟨-, -, rfl⟩ := (uriRewrite_some r2hToken ctx).1 hrewrite
  simp only [mem_append, not_or]
  exact ⟨⟨⟨hbase, by decide⟩, fun h => htarget (mem_of_mem_drop h)⟩,
    lineFeed_not_mem_tokenQuery r2hToken _⟩

theorem lineFeed_inside (hrewrite : uriRewrite r2hToken ctx url = some rewritten)
    (hurl : lineFeed ∉ url) (h : lineFeed ∈ ctx.baseUrl ∨ lineFeed ∈ targetUrl ctx url) :
    ∃ a b, b ≠ [] ∧ rewritten = a ++ lineFeed :: b := by
  obtain ⟨hshould, -, rfl⟩ := (uriRewrite_some r2hToken ctx).1 hrewrite
  rcases h with h | h
  · obtain ⟨a, b, hab⟩ := List.append_of_mem h
    refine ⟨a, b ++ ascii "http/" ++ (targetUrl ctx url).drop 7 ++
      tokenQuery r2hToken ((targetUrl ctx url).drop 7), ?_, ?_⟩
    · intro hnil
      have hlen := congrArg List.length hnil
      have h5 : (ascii "http/").length = 5 := rfl
      simp only [length_append, length_nil] at hlen
      omega
    · simp [*]
  · unfold targetUrl at h ⊢
    split at h
    · exact absurd h hurl
    · rename_i hhttp
      rw [if_neg hhttp]
      unfold joined at h ⊢
      have hdrop : (ascii "http://" ++ ctx.authority ++ (if url.head? = some slash then []
          else ctx.upstreamPath.rdropWhile (· ≠ slash)) ++ url).drop 7 =
          ctx.authority ++ (if url.head? = some slash then []
            else ctx.upstreamPath.rdropWhile (· ≠ slash)) ++ url := by
        rw [append_assoc, append_assoc, append_assoc]
        rfl
      rw [hdrop]
      have hmem : lineFeed ∈ ctx.authority ++ (if url.head? = some slash then []
          else ctx.upstreamPath.rdropWhile (· ≠ slash)) := by
        rw [append_assoc, append_assoc, ← append_assoc ctx.authority] at h
        rcases mem_append.1 h with h | h
        · exact absurd h (by decide)
        · exact (mem_append.1 h).resolve_right hurl
      obtain ⟨a, b, hab⟩ := List.append_of_mem hmem
      rw [hab]
      refine ⟨ctx.baseUrl ++ ascii "http/" ++ a, b ++ url ++
        tokenQuery r2hToken (a ++ lineFeed :: b ++ url), ?_, ?_⟩
      · intro hnil
        have hne : url ≠ [] := by
          rintro rfl
          exact absurd hshould (by decide)
        exact hne (append_eq_nil_iff.1 (append_eq_nil_iff.1 hnil).1).2
      · simp only [append_assoc, cons_append]

theorem not_isLine {a b : Bytes} (h : b ≠ []) : ¬ IsLine (a ++ lineFeed :: b) := fun hline => by
  have hsingle := hline.single
  rw [dropLast_append_of_ne_nil (cons_ne_nil _ _), dropLast_cons_of_ne_nil h] at hsingle
  exact hsingle (mem_append_right _ mem_cons_self)

theorem isLine_ending {body : Bytes} (hne : body ≠ []) (hbody : lineFeed ∉ body) (line : Bytes) :
    IsLine (body ++ lineEnding line body) := by
  unfold lineEnding
  split
  · refine ⟨by simp, ?_⟩
    rw [dropLast_concat]
    exact hbody
  · rw [append_nil]
    exact ⟨hne, fun h => hbody ((dropLast_subset _) h)⟩

/-- What stands in the output for a line is a line if and only if no line feed of the context
    gets into it. -/
theorem isLine_outLine (h : IsLine line) : IsLine (outLine r2hToken ctx line) ↔
    ∀ url ∈ lineUrls line, ∀ r, uriRewrite r2hToken ctx url = some r →
      lineFeed ∉ ctx.baseUrl ∧ lineFeed ∉ targetUrl ctx url := by
  have hcopy := lineFeed_not_mem_lineCopy h
  unfold outLine
  rw [rewriteM3uLine_eq]
  constructor
  · intro hline url hurl r hr
    have hany : ((lineUrls line).any fun v => (uriRewrite r2hToken ctx v).isSome) = true :=
      List.any_eq_true.2 ⟨url, hurl, by rw [hr]; rfl⟩
    rw [if_pos hany] at hline
    by_contra hnot
    have hsome : lineFeed ∈ ctx.baseUrl ∨ lineFeed ∈ targetUrl ctx url := by
      tauto
    obtain ⟨a, b, hb, rfl⟩ := lineFeed_inside r2hToken ctx hr
      (fun hmem => hcopy (mem_of_mem_lineUrls hurl hmem)) hsome
    obtain ⟨before, behind, htext⟩ := lineText_infix r2hToken ctx hurl hr
    rw [← htext] at hline
    refine not_isLine (a := before ++ a) (b := b ++ behind ++ lineEnding line
      (before ++ (a ++ lineFeed :: b) ++ behind)) ?_ ?_
    · simp [*]
    · simpa only [append_assoc, cons_append] using hline
  · intro hall
    split
    · rename_i rewritten hrewritten
      rw [ite_none_right_eq_some] at hrewritten
      obtain ⟨hany, htext⟩ := hrewritten
      obtain rfl := some.inj htext
      obtain ⟨url, hurl, hsome⟩ := List.any_eq_true.1 hany
      obtain ⟨r, hr⟩ := isSome_iff_exists.1 hsome
      refine isLine_ending ?_ ?_ line
      · intro hnil
        obtain ⟨before, behind, heq⟩ := lineText_infix r2hToken ctx hurl hr
        rw [hnil] at heq
        have hlen := congrArg List.length heq
        obtain ⟨-, -, rfl⟩ := (uriRewrite_some r2hToken ctx).1 hr
        have h5 : (ascii "http/").length = 5 := rfl
        simp only [length_append, length_nil] at hlen
        omega
      · intro hmem
        rcases mem_lineText r2hToken ctx hmem with hmem | ⟨v, hv, s, hs, hmem⟩
        · exact hcopy hmem
        · obtain ⟨hbase, htarget⟩ := hall v hv s hs
          exact lineFeed_not_mem_rewrite r2hToken ctx hs hbase htarget hmem
    · exact h

/-! ## Lines that should be copied -/

/-- The bytes that are no blanks: every rewriting of a joined URL adds some. -/
def visible (s : Bytes) : ℕ := s.countP fun c => !isSpace c

theorem visible_append (a b : Bytes) : visible (a ++ b) = visible a + visible b := countP_append

theorem visible_blank {s : Bytes} (h : ∀ c ∈ s, isSpace c = true) : visible s = 0 :=
  countP_eq_zero.2 fun c hc => by simp [h c hc]

theorem visible_lineCopy (line : Bytes) : visible (lineCopy line) = visible line := by
  have hsplit := rdropWhile_append_rtakeWhile (p := fun c => c = carriageReturn || c = lineFeed)
    (l := line)
  conv_rhs => rw [← hsplit]
  rw [visible_append]
  have hend : visible (line.rtakeWhile fun c => c = carriageReturn || c = lineFeed) = 0 := by
    refine visible_blank fun c hc => ?_
    have hc' := mem_rtakeWhile_imp hc
    rw [Bool.or_eq_true, decide_eq_true_eq, decide_eq_true_eq] at hc'
    rcases hc' with rfl | rfl <;> decide
  rw [hend]
  rfl

theorem visible_dropWhile (s : Bytes) : visible (s.dropWhile isSpace) = visible s := by
  conv_rhs => rw [← takeWhile_append_dropWhile (p := isSpace) (l := s)]
  rw [visible_append, visible_blank fun c hc => mem_takeWhile_imp hc, Nat.zero_add]

theorem visible_rewrite (hrewrite : uriRewrite r2hToken ctx url = some rewritten)
    (hother : hasPrefixNoCase (ascii "http://") url = false) : visible url < visible rewritten := by
  obtain ⟨-, -, rfl⟩ := (uriRewrite_some r2hToken ctx).1 hrewrite
  have hdrop : (targetUrl ctx url).drop 7 = ctx.authority ++ (if url.head? = some slash then []
      else ctx.upstreamPath.rdropWhile (· ≠ slash)) ++ url := by
    unfold targetUrl joined
    rw [if_neg (by simp [hother]), append_assoc, append_assoc, append_assoc]
    rfl
  have h5 : visible (ascii "http/") = 5 := by decide
  rw [hdrop]
  simp only [visible_append]
  omega

theorem visible_rewrittenLine (h : ∀ url ∈ uriValues line, ∀ r,
    uriRewrite r2hToken ctx url = some r → visible url < visible r) :
    visible line ≤ visible (rewrittenLine r2hToken ctx line) ∧
      ((uriValues line).any (fun v => (uriRewrite r2hToken ctx v).isSome) = true →
        visible line < visible (rewrittenLine r2hToken ctx line)) := by
  generalize hn : line.length = n
  induction n using Nat.strong_induction_on generalizing line with
  | _ n ih =>
    rw [uriValues] at h ⊢
    rw [rewrittenLine]
    split at h
    · exact ⟨Nat.le_refl _, fun hany => by cases hany⟩
    · rename_i p hsplit
      obtain ⟨htext, hlt⟩ := splitUri_text hsplit
      obtain ⟨hle, hlt'⟩ := ih _ (hn ▸ hlt) (fun v hv => h v (mem_cons_of_mem _ hv)) rfl
      have hput : ∀ v, visible (p.put v) = visible p.before + visible p.quotes + visible v +
          visible p.quotes := by
        intro v
        unfold UriParts.put
        simp only [visible_append]
      have hvalue := h p.value mem_cons_self
      rw [any_cons, Bool.or_eq_true, visible_append, hput]
      conv => enter [1, 1]; rw [htext, visible_append, hput]
      conv => enter [2, 2, 1]; rw [htext, visible_append, hput]
      cases hrewrite : uriRewrite r2hToken ctx p.value with
      | none =>
        grind
      | some r =>
        have := hvalue r hrewrite
        rw [getD_some]
        exact ⟨by omega, fun _ => by omega⟩

theorem outLine_ne (hurl : ¬ HasUrl line) (hsome : rewriteM3uLine r2hToken ctx line = some rewritten) :
    outLine r2hToken ctx line ≠ line := by
  have hother : ∀ url ∈ lineUrls line, ∀ r, uriRewrite r2hToken ctx url = some r →
      visible url < visible r := by
    intro url hmem r hr
    refine visible_rewrite r2hToken ctx hr ?_
    by_contra hhttp
    have hprefix := (Bool.not_eq_false _).mp hhttp
    have hne : url ≠ [] := by
      rintro rfl
      cases hr
    exact hurl ⟨url, hmem, hne, (scheme_http hprefix).2⟩
  intro heq
  unfold outLine at heq
  rw [hsome] at heq
  rw [rewriteM3uLine_eq, ite_none_right_eq_some] at hsome
  obtain ⟨hany, htext⟩ := hsome
  obtain rfl := some.inj htext
  have hmore : visible line < visible (lineText r2hToken ctx line) := by
    rw [← visible_lineCopy line]
    unfold lineUrls at hany hother
    unfold lineText
    split at hany
    · rename_i hcomment
      rw [if_pos hcomment] at hother ⊢
      exact (visible_rewrittenLine r2hToken ctx hother).2 hany
    · rename_i hcomment
      rw [if_neg hcomment] at hother ⊢
      split at hany
      · cases hany
      · rename_i hblank
        rw [if_neg hblank] at hother
        rw [any_cons, any_nil, Bool.or_false] at hany
        obtain ⟨r, hr⟩ := isSome_iff_exists.1 hany
        have := hother _ (mem_singleton_self _) r hr
        rw [visible_dropWhile] at this
        rwa [hr, getD_some]
  have hvisible := congrArg visible heq
  rw [visible_append] at hvisible
  omega

end Line

/-! ## Texts -/

section Text

variable {input : Bytes}

theorem rewritable_iff {line : Bytes} : LineOk r2hToken ctx line ↔
    ∀ url ∈ lineUrls line, ∀ r, uriRewrite r2hToken ctx url = some r →
      HasUrl line ∧ lineFeed ∉ ctx.baseUrl ∧ lineFeed ∉ targetUrl ctx url := by
  constructor
  · intro h url hurl r hr
    obtain ⟨hshould, hfits, -⟩ := (uriRewrite_some r2hToken ctx).1 hr
    exact h url hurl hshould hfits
  · intro h url hurl hshould hfits
    exact h url hurl _ ((uriRewrite_some r2hToken ctx).2 ⟨hshould, hfits, rfl⟩)

theorem length_output_iff (input : Bytes) :
    (splitLines ((splitLines input).flatMap (outLine r2hToken ctx))).length =
      (splitLines input).length ↔
        ∀ line ∈ splitLines input, IsLine (outLine r2hToken ctx line) := by
  have hpos : ∀ line ∈ splitLines input, 1 ≤ (splitLines (outLine r2hToken ctx line)).length := by
    intro line hline
    refine length_splitLines_pos fun hnil => ?_
    have hne := (splitLines_isLine hline).nonempty
    unfold outLine at hnil
    cases hrewrite : rewriteM3uLine r2hToken ctx line with
    | none =>
      rw [hrewrite] at hnil
      exact hne hnil
    | some r =>
      rw [hrewrite] at hnil
      rw [rewriteM3uLine_eq, ite_none_right_eq_some] at hrewrite
      obtain ⟨hany, htext⟩ := hrewrite
      obtain ⟨url, hurl, hsome⟩ := List.any_eq_true.1 hany
      obtain ⟨v, hv⟩ := isSome_iff_exists.1 hsome
      obtain ⟨before, behind, heq⟩ := lineText_infix r2hToken ctx hurl hv
      rw [some.inj htext, (append_eq_nil_iff.1 hnil).1] at heq
      obtain ⟨-, -, rfl⟩ := (uriRewrite_some r2hToken ctx).1 hv
      have hlen := congrArg List.length heq
      have h5 : (ascii "http/").length = 5 := rfl
      simp only [length_append, length_nil] at hlen
      omega
  rw [splitLines_output, (length_flatMap_iff _ _ hpos).2]
  refine forall₂_congr fun line _ => ⟨isLine_of_length, fun h => ?_⟩
  rw [splitLines_singleton h]
  rfl

theorem splitLines_output_map (h : ∀ line ∈ splitLines input, IsLine (outLine r2hToken ctx line)) :
    splitLines ((splitLines input).flatMap (outLine r2hToken ctx)) =
      (splitLines input).map (outLine r2hToken ctx) := by
  rw [splitLines_output]
  have hsingle : ∀ lines : List Bytes, (∀ line ∈ lines, IsLine (outLine r2hToken ctx line)) →
      lines.flatMap (fun line => splitLines (outLine r2hToken ctx line)) =
        lines.map (outLine r2hToken ctx) := by
    intro lines
    induction lines with
    | nil => exact fun _ => rfl
    | cons line lines ih =>
      intro hall
      rw [flatMap_cons, map_cons, splitLines_singleton (hall line mem_cons_self),
        ih fun l hl => hall l (mem_cons_of_mem _ hl)]
      rfl
  exact hsingle _ h

theorem outLine_of_none {line : Bytes} (h : rewriteM3uLine r2hToken ctx line = none) :
    outLine r2hToken ctx line = line := by
  unfold outLine
  rw [h]

theorem keepsShape_iff (input : Bytes) :
    KeepsShape r2hToken ctx input ((splitLines input).flatMap (outLine r2hToken ctx)) ↔
      ∀ line ∈ splitLines input, LineOk r2hToken ctx line := by
  constructor
  · intro h line hline
    have hlines := (length_output_iff r2hToken ctx input).1 h.count
    have hmap := splitLines_output_map r2hToken ctx hlines
    refine (rewritable_iff r2hToken ctx).2 fun url hurl r hr => ⟨?_, ?_⟩
    · by_contra hnot
      have hany : ((lineUrls line).any fun v => (uriRewrite r2hToken ctx v).isSome) = true :=
        List.any_eq_true.2 ⟨url, hurl, by rw [hr]; rfl⟩
      have hsome : rewriteM3uLine r2hToken ctx line = some (lineText r2hToken ctx line) := by
        rw [rewriteM3uLine_eq, if_pos hany]
      obtain ⟨i, hi⟩ := mem_iff_getElem?.1 hline
      have hcopied := h.copied i line hi hnot
      rw [hmap, getElem?_map, hi, map_some, Option.some.injEq] at hcopied
      exact outLine_ne r2hToken ctx hnot hsome hcopied
    · exact (isLine_outLine r2hToken ctx (splitLines_isLine hline)).1 (hlines line hline) url hurl r hr
  · intro h
    have hlines : ∀ line ∈ splitLines input, IsLine (outLine r2hToken ctx line) := by
      intro line hline
      refine (isLine_outLine r2hToken ctx (splitLines_isLine hline)).2 fun url hurl r hr => ?_
      exact ((rewritable_iff r2hToken ctx).1 (h line hline) url hurl r hr).2
    have hmap := splitLines_output_map r2hToken ctx hlines
    refine ⟨(length_output_iff r2hToken ctx input).2 hlines, ?_, ?_⟩
    · intro i line hi hnot
      have hnone : rewriteM3uLine r2hToken ctx line = none := by
        rw [rewriteM3uLine_eq]
        refine if_neg fun hany => ?_
        obtain ⟨url, hurl, hsome⟩ := List.any_eq_true.1 hany
        obtain ⟨r, hr⟩ := isSome_iff_exists.1 hsome
        exact hnot ((rewritable_iff r2hToken ctx).1 (h line (mem_of_getElem? hi)) url hurl r hr).1
      rw [hmap, getElem?_map, hi, map_some, outLine_of_none r2hToken ctx hnone]
    · intro i line line' hi hi' hne
      rw [hmap, getElem?_map, hi, map_some, Option.some.injEq] at hi'
      cases hrewrite : rewriteM3uLine r2hToken ctx line with
      | none => exact absurd (hi' ▸ outLine_of_none r2hToken ctx hrewrite) hne
      | some r =>
        refine ⟨r, rfl, ?_⟩
        rw [← hi']
        unfold outLine
        rw [hrewrite]

/-- The attribute loop ends in every line, and the rewriting of a text ends; it writes inside its
    block and keeps the shape of the text if and only if the text is not empty and its lines are
    as in `LineOk`. -/
theorem rewriteM3u_shape_iff (input : Bytes) :
    (∀ line, (uriLoop r2hToken ctx (line.length + 1) ⟨line, 0, false⟩).isSome = true) ∧
    (rewriteM3uContent r2hToken ctx input = none ↔ rewriteMaxBodySize < input.length) ∧
    ((∀ o, rewriteM3uContent r2hToken ctx input = some o →
        (∀ w ∈ o.writes, w.start + w.length ≤ w.blockSize) ∧ KeepsShape r2hToken ctx input o.text) ↔
      rewriteMaxBodySize < input.length ∨
        (input ≠ [] ∧ ∀ line ∈ splitLines input, LineOk r2hToken ctx line)) := by
  refine ⟨fun line => ?_, ?_⟩
  · obtain ⟨offset, hloop⟩ := uriLoop_eq r2hToken ctx line [] false (Nat.lt_succ_self line.length)
    have hstart : uriLoop r2hToken ctx (line.length + 1) ⟨line, 0, false⟩ = _ := hloop
    rw [hstart]
    rfl
  by_cases hmax : rewriteMaxBodySize < input.length
  · have hnone : rewriteM3uContent r2hToken ctx input = none := if_pos hmax
    rw [hnone]
    exact ⟨iff_of_true rfl hmax, iff_of_true (fun o h => by cases h) (.inl hmax)⟩
  by_cases hnil : input = []
  · subst hnil
    have hempty : rewriteM3uContent r2hToken ctx [] = some ⟨0, [], 0, [⟨0, 1, 0⟩]⟩ := rfl
    rw [hempty]
    refine ⟨iff_of_false (fun h => by cases h) hmax, iff_of_false (fun h => ?_) ?_⟩
    · have hwrite := (h _ rfl).1 ⟨0, 1, 0⟩ mem_cons_self
      exact absurd hwrite (by decide)
    · rintro (h | h)
      · exact hmax h
      · exact h.1 rfl
  obtain ⟨o, ho, hinside, htext⟩ := content_text r2hToken ctx (Nat.not_lt.1 hmax) hnil
  rw [ho, or_iff_right hmax, and_iff_right hnil, ← keepsShape_iff]
  refine ⟨iff_of_false (fun h => by cases h) hmax, fun h => htext ▸ (h o rfl).2, ?_⟩
  rintro h o' heq
  obtain rfl := some.inj heq
  exact ⟨hinside, htext ▸ h⟩

end Text

end Shape

/-- An empty text: the NUL is written to a block of no bytes. -/
theorem empty_overrun : ∃ o, rewriteM3uContent [] sessionContext [] = some o ∧
    ¬ ∀ w ∈ o.writes, w.start + w.length ≤ w.blockSize :=
  ⟨_, rfl, fun h => absurd (h ⟨0, 1, 0⟩ mem_cons_self) (by decide)⟩

end Apackage.Rtp2httpd
