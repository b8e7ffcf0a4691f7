import Apackage.Rtp2httpd.Proxy.Resolution

/-
  What the rewriting makes of a line.

  The loop of `rewrite_uri_attributes` searches the line that it has just modified, from behind
  the value that it has just put in. So what it finds are the values of the line as it was
  (`uriValues`), the rest gets shorter in every round, and the loop ends with each value
  rewritten in its place (`uriLoop_eq`).
-/

namespace Apackage.Rtp2httpd

open List Option Lib.UriReference

/-! ## Attributes -/

/-- A line around the value of its first `URI` attribute. -/
structure UriParts where
  before : Bytes
  hasQuotes : Bool
  value : Bytes
  rest : Bytes

def UriParts.quotes (p : UriParts) : Bytes := List.replicate p.hasQuotes.toNat quote

def UriParts.put (p : UriParts) (value : Bytes) : Bytes := p.before ++ p.quotes ++ value ++ p.quotes

def UriAttribute.parts (found : UriAttribute) (line : Bytes) : UriParts where
  before := line.take (found.valueStart - found.hasQuotes.toNat)
  hasQuotes := found.hasQuotes
  value := (line.drop found.valueStart).take (found.valueEnd - found.valueStart)
  rest := line.drop (found.valueEnd + found.hasQuotes.toNat)

def splitUri (line : Bytes) : Option UriParts :=
  (findUriAttribute line).map fun found => found.parts line

theorem uriValue_text {s value : Bytes} {hasQuotes : Bool}
    (h : uriValue s = some (hasQuotes, value)) :
    ∃ rest, s = List.replicate hasQuotes.toNat quote ++ value ++
      List.replicate hasQuotes.toNat quote ++ rest := by
  unfold uriValue at h
  split at h
  · rename_i hquote
    obtain ⟨body, rfl⟩ := head?_eq_some_iff.1 hquote
    rw [drop_one, tail_cons] at h
    split at h
    · rename_i hmem
      obtain ⟨rfl, rfl⟩ := Prod.mk.inj (some.inj h)
      generalize hrest : body.drop (body.takeWhile (· ≠ quote)).length = rest
      rcases rest with _ | ⟨c, rest⟩
      · have hall := scan_nil hrest
        rw [← hall] at hmem
        have := mem_takeWhile_imp hmem
        simp at this
      · obtain ⟨hc, hbody⟩ := scan_cons hrest
        obtain rfl : c = quote := by simpa using hc
        refine ⟨rest, ?_⟩
        conv_lhs => rw [hbody]
        simp
    · cases h
  · dsimp only at h
    split at h
    · cases h
    · obtain ⟨rfl, rfl⟩ := Prod.mk.inj (some.inj h)
      refine ⟨s.dropWhile (! endsUriValue ·), ?_⟩
      simp [takeWhile_append_dropWhile]

theorem findUriFrom_spec {prev : Option UInt8} {i : ℕ} {s : Bytes} {found : UriAttribute}
    (h : findUriFrom prev i s = some found) : ∃ k value, 4 ≤ k ∧ k ≤ s.length ∧
      uriValue (s.drop k) = some (found.hasQuotes, value) ∧
      found.valueStart = i + k + found.hasQuotes.toNat ∧
      found.valueEnd = found.valueStart + value.length := by
  induction s generalizing prev i with
  | nil => cases h
  | cons c rest ih =>
    have hnext : findUriFrom (some c) (i + 1) rest = some found → ∃ k value, 4 ≤ k ∧
        k ≤ (c :: rest).length ∧ uriValue ((c :: rest).drop k) = some (found.hasQuotes, value) ∧
        found.valueStart = i + k + found.hasQuotes.toNat ∧
        found.valueEnd = found.valueStart + value.length := by
      intro h
      obtain ⟨k, value, hk, hle, hvalue, hstart, hend⟩ := ih h
      exact ⟨k + 1, value, by omega, by simpa using hle, hvalue, by omega, hend⟩
    rw [findUriFrom] at h
    split at h
    · rename_i hname
      have hlen := prefixNoCase_length hname.1
      have h4 : (ascii "URI=").length = 4 := rfl
      split at h
      · grind
      · exact hnext h
    · exact hnext h

theorem parts_text {line : Bytes} {found : UriAttribute}
    (h : findUriAttribute line = some found) :
    line = (found.parts line).put (found.parts line).value ++ (found.parts line).rest ∧
      4 ≤ (found.parts line).before.length ∧
      found.valueStart = (found.parts line).before.length + found.hasQuotes.toNat ∧
      found.valueEnd = found.valueStart + (found.parts line).value.length := by
  obtain ⟨k, value, hk, hle, hvalue, hstart, hend⟩ := findUriFrom_spec h
  obtain ⟨rest, hrest⟩ := uriValue_text hvalue
  rw [Nat.zero_add] at hstart
  have hsplit : line = line.take k ++ (List.replicate found.hasQuotes.toNat quote ++ value ++
      List.replicate found.hasQuotes.toNat quote ++ rest) := by
    rw [← hrest, take_append_drop]
  have hlen : (line.take k).length = k := length_take_of_le hle
  have hbefore : line.take (found.valueStart - found.hasQuotes.toNat) = line.take k := by
    rw [hstart, Nat.add_sub_cancel]
  have hvalueEq : (line.drop found.valueStart).take (found.valueEnd - found.valueStart) = value := by
    rw [hend, Nat.add_sub_cancel_left, hstart, ← drop_drop, hrest, append_assoc,
      append_assoc, drop_left' length_replicate, take_left' rfl]
  have hrestEq : line.drop (found.valueEnd + found.hasQuotes.toNat) = rest := by
    have hsum : found.valueEnd + found.hasQuotes.toNat =
        k + (found.hasQuotes.toNat + value.length + found.hasQuotes.toNat) := by omega
    rw [hsum, ← drop_drop, hrest]
    refine drop_left' ?_
    simp only [length_append, length_replicate]
  unfold UriParts.put UriParts.quotes UriAttribute.parts
  rw [hbefore, hvalueEq, hrestEq, hlen]
  refine ⟨?_, hk, hstart, hend⟩
  conv_lhs => rw [hsplit]
  simp only [append_assoc]

theorem splitUri_text {line : Bytes} {p : UriParts} (h : splitUri line = some p) :
    line = p.put p.value ++ p.rest ∧ p.rest.length < line.length := by
  obtain ⟨found, hfound, rfl⟩ := map_eq_some_iff.1 h
  obtain ⟨htext, hbefore, -⟩ := parts_text hfound
  refine ⟨htext, ?_⟩
  have hlen := congrArg List.length htext
  unfold UriParts.put at hlen
  simp only [length_append] at hlen
  omega

def uriValues (line : Bytes) : List Bytes :=
  match _h : splitUri line with
  | none => []
  | some p => p.value :: uriValues p.rest
termination_by line.length
decreasing_by exact (splitUri_text _h).2

/-! ## Values -/

section Lines

variable (r2hToken : Bytes) (ctx : RewriteContext)

/-- What a URL of a playlist is replaced with. -/
def uriRewrite (url : Bytes) : Option Bytes :=
  if shouldRewriteUrl url then rewriteUrlToProxyFormat r2hToken ctx url (httpProxyPathSize * 2)
  else none

/-- The line with each value rewritten that can be. -/
def rewrittenLine (line : Bytes) : Bytes :=
  match _h : splitUri line with
  | none => line
  | some p => p.put ((uriRewrite r2hToken ctx p.value).getD p.value) ++ rewrittenLine p.rest
termination_by line.length
decreasing_by exact (splitUri_text _h).2

theorem uriStep_eq (done line : Bytes) (modified : Bool) :
    uriStep r2hToken ctx ⟨done ++ line, done.length, modified⟩ = (splitUri line).map fun p =>
      ⟨done ++ p.put ((uriRewrite r2hToken ctx p.value).getD p.value) ++ p.rest,
        (done ++ p.put ((uriRewrite r2hToken ctx p.value).getD p.value)).length,
        modified || (uriRewrite r2hToken ctx p.value).isSome⟩ := by
  unfold uriStep splitUri
  rw [drop_left, Option.map_map]
  cases hfound : findUriAttribute line with
  | none => rfl
  | some found =>
    obtain ⟨htext, -, hstart, hend⟩ := parts_text hfound
    have hvalue : ((done ++ line).drop (done.length + found.valueStart)).take
        (done.length + found.valueEnd - (done.length + found.valueStart)) =
          (found.parts line).value := by
      rw [Nat.add_sub_add_left, ← drop_drop, drop_left]
      rfl
    have hquotes : (found.parts line).quotes.length = found.hasQuotes.toNat := length_replicate
    simp only [map_some, Function.comp_apply, hvalue]
    have hpast : (⟨done ++ line, done.length + found.valueEnd + found.hasQuotes.toNat, modified⟩ :
        UriState) = ⟨done ++ (found.parts line).put (found.parts line).value ++
          (found.parts line).rest, (done ++ (found.parts line).put (found.parts line).value).length,
          modified || false⟩ := by
      rw [append_assoc, ← htext, Bool.or_false]
      congr 1
      unfold UriParts.put
      simp only [length_append, hquotes]
      omega
    by_cases hshould : shouldRewriteUrl (found.parts line).value = true
    · cases hrewrite : rewriteUrlToProxyFormat r2hToken ctx (found.parts line).value
        (httpProxyPathSize * 2) with
      | none =>
        have hnone : uriRewrite r2hToken ctx (found.parts line).value = none := by
          unfold uriRewrite
          rw [if_pos hshould, hrewrite]
        rw [if_pos hshould, hnone]
        exact congrArg some hpast
      | some rewritten =>
        have hsome : uriRewrite r2hToken ctx (found.parts line).value = some rewritten := by
          unfold uriRewrite
          rw [if_pos hshould, hrewrite]
        have htake : (done ++ line).take (done.length + found.valueStart - found.hasQuotes.toNat) =
            done ++ (found.parts line).before := by
          have hsub : done.length + found.valueStart - found.hasQuotes.toNat =
              done.length + (found.valueStart - found.hasQuotes.toNat) := by omega
          rw [hsub, take_length_add_append]
          rfl
        have hdrop : (done ++ line).drop (done.length + found.valueEnd + found.hasQuotes.toNat) =
            (found.parts line).rest := by
          rw [Nat.add_assoc, ← drop_drop, drop_left]
          rfl
        rw [if_pos hshould, hsome, htake, hdrop]
        dsimp only
        rw [getD_some, isSome_some, Bool.or_true]
        congr 2
        · unfold UriParts.put UriParts.quotes
          simp only [append_assoc]
          rfl
        · unfold UriParts.put
          simp only [length_append, hquotes]
          omega
    · have hnone : uriRewrite r2hToken ctx (found.parts line).value = none := by
        unfold uriRewrite
        rw [if_neg hshould]
      rw [if_neg hshould, hnone]
      exact congrArg some hpast

/-- The loop ends, with every value rewritten that can be. -/
theorem uriLoop_eq (line done : Bytes) (modified : Bool) {fuel : ℕ} (h : line.length < fuel) :
    ∃ offset, uriLoop r2hToken ctx fuel ⟨done ++ line, done.length, modified⟩ =
      some ⟨done ++ rewrittenLine r2hToken ctx line, offset,
        modified || (uriValues line).any fun v => (uriRewrite r2hToken ctx v).isSome⟩ := by
  induction fuel generalizing line done modified with
  | zero => exact absurd h (Nat.not_lt_zero _)
  | succ fuel ih =>
    rw [uriLoop, uriStep_eq, uriValues, rewrittenLine]
    cases hsplit : splitUri line with
    | none => exact ⟨done.length, by simp⟩
    | some p =>
      have hlt := (splitUri_text hsplit).2
      obtain ⟨offset, hoffset⟩ := ih p.rest
        (done ++ p.put ((uriRewrite r2hToken ctx p.value).getD p.value))
        (modified || (uriRewrite r2hToken ctx p.value).isSome) (by omega)
      refine ⟨offset, ?_⟩
      rw [map_some]
      dsimp only
      rw [hoffset, append_assoc, any_cons, Bool.or_assoc]

theorem rewriteUriAttributes_eq (line : Bytes) : rewriteUriAttributes r2hToken ctx line =
    if (uriValues line).any fun v => (uriRewrite r2hToken ctx v).isSome then
      some (rewrittenLine r2hToken ctx line)
    else none := by
  obtain ⟨offset, hloop⟩ := uriLoop_eq r2hToken ctx line [] false (Nat.lt_succ_self line.length)
  have hstart : uriLoop r2hToken ctx (line.length + 1) ⟨line, 0, false⟩ = _ := hloop
  unfold rewriteUriAttributes
  rw [hstart]
  simp only [nil_append, Bool.false_or]

/-! ## Lines -/

/-- The URLs that the rewriting looks at in a line. -/
def lineUrls (line : Bytes) : List Bytes :=
  if isCommentLine (lineCopy line) then uriValues (lineCopy line)
  else if (lineCopy line).dropWhile isSpace = [] then []
  else [(lineCopy line).dropWhile isSpace]

/-- The line with every URL rewritten that can be; a URL line loses its blanks. -/
def lineText (line : Bytes) : Bytes :=
  if isCommentLine (lineCopy line) then rewrittenLine r2hToken ctx (lineCopy line)
  else (uriRewrite r2hToken ctx ((lineCopy line).dropWhile isSpace)).getD []

theorem uriRewrite_nil : uriRewrite r2hToken ctx [] = none := rfl

theorem rewriteM3uLine_eq (line : Bytes) : rewriteM3uLine r2hToken ctx line =
    if (lineUrls line).any fun v => (uriRewrite r2hToken ctx v).isSome then
      some (lineText r2hToken ctx line)
    else none := by
  have hurl : ∀ url, uriRewrite r2hToken ctx url = if (uriRewrite r2hToken ctx url).isSome then
        some ((uriRewrite r2hToken ctx url).getD [])
      else none := by
    intro url
    cases uriRewrite r2hToken ctx url <;> rfl
  by_cases hnil : line = []
  · subst hnil
    rfl
  unfold rewriteM3uLine lineUrls lineText
  rw [if_neg hnil]
  by_cases hcomment : isCommentLine (lineCopy line) = true
  · simp only [if_pos hcomment]
    exact rewriteUriAttributes_eq r2hToken ctx _
  · simp only [if_neg hcomment]
    by_cases hcopy : lineCopy line = []
    · simp [hcopy]
    · rw [if_neg hcopy]
      have hdef : (if shouldRewriteUrl ((lineCopy line).dropWhile isSpace) = true then
          rewriteUrlToProxyFormat r2hToken ctx ((lineCopy line).dropWhile isSpace)
            (httpProxyPathSize * 2) else none) =
          uriRewrite r2hToken ctx ((lineCopy line).dropWhile isSpace) := rfl
      rw [hdef]
      by_cases hblank : (lineCopy line).dropWhile isSpace = []
      · simp [hblank, uriRewrite_nil]
      · rw [if_neg hblank, any_cons, any_nil, Bool.or_false]
        exact hurl _

/-- The URL that is given its proxy form. -/
def targetUrl (url : Bytes) : Bytes :=
  if hasPrefixNoCase (ascii "http://") url then url else joined ctx url

theorem uriRewrite_some {url rewritten : Bytes} :
    uriRewrite r2hToken ctx url = some rewritten ↔ shouldRewriteUrl url = true ∧
      ¬ Overflows r2hToken ctx (httpProxyPathSize * 2) (targetUrl ctx url) ∧
      ctx.baseUrl ++ ascii "http/" ++ (targetUrl ctx url).drop 7 ++
        tokenQuery r2hToken ((targetUrl ctx url).drop 7) = rewritten := by
  unfold uriRewrite
  rw [ite_none_right_eq_some]
  refine and_congr_right fun hshould => ?_
  unfold shouldRewriteUrl at hshould
  rw [Bool.and_eq_true, decide_eq_true_eq, Bool.not_eq_true'] at hshould
  unfold targetUrl
  by_cases hhttp : hasPrefixNoCase (ascii "http://") url = true
  · rw [if_pos hhttp, rewrite_http ctx r2hToken _ hhttp]
    exact buildWithin_some r2hToken ctx _ rewritten hhttp
  · rw [if_neg hhttp, rewrite_joined ctx r2hToken hshould.1 _ hshould.2 (by simpa using hhttp)]
    exact buildWithin_some r2hToken ctx _ rewritten (joined_http ctx url)

end Lines

/-! ## Texts as lines -/

section SplitLines

variable {text a b l : Bytes}

/-- A line: a line feed at its end or none, but not nothing. -/
structure IsLine (l : Bytes) : Prop where
  nonempty : l ≠ []
  single : lineFeed ∉ l.dropLast

theorem splitLines_flatten (text : Bytes) : (splitLines text).flatten = text := by
  induction text with
  | nil => rfl
  | cons c rest ih =>
    rw [splitLines]
    split
    · rw [flatten_cons, ih]
      rfl
    · cases hrest : splitLines rest with
      | nil =>
        rw [hrest] at ih
        rw [← ih]
        rfl
      | cons line lines =>
        rw [hrest] at ih
        rw [← ih]
        rfl

theorem splitLines_isLine (h : l ∈ splitLines text) : IsLine l := by
  induction text generalizing l with
  | nil => cases h
  | cons c rest ih =>
    rw [splitLines] at h
    split at h
    · rcases List.mem_cons.1 h with rfl | h
      · exact ⟨cons_ne_nil _ _, by simp⟩
      · exact ih h
    · rename_i hc
      cases hrest : splitLines rest with
      | nil =>
        rw [hrest] at h
        rw [mem_singleton.1 h]
        exact ⟨cons_ne_nil _ _, by simp⟩
      | cons line lines =>
        rw [hrest] at h ih
        rcases List.mem_cons.1 h with rfl | h
        · have hline := ih mem_cons_self
          refine ⟨cons_ne_nil _ _, ?_⟩
          rw [dropLast_cons_of_ne_nil hline.nonempty, List.mem_cons, not_or]
          exact ⟨Ne.symm hc, hline.single⟩
        · exact ih (mem_cons_of_mem _ h)

theorem splitLines_append (h : a.getLast? = some lineFeed) :
    splitLines (a ++ b) = splitLines a ++ splitLines b := by
  induction a with
  | nil => cases h
  | cons c rest ih =>
    rw [cons_append, splitLines, splitLines]
    rcases rest with _ | ⟨d, rest⟩
    · obtain rfl : c = lineFeed := some.inj h
      rfl
    · rw [ih h]
      split
      · rfl
      · cases hrest : splitLines (d :: rest) with
        | nil =>
          have hnil := splitLines_flatten (d :: rest)
          rw [hrest] at hnil
          cases hnil
        | cons line lines => rfl

theorem splitLines_singleton (h : IsLine l) : splitLines l = [l] := by
  induction l with
  | nil => exact absurd rfl h.nonempty
  | cons c rest ih =>
    rw [splitLines]
    rcases rest with _ | ⟨d, rest⟩
    · split <;> rfl
    · have hsingle := h.single
      rw [dropLast_cons_of_ne_nil (cons_ne_nil _ _), List.mem_cons, not_or] at hsingle
      rw [if_neg (Ne.symm hsingle.1), ih ⟨cons_ne_nil _ _, hsingle.2⟩]

theorem length_splitLines_pos (h : l ≠ []) : 1 ≤ (splitLines l).length := by
  rw [Nat.one_le_iff_ne_zero, ne_eq, length_eq_zero_iff]
  intro hnil
  have := splitLines_flatten l
  rw [hnil] at this
  exact h this.symm

theorem isLine_of_length (h : (splitLines l).length = 1) : IsLine l := by
  obtain ⟨line, hline⟩ := length_eq_one_iff.1 h
  have hflatten := splitLines_flatten l
  rw [hline, flatten_singleton] at hflatten
  rw [← hflatten]
  exact splitLines_isLine (hline ▸ mem_cons_self)

theorem splitLines_getLast {init : List Bytes} {last : Bytes} (h : splitLines text = init ++ [last]) :
    ∀ l ∈ init, l.getLast? = some lineFeed := by
  induction text generalizing init with
  | nil =>
    have hlen := congrArg List.length h
    rw [length_append, length_singleton] at hlen
    cases hlen
  | cons c rest ih =>
    rw [splitLines] at h
    rcases init with _ | ⟨first, init⟩
    · simp
    split at h
    · rename_i hc
      obtain ⟨rfl, hrest⟩ := cons_eq_cons.1 h
      intro l hl
      rcases List.mem_cons.1 hl with rfl | hl
      · rw [hc]
        rfl
      · exact ih hrest l hl
    · cases hrest : splitLines rest with
      | nil =>
        rw [hrest] at h
        have hnil := (cons_eq_cons.1 h).2
        simp at hnil
      | cons line lines =>
        rw [hrest] at h ih
        obtain ⟨rfl, rfl⟩ := cons_eq_cons.1 h
        have hall : ∀ l ∈ line :: init, l.getLast? = some lineFeed := ih rfl
        intro l hl
        rcases List.mem_cons.1 hl with rfl | hl
        · have hline := hall line mem_cons_self
          rw [getLast?_cons, hline]
          rfl
        · exact hall l (mem_cons_of_mem _ hl)

end SplitLines

end Apackage.Rtp2httpd
