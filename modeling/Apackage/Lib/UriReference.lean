import Mathlib.Data.List.DropRight
import Mathlib.Data.List.TakeWhile

/-
  URI references (RFC 3986): their components, recomposition and resolution.

  `parse` splits a reference at the delimiters (section 3), `recompose` puts the components together
  again (5.3), and `resolve` transforms a reference with a base (5.2.2). Dot segments are left as
  they stand. A reference is the text of its components (`recompose_parse`), so what resolution
  makes of a relative one is the text of the base up to some component and the reference as it
  stands: up to the scheme for `//`, to the authority for `/`, to the path for `?`, to the query for
  `#`, and to the last slash of the path for any other.
-/

namespace Apackage.Lib.UriReference

open List Option

def colonByte : UInt8 := 0x3A
def slashByte : UInt8 := 0x2F
def questionByte : UInt8 := 0x3F
def hashByte : UInt8 := 0x23

structure Reference where
  scheme : Option (List UInt8)
  authority : Option (List UInt8)
  path : List UInt8
  query : Option (List UInt8)
  fragment : Option (List UInt8)

/-! ## Components -/

def isAlpha (c : UInt8) : Bool := (0x41 ≤ c && c ≤ 0x5A) || (0x61 ≤ c && c ≤ 0x7A)

/-- A letter, a digit, `+`, `-` or `.`. -/
def schemeByte (c : UInt8) : Bool :=
  isAlpha c || (0x30 ≤ c && c ≤ 0x39) || c = 0x2B || c = 0x2D || c = 0x2E

/-- The text up to the first colon, if it is the name of a scheme. -/
def schemeOf (s : List UInt8) : Option (List UInt8) :=
  if s.head?.any isAlpha ∧ (s.dropWhile schemeByte).head? = some colonByte then
    some (s.takeWhile schemeByte)
  else none

def afterScheme (s : List UInt8) : List UInt8 :=
  if (schemeOf s).isSome then (s.dropWhile schemeByte).drop 1 else s

def authorityByte (c : UInt8) : Bool := c ≠ slashByte ∧ c ≠ questionByte ∧ c ≠ hashByte

/-- What stands between `//` and the path. -/
def authorityOf (s : List UInt8) : Option (List UInt8) :=
  if [slashByte, slashByte] <+: s then some ((s.drop 2).takeWhile authorityByte) else none

def afterAuthority (s : List UInt8) : List UInt8 :=
  if (authorityOf s).isSome then (s.drop 2).dropWhile authorityByte else s

def pathByte (c : UInt8) : Bool := c ≠ questionByte ∧ c ≠ hashByte

def queryPart (s : List UInt8) : Option (List UInt8) :=
  if s.head? = some questionByte then some ((s.drop 1).takeWhile (· ≠ hashByte)) else none

def afterQuery (s : List UInt8) : List UInt8 :=
  if (queryPart s).isSome then (s.drop 1).dropWhile (· ≠ hashByte) else s

def fragmentPart (s : List UInt8) : Option (List UInt8) :=
  if s.head? = some hashByte then some (s.drop 1) else none

def parse (s : List UInt8) : Reference :=
  let rest := afterAuthority (afterScheme s)
  let tail := rest.dropWhile pathByte
  ⟨schemeOf s, authorityOf (afterScheme s), rest.takeWhile pathByte, queryPart tail,
    fragmentPart (afterQuery tail)⟩

def schemeText (scheme : Option (List UInt8)) : List UInt8 := scheme.elim [] (· ++ [colonByte])

def authorityText (authority : Option (List UInt8)) : List UInt8 :=
  authority.elim [] (slashByte :: slashByte :: ·)

def queryText (query : Option (List UInt8)) : List UInt8 := query.elim [] (questionByte :: ·)

def fragmentText (fragment : Option (List UInt8)) : List UInt8 := fragment.elim [] (hashByte :: ·)

def recompose (r : Reference) : List UInt8 :=
  schemeText r.scheme ++ authorityText r.authority ++ r.path ++ queryText r.query ++
    fragmentText r.fragment

/-! ## Resolution -/

/-- A path up to its last slash. -/
def directoryOf (path : List UInt8) : List UInt8 := path.rdropWhile (· ≠ slashByte)

/-- The merging of paths (5.2.3). -/
def merge (base : Reference) (path : List UInt8) : List UInt8 :=
  if base.authority.isSome ∧ base.path = [] then slashByte :: path
  else directoryOf base.path ++ path

def resolve (base r : Reference) : Reference :=
  if r.scheme.isSome then r
  else if r.authority.isSome then { r with scheme := base.scheme }
  else if r.path = [] then
    { base with query := r.query <|> base.query, fragment := r.fragment }
  else if r.path.head? = some slashByte then
    { r with scheme := base.scheme, authority := base.authority }
  else { r with scheme := base.scheme, authority := base.authority, path := merge base r.path }

/-! ## The text of a reference -/

section Text

variable {s : List UInt8}

theorem scheme_text (s : List UInt8) : schemeText (schemeOf s) ++ afterScheme s = s := by
  unfold afterScheme schemeOf
  split
  · rename_i h
    obtain ⟨rest, hrest⟩ := head?_eq_some_iff.1 h.2
    rw [isSome_some, if_pos rfl, hrest]
    show s.takeWhile schemeByte ++ [colonByte] ++ rest = s
    rw [append_assoc, singleton_append, ← hrest, takeWhile_append_dropWhile]
  · rfl

theorem authority_text (s : List UInt8) :
    authorityText (authorityOf s) ++ afterAuthority s = s := by
  unfold afterAuthority authorityOf
  split
  · rename_i h
    obtain ⟨rest, rfl⟩ := h
    rw [isSome_some, if_pos rfl]
    show slashByte :: slashByte :: (rest.takeWhile authorityByte ++ rest.dropWhile authorityByte) = _
    rw [takeWhile_append_dropWhile]
    rfl
  · rfl

theorem query_text (s : List UInt8) : queryText (queryPart s) ++ afterQuery s = s := by
  unfold afterQuery queryPart
  split
  · rename_i h
    obtain ⟨rest, rfl⟩ := head?_eq_some_iff.1 h
    rw [isSome_some, if_pos rfl]
    show questionByte :: (rest.takeWhile _ ++ rest.dropWhile _) = _
    rw [takeWhile_append_dropWhile]
  · rfl

theorem dropWhile_head {p : UInt8 → Bool} {c : UInt8} (h : (s.dropWhile p).head? = some c) :
    p c = false := by
  have hnot := head?_dropWhile_not p s
  rw [h] at hnot
  simpa using hnot

theorem fragment_text (h : s = [] ∨ s.head? = some hashByte) : fragmentText (fragmentPart s) = s := by
  rcases h with rfl | h
  · rfl
  · obtain ⟨rest, rfl⟩ := head?_eq_some_iff.1 h
    rfl

/-- Behind the path stand a query and a fragment only. -/
theorem tail_text (s : List UInt8) : queryText (queryPart (s.dropWhile pathByte)) ++
      fragmentText (fragmentPart (afterQuery (s.dropWhile pathByte))) = s.dropWhile pathByte := by
  have hend : afterQuery (s.dropWhile pathByte) = [] ∨
      (afterQuery (s.dropWhile pathByte)).head? = some hashByte := by
    unfold afterQuery
    split
    · generalize hrest : ((s.dropWhile pathByte).drop 1).dropWhile (· ≠ hashByte) = rest
      rcases rest with _ | ⟨c, rest⟩
      · exact .inl rfl
      · right
        have hc := dropWhile_head (c := c) (by rw [hrest]; rfl)
        simpa using hc
    · rename_i hquery
      generalize hrest : s.dropWhile pathByte = rest at hquery
      rcases rest with _ | ⟨c, rest⟩
      · exact .inl rfl
      · right
        have hc := dropWhile_head (p := pathByte) (s := s) (c := c) (by rw [hrest]; rfl)
        have hne : c ≠ questionByte := by
          rintro rfl
          exact hquery rfl
        unfold pathByte at hc
        simpa [hne] using hc
  rw [fragment_text hend, query_text]

theorem rest_text (s : List UInt8) :
    (parse s).path ++ queryText (parse s).query ++ fragmentText (parse s).fragment =
      afterAuthority (afterScheme s) := by
  show _ ++ queryText (queryPart _) ++ fragmentText (fragmentPart _) = _
  rw [append_assoc, tail_text]
  exact takeWhile_append_dropWhile

/-- A reference is the text of its components. -/
theorem recompose_parse (s : List UInt8) : recompose (parse s) = s := by
  unfold recompose
  have hrest := rest_text s
  rw [append_assoc] at hrest
  rw [append_assoc, append_assoc, hrest, append_assoc]
  show schemeText (schemeOf s) ++ (authorityText (authorityOf _) ++ _) = s
  rw [authority_text, scheme_text]

end Text

/-! ## The text of a resolved reference -/

section Resolve

variable {base : Reference} {s : List UInt8}

theorem resolve_scheme (h : (schemeOf s).isSome) : recompose (resolve base (parse s)) = s := by
  have hscheme : (parse s).scheme.isSome := h
  unfold resolve
  rw [if_pos hscheme, recompose_parse]

variable (hnone : schemeOf s = none)

include hnone

theorem afterScheme_none : afterScheme s = s := by
  unfold afterScheme
  rw [hnone]
  rfl

/-- `//host/path`. -/
theorem resolve_network (h : [slashByte, slashByte] <+: s) :
    recompose (resolve base (parse s)) = schemeText base.scheme ++ s := by
  have hscheme : ¬ (parse s).scheme.isSome := by
    show ¬ (schemeOf s).isSome
    simp [hnone]
  have hauthority : (parse s).authority.isSome := by
    show (authorityOf (afterScheme s)).isSome
    unfold authorityOf
    rw [afterScheme_none hnone, if_pos h]
    rfl
  have htext := recompose_parse s
  unfold resolve
  rw [if_neg hscheme, if_pos hauthority]
  unfold recompose at htext ⊢
  have hempty : schemeText (parse s).scheme = [] := by
    show schemeText (schemeOf s) = []
    rw [hnone]
    rfl
  rw [hempty, nil_append] at htext
  simp only [append_assoc] at htext ⊢
  rw [htext]

variable (hhost : ¬ [slashByte, slashByte] <+: s)

include hhost

omit hnone in
theorem authorityOf_none : authorityOf s = none := if_neg hhost

theorem relative_text :
    (parse s).path ++ queryText (parse s).query ++ fragmentText (parse s).fragment = s := by
  rw [rest_text, afterScheme_none hnone]
  unfold afterAuthority
  rw [authorityOf_none hhost]
  rfl

theorem resolve_of_none : resolve base (parse s) = if (parse s).path = [] then
      { base with query := (parse s).query <|> base.query, fragment := (parse s).fragment }
    else if (parse s).path.head? = some slashByte then
      { parse s with scheme := base.scheme, authority := base.authority }
    else
      { parse s with
        scheme := base.scheme, authority := base.authority, path := merge base (parse s).path } := by
  have hscheme : ¬ (parse s).scheme.isSome := by
    show ¬ (schemeOf s).isSome
    simp [hnone]
  have hauthority : ¬ (parse s).authority.isSome := by
    show ¬ (authorityOf (afterScheme s)).isSome
    rw [afterScheme_none hnone, authorityOf_none hhost]
    exact Bool.false_ne_true
  unfold resolve
  rw [if_neg hscheme, if_neg hauthority]

theorem path_eq : (parse s).path = s.takeWhile pathByte := by
  show (afterAuthority (afterScheme s)).takeWhile pathByte = _
  rw [afterScheme_none hnone]
  unfold afterAuthority
  rw [authorityOf_none hhost]
  rfl

theorem query_eq : (parse s).query = queryPart (s.dropWhile pathByte) := by
  show queryPart ((afterAuthority (afterScheme s)).dropWhile pathByte) = _
  rw [afterScheme_none hnone]
  unfold afterAuthority
  rw [authorityOf_none hhost]
  rfl

/-- `/path`. -/
theorem resolve_absolute (h : s.head? = some slashByte) : recompose (resolve base (parse s)) =
    schemeText base.scheme ++ authorityText base.authority ++ s := by
  obtain ⟨rest, rfl⟩ := head?_eq_some_iff.1 h
  have hpath : (parse (slashByte :: rest)).path = slashByte :: rest.takeWhile pathByte := by
    rw [path_eq hnone hhost]
    rfl
  have htext := relative_text hnone hhost
  rw [resolve_of_none hnone hhost, if_neg (by rw [hpath]; exact cons_ne_nil _ _),
    if_pos (by rw [hpath]; rfl)]
  unfold recompose
  simp only [append_assoc] at htext ⊢
  rw [htext]

/-- `?query`. -/
theorem resolve_query (h : s.head? = some questionByte) : recompose (resolve base (parse s)) =
    schemeText base.scheme ++ authorityText base.authority ++ base.path ++ s := by
  obtain ⟨rest, rfl⟩ := head?_eq_some_iff.1 h
  have hpath : (parse (questionByte :: rest)).path = [] := path_eq hnone hhost
  have htext := relative_text hnone hhost
  have hquery : ((parse (questionByte :: rest)).query <|> base.query) =
      (parse (questionByte :: rest)).query := by
    rw [query_eq hnone hhost]
    rfl
  rw [hpath, nil_append] at htext
  rw [resolve_of_none hnone hhost, if_pos hpath, hquery]
  unfold recompose
  simp only [append_assoc]
  rw [htext]

/-- `#fragment`. -/
theorem resolve_fragment (h : s.head? = some hashByte) : recompose (resolve base (parse s)) =
    schemeText base.scheme ++ authorityText base.authority ++ base.path ++
      queryText base.query ++ s := by
  obtain ⟨rest, rfl⟩ := head?_eq_some_iff.1 h
  have hpath : (parse (hashByte :: rest)).path = [] := path_eq hnone hhost
  have htext := relative_text hnone hhost
  have hquery : (parse (hashByte :: rest)).query = none := by
    rw [query_eq hnone hhost]
    rfl
  rw [hpath, hquery] at htext
  have htext' : fragmentText (parse (hashByte :: rest)).fragment = hashByte :: rest := htext
  rw [resolve_of_none hnone hhost, if_pos hpath, hquery]
  unfold recompose
  rw [htext']
  rfl

/-- `path`. -/
theorem resolve_relative (hauthority : base.authority.isSome → base.path ≠ [])
    (hne : s ≠ []) (h : s.head? ≠ some slashByte) (h' : s.head? ≠ some questionByte)
    (h'' : s.head? ≠ some hashByte) : recompose (resolve base (parse s)) =
      schemeText base.scheme ++ authorityText base.authority ++ directoryOf base.path ++ s := by
  obtain ⟨c, rest, rfl⟩ := exists_cons_of_ne_nil hne
  have hbyte : pathByte c = true := by
    unfold pathByte
    have h1 : c ≠ questionByte := fun heq => h' (congrArg some heq)
    have h2 : c ≠ hashByte := fun heq => h'' (congrArg some heq)
    simp [h1, h2]
  have hpath : (parse (c :: rest)).path = c :: rest.takeWhile pathByte := by
    rw [path_eq hnone hhost, takeWhile_cons_of_pos hbyte]
  have htext := relative_text hnone hhost
  have hmerge : merge base (parse (c :: rest)).path =
      directoryOf base.path ++ (parse (c :: rest)).path := if_neg fun hb => hauthority hb.1 hb.2
  rw [resolve_of_none hnone hhost, if_neg (by rw [hpath]; exact cons_ne_nil _ _),
    if_neg (by rw [hpath]; exact h), hmerge]
  unfold recompose
  simp only [append_assoc] at htext ⊢
  rw [htext]

end Resolve

end Apackage.Lib.UriReference
