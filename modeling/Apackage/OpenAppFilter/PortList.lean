import Apackage.Lib.Digits
import Apackage.Lib.Trimming
import Apackage.OpenAppFilter.UrlAutomaton

/-
  Port lists (`parse_port_info` and `af_match_port` in `fwx_main.c`).

  A list of ports and ranges means what its valid items say (`Accepts`). The code reads an item with
  `sscanf`, which wants the dash right behind the first number and ignores what follows the last,
  and it never looks for a `|` in the first place of the list.

  Model. A string is the list of its bytes before the zero. The buffers for an item have 128 bytes
  and the list has 5 entries; a write outside them is none. What an item that fails leaves in its
  entry is left out: the next item writes all of it.
-/

namespace Apackage.OpenAppFilter.PortList

open List Option Lib.Digits Lib.Trimming

abbrev Text := List UInt8

/-! ## The code -/

def isspace (c : UInt8) : Bool := (9 ≤ c && c ≤ 13) || c == 32 || c == 160

def isdigit (c : UInt8) : Bool := '0'.toUInt8 ≤ c && c ≤ '9'.toUInt8

def kTrim (s : Text) : Text := trim isspace s

def validateRangeValue (rangeStr : Text) : Bool :=
  rangeStr.all fun c => c == ' '.toUInt8 || c == '!'.toUInt8 || c == '-'.toUInt8 || isdigit c

def decimal (digits : Text) : ℕ := value 10 (digits.map fun c => c.toNat - 48)

def toInt (v : ℤ) : ℤ := Int.bmod v (2 ^ 32)

/-- What `%d` reads, and what stands behind it. -/
def scanInt (s : Text) : Option (ℤ × Text) :=
  let s := s.dropWhile isspace
  let negative := s.head? == some '-'.toUInt8
  let s := if negative then s.tail else s
  let digits := s.takeWhile isdigit
  if digits = [] then none
  else
    let v : ℤ := decimal digits
    some (toInt (if negative then -v else v), s.dropWhile isdigit)

/-- `sscanf` with `"%d-%d"` for a text with a dash, and with `"%d"` for one without. -/
def sscanf (pureRange : Text) : Option (ℤ × ℤ) :=
  if '-'.toUInt8 ∈ pureRange then
    match scanInt pureRange with
    | none => none
    | some (start, rest) =>
      if rest.head? = some '-'.toUInt8 then (scanInt rest.tail).map fun stop => (start, stop.1)
      else none
  else (scanInt pureRange).map fun start => (start.1, start.1)

/-- `parse_range_value`; none for its -1. -/
def parseRangeValue (rangeStr : Text) : Option RangeValue :=
  if !validateRangeValue rangeStr then none
  else
    let rangeStr := kTrim rangeStr
    let not := rangeStr.head? == some '!'.toUInt8
    let pureRange := if not then rangeStr.tail else rangeStr
    (sscanf (kTrim pureRange)).map fun range => ⟨not, range.1, range.2⟩

/-- The loop of `parse_port_info`, with the text since `begin`. -/
def piecesFrom (begun : Text) : Text → List Text
  | [] => [begun]
  | c :: rest =>
    if c = '|'.toUInt8 then begun :: piecesFrom [] rest else piecesFrom (begun ++ [c]) rest

/-- The texts that are copied to `one_port_buf`; the first character is not compared. -/
def pieces : Text → List Text
  | [] => []
  | c :: rest => piecesFrom [c] rest

/-- The entries after more pieces. An item that is not rejected at once writes to the next entry. -/
def parsePieces (entries : List RangeValue) : List Text → Option (List RangeValue)
  | [] => some entries
  | piece :: pieces =>
    if 128 ≤ piece.length then none
    else if validateRangeValue piece ∧ 5 ≤ entries.length then none
    else parsePieces (entries ++ (parseRangeValue piece).toList) pieces

/-- `parse_port_info`: the entries of a list that was empty. -/
def parsePortInfo (portStr : Text) : Option (List RangeValue) :=
  parsePieces [] (pieces (kTrim portStr))

/-! ## What a list says -/

/-- An item without the blanks around it. -/
def negated (item : Text) : Bool := (kTrim item).head? == some '!'.toUInt8

/-- The port or range of an item. -/
def body (item : Text) : Text := kTrim (if negated item then (kTrim item).tail else kTrim item)

/-- The entry that a valid item stands for: a number, or two with a dash between them. -/
def entryOf (item : Text) : Option RangeValue :=
  let lo := (body item).takeWhile isdigit
  let rest := ((body item).dropWhile isdigit).dropWhile isspace
  let hi := rest.tail.dropWhile isspace
  if lo = [] then none
  else if rest = [] then some ⟨negated item, decimal lo, decimal lo⟩
  else if rest.head? = some '-'.toUInt8 ∧ hi ≠ [] ∧ hi.all isdigit then
    some ⟨negated item, decimal lo, decimal hi⟩
  else none

def Accepts (entries : List RangeValue) (port : ℤ) : Prop :=
  entries = [] ∨ ((∀ e ∈ entries, e.not = false) ∧ ∃ e ∈ entries, e.has port = true) ∨
    ((∃ e ∈ entries, e.not = true) ∧ ∀ e ∈ entries, e.not = true → e.has port = false)

/-- The items, written with a bar between them. -/
def join (items : List Text) : Text := ['|'.toUInt8].intercalate items

/-- The code takes a list for what its valid items say. -/
def Right (items : List Text) : Prop :=
  ∃ entries, parsePortInfo (join items) = some entries ∧ ∀ port : ℤ, 0 ≤ port → port < 65536 →
      (afMatchPort entries port = true ↔ Accepts (items.filterMap entryOf) port)

/-! ## Items that are read as they say -/

def behindNumber (s : Text) : Option Text :=
  let s := s.dropWhile isspace
  let s := if s.head? == some '-'.toUInt8 then s.tail else s
  if s.takeWhile isdigit = [] then none else some (s.dropWhile isdigit)

/-- The text begins with a number, or with two and a dash right behind the first if it has a
    dash. -/
def Begins (text : Text) : Prop :=
  if '-'.toUInt8 ∈ text then
    ∃ rest, behindNumber text = some ('-'.toUInt8 :: rest) ∧ (behindNumber rest).isSome
  else (behindNumber text).isSome

/-- The two entries have the same ports. -/
def SamePorts (e e' : RangeValue) : Prop :=
  ∀ port : ℤ, 0 ≤ port → port < 65536 → (e.has port = true ↔ e'.has port = true)

/-- White space right behind the number with which the item begins. -/
def blankBehind (item : Text) : Bool := ((body item).dropWhile isdigit).head?.any isspace

/-- An item fits its buffer and has no white space but blanks. If it is valid, no blank stands
    between its first number and the dash, and its numbers may be taken modulo 2 ^ 32; if it is not,
    it has a character that no item has, or does not begin like one. -/
structure Plain (item : Text) : Prop where
  short : item.length < 128
  blanks : ∀ c ∈ item, isspace c = true → c = ' '.toUInt8
  valid : ∀ e, entryOf item = some e →
    blankBehind item = false ∧ SamePorts ⟨e.not, toInt e.start, toInt e.stop⟩ e
  invalid : entryOf item = none → ¬ (validateRangeValue item = true ∧ Begins (body item))

/-! ## Items -/

theorem parseRangeValue_append {pre post : Text} (hpre : ∀ c ∈ pre, c = ' '.toUInt8)
    (hpost : ∀ c ∈ post, c = ' '.toUInt8) (s : Text) :
    parseRangeValue (pre ++ (s ++ post)) = parseRangeValue s := by
  have hspace : isspace ' '.toUInt8 = true := by decide
  have htrim : kTrim (pre ++ (s ++ post)) = kTrim s :=
    trim_append (fun c hc => by rw [hpre c hc]; exact hspace)
      (fun c hc => by rw [hpost c hc]; exact hspace) s
  have hall {t : Text} (ht : ∀ c ∈ t, c = ' '.toUInt8) : validateRangeValue t = true :=
    List.all_eq_true.2 fun c hc => by rw [ht c hc]; rfl
  have hvalidate : validateRangeValue (pre ++ (s ++ post)) = validateRangeValue s := by
    have h1 := hall hpre
    have h2 := hall hpost
    unfold validateRangeValue at h1 h2 ⊢
    rw [all_append, all_append, h1, h2, Bool.true_and, Bool.and_true]
  unfold parseRangeValue
  rw [hvalidate, htrim]

theorem parseRangeValue_eq (item : Text) : parseRangeValue item = if validateRangeValue item then
      (sscanf (body item)).map fun range => ⟨negated item, range.1, range.2⟩ else none := by
  unfold parseRangeValue
  cases validateRangeValue item <;> rfl

theorem takeWhile_eq_self_of_all {s : Text} (h : s.all isdigit = true) :
    s.takeWhile isdigit = s ∧ s.dropWhile isdigit = [] := by
  rw [List.all_eq_true] at h
  exact ⟨takeWhile_eq_self_iff.2 h, dropWhile_eq_nil_iff.2 h⟩

theorem not_isspace_of_isdigit {c : UInt8} (h : isdigit c = true) :
    isspace c = false ∧ (c == '-'.toUInt8) = false := by
  unfold isdigit at h
  unfold isspace
  rw [Bool.and_eq_true, decide_eq_true_iff, decide_eq_true_iff, UInt8.le_iff_toNat_le,
    UInt8.le_iff_toNat_le] at h
  have h1 : '0'.toUInt8.toNat = 48 := by decide
  have h2 : '9'.toUInt8.toNat = 57 := by decide
  have hne (k : UInt8) (hk : k.toNat < 48 ∨ 57 < k.toNat) : (c == k) = false := by
    rw [beq_eq_false_iff_ne]
    rintro rfl
    omega
  constructor
  · have hle : (c ≤ 13) = False := by
      rw [eq_iff_iff, iff_false, UInt8.le_iff_toNat_le]
      have : (13 : UInt8).toNat = 13 := by decide
      omega
    simp [hle, hne 32 (by decide), hne 160 (by decide), decide_false, Bool.and_false]
  · exact hne _ (by decide)

theorem scanInt_of_digit {s : Text} (h : s.takeWhile isdigit ≠ []) :
    scanInt s = some (toInt (decimal (s.takeWhile isdigit)), s.dropWhile isdigit) := by
  cases s with
  | nil => exact absurd rfl h
  | cons c t =>
    have hc : isdigit c = true := by
      by_contra hc
      exact h (takeWhile_cons_of_neg hc)
    obtain ⟨hspace, hdash⟩ := not_isspace_of_isdigit hc
    have hskip : (c :: t).dropWhile isspace = c :: t :=
      dropWhile_cons_of_neg (by rw [hspace]; decide)
    have hsign : ((c :: t).head? == some '-'.toUInt8) = false := hdash
    unfold scanInt
    dsimp only
    rw [hskip, hsign]
    exact if_neg h

theorem scanInt_dropWhile (s : Text) : scanInt (s.dropWhile isspace) = scanInt s := by
  unfold scanInt
  rw [dropWhile_idempotent]

variable {item : Text} {e : RangeValue}

/-- A valid item is read as it says, but for the size of its numbers, unless a blank stands before
    the dash. -/
theorem parseRangeValue_valid (h : entryOf item = some e)
    (hvalidate : validateRangeValue item = true) :
    parseRangeValue item =
      if blankBehind item then none else some ⟨e.not, toInt e.start, toInt e.stop⟩ := by
  have hsplit := takeWhile_append_dropWhile (p := isdigit) (l := body item)
  have hlast {post : Text} (hpost : body item = (body item).takeWhile isdigit ++ post)
      (hspaces : ∀ c ∈ post, isspace c = true) : post = [] :=
    eq_nil_of_trim_eq_append hpost hspaces
  have hdigits : ∀ c ∈ (body item).takeWhile isdigit, isdigit c = true :=
    fun c hc => mem_takeWhile_imp hc
  rw [parseRangeValue_eq, if_pos hvalidate]
  unfold entryOf at h
  unfold blankBehind
  generalize body item = u at *
  dsimp only at h
  split at h
  · cases h
  · next hlo =>
    have hscan := scanInt_of_digit hlo
    split at h
    · next hrest =>
      cases h
      have hempty := hlast hsplit.symm (dropWhile_eq_nil_iff.1 hrest)
      have hdash : '-'.toUInt8 ∉ u := by
        intro hmem
        rw [← hsplit, hempty, append_nil] at hmem
        exact absurd (hdigits _ hmem) (by decide)
      rw [sscanf, if_neg hdash, hscan, hempty]
      simp [map_some, head?_nil, any_none, Bool.false_eq_true]
    · split at h
      · next hrange =>
        obtain ⟨hdash, hhi, hall⟩ := hrange
        cases h
        have hmem : '-'.toUInt8 ∈ u := by
          rw [← hsplit]
          exact mem_append_right _ ((dropWhile_sublist _).mem (mem_of_head? hdash))
        rw [sscanf, if_pos hmem, hscan]
        dsimp only
        cases hr : u.dropWhile isdigit with
        | nil =>
          rw [hr] at hdash
          cases hdash
        | cons c rest =>
          rw [hr] at hdash hhi hall
          by_cases hc : isspace c = true
          · have hne : ¬ (c :: rest).head? = some '-'.toUInt8 := by
              rw [head?_cons]
              intro heq
              rw [some.inj heq] at hc
              exact absurd hc (by decide)
            rw [if_neg hne, head?_cons, any_some, if_pos hc]
            rfl
          · rw [dropWhile_cons_of_neg hc] at hdash hhi hall
            rw [tail_cons] at hhi hall
            obtain ⟨htake, hdrop⟩ := takeWhile_eq_self_of_all hall
            have hscan' := scanInt_of_digit (show (rest.dropWhile isspace).takeWhile isdigit ≠ [] by
              rw [htake]; exact hhi)
            rw [if_pos hdash, tail_cons, ← scanInt_dropWhile, hscan', htake, hdrop, head?_cons,
              any_some, if_neg hc, dropWhile_cons_of_neg hc, tail_cons]
            simp only [map_some]
      · cases h

/-! ### What is taken for an item -/

theorem scanInt_snd (s : Text) : (scanInt s).map Prod.snd = behindNumber s := by
  unfold scanInt behindNumber
  rw [apply_ite (Option.map Prod.snd), map_none, map_some]

theorem sscanf_isSome_iff (u : Text) : (sscanf u).isSome = true ↔ Begins u := by
  unfold sscanf Begins
  by_cases hdash : '-'.toUInt8 ∈ u
  · rw [if_pos hdash, if_pos hdash]
    have hbehind := scanInt_snd u
    cases hs : scanInt u with
    | none =>
      rw [hs] at hbehind
      simp [← hbehind]
    | some r =>
      rw [hs] at hbehind
      rw [← hbehind]
      obtain ⟨v, rest⟩ := r
      cases rest with
      | nil => simp
      | cons c rest =>
        simp only [map_some, head?_cons, tail_cons, Option.some.injEq,
          List.cons.injEq, ← scanInt_snd, isSome_map]
        by_cases hc : c = '-'.toUInt8
        · simp [hc]
        · simp [hc]
  · rw [if_neg hdash, if_neg hdash, ← scanInt_snd, isSome_map, isSome_map]

theorem parseRangeValue_isSome_iff (item : Text) : (parseRangeValue item).isSome = true ↔
    validateRangeValue item = true ∧ Begins (body item) := by
  rw [parseRangeValue_eq, ← sscanf_isSome_iff]
  split
  · next h => simp [h, isSome_map]
  · next h => simp [h]

theorem mem_body_of_mem {c : UInt8} (h : c ∈ item) :
    isspace c = true ∨ c = '!'.toUInt8 ∨ c ∈ body item := by
  obtain ⟨pre, post, hitem, hpre, hpost⟩ := exists_trimmed isspace item
  rw [hitem, mem_append, mem_append] at h
  rcases h with h | h | h
  · exact .inl (hpre c h)
  · have hinner : c = '!'.toUInt8 ∨
        c ∈ (if negated item then (kTrim item).tail else kTrim item) := by
      by_cases hneg : negated item = true
      · rw [if_pos hneg]
        have hcons := cons_head?_tail (beq_iff_eq.1 hneg)
        change c ∈ kTrim item at h
        rw [← hcons] at h
        exact List.mem_cons.1 h
      · rw [if_neg hneg]
        exact .inr h
    rcases hinner with hbang | hinner
    · exact .inr (.inl hbang)
    · obtain ⟨pre', post', hbody, hpre', hpost'⟩ := exists_trimmed isspace
        (if negated item then (kTrim item).tail else kTrim item)
      rw [hbody, mem_append, mem_append] at hinner
      rcases hinner with hc | hc | hc
      · exact .inl (hpre' c hc)
      · exact .inr (.inr hc)
      · exact .inl (hpost' c hc)
  · exact .inl (hpost c h)

theorem validate_of_entryOf (h : entryOf item = some e)
    (hblanks : ∀ c ∈ item, isspace c = true → c = ' '.toUInt8) :
    validateRangeValue item = true := by
  have hbody : ∀ c ∈ body item, isspace c = true ∨ c = '-'.toUInt8 ∨ isdigit c = true := by
    intro c hc
    rw [← takeWhile_append_dropWhile (p := isdigit) (l := body item), mem_append,
      ← takeWhile_append_dropWhile (p := isspace) (l := (body item).dropWhile isdigit),
      mem_append] at hc
    rcases hc with hc | hc | hc
    · exact .inr (.inr (mem_takeWhile_imp hc))
    · exact .inl (mem_takeWhile_imp hc)
    · unfold entryOf at h
      dsimp only at h
      split at h
      · cases h
      · split at h
        · next hrest =>
          rw [hrest] at hc
          cases hc
        · split at h
          · next hrange =>
            rw [← cons_head?_tail hrange.1, List.mem_cons,
              ← takeWhile_append_dropWhile (p := isspace)
                (l := (((body item).dropWhile isdigit).dropWhile isspace).tail),
              mem_append] at hc
            rcases hc with hc | hc | hc
            · exact .inr (.inl hc)
            · exact .inl (mem_takeWhile_imp hc)
            · exact .inr (.inr (List.all_eq_true.1 hrange.2.2 c hc))
          · cases h
  refine List.all_eq_true.2 fun c hc => ?_
  rcases mem_body_of_mem hc with hspace | hbang | hmem
  · rw [hblanks c hc hspace]
    rfl
  · rw [hbang]
    rfl
  · rcases hbody c hmem with hspace | hdash | hdigit
    · rw [hblanks c hc hspace]
      rfl
    · rw [hdash]
      rfl
    · rw [hdigit, Bool.or_true]

/-- Entries with the same sign and the same ports. -/
def SameEntry (e e' : RangeValue) : Prop := e.not = e'.not ∧ SamePorts e e'

/-- The code reads the item as it says. -/
def ReadsAlike (item : Text) : Prop := Option.Rel SameEntry (parseRangeValue item) (entryOf item)

theorem Plain.readsAlike (h : Plain item) : ReadsAlike item := by
  unfold ReadsAlike
  cases he : entryOf item with
  | none =>
    have hnone : parseRangeValue item = none := by
      rw [← not_isSome_iff_eq_none, parseRangeValue_isSome_iff]
      exact h.invalid he
    rw [hnone]
    exact .none
  | some e =>
    obtain ⟨hblank, hports⟩ := h.valid e he
    rw [parseRangeValue_valid he (validate_of_entryOf he h.blanks), hblank]
    exact .some ⟨rfl, hports⟩

theorem plain_of_readsAlike (hshort : item.length < 128)
    (hblanks : ∀ c ∈ item, isspace c = true → c = ' '.toUInt8) (h : ReadsAlike item) :
    Plain item := by
  refine ⟨hshort, hblanks, fun e he => ?_, fun he hbegins => ?_⟩
  · unfold ReadsAlike at h
    rw [he, parseRangeValue_valid he (validate_of_entryOf he hblanks)] at h
    cases hblank : blankBehind item with
    | true =>
      rw [hblank] at h
      cases h
    | false =>
      rw [hblank] at h
      cases h with
      | some hsame => exact ⟨rfl, hsame.2⟩
  · unfold ReadsAlike at h
    have hsome := (parseRangeValue_isSome_iff item).2 hbegins
    rw [he] at h
    cases hp : parseRangeValue item with
    | none =>
      rw [hp] at hsome
      cases hsome
    | some e =>
      rw [hp] at h
      cases h

/-! ## Matching -/

theorem afMatchPort_iff (entries : List RangeValue) (port : ℤ) :
    afMatchPort entries port = true ↔ Accepts entries port := by
  unfold afMatchPort Accepts
  by_cases hempty : entries = []
  · simp [hempty]
  · rw [if_neg (mt length_eq_zero_iff.1 hempty)]
    by_cases hnot : entries.any (·.not) = true
    · have hex := List.any_eq_true.1 hnot
      rw [if_pos hnot]
      simp only [hempty, false_or, Bool.not_eq_true', List.any_eq_false, Bool.and_eq_true]
      constructor
      · exact fun h => .inr ⟨hex, fun e he hne => by simpa [hne] using h e he⟩
      · rintro (⟨hall, -⟩ | ⟨-, hall⟩)
        · obtain ⟨e, he, hne⟩ := hex
          rw [hall e he] at hne
          cases hne
        · rintro e he ⟨hne, hhas⟩
          rw [hall e he hne] at hhas
          cases hhas
    · have hall : ∀ e ∈ entries, e.not = false := by
        rw [Bool.not_eq_true, List.any_eq_false] at hnot
        exact fun e he => Bool.not_eq_true _ ▸ hnot e he
      rw [if_neg hnot, List.any_eq_true]
      simp only [hempty, false_or]
      constructor
      · exact fun h => .inl ⟨hall, h⟩
      · rintro (⟨-, h⟩ | ⟨⟨e, he, hne⟩, -⟩)
        · exact h
        · rw [hall e he] at hne
          cases hne

theorem accepts_congr {entries entries' : List RangeValue}
    (h : List.Forall₂ SameEntry entries entries') {port : ℤ} (hlo : 0 ≤ port)
    (hhi : port < 65536) : Accepts entries port ↔ Accepts entries' port := by
  have hleft : ∀ e ∈ entries, ∃ e' ∈ entries', SameEntry e e' := by
    induction h with
    | nil => exact forall_mem_nil _
    | cons hsame _ ih =>
      grind
  have hright : ∀ e' ∈ entries', ∃ e ∈ entries, SameEntry e e' := by
    clear hleft
    induction h with
    | nil => exact forall_mem_nil _
    | cons hsame _ ih =>
      grind
  have hhas {e e' : RangeValue} (hsame : SameEntry e e') : e.has port = e'.has port :=
    Bool.eq_iff_iff.2 (hsame.2 port hlo hhi)
  have hempty : entries = [] ↔ entries' = [] := by
    rw [← length_eq_zero_iff, ← length_eq_zero_iff, h.length_eq]
  refine or_congr hempty (or_congr (and_congr ⟨fun hall e' he' => ?_, fun hall e he => ?_⟩
    ⟨fun ⟨e, he, hp⟩ => ?_, fun ⟨e', he', hp⟩ => ?_⟩) (and_congr ⟨fun ⟨e, he, hn⟩ => ?_,
      fun ⟨e', he', hn⟩ => ?_⟩ ⟨fun hall e' he' hn => ?_, fun hall e he hn => ?_⟩))
  · obtain ⟨e, he, hsame⟩ := hright e' he'
    rw [← hsame.1, hall e he]
  · obtain ⟨e', he', hsame⟩ := hleft e he
    rw [hsame.1, hall e' he']
  · obtain ⟨e', he', hsame⟩ := hleft e he
    exact ⟨e', he', by rw [← hhas hsame, hp]⟩
  · obtain ⟨e, he, hsame⟩ := hright e' he'
    exact ⟨e, he, by rw [hhas hsame, hp]⟩
  · obtain ⟨e', he', hsame⟩ := hleft e he
    exact ⟨e', he', by rw [← hsame.1, hn]⟩
  · obtain ⟨e, he, hsame⟩ := hright e' he'
    exact ⟨e, he, by rw [hsame.1, hn]⟩
  · obtain ⟨e, he, hsame⟩ := hright e' he'
    rw [← hhas hsame, hall e he (by rw [hsame.1, hn])]
  · obtain ⟨e', he', hsame⟩ := hleft e he
    rw [hhas hsame, hall e' he' (by rw [← hsame.1, hn])]

/-! ## Pieces -/

theorem bar_not_space : isspace '|'.toUInt8 = false := by decide

theorem piecesFrom_append (hbar : '|'.toUInt8 ∉ item) (begun rest : Text) :
    piecesFrom begun (item ++ '|'.toUInt8 :: rest) = (begun ++ item) :: piecesFrom [] rest := by
  induction item generalizing begun with
  | nil => rw [nil_append, append_nil, piecesFrom, if_pos rfl]
  | cons c item ih =>
    have hc : c ≠ '|'.toUInt8 := fun h => hbar (h ▸ mem_cons_self)
    rw [cons_append, piecesFrom, if_neg hc, ih fun h => hbar (mem_cons_of_mem _ h),
      append_assoc, singleton_append]

theorem piecesFrom_last (hbar : '|'.toUInt8 ∉ item) (begun : Text) :
    piecesFrom begun item = [begun ++ item] := by
  induction item generalizing begun with
  | nil => rw [append_nil, piecesFrom]
  | cons c item ih =>
    have hc : c ≠ '|'.toUInt8 := fun h => hbar (h ▸ mem_cons_self)
    rw [piecesFrom, if_neg hc, ih fun h => hbar (mem_cons_of_mem _ h), append_assoc,
      singleton_append]

theorem pieces_append (hne : item ≠ []) (hbar : '|'.toUInt8 ∉ item) (rest : Text) :
    pieces (item ++ '|'.toUInt8 :: rest) = item :: piecesFrom [] rest := by
  cases item with
  | nil => exact absurd rfl hne
  | cons c item =>
    rw [cons_append, pieces, piecesFrom_append fun h => hbar (mem_cons_of_mem _ h)]
    rfl

theorem pieces_single (hne : item ≠ []) (hbar : '|'.toUInt8 ∉ item) : pieces item = [item] := by
  cases item with
  | nil => exact absurd rfl hne
  | cons c item =>
    rw [pieces, piecesFrom_last fun h => hbar (mem_cons_of_mem _ h)]
    rfl

/-- A piece is the item, perhaps without white space at its ends. -/
def PieceOf (piece item : Text) : Prop :=
  ∃ pre post, item = pre ++ (piece ++ post) ∧ (∀ c ∈ pre, isspace c = true) ∧
    ∀ c ∈ post, isspace c = true

theorem PieceOf.refl (item : Text) : PieceOf item item :=
  ⟨[], [], (append_nil _).symm, forall_mem_nil _, forall_mem_nil _⟩

theorem pieceOf_dropWhile (item : Text) : PieceOf (item.dropWhile isspace) item :=
  ⟨item.takeWhile isspace, [], by rw [append_nil, takeWhile_append_dropWhile],
    fun _ hc => mem_takeWhile_imp hc, forall_mem_nil _⟩

theorem pieceOf_rdropWhile (item : Text) : PieceOf (item.rdropWhile isspace) item :=
  ⟨[], item.rtakeWhile isspace, rdropWhile_append_rtakeWhile.symm,
    forall_mem_nil _, fun _ hc => mem_rtakeWhile_imp hc⟩

theorem pieceOf_kTrim (item : Text) : PieceOf (kTrim item) item := exists_trimmed isspace item

theorem PieceOf.parseRangeValue_eq {piece item : Text} (h : PieceOf piece item)
    (hblanks : ∀ c ∈ item, isspace c = true → c = ' '.toUInt8) :
    parseRangeValue piece = parseRangeValue item := by
  obtain ⟨pre, post, rfl, hpre, hpost⟩ := h
  refine (parseRangeValue_append (fun c hc => hblanks c ?_ (hpre c hc))
    (fun c hc => hblanks c ?_ (hpost c hc)) piece).symm
  · exact mem_append_left _ hc
  · exact mem_append_right _ (mem_append_right _ hc)

theorem PieceOf.length_le {piece item : Text} (h : PieceOf piece item) :
    piece.length ≤ item.length := by
  obtain ⟨pre, post, rfl, -, -⟩ := h
  simp only [length_append]
  omega

theorem join_cons_cons (item next : Text) (items : List Text) :
    join (item :: next :: items) = item ++ '|'.toUInt8 :: join (next :: items) := by
  rw [join, intercalate_cons_cons, append_assoc]
  rfl

variable {items : List Text}

theorem piecesFrom_join (hne : items ≠ []) (hbar : ∀ item ∈ items, '|'.toUInt8 ∉ item) :
    List.Forall₂ PieceOf (piecesFrom [] ((join items).rdropWhile isspace)) items := by
  induction items with
  | nil => exact absurd rfl hne
  | cons item items ih =>
    have hitem := hbar item mem_cons_self
    cases items with
    | nil =>
      have hlast : '|'.toUInt8 ∉ item.rdropWhile isspace :=
        fun h => hitem (( rdropWhile_prefix _ _).subset h)
      have hjoin : join [item] = item := intercalate_singleton
      rw [hjoin, piecesFrom_last hlast]
      exact .cons (pieceOf_rdropWhile item) .nil
    | cons next items =>
      rw [join_cons_cons, rdropWhile_append_cons bar_not_space, piecesFrom_append hitem]
      exact .cons (PieceOf.refl item)
        (ih (cons_ne_nil _ _) fun i hi => hbar i (mem_cons_of_mem _ hi))

/-- White space only. -/
def Blank (item : Text) : Prop := ∀ c ∈ item, isspace c = true

theorem pieces_join {item next : Text} (hblank : ¬ Blank item)
    (hbar : ∀ i ∈ item :: next :: items, '|'.toUInt8 ∉ i) :
    List.Forall₂ PieceOf (pieces (kTrim (join (item :: next :: items))))
      (item :: next :: items) := by
  have hitem : '|'.toUInt8 ∉ item.dropWhile isspace :=
    fun h => hbar item mem_cons_self ((dropWhile_sublist _).mem h)
  have hne : item.dropWhile isspace ≠ [] := fun h => hblank (dropWhile_eq_nil_iff.1 h)
  rw [join_cons_cons, kTrim, trim, dropWhile_append_cons bar_not_space,
    rdropWhile_append_cons bar_not_space, pieces_append hne hitem]
  exact .cons (pieceOf_dropWhile item)
    (piecesFrom_join (cons_ne_nil _ _) fun i hi => hbar i (mem_cons_of_mem _ hi))

theorem parsePieces_eq {entries : List RangeValue} {ps : List Text}
    (hshort : ∀ p ∈ ps, p.length < 128) (hfive : entries.length + ps.length ≤ 5) :
    parsePieces entries ps = some (entries ++ ps.filterMap parseRangeValue) := by
  induction ps generalizing entries with
  | nil => rw [filterMap_nil, append_nil, parsePieces]
  | cons p ps ih =>
    have hp := hshort p mem_cons_self
    rw [length_cons] at hfive
    have hlen : (parseRangeValue p).toList.length ≤ 1 := by cases parseRangeValue p <;> simp
    rw [parsePieces, if_neg (by omega), if_neg (by omega),
      ih (fun p hp => hshort p (mem_cons_of_mem _ hp)) (by rw [length_append]; omega), append_assoc]
    cases hr : parseRangeValue p with
    | none => rw [filterMap_cons_none hr]; rfl
    | some e => rw [filterMap_cons_some hr]; rfl

theorem filterMap_pieces {ps items : List Text} (h : List.Forall₂ PieceOf ps items)
    (hplain : ∀ i ∈ items, Plain i) :
    List.Forall₂ SameEntry (ps.filterMap parseRangeValue) (items.filterMap entryOf) := by
  induction h with
  | nil => exact .nil
  | @cons p i ps items hp _ ih =>
    have hi := hplain i mem_cons_self
    have hrest := ih fun j hj => hplain j (mem_cons_of_mem _ hj)
    have hsame := hi.readsAlike
    rw [ReadsAlike, ← hp.parseRangeValue_eq hi.blanks] at hsame
    cases hpe : parseRangeValue p with
    | none =>
      rw [hpe] at hsame
      cases hie : entryOf i with
      | none => rwa [filterMap_cons_none hpe, filterMap_cons_none hie]
      | some e => rw [hie] at hsame; cases hsame
    | some e =>
      rw [hpe] at hsame
      cases hie : entryOf i with
      | none => rw [hie] at hsame; cases hsame
      | some e' =>
        rw [hie] at hsame
        cases hsame with
        | some hsame =>
          simp [*]

/-! ## Lists -/

/-- The first of several items is not blank. -/
def FirstGiven (items : List Text) : Prop :=
  ∀ item next rest, items = item :: next :: rest → ¬ Blank item

theorem right_of_pieces (h : List.Forall₂ PieceOf (pieces (kTrim (join items))) items)
    (hlen : items.length ≤ 5) (hplain : ∀ i ∈ items, Plain i) : Right items := by
  have hshort : ∀ p ∈ pieces (kTrim (join items)), p.length < 128 := by
    intro p hp
    obtain ⟨k, hk, rfl⟩ := getElem_of_mem hp
    have hk' : k < items.length := h.length_eq ▸ hk
    exact ((forall₂_iff_get.1 h).2 k hk hk').length_le.trans_lt (hplain _ (getElem_mem hk')).short
  refine ⟨_, parsePieces_eq hshort (by rw [h.length_eq]; simpa using hlen), fun port hlo hhi => ?_⟩
  rw [afMatchPort_iff, nil_append]
  exact accepts_congr (filterMap_pieces h hplain) hlo hhi

theorem body_of_trimmed (h : kTrim item = []) : body item = [] := by
  unfold body negated
  rw [h]
  rfl

theorem entryOf_blank (h : Blank item) : entryOf item = none := by
  unfold entryOf
  rw [body_of_trimmed (trim_eq_nil_iff.2 h)]
  rfl

theorem parseRangeValue_blank (h : Blank item) : parseRangeValue item = none := by
  rw [parseRangeValue_eq, body_of_trimmed (trim_eq_nil_iff.2 h)]
  split <;> rfl

theorem pieces_join_single (hblank : ¬ Blank item) (hbar : '|'.toUInt8 ∉ item) :
    pieces (kTrim (join [item])) = [kTrim item] := by
  obtain ⟨pre, post, hitem, -, -⟩ := exists_trimmed isspace item
  have hmem : '|'.toUInt8 ∉ kTrim item := by
    intro h
    rw [hitem] at hbar
    exact hbar (mem_append_right _ (mem_append_left _ h))
  have hjoin : join [item] = item := intercalate_singleton
  rw [hjoin]
  exact pieces_single (fun h => hblank (trim_eq_nil_iff.1 h)) hmem

theorem right_of_plain (hlen : items.length ≤ 5) (hbar : ∀ i ∈ items, '|'.toUInt8 ∉ i)
    (hplain : ∀ i ∈ items, Plain i) (hfirst : FirstGiven items) : Right items := by
  match items, hfirst with
  | [], _ => exact right_of_pieces .nil hlen hplain
  | [item], _ =>
    by_cases hblank : Blank item
    · have hjoin : join [item] = item := intercalate_singleton
      refine ⟨[], ?_, fun port _ _ => ?_⟩
      · rw [hjoin, parsePortInfo, kTrim, trim_eq_nil_iff.2 hblank]
        rfl
      · rw [afMatchPort_iff, filterMap_cons_none (entryOf_blank hblank)]
        rfl
    · refine right_of_pieces ?_ hlen hplain
      rw [pieces_join_single hblank (hbar item mem_cons_self)]
      exact .cons (pieceOf_kTrim item) .nil
  | item :: next :: rest, hfirst =>
    exact right_of_pieces (pieces_join (hfirst item next rest rfl) hbar) hlen hplain

/-! ## Items that are not plain -/

/-- The item `1`. -/
def one : Text := ['1'.toUInt8]

theorem entryOf_one : entryOf one = some ⟨false, 1, 1⟩ := by decide

theorem parseRangeValue_one : parseRangeValue one = some ⟨false, 1, 1⟩ := by decide

theorem accepts_single (e : RangeValue) (port : ℤ) :
    Accepts [e] port ↔ (e.not = true ↔ e.has port = false) := by
  unfold Accepts
  cases hn : e.not <;> cases hp : e.has port <;> simp [hn, hp]

/-- In front of the item `1`, an entry decides alone over every other port if it is negated, and
    adds its own ports if it is not. -/
theorem accepts_one (e : RangeValue) : Accepts [e, ⟨false, 1, 1⟩] 2 ↔ Accepts [e] 2 := by
  have hone : RangeValue.has ⟨false, 1, 1⟩ 2 = false := by decide
  unfold Accepts
  cases hn : e.not <;> cases hp : e.has 2 <;> simp [hn, hp, hone]

theorem not_accepts_one : ¬ Accepts [⟨false, 1, 1⟩] 2 := by
  rw [accepts_single]
  decide

variable (f : Text → Option RangeValue)

theorem filterMap_single (t : Text) : [t].filterMap f = (f t).toList := by
  cases hf : f t with
  | none => rw [filterMap_cons_none hf]; rfl
  | some e => rw [filterMap_cons_some hf]; rfl

theorem filterMap_pair (t t' : Text) : [t, t'].filterMap f = (f t).toList ++ (f t').toList := by
  rw [← singleton_append, filterMap_append, filterMap_single, filterMap_single]

section Apart

variable {item : Text}

section

variable (hbar : '|'.toUInt8 ∉ item) (hshort : item.length < 128)
  (hblanks : ∀ c ∈ item, isspace c = true → c = ' '.toUInt8)

include hbar hshort hblanks

theorem accepts_of_right (hblank : ¬ Blank item) (h : Right [item]) {port : ℤ} (hlo : 0 ≤ port)
    (hhi : port < 65536) :
    Accepts (parseRangeValue item).toList port ↔ Accepts (entryOf item).toList port := by
  obtain ⟨entries, hparse, hports⟩ := h
  rw [parsePortInfo, pieces_join_single hblank hbar, parsePieces_eq
    (forall_mem_singleton.2 ((pieceOf_kTrim item).length_le.trans_lt hshort))
    (by decide : ([] : List RangeValue).length + 1 ≤ 5)] at hparse
  obtain rfl := some.inj hparse
  have hports := hports port hlo hhi
  rwa [afMatchPort_iff, nil_append, filterMap_single, filterMap_single,
    (pieceOf_kTrim item).parseRangeValue_eq hblanks] at hports

theorem accepts_of_right_one (hblank : ¬ Blank item) (h : Right [item, one]) :
    Accepts ((parseRangeValue item).toList ++ [⟨false, 1, 1⟩]) 2 ↔
      Accepts ((entryOf item).toList ++ [⟨false, 1, 1⟩]) 2 := by
  have hone : '|'.toUInt8 ∉ one := by decide
  have hpieces := pieces_join hblank (forall_mem_cons.2 ⟨hbar, forall_mem_singleton.2 hone⟩)
  obtain ⟨entries, hparse, hports⟩ := h
  have hports := hports 2 (by decide) (by decide)
  rw [parsePortInfo] at hparse
  generalize pieces (kTrim (join [item, one])) = ps at *
  obtain ⟨p, ps, hp, hrest, rfl⟩ := forall₂_cons_right_iff.1 hpieces
  obtain ⟨p', ps, hp', hnil, rfl⟩ := forall₂_cons_right_iff.1 hrest
  obtain rfl := forall₂_nil_right_iff.1 hnil
  have hshort' : ∀ q ∈ [p, p'], q.length < 128 :=
    forall_mem_cons.2 ⟨hp.length_le.trans_lt hshort,
      forall_mem_singleton.2 (hp'.length_le.trans_lt (by decide))⟩
  rw [parsePieces_eq hshort' (by decide : ([] : List RangeValue).length + 2 ≤ 5)] at hparse
  obtain rfl := some.inj hparse
  have hblanks' : ∀ c ∈ one, isspace c = true → c = ' '.toUInt8 :=
    forall_mem_singleton.2 fun hspace => absurd hspace (by decide)
  rwa [afMatchPort_iff, nil_append, filterMap_pair, filterMap_pair, hp.parseRangeValue_eq hblanks,
    hp'.parseRangeValue_eq hblanks', parseRangeValue_one, entryOf_one] at hports

theorem readsAlike_of_right (halone : Right [item]) (hpair : Right [item, one]) :
    ReadsAlike item := by
  unfold ReadsAlike
  by_cases hblank : Blank item
  · rw [entryOf_blank hblank, parseRangeValue_blank hblank]
    exact .none
  · have hports {port : ℤ} (hlo : 0 ≤ port) (hhi : port < 65536) :=
      accepts_of_right hbar hshort hblanks hblank halone hlo hhi
    have hone := accepts_of_right_one hbar hshort hblanks hblank hpair
    have hnil (port : ℤ) : Accepts [] port := .inl rfl
    cases hparse : parseRangeValue item with
    | none =>
      cases hentry : entryOf item with
      | none => exact .none
      | some e =>
        rw [hparse, hentry] at hports hone
        have h2 := (hports (by decide) (by decide)).1 (hnil 2)
        exact absurd (hone.2 ((accepts_one e).2 h2)) not_accepts_one
    | some e =>
      cases hentry : entryOf item with
      | none =>
        rw [hparse, hentry] at hports hone
        have h2 := (hports (by decide) (by decide)).2 (hnil 2)
        exact absurd (hone.1 ((accepts_one e).2 h2)) not_accepts_one
      | some e' =>
        have hnot : e.not = e'.not := by
          rw [parseRangeValue_valid hentry (validate_of_entryOf hentry hblanks)] at hparse
          split at hparse
          · cases hparse
          · rw [← some.inj hparse]
        refine .some ⟨hnot, fun port hlo hhi => ?_⟩
        have h := hports hlo hhi
        rw [hparse, hentry, toList_some, toList_some, accepts_single, accepts_single, hnot] at h
        cases hn : e'.not <;> cases hp : e.has port <;> cases hp' : e'.has port <;>
          simp [hn, hp, hp'] at h ⊢

end

end Apart

theorem not_right_long (hbar : '|'.toUInt8 ∉ item) (hlong : 128 ≤ item.length) :
    ¬ Right [one, item, one] := by
  rintro ⟨entries, hparse, -⟩
  have hone : '|'.toUInt8 ∉ one := by decide
  have hjoin : join [one, item, one] = one ++ '|'.toUInt8 :: (item ++ '|'.toUInt8 :: one) := by
    rw [join_cons_cons, join_cons_cons]
    rfl
  have htrim : kTrim (join [one, item, one]) =
      one ++ '|'.toUInt8 :: (item ++ '|'.toUInt8 :: one) := by
    rw [hjoin, kTrim, trim, dropWhile_append_cons bar_not_space,
      rdropWhile_append_cons bar_not_space, rdropWhile_append_cons bar_not_space]
    rfl
  rw [parsePortInfo, htrim, pieces_append (by decide) hone, piecesFrom_append hbar,
    nil_append, parsePieces, if_neg (by decide), if_neg (by decide), parsePieces,
    if_pos hlong] at hparse
  cases hparse

theorem not_right_blank (hblank : Blank item) : ¬ Right [item, one] := by
  rintro ⟨entries, hparse, hports⟩
  have htrim : kTrim (join [item, one]) = '|'.toUInt8 :: one := by
    have hjoin : join [item, one] = item ++ '|'.toUInt8 :: one := join_cons_cons item one []
    rw [hjoin, kTrim, trim, dropWhile_append_of_all hblank]
    rfl
  have hnone : parsePortInfo (join [item, one]) = some [] := by
    rw [parsePortInfo, htrim]
    decide
  obtain rfl := some.inj (hparse.symm.trans hnone)
  have h2 := (hports 2 (by decide) (by decide)).1 (by decide)
  rw [filterMap_pair, entryOf_blank hblank, entryOf_one] at h2
  exact not_accepts_one h2

theorem exists_not_right (hbar : '|'.toUInt8 ∉ item)
    (hblanks : ∀ c ∈ item, isspace c = true → c = ' '.toUInt8) (hnot : ¬ Plain item) :
    ∃ others : List Text, (∀ i ∈ others, i = item ∨ i = one) ∧ others.length ≤ 5 ∧
      FirstGiven others ∧ ¬ Right others := by
  by_cases hshort : item.length < 128
  · have hblank : ¬ Blank item := by
      intro hblank
      refine hnot (plain_of_readsAlike hshort hblanks ?_)
      unfold ReadsAlike
      rw [entryOf_blank hblank, parseRangeValue_blank hblank]
      exact .none
    by_cases halone : Right [item]
    · refine ⟨[item, one], ?_, by simp, ?_, fun hpair => ?_⟩
      · simp
      · rintro i next rest h
        cases h
        exact hblank
      · exact hnot (plain_of_readsAlike hshort hblanks
          (readsAlike_of_right hbar hshort hblanks halone hpair))
    · refine ⟨[item], ?_, by simp, ?_, halone⟩
      · simp
      · rintro i next rest h
        cases h
  · refine ⟨[one, item, one], ?_, by simp, ?_, not_right_long hbar (by omega)⟩
    · simp
    · rintro i next rest h
      cases h
      intro hblank
      exact absurd (hblank '1'.toUInt8 mem_cons_self) (by decide)

/-- A list of at most five plain items means what it says, if the first of several is not blank. In
    the other direction, where an item is not plain but has no other white space than blanks, some
    list of the items and of `1` means something else, and so does a blank item in front of `1`. -/
theorem portLists_right {items : List Text} (hbar : ∀ i ∈ items, '|'.toUInt8 ∉ i) :
    (items.length ≤ 5 → (∀ i ∈ items, Plain i) → FirstGiven items → Right items) ∧
    ((∀ i ∈ items, ∀ c ∈ i, isspace c = true → c = ' '.toUInt8) → (¬ ∀ i ∈ items, Plain i) →
      ∃ others : List Text, (∀ i ∈ others, i ∈ items ∨ i = one) ∧ others.length ≤ 5 ∧
        FirstGiven others ∧ ¬ Right others) ∧
    ∀ item ∈ items, Blank item → ¬ Right [item, one] := by
  refine ⟨fun hlen hplain hfirst => right_of_plain hlen hbar hplain hfirst,
    fun hblanks hnot => ?_, fun item _ => not_right_blank⟩
  obtain ⟨item, hitem, hnot⟩ := not_forall₂.1 hnot
  obtain ⟨others, hothers, hlen, hfirst, hwrong⟩ :=
    exists_not_right (hbar item hitem) (hblanks item hitem) hnot
  refine ⟨others, fun i hi => ?_, hlen, hfirst, hwrong⟩
  obtain rfl | rfl := hothers i hi
  · exact .inl hitem
  · exact .inr rfl

/-- A valid item is plain where nothing but its first number stands before the dash and the numbers
    are small. -/
theorem plain_of_entry (hshort : item.length < 128)
    (hblanks : item.all (fun c => !isspace c || c == ' '.toUInt8) = true)
    (hentry : entryOf item = some e) (hblank : blankBehind item = false)
    (hstart : toInt e.start = e.start) (hstop : toInt e.stop = e.stop) : Plain item where
  short := hshort
  blanks := by
    intro c hc hspace
    have h := List.all_eq_true.1 hblanks c hc
    rw [hspace, Bool.not_true, Bool.false_or] at h
    exact beq_iff_eq.1 h
  valid := by
    intro e' he'
    obtain rfl := some.inj (hentry.symm.trans he')
    refine ⟨hblank, fun port _ _ => ?_⟩
    rw [hstart, hstop]
  invalid h := by
    rw [hentry] at h
    cases h

/-- ` 80-90 ` and `! 85`. -/
theorem portLists_right_range :
    Right [[0x20, 0x38, 0x30, 0x2d, 0x39, 0x30, 0x20], [0x21, 0x20, 0x38, 0x35]] := by
  refine (portLists_right (by decide)).1 (by decide) ?_ ?_
  · have hrange : Plain [0x20, 0x38, 0x30, 0x2d, 0x39, 0x30, 0x20] :=
      plain_of_entry (e := ⟨false, 80, 90⟩) (by decide) (by decide) (by decide) (by decide)
        (by decide) (by decide)
    have hnot : Plain [0x21, 0x20, 0x38, 0x35] :=
      plain_of_entry (e := ⟨true, 85, 85⟩) (by decide) (by decide) (by decide) (by decide)
        (by decide) (by decide)
    intro i hi
    obtain rfl | hi := List.mem_cons.1 hi
    · exact hrange
    · rw [mem_singleton.1 hi]
      exact hnot
  · rintro i next rest h
    cases h
    intro hblank
    exact absurd (hblank 0x38 (by decide)) (by decide)

/-- With blanks around its dash the range `80 - 90` is invalid, and the list is as good as empty. -/
theorem spaced_range_not_right : ¬ Right [[0x38, 0x30, 0x20, 0x2d, 0x20, 0x39, 0x30]] := by
  rintro ⟨entries, hparse, hports⟩
  have hnone : parsePortInfo (join [[0x38, 0x30, 0x20, 0x2d, 0x20, 0x39, 0x30]]) = some [] := by
    decide
  obtain rfl := some.inj (hparse.symm.trans hnone)
  have hone := (hports 1 (by decide) (by decide)).1 (by decide)
  have hentry : [[0x38, 0x30, 0x20, 0x2d, 0x20, 0x39, 0x30]].filterMap entryOf =
      [⟨false, 80, 90⟩] := by decide
  rw [hentry, accepts_single] at hone
  exact absurd hone (by decide)

end Apackage.OpenAppFilter.PortList
