import Apackage.Lib.Letters
import Apackage.OpenAppFilter.Regexp

/-
  What a regular expression says (`regexp.c`), and what its nodes match.

  A `Pattern` is a sequence of atoms with a quantifier each, with or without anchors, and `text` is
  how it is written. `matchHere_iff` is the matcher on nodes: it finds a word of their language at
  the beginning of a text.
-/

namespace Apackage.OpenAppFilter

open List Option Lib.Letters

/-! ## Patterns -/

namespace RegexpLanguage

/-- A byte or a range in a list. -/
inductive Entry
  | single (c : UInt8)
  | range (start stop : UInt8)
  deriving DecidableEq

inductive Atom
  | lit (c : UInt8)
  | escaped (c : UInt8)
  | digit (neg : Bool)
  | any
  | list (neg : Bool) (entries : List Entry)
  deriving DecidableEq

structure Item where
  atom : Atom
  quantifier : Quantifier
  deriving DecidableEq

def Entry.text : Entry → List UInt8
  | single c => [c]
  | range start stop => [start, '-'.toUInt8, stop]

def Entry.has : Entry → UInt8 → Bool
  | single d, c => c == d
  | range start stop, c => start ≤ c && c ≤ stop

def Entry.Valid : Entry → Prop
  | single c => c ≠ 0 ∧ c ≠ ']'.toUInt8 ∧ c ≠ '-'.toUInt8
  | range start stop => (start ≠ 0 ∧ start ≠ ']'.toUInt8 ∧ start ≠ '-'.toUInt8) ∧
      stop ≠ ']'.toUInt8 ∧ start ≤ stop

def Atom.text : Atom → List UInt8
  | lit c => [c]
  | escaped c => ['\\'.toUInt8, c]
  | digit neg => ['\\'.toUInt8, if neg then 'D'.toUInt8 else 'd'.toUInt8]
  | any => ['.'.toUInt8]
  | list neg entries => '['.toUInt8 ::
      ((if neg then ['^'.toUInt8] else []) ++ (entries.flatMap Entry.text ++ [']'.toUInt8]))

def isDigit (c : UInt8) : Bool := '0'.toUInt8 ≤ c && c ≤ '9'.toUInt8

/-- The bytes of an atom. -/
def Atom.has : Atom → UInt8 → Bool
  | lit d, c => c == d
  | escaped d, c => c == d
  | digit neg, c => isDigit c ^^ neg
  | any, _ => true
  | list neg entries, c => entries.any (·.has c) ^^ neg

/-- Bytes outside brackets that do not stand for themselves, wherever they are. -/
def special : List UInt8 := ['\\', '.', '*', '+', '?', '['].map Char.toUInt8

def Atom.Valid : Atom → Prop
  | lit c => c ≠ 0 ∧ c ∉ special
  | escaped c => c ≠ 0 ∧ c ≠ 'd'.toUInt8 ∧ c ≠ 'D'.toUInt8
  | digit _ => True
  | any => True
  | list neg entries => (∀ e ∈ entries, e.Valid) ∧
      (neg = false → (entries.flatMap Entry.text).head? ≠ some '^'.toUInt8)

def quantifierText : Quantifier → List UInt8
  | .one => []
  | .star => ['*'.toUInt8]
  | .plus => ['+'.toUInt8]
  | .ques => ['?'.toUInt8]

def Item.text (item : Item) : List UInt8 := item.atom.text ++ quantifierText item.quantifier

/-- A pattern. A `^` is an anchor only in the first place, and a `$` in the last. -/
structure Pattern where
  anchored : Bool
  items : List Item
  ended : Bool
  valid : ∀ item ∈ items, item.atom.Valid
  first : anchored = false → ∀ item, items.head? = some item → item.atom ≠ .lit '^'.toUInt8
  last : ended = false → items.getLast? ≠ some ⟨.lit '$'.toUInt8, .one⟩

namespace Pattern

def text (p : Pattern) : List UInt8 :=
  (if p.anchored then ['^'.toUInt8] else []) ++
    (p.items.flatMap Item.text ++ if p.ended then ['$'.toUInt8] else [])

def classes (p : Pattern) : List ((UInt8 → Bool) × Quantifier) :=
  p.items.map fun item => (item.atom.has, item.quantifier)

/-- A word of the classes stands in the text, at its ends where the pattern has anchors. -/
def FoundWith (p : Pattern) (classes : List ((UInt8 → Bool) × Quantifier))
    (text : List UInt8) : Prop :=
  ∃ pre, ∃ word ∈ lang classes, ∃ post, pre ++ (word ++ post) = text ∧
    (p.anchored = true → pre = []) ∧ (p.ended = true → post = [])

def Found (p : Pattern) (text : List UInt8) : Prop := p.FoundWith p.classes text

end Pattern

end RegexpLanguage

open RegexpLanguage

/-! ## Nodes -/

def ReType.isQuantifier : ReType → Bool
  | .star => true
  | .plus => true
  | .ques => true
  | _ => false

def quantifierType : Quantifier → Option ReType
  | .one => none
  | .star => some .star
  | .plus => some .plus
  | .ques => some .ques

/-- The nodes of a sequence of classes, with the one for `$` if it is `ended`. -/
inductive Nodes (ended : Bool) : List Re → List ((UInt8 → Bool) × Quantifier) → Prop
  | nil : ended = false → Nodes ended [] []
  | stop (re : Re) : ended = true → re.type = .end_ → Nodes ended [re] []
  | one (re : Re) {nodes : List Re} {xs : List ((UInt8 → Bool) × Quantifier)} :
      re.type.isQuantifier = false → ¬ (re.type = .end_ ∧ nodes = []) → Nodes ended nodes xs →
      Nodes ended (re :: nodes) ((matchOne re, .one) :: xs)
  | quantified (re op : Re) (q : Quantifier) {nodes : List Re}
      {xs : List ((UInt8 → Bool) × Quantifier)} :
      re.type.isQuantifier = false → quantifierType q = some op.type → Nodes ended nodes xs →
      Nodes ended (re :: op :: nodes) ((matchOne re, q) :: xs)

variable {ended : Bool} {nodes : List Re} {xs : List ((UInt8 → Bool) × Quantifier)}

variable {re : Re}

theorem Nodes.head (h : Nodes ended nodes xs) {rest : List Re} (hnodes : nodes = re :: rest) :
    re.type.isQuantifier = false := by
  cases h with
  | nil => cases hnodes
  | stop re _ htype =>
    obtain ⟨rfl, -⟩ := List.cons.inj hnodes
    rw [htype]
    rfl
  | one re hre =>
    obtain ⟨rfl, -⟩ := List.cons.inj hnodes
    exact hre
  | quantified re op q hre =>
    obtain ⟨rfl, -⟩ := List.cons.inj hnodes
    exact hre

variable (rest : List UInt8 → Bool)

theorem matchStar_iff (cur : Re) (text : List UInt8) : matchStar rest cur text = true ↔
      ∃ word post, word ++ post = text ∧ (∀ c ∈ word, matchOne cur c = true) ∧
        rest post = true := by
  induction text with
  | nil =>
    rw [matchStar]
    constructor
    · simp
    · simp
  | cons c text ih =>
    rw [matchStar, Bool.or_eq_true, Bool.and_eq_true, ih]
    constructor
    · rintro (h | ⟨hc, word, post, rfl, hword, h⟩)
      · exact ⟨[], c :: text, rfl, fun _ hc => absurd hc not_mem_nil, h⟩
      · exact ⟨c :: word, post, rfl, forall_mem_cons.2 ⟨hc, hword⟩, h⟩
    · rintro ⟨word, post, happend, hword, h⟩
      cases word with
      | nil =>
        rw [nil_append] at happend
        exact .inl (happend ▸ h)
      | cons d word =>
        grind

theorem matchPlus_eq (cur : Re) (c : UInt8) (text : List UInt8) :
    matchPlus rest cur (c :: text) = (matchOne cur c && matchStar rest cur text) := by
  induction text generalizing c with
  | nil => rw [matchPlus, matchPlus, matchStar, Bool.or_false]
  | cons d text ih => rw [matchPlus, ih, matchStar]

theorem matchHere_cons (hnodes : ∀ q rest, nodes = q :: rest → q.type.isQuantifier = false)
    (hlast : ¬ (re.type = .end_ ∧ nodes = [])) (text : List UInt8) :
    matchHere (re :: nodes) text = true ↔
      ∃ c rest, text = c :: rest ∧ matchOne re c = true ∧ matchHere nodes rest = true := by
  have hstep : matchHere (re :: nodes) [] = false ∧ ∀ c rest,
      matchHere (re :: nodes) (c :: rest) = (matchOne re c && matchHere nodes rest) := by
    cases nodes with
    | nil =>
      have hend : re.type ≠ .end_ := fun h => hlast ⟨h, rfl⟩
      simp [matchHere, hend]
    | cons q nodes =>
      have hq := hnodes q nodes rfl
      rw [matchHere.eq_def]
      simp only [matchHere.eq_def (re :: q :: nodes) (_ :: _)]
      cases hkind : q.type <;> rw [hkind] at hq <;> first | exact ⟨rfl, fun _ _ => rfl⟩ | cases hq
  cases text with
  | nil => simp [hstep.1]
  | cons c rest =>
    rw [hstep.2]
    rw [Bool.and_eq_true]
    constructor
    · simp
    · simp

theorem matchHere_quantified {op : Re} {q : Quantifier} (hop : quantifierType q = some op.type)
    (text : List UInt8) :
    matchHere (re :: op :: nodes) text = true ↔
      ∃ word ∈ q.lang (matchOne re), ∃ post, word ++ post = text ∧ matchHere nodes post = true := by
  rw [matchHere.eq_def]
  dsimp only
  cases q with
  | one => cases hop
  | star =>
    rw [← some.inj hop]
    rw [matchStar_iff]
    constructor
    · rintro ⟨word, post, happend, hword, h⟩
      exact ⟨word, mem_letters_kstar.2 hword, post, happend, h⟩
    · rintro ⟨word, hword, post, happend, h⟩
      exact ⟨word, post, happend, mem_letters_kstar.1 hword, h⟩
  | plus =>
    rw [← some.inj hop]
    cases text with
    | nil =>
      refine iff_of_false Bool.false_ne_true ?_
      rintro ⟨word, hword, post, happend, -⟩
      exact (mem_plus.1 hword).1 (append_eq_nil_iff.1 happend).1
    | cons c text =>
      rw [matchPlus_eq, Bool.and_eq_true, matchStar_iff]
      constructor
      · rintro ⟨hc, word, post, rfl, hword, h⟩
        exact ⟨c :: word, mem_plus.2 ⟨cons_ne_nil c word,
          forall_mem_cons.2 ⟨hc, hword⟩⟩, post, rfl, h⟩
      · rintro ⟨word, hword, post, happend, h⟩
        obtain ⟨hne, hall⟩ := mem_plus.1 hword
        obtain ⟨d, rest, rfl⟩ := exists_cons_of_ne_nil hne
        obtain ⟨rfl, rfl⟩ := List.cons.inj happend
        obtain ⟨hd, hrest⟩ := forall_mem_cons.1 hall
        exact ⟨hd, rest, post, rfl, hrest, h⟩
  | ques =>
    rw [← some.inj hop]
    have hmem (word : List UInt8) : word ∈ Quantifier.ques.lang (matchOne re) ↔
        word = [] ∨ ∃ c, matchOne re c = true ∧ word = [c] := Language.mem_add _ _ word
    cases text with
    | nil =>
      rw [matchQues]
      constructor
      · tauto
      · simp
    | cons c text =>
      rw [matchQues, Bool.or_eq_true, Bool.and_eq_true]
      constructor
      · rintro (⟨hc, h⟩ | h)
        · exact ⟨[c], (hmem [c]).2 (.inr ⟨c, hc, rfl⟩), text, rfl, h⟩
        · exact ⟨[], (hmem []).2 (.inl rfl), c :: text, rfl, h⟩
      · rintro ⟨word, hword, post, happend, h⟩
        obtain rfl | ⟨d, hd, rfl⟩ := (hmem word).1 hword
        · exact .inr (happend ▸ h)
        · obtain ⟨rfl, rfl⟩ := List.cons.inj happend
          exact .inl ⟨hd, h⟩

/-- The nodes match a text that begins with a word of their language. -/
theorem matchHere_iff (h : Nodes ended nodes xs) (text : List UInt8) : matchHere nodes text = true ↔
      ∃ word ∈ lang xs, ∃ post, word ++ post = text ∧ (ended = true → post = []) := by
  induction h generalizing text with
  | nil hended =>
    refine iff_of_true rfl ⟨[], mem_nil.2 rfl, text, rfl, fun h => ?_⟩
    rw [hended] at h
    cases h
  | stop re hended htype =>
    rw [matchHere.eq_def]
    dsimp only
    rw [if_pos htype, List.isEmpty_iff]
    constructor
    · tauto
    · simp [*]
  | one re hre hlast hnodes ih =>
    rw [matchHere_cons (fun q rest => hnodes.head) hlast]
    constructor
    · rintro ⟨c, rest, rfl, hc, hrest⟩
      obtain ⟨word, hword, post, rfl, hpost⟩ := (ih rest).1 hrest
      exact ⟨c :: word, mem_cons.2 ⟨[c], ⟨c, hc, rfl⟩, word, hword, rfl⟩, post, rfl, hpost⟩
    · rintro ⟨_, hword, post, rfl, hpost⟩
      obtain ⟨_, ⟨c, hc, rfl⟩, word, hword', rfl⟩ := mem_cons.1 hword
      exact ⟨c, word ++ post, rfl, hc, (ih _).2 ⟨word, hword', post, rfl, hpost⟩⟩
  | quantified re op q hre hop hnodes ih =>
    rw [matchHere_quantified hop]
    constructor
    · rintro ⟨first, hfirst, rest, rfl, hrest⟩
      obtain ⟨word, hword, post, rfl, hpost⟩ := (ih rest).1 hrest
      exact ⟨first ++ word, mem_cons.2 ⟨first, hfirst, word, hword, rfl⟩, post,
        append_assoc _ _ _, hpost⟩
    · rintro ⟨_, hword, post, rfl, hpost⟩
      obtain ⟨first, hfirst, word, hword', rfl⟩ := mem_cons.1 hword
      exact ⟨first, hfirst, word ++ post, (append_assoc _ _ _).symm,
        (ih _).2 ⟨word, hword', post, rfl, hpost⟩⟩

end Apackage.OpenAppFilter
