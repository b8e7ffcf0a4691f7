import Apackage.OpenAppFilter.RegexpLanguage
import Apackage.OpenAppFilter.Regexp

/-
  When `regexp_match` finds what a pattern says (`regexp_right`).

  `compile` leaves the field `ch` of a list as it was allocated, and every matcher compares with it,
  so that a list has one byte more. `\d` and `\D` are written past their allocation.
-/

namespace Apackage.OpenAppFilter.RegexpMeaning

open List Option Lib.Letters OpenAppFilter.RegexpLanguage
open OpenAppFilter.RegexpMemory

/-! ## Patterns that are matched as they say -/

def entryBytes : Entry → List UInt8
  | .single c => [c]
  | .range start stop =>
    start :: (List.range (stop.toNat - start.toNat)).map fun i => start + 1 + i.toUInt8

/-- What is written for an atom stays inside its allocation. -/
def AtomFits : Atom → Prop
  | .digit _ => False
  | .list _ entries => (entries.flatMap entryBytes).length < 256
  | _ => True

/-- The bytes of an atom, with another one if it is a list. -/
def hasWith (extra : Option UInt8) : Atom → UInt8 → Bool
  | .list neg entries, c => (Atom.list neg entries).has c || extra == some c
  | atom, c => atom.has c

/-- A class of an item, with another byte if it is a list. -/
def WithExtra (item : Item) (x : (UInt8 → Bool) × Quantifier) : Prop :=
  ∃ extra, x = (hasWith extra item.atom, item.quantifier)

/-- Another byte in each list adds no text. -/
def Harmless (p : Pattern) : Prop :=
  ∀ classes, List.Forall₂ WithExtra p.items classes →
    ∀ text, 0 ∉ text → p.FoundWith classes text → p.Found text

structure Fits (p : Pattern) : Prop where
  nonempty : p.text ≠ []
  atoms : ∀ item ∈ p.items, AtomFits item.atom
  harmless : Harmless p

/-- Whatever the memory held before, all stays inside, and the result says if the pattern is
    found. -/
def Right (p : Pattern) : Prop :=
  ∀ mem text, 0 ∉ text → ∃ r, regexpMatchIn mem (p.text ++ [0]) text = some r ∧
    (r = 1 ↔ p.Found text) ∧ (r = 0 ↔ ¬ p.Found text)

/-! ## Compilation -/

/-- Enough rounds of the loop end with `r`. -/
def CompilesTo (mem : Leftover) (k : ℕ) (reg : List UInt8) (r : Option Compiled) : Prop :=
  ∀ n, reg.length ≤ n → compileIn mem n k reg = r

section Compile

variable {mem : Leftover} {k : ℕ} {rest : List UInt8} {r : Option Compiled}

theorem compilesTo_zero : CompilesTo mem k [0] (some (.nodes [])) := by
  intro n hn
  cases n with
  | zero => cases hn
  | succ n => rw [compileIn, if_pos rfl]

theorem CompilesTo.plain (h : CompilesTo mem (k + 1) rest r) {c : UInt8} (hc : c ≠ 0)
    (hescape : c ≠ '\\'.toUInt8) (hopen : c ≠ '['.toUInt8) :
    CompilesTo mem k (c :: rest) (r.map (.cons (plainNode mem k c))) := by
  intro n hn
  cases n with
  | zero => cases hn
  | succ n =>
    rw [compileIn.eq_def]
    dsimp only
    rw [if_neg hc, if_neg hescape, if_neg hopen, h n (Nat.le_of_succ_le_succ hn)]

theorem CompilesTo.escaped (h : CompilesTo mem (k + 1) rest r) {c : UInt8}
    (hd : c ≠ 'd'.toUInt8) (hD : c ≠ 'D'.toUInt8) :
    CompilesTo mem k ('\\'.toUInt8 :: c :: rest) (r.map (.cons (escapedNode mem k c))) := by
  intro n hn
  cases n with
  | zero => cases hn
  | succ n =>
    rw [length_cons, length_cons] at hn
    rw [compileIn.eq_def]
    dsimp only
    rw [if_neg (by decide), if_pos rfl, if_neg (not_or.2 ⟨hd, hD⟩), h n (by omega)]

theorem compilesTo_digit (neg : Bool) :
    CompilesTo mem k ('\\'.toUInt8 :: (if neg then 'D'.toUInt8 else 'd'.toUInt8) :: rest) none := by
  intro n hn
  cases n with
  | zero => cases hn
  | succ n =>
    rw [compileIn.eq_def]
    dsimp only
    rw [if_neg (by decide), if_pos rfl]
    cases neg <;> rw [if_pos (by decide)]

theorem listIn_single {c : UInt8} (hc : c ≠ 0 ∧ c ≠ ']'.toUInt8 ∧ c ≠ '-'.toUInt8) (prev : UInt8)
    (ccl : List UInt8) : listIn prev ccl (c :: rest) =
      if ccl.length < 256 then listIn c (ccl ++ [c]) rest else none := by
  rw [listIn.eq_def]
  dsimp only
  rw [if_neg hc.1, if_neg hc.2.1, if_pos hc.2.2]

theorem listIn_dash {stop prev : UInt8} (hstop : stop ≠ ']'.toUInt8) (hle : prev ≤ stop)
    {ccl : List UInt8} (hccl : ccl ≠ []) :
    listIn prev ccl ('-'.toUInt8 :: stop :: rest) =
      if (ccl ++ (List.range (stop.toNat - prev.toNat)).map
          fun i => prev + 1 + i.toUInt8).length ≤ 256 then
        listIn stop (ccl ++ (List.range (stop.toNat - prev.toNat)).map
          fun i => prev + 1 + i.toUInt8) rest
      else none := by
  rw [listIn.eq_def]
  dsimp only
  rw [if_neg (by decide), if_neg (by decide), if_neg (by decide),
    if_neg (not_or.2 ⟨hccl, hstop⟩), creatList, if_pos hle]

theorem listIn_entries {entries : List Entry} (hvalid : ∀ e ∈ entries, e.Valid) (prev : UInt8)
    (ccl : List UInt8) :
    listIn prev ccl (entries.flatMap Entry.text ++ ']'.toUInt8 :: rest) =
      if (ccl ++ entries.flatMap entryBytes).length < 256 then
        some (.closed (ccl ++ entries.flatMap entryBytes) rest)
      else none := by
  induction entries generalizing prev ccl with
  | nil =>
    rw [flatMap_nil, flatMap_nil, nil_append, append_nil, listIn.eq_def]
    dsimp only
    rw [if_neg (by decide), if_pos rfl]
  | cons e entries ih =>
    obtain ⟨he, hentries⟩ := forall_mem_cons.1 hvalid
    rw [flatMap_cons, flatMap_cons, append_assoc]
    cases e with
    | single c =>
      rw [Entry.text, entryBytes, singleton_append, listIn_single he, ih hentries, append_assoc]
      by_cases hlt : ccl.length < 256
      · rw [if_pos hlt]
      · rw [if_neg hlt, if_neg (by rw [length_append]; omega)]
    | range start stop =>
      obtain ⟨hstart, hstop, hle⟩ := he
      have hne : ccl ++ [start] ≠ [] := append_ne_nil_of_right_ne_nil _ (cons_ne_nil _ _)
      rw [Entry.text, entryBytes, cons_append, cons_append, cons_append,
        nil_append, listIn_single hstart, listIn_dash hstop hle hne, ih hentries]
      generalize (List.range (stop.toNat - start.toNat)).map
        (fun i => start + 1 + i.toUInt8) = between
      generalize entries.flatMap entryBytes = others
      have happend :
          ccl ++ [start] ++ between ++ others = ccl ++ (start :: (between ++ others)) := by
        simp
      have hlength : (ccl ++ (start :: (between ++ others))).length =
          ccl.length + (between.length + others.length + 1) := by
        simp
      rw [happend]
      simp only [cons_append]
      by_cases hroom : (ccl ++ (start :: (between ++ others))).length < 256
      · rw [if_pos (by omega), if_pos (by simp; omega)]
      · rw [if_neg hroom, ite_self, ite_self]

theorem compileIn_bracket (neg : Bool) {body : List UInt8}
    (hhead : neg = false → body.head? ≠ some '^'.toUInt8) (n : ℕ) :
    compileIn mem (n + 1) k
        ('['.toUInt8 :: ((if neg then ['^'.toUInt8] else []) ++ body)) =
      match listIn 0 [] body with
      | none => none
      | some .error => some .error
      | some (.closed ccl rest) =>
        (compileIn mem n (k + 1) rest).map (.cons ⟨.list, mem.ch k, ccl, neg⟩) := by
  rw [compileIn.eq_def]
  dsimp only
  rw [if_neg (by decide), if_neg (by decide), if_pos rfl]
  cases neg with
  | true => rfl
  | false =>
    grind

def atomNode (mem : Leftover) (k : ℕ) : Atom → Re
  | .lit c => plainNode mem k c
  | .escaped c => escapedNode mem k c
  | .any => plainNode mem k '.'.toUInt8
  | .digit neg => ⟨.list, mem.ch k, digitList mem k, neg⟩
  | .list neg entries => ⟨.list, mem.ch k, entries.flatMap entryBytes, neg⟩

theorem CompilesTo.atom (h : CompilesTo mem (k + 1) rest r) {atom : Atom} (hvalid : atom.Valid) :
    (AtomFits atom ∧ CompilesTo mem k (atom.text ++ rest) (r.map (.cons (atomNode mem k atom)))) ∨
    ¬ AtomFits atom ∧ CompilesTo mem k (atom.text ++ rest) none := by
  cases atom with
  | lit c =>
    obtain ⟨hc, hspecial⟩ := hvalid
    refine .inl ⟨trivial, h.plain hc ?_ ?_⟩
    · rintro rfl
      exact hspecial (by decide)
    · rintro rfl
      exact hspecial (by decide)
  | escaped c => exact .inl ⟨trivial, h.escaped hvalid.2.1 hvalid.2.2⟩
  | any => exact .inl ⟨trivial, h.plain (by decide) (by decide) (by decide)⟩
  | digit neg => exact .inr ⟨id, compilesTo_digit neg⟩
  | list neg entries =>
    obtain ⟨hentries, hhead⟩ := hvalid
    have hbody : neg = false →
        (entries.flatMap Entry.text ++ ']'.toUInt8 :: rest).head? ≠ some '^'.toUInt8 := by
      intro hneg h
      rw [head?_append] at h
      cases hfirst : (entries.flatMap Entry.text).head? with
      | none =>
        rw [hfirst] at h
        exact absurd (some.inj h) (by decide)
      | some c =>
        rw [hfirst] at h
        exact hhead hneg (hfirst.trans h)
    have htext : (Atom.list neg entries).text ++ rest = '['.toUInt8 ::
        ((if neg then ['^'.toUInt8] else []) ++
          (entries.flatMap Entry.text ++ ']'.toUInt8 :: rest)) := by
      simp [Atom.text]
    have hlist := @listIn_entries rest entries hentries 0 []
    rw [nil_append] at hlist
    rw [htext]
    have hcompile (n : ℕ) := @compileIn_bracket mem k neg _ hbody n
    by_cases hroom : (entries.flatMap entryBytes).length < 256
    · rw [if_pos hroom] at hlist
      refine .inl ⟨hroom, fun n hn => ?_⟩
      cases n with
      | zero => cases hn
      | succ n =>
        have hrest : rest.length ≤ n := by
          simp only [length_cons, length_append] at hn
          omega
        rw [hcompile, hlist]
        dsimp only
        rw [h n hrest, atomNode]
    · rw [if_neg hroom] at hlist
      refine .inr ⟨hroom, fun n hn => ?_⟩
      cases n with
      | zero => cases hn
      | succ n => rw [hcompile, hlist]

def quantifierNodes (mem : Leftover) (k : ℕ) (q : Quantifier) : List Re :=
  (quantifierText q).map (plainNode mem k)

/-- The nodes of the items, and the one for the end. -/
def nodesFrom (mem : Leftover) (ended : Bool) : ℕ → List Item → List Re
  | k, [] => if ended then [plainNode mem k '$'.toUInt8] else []
  | k, item :: items =>
    atomNode mem k item.atom :: (quantifierNodes mem (k + 1) item.quantifier ++
      nodesFrom mem ended (k + 1 + (quantifierText item.quantifier).length) items)

def classesFrom (mem : Leftover) : ℕ → List Item → List ((UInt8 → Bool) × Quantifier)
  | _, [] => []
  | k, item :: items =>
    (matchOne (atomNode mem k item.atom), item.quantifier) ::
      classesFrom mem (k + 1 + (quantifierText item.quantifier).length) items

theorem CompilesTo.quantifier {q : Quantifier}
    (h : CompilesTo mem (k + (quantifierText q).length) rest r) :
    CompilesTo mem k (quantifierText q ++ rest)
      (r.map fun c => (quantifierNodes mem k q).foldr .cons c) := by
  cases q with
  | one => cases r <;> exact h
  | star => exact CompilesTo.plain h (by decide) (by decide) (by decide)
  | plus => exact CompilesTo.plain h (by decide) (by decide) (by decide)
  | ques => exact CompilesTo.plain h (by decide) (by decide) (by decide)

theorem foldr_cons_nodes (front nodes : List Re) :
    front.foldr Compiled.cons (.nodes nodes) = .nodes (front ++ nodes) := by
  induction front with
  | nil => rfl
  | cons re front ih => rw [foldr_cons, ih, Compiled.cons, cons_append]

theorem compilesTo_items (ended : Bool) {items : List Item}
    (hvalid : ∀ item ∈ items, item.atom.Valid) (k : ℕ) :
    ((∀ item ∈ items, AtomFits item.atom) ∧ CompilesTo mem k
        (items.flatMap Item.text ++ ((if ended then ['$'.toUInt8] else []) ++ [0]))
        (some (.nodes (nodesFrom mem ended k items)))) ∨
    (¬ ∀ item ∈ items, AtomFits item.atom) ∧ CompilesTo mem k
        (items.flatMap Item.text ++ ((if ended then ['$'.toUInt8] else []) ++ [0])) none := by
  induction items generalizing k with
  | nil =>
    refine .inl ⟨fun _ h => absurd h not_mem_nil, ?_⟩
    cases ended with
    | true => exact CompilesTo.plain compilesTo_zero (by decide) (by decide) (by decide)
    | false => exact compilesTo_zero
  | cons item items ih =>
    obtain ⟨hitem, hitems⟩ := forall_mem_cons.1 hvalid
    have htext : (item :: items).flatMap Item.text ++
        ((if ended then ['$'.toUInt8] else []) ++ [0]) =
          item.atom.text ++ (quantifierText item.quantifier ++
            (items.flatMap Item.text ++ ((if ended then ['$'.toUInt8] else []) ++ [0]))) := by
      simp [Item.text]
    rw [htext, forall_mem_cons]
    obtain ⟨hfits, h⟩ | ⟨hnot, h⟩ := ih hitems (k + 1 + (quantifierText item.quantifier).length)
    · obtain ⟨hatom, h'⟩ | ⟨hatom, h'⟩ := h.quantifier.atom hitem
      · refine .inl ⟨⟨hatom, hfits⟩, ?_⟩
        rw [map_some, foldr_cons_nodes] at h'
        exact h'
      · exact .inr ⟨fun h => hatom h.1, h'⟩
    · obtain ⟨-, h'⟩ | ⟨-, h'⟩ := h.quantifier.atom hitem
      · exact .inr ⟨fun h => hnot h.2, h'⟩
      · exact .inr ⟨fun h => hnot h.2, h'⟩

end Compile

/-! ## Nodes -/

section Nodes

variable {mem : Leftover}

theorem plainNode_lit (mem : Leftover) (k : ℕ) {c : UInt8} (h : c ∉ special) : plainNode mem k c =
      ⟨if c = '^'.toUInt8 then .begin else if c = '$'.toUInt8 then .end_ else .char, some c, [],
        false⟩ := by
  have hne {d : UInt8} (hd : d ∈ special) : c ≠ d := fun heq => h (heq ▸ hd)
  rw [plainNode, if_neg (hne (by decide))]
  by_cases hbegin : c = '^'.toUInt8
  · rw [if_pos hbegin, if_pos hbegin]
  rw [if_neg hbegin, if_neg hbegin]
  by_cases hend : c = '$'.toUInt8
  · rw [if_pos hend, if_pos hend]
  rw [if_neg hend, if_neg hend, if_neg (hne (by decide)), if_neg (hne (by decide)),
    if_neg (hne (by decide))]

theorem atomNode_type (mem : Leftover) (k : ℕ) {atom : Atom} (hvalid : atom.Valid) :
    (atomNode mem k atom).type.isQuantifier = false ∧
      ((atomNode mem k atom).type = .begin → atom = .lit '^'.toUInt8) ∧
      ((atomNode mem k atom).type = .end_ → atom = .lit '$'.toUInt8) := by
  cases atom with
  | lit c =>
    rw [atomNode, plainNode_lit mem k hvalid.2]
    by_cases hbegin : c = '^'.toUInt8
    · rw [if_pos hbegin]
      exact ⟨rfl, fun _ => congrArg Atom.lit hbegin, fun h => nomatch h⟩
    rw [if_neg hbegin]
    by_cases hend : c = '$'.toUInt8
    · rw [if_pos hend]
      exact ⟨rfl, fun h => (nomatch h), fun _ => congrArg Atom.lit hend⟩
    · rw [if_neg hend]
      exact ⟨rfl, fun h => (nomatch h), fun h => nomatch h⟩
  | escaped c =>
    obtain ⟨-, hd, hD⟩ := hvalid
    rw [atomNode, escapedNode, if_neg hd, if_neg hD]
    exact ⟨rfl, fun h => (nomatch h), fun h => nomatch h⟩
  | any => exact ⟨rfl, fun h => (nomatch h), fun h => nomatch h⟩
  | digit neg => exact ⟨rfl, fun h => (nomatch h), fun h => nomatch h⟩
  | list neg entries => exact ⟨rfl, fun h => (nomatch h), fun h => nomatch h⟩

theorem mem_entryBytes {e : Entry} (hvalid : e.Valid) (c : UInt8) :
    c ∈ entryBytes e ↔ e.has c = true := by
  cases e with
  | single d => rw [entryBytes, mem_singleton, Entry.has, beq_iff_eq]
  | range start stop =>
    obtain ⟨-, -, hle⟩ := hvalid
    rw [entryBytes, Entry.has, List.mem_cons, List.mem_map, Bool.and_eq_true, decide_eq_true_iff,
      decide_eq_true_iff]
    rw [UInt8.le_iff_toNat_le] at hle
    have hstop := stop.toNat_lt
    have hadd {i : ℕ} (hi : start.toNat + 1 + i < 256) :
        (start + 1 + i.toUInt8).toNat = start.toNat + 1 + i := by
      have hone : (1 : UInt8).toNat = 1 := rfl
      have hi' : i.toUInt8.toNat = i % 2 ^ 8 := UInt8.toNat_ofNat'
      rw [UInt8.toNat_add, UInt8.toNat_add, hone, hi']
      omega
    simp only [mem_range, UInt8.le_iff_toNat_le]
    constructor
    · rintro (rfl | ⟨i, hi, rfl⟩)
      · exact ⟨le_rfl, hle⟩
      · rw [hadd (by omega)]
        omega
    · rintro ⟨hlo, hhi⟩
      by_cases hfirst : c = start
      · exact .inl hfirst
      · have hne : c.toNat ≠ start.toNat := fun h => hfirst (UInt8.toNat_inj.1 h)
        refine .inr ⟨c.toNat - start.toNat - 1, by omega, UInt8.toNat_inj.1 ?_⟩
        rw [hadd (by omega)]
        omega

theorem some_beq_some (d c : UInt8) : (some d == some c) = (c == d) := by
  rw [Bool.eq_iff_iff, beq_iff_eq, beq_iff_eq, some_inj]
  exact eq_comm

theorem matchOne_atomNode (mem : Leftover) (k : ℕ) {atom : Atom} (hvalid : atom.Valid)
    (hfits : AtomFits atom) : matchOne (atomNode mem k atom) = hasWith (mem.ch k) atom := by
  funext c
  cases atom with
  | lit d =>
    have htype : (plainNode mem k d).type ≠ .dot ∧ (plainNode mem k d).type ≠ .list := by
      rw [plainNode_lit mem k hvalid.2]
      constructor <;> split <;> (try split) <;> exact fun h => nomatch h
    have hch : (plainNode mem k d).ch = some d := by rw [plainNode_lit mem k hvalid.2]
    rw [atomNode, matchOne, inList, hch, beq_eq_false_iff_ne.2 htype.1,
      beq_eq_false_iff_ne.2 htype.2, Bool.false_and, Bool.false_or, Bool.false_or]
    exact some_beq_some d c
  | escaped d =>
    obtain ⟨-, hd, hD⟩ := hvalid
    rw [atomNode, escapedNode, if_neg hd, if_neg hD]
    exact some_beq_some d c
  | any => rfl
  | digit neg => exact absurd hfits id
  | list neg entries =>
    have hcontains : (entries.flatMap entryBytes).contains c = entries.any (·.has c) := by
      rw [Bool.eq_iff_iff, contains_iff_mem, mem_flatMap, List.any_eq_true]
      refine exists_congr fun e => and_congr_right fun he => ?_
      exact mem_entryBytes (hvalid.1 e he) c
    rw [hasWith, Atom.has, ← hcontains]
    rfl

theorem nodes_item {ended : Bool} {nodes : List Re} {xs : List ((UInt8 → Bool) × Quantifier)}
    (h : Nodes ended nodes xs) {re : Re} {q : Quantifier} (hre : re.type.isQuantifier = false)
    (hlast : q = .one → ¬ (re.type = .end_ ∧ nodes = [])) (k : ℕ) :
    Nodes ended (re :: (quantifierNodes mem k q ++ nodes)) ((matchOne re, q) :: xs) := by
  cases q with
  | one => exact .one re hre (hlast rfl) h
  | star => exact .quantified re _ .star hre rfl h
  | plus => exact .quantified re _ .plus hre rfl h
  | ques => exact .quantified re _ .ques hre rfl h

variable {items : List Item}

theorem nodesFrom_eq_nil {ended : Bool} {k : ℕ} (h : nodesFrom mem ended k items = []) :
    ended = false ∧ items = [] := by
  cases items with
  | nil =>
    cases ended with
    | true => cases h
    | false => exact ⟨rfl, rfl⟩
  | cons item items => cases h

theorem nodes_nodesFrom (ended : Bool) {items : List Item}
    (hvalid : ∀ item ∈ items, item.atom.Valid)
    (hlast : ended = false → items.getLast? ≠ some ⟨.lit '$'.toUInt8, .one⟩) (k : ℕ) :
    Nodes ended (nodesFrom mem ended k items) (classesFrom mem k items) := by
  induction items generalizing k with
  | nil =>
    rw [nodesFrom, classesFrom]
    cases ended with
    | true => exact .stop _ rfl rfl
    | false => exact .nil rfl
  | cons item items ih =>
    obtain ⟨hitem, hitems⟩ := forall_mem_cons.1 hvalid
    obtain ⟨hkind, -, hdollar⟩ := atomNode_type mem k hitem
    have hlast' : ended = false → items.getLast? ≠ some ⟨.lit '$'.toUInt8, .one⟩ := by
      intro hended h
      refine hlast hended ?_
      rw [getLast?_cons, h]
      rfl
    refine nodes_item (ih hitems hlast' _) hkind ?_ (k + 1)
    rintro hone ⟨htype, hnil⟩
    obtain ⟨hended, rfl⟩ := nodesFrom_eq_nil hnil
    refine hlast hended (congrArg some ?_)
    rw [getLast_singleton, ← hdollar htype, ← hone]

/-! ## Classes -/

theorem withExtra_classesFrom (mem : Leftover) (hvalid : ∀ item ∈ items, item.atom.Valid)
    (hfits : ∀ item ∈ items, AtomFits item.atom) (k : ℕ) :
    List.Forall₂ WithExtra items (classesFrom mem k items) := by
  induction items generalizing k with
  | nil => exact .nil
  | cons item items ih =>
    obtain ⟨hitem, hitems⟩ := forall_mem_cons.1 hvalid
    obtain ⟨hatom, hatoms⟩ := forall_mem_cons.1 hfits
    refine .cons ⟨mem.ch k, ?_⟩ (ih hitems hatoms _)
    rw [matchOne_atomNode mem k hitem hatom]

theorem exists_classesFrom {classes : List ((UInt8 → Bool) × Quantifier)}
    (hvalid : ∀ item ∈ items, item.atom.Valid) (hfits : ∀ item ∈ items, AtomFits item.atom)
    (hclasses : List.Forall₂ WithExtra items classes) (k : ℕ) :
    ∃ ch : ℕ → Option UInt8, ∀ mem : Leftover, (∀ i, k ≤ i → mem.ch i = ch i) →
      classesFrom mem k items = classes := by
  induction hclasses generalizing k with
  | nil => exact ⟨fun _ => none, fun _ _ => rfl⟩
  | @cons item x items classes hx _ ih =>
    obtain ⟨extra, rfl⟩ := hx
    obtain ⟨hitem, hitems⟩ := forall_mem_cons.1 hvalid
    obtain ⟨hatom, hatoms⟩ := forall_mem_cons.1 hfits
    obtain ⟨ch, hch⟩ := ih hitems hatoms (k + 1 + (quantifierText item.quantifier).length)
    refine ⟨fun i => if i = k then extra else ch i, fun mem hmem => ?_⟩
    have hk : mem.ch k = extra := (hmem k le_rfl).trans (if_pos rfl)
    have hnext : ∀ i, k + 1 + (quantifierText item.quantifier).length ≤ i → mem.ch i = ch i := by
      intro i hi
      rw [hmem i (by omega)]
      exact if_neg (by omega)
    rw [classesFrom, hch mem hnext, matchOne_atomNode mem k hitem hatom, hk]

theorem has_hasWith (extra : Option UInt8) {atom : Atom} {c : UInt8} (h : atom.has c = true) :
    hasWith extra atom c = true := by
  cases atom with
  | list neg entries =>
    rw [hasWith, h]
    rfl
  | lit d => exact h
  | escaped d => exact h
  | digit neg => exact h
  | any => rfl

theorem foundWith_of_found {p : Pattern} {classes : List ((UInt8 → Bool) × Quantifier)}
    (hclasses : List.Forall₂ WithExtra p.items classes) {text : List UInt8} (h : p.Found text) :
    p.FoundWith classes text := by
  obtain ⟨pre, word, hword, post, happend, hpre, hpost⟩ := h
  refine ⟨pre, word, lang_mono ?_ hword, post, happend, hpre, hpost⟩
  rw [Pattern.classes, forall₂_map_left_iff]
  refine hclasses.imp ?_
  rintro item _ ⟨extra, rfl⟩
  exact ⟨rfl, fun c => has_hasWith extra⟩

end Nodes

/-! ## Results -/

section Results

variable {p : Pattern}

/-- The number of nodes before those of the items. -/
def startOf (p : Pattern) : ℕ := if p.anchored then 1 else 0

def nodesOf (mem : Leftover) (p : Pattern) : List Re :=
  (if p.anchored then [plainNode mem 0 '^'.toUInt8] else []) ++
    nodesFrom mem p.ended (startOf p) p.items

theorem compileIn_text (mem : Leftover) (p : Pattern) : ((∀ item ∈ p.items, AtomFits item.atom) ∧
      compileIn mem (p.text ++ [0]).length 0 (p.text ++ [0]) = some (.nodes (nodesOf mem p))) ∨
    (¬ ∀ item ∈ p.items, AtomFits item.atom) ∧
      compileIn mem (p.text ++ [0]).length 0 (p.text ++ [0]) = none := by
  have h := @compilesTo_items mem p.ended p.items p.valid (startOf p)
  have htext : p.text ++ [0] = (if p.anchored then ['^'.toUInt8] else []) ++
      (p.items.flatMap Item.text ++ ((if p.ended then ['$'.toUInt8] else []) ++ [0])) := by
    simp [Pattern.text]
  rw [htext, nodesOf]
  generalize p.items.flatMap Item.text ++ ((if p.ended then ['$'.toUInt8] else []) ++ [0]) = rest
    at h
  unfold startOf at h ⊢
  cases hanchored : p.anchored with
  | true =>
    rw [hanchored] at h
    have hplain {r : Option Compiled} (h : CompilesTo mem 1 rest r) :=
      h.plain (k := 0) (c := '^'.toUInt8) (by decide) (by decide) (by decide)
    obtain ⟨hfits, h⟩ | ⟨hnot, h⟩ := h
    · exact .inl ⟨hfits, hplain h _ le_rfl⟩
    · exact .inr ⟨hnot, hplain h _ le_rfl⟩
  | false =>
    rw [hanchored] at h
    obtain ⟨hfits, h⟩ | ⟨hnot, h⟩ := h
    · exact .inl ⟨hfits, h _ le_rfl⟩
    · exact .inr ⟨hnot, h _ le_rfl⟩

theorem matchNodes_nodesOf (mem : Leftover) (hne : p.text ≠ []) (text : List UInt8) :
    ∃ b : Bool, matchNodes text (.nodes (nodesOf mem p)) = (if b then 1 else 0) ∧
      (b = true ↔ p.FoundWith (classesFrom mem (startOf p) p.items) text) := by
  have hnodes := @nodes_nodesFrom mem p.ended p.items p.valid p.last (startOf p)
  unfold nodesOf
  cases hanchored : p.anchored with
  | true =>
    refine ⟨matchHere (nodesFrom mem p.ended (startOf p) p.items) text, rfl, ?_⟩
    rw [matchHere_iff hnodes]
    constructor
    · rintro ⟨word, hword, post, happend, hpost⟩
      exact ⟨[], word, hword, post, happend, fun _ => rfl, hpost⟩
    · rintro ⟨pre, word, hword, post, happend, hpre, hpost⟩
      rw [hpre hanchored] at happend
      exact ⟨word, hword, post, happend, hpost⟩
  | false =>
    refine ⟨text.tails.any (matchHere (nodesFrom mem p.ended (startOf p) p.items)), ?_, ?_⟩
    · cases hitems : p.items with
      | nil =>
        cases hended : p.ended with
        | true => rfl
        | false =>
          refine absurd ?_ hne
          rw [Pattern.text, hanchored, hitems, hended]
          rfl
      | cons item items =>
        have hitem : item.atom.Valid := p.valid item (hitems ▸ mem_cons_self)
        have hbegin : (atomNode mem (startOf p) item.atom).type ≠ .begin := fun htype =>
          p.first hanchored item (hitems ▸ rfl) ((atomNode_type mem (startOf p) hitem).2.1 htype)
        rw [nodesFrom, if_neg Bool.false_ne_true, nil_append, matchNodes, if_neg hbegin]
    · rw [List.any_eq_true]
      constructor
      · rintro ⟨tail, htail, h⟩
        obtain ⟨pre, rfl⟩ := (mem_tails _ _).1 htail
        obtain ⟨word, hword, post, rfl, hpost⟩ := (matchHere_iff hnodes tail).1 h
        refine ⟨pre, word, hword, post, rfl, fun h => ?_, hpost⟩
        rw [hanchored] at h
        cases h
      · rintro ⟨pre, word, hword, post, rfl, -, hpost⟩
        exact ⟨word ++ post, (mem_tails _ _).2 ⟨pre, rfl⟩,
          (matchHere_iff hnodes _).2 ⟨word, hword, post, rfl, hpost⟩⟩

theorem regexpMatchIn_text (mem : Leftover) (hne : p.text ≠ [])
    (hfits : ∀ item ∈ p.items, AtomFits item.atom) (text : List UInt8) :
    ∃ b : Bool, regexpMatchIn mem (p.text ++ [0]) text = some (if b then 1 else 0) ∧
      (b = true ↔ p.FoundWith (classesFrom mem (startOf p) p.items) text) := by
  obtain ⟨-, h⟩ | ⟨hnot, -⟩ := compileIn_text mem p
  · obtain ⟨b, hmatch, hb⟩ := matchNodes_nodesOf mem hne text
    refine ⟨b, ?_, hb⟩
    rw [regexpMatchIn, h, map_some, hmatch]
  · exact absurd hfits hnot

theorem Fits.right (h : Fits p) : Right p := by
  intro mem text hzero
  obtain ⟨b, hmatch, hb⟩ := regexpMatchIn_text mem h.nonempty h.atoms text
  have hclasses := withExtra_classesFrom mem p.valid h.atoms (startOf p)
  have hfound : b = true ↔ p.Found text :=
    hb.trans ⟨h.harmless _ hclasses text hzero, foundWith_of_found hclasses⟩
  refine ⟨_, hmatch, ?_⟩
  rw [← hfound]
  cases b <;> decide

theorem Right.fits (h : Right p) : Fits p := by
  have hne : p.text ≠ [] := by
    intro hnil
    obtain ⟨r, hr, hone, hzero⟩ := h ⟨fun _ => none, fun _ => 0, fun _ => []⟩ [] not_mem_nil
    rw [hnil] at hr
    obtain rfl := some.inj hr
    by_cases hfound : p.Found []
    · exact absurd (hone.2 hfound) (by decide)
    · exact absurd (hzero.2 hfound) (by decide)
  have hfits : ∀ item ∈ p.items, AtomFits item.atom := by
    obtain ⟨hfits, -⟩ | ⟨-, hnone⟩ := compileIn_text ⟨fun _ => none, fun _ => 0, fun _ => []⟩ p
    · exact hfits
    · obtain ⟨r, hr, -⟩ := h ⟨fun _ => none, fun _ => 0, fun _ => []⟩ [] not_mem_nil
      rw [regexpMatchIn, hnone] at hr
      cases hr
  refine ⟨hne, hfits, fun classes hclasses text hzero hfound => ?_⟩
  obtain ⟨ch, hch⟩ := exists_classesFrom p.valid hfits hclasses (startOf p)
  obtain ⟨b, hmatch, hb⟩ := regexpMatchIn_text ⟨ch, fun _ => 0, fun _ => []⟩ hne hfits text
  obtain ⟨r, hr, hone, -⟩ := h ⟨ch, fun _ => 0, fun _ => []⟩ text hzero
  rw [hch _ fun _ _ => rfl] at hb
  obtain rfl := hb.2 hfound
  rw [hmatch] at hr
  exact hone.1 (some.inj hr).symm

/-- Exactly these patterns are matched as they say, inside the memory, whatever that held before. -/
theorem regexp_right (p : Pattern) : Right p ↔ Fits p := ⟨Right.fits, Fits.right⟩

end Results

/-! ## A list that finds what it does not have -/

/-- `[a]`. -/
def listPattern : Pattern where
  anchored := false
  items := [⟨.list false [.single 'a'.toUInt8], .one⟩]
  ended := false
  valid := by
    intro item hitem
    rw [mem_singleton.1 hitem]
    refine ⟨?_, fun _ => by decide⟩
    intro e he
    rw [mem_singleton.1 he]
    exact ⟨by decide, by decide, by decide⟩
  first := by
    rintro _ item h
    obtain rfl := some.inj h
    exact fun h => nomatch h
  last := by decide

/-- `[a]` finds itself in `b`, where that byte was left in its field. -/
theorem list_not_right :
    regexpMatchIn ⟨fun _ => some 'b'.toUInt8, fun _ => 0, fun _ => []⟩ (listPattern.text ++ [0])
        ['b'.toUInt8] = some 1 ∧
      ¬ listPattern.Found ['b'.toUInt8] ∧ ¬ Right listPattern := by
  have hresult : regexpMatchIn ⟨fun _ => some 'b'.toUInt8, fun _ => 0, fun _ => []⟩
      (listPattern.text ++ [0]) ['b'.toUInt8] = some 1 := by decide
  have hnot : ¬ listPattern.Found ['b'.toUInt8] := by
    rintro ⟨pre, word, hword, post, happend, -⟩
    obtain ⟨_, ⟨c, hc, rfl⟩, rest, -, rfl⟩ := mem_cons.1 hword
    have hmem : c ∈ ['b'.toUInt8] := by
      rw [← happend]
      simp
    rw [mem_singleton.1 hmem] at hc
    revert hc
    decide
  refine ⟨hresult, hnot, fun h => ?_⟩
  obtain ⟨r, hr, hone, -⟩ := h _ ['b'.toUInt8] (by decide)
  rw [hresult] at hr
  exact hnot (hone.1 (some.inj hr).symm)

end Apackage.OpenAppFilter.RegexpMeaning
