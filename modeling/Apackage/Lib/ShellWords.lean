import Mathlib.Data.List.Basic

/-
  The tokens of a POSIX shell command.

  A byte of a word is bare, between double quotes, or literal: only the first two can start an
  expansion. `tokens` is none for a text that ends within quotes, and for what it does not read:
  here-documents and the expansions that have an end of their own.

  `Reads text ts` says that the text is the tokens `ts`, wherever it stands between tokens. A
  text in single quotes, its quotes escaped, is one literal word (`reads_quoted`).
-/

namespace Apackage.Lib.ShellWords

open List Option

inductive Quoting
  | bare
  | double
  | literal
  deriving DecidableEq

structure WordByte where
  byte : UInt8
  quoting : Quoting
  deriving DecidableEq

inductive Token
  | word (w : List WordByte)
  | ioNumber (digits : List UInt8)
  | operator (op : List UInt8)
  deriving DecidableEq

inductive Mode
  | bare
  | single
  | double
  /-- Behind a bare backslash, or one between double quotes. -/
  | escape
  | doubleEscape
  | operator (op : List UInt8)
  | comment
  deriving DecidableEq

/-- The tokens read, the word that has begun, if any, and where the next byte stands. -/
structure State where
  done : List Token
  word : Option (List WordByte)
  mode : Mode
  deriving DecidableEq

def newline : UInt8 := 0x0A
def blanks : List UInt8 := [0x20, 0x09]
def doubleQuote : UInt8 := 0x22
def hash : UInt8 := 0x23
def dollarSign : UInt8 := 0x24
def singleQuote : UInt8 := 0x27
def backslash : UInt8 := 0x5C
def backquote : UInt8 := 0x60

/-- `& ( ) ; < > |`. -/
def operatorBytes : List UInt8 := [0x26, 0x28, 0x29, 0x3B, 0x3C, 0x3E, 0x7C]

/-- `&& || ;; >> <& >& <> >|`; a here-document is not read. -/
def longOperators : List (List UInt8) :=
  [[0x26, 0x26], [0x7C, 0x7C], [0x3B, 0x3B], [0x3E, 0x3E], [0x3C, 0x26], [0x3E, 0x26],
    [0x3C, 0x3E], [0x3E, 0x7C]]

/-- `<<`. -/
def hereDocument : List UInt8 := [0x3C, 0x3C]

def State.push (st : State) (t : Token) : State := { st with done := st.done ++ [t] }

/-- A word begins, if none has begun. -/
def State.beginWord (st : State) (mode : Mode) : State :=
  { st with word := some (st.word.getD []), mode }

def State.put (st : State) (b : UInt8) (quoting : Quoting) : State :=
  { st with word := some (st.word.getD [] ++ [⟨b, quoting⟩]) }

def isNumber (w : List WordByte) : Bool :=
  w ≠ [] && w.all fun c => c.quoting = .bare && 0x30 ≤ c.byte && c.byte ≤ 0x39

/-- The word ends, in front of a redirection or elsewhere. -/
def State.delimit (st : State) (redirection : Bool) : State :=
  match st.word with
  | none => st
  | some w =>
    { st with
      done := st.done ++ [if redirection && isNumber w then .ioNumber (w.map (·.byte)) else .word w]
      word := none }

/-- The last byte is a `$` that can start an expansion. -/
def State.atDollar (st : State) (quoting : Quoting) : Bool :=
  (st.word.getD []).getLast? = some ⟨dollarSign, quoting⟩

def stepBare (st : State) (b : UInt8) : Option State :=
  if b = backquote ∨ st.atDollar .bare ∧ b ∈ [0x28, 0x7B, singleQuote] then none
  else if b = singleQuote then some (st.beginWord .single)
  else if b = doubleQuote then some (st.beginWord .double)
  else if b = backslash then some { st with mode := .escape }
  else if b = newline then some ((st.delimit false).push (.operator [newline]))
  else if b ∈ blanks then some (st.delimit false)
  else if b ∈ operatorBytes then
    some { st.delimit (b = 0x3C ∨ b = 0x3E) with mode := .operator [b] }
  else if b = hash ∧ st.word = none then some { st with mode := .comment }
  else some (st.put b .bare)

def stepDouble (st : State) (b : UInt8) : Option State :=
  if b = backquote ∨ st.atDollar .double ∧ b ∈ [0x28, 0x7B] then none
  else if b = doubleQuote then some { st with mode := .bare }
  else if b = backslash then some { st with mode := .doubleEscape }
  else some (st.put b .double)

def step (st : State) (b : UInt8) : Option State :=
  match st.mode with
  | .bare => stepBare st b
  | .single => some (if b = singleQuote then { st with mode := .bare } else st.put b .literal)
  | .double => stepDouble st b
  | .escape =>
    some (if b = newline then { st with mode := .bare }
      else { st.put b .literal with mode := .bare })
  | .doubleEscape =>
    some (if b = newline then { st with mode := .double }
      else if b ∈ [dollarSign, backquote, doubleQuote, backslash] then
        { st.put b .literal with mode := .double }
      else { (st.put backslash .literal).put b .double with mode := .double })
  | .operator op =>
    if op ++ [b] = hereDocument then none
    else if op ++ [b] ∈ longOperators then some { st with mode := .operator (op ++ [b]) }
    else stepBare { st.push (.operator op) with mode := .bare } b
  | .comment =>
    some (if b = newline then { st.push (.operator [newline]) with mode := .bare } else st)

def scan (st : State) (text : List UInt8) : Option State := text.foldlM step st

def start : State := ⟨[], none, .bare⟩

def finish (st : State) : Option (List Token) :=
  match st.mode with
  | .bare => some (st.delimit false).done
  | .comment => some st.done
  | .operator op => some (st.done ++ [.operator op])
  | _ => none

def tokens (text : List UInt8) : Option (List Token) := (scan start text).bind finish

/-! ## Words -/

def bareWord (text : List UInt8) : Token := .word (text.map (⟨·, .bare⟩))

/-- A word without expansions: what it says is its text. -/
def literalWord (text : List UInt8) : Token := .word (text.map (⟨·, .literal⟩))

/-- The text between single quotes, with each `'` as `'\''`. -/
def escape (text : List UInt8) : List UInt8 :=
  text.flatMap fun b =>
    if b = singleQuote then [singleQuote, backslash, singleQuote, singleQuote] else [b]

theorem escape_of_not_mem {text : List UInt8} (h : singleQuote ∉ text) : escape text = text := by
  induction text with
  | nil => rfl
  | cons b text ih =>
    rw [List.mem_cons, not_or] at h
    rw [escape, flatMap_cons, if_neg fun hb => h.1 hb.symm, ← escape, ih h.2, singleton_append]

/-- A byte that is only itself in a word. -/
def plain (b : UInt8) : Bool :=
  b ≠ backquote && b ≠ singleQuote && b ≠ doubleQuote && b ≠ backslash && b ≠ newline &&
    !blanks.contains b && !operatorBytes.contains b && b ≠ hash && b ≠ dollarSign && b ≠ 0x7B

/-! ## Scanning piece by piece -/

theorem scan_cons (st : State) (b : UInt8) (text : List UInt8) :
    scan st (b :: text) = (step st b).bind fun st => scan st text := rfl

theorem scan_append (st : State) (s t : List UInt8) :
    scan st (s ++ t) = (scan st s).bind fun st => scan st t := by
  rw [scan, foldlM_append]
  rfl

/-- The same state behind other tokens. -/
def State.behind (front : List Token) (st : State) : State := { st with done := front ++ st.done }

section Behind

variable (front : List Token) (st : State)

theorem delimit_behind (redirection : Bool) :
    (st.behind front).delimit redirection = (st.delimit redirection).behind front := by
  obtain ⟨done, word, mode⟩ := st
  cases word with
  | none => rfl
  | some w => simp only [State.delimit, State.behind, append_assoc]

theorem push_behind (t : Token) : (st.behind front).push t = (st.push t).behind front := by
  simp only [State.push, State.behind, append_assoc]

theorem stepBare_behind (b : UInt8) :
    stepBare (st.behind front) b = (stepBare st b).map (State.behind front) := by
  have hdollar : (st.behind front).atDollar .bare = st.atDollar .bare := rfl
  have hword : (st.behind front).word = st.word := rfl
  unfold stepBare
  rw [hdollar, hword]
  simp only [delimit_behind, push_behind]
  split_ifs <;> rfl

theorem step_behind (b : UInt8) :
    step (st.behind front) b = (step st b).map (State.behind front) := by
  obtain ⟨done, word, mode⟩ := st
  cases mode with
  | bare => exact stepBare_behind front _ b
  | single =>
    unfold step
    split_ifs <;> rfl
  | double =>
    change stepDouble _ b = (stepDouble _ b).map _
    have hdollar : (State.behind front ⟨done, word, .double⟩).atDollar .double =
        State.atDollar ⟨done, word, .double⟩ .double := rfl
    unfold stepDouble
    rw [hdollar]
    split_ifs <;> rfl
  | escape =>
    unfold step
    split_ifs <;> rfl
  | doubleEscape =>
    unfold step
    split_ifs <;> rfl
  | operator op =>
    change (if op ++ [b] = hereDocument then none else _) = _
    unfold step
    dsimp only
    split_ifs
    · rfl
    · rfl
    · rw [← stepBare_behind]
      exact congrArg (stepBare · b) (by simp only [State.push, State.behind, append_assoc])
  | comment =>
    unfold step
    dsimp only [State.behind, State.push]
    split_ifs
    · simp only [map_some, State.behind, append_assoc]
    · rfl

theorem scan_behind (text : List UInt8) :
    scan (st.behind front) text = (scan st text).map (State.behind front) := by
  induction text generalizing st with
  | nil => rfl
  | cons b text ih =>
    rw [scan_cons, scan_cons, step_behind]
    cases step st b with
    | none => rfl
    | some st' => exact ih st'

end Behind

/-! ## Reading between tokens -/

/-- Wherever no word has begun, the text is these tokens and ends between tokens. -/
def Reads (text : List UInt8) (ts : List Token) : Prop :=
  ∀ done, scan ⟨done, none, .bare⟩ text = some ⟨done ++ ts, none, .bare⟩

theorem reads_of_start {text : List UInt8} {ts : List Token}
    (h : scan start text = some ⟨ts, none, .bare⟩) : Reads text ts := by
  intro done
  have hdone : (⟨done, none, .bare⟩ : State) = start.behind done := by
    rw [State.behind, start, append_nil]
  rw [hdone, scan_behind, h]
  rfl

theorem Reads.append {s t : List UInt8} {ss ts : List Token} (hs : Reads s ss) (ht : Reads t ts) :
    Reads (s ++ t) (ss ++ ts) := by
  intro done
  rw [scan_append, hs done, bind_some, ht, append_assoc]

/-- What follows a text that ends between tokens is read on its own. -/
theorem Reads.tokens_append {s t : List UInt8} {ss ts : List Token} (hs : Reads s ss)
    (ht : tokens t = some ts) : tokens (s ++ t) = some (ss ++ ts) := by
  have hss : (⟨[] ++ ss, none, .bare⟩ : State) = start.behind ss := by
    rw [State.behind, start, append_nil, nil_append]
  obtain ⟨st, hscan, hfinish⟩ := bind_eq_some_iff.mp ht
  rw [tokens, scan_append, start, hs [], bind_some, hss, scan_behind, hscan]
  change finish (st.behind ss) = some (ss ++ ts)
  obtain ⟨done, word, mode⟩ := st
  cases mode with
  | bare =>
    obtain rfl := some.inj hfinish
    exact congrArg some (congrArg State.done (delimit_behind ss ⟨done, word, .bare⟩ false))
  | comment =>
    obtain rfl := some.inj hfinish
    rfl
  | operator op =>
    obtain rfl := some.inj hfinish
    simp only [finish, State.behind, append_assoc]
  | single => cases hfinish
  | double => cases hfinish
  | escape => cases hfinish
  | doubleEscape => cases hfinish

variable (done : List Token) {b : UInt8}

theorem step_plain (word : Option (List WordByte)) (h : plain b = true) :
    step ⟨done, word, .bare⟩ b = some ⟨done, some (word.getD [] ++ [⟨b, .bare⟩]), .bare⟩ := by
  simp only [plain, blanks, operatorBytes, contains_eq_mem, List.mem_cons, not_mem_nil, or_false,
    Bool.and_eq_true, Bool.not_eq_true', decide_eq_true_eq, decide_eq_false_iff_not, not_or] at h
  simp [step, stepBare, State.put, blanks, operatorBytes, h]

theorem step_blank {w : List WordByte} (h : b ∈ blanks) :
    step ⟨done, some w, .bare⟩ b = some ⟨done ++ [.word w], none, .bare⟩ := by
  obtain rfl | rfl : b = 0x20 ∨ b = 0x09 := by simpa [blanks] using h
  · simp [step, stepBare, State.delimit, blanks, backquote, singleQuote, doubleQuote, backslash,
      newline]
  · simp [step, stepBare, State.delimit, blanks, backquote, singleQuote, doubleQuote, backslash,
      newline]

variable (w : List WordByte)

theorem scan_plain {text : List UInt8} (h : ∀ b ∈ text, plain b = true) :
    scan ⟨done, some w, .bare⟩ text = some ⟨done, some (w ++ text.map (⟨·, .bare⟩)), .bare⟩ := by
  induction text generalizing w with
  | nil =>
    rw [map_nil, append_nil]
    rfl
  | cons b text ih =>
    rw [scan_cons, step_plain done _ (h b mem_cons_self), bind_some, getD_some,
      ih _ fun c hc => h c (mem_cons_of_mem b hc), map_cons, append_assoc,
      singleton_append]

/-- Out of the quotes, a quote behind a backslash, and into the quotes again. -/
theorem scan_escapedQuote :
    scan ⟨done, some w, .single⟩ [singleQuote, backslash, singleQuote, singleQuote] =
      some ⟨done, some (w ++ [⟨singleQuote, .literal⟩]), .single⟩ := by
  have hleave : step ⟨done, some w, .single⟩ singleQuote = some ⟨done, some w, .bare⟩ := rfl
  have hbackslash : step ⟨done, some w, .bare⟩ backslash = some ⟨done, some w, .escape⟩ := by
    simp [step, stepBare, backslash, backquote, singleQuote, doubleQuote]
  have hput : step ⟨done, some w, .escape⟩ singleQuote =
      some ⟨done, some (w ++ [⟨singleQuote, .literal⟩]), .bare⟩ := rfl
  have henter : step ⟨done, some (w ++ [⟨singleQuote, .literal⟩]), .bare⟩ singleQuote =
      some ⟨done, some (w ++ [⟨singleQuote, .literal⟩]), .single⟩ := by
    simp [step, stepBare, State.atDollar, State.beginWord, backquote, singleQuote]
  rw [scan_cons, hleave, bind_some, scan_cons, hbackslash, bind_some, scan_cons,
    hput, bind_some, scan_cons, henter]
  rfl

theorem scan_escape (text : List UInt8) : scan ⟨done, some w, .single⟩ (escape text) =
      some ⟨done, some (w ++ text.map (⟨·, .literal⟩)), .single⟩ := by
  induction text generalizing w with
  | nil =>
    rw [map_nil, append_nil]
    rfl
  | cons b text ih =>
    have hbyte : scan ⟨done, some w, .single⟩
        (if b = singleQuote then [singleQuote, backslash, singleQuote, singleQuote] else [b]) =
          some ⟨done, some (w ++ [⟨b, .literal⟩]), .single⟩ := by
      split
      · rename_i hquote
        rw [hquote]
        exact scan_escapedQuote done w
      · rename_i hquote
        rw [scan_cons, step, if_neg hquote]
        rfl
    rw [escape, flatMap_cons, ← escape, scan_append, hbyte, bind_some, ih,
      map_cons, append_assoc, singleton_append]

theorem reads_plain {text : List UInt8} (hne : text ≠ []) (h : ∀ b ∈ text, plain b = true)
    (hb : b ∈ blanks) : Reads (text ++ [b]) [bareWord text] := by
  intro done
  obtain ⟨c, rest, rfl⟩ := exists_cons_of_ne_nil hne
  rw [cons_append, scan_cons, step_plain done none (h c mem_cons_self), bind_some, scan_append,
    scan_plain _ _ fun c' hc => h c' (mem_cons_of_mem c hc), bind_some, scan_cons,
    step_blank _ hb]
  rfl

/-- A text in single quotes, its quotes escaped, is one literal word. -/
theorem reads_quoted (text : List UInt8) (hb : b ∈ blanks) :
    Reads (singleQuote :: escape text ++ [singleQuote, b]) [literalWord text] := by
  intro done
  have hopen : step ⟨done, none, .bare⟩ singleQuote = some ⟨done, some [], .single⟩ := rfl
  have hclose (w : List WordByte) :
      step ⟨done, some w, .single⟩ singleQuote = some ⟨done, some w, .bare⟩ := rfl
  rw [cons_append, scan_cons, hopen, bind_some, scan_append, scan_escape,
    bind_some, scan_cons, hclose, bind_some, scan_cons, step_blank _ hb]
  rfl

end Apackage.Lib.ShellWords
