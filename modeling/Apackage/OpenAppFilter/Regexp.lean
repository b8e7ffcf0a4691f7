import Mathlib.Data.List.Infix

/-
  The regular expressions of the features (`regexp.c`).

  Model. `char` is unsigned, as in a kernel. The nodes come from `kmalloc`, and `compile` sets `ch`
  only in nodes that stand for a character; what the others hold is a parameter, as is the byte after
  the digits of `\d` and `\D`, which is never written. The array of a pattern is zero after its end. A
  list whose writes leave its 256 bytes is not modelled further: a parameter says what comes of it.
  `match_longest` is 0 throughout.

  `RegexpMemory` has `compile` with the bounds of what it reads and writes: a pattern ends with its
  zero, a list has 256 bytes, and that of `\d` has 11. A read or write outside is none.
-/

namespace Apackage.OpenAppFilter

inductive ReType
  | char | dot | begin | end_ | star | plus | ques | list
  deriving DecidableEq

/-- `RE`; `ch` is the byte that is equal to the field, if there is one. -/
structure Re where
  type : ReType
  ch : Option UInt8
  ccl : List UInt8
  nccl : Bool

/-- What the memory holds that `compile` does not write, in the allocations for the `n`-th node. -/
structure Leftover where
  ch : ℕ → Option UInt8
  digit : ℕ → UInt8
  stray : List UInt8 → List Re

/-! ## Compilation -/

/-- `creat_list` at the end of a list that has `ccl`: the bytes from `start` to `stop`. From a `stop`
    below it goes back, and may leave the list. -/
def creatList (ccl : List UInt8) (prev stop : UInt8) : Option (List UInt8) :=
  if prev ≤ stop then
    some (ccl ++ (List.range (stop.toNat - prev.toNat)).map fun i => prev + 1 + i.toUInt8)
  else if prev.toNat - stop.toNat ≤ ccl.length then
    some (ccl.take (ccl.length - (prev.toNat - stop.toNat)))
  else none

/-- How the loop over a bracket ends. -/
inductive Bracket
  | closed (ccl rest : List UInt8)
  | error
  | stray

/-- The loop over a bracket, after the byte `prev`. -/
def bracketLoop : ℕ → UInt8 → List UInt8 → List UInt8 → Bracket
  | 0, _, _, _ => .stray
  | n + 1, prev, ccl, regexp =>
    if 255 < ccl.length then .stray
    else
      match regexp with
      | [] => .error
      | c :: rest =>
        if c = ']'.toUInt8 then .closed ccl rest
        else if c ≠ '-'.toUInt8 then bracketLoop n c (ccl ++ [c]) rest
        else if ccl = [] ∨ rest.head? = some ']'.toUInt8 then .error
        else
          match creatList ccl prev (rest.headD 0) with
          | none => .stray
          | some ccl => bracketLoop n (rest.headD 0) ccl rest.tail

/-- How `compile` ends. -/
inductive Compiled
  | nodes (regexp : List Re)
  | error
  | stray

def Compiled.cons (re : Re) : Compiled → Compiled
  | .nodes regexp => .nodes (re :: regexp)
  | end_ => end_

def digits : List UInt8 := (List.range 10).map fun i => '0'.toUInt8 + i.toUInt8

/-- The string in the 12 bytes of `\d`: the last one is zero, and the one before was not written. -/
def digitList (mem : Leftover) (k : ℕ) : List UInt8 :=
  if mem.digit k = 0 then digits else digits ++ [mem.digit k]

/-- A node for a byte outside brackets that is no backslash. -/
def plainNode (mem : Leftover) (k : ℕ) (c : UInt8) : Re :=
  if c = '.'.toUInt8 then ⟨.dot, mem.ch k, [], false⟩
  else if c = '^'.toUInt8 then ⟨.begin, some c, [], false⟩
  else if c = '$'.toUInt8 then ⟨.end_, some c, [], false⟩
  else if c = '*'.toUInt8 then ⟨.star, mem.ch k, [], false⟩
  else if c = '+'.toUInt8 then ⟨.plus, mem.ch k, [], false⟩
  else if c = '?'.toUInt8 then ⟨.ques, mem.ch k, [], false⟩
  else ⟨.char, some c, [], false⟩

def escapedNode (mem : Leftover) (k : ℕ) (c : UInt8) : Re :=
  if c = 'd'.toUInt8 then ⟨.list, mem.ch k, digitList mem k, false⟩
  else if c = 'D'.toUInt8 then ⟨.list, mem.ch k, digitList mem k, true⟩
  else ⟨.char, some c, [], false⟩

/-- The loop of `compile`, at the `k`-th node. A backslash at the end takes the zero after it. -/
def compileLoop (mem : Leftover) : ℕ → ℕ → List UInt8 → Compiled
  | 0, _, _ => .nodes []
  | _ + 1, _, [] => .nodes []
  | n + 1, k, c :: rest =>
    if c = '\\'.toUInt8 then
      (compileLoop mem n (k + 1) rest.tail).cons (escapedNode mem k (rest.headD 0))
    else if c = '['.toUInt8 then
      let nccl := rest.head? == some '^'.toUInt8
      let rest := if nccl then rest.tail else rest
      match bracketLoop (rest.length + 2) 0 [] rest with
      | .closed ccl rest => (compileLoop mem n (k + 1) rest).cons ⟨.list, mem.ch k, ccl, nccl⟩
      | .error => .error
      | .stray => .stray
    else (compileLoop mem n (k + 1) rest).cons (plainNode mem k c)

/-- `compile`; the empty list is the null pointer. -/
def compile (mem : Leftover) (regexp : List UInt8) : List Re :=
  match compileLoop mem regexp.length 0 regexp with
  | .nodes re => re
  | .error => []
  | .stray => mem.stray regexp

/-! ## Matching -/

def inList (c : UInt8) (re : Re) : Bool := re.type == .list && (re.ccl.contains c ^^ re.nccl)

/-- `MATCH_ONE` and `MATCH_ONE_P`. -/
def matchOne (re : Re) (c : UInt8) : Bool := re.type == .dot || inList c re || re.ch == some c

def matchStar (rest : List UInt8 → Bool) (cur : Re) : List UInt8 → Bool
  | [] => rest []
  | c :: text => rest (c :: text) || matchOne cur c && matchStar rest cur text

def matchPlus (rest : List UInt8 → Bool) (cur : Re) : List UInt8 → Bool
  | [] => false
  | c :: text => matchOne cur c && (rest text || matchPlus rest cur text)

def matchQues (rest : List UInt8 → Bool) (cur : Re) : List UInt8 → Bool
  | [] => rest []
  | c :: text => matchOne cur c && rest text || rest (c :: text)

def matchHere : List Re → List UInt8 → Bool
  | [], _ => true
  | [re], text =>
    if re.type = .end_ then text.isEmpty
    else
      match text with
      | [] => false
      | c :: _ => matchOne re c
  | re :: q :: rest, text =>
    match q.type with
    | .star => matchStar (matchHere rest) re text
    | .plus => matchPlus (matchHere rest) re text
    | .ques => matchQues (matchHere rest) re text
    | _ =>
      match text with
      | [] => false
      | c :: text => matchOne re c && matchHere (q :: rest) text

/-- `regexp_match`: -1 where the pattern does not compile. -/
def regexpMatch (mem : Leftover) (reg text : List UInt8) : ℤ :=
  match compile mem reg with
  | [] => -1
  | re :: rest =>
    if re.type = .begin then if matchHere rest text then 1 else 0
    else if text.tails.any (matchHere (re :: rest)) then 1 else 0

/-! ## The bounds of `compile` -/

namespace RegexpMemory

open List Option

/-! ## The code -/

/-- How the loop over a bracket ends. -/
inductive ListEnd
  | closed (ccl rest : List UInt8)
  | error

/-- The loop over a bracket, after the byte `prev`. Behind an open one the loop over the pattern
    reads the byte after the zero. -/
def listIn (prev : UInt8) (ccl : List UInt8) : List UInt8 → Option ListEnd
  | [] => none
  | c :: rest =>
    if c = 0 then none
    else if c = ']'.toUInt8 then if ccl.length < 256 then some (.closed ccl rest) else none
    else if c ≠ '-'.toUInt8 then if ccl.length < 256 then listIn c (ccl ++ [c]) rest else none
    else
      match rest with
      | [] => none
      | stop :: rest =>
        if ccl = [] ∨ stop = ']'.toUInt8 then if ccl.length < 256 then some .error else none
        else
          match creatList ccl prev stop with
          | none => none
          | some ccl => if ccl.length ≤ 256 then listIn stop ccl rest else none

/-- The loop of `compile`, at the `k`-th node. `\d` and `\D` write the byte 11 of their 11. -/
def compileIn (mem : Leftover) : ℕ → ℕ → List UInt8 → Option Compiled
  | 0, _, _ => none
  | _ + 1, _, [] => none
  | n + 1, k, c :: rest =>
    if c = 0 then some (.nodes [])
    else if c = '\\'.toUInt8 then
      match rest with
      | [] => none
      | d :: rest =>
        if d = 'd'.toUInt8 ∨ d = 'D'.toUInt8 then none
        else (compileIn mem n (k + 1) rest).map (.cons (escapedNode mem k d))
    else if c = '['.toUInt8 then
      let nccl := rest.head? == some '^'.toUInt8
      match listIn 0 [] (if nccl then rest.tail else rest) with
      | none => none
      | some .error => some .error
      | some (.closed ccl rest) =>
        (compileIn mem n (k + 1) rest).map (.cons ⟨.list, mem.ch k, ccl, nccl⟩)
    else (compileIn mem n (k + 1) rest).map (.cons (plainNode mem k c))

/-- What `regexp_match` does with the nodes. -/
def matchNodes (text : List UInt8) : Compiled → ℤ
  | .nodes (re :: rest) =>
    if re.type = .begin then if matchHere rest text then 1 else 0
    else if text.tails.any (matchHere (re :: rest)) then 1 else 0
  | _ => -1

/-- `regexp_match`, of a pattern with its zero. -/
def regexpMatchIn (mem : Leftover) (reg text : List UInt8) : Option ℤ :=
  (compileIn mem reg.length 0 reg).map (matchNodes text)

end RegexpMemory

end Apackage.OpenAppFilter
