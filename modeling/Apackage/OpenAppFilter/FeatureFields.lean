import Apackage.OpenAppFilter.FeatureLine

/-
  The fields of a feature, their ports and their positions, as they are read in memory.

  Each loop over a terminated string is one over its pieces (`posRuns`, `portRuns`, `paramRuns`).
  `DictFits` and `PortsFit` say which pieces are read inside the buffers, and `runParams_spec` what
  the buffers of the fields hold.
-/

namespace Apackage.OpenAppFilter.FeatureLine

open List Option Lib.CStrings Lib.Digits Lib.Region Lib.Trimming
open OpenAppFilter.PortList

/-! ## Fields that fit -/

/-- No valid item stands behind five ports. -/
def PortsFit (ports : Text) : Prop :=
  ∀ before item behind, pieces (kTrim ports) = before ++ item :: behind →
    validateRangeValue item = true → (before.filterMap parseRangeValue).length < 5

/-- A position of 64 bytes is not terminated, but may be read before its end. -/
structure DictFits (dict : Text) : Prop where
  count : (closed '|'.toUInt8 dict).length < 15
  ended : ∀ item ∈ closed '|'.toUInt8 dict,
    item.length < 64 ∨ item.length = 64 ∧ (kSscanf item).isSome = true
  behind : (last '|'.toUInt8 dict).length < 64

/-- The text of a parameter. A semicolon ends it, unless it is the last and one of two. -/
def argFrom (fields : List Text) (last : Text) (param : FeatureParam) : Text :=
  if fields.length = param.index ∧ (param = .dict ∨ param = .ignore) then last
  else fields[param.index]?.getD []

def arg (feature : Text) (param : FeatureParam) : Text :=
  argFrom (closed ';'.toUInt8 feature) (last ';'.toUInt8 feature) param

/-! ## Numbers in a terminated buffer -/

variable {l : List UInt8}

theorem mem_dropWhile {a : UInt8} {p : UInt8 → Bool} (ha : p a = false) (h : a ∈ l) :
    a ∈ l.dropWhile p := by
  induction l with
  | nil => exact h
  | cons b l ih =>
    rw [dropWhile_cons]
    split
    · rename_i hb
      obtain rfl | hl := List.mem_cons.1 h
      · rw [ha] at hb
        cases hb
      · exact ih hl
    · exact h

theorem zero_mem_tail {c : UInt8} (hc : c ≠ 0) (h : 0 ∈ l) (hhead : l.head? = some c) :
    0 ∈ l.tail := by
  cases l with
  | nil => exact h
  | cons b l =>
    obtain rfl := some.inj hhead
    exact (List.mem_cons.1 h).resolve_left hc.symm

theorem zero_mem_ite_tail {c : UInt8} (hc : c ≠ 0) (h : 0 ∈ l) :
    0 ∈ (if (l.head? == some c) = true then l.tail else l) := by
  split
  · rename_i hhead
    exact zero_mem_tail hc h (beq_iff_eq.1 hhead)
  · exact h

theorem readInt_terminated {space : UInt8 → Bool} (hspace : space 0 = false) {str : List UInt8}
    (h : 0 ∈ str) :
    ∃ r, readInt space str = some r ∧ ∀ v rest, r = some (v, rest) → 0 ∈ rest := by
  have hrest := mem_dropWhile (p := isdigit) (by decide)
    (zero_mem_ite_tail (c := '-'.toUInt8) (by decide) (mem_dropWhile hspace h))
  unfold readInt
  dsimp only
  generalize (if ((str.dropWhile space).head? == some '-'.toUInt8) = true then
    (str.dropWhile space).tail else str.dropWhile space) = digits at *
  rw [if_neg (ne_nil_of_mem hrest)]
  split
  · exact ⟨none, rfl, fun v rest hr => nomatch hr⟩
  · simp [*]

theorem readHex_terminated {space : UInt8 → Bool} (hspace : space 0 = false) {str : List UInt8}
    (h : 0 ∈ str) : (readHex space str).isSome = true := by
  have hstr := mem_dropWhile hspace h
  unfold readHex
  dsimp only
  generalize str.dropWhile space = str at *
  have hskip : 0 ∈ (if str.head? = some '0'.toUInt8 ∧ (str.tail.head? = some 'x'.toUInt8 ∨
      str.tail.head? = some 'X'.toUInt8) then str.drop 2 else str) := by
    split
    · rename_i hprefix
      have htail := zero_mem_tail (by decide) hstr hprefix.1
      rw [← tail_drop, drop_one]
      exact hprefix.2.elim (zero_mem_tail (by decide) htail) (zero_mem_tail (by decide) htail)
    · exact hstr
  generalize (if str.head? = some '0'.toUInt8 ∧ (str.tail.head? = some 'x'.toUInt8 ∨
      str.tail.head? = some 'X'.toUInt8) then str.drop 2 else str) = digits at *
  cases str.head?.any isxdigit with
  | false =>
    rw [if_neg Bool.false_ne_true, if_neg (ne_nil_of_mem hskip)]
    rfl
  | true =>
    have hrest := mem_dropWhile (p := isxdigit) (by decide) hskip
    rw [if_pos rfl, if_neg (ne_nil_of_mem hrest)]
    rfl

variable {buf : List UInt8}

theorem kSscanf_terminated (h : 0 ∈ buf) : (kSscanf buf).isSome = true := by
  obtain ⟨r, hr, hrest⟩ := @readInt_terminated isSkipped (by decide) buf h
  unfold kSscanf
  rw [hr]
  match r with
  | none => rfl
  | some (index, rest) =>
    dsimp only
    split
    · rename_i hcolon
      have htail := zero_mem_tail (by decide) (hrest index rest rfl) hcolon
      rw [isSome_map]
      exact @readHex_terminated isSkipped (by decide) rest.tail htail
    · rfl

theorem kAtoi_terminated (h : 0 ∈ buf) : ∃ v, kAtoi buf = some v := by
  have hrest := mem_dropWhile (p := isdigit) (by decide)
    (mem_dropWhile (p := fun c => c == ' '.toUInt8 || c == 9) (by decide) h)
  exact ⟨_, if_neg (ne_nil_of_mem hrest)⟩

/-! ## Positions -/

section Positions

variable {dict : Text} {mem : List UInt8}

/-- A piece that ends with a bar, as the loop reads it. -/
def posPiece (s : PosState) (piece : Text) : Option (PosState × Bool) :=
  (if piece.length ≤ 64 then some (fill 64 piece) else none).bind fun pos =>
    (s.read pos).bind fun r => r.1.push.map fun s => (s, decide (15 ≤ s.posInfo.length))

def posLast (s : PosState) (piece : Text) : Option (List (ℤ × UInt8)) :=
  (if piece.length < s.pos.length then some (piece ++ 0 :: s.pos.drop (piece.length + 1))
    else none).bind fun pos =>
      (s.read pos).bind fun r => if r.2 then r.1.push.map (·.posInfo) else some r.1.posInfo

variable {s : PosState}

theorem PosState.read_eq_some {pos : List UInt8} {r : PosState × Bool} (h : s.read pos = some r) :
    r.1.pos = pos ∧ r.1.posInfo = s.posInfo := by
  obtain ⟨_, -, rfl⟩ := map_eq_some_iff.1 h
  exact ⟨rfl, rfl⟩

theorem PosState.push_eq_some {s s' : PosState} (h : s.push = some s') :
    s'.pos = s.pos ∧ s'.posInfo.length = s.posInfo.length + 1 := by
  unfold push at h
  split at h
  · cases h
  · obtain rfl := some.inj h
    simp

theorem posPiece_eq_some {s s' : PosState} {piece : Text} {stop : Bool}
    (h : posPiece s piece = some (s', stop)) :
    s'.pos.length = 64 ∧ s'.posInfo.length = s.posInfo.length + 1 ∧
      (stop = true ↔ 15 ≤ s'.posInfo.length) := by
  obtain ⟨pos, hpos, h⟩ := bind_eq_some_iff.1 h
  obtain ⟨r, hread, h⟩ := bind_eq_some_iff.1 h
  obtain ⟨s'', hpush, heq⟩ := map_eq_some_iff.1 h
  obtain ⟨rfl, rfl⟩ := Prod.mk.inj heq
  obtain ⟨hbuf, hinfo⟩ := PosState.read_eq_some hread
  obtain ⟨hbuf', hlength⟩ := PosState.push_eq_some hpush
  split at hpos
  · rename_i hle
    obtain rfl := some.inj hpos
    refine ⟨by rw [hbuf', hbuf, length_fill hle], by rw [hlength, hinfo], decide_eq_true_iff⟩
  · cases hpos

theorem posRuns (hlength : mem.length < 2 ^ 63) :
    Runs '|'.toUInt8 mem (posBody mem) (posAfter mem) posPiece (fun _ => none) posLast where
  body s pre piece rest hmem hzero := by
    have hle : pre.length + piece.length < 2 ^ 63 := by
      rw [hmem] at hlength
      simp only [length_append] at hlength
      omega
    have hbody : posBody mem s pre.length (pre.length + piece.length) =
        (posPiece s piece).map fun r =>
          (r.1, if r.2 then some (pre.length + piece.length + 1) else none) := by
      have hcopy : strncpyBetween (fill 64 []) mem pre.length (pre.length + piece.length) =
          if piece.length ≤ 64 then some (fill 64 piece) else none := by
        rw [hmem]
        exact copy_piece_fill hzero (by omega) 64
      unfold posBody posPiece
      rw [hcopy, Option.map_bind]
      refine Option.bind_congr fun pos _ => ?_
      rw [Function.comp_apply, Option.map_bind]
      refine Option.bind_congr fun r _ => ?_
      rw [Function.comp_apply, Option.map_map]
      refine congrArg (Option.map · r.1.push) (funext fun s => ?_)
      simp [Function.comp_apply]
    rw [hbody]
    cases hpiece : posPiece s piece with
    | none => exact .inl ⟨rfl, rfl⟩
    | some r =>
      obtain ⟨s', stop⟩ := r
      cases stop with
      | false => exact .inr (.inl ⟨s', rfl, rfl⟩)
      | true =>
        refine .inr (.inr ⟨s', _, rfl, rfl, ?_⟩)
        have hpos := (posPiece_eq_some hpiece).1
        unfold posAfter
        dsimp only
        rw [if_pos (Nat.succ_ne_zero _), strncpyBetween_of_lt (by omega) (by omega) (by omega)]
        rfl
  after s pre piece rest hmem hzero := by
    have hle : pre.length + piece.length + 1 < 2 ^ 63 := by
      rw [hmem] at hlength
      simp only [length_append, length_cons] at hlength
      omega
    unfold posAfter posLast
    dsimp only
    congr 1
    by_cases hpre : pre = []
    · subst hpre
      rw [if_neg (by decide), hmem, nil_append, strcpy, stringAt_append hzero, bind_some]
    · rw [if_pos (fun h => hpre (length_eq_zero_iff.1 h)), hmem]
      exact copy_last hzero (by omega) s.pos

theorem PosState.push_isSome (h : s.posInfo.length < 16) : s.push.isSome = true := by
  rw [push, if_neg (by omega)]
  rfl

theorem PosState.read_bind_isSome {s : PosState} {β : Type} {k : PosState × Bool → Option β}
    (h : ∀ r, r.1.posInfo = s.posInfo → (k r).isSome = true) (pos : List UInt8) :
    ((s.read pos).bind k).isSome = (kSscanf pos).isSome := by
  unfold read
  cases kSscanf pos with
  | none => rfl
  | some r => exact h _ rfl

theorem posPiece_isSome {s : PosState} {piece : Text} (hinfo : s.posInfo.length < 16) :
    (posPiece s piece).isSome = true ↔
      piece.length < 64 ∨ piece.length = 64 ∧ (kSscanf piece).isSome = true := by
  unfold posPiece
  by_cases hle : piece.length ≤ 64
  · have hread := @PosState.read_bind_isSome s _
      (fun r => r.1.push.map fun s => (s, decide (15 ≤ s.posInfo.length)))
      (fun r hr => by rw [isSome_map]; exact PosState.push_isSome (hr ▸ hinfo))
      (fill 64 piece)
    rw [if_pos hle, bind_some, hread]
    obtain hlt | heq := Nat.lt_or_eq_of_le hle
    · exact iff_of_true (kSscanf_terminated (zero_mem_fill hlt)) (.inl hlt)
    · rw [fill_of_length heq]
      exact ⟨fun h => .inr ⟨heq, h⟩, fun h => (h.resolve_left (by omega)).2⟩
  · rw [if_neg hle]
    refine iff_of_false Bool.false_ne_true ?_
    omega

theorem posLast_isSome {piece : Text} (hpos : s.pos.length = 64) (hinfo : s.posInfo.length < 16) :
    (posLast s piece).isSome = true ↔ piece.length < 64 := by
  unfold posLast
  rw [hpos]
  by_cases hlt : piece.length < 64
  · have hread := @PosState.read_bind_isSome s _
      (fun r => if r.2 then r.1.push.map (·.posInfo) else some r.1.posInfo)
      (fun r hr => by
        split
        · rw [isSome_map]
          exact PosState.push_isSome (hr ▸ hinfo)
        · rfl)
      (piece ++ 0 :: s.pos.drop (piece.length + 1))
    rw [if_pos hlt, bind_some, hread]
    exact iff_of_true (kSscanf_terminated (mem_append_right _ mem_cons_self)) hlt
  · simp [*]

theorem runPos_isSome {last : Text} (items : List Text) (s : PosState) (hpos : s.pos.length = 64)
    (hinfo : s.posInfo.length < 15) :
    (runPieces posPiece (fun _ => none) posLast last s items).isSome = true ↔
      s.posInfo.length + items.length < 15 ∧
      (∀ item ∈ items, item.length < 64 ∨ item.length = 64 ∧ (kSscanf item).isSome = true) ∧
      last.length < 64 := by
  induction items generalizing s with
  | nil =>
    rw [runPieces, posLast_isSome hpos (by omega)]
    simpa using fun _ => hinfo
  | cons item items ih =>
    have hitem := @posPiece_isSome s item (by omega)
    rw [runPieces, forall_mem_cons, length_cons]
    cases hpiece : posPiece s item with
    | none =>
      grind
    | some r =>
      obtain ⟨s', stop⟩ := r
      obtain ⟨hpos', hinfo', hstop⟩ := posPiece_eq_some hpiece
      rw [hpiece] at hitem
      rw [bind_some]
      cases stop with
      | true =>
        have := hstop.1 rfl
        exact iff_of_false Bool.false_ne_true (by omega)
      | false =>
        have hcount : ¬ 15 ≤ s'.posInfo.length := fun h => Bool.false_ne_true (hstop.2 h)
        rw [if_neg Bool.false_ne_true, ih s' hpos' (by omega), hinfo']
        have hok := hitem.1 rfl
        constructor
        · rintro ⟨hlt, hitems, hlast⟩
          exact ⟨by omega, ⟨hok, hitems⟩, hlast⟩
        · rintro ⟨hlt, ⟨-, hitems⟩, hlast⟩
          exact ⟨by omega, hitems, hlast⟩

/-- `__add_app_feature` reads the positions inside its buffers exactly if they fit. -/
theorem readPosInfo_isSome (hzero : 0 ∉ dict) {rest : List UInt8}
    (hlength : (dict ++ 0 :: rest).length < 2 ^ 63) :
    (readPosInfo (dict ++ 0 :: rest)).isSome = true ↔ DictFits dict := by
  have hrun := (posRuns hlength).scan_eq (by decide) hzero rfl ⟨fill 64 [], 0, 0, []⟩
  have hfits := @runPos_isSome (last '|'.toUInt8 dict) (closed '|'.toUInt8 dict)
    ⟨fill 64 [], 0, 0, []⟩ (length_fill (Nat.zero_le 64)) (by decide)
  rw [readPosInfo, hrun, hfits]
  constructor
  · rintro ⟨hcount, hended, hbehind⟩
    exact ⟨by simpa using hcount, hended, hbehind⟩
  · intro h
    exact ⟨by simpa using h.count, h.ended, h.behind⟩

end Positions

/-! ## Ports -/

section Ports

variable {mem : List UInt8}

/-- One round of `parsePieces`. -/
def portPiece (entries : List RangeValue) (piece : Text) : Option (List RangeValue) :=
  if 128 ≤ piece.length then none
  else if validateRangeValue piece ∧ 5 ≤ entries.length then none
  else some (entries ++ (parseRangeValue piece).toList)

theorem parsePieces_cons (entries : List RangeValue) (piece : Text) (pieces : List Text) :
    parsePieces entries (piece :: pieces) =
      (portPiece entries piece).bind fun entries => parsePieces entries pieces := by
  unfold portPiece
  rw [parsePieces]
  split
  · rfl
  · split <;> rfl

theorem piecesFrom_eq (begun text : Text) : piecesFrom begun text =
      closedFrom '|'.toUInt8 begun text ++ [lastFrom '|'.toUInt8 begun text] := by
  induction text generalizing begun with
  | nil => rfl
  | cons c rest ih =>
    rw [piecesFrom, closedFrom, lastFrom]
    split
    · rw [ih, cons_append]
    · exact ih _

theorem runPorts_eq (last : Text) (pieces : List Text) (entries : List RangeValue) :
    runPieces (fun entries piece => (portPiece entries piece).map (·, false)) (fun _ => none)
        portPiece last entries pieces =
      parsePieces entries (pieces ++ [last]) := by
  induction pieces generalizing entries with
  | nil =>
    rw [nil_append, parsePieces_cons, runPieces]
    cases portPiece entries last <;> rfl
  | cons piece pieces ih =>
    rw [cons_append, parsePieces_cons, runPieces]
    cases portPiece entries piece with
    | none => rfl
    | some entries' => exact ih entries'

theorem pushRange_fill {piece : Text} (hzero : 0 ∉ piece) (hle : piece.length ≤ 128)
    (entries : List RangeValue) : pushRange entries (fill 128 piece) = portPiece entries piece := by
  rw [pushRange, stringAt_fill hzero hle, portPiece]
  by_cases hlt : piece.length < 128
  · rw [if_pos hlt, if_neg (by omega), bind_some]
  · rw [if_neg hlt, if_pos (by omega), bind_none]

theorem copied_pushRange {piece : Text} (hzero : 0 ∉ piece) {p : Prop} [Decidable p]
    (hle : p → piece.length ≤ 128) (hlt : piece.length < 128 → p) (entries : List RangeValue) :
    (if p then some (fill 128 piece) else none).bind (pushRange entries) =
      portPiece entries piece := by
  by_cases hp : p
  · rw [if_pos hp, bind_some, pushRange_fill hzero (hle hp)]
  · rw [if_neg hp, portPiece, if_pos (Nat.le_of_not_lt fun h => hp (hlt h)), bind_none]

theorem portRuns (hlength : mem.length < 2 ^ 63) :
    Runs '|'.toUInt8 mem (portBody mem) (portAfter mem)
      (fun entries piece => (portPiece entries piece).map (·, false)) (fun _ => none)
      portPiece where
  body entries pre piece rest hmem hzero := by
    have hle : pre.length + piece.length < 2 ^ 63 := by
      rw [hmem] at hlength
      simp only [length_append] at hlength
      omega
    have hbody : portBody mem entries pre.length (pre.length + piece.length) =
        (portPiece entries piece).map (·, none) := by
      have hcopy : strncpyBetween (fill 128 []) mem pre.length (pre.length + piece.length) =
          if piece.length ≤ 128 then some (fill 128 piece) else none := by
        rw [hmem]
        exact copy_piece_fill hzero (by omega) 128
      rw [portBody, hcopy, ← copied_pushRange hzero id Nat.le_of_lt, Option.map_bind]
      rfl
    rw [hbody]
    cases portPiece entries piece with
    | none => exact .inl ⟨rfl, rfl⟩
    | some entries' => exact .inr (.inl ⟨entries', rfl, rfl⟩)
  after entries pre piece rest hmem hzero := by
    have hle : pre.length + piece.length + 1 < 2 ^ 63 := by
      rw [hmem] at hlength
      simp only [length_append, length_cons] at hlength
      omega
    have hcopy : strncpyBetween (fill 128 []) mem pre.length (pre.length + (piece.length + 1)) =
        if piece.length < 128 then some (fill 128 piece) else none := by
      rw [hmem]
      exact copy_last_fill hzero (by omega) 128
    unfold portAfter
    dsimp only
    rw [hcopy, copied_pushRange hzero Nat.le_of_lt id]

theorem length_le_of_mem_pieces {text item : Text} (h : item ∈ pieces text) :
    item.length ≤ text.length := by
  cases text with
  | nil => exact absurd h not_mem_nil
  | cons c rest =>
    obtain ⟨hclosed, hlast⟩ := length_pieces '|'.toUInt8 (c :: rest)
    rw [pieces, piecesFrom_eq, mem_append, mem_singleton] at h
    obtain h | rfl := h
    · exact (hclosed item h).le
    · exact hlast

theorem kTrim_sublist (text : Text) : (kTrim text).Sublist text :=
  ( rdropWhile_prefix _ _).sublist.trans (dropWhile_sublist _)

section

variable {text : Text} (hzero : 0 ∉ text)

include hzero

theorem zero_notMem_kTrim : 0 ∉ kTrim text := fun h => hzero ((kTrim_sublist text).subset h)

theorem kTrimIn_eq (rest : List UInt8) :
    ∃ rest', kTrimIn (text ++ 0 :: rest) = some (kTrim text ++ 0 :: rest') ∧
      (kTrim text ++ 0 :: rest').length = (text ++ 0 :: rest).length := by
  have hle := (kTrim_sublist text).length_le
  refine ⟨_, by rw [kTrimIn, stringAt_append hzero]; rfl, ?_⟩
  simp only [length_append, length_cons, length_drop]
  omega

theorem readPortInfo_eq {rest : List UInt8} (hlength : (text ++ 0 :: rest).length < 2 ^ 63) :
    readPortInfo (text ++ 0 :: rest) = parsePortInfo text := by
  obtain ⟨rest', htrim, hlength'⟩ := kTrimIn_eq hzero rest
  have hrun := (portRuns (hlength'.trans_lt hlength)).scan_eq (by decide)
    (zero_notMem_kTrim hzero) rfl []
  rw [readPortInfo, htrim, bind_some, hrun, runPorts_eq, parsePortInfo]
  have hzero' := zero_notMem_kTrim hzero
  cases hkept : kTrim text with
  | nil => rfl
  | cons c t =>
    have hc : ¬ (c :: t ++ 0 :: rest').head? = some 0 := by
      intro h
      obtain rfl := some.inj h
      exact hzero' (hkept ▸ mem_cons_self)
    rw [if_neg hc, pieces, piecesFrom_eq]
    rfl

end

theorem parsePieces_isSome {items : List Text} (hshort : ∀ item ∈ items, item.length < 128)
    (entries : List RangeValue) :
    (parsePieces entries items).isSome = true ↔
      ∀ before item behind, items = before ++ item :: behind → validateRangeValue item = true →
        entries.length + (before.filterMap parseRangeValue).length < 5 := by
  induction items generalizing entries with
  | nil =>
    refine iff_of_true rfl fun before item behind h => ?_
    exact absurd h.symm (append_ne_nil_of_right_ne_nil _ (cons_ne_nil _ _))
  | cons item items ih =>
    obtain ⟨hitem, hitems⟩ := forall_mem_cons.1 hshort
    rw [parsePieces, if_neg (by omega)]
    by_cases hfull : validateRangeValue item = true ∧ 5 ≤ entries.length
    · rw [if_pos hfull]
      refine iff_of_false Bool.false_ne_true fun h => ?_
      have := h [] item items rfl hfull.1
      rw [filterMap_nil, length_nil] at this
      omega
    · rw [if_neg hfull, ih hitems, length_append]
      have hcons (before : List Text) : ((item :: before).filterMap parseRangeValue).length =
          (parseRangeValue item).toList.length + (before.filterMap parseRangeValue).length := by
        rw [filterMap_cons]
        cases parseRangeValue item with
        | none => simp
        | some e => simp [Nat.add_comm]
      constructor
      · intro h before item' behind heq hvalid
        cases before with
        | nil =>
          grind
        | cons first before =>
          grind
      · grind

end Ports

/-! ## Fields -/

section Fields

variable {mem : List UInt8}

theorem FeatureParam.all_index (param : FeatureParam) : all[param.index]? = some param := by
  cases param <;> rfl

variable {param : FeatureParam}

theorem FeatureParam.index_of_all {n : ℕ} (h : all[n]? = some param) : param.index = n := by
  obtain ⟨hn, rfl⟩ := List.getElem?_eq_some_iff.1 h
  exact List.Nodup.idxOf_getElem (by decide) n hn

theorem FeatureParam.index_inj {p q : FeatureParam} (h : p.index = q.index) : p = q := by
  have := h ▸ all_index p
  exact some.inj (this.symm.trans (all_index q))

/-- The buffers after these fields. -/
structure FieldsIn (s : ParamState) (fields : List Text) : Prop where
  paramNum : s.paramNum = fields.length
  buf : ∀ param, s.buf param = fill param.size (fields[param.index]?.getD [])

theorem put_spec {s : ParamState} {param : FeatureParam} {buf : List UInt8}
    (h : param = .ignore → 0 ∈ buf) :
    ∃ s', s.put param buf = some s' ∧ s'.buf = Function.update s.buf param buf ∧
      s'.paramNum = s.paramNum := by
  unfold ParamState.put
  by_cases hparam : param = .ignore
  · obtain ⟨v, hv⟩ := kAtoi_terminated (h hparam)
    refine ⟨{ s with buf := Function.update s.buf param buf, ignore := v }, ?_, rfl, rfl⟩
    rw [if_pos hparam, hv]
    rfl
  · exact ⟨_, if_neg hparam, rfl, rfl⟩

/-- A field that a semicolon ends, as the loop copies it. -/
def paramPiece (s : ParamState) (piece : Text) : Option (ParamState × Bool) :=
  let copied :=
    match FeatureParam.all[s.paramNum]? with
    | none => some s
    | some param =>
      (if piece.length ≤ (s.buf param).length then some (piece ++ (s.buf param).drop piece.length)
        else none).bind (s.put param)
  copied.map fun s => ({ s with paramNum := s.paramNum + 1 }, false)

def putLast (s : ParamState) (param : FeatureParam) (piece : Text) : Option ParamState :=
  (if piece.length < (s.buf param).length then
    some (piece ++ 0 :: (s.buf param).drop (piece.length + 1)) else none).bind (s.put param)

def paramLast (s : ParamState) (piece : Text) : Option ParamState :=
  (if s.paramNum = FeatureParam.dict.index then putLast s .dict piece else some s).bind fun s =>
    if s.paramNum = FeatureParam.ignore.index then putLast s .ignore piece else some s

theorem paramRuns (hlength : mem.length < 2 ^ 63) :
    Runs ';'.toUInt8 mem (paramBody mem) (paramAfter mem) paramPiece (fun _ => none) paramLast where
  body s pre piece rest hmem hzero := by
    have hle : pre.length + piece.length < 2 ^ 63 := by
      rw [hmem] at hlength
      simp only [length_append] at hlength
      omega
    have hcopy (dst : List UInt8) : strncpyBetween dst mem pre.length (pre.length + piece.length) =
          if piece.length ≤ dst.length then some (piece ++ dst.drop piece.length) else none := by
      rw [hmem]
      exact copy_piece hzero (by omega) dst
    have hbody : paramBody mem s pre.length (pre.length + piece.length) =
        (paramPiece s piece).map fun r => (r.1, none) := by
      unfold paramBody paramPiece copyParam
      rw [Option.map_map]
      simp only [hcopy]
      rfl
    have hstop : ∀ r, paramPiece s piece = some r → r.2 = false := by
      intro r hr
      obtain ⟨_, -, rfl⟩ := map_eq_some_iff.1 hr
      rfl
    rw [hbody]
    cases hpiece : paramPiece s piece with
    | none => exact .inl ⟨rfl, rfl⟩
    | some r =>
      grind
  after s pre piece rest hmem hzero := by
    have hle : pre.length + piece.length + 1 < 2 ^ 63 := by
      rw [hmem] at hlength
      simp only [length_append, length_cons] at hlength
      omega
    have hcopy (dst : List UInt8) :
        strncpyBetween dst mem pre.length (pre.length + (piece.length + 1)) =
          if piece.length < dst.length then some (piece ++ 0 :: dst.drop (piece.length + 1))
          else none := by
      rw [hmem]
      exact copy_last hzero (by omega) dst
    unfold paramAfter paramLast putLast copyParam
    simp only [hcopy]

theorem getD_concat {fields : List Text} {n : ℕ} (h : n ≠ fields.length) (piece : Text) :
    (fields ++ [piece])[n]?.getD [] = fields[n]?.getD [] := by
  rw [getElem?_append]
  split
  · rfl
  · rw [getElem?_eq_none (by rw [length_singleton]; omega), getElem?_eq_none (by omega)]

theorem FieldsIn.update {s s' : ParamState} {fields : List Text} (hs : FieldsIn s fields)
    {piece : Text} (hnum : s'.paramNum = s.paramNum + 1)
    (hbuf : ∀ param : FeatureParam, s'.buf param =
      if param.index = fields.length then fill param.size piece else s.buf param) :
    FieldsIn s' (fields ++ [piece]) where
  paramNum := by rw [hnum, hs.paramNum, length_append, length_singleton]
  buf param := by
    rw [hbuf]
    split
    · simp [*]
    · rename_i hindex
      rw [getD_concat hindex, hs.buf]

variable {s : ParamState}

theorem FieldsIn.buf_next {fields : List Text} (hs : FieldsIn s fields)
    (h : param.index = fields.length) : s.buf param = fill param.size [] := by
  rw [hs.buf, h, getElem?_eq_none le_rfl, getD_none]

theorem update_eq_ite {n : ℕ} (h : param.index = n) (buf : List UInt8) (q : FeatureParam) :
    Function.update s.buf param buf q = if q.index = n then buf else s.buf q := by
  by_cases hq : q = param
  · simp [*]
  · rw [Function.update_of_ne hq, if_neg fun hn => hq (FeatureParam.index_inj (hn.trans h.symm))]

theorem paramPiece_spec {fields : List Text} (hs : FieldsIn s fields) {piece : Text}
    (hshort : piece.length < 128) :
    ((∃ param : FeatureParam, param.index = fields.length ∧ param.size < piece.length) ∧
      paramPiece s piece = none) ∨
    (∀ param : FeatureParam, param.index = fields.length → piece.length ≤ param.size) ∧
      ∃ s', paramPiece s piece = some (s', false) ∧ FieldsIn s' (fields ++ [piece]) := by
  unfold paramPiece
  rw [hs.paramNum]
  cases hparam : FeatureParam.all[fields.length]? with
  | none =>
    have hno (param : FeatureParam) : param.index ≠ fields.length := by
      intro h
      have := param.all_index
      rw [h, hparam] at this
      cases this
    refine .inr ⟨fun param h => absurd h (hno param), _, rfl,
      hs.update (by rw [hs.paramNum]) fun param => (if_neg (hno param)).symm⟩
  | some param =>
    have hindex := FeatureParam.index_of_all hparam
    dsimp only
    rw [hs.buf_next hindex, length_fill (Nat.zero_le _), append_drop_fill]
    by_cases hle : piece.length ≤ param.size
    · have hterminated : param = .ignore → 0 ∈ fill param.size piece := by
        rintro rfl
        exact zero_mem_fill hshort
      obtain ⟨s', hput, hbuf, hnum⟩ := put_spec (s := s) hterminated
      refine .inr ⟨fun q hq => ?_, { s' with paramNum := fields.length + 1 }, ?_, ?_⟩
      · rw [FeatureParam.index_inj (hq.trans hindex.symm)]
        exact hle
      · rw [if_pos hle, bind_some, hput, map_some, hnum, hs.paramNum]
      · refine hs.update (by rw [hs.paramNum]) fun q => ?_
        rw [hbuf, update_eq_ite hindex]
        split
        · rename_i hq
          rw [FeatureParam.index_inj (hq.trans hindex.symm)]
        · rfl
    · rw [if_neg hle]
      exact .inl ⟨⟨param, hindex, Nat.lt_of_not_le hle⟩, rfl⟩

theorem argFrom_of_last {fields : List Text} (last : Text) (hindex : param.index = fields.length)
    (hparam : param = .dict ∨ param = .ignore) (q : FeatureParam) : argFrom fields last q =
      if q.index = fields.length then last else fields[q.index]?.getD [] := by
  unfold argFrom
  by_cases hq : q.index = fields.length
  · obtain rfl := FeatureParam.index_inj (hq.trans hindex.symm)
    rw [if_pos ⟨hq.symm, hparam⟩, if_pos hq]
  · rw [if_neg fun h => hq h.1.symm, if_neg hq]

section

variable {fields : List Text} {last : Text} (hs : FieldsIn s fields) (hlast : last.length < 128)

include hs hlast

theorem putLast_spec (hindex : param.index = fields.length)
    (hparam : param = .dict ∨ param = .ignore) :
    ∃ s', putLast s param last = some s' ∧
      (∀ q, s'.buf q = fill q.size (argFrom fields last q)) ∧ s'.paramNum = s.paramNum := by
  have hsize : param.size = 128 := by obtain rfl | rfl := hparam <;> rfl
  obtain ⟨s', hput, hbuf, hnum⟩ :=
    @put_spec s param (fill param.size last) fun _ => zero_mem_fill (hsize ▸ hlast)
  refine ⟨s', ?_, fun q => ?_, hnum⟩
  · rw [putLast, hs.buf_next hindex, length_fill (Nat.zero_le _), hsize, if_pos hlast,
      append_zero_drop_fill hlast, bind_some, ← hsize, hput]
  · rw [hbuf, update_eq_ite hindex, argFrom_of_last last hindex hparam]
    split
    · rename_i hq
      rw [FeatureParam.index_inj (hq.trans hindex.symm)]
    · exact hs.buf q

theorem paramLast_spec : ∃ s', paramLast s last = some s' ∧
      ∀ q, s'.buf q = fill q.size (argFrom fields last q) := by
  unfold paramLast
  rw [hs.paramNum]
  by_cases hdict : fields.length = FeatureParam.dict.index
  · obtain ⟨s', hput, hbuf, hnum⟩ := putLast_spec hs hlast hdict.symm (.inl rfl)
    refine ⟨s', ?_, hbuf⟩
    rw [if_pos hdict, hput, bind_some, hnum, hs.paramNum, hdict, if_neg (by decide)]
  · rw [if_neg hdict, bind_some, hs.paramNum]
    by_cases hignore : fields.length = FeatureParam.ignore.index
    · obtain ⟨s', hput, hbuf, -⟩ := putLast_spec hs hlast hignore.symm (.inr rfl)
      exact ⟨s', by rw [if_pos hignore, hput], hbuf⟩
    · refine ⟨s, if_neg hignore, fun q => ?_⟩
      have hq : ¬ (fields.length = q.index ∧ (q = .dict ∨ q = .ignore)) := by
        rintro ⟨h, rfl | rfl⟩
        · exact hdict h
        · exact hignore h
      rw [hs.buf, argFrom, if_neg hq]

end

theorem length_argFrom {fields : List Text} {last : Text} (hlast : last.length < 128)
    (param : FeatureParam) : (argFrom fields last param).length ≤ param.size ↔
      (fields[param.index]?.getD []).length ≤ param.size := by
  unfold argFrom
  split
  · rename_i h
    have hnone : fields[param.index]?.getD [] = [] := by rw [getElem?_eq_none h.1.le, getD_none]
    have hsize : param.size = 128 := by obtain rfl | rfl := h.2 <;> rfl
    rw [hnone, hsize]
    exact iff_of_true hlast.le (Nat.zero_le _)
  · rfl

/-- The fields are copied exactly if they fit, and each to its buffer. -/
theorem runParams_spec {last : Text} (hlast : last.length < 128) (rest : List Text)
    (hshort : ∀ piece ∈ rest, piece.length < 128) {fields : List Text} (hs : FieldsIn s fields)
    (hfit : ∀ param : FeatureParam, (fields[param.index]?.getD []).length ≤ param.size) :
    ((∃ param, ¬ (argFrom (fields ++ rest) last param).length ≤ param.size) ∧
      runPieces paramPiece (fun _ => none) paramLast last s rest = none) ∨
    (∀ param, (argFrom (fields ++ rest) last param).length ≤ param.size) ∧
      ∃ s', runPieces paramPiece (fun _ => none) paramLast last s rest = some s' ∧
        ∀ param, s'.buf param = fill param.size (argFrom (fields ++ rest) last param) := by
  induction rest generalizing s fields with
  | nil =>
    rw [append_nil, runPieces]
    exact .inr ⟨fun param => (length_argFrom hlast param).2 (hfit param), paramLast_spec hs hlast⟩
  | cons piece rest ih =>
    obtain ⟨hpiece, hrest⟩ := forall_mem_cons.1 hshort
    rw [runPieces]
    obtain ⟨⟨param, hindex, hlong⟩, hnone⟩ | ⟨hsize, s', hsome, hs'⟩ := paramPiece_spec hs hpiece
    · rw [hnone, bind_none]
      refine .inl ⟨⟨param, fun h => ?_⟩, rfl⟩
      rw [length_argFrom hlast, hindex, getElem?_append_right le_rfl, Nat.sub_self] at h
      exact absurd h (Nat.not_le_of_lt hlong)
    · have hfit' (param : FeatureParam) :
          ((fields ++ [piece])[param.index]?.getD []).length ≤ param.size := by
        by_cases hindex : param.index = fields.length
        · simp [*]
        · rw [getD_concat hindex]
          exact hfit param
      have h := ih hrest hs' hfit'
      rw [append_assoc, singleton_append] at h
      rw [hsome, bind_some, if_neg Bool.false_ne_true]
      exact h

end Fields

end Apackage.OpenAppFilter.FeatureLine
