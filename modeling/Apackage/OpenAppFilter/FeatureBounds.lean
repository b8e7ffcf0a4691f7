import Apackage.OpenAppFilter.FeatureFields

/-
  When a feature line is read inside the buffers (`feature_line_inside`).

  Fields of up to 127 bytes go to buffers of 16, 32 and 64 bytes with the length that they have in
  the line. `LineFits` says which lines fit, in terms of the pieces between the separators.
-/

namespace Apackage.OpenAppFilter.FeatureLine

open List Option Lib.CStrings Lib.Digits Lib.Region Lib.Trimming
open OpenAppFilter.PortList

/-! ## Lines that fit -/

/-- What is read and stored if the protocol is supported. -/
structure StoredFit (feature : Text) : Prop where
  srcPort : (readInt isspace (fill 16 (arg feature .srcPort))).isSome = true
  dstPort : (arg feature .dstPort).length < 16
  ports : PortsFit (arg feature .dstPort)
  hostUrl : (arg feature .hostUrl).length < 32
  str : (arg feature .str).length < 32
  dict : DictFits (arg feature .dict)

structure FieldsFit (feature : Text) : Prop where
  copied : ∀ param, (arg feature param).length ≤ param.size
  proto : (arg feature .proto).length < 16
  stored : (protoOf (arg feature .proto)).isSome = true → StoredFit feature

/-- A short feature is rejected before its fields are copied. -/
def FeatureFits (feature : Text) : Prop := feature.length < 8 ∨ FieldsFit feature

/-- A feature of more than 128 bytes ends the line. The last one is copied with its terminator. -/
structure FeaturesFit (text : Text) : Prop where
  ended : ∀ feature ∈ (closed ','.toUInt8 text).takeWhile (·.length ≤ 128),
    feature.length < 128 ∧ FeatureFits feature
  behind : (∀ feature ∈ closed ','.toUInt8 text, feature.length ≤ 128) →
    (last ','.toUInt8 text).length ≠ 127 ∧
      ((last ','.toUInt8 text).length < 127 → FeatureFits (last ','.toUInt8 text))

/-- What is behind the last `[`, up to the length of the last text in brackets. -/
def bracketed (begun : Option Text) (len : ℕ) : Text → Text
  | [] => (begun.getD []).take len
  | c :: rest =>
    if c = '['.toUInt8 then bracketed (some []) len rest
    else if c = ']'.toUInt8 then
      bracketed (begun.map (· ++ [c])) (begun.elim len List.length) rest
    else bracketed (begun.map (· ++ [c])) len rest

def LineFits (line : Text) : Prop :=
  '#'.toUInt8 ∈ line ∨ afParseFeatureAppHeader line = none ∨
    FeaturesFit (bracketed none 0 line.tail)

/-! ## Features -/

section Features

variable {feature rest : List UInt8}

theorem fieldsIn_init : FieldsIn .init [] := ⟨rfl, fun _ => rfl⟩

theorem readParams_spec (hzero : 0 ∉ feature) (hshort : feature.length < 128)
    (hlength : (feature ++ 0 :: rest).length < 2 ^ 63) :
    ((∃ param, ¬ (arg feature param).length ≤ param.size) ∧
      readParams (feature ++ 0 :: rest) = none) ∨
    (∀ param, (arg feature param).length ≤ param.size) ∧
      ∃ s, readParams (feature ++ 0 :: rest) = some s ∧
        ∀ param, s.buf param = fill param.size (arg feature param) := by
  obtain ⟨hclosed, hlast⟩ := length_pieces ';'.toUInt8 feature
  have hrun := (paramRuns hlength).scan_eq (by decide) hzero rfl .init
  rw [readParams, hrun]
  exact runParams_spec (hlast.trans_lt hshort) (closed ';'.toUInt8 feature)
    (fun piece h => (hclosed piece h).trans hshort) fieldsIn_init fun _ => Nat.zero_le _

theorem arg_spec (hzero : 0 ∉ feature) (hshort : feature.length < 128) (param : FeatureParam) :
    0 ∉ arg feature param ∧ (arg feature param).length < 128 := by
  obtain ⟨hclosed, hlast⟩ := not_mem_pieces hzero ';'.toUInt8
  obtain ⟨hclosed', hlast'⟩ := length_pieces ';'.toUInt8 feature
  unfold arg argFrom
  split
  · exact ⟨hlast, hlast'.trans_lt hshort⟩
  · cases h : (closed ';'.toUInt8 feature)[param.index]? with
    | none => exact ⟨not_mem_nil, Nat.zero_lt_succ _⟩
    | some piece =>
      grind

theorem strcpyField_isSome {src text : List UInt8} (hzero : 0 ∉ text) (n : ℕ)
    (hsrc : stringAt src = some text) :
    (strcpyField n src).isSome = true ↔ text.length < n := by
  rw [strcpyField, strcpy_fill hsrc]
  by_cases hlt : text.length < n
  · rw [if_pos hlt, bind_some, stringAt_fill hzero hlt.le, if_pos hlt]
    exact iff_of_true rfl hlt
  · simp [*]

theorem bind_isSome {α β : Type} {o : Option α} {f : α → Option β} {p : Prop}
    (h : ∀ a, o = some a → ((f a).isSome = true ↔ p)) :
    (o.bind f).isSome = true ↔ o.isSome = true ∧ p := by
  cases o with
  | none => exact iff_of_false Bool.false_ne_true fun h => Bool.false_ne_true h.1
  | some a => exact (h a rfl).trans (iff_and_self.2 fun _ => rfl)

theorem storeFeature_isSome (hzero : 0 ∉ feature) (hshort : feature.length < 128)
    {s : ParamState} (hs : ∀ param, s.buf param = fill param.size (arg feature param))
    (hfit : ∀ param, (arg feature param).length ≤ param.size) (appid : ℤ) (name : Text)
    (proto : ℕ) (srcPort : ℤ) (dportInfo : List RangeValue) :
    (storeFeature (feature ++ 0 :: rest) appid name proto srcPort dportInfo s).isSome = true ↔
      (arg feature .hostUrl).length < 32 ∧ (arg feature .str).length < 32 ∧
        DictFits (arg feature .dict) := by
  have harg := arg_spec hzero hshort
  have hstring {param : FeatureParam} (hsize : param.size = 128) :
      stringAt (s.buf param) = some (arg feature param) := by
    rw [hs, hsize, stringAt_fill (harg param).1 (harg param).2.le, if_pos (harg param).2]
  have hhost : (strcpyField 128 (s.buf .hostUrl)).isSome = true ↔
      (arg feature .hostUrl).length < 32 := by
    have hbuf := stringAt_fill (harg .hostUrl).1 (hfit .hostUrl)
    rw [← hs] at hbuf
    by_cases hlt : (arg feature .hostUrl).length < FeatureParam.hostUrl.size
    · rw [if_pos hlt] at hbuf
      exact iff_of_true ((strcpyField_isSome (harg .hostUrl).1 128 hbuf).2 (harg .hostUrl).2) hlt
    · rw [if_neg hlt] at hbuf
      rw [strcpyField, strcpy, hbuf]
      exact iff_of_false Bool.false_ne_true hlt
  have hrequest := (strcpyField_isSome (harg .requestUrl).1 128 (hstring rfl)).2
    (harg .requestUrl).2
  have hstr := strcpyField_isSome (harg .str).1 32 (hstring rfl)
  have hfeature := (strcpyField_isSome hzero 128 (stringAt_append hzero rest)).2 hshort
  have hdict : (readPosInfo (s.buf .dict)).isSome = true ↔ DictFits (arg feature .dict) := by
    have hbuf : s.buf .dict = arg feature .dict ++
        0 :: List.replicate (128 - ((arg feature .dict).length + 1)) 0 := by
      rw [hs]
      exact fill_of_lt (harg .dict).2
    have hlength : (s.buf .dict).length < 2 ^ 63 := by
      rw [hs, length_fill (hfit .dict)]
      decide
    rw [hbuf] at hlength ⊢
    exact readPosInfo_isSome (harg .dict).1 hlength
  obtain ⟨requestUrl, hrequest⟩ := isSome_iff_exists.1 hrequest
  obtain ⟨text, hfeature⟩ := isSome_iff_exists.1 hfeature
  refine (bind_isSome fun hostUrl _ => ?_).trans (and_congr_left' hhost)
  rw [hrequest, bind_some]
  refine (bind_isSome fun searchStr _ => ?_).trans (and_congr_left' hstr)
  rw [hfeature, bind_some, isSome_map]
  exact hdict

theorem readPortInfo_isSome {text : Text} (hzero : 0 ∉ text) (hle : text.length ≤ 16) :
    (readPortInfo (fill 16 text)).isSome = true ↔ text.length < 16 ∧ PortsFit text := by
  by_cases hlt : text.length < 16
  · have hlength : (fill 16 text).length < 2 ^ 63 := by
      rw [length_fill hle]
      decide
    rw [fill_of_lt hlt] at hlength ⊢
    rw [readPortInfo_eq hzero hlength, parsePortInfo, parsePieces_isSome, and_iff_right hlt]
    · simp only [length_nil, Nat.zero_add]
      rfl
    · intro item hitem
      have hitem := length_le_of_mem_pieces hitem
      have hkept := (kTrim_sublist text).length_le
      omega
  · rw [readPortInfo, kTrimIn, stringAt_fill hzero hle, if_neg hlt]
    exact iff_of_false Bool.false_ne_true fun h => hlt h.1

theorem addAppFeature_isSome (hzero : 0 ∉ feature) (hshort : feature.length < 128)
    (hlength : (feature ++ 0 :: rest).length < 2 ^ 63) (appid : ℤ) (name : Text) :
    (addAppFeature appid name (feature ++ 0 :: rest)).isSome = true ↔ FeatureFits feature := by
  have harg := arg_spec hzero hshort
  unfold addAppFeature FeatureFits
  rw [stringAt_append hzero, bind_some]
  by_cases hmin : feature.length < 8
  · simp [*]
  rw [if_neg hmin, or_iff_right hmin]
  obtain ⟨⟨param, hlong⟩, hnone⟩ | ⟨hfit, s, hsome, hs⟩ := readParams_spec hzero hshort hlength
  · rw [hnone]
    exact iff_of_false Bool.false_ne_true fun h => hlong (h.copied param)
  rw [hsome, bind_some, hs, stringAt_fill (harg .proto).1 (hfit .proto)]
  by_cases hproto : (arg feature .proto).length < FeatureParam.proto.size
  · rw [if_pos hproto, bind_some]
    cases hsupported : protoOf (arg feature .proto) with
    | none =>
      refine iff_of_true rfl ⟨hfit, hproto, fun h => ?_⟩
      rw [hsupported] at h
      cases h
    | some proto =>
      have hports : (readPortInfo (s.buf .dstPort)).isSome = true ↔
          (arg feature .dstPort).length < 16 ∧ PortsFit (arg feature .dstPort) := by
        rw [hs]
        exact readPortInfo_isSome (harg .dstPort).1 (hfit .dstPort)
      have hstore (srcPort : ℤ) (dportInfo : List RangeValue) :=
        @storeFeature_isSome feature rest hzero hshort s hs hfit appid name proto srcPort dportInfo
      have hall : ((readInt isspace (s.buf .srcPort)).bind fun srcPort =>
          (readPortInfo (s.buf .dstPort)).bind fun dportInfo =>
          (storeFeature (feature ++ 0 :: rest) appid name proto
            ((srcPort.map Prod.fst).getD 0) dportInfo s).map some).isSome = true ↔
          (readInt isspace (s.buf .srcPort)).isSome = true ∧
          ((arg feature .dstPort).length < 16 ∧ PortsFit (arg feature .dstPort)) ∧
          (arg feature .hostUrl).length < 32 ∧ (arg feature .str).length < 32 ∧
            DictFits (arg feature .dict) := by
        refine bind_isSome fun srcPort _ => ?_
        refine (bind_isSome fun dportInfo _ => ?_).trans (and_congr_left' hports)
        rw [isSome_map]
        exact hstore _ dportInfo
      rw [hall, hs .srcPort]
      constructor
      · rintro ⟨hsrc, ⟨hdst, hrange⟩, hhost, hstr, hdict⟩
        exact ⟨hfit, hproto, fun _ => ⟨hsrc, hdst, hrange, hhost, hstr, hdict⟩⟩
      · intro h
        have hstored := h.stored (by rw [hsupported]; rfl)
        exact ⟨hstored.srcPort, ⟨hstored.dstPort, hstored.ports⟩, hstored.hostUrl, hstored.str,
          hstored.dict⟩
  · rw [if_neg hproto]
    exact iff_of_false Bool.false_ne_true fun h => hproto h.proto

end Features

/-! ## Lines -/

section Lines

variable {mem : List UInt8} {appId : ℤ} {appName : Text}

variable {s : LineState}

theorem LineState.add_eq (hs : s.feature.length = 128) {bytes : List UInt8} (h : bytes.length < 128)
    :
    s.add appId appName bytes =
      (addAppFeature appId appName (bytes ++ 0 :: s.feature.drop (bytes.length + 1))).map
        fun added =>
          ⟨bytes ++ 0 :: s.feature.drop (bytes.length + 1), s.added ++ added.toList⟩ := by
  have hcopy := store_behind [] bytes s.feature (by omega)
  have hend := store_behind bytes [0] (s.feature.drop bytes.length) (by
    rw [length_drop, length_singleton]
    omega)
  rw [nil_append, length_nil, nil_append] at hcopy
  rw [length_singleton, drop_drop, singleton_append] at hend
  rw [add, hcopy, bind_some, hend, bind_some]

theorem LineState.add_long (hs : s.feature.length = 128) {bytes : List UInt8}
    (h : 128 ≤ bytes.length) : s.add appId appName bytes = none := by
  unfold add
  by_cases hle : bytes.length ≤ 128
  · have hcopy := store_behind [] bytes s.feature (by omega)
    rw [nil_append, length_nil, nil_append] at hcopy
    rw [hcopy, bind_some, store, if_neg, bind_none]
    rw [length_append, length_drop, length_singleton]
    omega
  · rw [store, if_neg (by omega), bind_none]

/-- A feature that a comma ends, as the loop adds it. -/
def linePiece (appId : ℤ) (appName : Text) (s : LineState) (piece : Text) :
    Option (LineState × Bool) :=
  if 128 < piece.length then some (s, true) else (s.add appId appName piece).map (·, false)

def lineLast (appId : ℤ) (appName : Text) (s : LineState) (piece : Text) :
    Option (List ReadFeature) :=
  if 128 < piece.length + 1 then some s.added
  else (s.add appId appName (piece ++ [0])).map (·.added)

theorem lineRuns : Runs ','.toUInt8 mem (lineBody appId appName mem) (lineAfter appId appName mem)
    (linePiece appId appName) (fun s => some s.added) (lineLast appId appName) where
  body s pre piece rest hmem hzero := by
    unfold linePiece lineBody
    rw [Nat.add_sub_cancel_left]
    by_cases hlong : 128 < piece.length
    · rw [if_pos hlong, if_pos hlong]
      refine .inr (.inr ⟨s, _, rfl, rfl, ?_⟩)
      unfold lineAfter
      dsimp only
      rw [if_pos (.inr (by omega))]
    · have hload := load_behind pre piece (','.toUInt8 :: rest)
      rw [if_neg hlong, if_neg hlong, addPiece, Nat.add_sub_cancel_left, hmem, hload, bind_some]
      cases s.add appId appName piece with
      | none => exact .inl ⟨rfl, rfl⟩
      | some s' => exact .inr (.inl ⟨s', rfl, rfl⟩)
  after s pre piece rest hmem hzero := by
    have hload := load_behind pre (piece ++ [0]) rest
    rw [length_append, length_singleton, append_assoc, singleton_append] at hload
    unfold lineAfter lineLast
    dsimp only
    rw [addPiece, Nat.add_sub_cancel_left, hmem, hload, bind_some]
    by_cases hlong : 128 < piece.length + 1
    · rw [if_pos (.inr hlong), if_pos hlong]
    · rw [if_neg (by omega), if_neg hlong]

theorem length_terminated {buf : List UInt8} (hbuf : buf.length = 128) {bytes : List UInt8}
    (h : bytes.length < 128) :
    (bytes ++ 0 :: buf.drop (bytes.length + 1)).length = 128 := by
  rw [length_append, length_cons, length_drop]
  omega

theorem linePiece_spec {s : LineState} (hs : s.feature.length = 128) {piece : Text}
    (hzero : 0 ∉ piece) (hle : piece.length ≤ 128) :
    ((piece.length < 128 ∧ FeatureFits piece) ∧
      ∃ s', linePiece appId appName s piece = some (s', false) ∧ s'.feature.length = 128) ∨
    ¬ (piece.length < 128 ∧ FeatureFits piece) ∧ linePiece appId appName s piece = none := by
  unfold linePiece
  rw [if_neg (by omega)]
  by_cases hlt : piece.length < 128
  · have hlength := length_terminated hs hlt
    have hadd := @addAppFeature_isSome piece (s.feature.drop (piece.length + 1)) hzero hlt
      (by omega) appId appName
    rw [LineState.add_eq hs hlt, and_iff_right hlt, ← hadd]
    cases addAppFeature appId appName (piece ++ 0 :: s.feature.drop (piece.length + 1)) with
    | none => exact .inr ⟨Bool.false_ne_true, rfl⟩
    | some added => exact .inl ⟨rfl, _, rfl, hlength⟩
  · rw [LineState.add_long hs (by omega)]
    exact .inr ⟨fun h => hlt h.1, rfl⟩

theorem lineLast_isSome (hs : s.feature.length = 128) {piece : Text} (hzero : 0 ∉ piece) :
    (lineLast appId appName s piece).isSome = true ↔
      piece.length ≠ 127 ∧ (piece.length < 127 → FeatureFits piece) := by
  have hbytes : (piece ++ [0]).length = piece.length + 1 := length_append
  unfold lineLast
  by_cases hlong : 128 < piece.length + 1
  · rw [if_pos hlong]
    exact iff_of_true rfl ⟨by omega, fun h => by omega⟩
  rw [if_neg hlong, isSome_map]
  by_cases hlt : piece.length < 127
  · have hlength := length_terminated hs (hbytes.trans_lt (by omega : piece.length + 1 < 128))
    have hadd := @addAppFeature_isSome piece (0 :: s.feature.drop ((piece ++ [0]).length + 1))
      hzero (by omega) (by rw [append_assoc, singleton_append] at hlength; omega)
      appId appName
    rw [LineState.add_eq hs (by omega), isSome_map, append_assoc, singleton_append, hadd]
    exact ⟨fun h => ⟨by omega, fun _ => h⟩, fun h => h.2 hlt⟩
  · rw [LineState.add_long hs (by omega)]
    exact iff_of_false Bool.false_ne_true fun h => h.1 (by omega)

theorem runLine_isSome {last : Text} (hlast : 0 ∉ last) (features : List Text)
    (hzero : ∀ feature ∈ features, 0 ∉ feature) {s : LineState} (hs : s.feature.length = 128) :
    (runPieces (linePiece appId appName) (fun s => some s.added) (lineLast appId appName) last s
        features).isSome = true ↔
      (∀ feature ∈ features.takeWhile (·.length ≤ 128),
        feature.length < 128 ∧ FeatureFits feature) ∧
      ((∀ feature ∈ features, feature.length ≤ 128) →
        last.length ≠ 127 ∧ (last.length < 127 → FeatureFits last)) := by
  induction features generalizing s with
  | nil =>
    rw [runPieces, lineLast_isSome hs hlast]
    simp
  | cons feature features ih =>
    obtain ⟨hfeature, hfeatures⟩ := forall_mem_cons.1 hzero
    rw [runPieces, takeWhile_cons, forall_mem_cons]
    by_cases hle : feature.length ≤ 128
    · rw [if_pos (decide_eq_true hle), forall_mem_cons, and_iff_right hle]
      obtain ⟨hfits, s', hsome, hs'⟩ | ⟨hnot, hnone⟩ :=
        @linePiece_spec appId appName s hs feature hfeature hle
      · rw [hsome, bind_some, if_neg Bool.false_ne_true, ih hfeatures hs', and_iff_right hfits]
      · simp [*]
    · have hstop : linePiece appId appName s feature = some (s, true) :=
        if_pos (Nat.lt_of_not_le hle)
      rw [hstop, bind_some, if_pos rfl, if_neg (by simpa using hle)]
      exact iff_of_true rfl ⟨fun _ h => absurd h not_mem_nil, fun h => absurd h.1 hle⟩

theorem findBrackets_cons (pos : Option ℕ) (len p : ℕ) {c : UInt8} (hc : c ≠ 0) (d : UInt8)
    (rest : List UInt8) :
    findBrackets pos len p (c :: d :: rest) =
      findBrackets (if d = '['.toUInt8 then some (p + 2) else pos)
        (if d = ']'.toUInt8 then pos.elim len (p + 1 - ·) else len) (p + 1) (d :: rest) := by
  rw [findBrackets.eq_def]
  dsimp only
  rw [if_neg hc, head?_cons]
  cases pos with
  | none =>
    dsimp only
    split <;> simp
  | some begun =>
    dsimp only
    by_cases hopen : d = '['.toUInt8
    · subst hopen
      rw [if_pos rfl, if_pos rfl, if_neg (by decide)]
    · rw [if_neg hopen, if_neg hopen]
      split <;> rfl

theorem bracketed_cons (begun : Option Text) (len : ℕ) (d : UInt8) (rest : Text) :
    bracketed begun len (d :: rest) =
      bracketed (if d = '['.toUInt8 then some [] else begun.map (· ++ [d]))
        (if d = ']'.toUInt8 then begun.elim len List.length else len) rest := by
  rw [bracketed]
  by_cases hopen : d = '['.toUInt8
  · subst hopen
    rw [if_pos rfl, if_pos rfl, if_neg (by decide)]
  · rw [if_neg hopen, if_neg hopen]
    split <;> rfl

theorem findBrackets_spec {line : Text} (rest : Text) (hzero : 0 ∉ rest) :
    ∀ (done : Text) (pos : Option ℕ) (len p : ℕ) (c : UInt8), c ≠ 0 → line = done ++ rest →
      done.length = p + 1 → (∀ b, pos = some b → b ≤ done.length) → len ≤ line.length →
      ∃ pos' len', findBrackets pos len p (c :: (rest ++ [0])) = some (pos', len') ∧
        (∀ b, pos' = some b → b ≤ line.length) ∧ len' ≤ line.length ∧
        bracketed (pos.map done.drop) len rest = (pos'.elim [] line.drop).take len' := by
  induction rest with
  | nil =>
    intro done pos len p c hc hline _ hpos hlen
    obtain rfl : line = done := by rw [hline, append_nil]
    refine ⟨pos, len, ?_, hpos, hlen, ?_⟩
    · rw [nil_append, findBrackets_cons pos len p hc, if_neg (by decide), if_neg (by decide)]
      rfl
    · cases pos <;> rfl
  | cons d rest ih =>
    intro done pos len p c hc hline hdone hpos hlen
    obtain ⟨hd, hrest⟩ := not_or.1 (fun h => hzero (List.mem_cons.2 h))
    have hdone' : (done ++ [d]).length = p + 1 + 1 := by rw [length_append, length_singleton, hdone]
    have hlength : line.length = p + 1 + (rest.length + 1) := by
      rw [hline, length_append, hdone, length_cons]
    have hpos' : ∀ b, (if d = '['.toUInt8 then some (p + 2) else pos) = some b →
        b ≤ (done ++ [d]).length := by
      intro b hb
      split at hb
      · obtain rfl := Option.some.inj hb
        omega
      · have := hpos b hb
        omega
    have hnew : (if d = ']'.toUInt8 then pos.elim len (p + 1 - ·) else len) ≤ line.length := by
      split
      · cases pos with
        | none => exact hlen
        | some b =>
          change p + 1 - b ≤ line.length
          omega
      · exact hlen
    obtain ⟨pos', len', hfound, hin, hlen', htext⟩ := ih hrest (done ++ [d]) _ _ (p + 1) d
      (Ne.symm hd) (by rw [hline, append_assoc, singleton_append]) hdone' hpos' hnew
    refine ⟨pos', len', ?_, hin, hlen', ?_⟩
    · rw [cons_append, findBrackets_cons pos len p hc]
      exact hfound
    · rw [← htext, bracketed_cons]
      -- the pointers and the texts behind them change alike
      have hbegun : (if d = '['.toUInt8 then some [] else (pos.map done.drop).map (· ++ [d])) =
          (if d = '['.toUInt8 then some (p + 2) else pos).map (done ++ [d]).drop := by
        split
        · rw [map_some, drop_eq_nil_of_le (by omega)]
        · rw [Option.map_map]
          refine Option.map_congr fun b hb => ?_
          exact (drop_append_of_le_length (hpos b hb)).symm
      have hlength : (pos.map done.drop).elim len List.length = pos.elim len (p + 1 - ·) := by
        cases pos with
        | none => rfl
        | some b =>
          simp [*]
      rw [hbegun, hlength]

theorem copyBrackets_eq {line : Text} (hzero : 0 ∉ line) (hlength : line.length < 800)
    {pos : Option ℕ} {len : ℕ} (hpos : ∀ b, pos = some b → b ≤ line.length)
    (hlen : len ≤ line.length) :
    copyBrackets (line ++ [0]) pos len = some (fill 800 ((pos.elim [] line.drop).take len)) := by
  unfold copyBrackets
  cases pos with
  | none => rw [elim_none, take_nil]
  | some b =>
    dsimp only
    split
    · simp [*]
    · rw [drop_append_of_le_length (hpos b rfl),
        strncpy_take (fun h => hzero (mem_of_mem_drop h)) (by omega), elim_some]

theorem readFeatures_isSome {text : Text} (hzero : 0 ∉ text) (hlength : text.length < 800) :
    (readFeatures appId appName (fill 800 text)).isSome = true ↔ FeaturesFit text := by
  have hrun := (@lineRuns (fill 800 text) appId appName).scan_eq (by decide) hzero
    (fill_of_lt hlength) ⟨fill 128 [], []⟩
  obtain ⟨hclosed, hlast⟩ := not_mem_pieces hzero ','.toUInt8
  have hfits := @runLine_isSome appId appName _ hlast _ hclosed ⟨fill 128 [], []⟩
    (length_fill (Nat.zero_le 128))
  rw [readFeatures, hrun, hfits]
  exact ⟨fun h => ⟨h.1, h.2⟩, fun h => ⟨h.ended, h.behind⟩⟩

theorem ne_nil_of_header {line : Text} {r : ℤ × Text}
    (h : afParseFeatureAppHeader line = some r) : line ≠ [] := by
  rintro rfl
  cases h

/-- Every write and read of a line stays inside exactly if the line fits. -/
theorem feature_line_inside (line : Text) (hzero : 0 ∉ line) (hlength : line.length < 800) :
    (afInitFeature (line ++ [0])).isSome = true ↔ LineFits line := by
  unfold afInitFeature LineFits
  rw [stringAt_append hzero, bind_some]
  by_cases hhash : '#'.toUInt8 ∈ line
  · simp [*]
  rw [if_neg hhash, or_iff_right hhash]
  cases hheader : afParseFeatureAppHeader line with
  | none => exact iff_of_true rfl (.inl rfl)
  | some header =>
    obtain ⟨c, rest, rfl⟩ := exists_cons_of_ne_nil (ne_nil_of_header hheader)
    obtain ⟨hc, hrest⟩ := not_or.1 (fun h => hzero (List.mem_cons.2 h))
    obtain ⟨pos, len, hfound, hpos, hlen, htext⟩ := findBrackets_spec rest hrest [c] none 0 0 c
      (Ne.symm hc) (singleton_append).symm rfl (fun b h => nomatch h) (Nat.zero_le _)
    have hkept (d : UInt8) (h : d ∈ bracketed none 0 rest) : d ∈ c :: rest := by
      rw [← map_none, htext] at h
      have h := mem_of_mem_take h
      cases pos with
      | none => exact absurd h not_mem_nil
      | some b => exact mem_of_mem_drop h
    have hshort : (bracketed none 0 rest).length < 800 := by
      rw [← map_none, htext]
      exact (length_take_le _ _).trans_lt (hlen.trans_lt hlength)
    have hcopy := copyBrackets_eq hzero hlength hpos hlen
    rw [← htext] at hcopy
    rw [or_iff_right (some_ne_none _)]
    dsimp only
    rw [cons_append, hfound, bind_some, ← cons_append, hcopy, bind_some, isSome_map]
    exact readFeatures_isSome (fun h => hzero (hkept 0 h)) hshort

/-- The line `7~v:[tcp;443;80|!90;a.tv;/x;0:1b|-1:2;q;1]`. -/
theorem feature_line_inside_all : LineFits [
    0x37, 0x7e, 0x76, 0x3a, 0x5b, 0x74, 0x63, 0x70, 0x3b, 0x34, 0x34, 0x33, 0x3b, 0x38, 0x30,
    0x7c, 0x21, 0x39, 0x30, 0x3b, 0x61, 0x2e, 0x74, 0x76, 0x3b, 0x2f, 0x78, 0x3b, 0x30, 0x3a,
    0x31, 0x62, 0x7c, 0x2d, 0x31, 0x3a, 0x32, 0x3b, 0x71, 0x3b, 0x31, 0x5d] :=
  (feature_line_inside _ (by decide) (by decide)).1 (by decide +kernel)

/-- A host of 33 bytes is written past the 32 that `add_app_feature` has for it. -/
theorem host_past_buffer : ¬ ∀ line : Text, 0 ∉ line → line.length < 800 →
      (afInitFeature (line ++ [0])).isSome = true := by
  intro h
  have hhost := h ([0x37, 0x7e, 0x76, 0x3a, 0x5b, 0x74, 0x63, 0x70, 0x3b, 0x3b, 0x3b] ++
    List.replicate 33 0x61 ++ [0x3b, 0x3b, 0x5d]) (by decide) (by decide)
  exact absurd hhost (by decide +kernel)

end Lines

end Apackage.OpenAppFilter.FeatureLine
