import Apackage.OpenAppFilter.AppFilter

/-
  The hash table of application ids as a bounded set: adding an id inserts it while there is room,
  and a token adds the ids that it names.

  A range that ends at the largest `int` has no end for the loop that adds it, unless the table is
  full before the counter gets to an index outside the table (`TokenFits`).
-/

namespace Apackage.OpenAppFilter

open List Lib.HashChain

/-! ## Tables -/

/-- The remainder of the id is an index of the table. -/
def InTable (appId : ℤ) : Prop := 0 ≤ appId.tmod appidHashSize
  deriving Decidable

def chainOf (appId : ℤ) : ℕ := (appId.tmod appidHashSize).toNat

theorem inTable_of_nonneg {appId : ℤ} (h : 0 ≤ appId) : InTable appId := Int.tmod_nonneg _ h

theorem chainOf_lt (appId : ℤ) : chainOf appId < appidHashSize := by
  have hlt := Int.tmod_lt_of_pos appId (show (0 : ℤ) < appidHashSize by decide)
  have hsize : 0 < appidHashSize := by decide
  unfold chainOf
  omega

theorem appIdIndex_ok {appId : ℤ} (h : InTable appId) : appIdIndex appId = .ok (chainOf appId) :=
  if_pos h

/-- The ids of a table. -/
def AppIdConfig.apps (config : AppIdConfig) : Finset ℤ := keys appidHashSize config.hashTable

/-- Each id is positive and in its chain once, and the count is right. -/
structure AppIdConfig.Ok (config : AppIdConfig) : Prop where
  placed : Placed chainOf appidHashSize config.hashTable
  nodup : ∀ i, (config.hashTable i).Nodup
  count : config.count = config.apps.card
  le : config.count ≤ maxAppIdPerRule
  pos : ∀ appId ∈ config.apps, 0 < appId

/-- An id is inserted while there is room. -/
def addId (apps : Finset ℤ) (appId : ℤ) : Finset ℤ :=
  if apps.card < 1024 then insert appId apps else apps

def addIds (apps : Finset ℤ) (ids : List ℤ) : Finset ℤ := ids.foldl addId apps

theorem addIds_full {apps : Finset ℤ} (h : 1024 ≤ apps.card) (ids : List ℤ) :
    addIds apps ids = apps := by
  induction ids with
  | nil => rfl
  | cons appId ids ih =>
    have hstay : addId apps appId = apps := if_neg (by omega)
    unfold addIds at ih ⊢
    rw [foldl_cons, hstay, ih]

theorem addIds_or (apps : Finset ℤ) (ids : List ℤ) :
    addIds apps ids = apps ∪ ids.toFinset ∨ 1024 ≤ (addIds apps ids).card := by
  induction ids generalizing apps with
  | nil =>
    refine .inl ?_
    rw [toFinset_nil, Finset.union_empty]
    rfl
  | cons appId ids ih =>
    by_cases hroom : apps.card < 1024
    · have hstep : addIds apps (appId :: ids) = addIds (insert appId apps) ids := by
        unfold addIds
        rw [foldl_cons, addId, if_pos hroom]
      rw [hstep, toFinset_cons, Finset.union_insert, ← Finset.insert_union]
      exact ih (insert appId apps)
    · rw [addIds_full (by omega)]
      exact .inr (by omega)

namespace AppIdConfig

theorem ok_init : init.Ok := by
  have hnone : init.apps = ∅ := keys_empty
  refine ⟨placed_empty, fun _ => nodup_nil, ?_, by decide, ?_⟩
  · rw [hnone]
    rfl
  · rw [hnone]
    exact fun _ h => absurd h (Finset.notMem_empty _)

variable {config : AppIdConfig} {appId : ℤ}

section

variable (h : config.Ok)

include h

theorem Ok.flush : flushAppIdList config = init := by
  unfold flushAppIdList init
  rw [h.placed.flush]

theorem Ok.find (hin : InTable appId) :
    findAppIdNode config appId = .ok (decide (appId ∈ config.apps)) := by
  unfold findAppIdNode AppIdConfig.apps
  rw [appIdIndex_ok hin]
  exact congrArg Except.ok (decide_eq_decide.2 h.placed.mem_keys.symm)

theorem Ok.add_full (hin : InTable appId) (hnew : appId ∉ config.apps)
    (hfull : 1024 ≤ config.apps.card) : addAppIdNode config appId = .ok (config, -1) := by
  have hcount := h.count
  have hge : config.count ≥ maxAppIdPerRule := by
    unfold maxAppIdPerRule
    omega
  unfold addAppIdNode
  rw [h.find hin, decide_eq_false hnew]
  rw [if_pos hge]
  rfl

theorem Ok.add (hpos : 0 < appId) :
    ∃ config' ret, addAppIdNode config appId = .ok (config', ret) ∧ config'.Ok ∧
      config'.apps = addId config.apps appId ∧ (ret < 0 → 1024 ≤ config'.apps.card) := by
  have hin := inTable_of_nonneg hpos.le
  have hcount := h.count
  have hle := h.le
  by_cases hmem : appId ∈ config.apps
  · refine ⟨config, 0, ?_, h, ?_, fun hn => absurd hn (lt_irrefl _)⟩
    · unfold addAppIdNode
      rw [h.find hin, decide_eq_true hmem]
      rfl
    · unfold addId
      rw [Finset.insert_eq_of_mem hmem, ite_self]
  by_cases hfull : 1024 ≤ config.apps.card
  · exact ⟨config, -1, h.add_full hin hmem hfull, h, (if_neg (by omega)).symm, fun _ => hfull⟩
  · have hadd := h.placed.keys_add (chainOf_lt appId)
    have hnode : addAppIdNode config appId =
        .ok (⟨config.hashTable.add (chainOf appId) appId, config.count + 1⟩, 0) := by
      have hroom : ¬ config.count ≥ maxAppIdPerRule := by
        unfold maxAppIdPerRule
        omega
      unfold addAppIdNode
      rw [h.find hin, decide_eq_false hmem, appIdIndex_ok hin]
      rw [if_neg hroom]
      rfl
    have hcard : (insert appId config.apps).card = config.apps.card + 1 :=
      Finset.card_insert_of_notMem hmem
    refine ⟨_, 0, hnode, ?_, hadd.trans (if_pos (by omega)).symm, fun hn => absurd hn (lt_irrefl _)⟩
    refine ⟨h.placed.add (chainOf_lt appId), nodup_add h.nodup fun hm =>
      hmem (h.placed.mem_keys.2 hm), ?_, ?_, ?_⟩
    · show config.count + 1 = ((keys _ _).card : ℤ)
      rw [hadd, show keys appidHashSize config.hashTable = config.apps from rfl, hcard]
      omega
    · show config.count + 1 ≤ maxAppIdPerRule
      unfold maxAppIdPerRule
      omega
    · intro x hx
      rcases Finset.mem_insert.1 (hadd.subset hx : x ∈ insert appId config.apps) with rfl | hx
      · exact hpos
      · exact h.pos x hx

theorem Ok.del (hmem : appId ∈ config.apps) :
    Ok ⟨config.hashTable.remove (chainOf appId) appId, config.count - 1⟩ ∧
      AppIdConfig.apps ⟨config.hashTable.remove (chainOf appId) appId, config.count - 1⟩ =
        config.apps.erase appId := by
  have hcount := h.count
  have hle := h.le
  have hdel := h.placed.keys_remove (nodup_iff_count_le_one.1 (h.nodup (chainOf appId)) appId)
  have hcard := Finset.card_erase_add_one hmem
  refine ⟨⟨h.placed.remove appId, nodup_remove h.nodup appId, ?_, by dsimp only; omega, ?_⟩, hdel⟩
  · show config.count - 1 = ((keys _ _).card : ℤ)
    rw [hdel, show keys appidHashSize config.hashTable = config.apps from rfl]
    omega
  · exact fun x hx => h.pos x (Finset.mem_of_mem_erase (hdel.subset hx))

end

end AppIdConfig

/-! ## Loops over ranges -/

def idsFrom : ℕ → ℤ → List ℤ
  | 0, _ => []
  | n + 1, i => i :: idsFrom n (i + 1)

theorem bmod_of_int {i : ℤ} (h0 : 0 < i) (h : i ≤ intMax) : i.bmod (2 ^ 32) = i := by
  unfold intMax at h
  rw [Int.bmod_def]
  split <;> omega

theorem bmod_past : (intMax + 1).bmod (2 ^ 32) = -2 ^ 31 := by decide

section Loop

variable {σ τ : Type} {body : σ → ℤ → Except Stop (σ × Bool)} {R : σ → τ → Prop}
  {abs : τ → ℤ → τ} {last : ℤ}

/-- A loop whose body does what `abs` does, and may stop where `abs` does nothing any more. If the
    counter wraps, the body has to stop there. -/
theorem forRange_simulates (hlast : last ≤ intMax)
    (hbody : ∀ s t i, 0 < i → R s t → ∃ s' goOn, body s i = .ok (s', goOn) ∧ R s' (abs t i) ∧
      (goOn = false → ∀ ids : List ℤ, ids.foldl abs (abs t i) = abs t i))
    {n fuel : ℕ} {i : ℤ} {s : σ} {t : τ} (hi : 0 < i) (hn : i + n = last + 1) (hfuel : n + 2 ≤ fuel)
    (hend : last < intMax ∨ ∀ s, R s ((idsFrom n i).foldl abs t) → body s (-2 ^ 31) = .ok (s, false))
    (h : R s t) :
    ∃ s', forRange body last fuel (i.bmod (2 ^ 32)) s = .ok s' ∧
      R s' ((idsFrom n i).foldl abs t) := by
  induction n generalizing fuel i s t with
  | zero =>
    obtain ⟨fuel, rfl⟩ : ∃ k, fuel = k + 1 := ⟨fuel - 1, by omega⟩
    rw [show i = last + 1 by omega, forRange]
    rcases hend with hlt | hstop
    · rw [bmod_of_int (by omega) (by omega), if_neg (by omega)]
      exact ⟨s, rfl, h⟩
    · by_cases hlt : last < intMax
      · rw [bmod_of_int (by omega) (by omega), if_neg (by omega)]
        exact ⟨s, rfl, h⟩
      · rw [show last = intMax by omega, bmod_past, if_pos (by decide), hstop s h]
        exact ⟨s, rfl, h⟩
  | succ n ih =>
    obtain ⟨fuel, rfl⟩ : ∃ k, fuel = k + 1 := ⟨fuel - 1, by omega⟩
    obtain ⟨s', goOn, hrun, hrel, hstop⟩ := hbody s t i hi h
    rw [forRange, bmod_of_int hi (by omega), if_pos (by omega), hrun]
    cases goOn with
    | false =>
      refine ⟨s', rfl, ?_⟩
      show R s' ((idsFrom n (i + 1)).foldl abs (abs t i))
      rw [hstop rfl]
      exact hrel
    | true => exact ih (by omega) (by push_cast at hn; omega) (by omega) hend hrel

end Loop

/-! ## Tokens -/

namespace AppIdToken

def ids : AppIdToken → List ℤ
  | .number value => if 0 < value then [value] else []
  | .range first last => idsFrom (last - first + 1).toNat first
  | .single value => [value]
  | .invalid => []

/-- The ids that a token names for a deletion, where a number may have any sign. -/
def deletedIds : AppIdToken → List ℤ
  | .number value => [value]
  | token => token.ids

/-- A range to the largest `int` fills the table. -/
def Fits (apps : Finset ℤ) : AppIdToken → Prop
  | .range first last =>
    last < intMax ∨ 1024 ≤ (apps ∪ (AppIdToken.range first last).ids.toFinset).card
  | _ => True

instance (apps : Finset ℤ) : DecidablePred (Fits apps)
  | .range _ _ => inferInstanceAs (Decidable (_ ∨ _))
  | .number _ | .single _ | .invalid => isTrue trivial

/-- What the reading of a token checks. -/
def WellFormed : AppIdToken → Prop
  | .range first last => 0 < first ∧ first ≤ last ∧ last ≤ intMax
  | .single value => 0 < value
  | _ => True

theorem Fits.of_or {apps apps' : Finset ℤ} {token : AppIdToken} (h : Fits apps token)
    (hor : apps' = apps ∨ 1024 ≤ apps'.card) : Fits apps' token := by
  rcases hor with rfl | hfull
  · exact h
  · cases token with
    | range first last => exact .inr (hfull.trans (Finset.card_le_card Finset.subset_union_left))
    | number | single | invalid => trivial

end AppIdToken

section Tokens

variable (scanRange : String → Option (Int32 × Int32)) (kstrtoint : String → Option Int32)

theorem appIdToken_wellFormed (appIdObj : CJson) :
    (appIdToken scanRange kstrtoint appIdObj).WellFormed := by
  unfold appIdToken
  split
  · trivial
  split
  · trivial
  split
  · trivial
  split
  · rename_i first last _
    split
    · trivial
    · rename_i hrange
      have := last.toInt_lt
      unfold AppIdToken.WellFormed intMax
      omega
  · split
    · split
      · assumption
      · trivial
    · trivial

variable {config : AppIdConfig} {scanRange kstrtoint}

theorem addAppIdInRange_ok {appId : ℤ} (h : config.Ok) (hpos : 0 < appId) :
    ∃ config' goOn, addAppIdInRange config appId = .ok (config', goOn) ∧
      (config'.Ok ∧ config'.apps = addId config.apps appId) ∧
      (goOn = false → ∀ ids : List ℤ, ids.foldl addId (addId config.apps appId) =
        addId config.apps appId) := by
  obtain ⟨config', ret, hadd, hok, happs, hfull⟩ := h.add hpos
  refine ⟨config', decide (0 ≤ ret), ?_, ⟨hok, happs⟩, fun hstop => ?_⟩
  · unfold addAppIdInRange
    rw [hadd]
    rfl
  · have hneg := of_decide_eq_false hstop
    rw [← happs]
    exact addIds_full (hfull (by omega))

/-- A token adds the ids that it names, while there is room. -/
theorem addAppIdTokenToRule_ok (h : config.Ok) {appIdObj : CJson}
    (hfits : (appIdToken scanRange kstrtoint appIdObj).Fits config.apps) :
    ∃ config', addAppIdTokenToRule scanRange kstrtoint config appIdObj = .ok config' ∧ config'.Ok ∧
      config'.apps = addIds config.apps (appIdToken scanRange kstrtoint appIdObj).ids := by
  have hwf := appIdToken_wellFormed scanRange kstrtoint appIdObj
  have hone : ∀ appId : ℤ, 0 < appId → ∃ config',
      Prod.fst <$> addAppIdNode config appId = .ok config' ∧ config'.Ok ∧
        config'.apps = addIds config.apps [appId] := by
    intro appId hpos
    obtain ⟨config', ret, hadd, hok, happs, -⟩ := h.add hpos
    exact ⟨config', by rw [hadd]; rfl, hok, happs⟩
  unfold addAppIdTokenToRule
  cases htoken : appIdToken scanRange kstrtoint appIdObj with
  | number value =>
    dsimp only [AppIdToken.ids]
    by_cases hpos : 0 < value
    · simp [*]
    · rw [if_neg hpos, if_neg hpos]
      exact ⟨config, rfl, h, rfl⟩
  | single value =>
    rw [htoken] at hwf
    exact hone value hwf
  | invalid => exact ⟨config, rfl, h, rfl⟩
  | range first last =>
    rw [htoken] at hwf hfits
    obtain ⟨hfirst, hle, hmax⟩ := hwf
    have hstep : ∀ (config : AppIdConfig) apps appId, 0 < appId → (config.Ok ∧ config.apps = apps) →
        ∃ config' goOn, addAppIdInRange config appId = .ok (config', goOn) ∧
          (config'.Ok ∧ config'.apps = addId apps appId) ∧
          (goOn = false → ∀ ids : List ℤ, ids.foldl addId (addId apps appId) = addId apps appId) := by
      rintro config apps appId hpos ⟨hok, rfl⟩
      exact addAppIdInRange_ok hok hpos
    -- past the largest `int` the table is full
    have hend : last < intMax ∨ ∀ config' : AppIdConfig, (config'.Ok ∧ config'.apps =
          (idsFrom (last - first + 1).toNat first).foldl addId config.apps) →
        addAppIdInRange config' (-2 ^ 31) = .ok (config', false) := by
      refine hfits.imp id fun hfull config' hrel => ?_
      obtain ⟨hok, happs⟩ := hrel
      have hcard : 1024 ≤ config'.apps.card := by
        rw [happs]
        rcases addIds_or config.apps (AppIdToken.range first last).ids with hall | hnone
        · exact hfull.trans_eq (congrArg Finset.card hall.symm)
        · exact hnone
      have hnew : (-2 ^ 31 : ℤ) ∉ config'.apps := fun hm => absurd (hok.pos _ hm) (by decide)
      unfold addAppIdInRange
      rw [hok.add_full (by decide) hnew hcard]
      rfl
    have hfuel : (last - first + 1).toNat + 2 ≤ 2 ^ 32 := by
      unfold intMax at hmax
      omega
    have hrange := forRange_simulates hmax hstep hfirst (by omega) hfuel hend ⟨h, rfl⟩
    rw [bmod_of_int hfirst (hle.trans hmax)] at hrange
    exact hrange

/-! ## Lists of tokens -/

variable (scanRange kstrtoint)

def listedIds (appIdObjs : List CJson) : List ℤ :=
  appIdObjs.flatMap fun appIdObj => (appIdToken scanRange kstrtoint appIdObj).ids

/-- Each range to the largest `int` fills the table that has the ids named so far. -/
def TokensFit : Finset ℤ → List CJson → Prop
  | _, [] => True
  | apps, appIdObj :: appIdObjs =>
    (appIdToken scanRange kstrtoint appIdObj).Fits apps ∧
      TokensFit (apps ∪ (appIdToken scanRange kstrtoint appIdObj).ids.toFinset) appIdObjs

instance TokensFit.decidable : ∀ apps appIdObjs,
    Decidable (TokensFit scanRange kstrtoint apps appIdObjs)
  | _, [] => inferInstanceAs (Decidable True)
  | apps, appIdObj :: appIdObjs =>
    have : Decidable (TokensFit scanRange kstrtoint
        (apps ∪ (appIdToken scanRange kstrtoint appIdObj).ids.toFinset) appIdObjs) :=
      TokensFit.decidable _ appIdObjs
    inferInstanceAs (Decidable (_ ∧ _))

variable {scanRange kstrtoint}

theorem foldlM_addAppIdTokenToRule (h : config.Ok) {apps : Finset ℤ} {appIdObjs : List CJson}
    (hor : config.apps = apps ∨ 1024 ≤ config.apps.card)
    (hfit : TokensFit scanRange kstrtoint apps appIdObjs) :
    ∃ config', appIdObjs.foldlM (addAppIdTokenToRule scanRange kstrtoint) config = .ok config' ∧
      config'.Ok ∧ config'.apps = addIds config.apps (listedIds scanRange kstrtoint appIdObjs) := by
  induction appIdObjs generalizing config apps with
  | nil => exact ⟨config, rfl, h, rfl⟩
  | cons appIdObj appIdObjs ih =>
    obtain ⟨config', hadd, hok, happs⟩ := addAppIdTokenToRule_ok h (hfit.1.of_or hor)
    have hor' : config'.apps = apps ∪ (appIdToken scanRange kstrtoint appIdObj).ids.toFinset ∨
        1024 ≤ config'.apps.card := by
      rw [happs]
      rcases hor with hsame | hfull
      · rw [hsame]
        exact addIds_or apps _
      · rw [addIds_full hfull]
        exact .inr hfull
    obtain ⟨config'', hrest, hok', happs'⟩ := ih hok hor' hfit.2
    refine ⟨config'', ?_, hok', ?_⟩
    · rw [foldlM_cons, hadd]
      exact hrest
    · rw [happs', happs]
      unfold addIds listedIds
      rw [flatMap_cons, foldl_append]

end Tokens

end Apackage.OpenAppFilter
