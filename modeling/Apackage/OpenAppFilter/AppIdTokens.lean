import Apackage.OpenAppFilter.AppRules

/-
  Adding a token of application ids to a rule and deleting it again.

  The loops over a range have an `int` counter and an inclusive bound. With the largest `int` for
  the bound, the loop of a deletion does not stop: the counter wraps, and soon gives an index before
  the table. Other tokens are deleted as they should be (`tokenRight_iff`).
-/

namespace Apackage.OpenAppFilter

open Function List

variable {f : AppFilter} {t : AppSets} {id : ℤ}

/-! ## Sets of ids -/

namespace AppSets

def without (t : AppSets) (id : ℤ) (ids : List ℤ) : AppSets :=
  t.set id { t.rule id with apps := (t.rule id).apps \ ids.toFinset }

theorem set_set (t : AppSets) (id : ℤ) (r r' : RuleSet) : (t.set id r).set id r' = t.set id r' := by
  unfold set
  rw [update_idem]

theorem set_rule (t : AppSets) (id : ℤ) (r : RuleSet) : (t.set id r).rule id = r := update_self ..

theorem foldl_delId (t : AppSets) (id : ℤ) (ids : List ℤ) :
    ids.foldl (fun t appId => t.delId id appId) t = t.without id ids := by
  induction ids generalizing t with
  | nil =>
    unfold without set
    rw [toFinset_nil, Finset.sdiff_empty]
    exact congrArg (AppSets.mk t.ids) (update_eq_self id t.rule).symm
  | cons appId ids ih =>
    rw [foldl_cons, ih]
    unfold without delId
    rw [set_set, set_rule, toFinset_cons]
    rw [Finset.erase_sdiff_comm, ← Finset.sdiff_insert]

end AppSets

theorem addIds_sdiff (apps : Finset ℤ) (ids : List ℤ) :
    addIds apps ids \ ids.toFinset = apps \ ids.toFinset := by
  have hstep : ∀ (more : List ℤ) (apps : Finset ℤ), more ⊆ ids →
      more.foldl addId apps \ ids.toFinset = apps \ ids.toFinset := by
    intro more
    induction more with
    | nil => exact fun _ _ => rfl
    | cons appId more ih =>
      intro apps hsub
      obtain ⟨hhead, htail⟩ := cons_subset.1 hsub
      rw [foldl_cons, ih _ htail]
      unfold addId
      split
      · exact Finset.insert_sdiff_of_mem _ (List.mem_toFinset.2 hhead)
      · rfl
  exact hstep ids apps (List.Subset.refl ids)

/-! ## Tokens -/

section Tokens

variable (scanRange : String → Option (Int32 × Int32)) (kstrtoint : String → Option Int32)

def tokenIds (token : String) : List ℤ :=
  (appIdToken scanRange kstrtoint (.text "app_id" token)).ids

/-- `add_app_id_token_to_rule` for a rule of the filter. -/
def addToken (f : AppFilter) (rule : AppFilterRule) (token : String) : Except Stop AppFilter := do
  let appIdList ← addAppIdTokenToRule scanRange kstrtoint rule.appIdList (.text "app_id" token)
  return f.modify rule.ruleId fun rule => { rule with appIdList := appIdList }

/-- Adding the token and deleting it come back; a deletion takes the token's ids out of the rule and
    changes nothing else, and it does so too after an addition of the token. -/
structure TokenRight (f : AppFilter) (t : AppSets) (rule : AppFilterRule) (token : String) :
    Prop where
  deleted : ∃ f', delAppIdTokenFromRule scanRange kstrtoint f rule.ruleId (.text "app_id" token) =
      .ok f' ∧ f'.Refines (t.without rule.ruleId (tokenIds scanRange kstrtoint token))
  added : ∃ f' f'', addToken scanRange kstrtoint f rule token = .ok f' ∧
    delAppIdTokenFromRule scanRange kstrtoint f' rule.ruleId (.text "app_id" token) = .ok f'' ∧
      f''.Refines (t.without rule.ruleId (tokenIds scanRange kstrtoint token))

/-- The token is no range to the largest `int`. -/
def BelowMax (token : String) : Prop :=
  ∀ range ∈ scanRange token, 0 < range.1.toInt → range.2.toInt < intMax
  deriving Decidable

variable {scanRange kstrtoint} {token : String}

theorem appIdToken_text (token : String) : appIdToken scanRange kstrtoint (.text "app_id" token) =
      match scanRange token with
      | some (first, last) =>
        if first.toInt ≤ 0 ∨ last.toInt < first.toInt then .invalid
        else .range first.toInt last.toInt
      | none =>
        match kstrtoint token with
        | some value => if 0 < value.toInt then .single value.toInt else .invalid
        | none => .invalid :=
  rfl

variable (kstrtoint) in
/-- A string token is no number, and a range that it names ends below the largest `int`. -/
theorem BelowMax.reads (h : BelowMax scanRange token) :
    (appIdToken scanRange kstrtoint (.text "app_id" token)).deletedIds =
        tokenIds scanRange kstrtoint token ∧
      (∀ f ruleId, DelFits f ruleId (appIdToken scanRange kstrtoint (.text "app_id" token))) ∧
      ∀ apps, (appIdToken scanRange kstrtoint (.text "app_id" token)).Fits apps := by
  unfold tokenIds
  rw [appIdToken_text]
  split
  · rename_i first last hscan
    have hmax : 0 < first.toInt → last.toInt < intMax := h (first, last) hscan
    split
    · exact ⟨rfl, fun _ _ => trivial, fun _ => trivial⟩
    · exact ⟨rfl, fun _ _ => hmax (by omega), fun _ => .inl (hmax (by omega))⟩
  · split
    · split <;> exact ⟨rfl, fun _ _ => trivial, fun _ => trivial⟩
    · exact ⟨rfl, fun _ _ => trivial, fun _ => trivial⟩

variable (id) in
theorem AppFilter.Refines.delBelow (h : f.Refines t) (hmax : BelowMax scanRange token) :
    ∃ f', delAppIdTokenFromRule scanRange kstrtoint f id (.text "app_id" token) = .ok f' ∧
      f'.Refines (t.without id (tokenIds scanRange kstrtoint token)) := by
  obtain ⟨hids, hfits, -⟩ := hmax.reads kstrtoint
  obtain ⟨f', hdel, hrel⟩ := h.delToken (hfits f id)
  rw [hids, AppSets.foldl_delId] at hrel
  exact ⟨f', hdel, hrel⟩

theorem forRange_intMax {σ : Type} {body : σ → ℤ → Except Stop (σ × Bool)}
    (hbody : ∀ s i s' goOn, body s i = .ok (s', goOn) → goOn = true) {n : ℕ} {i : ℤ}
    (hi : i ≤ intMax) (s s' : σ) : forRange body intMax n i s ≠ .ok s' := by
  induction n generalizing i s with
  | zero => rintro ⟨⟩
  | succ n ih =>
    unfold forRange
    rw [if_pos hi]
    cases hrun : body s i with
    | error stop => rintro ⟨⟩
    | ok next =>
      obtain ⟨s₁, goOn⟩ := next
      obtain rfl := hbody s i s₁ goOn hrun
      have hnext : (i + 1).bmod (2 ^ 32) ≤ intMax := by
        unfold intMax
        have := Int.bmod_lt (x := i + 1) (m := 2 ^ 32) (by decide)
        omega
      exact ih hnext s₁

variable (scanRange kstrtoint)

theorem tokenRight_iff (h : f.Refines t) {rule : AppFilterRule} (hrule : rule ∈ f.rules)
    (token : String) :
    TokenRight scanRange kstrtoint f t rule token ↔ BelowMax scanRange token := by
  constructor
  · rintro ⟨⟨f', hdel, -⟩, -⟩ ⟨first, last⟩ hscan hpos
    by_contra hmax
    dsimp only at hpos hmax
    have hle := last.toInt_lt
    have hlast : last.toInt = intMax := by
      unfold intMax at hmax ⊢
      omega
    have hfirst := first.toInt_lt
    unfold delAppIdTokenFromRule at hdel
    rw [appIdToken_text, hscan] at hdel
    dsimp only at hdel
    rw [if_neg (by unfold intMax at hlast; omega)] at hdel
    rw [hlast] at hdel
    refine forRange_intMax ?_ (by unfold intMax; omega) f f' hdel
    intro f i f'' goOn hstep
    cases hone : fwxDelAppIdFromRule f rule.ruleId i with
    | error stop => rw [hone] at hstep; exact nomatch hstep
    | ok f₁ =>
      rw [hone] at hstep
      cases hstep
      rfl
  · intro hmax
    refine ⟨h.delBelow rule.ruleId hmax, ?_⟩
    obtain ⟨-, -, hfits⟩ := hmax.reads kstrtoint
    obtain ⟨config, hadd, hok, happs⟩ :=
      addAppIdTokenToRule_ok (h.ok rule hrule).apps (hfits rule.appIdList.apps)
    have hvalue : t.rule rule.ruleId = rule.toSet := h.represents.value rule hrule
    have hadded : (f.modify rule.ruleId fun rule => { rule with appIdList := config }).Refines
        (t.set rule.ruleId { t.rule rule.ruleId with apps := config.apps }) := by
      refine h.modify (g := fun rule => { rule with appIdList := config }) (fun _ => rfl)
        fun rule' hmem hid => ?_
      obtain rfl := h.represents.unique hmem hrule hid
      refine ⟨⟨(h.ok rule' hmem).macs, hok⟩, ?_⟩
      rw [hvalue]
      rfl
    obtain ⟨f'', hdel, hrel⟩ := hadded.delBelow rule.ruleId hmax
    refine ⟨_, f'', by unfold addToken; rw [hadd]; rfl, hdel, ?_⟩
    have hsame : (t.set rule.ruleId { t.rule rule.ruleId with apps := config.apps }).without
        rule.ruleId (tokenIds scanRange kstrtoint token) =
          t.without rule.ruleId (tokenIds scanRange kstrtoint token) := by
      unfold AppSets.without
      rw [AppSets.set_set, AppSets.set_rule, happs, hvalue]
      rw [show (appIdToken scanRange kstrtoint (.text "app_id" token)).ids =
        tokenIds scanRange kstrtoint token from rfl, addIds_sdiff]
      rfl
    rwa [hsame] at hrel

theorem refines_one : (fwxAddAppFilterRule .init 1).Refines (AppSets.empty.add 1) :=
  AppFilter.Refines.init.add 1

theorem tokenRight_iff_range :
    TokenRight scanRange1001 (fun _ => none) (fwxAddAppFilterRule .init 1) (AppSets.empty.add 1)
      ⟨1, 1, 0, .init, .init⟩ "1001-1003" ↔ BelowMax scanRange1001 "1001-1003" :=
  tokenRight_iff scanRange1001 (fun _ => none) refines_one (.head _) "1001-1003"

def scanRangeMax (token : String) : Option (Int32 × Int32) :=
  if token = "2147483647-2147483647" then some (2147483647, 2147483647) else none

theorem deleteMax_outside : ¬ TokenRight scanRangeMax (fun _ => none) (fwxAddAppFilterRule .init 1)
    (AppSets.empty.add 1) ⟨1, 1, 0, .init, .init⟩ "2147483647-2147483647" := by
  rintro ⟨⟨f', hdel, -⟩, -⟩
  have houtside : delAppIdTokenFromRule scanRangeMax (fun _ => none) (fwxAddAppFilterRule .init 1) 1
      (.text "app_id" "2147483647-2147483647") = .error .outside := rfl
  exact nomatch hdel.symm.trans houtside

end Tokens

end Apackage.OpenAppFilter
