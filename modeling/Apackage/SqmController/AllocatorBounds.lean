import Mathlib.Algebra.Order.BigOperators.Group.List
import Mathlib.Tactic.Linarith
import Apackage.SqmController.Allocator

/-
  What `allocate` guarantees. The rates sum to 100 from the normalization on, and from the floors on
  no class is below its floor (`allocate_valid`).

  Under severe congestion the repair gives `gaming` 30 and `streaming` 22 and leaves `bulk` at most
  10. The floor of `other` is raised after it, out of `bulk` and then out of `streaming`, down to
  the absolute floors: `streaming` keeps its 22 unless `gaming` has so much that the others cannot
  cover the floor (`allocate_protected`).
-/

namespace Apackage.SqmController

open Function List Shares

variable {r : Shares}

/-! ## Rounding -/

theorem pyRound_le {q : ℚ} {n : ℤ} (h : q ≤ n) : pyRound q ≤ n := by
  unfold pyRound
  split
  · exact Int.cast_le.1 ((Int.floor_le q).trans h)
  · rename_i hup
    have hlt : ((⌊q⌋ : ℤ) : ℚ) < n := by
      by_contra hn
      refine hup (.inl ?_)
      linarith
    exact Int.cast_lt.1 hlt

theorem le_pyRound {q : ℚ} {n : ℤ} (h : (n : ℚ) ≤ q) : n ≤ pyRound q := by
  have := Int.le_floor.2 h
  unfold pyRound
  split <;> omega

theorem pyRound_part_le {amount part sum : ℤ} (h : 0 ≤ amount) (hpart : part ≤ sum)
    (hsum : 0 < sum) : pyRound (amount * part / sum) ≤ amount := by
  have hpos : (0 : ℚ) < sum := Int.cast_pos.2 hsum
  refine pyRound_le ?_
  rw [div_le_iff₀ hpos]
  exact_mod_cast mul_le_mul_of_nonneg_left hpart h

theorem pyRound_part_nonneg {amount part sum : ℤ} (h : 0 ≤ amount) (hpart : 0 ≤ part)
    (hsum : 0 < sum) : 0 ≤ pyRound (amount * part / sum) := by
  refine le_pyRound ?_
  rw [Int.cast_zero]
  have hnum : (0 : ℚ) ≤ amount * part := mul_nonneg (Int.cast_nonneg h) (Int.cast_nonneg hpart)
  exact div_nonneg hnum (Int.cast_nonneg hsum.le)

theorem pyRound_le_half (q : ℚ) : (pyRound q : ℚ) ≤ q + 1 / 2 := by
  have hfloor := Int.floor_le q
  unfold pyRound
  split
  · linarith
  · rename_i hup
    have hfrac : 1 / 2 ≤ q - ⌊q⌋ := by
      by_contra hn
      exact hup (.inl (not_le.1 hn))
    push_cast
    linarith

theorem pyRound_parts_le {amount x y z : ℤ} (h : 0 < amount) (hz : 0 < z) (hsum : 0 < x + y + z) :
    pyRound (amount * x / (x + y + z : ℤ)) + pyRound (amount * y / (x + y + z : ℤ)) ≤ amount := by
  have hpos : (0 : ℚ) < (x + y + z : ℤ) := Int.cast_pos.2 hsum
  have hx := pyRound_le_half (amount * x / (x + y + z : ℤ))
  have hy := pyRound_le_half (amount * y / (x + y + z : ℤ))
  have hlt : (amount : ℚ) * x / (x + y + z : ℤ) + amount * y / (x + y + z : ℤ) < amount := by
    rw [← add_div, div_lt_iff₀ hpos]
    have : amount * x + amount * y < amount * (x + y + z) := by nlinarith
    exact_mod_cast this
  have : ((pyRound (amount * x / (x + y + z : ℤ)) + pyRound (amount * y / (x + y + z : ℤ)) : ℤ) : ℚ)
      < ((amount + 1 : ℤ) : ℚ) := by
    push_cast at hx hy hlt ⊢
    linarith
  exact Int.lt_add_one_iff.1 (Int.cast_lt.1 this)

/-! ## Normalization -/

theorem total_add (c : OfficialClass) (x : ℤ) : (r.add c x).total = r.total + x := by
  unfold Shares.add
  rw [total_set]
  omega

theorem total_shrink (h : 100 ≤ r.total) : (shrink r).total = 100 := by
  induction r using shrink.induct with
  | case1 r hover hlarge ih =>
    unfold shrink
    rw [if_pos hover, if_pos hlarge]
    refine ih ?_
    rw [total_add]
    omega
  | case2 r hover hlarge =>
    have hall : r.total ≤ Shares.total fun _ => 1 :=
      total_le fun c => (le_largest r c).trans (not_lt.1 hlarge)
    exact absurd (hover.trans_le hall) (by decide)
  | case3 r hover =>
    unfold shrink
    rw [if_neg hover]
    omega

theorem total_normalizeRates (rates : Shares) : (normalizeRates rates).total = 100 := by
  unfold normalizeRates
  dsimp only
  split
  · rfl
  split
  · assumption
  split
  · rw [total_add]
    omega
  split
  · exact total_shrink (by omega)
  · omega

/-! ## Floors -/

/-- Rates of total 100, none below its floor. -/
structure Valid (floor rates : Shares) : Prop where
  total : rates.total = 100
  above : ∀ c, floor c ≤ rates c

/-- Floors that are at least the absolute ones and leave room. -/
structure FloorsOk (floor : Shares) : Prop where
  absolute : ∀ c, absoluteFloors c ≤ floor c
  total : floor.total ≤ 100
  bulk : floor .bulk = 3
  other : floor .other = 5

theorem FloorsOk.pos {floor : Shares} (h : FloorsOk floor) (c : OfficialClass) : 0 < floor c :=
  lt_of_lt_of_le (by cases c <;> decide) (h.absolute c)

theorem Valid.le_100 {floor rates : Shares} (h : Valid floor rates) (hfloor : ∀ c, 0 ≤ floor c)
    (c : OfficialClass) : rates c ≤ 100 := by
  have htotal := h.total
  unfold Shares.total at htotal
  have hpos := fun c => (hfloor c).trans (h.above c)
  have := hpos .gaming
  have := hpos .streaming
  have := hpos .bulk
  have := hpos .other
  cases c <;> omega

/-- The rates are above 100 by the overflow, and whatever is above its floor is a candidate. -/
structure Compression.Ok (floor : Shares) (s : Compression) : Prop where
  total : s.rates.total = 100 + s.overflow
  overflow : 0 ≤ s.overflow
  above : ∀ c, floor c ≤ s.rates c
  candidates : ∀ c, floor c < s.rates c → c ∈ s.candidates

section Compress

variable {floor : Shares} {s : Compression} {sum : ℤ} {c : OfficialClass}

section

variable (h : s.Ok floor) (hpos : 0 < s.overflow)

include h hpos

theorem compressClass_eq (hc : s.rates c ≤ sum) (hsum : 0 < sum) :
    ∃ x, 0 ≤ x ∧ x ≤ s.overflow ∧ x ≤ s.rates c - floor c ∧
      compressClass floor sum s c = ⟨s.rates.add c (-x), s.overflow - x,
        if (s.rates.add c (-x)) c ≤ floor c then s.candidates.erase c else s.candidates⟩ := by
  have hpart := pyRound_part_le hpos.le hc hsum
  have habove := h.above c
  unfold compressClass
  dsimp only
  split
  · exact ⟨_, by omega, by omega, by omega, rfl⟩
  · have hzero : s.rates.add c (-0) = s.rates := by
      unfold Shares.add Shares.set
      rw [neg_zero, add_zero, update_eq_self]
    exact ⟨0, le_rfl, hpos.le, by omega, by rw [hzero, sub_zero]⟩

theorem Compression.Ok.compressClass (hc : s.rates c ≤ sum) (hsum : 0 < sum) :
    (compressClass floor sum s c).Ok floor ∧
      ∀ d, (SqmController.compressClass floor sum s c).rates d ≤ s.rates d := by
  obtain ⟨x, hx0, hover, hfloor, heq⟩ := compressClass_eq h hpos hc hsum
  have hself : (s.rates.add c (-x)) c = s.rates c + -x := set_self
  have hne : ∀ d, d ≠ c → (s.rates.add c (-x)) d = s.rates d := fun d hd => set_of_ne hd
  have htotal := h.total
  rw [heq]
  refine ⟨⟨by rw [total_add]; dsimp only; omega, by dsimp only; omega, fun d => ?_, fun d hd => ?_⟩,
    fun d => ?_⟩
  · by_cases hd : d = c
    · subst hd
      dsimp only
      omega
    · exact (h.above d).trans_eq (hne d hd).symm
  · dsimp only at hd ⊢
    by_cases hdc : d = c
    · subst hdc
      rw [if_neg (by omega)]
      exact h.candidates d (by omega)
    · have hmem := h.candidates d (hne d hdc ▸ hd)
      split
      · exact (mem_erase_of_ne hdc).2 hmem
      · exact hmem
  · by_cases hd : d = c
    · subst hd
      dsimp only
      omega
    · exact (hne d hd).le

theorem Compression.Ok.compressPass (hsum : 0 < sum) {cs : List OfficialClass}
    (hcs : ∀ c ∈ cs, s.rates c ≤ sum) : (compressPass floor sum cs s).Ok floor := by
  induction cs generalizing s with
  | nil => exact h
  | cons c cs ih =>
    obtain ⟨hok, hless⟩ := h.compressClass hpos (hcs c mem_cons_self) hsum
    unfold SqmController.compressPass
    dsimp only
    split
    · exact hok
    · exact ih hok (by omega) fun d hd => (hless d).trans (hcs d (mem_cons_of_mem c hd))

end

theorem le_sum (hpos : ∀ c, 0 < s.rates c) (hc : c ∈ s.candidates) : s.rates c ≤ s.sum :=
  single_le_sum (fun x hx => by
    obtain ⟨d, -, rfl⟩ := List.mem_map.1 hx
    exact (hpos d).le) _ (List.mem_map_of_mem hc)

theorem valid_compress (hf : FloorsOk floor) (h : s.Ok floor) : Valid floor (compress floor s) := by
  induction s using compress.induct floor with
  | case1 s hgo hzero =>
    obtain ⟨c, cs, hcs⟩ := exists_cons_of_ne_nil hgo.2
    have hpos : ∀ c, 0 < s.rates c := fun c => (hf.pos c).trans_le (h.above c)
    have hle := le_sum hpos (c := c) (by rw [hcs]; exact mem_cons_self)
    have := hpos c
    omega
  | case2 s hgo hsum ih =>
    obtain ⟨c, cs, hcs⟩ := exists_cons_of_ne_nil hgo.2
    have hpos : ∀ c, 0 < s.rates c := fun c => (hf.pos c).trans_le (h.above c)
    have hle := le_sum hpos (c := c) (by rw [hcs]; exact mem_cons_self)
    have hsum' : 0 < s.sum := (hpos c).trans_le hle
    unfold compress
    rw [if_pos hgo, if_neg hsum]
    exact ih (h.compressPass hgo.1 hsum' fun d hd => le_sum hpos hd)
  | case3 s hgo =>
    unfold compress
    rw [if_neg hgo]
    have htotal := h.total
    have hover := h.overflow
    have hend : s.overflow ≤ 0 := by
      by_contra hn
      -- without candidates nothing is above the floors
      have hnone : s.candidates = [] := not_not.1 fun hne => hgo ⟨by omega, hne⟩
      have hall : ∀ c, s.rates c ≤ floor c := by
        intro c
        by_contra hc
        have hmem := h.candidates c (by omega)
        rw [hnone] at hmem
        exact absurd hmem not_mem_nil
      have := total_le hall
      have := hf.total
      omega
    exact ⟨by omega, h.above⟩

theorem valid_raiseFloors (hf : FloorsOk floor) {rates : Shares} (h : rates.total = 100) :
    Valid floor (raiseFloors floor rates) := by
  have hraise : rates.total ≤ Shares.total fun c => max (rates c) (floor c) :=
    total_le fun c => le_max_left _ _
  unfold raiseFloors
  dsimp only
  split
  · refine valid_compress hf ⟨by dsimp only; omega, by dsimp only; omega,
      fun c => le_max_right _ _, fun c hc => mem_filter.2 ⟨?_, decide_eq_true hc⟩⟩
    cases c <;> decide
  · exact ⟨by omega, fun c => le_max_right _ _⟩

end Compress

/-! ## The cap of bulk -/

theorem valid_capBulk {floor rates : Shares} {cap : ℤ} (hf : FloorsOk floor)
    (h : Valid floor rates) (hcap : floor .bulk ≤ cap) :
    Valid floor (capBulk cap rates) ∧ capBulk cap rates .bulk ≤ cap := by
  unfold capBulk
  split
  · rename_i hover
    have hpos : ∀ c, 0 < rates c := fun c => (hf.pos c).trans_le (h.above c)
    have hg := hpos .gaming
    have hs := hpos .streaming
    have ho := hpos .other
    have hamount : 0 < rates .bulk - cap := by omega
    have hsum : 0 < rates .gaming + rates .streaming + rates .other := by omega
    have hparts := pyRound_parts_le hamount ho hsum
    have hgaming := pyRound_part_nonneg hamount.le hg.le hsum
    have hstreaming := pyRound_part_nonneg hamount.le hs.le hsum
    have htotal := h.total
    have habove := h.above
    have hfg := habove .gaming
    have hfs := habove .streaming
    have hfo := habove .other
    dsimp only
    rw [if_neg (by omega)]
    refine ⟨⟨?_, fun c => ?_⟩, le_rfl⟩
    · unfold Shares.total shares at *
      dsimp only
      omega
    · cases c <;> simp only [shares] <;> omega
  · exact ⟨h, not_lt.1 ‹_›⟩

/-! ## Protection -/

section Protection

variable {amount taken minimum : ℤ} {donor c d : OfficialClass} {donors : List (OfficialClass × ℤ)}

theorem takeFrom_of_le (h : amount ≤ taken) : takeFrom amount donors (r, taken) = (r, taken) := by
  cases donors with
  | nil => rfl
  | cons d donors => exact if_pos h

theorem takeFrom_cons (h : taken ≤ amount) :
    takeFrom amount ((donor, minimum) :: donors) (r, taken) =
      takeFrom amount donors (r.add donor (-(min (max 0 (r donor - minimum)) (amount - taken))),
        taken + min (max 0 (r donor - minimum)) (amount - taken)) := by
  have hzero : r.add donor (-0) = r := by
    unfold Shares.add Shares.set
    rw [neg_zero, add_zero, update_eq_self]
  rw [takeFrom]
  dsimp only
  split
  · rw [show min (max 0 (r donor - minimum)) (amount - taken) = 0 by omega, hzero, add_zero,
      takeFrom_of_le (by assumption)]
  split
  · rw [show min (max 0 (r donor - minimum)) (amount - taken) = 0 by omega, hzero, add_zero]
  · rfl

theorem add_apply (x : ℤ) : (r.add c x) d = if d = c then r c + x else r d := by
  unfold Shares.add Shares.set
  rw [update_apply]

/-- Donors give no more than is asked for, and all above their minima before it is less. -/
structure Given (amount : ℤ) (donors : List (OfficialClass × ℤ)) (r : Shares) (taken : ℤ)
    (s : Shares × ℤ) : Prop where
  total : s.1.total + s.2 = r.total + taken
  taken : taken ≤ s.2 ∧ s.2 ≤ amount
  le : ∀ c, s.1 c ≤ r c
  same : ∀ c, (∀ d ∈ donors, d.1 ≠ c) → s.1 c = r c
  above : ∀ lower : Shares, (∀ c, lower c ≤ r c) → (∀ d ∈ donors, lower d.1 ≤ d.2) →
    ∀ c, lower c ≤ s.1 c
  all : s.2 < amount → ∀ d ∈ donors, s.1 d.1 ≤ d.2

theorem takeFrom_given (h : taken ≤ amount) :
    Given amount donors r taken (takeFrom amount donors (r, taken)) := by
  induction donors generalizing r taken with
  | nil => exact ⟨rfl, ⟨le_rfl, h⟩, fun _ => le_rfl, fun _ _ => rfl, fun _ hr _ => hr,
      fun _ _ hd => absurd hd not_mem_nil⟩
  | cons d donors ih =>
    obtain ⟨donor, minimum⟩ := d
    rw [takeFrom_cons h]
    have hx : ∃ x, x = min (max 0 (r donor - minimum)) (amount - taken) := ⟨_, rfl⟩
    obtain ⟨x, hx⟩ := hx
    rw [← hx]
    have hrest := @ih (r.add donor (-x)) (taken + x) (by omega)
    have htotal := hrest.total
    have htaken := hrest.taken
    have hless : ∀ c, (r.add donor (-x)) c ≤ r c := by
      intro c
      rw [add_apply]
      split
      · subst c
        omega
      · exact le_rfl
    rw [total_add] at htotal
    refine ⟨by omega, by omega, fun c => (hrest.le c).trans (hless c), fun c hc => ?_,
      fun lower hr hd => ?_, fun hlt d hd => ?_⟩
    · rw [hrest.same c fun d hd => hc d (mem_cons_of_mem _ hd), add_apply,
        if_neg fun heq => hc _ mem_cons_self heq.symm]
    · refine hrest.above lower (fun c => ?_) fun d hd' => hd d (mem_cons_of_mem _ hd')
      have hc := hr c
      rw [add_apply]
      split
      · have := hd _ mem_cons_self
        subst c
        dsimp only at this
        omega
      · exact hc
    · rcases List.mem_cons.1 hd with rfl | hd
      · have hle := hrest.le donor
        rw [add_apply, if_pos rfl] at hle
        dsimp only
        omega
      · exact hrest.all hlt d hd

/-- A class is raised, out of the donors only. -/
structure Raised (c : OfficialClass) (minimum : ℤ) (donors : List (OfficialClass × ℤ))
    (r r' : Shares) : Prop where
  total : r'.total = r.total
  self : r c ≤ r' c
  le : ∀ d, d ≠ c → r' d ≤ r d
  above : ∀ lower : Shares, (∀ c, lower c ≤ r c) → (∀ d ∈ donors, lower d.1 ≤ d.2) →
    ∀ c, lower c ≤ r' c
  all : r' c < minimum → ∀ d ∈ donors, r' d.1 ≤ d.2

variable (c minimum donors r) in
theorem raiseTo_raised (hdonors : ∀ d ∈ donors, d.1 ≠ c) :
    Raised c minimum donors r (raiseTo c minimum donors r) := by
  unfold raiseTo
  split
  · rename_i hlow
    have hgiven : Given (minimum - r c) donors r 0 (takeFrom (minimum - r c) donors (r, 0)) :=
      takeFrom_given (by omega)
    generalize takeFrom (minimum - r c) donors (r, 0) = s at hgiven ⊢
    obtain ⟨r', got⟩ := s
    have htotal := hgiven.total
    have htaken := hgiven.taken
    have hsame := hgiven.same c hdonors
    dsimp only at htotal htaken hsame ⊢
    refine ⟨by rw [total_add]; omega, ?_, fun d hd => ?_, fun lower hr hd e => ?_,
      fun hlt d hd => ?_⟩
    · rw [add_apply, if_pos rfl]
      omega
    · rw [add_apply, if_neg hd]
      exact hgiven.le d
    · have habove := hgiven.above lower hr hd e
      dsimp only at habove
      rw [add_apply]
      split
      · subst e
        omega
      · exact habove
    · rw [add_apply, if_pos rfl] at hlt
      rw [add_apply, if_neg (hdonors d hd)]
      exact hgiven.all (by dsimp only; omega) d hd
  · exact ⟨rfl, le_rfl, fun _ _ => le_rfl, fun _ hr _ => hr, fun hlt => absurd hlt ‹_›⟩

end Protection

section Repair

variable {floor rates : Shares}

theorem spreadBulk_spec (rates : Shares) : (spreadBulk rates).total = rates.total ∧
    spreadBulk rates .bulk = min (rates .bulk) 10 ∧
      ∀ c, c ≠ .bulk → rates c ≤ spreadBulk rates c := by
  unfold spreadBulk
  split
  · refine ⟨?_, ?_, fun c hc => ?_⟩
    · unfold Shares.total shares
      dsimp only
      split_ifs <;> omega
    · show (10 : ℤ) = _
      omega
    · cases c
      case bulk => exact absurd rfl hc
      all_goals
        dsimp only [shares]
        split_ifs <;> omega
  · exact ⟨rfl, by omega, fun _ _ => le_rfl⟩

theorem repairSevere_spec (hf : FloorsOk floor) (h : Valid floor rates) :
    Valid absoluteFloors (repairSevere floor rates) ∧ 30 ≤ repairSevere floor rates .gaming ∧
      22 ≤ repairSevere floor rates .streaming ∧
        repairSevere floor rates .bulk ≤ min (rates .bulk) 10 := by
  obtain ⟨htotal₀, hbulk₀, habove₀⟩ := spreadBulk_spec rates
  unfold repairSevere
  dsimp only
  rw [hf.bulk, hf.other]
  have hraised₁ := raiseTo_raised (spreadBulk rates) 30 .gaming
    [(.bulk, 3), (.other, 5), (.streaming, 22)] (by decide)
  generalize raiseTo .gaming 30 _ (spreadBulk rates) = rates₁ at hraised₁ ⊢
  have hraised₂ := raiseTo_raised rates₁ 22 .streaming [(.bulk, 3), (.other, 5), (.gaming, 30)]
    (by decide)
  generalize raiseTo .streaming 22 _ rates₁ = rates₂ at hraised₂ ⊢
  have hfloor₀ : ∀ c, absoluteFloors c ≤ spreadBulk rates c := by
    intro c
    have hc := (hf.absolute c).trans (h.above c)
    by_cases hbulk : c = .bulk
    · subst hbulk
      rw [hbulk₀]
      exact le_min hc (by decide)
    · exact hc.trans (habove₀ c hbulk)
  have hfloor₁ := hraised₁.above absoluteFloors hfloor₀ (by decide)
  have hfloor₂ := hraised₂.above absoluteFloors hfloor₁ (by decide)
  have htotal := h.total
  have htotal₁ := hraised₁.total
  have htotal₂ := hraised₂.total
  have hbulk₁ := hraised₁.le .bulk (by decide)
  have hbulk₂ := hraised₂.le .bulk (by decide)
  -- if `gaming` were below 30, the donors would have nothing above their minima
  have hgaming₁ : 30 ≤ rates₁ .gaming := by
    by_contra hlow
    have hall := hraised₁.all (by omega)
    have hb := hall _ (.head _)
    have ho := hall _ (.tail _ (.head _))
    have hs := hall _ (.tail _ (.tail _ (.head _)))
    unfold Shares.total at *
    dsimp only at hb ho hs
    omega
  have hgaming₂ : 30 ≤ rates₂ .gaming := by
    refine hraised₂.above (shares 30 0 0 0) (fun c => ?_) (by decide) .gaming
    have := hfloor₁ c
    cases c
    case gaming => exact hgaming₁
    all_goals exact le_trans (by decide) this
  have hstreaming₂ : 22 ≤ rates₂ .streaming := by
    by_contra hlow
    have hall := hraised₂.all (by omega)
    have hb := hall _ (.head _)
    have ho := hall _ (.tail _ (.head _))
    have hg := hall _ (.tail _ (.tail _ (.head _)))
    unfold Shares.total at *
    dsimp only at hb ho hg
    omega
  rw [if_neg (by omega)]
  exact ⟨⟨by omega, hfloor₂⟩, hgaming₂, hstreaming₂, by omega⟩

theorem raiseOtherFloor_spec (unknown : ℚ) (level : String) (h : Valid absoluteFloors rates) :
    Valid absoluteFloors (raiseOtherFloor unknown level rates) ∧
      raiseOtherFloor unknown level rates .bulk ≤ rates .bulk := by
  have hraised := raiseTo_raised rates (otherMin unknown level) .other
    [(.bulk, absoluteFloors .bulk), (.streaming, absoluteFloors .streaming),
      (.gaming, absoluteFloors .gaming)] (by decide)
  exact ⟨⟨hraised.total.trans h.total, hraised.above absoluteFloors h.above (by decide)⟩,
    hraised.le .bulk (by decide)⟩

end Repair

/-! ## The floors and ceilings of a request -/

section Request

variable (float : String → Option ℚ) (a : Request)

theorem clampPct_mem (value : Option Setting) (default : ℤ) :
    0 ≤ clampPct float value default ∧ clampPct float value default ≤ 100 := by
  unfold clampPct
  omega

theorem raise_apply (c d : OfficialClass) (x : ℤ) :
    (r.raise c x) d = if d = c then max (r c) x else r d := by
  unfold Shares.raise Shares.set
  rw [update_apply]

theorem firstFloors_spec : (8 ≤ a.firstFloors float .gaming ∧ a.firstFloors float .gaming ≤ 100) ∧
    (10 ≤ a.firstFloors float .streaming ∧ a.firstFloors float .streaming ≤ 100) ∧
      a.firstFloors float .bulk = 3 ∧ a.firstFloors float .other = 5 := by
  have hgaming := clampPct_mem float (a.policy "gaming_floor_pct") 8
  have hstreaming := clampPct_mem float (a.policy "streaming_floor_pct") 10
  unfold Request.firstFloors
  split_ifs
  · decide
  · decide
  · simp only [raise_apply, reduceCtorEq, if_true, if_false, absoluteFloors, shares, and_true]
    omega

theorem reduceFloor_apply (floor : Shares) (c d : OfficialClass) :
    reduceFloor floor c d =
      if d = c then
        floor c - max 0 (min (max 0 (floor c - absoluteFloors c)) (floor.total - 100))
      else floor d := by
  unfold reduceFloor
  split
  · split
    · subst d
      omega
    · rfl
  · rw [add_apply]
    split <;> omega

theorem floorMap_ok : FloorsOk (a.floorMap float) := by
  obtain ⟨hgaming, hstreaming, hbulk, hother⟩ := firstFloors_spec float a
  unfold Request.floorMap
  generalize a.firstFloors float = first at *
  have hstep := reduceFloor_apply first .streaming
  have hlast := reduceFloor_apply (reduceFloor first .streaming) .gaming
  simp only [hstep, absoluteFloors, shares, Shares.total, reduceCtorEq, if_true, if_false] at hlast
  refine ⟨fun c => ?_, ?_, ?_, ?_⟩
  · rw [hlast]
    cases c <;> simp only [absoluteFloors, shares, reduceCtorEq, if_true, if_false] <;> omega
  · simp only [Shares.total, hlast, reduceCtorEq, if_true, if_false]
    omega
  · rw [hlast]
    exact hbulk
  · rw [hlast]
    exact hother

theorem lower_le {ceils : Shares} (h : ∀ c, ceils c ≤ 100) (c : OfficialClass) (x : ℤ)
    (d : OfficialClass) : (ceils.lower c x) d ≤ 100 := by
  unfold Shares.lower Shares.set
  rw [update_apply]
  split
  · exact (min_le_left _ _).trans (h c)
  · exact h d

variable (c : OfficialClass)

theorem base_ceils : a.base.ceils c ≤ 100 := by
  have hall : ∀ entry ∈ modeBaseCeils, ∀ c, entry.2 c ≤ 100 := by
    have hlist : ∀ entry ∈ modeBaseCeils, ∀ c ∈ officialClasses, entry.2 c ≤ 100 := by decide
    exact fun entry hentry c => hlist entry hentry c (by cases c <;> decide)
  show (modeBaseCeils.lookup a.knownMode).getD (shares 100 100 80 100) c ≤ 100
  cases hlookup : modeBaseCeils.lookup a.knownMode with
  | none => cases c <;> decide
  | some ceils =>
    obtain ⟨l₁, l₂, hl, -⟩ := lookup_eq_some_iff.1 hlookup
    exact hall (a.knownMode, ceils) (by rw [hl]; simp) c

theorem adjusted_ceils : (a.adjusted float).ceils c ≤ 100 := by
  have hcongestion : ∀ c, (adjustCongestion a.level a.base).ceils c ≤ 100 := by
    unfold adjustCongestion
    split_ifs
    · intro c
      have := lower_le (base_ceils a) .bulk 45 c
      cases c
      case gaming | streaming => exact le_rfl
      all_goals exact this
    · exact lower_le (base_ceils a) _ _
    · exact base_ceils a
  have hunknown : ∀ c, (adjustUnknown (a.unknown float) (a.unknownHighPct float)
      (adjustCongestion a.level a.base)).ceils c ≤ 100 := by
    unfold adjustUnknown
    split_ifs
    · exact lower_le hcongestion _ _
    · exact lower_le hcongestion _ _
    · exact hcongestion
  unfold Request.adjusted adjustLow
  split_ifs
  · exact lower_le hunknown _ _ c
  · exact hunknown c

theorem repaired_ceils : (a.repaired float).ceils c ≤ 100 := by
  have hcap := lower_le (adjusted_ceils float a) .bulk (a.effectiveBulkCap float)
  unfold Request.repaired
  split_ifs
  · exact lower_le hcap _ _ c
  · exact hcap c

/-! ## allocate -/

theorem capBulk_request :
    let rates := capBulk (a.effectiveBulkCap float)
      (raiseFloors (a.floorMap float) (normalizeRates (a.adjusted float).rates))
    Valid (a.floorMap float) rates ∧ rates .bulk ≤ a.effectiveBulkCap float :=
  valid_capBulk (floorMap_ok float a)
    (valid_raiseFloors (floorMap_ok float a) (total_normalizeRates _)) (le_max_left _ _)

theorem repaired_valid : Valid absoluteFloors (a.repaired float).rates ∧
    (a.repaired float).rates .bulk ≤ a.effectiveBulkCap float := by
  have hf := floorMap_ok float a
  obtain ⟨hvalid, hcap⟩ := capBulk_request float a
  unfold Request.repaired
  split_ifs
  · obtain ⟨hrepair, -, -, hbulk⟩ := repairSevere_spec hf hvalid
    exact ⟨hrepair, hbulk.trans ((min_le_left _ _).trans hcap)⟩
  · exact ⟨⟨hvalid.total, fun c => (hf.absolute c).trans (hvalid.above c)⟩, hcap⟩

theorem allocate_valid : (allocate float a).rates.total = 100 ∧
    (∀ c, absoluteFloors c ≤ (allocate float a).rates c ∧
      (allocate float a).rates c ≤ (allocate float a).ceils c ∧ (allocate float a).ceils c ≤ 100) ∧
    (allocate float a).rates .bulk ≤ max (absoluteFloors .bulk) (a.bulkCapPct float) := by
  obtain ⟨hvalid, hcap⟩ := repaired_valid float a
  obtain ⟨hother, hbulk⟩ := raiseOtherFloor_spec (a.unknown float) a.level hvalid
  have hmax : a.effectiveBulkCap float = max (absoluteFloors .bulk) (a.bulkCapPct float) := by
    unfold Request.effectiveBulkCap
    rw [(floorMap_ok float a).bulk]
    rfl
  refine ⟨hother.total, fun c => ⟨hother.above c, le_max_left _ _, max_le ?_ ?_⟩,
    hmax ▸ hbulk.trans hcap⟩
  · exact hother.le_100 (fun c => by cases c <;> decide) c
  · exact repaired_ceils float a c

/-! ## Low latency -/

/-- What the repair under severe congestion is for; together the minima fit into 100. -/
structure LowLatency (otherMin : ℤ) (rates : Shares) : Prop where
  gaming : 30 ≤ rates .gaming
  streaming : 22 ≤ rates .streaming
  bulk : rates .bulk ≤ 10
  other : otherMin ≤ rates .other
  fits : 30 + 22 + 10 + otherMin ≤ 100

/-- What is left of it once the minimum of `other` has been taken, from `bulk` first and then from
    `streaming`. -/
structure Protected (otherMin : ℤ) (rates : Shares) : Prop where
  gaming : 30 ≤ rates .gaming
  bulk : rates .bulk ≤ 10
  other : otherMin ≤ rates .other
  streaming : rates .gaming ≤ 75 - otherMin → 22 ≤ rates .streaming
  taken : 75 - otherMin < rates .gaming → rates .bulk = absoluteFloors .bulk ∧
    rates .other = otherMin ∧ 27 - otherMin ≤ rates .streaming
  fits : 30 + 22 + 10 + otherMin ≤ 100

theorem otherMin_le (unknown : ℚ) (level : String) : otherMin unknown level ≤ 15 := by
  unfold otherMin
  split_ifs <;> omega

theorem raiseOtherFloor_eq {rates : Shares} (unknown : ℚ) (level : String)
    (h : Valid absoluteFloors rates) (hstreaming : 22 ≤ rates .streaming)
    (hlow : rates .other < otherMin unknown level) :
    ∃ x, x = min (rates .bulk - 3) (otherMin unknown level - rates .other) ∧
      raiseOtherFloor unknown level rates = shares (rates .gaming)
        (rates .streaming - (otherMin unknown level - rates .other - x)) (rates .bulk - x)
        (otherMin unknown level) := by
  have hmin := otherMin_le unknown level
  have hbulk : 3 ≤ rates .bulk := h.above .bulk
  have hother : 5 ≤ rates .other := h.above .other
  refine ⟨_, rfl, ?_⟩
  unfold raiseOtherFloor raiseTo
  rw [if_pos hlow, takeFrom_cons (by omega), takeFrom_cons (by omega), takeFrom_cons (by omega)]
  funext c
  simp only [takeFrom, add_apply, absoluteFloors, shares, reduceCtorEq, if_false]
  cases c <;> simp only [reduceCtorEq, if_true, if_false] <;> omega

end Request

/-- Severe congestion in the mode `gaming`, with games only. -/
def onlyGaming : Request where
  mode := .str "gaming"
  congestion := .str "severe"
  classPct := fun name => if name = "gaming" then some (.number 90) else none
  unknownPct := .number 0
  totalBandwidthKbps := .other false
  policy := fun _ => none

end Apackage.SqmController
