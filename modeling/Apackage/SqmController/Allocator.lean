import Mathlib.Data.Rat.Floor
import Apackage.SqmController.DecisionState

/-
  The shares of the traffic classes (`adaptive_allocator.py`): `allocate` goes from the base rates
  of a mode through the adjustments, the normalization, the floors, the cap of `bulk`, the repair
  under severe congestion and the floor of `other`.

  Model. Numbers are rationals, without the rounding of floats; `float` is Python's on a text. A
  dict of settings is what `get` finds in it, and what is no dict finds nothing.
-/

namespace Apackage.SqmController

open Function List

/-! ## Classes -/

inductive OfficialClass
  | gaming
  | streaming
  | bulk
  | other
  deriving DecidableEq

def officialClasses : List OfficialClass := [.gaming, .streaming, .bulk, .other]

def OfficialClass.name : OfficialClass → String
  | .gaming => "gaming"
  | .streaming => "streaming"
  | .bulk => "bulk"
  | .other => "other"

/-- A number for each class. -/
abbrev Shares := OfficialClass → ℤ

def shares (gaming streaming bulk other : ℤ) : Shares
  | .gaming => gaming
  | .streaming => streaming
  | .bulk => bulk
  | .other => other

namespace Shares

def set (r : Shares) (c : OfficialClass) (x : ℤ) : Shares := Function.update r c x

def add (r : Shares) (c : OfficialClass) (x : ℤ) : Shares := r.set c (r c + x)

def raise (r : Shares) (c : OfficialClass) (x : ℤ) : Shares := r.set c (max (r c) x)

def lower (r : Shares) (c : OfficialClass) (x : ℤ) : Shares := r.set c (min (r c) x)

def total (r : Shares) : ℤ := r .gaming + r .streaming + r .bulk + r .other

/-- `max(OFFICIAL_CLASSES, key=…)`: the first of the largest. -/
def largest (r : Shares) : OfficialClass :=
  officialClasses.foldl (fun l c => if r l < r c then c else l) .gaming

variable {r : Shares} {c d : OfficialClass} {x : ℤ}

theorem set_self : r.set c x c = x := update_self ..

theorem set_of_ne (h : d ≠ c) : r.set c x d = r d := update_of_ne h ..

theorem total_set : (r.set c x).total = r.total - r c + x := by
  unfold total
  cases c <;> simp only [set, update_self, ne_eq, reduceCtorEq, not_false_eq_true,
    update_of_ne] <;> omega

theorem le_largest (r : Shares) (c : OfficialClass) : r c ≤ r r.largest := by
  unfold largest officialClasses
  simp only [foldl_cons, foldl_nil]
  cases c <;> split_ifs <;> omega

theorem total_le {r r' : Shares} (h : ∀ c, r c ≤ r' c) : r.total ≤ r'.total := by
  unfold total
  have := h .gaming
  have := h .streaming
  have := h .bulk
  have := h .other
  omega

end Shares

def modeBaseRates : List (String × Shares) :=
  [("auto", shares 20 25 25 30), ("normal", shares 20 25 25 30), ("balanced", shares 20 25 25 30),
    ("gaming", shares 35 25 10 30), ("streaming", shares 18 38 14 30), ("bulk", shares 12 18 45 25),
    ("live", shares 15 42 13 30), ("meeting", shares 28 24 10 38), ("download", shares 10 15 50 25)]

def modeBaseCeils : List (String × Shares) :=
  [("auto", shares 100 100 80 100), ("normal", shares 100 100 80 100),
    ("balanced", shares 100 100 80 100), ("gaming", shares 100 100 50 100),
    ("streaming", shares 100 100 60 100), ("bulk", shares 80 90 100 100),
    ("live", shares 100 100 55 100), ("meeting", shares 100 100 45 100),
    ("download", shares 80 90 100 100)]

def idleClassFloorPct : ℤ := 3

def absoluteFloors : Shares := shares 8 10 3 5

/-! ## Numbers -/

/-- `int(round(q))`: to the nearest integer, and to the even one of two. -/
def pyRound (q : ℚ) : ℤ :=
  if q - ⌊q⌋ < 1 / 2 ∨ (q - ⌊q⌋ = 1 / 2 ∧ ⌊q⌋ % 2 = 0) then ⌊q⌋ else ⌊q⌋ + 1

/-- A value of a setting; of one that is neither a number nor a text only its truth is kept. -/
inductive Setting
  | number (q : ℚ)
  | text (s : String)
  | other (truth : Bool)

def Setting.truthy : Setting → Bool
  | .number q => q ≠ 0
  | .text s => s ≠ ""
  | .other truth => truth

/-- A dict, or what is none. -/
abbrev Settings := String → Option Setting

section Numbers

variable (float : String → Option ℚ)

/-- What `float` makes of a value. -/
def Setting.float? : Setting → Option ℚ
  | .number q => some q
  | .text s => float s
  | .other _ => none

def safeFloat (value : Setting) (default : ℚ) : ℚ := (value.float? float).getD default

/-- `_clamp_pct` of an entry, which is the default where there is none. -/
def clampPct (value : Option Setting) (default : ℤ) : ℤ :=
  max 0 (min 100
    (match value.bind (·.float? float) with
    | some q => q.num.tdiv q.den
    | none => default))

end Numbers

/-! ## _normalize_rates -/

/-- The loop that takes from the largest rate. -/
def shrink (r : Shares) : Shares :=
  if 100 < r.total then
    if 1 < r r.largest then shrink (r.add r.largest (-1)) else r
  else r
termination_by (r.total - 100).toNat
decreasing_by
  unfold Shares.add
  rw [Shares.total_set]
  omega

def normalizeRates (rates : Shares) : Shares :=
  let sum := Shares.total fun c => max 0 (rates c)
  if sum ≤ 0 then fun _ => 25
  else if sum = 100 then fun c => max 0 (rates c)
  else
    let normalized : Shares := fun c => max 1 (pyRound (max 0 (rates c) * (100 / sum)))
    let diff := 100 - normalized.total
    if 0 < diff then normalized.add normalized.largest diff
    else if diff < 0 then shrink normalized
    else normalized

/-! ## Floors -/

/-- The rates while they are pressed to a total of 100. -/
structure Compression where
  rates : Shares
  overflow : ℤ
  candidates : List OfficialClass

def Compression.sum (s : Compression) : ℤ := (s.candidates.map s.rates).sum

/-- One candidate, in a pass that began with the total `sum` of the candidates. -/
def compressClass (floor : Shares) (sum : ℤ) (s : Compression) (c : OfficialClass) : Compression :=
  let reduction := min (max 1 (pyRound (s.overflow * s.rates c / sum))) (s.rates c - floor c)
  let (rates, overflow) :=
    if 0 < reduction then (s.rates.add c (-reduction), s.overflow - reduction)
    else (s.rates, s.overflow)
  ⟨rates, overflow, if rates c ≤ floor c then s.candidates.erase c else s.candidates⟩

def compressPass (floor : Shares) (sum : ℤ) : List OfficialClass → Compression → Compression
  | [], s => s
  | c :: cs, s =>
    let s := compressClass floor sum s c
    if s.overflow ≤ 0 then s else compressPass floor sum cs s

/-- A bound of the passes that are left. -/
def Compression.left (s : Compression) : ℕ := s.overflow.toNat + s.candidates.length

theorem compressClass_left (floor : Shares) (sum : ℤ) {s : Compression} (h : 0 < s.overflow)
    (c : OfficialClass) : (compressClass floor sum s c).left ≤ s.left ∧
      (c ∈ s.candidates → (compressClass floor sum s c).left < s.left) := by
  have herase : (s.candidates.erase c).length ≤ s.candidates.length := length_erase_le
  have hmem : c ∈ s.candidates → (s.candidates.erase c).length < s.candidates.length := by
    intro hc
    rw [length_erase_of_mem hc]
    have := length_pos_of_mem hc
    omega
  unfold compressClass Compression.left
  dsimp only
  split
  · split <;> omega
  · grind

theorem compressPass_left (floor : Shares) (sum : ℤ) (cs : List OfficialClass) {s : Compression}
    (h : 0 < s.overflow) : (compressPass floor sum cs s).left ≤ s.left := by
  induction cs generalizing s with
  | nil => exact le_rfl
  | cons c cs ih =>
    have hclass := (compressClass_left floor sum h c).1
    unfold compressPass
    dsimp only
    split
    · exact hclass
    · exact (ih (by omega)).trans hclass

def compress (floor : Shares) (s : Compression) : Shares :=
  if 0 < s.overflow ∧ s.candidates ≠ [] then
    if s.sum = 0 then s.rates else compress floor (compressPass floor s.sum s.candidates s)
  else s.rates
termination_by s.left
decreasing_by
  rename_i hgo _
  obtain ⟨hover, hne⟩ := hgo
  obtain ⟨c, cs, hcs⟩ := exists_cons_of_ne_nil hne
  have hclass := (compressClass_left floor s.sum hover c).2 (by rw [hcs]; exact mem_cons_self)
  rw [hcs]
  unfold compressPass
  dsimp only
  split
  · exact hclass
  · exact (compressPass_left floor _ cs (by omega)).trans_lt hclass

def raiseFloors (floor rates : Shares) : Shares :=
  let rates : Shares := fun c => max (rates c) (floor c)
  let overflow := rates.total - 100
  if 0 < overflow then
    compress floor ⟨rates, overflow, officialClasses.filter fun c => floor c < rates c⟩
  else rates

/-! ## The cap of bulk -/

/-- What is above the cap goes to the other classes, and what is left at the end to `other`. -/
def capBulk (cap : ℤ) (rates : Shares) : Shares :=
  if cap < rates .bulk then
    let reclaimed := rates .bulk - cap
    let sum := rates .gaming + rates .streaming + rates .other
    let receiverTotal := if sum = 0 then 3 else sum
    let gaming := max 0 (pyRound (reclaimed * rates .gaming / receiverTotal))
    let streaming := max 0 (pyRound (reclaimed * rates .streaming / receiverTotal))
    let other := max 0 (reclaimed - gaming - streaming)
    shares (rates .gaming + gaming) (rates .streaming + streaming) cap (rates .other + other)
  else rates

/-! ## Protection -/

/-- `take_from`: what the donors have above their minimum, up to the amount. -/
def takeFrom (amount : ℤ) : List (OfficialClass × ℤ) → Shares × ℤ → Shares × ℤ
  | [], s => s
  | (donor, minimum) :: donors, (rates, taken) =>
    if amount ≤ taken then (rates, taken)
    else
      let spare := max 0 (rates donor - minimum)
      if spare ≤ 0 then takeFrom amount donors (rates, taken)
      else
        let part := min spare (amount - taken)
        takeFrom amount donors (rates.add donor (-part), taken + part)

/-- A class below its minimum gets what the donors can spare. -/
def raiseTo (c : OfficialClass) (minimum : ℤ) (donors : List (OfficialClass × ℤ)) (rates : Shares) :
    Shares :=
  if rates c < minimum then
    let (rates, got) := takeFrom (minimum - rates c) donors (rates, 0)
    rates.add c got
  else rates

/-- What `bulk` has above 10 goes first to `gaming` and `streaming`, up to their minima. -/
def spreadBulk (rates : Shares) : Shares :=
  if 10 < rates .bulk then
    let excess := rates .bulk - 10
    let gaming := if rates .gaming < 30 then min excess (30 - rates .gaming) else 0
    let excess := excess - gaming
    let streaming :=
      if 0 < excess ∧ rates .streaming < 22 then min excess (22 - rates .streaming) else 0
    let excess := excess - streaming
    shares (rates .gaming + gaming) (rates .streaming + streaming) 10
      (if 0 < excess then rates .other + excess else rates .other)
  else rates

def repairSevere (floor rates : Shares) : Shares :=
  let rates := spreadBulk rates
  let rates := raiseTo .gaming 30
    [(.bulk, floor .bulk), (.other, floor .other), (.streaming, 22)] rates
  let rates := raiseTo .streaming 22
    [(.bulk, floor .bulk), (.other, floor .other), (.gaming, 30)] rates
  if 10 < rates .bulk then (rates.set .bulk 10).add .other (rates .bulk - 10) else rates

def otherMin (unknownPct : ℚ) (congestion : String) : ℤ :=
  if unknownPct > 70 then 15 else if congestion = "severe" then 12 else 10

/-- `_raise_other_floor`, whose loop takes as `take_from` does. -/
def raiseOtherFloor (unknownPct : ℚ) (congestion : String) (rates : Shares) : Shares :=
  raiseTo .other (otherMin unknownPct congestion)
    [(.bulk, absoluteFloors .bulk), (.streaming, absoluteFloors .streaming),
      (.gaming, absoluteFloors .gaming)] rates

/-! ## allocate -/

/-- The arguments of `allocate`. -/
structure Request where
  mode : Value
  congestion : Value
  classPct : Settings
  unknownPct : Setting
  totalBandwidthKbps : Setting
  policy : Settings

/-- Rates and ceilings. -/
structure Split where
  rates : Shares
  ceils : Shares

section Allocate

variable (float : String → Option ℚ) (a : Request)

def Request.knownMode : String :=
  let mode := (a.mode.or (.str "balanced")).cleaned
  if (modeBaseRates.lookup mode).isSome then mode else "balanced"

/-- `congestion`, once it is known. -/
def Request.level : String :=
  let congestion := (a.congestion.or (.str "normal")).cleaned
  if congestion ∈ ["normal", "mild", "severe"] then congestion else "normal"

def Request.unknown : ℚ := safeFloat float a.unknownPct 0

def Request.bulkCapPct : ℤ :=
  clampPct float ((a.policy "bulk_cap_pct").or (a.policy "bulk_ceil_pct")) 100

def Request.unknownHighPct : ℚ :=
  max 1 (((a.policy "unknown_high_pct").map (safeFloat float · 30)).getD 30)

/-- The first floors: those of the policy, unless the mode is an explicit scene. -/
def Request.firstFloors : Shares :=
  if a.knownMode ∉ ["gaming", "streaming", "bulk", "live", "meeting", "download"] then
    (absoluteFloors.raise .gaming (clampPct float (a.policy "gaming_floor_pct") 8)).raise
      .streaming (clampPct float (a.policy "streaming_floor_pct") 10)
  else if a.level = "severe" then (absoluteFloors.raise .gaming 12).raise .streaming 12
  else absoluteFloors

/-- A floor gives back what the floors have above 100 together. -/
def reduceFloor (floor : Shares) (c : OfficialClass) : Shares :=
  if floor.total - 100 ≤ 0 then floor
  else floor.add c (-(min (max 0 (floor c - absoluteFloors c)) (floor.total - 100)))

def Request.floorMap : Shares := reduceFloor (reduceFloor (a.firstFloors float) .streaming) .gaming

def Request.base : Split :=
  ⟨(modeBaseRates.lookup a.knownMode).getD (shares 20 25 25 30),
    (modeBaseCeils.lookup a.knownMode).getD (shares 100 100 80 100)⟩

def adjustCongestion (level : String) (s : Split) : Split :=
  if level = "severe" then
    ⟨((s.rates.raise .gaming 30).raise .streaming 22).lower .bulk 10,
      ((s.ceils.lower .bulk 45).set .gaming 100).set .streaming 100⟩
  else if level = "mild" then ⟨s.rates.lower .bulk 18, s.ceils.lower .bulk 65⟩
  else s

def adjustUnknown (unknown high : ℚ) (s : Split) : Split :=
  if unknown ≥ high then ⟨(s.rates.raise .gaming 22).raise .streaming 25, s.ceils.lower .bulk 55⟩
  else if unknown ≥ high / 2 then
    ⟨(s.rates.raise .gaming 18).raise .streaming 22, s.ceils.lower .bulk 65⟩
  else s

/-- `active_classes`: those with more than one percent. -/
def Request.active (c : OfficialClass) : Bool :=
  ((a.classPct c.name).map (safeFloat float · 0)).getD 0 > 1

/-- An idle class keeps its floor. -/
def releaseClass (level : String) (floor : Shares) (s : Shares × ℤ) (c : OfficialClass) :
    Shares × ℤ :=
  if level = "severe" ∧ (c = .gaming ∨ c = .streaming) then s
  else
    let least := max idleClassFloorPct (floor c)
    if s.1 c > least then (s.1.set c least, s.2 + (s.1 c - least)) else s

/-- What idle classes release goes to the active ones. -/
def releaseIdle (level : String) (active : OfficialClass → Bool) (floor rates : Shares) : Shares :=
  let activeClasses := officialClasses.filter active
  let idleClasses := officialClasses.filter fun c => !active c
  if idleClasses ≠ [] ∧ activeClasses ≠ [] then
    let (rates, reclaimed) := idleClasses.foldl (releaseClass level floor) (rates, 0)
    if 0 < reclaimed then
      let activeTotal := (activeClasses.map rates).sum
      activeClasses.foldl (fun rates c =>
        if 0 < activeTotal then rates.add c (pyRound (reclaimed * rates c / activeTotal))
        else rates) rates
    else rates
  else rates

/-- The link has little bandwidth, as far as a bandwidth is given. -/
def Request.low : Bool :=
  a.totalBandwidthKbps.truthy && safeFloat float a.totalBandwidthKbps 0 < 10000

def adjustLow (low : Bool) (s : Split) : Split :=
  if low then ⟨(s.rates.raise .gaming 25).lower .bulk 15, s.ceils.lower .bulk 50⟩ else s

/-- Rates and ceilings before the normalization. -/
def Request.adjusted : Split :=
  let s := adjustCongestion a.level a.base
  let s := adjustUnknown (a.unknown float) (a.unknownHighPct float) s
  adjustLow (a.low float) ⟨releaseIdle a.level (a.active float) (a.floorMap float) s.rates, s.ceils⟩

def Request.effectiveBulkCap : ℤ := max (a.floorMap float .bulk) (a.bulkCapPct float)

/-- The rates and ceilings that `_raise_other_floor` finds. -/
def Request.repaired : Split :=
  let s := a.adjusted float
  let rates := capBulk (a.effectiveBulkCap float)
    (raiseFloors (a.floorMap float) (normalizeRates s.rates))
  let ceils := s.ceils.lower .bulk (a.effectiveBulkCap float)
  if a.level = "severe" then
    ⟨repairSevere (a.floorMap float) rates,
      ceils.lower .bulk (min 45 (max 10 (a.effectiveBulkCap float)))⟩
  else ⟨rates, ceils⟩

/-- `rate_pct` and `ceil_pct` of each class. -/
def allocate : Split :=
  let s := a.repaired float
  let rates := raiseOtherFloor (a.unknown float) a.level s.rates
  ⟨rates, fun c => max (rates c) (s.ceils c)⟩

end Allocate

end Apackage.SqmController
