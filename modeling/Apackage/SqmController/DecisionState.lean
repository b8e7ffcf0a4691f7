import Mathlib.Data.List.DropRight
import Mathlib.Data.Rat.Defs
import Mathlib.Algebra.Order.Ring.Rat
import Apackage.Lib.Run

/-
  The mode switch of the SQM controller (`decision_state.py`): `decide` with its debounce and its
  cooldown, in runs of calls that each get the state the call before returned.

  `Lawful` says of a call and the history before it what a switch needs. The reported `from` is the
  stored mode as it stands, where `to` has `auto` replaced by `balanced`: a state that still holds
  `auto` is reported as left while `changed` is false. A switch at clock 0 counts as none.
  `switching_lawful` is about the runs without these two.

  Model. `int` is Python's `int` on a text. Of a value that is neither a text nor an integer only
  its truth, its `str` and its `int` are kept. `lower` changes the characters that have an ASCII
  letter in their lower case. Percentages are rationals.
-/

namespace Apackage.SqmController

open List Lib.Run

/-! ## Values -/

/-- A value of a state or an argument. -/
inductive Value
  | null
  | str (s : String)
  | int (n : ℤ)
  /-- A float, a truth value, a list or a dict. -/
  | other (truth : Bool) (text : String) (asInt : Option ℤ)

namespace Value

def truthy : Value → Bool
  | .null => false
  | .str s => s ≠ ""
  | .int n => n ≠ 0
  | .other truth _ _ => truth

/-- `str`. -/
def text : Value → String
  | .null => "None"
  | .str s => s
  | .int n => toString n
  | .other _ text _ => text

/-- `v or w`. -/
def or (v w : Value) : Value := if v.truthy then v else w

end Value

def isSpace (c : Char) : Bool :=
  (9 ≤ c.toNat && c.toNat ≤ 13) || (28 ≤ c.toNat && c.toNat ≤ 32) || c.toNat = 0x85 ||
    c.toNat = 0xA0 || c.toNat = 0x1680 || (0x2000 ≤ c.toNat && c.toNat ≤ 0x200A) ||
    c.toNat = 0x2028 || c.toNat = 0x2029 || c.toNat = 0x202F || c.toNat = 0x205F ||
    c.toNat = 0x3000

/-- `str.strip`. -/
def strip (s : List Char) : List Char := (s.dropWhile isSpace).rdropWhile isSpace

def lowerChar (c : Char) : List Char :=
  if 'A' ≤ c ∧ c ≤ 'Z' then [Char.ofNat (c.toNat + 32)]
  else if c.toNat = 0x212A then ['k']
  else if c.toNat = 0x130 then ['i', Char.ofNat 0x307]
  else [c]

/-- `str.lower`. -/
def lower (s : List Char) : List Char := s.flatMap lowerChar

/-- `str(v).strip().lower()`. -/
@[irreducible]
def Value.cleaned (v : Value) : String := String.ofList (lower (strip v.text.toList))

def safeInt (int : String → Option ℤ) : Value → ℤ
  | .null => 0
  | .str s => (int s).getD 0
  | .int n => n
  | .other _ _ asInt => asInt.getD 0

/-! ## Modes -/

/-- `VALID_STATES`. -/
inductive Mode
  | auto
  | balanced
  | gaming
  | streaming
  | bulk
  | live
  | meeting
  | download
  deriving DecidableEq

def Mode.name : Mode → String
  | .auto => "auto"
  | .balanced => "balanced"
  | .gaming => "gaming"
  | .streaming => "streaming"
  | .bulk => "bulk"
  | .live => "live"
  | .meeting => "meeting"
  | .download => "download"

def validStates : List Mode :=
  [.auto, .balanced, .gaming, .streaming, .bulk, .live, .meeting, .download]

def normalizeMode (mode : Value) (default : Mode) : Mode :=
  (validStates.find? fun m => m.name = (mode.or (.str default.name)).cleaned).getD default

/-- `auto` stands for `balanced`. -/
def Mode.leaveAuto (m : Mode) : Mode := if m = .auto then .balanced else m

theorem cleaned_name (m : Mode) : (Value.str m.name).cleaned = m.name := by
  cases m <;> decide +kernel

theorem normalizeMode_name (m default : Mode) : normalizeMode (.str m.name) default = m := by
  have htruthy : (Value.str m.name).or (.str default.name) = .str m.name := by cases m <;> rfl
  unfold normalizeMode
  rw [htruthy, cleaned_name]
  cases m <;> rfl

theorem name_inj {m n : Mode} (h : m.name = n.name) : m = n := by
  have := normalizeMode_name m .auto
  rwa [h, normalizeMode_name, eq_comm] at this

theorem name_ne_empty (m : Mode) : m.name ≠ "" := by cases m <;> decide

/-! ## decide -/

/-- The state that is stored between calls. -/
structure State where
  currentMode : Value
  pendingMode : Value
  pendingHits : Value
  lastSwitchTime : Value
  lastRunTime : Value
  reason : Value

def State.empty : State := ⟨.null, .null, .null, .null, .null, .null⟩

/-- The arguments of a call besides the state, and the clock. -/
structure Call where
  targetMode : Value
  cooldownMin : ℤ
  debounceCount : ℤ
  manualMode : Bool
  reason : String
  unknownPct : ℚ
  nowTs : ℤ

/-- What a call answers. -/
structure Decision where
  fromMode : Mode
  toMode : Mode
  changed : Bool
  reason : String
  cooldownActive : Bool
  state : State

section Decide

variable (int : String → Option ℤ) (c : Call) (s : State)

/-- `normalize_mode(state.get("current_mode"), "balanced")`. -/
def State.storedMode : Mode := normalizeMode s.currentMode .balanced

/-- `current`, once `auto` is replaced. -/
def State.current : Mode := s.storedMode.leaveAuto

/-- `target`, once `auto` is replaced. -/
def target : Mode :=
  (normalizeMode (c.targetMode.or (.str s.storedMode.name)) s.storedMode).leaveAuto

def effectiveDebounce : ℤ :=
  let debounce := max 1 (if c.debounceCount = 0 then 1 else c.debounceCount)
  if c.unknownPct ≥ 30 then debounce + 1 else debounce

def cooldownSec : ℤ := max 0 c.cooldownMin * 60

def cooldownActive : Bool :=
  cooldownSec c ≠ 0 && safeInt int s.lastSwitchTime ≠ 0 &&
    c.nowTs - safeInt int s.lastSwitchTime < cooldownSec c

def State.pending : String := (s.pendingMode.or (.str "")).cleaned

/-- `pending` and `hits` after this call's target. -/
def countHits : String × ℤ :=
  if target c s = s.current then ("", 0)
  else if (target c s).name = s.pending then (s.pending, safeInt int s.pendingHits + 1)
  else ((target c s).name, 1)

protected def decide : Decision :=
  if c.manualMode then ⟨s.current, s.current, false, "manual mode active", false, s⟩
  else
    let lastSwitch := safeInt int s.lastSwitchTime
    let (pending, hits) := countHits int c s
    if target c s ≠ s.current ∧ cooldownActive int c s = false ∧ effectiveDebounce c ≤ hits then
      let reason := if c.reason ≠ "" then c.reason else "switch to " ++ (target c s).name
      { fromMode := s.storedMode
        toMode := target c s
        changed := true
        reason
        cooldownActive := cooldownActive int c s
        state := ⟨.str (target c s).name, .str "", .int 0, .int c.nowTs, .int c.nowTs,
          .str reason⟩ }
    else
      let reason :=
        if cooldownActive int c s then
          "cooldown active (" ++ toString (cooldownSec c - (c.nowTs - lastSwitch)) ++ "s remaining)"
        else if c.reason ≠ "" then c.reason
        else if target c s ≠ s.current then
          "debounce pending (" ++ toString hits ++ "/" ++ toString (effectiveDebounce c) ++ ")"
        else "no change"
      { fromMode := s.storedMode
        toMode := s.current
        changed := false
        reason
        cooldownActive := cooldownActive int c s
        state := ⟨.str s.current.name, .str pending, .int hits, .int lastSwitch, .int c.nowTs,
          .str reason⟩ }

end Decide

/-! ## One call -/

section Call

variable {int : String → Option ℤ} {c : Call} {s : State}

/-- No cooldown is running, and with this call the target has been asked for often enough. -/
def SwitchDue (int : String → Option ℤ) (c : Call) (s : State) : Prop :=
  target c s ≠ s.current ∧ ¬ (cooldownSec c ≠ 0 ∧ safeInt int s.lastSwitchTime ≠ 0 ∧
      c.nowTs < safeInt int s.lastSwitchTime + cooldownSec c) ∧
    effectiveDebounce c ≤
      (if (target c s).name = s.pending then safeInt int s.pendingHits + 1 else 1)
  deriving Decidable

theorem cooldownActive_iff : cooldownActive int c s = true ↔
      cooldownSec c ≠ 0 ∧ safeInt int s.lastSwitchTime ≠ 0 ∧
        c.nowTs < safeInt int s.lastSwitchTime + cooldownSec c := by
  unfold cooldownActive
  rw [Bool.and_eq_true, Bool.and_eq_true, decide_eq_true_iff, decide_eq_true_iff,
    decide_eq_true_iff, and_assoc, sub_lt_iff_lt_add']

theorem switchDue_iff :
    SwitchDue int c s ↔ target c s ≠ s.current ∧ cooldownActive int c s = false ∧
      effectiveDebounce c ≤ (countHits int c s).2 := by
  rw [← Bool.not_eq_true, cooldownActive_iff]
  refine and_congr_right fun hne => and_congr_right fun _ => ?_
  unfold countHits
  rw [if_neg hne]
  split
  · rfl
  · rfl

theorem decide_of_due (hauto : c.manualMode = false) (h : SwitchDue int c s) :
    ∃ reason, SqmController.decide int c s =
      ⟨s.storedMode, target c s, true, reason, cooldownActive int c s,
        ⟨.str (target c s).name, .str "", .int 0, .int c.nowTs, .int c.nowTs, .str reason⟩⟩ := by
  unfold SqmController.decide
  rw [hauto, if_neg Bool.false_ne_true]
  dsimp only
  rw [if_pos (switchDue_iff.1 h)]
  exact ⟨_, rfl⟩

theorem decide_of_not_due (hauto : c.manualMode = false) (h : ¬ SwitchDue int c s) :
    ∃ reason, SqmController.decide int c s =
      ⟨s.storedMode, s.current, false, reason, cooldownActive int c s,
        ⟨.str s.current.name, .str (countHits int c s).1, .int (countHits int c s).2,
          .int (safeInt int s.lastSwitchTime), .int c.nowTs, .str reason⟩⟩ := by
  unfold SqmController.decide
  rw [hauto, if_neg Bool.false_ne_true]
  dsimp only
  rw [if_neg fun hn => h (switchDue_iff.2 hn)]
  exact ⟨_, rfl⟩

theorem changed_iff_differ (hauto : c.manualMode = false) :
    ((SqmController.decide int c s).changed = true ↔
      (SqmController.decide int c s).fromMode ≠ (SqmController.decide int c s).toMode) ↔
    (s.storedMode = .auto → SwitchDue int c s) := by
  have hcurrent : s.current = s.storedMode ↔ s.storedMode ≠ .auto := by
    unfold State.current Mode.leaveAuto
    split
    · simp [*]
    · tauto
  by_cases h : SwitchDue int c s
  · obtain ⟨reason, heq⟩ := decide_of_due hauto h
    rw [heq]
    refine iff_of_true (iff_of_true rfl fun hsame => ?_) fun _ => h
    have htarget : target c s ≠ .auto := by
      unfold target Mode.leaveAuto
      split
      · decide
      · assumption
    dsimp only at hsame
    rw [← hsame] at htarget
    exact h.1 (hsame.symm.trans (hcurrent.2 htarget).symm)
  · obtain ⟨reason, heq⟩ := decide_of_not_due hauto h
    rw [heq]
    constructor
    · tauto
    · tauto

end Call

/-! ## Runs -/

section Run

variable (int : String → Option ℤ)

/-- A call in automatic mode, fed with the state of the one before. -/
def step (s : State) (c : Call) : State := (SqmController.decide int c s).state

/-- What is remembered of a call. -/
structure Entry where
  target : Mode
  changed : Bool
  nowTs : ℤ

def entryOf (c : Call) (s : State) : Entry :=
  ⟨target c s, (SqmController.decide int c s).changed, c.nowTs⟩

/-- The calls of a run, newest first. -/
def history (s : State) : List Call → List Entry
  | [] => []
  | c :: calls => history (step int s c) calls ++ [entryOf int c s]

/-- How many of the last calls in a row asked for `m`. -/
def streak (m : Mode) (log : List Entry) : ℕ := (log.takeWhile fun e => e.target = m).length

/-- The time of the last switch. -/
def lastChange (log : List Entry) : Option ℤ := (log.find? (·.changed)).map (·.nowTs)

/-- A call that changes the mode comes at the end of enough calls for the new mode, and long enough
    after the last change; and it reports what it does. -/
def Lawful (log : List Entry) (s : State) (c : Call) : Prop :=
  let d := SqmController.decide int c s
  (d.toMode ≠ s.current → effectiveDebounce c ≤ streak d.toMode (entryOf int c s :: log) ∧
      ∀ t ∈ lastChange log, t + cooldownSec c ≤ c.nowTs) ∧
  (d.changed = true ↔ d.fromMode ≠ d.toMode)

variable {int} {c : Call} {s : State} {log : List Entry}

theorem entryOf_target (c : Call) (s : State) : (entryOf int c s).target = target c s := rfl

theorem history_concat (s : State) (calls : List Call) (c : Call) : history int s (calls ++ [c]) =
      entryOf int c (run (step int) s calls) :: history int s calls := by
  induction calls generalizing s with
  | nil => rfl
  | cons c' calls ih => rw [cons_append, history, ih, history, run_cons, cons_append]

theorem mem_history {e : Entry} {s : State} {calls : List Call} (h : e ∈ history int s calls) :
    ∃ c ∈ calls, c.nowTs = e.nowTs := by
  induction calls generalizing s with
  | nil => cases h
  | cons c calls ih =>
    rcases mem_append.1 h with h | h
    · obtain ⟨c', hc', htime⟩ := ih h
      exact ⟨c', mem_cons_of_mem _ hc', htime⟩
    · rw [mem_singleton.1 h]
      exact ⟨c, mem_cons_self, rfl⟩

theorem streak_cons {e : Entry} {m : Mode} (h : e.target = m) (log : List Entry) :
    streak m (e :: log) = streak m log + 1 := by
  unfold streak
  rw [takeWhile_cons_of_pos (by rw [h]; exact decide_eq_true rfl), length_cons]

theorem lastChange_mem {t : ℤ} (h : t ∈ lastChange log) : ∃ e ∈ log, e.nowTs = t := by
  obtain ⟨e, he, rfl⟩ := Option.map_eq_some_iff.1 h
  exact ⟨e, mem_of_find?_eq_some he, rfl⟩

/-- The stored hits are no more than the calls for the pending mode, and the stored time is that of
    the last switch. -/
structure Tracks (int : String → Option ℤ) (log : List Entry) (s : State) : Prop where
  hits : ∀ m : Mode, m.name = s.pending → safeInt int s.pendingHits ≤ streak m log
  last : ∀ t ∈ lastChange log, safeInt int s.lastSwitchTime = t ∧ t ≠ 0

/-- The call is in automatic mode; `auto` is only stored where the call switches, and no switch
    comes at clock 0. -/
def Sound (int : String → Option ℤ) (s : State) (c : Call) : Prop :=
  c.manualMode = false ∧ (s.storedMode = .auto → SwitchDue int c s) ∧
    (SwitchDue int c s → c.nowTs ≠ 0)
  deriving Decidable

theorem countHits_le (h : Tracks int log s) (hne : target c s ≠ s.current) :
    (countHits int c s).2 ≤ streak (target c s) (entryOf int c s :: log) := by
  have hstreak : streak (target c s) (entryOf int c s :: log) = streak (target c s) log + 1 :=
    streak_cons (entryOf_target c s) log
  rw [hstreak, Nat.cast_succ]
  unfold countHits
  rw [if_neg hne]
  split
  · rename_i hname
    exact Int.add_le_add_right (h.hits _ hname) 1
  · exact Int.le_add_of_nonneg_left (Int.natCast_nonneg _)

theorem pending_name {s : State} {m : Mode} (h : s.pendingMode = .str m.name) :
    s.pending = m.name := by
  have htruthy : (Value.str m.name).or (.str "") = .str m.name :=
    if_pos (decide_eq_true (name_ne_empty m))
  unfold State.pending
  rw [h, htruthy, cleaned_name]

theorem tracks_step (h : Tracks int log s) (hok : Sound int s c) :
    Tracks int (entryOf int c s :: log) (step int s c) := by
  obtain ⟨hauto, -, hclock⟩ := hok
  by_cases hdue : SwitchDue int c s
  · obtain ⟨reason, heq⟩ := decide_of_due hauto hdue
    have hentry : entryOf int c s = ⟨target c s, true, c.nowTs⟩ := by
      unfold entryOf
      rw [heq]
    unfold step
    rw [heq, hentry]
    refine ⟨fun m hm => Int.natCast_nonneg _, ?_⟩
    rintro t ⟨⟩
    exact ⟨rfl, hclock hdue⟩
  · obtain ⟨reason, heq⟩ := decide_of_not_due hauto hdue
    have hentry : entryOf int c s = ⟨target c s, false, c.nowTs⟩ := by
      unfold entryOf
      rw [heq]
    unfold step
    rw [heq]
    refine ⟨fun m hm => ?_, fun t ht => h.last t (by rw [hentry] at ht; exact ht)⟩
    by_cases hsame : target c s = s.current
    · have hcount : countHits int c s = ("", 0) := if_pos hsame
      rw [hcount]
      exact Int.natCast_nonneg _
    · have hname : (countHits int c s).1 = (target c s).name := by
        unfold countHits
        rw [if_neg hsame]
        split
        · exact Eq.symm ‹_›
        · rfl
      have hm' : m = target c s := name_inj (hm.trans (pending_name (congrArg Value.str hname)))
      rw [hm']
      exact countHits_le h hsame

theorem lawful_of_tracks (h : Tracks int log s) (hok : Sound int s c)
    (hclock : ∀ e ∈ log, e.nowTs ≤ c.nowTs) : Lawful int log s c := by
  obtain ⟨hauto, hreport, -⟩ := hok
  refine ⟨fun hchange => ?_, (changed_iff_differ hauto).2 hreport⟩
  by_cases hdue : SwitchDue int c s
  · obtain ⟨reason, heq⟩ := decide_of_due hauto hdue
    rw [heq]
    obtain ⟨hne, -, hhits⟩ := switchDue_iff.1 hdue
    refine ⟨hhits.trans (countHits_le h hne), fun t ht => ?_⟩
    obtain ⟨hlast, hzero⟩ := h.last t ht
    obtain ⟨e, he, rfl⟩ := lastChange_mem ht
    have hcool := hdue.2.1
    have hold := hclock e he
    rw [hlast] at hcool
    by_cases hsec : cooldownSec c = 0
    · rwa [hsec, Int.add_zero]
    · exact Int.not_lt.1 fun hlt => hcool ⟨hsec, hzero, hlt⟩
  · obtain ⟨reason, heq⟩ := decide_of_not_due hauto hdue
    rw [heq] at hchange
    exact absurd rfl hchange

/-- In every run from a state without hits, in which the clock does not go back, no `auto` is
    stored and no switch comes at clock 0, each call is lawful. -/
theorem switching_lawful (int : String → Option ℤ) (s : State) (calls : List Call)
    (hclock : (calls.map (·.nowTs)).Pairwise (· ≤ ·)) (hfresh : safeInt int s.pendingHits ≤ 0)
    (hok : Along (step int) (Sound int) s calls) (past : List Call) (c : Call)
    (rest : List Call) (hcalls : past ++ c :: rest = calls) :
    Lawful int (history int s past) (run (step int) s past) c := by
  subst hcalls
  rw [along_append, along_cons] at hok
  have hinit : s = run (step int) s [] ∧ Tracks int (history int s []) s :=
    ⟨rfl, fun m _ => hfresh.trans (Int.natCast_nonneg _), fun t ht => (nomatch ht)⟩
  have hstep : ∀ calls s' c', s' = run (step int) s calls ∧ Tracks int (history int s calls) s' →
      Sound int s' c' → step int s' c' = run (step int) s (calls ++ [c']) ∧
        Tracks int (history int s (calls ++ [c'])) (step int s' c') := by
    rintro calls s' c' ⟨rfl, ht⟩ hc'
    rw [history_concat, run_append]
    exact ⟨rfl, tracks_step ht hc'⟩
  have htracks := (run_history hstep hinit hok.1).2
  refine lawful_of_tracks htracks hok.2.1 fun e he => ?_
  obtain ⟨c', hc', htime⟩ := mem_history he
  rw [map_append, map_cons, pairwise_append] at hclock
  rw [← htime]
  exact hclock.2.2 _ (List.mem_map_of_mem hc') _ mem_cons_self

/-- A call for `mode` at `now`, with the default cooldown and debounce. -/
def callFor (mode : String) (now : ℤ) : Call := ⟨.str mode, 2, 2, false, "", 0, now⟩

/-- Two calls for gaming, a minute apart. -/
theorem switching_lawful_gaming : (SqmController.decide (fun _ => none) (callFor "gaming" 160)
      (step (fun _ => none) .empty (callFor "gaming" 100))).changed = true ∧
    Lawful (fun _ => none) (history (fun _ => none) .empty [callFor "gaming" 100])
      (step (fun _ => none) .empty (callFor "gaming" 100)) (callFor "gaming" 160) :=
  ⟨by decide +kernel, switching_lawful (fun _ => none) .empty
    [callFor "gaming" 100, callFor "gaming" 160] (by decide) (by decide) (by decide +kernel)
    [callFor "gaming" 100] (callFor "gaming" 160) [] rfl⟩

/-- A state that holds `auto` is reported as left for `balanced`, which is no change. -/
theorem auto_reported : ¬ ((SqmController.decide (fun _ => none) (callFor "balanced" 100)
        { State.empty with currentMode := .str "auto" }).changed = true ↔
      (SqmController.decide (fun _ => none) (callFor "balanced" 100)
          { State.empty with currentMode := .str "auto" }).fromMode ≠
        (SqmController.decide (fun _ => none) (callFor "balanced" 100)
          { State.empty with currentMode := .str "auto" }).toMode) := by
  decide +kernel

end Run

end Apackage.SqmController
