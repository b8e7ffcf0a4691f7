import Mathlib.Data.List.Basic

/-
  Runs and while loops of a deterministic program.

  `run step s es` feeds the inputs `es` to a step function; `Along step ok s es` says that every
  step of this run meets the condition `ok` in the state before it. `iterWhile cond body n s` is a
  while loop of at most `n` iterations; a measure that each iteration lowers makes the bound
  immaterial (`iterWhile_exit`, `iterWhile_unfold`).
-/

namespace Apackage.Lib.Run

open List

section Runs

variable {σ τ ε : Type*}

def run (step : σ → ε → σ) (s : σ) (es : List ε) : σ := es.foldl step s

/-- Every step of the run from `s` meets `ok` in the state before it. -/
def Along (step : σ → ε → σ) (ok : σ → ε → Prop) : σ → List ε → Prop
  | _, [] => True
  | s, e :: es => ok s e ∧ Along step ok (step s e) es

instance Along.decidable (step : σ → ε → σ) (ok : σ → ε → Prop)
    [∀ s e, Decidable (ok s e)] : ∀ s es, Decidable (Along step ok s es)
  | _, [] => inferInstanceAs (Decidable True)
  | s, e :: es =>
    have : Decidable (Along step ok (step s e) es) := Along.decidable step ok (step s e) es
    inferInstanceAs (Decidable (_ ∧ _))

/-- A condition on the result of a call that may return none. -/
instance decidableForallSome {α : Type*} (o : Option α) (p : α → Prop) [DecidablePred p] :
    Decidable (∀ a, o = some a → p a) :=
  match o with
  | none => isTrue (by simp)
  | some a => decidable_of_iff (p a) (by simp)

instance decidableExistsSome {α : Type*} (o : Option α) (p : α → Prop) [DecidablePred p] :
    Decidable (∃ a, o = some a ∧ p a) :=
  match o with
  | none => isFalse (by simp)
  | some a => decidable_of_iff (p a) (by simp)

variable {step : σ → ε → σ} {ok : σ → ε → Prop}

@[simp] theorem run_nil (s : σ) : run step s [] = s := rfl

@[simp] theorem run_cons (s : σ) (e : ε) (es : List ε) :
    run step s (e :: es) = run step (step s e) es := rfl

@[simp] theorem along_nil (s : σ) : Along step ok s [] := trivial

@[simp] theorem along_cons (s : σ) (e : ε) (es : List ε) :
    Along step ok s (e :: es) ↔ ok s e ∧ Along step ok (step s e) es := Iff.rfl

theorem run_append (s : σ) (es fs : List ε) :
    run step s (es ++ fs) = run step (run step s es) fs := foldl_append

theorem along_append (s : σ) (es fs : List ε) :
    Along step ok s (es ++ fs) ↔ Along step ok s es ∧ Along step ok (run step s es) fs := by
  induction es generalizing s with
  | nil => simp
  | cons e es ih => rw [cons_append, along_cons, along_cons, run_cons, ih, and_assoc]

variable {es : List ε} {s : σ} {ok' : σ → ε → Prop}

theorem along_mono (h : ∀ s e, ok s e → ok' s e) (ha : Along step ok s es) :
    Along step ok' s es := by
  induction es generalizing s with
  | nil => trivial
  | cons e es ih => exact ⟨h s e ha.1, ih ha.2⟩

theorem along_of_forall {P : ε → Prop} (h : ∀ e ∈ es, P e) : Along step (fun _ e => P e) s es := by
  induction es generalizing s with
  | nil => trivial
  | cons e es ih => exact ⟨h e mem_cons_self, ih fun e he => h e (mem_cons_of_mem _ he)⟩

theorem along_and (h : Along step ok s es) (h' : Along step ok' s es) :
    Along step (fun s e => ok s e ∧ ok' s e) s es := by
  induction es generalizing s with
  | nil => trivial
  | cons e es ih => exact ⟨⟨h.1, h'.1⟩, ih h.2 h'.2⟩

/-- An invariant that may speak of the inputs so far. -/
theorem run_history {I : List ε → σ → Prop}
    (hstep : ∀ h s e, I h s → ok s e → I (h ++ [e]) (step s e)) {h : List ε} (hs : I h s)
    (ha : Along step ok s es) : I (h ++ es) (run step s es) := by
  induction es generalizing h s with
  | nil => simpa using hs
  | cons e es ih => simpa using ih (hstep h s e hs ha.1) ha.2

variable {I : σ → Prop}

theorem run_invariant (hstep : ∀ s e, I s → ok s e → I (step s e)) (hs : I s)
    (ha : Along step ok s es) : I (run step s es) :=
  run_history (I := fun _ => I) (h := []) (fun _ => hstep) hs ha

/-- An invariant that every step keeps. -/
theorem run_always (hstep : ∀ s e, I s → I (step s e)) (hs : I s) (es : List ε) :
    I (run step s es) := by
  induction es generalizing s with
  | nil => exact hs
  | cons e es ih => exact ih (hstep s e hs)

/-- Under an invariant, steps that meet `ok` meet `ok'`. -/
theorem along_invariant (hstep : ∀ s e, I s → ok s e → I (step s e))
    (hok : ∀ s e, I s → ok s e → ok' s e) (hs : I s) (ha : Along step ok s es) :
    Along step ok' s es := by
  induction es generalizing s with
  | nil => trivial
  | cons e es ih => exact ⟨hok s e hs ha.1, ih (hstep s e hs ha.1) ha.2⟩

/-- What an invariant that every step keeps says of each step. -/
theorem along_always {I : σ → Prop} (hstep : ∀ s e, I s → I (step s e))
    (hok : ∀ s e, I s → ok s e) {s : σ} (hs : I s) (es : List ε) : Along step ok s es := by
  induction es generalizing s with
  | nil => trivial
  | cons e es ih => exact ⟨hok s e hs, ih (hstep s e hs)⟩

/-- Two conditions that mean the same while the invariant holds, which each of them keeps. -/
theorem along_congr (hstep : ∀ s e, I s → ok s e → I (step s e))
    (hok : ∀ s e, I s → (ok s e ↔ ok' s e)) (hs : I s) (es : List ε) :
    Along step ok s es ↔ Along step ok' s es := by
  induction es generalizing s with
  | nil => exact Iff.rfl
  | cons e es ih =>
    rw [along_cons, along_cons, ← hok s e hs]
    exact and_congr_right fun h => ih (hstep s e hs h)

/-- A property of the state that each step keeps exactly when it meets `ok`. -/
theorem run_iff_along {I P : σ → Prop} (hI : ∀ s e, I s → I (step s e))
    (hP : ∀ s e, I s → (P (step s e) ↔ P s ∧ ok s e)) (hs : I s) (es : List ε) :
    I (run step s es) ∧ (P (run step s es) ↔ P s ∧ Along step ok s es) := by
  induction es generalizing s with
  | nil => simp [hs]
  | cons e es ih =>
    obtain ⟨h1, h2⟩ := ih (hI s e hs)
    refine ⟨h1, ?_⟩
    rw [run_cons, h2, hP s e hs, along_cons, and_assoc]

/-- A property that a step keeps exactly when it meets `ok` holds at every point of a run
    if and only if every step meets it. -/
theorem prefixes_iff_along {I P : σ → Prop} (hI : ∀ s e, I s → I (step s e))
    (hP : ∀ s e, I s → P s → (P (step s e) ↔ ok s e)) (hs : I s) (hp : P s) (es : List ε) :
    (∀ es₁ es₂, es₁ ++ es₂ = es → P (run step s es₁)) ↔ Along step ok s es := by
  induction es generalizing s with
  | nil =>
    simp [*]
  | cons e es ih =>
    constructor
    · intro h
      have hok : P (step s e) := h [e] es rfl
      refine ⟨(hP s e hs hp).1 hok, (ih (hI s e hs) hok).1 fun es₁ es₂ he => ?_⟩
      exact h (e :: es₁) es₂ (by rw [cons_append, he])
    · rintro ⟨hok, hrest⟩ es₁ es₂ he
      cases es₁ with
      | nil => exact hp
      | cons e' es₁ =>
        obtain ⟨rfl, htail⟩ := cons_eq_cons.1 he
        exact (ih (hI s e' hs) ((hP s e' hs hp).2 hok)).2 hrest es₁ es₂ htail

/-- What the first step that does not meet `ok` breaks stays broken. -/
theorem run_broken {I B : σ → Prop} (hstep : ∀ s e, I s → ok s e → I (step s e))
    (hbreak : ∀ s e, I s → ¬ ok s e → B (step s e)) (hbroken : ∀ s e, B s → B (step s e)) (hs : I s)
    (h : ¬ Along step ok s es) : B (run step s es) := by
  induction es generalizing s with
  | nil => exact absurd trivial h
  | cons e es ih =>
    by_cases hok : ok s e
    · exact ih (hstep s e hs hok) fun ha => h ⟨hok, ha⟩
    · exact run_always hbroken (hbreak s e hs hok) es

/-- An invariant is kept by the steps that meet `ok`, and a step that does not meet it breaks a
    property that follows from the invariant: the property holds at every point of a run if and
    only if every step meets `ok`. -/
theorem always_iff_along {I P : σ → Prop} (hstep : ∀ s e, I s → ok s e → I (step s e))
    (hP : ∀ s, I s → P s) (hbreak : ∀ s e, I s → ¬ ok s e → ¬ P (step s e)) (hs : I s) (es : List ε)
    :
    (∀ es₁ es₂, es₁ ++ es₂ = es → P (run step s es₁)) ↔ Along step ok s es := by
  constructor
  · intro h
    induction es generalizing s with
    | nil => trivial
    | cons e es ih =>
      have hok : ok s e := by
        by_contra hne
        exact hbreak s e hs hne (h [e] es rfl)
      refine ⟨hok, ih (hstep s e hs hok) fun es₁ es₂ he => ?_⟩
      exact h (e :: es₁) es₂ (by rw [cons_append, he])
  · intro h es₁ es₂ he
    rw [← he, along_append] at h
    exact hP _ (run_invariant hstep hs h.1)

section

variable {R : σ → τ → Prop} {t : τ} {step' : τ → ε → τ}
  (hstep : ∀ s t e, R s t → ok s e → R (step s e) (step' t e))

include hstep

/-- Two programs in step: when each step keeps the relation, so does the run. -/
theorem run_simulation (h : R s t) (ha : Along step ok s es) :
    R (run step s es) (run step' t es) := by
  induction es generalizing s t with
  | nil => exact h
  | cons e es ih => exact ih (hstep s t e h ha.1) ha.2

/-- A condition met along a run holds, in its image, along the simulated run. -/
theorem along_simulation {ok' : τ → ε → Prop} (hok : ∀ s t e, R s t → ok s e → ok' t e) (h : R s t)
    (ha : Along step ok s es) : Along step' ok' t es := by
  induction es generalizing s t with
  | nil => trivial
  | cons e es ih => exact ⟨hok s t e h ha.1, ih (hstep s t e h ha.1) ha.2⟩

end

end Runs

section Loops

variable {σ τ : Type*}

/-- `while (cond) body`, for `n` iterations at most. -/
def iterWhile (cond : σ → Bool) (body : σ → σ) : ℕ → σ → σ
  | 0, s => s
  | n + 1, s => if cond s then iterWhile cond body n (body s) else s

variable {c : σ → Bool} {b : σ → σ}

variable {s : σ}

theorem iterWhile_of_false (h : c s = false) (n : ℕ) : iterWhile c b n s = s := by
  cases n <;> simp [iterWhile, h]

theorem iterWhile_inv {P : σ → Prop} (hbody : ∀ s, P s → c s = true → P (b s)) (hs : P s) (n : ℕ) :
    P (iterWhile c b n s) := by
  induction n generalizing s with
  | zero => exact hs
  | succ n ih =>
    rw [iterWhile]
    split
    · exact ih (hbody s hs ‹_›)
    · exact hs

variable {f : σ → ℕ}

section

variable (hf : ∀ s, c s = true → f (b s) < f s)

include hf

/-- With a bound above a decreasing measure the loop ends because its condition fails. -/
theorem iterWhile_exit {n : ℕ} (hn : f s ≤ n) : c (iterWhile c b n s) = false := by
  induction n generalizing s with
  | zero =>
    by_contra h
    have hc : c s = true := by simpa [iterWhile] using h
    have := hf s hc
    omega
  | succ n ih =>
    rw [iterWhile]
    split
    · exact ih (by have := hf s ‹_›; omega)
    · simpa using ‹¬ c s = true›

theorem iterWhile_fuel {n m : ℕ} (hn : f s ≤ n) (hm : f s ≤ m) :
    iterWhile c b n s = iterWhile c b m s := by
  induction n generalizing s m with
  | zero =>
    have hc : c s = false := by
      by_contra h
      have := hf s (by simpa using h)
      omega
    rw [iterWhile_of_false hc, iterWhile_of_false hc]
  | succ n ih =>
    cases hc : c s with
    | false => rw [iterWhile_of_false hc, iterWhile_of_false hc]
    | true =>
      have hlt := hf s hc
      cases m with
      | zero => omega
      | succ m =>
        simp only [iterWhile, hc, if_true]
        exact ih (by omega) (by omega)

/-- The equation of the unbounded loop, when the bound is a decreasing measure. -/
theorem iterWhile_unfold (s : σ) : iterWhile c b (f s) s =
      if c s then iterWhile c b (f (b s)) (b s) else s := by
  cases hc : c s with
  | false => simp [iterWhile_of_false hc]
  | true =>
    have hlt := hf s hc
    obtain ⟨n, hn⟩ : ∃ n, f s = n + 1 := ⟨f s - 1, by omega⟩
    rw [hn, iterWhile, if_pos hc, if_pos rfl]
    exact iterWhile_fuel hf (by omega) (Nat.le_refl _)

end

/-- Two loops whose conditions agree and whose bodies keep a relation. -/
theorem iterWhile_rel {c' : τ → Bool} {b' : τ → τ} {R : σ → τ → Prop}
    (hcond : ∀ s t, R s t → c s = c' t) (hbody : ∀ s t, R s t → c s = true → R (b s) (b' t)) {t : τ}
    (h : R s t) (n : ℕ) : R (iterWhile c b n s) (iterWhile c' b' n t) := by
  induction n generalizing s t with
  | zero => exact h
  | succ n ih =>
    rw [iterWhile, iterWhile, ← hcond s t h]
    split
    · exact ih (hbody s t h ‹_›)
    · exact h

end Loops

end Apackage.Lib.Run
