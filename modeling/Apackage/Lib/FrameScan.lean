import Mathlib.Data.List.Basic

/-
  Frames in a byte stream that is cut anywhere.

  A `Scanner` looks for a sync word, reads the frame behind it and looks for the next one where the
  frame ends. `Scanner.parse n` is its loop over the data of one piece, for at most `n` sync words;
  what a frame is read as may depend on the one before it. An unfinished frame is left for the next
  piece.

  Frames that the scanner knows whole and in part (`Framed`) are found in their order
  (`parse_frames`), as long as each one that has started has the bytes the search wants to see
  (`Visible`).
-/

namespace Apackage.Lib.FrameScan

open List

/-- What is found at a sync word. `next` is where the search goes on, counted from there. -/
inductive Scan (α : Type*)
  | frame (a : α) (next : ℕ)
  | skip (next : ℕ)
  | incomplete
  | stop
  | throws

structure Scanner (α β : Type*) where
  /-- The bytes that the search wants to see from a sync word on. -/
  window : ℕ
  isSync : List β → Bool
  /-- The scan at a sync word, after the given frame. -/
  scan : Option α → List β → Scan α

inductive Ending (β : Type*)
  /-- With the unfinished frame. -/
  | done (left : Option (List β))
  | threw
  | running

structure Parsed (α β : Type*) where
  frames : List α
  ending : Ending β

variable {α β : Type*}

namespace Scanner

/-- The data from the next sync word on. -/
def search (p : Scanner α β) : List β → Option (List β)
  | [] => none
  | b :: rest =>
    if rest.length + 1 < p.window then none
    else if p.isSync (b :: rest) then some (b :: rest)
    else p.search rest

def loop (p : Scanner α β) : ℕ → Option α → Option (List β) → Parsed α β
  | _, _, none => ⟨[], .done none⟩
  | 0, _, some _ => ⟨[], .running⟩
  | n + 1, prev, some rest =>
    match p.scan prev rest with
    | .frame a next =>
      let parsed := p.loop n (some a) (p.search (rest.drop next))
      ⟨a :: parsed.frames, parsed.ending⟩
    | .skip next => p.loop n prev (p.search (rest.drop next))
    | .incomplete => ⟨[], .done (some rest)⟩
    | .stop => ⟨[], .done none⟩
    | .throws => ⟨[], .threw⟩

/-- The loop over `data`, for at most `n` sync words. -/
def parse (p : Scanner α β) (n : ℕ) (prev : Option α) (data : List β) : Parsed α β :=
  p.loop n prev (p.search data)

/-- From the sync word at `rest` the loop comes to the one at `rest'`. -/
inductive Reaches (p : Scanner α β) : Option α → List β → Option α → List β → Prop
  | refl (prev : Option α) (rest : List β) : Reaches p prev rest prev rest
  | frame {prev prev' : Option α} {rest rest' rest'' : List β} {a : α} {next : ℕ} :
    p.scan prev rest = .frame a next → p.search (rest.drop next) = some rest' →
      Reaches p (some a) rest' prev' rest'' → Reaches p prev rest prev' rest''
  | skip {prev prev' : Option α} {rest rest' rest'' : List β} {next : ℕ} :
    p.scan prev rest = .skip next → p.search (rest.drop next) = some rest' →
      Reaches p prev rest' prev' rest'' → Reaches p prev rest prev' rest''

/-- The loop over `data` comes to the sync word at `rest`. -/
def Visits (p : Scanner α β) (prev : Option α) (data : List β) (prev' : Option α)
    (rest : List β) : Prop :=
  ∃ first, p.search data = some first ∧ p.Reaches prev first prev' rest

end Scanner

/-- The scan does not throw, and the search goes on behind the sync word's first byte. -/
def Scan.Harmless : Scan α → Prop
  | .frame _ next => next ≠ 0
  | .skip next => next ≠ 0
  | .incomplete => True
  | .stop => True
  | .throws => False

/-- The scanner knows the frame `f` from its first bytes on and reads it as `a`. -/
structure Framed (p : Scanner α β) (f : List β) (a : α) : Prop where
  ne_nil : f ≠ []
  sync : ∀ later, p.window ≤ (f ++ later).length → p.isSync (f ++ later) = true
  whole : ∀ prev later, p.window ≤ (f ++ later).length →
    p.scan prev (f ++ later) = .frame a f.length
  syncPart : ∀ front, front <+: f → p.window ≤ front.length → p.isSync front = true
  part : ∀ prev front, front <+: f → front ≠ f → p.window ≤ front.length →
    p.scan prev front = .incomplete

/-- Each frame of `frames` that starts within the first `n` bytes has `window` bytes there. -/
def Visible (window : ℕ) (frames : List (List β)) (n : ℕ) : Prop :=
  ∀ done f todo, frames = done ++ f :: todo → done.flatten.length < n →
    done.flatten.length + window ≤ n

def Ending.isDone : Ending β → Bool
  | .done _ => true
  | _ => false

variable {p : Scanner α β}

/-! ## The search -/

theorem search_spec {data rest : List β} (h : p.search data = some rest) :
    rest <:+ data ∧ rest ≠ [] ∧ p.window ≤ rest.length ∧ p.isSync rest = true := by
  induction data with
  | nil => cases h
  | cons b data ih =>
    rw [Scanner.search] at h
    split_ifs at h with hwindow hsync
    · obtain rfl := Option.some.inj h
      refine ⟨suffix_refl _, cons_ne_nil b data, ?_, hsync⟩
      rw [length_cons]
      omega
    · exact ⟨(ih h).1.trans (suffix_cons b data), (ih h).2⟩

theorem search_here {data : List β} (hne : data ≠ []) (hlen : p.window ≤ data.length)
    (hsync : p.isSync data = true) : p.search data = some data := by
  cases data with
  | nil => exact absurd rfl hne
  | cons b data =>
    rw [length_cons] at hlen
    rw [Scanner.search, if_neg (by omega), if_pos hsync]

theorem search_search {data rest : List β} (h : p.search data = some rest) :
    p.search rest = some rest := by
  obtain ⟨-, hne, hlen, hsync⟩ := search_spec h
  exact search_here hne hlen hsync

theorem search_drop_length {rest rest' : List β} {next : ℕ} (hne : rest ≠ []) (hnext : next ≠ 0)
    (h : p.search (rest.drop next) = some rest') : rest'.length < rest.length := by
  have hle := (search_spec h).1.length_le
  have hpos := length_pos_of_ne_nil hne
  rw [length_drop] at hle
  omega

/-! ## A round of the loop -/

@[simp] theorem loop_none (n : ℕ) (prev : Option α) : p.loop n prev none = ⟨[], .done none⟩ := by
  cases n <;> rfl

variable {prev : Option α} {rest : List β}

theorem loop_frame {a : α} {next : ℕ} (h : p.scan prev rest = .frame a next) (n : ℕ) :
    p.loop (n + 1) prev (some rest) = ⟨a :: (p.loop n (some a) (p.search (rest.drop next))).frames,
        (p.loop n (some a) (p.search (rest.drop next))).ending⟩ := by
  rw [Scanner.loop, h]

theorem loop_skip {next : ℕ} (h : p.scan prev rest = .skip next) (n : ℕ) :
    p.loop (n + 1) prev (some rest) = p.loop n prev (p.search (rest.drop next)) := by
  rw [Scanner.loop, h]

theorem loop_incomplete (h : p.scan prev rest = .incomplete) (n : ℕ) :
    p.loop (n + 1) prev (some rest) = ⟨[], .done (some rest)⟩ := by
  rw [Scanner.loop, h]

theorem loop_stop (h : p.scan prev rest = .stop) (n : ℕ) :
    p.loop (n + 1) prev (some rest) = ⟨[], .done none⟩ := by
  rw [Scanner.loop, h]

theorem loop_throws (h : p.scan prev rest = .throws) (n : ℕ) :
    p.loop (n + 1) prev (some rest) = ⟨[], .threw⟩ := by
  rw [Scanner.loop, h]

/-! ## The loop ends -/

theorem loop_ends {n : ℕ} (hne : rest ≠ []) (hn : rest.length ≤ n)
    (h : ∀ prev' rest', p.Reaches prev rest prev' rest' → (p.scan prev' rest').Harmless) :
    (p.loop n prev (some rest)).ending.isDone = true := by
  induction n generalizing prev rest with
  | zero =>
    have hpos := length_pos_of_ne_nil hne
    omega
  | succ n ih =>
    have hhere := h prev rest (.refl prev rest)
    -- the rest of the loop, from the next sync word on
    have hlater : ∀ prev' next, next ≠ 0 → (∀ rest', p.search (rest.drop next) = some rest' →
          ∀ prev'' rest'', p.Reaches prev' rest' prev'' rest'' → (p.scan prev'' rest'').Harmless) →
        (p.loop n prev' (p.search (rest.drop next))).ending.isDone = true := by
      intro prev' next hnext hreach
      cases hfound : p.search (rest.drop next) with
      | none => rw [loop_none]; rfl
      | some rest' =>
        have hless := search_drop_length hne hnext hfound
        exact ih (search_spec hfound).2.1 (by omega) (hreach rest' hfound)
    cases hscan : p.scan prev rest with
    | frame a next =>
      rw [hscan] at hhere
      rw [loop_frame hscan]
      exact hlater (some a) next hhere fun rest' hfound prev'' rest'' hreach =>
        h prev'' rest'' (.frame hscan hfound hreach)
    | skip next =>
      rw [hscan] at hhere
      rw [loop_skip hscan]
      exact hlater prev next hhere fun rest' hfound prev'' rest'' hreach =>
        h prev'' rest'' (.skip hscan hfound hreach)
    | incomplete => rw [loop_incomplete hscan]; rfl
    | stop => rw [loop_stop hscan]; rfl
    | throws =>
      rw [hscan] at hhere
      exact hhere.elim

/-- A loop that only comes to harmless sync words ends, within one round for each byte. -/
theorem parse_ends {data : List β}
    (h : ∀ prev' rest, p.Visits prev data prev' rest → (p.scan prev' rest).Harmless) :
    (p.parse data.length prev data).ending.isDone = true := by
  rw [Scanner.parse]
  cases hfound : p.search data with
  | none => rw [loop_none]; rfl
  | some first =>
    refine loop_ends (search_spec hfound).2.1 (search_spec hfound).1.length_le ?_
    exact fun prev' rest hreach => h prev' rest ⟨first, hfound, hreach⟩

theorem loop_not_done {prev prev' : Option α} {rest rest' : List β}
    (hreach : p.Reaches prev rest prev' rest')
    (h : ∀ n, (p.loop n prev' (some rest')).ending.isDone = false) (n : ℕ) :
    (p.loop n prev (some rest)).ending.isDone = false := by
  induction hreach generalizing n with
  | refl prev rest => exact h n
  | frame hscan hfound _ ih =>
    cases n with
    | zero => rfl
    | succ n =>
      rw [loop_frame hscan, hfound]
      exact ih h n
  | skip hscan hfound _ ih =>
    cases n with
    | zero => rfl
    | succ n =>
      rw [loop_skip hscan, hfound]
      exact ih h n

section

variable {data rest : List β} {prev' prev : Option α} (hvisits : p.Visits prev data prev' rest)

include hvisits

theorem parse_not_done (h : ∀ n, (p.loop n prev' (some rest)).ending.isDone = false) (n : ℕ) :
    (p.parse n prev data).ending.isDone = false := by
  obtain ⟨first, hfound, hreach⟩ := hvisits
  rw [Scanner.parse, hfound]
  exact loop_not_done hreach h n

theorem parse_throws (h : p.scan prev' rest = .throws) (n : ℕ) :
    (p.parse n prev data).ending.isDone = false := by
  refine parse_not_done hvisits (fun n => ?_) n
  cases n with
  | zero => rfl
  | succ n => rw [loop_throws h]; rfl

theorem visits_found : p.search rest = some rest := by
  obtain ⟨first, hfound, hreach⟩ := hvisits
  have hfirst := search_search hfound
  clear hfound
  induction hreach with
  | refl => exact hfirst
  | frame _ hfound _ ih => exact ih (search_search hfound)
  | skip _ hfound _ ih => exact ih (search_search hfound)

theorem parse_stuck (h : ∀ prev, (∃ a, p.scan prev rest = .frame a 0) ∨ p.scan prev rest = .skip 0)
    (n : ℕ) : (p.parse n prev data).ending.isDone = false := by
  have hfound := visits_found hvisits
  refine parse_not_done hvisits (fun n => ?_) n
  clear hvisits
  induction n generalizing prev' with
  | zero => rfl
  | succ n ih =>
    rcases h prev' with ⟨a, hscan⟩ | hscan
    · rw [loop_frame hscan, drop_zero, hfound]
      exact ih
    · rw [loop_skip hscan, drop_zero, hfound]
      exact ih

end

/-! ## Whole frames -/

theorem visible_iff {window n : ℕ} {frames : List (List β)} :
    Visible window frames n ↔ ∀ i < frames.length,
      (frames.take i).flatten.length < n → (frames.take i).flatten.length + window ≤ n := by
  constructor
  · intro h i hi
    refine h (frames.take i) frames[i] (frames.drop (i + 1)) ?_
    rw [← drop_eq_getElem_cons hi, take_append_drop]
  · rintro h done f todo rfl
    have hi := h done.length (by rw [length_append, length_cons]; omega)
    rwa [take_left] at hi

instance (window n : ℕ) (frames : List (List β)) : Decidable (Visible window frames n) :=
  decidable_of_iff _ visible_iff.symm

theorem part_length_lt {front f : List β} (h : front <+: f) (hne : front ≠ f) :
    front.length < f.length :=
  Nat.lt_of_le_of_ne h.length_le fun heq => hne (h.eq_of_length heq)

theorem Visible.tail {window n : ℕ} {done todo : List (List β)}
    (h : Visible window (done ++ todo) (done.flatten.length + n)) : Visible window todo n := by
  intro before f after hsplit hlt
  have hle := h (done ++ before) f after (by rw [hsplit, append_assoc])
  rw [flatten_append, length_append] at hle
  omega

/-- The first part of a row of frames gives the frames that it holds and leaves what it holds of
    the next one. -/
theorem parse_frames {γ : Type*} {bytes : γ → List β} {read : γ → α} {frames : List γ}
    (hframes : ∀ f ∈ frames, Framed p (bytes f) (read f)) {n : ℕ} {prev : Option α}
    {data : List β} (hdata : data <+: (frames.map bytes).flatten)
    (hvisible : Visible p.window (frames.map bytes) data.length) (hn : data.length ≤ n) :
    ∃ done todo front, frames = done ++ todo ∧ data = (done.map bytes).flatten ++ front ∧
      (front = [] ∨ ∃ f rest, todo = f :: rest ∧ front <+: bytes f ∧ front ≠ bytes f) ∧
      p.parse n prev data = ⟨done.map read, .done (if front = [] then none else some front)⟩ := by
  induction frames generalizing n prev data with
  | nil =>
    rw [map_nil, flatten_nil, prefix_nil] at hdata
    subst hdata
    exact ⟨[], [], [], rfl, rfl, .inl rfl, by rw [Scanner.parse, Scanner.search, loop_none]; rfl⟩
  | cons f frames ih =>
    by_cases hne : data = []
    · subst hne
      exact ⟨[], f :: frames, [], rfl, rfl, .inl rfl,
        by rw [Scanner.parse, Scanner.search, loop_none]; rfl⟩
    have hf := hframes f mem_cons_self
    have hpos := length_pos_of_ne_nil hne
    have hwindow : p.window ≤ data.length := by
      simpa using hvisible [] (bytes f) (frames.map bytes) rfl (by simpa using hpos)
    obtain ⟨n, rfl⟩ : ∃ m, n = m + 1 := ⟨n - 1, by omega⟩
    rw [map_cons, flatten_cons] at hdata
    by_cases hwhole : bytes f <+: data
    · -- the frame is whole: the loop goes on behind it
      obtain ⟨later, rfl⟩ := hwhole
      rw [prefix_append_right_inj] at hdata
      have hlater : Visible p.window (frames.map bytes) later.length := by
        have htail : Visible p.window ([bytes f] ++ frames.map bytes)
            ([bytes f].flatten.length + later.length) := by
          simpa [Nat.add_comm] using hvisible
        exact htail.tail
      have hflen := length_pos_of_ne_nil hf.ne_nil
      rw [length_append] at hn
      obtain ⟨done, todo, front, hsplit, hlast, hfront, hparse⟩ :=
        @ih (fun g hg => hframes g (mem_cons_of_mem f hg)) n (some (read f)) later hdata
          hlater (by omega)
      refine ⟨f :: done, todo, front, by rw [hsplit, cons_append], ?_, hfront, ?_⟩
      · rw [hlast, map_cons, flatten_cons, append_assoc]
      · rw [Scanner.parse, search_here hne hwindow (hf.sync later hwindow),
          loop_frame (hf.whole prev later hwindow), drop_left, ← Scanner.parse, hparse]
        rfl
    · have hpart : data <+: bytes f :=
        ( prefix_or_prefix_of_prefix hdata
          (prefix_append (bytes f) (frames.map bytes).flatten)).resolve_right hwhole
      have hfull : data ≠ bytes f := fun heq => hwhole (heq ▸ prefix_refl (bytes f))
      refine ⟨[], f :: frames, data, rfl, rfl, .inr ⟨f, frames, rfl, hpart, hfull⟩, ?_⟩
      rw [Scanner.parse, search_here hne hwindow (hf.syncPart data hpart hwindow),
        loop_incomplete (hf.part prev data hpart hfull hwindow), if_neg hne]
      rfl

end Apackage.Lib.FrameScan
