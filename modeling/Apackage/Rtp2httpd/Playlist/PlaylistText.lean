import Apackage.Rtp2httpd.Playlist.Transform

/-
  What the cache holds of the lines that are handed to it.

  `foldl_laidOut`: the text of the cache is that of the lines, each one whole on a line of its
  own, or blank where it did not fit, until the buffer is full.
-/

namespace Apackage.Rtp2httpd

open List Lib.Run

/-! ## The playlist -/

/-- The text of the lines that were handed on: each is there whole with its newline, or only its
    newline is, until the buffer is full. -/
inductive LaidOut : List TransformedLine → Bytes → Prop
  | nil : LaidOut [] []
  | whole (l : TransformedLine) {ls : List TransformedLine} {text : Bytes} (h : LaidOut ls text) :
      LaidOut (l :: ls) (cstr l.bytes ++ LF :: text)
  | blank (l : TransformedLine) {ls : List TransformedLine} {text : Bytes} (h : LaidOut ls text) :
      LaidOut (l :: ls) (LF :: text)
  | last (l : TransformedLine) (ls : List TransformedLine) : LaidOut (l :: ls) (cstr l.bytes)
  | full (ls : List TransformedLine) : LaidOut ls []

namespace M3uCache

/-- The text of the cache. -/
def contents (c : M3uCache) : Bytes := c.transformedM3u.getD []

/-- The buffer has the size of the first allocation or more. -/
def Grown (c : M3uCache) : Prop := c.transformedM3u ≠ none → 4096 ≤ c.size

/-- No byte fits, and the buffer cannot grow. -/
def Full (c : M3uCache) : Prop :=
  c.transformedM3u ≠ none ∧ c.size < c.contents.length + 2 ∧ maxM3uContent < c.size * 2

theorem growSize_spec (need : ℕ) {fuel size : ℕ} (h : maxM3uContent < size * 2 ^ fuel) :
    size ≤ (growSize need fuel size).1 ∧
      ((growSize need fuel size).2 = false → (growSize need fuel size).1 < need ∧
        maxM3uContent < (growSize need fuel size).1 * 2) := by
  induction fuel generalizing size with
  | zero =>
    refine ⟨Nat.le_refl _, fun hfits => ⟨?_, ?_⟩⟩
    · simpa [growSize] using hfits
    · show maxM3uContent < size * 2
      omega
  | succ fuel ih =>
    rw [growSize]
    split
    · simp
    · split
      · exact ⟨Nat.le_refl _, fun _ => by omega⟩
      · have hdouble : maxM3uContent < size * 2 * 2 ^ fuel := by
          rw [Nat.mul_assoc, ← Nat.pow_succ']
          exact h
        obtain ⟨hle, hfalse⟩ := ih hdouble
        exact ⟨by omega, hfalse⟩

/-- The size of the buffer that a text is appended to. -/
def allocatedSize (c : M3uCache) : ℕ := if c.transformedM3u = none then 4096 else c.size

theorem append_eq (c : M3uCache) (str : Bytes) : c.append str =
      let grown := growSize (c.contents.length + (cstr str).length + 1) 13 c.allocatedSize
      if grown.2 then
        { c with
          transformedM3u := some (c.contents ++ cstr str), size := grown.1, etagValid := false }
      else { c with transformedM3u := some c.contents, size := grown.1 } := by
  unfold append contents allocatedSize
  cases h : c.transformedM3u <;> rfl

variable {c : M3uCache}

theorem append_cases (hc : c.Grown) (str : Bytes) : (c.append str).Grown ∧
      ((c.append str).contents = c.contents ++ cstr str ∨ (c.append str).contents = c.contents ∧
          ((cstr str).length ≤ 1 → (c.append str).Full)) := by
  have halloc : 4096 ≤ c.allocatedSize := by
    unfold allocatedSize
    split
    · exact Nat.le_refl _
    · exact hc ‹_›
  have hlimit : maxM3uContent < c.allocatedSize * 2 ^ 13 :=
    lt_of_lt_of_le (by decide) (Nat.mul_le_mul_right (2 ^ 13) halloc)
  obtain ⟨hle, hfalse⟩ := growSize_spec (c.contents.length + (cstr str).length + 1) hlimit
  rw [append_eq]
  dsimp only
  split
  · exact ⟨fun _ => halloc.trans hle, .inl rfl⟩
  · rename_i hfits
    obtain ⟨hsmall, hmax⟩ := hfalse (by simpa using hfits)
    refine ⟨fun _ => halloc.trans hle, .inr ⟨rfl, fun hone => ⟨by simp, ?_, hmax⟩⟩⟩
    have hroom : c.contents.length + (cstr str).length + 1 ≤ c.contents.length + 2 := by omega
    exact hsmall.trans_le hroom

theorem append_full (hc : c.Full) (str : Bytes) :
    (c.append str).contents = c.contents ∧ (c.append str).Full := by
  obtain ⟨hsome, hsize, hmax⟩ := hc
  have halloc : c.allocatedSize = c.size := if_neg hsome
  rw [append_eq, halloc]
  rw [growSize]
  by_cases hneed : c.contents.length + (cstr str).length + 1 ≤ c.size
  · -- only the empty text fits
    have hnil : cstr str = [] := length_eq_zero_iff.1 (by omega)
    rw [if_pos hneed, if_pos rfl, hnil, append_nil]
    exact ⟨rfl, by simp, hsize, hmax⟩
  · rw [if_neg hneed, if_pos hmax, if_neg Bool.false_ne_true]
    exact ⟨rfl, by simp, hsize, hmax⟩

theorem appendLine_full (hc : c.Full) (l : TransformedLine) :
    (c.appendLine l).contents = c.contents ∧ (c.appendLine l).Full := by
  have htwo : ∀ str : Bytes, ((c.append str).append [LF]).contents = c.contents ∧
      ((c.append str).append [LF]).Full := by
    intro str
    obtain ⟨h1, hfull⟩ := append_full hc str
    obtain ⟨h2, hfull'⟩ := append_full hfull [LF]
    exact ⟨h2.trans h1, hfull'⟩
  cases l with
  | text line => exact htwo line
  | url u => exact htwo u.text
  | gap => exact append_full hc [LF]

theorem foldl_full (hc : c.Full) (ls : List TransformedLine) :
    (ls.foldl appendLine c).contents = c.contents := by
  induction ls generalizing c with
  | nil => rfl
  | cons l ls ih =>
    obtain ⟨htext, hfull⟩ := appendLine_full hc l
    exact (ih hfull).trans htext

theorem newline_laidOut {c c₀ : M3uCache} {l : TransformedLine} {ls : List TransformedLine}
    (hc : c.Grown)
    (htext : c.contents = c₀.contents ++ cstr l.bytes ∨ c.contents = c₀.contents)
    (hrest : ∀ {c : M3uCache}, c.Grown →
      ∃ text, LaidOut ls text ∧ (ls.foldl appendLine c).contents = c.contents ++ text) :
    ∃ text, LaidOut (l :: ls) text ∧
      (ls.foldl appendLine (c.append [LF])).contents = c₀.contents ++ text := by
  obtain ⟨hgrown, hput | ⟨hkept, hfull⟩⟩ := append_cases hc [LF]
  · obtain ⟨text, hlaid, hfold⟩ := hrest hgrown
    have hlf : cstr [LF] = [LF] := by decide
    rw [hlf] at hput
    rcases htext with htext | htext
    · exact ⟨_, .whole l hlaid, by rw [hfold, hput, htext]; simp⟩
    · exact ⟨_, .blank l hlaid, by rw [hfold, hput, htext]; simp⟩
  · have hstop := foldl_full (hfull (by decide)) ls
    rcases htext with htext | htext
    · exact ⟨_, .last l ls, by rw [hstop, hkept, htext]⟩
    · exact ⟨_, .full (l :: ls), by rw [hstop, hkept, htext, append_nil]⟩

theorem foldl_laidOut (ls : List TransformedLine) (hc : c.Grown) :
    ∃ text, LaidOut ls text ∧ (ls.foldl appendLine c).contents = c.contents ++ text := by
  induction ls generalizing c with
  | nil => exact ⟨[], .nil, by simp⟩
  | cons l ls ih =>
    have htwo : ∀ str : Bytes, l.bytes = str → ∃ text, LaidOut (l :: ls) text ∧
        (ls.foldl appendLine ((c.append str).append [LF])).contents = c.contents ++ text := by
      rintro str rfl
      obtain ⟨hgrown, htext⟩ := append_cases hc l.bytes
      exact newline_laidOut hgrown (htext.imp_right And.left) ih
    cases l with
    | text line => exact htwo line rfl
    | url u => exact htwo u.text rfl
    | gap => exact newline_laidOut hc (.inr rfl) ih

end M3uCache

def createdName (cfg : TransformConfig) (s : Transform) (line : Bytes) : Option Bytes :=
  (mainCall cfg.appPathRoute s.entry.extinf line).bind fun call =>
    (createServiceFromUrl cfg.toTableConfig s.source s.table call).2

/-! ## Runs -/

/-- The cache holds the lines that were handed on. -/
def Transform.Kept (cache : M3uCache) (s : Transform) : Prop :=
  s.cache = s.written.foldl M3uCache.appendLine cache

namespace Transform

variable {cfg : TransformConfig} {cache : M3uCache} {s : Transform} {e : SourceLine}

/-- A URL line is kept, or a service is created for it. -/
theorem writeUrl_cases (cfg : TransformConfig) (s : Transform) (e : SourceLine) :
    (createdName cfg s e.line = none ∧ ∃ table, s.writeUrl cfg e = { s with table }.keepLine e) ∨
      ∃ name table, createdName cfg s e.line = some name ∧
        isUrlRecognizable cfg.appPathRoute e.line = true ∧
        s.writeUrl cfg e = { s with table }.proxyLine cfg e name := by
  unfold createdName writeUrl
  cases hcall : mainCall cfg.appPathRoute s.entry.extinf e.line with
  | none => exact .inl ⟨rfl, s.table, rfl⟩
  | some call =>
    have hrec : isUrlRecognizable cfg.appPathRoute e.line = true := by
      unfold mainCall at hcall
      split at hcall
      · assumption
      · cases hcall
    dsimp only [Option.bind_some]
    cases hcreate : createServiceFromUrl cfg.toTableConfig s.source s.table call with
    | mk table created =>
      cases created with
      | none => exact .inl ⟨rfl, table, rfl⟩
      | some name => exact .inr ⟨name, table, rfl, hrec, rfl⟩

section

variable (h : s.Kept cache)

include h

theorem Kept.write (l : TransformedLine) : (s.write l).Kept cache := by
  show s.cache.appendLine l = (s.written ++ [l]).foldl M3uCache.appendLine cache
  rw [foldl_append, ← h]
  rfl

theorem Kept.flushGap : s.flushGap.Kept cache := by
  unfold Transform.flushGap
  split
  · exact h.write .gap
  · exact h

theorem Kept.writeExtinf (extinf : Bytes) : (s.writeExtinf extinf).Kept cache := by
  unfold Transform.writeExtinf
  split
  · exact h
  · exact h.write _

theorem Kept.tag (line : Bytes) : (s.tag line).Kept cache := by
  unfold Transform.tag
  dsimp only
  split
  · exact h.flushGap
  · split
    · split
      · exact h.flushGap
      · exact h.flushGap
    · exact h.flushGap.write _

theorem Kept.keepLine : (s.keepLine e).Kept cache := (h.writeExtinf _).write _

theorem Kept.access (is : List ArrayIndex) : (s.access is).Kept cache := h

theorem Kept.setTable (table : ServiceTable) : Kept cache { s with table } := h

theorem Kept.proxyLine (name : Bytes) : (s.proxyLine cfg e name).Kept cache := by
  apply Kept.write
  apply Kept.writeExtinf
  exact h

theorem Kept.writeUrl : (s.writeUrl cfg e).Kept cache := by
  rcases writeUrl_cases cfg s e with ⟨-, table, hwrite⟩ | ⟨name, table, -, -, hwrite⟩
  · rw [hwrite]
    exact (h.setTable table).keepLine
  · rw [hwrite]
    exact (h.setTable table).proxyLine name

theorem Kept.url : (s.url cfg e).Kept cache := (h.access _).writeUrl

theorem Kept.step : (transformStep cfg s e).Kept cache := by
  unfold transformStep
  split
  · exact h
  · split
    · exact h.tag _
    · split
      · exact h.url
      · exact h

theorem Kept.finish :
    s.finish.cache.contents = (s.finish.written.foldl M3uCache.appendLine cache).contents := by
  have hmark : ∀ s : Transform, s.Kept cache →
      (if s.source = .inline then { s with cache := s.cache.markInline } else s).cache.contents =
        ((if s.source = .inline then { s with cache := s.cache.markInline } else s).written.foldl
          M3uCache.appendLine cache).contents := by
    intro s h
    have hcontents : s.cache.contents = (s.written.foldl M3uCache.appendLine cache).contents := by
      rw [h]
    split <;> exact hcontents
  unfold Transform.finish
  split
  · exact hmark _ (h.write .gap)
  · exact hmark s h

end

end Transform

end Apackage.Rtp2httpd
