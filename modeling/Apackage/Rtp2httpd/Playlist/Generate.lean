import Apackage.Lib.Region
import Apackage.Lib.Replacement
import Apackage.Rtp2httpd.Playlist.BaseUrl
import Apackage.Rtp2httpd.Playlist.M3u
import Apackage.Rtp2httpd.Playlist.Md5
import Apackage.Rtp2httpd.Playlist.ServiceUrl

/-
  The playlist cache, and the memory of a generated playlist (`m3u.c`).

  Model. A block of memory is the list of its bytes; what `malloc` and `realloc` hand out holds
  anything. Allocation succeeds, and sizes are natural numbers but for the one difference that can
  wrap. A write outside the block makes the result none. `snprintf` returns -1 for a text of 2^31
  bytes or more, as is documented.

  The copy loop grows the block in time (`copyLoop_exact`). The header line is written before it
  with a budget that is never checked (`generateInto_answer`).
-/

namespace Apackage.Rtp2httpd

open List Option Lib.PercentCoding Lib.Region Lib.Replacement

/-- `MAX_M3U_CONTENT`. -/
def maxM3uContent : ℕ := 10 * 1024 * 1024

/-- `m3u_cache_t`: `transformedM3u` is the content of the buffer up to `used`. -/
structure M3uCache where
  transformedM3u : Option Bytes
  size : ℕ
  inlineEnd : ℕ
  etag : Bytes
  etagValid : Bool
  deriving DecidableEq

/-- `epg_cache_t`. -/
structure EpgCache where
  url : Option Bytes
  isGzipped : Bool
  deriving DecidableEq

namespace M3uCache

def empty : M3uCache := ⟨none, 0, 0, [], false⟩

/-- The text that is served: none before the first line. -/
def served (c : M3uCache) : Option Bytes := c.transformedM3u.filter (· ≠ [])

def updateEtag (c : M3uCache) : M3uCache :=
  match c.served with
  | none => { c with etagValid := false, etag := [] }
  | some text => { c with etag := md5Hex text, etagValid := true }

/-- The loop that doubles the buffer: the size it ends with, and whether that is enough. From
    4096 bytes on, thirteen rounds pass the limit. -/
def growSize (need : ℕ) : ℕ → ℕ → ℕ × Bool
  | 0, size => (size, need ≤ size)
  | fuel + 1, size =>
    if need ≤ size then (size, true)
    else if maxM3uContent < size * 2 then (size, false)
    else growSize need fuel (size * 2)

/-- `append_to_transformed_m3u`; a line that does not fit is dropped. -/
def append (c : M3uCache) (str : Bytes) : M3uCache :=
  let str := cstr str
  let (text, size) :=
    match c.transformedM3u with
    | none => ([], 4096)
    | some text => (text, c.size)
  let (size, fits) := growSize (text.length + str.length + 1) 13 size
  if fits then { c with transformedM3u := some (text ++ str), size, etagValid := false }
  else { c with transformedM3u := some text, size }

def resetExternal (c : M3uCache) : M3uCache :=
  match c.transformedM3u with
  | none => c
  | some text =>
    if c.inlineEnd < text.length then
      { c with transformedM3u := some (text.take c.inlineEnd), etagValid := false }
    else c

/-- The end of `m3u_parse_and_create_services` for inline content. -/
def markInline (c : M3uCache) : M3uCache :=
  { c with inlineEnd := (c.transformedM3u.getD []).length }

/-- `m3u_get_etag`: the cache afterwards and the tag, none for NULL. -/
def getEtag (c : M3uCache) : M3uCache × Option Bytes :=
  let c := if !c.etagValid && c.served.isSome then c.updateEtag else c
  (c, if c.etagValid then some c.etag else none)

end M3uCache

/-! ## The site -/

/-- What the supervisor keeps while it reloads. -/
structure ReloadSnapshot where
  m3u : M3uCache
  epg : EpgCache
  config : SiteConfig
  deriving DecidableEq

/-- The state that a playlist request reads, and the snapshot. -/
structure PlaylistSite where
  m3u : M3uCache
  epg : EpgCache
  config : SiteConfig
  serverAddress : Option Bytes
  snapshot : Option ReloadSnapshot
  deriving DecidableEq

/-- The copy loop: each placeholder becomes the base URL; `skip` counts what is left of one. -/
def expandFrom (baseUrl : Bytes) : (skip : ℕ) → Bytes → Bytes
  | _, [] => []
  | skip + 1, _ :: rest => expandFrom baseUrl skip rest
  | 0, c :: rest =>
    if baseUrlPlaceholder <+: c :: rest then
      baseUrl ++ expandFrom baseUrl (baseUrlPlaceholder.length - 1) rest
    else c :: expandFrom baseUrl 0 rest

def expandText (baseUrl text : Bytes) : Bytes := expandFrom baseUrl 0 text

/-- What the link to the guide has after the base URL. -/
def epgFile (isGzipped : Bool) (r2hToken : Bytes) : Bytes :=
  (if isGzipped then ascii "epg.xml.gz" else ascii "epg.xml") ++
    if r2hToken = [] then [] else ascii "?r2h-token=" ++ httpUrlEncode r2hToken

/-- The link to the guide, if there is a guide. -/
def epgLink (s : PlaylistSite) (baseUrl : Bytes) : Option Bytes :=
  s.epg.url.map fun _ => baseUrl ++ epgFile s.epg.isGzipped s.config.r2hToken

def headerLine (link : Option Bytes) : Bytes :=
  match link with
  | some url => ascii "#EXTM3U x-tvg-url=" ++ quote :: url ++ quote :: [LF, LF]
  | none => ascii "#EXTM3U" ++ [LF, LF]

/-- `result_size` at the first allocation; the copy loop grows the buffer after that. -/
def resultSize (text baseUrl : Bytes) : ℕ :=
  512 + text.length + (text.length / baseUrlPlaceholder.length + 1) * baseUrl.length + 1

/-! ## The memory -/

/-- The allocator: what fresh memory of a size holds. -/
structure Heap where
  fresh : ℕ → Bytes
  length_fresh : ∀ n, (fresh n).length = n

/-- `realloc` to a larger size. -/
def Heap.realloc (heap : Heap) (mem : Bytes) (newSize : ℕ) : Bytes :=
  mem ++ heap.fresh (newSize - mem.length)

/-- `result_size - result_used`, a `size_t`. -/
def remaining (size used : ℕ) : ℕ := if used ≤ size then size - used else size + 2 ^ 64 - used

/-- The block, grown if it is full. -/
def Heap.grow (heap : Heap) (full : Bool) (mem : Bytes) : Bytes :=
  if full then heap.realloc mem (mem.length * 2) else mem

/-- The copy loop; `skip` counts what is left of a placeholder. The result is the block and
    `result_used`. -/
def copyLoop (heap : Heap) (baseUrl : Bytes) : (skip : ℕ) → (src mem : Bytes) → (used : ℕ) →
    Option (Bytes × ℕ)
  | _, [], mem, used => some (mem, used)
  | skip + 1, _ :: src, mem, used => copyLoop heap baseUrl skip src mem used
  | 0, c :: src, mem, used =>
    if baseUrlPlaceholder <+: c :: src then do
      let mem ← store (heap.grow (remaining mem.length used ≤ baseUrl.length) mem) used baseUrl
      copyLoop heap baseUrl (baseUrlPlaceholder.length - 1) src mem (used + baseUrl.length)
    else do
      let mem ← store (heap.grow (mem.length - 1 ≤ used) mem) used [c]
      copyLoop heap baseUrl 0 src mem (used + 1)

/-- What `snprintf` adds to `result_used`. -/
def written (text : Bytes) : ℕ := if text.length < 2 ^ 31 then text.length else 0

/-- `m3u_generate_playlist` after the base URL: the block that is returned. -/
def generateInto (heap : Heap) (header baseUrl text : Bytes) : Option Bytes := do
  let mem := heap.fresh (resultSize text baseUrl)
  let mem ← store mem 0 (header.take (mem.length - 1) ++ [0])
  let (mem, used) ← copyLoop heap baseUrl 0 (cstr text) mem (written header)
  store mem used [0]

/-- `m3u_generate_playlist`: the block, if it is not NULL; none is a write outside. -/
def generatePlaylist (heap : Heap) (s : PlaylistSite) (h : ForwardHeaders) :
    Option (Option Bytes) :=
  match s.m3u.served with
  | none => some none
  | some text =>
    match buildProxyBaseUrl s.config s.serverAddress h with
    | none => some none
    | some baseUrl => (generateInto heap (headerLine (epgLink s baseUrl)) baseUrl text).map some

/-! ## The replacement -/

theorem expandFrom_drop (baseUrl : Bytes) (skip : ℕ) (text : Bytes) :
    expandFrom baseUrl skip text = expandFrom baseUrl 0 (text.drop skip) := by
  induction text generalizing skip with
  | nil => rw [drop_nil, expandFrom, expandFrom]
  | cons c text ih =>
    cases skip with
    | zero => rfl
    | succ skip => rw [expandFrom, ih, drop_succ_cons]

variable {baseUrl : Bytes}

theorem replaced_iff {text out : Bytes} :
    Replaced baseUrlPlaceholder baseUrl text out ↔ out = expandFrom baseUrl 0 text := by
  have hplaceholder : baseUrlPlaceholder = 0x7B :: ascii "BASE_URL\x7d" := by decide
  have hfirst : 0x7B ∉ ascii "BASE_URL\x7d" := by decide
  induction hlen : text.length using Nat.strong_induction_on generalizing text out with
  | _ n ih =>
  subst hlen
  rw [hplaceholder]
  cases text with
  | nil => exact replaced_nil
  | cons c rest =>
    by_cases hprefix : baseUrlPlaceholder <+: c :: rest
    · obtain ⟨text, htext⟩ := hprefix
      have hrest : rest.drop (baseUrlPlaceholder.length - 1) = text := by
        grind
      have hshort : text.length < (c :: rest).length := by
        rw [← htext, length_append]
        exact Nat.lt_add_of_pos_left (by decide)
      rw [expandFrom, if_pos ⟨text, htext⟩, expandFrom_drop, hrest, ← htext, hplaceholder,
        replaced_of_prefix hfirst]
      simp only [← hplaceholder, ih text.length hshort rfl]
      constructor
      · rintro ⟨_, h, rfl⟩
        exact h
      · exact fun h => ⟨_, h, rfl⟩
    · rw [expandFrom, if_neg hprefix]
      rw [hplaceholder] at hprefix
      rw [replaced_cons hprefix]
      simp only [← hplaceholder, ih rest.length (Nat.lt_succ_self _) rfl]
      constructor
      · rintro ⟨_, h, rfl⟩
        exact h
      · exact fun h => ⟨_, h, rfl⟩

/-! ## The copy loop -/

/-- A block that is grown when there is no room for a text and a terminator takes the text and
    has room for the terminator. -/
theorem store_grown (heap : Heap) (full : Bool) {pre rest src : Bytes}
    (hroom : src.length < rest.length ∨
      full = true ∧ src.length < (pre ++ rest).length + rest.length) :
    ∃ rest', rest' ≠ [] ∧ (pre ++ rest).length ≤ (pre ++ src ++ rest').length ∧
      store (heap.grow full (pre ++ rest)) pre.length src = some (pre ++ src ++ rest') := by
  obtain ⟨rest₁, hgrow, hroom₁, hlarger⟩ : ∃ rest₁, heap.grow full (pre ++ rest) = pre ++ rest₁ ∧
      src.length < rest₁.length ∧ rest.length ≤ rest₁.length := by
    cases full with
    | false => exact ⟨rest, rfl, hroom.resolve_right (by simp), le_refl _⟩
    | true =>
      refine ⟨rest ++ heap.fresh ((pre ++ rest).length * 2 - (pre ++ rest).length), ?_, ?_, ?_⟩
      · rw [Heap.grow, if_pos rfl, Heap.realloc, append_assoc]
      · rw [length_append, heap.length_fresh]
        omega
      · simp
  refine ⟨rest₁.drop src.length, ?_, ?_, ?_⟩
  · exact ne_nil_of_length_pos (by rw [length_drop]; omega)
  · simp only [length_append, length_drop]
    omega
  · rw [hgrow, store_behind _ _ _ (by omega), append_assoc]

/-- The loop appends the copy to what is written, and keeps room for the terminator. It may find
    the block full, if there is text to copy. -/
theorem copyLoop_exact (heap : Heap) (baseUrl : Bytes) (src : Bytes) :
    ∀ (skip : ℕ) (pre rest : Bytes), (rest = [] → skip = 0 ∧ src ≠ []) →
      baseUrl.length < (pre ++ rest).length → 1 < (pre ++ rest).length →
      ∃ rest', rest' ≠ [] ∧ copyLoop heap baseUrl skip src (pre ++ rest) pre.length =
        some (pre ++ expandFrom baseUrl skip src ++ rest',
          (pre ++ expandFrom baseUrl skip src).length) := by
  induction src with
  | nil =>
    intro skip pre rest hrest hbase hone
    refine ⟨rest, fun h => (hrest h).2 rfl, ?_⟩
    cases skip <;> simp [copyLoop, expandFrom]
  | cons c src ih =>
    intro skip pre rest hrest hbase hone
    cases skip with
    | succ skip => exact ih skip pre rest (fun h => by cases (hrest h).1) hbase hone
    | zero =>
      rw [length_append] at hbase hone
      -- what is appended for the byte, and the rest of the loop
      have hstep : ∀ {full : Bool} (piece : Bytes) (skip : ℕ), (piece.length < rest.length ∨
          full = true ∧ piece.length < (pre ++ rest).length + rest.length) →
          ∃ rest', rest' ≠ [] ∧ ((store (heap.grow full (pre ++ rest)) pre.length piece).bind
              fun mem => copyLoop heap baseUrl skip src mem (pre.length + piece.length)) =
            some (pre ++ (piece ++ expandFrom baseUrl skip src) ++ rest',
              (pre ++ (piece ++ expandFrom baseUrl skip src)).length) := by
        intro full piece skip hroom
        obtain ⟨rest₁, hrest₁, hlarger, hstore⟩ := store_grown heap full hroom
        rw [length_append] at hlarger
        rw [hstore, ← append_assoc, ← length_append]
        exact ih skip (pre ++ piece) rest₁ (fun h => absurd h hrest₁) (by omega) (by omega)
      rw [copyLoop, expandFrom]
      by_cases hprefix : baseUrlPlaceholder <+: c :: src
      · rw [if_pos hprefix, if_pos hprefix]
        refine hstep baseUrl _ ?_
        rw [decide_eq_true_eq, remaining, length_append, if_pos (by omega)]
        omega
      · rw [if_neg hprefix, if_neg hprefix]
        refine hstep [c] 0 ?_
        rw [decide_eq_true_eq, length_append, length_singleton]
        omega

variable {n : ℕ}

theorem store_keeps {mem mem' src : Bytes} {used : ℕ} (h : store mem used src = some mem')
    (hn : n < used) : mem'[n]? = mem[n]? := by
  unfold store at h
  split at h
  · grind
  · cases h

theorem store_grown_keeps (heap : Heap) {full : Bool} {mem mem' src : Bytes} {used : ℕ}
    (h : store (heap.grow full mem) used src = some mem') (hlt : n < mem.length) (hn : n < used) :
    mem'[n]? = mem[n]? ∧ n < mem'.length := by
  have hgrown : (heap.grow full mem)[n]? = mem[n]? ∧ n < (heap.grow full mem).length := by
    unfold Heap.grow Heap.realloc
    split
    · exact ⟨getElem?_append_left hlt, by rw [length_append]; omega⟩
    · exact ⟨rfl, hlt⟩
  exact ⟨(store_keeps h hn).trans hgrown.1, by rw [length_store h]; exact hgrown.2⟩

theorem copyLoop_keeps (heap : Heap) (baseUrl : Bytes) (src : Bytes) :
    ∀ (skip : ℕ) (mem : Bytes) (used : ℕ) {mem' : Bytes} {used' : ℕ}, n < mem.length → n < used →
      copyLoop heap baseUrl skip src mem used = some (mem', used') →
        mem'[n]? = mem[n]? ∧ n < used' := by
  induction src with
  | nil =>
    intro skip mem used mem' used' hlt hn h
    cases skip <;>
    · obtain ⟨rfl, rfl⟩ := Prod.mk.inj (some.inj h)
      exact ⟨rfl, hn⟩
  | cons c src ih =>
    intro skip mem used mem' used' hlt hn h
    cases skip with
    | succ skip => exact ih skip mem used hlt hn h
    | zero =>
      rw [copyLoop] at h
      split at h <;>
      · obtain ⟨mem₁, hstore, hloop⟩ := bind_eq_some_iff.mp h
        obtain ⟨hkeep, hlt₁⟩ := store_grown_keeps heap hstore hlt hn
        obtain ⟨hkeep', hused⟩ := ih _ mem₁ _ hlt₁ (by omega) hloop
        exact ⟨hkeep'.trans hkeep, hused⟩

/-! ## The block that is returned -/

/-- What is left of the header line: none of it if its length is not counted. -/
def keptHeader (header baseUrl text : Bytes) : Bytes :=
  if header.length < 2 ^ 31 then header.take (resultSize text baseUrl - 1) else []

/-- Is the text seen behind the header line? A cut one ends with its zero byte. -/
def copyFollows (header baseUrl text : Bytes) : Bool :=
  header.length < resultSize text baseUrl ∨ 2 ^ 31 ≤ header.length

/-- What the caller reads: a string. -/
def answerText (header baseUrl text : Bytes) : Bytes :=
  keptHeader header baseUrl text ++
    if copyFollows header baseUrl text then expandText baseUrl (cstr text) else []

/-- Does a copy that starts at the end of a block of `size` bytes or behind it stay inside? The
    block is doubled before the first byte, but not before a placeholder behind its end. -/
def RoomBehind (size used : ℕ) : Bytes → Prop
  | [] => False
  | c :: rest =>
    if baseUrlPlaceholder <+: c :: rest then used = size
    else used + 1 < size * 2 ∨ used + 1 = size * 2 ∧ rest ≠ []

def CopyFits (header baseUrl text : Bytes) : Prop :=
  copyFollows header baseUrl text ∨ RoomBehind (resultSize text baseUrl) header.length (cstr text)

theorem not_mem_epgFile {c : UInt8}
    (hnames : c ∉ ascii "epg.xml.gz" ++ ascii "epg.xml" ++ ascii "?r2h-token=")
    (hsafe : urlSafe c = false) (hpercent : c ≠ percent) (hdigit : c ∉ (List.range 16).map hexChar)
    (isGzipped : Bool) (r2hToken : Bytes) : c ∉ epgFile isGzipped r2hToken := by
  simp only [mem_append, not_or] at hnames
  unfold epgFile
  rw [mem_append, not_or]
  constructor
  · cases isGzipped
    · exact hnames.1.2
    · exact hnames.1.1
  · split
    · exact not_mem_nil
    · rw [mem_append, not_or]
      exact ⟨hnames.2, not_mem_encode hsafe hpercent hdigit r2hToken⟩

theorem noNul_headerLine {s : PlaylistSite} (h : 0 ∉ baseUrl) :
    0 ∉ headerLine (epgLink s baseUrl) := by
  have hfile : 0 ∉ epgFile s.epg.isGzipped s.config.r2hToken :=
    not_mem_epgFile (by decide) (by decide) (by decide) (by decide) _ _
  have hfront : (0 : UInt8) ∉ ascii "#EXTM3U x-tvg-url=" ++ [quote] := by decide
  have hend : (0 : UInt8) ∉ [quote, LF, LF] := by decide
  unfold headerLine epgLink
  cases s.epg.url with
  | none =>
    rw [map_none]
    decide
  | some url =>
    grind

theorem noNul_expandFrom (h : 0 ∉ baseUrl) {text : Bytes} (ht : 0 ∉ text) :
    ∀ skip, 0 ∉ expandFrom baseUrl skip text := by
  induction text with
  | nil => exact fun skip => by simp [expandFrom]
  | cons c text ih =>
    rw [List.mem_cons, not_or] at ht
    rintro (_ | skip)
    · rw [expandFrom]
      split
      · rw [mem_append, not_or]
        exact ⟨h, ih ht.2 _⟩
      · rw [List.mem_cons, not_or]
        exact ⟨ht.1, ih ht.2 0⟩
    · exact ih ht.2 skip

theorem noNul_cstr (text : Bytes) : 0 ∉ cstr text := fun h => by
  simpa using mem_takeWhile_imp h

theorem headerBlock (heap : Heap) (header baseUrl text : Bytes) :
    ∃ old, (header.take (resultSize text baseUrl - 1) ++ 0 :: old).length =
        resultSize text baseUrl ∧
      generateInto heap header baseUrl text = (copyLoop heap baseUrl 0 (cstr text)
          (header.take (resultSize text baseUrl - 1) ++ 0 :: old) (written header)).bind fun r =>
            store r.1 r.2 [0] := by
  have hpos : 0 < resultSize text baseUrl := by
    unfold resultSize
    omega
  have hlength := heap.length_fresh (resultSize text baseUrl)
  have hfits : (header.take (resultSize text baseUrl - 1) ++ [0]).length ≤
      (heap.fresh (resultSize text baseUrl)).length := by
    rw [length_append, length_take, length_singleton]
    omega
  have hstore := store_behind [] _ _ hfits
  rw [nil_append, nil_append, length_nil, append_assoc, singleton_append] at hstore
  refine ⟨_, (length_store hstore).trans hlength, ?_⟩
  unfold generateInto
  dsimp only
  rw [hlength, hstore]
  rfl

theorem store_outside {mem src : Bytes} {used : ℕ} (h : mem.length < used + src.length) :
    store mem used src = none := if_neg (by omega)

theorem copy_ends (heap : Heap) (baseUrl pre rest src : Bytes) (hrest : rest = [] → src ≠ [])
    (hbase : baseUrl.length < (pre ++ rest).length) (hone : 1 < (pre ++ rest).length) :
    ∃ old, ((copyLoop heap baseUrl 0 src (pre ++ rest) pre.length).bind
      fun r => store r.1 r.2 [0]) = some (pre ++ expandFrom baseUrl 0 src ++ 0 :: old) := by
  obtain ⟨rest', hrest', hloop⟩ := copyLoop_exact heap baseUrl src 0 pre rest
    (fun h => ⟨rfl, hrest h⟩) hbase hone
  have hpos := length_pos_iff.mpr hrest'
  rw [hloop, bind_some, store_behind _ _ _ (by rw [length_singleton]; omega)]
  exact ⟨_, rfl⟩

theorem copy_inside_iff (heap : Heap) (baseUrl pre rest src : Bytes)
    (hbase : baseUrl.length < (pre ++ rest).length) (hone : 1 < (pre ++ rest).length) :
    (∃ out, ((copyLoop heap baseUrl 0 src (pre ++ rest) pre.length).bind
      fun r => store r.1 r.2 [0]) = some out) ↔ (rest = [] → src ≠ []) := by
  constructor
  · rintro ⟨out, hout⟩ rfl rfl
    rw [copyLoop, bind_some, store_outside (by simp)] at hout
    cases hout
  · intro hrest
    obtain ⟨old, hends⟩ := copy_ends heap baseUrl pre rest src hrest hbase hone
    exact ⟨_, hends⟩

/-- A copy that starts behind a block stays inside if and only if there is room. -/
theorem copyBehind_iff (heap : Heap) (baseUrl text : Bytes) {mem : Bytes} {used : ℕ}
    (hused : mem.length ≤ used) (hint : used < 2 ^ 31) (hbase : baseUrl.length < mem.length)
    (hone : 1 < mem.length) :
    (∃ out, ((copyLoop heap baseUrl 0 text mem used).bind fun r => store r.1 r.2 [0]) =
      some out) ↔ RoomBehind mem.length used text := by
  cases text with
  | nil =>
    refine iff_of_false ?_ not_false
    rw [copyLoop, bind_some, store_outside (by dsimp only [length_singleton]; omega)]
    simp
  | cons c rest =>
    rw [RoomBehind]
    by_cases hprefix : baseUrlPlaceholder <+: c :: rest
    · rw [if_pos hprefix]
      rcases eq_or_lt_of_le hused with rfl | hlt
      · have hinside := copy_inside_iff heap baseUrl mem [] (c :: rest)
        rw [append_nil] at hinside
        exact (hinside hbase hone).trans (iff_of_true (fun _ => cons_ne_nil c rest) rfl)
      · refine iff_of_false ?_ (by omega)
        have hwrap : ¬ remaining mem.length used ≤ baseUrl.length := by
          rw [remaining, if_neg (by omega)]
          omega
        rw [copyLoop, if_pos hprefix, decide_eq_false hwrap, Heap.grow, if_neg (by simp),
          store_outside (by omega)]
        simp
    · rw [if_neg hprefix, copyLoop, if_neg hprefix,
        decide_eq_true (show mem.length - 1 ≤ used by omega)]
      have hgrown : (heap.grow true mem).length = mem.length * 2 := by
        rw [Heap.grow, if_pos rfl, Heap.realloc, length_append, heap.length_fresh]
        omega
      generalize heap.grow true mem = block at hgrown
      by_cases hroom : used + 1 ≤ mem.length * 2
      · have hstore : store block used [c] =
            some (block.take used ++ [c] ++ block.drop (used + [c].length)) :=
          if_pos (by rw [length_singleton, hgrown]; exact hroom)
        have hpre : (block.take used ++ [c]).length = used + 1 := by
          rw [length_append, length_take, length_singleton, hgrown]
          omega
        have hsize := (length_store hstore).trans hgrown
        rw [hstore, ← hpre]
        refine (copy_inside_iff heap baseUrl _ _ rest (by omega) (by omega)).trans ?_
        rw [drop_eq_nil_iff, hgrown, length_singleton, hpre]
        rcases Nat.lt_or_eq_of_le hroom with hlt | heq
        · exact iff_of_true (fun hle => absurd hle (by omega)) (.inl hlt)
        · exact ⟨fun h => .inr ⟨heq, h heq.ge⟩, fun h _ => (h.resolve_left (by omega)).2⟩
      · refine iff_of_false ?_ (by omega)
        rw [store_outside (by rw [length_singleton, hgrown]; omega)]
        simp

/-- A copy that starts behind the first zero byte of a block leaves the string alone. -/
theorem copyBehind_cstr (heap : Heap) {pre old src out : Bytes} {used : ℕ} (hpre : 0 ∉ pre)
    (hused : pre.length < used)
    (h : ((copyLoop heap baseUrl 0 src (pre ++ 0 :: old) used).bind fun r => store r.1 r.2 [0]) =
      some out) : cstr out = pre := by
  obtain ⟨⟨mem, used'⟩, hloop, hlast⟩ := bind_eq_some_iff.mp h
  have hkept : ∀ n ≤ pre.length, out[n]? = (pre ++ 0 :: old)[n]? := by
    intro n hn
    obtain ⟨hkeep, hused'⟩ := copyLoop_keeps heap baseUrl src 0 _ _
      (show n < (pre ++ 0 :: old).length by rw [length_append, length_cons]; omega)
      (lt_of_le_of_lt hn hused) hloop
    exact (store_keeps hlast hused').trans hkeep
  have htake : out.take (pre.length + 1) = pre ++ [0] := by
    refine ext_getElem? fun n => ?_
    by_cases hn : n < pre.length + 1
    · grind
    · simp [*]
  rw [← take_append_drop (pre.length + 1) out, htake, append_assoc]
  exact cstr_append_nul hpre _

section Answer

variable {header baseUrl text : Bytes}

theorem resultSize_lt (text baseUrl : Bytes) : 512 + baseUrl.length < resultSize text baseUrl := by
  have hle : baseUrl.length ≤ (text.length / baseUrlPlaceholder.length + 1) * baseUrl.length :=
    Nat.le_mul_of_pos_left _ (Nat.succ_pos _)
  unfold resultSize
  omega

theorem answerText_whole (hroom : header.length < resultSize text baseUrl)
    (hint : header.length < 2 ^ 31) :
    answerText header baseUrl text = header ++ expandText baseUrl (cstr text) := by
  rw [answerText, keptHeader, if_pos hint, take_of_length_le (by omega), copyFollows,
    decide_eq_true (.inl hroom), if_pos rfl]

theorem answerText_cut (hroom : resultSize text baseUrl ≤ header.length)
    (hint : header.length < 2 ^ 31) :
    answerText header baseUrl text = header.take (resultSize text baseUrl - 1) := by
  rw [answerText, keptHeader, if_pos hint, copyFollows, decide_eq_false (by omega),
    if_neg (by simp), append_nil]

theorem answerText_uncounted (hint : 2 ^ 31 ≤ header.length) :
    answerText header baseUrl text = expandText baseUrl (cstr text) := by
  rw [answerText, keptHeader, if_neg (by omega), copyFollows, decide_eq_true (.inr hint),
    if_pos rfl, nil_append]

theorem copyFits_cut (hroom : resultSize text baseUrl ≤ header.length)
    (hint : header.length < 2 ^ 31) :
    CopyFits header baseUrl text ↔
      RoomBehind (resultSize text baseUrl) header.length (cstr text) := by
  rw [CopyFits, copyFollows, decide_eq_false (by omega), or_iff_right (by simp)]

end Answer

section Block

variable (heap : Heap) {header baseUrl : Bytes} (text : Bytes) (hbase : 0 ∉ baseUrl)

include hbase

/-- The block is returned if and only if the copy fits, and then the caller reads the answer. -/
theorem generateInto_answer (hheader : 0 ∉ header) {out : Bytes} :
    (∃ mem, generateInto heap header baseUrl text = some mem ∧ cstr mem = out) ↔
      CopyFits header baseUrl text ∧ answerText header baseUrl text = out := by
  obtain ⟨old, hlength, hrun⟩ := headerBlock heap header baseUrl text
  have hsize := resultSize_lt text baseUrl
  have hends : ∀ {pre rest : Bytes}, 0 ∉ pre → rest ≠ [] →
      (pre ++ rest).length = resultSize text baseUrl →
      ((∃ mem, ((copyLoop heap baseUrl 0 (cstr text) (pre ++ rest) pre.length).bind
        fun r => store r.1 r.2 [0]) = some mem ∧ cstr mem = out) ↔
          pre ++ expandText baseUrl (cstr text) = out) := by
    intro pre rest hpre hrest hblock
    obtain ⟨old, hends⟩ := copy_ends heap baseUrl pre rest (cstr text) (fun h => absurd h hrest)
      (by omega) (by omega)
    have hnul : 0 ∉ pre ++ expandFrom baseUrl 0 (cstr text) := by
      rw [mem_append, not_or]
      exact ⟨hpre, noNul_expandFrom hbase (noNul_cstr text) 0⟩
    simp only [hends, some.injEq, exists_eq_left', cstr_append_nul hnul]
    rfl
  rw [hrun, written]
  rcases Nat.lt_or_ge header.length (2 ^ 31) with hint | hint
  · rw [if_pos hint]
    rcases Nat.lt_or_ge header.length (resultSize text baseUrl) with hroom | hroom
    · rw [take_of_length_le (by omega)] at hlength ⊢
      rw [hends hheader (cons_ne_nil 0 old) hlength, answerText_whole hroom hint]
      exact (and_iff_right (.inl (decide_eq_true (.inl hroom)))).symm
    · have htake : (header.take (resultSize text baseUrl - 1)).length < header.length := by
        rw [length_take]
        omega
      have hnul : 0 ∉ header.take (resultSize text baseUrl - 1) :=
        fun h => hheader (mem_of_mem_take h)
      have hfits := copyBehind_iff heap baseUrl (cstr text) (le_of_eq_of_le hlength hroom) hint
        (by omega) (by omega)
      rw [hlength] at hfits
      rw [answerText_cut hroom hint, copyFits_cut hroom hint, ← hfits]
      constructor
      · rintro ⟨mem, hmem, rfl⟩
        exact ⟨⟨mem, hmem⟩, (copyBehind_cstr heap hnul htake hmem).symm⟩
      · rintro ⟨⟨mem, hmem⟩, rfl⟩
        exact ⟨mem, hmem, copyBehind_cstr heap hnul htake hmem⟩
  · -- the header line is not counted, and the copy starts in its place
    rw [if_neg (by omega), answerText_uncounted hint]
    exact (hends not_mem_nil (by simp) hlength).trans
      (and_iff_right (.inl (decide_eq_true (.inr hint)))).symm

/-- The whole header line and the text, if and only if the line is counted and fits. -/
theorem generateInto_iff (hheader : 0 ∉ header) :
    (∃ mem out, generateInto heap header baseUrl text = some mem ∧
      Replaced baseUrlPlaceholder baseUrl (cstr text) out ∧ cstr mem = header ++ out) ↔
      header.length < resultSize text baseUrl ∧ header.length < 2 ^ 31 := by
  constructor
  · rintro ⟨mem, out, hmem, hout, hcstr⟩
    obtain ⟨-, hanswer⟩ := (generateInto_answer heap text hbase hheader).mp ⟨mem, hmem, rfl⟩
    rw [hcstr, replaced_iff.mp hout] at hanswer
    have hlen := congrArg List.length hanswer
    rw [length_append] at hlen
    have hsize := resultSize_lt text baseUrl
    by_contra hnot
    rcases Nat.lt_or_ge header.length (2 ^ 31) with hint | hint
    · rw [answerText_cut (by omega) hint, length_take] at hlen
      omega
    · rw [answerText_uncounted hint, expandText] at hlen
      omega
  · rintro ⟨hroom, hint⟩
    obtain ⟨mem, hmem, hcstr⟩ := (generateInto_answer heap text hbase hheader).mpr
      ⟨.inl (decide_eq_true (.inl hroom)), rfl⟩
    rw [answerText_whole hroom hint] at hcstr
    exact ⟨mem, _, hmem, replaced_iff.mpr rfl, hcstr⟩

end Block

/-! ## The playlist -/

section Site

variable (heap : Heap) {s : PlaylistSite} {h : ForwardHeaders} {text baseUrl : Bytes}
  (htext : s.m3u.served = some text)
  (hbase : buildProxyBaseUrl s.config s.serverAddress h = some baseUrl)

include htext hbase

theorem generatePlaylist_eq (mem : Bytes) : generatePlaylist heap s h = some (some mem) ↔
      generateInto heap (headerLine (epgLink s baseUrl)) baseUrl text = some mem := by
  unfold generatePlaylist
  rw [htext, hbase]
  simp [map_eq_some_iff, Option.some.injEq, exists_eq_right]

/-- The playlist is the header line and the text with its placeholders replaced, and all is
    written inside the block, if and only if the header line is shorter than the first block. -/
theorem generatePlaylist_exact_iff (hnul : 0 ∉ baseUrl) :
    (∃ mem out, generatePlaylist heap s h = some (some mem) ∧
      Replaced baseUrlPlaceholder baseUrl (cstr text) out ∧
        cstr mem = headerLine (epgLink s baseUrl) ++ out) ↔
      (headerLine (epgLink s baseUrl)).length < resultSize text baseUrl ∧
        (headerLine (epgLink s baseUrl)).length < 2 ^ 31 := by
  simp only [generatePlaylist_eq heap htext hbase]
  exact generateInto_iff heap text hnul (noNul_headerLine hnul)

end Site

def zeroHeap : Heap := ⟨fun n => List.replicate n 0, fun _ => length_replicate⟩

/-- A site that answers with relative URLs, has a guide, and asks for a token. -/
def tokenSite (token : Bytes) : PlaylistSite where
  m3u := ⟨some (baseUrlPlaceholder ++ ascii "News"), 4096, 0, [], false⟩
  epg := ⟨some (ascii "http://e/g.xml"), false⟩
  config := ⟨[], token, [], false, true⟩
  serverAddress := none
  snapshot := none

theorem tokenSite_served (token : Bytes) :
    (tokenSite token).m3u.served = some (baseUrlPlaceholder ++ ascii "News") := by
  change (some _ : Option Bytes).filter _ = _
  decide

/-- A short token. -/
theorem generatePlaylist_short :
    ∃ mem out, generatePlaylist zeroHeap (tokenSite (ascii "abc")) ⟨[], [], []⟩ = some (some mem) ∧
      Replaced baseUrlPlaceholder (ascii "/") (cstr (baseUrlPlaceholder ++ ascii "News")) out ∧
        cstr mem = headerLine (epgLink (tokenSite (ascii "abc")) (ascii "/")) ++ out :=
  (generatePlaylist_exact_iff zeroHeap (tokenSite_served _)
    (show buildProxyBaseUrl _ _ ⟨[], [], []⟩ = some (ascii "/") from rfl) (by decide)).mpr
      (by decide)

/-- A token of 600 bytes. -/
theorem generatePlaylist_long :
    ¬ ∃ mem out, generatePlaylist zeroHeap (tokenSite (List.replicate 600 0x61)) ⟨[], [], []⟩ =
        some (some mem) ∧
      Replaced baseUrlPlaceholder (ascii "/") (cstr (baseUrlPlaceholder ++ ascii "News")) out ∧
        cstr mem = headerLine (epgLink (tokenSite (List.replicate 600 0x61)) (ascii "/")) ++
          out := by
  have hbase : buildProxyBaseUrl (tokenSite (List.replicate 600 0x61)).config none ⟨[], [], []⟩ =
      some (ascii "/") := rfl
  simp only [generatePlaylist_eq zeroHeap (tokenSite_served _) hbase]
  rw [generateInto_iff zeroHeap _ (by decide) (noNul_headerLine (by decide))]
  decide +kernel

end Apackage.Rtp2httpd
