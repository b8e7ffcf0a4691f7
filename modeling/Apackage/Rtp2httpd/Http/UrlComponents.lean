import Apackage.Lib.Region
import Apackage.Rtp2httpd.Http.Request
import Apackage.Rtp2httpd.Proxy.Target

/-
  The components of a URL (`http_parse_url_components` in `http.c`).

  Model. An output is the memory its caller passes, or none for NULL. A write outside of it makes
  the result none. The URL is a C string, so no byte of it is NUL.

  A path is written as 2048 bytes whatever its length, and one caller has room for 1024. What
  stands between the bracket of an IPv6 host and its port is dropped. `urlComponents_iff` says
  that nothing else goes wrong.
-/

namespace Apackage.Rtp2httpd

open List Option Lib.Region

/-- Something for each output. -/
structure UrlOutputs (α : Type) where
  protocol : Option α
  host : Option α
  port : Option α
  path : Option α
  deriving DecidableEq

abbrev UrlBuffers := UrlOutputs Bytes

def UrlOutputs.sizes (out : UrlBuffers) : UrlOutputs ℕ :=
  ⟨out.protocol.map List.length, out.host.map List.length, out.port.map List.length,
    out.path.map List.length⟩

/-- The arrays of `get_server_address` (`m3u.c`), of `connection_route_and_start`
    (`connection.c`) and of `build_proxy_base_url` (`utils.c`). -/
def urlCallers : List (UrlOutputs ℕ) :=
  [⟨some 16, some 256, some 16, some 1024⟩, ⟨some 16, some 256, none, none⟩,
    ⟨some 16, none, none, none⟩]

/-- The sizes that `http.h` asks for. -/
def documentedSizes : UrlOutputs ℕ := ⟨some 16, some 256, some 16, some 2048⟩

/-! ## The function -/

/-- `strncpy`: the bytes that it writes. -/
def strncpy (src : Bytes) (n : ℕ) : Bytes := src.take n ++ List.replicate (n - src.length) 0

def writeOutput (buf : Option Bytes) (src : Bytes) : Option (Option Bytes) :=
  match buf with
  | none => some none
  | some mem => (store mem 0 src).map some

/-- A component is written with its terminator if it fits the size. -/
def copyComponent (size : ℕ) (buf : Option Bytes) (text : Option Bytes) : Option (Option Bytes) :=
  match text with
  | none => some buf
  | some text => if text.length < size then writeOutput buf (text ++ [0]) else some buf

/-- The protocol, and what follows `://`. -/
def splitProtocol (url : Bytes) : Option Bytes × Bytes :=
  match strstr (ascii "://") url with
  | some i => (some (url.take i), url.drop (i + 3))
  | none => (none, url)

/-- The text in front of the first slash. -/
def hostport (p : Bytes) : Bytes := p.takeWhile (· ≠ slash)

/-- The text from the first slash on. -/
def urlPath (p : Bytes) : Bytes := p.drop (hostport p).length

def copyPath (buf : Option Bytes) (p : Bytes) : Option (Option Bytes) :=
  if slash ∈ p then writeOutput buf (strncpy (urlPath p) 2047 ++ [0]) else some buf

def bracketHost (hostport : Bytes) : Bytes := (hostport.drop 1).takeWhile (· ≠ closeBracket)

/-- The host and the port of `hostport`, if it has one; none is -1. -/
def hostAndPort (hostport : Bytes) : Option (Bytes × Option Bytes) :=
  if hostport.head? = some openBracket then
    if closeBracket ∉ hostport then none
    else
      match hostport.drop ((bracketHost hostport).length + 2) with
      | [] => some (bracketHost hostport, none)
      | c :: port => some (bracketHost hostport, if c = colon then some port else none)
  else if colon ∈ hostport then
    let host := hostport.takeWhile (· ≠ colon)
    let port := hostport.drop (host.length + 1)
    -- a second colon: an IPv6 address without brackets
    if colon ∈ port then some (hostport, none) else some (host, some port)
  else some (hostport, none)

def httpParseUrlComponents (url : Bytes) (out : UrlBuffers) : Option (ℤ × UrlBuffers) :=
  if url = [] then some (-1, out)
  else do
    let protocol ← writeOutput out.protocol [0]
    let host ← writeOutput out.host [0]
    let port ← writeOutput out.port [0]
    let path ← writeOutput out.path [0]
    let protocol ← copyComponent 16 protocol (splitProtocol url).1
    let p := (splitProtocol url).2
    let path ← copyPath path p
    match hostAndPort (hostport p) with
    | none => some (-1, ⟨protocol, host, port, path⟩)
    | some (name, number) =>
      let host ← copyComponent 256 host (some name)
      let port ← copyComponent 16 port number
      some (0, ⟨protocol, host, port, path⟩)

/-! ## What the components say -/

/-- What a caller reads. -/
structure UrlText where
  protocol : Bytes
  host : Bytes
  port : Bytes
  path : Bytes

def UrlOutputs.read (out : UrlBuffers) : UrlText :=
  ⟨cstr (out.protocol.getD []), cstr (out.host.getD []), cstr (out.port.getD []),
    cstr (out.path.getD [])⟩

/-- The components put together are the URL. The separator of an empty protocol or port may be
    there or not, and so may the brackets of the host. -/
def UrlText.Denotes (t : UrlText) (url : Bytes) : Prop :=
  ∃ protocol host port, (protocol = t.protocol ++ ascii "://" ∨ t.protocol = [] ∧ protocol = []) ∧
    (host = t.host ∨ host = openBracket :: t.host ++ [closeBracket]) ∧
    (port = colon :: t.port ∨ t.port = [] ∧ port = []) ∧
    url = protocol ++ host ++ port ++ t.path

/-- A component does not fit its documented size. -/
def UrlTruncated (url : Bytes) : Prop :=
  (∃ protocol, (splitProtocol url).1 = some protocol ∧ 16 ≤ protocol.length) ∨
    (∃ host port, hostAndPort (hostport (splitProtocol url).2) = some (host, port) ∧
      (256 ≤ host.length ∨ ∃ number, port = some number ∧ 16 ≤ number.length)) ∨
    2048 ≤ (urlPath (splitProtocol url).2).length

/-- The text between the bracket of a host and its port, or the end. -/
def behindBracket (hostport : Bytes) : Bytes :=
  if hostport.head? = some openBracket ∧ closeBracket ∈ hostport then
    let rest := hostport.drop ((bracketHost hostport).length + 2)
    if rest.head? = some colon then [] else rest
  else []

/-! ## The outputs -/

/-- The output, if there is one, has room for `n` bytes. -/
def Roomy (n : ℕ) (buf : Option Bytes) : Prop := ∀ k, buf.map List.length = some k → n ≤ k

/-- The output, if there is one, holds the string. -/
def HoldsText (buf : Option Bytes) (text : Bytes) : Prop := ∀ mem, buf = some mem → cstr mem = text

variable {buf : Option Bytes}

theorem Roomy.mono {m n : ℕ} (h : Roomy n buf) (hle : m ≤ n) : Roomy m buf :=
  fun k hk => le_trans hle (h k hk)

theorem writeOutput_string {buf : Option Bytes} {text : Bytes} (pad : Bytes)
    (hbuf : Roomy (text.length + 1 + pad.length) buf) (hnul : 0 ∉ text) :
    ∃ buf', writeOutput buf (text ++ 0 :: pad) = some buf' ∧ HoldsText buf' text ∧
      buf'.map List.length = buf.map List.length := by
  cases buf with
  | none => exact ⟨none, rfl, fun _ h => (by cases h), rfl⟩
  | some mem =>
    have hlen := hbuf mem.length rfl
    have hfits : (text ++ 0 :: pad).length ≤ mem.length := by
      rw [length_append, length_cons]
      omega
    have hstore := store_behind [] (text ++ 0 :: pad) mem hfits
    rw [nil_append, nil_append, length_nil] at hstore
    refine ⟨some (text ++ 0 :: pad ++ mem.drop (text ++ 0 :: pad).length), ?_, ?_, ?_⟩
    · rw [writeOutput, hstore]
      rfl
    · rintro _ ⟨⟩
      rw [append_assoc, cons_append]
      exact cstr_append_nul hnul _
    · exact congrArg some (length_store hstore)

theorem writeOutput_none {mem src : Bytes} (h : mem.length < src.length) :
    writeOutput (some mem) src = none := by
  have hstore : store mem 0 src = none := if_neg (by omega)
  rw [writeOutput, hstore]
  rfl

theorem copyComponent_some {size : ℕ} {text : Option Bytes} (hbuf : Roomy size buf)
    (hempty : HoldsText buf []) (hnul : ∀ t, text = some t → 0 ∉ t) :
    ∃ buf', copyComponent size buf text = some buf' ∧
      ((∀ t, text = some t → t.length < size) → HoldsText buf' (text.getD [])) ∧
      buf'.map List.length = buf.map List.length := by
  cases text with
  | none => exact ⟨buf, rfl, fun _ => hempty, rfl⟩
  | some text =>
    by_cases hfits : text.length < size
    · obtain ⟨buf', hwrite, hholds, hsize⟩ :=
        writeOutput_string [] (hbuf.mono (by rw [length_nil]; omega)) (hnul text rfl)
      exact ⟨buf', (if_pos hfits).trans hwrite, fun _ => hholds, hsize⟩
    · exact ⟨buf, if_neg hfits, fun h => absurd (h text rfl) hfits, rfl⟩

theorem strncpy_nul (src : Bytes) (n : ℕ) :
    strncpy src n ++ [0] = src.take n ++ 0 :: List.replicate (n - src.length) 0 := by
  rw [strncpy, append_assoc, ← replicate_succ', replicate_succ]

/-! ## The parts of the URL -/

theorem splitProtocol_eq (url : Bytes) :
    url = ((splitProtocol url).1.map (· ++ ascii "://")).getD [] ++ (splitProtocol url).2 := by
  unfold splitProtocol
  cases hfind : strstr (ascii "://") url with
  | none => rfl
  | some i =>
    obtain ⟨⟨rest, hrest⟩, -⟩ := (strstr_eq_some (by decide)).mp hfind
    have hdrop : url.drop (i + 3) = rest := by
      rw [← drop_drop, ← hrest]
      rfl
    dsimp only
    rw [hdrop, map_some, getD_some, append_assoc, hrest, take_append_drop]

theorem hostport_append (p : Bytes) : hostport p ++ urlPath p = p :=
  prefix_iff_eq_append.mp ( takeWhile_prefix _)

theorem append_of_mem {x : UInt8} {s : Bytes} (h : x ∈ s) :
    s = s.takeWhile (· ≠ x) ++ x :: s.drop ((s.takeWhile (· ≠ x)).length + 1) := by
  induction s with
  | nil => cases h
  | cons c s ih =>
    by_cases hx : c = x
    · simp [*]
    · have hmem : x ∈ s := (List.mem_cons.mp h).resolve_left fun h => hx h.symm
      rw [takeWhile_cons_of_pos (by simpa using hx), length_cons, drop_succ_cons,
        cons_append, ← ih hmem]

theorem bracket_append {hp : Bytes} (hopen : hp.head? = some openBracket)
    (hclose : closeBracket ∈ hp) :
    hp = openBracket :: bracketHost hp ++ [closeBracket] ++
      hp.drop ((bracketHost hp).length + 2) := by
  obtain ⟨c, rest, rfl⟩ := exists_cons_of_ne_nil (show hp ≠ [] by rintro rfl; cases hopen)
  obtain rfl : c = openBracket := some.inj hopen
  have hmem : closeBracket ∈ rest := by simpa [openBracket, closeBracket] using hclose
  have hhost : bracketHost (openBracket :: rest) = rest.takeWhile (· ≠ closeBracket) := rfl
  rw [hhost, drop_succ_cons, append_assoc, cons_append, singleton_append, ← append_of_mem hmem]

theorem hostAndPort_append {hp name : Bytes} {number : Option Bytes}
    (h : hostAndPort hp = some (name, number)) :
    (hp = name ++ (number.map (colon :: ·)).getD [] ∧ behindBracket hp = []) ∨
      (hp = openBracket :: name ++ [closeBracket] ++ behindBracket hp ++
          (number.map (colon :: ·)).getD [] ∧
        (behindBracket hp ≠ [] → number = none ∧ (behindBracket hp).head? ≠ some colon)) := by
  unfold hostAndPort at h
  by_cases hopen : hp.head? = some openBracket
  · rw [if_pos hopen] at h
    by_cases hclose : closeBracket ∈ hp
    · rw [if_neg (not_not.mpr hclose)] at h
      have happend := bracket_append hopen hclose
      have hbehind : behindBracket hp =
          if (hp.drop ((bracketHost hp).length + 2)).head? = some colon then []
          else hp.drop ((bracketHost hp).length + 2) := if_pos ⟨hopen, hclose⟩
      rw [hbehind]
      generalize hp.drop ((bracketHost hp).length + 2) = rest at h happend ⊢
      right
      cases rest with
      | nil =>
        obtain ⟨rfl, rfl⟩ := Prod.mk.inj (some.inj h)
        exact ⟨happend.trans (by simp), fun hne => absurd rfl hne⟩
      | cons c port =>
        obtain ⟨rfl, hnumber⟩ := Prod.mk.inj (some.inj h)
        by_cases hc : c = colon
        · rw [if_pos hc] at hnumber
          subst hnumber hc
          rw [head?_cons, if_pos rfl]
          exact ⟨by rw [append_nil]; exact happend, fun hne => absurd rfl hne⟩
        · rw [if_neg hc] at hnumber
          subst hnumber
          have hhead : (c :: port).head? ≠ some colon := fun heq => hc (some.inj heq)
          rw [if_neg hhead]
          exact ⟨by rw [map_none, getD_none, append_nil]; exact happend, fun _ => ⟨rfl, hhead⟩⟩
    · rw [if_pos hclose] at h
      cases h
  · rw [if_neg hopen] at h
    left
    refine ⟨?_, if_neg fun hb => hopen hb.1⟩
    by_cases hcolon : colon ∈ hp
    · rw [if_pos hcolon] at h
      dsimp only at h
      have happend := append_of_mem hcolon
      generalize hp.takeWhile (· ≠ colon) = host at h happend
      generalize hp.drop (host.length + 1) = port at h happend
      by_cases hsecond : colon ∈ port
      · grind
      · grind
    · grind

/-! ## Every write -/

/-- The outputs have the documented sizes, but perhaps not the path. -/
structure OutputsFit (out : UrlBuffers) : Prop where
  protocol : Roomy 16 out.protocol
  host : Roomy 256 out.host
  port : Roomy 16 out.port
  path : Roomy 1 out.path

theorem urlPath_nil {p : Bytes} (h : slash ∉ p) : urlPath p = [] := by
  have hwhole : hostport p = p :=
    takeWhile_eq_self_iff.mpr fun c hc => decide_eq_true fun hs => h (hs ▸ hc)
  rw [urlPath, hwhole, drop_length]

theorem behindBracket_nil {hp : Bytes} (h : hostAndPort hp = none) : behindBracket hp = [] := by
  refine if_neg ?_
  rintro ⟨hopen, hclose⟩
  unfold hostAndPort at h
  rw [if_pos hopen, if_neg (not_not.mpr hclose)] at h
  generalize hp.drop ((bracketHost hp).length + 2) = rest at h
  cases rest with
  | nil => cases h
  | cons c port => cases h

theorem hostAndPort_mem {hp name : Bytes} {number : Option Bytes} {c : UInt8}
    (h : hostAndPort hp = some (name, number)) (hc : c ∈ name ++ number.getD []) : c ∈ hp := by
  have hnumber : c ∈ number.getD [] → c ∈ (number.map (colon :: ·)).getD [] := by
    cases number with
    | none => exact id
    | some t => exact mem_cons_of_mem colon
  obtain ⟨heq, -⟩ | ⟨heq, -⟩ := hostAndPort_append h
  · rw [heq]
    exact mem_append.mpr ((mem_append.mp hc).imp id hnumber)
  · rw [heq]
    refine mem_append.mpr ((mem_append.mp hc).imp (fun hc => ?_) hnumber)
    simp [hc]

theorem noNul_parts {url : Bytes} (hnul : 0 ∉ url) :
    (∀ t, (splitProtocol url).1 = some t → 0 ∉ t) ∧ 0 ∉ hostport (splitProtocol url).2 ∧
      0 ∉ urlPath (splitProtocol url).2 := by
  have hsplit := splitProtocol_eq url
  have hp : 0 ∉ (splitProtocol url).2 := fun h => hnul (hsplit ▸ mem_append_right _ h)
  rw [← hostport_append (splitProtocol url).2, mem_append, not_or] at hp
  refine ⟨fun t ht h => hnul ?_, hp⟩
  rw [hsplit, ht]
  simp [h]

theorem Roomy.of_size {n : ℕ} {buf buf' : Option Bytes} (h : Roomy n buf)
    (hsize : buf'.map List.length = buf.map List.length) : Roomy n buf' :=
  fun k hk => h k (hsize ▸ hk)

theorem writeOutput_empty (hbuf : Roomy 1 buf) :
    ∃ buf', writeOutput buf [0] = some buf' ∧ HoldsText buf' [] ∧
      buf'.map List.length = buf.map List.length :=
  @writeOutput_string buf [] [] hbuf not_mem_nil

theorem copyPath_some {p : Bytes} (hnul : 0 ∉ urlPath p) (hbuf : slash ∈ p → Roomy 2048 buf)
    (hempty : HoldsText buf []) :
    ∃ buf', copyPath buf p = some buf' ∧ ((urlPath p).length < 2048 → HoldsText buf' (urlPath p)) ∧
      buf'.map List.length = buf.map List.length := by
  by_cases hslash : slash ∈ p
  · have hroom : Roomy (((urlPath p).take 2047).length + 1 +
        (List.replicate (2047 - (urlPath p).length) (0 : UInt8)).length) buf :=
      (hbuf hslash).mono (by rw [length_take, length_replicate]; omega)
    obtain ⟨buf', hwrite, hholds, hsize⟩ :=
      writeOutput_string _ hroom fun h => hnul (mem_of_mem_take h)
    refine ⟨buf', ?_, fun hlen => ?_, hsize⟩
    · rw [copyPath, if_pos hslash, strncpy_nul, hwrite]
    · rwa [take_of_length_le (by omega)] at hholds
  · exact ⟨buf, if_neg hslash, fun _ => urlPath_nil hslash ▸ hempty, rfl⟩

section Run

variable {url : Bytes} {out : UrlBuffers} (hnul : 0 ∉ url) (hne : url ≠ []) (hfit : OutputsFit out)

include hnul hne hfit

theorem parse_inside (hpath : slash ∈ (splitProtocol url).2 → Roomy 2048 out.path) :
    ∃ r out', httpParseUrlComponents url out = some (r, out') ∧ out'.sizes = out.sizes ∧
      (r = 0 ↔ (hostAndPort (hostport (splitProtocol url).2)).isSome) ∧
      ∀ name number, hostAndPort (hostport (splitProtocol url).2) = some (name, number) →
        ¬ UrlTruncated url →
          HoldsText out'.protocol ((splitProtocol url).1.getD []) ∧ HoldsText out'.host name ∧
            HoldsText out'.port (number.getD []) ∧
              HoldsText out'.path (urlPath (splitProtocol url).2) := by
  obtain ⟨hprotocolNul, hhostportNul, hpathNul⟩ := noNul_parts hnul
  obtain ⟨protocol, hprotocol, hprotocol₀, hprotocolSize⟩ :=
    writeOutput_empty (hfit.protocol.mono (by decide))
  obtain ⟨host, hhost, hhost₀, hhostSize⟩ := writeOutput_empty (hfit.host.mono (by decide))
  obtain ⟨port, hport, hport₀, hportSize⟩ := writeOutput_empty (hfit.port.mono (by decide))
  obtain ⟨path, hpathw, hpath₀, hpathSize⟩ := writeOutput_empty hfit.path
  obtain ⟨protocol', hprotocol', hprotocolHolds, hprotocolSize'⟩ :=
    copyComponent_some (hfit.protocol.of_size hprotocolSize) hprotocol₀ hprotocolNul
  obtain ⟨path', hpath', hpathHolds, hpathSize'⟩ :=
    copyPath_some hpathNul (fun h => (hpath h).of_size hpathSize) hpath₀
  unfold httpParseUrlComponents
  rw [if_neg hne, hprotocol, hhost, hport, hpathw]
  simp only [bind_eq_bind, bind_some, hprotocol', hpath']
  cases hparts : hostAndPort (hostport (splitProtocol url).2) with
  | none =>
    refine ⟨-1, _, rfl, ?_, by decide, fun _ _ h => by cases h⟩
    simp [UrlOutputs.sizes, hprotocolSize', hprotocolSize, hhostSize, hportSize, hpathSize',
      hpathSize]
  | some parts =>
    obtain ⟨name, number⟩ := parts
    have hpartsNul (c : UInt8) (hc : c ∈ name ++ number.getD []) : c ≠ 0 := by
      rintro rfl
      exact hhostportNul (hostAndPort_mem hparts hc)
    obtain ⟨host', hhost', hhostHolds, hhostSize'⟩ :=
      copyComponent_some (hfit.host.of_size hhostSize) hhost₀
        (show ∀ t, some name = some t → 0 ∉ t by
          rintro t ⟨⟩ h; exact hpartsNul 0 (mem_append_left _ h) rfl)
    obtain ⟨port', hport', hportHolds, hportSize'⟩ :=
      copyComponent_some (hfit.port.of_size hportSize) hport₀
        (show ∀ t, number = some t → 0 ∉ t by
          rintro t rfl h; exact hpartsNul 0 (mem_append_right _ h) rfl)
    simp only [hhost', hport', bind_some]
    refine ⟨0, _, rfl, ?_, by simp, ?_⟩
    · simp [UrlOutputs.sizes, hprotocolSize', hprotocolSize, hhostSize', hhostSize, hportSize',
        hportSize, hpathSize', hpathSize]
    · rintro _ _ ⟨⟩ hfits
      simp only [UrlTruncated, hparts, not_or, not_exists, not_and, not_le,
        Option.some.injEq, Prod.mk.injEq] at hfits
      obtain ⟨hprotocolFits, hhostFits, hpathFits⟩ := hfits
      obtain ⟨hnameFits, hnumberFits⟩ := hhostFits name number ⟨rfl, rfl⟩
      exact ⟨hprotocolHolds hprotocolFits, hhostHolds (by rintro t ⟨⟩; exact hnameFits),
        hportHolds hnumberFits, hpathHolds hpathFits⟩

theorem parse_outside (hslash : slash ∈ (splitProtocol url).2) {n : ℕ}
    (hsize : out.path.map List.length = some n) (hshort : n < 2048) :
    httpParseUrlComponents url out = none := by
  obtain ⟨hprotocolNul, -, -⟩ := noNul_parts hnul
  obtain ⟨protocol, hprotocol, hprotocol₀, hprotocolSize⟩ :=
    writeOutput_empty (hfit.protocol.mono (by decide))
  obtain ⟨host, hhost, -, -⟩ := writeOutput_empty (hfit.host.mono (by decide))
  obtain ⟨port, hport, -, -⟩ := writeOutput_empty (hfit.port.mono (by decide))
  obtain ⟨path, hpath, -, hpathSize⟩ := writeOutput_empty hfit.path
  obtain ⟨protocol', hprotocol', -, -⟩ :=
    copyComponent_some (hfit.protocol.of_size hprotocolSize) hprotocol₀ hprotocolNul
  obtain ⟨mem, hmem, hlen⟩ := map_eq_some_iff.mp (hpathSize.trans hsize)
  have hover : copyPath path (splitProtocol url).2 = none := by
    rw [copyPath, if_pos hslash, hmem]
    refine writeOutput_none ?_
    rw [strncpy_nul, length_append, length_cons, length_take, length_replicate]
    omega
  unfold httpParseUrlComponents
  rw [if_neg hne, hprotocol, hhost, hport, hpath]
  simp [bind_eq_bind, bind_some, hover, bind_none]

end Run

/-! ## The callers -/

variable {out : UrlBuffers}

theorem urlCallers_fit (h : out.sizes ∈ urlCallers) : OutputsFit out := by
  obtain ⟨protocol, host, port, path⟩ := out
  simp only [UrlOutputs.sizes, urlCallers, List.mem_cons, not_mem_nil, or_false,
    UrlOutputs.mk.injEq] at h
  constructor
  all_goals
    intro k hk
    obtain ⟨h₁, h₂, h₃, h₄⟩ | ⟨h₁, h₂, h₃, h₄⟩ | ⟨h₁, h₂, h₃, h₄⟩ := h
    all_goals simp_all <;> omega

theorem callers_inside_iff {url : Bytes} (hnul : 0 ∉ url) :
    (∀ out : UrlBuffers, out.sizes ∈ urlCallers → (httpParseUrlComponents url out).isSome) ↔
      slash ∉ (splitProtocol url).2 := by
  by_cases hne : url = []
  · subst hne
    exact iff_of_true (fun out _ => rfl) (by decide)
  constructor
  · intro h hslash
    let out : UrlBuffers := ⟨some (List.replicate 16 0), some (List.replicate 256 0),
      some (List.replicate 16 0), some (List.replicate 1024 0)⟩
    have hsizes : out.sizes = ⟨some 16, some 256, some 16, some 1024⟩ := by
      simp only [out, UrlOutputs.sizes, map_some, length_replicate]
    have hcaller : out.sizes ∈ urlCallers := hsizes ▸ mem_cons_self
    have hsome := h out hcaller
    rw [parse_outside hnul hne (urlCallers_fit hcaller) hslash
      (show out.path.map List.length = some 1024 from congrArg UrlOutputs.path hsizes)
      (by decide)] at hsome
    cases hsome
  · intro hslash out hcaller
    obtain ⟨r, out', heq, -, -, -⟩ :=
      parse_inside hnul hne (urlCallers_fit hcaller) fun h => absurd h hslash
    rw [heq]
    rfl

theorem dropped_missing {protocol first name rest host port : Bytes} (hrest : rest ≠ [])
    (hhead : rest.head? ≠ some colon)
    (hfirst : first = protocol ∨ protocol = [] ∧ first = ascii "://" ∨
      protocol = ascii "://" ∧ first = [])
    (hhost : host = name ∨ host = openBracket :: name ++ [closeBracket])
    (hport : port = [colon] ∨ port = []) :
    first ++ (openBracket :: name ++ [closeBracket] ++ rest) ≠ protocol ++ host ++ port := by
  intro heq
  have hhostLength : host.length ≤ name.length + 2 := by
    obtain rfl | rfl := hhost
    · omega
    · simp
  have hportLength : port.length ≤ 1 := by
    obtain rfl | rfl := hport
    · exact le_refl 1
    · exact Nat.zero_le 1
  have hlength := congrArg List.length heq
  simp only [length_append, length_cons, length_nil] at hlength
  obtain rfl | ⟨rfl, rfl⟩ | ⟨rfl, rfl⟩ := hfirst
  · rw [append_assoc first] at heq
    have hrestEq := append_cancel_left heq
    obtain rfl | rfl := hhost
    · omega
    · have hportEq := append_cancel_left hrestEq
      obtain rfl | rfl := hport
      · exact hhead (hportEq ▸ rfl)
      · exact hrest hportEq
  · have hscheme : (ascii "://").length = 3 := rfl
    rw [hscheme, length_nil] at hlength
    omega
  · exact absurd (List.cons.inj heq).1 (by decide)

theorem denotes_of_parts {url name : Bytes} {number : Option Bytes}
    (hparts : hostAndPort (hostport (splitProtocol url).2) = some (name, number)) :
    (UrlText.mk ((splitProtocol url).1.getD []) name (number.getD [])
        (urlPath (splitProtocol url).2)).Denotes url ↔
      behindBracket (hostport (splitProtocol url).2) = [] := by
  have hurl := splitProtocol_eq url
  have hp := hostport_append (splitProtocol url).2
  generalize (splitProtocol url).1 = scheme at hurl ⊢
  generalize (splitProtocol url).2 = p at hurl hp hparts ⊢
  have hscheme : (scheme.map (· ++ ascii "://")).getD [] = scheme.getD [] ++ ascii "://" ∨
      scheme.getD [] = [] ∧ (scheme.map (· ++ ascii "://")).getD [] = [] := by
    cases scheme with
    | none => exact .inr ⟨rfl, rfl⟩
    | some scheme => exact .inl rfl
  have hnumber : (number.map (colon :: ·)).getD [] = colon :: number.getD [] ∨
      number.getD [] = [] ∧ (number.map (colon :: ·)).getD [] = [] := by
    cases number with
    | none => exact .inr ⟨rfl, rfl⟩
    | some number => exact .inl rfl
  constructor
  · rintro ⟨protocol, host, port, hprotocol, hhost, hport, heq⟩
    by_contra hbehind
    obtain ⟨-, hnil⟩ | ⟨hform, hnone⟩ := hostAndPort_append hparts
    · exact hbehind hnil
    · obtain ⟨rfl, hhead⟩ := hnone hbehind
      rw [map_none, getD_none, append_nil] at hform
      have hcancel : (scheme.map (· ++ ascii "://")).getD [] ++
          (openBracket :: name ++ [closeBracket] ++ behindBracket (hostport p)) =
            protocol ++ host ++ port := by
        refine (append_left_inj (urlPath p)).mp ?_
        rw [← heq, ← hform, append_assoc, hp, ← hurl]
      refine dropped_missing hbehind hhead ?_ hhost (hport.imp id And.right) hcancel
      obtain hscheme | ⟨hnil, hscheme⟩ := hscheme
      · obtain rfl | ⟨hnil, rfl⟩ := hprotocol
        · exact .inl hscheme
        · dsimp only at hnil
          rw [hnil] at hscheme
          exact .inr (.inl ⟨rfl, hscheme⟩)
      · obtain rfl | ⟨-, rfl⟩ := hprotocol
        · simp [*]
        · exact .inl hscheme
  · intro hbehind
    obtain ⟨hform, -⟩ | ⟨hform, -⟩ := hostAndPort_append hparts
    · refine ⟨_, name, _, hscheme, .inl rfl, hnumber, ?_⟩
      rw [append_assoc _ name, ← hform, append_assoc, hp]
      exact hurl
    · rw [hbehind, append_nil] at hform
      refine ⟨_, _, _, hscheme, .inr rfl, hnumber, ?_⟩
      rw [append_assoc _ (openBracket :: name ++ [closeBracket]), ← hform, append_assoc, hp]
      exact hurl

theorem read_of_holds {protocol host port path : Bytes} (hsizes : out.sizes = documentedSizes)
    (hprotocol : HoldsText out.protocol protocol) (hhost : HoldsText out.host host)
    (hport : HoldsText out.port port) (hpath : HoldsText out.path path) :
    out.read = ⟨protocol, host, port, path⟩ := by
  have hread {buf : Option Bytes} {n : ℕ} {text : Bytes} (hsize : buf.map List.length = some n)
      (h : HoldsText buf text) : cstr (buf.getD []) = text := by
    obtain ⟨mem, rfl, -⟩ := map_eq_some_iff.mp hsize
    exact h mem rfl
  simp only [UrlOutputs.sizes, documentedSizes, UrlOutputs.mk.injEq] at hsizes
  obtain ⟨h₁, h₂, h₃, h₄⟩ := hsizes
  rw [UrlOutputs.read, hread h₁ hprotocol, hread h₂ hhost, hread h₃ hport, hread h₄ hpath]

theorem documented_fit (h : out.sizes = documentedSizes) :
    OutputsFit out ∧ Roomy 2048 out.path := by
  simp only [UrlOutputs.sizes, documentedSizes, UrlOutputs.mk.injEq] at h
  obtain ⟨h₁, h₂, h₃, h₄⟩ := h
  have hroomy {buf : Option Bytes} {n : ℕ} (hsize : buf.map List.length = some n) : Roomy n buf :=
    fun k hk => (some.inj (hsize.symm.trans hk)).le
  exact ⟨⟨hroomy h₁, hroomy h₂, hroomy h₃, (hroomy h₄).mono (by decide)⟩, hroomy h₄⟩

theorem denotes_iff {url : Bytes} (hnul : 0 ∉ url) :
    (∀ out : UrlBuffers, out.sizes = documentedSizes → ∀ out',
      httpParseUrlComponents url out = some (0, out') → ¬ UrlTruncated url →
        out'.read.Denotes url) ↔
      UrlTruncated url ∨ behindBracket (hostport (splitProtocol url).2) = [] := by
  by_cases hne : url = []
  · subst hne
    refine iff_of_true (fun out _ out' hparse => ?_) (.inr rfl)
    cases (some.inj hparse)
  have hrun (out : UrlBuffers) (hsizes : out.sizes = documentedSizes) :=
    parse_inside hnul hne (documented_fit hsizes).1 fun _ => (documented_fit hsizes).2
  constructor
  · intro h
    by_cases hfits : UrlTruncated url
    · exact .inl hfits
    cases hparts : hostAndPort (hostport (splitProtocol url).2) with
    | none => exact .inr (behindBracket_nil hparts)
    | some parts =>
      obtain ⟨name, number⟩ := parts
      let out : UrlBuffers := ⟨some (List.replicate 16 0), some (List.replicate 256 0),
        some (List.replicate 16 0), some (List.replicate 2048 0)⟩
      have hsizes : out.sizes = documentedSizes := by
        simp only [out, UrlOutputs.sizes, documentedSizes, map_some, length_replicate]
      obtain ⟨r, out', heq, hsizes', hr, hholds⟩ := hrun out hsizes
      obtain rfl := hr.mpr (hparts ▸ rfl)
      obtain ⟨h₁, h₂, h₃, h₄⟩ := hholds name number hparts hfits
      have hdenotes := h out hsizes out' heq hfits
      rw [read_of_holds (hsizes'.trans hsizes) h₁ h₂ h₃ h₄, denotes_of_parts hparts] at hdenotes
      exact .inr hdenotes
  · intro h out hsizes out' hparse hfits
    obtain ⟨r, out₁, heq, hsizes', hr, hholds⟩ := hrun out hsizes
    obtain ⟨rfl, rfl⟩ := Prod.mk.inj (some.inj (hparse.symm.trans heq))
    obtain ⟨⟨name, number⟩, hparts⟩ := isSome_iff_exists.mp (hr.mp rfl)
    obtain ⟨h₁, h₂, h₃, h₄⟩ := hholds name number hparts hfits
    rw [read_of_holds (hsizes'.trans hsizes) h₁ h₂ h₃ h₄, denotes_of_parts hparts]
    exact h.resolve_left hfits

/-- Every caller's buffers hold what is written and the components denote the URL, if and only
    if there is no slash behind the scheme, and nothing between the bracket of a host and its
    port unless a component is cut. -/
theorem urlComponents_iff {url : Bytes} (hnul : 0 ∉ url) :
    ((∀ out : UrlBuffers, out.sizes ∈ urlCallers → (httpParseUrlComponents url out).isSome) ∧
      ∀ out : UrlBuffers, out.sizes = documentedSizes → ∀ out',
        httpParseUrlComponents url out = some (0, out') → ¬ UrlTruncated url →
          out'.read.Denotes url) ↔
      slash ∉ (splitProtocol url).2 ∧
        (UrlTruncated url ∨ behindBracket (hostport (splitProtocol url).2) = []) :=
  and_congr (callers_inside_iff hnul) (denotes_iff hnul)

/-- A host with its scheme and port. -/
theorem urlComponents_plain : (∀ out : UrlBuffers, out.sizes ∈ urlCallers →
      (httpParseUrlComponents (ascii "https://h:8443") out).isSome) ∧
    ∀ out : UrlBuffers, out.sizes = documentedSizes → ∀ out',
      httpParseUrlComponents (ascii "https://h:8443") out = some (0, out') →
        ¬ UrlTruncated (ascii "https://h:8443") → out'.read.Denotes (ascii "https://h:8443") :=
  (urlComponents_iff (by decide)).mpr ⟨by decide, .inr (by decide)⟩

/-- A path does not fit the array of `get_server_address`. -/
theorem urlPath_overflows : ∃ out : UrlBuffers, out.sizes ∈ urlCallers ∧
      httpParseUrlComponents (ascii "http://h/") out = none :=
  ⟨⟨some (List.replicate 16 0), some (List.replicate 256 0), some (List.replicate 16 0),
    some (List.replicate 1024 0)⟩, by decide +kernel, by decide +kernel⟩

end Apackage.Rtp2httpd
