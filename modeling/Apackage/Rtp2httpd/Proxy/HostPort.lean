import Apackage.Rtp2httpd.Proxy.Rewrite

/-
  Hosts with ports (`format_host_port_for_url` and `parse_host_port` in `utils.c`).

  Model. A default port of 0 stands for every default that is not positive. A call of
  `parse_host_port` without a port pointer is `parseHostName`.

  What is formatted is parsed back if and only if the host is not empty, does not start with a
  bracket and has no closing bracket next to a colon (`formatHostPort_parse`).
-/

namespace Apackage.Rtp2httpd

open List

/-- `parse_host_port` where the port is not asked for; none is -1. -/
def parseHostName (hostSize : ℕ) (input : Bytes) : Option Bytes :=
  if input.head? = some openBracket then
    if closeBracket ∉ input then none
    else
      let host := (input.drop 1).takeWhile (· ≠ closeBracket)
      if host = [] ∨ hostSize ≤ host.length then none
      else
        match input.drop (host.length + 2) with
        | [] => some host
        | c :: _ => if c = colon then some host else none
  else
    let host := input.takeWhile (· ≠ colon)
    match input.drop host.length with
    | [] => if input = [] ∨ hostSize ≤ input.length then none else some input
    | _ :: port =>
      if colon ∈ port then if hostSize ≤ input.length then none else some input
      else if host = [] ∨ hostSize ≤ host.length then none
      else some host

/-- A host that is formatted in a way that can be read back. -/
structure PlainHost (host : Bytes) : Prop where
  ne_nil : host ≠ []
  bare : host.head? ≠ some openBracket
  closed : colon ∈ host → closeBracket ∉ host

/-! ## What is accepted -/

variable {r : Bytes × Option ℕ}

variable {host : Bytes}

theorem parsePort_range {port : Bytes} {p : ℕ} (h : parsePort host port = some r)
    (hp : r.2 = some p) : 0 < p ∧ p ≤ 65535 := by
  unfold parsePort at h
  split at h
  · cases h
    cases hp
  · split at h
    · split at h
      · rename_i hrange
        cases h
        obtain rfl := Option.some.inj hp
        omega
      · cases h
    · cases h

variable {hostSize : ℕ} {input : Bytes}

theorem parseHostPort_range {p : ℕ} (h : parseHostPort hostSize input = some r) (hp : r.2 = some p) :
    0 < p ∧ p ≤ 65535 := by
  unfold parseHostPort at h
  split at h
  · split at h
    · cases h
    · dsimp only at h
      split at h
      · cases h
      · split at h
        · cases h
          cases hp
        · split at h
          · exact parsePort_range h hp
          · cases h
  · dsimp only at h
    split at h
    · split at h
      · cases h
      · cases h
        cases hp
    · split at h
      · split at h
        · cases h
        · cases h
          cases hp
      · split at h
        · cases h
        · exact parsePort_range h hp

/-! ## What is written -/

/-- What stands behind the host. -/
def portSuffix (port defaultPort : ℕ) : Bytes :=
  if 0 < defaultPort ∧ port = defaultPort then [] else colon :: printDecimal port

def urlHost (host : Bytes) : Bytes :=
  if hostNeedsBrackets host then openBracket :: host ++ [closeBracket] else host

theorem formatHostPort_eq (host : Bytes) (port defaultPort outSize : ℕ) :
    formatHostPortForUrl host port defaultPort outSize = if 512 ≤ (urlHost host).length ∨
          outSize ≤ (urlHost host ++ portSuffix port defaultPort).length then none
      else some (urlHost host ++ portSuffix port defaultPort) := by
  have hsuffix : ∀ bracketed : Bytes, (if 0 < defaultPort ∧ port = defaultPort then bracketed
        else bracketed ++ colon :: printDecimal port) = bracketed ++ portSuffix port defaultPort := by
    intro bracketed
    unfold portSuffix
    split
    · rw [append_nil]
    · rfl
  unfold formatHostPortForUrl formatHostForUrl
  rw [← urlHost]
  by_cases hhost : 512 ≤ (urlHost host).length
  · simp [*]
  · simp [*]

theorem length_urlHost_le (host : Bytes) : (urlHost host).length ≤ host.length + 2 := by
  unfold urlHost
  split
  · rw [cons_append, length_cons, length_append, length_singleton]
  · omega

variable {port : ℕ}

theorem length_printPort (h : port ≤ 65535) : (printDecimal port).length ≤ 5 := by
  rw [length_printDecimal]
  have hlog : Nat.log 10 port < 5 :=
    Nat.log_lt_of_lt_pow' (by decide) (Nat.lt_of_le_of_lt h (by decide))
  omega

variable (defaultPort : ℕ)

theorem formatHostPort_fits {outSize : ℕ} (hhost : host.length < httpProxyHostSize)
    (hport : port ≤ 65535) (hout : httpProxyHostSize + 16 ≤ outSize) :
    formatHostPortForUrl host port defaultPort outSize =
      some (urlHost host ++ portSuffix port defaultPort) := by
  have hlen := length_urlHost_le host
  have hdigits := length_printPort hport
  have hsuffix : (portSuffix port defaultPort).length ≤ 6 := by
    unfold portSuffix
    split
    · exact Nat.zero_le 6
    · rw [length_cons]
      omega
  unfold httpProxyHostSize at *
  rw [formatHostPort_eq, if_neg]
  rw [length_append]
  omega

/-! ## What is read back -/

theorem parsePort_suffix (hport : 0 < port ∧ port ≤ 65535) :
    parsePort host (printDecimal port) = some (host, some port) := by
  unfold parsePort
  rw [if_neg (printDecimal_ne_nil port), strtol_printDecimal (by omega)]
  exact if_pos (by omega)

theorem not_mem_printDecimal {c : UInt8} (hc : isDigit c = false) (n : ℕ) :
    c ∉ printDecimal n := fun h => by
  rw [printDecimal_isDigit h] at hc
  cases hc

theorem not_mem_portSuffix {c : UInt8} (hc : isDigit c = false) (hcolon : c ≠ colon)
    (port defaultPort : ℕ) : c ∉ portSuffix port defaultPort := by
  unfold portSuffix
  split
  · exact not_mem_nil
  · exact not_mem_cons_of_ne_of_not_mem hcolon (not_mem_printDecimal hc port)

/-- The port that is read back; none if it was left out. -/
def portRead (port defaultPort : ℕ) : Option ℕ :=
  if 0 < defaultPort ∧ port = defaultPort then none else some port

theorem parse_name (hport : 0 < port ∧ port ≤ 65535) (hfits : host.length < hostSize)
    (hne : host ≠ []) (hbare : host.head? ≠ some openBracket) (hname : colon ∉ host) :
    parseHostPort hostSize (host ++ portSuffix port defaultPort) =
      some (host, portRead port defaultPort) := by
  have hhead : (host ++ portSuffix port defaultPort).head? ≠ some openBracket := by
    simp [*]
  have hall : ∀ c ∈ host, decide (c ≠ colon) = true := fun c hc =>
    decide_eq_true fun h => hname (h ▸ hc)
  unfold parseHostPort
  rw [if_neg hhead]
  unfold portSuffix portRead
  split
  · have hwhole : host.takeWhile (· ≠ colon) = host := takeWhile_eq_self_iff.mpr hall
    rw [append_nil]
    simp only [hwhole, drop_length]
    exact if_neg (not_or.mpr ⟨hne, by omega⟩)
  · have hstop : (host ++ colon :: printDecimal port).takeWhile (· ≠ colon) = host := by
      rw [takeWhile_append_of_pos hall, takeWhile_cons_of_neg (by simp), append_nil]
    simp only [hstop, drop_left]
    rw [if_neg (not_mem_printDecimal (by decide) port),
      if_neg (not_or.mpr ⟨hne, by omega⟩), parsePort_suffix hport]

theorem parse_bracketed (hport : 0 < port ∧ port ≤ 65535) (hfits : host.length < hostSize)
    (hne : host ≠ []) (hclosed : closeBracket ∉ host) :
    parseHostPort hostSize
        (openBracket :: host ++ [closeBracket] ++ portSuffix port defaultPort) =
      some (host, portRead port defaultPort) := by
  have hall : ∀ c ∈ host, decide (c ≠ closeBracket) = true := fun c hc =>
    decide_eq_true fun h => hclosed (h ▸ hc)
  have hstop : (host ++ closeBracket :: portSuffix port defaultPort).takeWhile
      (· ≠ closeBracket) = host := by
    rw [takeWhile_append_of_pos hall, takeWhile_cons_of_neg (by simp), append_nil]
  have hrest : (openBracket :: (host ++ closeBracket :: portSuffix port defaultPort)).drop
      (host.length + 2) = portSuffix port defaultPort := by
    rw [drop_succ_cons, drop_length_add_append]
    rfl
  rw [append_assoc, cons_append, singleton_append]
  unfold parseHostPort
  rw [if_pos head?_cons, if_neg (by simp)]
  simp only [drop_succ_cons, drop_zero, hstop, hrest]
  rw [if_neg (not_or.mpr ⟨hne, by omega⟩)]
  unfold portSuffix portRead
  by_cases hdefault : 0 < defaultPort ∧ port = defaultPort
  · rw [if_pos hdefault, if_pos hdefault]
  · rw [if_neg hdefault, if_neg hdefault]
    dsimp only
    rw [if_pos rfl, parsePort_suffix hport]

theorem parse_host (h : parseHostPort hostSize input = some r) :
    r.1 ≠ [] ∧ (input.head? = some openBracket → closeBracket ∈ input ∧ closeBracket ∉ r.1) := by
  unfold parseHostPort at h
  split at h
  · split at h
    · cases h
    · rename_i hmem
      dsimp only at h
      split at h
      · cases h
      · rename_i hne
        have hr : r.1 = (input.drop 1).takeWhile (· ≠ closeBracket) := by
          split at h
          · cases h
            rfl
          · split at h
            · exact (parsePort_fst h).1
            · cases h
        rw [hr]
        refine ⟨fun h => hne (.inl h), fun _ => ⟨by simpa using hmem, fun hin => ?_⟩⟩
        simpa using mem_takeWhile_imp hin
  · rename_i hhead
    refine ⟨?_, fun h => absurd h hhead⟩
    dsimp only at h
    split at h
    · split at h
      · cases h
      · rename_i hne
        cases h
        exact fun h => hne (.inl h)
    · rename_i hrest
      split at h
      · split at h
        · cases h
        · cases h
          rintro rfl
          simp at hrest
      · split at h
        · cases h
        · rename_i hne
          rw [(parsePort_fst h).1]
          exact fun h => hne (.inl h)

theorem portRead_getD (port defaultPort : ℕ) :
    (portRead port defaultPort).getD defaultPort = port := by
  unfold portRead
  split
  · tauto
  · rfl

theorem parse_written_iff (hport : 0 < port ∧ port ≤ 65535) (hfits : host.length < hostSize) :
    (∃ p, parseHostPort hostSize (urlHost host ++ portSuffix port defaultPort) = some (host, p) ∧
      p.getD defaultPort = port) ↔ PlainHost host := by
  constructor
  · rintro ⟨p, hp, -⟩
    obtain ⟨hne, hbracket⟩ := parse_host hp
    refine ⟨hne, ?_, ?_⟩
    · intro hhead
      have hwritten : urlHost host = host := if_neg (by simp [hostNeedsBrackets, hhead])
      rw [hwritten, head?_append_of_ne_nil _ hne] at hbracket
      obtain ⟨hmem, hclosed⟩ := hbracket hhead
      exact (mem_append.mp hmem).elim hclosed
        (not_mem_portSuffix (by decide) (by decide) port defaultPort)
    · intro hcolon
      by_cases hhead : host.head? = some openBracket
      · have hwritten : urlHost host = host := if_neg (by simp [hostNeedsBrackets, hhead])
        rw [hwritten, head?_append_of_ne_nil _ hne] at hbracket
        exact (hbracket hhead).2
      · have hwritten : urlHost host = openBracket :: host ++ [closeBracket] :=
          if_pos (by simp [hostNeedsBrackets, hne, hhead, hcolon])
        rw [hwritten] at hbracket
        exact (hbracket rfl).2
  · rintro ⟨hne, hbare, hclosed⟩
    refine ⟨portRead port defaultPort, ?_, portRead_getD port defaultPort⟩
    by_cases hcolon : colon ∈ host
    · have hwritten : urlHost host = openBracket :: host ++ [closeBracket] :=
        if_pos (by simp [hostNeedsBrackets, hne, hbare, hcolon])
      rw [hwritten]
      exact parse_bracketed defaultPort hport hfits hne (hclosed hcolon)
    · have hwritten : urlHost host = host := if_neg (by simp [hostNeedsBrackets, hcolon])
      rw [hwritten]
      exact parse_name defaultPort hport hfits hne hbare hcolon

/-- A host of the callers' buffers is formatted; what is formatted is parsed back to the host and
    the port, the default if it was left out, if and only if the host is plain; and no accepted
    text has a port outside of 1 to 65535. -/
theorem formatHostPort_parse (host : Bytes) (port defaultPort hostSize outSize : ℕ)
    (hport : 0 < port ∧ port ≤ 65535) (hfits : host.length < hostSize) :
    (hostSize ≤ httpProxyHostSize → httpProxyHostSize + 16 ≤ outSize →
      ∃ out, formatHostPortForUrl host port defaultPort outSize = some out) ∧
    (∀ out, formatHostPortForUrl host port defaultPort outSize = some out →
      ((∃ p, parseHostPort hostSize out = some (host, p) ∧ p.getD defaultPort = port) ↔
        PlainHost host)) ∧
    ∀ input r p, parseHostPort hostSize input = some r → r.2 = some p → 0 < p ∧ p ≤ 65535 := by
  refine ⟨fun hsize hout => ?_, fun out hout => ?_, fun _ _ _ h hp => parseHostPort_range h hp⟩
  · exact ⟨_, formatHostPort_fits defaultPort (by omega) hport.2 hout⟩
  · rw [formatHostPort_eq] at hout
    split at hout
    · cases hout
    · obtain rfl := Option.some.inj hout
      exact parse_written_iff defaultPort hport hfits

/-- A bare IPv6 literal, with its port and with the default. -/
theorem formatHostPort_parse_literal :
    ∃ out, formatHostPortForUrl (ascii "2001:db8::1") 8080 80 272 = some out ∧
      ∃ p, parseHostPort 256 out = some (ascii "2001:db8::1", p) ∧ p.getD 80 = 8080 := by
  obtain ⟨hwrite, hread, -⟩ := formatHostPort_parse (ascii "2001:db8::1") 8080 80 256 272
    (by decide) (by decide)
  obtain ⟨out, hout⟩ := hwrite (by decide) (by decide)
  exact ⟨out, hout, (hread out hout).mpr ⟨by decide, by decide, by decide⟩⟩

/-- A host that is accepted and not read back, and a port that is accepted unread. -/
theorem formatHostPort_unread : parseHostPort 256 (ascii "[[x]") = some (ascii "[x", none) ∧
      formatHostPortForUrl (ascii "[x") 8080 80 272 = some (ascii "[x:8080") ∧
      parseHostPort 256 (ascii "[x:8080") = none ∧
      parseHostName 256 (ascii "h:70000") = some (ascii "h") := by
  decide

end Apackage.Rtp2httpd
