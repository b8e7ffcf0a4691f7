import Mathlib.Data.Finset.Card
import Apackage.Rtp2httpd.Proxy.Target
import Apackage.Rtp2httpd.Status.Clients

/-
  Blocked client addresses (`status_block_client_addr`, `status_client_addr_is_blocked` and
  `extract_client_ip` in `status.c`).

  Model. The calls are made one after the other, each with the time it reads. An IP is compared
  without regard to case; its key is its text in lower case.

  A slot is taken again when its entry has expired. A full table gives up the entry that was written
  first: an address stays blocked unless as many others as the table has slots were blocked in the
  same millisecond or later (`blocking_effective`).
-/

namespace Apackage.Rtp2httpd

open List Option

def statusBlockedIpLen : ℕ := 64

/-- The IPv4-mapped prefix. -/
def mappedPrefix : Bytes := ascii "::ffff:"

/-- The text of the address without port and brackets. -/
def clientIpText (clientAddr : Bytes) : Option Bytes :=
  if clientAddr.head? = some openBracket then
    if closeBracket ∉ clientAddr then none
    else
      let text := (clientAddr.drop 1).takeWhile (· ≠ closeBracket)
      if text = [] ∨ statusBlockedIpLen ≤ text.length then none else some text
  else if clientAddr.count colon = 1 then
    let text := clientAddr.takeWhile (· ≠ colon)
    if text = [] ∨ statusBlockedIpLen ≤ text.length then none else some text
  else some (clientAddr.take (statusBlockedIpLen - 1))

/-- `extract_client_ip`; none is -1. -/
def extractClientIp (clientAddr : Bytes) : Option Bytes :=
  if clientAddr = [] ∨ clientAddr = ascii "unknown" then none
  else
    match clientIpText clientAddr with
    | none => none
    | some text =>
      let ip :=
        if hasPrefixNoCase mappedPrefix text ∧ colon ∉ text.drop 7 then text.drop 7 else text
      if ip = [] then none else some ip

def statusBlockClientAddr (clientAddr : Bytes) (nowMs : ℤ) (ips : List BlockedIp) :
    List BlockedIp :=
  match extractClientIp clientAddr with
  | none => ips
  | some ip => blockIp ip nowMs ips

/-- What `status_client_addr_is_blocked` answers for an IP: `retry_after_sec` if it is
    blocked. -/
def retryAfterSec (ip : Bytes) (nowMs : ℤ) (ips : List BlockedIp) : Option ℤ :=
  match ips.find? fun e => e.ip ≠ [] && sameIp e ip with
  | none => none
  | some e =>
    if e.expiresAtMs - nowMs ≤ 0 then none
    else some (max 1 ((e.expiresAtMs - nowMs + 999) / 1000))

/-- `status_client_addr_is_blocked`: the answer, and the table after it. -/
def statusClientAddrIsBlocked (clientAddr : Bytes) (nowMs : ℤ) (ips : List BlockedIp) :
    Option ℤ × List BlockedIp :=
  match extractClientIp clientAddr with
  | none => (none, ips)
  | some ip => (retryAfterSec ip nowMs ips, checkIp ip nowMs ips)

inductive BlocklistCall
  | block (clientAddr : Bytes) (nowMs : ℤ)
  | check (clientAddr : Bytes) (nowMs : ℤ)
  deriving DecidableEq

namespace BlocklistCall

def nowMs : BlocklistCall → ℤ
  | .block _ nowMs => nowMs
  | .check _ nowMs => nowMs

def run (ips : List BlockedIp) : BlocklistCall → List BlockedIp
  | .block clientAddr nowMs => statusBlockClientAddr clientAddr nowMs ips
  | .check clientAddr nowMs => (statusClientAddrIsBlocked clientAddr nowMs ips).2

/-- The IP that the call blocks. -/
def blocks : BlocklistCall → Option Bytes
  | .block clientAddr _ => extractClientIp clientAddr
  | .check _ _ => none

end BlocklistCall

def blockedIpsAfter (calls : List BlocklistCall) : List BlockedIp :=
  calls.foldl BlocklistCall.run statusInit.blockedIps

/-! ## What was blocked -/

def ipKey (ip : Bytes) : Bytes := ip.map toLower

def BlockedAt (calls : List BlocklistCall) (ip : Bytes) (t : ℤ) : Prop :=
  ∃ c ∈ calls, c.blocks = some ip ∧ c.nowMs = t

/-- The keys of the other IPs that were blocked at time `t` or later. -/
def othersSince (calls : List BlocklistCall) (ip : Bytes) (t : ℤ) : Finset Bytes :=
  ((calls.filter (t ≤ ·.nowMs)).filterMap fun c => c.blocks.map ipKey).toFinset.erase (ipKey ip)

variable {ip : Bytes}

theorem mem_othersSince {calls : List BlocklistCall} {key : Bytes} {t : ℤ} :
    key ∈ othersSince calls ip t ↔
      key ≠ ipKey ip ∧ ∃ ip' s, BlockedAt calls ip' s ∧ t ≤ s ∧ ipKey ip' = key := by
  unfold othersSince BlockedAt
  rw [Finset.mem_erase, List.mem_toFinset, mem_filterMap]
  refine and_congr_right fun _ => ?_
  constructor
  · rintro ⟨c, hc, hkey⟩
    obtain ⟨hmem, htime⟩ := mem_filter.mp hc
    obtain ⟨ip', hblocks, hkey⟩ := Option.map_eq_some_iff.mp hkey
    exact ⟨ip', c.nowMs, ⟨c, hmem, hblocks, rfl⟩, of_decide_eq_true htime, hkey⟩
  · grind

theorem BlockedAt.concat {calls : List BlocklistCall} {t : ℤ} (h : BlockedAt calls ip t)
    (c : BlocklistCall) : BlockedAt (calls ++ [c]) ip t := by
  obtain ⟨c', hc', h⟩ := h
  exact ⟨c', mem_append_left _ hc', h⟩

theorem othersSince_concat (calls : List BlocklistCall) (c : BlocklistCall) (ip : Bytes) (t : ℤ) :
    othersSince calls ip t ⊆ othersSince (calls ++ [c]) ip t := by
  intro key hkey
  obtain ⟨hne, ip', s, hblocked, h⟩ := mem_othersSince.mp hkey
  exact mem_othersSince.mpr ⟨hne, ip', s, hblocked.concat c, h⟩

/-! ## One entry is written -/

/-- No live entry of the table has the IP. -/
def Absent (ips : List BlockedIp) (ip : Bytes) (nowMs : ℤ) : Prop :=
  ∀ e ∈ ips, e.ip ≠ [] → ipKey e.ip = ipKey ip → e.expiresAtMs ≤ nowMs

/-- The slot that `status_block_client_addr` takes. -/
structure TakenSlot (ips : List BlockedIp) (ip : Bytes) (nowMs : ℤ) (slot : ℕ) : Prop where
  lt : slot < ips.length
  cases :
    -- the live entry of the IP
    (ips[slot].ip ≠ [] ∧ ipKey ips[slot].ip = ipKey ip ∧ nowMs < ips[slot].expiresAtMs) ∨
    -- the first free slot
    (Absent ips ip nowMs ∧ (ips[slot].ip = [] ∨ ips[slot].expiresAtMs ≤ nowMs) ∧
      ∀ i (_ : i < slot), ips[i].ip ≠ [] ∧ nowMs < ips[i].expiresAtMs) ∨
    -- the oldest entry of a full table
    (Absent ips ip nowMs ∧ (∀ e ∈ ips, e.ip ≠ [] ∧ nowMs < e.expiresAtMs) ∧
      ∀ e ∈ ips, ips[slot].expiresAtMs ≤ e.expiresAtMs)

variable {ips : List BlockedIp}

theorem oldestIndex_spec (h : ips ≠ []) : ∃ _ : oldestIndex ips < ips.length,
      ∀ e ∈ ips, ips[oldestIndex ips].expiresAtMs ≤ e.expiresAtMs := by
  obtain ⟨next, hindex, hnext⟩ : ∃ next : ℕ → ℕ → ℕ,
      oldestIndex ips = (List.range ips.length).foldl next 0 ∧
        ∀ oldest i (_ : oldest < ips.length) (_ : i < ips.length),
          next oldest i = if ips[i].expiresAtMs < ips[oldest].expiresAtMs then i else oldest := by
    refine ⟨_, rfl, fun oldest i ho hi => ?_⟩
    simp only [getElem?_eq_getElem hi, getElem?_eq_getElem ho]
  -- the entries in front of `n` have been looked at
  have hloop : ∀ n ≤ ips.length, ∃ best, ∃ hbest : best < ips.length,
      (List.range n).foldl next 0 = best ∧
        ∀ i (hi : i < n) (hlt : i < ips.length), ips[best].expiresAtMs ≤ ips[i].expiresAtMs := by
    intro n hn
    induction n with
    | zero => exact ⟨0, length_pos_iff.mpr h, rfl, fun i hi => absurd hi (Nat.not_lt_zero i)⟩
    | succ n ih =>
      obtain ⟨best, hbest, hfold, hall⟩ := ih (by omega)
      rw [range_succ, foldl_append, hfold, foldl_cons, foldl_nil, hnext best n hbest (by omega)]
      by_cases hless : ips[n].expiresAtMs < ips[best].expiresAtMs
      · refine ⟨n, by omega, if_pos hless, fun i hi hlt => ?_⟩
        obtain hi | rfl := Nat.lt_succ_iff_lt_or_eq.mp hi
        · exact le_trans hless.le (hall i hi hlt)
        · exact le_refl _
      · refine ⟨best, hbest, if_neg hless, fun i hi hlt => ?_⟩
        obtain hi | rfl := Nat.lt_succ_iff_lt_or_eq.mp hi
        · exact hall i hi hlt
        · exact not_lt.mp hless
  obtain ⟨best, hbest, hfold, hall⟩ := hloop ips.length (le_refl _)
  have heq : oldestIndex ips = best := hindex.trans hfold
  subst heq
  refine ⟨hbest, fun e he => ?_⟩
  obtain ⟨i, hi, rfl⟩ := getElem_of_mem he
  exact hall i hi hi

theorem blockIp_spec (h : ips ≠ []) (ip : Bytes) (nowMs : ℤ) : ∃ slot, TakenSlot ips ip nowMs slot ∧
      blockIp ip nowMs ips = ips.set slot ⟨ip, nowMs + statusDisconnectIpBlockMs⟩ := by
  unfold blockIp
  cases hmatch : ips.findIdx? fun e => e.ip ≠ [] && !expiredAt nowMs e && sameIp e ip with
  | some slot =>
    obtain ⟨hlt, hslot, -⟩ := findIdx?_eq_some_iff_getElem.mp hmatch
    simp only [expiredAt, sameIp, Bool.and_eq_true, Bool.not_eq_true', decide_eq_true_eq,
      decide_eq_false_iff_not, not_le] at hslot
    exact ⟨slot, ⟨hlt, .inl ⟨hslot.1.1, hslot.2, hslot.1.2⟩⟩, rfl⟩
  | none =>
    have habsent : Absent ips ip nowMs := by
      intro e he hne hkey
      have hnot := findIdx?_eq_none_iff.mp hmatch e he
      simp only [expiredAt, sameIp, Bool.and_eq_false_iff, decide_eq_false_iff_not, not_not,
        Bool.not_eq_false', decide_eq_true_eq] at hnot
      obtain (hempty | hexpired) | hother := hnot
      · exact absurd hempty hne
      · exact hexpired
      · exact absurd hkey hother
    cases hfree : ips.findIdx? fun e => e.ip = [] || expiredAt nowMs e with
    | some slot =>
      obtain ⟨hlt, hslot, hfirst⟩ := findIdx?_eq_some_iff_getElem.mp hfree
      simp only [expiredAt, Bool.or_eq_true, decide_eq_true_eq] at hslot
      refine ⟨slot, ⟨hlt, .inr (.inl ⟨habsent, hslot, fun i hi => ?_⟩)⟩, rfl⟩
      have hlive := hfirst i hi
      simp only [expiredAt, Bool.or_eq_true, decide_eq_true_eq, not_or, not_le] at hlive
      exact hlive
    | none =>
      obtain ⟨hlt, hold⟩ := oldestIndex_spec h
      refine ⟨oldestIndex ips, ⟨hlt, .inr (.inr ⟨habsent, fun e he => ?_, hold⟩)⟩, rfl⟩
      have hlive := findIdx?_eq_none_iff.mp hfree e he
      simp only [expiredAt, Bool.or_eq_false_iff, decide_eq_false_iff_not, not_le] at hlive
      exact hlive

theorem checkIp_spec (ip : Bytes) (nowMs : ℤ) (ips : List BlockedIp) : checkIp ip nowMs ips = ips ∨
      ∃ slot, ∃ _ : slot < ips.length, ips[slot].expiresAtMs ≤ nowMs ∧
        checkIp ip nowMs ips = ips.set slot ⟨[], 0⟩ := by
  unfold checkIp
  split
  · rename_i slot hfind
    obtain ⟨hlt, -, -⟩ := findIdx?_eq_some_iff_getElem.mp hfind
    rw [getElem?_eq_getElem hlt]
    dsimp only
    split
    · rename_i hexpired
      exact .inr ⟨slot, hlt, by omega, rfl⟩
    · exact .inl rfl
  · exact .inl rfl

/-! ## Every run -/

/-- A table after calls up to the time `nowMs`. -/
structure Recorded (calls : List BlocklistCall) (nowMs : ℤ) (ips : List BlockedIp) : Prop where
  length_eq : ips.length = statusMaxBlockedIps
  written : ∀ e ∈ ips, e.ip ≠ [] →
    ∃ t, BlockedAt calls e.ip t ∧ e.expiresAtMs = t + statusDisconnectIpBlockMs
  front : ips.Pairwise fun e e' => e.ip ≠ [] → ipKey e.ip = ipKey e'.ip → e'.expiresAtMs ≤ nowMs
  kept : ∀ ip t, BlockedAt calls ip t → nowMs < t + statusDisconnectIpBlockMs →
    (othersSince calls ip t).card < statusMaxBlockedIps →
      ∃ e ∈ ips, ipKey e.ip = ipKey ip ∧ t + statusDisconnectIpBlockMs ≤ e.expiresAtMs

theorem ipKey_nil {ip' : Bytes} (h : ipKey ip = ipKey ip') (hne : ip' ≠ []) : ip ≠ [] := by
  rintro rfl
  exact hne (map_eq_nil_iff.mp h.symm)

variable {clientAddr : Bytes}

theorem extractClientIp_ne_nil (h : extractClientIp clientAddr = some ip) : ip ≠ [] := by
  unfold extractClientIp at h
  split at h
  · cases h
  · split at h
    · cases h
    · rename_i text _
      generalize (if hasPrefixNoCase mappedPrefix text ∧ colon ∉ text.drop 7 then text.drop 7
        else text) = ip' at h
      by_cases hne : ip' = []
      · rw [if_pos hne] at h
        cases h
      · rw [if_neg hne] at h
        obtain rfl := some.inj h
        exact hne

theorem blocks_ne_nil {c : BlocklistCall} (h : c.blocks = some ip) : ip ≠ [] := by
  cases c with
  | block clientAddr nowMs => exact extractClientIp_ne_nil h
  | check clientAddr nowMs => cases h

section Step

variable {calls : List BlocklistCall} {before nowMs : ℤ} {ips : List BlockedIp}

theorem Recorded.later (h : Recorded calls before ips) (htime : before ≤ nowMs) :
    Recorded calls nowMs ips where
  length_eq := h.length_eq
  written := h.written
  front := h.front.imp fun hle hne hkey => le_trans (hle hne hkey) htime
  kept ip t hblocked hlate := h.kept ip t hblocked (by omega)

variable {c : BlocklistCall} {ip : Bytes}

theorem BlockedAt.of_concat {t : ℤ} (h : BlockedAt (calls ++ [c]) ip t) :
    BlockedAt calls ip t ∨ c.blocks = some ip ∧ c.nowMs = t := by
  obtain ⟨c', hc', h⟩ := h
  obtain hc' | hc' := mem_append.mp hc'
  · exact .inl ⟨c', hc', h⟩
  · obtain rfl := mem_singleton.mp hc'
    exact .inr h

omit ips in
theorem mem_set_other {ips : List BlockedIp} {i slot : ℕ} (hi : i < ips.length) (h : slot ≠ i)
    (e : BlockedIp) : ips[i] ∈ ips.set slot e :=
  mem_iff_getElem.mpr ⟨i, by rwa [length_set], getElem_set_ne h _⟩

section

variable (h : Recorded calls nowMs ips)

include h

theorem Recorded.clear {slot : ℕ} (hlt : slot < ips.length)
    (hexpired : ips[slot].expiresAtMs ≤ nowMs) : Recorded calls nowMs (ips.set slot ⟨[], 0⟩) where
  length_eq := by rw [length_set, h.length_eq]
  written e he hne := by
    obtain he | rfl := mem_or_eq_of_mem_set he
    · exact h.written e he hne
    · exact absurd rfl hne
  front := by
    rw [pairwise_iff_getElem]
    intro i j hi hj hij hne hkey
    rw [length_set] at hi hj
    have hfront := pairwise_iff_getElem.mp h.front i j hi hj hij
    rw [getElem_set] at hne hkey
    rw [getElem_set] at hkey ⊢
    by_cases hslot : slot = i
    · rw [if_pos hslot] at hne
      exact absurd rfl hne
    · rw [if_neg hslot] at hne hkey
      by_cases hslot' : slot = j
      · rw [if_pos hslot'] at hkey
        exact absurd rfl (ipKey_nil hkey.symm hne)
      · simp [*]
  kept ip t hblocked hlate hfew := by
    obtain ⟨e, he, hkey, hexpires⟩ := h.kept ip t hblocked hlate hfew
    obtain ⟨i, hi, rfl⟩ := getElem_of_mem he
    have hother : slot ≠ i := by
      rintro rfl
      omega
    refine ⟨ips[i], mem_set_other hi hother _, hkey, hexpires⟩

/-- In front of the slot that is taken no entry has the IP, and behind it only expired ones. -/
theorem TakenSlot.first {slot : ℕ} (hslot : TakenSlot ips ip nowMs slot) (hip : ip ≠ []) :
    (∀ i (_ : i < slot) (_ : i < ips.length), ipKey ips[i].ip ≠ ipKey ip) ∧
      ∀ j (_ : slot < j) (_ : j < ips.length), ipKey ips[j].ip = ipKey ip →
        ips[j].expiresAtMs ≤ nowMs := by
  have hlt := hslot.lt
  obtain ⟨hne, hkey, hlive⟩ | ⟨habsent, -, hfirst⟩ | ⟨habsent, hfull, -⟩ := hslot.cases
  · constructor
    · intro i hi hilt hikey
      have := pairwise_iff_getElem.mp h.front i slot hilt hlt hi (ipKey_nil hikey hip)
        (hikey.trans hkey.symm)
      omega
    · intro j hj hjlt hjkey
      exact pairwise_iff_getElem.mp h.front slot j hlt hjlt hj hne (hkey.trans hjkey.symm)
  · constructor
    · intro i hi hilt hikey
      have := habsent _ (getElem_mem hilt) (ipKey_nil hikey hip) hikey
      have := (hfirst i hi).2
      omega
    · intro j hj hjlt hjkey
      exact habsent _ (getElem_mem hjlt) (ipKey_nil hjkey hip) hjkey
  · constructor
    · intro i hi hilt hikey
      have := habsent _ (getElem_mem hilt) (ipKey_nil hikey hip) hikey
      have := (hfull _ (getElem_mem hilt)).2
      omega
    · intro j hj hjlt hjkey
      exact habsent _ (getElem_mem hjlt) (ipKey_nil hjkey hip) hjkey

theorem others_of_full {t : ℤ} (hblocks : c.blocks = some ip) (hnow : c.nowMs = nowMs)
    (habsent : Absent ips ip nowMs) (hfull : ∀ e ∈ ips, e.ip ≠ [] ∧ nowMs < e.expiresAtMs)
    (hsince : ∀ e ∈ ips, t + statusDisconnectIpBlockMs ≤ e.expiresAtMs) (ht : t ≤ nowMs)
    (ip' : Bytes) : statusMaxBlockedIps ≤ (othersSince (calls ++ [c]) ip' t).card := by
  have hdistinct : (ips.map fun e => ipKey e.ip).Nodup := by
    rw [List.Nodup, pairwise_map]
    refine h.front.imp_of_mem fun {e e'} he he' hfront hkey => ?_
    have := hfront (hfull e he).1 hkey
    have := (hfull e' he').2
    omega
  have hnew : ipKey ip ∉ ips.map fun e => ipKey e.ip := by
    intro hmem
    obtain ⟨e, he, hkey⟩ := List.mem_map.mp hmem
    have := habsent e he (hfull e he).1 hkey
    have := (hfull e he).2
    omega
  have hcard : (ipKey ip :: ips.map fun e => ipKey e.ip).toFinset.card =
      statusMaxBlockedIps + 1 := by
    rw [toFinset_card_of_nodup (nodup_cons.mpr ⟨hnew, hdistinct⟩), length_cons,
      length_map, h.length_eq]
  have hsub : (ipKey ip :: ips.map fun e => ipKey e.ip).toFinset ⊆
      insert (ipKey ip') (othersSince (calls ++ [c]) ip' t) := by
    intro key hkey
    rw [Finset.mem_insert]
    by_cases hsame : key = ipKey ip'
    · exact .inl hsame
    · refine .inr (mem_othersSince.mpr ⟨hsame, ?_⟩)
      obtain rfl | hmem := List.mem_cons.mp (List.mem_toFinset.mp hkey)
      · exact ⟨ip, nowMs, ⟨c, mem_append_right _ (mem_singleton.mpr rfl), hblocks, hnow⟩, ht, rfl⟩
      · obtain ⟨e, he, rfl⟩ := List.mem_map.mp hmem
        obtain ⟨s, hblocked, hs⟩ := h.written e he (hfull e he).1
        have := hsince e he
        exact ⟨e.ip, s, hblocked.concat c, by omega, rfl⟩
  have hle := Finset.card_le_card hsub
  have hinsert := Finset.card_insert_le (ipKey ip') (othersSince (calls ++ [c]) ip' t)
  omega

theorem Recorded.block (hblocks : c.blocks = some ip) (hnow : c.nowMs = nowMs)
    (hpast : ∀ ip t, BlockedAt calls ip t → t ≤ nowMs) :
    Recorded (calls ++ [c]) nowMs (blockIp ip nowMs ips) := by
  have hip := blocks_ne_nil hblocks
  have hips : ips ≠ [] := ne_nil_of_length_pos (by rw [h.length_eq]; decide)
  have hcall : BlockedAt (calls ++ [c]) ip nowMs :=
    ⟨c, mem_append_right _ (mem_singleton.mpr rfl), hblocks, hnow⟩
  obtain ⟨slot, hslot, heq⟩ := blockIp_spec hips ip nowMs
  have hlt := hslot.lt
  rw [heq]
  constructor
  · rw [length_set, h.length_eq]
  · intro e he hne
    obtain he | rfl := mem_or_eq_of_mem_set he
    · obtain ⟨t, hblocked, ht⟩ := h.written e he hne
      exact ⟨t, hblocked.concat c, ht⟩
    · exact ⟨nowMs, hcall, rfl⟩
  · obtain ⟨hfront, hbehind⟩ := hslot.first h hip
    rw [pairwise_iff_getElem]
    intro i j hi hj hij hne hkey
    rw [length_set] at hi hj
    rw [getElem_set] at hne hkey
    rw [getElem_set] at hkey ⊢
    by_cases hi' : slot = i
    · grind
    · rw [if_neg hi'] at hne hkey
      by_cases hj' : slot = j
      · rw [if_pos hj'] at hkey
        exact absurd hkey (hfront i (by omega) hi)
      · rw [if_neg hj'] at hkey ⊢
        exact pairwise_iff_getElem.mp h.front i j hi hj hij hne hkey
  · intro ip' t hblocked hlate hfew
    by_cases hsame : ipKey ip = ipKey ip'
    · refine ⟨_, mem_set hlt _, hsame, ?_⟩
      obtain hold | ⟨-, rfl⟩ := hblocked.of_concat
      · have := hpast ip' t hold
        dsimp only
        omega
      · rw [hnow]
    · have hold : BlockedAt calls ip' t := by
        obtain hold | ⟨hnew, -⟩ := hblocked.of_concat
        · exact hold
        · rw [hblocks] at hnew
          obtain rfl := some.inj hnew
          exact absurd rfl hsame
      have hfew' := lt_of_le_of_lt (Finset.card_le_card (othersSince_concat calls c ip' t)) hfew
      obtain ⟨e, he, hkey, hexpires⟩ := h.kept ip' t hold hlate hfew'
      obtain ⟨i, hi, rfl⟩ := getElem_of_mem he
      by_cases hother : slot = i
      · subst hother
        obtain ⟨-, hmatch, -⟩ | ⟨-, hfree, -⟩ | ⟨habsent, hfull, hoold⟩ := hslot.cases
        · exact absurd (hmatch.symm.trans hkey) hsame
        · have hne : ip' ≠ [] := by
            obtain ⟨c', -, hc', -⟩ := hold
            exact blocks_ne_nil hc'
          obtain hempty | hexpired := hfree
          · exact absurd hempty (ipKey_nil hkey hne)
          · omega
        · have := others_of_full h hblocks hnow habsent hfull
            (fun e he => le_trans hexpires (hoold e he)) (hpast ip' t hold) ip'
          omega
      · exact ⟨_, mem_set_other hi hother _, hkey, hexpires⟩

theorem Recorded.quiet (hblocks : c.blocks = none) : Recorded (calls ++ [c]) nowMs ips where
  length_eq := h.length_eq
  written e he hne := by
    obtain ⟨t, hblocked, ht⟩ := h.written e he hne
    exact ⟨t, hblocked.concat c, ht⟩
  front := h.front
  kept ip t hblocked hlate hfew := by
    obtain hold | ⟨hnew, -⟩ := hblocked.of_concat
    · exact h.kept ip t hold hlate
        (lt_of_le_of_lt (Finset.card_le_card (othersSince_concat calls c ip t)) hfew)
    · rw [hblocks] at hnew
      cases hnew

end

theorem Recorded.step (c : BlocklistCall) (h : Recorded calls c.nowMs ips)
    (hpast : ∀ ip t, BlockedAt calls ip t → t ≤ c.nowMs) :
    Recorded (calls ++ [c]) c.nowMs (c.run ips) := by
  cases c with
  | block clientAddr nowMs =>
    change Recorded _ _ (statusBlockClientAddr clientAddr nowMs ips)
    unfold statusBlockClientAddr
    cases hip : extractClientIp clientAddr with
    | none => exact h.quiet hip
    | some ip => exact h.block hip rfl hpast
  | check clientAddr nowMs =>
    change Recorded _ _ (statusClientAddrIsBlocked clientAddr nowMs ips).2
    unfold statusClientAddrIsBlocked
    cases hip : extractClientIp clientAddr with
    | none => exact h.quiet rfl
    | some ip =>
      change Recorded _ _ (checkIp ip nowMs ips)
      obtain hsame | ⟨slot, hlt, hexpired, hset⟩ := checkIp_spec ip nowMs ips
      · rw [hsame]
        exact h.quiet rfl
      · rw [hset]
        exact (h.clear hlt hexpired).quiet rfl

end Step

theorem recorded_init (nowMs : ℤ) : Recorded [] nowMs statusInit.blockedIps where
  length_eq := rfl
  written e he hne := by
    obtain rfl := eq_of_mem_replicate he
    exact absurd rfl hne
  front := pairwise_replicate.mpr (.inr fun hne => absurd rfl hne)
  kept ip t hblocked := by
    obtain ⟨c, hc, -⟩ := hblocked
    cases hc

theorem recorded_run {calls : List BlocklistCall}
    (htimes : calls.Pairwise fun c c' => c.nowMs ≤ c'.nowMs) {nowMs : ℤ}
    (hnow : ∀ c ∈ calls, c.nowMs ≤ nowMs) : Recorded calls nowMs (blockedIpsAfter calls) := by
  induction calls using List.reverseRecOn generalizing nowMs with
  | nil => exact recorded_init nowMs
  | append_singleton calls c ih =>
    obtain ⟨hcalls, -, hlast⟩ := pairwise_append.mp htimes
    have hbefore : ∀ c' ∈ calls, c'.nowMs ≤ c.nowMs := fun c' hc' =>
      hlast c' hc' c (mem_singleton.mpr rfl)
    have hpast : ∀ ip t, BlockedAt calls ip t → t ≤ c.nowMs := by
      rintro ip t ⟨c', hc', -, rfl⟩
      exact hbefore c' hc'
    have hstep := Recorded.step c (ih hcalls hbefore) hpast
    have hrun : blockedIpsAfter (calls ++ [c]) = c.run (blockedIpsAfter calls) := by
      rw [blockedIpsAfter, foldl_append]
      rfl
    rw [hrun]
    exact hstep.later (hnow c (mem_append_right _ (mem_singleton.mpr rfl)))

/-! ## The answer -/

section Answer

variable {calls : List BlocklistCall} {nowMs : ℤ} {ips : List BlockedIp} {ip : Bytes}

theorem isSome_retryAfter (h : Recorded calls nowMs ips) (hip : ip ≠ []) {e : BlockedIp}
    (he : e ∈ ips) (hkey : ipKey e.ip = ipKey ip) (hlive : nowMs < e.expiresAtMs) :
    (retryAfterSec ip nowMs ips).isSome := by
  have hmatch (e : BlockedIp) :
      (e.ip ≠ [] && sameIp e ip) = true ↔ e.ip ≠ [] ∧ ipKey e.ip = ipKey ip := by
    rw [Bool.and_eq_true, decide_eq_true_eq, sameIp, decide_eq_true_eq]
    rfl
  unfold retryAfterSec
  cases hfind : ips.find? fun e => e.ip ≠ [] && sameIp e ip with
  | none => exact absurd ((hmatch e).mpr ⟨ipKey_nil hkey hip, hkey⟩) (find?_eq_none.mp hfind e he)
  | some e' =>
    obtain ⟨he', front, behind, rfl, hnone⟩ := find?_eq_some_iff_append.mp hfind
    obtain ⟨hne', hkey'⟩ := (hmatch e').mp he'
    have hfirst : e' = e := by
      obtain hfront | hrest := mem_append.mp he
      · have := hnone e hfront
        rw [(hmatch e).mpr ⟨ipKey_nil hkey hip, hkey⟩] at this
        cases this
      · obtain heq | hbehind := List.mem_cons.mp hrest
        · exact heq.symm
        · obtain ⟨-, hcons, -⟩ := pairwise_append.mp h.front
          have := (pairwise_cons.mp hcons).1 e hbehind hne' (hkey'.trans hkey.symm)
          omega
    subst hfirst
    dsimp only
    rw [if_neg (by omega)]
    rfl

theorem live_of_retryAfter (hsome : (retryAfterSec ip nowMs ips).isSome) :
    ∃ e ∈ ips, e.ip ≠ [] ∧ ipKey e.ip = ipKey ip ∧ nowMs < e.expiresAtMs := by
  unfold retryAfterSec at hsome
  cases hfind : ips.find? fun e => e.ip ≠ [] && sameIp e ip with
  | none =>
    rw [hfind] at hsome
    cases hsome
  | some e =>
    rw [hfind] at hsome
    have hmatch := find?_some hfind
    rw [Bool.and_eq_true, decide_eq_true_eq, sameIp, decide_eq_true_eq] at hmatch
    refine ⟨e, mem_of_find?_eq_some hfind, hmatch.1, hmatch.2, ?_⟩
    dsimp only at hsome
    split at hsome
    · cases hsome
    · omega

end Answer

/-! ## The forms of an address -/

/-- The text of an IP, a name or an IPv4 or IPv6 address, as it is compared. -/
structure IpText (ip : Bytes) : Prop where
  ne_nil : ip ≠ []
  known : ip ≠ ascii "unknown"
  bare : ip.head? ≠ some openBracket
  closed : closeBracket ∉ ip
  fits : ip.length + 7 < statusBlockedIpLen
  colons : ip.count colon ≠ 1
  unmapped : ¬ (hasPrefixNoCase mappedPrefix ip ∧ colon ∉ ip.drop 7)

/-- An IP, or an IPv4 address mapped to IPv6. -/
inductive TextOf (ip : Bytes) : Bytes → Prop
  | same : TextOf ip ip
  | mapped {pre : Bytes} : colon ∉ ip → pre.map toLower = mappedPrefix → TextOf ip (pre ++ ip)

/-- The addresses of an IP: alone, in brackets, and with a port. -/
inductive AddressOf (ip : Bytes) : Bytes → Prop
  | plain {text : Bytes} : TextOf ip text → AddressOf ip text
  | bracketed {text : Bytes} (rest : Bytes) :
    TextOf ip text → AddressOf ip (openBracket :: text ++ closeBracket :: rest)
  | port {port : Bytes} : colon ∉ ip → colon ∉ port → AddressOf ip (ip ++ colon :: port)

/-- What is cut off a text in the end. -/
def unmap (text : Bytes) : Bytes :=
  if hasPrefixNoCase mappedPrefix text ∧ colon ∉ text.drop 7 then text.drop 7 else text

/-- The texts of an IP, before the prefix is cut off. -/
structure ReadText (ip text : Bytes) : Prop where
  ne_nil : text ≠ []
  known : text ≠ ascii "unknown"
  bare : text.head? ≠ some openBracket
  closed : closeBracket ∉ text
  fits : text.length < statusBlockedIpLen
  colons : text.count colon ≠ 1
  unmap : unmap text = ip

theorem TextOf.read {text : Bytes} (hip : IpText ip) (h : TextOf ip text) : ReadText ip text := by
  cases h with
  | same =>
    have hfits := hip.fits
    exact ⟨hip.ne_nil, hip.known, hip.bare, hip.closed, by omega, hip.colons, if_neg hip.unmapped⟩
  | @mapped pre hcolon hpre =>
    obtain ⟨a, pre₁, rfl, ha, hpre₁⟩ := map_eq_cons_iff.mp hpre
    obtain ⟨b, pre₂, rfl, hb, hpre₂⟩ := map_eq_cons_iff.mp hpre₁
    obtain rfl : a = colon := toLower_colon ha
    obtain rfl : b = colon := toLower_colon hb
    have hlength : pre₂.length = 5 := by
      rw [← length_map (f := toLower), hpre₂]
      rfl
    have hdrop : (colon :: colon :: pre₂ ++ ip).drop 7 = ip :=
      drop_left' (by rw [length_cons, length_cons, hlength])
    have hfits := hip.fits
    refine ⟨cons_ne_nil _ _, ?_, ?_, ?_, ?_, ?_, ?_⟩
    · intro heq
      exact absurd (List.cons.inj heq).1 (by decide)
    · exact fun heq => absurd (some.inj heq) (by decide)
    · intro hmem
      obtain hmem | hmem := mem_append.mp hmem
      · have hlower := List.mem_map_of_mem (f := toLower) hmem
        rw [hpre] at hlower
        exact absurd hlower (by decide)
      · exact hip.closed hmem
    · rw [length_append, length_cons, length_cons, hlength]
      omega
    · simp
    · rw [unmap, hdrop, if_pos]
      exact ⟨hasPrefixNoCase_iff.mpr ⟨colon :: colon :: pre₂, ip, rfl, hpre⟩, hcolon⟩

theorem extract_of_text {text : Bytes} (hne : clientAddr ≠ [])
    (hknown : clientAddr ≠ ascii "unknown") (htext : clientIpText clientAddr = some text)
    (hip : unmap text = ip) (hipne : ip ≠ []) : extractClientIp clientAddr = some ip := by
  unfold extractClientIp
  rw [if_neg (not_or.mpr ⟨hne, hknown⟩), htext]
  dsimp only
  rw [← unmap, hip, if_neg hipne]

theorem AddressOf.extract (hip : IpText ip) (h : AddressOf ip clientAddr) :
    extractClientIp clientAddr = some ip := by
  cases h with
  | plain htext =>
    obtain ⟨hne, hknown, hbare, -, hfits, hcolons, hunmap⟩ := htext.read hip
    refine extract_of_text hne hknown ?_ hunmap hip.ne_nil
    unfold clientIpText
    rw [if_neg hbare, if_neg hcolons, take_of_length_le (by omega)]
  | @bracketed text rest htext =>
    obtain ⟨hne, -, -, hclosed, hfits, -, hunmap⟩ := htext.read hip
    refine extract_of_text (cons_ne_nil _ _) ?_ ?_ hunmap hip.ne_nil
    · intro heq
      exact absurd (List.cons.inj heq).1 (by decide)
    · have hall : ∀ c ∈ text, decide (c ≠ closeBracket) = true := fun c hc =>
        decide_eq_true fun h => hclosed (h ▸ hc)
      have hstop : (text ++ closeBracket :: rest).takeWhile (· ≠ closeBracket) = text := by
        rw [takeWhile_append_of_pos hall, takeWhile_cons_of_neg (by simp), append_nil]
      unfold clientIpText
      rw [cons_append, if_pos head?_cons, if_neg (by simp)]
      simp only [drop_succ_cons, drop_zero, hstop]
      exact if_neg (not_or.mpr ⟨hne, by omega⟩)
  | @port port hcolon hport =>
    have hfits := hip.fits
    have hall : ∀ c ∈ ip, decide (c ≠ colon) = true := fun c hc =>
      decide_eq_true fun h => hcolon (h ▸ hc)
    have hstop : (ip ++ colon :: port).takeWhile (· ≠ colon) = ip := by
      rw [takeWhile_append_of_pos hall, takeWhile_cons_of_neg (by simp), append_nil]
    refine extract_of_text (by simp) ?_ ?_ (if_neg hip.unmapped) hip.ne_nil
    · intro heq
      have hmem : colon ∈ ascii "unknown" := heq ▸ by simp
      exact absurd hmem (by decide)
    · have hcount : (ip ++ colon :: port).count colon = 1 := by
        rw [count_append, count_cons_self, count_eq_zero_of_not_mem hcolon,
          count_eq_zero_of_not_mem hport]
      unfold clientIpText
      rw [head?_append_of_ne_nil _ hip.ne_nil, if_neg hip.bare, if_pos hcount]
      simp only [hstop]
      exact if_neg (not_or.mpr ⟨hip.ne_nil, by omega⟩)

/-! ## Blocking -/

/-- An IP that was blocked at `t` is answered as blocked up to the end of its period, at every
    address of it, unless the table's number of other IPs were blocked at `t` or later; and only
    an IP that was blocked within the period is. -/
theorem blocking_effective {calls : List BlocklistCall}
    (htimes : calls.Pairwise fun c c' => c.nowMs ≤ c'.nowMs) {nowMs : ℤ}
    (hnow : ∀ c ∈ calls, c.nowMs ≤ nowMs) :
    (∀ addr t ip, .block addr t ∈ calls → extractClientIp addr = some ip →
      nowMs < t + statusDisconnectIpBlockMs →
      (othersSince calls ip t).card < statusMaxBlockedIps →
        ∀ clientAddr ip', extractClientIp clientAddr = some ip' → ipKey ip' = ipKey ip →
          (statusClientAddrIsBlocked clientAddr nowMs (blockedIpsAfter calls)).1.isSome) ∧
    (∀ clientAddr, (statusClientAddrIsBlocked clientAddr nowMs (blockedIpsAfter calls)).1.isSome →
      ∃ addr t ip ip', .block addr t ∈ calls ∧ extractClientIp addr = some ip ∧
        extractClientIp clientAddr = some ip' ∧ ipKey ip = ipKey ip' ∧
        nowMs < t + statusDisconnectIpBlockMs) ∧
    ∀ ip, IpText ip → ∀ clientAddr, AddressOf ip clientAddr →
      extractClientIp clientAddr = some ip := by
  have hrun := recorded_run htimes hnow
  refine ⟨?_, ?_, fun ip hip clientAddr haddr => haddr.extract hip⟩
  · intro addr t ip hcall hip hlate hfew clientAddr ip' hip' hkey
    obtain ⟨e, he, hekey, hexpires⟩ := hrun.kept ip t ⟨_, hcall, hip, rfl⟩ hlate hfew
    unfold statusClientAddrIsBlocked
    rw [hip']
    exact isSome_retryAfter hrun (extractClientIp_ne_nil hip') he (hekey.trans hkey.symm) (by omega)
  · intro clientAddr hsome
    unfold statusClientAddrIsBlocked at hsome
    cases hip' : extractClientIp clientAddr with
    | none =>
      rw [hip'] at hsome
      cases hsome
    | some ip' =>
      rw [hip'] at hsome
      obtain ⟨e, he, hne, hkey, hlive⟩ := live_of_retryAfter hsome
      obtain ⟨t, ⟨c, hc, hblocks, rfl⟩, hexpires⟩ := hrun.written e he hne
      cases c with
      | block addr t =>
        have ht : (BlocklistCall.block addr t).nowMs = t := rfl
        exact ⟨addr, t, e.ip, ip', hc, hblocks, rfl, hkey, by omega⟩
      | check addr t => cases hblocks

/-- One client is blocked, and looked up by its mapped address. -/
theorem blocking_effective_mapped : (statusClientAddrIsBlocked (ascii "[::FFFF:10.0.0.1]:80") 4999
      (blockedIpsAfter [.block (ascii "10.0.0.1:5000") 0])).1.isSome :=
  (@blocking_effective [.block (ascii "10.0.0.1:5000") 0] (by decide) 4999 (by decide)).1
    (ascii "10.0.0.1:5000") 0 (ascii "10.0.0.1") (by decide) (by decide +kernel) (by decide)
    (by decide +kernel) (ascii "[::FFFF:10.0.0.1]:80") (ascii "10.0.0.1")
    (by decide +kernel) rfl

/-- 10.0.0.1 and 63 others are blocked in one millisecond, 10.0.0.1 again, and one more. -/
def busyCalls : List BlocklistCall :=
  .block (ascii "10.0.0.1") 0 :: (List.range 63).map (fun i =>
      .block (ascii "10.0.1.1" ++ [digitByte (i / 10), digitByte (i % 10)]) 0) ++
    [.block (ascii "10.0.0.1") 0, .block (ascii "10.0.2.1") 0]

/-- The first slot is given up, though nothing else was blocked in a later millisecond. -/
theorem busyCalls_evicts :
    (statusClientAddrIsBlocked (ascii "10.0.0.1") 0 (blockedIpsAfter busyCalls)).1 = none ∧
      othersSince busyCalls (ascii "10.0.0.1") 1 = ∅ := by
  decide +kernel

end Apackage.Rtp2httpd
