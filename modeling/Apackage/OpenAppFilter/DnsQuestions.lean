import Apackage.OpenAppFilter.DpiBounds

/-
  The questions of DNS messages: what `dpi_dns_proto` stores are the first questions of the
  message, with their names in lower case.

  `afParseDnsQueryName_encode` reads one question back, and `afParseDnsQueryName_inv` says that
  nothing else is taken for one.
-/

namespace Apackage.OpenAppFilter.Dpi

open List Option Lib.Region

/-! ## Messages -/

structure Question where
  labels : List (List UInt8)
  qtype : ℕ
  qclass : ℕ

def labelBytes (label : List UInt8) : List UInt8 := UInt8.ofNat label.length :: label

namespace Question

def encode (q : Question) : List UInt8 :=
  q.labels.flatMap labelBytes ++ 0 :: (bytesOf 2 q.qtype ++ bytesOf 2 q.qclass)

def dotted (q : Question) : List UInt8 := ['.'.toUInt8].intercalate q.labels

/-- The name has at least one label, and in dotted form it is shorter than
    `MAX_DNS_DOMAIN_LEN`. -/
structure Valid (q : Question) : Prop where
  labels : ∀ label ∈ q.labels, 0 < label.length ∧ label.length < 64
  ne_nil : q.labels ≠ []
  short : q.dotted.length < 128
  qtype : q.qtype < 256 ^ 2
  qclass : q.qclass < 256 ^ 2

/-- What `dns_proto_t` keeps of a question. -/
def stored (q : Question) : DnsQuery := ⟨q.dotted.map lowerCase, q.qtype⟩

end Question

/-! ## Names -/

/-- The name after one more label. -/
def extend (out label : List UInt8) : List UInt8 :=
  (if 0 < out.length then out ++ ['.'.toUInt8] else out) ++ label.map lowerCase

theorem length_le_extend (out label : List UInt8) : out.length ≤ (extend out label).length := by
  unfold extend
  split <;> simp only [length_append] <;> omega

variable (labels : List (List UInt8))

theorem length_le_foldl_extend (out : List UInt8) :
    out.length ≤ (labels.foldl extend out).length := by
  induction labels generalizing out with
  | nil => exact le_rfl
  | cons label labels ih => exact (length_le_extend out label).trans (ih _)

variable {out : List UInt8}

theorem foldl_extend_of_pos (h : 0 < out.length) (labels : List (List UInt8)) :
    labels.foldl extend out =
      out ++ (labels.flatMap fun label => '.'.toUInt8 :: label).map lowerCase := by
  induction labels generalizing out with
  | nil => simp
  | cons label labels ih =>
    have hext : extend out label = out ++ ('.'.toUInt8 :: label).map lowerCase := by
      rw [extend, if_pos h, append_assoc]
      rfl
    rw [foldl_cons, hext, ih (by rw [length_append]; omega), flatMap_cons, map_append, append_assoc]

theorem intercalate_cons (sep label : List UInt8) (labels : List (List UInt8)) :
    sep.intercalate (label :: labels) = label ++ labels.flatMap (sep ++ ·) := by
  induction labels generalizing label with
  | nil => simp [List.intercalate]
  | cons next labels ih =>
    simp [*]

theorem foldl_extend {q : Question} (h : ∀ label ∈ q.labels, 0 < label.length) :
    q.labels.foldl extend [] = q.dotted.map lowerCase := by
  unfold Question.dotted
  cases hl : q.labels with
  | nil => rfl
  | cons label labels =>
    have hpos := h label (by rw [hl]; exact mem_cons_self)
    have hext : extend [] label = label.map lowerCase := rfl
    rw [foldl_cons, hext, foldl_extend_of_pos (by rw [length_map]; exact hpos),
      intercalate_cons, map_append]
    rfl

/-! ## Labels -/

variable {mem : List UInt8} {dnsLen : ℕ}

theorem getElem?_of_drop {α : Type*} {l post : List α} {i : ℕ} {a : α}
    (h : l.drop i = a :: post) : l[i]? = some a := by
  rw [← head?_drop, h, head?_cons]

theorem drop_succ_of_drop {α : Type*} {l pre post : List α} {i : ℕ} (h : l.drop i = pre ++ post) :
    l.drop (i + pre.length) = post := by
  rw [← drop_drop, h, drop_left]

variable {post label : List UInt8}

theorem copyLabel_eq {offset : ℕ} (h : mem.drop offset = label ++ post) (hout : out.length ≤ 127) :
    copyLabel mem label.length offset out =
      some (if (out ++ label.map lowerCase).length ≤ 127 then some (out ++ label.map lowerCase)
        else none) := by
  induction label generalizing offset out with
  | nil => rw [map_nil, append_nil, if_pos hout]; rfl
  | cons c label ih =>
    rw [length_cons, copyLabel, getElem?_of_drop h, bind_some]
    by_cases hlong : 127 ≤ out.length
    · rw [if_pos hlong, if_neg]
      rw [length_append, length_map, length_cons]
      omega
    · have hnext : mem.drop (offset + 1) = label ++ post :=
        @drop_succ_of_drop _ mem [c] (label ++ post) offset h
      rw [if_neg hlong, ih hnext (by rw [length_append, length_singleton]; omega), append_assoc]
      rfl

theorem and_c0 {c : UInt8} (h : c.toNat < 64) : c &&& 0xC0 = 0 := by
  have hall : ∀ n < 64, UInt8.ofNat n &&& 0xC0 = 0 := by decide
  have hc := hall c.toNat h
  rwa [UInt8.ofNat_toNat] at hc

theorem nameLoop_label {n offset : ℕ} {out : List UInt8}
    (h : mem.drop offset = labelBytes label ++ post) (hlabel : 0 < label.length ∧ label.length < 64)
    (hlen : offset + 1 + label.length ≤ dnsLen) (hout : out.length ≤ 127) :
    nameLoop mem dnsLen (n + 1) offset out = if (extend out label).length ≤ 127 then
        nameLoop mem dnsLen n (offset + 1 + label.length) (extend out label)
      else some none := by
  have hbyte : (UInt8.ofNat label.length).toNat = label.length :=
    UInt8.toNat_ofNat_of_lt' (lt_trans hlabel.2 (by decide))
  have hdrop : mem.drop (offset + 1) = label ++ post :=
    @drop_succ_of_drop _ mem [UInt8.ofNat label.length] (label ++ post) offset h
  rw [nameLoop, if_neg (by omega), getElem?_of_drop h, bind_some]
  dsimp only
  rw [hbyte, if_neg (by omega), if_neg (by rw [and_c0 (by omega)]; simp), if_neg (by omega)]
  by_cases hpos : 0 < out.length
  · have hext : extend out label = out ++ ['.'.toUInt8] ++ label.map lowerCase := by
      rw [extend, if_pos hpos]
    rw [if_pos hpos]
    by_cases hlong : 127 ≤ out.length
    · grind
    · rw [if_neg (by omega), copyLabel_eq hdrop
        (by rw [length_append, length_singleton]; omega), ← hext, bind_some]
      by_cases hshort : (extend out label).length ≤ 127
      · rw [if_pos hshort, if_pos hshort]
      · rw [if_neg hshort, if_neg hshort]
  · have hext : extend out label = out ++ label.map lowerCase := by rw [extend, if_neg hpos]
    rw [if_neg hpos, if_neg (by omega), copyLabel_eq hdrop hout, ← hext, bind_some]
    by_cases hshort : (extend out label).length ≤ 127
    · rw [if_pos hshort, if_pos hshort]
    · rw [if_neg hshort, if_neg hshort]

theorem nameLoop_end {n offset : ℕ} {out : List UInt8} (h : mem.drop offset = 0 :: post)
    (hlen : offset < dnsLen) :
    nameLoop mem dnsLen (n + 1) offset out = some (some (out, offset + 1)) := by
  rw [nameLoop, if_neg (by omega), getElem?_of_drop h]
  rfl

theorem nameLoop_encode {labels : List (List UInt8)} {n offset : ℕ} {post out : List UInt8}
    (h : mem.drop offset = labels.flatMap labelBytes ++ 0 :: post)
    (hlabels : ∀ label ∈ labels, 0 < label.length ∧ label.length < 64)
    (hn : labels.length < n) (hlen : offset + (labels.flatMap labelBytes).length < dnsLen)
    (hshort : (labels.foldl extend out).length ≤ 127) :
    nameLoop mem dnsLen n offset out =
      some (some (labels.foldl extend out, offset + (labels.flatMap labelBytes).length + 1)) := by
  induction labels generalizing n offset out with
  | nil =>
    obtain ⟨n, rfl⟩ := Nat.exists_eq_add_of_lt hn
    rw [show ([] : List (List UInt8)).length + n + 1 = n + 1 by simp, nameLoop_end h hlen]
    rfl
  | cons label labels ih =>
    obtain ⟨n, rfl⟩ := Nat.exists_eq_succ_of_ne_zero (show n ≠ 0 by omega)
    rw [length_cons] at hn
    rw [flatMap_cons, append_assoc] at h
    rw [flatMap_cons, length_append] at hlen
    have hlabelLen : (labelBytes label).length = label.length + 1 := rfl
    have hmono := length_le_foldl_extend labels (extend out label)
    have hext := length_le_extend out label
    rw [foldl_cons] at hshort
    rw [nameLoop_label h (hlabels label mem_cons_self) (by omega) (by omega),
      if_pos (by omega), foldl_cons]
    have hdrop := drop_succ_of_drop h
    rw [hlabelLen] at hdrop
    rw [ih (by rw [← hdrop]; congr 1; omega)
      (fun l hl => hlabels l (mem_cons_of_mem _ hl)) (by omega) (by omega) hshort,
      flatMap_cons, length_append, hlabelLen]
    congr 3
    omega

theorem nameLoop_inv {n offset offset' : ℕ} {out out' : List UInt8} (hn : mem.length ≤ offset + n)
    (hout : out.length ≤ 127)
    (h : nameLoop mem mem.length n offset out = some (some (out', offset'))) :
    mem.length ≤ offset' ∨ ∃ labels : List (List UInt8),
      (∀ label ∈ labels, 0 < label.length ∧ label.length < 64) ∧
        mem.drop offset = labels.flatMap labelBytes ++ 0 :: mem.drop offset' ∧
        offset' = offset + (labels.flatMap labelBytes).length + 1 ∧
        out' = labels.foldl extend out ∧ out'.length ≤ 127 := by
  induction n generalizing offset out with
  | zero =>
    cases h
    exact .inl hn
  | succ n ih =>
    by_cases hend : mem.length ≤ offset
    · rw [nameLoop, if_pos hend] at h
      cases h
      exact .inl hend
    · have hdrop : mem.drop offset = mem[offset] :: mem.drop (offset + 1) :=
        drop_eq_getElem_cons (by omega)
      generalize mem[offset] = c at hdrop
      by_cases hzero : c = 0
      · subst hzero
        rw [nameLoop_end hdrop (by omega)] at h
        cases h
        exact .inr ⟨[], forall_mem_nil _, hdrop, rfl, rfl, hout⟩
      · have hpos : 0 < c.toNat := Nat.pos_of_ne_zero fun h0 => hzero (UInt8.toNat_inj.1 h0)
        have hlabel : c.toNat < 64 ∧ offset + 1 + c.toNat ≤ mem.length := by
          by_contra hbad
          rw [nameLoop, if_neg hend, getElem?_of_drop hdrop, bind_some] at h
          rw [if_neg (by omega)] at h
          split at h
          · cases h
          · rw [if_pos (by omega)] at h
            cases h
        have hlen : ((mem.drop (offset + 1)).take c.toNat).length = c.toNat := by
          rw [length_take, length_drop]
          omega
        have hbytes : mem.drop offset = labelBytes ((mem.drop (offset + 1)).take c.toNat) ++
              mem.drop (offset + 1 + c.toNat) := by
          rw [hdrop, labelBytes, hlen, UInt8.ofNat_toNat, cons_append,
            ← @List.drop_drop _ c.toNat (offset + 1), take_append_drop]
        generalize (mem.drop (offset + 1)).take c.toNat = label at hlen hbytes
        rw [nameLoop_label hbytes (by omega) (by omega) hout, hlen] at h
        split at h
        · next hshort =>
          rcases ih (by omega) hshort h with hout | ⟨labels, hlabels, hrest, hoffset, hfold, hlast⟩
          · exact .inl hout
          · refine .inr ⟨label :: labels, ?_, ?_, ?_, hfold, hlast⟩
            · intro l hl
              rcases List.mem_cons.1 hl with rfl | hl
              · omega
              · exact hlabels l hl
            · rw [hbytes, hrest, flatMap_cons, append_assoc]
            · have hlabelLen : (labelBytes label).length = label.length + 1 := rfl
              rw [hoffset, flatMap_cons, length_append, hlabelLen]
              omega
        · cases h

/-! ## Questions -/

theorem length_le_flatMap_labelBytes : labels.length ≤ (labels.flatMap labelBytes).length := by
  induction labels with
  | nil => exact le_rfl
  | cons label labels ih =>
    have hlabelLen : (labelBytes label).length = label.length + 1 := rfl
    rw [flatMap_cons, length_append, length_cons, hlabelLen]
    omega

namespace Question

theorem length_encode (q : Question) :
    q.encode.length = (q.labels.flatMap labelBytes).length + 5 := by
  unfold encode
  rw [length_append, length_cons, length_append, length_bytesOf, length_bytesOf]

variable {q : Question}

theorem Valid.foldl (h : q.Valid) : q.labels.foldl extend [] = q.stored.domain :=
  foldl_extend fun label hl => (h.labels label hl).1

theorem Valid.length_domain (h : q.Valid) : q.stored.domain.length ≤ 127 := by
  have hshort := h.short
  rw [stored, length_map]
  omega

theorem Valid.domain_ne_nil (h : q.Valid) : q.stored.domain.length ≠ 0 := by
  rw [← h.foldl]
  cases hl : q.labels with
  | nil => exact absurd hl h.ne_nil
  | cons label labels =>
    have hpos := (h.labels label (by rw [hl]; exact mem_cons_self)).1
    have hfirst : (extend [] label).length = label.length := length_map _
    have hmono := length_le_foldl_extend labels (extend [] label)
    rw [foldl_cons]
    omega

end Question

theorem afParseDnsQueryName_encode {q : Question} (hq : q.Valid) {offset : ℕ}
    (h : mem.drop offset = q.encode ++ post) (hoffset : 12 ≤ offset) :
    afParseDnsQueryName mem mem.length offset =
      some (some (q.stored, offset + q.encode.length)) := by
  have hlen := congrArg List.length h
  rw [length_drop, length_append, q.length_encode] at hlen
  rw [Question.encode, append_assoc, cons_append, append_assoc] at h
  have hcount := length_le_flatMap_labelBytes q.labels
  have hname := @nameLoop_encode mem mem.length q.labels (mem.length - offset) offset _ [] h
    hq.labels (by omega) (by omega) (by rw [hq.foldl]; exact hq.length_domain)
  have htype : mem.drop (offset + (q.labels.flatMap labelBytes).length + 1) =
      bytesOf 2 q.qtype ++ (bytesOf 2 q.qclass ++ post) :=
    @drop_succ_of_drop _ mem [0] _ _ (drop_succ_of_drop h)
  rw [afParseDnsQueryName, if_neg (by omega), if_neg (by omega), hname, bind_some]
  dsimp only
  rw [hq.foldl, if_neg hq.domain_ne_nil, if_neg (by omega),
    loadNat_of_drop (by omega) htype hq.qtype, q.length_encode]
  rfl

/-- Nothing else is taken for a question. -/
theorem afParseDnsQueryName_inv {offset next : ℕ} {query : DnsQuery}
    (h : afParseDnsQueryName mem mem.length offset = some (some (query, next))) :
    ∃ q : Question, q.Valid ∧ query = q.stored ∧ offset ≤ next ∧
      mem.drop offset = q.encode ++ mem.drop next := by
  unfold afParseDnsQueryName at h
  split at h
  · cases h
  · split at h
    · cases h
    · obtain ⟨name, hname, h⟩ := bind_eq_some_iff.1 h
      match name, h with
      | some (out, stop), h =>
        dsimp only at h
        split at h
        · cases h
        · next hne =>
          split at h
          · cases h
          · next hroom =>
            obtain ⟨qtype, htype, hquery⟩ := map_eq_some_iff.1 h
            cases hquery
            obtain ⟨qclass, hclass⟩ := @loadNat_of_le mem (stop + 2) 2 (by omega)
            rcases nameLoop_inv (by omega) (Nat.zero_le _) hname with
              hout | ⟨labels, hlabels, hdrop, hstop, hfold, hshort⟩
            · omega
            · have hdotted := @foldl_extend ⟨labels, qtype, qclass⟩ fun l hl => (hlabels l hl).1
              refine ⟨⟨labels, qtype, qclass⟩, ⟨hlabels, ?_, ?_, loadNat_lt htype,
                loadNat_lt hclass⟩, ?_, by omega, ?_⟩
              · rintro rfl
                exact hne (by rw [hfold]; rfl)
              · rw [hfold, hdotted, length_map] at hshort
                exact Nat.lt_succ_of_le hshort
              · rw [Question.stored, ← hdotted, hfold]
              · rw [hdrop, drop_of_loadNat htype, drop_of_loadNat hclass, Question.encode]
                simp only [append_assoc, cons_append]

theorem questionLoop_encode {qs : List Question} {n offset : ℕ} {post : List UInt8}
    (hqs : ∀ q ∈ qs, q.Valid) (h : mem.drop offset = qs.flatMap Question.encode ++ post)
    (hoffset : 12 ≤ offset) (hn : n ≤ qs.length) :
    questionLoop mem mem.length n offset = some ((qs.take n).map Question.stored) := by
  induction n generalizing qs offset with
  | zero => rfl
  | succ n ih =>
    obtain ⟨q, qs, rfl⟩ := exists_cons_of_length_pos (show 0 < qs.length by omega)
    rw [flatMap_cons, append_assoc] at h
    rw [length_cons] at hn
    rw [questionLoop, afParseDnsQueryName_encode (hqs q mem_cons_self) h hoffset, bind_some]
    dsimp only
    rw [ih (fun q hq => hqs q (mem_cons_of_mem _ hq)) (drop_succ_of_drop h) (by omega) (by omega)]
    rfl

theorem questionLoop_spec (n : ℕ) {offset : ℕ} (hoffset : 12 ≤ offset) :
    ∃ (qs : List Question) (rest : List UInt8),
      questionLoop mem mem.length n offset = some (qs.map Question.stored) ∧
        (∀ q ∈ qs, q.Valid) ∧ mem.drop offset = qs.flatMap Question.encode ++ rest ∧
        qs.length ≤ n ∧
        (qs.length < n → ∀ q : Question, q.Valid → ¬ q.encode <+: rest) := by
  induction n generalizing offset with
  | zero => exact ⟨[], mem.drop offset, rfl, forall_mem_nil _, rfl, le_rfl, fun h => by omega⟩
  | succ n ih =>
    obtain ⟨r, hr⟩ := @afParseDnsQueryName_some mem mem.length le_rfl offset
    match r, hr with
    | none, hr =>
      refine ⟨[], mem.drop offset, ?_, forall_mem_nil _, rfl, Nat.zero_le _, ?_⟩
      · rw [questionLoop, hr, bind_some]
        rfl
      · rintro - q hq ⟨post, hpost⟩
        rw [afParseDnsQueryName_encode hq hpost.symm hoffset] at hr
        cases hr
    | some (query, next), hr =>
      obtain ⟨q, hq, rfl, hle, hdrop⟩ := afParseDnsQueryName_inv hr
      obtain ⟨qs, rest, hloop, hqs, hrest, hlen, hstop⟩ := @ih next (by omega)
      refine ⟨q :: qs, rest, ?_, ?_, ?_, Nat.succ_le_succ hlen, ?_⟩
      · rw [questionLoop, hr, bind_some]
        dsimp only
        rw [hloop]
        rfl
      · exact forall_mem_cons.2 ⟨hq, hqs⟩
      · rw [hdrop, hrest, flatMap_cons, append_assoc]
      · exact fun hlt => hstop (Nat.lt_of_succ_lt_succ hlt)

/-! ## Reads inside the message -/

theorem persists_copyLabel (mem post : List UInt8) (n offset : ℕ) (out : List UInt8) :
    Persists (copyLabel mem n offset out) (copyLabel (mem ++ post) n offset out) := by
  induction n generalizing offset out with
  | zero => exact .refl _
  | succ n ih => exact (persists_getElem? mem post offset).bind fun c => .ite (.refl _) (ih _ _)

theorem persists_nameLoop (mem post : List UInt8) (dnsLen n offset : ℕ) (out : List UInt8) :
    Persists (nameLoop mem dnsLen n offset out) (nameLoop (mem ++ post) dnsLen n offset out) := by
  induction n generalizing offset out with
  | zero => exact .refl _
  | succ n ih =>
    refine .ite (.refl _) ((persists_getElem? mem post offset).bind fun c => ?_)
    refine .ite (.refl _) (.ite (.refl _) (.ite (.refl _) (.ite (.refl _) ?_)))
    refine (persists_copyLabel mem post _ _ _).bind fun r => ?_
    cases r with
    | none => exact .refl _
    | some out => exact ih _ _

theorem persists_afParseDnsQueryName (mem post : List UInt8) (dnsLen offset : ℕ) :
    Persists (afParseDnsQueryName mem dnsLen offset)
      (afParseDnsQueryName (mem ++ post) dnsLen offset) := by
  refine .ite (.refl _) (.ite (.refl _) ((persists_nameLoop mem post _ _ _ _).bind fun r => ?_))
  match r with
  | none => exact .refl _
  | some (out, offset) =>
    exact .ite (.refl _) (.ite (.refl _) ((persists_loadNat mem post offset 2).map _))

theorem persists_questionLoop (mem post : List UInt8) (dnsLen n offset : ℕ) :
    Persists (questionLoop mem dnsLen n offset) (questionLoop (mem ++ post) dnsLen n offset) := by
  induction n generalizing offset with
  | zero => exact .refl _
  | succ n ih =>
    refine (persists_afParseDnsQueryName mem post dnsLen offset).bind fun r => ?_
    match r with
    | none => exact .refl _
    | some (query, offset) => exact (ih offset).map _

theorem persists_dnsMessage (flow : FlowInfo) (mem post : List UInt8) (dnsLen : ℕ) :
    Persists (dnsMessage flow mem dnsLen) (dnsMessage flow (mem ++ post) dnsLen) := by
  refine (persists_loadNat mem post 2 2).bind fun flags => ?_
  refine (persists_loadNat mem post 4 2).bind fun qdcount => .ite (.refl _) ?_
  exact (persists_questionLoop mem post dnsLen _ 12).bind fun queries => .refl _

/-! ## Payloads -/

variable {flow : FlowInfo} {m : List UInt8}

/-- The payload has the message `m`, over TCP behind its length. -/
def FlowInfo.Carries (flow : FlowInfo) (m : List UInt8) : Prop :=
  (flow.l4Protocol = 17 ∧ flow.l4Data = m) ∨ (flow.l4Protocol = 6 ∧ m.length < 256 ^ 2 ∧
      ∃ post, flow.l4Data = bytesOf 2 m.length ++ (m ++ post))

/-- A flow with a whole payload, for or from the port of DNS, before the scanner has run. -/
structure FlowInfo.Dns (flow : FlowInfo) : Prop where
  whole : flow.l4Len = flow.l4Data.length
  port : flow.sport = 53 ∨ flow.dport = 53
  fresh : flow.dns = ⟨false, 0, []⟩

/-- The number of questions that the header of a query announces and the flow has room for. -/
def questionCount (m : List UInt8) : ℕ :=
  match loadNat m 2 2, loadNat m 4 2 with
  | some flags, some qdcount => if 0x8000 ≤ flags then 0 else min qdcount 16
  | _, _ => 0

/-- The queries are those of the first questions of a message, all that are announced or those
    before the first that is malformed. -/
def FirstQuestions (m : List UInt8) (queries : List DnsQuery) : Prop :=
  ∃ (qs : List Question) (rest : List UInt8), queries = qs.map Question.stored ∧
    (∀ q ∈ qs, q.Valid) ∧ m.drop 12 = qs.flatMap Question.encode ++ rest ∧
    qs.length ≤ questionCount m ∧
    (qs.length < questionCount m → ∀ q : Question, q.Valid → ¬ q.encode <+: rest)

/-- What the scanner did with a flow, and that it matches exactly if it stored a query. -/
structure Scanned (flow : FlowInfo) (r : ℤ × FlowInfo) (queries : List DnsQuery) : Prop where
  frame : ∃ dns, r.2 = { flow with dns := dns } ∧ dns.queries = queries
  matched : r.2.dns.matched = true ↔ queries ≠ []
  ret : r.1 = 0 ↔ queries ≠ []

theorem scanned_nothing (hf : flow.Dns) : Scanned flow (-1, flow) [] where
  frame := ⟨flow.dns, rfl, by rw [hf.fresh]⟩
  matched := by simp [hf.fresh]
  ret := by simp

theorem dnsMessage_scanned (hf : flow.Dns) {dnsLen flags qdcount : ℕ} {queries : List DnsQuery}
    (hflags : loadNat mem 2 2 = some flags) (hqdcount : loadNat mem 4 2 = some qdcount)
    (hloop : questionLoop mem dnsLen (if 0x8000 ≤ flags then 0 else min qdcount 16) 12 =
      some queries) :
    ∃ r, dnsMessage flow mem dnsLen = some r ∧ Scanned flow r queries := by
  simp only [dnsMessage, hflags, hqdcount, bind_eq_bind, bind_some]
  by_cases hquery : 0x8000 ≤ flags ∨ qdcount = 0
  · have hnone : (if 0x8000 ≤ flags then 0 else min qdcount 16) = 0 := by split <;> omega
    rw [hnone] at hloop
    cases hloop
    rw [if_pos hquery]
    exact ⟨_, rfl, scanned_nothing hf⟩
  · rw [if_neg (by omega)] at hloop
    rw [if_neg hquery, hloop, bind_some]
    cases queries with
    | nil => exact ⟨_, rfl, ⟨_, rfl, by rw [hf.fresh]⟩, by simp [hf.fresh], by simp⟩
    | cons query queries => exact ⟨_, rfl, ⟨_, rfl, rfl⟩, by simp, by simp⟩

theorem questionLoop_short {dnsLen : ℕ} (h : dnsLen ≤ 12) (n offset : ℕ) :
    questionLoop mem dnsLen n offset = some [] := by
  cases n with
  | zero => rfl
  | succ n =>
    have hnone : afParseDnsQueryName mem dnsLen offset = some none := by
      unfold afParseDnsQueryName
      split
      · rfl
      · rw [if_pos (.inl h)]
    rw [questionLoop, hnone]
    rfl

theorem firstQuestions_short (h : m.length ≤ 12) : FirstQuestions m [] := by
  refine ⟨[], [], rfl, forall_mem_nil _, drop_of_length_le h, Nat.zero_le _, ?_⟩
  intro _ q _ hprefix
  have hlen := hprefix.length_le
  rw [q.length_encode] at hlen
  cases hlen

section

variable (hf : flow.Dns)

include hf

theorem dnsMessage_spec_of_length (h : 6 ≤ m.length) :
    ∃ r queries, dnsMessage flow m m.length = some r ∧ Scanned flow r queries ∧
      FirstQuestions m queries := by
  obtain ⟨flags, hflags⟩ := @loadNat_of_le m 2 2 (by omega)
  obtain ⟨qdcount, hqdcount⟩ := @loadNat_of_le m 4 2 (by omega)
  obtain ⟨qs, rest, hloop, hqs, hdrop, hle, hstop⟩ := @questionLoop_spec m
    (if 0x8000 ≤ flags then 0 else min qdcount 16) 12 le_rfl
  have hcount : questionCount m = if 0x8000 ≤ flags then 0 else min qdcount 16 := by
    rw [questionCount, hflags, hqdcount]
  obtain ⟨r, hr, hscan⟩ := dnsMessage_scanned hf hflags hqdcount hloop
  exact ⟨r, _, hr, hscan, qs, rest, rfl, hqs, hdrop, hcount ▸ hle, hcount ▸ hstop⟩

theorem dpiDnsProto_carries (hc : flow.Carries m) :
    (m.length ≤ 12 ∧ dpiDnsProto flow = some (-1, flow)) ∨ ∃ post, 12 ≤ (m ++ post).length ∧
        dpiDnsProto flow = dnsMessage flow (m ++ post) m.length := by
  have hwhole := hf.whole
  have hport : ¬ (flow.sport ≠ 53 ∧ flow.dport ≠ 53) := fun h => hf.port.elim h.1 h.2
  rcases hc with ⟨hudp, hdata⟩ | ⟨htcp, hlt, post, hdata⟩
  · rw [hdata] at hwhole
    by_cases hshort : m.length ≤ 12
    · refine .inl ⟨hshort, ?_⟩
      rw [dpiDnsProto, if_pos (by omega)]
    · refine .inr ⟨[], by rw [append_nil]; omega, ?_⟩
      rw [dpiDnsProto, if_neg (by omega), if_neg hport, if_neg (by omega), if_pos hudp, hwhole,
        hdata, append_nil, Int.toNat_natCast]
  · have hlen := congrArg List.length hdata
    simp only [length_append, length_bytesOf] at hlen
    have hread : loadNat flow.l4Data 0 2 = some m.length :=
      loadNat_of_drop (Nat.zero_le _) (by rw [drop_zero, hdata]) hlt
    have hdrop : flow.l4Data.drop 2 = m ++ post := by rw [hdata, drop_left' (length_bytesOf 2 _)]
    by_cases hempty : flow.l4Len ≤ 14 ∨ m.length = 0
    · refine .inl ⟨by omega, ?_⟩
      unfold dpiDnsProto
      split
      · rfl
      · split
        · rfl
        · rw [hread, bind_some, if_pos (by omega)]
    · refine .inr ⟨post, by rw [length_append]; omega, ?_⟩
      rw [dpiDnsProto, if_neg (by omega), if_neg hport, if_pos htcp, if_neg (by omega), hread,
        bind_some, if_neg (by omega), hdrop]

theorem dpiDnsProto_firstQuestions (hc : flow.Carries m) :
    ∃ r queries, dpiDnsProto flow = some r ∧ Scanned flow r queries ∧ FirstQuestions m queries := by
  rcases dpiDnsProto_carries hf hc with ⟨hshort, h⟩ | ⟨post, hlen, h⟩
  · exact ⟨_, [], h, scanned_nothing hf, firstQuestions_short hshort⟩
  · by_cases hshort : m.length ≤ 12
    · obtain ⟨flags, hflags⟩ := @loadNat_of_le (m ++ post) 2 2 (by omega)
      obtain ⟨qdcount, hqdcount⟩ := @loadNat_of_le (m ++ post) 4 2 (by omega)
      obtain ⟨r, hr, hscan⟩ := dnsMessage_scanned hf hflags hqdcount
        (questionLoop_short hshort _ 12)
      exact ⟨r, [], h.trans hr, hscan, firstQuestions_short hshort⟩
    · obtain ⟨r, queries, hr, hscan, hfirst⟩ := dnsMessage_spec_of_length hf
        (show 6 ≤ m.length by omega)
      exact ⟨r, queries, h.trans (persists_dnsMessage flow m post _ r hr), hscan, hfirst⟩

/-- The scanner gives up before the message, or reads no byte behind it: with the message alone
    in memory it does the same. -/
def ReadsInside (flow : FlowInfo) (m : List UInt8) : Prop :=
  dpiDnsProto flow = some (-1, flow) ∨
    ∃ r, dnsMessage flow m m.length = some r ∧ dpiDnsProto flow = some r

theorem readsInside (hc : flow.Carries m) (h : 6 ≤ m.length) : ReadsInside flow m := by
  rcases dpiDnsProto_carries hf hc with ⟨-, hnone⟩ | ⟨post, -, hmessage⟩
  · exact .inl hnone
  · obtain ⟨r, -, hr, -⟩ := dnsMessage_spec_of_length hf h
    exact .inr ⟨r, hr, hmessage.trans (persists_dnsMessage flow m post _ r hr)⟩

theorem dpiDnsProto_nothing (hnone : ∀ m, ¬ flow.Carries m) :
    dpiDnsProto flow = some (-1, flow) := by
  have hwhole := hf.whole
  have hudp : flow.l4Protocol ≠ 17 := fun h => hnone _ (.inl ⟨h, rfl⟩)
  unfold dpiDnsProto
  split
  · rfl
  · split
    · rfl
    · split
      · next htcp =>
        split
        · rfl
        · obtain ⟨msgLen, hread⟩ := @loadNat_of_le flow.l4Data 0 2 (by omega)
          rw [hread, bind_some, if_pos]
          by_contra hsome
          have hdata := drop_of_loadNat hread
          have htake : ((flow.l4Data.drop 2).take msgLen).length = msgLen := by
            rw [length_take, length_drop]
            omega
          refine hnone ((flow.l4Data.drop 2).take msgLen) (.inr ⟨htcp, ?_, ?_⟩)
          · rw [htake]
            exact loadNat_lt hread
          · refine ⟨(flow.l4Data.drop 2).drop msgLen, ?_⟩
            rwa [htake, take_append_drop]
      · rfl

end

/-! ## Queries -/

/-- A message with its questions; `rest` are the records behind them. -/
structure Message where
  id : ℕ
  flags : ℕ
  ancount : ℕ
  nscount : ℕ
  arcount : ℕ
  questions : List Question
  rest : List UInt8

namespace Message

def encode (msg : Message) : List UInt8 :=
  bytesOf 2 msg.id ++ (bytesOf 2 msg.flags ++ (bytesOf 2 msg.questions.length ++
    (bytesOf 2 msg.ancount ++ (bytesOf 2 msg.nscount ++ (bytesOf 2 msg.arcount ++
      (msg.questions.flatMap Question.encode ++ msg.rest))))))

/-- A query. -/
structure Valid (msg : Message) : Prop where
  query : msg.flags < 0x8000
  count : msg.questions.length < 256 ^ 2
  questions : ∀ q ∈ msg.questions, q.Valid

end Message

theorem drop_bytesOf_append (n v k : ℕ) (post : List UInt8) :
    (bytesOf n v ++ post).drop (n + k) = post.drop k := by
  rw [← drop_drop, drop_left' (length_bytesOf n v)]

theorem dpiDnsProto_encode (hf : flow.Dns) {msg : Message} (hmsg : msg.Valid)
    (hc : flow.Carries msg.encode) :
    ∃ r, dpiDnsProto flow = some r ∧
      Scanned flow r ((msg.questions.take 16).map Question.stored) := by
  have hlen : 12 ≤ msg.encode.length := by
    simp only [Message.encode, length_append, length_bytesOf]
    omega
  have hflagsAt : msg.encode.drop 2 = bytesOf 2 msg.flags ++ _ := drop_bytesOf_append 2 _ 0 _
  have hcountAt : msg.encode.drop 4 = bytesOf 2 msg.questions.length ++ _ :=
    (drop_bytesOf_append 2 _ 2 _).trans (drop_bytesOf_append 2 _ 0 _)
  have hquestionsAt : msg.encode.drop 12 = msg.questions.flatMap Question.encode ++ msg.rest :=
    (drop_bytesOf_append 2 _ 10 _).trans <| (drop_bytesOf_append 2 _ 8 _).trans <|
      (drop_bytesOf_append 2 _ 6 _).trans <| (drop_bytesOf_append 2 _ 4 _).trans <|
        (drop_bytesOf_append 2 _ 2 _).trans (drop_bytesOf_append 2 _ 0 _)
  have hflags := loadNat_of_drop (by omega) hflagsAt (lt_trans hmsg.query (by decide))
  have hcount := loadNat_of_drop (by omega) hcountAt hmsg.count
  have hquery := hmsg.query
  have hloop := @questionLoop_encode msg.encode msg.questions (min msg.questions.length 16) 12 _
    hmsg.questions hquestionsAt le_rfl (Nat.min_le_left _ _)
  rw [← take_take, take_of_length_le (length_take_le' 16 _)] at hloop
  obtain ⟨r, hr, hscan⟩ := @dnsMessage_scanned _ _ hf msg.encode.length _ _ _ hflags hcount
    (by rw [if_neg (by omega)]; exact hloop)
  rcases dpiDnsProto_carries hf hc with ⟨hshort, hnone⟩ | ⟨post, -, hmessage⟩
  · -- A message that ends with its header has no questions.
    rw [questionLoop_short hshort] at hloop
    rw [← some.inj hloop]
    exact ⟨_, hnone, scanned_nothing hf⟩
  · exact ⟨r, hmessage.trans (persists_dnsMessage flow _ post _ r hr), hscan⟩

/-- A query is decoded to its first questions. What is stored of any other payload are the complete
    questions before the first that is malformed, and a message with the counts of its header is
    read on its own. -/
theorem dns_questions (hf : flow.Dns) :
    (∀ msg : Message, msg.Valid → flow.Carries msg.encode → ∃ r, dpiDnsProto flow = some r ∧
      Scanned flow r ((msg.questions.take 16).map Question.stored)) ∧
    (∀ m, flow.Carries m → (∃ r queries, dpiDnsProto flow = some r ∧ Scanned flow r queries ∧
      FirstQuestions m queries) ∧ (6 ≤ m.length → ReadsInside flow m)) ∧
    ((∀ m, ¬ flow.Carries m) → ∃ r, dpiDnsProto flow = some r ∧ Scanned flow r []) := by
  refine ⟨fun msg hmsg hc => dpiDnsProto_encode hf hmsg hc, fun m hc => ⟨?_, ?_⟩, fun hnone => ?_⟩
  · exact dpiDnsProto_firstQuestions hf hc
  · exact readsInside hf hc
  · exact ⟨_, dpiDnsProto_nothing hf hnone, scanned_nothing hf⟩

def oneQuestion (q : Question) : Message where
  id := 0x1c2f
  flags := 0x0100
  ancount := 0
  nscount := 0
  arcount := 0
  questions := [q]
  rest := []

def FlowInfo.query (m : List UInt8) : FlowInfo := .fresh 17 0xc000 53 m m.length

theorem dns_query (m : List UInt8) : (FlowInfo.query m).Dns := ⟨rfl, .inr rfl, rfl⟩

theorem dns_questions_host :
    ∃ r, dpiDnsProto (.query (oneQuestion ⟨[[0x41, 0x62], [0x63]], 1, 1⟩).encode) = some r ∧
      Scanned (.query (oneQuestion ⟨[[0x41, 0x62], [0x63]], 1, 1⟩).encode) r
        [⟨[0x61, 0x62, 0x2e, 0x63], 1⟩] :=
  (dns_questions (dns_query _)).1 (oneQuestion ⟨[[0x41, 0x62], [0x63]], 1, 1⟩)
    ⟨by decide, by decide, forall_mem_singleton.2
      ⟨by decide, by decide, by decide, by decide, by decide⟩⟩ (.inl ⟨rfl, rfl⟩)

/-- The name of the root has no labels, and is taken for a malformed one. -/
theorem root_not_stored : ¬ ∃ r, dpiDnsProto (.query (oneQuestion ⟨[], 2, 1⟩).encode) = some r ∧
    Scanned (.query (oneQuestion ⟨[], 2, 1⟩).encode) r
      (((oneQuestion ⟨[], 2, 1⟩).questions.take 16).map Question.stored) := by
  rintro ⟨r, hr, hscan⟩
  have hnone : dpiDnsProto (.query (oneQuestion ⟨[], 2, 1⟩).encode) = some (-1,
      { FlowInfo.query (oneQuestion ⟨[], 2, 1⟩).encode with dns := ⟨false, 1, []⟩ }) := by decide
  obtain rfl := some.inj (hr.symm.trans hnone)
  exact absurd hscan.ret (by decide)

end Apackage.OpenAppFilter.Dpi
