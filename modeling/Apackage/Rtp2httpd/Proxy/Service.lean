import Apackage.Rtp2httpd.Proxy.Query
import Apackage.Rtp2httpd.Routing.Route

/-
  HTTP proxy services made from a URL (`service_create_from_http_url` in `service.c`).

  Model. The values of `r2h-seek-offset` and `r2h-seek-mode` are taken out of the query here; what
  they mean is not part of the model. A loop over occurrences moves on by at least one byte each
  time, so the length of the query bounds it.
-/

namespace Apackage.Rtp2httpd

open List

/-! ## Seek parameters -/

/-- `playseek` or `tvdr`, in the case of the request. -/
def heuristicSeekName (qs : Bytes) : Option Bytes :=
  let startsParam (i : ℕ) : Bool := i = 1 || (0 < i && qs[i - 1]? = some ampersand)
  let nameAt (i n : ℕ) : Option Bytes := if startsParam i then some ((qs.drop i).take n) else none
  match (strcasestr (ascii "playseek=") qs).bind (nameAt · 8) with
  | some name => some name
  | none => (strcasestr (ascii "tvdr=") qs).bind (nameAt · 4)

/-- An occurrence that is not the start of a parameter. -/
def insideParam (qs : Bytes) (start : ℕ) : Bool :=
  0 < start && qs[start - 1]? ≠ some question && qs[start - 1]? ≠ some ampersand

/-- The decoded values of all parameters that match the pattern; none if one does not
    decode. -/
def seekValues (qs pattern : Bytes) : ℕ → ℕ → Option (List Bytes)
  | 0, _ => some []
  | n + 1, pos =>
    match strcasestr pattern (qs.drop pos) with
    | none => some []
    | some i =>
      let valueStart := pos + i + pattern.length
      if insideParam qs (pos + i) then seekValues qs pattern n valueStart
      else
        let value := valueAt qs valueStart
        match httpUrlDecode value with
        | none => none
        | some v => (seekValues qs pattern n (valueStart + value.length)).map (cstr v :: ·)

/-- Removes all parameters that match the pattern. -/
def removeSeekParams (pattern : Bytes) : ℕ → ℕ → Bytes → Bytes
  | 0, _, qs => qs
  | n + 1, pos, qs =>
    match strcasestr pattern (qs.drop pos) with
    | none => qs
    | some i =>
      let start := pos + i
      if insideParam qs start then removeSeekParams pattern n (start + pattern.length) qs
      else
        let removeStart := if 1 < start then start - 1 else start
        let valueEnd := start + (valueAt qs start).length
        if qs[valueEnd]? = some ampersand then
          removeSeekParams pattern n removeStart
            (if start = 1 then qs.take 1 ++ qs.drop (valueEnd + 1)
              else qs.take removeStart ++ qs.drop valueEnd)
        else if start = 1 then []
        else qs.take removeStart

structure SeekParams where
  paramName : Option Bytes
  paramValue : Option Bytes
  deriving DecidableEq

/-- The value that counts: the first without a placeholder, else the first. -/
def selectedValue (values : List Bytes) : Option Bytes :=
  match values.find? fun v => 0x7B ∉ v ∧ 0x7D ∉ v with
  | some v => some v
  | none => values.head?

/-- `service_extract_seek_params`: the query that remains and the parameters; none is -1. -/
def serviceExtractSeekParams (qs : Bytes) : Bytes × Option SeekParams :=
  let (qs, seekName) := extractQueryParam qs (ascii "r2h-seek-name") 128
  let (qs, _) := extractQueryParam qs (ascii "r2h-seek-offset") 32
  let (qs, _) := extractQueryParam qs (ascii "r2h-seek-mode") 96
  match seekName.toOption.or (heuristicSeekName qs) with
  | none => (qs, some ⟨none, none⟩)
  | some name =>
    if qs = [] then (qs, some ⟨some name, none⟩)
    else
      let pattern := (name ++ [equals]).take 127
      match seekValues qs pattern (qs.length + 1) 0 with
      | none => (qs, none)
      | some values =>
        let rest := if values = [] then qs else removeSeekParams pattern (qs.length + 1) 0 qs
        (rest, some ⟨some name, selectedValue values⟩)

/-! ## The service -/

/-- `service_extract_ifname_params`: the query that remains, `ifname` and `ifname_fcc`. -/
def serviceExtractIfnameParams (qs : Bytes) : Bytes × Option Bytes × Option Bytes :=
  if qs.head? ≠ some question then (qs, none, none)
  else
    let (qs, ifnameFcc) := extractQueryParam qs (ascii "r2h-ifname-fcc") 16
    let (qs, ifname) := extractQueryParam qs (ascii "r2h-ifname") 16
    (qs, ifname.toOption, ifnameFcc.toOption)

def serviceStripQueryParam (qs name : Bytes) : Bytes :=
  if qs.head? ≠ some question then qs else (extractQueryParam qs name 256).1

structure HttpService where
  url : Bytes
  httpUrl : Bytes
  seek : Option SeekParams
  ifname : Option Bytes
  ifnameFcc : Option Bytes

/-- What `service_create_from_http_url` does to the query: the text that remains, the seek
    parameters, `ifname` and `ifname_fcc`. -/
def extractControls (qs : Bytes) : Bytes × Option SeekParams × Option Bytes × Option Bytes :=
  let (qs, seek) := serviceExtractSeekParams qs
  let (qs, ifname, ifnameFcc) := serviceExtractIfnameParams qs
  let qs := serviceStripQueryParam qs (ascii "r2h-token")
  (serviceStripQueryParam qs (ascii "r2h-filename"), seek, ifname, ifnameFcc)

def urlPart (httpUrl : Bytes) : Option Bytes :=
  if ascii "/http/" <+: httpUrl then some (httpUrl.drop 6)
  else if ascii "http://" <+: httpUrl then some (httpUrl.drop 7)
  else none

def serviceCreateFromHttpUrl (httpUrl : Bytes) : Option HttpService :=
  if httpUrlBufferSize ≤ httpUrl.length then none
  else
    match urlPart httpUrl with
    | none => none
    | some part =>
      if part = [] ∨ part.head? = some slash then none
      else
        let fullUrl := ascii "http://" ++ part
        let path := pathOf fullUrl
        let (qs, seek, ifname, ifnameFcc) := extractControls (fullUrl.drop path.length)
        some ⟨httpUrl, path ++ qs, seek, ifname, ifnameFcc⟩

/-- `service_create_from_udpxy_url`, as far as it makes HTTP services. -/
def serviceCreateFromUdpxyUrl (url : Bytes) : Option HttpService :=
  if ascii "/rtp/" <+: url ∨ ascii "/udp/" <+: url then none
  else if ascii "/rtsp/" <+: url then none
  else if ascii "/http/" <+: url then serviceCreateFromHttpUrl url
  else none

/-! ## Queries without control parameters -/

/-- The parameters that `service_create_from_http_url` looks for. -/
def controlNames : List Bytes :=
  [ascii "r2h-seek-name", ascii "r2h-seek-offset", ascii "r2h-seek-mode", ascii "playseek",
    ascii "tvdr", ascii "r2h-ifname-fcc", ascii "r2h-ifname", ascii "r2h-filename"]

/-- No parameter of the query has one of these names. -/
def Unnamed (names : List Bytes) (body : Bytes) : Prop :=
  ∀ name ∈ names, ∀ p, ParamAt body p → named name p = false

theorem unnamed_last (names : List Bytes) {q p : Bytes} (hp : ampersand ∉ p)
    (hnames : ∀ name ∈ names, ∀ k ∈ name, toLower k ≠ ampersand)
    (hlast : ∀ name ∈ names, named name p = false) (hq : Unnamed names q) :
    Unnamed names (q ++ ampersand :: p) := by
  intro name hname p' hp'
  rcases paramAt_last hp hp' with rfl | ⟨q', hq', rfl⟩
  · exact hlast name hname
  · by_contra hn
    rw [Bool.not_eq_false] at hn
    have := hq name hname q' hq'
    rw [named_of_append (hnames name hname) hn] at this
    cases this

theorem unnamed_single {names : List Bytes} {p : Bytes} (hp : ampersand ∉ p)
    (hlast : ∀ name ∈ names, named name p = false) : Unnamed names p := by
  intro name hname p' hp'
  rw [paramAt_single hp hp']
  exact hlast name hname

theorem find_unnamed {names : List Bytes} {body : Bytes} (h : Unnamed names body) {name : Bytes}
    (hname : name ∈ names) (c : UInt8) : findQueryParam (c :: body) name = none :=
  findQueryParam_eq_none.2 (h name hname)

theorem named_of_strcasestr {name body : Bytes} {i : ℕ}
    (hi : strcasestr (name ++ [equals]) (question :: body) = some i)
    (hs : i = 1 ∨ 0 < i ∧ (question :: body)[i - 1]? = some ampersand) :
    ∃ p, ParamAt body p ∧ named name p = true := by
  obtain ⟨j, rfl⟩ : ∃ j, i = j + 1 := ⟨i - 1, by omega⟩
  have hp := named_of_prefix (strcasestr_starts hi)
  rw [drop_succ_cons] at hp
  refine ⟨body.drop j, ⟨body.take j, (take_append_drop j body).symm, ?_⟩, hp⟩
  rw [Nat.add_sub_cancel] at hs
  cases j with
  | zero => exact .inl take_zero
  | succ k =>
    grind

theorem heuristicSeekName_unnamed {body : Bytes}
    (hplayseek : ∀ p, ParamAt body p → named (ascii "playseek") p = false)
    (htvdr : ∀ p, ParamAt body p → named (ascii "tvdr") p = false) :
    heuristicSeekName (question :: body) = none := by
  have hnone : ∀ name n, (∀ p, ParamAt body p → named name p = false) →
      ((strcasestr (name ++ [equals]) (question :: body)).bind fun i =>
        if (i = 1 || (0 < i && (question :: body)[i - 1]? = some ampersand) : Bool) then
          some (((question :: body).drop i).take n) else none) = none := by
    intro name n hname
    cases hi : strcasestr (name ++ [equals]) (question :: body) with
    | none => rfl
    | some i =>
      refine if_neg fun hs => ?_
      rw [Bool.or_eq_true, Bool.and_eq_true, decide_eq_true_eq, decide_eq_true_eq,
        decide_eq_true_eq] at hs
      obtain ⟨p, hp, hn⟩ := named_of_strcasestr hi hs
      rw [hname p hp] at hn
      cases hn
  unfold heuristicSeekName
  dsimp only
  rw [show ascii "playseek=" = ascii "playseek" ++ [equals] by rfl,
    show ascii "tvdr=" = ascii "tvdr" ++ [equals] by rfl, hnone _ _ hplayseek, hnone _ _ htvdr]

theorem serviceExtractSeekParams_unnamed {body : Bytes} (h : Unnamed controlNames body) :
    serviceExtractSeekParams (question :: body) = (question :: body, some ⟨none, none⟩) := by
  unfold serviceExtractSeekParams
  rw [extractQueryParam_absent (find_unnamed h (by decide) question)]
  dsimp only
  rw [extractQueryParam_absent (find_unnamed h (by decide) question)]
  rw [extractQueryParam_absent (find_unnamed h (by decide) question)]
  rw [heuristicSeekName_unnamed (h _ (by decide)) (h _ (by decide))]
  rfl

theorem serviceExtractIfnameParams_unnamed {body : Bytes} (h : Unnamed controlNames body) :
    serviceExtractIfnameParams (question :: body) = (question :: body, none, none) := by
  unfold serviceExtractIfnameParams
  rw [if_neg (by simp), extractQueryParam_absent (find_unnamed h (by decide) question)]
  dsimp only
  rw [extractQueryParam_absent (find_unnamed h (by decide) question)]
  rfl

theorem serviceStripQueryParam_absent {qs name : Bytes} (h : findQueryParam qs name = none) :
    serviceStripQueryParam qs name = qs := by
  unfold serviceStripQueryParam
  rw [extractQueryParam_absent h, ite_self]

theorem extractControls_unnamed {body : Bytes} (h : Unnamed controlNames body) :
    (extractControls (question :: body)).1 =
      serviceStripQueryParam (serviceStripQueryParam (question :: body) (ascii "r2h-token"))
        (ascii "r2h-filename") := by
  unfold extractControls
  rw [serviceExtractSeekParams_unnamed h]
  dsimp only
  rw [serviceExtractIfnameParams_unnamed h]

theorem extractControls_nil : (extractControls []).1 = [] := by decide

/-! ## The token -/

def tokenName : Bytes := ascii "r2h-token"

theorem extractControls_plain {body : Bytes} (h : Unnamed (tokenName :: controlNames) body) :
    (extractControls (question :: body)).1 = question :: body := by
  rw [extractControls_unnamed fun name hname => h name (mem_cons_of_mem _ hname)]
  have htoken : findQueryParam (question :: body) (ascii "r2h-token") = none :=
    find_unnamed h mem_cons_self question
  rw [serviceStripQueryParam_absent htoken]
  exact serviceStripQueryParam_absent (find_unnamed h (by decide) question)

/-- The parameter that `http_proxy_build_url` appends. -/
def tokenParam (value : Bytes) : Bytes := ascii "r2h-token=" ++ value

theorem named_tokenParam (value : Bytes) : named tokenName (tokenParam value) = true := rfl

theorem controlNames_tokenParam (value : Bytes) :
    ∀ name ∈ controlNames, named name (tokenParam value) = false := by
  intro name hname
  simp only [controlNames, List.mem_cons, not_mem_nil, or_false] at hname
  rcases hname with rfl | rfl | rfl | rfl | rfl | rfl | rfl | rfl <;> rfl

theorem ampersand_not_mem_tokenParam {value : Bytes} (h : ampersand ∉ value) :
    ampersand ∉ tokenParam value := by
  rw [tokenParam, mem_append, not_or]
  exact ⟨by decide, h⟩

theorem find_token_last {q : Bytes} (value : Bytes)
    (hq : ∀ p, ParamAt q p → named tokenName p = false) :
    findFrom tokenName true ((q ++ [ampersand]) ++ tokenParam value) =
      some (q ++ [ampersand]).length := by
  refine findFrom_append (named_tokenParam value) (.inr (by simp)) ?_
  intro s p' hsp hne hs
  obtain ⟨p, x, rfl⟩ := (eq_nil_or_concat p').resolve_left hne
  rw [concat_eq_append, ← append_assoc] at hsp
  obtain ⟨rfl, hx⟩ := append_inj' hsp rfl
  obtain rfl := singleton_inj.1 hx
  by_contra hn
  rw [Bool.not_eq_false, concat_eq_append, append_assoc, singleton_append] at hn
  have hp := hq p ⟨s, rfl, hs.imp_left And.left⟩
  rw [named_of_append (by decide +kernel) hn] at hp
  cases hp

section

variable {value : Bytes} (hvalue : ampersand ∉ value)

include hvalue

theorem strip_token_last {q : Bytes} (hq : ∀ p, ParamAt q p → named tokenName p = false) :
    serviceStripQueryParam (question :: (q ++ ampersand :: tokenParam value)) tokenName =
      question :: q := by
  have hfind := find_token_last value hq
  have hstrip := stripFirst_last (c := question) (.inr (by simp))
    (ampersand_not_mem_tokenParam hvalue) hfind
  rw [if_neg (by simp), dropLast_concat, append_assoc, singleton_append] at hstrip
  unfold serviceStripQueryParam
  rw [if_neg (by simp), extractQueryParam_fst (m := (q ++ [ampersand]).length + 1), hstrip]
  · rw [append_assoc, singleton_append] at hfind
    rw [findQueryParam, hfind]
    rfl
  · rw [hstrip, findQueryParam_eq_none]
    exact hq

theorem strip_token_single :
    serviceStripQueryParam (question :: tokenParam value) tokenName = [] := by
  have hfind : findFrom tokenName true ([] ++ tokenParam value) = some 0 :=
    findFrom_append (named_tokenParam value) (.inl ⟨rfl, rfl⟩) fun s p hsp hne =>
      absurd (append_eq_nil_iff.1 hsp.symm).2 hne
  have hstrip := stripFirst_last (c := question) (.inl rfl)
    (ampersand_not_mem_tokenParam hvalue) hfind
  rw [if_pos rfl, nil_append] at hstrip
  unfold serviceStripQueryParam
  rw [if_neg (by simp), extractQueryParam_fst (m := 1), hstrip]
  · rw [findQueryParam]
    exact congrArg (Option.map (· + 1)) hfind
  · rw [hstrip]
    rfl

theorem extractControls_token {q : Bytes} (hq : Unnamed (tokenName :: controlNames) q) :
    (extractControls (question :: (q ++ ampersand :: tokenParam value))).1 = question :: q := by
  have hcontrols : Unnamed controlNames q := fun name hname => hq name (mem_cons_of_mem _ hname)
  rw [extractControls_unnamed (unnamed_last _ (ampersand_not_mem_tokenParam hvalue)
    (by decide +kernel) (controlNames_tokenParam value) hcontrols)]
  have hstrip := strip_token_last hvalue (hq tokenName mem_cons_self)
  unfold tokenName at hstrip
  rw [hstrip]
  exact serviceStripQueryParam_absent (find_unnamed hcontrols (by decide) question)

theorem extractControls_token_single : (extractControls (question :: tokenParam value)).1 = [] := by
  rw [extractControls_unnamed (unnamed_single (ampersand_not_mem_tokenParam hvalue)
    (controlNames_tokenParam value))]
  have hstrip := strip_token_single hvalue
  unfold tokenName at hstrip
  rw [hstrip]
  rfl

end

end Apackage.Rtp2httpd
