import Mathlib.Order.Basic
import Apackage.Rtp2httpd.Http.Url
import Apackage.Rtp2httpd.Web.JsString

/-
  URL labels in the web player (`media-direct-link.ts`) and on the server (`http.c`).

  Both take the `$label` off a URL, the player from a string of UTF-16 units
  (`stripPlaylistUrlLabel`), the server from bytes (`http_strip_url_label`). The server cuts the
  path at its last `$` that starts a label; the player ends a label at `?`, `#` or `&`, keeps
  what follows, and looks further to the left when the label is empty or runs into a `/`.

  Model. A request path is a text without `?`, `#` and NUL; the player has it in UTF-16 and the
  server in UTF-8.
-/

namespace Apackage.Rtp2httpd

open List Lib.TextCode

/-- The characters at which the player ends a label. -/
def endsLabel (c : UInt16) : Bool :=
  c = jsChar '?' || c = jsChar '#' || c = jsChar '&' || c = jsChar '/'

/-- `labelEnd` behind a `$` at `i`. -/
def labelEnd (url : JsString) (i : ℕ) : ℕ :=
  i + 1 + ((url.drop (i + 1)).takeWhile fun c => !endsLabel c).length

/-- The loop of `stripPlaylistUrlLabel` from `i - 1` down. -/
def stripFrom (url : JsString) : ℕ → JsString
  | 0 => url
  | i + 1 =>
    if url[i]? ≠ some (jsChar '$') then stripFrom url i
    else if i = url.length - 1 then stripFrom url i
    else if url[i + 1]? = some (jsChar '{') then stripFrom url i
    else if labelEnd url i < url.length ∧ url[labelEnd url i]? = some (jsChar '/') then
      stripFrom url i
    else if labelEnd url i = i + 1 then stripFrom url i
    else url.take i ++ url.drop (labelEnd url i)

def stripPlaylistUrlLabel (url : JsString) : JsString := stripFrom url url.length

/-! ## Where labels start -/

section

variable {U : Type*} (dollar brace : U)

/-- A `$` that starts a label: not the last unit, and not before `{`. -/
def LabelAt (u before label : List U) : Prop :=
  u = before ++ dollar :: label ∧ label ≠ [] ∧ label.head? ≠ some brace

variable {dollar brace}

theorem labelAt_index {u : List U} {i : ℕ} : LabelAt dollar brace u (u.take i) (u.drop (i + 1)) ↔
      u[i]? = some dollar ∧ i ≠ u.length - 1 ∧ u[i + 1]? ≠ some brace := by
  rw [LabelAt, head?_drop, ne_eq, ne_eq, drop_eq_nil_iff]
  constructor
  · grind
  · intro ⟨hi, hlast, hbrace⟩
    obtain ⟨hlt, hget⟩ := List.getElem?_eq_some_iff.1 hi
    refine ⟨?_, by omega, hbrace⟩
    rw [← hget, ← drop_eq_getElem_cons hlt, take_append_drop]

theorem labelAt_take {u before label : List U} (h : LabelAt dollar brace u before label) :
    before.length < u.length ∧ before = u.take before.length ∧
      label = u.drop (before.length + 1) := by
  obtain ⟨rfl, -, -⟩ := h
  refine ⟨by simp, by simp, ?_⟩
  rw [← drop_drop, drop_left]
  rfl

theorem LabelAt.append {s before label : List U} (h : LabelAt dollar brace s before label)
    (t : List U) : LabelAt dollar brace (s ++ t) before (label ++ t) := by
  obtain ⟨rfl, hne, hbrace⟩ := h
  refine ⟨by simp, by simp [hne], ?_⟩
  rwa [head?_append_of_ne_nil _ hne]

end

theorem labelAt_encode {U : Type*} (code : AsciiCode U) {t : List Char} {x y : List U} :
    LabelAt (code.unit '$') (code.unit '{') (code.encode t) x y ↔
      ∃ a l, LabelAt '$' '{' t a l ∧ code.encode a = x ∧ code.encode l = y := by
  have hdollar : '$'.toNat < 0x80 := by decide
  have hbrace : '{'.toNat < 0x80 := by decide
  constructor
  · rintro ⟨ht, hne, hhead⟩
    obtain ⟨a, l, rfl, rfl, rfl⟩ := code.encode_split hdollar ht
    refine ⟨a, l, ⟨rfl, fun hl => hne (code.encode_eq_nil.2 hl), ?_⟩, rfl, rfl⟩
    exact fun hl => hhead ((code.head?_encode hbrace).2 hl)
  · rintro ⟨a, l, ⟨rfl, hne, hhead⟩, rfl, rfl⟩
    refine ⟨?_, fun hl => hne (code.encode_eq_nil.1 hl), ?_⟩
    · rw [code.encode_append, code.encode_ascii hdollar]
    · exact fun hl => hhead ((code.head?_encode hbrace).1 hl)

/-! ## The player -/

/-- A label of a URL in the player. -/
abbrev JsLabelAt (url before label : JsString) : Prop :=
  LabelAt (jsChar '$') (jsChar '{') url before label

theorem stripFrom_skip {url : JsString} {i : ℕ}
    (h : ¬ JsLabelAt url (url.take i) (url.drop (i + 1))) :
    stripFrom url (i + 1) = stripFrom url i := by
  rw [JsLabelAt, labelAt_index] at h
  rw [stripFrom]
  split_ifs with h1 h2 h3
  · rfl
  · rfl
  · rfl
  all_goals exact absurd ⟨not_not.1 h1, h2, h3⟩ h

theorem stripFrom_label {url : JsString} {i : ℕ}
    (h : JsLabelAt url (url.take i) (url.drop (i + 1))) :
    stripFrom url (i + 1) =
      if labelEnd url i < url.length ∧ url[labelEnd url i]? = some (jsChar '/') then
        stripFrom url i
      else if labelEnd url i = i + 1 then stripFrom url i
      else url.take i ++ url.drop (labelEnd url i) := by
  obtain ⟨hdollar, hlast, hbrace⟩ := labelAt_index.1 h
  rw [stripFrom, if_neg (not_not.2 hdollar), if_neg hlast, if_neg hbrace]

theorem stripFrom_cases (url : JsString) (n : ℕ) : stripFrom url n = url ∨
      ∃ i, JsLabelAt url (url.take i) (url.drop (i + 1)) ∧
        stripFrom url n = url.take i ++ url.drop (labelEnd url i) := by
  induction n with
  | zero => exact .inl rfl
  | succ i ih =>
    by_cases h : JsLabelAt url (url.take i) (url.drop (i + 1))
    · rw [stripFrom_label h]
      split_ifs
      · exact ih
      · exact ih
      · exact .inr ⟨i, h, rfl⟩
    · rw [stripFrom_skip h]
      exact ih

theorem strip_none {url : JsString} (h : ∀ before label, ¬ JsLabelAt url before label) :
    stripPlaylistUrlLabel url = url := by
  rcases stripFrom_cases url url.length with heq | ⟨i, hi, -⟩
  · exact heq
  · exact absurd hi (h _ _)

theorem head_labelEnd {url : JsString} {i : ℕ} {c : UInt16}
    (h : (url.drop (labelEnd url i)).head? = some c) : endsLabel c = true := by
  have hdrop : url.drop (labelEnd url i) = (url.drop (i + 1)).dropWhile fun c => !endsLabel c := by
    rw [labelEnd, ← drop_drop]
    nth_rewrite 2 [← takeWhile_append_dropWhile (p := fun c => !endsLabel c)
      (l := url.drop (i + 1))]
    exact drop_left
  have hnot := head?_dropWhile_not (fun c => !endsLabel c) (url.drop (i + 1))
  rw [← hdrop, h] at hnot
  simpa using hnot

theorem strip_last {url before label : JsString} (h : JsLabelAt url before label)
    (hlast : ∀ b l, ¬ JsLabelAt label b l) (hends : ∀ c ∈ label, endsLabel c = false) :
    stripPlaylistUrlLabel url = before := by
  obtain ⟨hlt, htake, hdrop⟩ := labelAt_take h
  have hbehind : ∀ n, before.length < n → n ≤ url.length → stripFrom url n = before := by
    intro n hn hle
    induction n, hn using Nat.le_induction with
    | base =>
      rw [htake, hdrop] at h
      have hend : labelEnd url before.length = url.length := by
        rw [labelEnd, ← hdrop, takeWhile_eq_self_iff.2 (by simpa using hends), hdrop, length_drop]
        omega
      have hlong : url.length ≠ before.length + 1 := fun heq => h.2.1 (by simp [heq])
      rw [stripFrom_label h, hend, if_neg (by simp), if_neg hlong, drop_length, append_nil, ← htake]
    | succ n hn ih =>
      rw [stripFrom_skip, ih (by omega)]
      intro hlabel
      refine hlast ((url.take n).drop (before.length + 1)) (url.drop (n + 1)) ⟨?_, hlabel.2⟩
      have hsplit := congrArg (List.drop (before.length + 1)) hlabel.1
      rwa [← hdrop, drop_append_of_le_length (by rw [length_take]; omega)] at hsplit
  exact hbehind url.length hlt le_rfl

/-! ## The server -/

/-- A label of a path on the server. -/
abbrev HttpLabelAt (url before label : Bytes) : Prop :=
  LabelAt dollar (0x7B : UInt8) url before label

theorem findUrlLabel_spec (url : Bytes) : match httpFindUrlLabel url with
    | none => ∀ before label, ¬ HttpLabelAt url before label
    | some i => HttpLabelAt url (url.take i) (url.drop (i + 1)) ∧
        ∀ before label, ¬ HttpLabelAt (url.drop (i + 1)) before label := by
  induction url with
  | nil =>
    intro before label h
    simpa using h.1
  | cons c rest ih =>
    rw [httpFindUrlLabel]
    cases hrest : httpFindUrlLabel rest with
    | some i =>
      rw [hrest] at ih
      obtain ⟨⟨hsplit, hlabel⟩, hlast⟩ := ih
      exact ⟨⟨congrArg (List.cons c) hsplit, hlabel⟩, hlast⟩
    | none =>
      rw [hrest] at ih
      by_cases hc : c = dollar ∧ rest ≠ [] ∧ rest.head? ≠ some 0x7B
      · rw [if_pos hc]
        exact ⟨⟨by rw [hc.1]; rfl, hc.2⟩, ih⟩
      · rw [if_neg hc]
        rintro before label ⟨hsplit, hlabel⟩
        cases before with
        | nil =>
          obtain ⟨rfl, rfl⟩ := cons_eq_cons.1 hsplit
          exact hc ⟨rfl, hlabel⟩
        | cons b before =>
          obtain ⟨rfl, rfl⟩ := cons_eq_cons.1 hsplit
          exact ih before label ⟨rfl, hlabel⟩

theorem httpStrip_none {url : Bytes} (h : ∀ before label, ¬ HttpLabelAt url before label) :
    httpStripUrlLabel url = url := by
  have hspec := findUrlLabel_spec url
  rw [httpStripUrlLabel]
  cases hfind : httpFindUrlLabel url with
  | none => rfl
  | some i =>
    rw [hfind] at hspec
    exact absurd hspec.1 (h _ _)

theorem httpStrip_last {url before label : Bytes} (h : HttpLabelAt url before label) :
    ∃ b l, HttpLabelAt url b l ∧ (∀ x y, ¬ HttpLabelAt l x y) ∧ httpStripUrlLabel url = b := by
  have hspec := findUrlLabel_spec url
  rw [httpStripUrlLabel]
  cases hfind : httpFindUrlLabel url with
  | none =>
    rw [hfind] at hspec
    exact absurd h (hspec _ _)
  | some i =>
    rw [hfind] at hspec
    exact ⟨_, _, hspec.1, hspec.2, rfl⟩

/-! ## The same label -/

/-- Player and server strip a path to the same text, and stripping that on either side leaves
    it alone. -/
def StrippedAlike (path : List Char) : Prop :=
  ∃ kept, stripPlaylistUrlLabel (utf16 path) = utf16 kept ∧
    httpStripUrlLabel (utf8 path) = utf8 kept ∧
    stripPlaylistUrlLabel (utf16 kept) = utf16 kept ∧ httpStripUrlLabel (utf8 kept) = utf8 kept

/-- A label holds no `&` and no `/`, and no label starts before it in the path without it. -/
def PlainLabels (path : List Char) : Prop :=
  ∀ before label, LabelAt '$' '{' path before label →
    '&' ∉ label ∧ '/' ∉ label ∧ ∀ b l, ¬ LabelAt '$' '{' before b l

theorem labelAt_before {α : Type*} {d b : α} {u x l y m : List α} (hx : LabelAt d b u x l)
    (hy : LabelAt d b u y m) (hlast : ∀ v w, ¬ LabelAt d b m v w) :
    (x = y ∧ l = m) ∨ ∃ z, y = x ++ d :: z ∧ l = z ++ d :: m := by
  rcases append_eq_append_iff.1 (hx.1.symm.trans hy.1) with ⟨z, rfl, hl⟩ | ⟨z, rfl, hm⟩
  · cases z with
    | nil => exact .inl ⟨by simp, (cons_eq_cons.1 hl).2⟩
    | cons e z =>
      obtain ⟨rfl, rfl⟩ := cons_eq_cons.1 hl
      exact .inr ⟨z, rfl, rfl⟩
  · cases z with
    | nil => exact .inl ⟨by simp, (cons_eq_cons.1 hm).2.symm⟩
    | cons e z =>
      obtain ⟨rfl, rfl⟩ := cons_eq_cons.1 hm
      exact absurd ⟨rfl, hx.2⟩ (hlast z l)

theorem not_labelAt_utf16 {t : List Char} (h : ∀ a l, ¬ LabelAt '$' '{' t a l) :
    ∀ x y, ¬ JsLabelAt (utf16 t) x y := by
  intro x y hxy
  obtain ⟨a, l, hal, -⟩ := (labelAt_encode utf16Code).1 hxy
  exact h a l hal

theorem not_labelAt_utf8 {t : List Char} (h : ∀ a l, ¬ LabelAt '$' '{' t a l) :
    ∀ x y, ¬ HttpLabelAt (utf8 t) x y := by
  intro x y hxy
  obtain ⟨a, l, hal, -⟩ := (labelAt_encode utf8Code).1 hxy
  exact h a l hal

theorem httpStrip_text {t a l : List Char} (h : LabelAt '$' '{' t a l) :
    ∃ b m, LabelAt '$' '{' t b m ∧ (∀ x y, ¬ LabelAt '$' '{' m x y) ∧
      httpStripUrlLabel (utf8 t) = utf8 b := by
  obtain ⟨x, y, hxy, hlast, hstrip⟩ :=
    httpStrip_last ((labelAt_encode utf8Code).2 ⟨a, l, h, rfl, rfl⟩)
  obtain ⟨b, m, hbm, rfl, rfl⟩ := (labelAt_encode utf8Code).1 hxy
  exact ⟨b, m, hbm, fun v w hvw => hlast _ _ ((labelAt_encode utf8Code).2 ⟨v, w, hvw, rfl, rfl⟩),
    hstrip⟩

theorem endsLabel_utf16 {t : List Char} {c : UInt16} (hc : c ∈ utf16 t)
    (hq : '?' ∉ t) (hf : '#' ∉ t) (ha : '&' ∉ t) (hs : '/' ∉ t) : endsLabel c = false := by
  rw [Bool.eq_false_iff]
  intro hends
  simp only [endsLabel, Bool.or_eq_true, decide_eq_true_eq] at hends
  rcases hends with ((rfl | rfl) | rfl) | rfl
  · exact hq ((utf16Code.mem_encode (by decide)).1 hc)
  · exact hf ((utf16Code.mem_encode (by decide)).1 hc)
  · exact ha ((utf16Code.mem_encode (by decide)).1 hc)
  · exact hs ((utf16Code.mem_encode (by decide)).1 hc)

theorem strippedAlike_of_plain {path : List Char} (hquery : '?' ∉ path) (hfragment : '#' ∉ path)
    (h : PlainLabels path) : StrippedAlike path := by
  by_cases hnone : ∀ a l, ¬ LabelAt '$' '{' path a l
  · have hplayer := strip_none (not_labelAt_utf16 hnone)
    have hserver := httpStrip_none (not_labelAt_utf8 hnone)
    exact ⟨path, hplayer, hserver, hplayer, hserver⟩
  · push Not at hnone
    obtain ⟨a, l, hal⟩ := hnone
    obtain ⟨b, m, hbm, hlast, hserver⟩ := httpStrip_text hal
    obtain ⟨hamp, hslash, hbefore⟩ := h b m hbm
    have hmem : ∀ c ∈ m, c ∈ path := fun c hc => by
      rw [hbm.1]
      exact mem_append_right _ (mem_cons_of_mem _ hc)
    refine ⟨b, ?_, hserver, strip_none (not_labelAt_utf16 hbefore),
      httpStrip_none (not_labelAt_utf8 hbefore)⟩
    exact strip_last ((labelAt_encode utf16Code).2 ⟨b, m, hbm, rfl, rfl⟩)
      (not_labelAt_utf16 hlast) fun c hc => endsLabel_utf16 hc (fun hc => hquery (hmem _ hc))
        (fun hc => hfragment (hmem _ hc)) hamp hslash

theorem no_label_of_kept {b : List Char} (h : httpStripUrlLabel (utf8 b) = utf8 b) :
    ∀ x y, ¬ LabelAt '$' '{' b x y := by
  intro x y hxy
  obtain ⟨b', m, hbm, -, hstrip⟩ := httpStrip_text hxy
  have heq := utf8_injective (hstrip.symm.trans h)
  have hlen := congrArg List.length hbm.1
  rw [heq, length_append, length_cons] at hlen
  omega

theorem plain_of_stripped {t b m : List Char} (hbm : LabelAt '$' '{' t b m)
    (hlast : ∀ x y, ¬ LabelAt '$' '{' m x y)
    (h : stripPlaylistUrlLabel (utf16 t) = utf16 b) : '&' ∉ m ∧ '/' ∉ m := by
  have hends : ∀ c ∈ utf16 m, endsLabel c = false := by
    rcases stripFrom_cases (utf16 t) (utf16 t).length with heq | ⟨i, hi, heq⟩
    · have hlen := congrArg List.length (utf16_injective (heq.symm.trans h) ▸ hbm.1)
      rw [length_append, length_cons] at hlen
      omega
    · have hkept := heq.symm.trans h
      obtain ⟨x, l, hxl, hx, hl⟩ := (labelAt_encode utf16Code).1 hi
      rw [← hx] at hkept
      rcases labelAt_before hxl hbm hlast with ⟨rfl, rfl⟩ | ⟨z, rfl, -⟩
      · -- nothing is kept behind the label, so it runs to the end
        have hnil : (utf16 t).drop (labelEnd (utf16 t) i) = [] := append_right_eq_self.1 hkept
        rw [drop_eq_nil_iff, labelEnd, ← hl] at hnil
        have hlen := congrArg List.length hl
        rw [length_drop] at hlen
        have hi' := (labelAt_index.1 hi).1
        have htake := takeWhile_prefix (fun c => !endsLabel c) (l := utf16Code.encode l)
        have hall := htake.eq_of_length_le (by omega)
        intro c hc
        simpa using takeWhile_eq_self_iff.1 hall c hc
      · -- what is kept would start with the `$` of the last label
        exfalso
        rw [utf16_append] at hkept
        have hrest : (utf16 t).drop (labelEnd (utf16 t) i) = utf16 ('$' :: z) :=
          append_cancel_left hkept
        have hhead : (utf16 ('$' :: z)).head? = some (jsChar '$') :=
          (utf16Code.head?_encode (by decide)).2 rfl
        have hdollar := head_labelEnd (hrest ▸ hhead)
        revert hdollar
        decide
  constructor
  · intro hamp
    have hmem := hends (jsChar '&') ((utf16Code.mem_encode (by decide)).2 hamp)
    revert hmem
    decide
  · intro hslash
    have hmem := hends (jsChar '/') ((utf16Code.mem_encode (by decide)).2 hslash)
    revert hmem
    decide

theorem plain_of_strippedAlike {path : List Char} (h : StrippedAlike path) : PlainLabels path := by
  obtain ⟨kept, hplayer, hserver, -, hagain⟩ := h
  intro a l hal
  obtain ⟨b, m, hbm, hlast, hstrip⟩ := httpStrip_text hal
  obtain rfl := utf8_injective (hserver.symm.trans hstrip)
  have hnone := no_label_of_kept hagain
  have hplain := plain_of_stripped hbm hlast hplayer
  rcases labelAt_before hal hbm hlast with ⟨rfl, rfl⟩ | ⟨z, rfl, rfl⟩
  · exact ⟨hplain.1, hplain.2, hnone⟩
  · cases z with
    | nil =>
      refine ⟨by simpa using hplain.1, by simpa using hplain.2, ?_⟩
      intro x y hxy
      exact hnone x _ (hxy.append _)
    | cons c z => exact absurd ⟨rfl, cons_ne_nil _ _, hal.2.2⟩ (hnone a (c :: z))

/-- Player and server strip the same label exactly from paths with plain labels. -/
theorem labels_stripped_alike_iff {path : List Char} (hquery : '?' ∉ path)
    (hfragment : '#' ∉ path) : StrippedAlike path ↔ PlainLabels path :=
  ⟨plain_of_strippedAlike, strippedAlike_of_plain hquery hfragment⟩

theorem labels_stripped_alike_iff_hd :
    StrippedAlike "/rtp/a$HD".toList ↔ PlainLabels "/rtp/a$HD".toList :=
  labels_stripped_alike_iff (by decide) (by decide)

/-- `/a$b/c`: the server cuts at the `$`, the player takes the `/` for the end of a path part
    and strips nothing. -/
theorem slash_label_kept :
    '?' ∉ "/a$b/c".toList ∧ '#' ∉ "/a$b/c".toList ∧ ¬ StrippedAlike "/a$b/c".toList := by
  refine ⟨by decide, by decide, ?_⟩
  rintro ⟨kept, hplayer, hserver, -⟩
  have hplayer' : stripPlaylistUrlLabel (utf16 "/a$b/c".toList) = utf16 "/a$b/c".toList := by decide
  have hserver' : httpStripUrlLabel (utf8 "/a$b/c".toList) = utf8 "/a".toList := by decide
  have h := (utf16_injective (hplayer.symm.trans hplayer')).symm.trans
    (utf8_injective (hserver.symm.trans hserver'))
  revert h
  decide

end Apackage.Rtp2httpd
