import Mathlib.Data.List.Basic
import Apackage.Rtp2httpd.Http.ChunkedDecoder

/-
  The decoder does not see how its input is cut.

  `absorb` takes one byte at a time. A call computes the same decoder and the same bytes as
  `absorb` over its input (`feed_eq_foldl`), so consecutive calls compute what one call on the
  whole string does (`feed_split`).
-/

namespace Apackage.Rtp2httpd

open List

/-! ## One byte at a time -/

def chunkedByte (d : ChunkedDecoder) (ch : UInt8) : ChunkedDecoder :=
  if d.state = .data then
    { d with
      chunkRemaining := d.chunkRemaining - 1
      state := if d.chunkRemaining - 1 = 0 then .dataCr else .data }
  else chunkedControlByte d ch

/-- A decoder and the bytes it emitted take one byte. -/
def absorb (s : ChunkedDecoder × List UInt8) (ch : UInt8) : ChunkedDecoder × List UInt8 :=
  (chunkedByte s.1 ch, if s.1.state = .data then s.2 ++ [ch] else s.2)

/-- A chunk that is being read has something remaining. -/
def ChunkedDecoder.Ready (d : ChunkedDecoder) : Prop := d.state = .data → 0 < d.chunkRemaining

/-- The result that belongs to a state. -/
def ChunkedState.outcome : ChunkedState → DecodeResult
  | .error => .error
  | .done => .done
  | _ => .needMore

variable {d : ChunkedDecoder}

theorem verdict_eq_outcome (h : d.state ≠ .error) : d.verdict = d.state.outcome := by
  unfold ChunkedDecoder.verdict
  cases hs : d.state <;> simp_all [ChunkedState.outcome]

theorem fail_of_error (h : d.state = .error) : d.fail = d := by rw [ChunkedDecoder.fail, ← h]

theorem foldl_absorb_error (h : d.state = .error) (out bs : List UInt8) :
    bs.foldl absorb (d, out) = (d, out) := by
  induction bs with
  | nil => rfl
  | cons ch bs ih =>
    have hstep : absorb (d, out) ch = (d, out) := by
      simp [absorb, chunkedByte, chunkedControlByte, h, fail_of_error h]
    rw [foldl_cons, hstep, ih]

variable {bs : List UInt8}

theorem foldl_absorb_done (h : d.state = .done) (out : List UInt8) (hbs : bs ≠ []) :
    bs.foldl absorb (d, out) = (d.fail, out) := by
  obtain ⟨ch, bs, rfl⟩ := exists_cons_of_ne_nil hbs
  have hstep : absorb (d, out) ch = (d.fail, out) := by
    simp [absorb, chunkedByte, chunkedControlByte, h]
  rw [foldl_cons, hstep, foldl_absorb_error rfl]

theorem foldl_absorb_data (h : d.state = .data) (out : List UInt8)
    (hlen : bs.length ≤ d.chunkRemaining) (hpos : 0 < d.chunkRemaining) :
    bs.foldl absorb (d, out) = ({ d with
          chunkRemaining := d.chunkRemaining - bs.length
          state := if d.chunkRemaining - bs.length = 0 then .dataCr else .data },
        out ++ bs) := by
  induction bs generalizing d out with
  | nil => rw [foldl_nil, length_nil, Nat.sub_zero, if_neg (by omega), append_nil, ← h]
  | cons ch bs ih =>
    rw [length_cons] at hlen
    have hstep : absorb (d, out) ch = ({ d with
            chunkRemaining := d.chunkRemaining - 1
            state := if d.chunkRemaining - 1 = 0 then .dataCr else .data }, out ++ [ch]) := by
      simp [absorb, chunkedByte, h]
    rw [foldl_cons, hstep, length_cons]
    by_cases hlast : d.chunkRemaining - 1 = 0
    · have hnil : bs = [] := eq_nil_of_length_eq_zero (by omega)
      subst hnil
      rfl
    · rw [if_neg hlast]
      refine (ih (d := { d with state := .data, chunkRemaining := d.chunkRemaining - 1 }) rfl _
        (Nat.le_sub_of_add_le hlen) (Nat.pos_of_ne_zero hlast)).trans ?_
      simp only [append_assoc, singleton_append]
      rw [Nat.sub_sub, Nat.add_comm 1]

theorem ready_controlByte (d : ChunkedDecoder) (ch : UInt8) : (chunkedControlByte d ch).Ready := by
  intro h
  unfold chunkedControlByte at h ⊢
  cases hs : d.state
  case sizeLf =>
    by_cases hlf : ch = LF
    · by_cases hzero : d.chunkSize = 0
      · simp [hs, hlf, hzero] at h
      · simp only [hlf, ne_eq, not_true_eq_false, if_false]
        exact Nat.pos_of_ne_zero hzero
    · simp [hs, hlf] at h
  all_goals
    simp only [hs] at h
    repeat' split at h
    all_goals simp_all

/-! ## A call -/

section

variable {emit : List (List UInt8) → List UInt8 → ℤ} (hemit : ∀ done piece, 0 ≤ emit done piece)

include hemit

theorem feedLoop_eq_foldl {fuel : ℕ} {d : ChunkedDecoder} {rest : List UInt8} {offset : ℕ}
    {emitted : List (List UInt8)} (hfuel : rest.length < fuel) (hd : d.Ready)
    (herr : d.state ≠ .error) (hdone : d.state = .done → rest = []) :
    ((chunkedFeedLoop emit fuel d rest offset emitted).decoder,
      (chunkedFeedLoop emit fuel d rest offset emitted).emitted.flatten) =
        rest.foldl absorb (d, emitted.flatten) ∧
    (chunkedFeedLoop emit fuel d rest offset emitted).result =
      (chunkedFeedLoop emit fuel d rest offset emitted).decoder.state.outcome ∧
    (chunkedFeedLoop emit fuel d rest offset emitted).decoder.Ready := by
  induction fuel generalizing d rest offset emitted with
  | zero => omega
  | succ fuel ih =>
    cases rest with
    | nil => exact ⟨rfl, verdict_eq_outcome herr, hd⟩
    | cons ch tail =>
      rw [length_cons] at hfuel
      rw [chunkedFeedLoop]
      by_cases hdata : d.state = .data
      · have hpos := hd hdata
        set n := if d.chunkRemaining < (ch :: tail).length then d.chunkRemaining
          else (ch :: tail).length with hn
        have hnpos : 0 < n := by
          rw [hn]
          split
          · exact hpos
          · exact Nat.succ_pos _
        have hnle : n ≤ d.chunkRemaining ∧ n ≤ (ch :: tail).length := by
          rw [hn]
          split <;> omega
        have hlen : ((ch :: tail).take n).length = n := by
          rw [length_take]
          omega
        have hno : ¬ (n > 0 ∧ emit emitted ((ch :: tail).take n) < 0) := by
          simp [*]
        have hflat : (emitted ++ [(ch :: tail).take n]).flatten =
            emitted.flatten ++ (ch :: tail).take n := by
          simp
        have hsplit : (ch :: tail).foldl absorb (d, emitted.flatten) =
            ((ch :: tail).drop n).foldl absorb
              ({ d with
                  chunkRemaining := d.chunkRemaining - n
                  state := if d.chunkRemaining - n = 0 then .dataCr else .data },
                emitted.flatten ++ (ch :: tail).take n) := by
          conv_lhs => rw [← take_append_drop n (ch :: tail)]
          rw [foldl_append, foldl_absorb_data hdata _ (Nat.le_trans (Nat.le_of_eq hlen) hnle.1) hpos, hlen]
        simp only [if_pos hdata, ← hn, if_neg hno, if_pos hnpos]
        rw [hsplit, ← hflat]
        refine ih ?_ ?_ ?_ ?_
        · rw [length_drop, length_cons]
          omega
        · intro h
          dsimp only at h ⊢
          by_contra hzero
          rw [if_pos (by omega)] at h
          cases h
        · split <;> simp
        · intro h
          split at h <;> cases h
      · have hstep : absorb (d, emitted.flatten) ch =
            (chunkedControlByte d ch, emitted.flatten) := by
          simp [absorb, chunkedByte, hdata]
        rw [if_neg hdata, foldl_cons, hstep]
        by_cases herr' : (chunkedControlByte d ch).state = .error
        · rw [if_pos herr', foldl_absorb_error herr']
          exact ⟨rfl, by rw [herr']; rfl, ready_controlByte d ch⟩
        · rw [if_neg herr']
          by_cases hdone' : (chunkedControlByte d ch).state = .done
          · rw [if_pos hdone']
            by_cases htail : tail = []
            · subst htail
              simp only [ne_eq, not_true_eq_false, if_false, foldl_nil]
              exact ⟨trivial, by rw [hdone']; rfl, ready_controlByte d ch⟩
            · rw [if_pos htail, foldl_absorb_done hdone' _ htail]
              refine ⟨rfl, rfl, fun h => ?_⟩
              cases h
          · rw [if_neg hdone']
            exact ih (by omega) (ready_controlByte d ch) herr' (fun h => absurd h hdone')

/-- A call takes the bytes of its input one by one. -/
theorem feed_eq_foldl {d : ChunkedDecoder} (hd : d.Ready) (emitted : List (List UInt8))
    (input : List UInt8) :
    ((httpChunkedDecoderFeed emit d emitted input).decoder,
      (httpChunkedDecoderFeed emit d emitted input).emitted.flatten) =
        input.foldl absorb (d, emitted.flatten) ∧
    (httpChunkedDecoderFeed emit d emitted input).result =
      (httpChunkedDecoderFeed emit d emitted input).decoder.state.outcome ∧
    (httpChunkedDecoderFeed emit d emitted input).decoder.Ready := by
  unfold httpChunkedDecoderFeed
  by_cases herr : d.state = .error
  · rw [if_pos herr, foldl_absorb_error herr]
    exact ⟨rfl, by rw [herr]; rfl, hd⟩
  · rw [if_neg herr]
    by_cases hdone : d.state = .done
    · rw [if_pos hdone]
      by_cases hinput : input = []
      · subst hinput
        simp only [if_true, foldl_nil]
        exact ⟨trivial, by rw [hdone]; rfl, hd⟩
      · rw [if_neg hinput, foldl_absorb_done hdone _ hinput]
        refine ⟨rfl, rfl, fun h => ?_⟩
        cases h
    · rw [if_neg hdone]
      exact feedLoop_eq_foldl hemit (by omega) hd herr (fun h => absurd h hdone)

/-! ## Consecutive calls -/

theorem feedPieces_eq_foldl {r : FeedResult} (hr : r.decoder.Ready)
    (hres : r.result = r.decoder.state.outcome) (pieces : List (List UInt8)) :
    ((feedPieces emit r pieces).decoder, (feedPieces emit r pieces).emitted.flatten) =
      pieces.flatten.foldl absorb (r.decoder, r.emitted.flatten) ∧
    (feedPieces emit r pieces).result = (feedPieces emit r pieces).decoder.state.outcome := by
  induction pieces generalizing r with
  | nil => exact ⟨rfl, hres⟩
  | cons piece pieces ih =>
    obtain ⟨heq, hout, hready⟩ := feed_eq_foldl hemit hr r.emitted piece
    rw [feedPieces, flatten_cons, foldl_append, ← heq]
    split
    · rename_i herr
      rw [hout] at herr
      have hstate : (httpChunkedDecoderFeed emit r.decoder r.emitted piece).decoder.state =
          .error := by
        revert herr
        unfold ChunkedState.outcome
        split <;> simp_all
      rw [foldl_absorb_error hstate]
      exact ⟨rfl, hout⟩
    · exact ih hready hout

omit hemit in
theorem finish_eq {d : ChunkedDecoder} :
    (httpChunkedDecoderFinish d).2 = if d.state = .done then .done else .error := by
  unfold httpChunkedDecoderFinish
  cases hs : d.state <;> rfl

/-- However the string is cut, the emitted bytes, the result and the result of `finish` are
    those of one call. -/
theorem feed_split (pieces : List (List UInt8)) :
    (feedPieces emit feedStart pieces).emitted.flatten =
      (httpChunkedDecoderFeed emit .init [] pieces.flatten).emitted.flatten ∧
    (feedPieces emit feedStart pieces).result =
      (httpChunkedDecoderFeed emit .init [] pieces.flatten).result ∧
    (httpChunkedDecoderFinish (feedPieces emit feedStart pieces).decoder).2 =
      (httpChunkedDecoderFinish
        (httpChunkedDecoderFeed emit .init [] pieces.flatten).decoder).2 := by
  have hinit : ChunkedDecoder.init.Ready := fun h => by cases h
  obtain ⟨hcut, hcutRes⟩ := feedPieces_eq_foldl hemit (r := feedStart) hinit rfl pieces
  obtain ⟨hone, honeRes, -⟩ := feed_eq_foldl hemit hinit [] pieces.flatten
  obtain ⟨hdecoder, hbytes⟩ := Prod.mk.inj (hcut.trans hone.symm)
  refine ⟨hbytes, ?_, ?_⟩
  · rw [hcutRes, honeRes, hdecoder]
  · rw [hdecoder]

end

/-- `3\r\nabc\r\n0\r\n\r\n`, cut inside the data and before the last byte. -/
theorem feed_split_abc : (feedPieces (fun _ _ => 0) feedStart
      [[0x33, 13, 10, 0x61], [0x62, 0x63, 13, 10, 0x30, 13, 10, 13], [10]]).emitted.flatten =
      (httpChunkedDecoderFeed (fun _ _ => 0) .init []
        [0x33, 13, 10, 0x61, 0x62, 0x63, 13, 10, 0x30, 13, 10, 13, 10]).emitted.flatten ∧
    (feedPieces (fun _ _ => 0) feedStart
      [[0x33, 13, 10, 0x61], [0x62, 0x63, 13, 10, 0x30, 13, 10, 13], [10]]).result = .done := by
  exact ⟨(feed_split (fun _ _ => Int.le_refl 0)
    [[0x33, 13, 10, 0x61], [0x62, 0x63, 13, 10, 0x30, 13, 10, 13], [10]]).1, by decide⟩

end Apackage.Rtp2httpd
