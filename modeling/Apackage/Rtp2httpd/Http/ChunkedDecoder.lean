import Mathlib.Algebra.Ring.Nat
import Mathlib.Data.Int.Notation
import Mathlib.Tactic.Simps.Basic

/-
  The decoder of chunked transfer coding (`http_chunked_decoder.c`).

  Model. The 64-bit counters are natural numbers: the code tests for overflow before it
  computes. The input from `offset` on is a list. The emit callback is a function of what was
  emitted before and of the next piece, negative for a refusal; a null callback is one that
  refuses.
-/

namespace Apackage.Rtp2httpd

def maxSizeLine : ℕ := 4096

def maxTrailerSize : ℕ := 8192

inductive ChunkedState
  | size
  | extension
  | sizeLf
  | data
  | dataCr
  | dataLf
  | trailerStart
  | trailer
  | trailerLf
  | trailerEndLf
  | done
  | error
  deriving DecidableEq

inductive DecodeResult
  | error
  | needMore
  | done
  deriving DecidableEq

structure ChunkedDecoder where
  state : ChunkedState
  chunkSize : ℕ
  chunkRemaining : ℕ
  sizeLineLength : ℕ
  trailerSize : ℕ
  sawSizeDigit : Bool

def ChunkedDecoder.init : ChunkedDecoder := ⟨.size, 0, 0, 0, 0, false⟩

/-- `http_chunked_fail`. -/
@[simps] def ChunkedDecoder.fail (d : ChunkedDecoder) : ChunkedDecoder := { d with state := .error }

def CR : UInt8 := 0x0d
def LF : UInt8 := 0x0a

/-- `http_chunked_hex_value`; none is -1. -/
def httpChunkedHexValue (ch : UInt8) : Option ℕ :=
  if 0x30 ≤ ch ∧ ch ≤ 0x39 then some (ch.toNat - 0x30)
  else if 0x61 ≤ ch ∧ ch ≤ 0x66 then some (ch.toNat - 0x61 + 10)
  else if 0x41 ≤ ch ∧ ch ≤ 0x46 then some (ch.toNat - 0x41 + 10)
  else none

/-- `UINT64_MAX`. -/
def uint64Max : ℕ := 2 ^ 64 - 1

/-- One byte in a state other than `HTTP_CHUNKED_STATE_DATA`. -/
def chunkedControlByte (d : ChunkedDecoder) (ch : UInt8) : ChunkedDecoder :=
  match d.state with
  | .size =>
    let d := { d with sizeLineLength := d.sizeLineLength + 1 }
    if d.sizeLineLength > maxSizeLine then d.fail
    else
      match httpChunkedHexValue ch with
      | some digit =>
        if d.chunkSize > (uint64Max - digit) / 16 then d.fail
        else { d with chunkSize := d.chunkSize * 16 + digit, sawSizeDigit := true }
      | none =>
        if ch = 0x3b ∧ d.sawSizeDigit then { d with state := .extension }
        else if ch = CR ∧ d.sawSizeDigit then { d with state := .sizeLf }
        else d.fail
  | .extension =>
    let d := { d with sizeLineLength := d.sizeLineLength + 1 }
    if d.sizeLineLength > maxSizeLine then d.fail
    else if ch = CR then { d with state := .sizeLf }
    else if ch = LF ∨ (ch < 0x20 ∧ ch ≠ 0x09) ∨ ch = 0x7f then d.fail
    else d
  | .sizeLf =>
    if ch ≠ LF then d.fail
    else { d with
      chunkRemaining := d.chunkSize
      state := if d.chunkSize = 0 then .trailerStart else .data }
  | .dataCr => if ch ≠ CR then d.fail else { d with state := .dataLf }
  | .dataLf =>
    if ch ≠ LF then d.fail
    else { d with state := .size, chunkSize := 0, sizeLineLength := 0, sawSizeDigit := false }
  | .trailerStart =>
    let d := { d with trailerSize := d.trailerSize + 1 }
    if d.trailerSize > maxTrailerSize then d.fail
    else if ch = CR then { d with state := .trailerEndLf }
    else if ch = LF then d.fail
    else { d with state := .trailer }
  | .trailer =>
    let d := { d with trailerSize := d.trailerSize + 1 }
    if d.trailerSize > maxTrailerSize then d.fail
    else if ch = CR then { d with state := .trailerLf }
    else if ch = LF then d.fail
    else d
  | .trailerLf =>
    let d := { d with trailerSize := d.trailerSize + 1 }
    if d.trailerSize > maxTrailerSize ∨ ch ≠ LF then d.fail
    else { d with state := .trailerStart }
  | .trailerEndLf =>
    let d := { d with trailerSize := d.trailerSize + 1 }
    if d.trailerSize > maxTrailerSize ∨ ch ≠ LF then d.fail
    else { d with state := .done }
  | .data | .done | .error => d.fail

/-- What a call leaves: the decoder, all that was emitted so far, the result and `consumed`. -/
structure FeedResult where
  decoder : ChunkedDecoder
  emitted : List (List UInt8)
  result : DecodeResult
  consumed : ℕ

/-- The result of a call that has read all of its input. -/
def ChunkedDecoder.verdict (d : ChunkedDecoder) : DecodeResult :=
  if d.state = .done then .done else .needMore

/-- The loop of `http_chunked_decoder_feed`, `fuel` turns at most. -/
def chunkedFeedLoop (emit : List (List UInt8) → List UInt8 → ℤ) :
    ℕ → ChunkedDecoder → List UInt8 → ℕ → List (List UInt8) → FeedResult
  | 0, d, _, offset, emitted => ⟨d, emitted, d.verdict, offset⟩
  | _ + 1, d, [], offset, emitted => ⟨d, emitted, d.verdict, offset⟩
  | fuel + 1, d, ch :: tail, offset, emitted =>
    if d.state = .data then
      let available := (ch :: tail).length
      let emitLen := if d.chunkRemaining < available then d.chunkRemaining else available
      let piece := (ch :: tail).take emitLen
      if emitLen > 0 ∧ emit emitted piece < 0 then ⟨d.fail, emitted, .error, offset⟩
      else
        let remaining := d.chunkRemaining - emitLen
        chunkedFeedLoop emit fuel
          { d with
            chunkRemaining := remaining
            state := if remaining = 0 then .dataCr else .data }
          ((ch :: tail).drop emitLen) (offset + emitLen)
          (if emitLen > 0 then emitted ++ [piece] else emitted)
    else
      let d := chunkedControlByte d ch
      if d.state = .error then ⟨d, emitted, .error, offset⟩
      else if d.state = .done then
        if tail ≠ [] then ⟨d.fail, emitted, .error, offset + 1⟩
        else ⟨d, emitted, .done, offset + 1⟩
      else chunkedFeedLoop emit fuel d tail (offset + 1) emitted

/-- `http_chunked_decoder_feed`. Every turn of the loop takes a byte, except for one that
    finds a chunk with nothing remaining. -/
def httpChunkedDecoderFeed (emit : List (List UInt8) → List UInt8 → ℤ) (d : ChunkedDecoder)
    (emitted : List (List UInt8)) (input : List UInt8) : FeedResult :=
  if d.state = .error then ⟨d, emitted, .error, 0⟩
  else if d.state = .done then
    if input = [] then ⟨d, emitted, .done, 0⟩ else ⟨d.fail, emitted, .error, 0⟩
  else chunkedFeedLoop emit (input.length + 2) d input 0 emitted

def httpChunkedDecoderFinish (d : ChunkedDecoder) : ChunkedDecoder × DecodeResult :=
  if d.state = .error then (d, .error)
  else if d.state = .done then (d, .done)
  else (d.fail, .error)

/-- Calls on consecutive pieces of the input, up to the first error. -/
def feedPieces (emit : List (List UInt8) → List UInt8 → ℤ) :
    FeedResult → List (List UInt8) → FeedResult
  | r, [] => r
  | r, piece :: pieces =>
    let r := httpChunkedDecoderFeed emit r.decoder r.emitted piece
    if r.result = .error then r else feedPieces emit r pieces

/-- A new decoder, before its first call. -/
def feedStart : FeedResult := ⟨.init, [], .needMore, 0⟩

end Apackage.Rtp2httpd
