import Apackage.Lib.Serial

/-
  `rtp_get_payload` (`rtp.c`): where the payload of a datagram lies, and
  `stream_payload_is_mpegts` (`stream.c`).

  Model. A datagram is the list of its `recv_len` bytes. The result is the return value with
  the out parameters that go with it; bytes past the end are never read (`getD`).
-/

namespace Apackage.Rtp2httpd

open Lib.Serial

def byteAt (data : List UInt8) (i : ℕ) : UInt8 := data.getD i 0

/-- Big-endian 16-bit field, `ntohs` of a `memcpy`. -/
def be16 (data : List UInt8) (i : ℕ) : ℕ := (byteAt data i).toNat * 256 + (byteAt data (i + 1)).toNat

def fecPayloadType1 : UInt8 := 127
def fecPayloadType2 : UInt8 := 97

/-- `payload_type == FEC_PAYLOAD_TYPE_1 || payload_type == FEC_PAYLOAD_TYPE_2`. -/
def isFecPayloadType (b1 : UInt8) : Bool :=
  b1 &&& 0x7F = fecPayloadType1 || b1 &&& 0x7F = fecPayloadType2

/-- Results of `rtp_get_payload`: -1, 0, 1 and 2. -/
inductive RtpPayload
  | malformed
  | nonRtp
  | rtp (start length : ℕ) (seqn : Seq)
  | fec
  deriving DecidableEq

/-- Offset of the payload: the fixed header, the CSRC list and the extension. `none` if one
    of them exceeds the packet. -/
def rtpPayloadStart (buf : List UInt8) : Option ℕ :=
  let flags := byteAt buf 0
  let payloadstart := 12 + (flags &&& 0x0F).toNat * 4
  if payloadstart > buf.length then none
  else if flags &&& 0x10 ≠ 0 then
    if payloadstart + 4 > buf.length then none
    else
      let extLen := be16 buf (payloadstart + 2)
      if extLen > (buf.length - payloadstart - 4) / 4 then none
      else some (payloadstart + 4 + 4 * extLen)
  else some payloadstart

def rtpGetPayload (buf : List UInt8) : RtpPayload :=
  if buf.length ≥ 12 ∧ byteAt buf 0 &&& 0xC0 = 0x80 then
    if isFecPayloadType (byteAt buf 1) then .fec
    else
      let seqn : Seq := BitVec.ofNat 16 (be16 buf 2)
      match rtpPayloadStart buf with
      | none => .malformed
      | some payloadstart =>
        let payloadlength : ℤ := buf.length - payloadstart
        let payloadlength :=
          if byteAt buf 0 &&& 0x20 ≠ 0 then
            payloadlength - (byteAt buf (buf.length - 1)).toNat
          else payloadlength
        if payloadlength ≤ 0 ∨ payloadstart + payloadlength > buf.length then .malformed
        else .rtp payloadstart payloadlength.toNat seqn
  else .nonRtp

/-- `stream_payload_is_mpegts`: the sync byte stands at the start of the first three
    188-byte packets, as far as they are there. -/
def streamPayloadIsMpegts (payload : List UInt8) : Bool :=
  188 ≤ payload.length &&
    (List.range 3).all fun i => payload.length < (i + 1) * 188 || byteAt payload (i * 188) = 0x47

end Apackage.Rtp2httpd
