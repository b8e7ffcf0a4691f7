import Apackage.Rtp2httpd.Http.Url

/-
  The hash of the playlist tag (`vendor/md5/md5.c`).

  Model. `Md5Context.input` holds the bytes of the block that is being filled, so its length
  is the offset `size % 64` of the code.
-/

namespace Apackage.Rtp2httpd

/-- Four words: `buffer` of a context, or the registers of `md5Step`. -/
structure Md5Words where
  a : UInt32
  b : UInt32
  c : UInt32
  d : UInt32

/-- `MD5Context`. -/
structure Md5Context where
  size : UInt64
  buffer : Md5Words
  input : Bytes

/-- `S`: four amounts for each of the four rounds. -/
def md5Shifts : List UInt32 :=
  [[7, 12, 17, 22], [5, 9, 14, 20], [4, 11, 16, 23], [6, 10, 15, 21]].flatMap fun row =>
    row ++ row ++ row ++ row

/-- `K`. -/
def md5Constants : List UInt32 :=
  [0xd76aa478, 0xe8c7b756, 0x242070db, 0xc1bdceee, 0xf57c0faf, 0x4787c62a, 0xa8304613, 0xfd469501,
   0x698098d8, 0x8b44f7af, 0xffff5bb1, 0x895cd7be, 0x6b901122, 0xfd987193, 0xa679438e, 0x49b40821,
   0xf61e2562, 0xc040b340, 0x265e5a51, 0xe9b6c7aa, 0xd62f105d, 0x02441453, 0xd8a1e681, 0xe7d3fbc8,
   0x21e1cde6, 0xc33707d6, 0xf4d50d87, 0x455a14ed, 0xa9e3e905, 0xfcefa3f8, 0x676f02d9, 0x8d2a4c8a,
   0xfffa3942, 0x8771f681, 0x6d9d6122, 0xfde5380c, 0xa4beea44, 0x4bdecfa9, 0xf6bb4b60, 0xbebfbc70,
   0x289b7ec6, 0xeaa127fa, 0xd4ef3085, 0x04881d05, 0xd9d4d039, 0xe6db99e5, 0x1fa27cf8, 0xc4ac5665,
   0xf4292244, 0x432aff97, 0xab9423a7, 0xfc93a039, 0x655b59c3, 0x8f0ccc92, 0xffeff47d, 0x85845dd1,
   0x6fa87e4f, 0xfe2ce6e0, 0xa3014314, 0x4e0811a1, 0xf7537e82, 0xbd3af235, 0x2ad7d2bb, 0xeb86d391]

def rotateLeft (x n : UInt32) : UInt32 := (x <<< n) ||| (x >>> (32 - n))

/-- The value `E` and the index `j` of round `i`. -/
def md5Round (i : ℕ) (w : Md5Words) : UInt32 × ℕ :=
  match i / 16 with
  | 0 => ((w.b &&& w.c) ||| (~~~w.b &&& w.d), i)
  | 1 => ((w.b &&& w.d) ||| (w.c &&& ~~~w.d), (i * 5 + 1) % 16)
  | 2 => (w.b ^^^ w.c ^^^ w.d, (i * 3 + 5) % 16)
  | _ => (w.c ^^^ (w.b ||| ~~~w.d), (i * 7) % 16)

/-- `md5Step`. -/
def md5Step (buffer : Md5Words) (input : List UInt32) : Md5Words :=
  let w := (List.range 64).foldl (fun w i =>
    let (e, j) := md5Round i w
    let sum := w.a + e + md5Constants.getD i 0 + input.getD j 0
    ⟨w.d, w.b + rotateLeft sum (md5Shifts.getD i 0), w.b, w.c⟩) buffer
  ⟨buffer.a + w.a, buffer.b + w.b, buffer.c + w.c, buffer.d + w.d⟩

/-- Little-endian words. -/
def md5Input : Bytes → List UInt32
  | b0 :: b1 :: b2 :: b3 :: rest =>
    (b3.toUInt32 <<< 24 ||| b2.toUInt32 <<< 16 ||| b1.toUInt32 <<< 8 ||| b0.toUInt32) ::
      md5Input rest
  | _ => []

/-- `md5Init`. -/
def md5Init : Md5Context := ⟨0, ⟨0x67452301, 0xefcdab89, 0x98badcfe, 0x10325476⟩, []⟩

/-- One byte of `md5Update`. -/
def md5Byte (ctx : Md5Context) (byte : UInt8) : Md5Context :=
  let input := ctx.input ++ [byte]
  if input.length % 64 = 0 then ⟨ctx.size, md5Step ctx.buffer (md5Input input), []⟩
  else ⟨ctx.size, ctx.buffer, input⟩

/-- `md5Update`. -/
def md5Update (ctx : Md5Context) (inputBuffer : Bytes) : Md5Context :=
  inputBuffer.foldl md5Byte { ctx with size := ctx.size + UInt64.ofNat inputBuffer.length }

def md5Padding : Bytes := 0x80 :: List.replicate 63 0

def wordBytes (w : UInt32) : Bytes :=
  [w.toUInt8, (w >>> 8).toUInt8, (w >>> 16).toUInt8, (w >>> 24).toUInt8]

/-- `md5Finalize`: the digest. -/
def md5Finalize (ctx : Md5Context) : Bytes :=
  let offset := ctx.size.toNat % 64
  let paddingLength := if offset < 56 then 56 - offset else 56 + 64 - offset
  let padded := md5Update ctx (md5Padding.take paddingLength)
  let bits := ctx.size * 8
  let w := md5Step padded.buffer (md5Input padded.input ++ [bits.toUInt32, (bits >>> 32).toUInt32])
  wordBytes w.a ++ wordBytes w.b ++ wordBytes w.c ++ wordBytes w.d

def hexDigit (n : UInt8) : UInt8 := if n < 10 then n + 0x30 else n - 10 + 0x61

/-- `md5_to_hex`. -/
def md5ToHex (digest : Bytes) : Bytes :=
  digest.flatMap fun (byte : UInt8) => [hexDigit (byte >>> 4), hexDigit (byte &&& 0x0F)]

/-- The text's digest in hexadecimal. -/
def md5Hex (text : Bytes) : Bytes := md5ToHex (md5Finalize (md5Update md5Init text))

example : md5Hex (ascii "abc") = ascii "900150983cd24fb0d6963f7d28e17f72" := by decide +kernel

end Apackage.Rtp2httpd
