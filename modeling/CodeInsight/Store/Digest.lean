import CodeInsight.Insight.Identity
import CodeInsight.Number.Power

/-!
# Digests

* the digest of a text is a number of 256 bits, computed by SHA-256 from the text's UTF-8 bytes and
  written in 64 hexadecimal digits (`digest`);
* nothing in the library depends on how it is computed: a store of records takes the function that
  names them as it comes.
-/

namespace CodeInsight.Digest

/-! ## 1. Words -/

/-- The constants of the rounds: the first 32 bits behind the point of the cube roots of the first
    64 primes. -/
def roundConstants : List UInt32 :=
  [0x428a2f98, 0x71374491, 0xb5c0fbcf, 0xe9b5dba5, 0x3956c25b, 0x59f111f1,
   0x923f82a4, 0xab1c5ed5, 0xd807aa98, 0x12835b01, 0x243185be, 0x550c7dc3,
   0x72be5d74, 0x80deb1fe, 0x9bdc06a7, 0xc19bf174, 0xe49b69c1, 0xefbe4786,
   0x0fc19dc6, 0x240ca1cc, 0x2de92c6f, 0x4a7484aa, 0x5cb0a9dc, 0x76f988da,
   0x983e5152, 0xa831c66d, 0xb00327c8, 0xbf597fc7, 0xc6e00bf3, 0xd5a79147,
   0x06ca6351, 0x14292967, 0x27b70a85, 0x2e1b2138, 0x4d2c6dfc, 0x53380d13,
   0x650a7354, 0x766a0abb, 0x81c2c92e, 0x92722c85, 0xa2bfe8a1, 0xa81a664b,
   0xc24b8b70, 0xc76c51a3, 0xd192e819, 0xd6990624, 0xf40e3585, 0x106aa070,
   0x19a4c116, 0x1e376c08, 0x2748774c, 0x34b0bcb5, 0x391c0cb3, 0x4ed8aa4a,
   0x5b9cca4f, 0x682e6ff3, 0x748f82ee, 0x78a5636f, 0x84c87814, 0x8cc70208,
   0x90befffa, 0xa4506ceb, 0xbef9a3f7, 0xc67178f2]

/-- The words a digest starts from: the first 32 bits behind the point of the square roots of the
    first 8 primes. -/
def initialWords : List UInt32 :=
  [0x6a09e667, 0xbb67ae85, 0x3c6ef372, 0xa54ff53a, 0x510e527f, 0x9b05688c,
   0x1f83d9ab, 0x5be0cd19]

/-- A word turned right by a number of bits. -/
def turn (w n : UInt32) : UInt32 := (w >>> n) ||| (w <<< (32 - n))

/-! ## 2. Blocks -/

/-- The words of a message, four bytes each, the first byte the highest. -/
def words : List UInt8 → List UInt32
  | a :: b :: c :: d :: rest =>
    ((a.toUInt32 <<< 24) ||| (b.toUInt32 <<< 16) ||| (c.toUInt32 <<< 8) ||| d.toUInt32) ::
      words rest
  | _ => []

/-- A number in eight bytes, the highest first. -/
def eightBytes (n : Nat) : List UInt8 :=
  (List.range 8).map fun i => UInt8.ofNat (n / powerOfTwo (8 * (7 - i)))

/-- A message with the mark of its end, zeros and its length in bits, so that it fills whole
    blocks of 64 bytes. -/
def padded (message : List UInt8) : List UInt8 :=
  message ++ [0x80] ++ List.replicate ((119 - message.length % 64) % 64) 0 ++
    eightBytes (8 * message.length)

/-- The next word of a schedule, of the sixteen before it, the latest first. -/
def nextWord (last : List UInt32) : UInt32 :=
  match last[1]?, last[6]?, last[14]?, last[15]? with
  | some w2, some w7, some w15, some w16 =>
    let s0 := turn w15 7 ^^^ turn w15 18 ^^^ (w15 >>> 3)
    let s1 := turn w2 17 ^^^ turn w2 19 ^^^ (w2 >>> 10)
    w16 + s0 + w7 + s1
  | _, _, _, _ => 0

/-- The schedule with `n` more words, the latest first. -/
def extend : Nat → List UInt32 → List UInt32
  | 0, ws => ws
  | n + 1, ws => extend n (nextWord ws :: ws)

/-- The eight words after one round. -/
def round (state : List UInt32) (constant word : UInt32) : List UInt32 :=
  match state with
  | [a, b, c, d, e, f, g, h] =>
    let s1 := turn e 6 ^^^ turn e 11 ^^^ turn e 25
    let choice := (e &&& f) ^^^ ((~~~e) &&& g)
    let t1 := h + s1 + choice + constant + word
    let s0 := turn a 2 ^^^ turn a 13 ^^^ turn a 22
    let majority := (a &&& b) ^^^ (a &&& c) ^^^ (b &&& c)
    [t1 + (s0 + majority), a, b, c, d + t1, e, f, g]
  | _ => state

/-- The eight words after a block of sixteen. -/
def compress (state block : List UInt32) : List UInt32 :=
  let schedule := (extend 48 block.reverse).reverse
  let stirred := (roundConstants.zip schedule).foldl (fun s kw => round s kw.1 kw.2) state
  state.zipWith (· + ·) stirred

/-- The eight words after `n` blocks. -/
def compressAll : Nat → List UInt32 → List UInt32 → List UInt32
  | 0, state, _ => state
  | n + 1, state, ws => compressAll n (compress state (ws.take 16)) (ws.drop 16)

/-! ## 3. Texts -/

/-- The digest of a text in hexadecimal digits. -/
def digest (s : String) : String :=
  let ws := words (padded s.toUTF8.toList)
  let state := compressAll (ws.length / 16) initialWords ws
  String.ofList (state.flatMap fun w => Identity.hexDigits 8 w.toNat)

end CodeInsight.Digest
