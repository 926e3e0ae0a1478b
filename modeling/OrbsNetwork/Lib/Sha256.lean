import Mathlib.Tactic.NormNum
/-!
# Sha256 — FIPS 180-4 over byte lists

The hash function itself, so that a run over concrete data uses the digests the real program would compute.  Nothing
is proved about it: a theorem that hashes takes the hash function as a parameter.
-/
namespace Sha256

def initial : List UInt32 :=
  [0x6a09e667, 0xbb67ae85, 0x3c6ef372, 0xa54ff53a, 0x510e527f, 0x9b05688c, 0x1f83d9ab, 0x5be0cd19]

def roundConstants : List UInt32 :=
  [0x428a2f98, 0x71374491, 0xb5c0fbcf, 0xe9b5dba5, 0x3956c25b, 0x59f111f1, 0x923f82a4, 0xab1c5ed5,
   0xd807aa98, 0x12835b01, 0x243185be, 0x550c7dc3, 0x72be5d74, 0x80deb1fe, 0x9bdc06a7, 0xc19bf174,
   0xe49b69c1, 0xefbe4786, 0x0fc19dc6, 0x240ca1cc, 0x2de92c6f, 0x4a7484aa, 0x5cb0a9dc, 0x76f988da,
   0x983e5152, 0xa831c66d, 0xb00327c8, 0xbf597fc7, 0xc6e00bf3, 0xd5a79147, 0x06ca6351, 0x14292967,
   0x27b70a85, 0x2e1b2138, 0x4d2c6dfc, 0x53380d13, 0x650a7354, 0x766a0abb, 0x81c2c92e, 0x92722c85,
   0xa2bfe8a1, 0xa81a664b, 0xc24b8b70, 0xc76c51a3, 0xd192e819, 0xd6990624, 0xf40e3585, 0x106aa070,
   0x19a4c116, 0x1e376c08, 0x2748774c, 0x34b0bcb5, 0x391c0cb3, 0x4ed8aa4a, 0x5b9cca4f, 0x682e6ff3,
   0x748f82ee, 0x78a5636f, 0x84c87814, 0x8cc70208, 0x90befffa, 0xa4506ceb, 0xbef9a3f7, 0xc67178f2]

def rotr (x : UInt32) (n : UInt32) : UInt32 := (x >>> n) ||| (x <<< (32 - n))

def smallSigma0 (x : UInt32) : UInt32 := rotr x 7 ^^^ rotr x 18 ^^^ (x >>> 3)
def smallSigma1 (x : UInt32) : UInt32 := rotr x 17 ^^^ rotr x 19 ^^^ (x >>> 10)
def bigSigma0 (x : UInt32) : UInt32 := rotr x 2 ^^^ rotr x 13 ^^^ rotr x 22
def bigSigma1 (x : UInt32) : UInt32 := rotr x 6 ^^^ rotr x 11 ^^^ rotr x 25

/-- The message schedule, newest word first: `n` more words. -/
def schedule : ℕ → List UInt32 → List UInt32
  | 0, w => w
  | n + 1, w =>
    schedule n ((smallSigma1 (w.getD 1 0) + w.getD 6 0 + smallSigma0 (w.getD 14 0) + w.getD 15 0) :: w)

def round (st : List UInt32) (kw : UInt32 × UInt32) : List UInt32 :=
  match st with
  | [a, b, c, d, e, f, g, h] =>
    let t1 := h + bigSigma1 e + ((e &&& f) ^^^ (~~~e &&& g)) + kw.1 + kw.2
    let t2 := bigSigma0 a + ((a &&& b) ^^^ (a &&& c) ^^^ (b &&& c))
    [t1 + t2, a, b, c, d + t1, e, f, g]
  | st => st

def compress (st : List UInt32) (block : List UInt32) : List UInt32 :=
  let w := (schedule 48 block.reverse).reverse
  List.zipWith (· + ·) st ((roundConstants.zip w).foldl round st)

def words : List UInt8 → List UInt32
  | a :: b :: c :: d :: l =>
    ((a.toUInt32 <<< 24) ||| (b.toUInt32 <<< 16) ||| (c.toUInt32 <<< 8) ||| d.toUInt32) :: words l
  | _ => []

def pad (m : List UInt8) : List UInt8 :=
  let bits := 8 * m.length
  m ++ 0x80 :: (List.replicate ((119 - m.length % 64) % 64) 0
    ++ ((List.range 8).reverse.map fun i => UInt8.ofNat (bits / 256 ^ i)))

def compressAll : ℕ → List UInt32 → List UInt32 → List UInt32
  | 0, st, _ => st
  | n + 1, st, ws => compressAll n (compress st (ws.take 16)) (ws.drop 16)

/-- The digest, most significant byte first. -/
def hash (m : List UInt8) : List UInt8 :=
  let ws := words (pad m)
  (compressAll (ws.length / 16) initial ws).flatMap fun w : UInt32 =>
    [(w >>> 24).toUInt8, (w >>> 16).toUInt8, (w >>> 8).toUInt8, w.toUInt8]

end Sha256
