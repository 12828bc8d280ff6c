import Mathlib

/-!
# SHA-256

The digest of a text in UTF-8, in hexadecimal.  Words are natural numbers below `2^32`.
-/

namespace AgenticKibana.Library.Sha256

/-- The first 32 bits of the fractional parts of the cube roots of the first primes. -/
def roundConstants : List Nat :=
  [0x428a2f98, 0x71374491, 0xb5c0fbcf, 0xe9b5dba5, 0x3956c25b, 0x59f111f1, 0x923f82a4, 0xab1c5ed5,
    0xd807aa98, 0x12835b01, 0x243185be, 0x550c7dc3, 0x72be5d74, 0x80deb1fe, 0x9bdc06a7, 0xc19bf174,
    0xe49b69c1, 0xefbe4786, 0x0fc19dc6, 0x240ca1cc, 0x2de92c6f, 0x4a7484aa, 0x5cb0a9dc, 0x76f988da,
    0x983e5152, 0xa831c66d, 0xb00327c8, 0xbf597fc7, 0xc6e00bf3, 0xd5a79147, 0x06ca6351, 0x14292967,
    0x27b70a85, 0x2e1b2138, 0x4d2c6dfc, 0x53380d13, 0x650a7354, 0x766a0abb, 0x81c2c92e, 0x92722c85,
    0xa2bfe8a1, 0xa81a664b, 0xc24b8b70, 0xc76c51a3, 0xd192e819, 0xd6990624, 0xf40e3585, 0x106aa070,
    0x19a4c116, 0x1e376c08, 0x2748774c, 0x34b0bcb5, 0x391c0cb3, 0x4ed8aa4a, 0x5b9cca4f, 0x682e6ff3,
    0x748f82ee, 0x78a5636f, 0x84c87814, 0x8cc70208, 0x90befffa, 0xa4506ceb, 0xbef9a3f7, 0xc67178f2]

structure State where
  a : Nat
  b : Nat
  c : Nat
  d : Nat
  e : Nat
  f : Nat
  g : Nat
  h : Nat

def initial : State :=
  ⟨0x6a09e667, 0xbb67ae85, 0x3c6ef372, 0xa54ff53a, 0x510e527f, 0x9b05688c, 0x1f83d9ab, 0x5be0cd19⟩

def add (x y : Nat) : Nat := (x + y) % 2 ^ 32

def rotr (x n : Nat) : Nat := (x >>> n ||| x <<< (32 - n)) % 2 ^ 32

def smallSigma0 (x : Nat) : Nat := rotr x 7 ^^^ rotr x 18 ^^^ x >>> 3

def smallSigma1 (x : Nat) : Nat := rotr x 17 ^^^ rotr x 19 ^^^ x >>> 10

def bigSigma0 (x : Nat) : Nat := rotr x 2 ^^^ rotr x 13 ^^^ rotr x 22

def bigSigma1 (x : Nat) : Nat := rotr x 6 ^^^ rotr x 11 ^^^ rotr x 25

def choose (x y z : Nat) : Nat := x &&& y ^^^ (2 ^ 32 - 1 - x) &&& z

def majority (x y z : Nat) : Nat := x &&& y ^^^ x &&& z ^^^ y &&& z

/-- The message schedule: `n` words, from a window of sixteen. -/
def schedule : Nat → List Nat → List Nat
  | 0, _ => []
  | n + 1, ws =>
    ws.getD 0 0 :: schedule n (ws.drop 1 ++ [add (add (smallSigma1 (ws.getD 14 0)) (ws.getD 9 0))
      (add (smallSigma0 (ws.getD 1 0)) (ws.getD 0 0))])

def round (s : State) (kw : Nat × Nat) : State :=
  let t1 := add (add s.h (bigSigma1 s.e)) (add (choose s.e s.f s.g) (add kw.1 kw.2))
  let t2 := add (bigSigma0 s.a) (majority s.a s.b s.c)
  ⟨add t1 t2, s.a, s.b, s.c, add s.d t1, s.e, s.f, s.g⟩

def compress (s : State) (block : List Nat) : State :=
  let t := (roundConstants.zip (schedule 64 block)).foldl round s
  ⟨add s.a t.a, add s.b t.b, add s.c t.c, add s.d t.d, add s.e t.e, add s.f t.f, add s.g t.g,
    add s.h t.h⟩

def bytes : Nat → Nat → List Nat
  | 0, _ => []
  | n + 1, x => bytes n (x / 256) ++ [x % 256]

def pad (message : List Nat) : List Nat :=
  message ++ 0x80 :: (List.replicate ((119 - message.length % 64) % 64) 0 ++
    bytes 8 (8 * message.length))

def words : List Nat → List Nat
  | a :: b :: c :: d :: rest => (((a * 256 + b) * 256 + c) * 256 + d) :: words rest
  | _ => []

def blocks : Nat → State → List Nat → State
  | 0, s, _ => s
  | n + 1, s, ws => blocks n (compress s (ws.take 16)) (ws.drop 16)

def hexWord (x : Nat) : List Char :=
  (bytes 4 x).flatMap fun byte => [Nat.digitChar (byte / 16), Nat.digitChar (byte % 16)]

def hexdigest (text : List Char) : String :=
  let message := (text.flatMap String.utf8EncodeChar).map UInt8.toNat
  let ws := words (pad message)
  let s := blocks (ws.length / 16) initial ws
  String.ofList ([s.a, s.b, s.c, s.d, s.e, s.f, s.g, s.h].flatMap hexWord)

example : hexdigest "abc".toList =
    "ba7816bf8f01cfea414140de5dae2223b00361a396177a9cb410ff61f20015ad" := by decide +kernel

end AgenticKibana.Library.Sha256
