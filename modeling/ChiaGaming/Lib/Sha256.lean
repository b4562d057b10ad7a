import ChiaGaming.Lib.Clvm

namespace ChiaGaming.Sha256

/-! SHA-256 on byte strings, with the 32-bit words as natural numbers. -/

def word (n : ℕ) : ℕ := n % 4294967296

def rotr (k x : ℕ) : ℕ := (x >>> k) ||| word (x <<< (32 - k))

def bigSigma0 (x : ℕ) : ℕ := rotr 2 x ^^^ rotr 13 x ^^^ rotr 22 x
def bigSigma1 (x : ℕ) : ℕ := rotr 6 x ^^^ rotr 11 x ^^^ rotr 25 x
def smallSigma0 (x : ℕ) : ℕ := rotr 7 x ^^^ rotr 18 x ^^^ (x >>> 3)
def smallSigma1 (x : ℕ) : ℕ := rotr 17 x ^^^ rotr 19 x ^^^ (x >>> 10)

def ch (x y z : ℕ) : ℕ := (x &&& y) ^^^ ((4294967295 ^^^ x) &&& z)
def maj (x y z : ℕ) : ℕ := (x &&& y) ^^^ (x &&& z) ^^^ (y &&& z)

def roundConstants : List ℕ := [
  0x428a2f98, 0x71374491, 0xb5c0fbcf, 0xe9b5dba5, 0x3956c25b, 0x59f111f1, 0x923f82a4, 0xab1c5ed5,
  0xd807aa98, 0x12835b01, 0x243185be, 0x550c7dc3, 0x72be5d74, 0x80deb1fe, 0x9bdc06a7, 0xc19bf174,
  0xe49b69c1, 0xefbe4786, 0x0fc19dc6, 0x240ca1cc, 0x2de92c6f, 0x4a7484aa, 0x5cb0a9dc, 0x76f988da,
  0x983e5152, 0xa831c66d, 0xb00327c8, 0xbf597fc7, 0xc6e00bf3, 0xd5a79147, 0x06ca6351, 0x14292967,
  0x27b70a85, 0x2e1b2138, 0x4d2c6dfc, 0x53380d13, 0x650a7354, 0x766a0abb, 0x81c2c92e, 0x92722c85,
  0xa2bfe8a1, 0xa81a664b, 0xc24b8b70, 0xc76c51a3, 0xd192e819, 0xd6990624, 0xf40e3585, 0x106aa070,
  0x19a4c116, 0x1e376c08, 0x2748774c, 0x34b0bcb5, 0x391c0cb3, 0x4ed8aa4a, 0x5b9cca4f, 0x682e6ff3,
  0x748f82ee, 0x78a5636f, 0x84c87814, 0x8cc70208, 0x90befffa, 0xa4506ceb, 0xbef9a3f7, 0xc67178f2]

structure Registers where
  a : ℕ
  b : ℕ
  c : ℕ
  d : ℕ
  e : ℕ
  f : ℕ
  g : ℕ
  h : ℕ

def initial : Registers where
  a := 0x6a09e667
  b := 0xbb67ae85
  c := 0x3c6ef372
  d := 0xa54ff53a
  e := 0x510e527f
  f := 0x9b05688c
  g := 0x1f83d9ab
  h := 0x5be0cd19

def Registers.round (r : Registers) (k w : ℕ) : Registers :=
  let t1 := r.h + bigSigma1 r.e + ch r.e r.f r.g + k + w
  let t2 := bigSigma0 r.a + maj r.a r.b r.c
  ⟨word (t1 + t2), r.a, r.b, r.c, word (r.d + t1), r.e, r.f, r.g⟩

def Registers.add (r s : Registers) : Registers :=
  ⟨word (r.a + s.a), word (r.b + s.b), word (r.c + s.c), word (r.d + s.d),
    word (r.e + s.e), word (r.f + s.f), word (r.g + s.g), word (r.h + s.h)⟩

/-- The next word of the message schedule; the window holds the last sixteen, oldest first. -/
def scheduleWord (window : List ℕ) : ℕ :=
  word (smallSigma1 (window.getD 14 0) + window.getD 9 0 +
    smallSigma0 (window.getD 1 0) + window.getD 0 0)

def rounds : List ℕ → List ℕ → Registers → Registers
  | [], _, r => r
  | k :: ks, window, r =>
    rounds ks (window.tail ++ [scheduleWord window]) (r.round k (window.headD 0))

def wordsOfBytes : Bytes → List ℕ
  | a :: b :: c :: d :: rest =>
    (16777216 * a.toNat + 65536 * b.toNat + 256 * c.toNat + d.toNat) :: wordsOfBytes rest
  | _ => []

def bytesOfWord (w : ℕ) : Bytes :=
  [UInt8.ofNat (w / 16777216), UInt8.ofNat (w / 65536), UInt8.ofNat (w / 256), UInt8.ofNat w]

/-- A one bit, zeros, and the length in bits over eight bytes, up to a multiple of 64 bytes. -/
def pad (m : Bytes) : Bytes :=
  m ++ 128 :: List.replicate ((119 - m.length % 64) % 64) 0 ++
    bytesOfWord (8 * m.length / 4294967296) ++ bytesOfWord (8 * m.length)

def blocks : ℕ → List ℕ → Registers → Registers
  | 0, _, r => r
  | n + 1, ws, r => blocks n (ws.drop 16) (r.add (rounds roundConstants (ws.take 16) r))

def Registers.digest (r : Registers) : Bytes :=
  bytesOfWord r.a ++ bytesOfWord r.b ++ bytesOfWord r.c ++ bytesOfWord r.d ++
    bytesOfWord r.e ++ bytesOfWord r.f ++ bytesOfWord r.g ++ bytesOfWord r.h

def sha256 (m : Bytes) : Bytes :=
  let ws := wordsOfBytes (pad m)
  (blocks (ws.length / 16) ws initial).digest

theorem sha256_length (m : Bytes) : (sha256 m).length = 32 := rfl

example : sha256 [97, 98, 99] =
    [0xba, 0x78, 0x16, 0xbf, 0x8f, 0x01, 0xcf, 0xea, 0x41, 0x41, 0x40, 0xde, 0x5d, 0xae, 0x22, 0x23,
     0xb0, 0x03, 0x61, 0xa3, 0x96, 0x17, 0x7a, 0x9c, 0xb4, 0x10, 0xff, 0x61, 0xf2, 0x00, 0x15, 0xad] := by
  decide +kernel

end ChiaGaming.Sha256
