/-!
# SHA-256

`sha256` maps a string of bytes to its digest of 32 bytes: the bytes are padded to blocks of 64, and each block is
mixed into a state of eight 32-bit words. `sha256Hex` writes the digest in hexadecimal.
-/

namespace AdviceWeaving

namespace Sha256

/-- The constants of the rounds. -/
def roundConstants : Array UInt32 :=
  #[0x428a2f98, 0x71374491, 0xb5c0fbcf, 0xe9b5dba5, 0x3956c25b, 0x59f111f1, 0x923f82a4, 0xab1c5ed5,
    0xd807aa98, 0x12835b01, 0x243185be, 0x550c7dc3, 0x72be5d74, 0x80deb1fe, 0x9bdc06a7, 0xc19bf174,
    0xe49b69c1, 0xefbe4786, 0x0fc19dc6, 0x240ca1cc, 0x2de92c6f, 0x4a7484aa, 0x5cb0a9dc, 0x76f988da,
    0x983e5152, 0xa831c66d, 0xb00327c8, 0xbf597fc7, 0xc6e00bf3, 0xd5a79147, 0x06ca6351, 0x14292967,
    0x27b70a85, 0x2e1b2138, 0x4d2c6dfc, 0x53380d13, 0x650a7354, 0x766a0abb, 0x81c2c92e, 0x92722c85,
    0xa2bfe8a1, 0xa81a664b, 0xc24b8b70, 0xc76c51a3, 0xd192e819, 0xd6990624, 0xf40e3585, 0x106aa070,
    0x19a4c116, 0x1e376c08, 0x2748774c, 0x34b0bcb5, 0x391c0cb3, 0x4ed8aa4a, 0x5b9cca4f, 0x682e6ff3,
    0x748f82ee, 0x78a5636f, 0x84c87814, 0x8cc70208, 0x90befffa, 0xa4506ceb, 0xbef9a3f7, 0xc67178f2]

/-- The eight words that are mixed. -/
structure State where
  a : UInt32
  b : UInt32
  c : UInt32
  d : UInt32
  e : UInt32
  f : UInt32
  g : UInt32
  h : UInt32
  deriving DecidableEq, Inhabited

/-- The state before the first block. -/
def initial : State :=
  ⟨0x6a09e667, 0xbb67ae85, 0x3c6ef372, 0xa54ff53a, 0x510e527f, 0x9b05688c, 0x1f83d9ab, 0x5be0cd19⟩

/-- A word turned to the right. -/
def rotate (x n : UInt32) : UInt32 :=
  (x >>> n) ||| (x <<< (32 - n))

/-- One round, with a word of the schedule and its constant. -/
def mixWord (s : State) (word constant : UInt32) : State :=
  let sum1 := rotate s.e 6 ^^^ rotate s.e 11 ^^^ rotate s.e 25
  let choice := (s.e &&& s.f) ^^^ (~~~s.e &&& s.g)
  let t1 := s.h + sum1 + choice + constant + word
  let sum0 := rotate s.a 2 ^^^ rotate s.a 13 ^^^ rotate s.a 22
  let majority := (s.a &&& s.b) ^^^ (s.a &&& s.c) ^^^ (s.b &&& s.c)
  ⟨t1 + (sum0 + majority), s.a, s.b, s.c, s.d + t1, s.e, s.f, s.g⟩

/-- The state with each word added to the word of another. -/
def State.add (s t : State) : State :=
  ⟨s.a + t.a, s.b + t.b, s.c + t.c, s.d + t.d, s.e + t.e, s.f + t.f, s.g + t.g, s.h + t.h⟩

/-- The next word of the schedule, from the words before it. -/
def nextWord (words : Array UInt32) : UInt32 :=
  let before (back : Nat) := words.getD (words.size - back) 0
  let x := before 15
  let y := before 2
  let sigma0 := rotate x 7 ^^^ rotate x 18 ^^^ (x >>> 3)
  let sigma1 := rotate y 17 ^^^ rotate y 19 ^^^ (y >>> 10)
  before 16 + sigma0 + before 7 + sigma1

/-- The schedule of a block: its sixteen words, and forty-eight more. -/
def schedule (block : Array UInt32) : Array UInt32 :=
  (List.range 48).foldl (fun words _ => words.push (nextWord words)) block

/-- Mix a block of sixteen words into the state. -/
def mixBlock (s : State) (block : Array UInt32) : State :=
  let words := schedule block
  s.add <| (List.range 64).foldl (fun s i => mixWord s (words.getD i 0) (roundConstants.getD i 0)) s

/-- The word of four bytes, the first one highest. -/
def wordOf (a b c d : UInt8) : UInt32 :=
  (a.toUInt32 <<< 24) ||| (b.toUInt32 <<< 16) ||| (c.toUInt32 <<< 8) ||| d.toUInt32

/-- The bytes of a word, the highest one first. -/
def bytesOf (w : UInt32) : List UInt8 :=
  [(w >>> 24).toUInt8, (w >>> 16).toUInt8, (w >>> 8).toUInt8, w.toUInt8]

/-- The bytes that fill a message of `length` bytes up to whole blocks: a one bit, zeros, and the length in bits. -/
def padding (length : Nat) : List UInt8 :=
  let bits := UInt64.ofNat (8 * length)
  (0x80 : UInt8) :: List.replicate ((119 - length % 64) % 64) (0 : UInt8) ++
    bytesOf (bits >>> 32).toUInt32 ++ bytesOf bits.toUInt32

/-- Mix the words of a message into the state, block by block; `block` holds the words of a block that is not yet
complete. -/
def mixBytes (s : State) (block : Array UInt32) : List UInt8 → State
  | a :: b :: c :: d :: bytes =>
    let block := block.push (wordOf a b c d)
    if block.size = 16 then mixBytes (mixBlock s block) #[] bytes else mixBytes s block bytes
  | _ => s

/-- The bytes of a state. -/
def State.bytes (s : State) : List UInt8 :=
  [s.a, s.b, s.c, s.d, s.e, s.f, s.g, s.h].flatMap bytesOf

end Sha256

/-- The SHA-256 digest of a string of bytes. -/
def sha256 (bytes : ByteArray) : List UInt8 :=
  (Sha256.mixBytes Sha256.initial #[] (bytes.data.toList ++ Sha256.padding bytes.size)).bytes

/-- Bytes in hexadecimal, two digits each. -/
def bytesHex (bytes : List UInt8) : String :=
  String.ofList (bytes.flatMap fun b => [Nat.digitChar (b.toNat / 16), Nat.digitChar (b.toNat % 16)])

/-- The SHA-256 digest of a text, in hexadecimal. -/
def sha256Hex (text : String) : String :=
  bytesHex (sha256 text.toUTF8)

end AdviceWeaving
