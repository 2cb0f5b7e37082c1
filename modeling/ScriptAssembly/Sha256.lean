/-!
# SHA-256

The digest of a list of bytes: the message is padded to whole blocks, every block is spread over
sixty-four words, and each word mixes one round into the eight words of the state.
-/

namespace ScriptAssembly.Sha256

/-- The round constants. -/
def constants : List UInt32 := [
  0x428a2f98, 0x71374491, 0xb5c0fbcf, 0xe9b5dba5, 0x3956c25b, 0x59f111f1, 0x923f82a4, 0xab1c5ed5,
  0xd807aa98, 0x12835b01, 0x243185be, 0x550c7dc3, 0x72be5d74, 0x80deb1fe, 0x9bdc06a7, 0xc19bf174,
  0xe49b69c1, 0xefbe4786, 0x0fc19dc6, 0x240ca1cc, 0x2de92c6f, 0x4a7484aa, 0x5cb0a9dc, 0x76f988da,
  0x983e5152, 0xa831c66d, 0xb00327c8, 0xbf597fc7, 0xc6e00bf3, 0xd5a79147, 0x06ca6351, 0x14292967,
  0x27b70a85, 0x2e1b2138, 0x4d2c6dfc, 0x53380d13, 0x650a7354, 0x766a0abb, 0x81c2c92e, 0x92722c85,
  0xa2bfe8a1, 0xa81a664b, 0xc24b8b70, 0xc76c51a3, 0xd192e819, 0xd6990624, 0xf40e3585, 0x106aa070,
  0x19a4c116, 0x1e376c08, 0x2748774c, 0x34b0bcb5, 0x391c0cb3, 0x4ed8aa4a, 0x5b9cca4f, 0x682e6ff3,
  0x748f82ee, 0x78a5636f, 0x84c87814, 0x8cc70208, 0x90befffa, 0xa4506ceb, 0xbef9a3f7, 0xc67178f2]

/-- The eight words that the rounds mix. -/
structure State where
  (a b c d e f g h : UInt32)

/-- The state before the first block. -/
def State.initial : State :=
  ⟨0x6a09e667, 0xbb67ae85, 0x3c6ef372, 0xa54ff53a, 0x510e527f, 0x9b05688c, 0x1f83d9ab, 0x5be0cd19⟩

/-- A word turned right by a number of bits. -/
def rotate (x : UInt32) (n : UInt32) : UInt32 := (x >>> n) ||| (x <<< (32 - n))

/-- One round, with a round constant and a word of the schedule. -/
def State.round (s : State) (constant word : UInt32) : State :=
  let big₁ := rotate s.e 6 ^^^ rotate s.e 11 ^^^ rotate s.e 25
  let choice := (s.e &&& s.f) ^^^ (~~~s.e &&& s.g)
  let first := s.h + big₁ + choice + constant + word
  let big₀ := rotate s.a 2 ^^^ rotate s.a 13 ^^^ rotate s.a 22
  let majority := (s.a &&& s.b) ^^^ (s.a &&& s.c) ^^^ (s.b &&& s.c)
  ⟨first + (big₀ + majority), s.a, s.b, s.c, s.d + first, s.e, s.f, s.g⟩

/-- The states added word by word. -/
def State.add (s t : State) : State :=
  ⟨s.a + t.a, s.b + t.b, s.c + t.c, s.d + t.d, s.e + t.e, s.f + t.f, s.g + t.g, s.h + t.h⟩

/-- The words of a state in order. -/
def State.words (s : State) : List UInt32 := [s.a, s.b, s.c, s.d, s.e, s.f, s.g, s.h]

/-- The word after the given ones, which are listed last first. -/
def nextWord (latest : List UInt32) : UInt32 :=
  let word := fun n => latest.getD (n - 1) 0
  let small₀ := rotate (word 15) 7 ^^^ rotate (word 15) 18 ^^^ (word 15 >>> 3)
  let small₁ := rotate (word 2) 17 ^^^ rotate (word 2) 19 ^^^ (word 2 >>> 10)
  word 16 + small₀ + word 7 + small₁

/-- The given words and `count` more, last first. -/
def extend : Nat → List UInt32 → List UInt32
  | 0, latest => latest
  | count + 1, latest => extend count (nextWord latest :: latest)

/-- The big-endian word of four bytes. -/
def wordOf (bytes : List UInt8) : UInt32 :=
  bytes.foldl (fun word b => (word <<< 8) ||| b.toUInt32) 0

/-- The consecutive parts of `size` items, `count` of them. -/
def parts {α : Type} (size : Nat) : Nat → List α → List (List α)
  | 0, _ => []
  | count + 1, items => items.take size :: parts size count (items.drop size)

/-- One block mixed into the state. -/
def State.mix (s : State) (block : List UInt8) : State :=
  let schedule := (extend 48 ((parts 4 16 block).map wordOf).reverse).reverse
  s.add ((constants.zip schedule).foldl (fun s (constant, word) => s.round constant word) s)

/-- The bytes of a number, the highest first, `count` of them. -/
def bigEndian (count n : Nat) : List UInt8 :=
  (List.range count).reverse.map fun place => .ofNat (n >>> (8 * place))

/-- The message with a one bit, zeros and its length in bits behind it: whole blocks. -/
def pad (message : List UInt8) : List UInt8 :=
  let zeros := (119 - message.length % 64) % 64
  message ++ 0x80 :: (List.replicate zeros 0 ++ bigEndian 8 (8 * message.length))

/-- The digest of a message. -/
def digest (message : List UInt8) : List UInt8 :=
  let padded := pad message
  let final := (parts 64 (padded.length / 64) padded).foldl State.mix .initial
  final.words.flatMap fun word => bigEndian 4 word.toNat

/-- The digest in hexadecimal digits. -/
def hex (message : List UInt8) : String :=
  .ofList <| (digest message).flatMap fun b =>
    [Nat.digitChar (b.toNat / 16), Nat.digitChar (b.toNat % 16)]

end ScriptAssembly.Sha256
