namespace ScriptUplift

/-!
# The SHA-256 digest

The message is padded to whole blocks of sixteen words, and every block is mixed
into a state of eight words.
-/

namespace Sha256

/-- The state: eight words. -/
structure State where
  a : UInt32
  b : UInt32
  c : UInt32
  d : UInt32
  e : UInt32
  f : UInt32
  g : UInt32
  h : UInt32
  deriving Repr, DecidableEq

/-- The state before the first block. -/
def initial : State :=
  ⟨0x6a09e667, 0xbb67ae85, 0x3c6ef372, 0xa54ff53a, 0x510e527f, 0x9b05688c, 0x1f83d9ab,
   0x5be0cd19⟩

/-- The constants of the sixty-four rounds. -/
def roundConstants : List UInt32 :=
  [0x428a2f98, 0x71374491, 0xb5c0fbcf, 0xe9b5dba5, 0x3956c25b, 0x59f111f1, 0x923f82a4,
   0xab1c5ed5, 0xd807aa98, 0x12835b01, 0x243185be, 0x550c7dc3, 0x72be5d74, 0x80deb1fe,
   0x9bdc06a7, 0xc19bf174, 0xe49b69c1, 0xefbe4786, 0x0fc19dc6, 0x240ca1cc, 0x2de92c6f,
   0x4a7484aa, 0x5cb0a9dc, 0x76f988da, 0x983e5152, 0xa831c66d, 0xb00327c8, 0xbf597fc7,
   0xc6e00bf3, 0xd5a79147, 0x06ca6351, 0x14292967, 0x27b70a85, 0x2e1b2138, 0x4d2c6dfc,
   0x53380d13, 0x650a7354, 0x766a0abb, 0x81c2c92e, 0x92722c85, 0xa2bfe8a1, 0xa81a664b,
   0xc24b8b70, 0xc76c51a3, 0xd192e819, 0xd6990624, 0xf40e3585, 0x106aa070, 0x19a4c116,
   0x1e376c08, 0x2748774c, 0x34b0bcb5, 0x391c0cb3, 0x4ed8aa4a, 0x5b9cca4f, 0x682e6ff3,
   0x748f82ee, 0x78a5636f, 0x84c87814, 0x8cc70208, 0x90befffa, 0xa4506ceb, 0xbef9a3f7,
   0xc67178f2]

/-- Rotate a word to the right. -/
def rotateRight
    (word : UInt32)
    (amount : UInt32) :
    UInt32 :=
  (word >>> amount) ||| (word <<< (32 - amount))

/-- The next word of the schedule from the sixteen before it, the latest first. -/
def nextWord : List UInt32 → UInt32
  | [_, w2, _, _, _, _, w7, _, _, _, _, _, _, _, w15, w16] =>
      let s0 := rotateRight w15 7 ^^^ rotateRight w15 18 ^^^ (w15 >>> 3)
      let s1 := rotateRight w2 17 ^^^ rotateRight w2 19 ^^^ (w2 >>> 10)
      w16 + s0 + w7 + s1
  | _ =>
      0

/-- Extend a schedule, kept latest first, by a number of words. -/
def extend : Nat → List UInt32 → List UInt32
  | 0, words =>
      words
  | count + 1, words =>
      extend count (nextWord (words.take 16) :: words)

/-- One round. -/
def round
    (state : State)
    (constant word : UInt32) :
    State :=
  let s1 := rotateRight state.e 6 ^^^ rotateRight state.e 11 ^^^ rotateRight state.e 25
  let choice := (state.e &&& state.f) ^^^ ((~~~ state.e) &&& state.g)
  let t1 := state.h + s1 + choice + constant + word
  let s0 := rotateRight state.a 2 ^^^ rotateRight state.a 13 ^^^ rotateRight state.a 22
  let majority := (state.a &&& state.b) ^^^ (state.a &&& state.c) ^^^ (state.b &&& state.c)
  ⟨t1 + (s0 + majority), state.a, state.b, state.c, state.d + t1, state.e, state.f, state.g⟩

/-- Mix a block of sixteen words into a state. -/
def absorb
    (state : State)
    (block : List UInt32) :
    State :=
  let schedule := (extend 48 block.reverse).reverse
  let mixed :=
    (roundConstants.zip schedule).foldl (fun current pair => round current pair.1 pair.2) state
  ⟨state.a + mixed.a, state.b + mixed.b, state.c + mixed.c, state.d + mixed.d,
   state.e + mixed.e, state.f + mixed.f, state.g + mixed.g, state.h + mixed.h⟩

/-- The bytes of a number, most significant first, in a given count. -/
def bigEndian
    (count number : Nat) :
    List UInt8 :=
  (List.range count).map fun place =>
    UInt8.ofNat (number / Nat.pow 256 (count - 1 - place) % 256)

/-- A message followed by one bit, zeros and its length, in whole blocks. -/
def pad
    (message : List UInt8) :
    List UInt8 :=
  let zeros := (119 - message.length % 64) % 64
  message ++ 0x80 :: List.replicate zeros 0 ++ bigEndian 8 (message.length * 8)

/-- Join bytes, most significant first, into words. -/
def toWords : List UInt8 → List UInt32
  | b0 :: b1 :: b2 :: b3 :: rest =>
      ((b0.toUInt32 <<< 24) ||| (b1.toUInt32 <<< 16) ||| (b2.toUInt32 <<< 8) ||| b3.toUInt32) ::
        toWords rest
  | _ =>
      []

/-- Mix a number of blocks of words into a state. -/
def absorbAll : Nat → State → List UInt32 → State
  | 0, state, _ =>
      state
  | blocks + 1, state, words =>
      absorbAll blocks (absorb state (words.take 16)) (words.drop 16)

/-- The digest of a message: thirty-two bytes. -/
def digest
    (message : List UInt8) :
    List UInt8 :=
  let words := toWords (pad message)
  let state := absorbAll (words.length / 16) initial words
  [state.a, state.b, state.c, state.d, state.e, state.f, state.g, state.h].flatMap fun word =>
    bigEndian 4 word.toNat

end Sha256

/-- Bytes written as lower-case hexadecimal digits. -/
def hexText
    (bytes : List UInt8) :
    String :=
  String.ofList (bytes.flatMap fun byte =>
    [Nat.digitChar (byte.toNat / 16), Nat.digitChar (byte.toNat % 16)])

end ScriptUplift
