/-!
# The SHA-1 digest

The digest of a byte string as defined by the secure hash standard: the message is padded to
blocks of sixteen words, and every block is mixed into five chaining words by eighty rounds.
The message schedule is kept as a window of sixteen words that moves on by one a round.

## Main definitions

* `Sha1.pad`: a message with its padding and length.
* `Sha1.round`: one round on the working words and the window.
* `Sha1.digest`: the twenty bytes of the digest.
-/
namespace ApiGateway.Sha1

/-- The five chaining words, which are also the working words of the rounds. -/
structure Words where
  a : UInt32
  b : UInt32
  c : UInt32
  d : UInt32
  e : UInt32
  deriving DecidableEq

/-- The chaining words before the first block. -/
def start : Words := ⟨0x67452301, 0xefcdab89, 0x98badcfe, 0x10325476, 0xc3d2e1f0⟩

/-- Rotation to the left, for an amount between 1 and 31. -/
def rotate (x : UInt32) (n : UInt32) : UInt32 := (x <<< n) ||| (x >>> (32 - n))

/-- The mixing function and the constant of a round. -/
def mixing (t : Nat) (b c d : UInt32) : UInt32 × UInt32 :=
  if t < 20 then ((b &&& c) ||| (~~~b &&& d), 0x5a827999)
  else if t < 40 then (b ^^^ c ^^^ d, 0x6ed9eba1)
  else if t < 60 then ((b &&& c) ||| (b &&& d) ||| (c &&& d), 0x8f1bbcdc)
  else (b ^^^ c ^^^ d, 0xca62c1d6)

/-- The word of the schedule that follows a window of sixteen. -/
def nextWord (window : List UInt32) : UInt32 :=
  let at_ (i : Nat) := window.getD i 0
  rotate (at_ 13 ^^^ at_ 8 ^^^ at_ 2 ^^^ at_ 0) 1

/-- One round: the first word of the window is mixed in, and the window moves on. -/
def round (state : Words × List UInt32) (t : Nat) : Words × List UInt32 :=
  let (w, window) := state
  let (f, k) := mixing t w.b w.c w.d
  let mixed := rotate w.a 5 + f + w.e + k + window.headD 0
  (⟨mixed, w.a, rotate w.b 30, w.c, w.d⟩, window.tail ++ [nextWord window])

/-- One block of sixteen words mixed into the chaining words. -/
def compress (chain : Words) (block : List UInt32) : Words :=
  let (w, _) := (List.range 80).foldl round (chain, block)
  ⟨chain.a + w.a, chain.b + w.b, chain.c + w.c, chain.d + w.d, chain.e + w.e⟩

/-- The bytes of a number, most significant first. -/
def bigEndian (width n : Nat) : List UInt8 :=
  (List.range width).map fun i => UInt8.ofNat (n >>> (8 * (width - 1 - i)))

/-- A message followed by a one bit, zeros up to eight bytes before the end of a block, and
its length in bits. -/
def pad (message : List UInt8) : List UInt8 :=
  let zeros := (119 - message.length % 64) % 64
  message ++ 0x80 :: List.replicate zeros 0 ++ bigEndian 8 (8 * message.length)

/-- The words of a byte string whose length is a multiple of four. -/
def words : List UInt8 → List UInt32
  | a :: b :: c :: d :: rest =>
    (a.toUInt32 <<< 24 ||| b.toUInt32 <<< 16 ||| c.toUInt32 <<< 8 ||| d.toUInt32) :: words rest
  | _ => []

/-- Collects the words of a block and compresses it when it is full. -/
def absorb (state : Words × List UInt32) (word : UInt32) : Words × List UInt32 :=
  let block := state.2 ++ [word]
  if block.length = 16 then (compress state.1 block, []) else (state.1, block)

/-- The digest of a message. -/
def digest (message : List UInt8) : List UInt8 :=
  let (w, _) := (words (pad message)).foldl absorb (start, [])
  [w.a, w.b, w.c, w.d, w.e].flatMap fun x => bigEndian 4 x.toNat

/-- A digest has twenty bytes. -/
@[simp] theorem length_digest (message : List UInt8) : (digest message).length = 20 := by
  simp [digest, bigEndian]

end ApiGateway.Sha1
