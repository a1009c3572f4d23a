/-!
The keyed hash function SipHash with one round per word and three at the end.

The message is read in words of eight bytes, the low byte first. The last word
holds the bytes that are left over and, in its high byte, the length of the
whole message.
-/

namespace AssemblyGraph.SipHash

structure State where
  v0 : UInt64
  v1 : UInt64
  v2 : UInt64
  v3 : UInt64

def rotate (x : UInt64) (bits : UInt64) : UInt64 :=
  (x <<< bits) ||| (x >>> (64 - bits))

def State.init (k0 k1 : UInt64) : State where
  v0 := k0 ^^^ 0x736f6d6570736575
  v1 := k1 ^^^ 0x646f72616e646f6d
  v2 := k0 ^^^ 0x6c7967656e657261
  v3 := k1 ^^^ 0x7465646279746573

def State.round (s : State) : State :=
  let a0 := s.v0 + s.v1
  let a1 := rotate s.v1 13 ^^^ a0
  let a2 := s.v2 + s.v3
  let a3 := rotate s.v3 16 ^^^ a2
  let b0 := rotate a0 32
  let b2 := a2 + a1
  let c0 := b0 + a3
  { v0 := c0
    v1 := rotate a1 17 ^^^ b2
    v2 := rotate b2 32
    v3 := rotate a3 21 ^^^ c0 }

def State.absorb (s : State) (word : UInt64) : State :=
  let mixed := { s with v3 := s.v3 ^^^ word }.round
  { mixed with v0 := mixed.v0 ^^^ word }

def State.finish (s : State) : UInt64 :=
  let mixed := { s with v2 := s.v2 ^^^ 0xff }.round.round.round
  mixed.v0 ^^^ mixed.v1 ^^^ mixed.v2 ^^^ mixed.v3

/-- The word of up to eight bytes, the low byte first. -/
def wordOf (bytes : List UInt8) : UInt64 :=
  bytes.foldr (fun byte word => (word <<< 8) ||| byte.toUInt64) 0

/-- Takes in the bytes that are left of a message of `length` bytes. -/
def absorbBytes (length : Nat) (s : State) : List UInt8 → State
  | b0 :: b1 :: b2 :: b3 :: b4 :: b5 :: b6 :: b7 :: rest =>
    absorbBytes length (s.absorb (wordOf [b0, b1, b2, b3, b4, b5, b6, b7])) rest
  | left => s.absorb ((UInt64.ofNat length <<< 56) ||| wordOf left)

/-- The hash of a message under a key of two words. -/
def hash (k0 k1 : UInt64) (message : List UInt8) : UInt64 :=
  (absorbBytes message.length (.init k0 k1) message).finish

end AssemblyGraph.SipHash
