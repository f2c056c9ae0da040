/-!
# SipHash

The keyed hash SipHash with one round per word and three rounds at the end, both keys zero, over a
list of bytes. A word is eight bytes, the least significant first; the last word is filled up with
zeros and carries the number of bytes, modulo 256, in its top byte.
-/

namespace PreparedSql.Sip

structure State where
  v0 : UInt64
  v1 : UInt64
  v2 : UInt64
  v3 : UInt64
deriving DecidableEq, Repr

/-- The state before any input, for keys of zero. -/
def start : State := ⟨0x736f6d6570736575, 0x646f72616e646f6d, 0x6c7967656e657261, 0x7465646279746573⟩

/-- Rotation to the left by `n` bits, `0 < n < 64`. -/
def rotate (x n : UInt64) : UInt64 := x <<< n ||| x >>> (64 - n)

def round (s : State) : State :=
  let v0 := s.v0 + s.v1
  let v1 := rotate s.v1 13 ^^^ v0
  let v0 := rotate v0 32
  let v2 := s.v2 + s.v3
  let v3 := rotate s.v3 16 ^^^ v2
  let v0 := v0 + v3
  let v3 := rotate v3 21 ^^^ v0
  let v2 := v2 + v1
  let v1 := rotate v1 17 ^^^ v2
  let v2 := rotate v2 32
  ⟨v0, v1, v2, v3⟩

/-- One word of input. -/
def absorb (s : State) (word : UInt64) : State :=
  let s := round { s with v3 := s.v3 ^^^ word }
  { s with v0 := s.v0 ^^^ word }

/-- The number that bytes write, the least significant first. -/
def littleEndian (bs : List UInt8) : UInt64 :=
  bs.foldr (fun b acc => acc <<< 8 ||| b.toUInt64) 0

/-- All full words of the input, then the last one with the length. -/
def absorbAll (length : Nat) (s : State) : List UInt8 → State
  | a :: b :: c :: d :: e :: f :: g :: h :: rest =>
    absorbAll length (absorb s (littleEndian [a, b, c, d, e, f, g, h])) rest
  | rest => absorb s (littleEndian rest ||| UInt64.ofNat length <<< 56)

def finish (s : State) : UInt64 :=
  let s := round (round (round { s with v2 := s.v2 ^^^ 0xff }))
  s.v0 ^^^ s.v1 ^^^ s.v2 ^^^ s.v3

end PreparedSql.Sip

namespace PreparedSql

/-- The 64-bit hash of a list of bytes. -/
def sipHash (bs : List UInt8) : UInt64 := Sip.finish (Sip.absorbAll bs.length Sip.start bs)

end PreparedSql
