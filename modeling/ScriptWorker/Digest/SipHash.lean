/-!
# SipHash-1-3

The keyed hash with one compression round per word and three at the end, here under the zero key.
-/

namespace ScriptWorker.Digest

structure SipState where
  v0 : UInt64
  v1 : UInt64
  v2 : UInt64
  v3 : UInt64

namespace SipState

def rotateLeft (x : UInt64) (n : UInt64) : UInt64 := (x <<< n) ||| (x >>> (64 - n))

def start : SipState :=
  ⟨0x736f6d6570736575, 0x646f72616e646f6d, 0x6c7967656e657261, 0x7465646279746573⟩

def round (s : SipState) : SipState :=
  let v0 := s.v0 + s.v1
  let v1 := rotateLeft s.v1 13 ^^^ v0
  let v0 := rotateLeft v0 32
  let v2 := s.v2 + s.v3
  let v3 := rotateLeft s.v3 16 ^^^ v2
  let v0 := v0 + v3
  let v3 := rotateLeft v3 21 ^^^ v0
  let v2 := v2 + v1
  let v1 := rotateLeft v1 17 ^^^ v2
  let v2 := rotateLeft v2 32
  ⟨v0, v1, v2, v3⟩

def absorb (s : SipState) (word : UInt64) : SipState :=
  let s := round { s with v3 := s.v3 ^^^ word }
  { s with v0 := s.v0 ^^^ word }

def finish (s : SipState) : UInt64 :=
  let s := round (round (round { s with v2 := s.v2 ^^^ 0xff }))
  s.v0 ^^^ s.v1 ^^^ s.v2 ^^^ s.v3

end SipState

def wordOf : List UInt8 → UInt64
  | [] => 0
  | b :: rest => b.toUInt64 ||| (wordOf rest <<< 8)

def bytesOf (word : UInt64) : List UInt8 :=
  (List.range 8).map fun i => (word >>> (8 * i.toUInt64)).toUInt8

/-- Absorb whole words, then the rest together with the low byte of the total length. -/
def absorbAll (s : SipState) (length : UInt64) (bytes : List UInt8) : SipState :=
  if 8 ≤ bytes.length then absorbAll (s.absorb (wordOf (bytes.take 8))) length (bytes.drop 8)
  else s.absorb (wordOf bytes ||| (length <<< 56))
termination_by bytes.length
decreasing_by simp; omega

def sipHash (bytes : List UInt8) : UInt64 :=
  (absorbAll SipState.start bytes.length.toUInt64 bytes).finish

end ScriptWorker.Digest
