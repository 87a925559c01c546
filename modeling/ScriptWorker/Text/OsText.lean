/-!
# Texts of the operating system

File names and variables are bytes that usually, but not always, are UTF-8. What is not UTF-8 can
still be shown: each longest piece that could begin a character, and each other stray byte, becomes
one replacement character.
-/

namespace ScriptWorker

structure OsText where
  bytes : List UInt8
  deriving DecidableEq, Repr, Inhabited

namespace OsText

def ofString (s : String) : OsText := ⟨s.toUTF8.toList⟩

def toByteArray (t : OsText) : ByteArray := ⟨t.bytes.toArray⟩

def toString? (t : OsText) : Option String := String.fromUTF8? t.toByteArray

def isEmpty (t : OsText) : Bool := t.bytes.isEmpty

def append (a b : OsText) : OsText := ⟨a.bytes ++ b.bytes⟩

/-- A character that has begun: how many bytes are owed, what the next may be, and the bits so far. -/
structure Partial where
  owed : Nat
  low : UInt8
  high : UInt8
  bits : Nat

def replacement : Char := '\ufffd'

def begin (b : UInt8) : Char ⊕ Partial :=
  let n := b.toNat
  if n < 0x80 then .inl (Char.ofNat n)
  else if 0xc2 ≤ n ∧ n ≤ 0xdf then .inr ⟨1, 0x80, 0xbf, n - 0xc0⟩
  else if n = 0xe0 then .inr ⟨2, 0xa0, 0xbf, 0⟩
  else if n = 0xed then .inr ⟨2, 0x80, 0x9f, n - 0xe0⟩
  else if 0xe1 ≤ n ∧ n ≤ 0xef then .inr ⟨2, 0x80, 0xbf, n - 0xe0⟩
  else if n = 0xf0 then .inr ⟨3, 0x90, 0xbf, 0⟩
  else if 0xf1 ≤ n ∧ n ≤ 0xf3 then .inr ⟨3, 0x80, 0xbf, n - 0xf0⟩
  else if n = 0xf4 then .inr ⟨3, 0x80, 0x8f, n - 0xf0⟩
  else .inl replacement

def lossyChars : Option Partial → List UInt8 → List Char
  | none, [] => []
  | some _, [] => [replacement]
  | none, b :: rest =>
    match begin b with
    | .inl c => c :: lossyChars none rest
    | .inr p => lossyChars (some p) rest
  | some p, b :: rest =>
    if p.low ≤ b ∧ b ≤ p.high then
      let bits := p.bits * 64 + (b.toNat - 0x80)
      if p.owed ≤ 1 then Char.ofNat bits :: lossyChars none rest
      else lossyChars (some ⟨p.owed - 1, 0x80, 0xbf, bits⟩) rest
    else
      match begin b with
      | .inl c => replacement :: c :: lossyChars none rest
      | .inr q => replacement :: lossyChars (some q) rest

/-- The text, with replacement characters for what is not UTF-8. -/
def lossy (t : OsText) : String := String.ofList (lossyChars none t.bytes)

def splitBytes (separator : UInt8) : List UInt8 → List (List UInt8)
  | [] => [[]]
  | b :: rest =>
    if b = separator then [] :: splitBytes separator rest
    else
      match splitBytes separator rest with
      | [] => [[b]]
      | piece :: pieces => (b :: piece) :: pieces

/-- The pieces of a list of paths, which colons separate, without the empty ones. -/
def splitPaths (t : OsText) : List OsText :=
  ((splitBytes 0x3a t.bytes).filter fun piece => !piece.isEmpty).map OsText.mk

end OsText

end ScriptWorker
