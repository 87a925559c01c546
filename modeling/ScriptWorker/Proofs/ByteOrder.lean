import Mathlib.Data.List.Lex
import Mathlib.Data.String.Basic

/-!
# Byte order

Texts are compared character by character, and their encodings byte by byte. Both come to the same: of
two characters the one with the smaller number has the smaller encoding, and neither encoding begins the
other.
-/

namespace ScriptWorker.Text

def bytes (s : String) : List UInt8 := s.toList.flatMap String.utf8EncodeChar

theorem bytes_eq (s : String) : bytes s = s.toUTF8.data.toList := by
  unfold bytes
  have hencode : s.toList.utf8Encode = s.toUTF8 := String.utf8Encode_toList
  rw [← hencode, List.utf8Encode, List.data_toByteArray]

def BytesLt (a b : String) : Prop := bytes a < bytes b

section

variable {c d : Char} {x y p : List UInt8} {a b : List Char}

theorem append_lt_append_iff : p ++ x < p ++ y ↔ x < y := by
  induction p with
  | nil => rfl
  | cons byte p ih =>
    rw [List.cons_append, List.cons_append, List.cons_lt_cons_iff, ih]
    simp

/-- The smaller character has the smaller encoding, whatever follows. -/
theorem encode_lt_encode (h : c < d) :
    String.utf8EncodeChar c ++ x < String.utf8EncodeChar d ++ y := by
  have hcd : c.val.toNat < d.val.toNat := h
  have hlarge : d.val.toNat < 1114112 := by
    have hvalid := d.valid
    unfold UInt32.isValidChar Nat.isValidChar at hvalid
    omega
  unfold String.utf8EncodeChar
  generalize c.val.toNat = m at hcd
  generalize d.val.toNat = n at hcd hlarge
  dsimp only
  split_ifs <;>
    simp only [List.cons_append, List.nil_append, List.cons_lt_cons_iff, UInt8.lt_iff_toNat_lt,
      ← UInt8.toNat_inj, UInt8.toNat_ofNat'] <;>
    simp (disch := omega) only [Nat.mod_eq_of_lt] <;>
    omega

theorem encode_ne_nil (c : Char) : String.utf8EncodeChar c ≠ [] := by
  unfold String.utf8EncodeChar
  dsimp only
  split_ifs <;> simp

theorem flatMap_lt_of_lt (h : a < b) :
    a.flatMap String.utf8EncodeChar < b.flatMap String.utf8EncodeChar := by
  induction a generalizing b with
  | nil =>
    cases b with
    | nil => exact absurd h (List.lt_irrefl _)
    | cons d b =>
      obtain ⟨byte, rest, hencode⟩ := List.exists_cons_of_ne_nil (encode_ne_nil d)
      rw [List.flatMap_nil, List.flatMap_cons, hencode, List.cons_append]
      exact List.nil_lt_cons _ _
  | cons c a ih =>
    cases b with
    | nil => exact absurd h (List.not_lt_nil _)
    | cons d b =>
      rw [List.flatMap_cons, List.flatMap_cons]
      rcases List.cons_lt_cons_iff.1 h with hlt | ⟨rfl, hlt⟩
      · exact encode_lt_encode hlt
      · exact append_lt_append_iff.2 (ih hlt)

end

theorem lt_iff_bytesLt (a b : String) : a < b ↔ BytesLt a b := by
  constructor
  · intro h
    exact flatMap_lt_of_lt (String.lt_iff_toList_lt.1 h)
  · intro h
    by_contra hnot
    rcases lt_or_eq_of_le (not_lt.1 hnot) with hlt | rfl
    · have hback : bytes b < bytes a := flatMap_lt_of_lt (String.lt_iff_toList_lt.1 hlt)
      exact List.lt_asymm hback h
    · exact List.lt_irrefl _ h

end ScriptWorker.Text
