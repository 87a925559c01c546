import ScriptWorker.Decimal.Shortest

/-!
# Positional decimals

The text of a double in which every digit stands at its place: never an exponent, no point when
there is no fraction, and names for the values that are not numbers.
-/

namespace ScriptWorker.Decimal

def digitChars (n : Nat) : List Char := (toString n).toList

/-- Digits of a decimal with the point at its place. -/
def Shortest.positional (s : Shortest) : List Char :=
  let digits := digitChars s.digits
  if powerBias ≤ s.power then digits ++ List.replicate (s.power - powerBias) '0'
  else
    let places := powerBias - s.power
    if places < digits.length then
      digits.take (digits.length - places) ++ '.' :: digits.drop (digits.length - places)
    else '0' :: '.' :: List.replicate (places - digits.length) '0' ++ digits

def positional (bits : UInt64) : String :=
  let negative := bits ≥ 0x8000000000000000
  let magnitude := bits &&& 0x7fffffffffffffff
  if magnitude > 0x7ff0000000000000 then "NaN"
  else
    let body :=
      if magnitude = 0x7ff0000000000000 then "inf"
      else match shortest magnitude with
        | none => "0"
        | some s => String.ofList s.positional
    if negative then "-" ++ body else body

end ScriptWorker.Decimal
