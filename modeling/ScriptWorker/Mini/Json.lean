import ScriptWorker.Toml.Number
import ScriptWorker.Toml.Text

/-!
# JSON

The notation in which small scripts write their statements. A reader takes what belongs to it from
the front of a text and gives back the rest, or refuses the text.
-/

namespace ScriptWorker.Mini

inductive Json where
  | null
  | bool (b : Bool)
  /-- A number of sixty-four bits, signed or not, written without point and exponent. -/
  | whole (n : Int)
  | decimal (written : String)
  | text (s : String)
  | list (items : List Json)
  /-- Names with their values as they are written; of two equal names the last one counts. -/
  | record (fields : List (String × Json))
  deriving Inhabited

namespace Json

def nestingLimit : Nat := 127

def isSpace (c : Char) : Bool := c = ' ' || c = '\t' || c = '\n' || c = '\r'

def skipSpace (cs : List Char) : List Char := cs.dropWhile isSpace

/-! ## Texts -/

/-- The second half of a character above U+FFFF, put together with the first one. -/
def readLowHalf (high : Nat) : List Char → Option (Char × List Char)
  | '\\' :: 'u' :: a :: b :: c :: d :: rest =>
    (Toml.hexNumber [a, b, c, d]).bind fun low =>
      if high ≤ 0xdbff ∧ 0xdc00 ≤ low ∧ low ≤ 0xdfff then
        some (Char.ofNat (0x10000 + (high - 0xd800) * 0x400 + (low - 0xdc00)), rest)
      else none
  | _ => none

def readEscape : List Char → Option (Char × List Char)
  | 'u' :: a :: b :: c :: d :: rest =>
    (Toml.hexNumber [a, b, c, d]).bind fun n =>
      if n.isValidChar then some (Char.ofNat n, rest) else readLowHalf n rest
  | '/' :: rest => some ('/', rest)
  | c :: rest => (Toml.namedEscape c).map fun x => (x, rest)
  | [] => none

/-- The text up to a closing quote, after what was `read` of it, last character first; `bound` is more
than the number of characters. -/
def readText (bound : Nat) (read cs : List Char) : Option (String × List Char) :=
  match bound, cs with
  | 0, _ => none
  | _, [] => none
  | bound + 1, c :: rest =>
    if c = '"' then some (String.ofList read.reverse, rest)
    else if c = '\\' then (readEscape rest).bind fun (x, rest) => readText bound (x :: read) rest
    else if c.toNat < 0x20 then none
    else readText bound (c :: read) rest

/-! ## Numbers -/

def readDigits (cs : List Char) : Option (List Char × List Char) :=
  let ds := cs.takeWhile Char.isDigit
  if ds.isEmpty then none else some (ds, cs.drop ds.length)

def readWhole (cs : List Char) : Option (List Char × List Char) :=
  (readDigits cs).filter fun (ds, _) => ds.length = 1 || ds.head? ≠ some '0'

def readFraction : List Char → Option (List Char × List Char)
  | '.' :: rest => readDigits rest
  | cs => some ([], cs)

def readExponent : List Char → Option (Bool × List Char × List Char)
  | [] => some (false, [], [])
  | c :: rest =>
    if c = 'e' ∨ c = 'E' then
      let (negative, rest) := Toml.sign rest
      (readDigits rest).map fun (ds, rest) => (negative, ds, rest)
    else some (false, [], c :: rest)

/-- The number that a sign and digits write, unless sixty-four bits are too few for it. A zero with a
minus is no whole number. -/
def wholeOf? (negative : Bool) (n : Nat) : Option Int :=
  if negative then if n ≠ 0 ∧ n ≤ Nat.pow 2 63 then some (-n) else none
  else if n < UInt64.size then some n else none

/-- A number; one above the greatest double is refused. -/
def readNumber (cs : List Char) : Option (Json × List Char) := do
  let (negative, start) := match cs with
    | '-' :: rest => (true, rest)
    | _ => (false, cs)
  let (front, rest) ← readWhole start
  let (places, rest) ← readFraction rest
  let (small, power, rest) ← readExponent rest
  let n := Toml.valueOf 10 (front ++ places)
  let plain := if places.isEmpty && power.isEmpty then wholeOf? negative n else none
  match plain with
  | some n => return (.whole n, rest)
  | none =>
    if Toml.roundsToInfinity n (front.length + places.length) places.length small
        (Toml.valueOf 10 power) then none
    else return (.decimal (String.ofList (cs.take (cs.length - rest.length))), rest)

/-! ## Values -/

def readItems (item : List Char → Option (Json × List Char)) (bound : Nat) (read : List Json)
    (cs : List Char) : Option (List Json × List Char) :=
  match bound with
  | 0 => none
  | bound + 1 =>
    (item (skipSpace cs)).bind fun (first, rest) =>
      match skipSpace rest with
      | ']' :: rest => some ((first :: read).reverse, rest)
      | ',' :: rest => readItems item bound (first :: read) rest
      | _ => none

def readField (item : List Char → Option (Json × List Char)) (bound : Nat) (cs : List Char) :
    Option ((String × Json) × List Char) :=
  match cs with
  | '"' :: rest =>
    (readText bound [] rest).bind fun (name, rest) =>
      match skipSpace rest with
      | ':' :: rest => (item (skipSpace rest)).map fun (value, rest) => ((name, value), rest)
      | _ => none
  | _ => none

def readFields (field : List Char → Option ((String × Json) × List Char)) (bound : Nat)
    (read : List (String × Json)) (cs : List Char) : Option (List (String × Json) × List Char) :=
  match bound with
  | 0 => none
  | bound + 1 =>
    (field (skipSpace cs)).bind fun (first, rest) =>
      match skipSpace rest with
      | '\x7d' :: rest => some ((first :: read).reverse, rest)
      | ',' :: rest => readFields field bound (first :: read) rest
      | _ => none

def readScalar (bound : Nat) : List Char → Option (Json × List Char)
  | '"' :: rest => (readText bound [] rest).map fun (s, rest) => (.text s, rest)
  | 'n' :: 'u' :: 'l' :: 'l' :: rest => some (.null, rest)
  | 't' :: 'r' :: 'u' :: 'e' :: rest => some (.bool true, rest)
  | 'f' :: 'a' :: 'l' :: 's' :: 'e' :: rest => some (.bool false, rest)
  | cs => readNumber cs

/-- A value with lists and records nested up to `depth` deep; `bound` is more than the number of
characters. -/
def readValue (bound depth : Nat) (cs : List Char) : Option (Json × List Char) :=
  match depth with
  | 0 => readScalar bound cs
  | depth + 1 =>
    match cs with
    | '[' :: rest =>
      match skipSpace rest with
      | ']' :: rest => some (.list [], rest)
      | start =>
        (readItems (readValue bound depth) bound [] start).map fun (items, rest) =>
          (.list items, rest)
    | '\x7b' :: rest =>
      match skipSpace rest with
      | '\x7d' :: rest => some (.record [], rest)
      | start =>
        (readFields (readField (readValue bound depth) bound) bound [] start).map
          fun (fields, rest) => (.record fields, rest)
    | cs => readScalar bound cs

def read (text : String) : Option Json :=
  let cs := text.toList
  match readValue (cs.length + 1) nestingLimit (skipSpace cs) with
  | some (value, rest) => if (skipSpace rest).isEmpty then some value else none
  | none => none

end Json

end ScriptWorker.Mini
