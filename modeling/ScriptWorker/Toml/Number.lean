import ScriptWorker.Toml.Value

/-!
# TOML numbers and dates

Every value that begins with a digit or a sign. A reader takes as much of the text as belongs to the
value; whatever is left over is judged by its caller.
-/

namespace ScriptWorker.Toml

def digitOf (base : Nat) (c : Char) : Option Nat :=
  let value :=
    if '0' ≤ c ∧ c ≤ '9' then some (c.toNat - '0'.toNat)
    else if 'a' ≤ c ∧ c ≤ 'f' then some (c.toNat - 'a'.toNat + 10)
    else if 'A' ≤ c ∧ c ≤ 'F' then some (c.toNat - 'A'.toNat + 10)
    else none
  value.filter fun d => d < base

def isDigit (base : Nat) (c : Char) : Bool := (digitOf base c).isSome

def moreDigits (base : Nat) : List Char → List Char × List Char
  | [] => ([], [])
  | c :: rest =>
    if isDigit base c || (c = '_' && (rest.head?.any (isDigit base))) then
      let (digits, rest) := moreDigits base rest
      (if c = '_' then digits else c :: digits, rest)
    else ([], c :: rest)

def digits (base : Nat) : List Char → Option (List Char × List Char)
  | [] => none
  | c :: rest => if isDigit base c then some (moreDigits base (c :: rest)) else none

def valueOf (base : Nat) (ds : List Char) : Nat :=
  ds.foldl (fun n c => n * base + (digitOf base c).getD 0) 0

def sign : List Char → Bool × List Char
  | '-' :: rest => (true, rest)
  | '+' :: rest => (false, rest)
  | rest => (false, rest)

def wholeDigits : List Char → Option (List Char × List Char)
  | '0' :: rest => some (['0'], rest)
  | cs => digits 10 cs

def bounded (negative : Bool) (n : Nat) : Option Value :=
  if negative then if n ≤ Nat.pow 2 63 then some (.integer (-n)) else none
  else if n < Nat.pow 2 63 then some (.integer n) else none

def readInteger : List Char → Option (Value × List Char)
  | '0' :: 'x' :: rest => based 16 rest
  | '0' :: 'o' :: rest => based 8 rest
  | '0' :: 'b' :: rest => based 2 rest
  | cs =>
    let (negative, cs) := sign cs
    (wholeDigits cs).bind fun (ds, rest) =>
      (bounded negative (valueOf 10 ds)).map fun v => (v, rest)
where
  based (base : Nat) (cs : List Char) : Option (Value × List Char) :=
    (digits base cs).bind fun (ds, rest) =>
      (bounded false (valueOf base ds)).map fun v => (v, rest)

/-- The fraction of a float: a point and digits. -/
def fraction : List Char → Option (List Char × List Char)
  | '.' :: rest => digits 10 rest
  | _ => none

def exponent : List Char → Option (Bool × List Char × List Char)
  | [] => none
  | c :: rest =>
    if c = 'e' ∨ c = 'E' then
      let (negative, rest) := sign rest
      (digits 10 rest).map fun (ds, rest) => (negative, ds, rest)
    else none

/-- Whether `mantissa * 10 ^ (exponent - places)` rounds to infinity as a double. -/
def roundsToInfinity (mantissa : Nat) (digitCount places : Nat) (negative : Bool) (exponent : Nat) :
    Bool :=
  let limit := (Nat.pow 2 54 - 1) * Nat.pow 2 970
  if mantissa = 0 || negative then false
  else if digitCount + exponent ≤ places + 300 then false
  else if places + 310 < exponent then true
  else if places ≤ exponent then limit ≤ mantissa * Nat.pow 10 (exponent - places)
  else limit * Nat.pow 10 (places - exponent) ≤ mantissa

def readSpecialFloat (cs : List Char) : Option (Value × List Char) :=
  let (negative, rest) := sign cs
  let lead := if negative then "-" else ""
  match rest with
  | 'i' :: 'n' :: 'f' :: rest => some (.float (lead ++ "inf"), rest)
  | 'n' :: 'a' :: 'n' :: rest => some (.float (lead ++ "nan"), rest)
  | _ => none

/-- A number with a fraction or an exponent; one above the greatest double is refused. -/
def readDecimal (cs : List Char) : Option (Value × List Char) :=
  let (negative, start) := sign cs
  (wholeDigits start).bind fun (whole, rest) =>
    let (places, rest, hasFraction) := match fraction rest with
      | some (ds, rest) => (ds, rest, true)
      | none => ([], rest, false)
    let (small, power, rest, hasExponent) := match exponent rest with
      | some (negative, ds, rest) => (negative, ds, rest, true)
      | none => (false, [], rest, false)
    let ds := whole ++ places
    if !(hasFraction || hasExponent) then none
    else if !negative && roundsToInfinity (valueOf 10 ds) ds.length places.length small
        (valueOf 10 power) then none
    else some (.float (String.ofList (cs.take (cs.length - rest.length))), rest)

def readFloat (cs : List Char) : Option (Value × List Char) :=
  (readDecimal cs).or (readSpecialFloat cs)

/-! ## Dates and times -/

def exactly (count : Nat) (cs : List Char) : Option (Nat × List Char) :=
  let ds := cs.take count
  if ds.length = count && ds.all (isDigit 10) then some (valueOf 10 ds, cs.drop count) else none

def twoDigits (low high : Nat) (cs : List Char) : Option (Nat × List Char) :=
  (exactly 2 cs).filter fun (n, _) => low ≤ n && n ≤ high

def expect (c : Char) : List Char → Option (List Char)
  | [] => none
  | d :: rest => if c = d then some rest else none

def isLeapYear (year : Nat) : Bool := year % 4 = 0 && (year % 100 ≠ 0 || year % 400 = 0)

def daysIn (year month : Nat) : Nat :=
  if month = 2 then if isLeapYear year then 29 else 28
  else if month = 4 ∨ month = 6 ∨ month = 9 ∨ month = 11 then 30
  else 31

def readDate (cs : List Char) : Option (List Char) := do
  let (year, cs) ← exactly 4 cs
  let cs ← expect '-' cs
  let (month, cs) ← twoDigits 1 12 cs
  let cs ← expect '-' cs
  let (day, cs) ← twoDigits 1 31 cs
  if day ≤ daysIn year month then some cs else none

def readTime (cs : List Char) : Option (List Char) := do
  let (_, cs) ← twoDigits 0 23 cs
  let cs ← expect ':' cs
  let (_, cs) ← twoDigits 0 59 cs
  let cs ← expect ':' cs
  let (_, cs) ← twoDigits 0 60 cs
  match cs with
  | '.' :: d :: rest => if isDigit 10 d then some (rest.dropWhile (isDigit 10)) else none
  | '.' :: [] => none
  | rest => some rest

def readOffset : List Char → Option (List Char)
  | [] => none
  | c :: rest =>
    if c = 'Z' ∨ c = 'z' then some rest
    else if c = '+' ∨ c = '-' then do
      let (_, cs) ← twoDigits 0 23 rest
      let cs ← expect ':' cs
      let (_, cs) ← twoDigits 0 59 cs
      some cs
    else none

def afterDate : List Char → List Char
  | [] => []
  | c :: rest =>
    if c = 'T' ∨ c = 't' ∨ c = ' ' then
      match readTime rest with
      | some after => (readOffset after).getD after
      | none => c :: rest
    else c :: rest

def readDatetime (cs : List Char) : Option (Value × List Char) :=
  let rest := match readDate cs with
    | some rest => some (afterDate rest)
    | none => readTime cs
  rest.map fun rest => (.datetime (String.ofList (cs.take (cs.length - rest.length))), rest)

def readNumber (cs : List Char) : Option (Value × List Char) :=
  ((readDatetime cs).or (readFloat cs)).or (readInteger cs)

end ScriptWorker.Toml
