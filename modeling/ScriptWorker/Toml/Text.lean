/-!
# TOML strings

A string is written in one of four forms: between double quotes with escapes or between single quotes
as it is, each on one line or over several lines between three quotes. `readBody` reads each form,
`writeString` chooses the plainest form that can show a string.
-/

namespace ScriptWorker.Toml

structure StringForm where
  /-- Whether escapes are understood; the quotes are double then. -/
  escapes : Bool
  multiline : Bool
  deriving DecidableEq, Repr

namespace StringForm

def quote (f : StringForm) : Char := if f.escapes then '"' else '\''

def delimiter (f : StringForm) : List Char :=
  if f.multiline then [f.quote, f.quote, f.quote] else [f.quote]

end StringForm

def isBlank (c : Char) : Bool := c = ' ' || c = '\t'

/-- A control character that may only be written as an escape; the ends of lines are told apart. -/
def isControl (c : Char) : Bool := (c.toNat < 0x20 && c ≠ '\t') || c.toNat = 0x7f

def startsLine : List Char → Bool
  | '\n' :: _ => true
  | '\r' :: '\n' :: _ => true
  | _ => false

/-! ## Reading -/

def hexValue (c : Char) : Option Nat :=
  if '0' ≤ c ∧ c ≤ '9' then some (c.toNat - '0'.toNat)
  else if 'a' ≤ c ∧ c ≤ 'f' then some (c.toNat - 'a'.toNat + 10)
  else if 'A' ≤ c ∧ c ≤ 'F' then some (c.toNat - 'A'.toNat + 10)
  else none

def hexNumber (digits : List Char) : Option Nat :=
  digits.foldlM (fun n c => (hexValue c).map fun d => n * 16 + d) 0

def codePoint (digits : List Char) : Option Char :=
  (hexNumber digits).bind fun n => if n.isValidChar then some (Char.ofNat n) else none

def namedEscape (c : Char) : Option Char :=
  if c = 'b' then some '\x08'
  else if c = 't' then some '\t'
  else if c = 'n' then some '\n'
  else if c = 'f' then some '\x0c'
  else if c = 'r' then some '\r'
  else if c = '"' then some '"'
  else if c = '\\' then some '\\'
  else none

def prepend (c : Char) (found : Option (List Char × List Char)) : Option (List Char × List Char) :=
  found.map fun (text, rest) => (c :: text, rest)

/-- What a quote does inside a string, given what follows it: it closes the string, with up to two
more quotes that still belong to the text, or it is a part of the text. -/
def closing? (f : StringForm) (rest : List Char) : Option (List Char × List Char) :=
  if f.multiline then
    let run := rest.takeWhile (· = f.quote)
    if run.length < 2 then none
    else
      let extra := min 2 (run.length - 2)
      some (List.replicate extra f.quote, rest.drop (extra + 2))
  else some ([], rest)

/-- The text up to the closing quotes, and what follows them. While `skipping`, blanks and ends of
lines after a backslash at the end of a line are passed over. -/
def readBody (f : StringForm) : Bool → List Char → Option (List Char × List Char)
  | _, [] => none
  | skipping, c :: rest =>
    if skipping && (isBlank c || startsLine (c :: rest)) then readBody f true rest
    else if c = f.quote then
      match closing? f rest with
      | some found => some found
      | none => prepend c (readBody f false rest)
    else if f.escapes ∧ c = '\\' then
      match rest with
      | 'u' :: h1 :: h2 :: h3 :: h4 :: after =>
        (codePoint [h1, h2, h3, h4]).bind fun x => prepend x (readBody f false after)
      | 'U' :: h1 :: h2 :: h3 :: h4 :: h5 :: h6 :: h7 :: h8 :: after =>
        (codePoint [h1, h2, h3, h4, h5, h6, h7, h8]).bind fun x =>
          prepend x (readBody f false after)
      | e :: after =>
        match namedEscape e with
        | some x => prepend x (readBody f false after)
        | none =>
          if f.multiline && startsLine ((e :: after).dropWhile isBlank) then readBody f true after
          else none
      | [] => none
    else if c = '\n' then
      if f.multiline then prepend '\n' (readBody f false rest) else none
    else if c = '\r' then
      if f.multiline && startsLine rest then readBody f false rest else none
    else if isControl c then none
    else prepend c (readBody f false rest)

/-- A line end right after the opening quotes does not belong to a string over several lines. -/
def dropFirstLineEnd : List Char → List Char
  | '\n' :: rest => rest
  | '\r' :: '\n' :: rest => rest
  | rest => rest

def asText (found : Option (List Char × List Char)) : Option (String × List Char) :=
  found.map fun (text, rest) => (String.ofList text, rest)

def readLineString : List Char → Option (String × List Char)
  | '"' :: rest => asText (readBody ⟨true, false⟩ false rest)
  | '\'' :: rest => asText (readBody ⟨false, false⟩ false rest)
  | _ => none

def readString : List Char → Option (String × List Char)
  | '"' :: '"' :: '"' :: rest => asText (readBody ⟨true, true⟩ false (dropFirstLineEnd rest))
  | '\'' :: '\'' :: '\'' :: rest => asText (readBody ⟨false, true⟩ false (dropFirstLineEnd rest))
  | cs => readLineString cs

/-! ## Writing -/

def longestRun (q : Char) : Nat → List Char → Nat
  | run, [] => run
  | run, c :: rest => if c = q then longestRun q (run + 1) rest else max run (longestRun q 0 rest)

def needsEscapes (s : List Char) : Bool := s.any fun c => isControl c && c ≠ '\n'

def hasNewline (s : List Char) : Bool := s.contains '\n'

/-- The plainest form: double quotes on one line, then single quotes on one line, then either over
several lines if no escape is needed, and escapes only when nothing else will do. -/
def StringForm.choose (s : List Char) : StringForm :=
  let doubles := longestRun '"' 0 s
  let singles := longestRun '\'' 0 s
  if needsEscapes s then ⟨true, hasNewline s⟩
  else if !s.contains '\\' && doubles = 0 && !hasNewline s then ⟨true, false⟩
  else if singles = 0 && !hasNewline s then ⟨false, false⟩
  else if !s.contains '\\' && doubles ≤ 2 then ⟨true, true⟩
  else if singles ≤ 2 then ⟨false, true⟩
  else ⟨true, hasNewline s⟩

def upperHexDigit (n : Nat) : Char :=
  if n < 10 then Char.ofNat ('0'.toNat + n) else Char.ofNat ('A'.toNat + (n - 10))

def controlEscape (c : Char) : List Char :=
  if c = '\x08' then ['\\', 'b']
  else if c = '\t' then ['\\', 't']
  else if c = '\n' then ['\\', 'n']
  else if c = '\x0c' then ['\\', 'f']
  else if c = '\r' then ['\\', 'r']
  else ['\\', 'u', '0', '0', upperHexDigit (c.toNat / 16), upperHexDigit (c.toNat % 16)]

/-- A string between double quotes; `run` counts the quotes just before that were written as they
are, of which a string over several lines has two in a row at most. -/
def writeEscaped (multiline : Bool) : Nat → List Char → List Char
  | _, [] => []
  | run, c :: rest =>
    if c = '"' then
      if multiline ∧ run < 2 then '"' :: writeEscaped multiline (run + 1) rest
      else '\\' :: '"' :: writeEscaped multiline 0 rest
    else if c = '\\' then '\\' :: '\\' :: writeEscaped multiline 0 rest
    else if c = '\n' ∧ multiline then '\n' :: writeEscaped multiline 0 rest
    else if c.toNat < 0x20 ∨ c.toNat = 0x7f then
      controlEscape c ++ writeEscaped multiline 0 rest
    else c :: writeEscaped multiline 0 rest

def writeBody (f : StringForm) (s : List Char) : List Char :=
  if f.escapes then writeEscaped f.multiline 0 s else s

def writeString (s : List Char) : List Char :=
  let f := StringForm.choose s
  f.delimiter ++ (if f.multiline && hasNewline s then ['\n'] else []) ++ writeBody f s ++ f.delimiter

end ScriptWorker.Toml
