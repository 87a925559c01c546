import ScriptWorker.Toml.Number
import ScriptWorker.Toml.Section
import ScriptWorker.Toml.Text

/-!
# Reading TOML

A document is read statement by statement. Each reader takes what belongs to it from the front of the
text and gives back the rest, or refuses the text.
-/

namespace ScriptWorker.Toml

def skipBlanks (cs : List Char) : List Char := cs.dropWhile isBlank

def skipComment : List Char → Option (List Char)
  | '#' :: rest =>
    let after := rest.dropWhile fun c => c ≠ '\n' && c ≠ '\r' && !isControl c
    if after.isEmpty || startsLine after then some after else none
  | cs => some cs

def lineEnd? : List Char → Option (List Char)
  | '\n' :: rest => some rest
  | '\r' :: '\n' :: rest => some rest
  | _ => none

def finishLine (cs : List Char) : Option (List Char) :=
  (skipComment (skipBlanks cs)).bind fun rest => if rest.isEmpty then some [] else lineEnd? rest

/-- Blanks, comments and ends of lines, as many as there are; `bound` is no less than the number of
characters. -/
def skipLines (bound : Nat) (cs : List Char) : List Char :=
  match bound with
  | 0 => cs
  | bound + 1 =>
    let start := skipBlanks cs
    match (skipComment start).bind lineEnd? with
    | some rest => skipLines bound rest
    | none => start

/-! ## Keys -/

def isBare (c : Char) : Bool :=
  c.isAlphanum || c = '-' || c = '_'

def readKeyPart (cs : List Char) : Option (String × List Char) :=
  match cs with
  | [] => none
  | c :: _ =>
    if c = '"' ∨ c = '\'' then readLineString cs
    else if isBare c then some (String.ofList (cs.takeWhile isBare), cs.dropWhile isBare)
    else none

/-- A dotted key of up to `parts` parts, with the blanks around each. -/
def readKey (parts : Nat) (cs : List Char) : Option (KeyPath × List Char) :=
  match parts with
  | 0 => none
  | parts + 1 =>
    (readKeyPart (skipBlanks cs)).bind fun (first, rest) =>
      match skipBlanks rest with
      | '.' :: rest => (readKey parts rest).map fun (more, rest) => (first :: more, rest)
      | rest => some ([first], rest)

/-! ## Values -/

def readItems (item : List Char → Option (Value × List Char)) (bound : Nat) (cs : List Char) :
    Option (List Value × List Char) :=
  match bound with
  | 0 => none
  | bound + 1 =>
    match skipLines cs.length cs with
    | ']' :: rest => some ([], rest)
    | start =>
      (item start).bind fun (first, rest) =>
        match skipLines rest.length rest with
        | ']' :: rest => some ([first], rest)
        | ',' :: rest => (readItems item bound rest).map fun (more, rest) => (first :: more, rest)
        | _ => none

def readPair (item : List Char → Option (Value × List Char)) (cs : List Char) :
    Option ((KeyPath × Value) × List Char) :=
  (readKey nestingLimit cs).bind fun (path, rest) =>
    match rest with
    | '=' :: rest => (item (skipBlanks rest)).map fun (value, rest) => ((path, value), rest)
    | _ => none

def readPairs (item : List Char → Option (Value × List Char)) (bound : Nat) (cs : List Char) :
    Option (List (KeyPath × Value) × List Char) :=
  match bound with
  | 0 => none
  | bound + 1 =>
    (readPair item cs).bind fun (first, rest) =>
      match skipBlanks rest with
      | '\x7d' :: rest => some ([first], rest)
      | ',' :: rest => (readPairs item bound rest).map fun (more, rest) => (first :: more, rest)
      | _ => none

def readScalar (cs : List Char) : Option (Value × List Char) :=
  match cs with
  | [] => none
  | c :: _ =>
    if c = '"' ∨ c = '\'' then (readString cs).map fun (s, rest) => (.string s, rest)
    else if c = '+' ∨ c = '-' ∨ isDigit 10 c then readNumber cs
    else
      match cs with
      | 't' :: 'r' :: 'u' :: 'e' :: rest => some (.boolean true, rest)
      | 'f' :: 'a' :: 'l' :: 's' :: 'e' :: rest => some (.boolean false, rest)
      | _ => readSpecialFloat cs

/-- A value with arrays and inline tables nested up to `depth` deep. -/
def readValue (depth : Nat) (cs : List Char) : Option (Value × List Char) :=
  match depth with
  | 0 => if cs.head? = some '[' ∨ cs.head? = some '\x7b' then none else readScalar cs
  | depth + 1 =>
    match cs with
    | '[' :: rest =>
      (readItems (readValue depth) (rest.length + 1) rest).map fun (items, rest) =>
        (.array items, rest)
    | '\x7b' :: rest =>
      match skipBlanks rest with
      | '\x7d' :: rest => some (.table [], rest)
      | start =>
        (readPairs (readValue depth) (rest.length + 1) start).bind fun (pairs, rest) =>
          (inlineTable pairs).map fun table => (table, rest)
    | cs => readScalar cs

/-! ## Statements -/

def readHeader (close : List Char) (cs : List Char) : Option (KeyPath × List Char) :=
  (readKey nestingLimit cs).bind fun (path, rest) =>
    if close.isPrefixOf rest then
      (finishLine (rest.drop close.length)).map fun rest => (path, rest)
    else none

def readStatement (cs : List Char) : Option (Statement × List Char) :=
  match cs with
  | '[' :: '[' :: rest =>
    (readHeader [']', ']'] rest).map fun (path, rest) => (.arrayHeader path, rest)
  | '[' :: rest => (readHeader [']'] rest).map fun (path, rest) => (.header path, rest)
  | cs =>
    (readPair (readValue nestingLimit) cs).bind fun ((path, value), rest) =>
      (finishLine rest).map fun rest => (.pair path value, rest)

/-- The statements of a document; `bound` is more than the number of characters. -/
def readStatements (bound : Nat) (cs : List Char) : Option (List Statement) :=
  match bound with
  | 0 => none
  | bound + 1 =>
    match skipBlanks cs with
    | [] => some []
    | start =>
      if start.head? = some '#' || startsLine start then
        (finishLine start).bind (readStatements bound)
      else
        (readStatement start).bind fun (first, rest) =>
          (readStatements bound rest).map fun more => first :: more

def dropMark : List Char → List Char
  | '\ufeff' :: rest => rest
  | cs => cs

def readDocument (text : String) : Option (List (String × Value)) :=
  let cs := dropMark text.toList
  (readStatements (cs.length + 1) cs).bind fun statements => (Section.build statements).map toEntries

end ScriptWorker.Toml
