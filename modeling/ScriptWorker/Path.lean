/-!
# Slash-separated paths

Paths inside repositories are segments between slashes. Normalizing a path drops empty and `.`
segments and lets `..` take back the segment before it, if there is one.
-/

namespace ScriptWorker.Path

/-- The pieces between separators; a text without a separator is one piece. -/
def splitAt (separator : Char) : List Char → List (List Char)
  | [] => [[]]
  | c :: rest =>
    if c = separator then [] :: splitAt separator rest
    else
      match splitAt separator rest with
      | [] => [[c]]
      | piece :: pieces => (c :: piece) :: pieces

def joinWith (separator : Char) : List (List Char) → List Char
  | [] => []
  | [piece] => piece
  | piece :: next :: pieces => piece ++ separator :: joinWith separator (next :: pieces)

/-- The segments that are left when `.` and `..` are worked off; the stack holds the segments kept
so far, the last one first. -/
def collapse : List (List Char) → List (List Char) → List (List Char)
  | stack, [] => stack.reverse
  | stack, segment :: rest =>
    if segment = [] ∨ segment = ['.'] then collapse stack rest
    else if segment = ['.', '.'] then collapse stack.tail rest
    else collapse (segment :: stack) rest

def isAbsoluteChars : List Char → Bool
  | '/' :: _ => true
  | _ => false

def normalizeChars (p : List Char) : List Char :=
  let joined := joinWith '/' (collapse [] (splitAt '/' p))
  if isAbsoluteChars p then '/' :: joined else joined

/-- The normal form of a path: no empty, `.` or `..` segment, and a leading slash if it had one. -/
def normalize (p : String) : String := String.ofList (normalizeChars p.toList)

def isAbsolute (p : String) : Bool := isAbsoluteChars p.toList

def segments (p : String) : List String :=
  ((splitAt '/' p.toList).filter fun s => !s.isEmpty).map String.ofList

/-- The text up to and including the last slash, once slashes at its end are taken off. -/
def upperChars (p : List Char) : List Char :=
  ((p.reverse.dropWhile (· == '/')).dropWhile (· != '/')).reverse

def stripStartChars : List Char → List Char → Option (List Char)
  | [], text => some text
  | _ :: _, [] => none
  | c :: start, d :: text => if c = d then stripStartChars start text else none

def stripStart (start text : String) : Option String :=
  (stripStartChars start.toList text.toList).map String.ofList

def startsWith (start text : String) : Bool := (stripStart start text).isSome

def endsWith (ending text : String) : Bool :=
  (stripStartChars ending.toList.reverse text.toList.reverse).isSome

/-- A name without its extension: the text before the last dot, unless that dot comes first. -/
def baseNameChars (name : List Char) : List Char :=
  match name.reverse.dropWhile (· != '.') with
  | _dot :: stem => if stem.isEmpty then name else stem.reverse
  | [] => name

def baseName (name : String) : String := String.ofList (baseNameChars name.toList)

end ScriptWorker.Path
