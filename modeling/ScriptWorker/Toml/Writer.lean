import ScriptWorker.Toml.Text
import ScriptWorker.Toml.Value

/-!
# Writing TOML

Statements as text, one after the other. Each header but the first statement is set off by a blank
line, and an array of two or more items has a line for each.
-/

namespace ScriptWorker.Toml

/-- A key without dots: bare if it can be, else quoted on one line. -/
def writeKeyPart (key : String) : List Char :=
  let cs := key.toList
  if !cs.isEmpty && cs.all fun c => c.isAlphanum || c = '-' || c = '_' then cs
  else '"' :: writeEscaped false 0 cs ++ ['"']

def writeKey : KeyPath → List Char
  | [] => []
  | [key] => writeKeyPart key
  | key :: next :: path => writeKeyPart key ++ '.' :: writeKey (next :: path)

mutual

def writeValue : Value → List Char
  | .string s => writeString s.toList
  | .integer n => (toString n).toList
  | .float text => text.toList
  | .boolean b => if b then "true".toList else "false".toList
  | .datetime text => text.toList
  | .array items =>
    match items with
    | [] => ['[', ']']
    | [item] => '[' :: writeValue item ++ [']']
    | first :: second :: rest => '[' :: writeLines (first :: second :: rest) ++ ['\n', ']']
  | .table entries => '\x7b' :: writePairs entries ++ ['\x7d']

def writeLines : List Value → List Char
  | [] => []
  | item :: rest => '\n' :: ' ' :: ' ' :: ' ' :: ' ' :: writeValue item ++ ',' :: writeLines rest

def writePairs : List (String × Value) → List Char
  | [] => []
  | (key, value) :: rest =>
    ' ' :: writeKeyPart key ++ [' ', '=', ' '] ++ writeValue value ++
      (if rest.isEmpty then [' '] else [',']) ++ writePairs rest

end

def writeStatement : Statement → List Char
  | .pair path value => writeKey path ++ [' ', '=', ' '] ++ writeValue value ++ ['\n']
  | .header path => '[' :: writeKey path ++ [']', '\n']
  | .arrayHeader path => '[' :: '[' :: writeKey path ++ [']', ']', '\n']

def writeFurther : List Statement → List Char
  | [] => []
  | .pair path value :: rest => writeStatement (.pair path value) ++ writeFurther rest
  | header :: rest => '\n' :: writeStatement header ++ writeFurther rest

def writeStatements : List Statement → List Char
  | [] => []
  | first :: rest => writeStatement first ++ writeFurther rest

def writeDocument (statements : List Statement) : String := String.ofList (writeStatements statements)

end ScriptWorker.Toml
