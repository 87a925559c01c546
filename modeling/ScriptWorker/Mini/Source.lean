import ScriptWorker.Failure
import ScriptWorker.Mini.Notation
import ScriptWorker.Path

/-!
# Sources of small scripts

A source is read line by line. Blank lines and comments say nothing; every other line is a statement,
and all lines that are none are reported together.
-/

namespace ScriptWorker.Mini.Source

def isPad (c : Char) : Bool := c = ' ' || c = '\t'

def stripped (line : List Char) : List Char :=
  ((line.dropWhile isPad).reverse.dropWhile isPad).reverse

def isSilent (line : List Char) : Bool :=
  match stripped line with
  | [] => true
  | c :: _ => c = '#'

/-- The report of a line that is no statement, by its place from zero. Every other line is shown. -/
def badLine (path : String) (place : Nat) (line : List Char) : SyntaxError :=
  ⟨"bad statement", path, place + 1, (line.takeWhile isPad).length + 1,
    if place % 2 = 0 then some (String.ofList line) else none⟩

def readLines (path : String) :
    Nat → List (List Char) → List SyntaxError × List Statement
  | _, [] => ([], [])
  | place, line :: rest =>
    let (errors, statements) := readLines path (place + 1) rest
    if isSilent line then (errors, statements)
    else
      match Statement.read (String.ofList (stripped line)) with
      | some statement => (errors, statement :: statements)
      | none => (badLine path place line :: errors, statements)

/-- The statements of a source, or every line that is none. -/
def parse (path source : String) :
    Except (List SyntaxError) (List Statement) :=
  match readLines path 0 (Path.splitAt '\n' source.toList) with
  | ([], statements) => .ok statements
  | (errors, _) => .error errors

end ScriptWorker.Mini.Source
