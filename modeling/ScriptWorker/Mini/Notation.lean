import ScriptWorker.Mini.Expression
import ScriptWorker.Mini.Json

/-!
# How expressions and statements are written

Texts, numbers and lists stand for themselves, a record names the operation that it stands for, and a
statement is a list that begins with its name. What an operation lacks counts as empty or zero.
-/

namespace ScriptWorker.Mini

namespace Expression

/-! ## Operands -/

def asText : Expression → String
  | .text s => s
  | _ => ""

def asText? : Expression → Option String
  | .text s => some s
  | _ => none

def asNat : Expression → Nat
  | .int n => n.toInt.toNat
  | _ => 0

def asList : Expression → List Expression
  | .list items => items
  | _ => []

def part (e : Expression) (place : Nat) : Expression := (e.asList[place]?).getD .null

def ofWhole (n : Int) : Expression :=
  if Int64.minValue.toInt ≤ n ∧ n ≤ Int64.maxValue.toInt then .int (Int64.ofInt n) else .unknown

/-- The number in decimal digits, or zero if it is none that sixty-four signed bits hold. -/
def wholeOfText (s : String) : Expression :=
  let (negative, ds) := Toml.sign s.toList
  let n : Int := Toml.valueOf 10 ds
  if ds.isEmpty || !ds.all Char.isDigit then .int 0
  else
    match ofWhole (if negative then -n else n) with
    | .unknown => .int 0
    | e => e

def floatOfText (s : String) : Expression :=
  .float (UInt64.ofNat ((Toml.hexNumber s.toList).getD 0))

/-! ## Operations -/

/-- What each name of an operation makes of its operand; `field` gives the other fields. -/
def operations (field : String → Option Expression) : List (String × (Expression → Expression)) := [
  ("undef", fun _ => .undefined),
  ("int", fun e => wholeOfText e.asText),
  ("float", fun e => floatOfText e.asText),
  ("fn", fun e => .function e.asText ((field "body").getD .null)),
  ("host", fun e => .hostObject e.asText?),
  ("scope", fun e => .newModule e.asText),
  ("env", fun e => .environment e.asNat),
  ("arg", fun e => .argument e.asNat),
  ("args", fun _ => .arguments),
  ("this", fun _ => .scopeName),
  ("get", fun e => .property e.asText),
  ("set", fun e => .assign (e.part 0).asText (e.part 1)),
  ("wrap", fun e => .wrap e),
  ("call", fun e => .call (e.part 0).asText (e.part 1).asText (e.part 2).asList),
  ("invoke", fun e => .invoke none (e.part 0).asText (e.part 1).asText (e.part 2).asList),
  ("invoke_on", fun e => .invoke (some (((field "worker").map asNat).getD 0)) (e.part 0).asText
    (e.part 1).asText (e.part 2).asList),
  ("load", fun e => .load e.asText),
  ("catch", fun e => .guarded e),
  ("throw", fun e => .raise e.asText),
  ("panic", fun e => .panic e.asText),
  ("seq", fun e => .sequence e.asList),
  ("log", fun e => .log e),
  ("count", fun e => .count e.asText),
  ("nth", fun e => .choose (e.part 0).asText (e.part 1).asList),
  ("current", fun _ => .activeWorker),
  ("script", fun _ => .currentScript),
  ("errors", fun _ => .errorCount),
  ("thread", fun _ => .threadName),
  ("gate", fun e => .latch e.asText),
  ("work", fun e => .work e.asNat),
  ("submit", fun e => .submit (e.part 0).asText (e.part 1).asText (e.part 2).asList),
  ("cancel", fun e => .cancel e.asNat),
  ("touch", fun e => .touch e.asNat)]

def ofFields (fields : List (String × Expression)) : Expression :=
  let field (name : String) := (fields.reverse.find? fun f => f.1 = name).map Prod.snd
  let found := (operations field).findSome? fun (name, make) => (field name).map make
  found.getD .unknown

mutual

def ofJson : Json → Expression
  | .null => .null
  | .bool b => .bool b
  | .whole n => ofWhole n
  | .decimal _ => .unknown
  | .text s => .text s
  | .list items => .list (ofItems items)
  | .record fields => ofFields (ofNamed fields)

def ofItems : List Json → List Expression
  | [] => []
  | j :: rest => ofJson j :: ofItems rest

def ofNamed : List (String × Json) → List (String × Expression)
  | [] => []
  | (name, j) :: rest => (name, ofJson j) :: ofNamed rest

end

end Expression

namespace Statement

def ofParts (name : String) (operands : List Json) : Option Statement :=
  match name, operands with
  | "import", [.text m] => some (.require m (defaultBinding m))
  | "import", [.text m, .text b] => some (.require m b)
  | "try", [.text m, .text b] => some (.attempt m b)
  | "eval", [.text m, .text b] => some (.include m b)
  | "checked", [.text key, .text b] => some (.checked key b)
  | "shared", [.text b] => some (.shared b)
  | "export", [.text name, e] => some (.provide name (.ofJson e))
  | "let", [.text name, e] => some (.define name (.ofJson e))
  | "global", [.text name, e] => some (.defineGlobal name (.ofJson e))
  | "fail", [.text text] => some (.fail text)
  | "panic", [.text text] => some (.panic text)
  | "log", [e] => some (.log (.ofJson e))
  | "return", [e] => some (.result (.ofJson e))
  | "report", [.whole line, .whole column, .text text] =>
    if 0 ≤ line ∧ 0 ≤ column then some (.report line.toNat column.toNat text) else none
  | _, _ => none

def read (line : String) : Option Statement :=
  match Json.read line with
  | some (.list (.text name :: operands)) => ofParts name operands
  | _ => none

end Statement

end ScriptWorker.Mini
