import ScriptWorker.Value

/-!
# Failures

What a call to a worker answers instead of a value, with the text shown for each cause. Nothing in
the library retries: a failure reaches the caller, or the task it happened in, unchanged.
-/

namespace ScriptWorker

/-- A mistake that the compiler found in a source text; lines and columns count from one. -/
structure SyntaxError where
  message : String
  sourceName : String
  line : Nat
  column : Nat
  lineSource : Option String
  deriving DecidableEq, Repr, Inhabited

def SyntaxError.text (e : SyntaxError) : String :=
  e.sourceName ++ ":" ++ toString e.line ++ ":" ++ toString e.column ++ ": " ++ e.message

inductive IoKind where
  | notFound
  | notADirectory
  | isADirectory
  | invalidData
  | invalidInput
  | invalidFilename
  | linkLoop
  deriving DecidableEq, Repr, Inhabited

def IoKind.name : IoKind → String
  | .notFound => "NotFound"
  | .notADirectory => "NotADirectory"
  | .isADirectory => "IsADirectory"
  | .invalidData => "InvalidData"
  | .invalidInput => "InvalidInput"
  | .invalidFilename => "InvalidFilename"
  | .linkLoop => "FilesystemLoop"

def IoKind.systemText : IoKind → String
  | .notFound => "No such file or directory (os error 2)"
  | .notADirectory => "Not a directory (os error 20)"
  | .isADirectory => "Is a directory (os error 21)"
  | .invalidData => "invalid data"
  | .invalidInput => "Invalid argument (os error 22)"
  | .invalidFilename => "File name too long (os error 36)"
  | .linkLoop => "Too many levels of symbolic links (os error 40)"

/-- A failed read; the detail is there when the store, and not the operating system, reported it. -/
structure IoFailure where
  kind : IoKind
  detail : Option String
  deriving DecidableEq, Repr, Inhabited

/-- A failure of the file tree. A name with a zero byte never reaches the operating system. -/
def IoFailure.ofKind (kind : IoKind) : IoFailure :=
  ⟨kind, if kind = .invalidInput then some "file name contained an unexpected NUL byte" else none⟩

def IoFailure.text (e : IoFailure) : String := e.detail.getD e.kind.systemText

def taskText (number : Nat) : String := "Task(" ++ toString number ++ ")"

inductive Failure where
  | invalidArgument (text : String)
  | noSuchMethod (function module : String)
  | moduleNotFound (name : String) (searched : List String)
  | io (cause : IoFailure)
  | syntaxErrors (resource : String) (errors : List SyntaxError)
  | script (message : String) (module : Option String)
  | cancelled (task : Nat)
  | panicked (task : Nat) (text : String)
  | workerDropped (worker : Nat)
  deriving DecidableEq, Repr, Inhabited

namespace Failure

def text : Failure → String
  | invalidArgument reason => "invalid argument: " ++ reason
  | noSuchMethod function module => "Function " ++ function ++ " not defined in module " ++ module
  | moduleNotFound name _ => "module not found: '" ++ name ++ "'"
  | io cause => "i/o error: " ++ cause.text
  | syntaxErrors resource errors =>
    toString errors.length ++ " syntax error(s) in " ++ resource
  | script message _ => message
  | cancelled task => taskText task ++ " was cancelled"
  | panicked task reason => taskText task ++ " panicked: " ++ reason
  | workerDropped worker => "worker " ++ toString worker ++ " has been dropped"

def isCancelled : Failure → Bool
  | cancelled _ => true
  | _ => false

end Failure

/-- What a call answers: a result or the failure that stopped it. -/
abbrev Answer (α : Type) := Except Failure α

/-- How a piece of running code ends: with a result, or by a panic, a fault that is not a failure
and that no handler of failures sees. A panic's text is known unless its payload is no text. -/
inductive Outcome (α : Type) where
  | done (result : α)
  | panic (payload : Option String)
  deriving Repr

def panicText (payload : Option String) : String := payload.getD "unknown panic"

end ScriptWorker
