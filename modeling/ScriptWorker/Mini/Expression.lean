/-!
# A small script language

Expressions and statements that reach every part of the library: modules, calls, tasks and
diagnostics. A script is a list of statements, one to a line.
-/

namespace ScriptWorker.Mini

inductive Expression where
  | undefined
  | null
  | bool (b : Bool)
  | int (n : Int64)
  /-- The bits of a double. -/
  | float (bits : UInt64)
  | text (s : String)
  | list (items : List Expression)
  | function (name : String) (body : Expression)
  | newModule (name : String)
  /-- An environment, by its place in the order of first mentions. -/
  | environment (index : Nat)
  | hostObject (text : Option String)
  | wrap (inner : Expression)
  | argument (index : Nat)
  | arguments
  | scopeName
  | property (name : String)
  | assign (name : String) (e : Expression)
  | call (module function : String) (args : List Expression)
  | invoke (worker : Option Nat) (module function : String) (args : List Expression)
  | load (module : String)
  /-- A failure becomes its text. -/
  | guarded (e : Expression)
  | raise (text : String)
  | panic (text : String)
  | sequence (es : List Expression)
  | log (e : Expression)
  | count (counter : String)
  /-- Count, and go on with the expression at that place, or with the last one. -/
  | choose (counter : String) (es : List Expression)
  | activeWorker
  | currentScript
  | errorCount
  | threadName
  | latch (name : String)
  | work (milliseconds : Nat)
  | submit (module function : String) (args : List Expression)
  | cancel (task : Nat)
  | touch (repository : Nat)
  | unknown
  deriving Inhabited

inductive Statement where
  | require (module binding : String)
  | attempt (module binding : String)
  | include (module binding : String)
  | checked (key binding : String)
  | shared (binding : String)
  | provide (name : String) (body : Expression)
  | define (name : String) (e : Expression)
  | defineGlobal (name : String) (e : Expression)
  | fail (text : String)
  | panic (text : String)
  | log (e : Expression)
  | result (e : Expression)
  | report (line column : Nat) (text : String)
  deriving Inhabited

/-- The name under which a module is bound if none is given: what follows its last slash. -/
def defaultBinding (module : String) : String :=
  String.ofList (module.toList.reverse.takeWhile fun c => c ≠ '/').reverse

/-- What one firing of a job does, in the order of the fields. -/
structure Firing where
  latch : Option String
  note : Option String
  cancel : Option (Nat × Nat)
  threadName : Bool
  failure : Option String
  /-- A panic, and its text unless the payload is no text. -/
  panic : Option (Option String)
  reply : Expression

/-- A job of an event loop: its firings, the last of which is done again and again. -/
abbrev Firings := List Firing

structure UnitDefinition where
  name : String
  key : String
  source : String
  registers : Bool
  /-- Whether it lacks everything that a unit may leave out: version, dependencies, checksum. -/
  isBare : Bool

end ScriptWorker.Mini
