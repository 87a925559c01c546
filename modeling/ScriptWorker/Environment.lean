import ScriptWorker.Repository.Location
import ScriptWorker.Value

/-!
# Environments

A scope holds named values in the order of their first definition. Module scopes remember the source
they were built from and the checksum they were stamped with; an ad-hoc scope of the host keeps
neither.
-/

namespace ScriptWorker

inductive EnvironmentKind where
  | global
  | module
  | plain
  deriving DecidableEq, Repr, Inhabited

structure Environment where
  name : String
  kind : EnvironmentKind
  key : Option String
  /-- Where relative imports of a module are looked up. -/
  repository : Option Repository
  properties : Dictionary String Value
  checksum : Option UInt64
  deriving Inhabited

namespace Environment

def globalScope : Environment := ⟨"global", .global, none, none, Dictionary.empty, none⟩

def moduleScope (name : String) (key : Option String) (repository : Option Repository) :
    Environment :=
  ⟨name, .module, key, repository, Dictionary.empty, none⟩

def plainScope (name : String) : Environment := ⟨name, .plain, none, none, Dictionary.empty, none⟩

def isModule (e : Environment) : Bool := e.kind = .module

def get? (e : Environment) (name : String) : Option Value := e.properties.get? name

def set (e : Environment) (name : String) (value : Value) : Environment :=
  { e with properties := e.properties.insert name value }

/-- Stamp with a checksum, which an ad-hoc scope does not keep. -/
def stamp (e : Environment) (checksum : UInt64) : Environment :=
  if e.kind = .plain then e else { e with checksum := some checksum }

def kindText (e : Environment) : String :=
  match e.kind with
  | .global => "Global"
  | .module => "Module"
  | .plain => "Plain"

def keyText (key : String) : String := "ResourceKey(" ++ Text.quoted key ++ ")"

def shown (e : Environment) : String :=
  Text.recordText "ModuleScope" [
    ("name", Text.quoted e.name),
    ("kind", e.kindText),
    ("key", Text.optionText (e.key.map keyText)),
    ("checksum", Text.optionText (e.checksum.map fun sum => toString sum.toNat)),
    ("properties", Text.bracketed (e.properties.keys.map Text.quoted))]

end Environment

end ScriptWorker
