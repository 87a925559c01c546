import ScriptWorker.Config.Document
import ScriptWorker.Repository.Storage
import ScriptWorker.Text.Blank

/-!
# Where configurations come from

A document, a file of the file tree, and variables that override what either of them says.
-/

namespace ScriptWorker

inductive ConfigError where
  | unreadable (cause : IoFailure)
  | malformed
  | unwritable
  | badVariable (name value : String)
  deriving DecidableEq, Repr

namespace ConfigError

/-- Start of the text of an error, which the causes that other parties report end. -/
def lead : ConfigError → String
  | unreadable _ => "IO error: "
  | malformed => "Config parse error: "
  | unwritable => "Config serialize error: "
  | badVariable name _ => "Invalid value for " ++ name ++ ": "

def text : ConfigError → String
  | unreadable cause => lead (unreadable cause) ++ cause.text
  | malformed => lead malformed
  | unwritable => lead unwritable
  | badVariable name value => lead (badVariable name value) ++ Text.quoted value

end ConfigError

namespace RuntimeConfig

def ofDocument (document : String) : Except ConfigError RuntimeConfig :=
  match ofDocument? document with
  | some c => .ok c
  | none => .error .malformed

def toDocument (c : RuntimeConfig) : Except ConfigError String :=
  match c.toDocument? with
  | some document => .ok document
  | none => .error .unwritable

def belowDirectory (directory : String) (path : OsText) : OsText :=
  match path.bytes with
  | 0x2f :: _ => path
  | _ => (OsText.ofString (Files.Name.join directory "")).append path

def load (files : Files.Tree) (name : String) : Except ConfigError RuntimeConfig := do
  let content ← (files.read name).mapError fun kind => .unreadable (.ofKind kind)
  let document ← (Storage.decodeText content).mapError .unreadable
  let c ← ofDocument document
  match Files.Name.parent name with
  | none => return c
  | some directory =>
    return { c with modules := { c.modules with
      paths := c.modules.paths.map (belowDirectory directory) } }

def reloadVariable : String := "YAOXIANG_RELOAD"

def pathVariable : String := "YAOXIANG_MODULE_PATH"

def readFlag (raw : String) : Option Bool :=
  let word := Text.asciiLower (Text.trim raw)
  if word = "1" ∨ word = "true" ∨ word = "yes" ∨ word = "on" then some true
  else if word = "0" ∨ word = "false" ∨ word = "no" ∨ word = "off" then some false
  else none

def overrideReloading (c : RuntimeConfig) (raw : Option OsText) :
    Except ConfigError RuntimeConfig :=
  match raw with
  | none => .ok c
  | some raw =>
    match readFlag raw.lossy with
    | some reloading => .ok { c with worker := { c.worker with reloading := reloading } }
    | none => .error (.badVariable reloadVariable raw.lossy)

def overridePaths (c : RuntimeConfig) (raw : Option OsText) : RuntimeConfig :=
  match raw with
  | none => c
  | some raw => { c with modules := { c.modules with paths := raw.splitPaths } }

/-- The configuration with the overrides of the variables; nothing changes if one is refused. -/
def applyVariables (c : RuntimeConfig) (variable_ : String → Option OsText) :
    Except ConfigError RuntimeConfig :=
  (c.overrideReloading (variable_ reloadVariable)).map fun c =>
    c.overridePaths (variable_ pathVariable)

end RuntimeConfig

end ScriptWorker
