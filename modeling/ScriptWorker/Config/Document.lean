import ScriptWorker.Config.Settings
import ScriptWorker.Toml.Reader
import ScriptWorker.Toml.Writer

/-!
# Configuration documents

A configuration as a TOML document. Every key may be left out and has its default then; keys that
mean nothing are passed over. A section may also be an array, which gives the values of its keys in
their order, or a date, which gives none of them.
-/

namespace ScriptWorker

namespace Config

/-- The value of a key of a section, found by its name or by its place. -/
abbrev Section := String → Nat → Option Toml.Value

def lookup (key : String) (entries : List (String × Toml.Value)) : Option Toml.Value :=
  (entries.find? fun entry => entry.1 = key).map Prod.snd

def sectionOf : Toml.Value → Option Section
  | .table entries => some fun key _ => lookup key entries
  | .array items => some fun _ place => items[place]?
  | .datetime _ => some fun _ _ => none
  | _ => none

def field {α : Type} (s : Section) (key : String) (place : Nat) (decode : Toml.Value → Option α)
    (default : α) : Option α :=
  match s key place with
  | none => some default
  | some value => decode value

def flag : Toml.Value → Option Bool
  | .boolean b => some b
  | _ => none

def text : Toml.Value → Option String
  | .string s => some s
  | _ => none

def hasNoParts : Toml.Value → Bool
  | .table entries => entries.isEmpty
  | .array items => items.isEmpty
  | _ => false

def choiceNamed {α : Type} (choices : List (String × α)) (name : String) : Option α :=
  (choices.find? fun choice => choice.1 = name).map Prod.snd

/-- One of several names: as a string, or as the only key of a table with nothing in it. -/
def choice {α : Type} (choices : List (String × α)) : Toml.Value → Option α
  | .string s => choiceNamed choices s
  | .table [(key, content)] => if hasNoParts content then choiceNamed choices key else none
  | _ => none

def directories : Toml.Value → Option (List OsText)
  | .array items => items.mapM fun item => (text item).map OsText.ofString
  | _ => none

def worker (value : Toml.Value) : Option WorkerConfig := do
  let s ← sectionOf value
  let reloading ← field s "reloading" 0 flag WorkerConfig.defaults.reloading
  let prefixText ← field s "thread_name_prefix" 1 text WorkerConfig.defaults.threadNamePrefix
  let policy ← field s "periodic_failure" 2 (choice FailurePolicy.names)
    WorkerConfig.defaults.periodicFailure
  return ⟨reloading, prefixText, policy⟩

def modules (value : Toml.Value) : Option ModuleConfig := do
  let s ← sectionOf value
  let paths ← field s "paths" 0 directories ModuleConfig.defaults.paths
  let extension ← field s "extension" 1 text ModuleConfig.defaults.extension
  return ⟨paths, extension⟩

def ofEntries (entries : List (String × Toml.Value)) : Option RuntimeConfig := do
  let s : Section := fun key _ => lookup key entries
  let level ← field s "log_level" 0 (choice LogLevel.names) RuntimeConfig.defaults.logLevel
  let worker ← field s "worker" 1 worker RuntimeConfig.defaults.worker
  let modules ← field s "modules" 2 modules RuntimeConfig.defaults.modules
  return ⟨level, worker, modules⟩

end Config

namespace RuntimeConfig

/-- The configuration in a document; `none` if the document is not TOML or a value does not fit. -/
def ofDocument? (document : String) : Option RuntimeConfig :=
  (Toml.readDocument document).bind Config.ofEntries

def statements (c : RuntimeConfig) (paths : List String) : List Toml.Statement :=
  [.pair ["log_level"] (.string c.logLevel.name),
   .header ["worker"],
   .pair ["reloading"] (.boolean c.worker.reloading),
   .pair ["thread_name_prefix"] (.string c.worker.threadNamePrefix),
   .pair ["periodic_failure"] (.string c.worker.periodicFailure.name),
   .header ["modules"],
   .pair ["paths"] (.array (paths.map .string)),
   .pair ["extension"] (.string c.modules.extension)]

/-- The document that shows every key; `none` if a path is not UTF-8. -/
def toDocument? (c : RuntimeConfig) : Option String :=
  (c.modules.paths.mapM OsText.toString?).map fun paths => Toml.writeDocument (c.statements paths)

end RuntimeConfig

end ScriptWorker
