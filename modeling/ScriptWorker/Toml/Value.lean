/-!
# TOML values and statements

A document is a list of statements: pairs of a dotted key and a value, and headers that open a table
or a new table of an array of tables.
-/

namespace ScriptWorker.Toml

inductive Value where
  | string (s : String)
  | integer (n : Int)
  /-- A float as it was written. -/
  | float (text : String)
  | boolean (b : Bool)
  | datetime (text : String)
  | array (items : List Value)
  | table (entries : List (String × Value))
  deriving Inhabited

abbrev KeyPath := List String

inductive Statement where
  | pair (path : KeyPath) (value : Value)
  | header (path : KeyPath)
  | arrayHeader (path : KeyPath)

/-- How deep arrays and inline tables nest, and how many parts a key has, at most. -/
def nestingLimit : Nat := 79

end ScriptWorker.Toml
