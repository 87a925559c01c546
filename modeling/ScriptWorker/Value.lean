import ScriptWorker.Handle
import ScriptWorker.Text.Quoted
import ScriptWorker.Decimal.Positional

/-!
# Script values as the host sees them

Plain data is compared by content; functions, scopes, host objects and wrappers are compared by
identity. A handle carries the name it is shown with.
-/

namespace ScriptWorker

inductive Value where
  | undefined
  | null
  | bool (b : Bool)
  | int (n : Int64)
  /-- The bits of a double. -/
  | float (bits : UInt64)
  | str (s : String)
  | list (items : List Value)
  | function (id : FunctionId) (name : String)
  | scope (id : EnvironmentId) (name : String)
  /-- An object of the host; the payload is its text when the host object is a string. -/
  | host (id : ObjectId) (payload : Option String)
  | wrapped (id : ObjectId) (inner : Value)
  deriving Inhabited, Repr

namespace Value

def typeName : Value → String
  | undefined => "undefined"
  | null => "null"
  | bool _ => "bool"
  | int _ => "int"
  | float _ => "float"
  | str _ => "string"
  | list _ => "list"
  | function .. => "function"
  | scope .. => "scope"
  | host .. => "host object"
  | wrapped .. => "wrapped host object"

def isUndefined : Value → Bool
  | undefined => true
  | _ => false

def isCallable : Value → Bool
  | function .. => true
  | _ => false

def asInt? : Value → Option Int64
  | int n => some n
  | _ => none

def asBool? : Value → Option Bool
  | bool b => some b
  | _ => none

def asString? : Value → Option String
  | str s => some s
  | _ => none

def asFunction? : Value → Option (FunctionId × String)
  | function id name => some (id, name)
  | _ => none

def asScope? : Value → Option (EnvironmentId × String)
  | scope id name => some (id, name)
  | _ => none

def hostText? : Value → Option String
  | host _ payload => payload
  | _ => none

/-- The value without its outermost wrapper. -/
def unwrapped : Value → Value
  | wrapped _ inner => inner
  | v => v

/-- Two doubles are equal as numbers: a NaN equals nothing, and the zeros equal each other. -/
def sameNumber (a b : UInt64) : Bool := Float.ofBits a == Float.ofBits b

mutual

/-- Equality of values: by content for plain data, by identity for everything else. -/
def same : Value → Value → Bool
  | undefined, undefined => true
  | null, null => true
  | bool a, bool b => a == b
  | int a, int b => a == b
  | float a, float b => sameNumber a b
  | str a, str b => a == b
  | list as, list bs => sameAll as bs
  | function a _, function b _ => a == b
  | scope a _, scope b _ => a == b
  | host a _, host b _ => a == b
  | wrapped a _, wrapped b _ => a == b
  | _, _ => false

def sameAll : List Value → List Value → Bool
  | [], [] => true
  | a :: as, b :: bs => same a b && sameAll as bs
  | _, _ => false

end

mutual

def shown : Value → String
  | undefined => "undefined"
  | null => "null"
  | bool b => Text.flagText b
  | int n => toString n.toInt
  | float bits => Decimal.positional bits
  | str s => Text.quoted s
  | list items => Text.bracketed (shownAll items)
  | function _ name => "<function " ++ name ++ ">"
  | scope _ name => "<scope " ++ name ++ ">"
  | host .. => "<host object>"
  | wrapped .. => "<wrapped host object>"

def shownAll : List Value → List String
  | [] => []
  | v :: vs => shown v :: shownAll vs

end

end Value

end ScriptWorker
