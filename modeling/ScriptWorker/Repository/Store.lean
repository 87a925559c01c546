import ScriptWorker.Collections.Dictionary
import ScriptWorker.Path

/-!
# Stores of entries in memory

The container behind a memory repository: entries by their normal path, and one time of change for
all of them. The time grows with every change, also within one millisecond, so an entry's content
can be told old from new by the container's time alone.
-/

namespace ScriptWorker

structure Store where
  name : String
  entries : Dictionary String ByteArray
  modified : UInt64

namespace Store

def create (name : String) (now : UInt64) : Store := ⟨name, Dictionary.empty, now⟩

/-- Put an entry, leaving the time as it is. -/
def write (s : Store) (entry : String) (content : ByteArray) : Store :=
  { s with entries := s.entries.insert entry content }

def drop (s : Store) (entry : String) : Store :=
  { s with entries := s.entries.erase entry }

/-- Move the time to now, or one past the last time if now is not later. -/
def bump (s : Store) (now : UInt64) : Store :=
  { s with modified := max now (s.modified + 1) }

def sortedEntries (s : Store) : List String :=
  s.entries.keys.mergeSort fun a b => decide (a ≤ b)

end Store

end ScriptWorker
