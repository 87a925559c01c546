import ScriptWorker.Collections.Dictionary

/-!
# Module caches

A worker keeps, for each key, the environment of the last load, and a checked view that says which
environments were already looked at. In release mode the checked view is the map of loaded modules
itself, so a module is loaded once; in development mode it is a map of its own that is forgotten at
the start of every outermost call.
-/

namespace ScriptWorker

inductive CacheMode where
  | development
  | release
  deriving DecidableEq, Repr, Inhabited

def CacheMode.ofReloading (reloading : Bool) : CacheMode :=
  if reloading then .development else .release

structure CacheStats where
  hits : Nat
  misses : Nat
  loads : Nat
  entries : Nat
  deriving DecidableEq, Repr, Inhabited

def CacheStats.hitRate (s : CacheStats) : Float :=
  let total := s.hits + s.misses
  if total = 0 then 0 else s.hits.toFloat / total.toFloat * 100

structure ModuleCache (ε : Type) where
  mode : CacheMode
  modules : Dictionary String ε
  /-- In use in development mode only. -/
  fresh : Dictionary String ε
  stats : CacheStats
  deriving Inhabited

namespace ModuleCache

variable {ε : Type}

def create (mode : CacheMode) : ModuleCache ε :=
  ⟨mode, Dictionary.empty, Dictionary.empty, ⟨0, 0, 0, 0⟩⟩

def checkedIsModules (c : ModuleCache ε) : Bool := c.mode = .release

def view (c : ModuleCache ε) : Dictionary String ε :=
  match c.mode with
  | .development => c.fresh
  | .release => c.modules

def withView (c : ModuleCache ε) (view : Dictionary String ε) : ModuleCache ε :=
  match c.mode with
  | .development => { c with fresh := view, stats := { c.stats with entries := c.modules.size } }
  | .release => { c with modules := view, stats := { c.stats with entries := view.size } }

def peek (c : ModuleCache ε) (key : String) : Option ε := c.view.get? key

/-- Look a key up in the checked view and count the hit or miss. -/
def checked (c : ModuleCache ε) (key : String) : Option ε × ModuleCache ε :=
  match c.peek key with
  | some found => (some found, { c with stats := { c.stats with hits := c.stats.hits + 1 } })
  | none => (none, { c with stats := { c.stats with misses := c.stats.misses + 1 } })

def mark (c : ModuleCache ε) (key : String) (env : ε) : ModuleCache ε :=
  c.withView (c.view.insert key env)

def uncheck (c : ModuleCache ε) (key : String) : ModuleCache ε := c.withView (c.view.erase key)

/-- Forget what was checked; in release mode nothing is forgotten. -/
def clear (c : ModuleCache ε) : ModuleCache ε :=
  match c.mode with
  | .development => { c with fresh := Dictionary.empty }
  | .release => c

/-- The environment of the last load of a key. -/
def get? (c : ModuleCache ε) (key : String) : Option ε := c.modules.get? key

def put (c : ModuleCache ε) (key : String) (env : ε) : ModuleCache ε :=
  let modules := c.modules.insert key env
  { c with
    modules := modules
    stats := { c.stats with loads := c.stats.loads + 1, entries := modules.size } }

def loadedKeys (c : ModuleCache ε) : List String :=
  c.modules.keys.mergeSort fun a b => decide (a ≤ b)

def size (c : ModuleCache ε) : Nat := c.modules.size

/-! ## What each operation shows -/

section Laws

variable (c : ModuleCache ε) (key key' : String) (env : ε)

@[simp] theorem mode_withView (view : Dictionary String ε) : (c.withView view).mode = c.mode := by
  unfold withView
  cases c.mode <;> rfl

@[simp] theorem mode_mark : (c.mark key env).mode = c.mode := mode_withView ..

@[simp] theorem mode_uncheck : (c.uncheck key).mode = c.mode := mode_withView ..

@[simp] theorem mode_put : (c.put key env).mode = c.mode := rfl

@[simp] theorem mode_clear : c.clear.mode = c.mode := by
  unfold clear
  split <;> simp_all

@[simp] theorem mode_checked : (c.checked key).2.mode = c.mode := by
  unfold checked
  cases c.peek key <;> rfl

@[simp] theorem peek_checked : (c.checked key).2.peek key' = c.peek key' := by
  unfold checked
  cases c.peek key <;> rfl

@[simp] theorem get?_checked : (c.checked key).2.get? key' = c.get? key' := by
  unfold checked
  cases c.peek key <;> rfl

theorem view_withView (view : Dictionary String ε) : (c.withView view).view = view := by
  unfold withView
  cases h : c.mode <;> rfl

@[simp] theorem peek_mark :
    (c.mark key env).peek key' = if key = key' then some env else c.peek key' := by
  unfold peek mark
  rw [view_withView, Dictionary.get?_insert]

@[simp] theorem peek_uncheck :
    (c.uncheck key).peek key' = if key = key' then none else c.peek key' := by
  unfold peek uncheck
  rw [view_withView, Dictionary.get?_erase]

theorem peek_put :
    (c.put key env).peek key' =
      if c.mode = .release ∧ key = key' then some env else c.peek key' := by
  unfold peek view put
  cases h : c.mode <;> simp

theorem get?_mark :
    (c.mark key env).get? key' =
      if c.mode = .release ∧ key = key' then some env else c.get? key' := by
  unfold get? mark withView
  cases h : c.mode <;> simp [view, h]

theorem get?_uncheck :
    (c.uncheck key).get? key' =
      if c.mode = .release ∧ key = key' then none else c.get? key' := by
  unfold get? uncheck withView
  cases h : c.mode <;> simp [view, h]

@[simp] theorem get?_put :
    (c.put key env).get? key' = if key = key' then some env else c.get? key' := by
  unfold get? put
  rw [Dictionary.get?_insert]

@[simp] theorem get?_clear : c.clear.get? key = c.get? key := by
  unfold clear
  split <;> rfl

theorem peek_clear (h : c.mode = .development) : c.clear.peek key = none := by
  unfold clear peek view
  rw [h]
  rfl

theorem peek_eq_get? (h : c.mode = .release) : c.peek key = c.get? key := by
  unfold peek view get?
  rw [h]

theorem clear_eq_self (h : c.mode = .release) : c.clear = c := by
  unfold clear
  rw [h]

end Laws

end ModuleCache

end ScriptWorker
