import Mathlib.Data.List.Induction
import ScriptWorker.Proofs.Passages.Contexts

/-!
# Edges that imports leave

A script keeps the keys of what it imported. Between two worlds the scripts gain the edges of certain
imports and no others: every key once, in the order in which it was first imported, and never the
script's own key. Gains add up.
-/

namespace ScriptWorker

variable {L : Language}

theorem Dictionary.keys_insert_of_not_mem {κ ν : Type} [DecidableEq κ] {d : Dictionary κ ν} {k : κ}
    {v : ν} (h : k ∉ d.keys) : (d.insert k v).keys = d.keys ++ [k] := by
  rw [Dictionary.insert, dif_neg h]
  simp [Dictionary.keys]

/-- An import: the unit that made it, and the key of the unit that it got. -/
abbrev Import := UnitId × String

namespace Import

def keysOf (u : UnitId) (imports : List Import) : List String :=
  imports.filterMap fun i => if i.1 = u then some i.2 else none

@[simp] theorem keysOf_append (u : UnitId) (imports imports' : List Import) :
    keysOf u (imports ++ imports') = keysOf u imports ++ keysOf u imports' := List.filterMap_append

theorem keysOf_eq_nil {u : UnitId} {imports : List Import} (h : ∀ i ∈ imports, i.1 ≠ u) :
    keysOf u imports = [] := by
  refine List.filterMap_eq_nil_iff.2 fun i hi => ?_
  rw [if_neg (h i hi)]

end Import

/-- Keys of a unit after imports of others, while the keys that it has stay. -/
def withImports (own : String) (keys imported : List String) : List String :=
  imported.foldl (fun keys key => if key = own ∨ key ∈ keys then keys else keys ++ [key]) keys

theorem withImports_append (own : String) (keys imported imported' : List String) :
    withImports own keys (imported ++ imported') =
      withImports own (withImports own keys imported) imported' := List.foldl_append

theorem eraseDups_of_nodup {l : List String} (h : l.Nodup) : l.eraseDups = l := by
  induction l with
  | nil => rfl
  | cons a l ih =>
    have ha := List.nodup_cons.1 h
    have hfilter : (l.filter fun b => !b == a) = l := by
      refine List.filter_eq_self.2 fun b hb => ?_
      have hne : b ≠ a := fun h => ha.1 (h ▸ hb)
      simp [hne]
    rw [List.eraseDups_cons, hfilter, ih ha.2]

theorem eraseDups_concat (l : List String) (a : String) :
    (l ++ [a]).eraseDups = if a ∈ l then l.eraseDups else l.eraseDups ++ [a] := by
  rw [List.eraseDups_append]
  by_cases h : a ∈ l <;> simp [List.removeAll, h, List.eraseDups_cons]

/-- What comes of imports: each key once, in the order of the first import. -/
theorem withImports_eq {own : String} {keys : List String} (h : keys.Nodup)
    (imported : List String) :
    withImports own keys imported = (keys ++ imported.filter (· ≠ own)).eraseDups := by
  induction imported using List.reverseRecOn with
  | nil => simp [withImports, eraseDups_of_nodup h]
  | append_singleton imported key ih =>
    rw [withImports_append, ih, List.filter_append, ← List.append_assoc]
    change (if key = own ∨ key ∈ (keys ++ _).eraseDups then _ else _) = _
    by_cases hown : key = own
    · simp [hown]
    · have hlast : [key].filter (· ≠ own) = [key] := by simp [hown]
      rw [hlast, eraseDups_concat]
      simp only [hown, false_or, List.mem_eraseDups]

namespace World

def dependencyKeys (w : World L) (u : UnitId) : List String :=
  match w.units.get? u with
  | some unit => unit.dependencies.keys
  | none => []

/-- A unit whose behaviour the host defines. -/
def Custom (w : World L) (u : UnitId) : Prop :=
  ∃ unit spec version, w.units.get? u = some unit ∧ unit.source = .custom spec version

theorem nodup_dependencyKeys (w : World L) (u : UnitId) : (w.dependencyKeys u).Nodup := by
  unfold dependencyKeys
  split
  · next unit _ => exact unit.dependencies.nodup
  · exact List.nodup_nil

theorem dependencyKeys_of_size_le {w : World L} {u : UnitId} (h : w.units.size ≤ u) :
    w.dependencyKeys u = [] := by
  unfold dependencyKeys
  rw [show w.units.get? u = none from List.getElem?_eq_none h]

/-- From one world to another the scripts gain the edges of some imports, and nothing else changes
about the dependencies. -/
structure Gains (w w' : World L) (imports : List Import) : Prop where
  size : w.units.size ≤ w'.units.size
  keys : ∀ u, u < w.units.size → w'.unitKey u = w.unitKey u
  custom : ∀ u, w.Custom u → w'.Custom u
  edges : ∀ u, ¬ w'.Custom u →
    w'.dependencyKeys u = withImports (w'.unitKey u) (w.dependencyKeys u) (Import.keysOf u imports)
  known : ∀ i ∈ imports, i.1 < w'.units.size

theorem Gains.trans {w v w' : World L} {imports imports' : List Import}
    (h : w.Gains v imports) (h' : v.Gains w' imports') : w.Gains w' (imports ++ imports') where
  size := Nat.le_trans h.size h'.size
  keys u hu := (h'.keys u (Nat.lt_of_lt_of_le hu h.size)).trans (h.keys u hu)
  custom u hu := h'.custom u (h.custom u hu)
  edges u hu := by
    rw [h'.edges u hu, Import.keysOf_append, withImports_append]
    by_cases hlt : u < v.units.size
    · rw [h.edges u fun hv => hu (h'.custom u hv), h'.keys u hlt]
    · -- a script that has come since has neither edges nor imports from before
      have hle := Nat.le_of_not_lt hlt
      have hnone : Import.keysOf u imports = [] :=
        Import.keysOf_eq_nil fun i hi heq => hlt (heq ▸ h.known i hi)
      rw [dependencyKeys_of_size_le hle, hnone,
        dependencyKeys_of_size_le (Nat.le_trans h.size hle)]
      rfl
  known i hi := by
    rcases List.mem_append.1 hi with hi | hi
    · exact Nat.lt_of_lt_of_le (h.known i hi) h'.size
    · exact h'.known i hi

theorem gains_nil {w w' : World L}
    (hunits : ∀ u unit, w.units.get? u = some unit → ∃ unit', w'.units.get? u = some unit' ∧
      unit'.key = unit.key ∧ unit'.dependencies = unit.dependencies ∧
      ∀ spec version, unit.source = .custom spec version →
        ∃ version', unit'.source = .custom spec version')
    (hnew : ∀ u unit, w'.units.get? u = some unit → w.units.get? u = none →
      unit.dependencies = Dictionary.empty) : w.Gains w' [] where
  size := by
    refine Nat.le_of_not_lt fun hlt => ?_
    have hrow : w.units.get? w'.units.size = some w.units.rows[w'.units.size] :=
      List.getElem?_eq_getElem hlt
    obtain ⟨unit', hunit', -⟩ := hunits _ _ hrow
    exact Nat.lt_irrefl _ (List.getElem?_eq_some_iff.1 hunit').1
  keys u hu := by
    have hrow : w.units.get? u = some w.units.rows[u] := List.getElem?_eq_getElem hu
    obtain ⟨unit', hunit', hkey, -⟩ := hunits _ _ hrow
    unfold unitKey
    rw [hunit', hrow]
    exact hkey
  custom u hu := by
    obtain ⟨unit, spec, version, hunit, hsource⟩ := hu
    obtain ⟨unit', hunit', -, -, hcustom⟩ := hunits u unit hunit
    obtain ⟨version', hsource'⟩ := hcustom spec version hsource
    exact ⟨unit', spec, version', hunit', hsource'⟩
  edges u _ := by
    change w'.dependencyKeys u = w.dependencyKeys u
    unfold dependencyKeys
    cases hrow : w.units.get? u with
    | some unit =>
      obtain ⟨unit', hunit', -, hdependencies, -⟩ := hunits u unit hrow
      simp [hunit', hdependencies]
    | none =>
      cases hrow' : w'.units.get? u with
      | none => rfl
      | some unit' => simp [hnew u unit' hrow' hrow, Dictionary.keys, Dictionary.empty]
  known _ h := nomatch h

theorem gains_of_units {w w' : World L} (h : w'.units = w.units) : w.Gains w' [] :=
  gains_nil (fun u unit hunit => ⟨unit, h ▸ hunit, rfl, rfl, fun _ version hv => ⟨version, hv⟩⟩)
    fun u unit hunit hnone => by rw [h, hnone] at hunit; cases hunit

theorem Gains.refl (w : World L) : w.Gains w [] := gains_of_units rfl

section Record

variable (w : World L) (u dependency : UnitId)

theorem get?_recordDependency (p : UnitId) :
    (w.recordDependency u dependency).units.get? p =
      if u = p then (w.units.get? p).map fun unit =>
          if w.unitKey dependency = unit.key ∨ unit.dependencies.contains (w.unitKey dependency) then
            unit
          else
            { unit with dependencies := unit.dependencies.insert (w.unitKey dependency) dependency }
      else w.units.get? p := Table.get?_modify ..

theorem unitKey_recordDependency (p : UnitId) :
    (w.recordDependency u dependency).unitKey p = w.unitKey p := by
  unfold unitKey
  rw [get?_recordDependency]
  by_cases h : u = p
  · rw [if_pos h]
    cases w.units.get? p with
    | none => rfl
    | some unit =>
      dsimp only [Option.map_some]
      split <;> rfl
  · rw [if_neg h]

theorem custom_recordDependency (p : UnitId) (h : w.Custom p) :
    (w.recordDependency u dependency).Custom p := by
  obtain ⟨unit, spec, version, hunit, hsource⟩ := h
  unfold Custom
  rw [get?_recordDependency, hunit]
  by_cases h : u = p
  · rw [if_pos h]
    refine ⟨_, spec, version, rfl, ?_⟩
    dsimp only
    split <;> exact hsource
  · rw [if_neg h]
    exact ⟨unit, spec, version, rfl, hsource⟩

theorem dependencyKeys_recordDependency (p : UnitId) (hu : u < w.units.size) :
    (w.recordDependency u dependency).dependencyKeys p =
      withImports (w.unitKey p) (w.dependencyKeys p)
        (Import.keysOf p [(u, w.unitKey dependency)]) := by
  unfold dependencyKeys
  rw [get?_recordDependency]
  by_cases h : u = p
  · subst h
    have hrow : w.units.get? u = some w.units.rows[u] := List.getElem?_eq_getElem hu
    have hkey : w.unitKey u = w.units.rows[u].key := by rw [unitKey, hrow]
    simp only [if_pos, hrow, Option.map_some, Import.keysOf, List.filterMap_cons, List.filterMap_nil,
      withImports, List.foldl_cons, List.foldl_nil, hkey]
    generalize w.units.rows[u] = unit
    by_cases hknown : w.unitKey dependency = unit.key ∨
        w.unitKey dependency ∈ unit.dependencies.keys
    · simp [Dictionary.contains, hknown]
    · rw [if_neg hknown, if_neg (by simpa [Dictionary.contains] using hknown)]
      exact Dictionary.keys_insert_of_not_mem (fun hmem => hknown (.inr hmem))
  · simp [h, Import.keysOf, withImports]

theorem gains_recordDependency (hu : u < w.units.size) :
    w.Gains (w.recordDependency u dependency) [(u, w.unitKey dependency)] where
  size := by simp [recordDependency]
  keys p _ := unitKey_recordDependency w u dependency p
  custom p hp := custom_recordDependency w u dependency p hp
  edges p _ := by rw [unitKey_recordDependency, dependencyKeys_recordDependency w u dependency p hu]
  known i hi := by
    obtain rfl := List.mem_singleton.1 hi
    simpa [recordDependency] using hu

end Record

theorem Gains.custom_nil {w w' : World L} {u : UnitId} {key : String}
    (h : w.Gains w' [(u, key)]) (hu : w.Custom u) : w.Gains w' [] where
  size := h.size
  keys := h.keys
  custom := h.custom
  edges p hp := by
    have hne : u ≠ p := fun heq => hp (heq ▸ h.custom u hu)
    rw [h.edges p hp, Import.keysOf_eq_nil (by simpa using hne)]
    rfl
  known _ h := nomatch h

theorem Custom.lt {w : World L} {u : UnitId} (h : w.Custom u) : u < w.units.size := by
  obtain ⟨unit, spec, version, hunit, -⟩ := h
  exact (List.getElem?_eq_some_iff.1 hunit).1

theorem Gains.of_custom {w w' : World L} {u : UnitId} (h : w.Gains w' []) (hu : w.Custom u)
    (key : String) : w.Gains w' [(u, key)] where
  size := h.size
  keys := h.keys
  custom := h.custom
  edges p hp := by
    have hne : u ≠ p := fun heq => hp (heq ▸ h.custom u hu)
    have hnone : Import.keysOf p [(u, key)] = [] := Import.keysOf_eq_nil (by simpa using hne)
    rw [h.edges p hp, hnone]
    rfl
  known i hi := by
    obtain rfl := List.mem_singleton.1 hi
    exact Nat.lt_of_lt_of_le hu.lt h.size

end World

end ScriptWorker
