import ScriptWorker.Config.Source
import ScriptWorker.Proofs.Toml.Outlines

/-!
# Configurations are read back

The document of a configuration shows every key, and reading it gives the configuration back, whatever
its strings hold. A key that is deleted from the document, itself or with its section, has its default
afterwards, and every other key keeps its value.
-/

namespace ScriptWorker

open Toml (KeyPath Outline)

/-! ## Paths -/

namespace OsText

theorem toList_loop (bs : ByteArray) (i : Nat) (read : List UInt8) :
    ByteArray.toList.loop bs i read = read.reverse ++ bs.data.toList.drop i := by
  fun_induction ByteArray.toList.loop bs i read with
  | case1 i read h ih =>
    have hi : i < bs.data.toList.length := h
    rw [ih, List.drop_eq_getElem_cons hi]
    simp [ByteArray.get!, getElem!_pos bs.data i hi]
  | case2 i read h =>
    have hi : bs.data.toList.length ≤ i := Nat.le_of_not_lt h
    simp [List.drop_eq_nil_of_le hi]

theorem bytes_ofString (s : String) : (ofString s).bytes = s.toUTF8.data.toList :=
  toList_loop s.toUTF8 0 []

theorem ofString_of_toString? {t : OsText} {s : String} (h : t.toString? = some s) :
    ofString s = t := by
  unfold toString? String.fromUTF8? at h
  split at h
  · obtain rfl := Option.some.inj h
    exact congrArg OsText.mk (bytes_ofString _)
  · cases h

theorem toString?_ofString (s : String) : (ofString s).toString? = some s := by
  have hbytes : (ofString s).toByteArray = s.toUTF8 := by
    rw [toByteArray, bytes_ofString]
  unfold toString? String.fromUTF8?
  rw [hbytes]
  exact dif_pos s.isValidUTF8

theorem mapM_toString? {ts : List OsText} (h : ∀ t ∈ ts, t.toString?.isSome = true) :
    ∃ texts, ts.mapM toString? = some texts ∧ texts.map ofString = ts := by
  induction ts with
  | nil => exact ⟨[], rfl, rfl⟩
  | cons t ts ih =>
    obtain ⟨s, hs⟩ := Option.isSome_iff_exists.1 (h t List.mem_cons_self)
    obtain ⟨texts, htexts, hback⟩ := ih fun t ht => h t (List.mem_cons_of_mem _ ht)
    exact ⟨s :: texts, by simp [hs, htexts], by simp [hback, ofString_of_toString? hs]⟩

end OsText

/-! ## Values -/

namespace Config

theorem choice_logLevel (level : LogLevel) :
    choice LogLevel.names (.string level.name) = some level := by
  cases level <;> rfl

theorem choice_failurePolicy (policy : FailurePolicy) :
    choice FailurePolicy.names (.string policy.name) = some policy := by
  cases policy <;> rfl

theorem directories_strings (texts : List String) :
    directories (.array (texts.map .string)) = some (texts.map OsText.ofString) := by
  induction texts with
  | nil => rfl
  | cons s texts ih =>
    simp only [directories] at ih
    simp only [directories, List.map_cons, List.mapM_cons, ih]
    rfl

theorem worker_eq {value : Toml.Value} {s : Section} {w : WorkerConfig}
    (hs : sectionOf value = some s)
    (hreloading : field s "reloading" 0 flag WorkerConfig.defaults.reloading = some w.reloading)
    (hname : field s "thread_name_prefix" 1 text WorkerConfig.defaults.threadNamePrefix =
      some w.threadNamePrefix)
    (hpolicy : field s "periodic_failure" 2 (choice FailurePolicy.names)
      WorkerConfig.defaults.periodicFailure = some w.periodicFailure) :
    worker value = some w := by
  simp [worker, hs, hreloading, hname, hpolicy]

theorem modules_eq {value : Toml.Value} {s : Section} {m : ModuleConfig}
    (hs : sectionOf value = some s)
    (hpaths : field s "paths" 0 directories ModuleConfig.defaults.paths = some m.paths)
    (hextension : field s "extension" 1 text ModuleConfig.defaults.extension = some m.extension) :
    modules value = some m := by
  simp [modules, hs, hpaths, hextension]

theorem ofEntries_eq {entries : List (String × Toml.Value)} {s : Section} {c : RuntimeConfig}
    (hs : s = fun key _ => lookup key entries)
    (hlevel : field s "log_level" 0 (choice LogLevel.names) RuntimeConfig.defaults.logLevel =
      some c.logLevel)
    (hworker : field s "worker" 1 worker RuntimeConfig.defaults.worker = some c.worker)
    (hmodules : field s "modules" 2 modules RuntimeConfig.defaults.modules = some c.modules) :
    ofEntries entries = some c := by
  subst hs
  simp [ofEntries, hlevel, hworker, hmodules]

/-! ## Fields that deletions leave -/

variable {α : Type} {deleted : KeyPath → Bool} {inside : KeyPath}
  {entries : List (String × Toml.Value)}

theorem lookup_spared (key : String) :
    lookup key (Toml.spared deleted inside entries) =
      if KeyPath.gone deleted (inside ++ [key]) then none else lookup key entries := by
  induction entries with
  | nil => simp [Toml.spared, lookup]
  | cons entry entries ih =>
    by_cases hkey : entry.1 = key
    · subst hkey
      cases hgone : KeyPath.gone deleted (inside ++ [entry.1]) with
      | false => simp [Toml.spared, lookup, hgone]
      | true => simpa [Toml.spared, hgone] using ih
    · have hrest : lookup key (entry :: entries) = lookup key entries := by simp [lookup, hkey]
      rw [hrest, ← ih]
      cases hgone : KeyPath.gone deleted (inside ++ [entry.1]) <;>
        simp [Toml.spared, lookup, hgone, hkey]

def sparedSection (deleted : KeyPath → Bool) (inside : KeyPath)
    (entries : List (String × Toml.Value)) : Section :=
  fun key _ => lookup key (Toml.spared deleted inside entries)

theorem field_spared (key : String) (place : Nat) (decode : Toml.Value → Option α) (default : α)
    {value : Toml.Value} {x : α} (h : lookup key entries = some value)
    (hdecode : decode value = some x) :
    field (sparedSection deleted inside entries) key place decode default =
      some (if KeyPath.gone deleted (inside ++ [key]) then default else x) := by
  simp only [field, sparedSection, lookup_spared, h]
  cases KeyPath.gone deleted (inside ++ [key]) with
  | false => exact hdecode
  | true => rfl

end Config

/-! ## Configurations -/

namespace RuntimeConfig

def reset (gone : KeyPath → Bool) (c : RuntimeConfig) : RuntimeConfig where
  logLevel := if gone ["log_level"] then defaults.logLevel else c.logLevel
  worker :=
    { reloading :=
        if gone ["worker", "reloading"] then defaults.worker.reloading else c.worker.reloading
      threadNamePrefix :=
        if gone ["worker", "thread_name_prefix"] then defaults.worker.threadNamePrefix
        else c.worker.threadNamePrefix
      periodicFailure :=
        if gone ["worker", "periodic_failure"] then defaults.worker.periodicFailure
        else c.worker.periodicFailure }
  modules :=
    { paths := if gone ["modules", "paths"] then defaults.modules.paths else c.modules.paths
      extension :=
        if gone ["modules", "extension"] then defaults.modules.extension else c.modules.extension }

def workerPairs (c : RuntimeConfig) : List (String × Toml.Value) :=
  [("reloading", .boolean c.worker.reloading),
   ("thread_name_prefix", .string c.worker.threadNamePrefix),
   ("periodic_failure", .string c.worker.periodicFailure.name)]

def modulePairs (c : RuntimeConfig) (paths : List String) : List (String × Toml.Value) :=
  [("paths", .array (paths.map .string)), ("extension", .string c.modules.extension)]

def outline (c : RuntimeConfig) (paths : List String) : Outline where
  pairs := [("log_level", .string c.logLevel.name)]
  sections := [("worker", c.workerPairs), ("modules", c.modulePairs paths)]

theorem statements_outline (c : RuntimeConfig) (paths : List String) :
    (c.outline paths).statements = c.statements paths := rfl

theorem sound_outline (c : RuntimeConfig) (paths : List String) : (c.outline paths).Sound where
  names := by simp [outline]
  keys := by simp [outline, workerPairs, modulePairs]
  values := by
    simp only [outline, List.mem_singleton, forall_eq]
    exact Toml.reads_string _ _
  sectionValues := by
    have hpaths : Toml.Reads (Toml.readValue Toml.nestingLimit) (.array (paths.map .string)) := by
      refine Toml.reads_array _ fun value hvalue => ?_
      obtain ⟨s, -, rfl⟩ := List.mem_map.1 hvalue
      exact Toml.reads_string _ s
    simp only [outline, workerPairs, modulePairs, List.forall_mem_cons, Toml.reads_string,
      Toml.reads_boolean, hpaths, List.not_mem_nil, false_implies, implies_true, and_self]

variable {deleted : KeyPath → Bool}

theorem worker_spared (c : RuntimeConfig) :
    Config.worker (.table (Toml.spared deleted ["worker"] c.workerPairs)) =
      some (c.reset (KeyPath.gone deleted)).worker :=
  Config.worker_eq (s := Config.sparedSection deleted ["worker"] c.workerPairs) rfl
    (Config.field_spared _ _ _ _ rfl rfl) (Config.field_spared _ _ _ _ rfl rfl)
    (Config.field_spared _ _ _ _ rfl (Config.choice_failurePolicy _))

theorem modules_spared {c : RuntimeConfig} {paths : List String}
    (h : paths.map OsText.ofString = c.modules.paths) :
    Config.modules (.table (Toml.spared deleted ["modules"] (c.modulePairs paths))) =
      some (c.reset (KeyPath.gone deleted)).modules := by
  have hpaths : Config.directories (.array (paths.map .string)) = some c.modules.paths := by
    rw [Config.directories_strings, h]
  exact Config.modules_eq (s := Config.sparedSection deleted ["modules"] (c.modulePairs paths)) rfl
    (Config.field_spared _ _ _ _ rfl hpaths) (Config.field_spared _ _ _ _ rfl rfl)

theorem reset_worker_of_gone {c : RuntimeConfig} (h : KeyPath.gone deleted ["worker"] = true) :
    (c.reset (KeyPath.gone deleted)).worker = defaults.worker := by
  simp [reset, Toml.gone_pair, h]

theorem reset_modules_of_gone {c : RuntimeConfig} (h : KeyPath.gone deleted ["modules"] = true) :
    (c.reset (KeyPath.gone deleted)).modules = defaults.modules := by
  simp [reset, Toml.gone_pair, h]

theorem reset_of_none (c : RuntimeConfig) : c.reset (KeyPath.gone fun _ => false) = c := by
  simp [reset, KeyPath.gone]

/-- The entries that deletions leave of a document are decoded as the configuration with the defaults
for what is deleted. -/
theorem ofEntries_spared (deleted : KeyPath → Bool) {c : RuntimeConfig} {paths : List String}
    (h : paths.map OsText.ofString = c.modules.paths) :
    Config.ofEntries (Toml.spared deleted [] [("log_level", .string c.logLevel.name),
        ("worker", .table (Toml.spared deleted ["worker"] c.workerPairs)),
        ("modules", .table (Toml.spared deleted ["modules"] (c.modulePairs paths)))]) =
      some (c.reset (KeyPath.gone deleted)) := by
  refine Config.ofEntries_eq (s := Config.sparedSection deleted [] _) rfl
    (Config.field_spared _ _ _ _ rfl (Config.choice_logLevel _)) ?_ ?_
  · rw [Config.field_spared "worker" 1 Config.worker _ rfl (worker_spared c)]
    split
    · next hgone => rw [reset_worker_of_gone hgone]
    · rfl
  · rw [Config.field_spared "modules" 2 Config.modules _ rfl (modules_spared h)]
    split
    · next hgone => rw [reset_modules_of_gone hgone]
    · rfl

/-- Every configuration whose paths are UTF-8 has a document, which gives it back; what is left of the
document when any of its keys and sections are deleted gives it back with the defaults for these. -/
theorem toDocument_roundTrip (c : RuntimeConfig)
    (h : ∀ path ∈ c.modules.paths, path.toString?.isSome = true) :
    ∃ paths, c.modules.paths.mapM OsText.toString? = some paths ∧
      c.toDocument = .ok (Toml.textOf (c.statements paths)) ∧
      ofDocument (Toml.textOf (c.statements paths)) = .ok c ∧
      ∀ deleted : KeyPath → Bool,
        ofDocument (Toml.textOf (Toml.remaining deleted [] (c.statements paths))) =
          .ok (c.reset (KeyPath.gone deleted)) := by
  obtain ⟨paths, hpaths, hback⟩ := OsText.mapM_toString? h
  have hdeleted (deleted : KeyPath → Bool) :
      ofDocument (Toml.textOf (Toml.remaining deleted [] (c.statements paths))) =
        .ok (c.reset (KeyPath.gone deleted)) := by
    have hread := Toml.Outline.readDocument_remaining (sound_outline c paths) deleted
    rw [statements_outline] at hread
    have hdecode := ofEntries_spared deleted hback
    rw [ofDocument, ofDocument?, hread, Option.bind_some]
    exact hdecode ▸ rfl
  refine ⟨paths, hpaths, ?_, ?_, hdeleted⟩
  · rw [toDocument, toDocument?, hpaths, Option.map_some, statements, Toml.writeDocument_eq_textOf]
  · have hall := hdeleted fun _ => false
    rwa [Toml.remaining_of_none, reset_of_none] at hall

/-- A configuration whose strings need every way to write a string. -/
def intricate : RuntimeConfig where
  logLevel := .trace
  worker := ⟨true, "it's \"quoted\"\\ and\ttabbed\r\x01\x7f", .halt⟩
  modules := ⟨["", "C:\\lib", "''\n\"\"\"\"", "bücher/☃"].map OsText.ofString, "\n\n"⟩

theorem intricate_roundTrip :
    (∀ path ∈ intricate.modules.paths, path.toString?.isSome = true) ∧
    ∃ paths, intricate.modules.paths.mapM OsText.toString? = some paths ∧
      intricate.toDocument = .ok (Toml.textOf (intricate.statements paths)) ∧
      ofDocument (Toml.textOf (intricate.statements paths)) = .ok intricate ∧
      ∀ deleted : KeyPath → Bool,
        ofDocument (Toml.textOf (Toml.remaining deleted [] (intricate.statements paths))) =
          .ok (intricate.reset (KeyPath.gone deleted)) := by
  have hpaths : ∀ path ∈ intricate.modules.paths, path.toString?.isSome = true := by
    simp only [intricate, List.mem_map]
    rintro _ ⟨s, -, rfl⟩
    rw [OsText.toString?_ofString]
    rfl
  exact ⟨hpaths, toDocument_roundTrip intricate hpaths⟩

end RuntimeConfig

end ScriptWorker
