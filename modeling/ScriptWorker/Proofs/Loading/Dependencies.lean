import ScriptWorker.Proofs.Checksums
import ScriptWorker.Proofs.Loading.Operations

/-!
# What a checksum reads

The checksum of a unit is a sum over the units that its dependencies lead to. So it stays the same while
these have the same versions and none comes to them, in whichever order and however often dependencies
are recorded.
-/

namespace ScriptWorker

open Relation World

theorem Dictionary.values_insert {κ ν : Type} [DecidableEq κ] {d : Dictionary κ ν} {k : κ}
    (h : d.contains k = false) (v : ν) : (d.insert k v).values = d.values ++ [v] := by
  have hk : k ∉ d.keys := of_decide_eq_false h
  unfold insert
  rw [dif_neg hk]
  simp [values]

variable {L : Language}

namespace World

variable {w w' : World L} {P : UnitId → Prop} {u v p : UnitId} {env : EnvironmentId} {time : UInt64}

theorem graph_get? (w : World L) (p : UnitId) :
    w.graph[p]? = (w.units.get? p).map fun unit =>
      ⟨unit.key, unit.version w.storage, unit.dependencies.values⟩ := List.getElem?_map ..

/-- What is read of a unit can be told from the graph. -/
theorem eq_of_graph (h : w'.graph[p]? = w.graph[p]?) :
    w'.unitKey p = w.unitKey p ∧ w'.unitVersion p = w.unitVersion p ∧
      w'.dependencies p = w.dependencies p := by
  rw [graph_get?, graph_get?] at h
  unfold unitKey unitVersion dependencies
  cases hp : w.units.get? p with
  | none =>
    rw [hp] at h
    rw [Option.map_eq_none_iff.1 h]
    exact ⟨rfl, rfl, rfl⟩
  | some unit =>
    rw [hp] at h
    obtain ⟨unit', hp', hnode⟩ := Option.map_eq_some_iff.1 h
    rw [hp']
    injection hnode with hkey hversion hdependencies
    exact ⟨hkey, hversion, hdependencies⟩

/-- What the units of a worker's resolver depend on are such units. -/
def Linked (w : World L) (k : WorkerId) : Prop :=
  ∀ u key v, w.Holds k u key → v ∈ w.dependencies u → ∃ key', w.Holds k v key'

theorem lt_of_mem_dependencies (h : v ∈ w.dependencies u) : u < w.units.size := by
  unfold dependencies at h
  cases hu : w.units.get? u with
  | none =>
    rw [hu] at h
    cases h
  | some unit => exact (List.getElem?_eq_some_iff.1 hu).1

theorem dependencies_of_le (h : w.units.size ≤ p) : w.dependencies p = [] :=
  List.eq_nil_iff_forall_not_mem.2 fun _ hv => Nat.not_lt.2 h (lt_of_mem_dependencies hv)

/-! ## What steps change of the graph -/

theorem dependencies_recordDependency (w : World L) (u v p : UnitId) :
    (w.recordDependency u v).dependencies p = w.dependencies p ∨
      p = u ∧ (w.recordDependency u v).dependencies p = w.dependencies p ++ [v] := by
  unfold recordDependency dependencies
  dsimp only
  rw [Table.get?_modify]
  by_cases hp : u = p
  · subst hp
    rw [if_pos rfl]
    cases hu : w.units.get? u with
    | none => exact .inl rfl
    | some unit =>
      dsimp only [Option.map_some]
      split
      · exact .inl rfl
      · next hnew =>
        rw [not_or, Bool.not_eq_true] at hnew
        exact .inr ⟨rfl, Dictionary.values_insert hnew.2 v⟩
  · rw [if_neg hp]
    exact .inl rfl

theorem dependencies_recorded (w : World L) (parent : Option UnitId) (u p : UnitId) :
    (w.recorded parent u).dependencies p = w.dependencies p ∨
      parent = some p ∧ (w.recorded parent u).dependencies p = w.dependencies p ++ [u] := by
  cases parent with
  | none => exact .inl rfl
  | some parent =>
    exact (dependencies_recordDependency w parent u p).imp_right fun h => ⟨congrArg some h.1.symm, h.2⟩

theorem unitVersion_recorded (w : World L) (parent : Option UnitId) (u p : UnitId) :
    (w.recorded parent u).unitVersion p = w.unitVersion p := by
  cases parent with
  | none => rfl
  | some parent =>
    unfold recorded recordDependency unitVersion
    dsimp only
    rw [Table.get?_modify]
    by_cases hp : parent = p
    · rw [if_pos hp]
      cases w.units.get? p with
      | none => rfl
      | some unit =>
        dsimp only [Option.map_some]
        split <;> rfl
    · rw [if_neg hp]

theorem graph_setCompiled (w : World L) (u : UnitId) (body : L.Body) (time : UInt64) (p : UnitId) :
    (w.setCompiled u body time).graph[p]? = w.graph[p]? := by
  rw [graph_get?, graph_get?]
  unfold setCompiled
  dsimp only
  rw [Table.get?_modify]
  split
  · cases w.units.get? p with
    | none => rfl
    | some unit =>
      rw [Option.map_map]
      simp only [Option.map_some, Function.comp_apply, Option.some.injEq]
      unfold ExecutableUnit.version
      cases hsource : unit.source <;> simp [hsource]
  · rfl

section Apart

variable (h : w.Apart w')
include h

theorem Apart.graph (hp : p < w.units.size) : w'.graph[p]? = w.graph[p]? := by
  obtain ⟨unit, hunit⟩ : ∃ unit, w.units.get? p = some unit := ⟨_, List.getElem?_eq_getElem hp⟩
  rw [graph_get?, graph_get?, hunit, h.units p unit hunit]
  simp only [Option.map_some, Option.some.injEq]
  unfold ExecutableUnit.version
  cases unit.source with
  | script resource compiled => simp [h.modified]
  | custom spec version => rfl

theorem Apart.dependencies (p : UnitId) : w'.dependencies p = w.dependencies p := by
  by_cases hp : p < w.units.size
  · exact (eq_of_graph (h.graph hp)).2.2
  · rw [dependencies_of_le (Nat.le_of_not_lt hp)]
    unfold World.dependencies
    cases hunit : w'.units.get? p with
    | none => rfl
    | some unit =>
      rcases h.newcomers p unit hunit with hold | ⟨hnone, -⟩
      · exact (hp (List.getElem?_eq_some_iff.1 hold).1).elim
      · dsimp only
        rw [hnone]
        rfl

theorem Apart.linked {k : WorkerId} (hw : w.Linked k) : w'.Linked k := by
  intro u key v hu hv
  rw [h.dependencies u] at hv
  rcases h.known k u key hu with hold | hnew
  · obtain ⟨key', hv⟩ := hw u key v hold hv
    exact ⟨key', h.beside.holds hv⟩
  · rw [dependencies_of_le hnew] at hv
    cases hv

end Apart

/-- What leaves workers alone, and lets the dependencies of a worker's units lead to its units. -/
def Linking (k : WorkerId) (w w' : World L) : Prop := w.Beside w' ∧ (w.Linked k → w'.Linked k)

theorem Script.lt {key : String} {resource : Resource} (h : w.Script u key resource) :
    u < w.units.size := by
  obtain ⟨unit, compiled, hunit, -⟩ := h
  exact (List.getElem?_eq_some_iff.1 hunit).1

/-! ## The units that a checksum is over -/

/-- A unit is another one, or its dependencies lead there. -/
def LeadsTo (w : World L) : UnitId → UnitId → Prop := ReflTransGen fun p v => v ∈ w.dependencies p

def keyVersion (w : World L) (k : WorkerId) (key : String) : UInt64 :=
  match (w.scripts k).bind fun scripts => scripts.get? key with
  | some u => w.unitVersion u
  | none => 0

section Sums

variable {k : WorkerId} {key : String} (hscripted : w.Scripted k) (hlinked : w.Linked k)

theorem Holds.keyVersion (hu : w.Holds k u key) : w.keyVersion k key = w.unitVersion u := by
  obtain ⟨scripts, hs, hu⟩ := hu
  unfold World.keyVersion
  rw [hs, Option.bind_some, hu]

theorem LeadsTo.holds (hlinked : w.Linked k) (hu : w.Holds k u key) (h : w.LeadsTo u p) :
    ∃ key', w.Holds k p key' := by
  induction h with
  | refl => exact ⟨key, hu⟩
  | tail _ hv ih =>
    obtain ⟨key', hp⟩ := ih
    exact hlinked _ key' _ hp hv

include hscripted in
theorem Holds.unitKey (hu : w.Holds k u key) : w.unitKey u = key := by
  obtain ⟨_, hscript⟩ := hscripted.script hu
  exact Script.unitKey hscript

include hscripted in
theorem Holds.node (hu : w.Holds k u key) :
    w.graph[u]? = some ⟨key, w.unitVersion u, w.dependencies u⟩ := by
  obtain ⟨resource, unit, compiled, hunit, -, rfl, -⟩ := hscripted.script hu
  rw [graph_get?]
  unfold unitVersion dependencies
  rw [hunit]
  rfl

include hscripted hlinked in
theorem agrees_of_linked :
    w.graph.Agrees (w.keyVersion k) fun p => ∃ key, w.Holds k p key where
  closed p node hp hnode d hd := by
    obtain ⟨key, hp⟩ := hp
    cases (hp.node hscripted).symm.trans hnode
    exact hlinked p key d hp hd
  version p node hp hnode := by
    obtain ⟨key, hp⟩ := hp
    cases (hp.node hscripted).symm.trans hnode
    exact hp.keyVersion.symm
  dependencies p q m n hp hq hm hn hkeys d hd l hl := by
    obtain ⟨key, hp⟩ := hp
    obtain ⟨key', hq⟩ := hq
    cases (hp.node hscripted).symm.trans hm
    cases (hq.node hscripted).symm.trans hn
    obtain rfl : key = key' := hkeys
    obtain rfl := hp.unique hq
    exact ⟨d, hd, l, hl, rfl⟩

include hscripted hlinked in
theorem reaches_iff (hu : w.Holds k u key) {key' : String} :
    w.graph.Reaches [] u key' ↔ ∃ p, w.LeadsTo u p ∧ w.Holds k p key' := by
  constructor
  · intro h
    induction h generalizing key with
    | here hnode _ =>
      cases (hu.node hscripted).symm.trans hnode
      exact ⟨_, .refl, hu⟩
    | there hnode _ hd _ ih =>
      cases (hu.node hscripted).symm.trans hnode
      obtain ⟨_, hheld⟩ := hlinked _ key _ hu hd
      obtain ⟨p, hlead, hp⟩ := ih hheld
      exact ⟨p, .head hd hlead, hp⟩
  · rintro ⟨p, hlead, hp⟩
    induction hlead using ReflTransGen.head_induction_on generalizing key with
    | refl =>
      obtain rfl := (hu.unitKey hscripted).symm.trans (hp.unitKey hscripted)
      exact .here (hu.node hscripted) List.not_mem_nil
    | head hv _ ih =>
      obtain ⟨_, hheld⟩ := hlinked _ key _ hu hv
      exact .there (hu.node hscripted) List.not_mem_nil hv (ih hheld)

include hscripted hlinked in
/-- The checksum of a unit is the same if it leads to the same units and these have the same versions. -/
theorem unitChecksum_congr (hscripted' : w'.Scripted k) (hlinked' : w'.Linked k)
    (hu : w.Holds k u key) (hholds : ∀ p key, w.Holds k p key → w'.Holds k p key)
    (hreach : ∀ p, w.LeadsTo u p ↔ w'.LeadsTo u p)
    (hversions : ∀ p key, w.LeadsTo u p → w.Holds k p key → w'.unitVersion p = w.unitVersion p) :
    w'.unitChecksum u = w.unitChecksum u := by
  have hu' := hholds u key hu
  unfold unitChecksum checksumAt
  rw [hu.unitKey hscripted, hu'.unitKey hscripted']
  refine (DependencyGraph.checksum_congr (agrees_of_linked hscripted hlinked)
    (agrees_of_linked hscripted' hlinked') ⟨key, hu⟩ ⟨key, hu'⟩ (hu.node hscripted)
    (hu'.node hscripted') (fun key' => ?_) fun key' hkey' => ?_).symm
  · rw [reaches_iff hscripted hlinked hu, reaches_iff hscripted' hlinked' hu']
    constructor
    · rintro ⟨p, hlead, hp⟩
      exact ⟨p, (hreach p).1 hlead, hholds p key' hp⟩
    · rintro ⟨p, hlead, hp⟩
      have hlead := (hreach p).2 hlead
      obtain ⟨key'', hp'⟩ := hlead.holds hlinked hu
      obtain rfl := ((hholds p key'' hp').unitKey hscripted').symm.trans (hp.unitKey hscripted')
      exact ⟨p, hlead, hp'⟩
  · obtain ⟨p, hlead, hp⟩ := (reaches_iff hscripted hlinked hu).1 hkey'
    rw [hp.keyVersion, (hholds p key' hp).keyVersion, hversions p key' hlead hp]

/-- Units have come, units depend on more, and no unit of a worker has another version. -/
structure Grows (k : WorkerId) (w w' : World L) : Prop where
  holds : ∀ u key, w.Holds k u key → w'.Holds k u key
  versions : ∀ u key, w.Holds k u key → w'.unitVersion u = w.unitVersion u
  dependencies : ∀ u, w.dependencies u ⊆ w'.dependencies u

theorem Grows.refl (k : WorkerId) (w : World L) : w.Grows k w :=
  ⟨fun _ _ h => h, fun _ _ _ => rfl, fun _ => List.Subset.refl _⟩

theorem Grows.trans {w'' : World L} (h : w.Grows k w') (h' : w'.Grows k w'') : w.Grows k w'' where
  holds u key hu := h'.holds u key (h.holds u key hu)
  versions u key hu := (h'.versions u key (h.holds u key hu)).trans (h.versions u key hu)
  dependencies u := List.Subset.trans (h.dependencies u) (h'.dependencies u)

theorem Grows.leadsTo (h : w.Grows k w') (hlead : w.LeadsTo u p) : w'.LeadsTo u p :=
  ReflTransGen.mono (fun p _ hv => h.dependencies p hv) _ _ hlead

include hscripted hlinked in
theorem Grows.unitChecksum_eq (h : w.Grows k w') (hscripted' : w'.Scripted k) (hlinked' : w'.Linked k)
    (hu : w.Holds k u key) (hreach : ∀ p, w'.LeadsTo u p → w.LeadsTo u p) :
    w'.unitChecksum u = w.unitChecksum u :=
  unitChecksum_congr hscripted hlinked hscripted' hlinked' hu h.holds
    (fun p => ⟨h.leadsTo, hreach p⟩) fun p key _ => h.versions p key

end Sums

end World

namespace Config

variable {crew : WorkerId → Prop} {thread : ThreadId} {aside : World L → World L → Prop}
  {c c' : Config L} {p : UnitId}

/-- What happens on workers makes no unit depend on more, unless a load settles that was made for it. -/
theorem Step.records (h : Step crew thread aside c c') (p : UnitId) :
    aside c.world c'.world ∨ c'.world.dependencies p = c.world.dependencies p ∨
      ∃ k u key stage answer s, c.stack = .load k u key stage :: s ∧
        c'.stack = .load k u key (.settled (.done answer)) :: s ∧ Activity.script k s = some p ∧
        c'.world.dependencies p = c.world.dependencies p ++ [u] := by
  cases h with
  | aside h => exact .inl h
  | @hit s H w k u key env hpeek =>
    exact .inr ((dependencies_recorded (w.modifyWorker k _) _ u p).imp_right fun h =>
      ⟨k, u, key, _, _, s, rfl, rfl, h⟩)
  | @reuse s H w k u key env hget hfresh =>
    exact .inr ((dependencies_recorded ((w.modifyWorker k _).modifyWorker k _) _ u p).imp_right
      fun h => ⟨k, u, key, _, _, s, rfl, rfl, h⟩)
  | @refuse s H w k u key stage cause hstage =>
    exact .inr ((dependencies_recorded (w.modifyWorker k _) _ u p).imp_right fun h =>
      ⟨k, u, key, _, _, s, rfl, rfl, h⟩)
  | @finish s H w k u key env code time value hreturned =>
    exact .inr ((dependencies_recorded ((w.stamp env _).modifyWorker k _) _ u p).imp_right fun h =>
      ⟨k, u, key, _, _, s, rfl, rfl, h⟩)
  | @fail s H w k u key env code time cause hreturned =>
    exact .inr ((dependencies_recorded (w.modifyWorker k _) _ u p).imp_right fun h =>
      ⟨k, u, key, _, _, s, rfl, rfl, h⟩)
  | compiled hscript hreturned => exact .inr (.inl (eq_of_graph (graph_setCompiled ..)).2.2)
  | _ => exact .inr (.inl rfl)

theorem Step.dependencies (haside : ∀ w w', aside w w' → w.Apart w')
    (h : Step crew thread aside c c') (p : UnitId) :
    c'.world.dependencies p = c.world.dependencies p ∨
      ∃ k u key stage answer s, c.stack = .load k u key stage :: s ∧
        c'.stack = .load k u key (.settled (.done answer)) :: s ∧ Activity.script k s = some p ∧
        c'.world.dependencies p = c.world.dependencies p ++ [u] := by
  rcases h.records p with hmove | hrest
  · exact .inl ((haside _ _ hmove).dependencies p)
  · exact hrest

theorem Step.unitVersion (haside : ∀ w w', aside w w' → w.Apart w')
    (h : Step crew thread aside c c') (hp : p < c.world.units.size) :
    c'.world.unitVersion p = c.world.unitVersion p := by
  cases h with
  | aside h => exact (eq_of_graph ((haside _ _ h).graph hp)).2.1
  | hit hpeek => exact unitVersion_recorded ..
  | reuse hget hfresh => exact unitVersion_recorded ..
  | refuse hstage => exact unitVersion_recorded ..
  | finish hreturned => exact unitVersion_recorded ..
  | fail hreturned => exact unitVersion_recorded ..
  | compiled hscript hreturned => exact (eq_of_graph (graph_setCompiled ..)).2.1
  | _ => rfl

theorem Seated.lt {k : WorkerId} {u : UnitId} {key : String} {stage : Stage L}
    (h : c.Seated crew thread) (hmem : .load k u key stage ∈ c.stack) : u < c.world.units.size := by
  have hload : crew k ∧ c.world.Holds k u key := h.known _ hmem
  obtain ⟨resource, hscript⟩ := (h.workers k hload.1).scripted.script hload.2
  exact hscript.lt

theorem Step.linked {k : WorkerId} (haside : ∀ w w', aside w w' → w.Linked k → w'.Linked k)
    (h : Step (· = k) thread aside c c') (hseat : c.Seated (· = k) thread)
    (hlinked : c.world.Linked k) : c'.world.Linked k := by
  intro p key v hp hv
  rcases h.scripts with hmove | hscripts
  · exact haside _ _ hmove hlinked p key v hp hv
  have hsame {u : UnitId} {key : String} : c'.world.Holds k u key ↔ c.world.Holds k u key := by
    unfold Holds
    rw [hscripts k]
  simp only [hsame] at hp ⊢
  rcases h.records p with hmove | heq | ⟨j, u, key', stage, answer, s, hstack, -, -, heq⟩
  · obtain ⟨key', hv⟩ := haside _ _ hmove hlinked p key v (hsame.2 hp) hv
    exact ⟨key', hsame.1 hv⟩
  · exact hlinked p key v hp (heq ▸ hv)
  · rw [heq] at hv
    rcases List.mem_append.1 hv with hv | hv
    · exact hlinked p key v hp hv
    · rw [List.mem_singleton.1 hv]
      have hload : j = k ∧ c.world.Holds j u key' := hseat.known (.load j u key' stage) (hstack ▸ List.mem_cons_self)
      exact ⟨key', hload.1 ▸ hload.2⟩

theorem Path.linked {k : WorkerId} (hbeside : ∀ w w', aside w w' → w.Beside w')
    (haside : ∀ w w', aside w w' → w.Linked k → w'.Linked k) (h : Path (· = k) thread aside c c')
    (hseat : c.Seated (· = k) thread) (hlinked : c.world.Linked k) : c'.world.Linked k := by
  induction h with
  | refl => exact hlinked
  | tail hpath hstep ih => exact hstep.linked haside (Path.seated hbeside hpath hseat) ih

theorem Step.grows {k : WorkerId} (haside : ∀ w w', aside w w' → w.Apart w')
    (h : Step (· = k) thread aside c c') (hseat : c.Seated (· = k) thread) :
    c.world.Grows k c'.world where
  holds u key hu := h.holds (fun _ _ hw => (haside _ _ hw).beside) hu
  versions u key hu := by
    obtain ⟨resource, hscript⟩ := (hseat.workers k rfl).scripted.script hu
    exact h.unitVersion haside hscript.lt
  dependencies p := by
    rcases h.dependencies haside p with heq | ⟨_, _, _, _, _, _, _, _, _, heq⟩
    · exact heq ▸ List.Subset.refl _
    · exact heq ▸ List.subset_append_left ..

/-- What is recorded while the load of a unit is the innermost call leads that unit to no more. -/
theorem Step.leadsTo {k : WorkerId} {u : UnitId} {key : String} {stage : Stage L}
    {s : List (Activity L)} (haside : ∀ w w', aside w w' → w.Apart w')
    (h : Step crew thread aside c c') (hstack : c.stack = .load k u key stage :: s)
    (hlead : c'.world.LeadsTo u p) : c.world.LeadsTo u p := by
  induction hlead with
  | refl => exact .refl
  | @tail q v _ hv ih =>
    rcases h.dependencies haside q with heq | ⟨_, _, _, _, _, _, hstack', -, -, heq⟩
    · exact ih.tail (heq ▸ hv)
    · rw [heq] at hv
      rcases List.mem_append.1 hv with hv | hv
      · exact ih.tail hv
      · rw [hstack] at hstack'
        cases hstack'
        rw [List.mem_singleton.1 hv]
        exact .refl

end Config

namespace Setting

variable {S : Setting L} {k : WorkerId} {names : String → Prop} {thread : ThreadId}

theorem naming_linking (S : Setting L) (k : WorkerId) : Naming S (World.Linking k) where
  beside _ _ h := h.1
  edited w w' h := by
    obtain ⟨storage, -, rfl⟩ := h
    exact ⟨w.beside_storage storage, id⟩
  tried w root candidate := by
    obtain ⟨existence, hw⟩ := tryCandidate_eq w root candidate
    rw [hw]
    exact ⟨(w.still_existence existence).beside, id⟩
  scripted w r resource name :=
    ⟨w.beside_scriptFor r resource name, (apart_scriptFor w r resource name).linked⟩

theorem suits_linking (h : S.interpreter.Scripting (· = k) names Request.LeavesModules) :
    S.Suits (· = k) names thread (World.Linking k) :=
  suits_of_naming h (naming_linking S k) fun _ _ hw => ⟨hw.beside, hw.apart.linked⟩

theorem Operates.linked {start w : World L} {operations : List (List (Moment L))}
    (hS : S.interpreter.Scripting (· = k) names Request.LeavesModules) (hstart : start.Rests (· = k))
    (hlinked : start.Linked k)
    (h : S.Operates (World.Linking k) (Request.CallsOn (· = k) names) start operations w) :
    w.Rests (· = k) ∧ w.Linked k := by
  refine h.induct (P := fun w => w.Rests (· = k) ∧ w.Linked k) ⟨hstart, hlinked⟩
    (fun _ _ hw hmove => ⟨hw.1.beside hmove.1, hmove.2 hw.2⟩)
    fun w w' thread depth request o t hw hasks hrun => ?_
  have hsuits : S.Suits (· = k) names thread (World.Linking k) := suits_linking hS
  have hpath := path_operation hsuits hw.1 hasks hrun
  exact ⟨rests_operation hsuits hw.1 hasks hrun,
    hpath.linked hsuits.beside (fun _ _ h => h.2) hw.1.sound.seated hw.2⟩

end Setting

end ScriptWorker
