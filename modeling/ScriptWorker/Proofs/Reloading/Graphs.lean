import ScriptWorker.Proofs.Reloading.Histories

/-!
# Imports that follow a graph

Where every version of a script imports the same keys, units come to depend on what a fixed graph says. Once
all to which a unit leads depends on all that the graph says, the unit will never lead to anything else, and
a checksum that is taken then stays right as long as the versions do.
-/

namespace ScriptWorker

open Relation World

variable {L : Language}

/-- Scripts import what a graph of keys says: while a body runs nothing else is loaded, and when a body has
come back its module has obtained a module for every key. -/
structure Follows (graph : String → String → Prop) (k : WorkerId) (t : List (Moment L)) : Prop where
  only : ∀ frames u key key' x, ⟨frames, .entered (.load k u key'), x⟩ ∈ t →
    (Frame.keys k frames).head? = some key → graph key key'
  all : ∀ before frames code env value x after,
    t = before ++ ⟨frames, .left (.call (.execute code k env)) (.done (.ok value)), x⟩ :: after →
      ∀ u key y, Ran before k u key env code y →
        ∀ key', graph key key' → ∃ found, Binds before k env key' found

theorem Follows.of_append {graph : String → String → Prop} {k : WorkerId} {t t' : List (Moment L)}
    (h : Follows graph k (t ++ t')) : Follows graph k t where
  only frames u key key' x hmem := h.only frames u key key' x (List.mem_append_left _ hmem)
  all before frames code env value x after heq :=
    h.all before frames code env value x (after ++ t') (by rw [heq]; simp)

def Moment.imported? (k : WorkerId) : Moment L → Option (String × String)
  | ⟨frames, .entered (.load j _ key'), _⟩ =>
    if j = k then (Frame.keys k frames).head?.map (·, key') else none
  | _ => none

def Moment.begun? (k : WorkerId) : Moment L → Option (String × EnvironmentId)
  | ⟨.load j _ key :: _, .entered (.call (.execute _ i env)), _⟩ =>
    if j = k ∧ i = k then some (key, env) else none
  | _ => none

def Moment.filled? (k : WorkerId) : Moment L → Option EnvironmentId
  | ⟨_, .left (.call (.execute _ j env)) (.done (.ok _)), _⟩ => if j = k then some env else none
  | _ => none

def follows (k : WorkerId) (pairs : List (String × String)) (t : List (Moment L)) : Bool :=
  (t.filterMap (Moment.imported? k)).all (· ∈ pairs) && (List.range t.length).all fun i =>
    (t[i]?.bind (Moment.filled? k)).all fun env => ((t.take i).filterMap (Moment.begun? k)).all fun b =>
      b.2 != env || pairs.all fun p => p.1 != b.1 ||
        ((t.take i).filterMap (Moment.binding? k)).any fun x => x.1 = env && x.2.1 = p.2

theorem follows_of_check {k : WorkerId} {pairs : List (String × String)} {t : List (Moment L)}
    (h : follows k pairs t = true) : Follows (fun key key' => (key, key') ∈ pairs) k t := by
  obtain ⟨honly, hall⟩ := Bool.and_eq_true_iff.1 h
  constructor
  case only =>
    intro frames u key key' x hmem hhead
    refine of_decide_eq_true (List.all_eq_true.1 honly _ (List.mem_filterMap.2 ⟨_, hmem, ?_⟩))
    simp [Moment.imported?, hhead]
  case all =>
    rintro before frames code env value x after rfl u key y ⟨frames', hbegan⟩ key' hgraph
    have hindex := List.all_eq_true.1 hall before.length (List.mem_range.2 (by simp))
    have hfilled : Moment.filled? k (⟨frames, .left (.call (.execute code k env)) (.done (.ok value)), x⟩ :
        Moment L) = some env := if_pos rfl
    simp only [List.getElem?_append_right (Nat.le_refl _), Nat.sub_self, List.getElem?_cons_zero,
      Option.bind_some, hfilled, Option.all_some, List.take_left] at hindex
    have hbegun := List.all_eq_true.1 hindex (key, env)
      (List.mem_filterMap.2 ⟨_, hbegan, if_pos ⟨rfl, rfl⟩⟩)
    simp only [bne_self_eq_false, Bool.false_or] at hbegun
    have himports := List.all_eq_true.1 hbegun (key, key') hgraph
    simp only [bne_self_eq_false, Bool.false_or] at himports
    obtain ⟨⟨env', key'', found⟩, hmem, hsame⟩ := List.any_eq_true.1 himports
    simp only [Bool.and_eq_true, decide_eq_true_eq] at hsame
    obtain ⟨rfl, rfl⟩ := hsame
    exact ⟨found, binds_iff.2 hmem⟩

theorem acyclic_of_lt {graph : String → String → Prop} (h : ∀ key key', graph key key' → key < key')
    (key : String) : ¬ TransGen graph key key := by
  intro hcircle
  have hlt : ∀ key', TransGen graph key key' → key < key' := by
    intro key' hpath
    induction hpath with
    | single hedge => exact h _ _ hedge
    | tail _ hedge ih => exact String.lt_trans ih (h _ _ hedge)
  exact String.lt_irrefl key (hlt key hcircle)

namespace World

variable {graph : String → String → Prop} {k : WorkerId} {u v : UnitId} {key : String} {w w' : World L}

def Within (w : World L) (graph : String → String → Prop) (k : WorkerId) : Prop :=
  ∀ p key v key', w.Holds k p key → v ∈ w.dependencies p → w.Holds k v key' → graph key key'

/-- All to which a unit leads depends on all that a graph of keys says. -/
def Complete (w : World L) (graph : String → String → Prop) (k : WorkerId) (u : UnitId) : Prop :=
  ∀ v key key', w.LeadsTo u v → w.Holds k v key → graph key key' →
    ∃ p ∈ w.dependencies v, w.Holds k p key'

/-- What is complete leads to the same units ever after. -/
theorem Complete.leadsTo (h : w.Complete graph k u) (hlater : w.Precedes k w') (hlinked' : w'.Linked k)
    (hwithin : w'.Within graph k) (hu : w.Holds k u key) (hlead : w'.LeadsTo u v) : w.LeadsTo u v := by
  induction hlead with
  | refl => exact .refl
  | @tail q v _ hv ih =>
    obtain ⟨qkey, hq⟩ := ih.holds hlater.linked hu
    have hq' := hlater.holds q qkey hq
    obtain ⟨vkey, hv'⟩ := hlinked' q qkey v hq' hv
    obtain ⟨p, hp, hheld⟩ := h q qkey vkey ih hq (hwithin q qkey v vkey hq' hv hv')
    obtain rfl := (hlater.holds p vkey hheld).unique hv'
    exact ih.tail hp

theorem LeadsTo.mono (hlead : w.LeadsTo u v) (hdependencies : ∀ p, w.dependencies p ⊆ w'.dependencies p) :
    w'.LeadsTo u v :=
  ReflTransGen.mono (fun p _ hv => hdependencies p hv) _ _ hlead

theorem Complete.later (h : w.Complete graph k u) (hlater : w.Precedes k w')
    (hdependencies : ∀ p, w.dependencies p ⊆ w'.dependencies p) (hscripted' : w'.Scripted k)
    (hlinked' : w'.Linked k) (hwithin : w'.Within graph k) (hu : w.Holds k u key) :
    w'.Complete graph k u := by
  intro v vkey key' hlead hv hgraph
  have hbefore := h.leadsTo hlater hlinked' hwithin hu hlead
  obtain ⟨vkey', hheld⟩ := hbefore.holds hlater.linked hu
  obtain rfl : vkey' = vkey :=
    ((hlater.holds v vkey' hheld).unitKey hscripted').symm.trans (hv.unitKey hscripted')
  obtain ⟨p, hp, hkey⟩ := h v vkey' key' hbefore hheld hgraph
  exact ⟨p, hdependencies v hp, hlater.holds p key' hkey⟩

/-- A checksum stays right as long as the versions of what it covers stay. -/
theorem Complete.unitChecksum_eq (h : w.Complete graph k u) (hlater : w.Precedes k w')
    (hdependencies : ∀ p, w.dependencies p ⊆ w'.dependencies p) (hscripted' : w'.Scripted k)
    (hlinked' : w'.Linked k) (hwithin : w'.Within graph k) (hu : w.Holds k u key)
    (hversions : ∀ v, w.LeadsTo u v → w'.unitVersion v = w.unitVersion v) :
    w'.unitChecksum u = w.unitChecksum u :=
  unitChecksum_congr hlater.scripted hlater.linked hscripted' hlinked' hu hlater.holds
    (fun _ => ⟨fun hlead => hlead.mono hdependencies, h.leadsTo hlater hlinked' hwithin hu⟩)
    fun v _ hlead _ => hversions v hlead

theorem Abreast.complete (habreast : w.Abreast k w') (hlater : w.Precedes k w')
    (hscripted' : w'.Scripted k) (h : w'.Complete graph k u) : w.Complete graph k u := by
  intro v vkey key' hlead hv hgraph
  obtain ⟨p, hp, hkey⟩ := h v vkey key' (habreast.leadsTo_iff.2 hlead) (hlater.holds v vkey hv) hgraph
  rw [habreast.dependencies] at hp
  obtain ⟨pkey, hheld⟩ := hlater.linked v vkey p hv hp
  obtain rfl : pkey = key' :=
    ((hlater.holds p pkey hheld).unitKey hscripted').symm.trans (hkey.unitKey hscripted')
  exact ⟨p, hp, hheld⟩

end World

namespace Activity

variable {graph : String → String → Prop} {k : WorkerId} {u p : UnitId} {key key' : String}
  {stage : Stage L} {s : List (Activity L)}

/-- Every load was made for the innermost one below it that is in progress, as the graph says. -/
def Descends (graph : String → String → Prop) (k : WorkerId) : List (Activity L) → Prop
  | [] => True
  | load j _ key _ :: rest =>
    (j = k → ∀ key', (progress k rest).head? = some key' → graph key' key) ∧ Descends graph k rest
  | invoke .. :: rest => Descends graph k rest
  | call _ :: rest => Descends graph k rest

theorem Descends.below (h : Descends graph k (load k u key stage :: s)) (hkey : key' ∈ progress k s) :
    TransGen graph key' key := by
  -- the innermost load in progress is the next one, and the others are below it
  have hall : ∀ s : List (Activity L), Descends graph k s → ∀ key₁, (progress k s).head? = some key₁ →
      ∀ key' ∈ progress k s, ReflTransGen graph key' key₁ := by
    intro s
    induction s with
    | nil => exact fun _ _ _ _ h => nomatch h
    | cons a rest ih =>
      intro hs key₁ hhead key' hmem
      cases a with
      | load j v key₂ stage' =>
        unfold progress at hhead hmem
        split at hhead
        · next hj =>
          rw [if_pos hj] at hmem
          obtain rfl : key₂ = key₁ := Option.some.inj hhead
          rcases List.mem_cons.1 hmem with rfl | hmem
          · exact .refl
          · cases hprogress : progress k rest with
            | nil => simp [hprogress] at hmem
            | cons key₃ others =>
              have hhead₃ : (progress k rest).head? = some key₃ := by rw [hprogress]; rfl
              exact (ih hs.2 key₃ hhead₃ key' hmem).tail (hs.1 hj.1 key₃ hhead₃)
        · next hj =>
          rw [if_neg hj] at hmem
          exact ih hs.2 key₁ hhead key' hmem
      | invoke j progression => exact ih hs key₁ hhead key' hmem
      | call callee => exact ih hs key₁ hhead key' hmem
  obtain ⟨key₁, hhead⟩ : ∃ key₁, (progress k s).head? = some key₁ := by
    cases hprogress : progress k s with
    | nil => simp [hprogress] at hkey
    | cons key₁ others => exact ⟨key₁, rfl⟩
  exact .tail' (hall s h.2 key₁ hhead key' hkey) (h.1 rfl key₁ hhead)

theorem exists_of_script (h : script k s = some p) :
    ∃ key stage, load k p key stage ∈ s ∧ (progress k s).head? = some key := by
  induction s with
  | nil => cases h
  | cons a rest ih =>
    have hrest (h : script k rest = some p) : ∃ key stage, load k p key stage ∈ a :: rest ∧
        (progress k rest).head? = some key := by
      obtain ⟨key, stage, hmem, hhead⟩ := ih h
      exact ⟨key, stage, List.mem_cons_of_mem a hmem, hhead⟩
    cases a with
    | load j v key stage =>
      unfold script at h
      split at h
      · next hj =>
        obtain ⟨rfl, hinside⟩ := hj
        cases h
        exact ⟨key, stage, List.mem_cons_self, by rw [progress_load_inside hinside]; rfl⟩
      · next hj =>
        obtain ⟨key', stage', hmem, hhead⟩ := hrest h
        refine ⟨key', stage', hmem, ?_⟩
        unfold progress
        rwa [if_neg hj]
    | invoke j progression => exact hrest h
    | call callee => exact hrest h

end Activity

namespace Config

section Steps

variable {graph : String → String → Prop} {thread : ThreadId} {aside : World L → World L → Prop}
  {c c' : Config L} {k : WorkerId} {T : List (Moment L)}

theorem Step.descends (h : Step (· = k) thread aside c c') (hn : c.Nested)
    (hfollows : Follows graph k (T ++ c'.history)) (hdescends : Activity.Descends graph k c.stack) :
    Activity.Descends graph k c'.stack := by
  have hshaped := hn.shaped
  cases h with
  | @arrive s H w j u key hk hload hholds =>
    refine ⟨fun hj key' hhead => ?_, hdescends⟩
    subst hj
    refine hfollows.only (Activity.frames s) u key' key w
      (List.mem_append_right _ (List.mem_append_right _ (List.mem_singleton_self _))) ?_
    rw [Activity.keys_frames fun i v key₁ stage hmem => ?_]
    · exact hhead
    · obtain ⟨_, _, _, rfl⟩ := Activity.filling_of_mayLoad hshaped hload hmem
      rfl
  | aside h => exact hdescends
  | leave => exact hdescends.2
  | comeBack => exact hdescends
  | leaveInvoke => exact hdescends
  | compile hscript => exact hdescends
  | call => exact hdescends
  | execute => exact hdescends
  | arriveInvoke hk hcall => exact hdescends
  | enterInvoke => exact hdescends
  | settleInvoke => exact hdescends
  | _ => exact ⟨hdescends.1, hdescends.2⟩

theorem Step.within (haside : ∀ w w', aside w w' → w.Apart w') (h : Step (· = k) thread aside c c')
    (hc : c.Regular thread k) (hdescends : Activity.Descends graph k c.stack)
    (hwithin : c.world.Within graph k) : c'.world.Within graph k := by
  have hbeside : ∀ w w', aside w w' → w.Beside w' := fun _ _ h => (haside _ _ h).beside
  have hseat := hc.sound.seated
  have hscripted' := ((h.seated hbeside hseat).workers k rfl).scripted
  -- what a unit already depends on was there
  have hold {p key v key'} (hp : c.world.Holds k p key) (hv : v ∈ c.world.dependencies p)
      (hv' : c'.world.Holds k v key') : graph key key' := by
    obtain ⟨vkey, hheld⟩ := hc.linked p key v hp hv
    obtain rfl : vkey = key' := ((h.holds hbeside hheld).unitKey hscripted').symm.trans (hv'.unitKey hscripted')
    exact hwithin p key v vkey hp hv hheld
  have hknown {p key v} (hp : c'.world.Holds k p key) (hv : v ∈ c.world.dependencies p) :
      c.world.Holds k p key := by
    rcases h.scripts with hmove | hsame
    · exact ((haside _ _ hmove).known k p key hp).elim id fun hnew =>
        (Nat.not_lt.2 hnew (lt_of_mem_dependencies hv)).elim
    · unfold Holds at hp ⊢
      rwa [hsame] at hp
  intro p key v key' hp hv hv'
  rcases h.dependencies haside p with heq | ⟨j, u, ukey, stage, answer, s, hstack, -, hscript, heq⟩
  · rw [heq] at hv
    exact hold (hknown hp hv) hv hv'
  · have htop : .load j u ukey stage ∈ c.stack := hstack ▸ List.mem_cons_self
    obtain rfl := hseat.crew_of_mem htop
    obtain ⟨pkey, pstage, hmem, hhead⟩ := Activity.exists_of_script hscript
    have hparent : j = j ∧ c.world.Holds j p pkey :=
      hseat.known (.load j p pkey pstage) (hstack ▸ List.mem_cons_of_mem _ hmem)
    have hload : j = j ∧ c.world.Holds j u ukey := hseat.known _ htop
    obtain rfl : pkey = key :=
      ((h.holds hbeside hparent.2).unitKey hscripted').symm.trans (hp.unitKey hscripted')
    rw [heq] at hv
    rcases List.mem_append.1 hv with hv | hv
    · exact hold hparent.2 hv hv'
    · rw [List.mem_singleton.1 hv] at hv'
      obtain rfl : ukey = key' :=
        ((h.holds hbeside hload.2).unitKey hscripted').symm.trans (hv'.unitKey hscripted')
      rw [hstack] at hdescends
      exact hdescends.1 rfl pkey hhead

end Steps

end Config

end ScriptWorker
