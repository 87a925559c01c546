import ScriptWorker.Proofs.Reloading.Closures

/-!
# What a call may come to

While a call is under way on a worker that reloads, a load answers with a module that the call has
checked, that it fills, or that it has found stored and fresh. Nothing else can come out of it.
-/

namespace ScriptWorker

open Relation World

variable {L : Language}

namespace Config

/-- A call that is under way may answer a load of a key with a module, or has done so. -/
def Offers (c : Config L) (k : WorkerId) (key : String) (env : EnvironmentId) : Prop :=
  (c.world.worker k).cache.peek key = some env ∧ 0 < Activity.depth k c.stack ∨
  (∃ u stage, .load k u key stage ∈ c.stack ∧ stage.Gives env) ∨
  ∃ u, Loaded c.history k u key env

section Steps

variable {thread : ThreadId} {aside : World L → World L → Prop} {c c' : Config L} {k : WorkerId}
  {u : UnitId} {key : String} {env : EnvironmentId} {s : List (Activity L)}

theorem Seated.viewed (hseat : c.Seated (· = k) thread)
    (hreload : (c.world.worker k).config.reloading = true)
    (hpeek : ((c.world.worker k).entered thread).cache.peek key = some env) : c.Offers k key env :=
  .inl (hseat.of_peek_entered rfl hreload hpeek)

/-- A load gives what it gave before, what it has just found checked, or what is offered anew. -/
theorem Step.gives (h : Step (· = k) thread aside c c') {stage : Stage L}
    (hmem : .load k u key stage ∈ c'.stack) (hgives : stage.Gives env) :
    (∃ u stage, .load k u key stage ∈ c.stack ∧ stage.Gives env) ∨
      ((c.world.worker k).entered thread).cache.peek key = some env ∨ Admits c c' k key env := by
  cases h
  case hit s H w j u' key' found hpeek =>
    rcases List.mem_cons.1 hmem with heq | hmem
    · cases heq
      rcases hgives with h | h
      · cases h
      · cases h
        exact .inr (.inl hpeek)
    · exact .inl ⟨u, stage, List.mem_cons_of_mem _ hmem, hgives⟩
  case reuse s H w j u' key' found hget hfresh =>
    rcases List.mem_cons.1 hmem with heq | hmem
    · cases heq
      rcases hgives with h | h
      · cases h
      · cases h
        exact .inr (.inr (.reused rfl hget hfresh rfl))
    · exact .inl ⟨u, stage, List.mem_cons_of_mem _ hmem, hgives⟩
  case fill s H w j u' key' resource code time hscript hcompiled =>
    rcases List.mem_cons.1 hmem with heq | hmem
    · cases heq
      rcases hgives with h | h
      · cases h
        exact .inr (.inr (.registered rfl rfl rfl))
      · cases h
    · exact .inl ⟨u, stage, List.mem_cons_of_mem _ hmem, hgives⟩
  all_goals
    left
    grind [Stage.Gives, Stage.module?]

theorem Step.offers (haside : ∀ w w', aside w w' → w.Beside w') (h : Step (· = k) thread aside c c')
    (hseat : c.Seated (· = k) thread) (hreload : (c.world.worker k).config.reloading = true)
    (hoffers : c'.Offers k key env) : c.Offers k key env ∨ Admits c c' k key env := by
  rcases hoffers with ⟨hpeek, hdepth⟩ | ⟨u, stage, hmem, hgives⟩ | ⟨u, frames, x, hmem⟩
  · exact (h.peek haside hseat hreload hpeek hdepth).imp_left .inl
  · rcases h.gives hmem hgives with hbefore | hpeek | hadmits
    · exact .inl (.inr (.inl hbefore))
    · exact .inl (hseat.viewed hreload hpeek)
    · exact .inr hadmits
  · left
    rcases h.history with hsame | ⟨m, hadded⟩
    · exact .inr (.inr ⟨u, frames, x, hsame ▸ hmem⟩)
    · rw [hadded] at hmem
      rcases List.mem_append.1 hmem with hmem | hmem
      · exact .inr (.inr ⟨u, frames, x, hmem⟩)
      · cases List.mem_singleton.1 hmem
        obtain ⟨hstack, -⟩ := h.of_left_load hadded
        exact .inr (.inl ⟨u, _, hstack ▸ List.mem_cons_self, .inr rfl⟩)

end Steps

end Config

end ScriptWorker
