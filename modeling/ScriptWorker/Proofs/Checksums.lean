import Mathlib.Data.List.Perm.Basic
import ScriptWorker.Checksum

/-!
# Checksums as sums over what is reached

A visit adds the hashes of the nodes that are reached without passing a key that was seen. So a checksum
is the sum over the keys that its root leads to, as long as nodes of one key agree.
-/

namespace ScriptWorker.DependencyGraph

variable {κ : Type}

/-- What the hashes of some keys with their versions add up to. -/
def total (hash : κ → UInt64 → UInt64) (entries : List (κ × UInt64)) : UInt64 :=
  entries.foldr (fun entry sum => hash entry.1 entry.2 + sum) 0

theorem total_perm {hash : κ → UInt64 → UInt64} {l l' : List (κ × UInt64)} (h : l.Perm l') :
    total hash l = total hash l' := by
  induction h with
  | nil => rfl
  | cons entry _ ih => exact congrArg (hash entry.1 entry.2 + ·) ih
  | swap a b l =>
    show _ + (_ + _) = _ + (_ + _)
    rw [← UInt64.add_assoc, UInt64.add_comm (hash b.1 b.2), UInt64.add_assoc]
  | trans _ _ ih ih' => exact ih.trans ih'

/-- A place leads to a key past nodes none of which has been seen. -/
inductive Reaches (graph : DependencyGraph κ) (seen : List κ) : Nat → κ → Prop
  | here {place node} : graph[place]? = some node → node.key ∉ seen →
    Reaches graph seen place node.key
  | there {place node d key} : graph[place]? = some node → node.key ∉ seen →
    d ∈ node.dependencies → Reaches graph seen d key → Reaches graph seen place key

/-- Places with all that they lead to, at which nodes of one key agree on their versions and on the keys
of their dependencies. -/
structure Agrees (graph : DependencyGraph κ) (version : κ → UInt64) (P : Nat → Prop) : Prop where
  closed : ∀ place node, P place → graph[place]? = some node → ∀ d ∈ node.dependencies, P d
  version : ∀ place node, P place → graph[place]? = some node → node.version = version node.key
  dependencies : ∀ p q m n, P p → P q → graph[p]? = some m → graph[q]? = some n → m.key = n.key →
    ∀ d ∈ m.dependencies, ∀ l, graph[d]? = some l →
      ∃ d' ∈ n.dependencies, ∃ l', graph[d']? = some l' ∧ l.key = l'.key

section Reaches

variable {graph : DependencyGraph κ} {seen : List κ} {p q d place : Nat} {key : κ}
  {m n node : DependencyNode κ} {version : κ → UInt64} {P : Nat → Prop}

theorem Reaches.not_seen (h : Reaches graph seen p key) : key ∉ seen := by
  induction h with
  | here _ hkey => exact hkey
  | there _ _ _ _ ih => exact ih

theorem Reaches.exists_node (h : Reaches graph seen p key) :
    ∃ node, graph[p]? = some node ∧ node.key ∉ seen := by
  cases h with
  | here hnode hkey => exact ⟨_, hnode, hkey⟩
  | there hnode hkey _ _ => exact ⟨_, hnode, hkey⟩

theorem Reaches.of_cons {k : κ} (h : Reaches graph (k :: seen) p key) : Reaches graph seen p key := by
  induction h with
  | here hnode hkey => exact .here hnode fun hmem => hkey (List.mem_cons_of_mem _ hmem)
  | there hnode hkey hd _ ih => exact .there hnode (fun hmem => hkey (List.mem_cons_of_mem _ hmem)) hd ih

theorem Reaches.congr (hagree : Agrees graph version P) (h : Reaches graph seen p key) (hp : P p)
    (hq : P q) (hm : graph[p]? = some m) (hn : graph[q]? = some n) (hkeys : m.key = n.key) :
    Reaches graph seen q key := by
  induction h generalizing q m n with
  | here hnode hkey =>
    cases hnode.symm.trans hm
    rw [hkeys] at hkey ⊢
    exact .here hn hkey
  | there hnode hkey hd hrest ih =>
    cases hnode.symm.trans hm
    obtain ⟨l, hl, -⟩ := hrest.exists_node
    obtain ⟨d', hd', l', hl', heq⟩ := hagree.dependencies _ _ _ _ hp hq hm hn hkeys _ hd l hl
    exact .there hn (hkeys ▸ hkey) hd' (ih (hagree.closed _ _ hp hm _ hd)
      (hagree.closed _ _ hq hn _ hd') hl hl' heq)

/-- What is reached past some keys is reached past one more, or it is the node of that key or lies behind
it. -/
theorem Reaches.past (hagree : Agrees graph version P) (hplace : P place)
    (hnode : graph[place]? = some node) (h : Reaches graph seen q key) (hq : P q) :
    key = node.key ∨ Reaches graph (node.key :: seen) q key ∨
      ∃ d ∈ node.dependencies, Reaches graph (node.key :: seen) d key := by
  induction h with
  | @here q m hm hkey =>
    by_cases hsame : m.key = node.key
    · exact .inl hsame
    · exact .inr (.inl (.here hm (by simp [hsame, hkey])))
  | @there q m d key hm hkey hd hrest ih =>
    rcases ih (hagree.closed _ _ hq hm _ hd) with heq | hpast | hbehind
    · exact .inl heq
    · by_cases hsame : m.key = node.key
      · obtain ⟨l, hl, -⟩ := hpast.exists_node
        obtain ⟨d', hd', l', hl', heq⟩ :=
          hagree.dependencies _ _ _ _ hq hplace hm hnode hsame _ hd l hl
        exact .inr (.inr ⟨d', hd', hpast.congr hagree (hagree.closed _ _ hq hm _ hd)
          (hagree.closed _ _ hplace hnode _ hd') hl hl' heq⟩)
      · exact .inr (.inl (.there hm (by simp [hsame, hkey]) hd hpast))
    · exact .inr (.inr hbehind)

section Visits

variable [DecidableEq κ]

/-- A visit adds one hash for each key that its pending places lead to past the keys seen. -/
theorem visit_eq (hash : κ → UInt64 → UInt64) (hagree : Agrees graph version P) {pending : List Nat}
    {sum : UInt64} (hpending : ∀ place ∈ pending, P place) :
    ∃ keys : List κ, keys.Nodup ∧ (∀ key, key ∈ keys ↔ ∃ p ∈ pending, Reaches graph seen p key) ∧
      visit hash graph pending seen sum = sum + total hash (keys.map fun key => (key, version key)) := by
  fun_induction visit hash graph pending seen sum with
  | case1 seen sum => exact ⟨[], .nil, by simp, (UInt64.add_zero sum).symm⟩
  | case2 seen sum place rest hnone ih =>
    obtain ⟨keys, hnodup, hkeys, hvisit⟩ := ih fun p hp => hpending p (List.mem_cons_of_mem _ hp)
    refine ⟨keys, hnodup, fun key => ?_, hvisit⟩
    have hnowhere : ¬ Reaches graph seen place key := fun hreach => by
      obtain ⟨node, hnode, -⟩ := hreach.exists_node
      cases hnone.symm.trans hnode
    simp [hkeys, hnowhere]
  | case3 seen sum place rest node hnode hseen ih =>
    obtain ⟨keys, hnodup, hkeys, hvisit⟩ := ih fun p hp => hpending p (List.mem_cons_of_mem _ hp)
    refine ⟨keys, hnodup, fun key => ?_, hvisit⟩
    have hnowhere : ¬ Reaches graph seen place key := fun hreach => by
      obtain ⟨node', hnode', hunseen⟩ := hreach.exists_node
      cases hnode.symm.trans hnode'
      exact hunseen hseen
    simp [hkeys, hnowhere]
  | case4 seen sum place rest node hnode hseen ih =>
    have hplace := hpending place List.mem_cons_self
    rw [List.unattach_reverse, List.unattach_attach] at ih
    obtain ⟨keys, hnodup, hkeys, hvisit⟩ := ih fun p hp => by
      rcases List.mem_append.1 hp with hp | hp
      · exact hagree.closed place node hplace hnode p (List.mem_reverse.1 hp)
      · exact hpending p (List.mem_cons_of_mem _ hp)
    refine ⟨node.key :: keys, List.nodup_cons.2 ⟨fun hmem => ?_, hnodup⟩, fun key => ?_, ?_⟩
    · obtain ⟨p, -, hreach⟩ := (hkeys _).1 hmem
      exact hreach.not_seen List.mem_cons_self
    · rw [List.mem_cons, hkeys]
      constructor
      · rintro (rfl | ⟨p, hp, hreach⟩)
        · exact ⟨place, List.mem_cons_self, .here hnode hseen⟩
        · rcases List.mem_append.1 hp with hp | hp
          · exact ⟨place, List.mem_cons_self,
              .there hnode hseen (List.mem_reverse.1 hp) hreach.of_cons⟩
          · exact ⟨p, List.mem_cons_of_mem _ hp, hreach.of_cons⟩
      · rintro ⟨p, hp, hreach⟩
        rcases hreach.past hagree hplace hnode (hpending p hp) with heq | hpast | ⟨d, hd, hbehind⟩
        · exact .inl heq
        · rcases List.mem_cons.1 hp with rfl | hp
          · obtain ⟨node', hnode', hunseen⟩ := hpast.exists_node
            cases hnode.symm.trans hnode'
            exact (hunseen List.mem_cons_self).elim
          · exact .inr ⟨p, List.mem_append_right _ hp, hpast⟩
        · exact .inr ⟨d, List.mem_append_left _ (List.mem_reverse.2 hd), hbehind⟩
    · rw [hvisit, hagree.version place node hplace hnode, UInt64.add_assoc]
      rfl

/-- A checksum is the hash of its root, with the version given for it, and one hash for each key that the
dependencies lead to past the root. -/
theorem checksum_eq_past (hash : κ → UInt64 → UInt64) (hagree : Agrees graph version P) (root : κ)
    (rootVersion : UInt64) {dependencies : List Nat} (hdependencies : ∀ d ∈ dependencies, P d) :
    ∃ keys : List κ, keys.Nodup ∧ (∀ key, key ∈ keys ↔ ∃ d ∈ dependencies, Reaches graph [root] d key) ∧
      graph.checksum hash root rootVersion dependencies =
        total hash ((root, rootVersion) :: keys.map fun key => (key, version key)) := by
  have hvisit : ∃ keys : List κ, keys.Nodup ∧
      (∀ key, key ∈ keys ↔ ∃ d ∈ dependencies.reverse, Reaches graph [root] d key) ∧
      graph.checksum hash root rootVersion dependencies =
        total hash ((root, rootVersion) :: keys.map fun key => (key, version key)) :=
    visit_eq hash hagree fun d hd => hdependencies d (List.mem_reverse.1 hd)
  simpa only [List.mem_reverse] using hvisit

theorem checksum_eq_visit {hash : κ → UInt64 → UInt64} (hnode : graph[place]? = some node) :
    graph.checksum hash node.key node.version node.dependencies = visit hash graph [place] [] 0 := by
  unfold checksum
  rw [visit]
  split
  · next hnone => cases hnode.symm.trans hnone
  · next node' hnode' =>
    cases hnode.symm.trans hnode'
    simp only [List.not_mem_nil, ↓reduceDIte, UInt64.zero_add, List.append_nil]

theorem checksum_eq (hash : κ → UInt64 → UInt64) (hagree : Agrees graph version P) (hp : P p)
    (hm : graph[p]? = some m) :
    ∃ keys : List κ, keys.Nodup ∧ (∀ key, key ∈ keys ↔ Reaches graph [] p key) ∧
      graph.checksum hash m.key m.version m.dependencies =
        total hash (keys.map fun key => (key, version key)) := by
  have hvisit : ∃ keys : List κ, keys.Nodup ∧ (∀ key, key ∈ keys ↔ ∃ q ∈ [p], Reaches graph [] q key) ∧
      visit hash graph [p] [] 0 = 0 + total hash (keys.map fun key => (key, version key)) :=
    visit_eq hash hagree fun place hplace => List.mem_singleton.1 hplace ▸ hp
  simpa only [List.mem_singleton, exists_eq_left, UInt64.zero_add, ← checksum_eq_visit hm] using hvisit

theorem checksum_congr {graph' : DependencyGraph κ} {version' : κ → UInt64} {P' : Nat → Prop}
    {hash : κ → UInt64 → UInt64} (hagree : Agrees graph version P) (hagree' : Agrees graph' version' P')
    (hp : P p) (hq : P' q) (hm : graph[p]? = some m) (hn : graph'[q]? = some n)
    (hreach : ∀ key, Reaches graph [] p key ↔ Reaches graph' [] q key)
    (hversions : ∀ key, Reaches graph [] p key → version key = version' key) :
    graph.checksum hash m.key m.version m.dependencies =
      graph'.checksum hash n.key n.version n.dependencies := by
  obtain ⟨keys, hnodup, hkeys, hsum⟩ := checksum_eq hash hagree hp hm
  obtain ⟨keys', hnodup', hkeys', hsum'⟩ := checksum_eq hash hagree' hq hn
  have hsame : keys.Perm keys' := (List.perm_ext_iff_of_nodup hnodup hnodup').2 fun key => by
    rw [hkeys, hkeys', hreach]
  have hentries : (keys.map fun key => (key, version key)) = keys.map fun key => (key, version' key) :=
    List.map_congr_left fun key hkey => by rw [hversions key ((hkeys key).1 hkey)]
  rw [hsum, hsum', hentries]
  exact total_perm (hsame.map _)

end Visits

end Reaches

end ScriptWorker.DependencyGraph
