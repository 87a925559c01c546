import Mathlib.Algebra.BigOperators.Group.Finset.Basic
import Mathlib.Algebra.GroupWithZero.Nat
import Mathlib.Logic.Relation
import ScriptWorker.Proofs.Checksums

/-!
# Checksums over the reachable set

The loop behind a checksum takes one pending place a round, and has none left after at most as many
rounds as there are nodes and dependencies. As long as nodes of one key agree, what it has added up
then is one hash for each key that the root reaches, its own with the version that was given for it.
-/

namespace ScriptWorker.DependencyGraph

open Relation

variable {κ : Type} {graph graph' : DependencyGraph κ} {key k : κ} {dependencies dependencies' : List Nat}
  {version : κ → UInt64} {rootVersion : UInt64}

def Reachable (graph : DependencyGraph κ) (dependencies : List Nat) (place : Nat) : Prop :=
  ∃ d ∈ dependencies,
    ReflTransGen (fun p d => ∃ node, graph[p]? = some node ∧ d ∈ node.dependencies) d place

/-- Some node with a key can be reached from some dependencies. -/
def ReachableKey (graph : DependencyGraph κ) (dependencies : List Nat) (key : κ) : Prop :=
  ∃ place node, graph.Reachable dependencies place ∧ graph[place]? = some node ∧ node.key = key

def keysAt (graph : DependencyGraph κ) (places : List Nat) : List κ :=
  places.filterMap fun place => graph[place]?.map DependencyNode.key

/-- Nodes with equal keys agree on their versions and on what they depend on, and those with the key of a
root agree with it on what it depends on. -/
structure Coherent (graph : DependencyGraph κ) (version : κ → UInt64) (key : κ) (first : List Nat) :
    Prop where
  version : ∀ place node, graph.Reachable first place → graph[place]? = some node →
    node.version = version node.key
  dependencies : ∀ p q m n, graph.Reachable first p → graph.Reachable first q →
    graph[p]? = some m → graph[q]? = some n → m.key = n.key →
    graph.keysAt m.dependencies ⊆ graph.keysAt n.dependencies
  root : ∀ place node, graph.Reachable first place → graph[place]? = some node → node.key = key →
    graph.keysAt node.dependencies ⊆ graph.keysAt first

theorem mem_keysAt {places : List Nat} :
    k ∈ graph.keysAt places ↔ ∃ place ∈ places, ∃ node, graph[place]? = some node ∧ node.key = k := by
  simp only [keysAt, List.mem_filterMap, Option.map_eq_some_iff]

section Reachability

variable {place d : Nat} {node : DependencyNode κ}

theorem Reachable.of_mem (h : d ∈ dependencies) : graph.Reachable dependencies d := ⟨d, h, .refl⟩

theorem Reachable.step (h : graph.Reachable dependencies place) (hnode : graph[place]? = some node)
    (hd : d ∈ node.dependencies) : graph.Reachable dependencies d := by
  obtain ⟨first, hfirst, hpath⟩ := h
  exact ⟨first, hfirst, hpath.tail ⟨node, hnode, hd⟩⟩

theorem Reaches.reachableKey {seen : List κ} (h : Reaches graph seen place k)
    (hplace : graph.Reachable dependencies place) : graph.ReachableKey dependencies k := by
  induction h with
  | here hnode _ => exact ⟨_, _, hplace, hnode, rfl⟩
  | there hnode _ hd _ ih => exact ih (hplace.step hnode hd)

theorem Coherent.agrees (h : Coherent graph version key dependencies) :
    Agrees graph version (graph.Reachable dependencies) where
  closed _ _ hplace hnode _ hd := hplace.step hnode hd
  version := h.version
  dependencies p q m n hp hq hm hn hkeys d hd l hl := by
    have hmem : l.key ∈ graph.keysAt n.dependencies :=
      h.dependencies p q m n hp hq hm hn hkeys (mem_keysAt.2 ⟨d, hd, l, hl, rfl⟩)
    obtain ⟨d', hd', l', hl', hsame⟩ := mem_keysAt.1 hmem
    exact ⟨d', hd', l', hl', hsame.symm⟩

/-- A path to another key need not pass the key of the root: it may begin anew there. -/
theorem Coherent.reaches (h : Coherent graph version key dependencies) (hk : k ≠ key)
    (hnode : graph[place]? = some node) (hkey : node.key = k) {p : Nat}
    (hp : graph.Reachable dependencies p)
    (hpath : ReflTransGen (fun p d => ∃ node, graph[p]? = some node ∧ d ∈ node.dependencies) p place) :
    Reaches graph [key] p k ∨ ∃ first ∈ dependencies, Reaches graph [key] first k := by
  induction hpath using ReflTransGen.head_induction_on with
  | refl =>
    subst hkey
    exact .inl (.here hnode (by simpa using hk))
  | @head p d hstep _ ih =>
    obtain ⟨m, hm, hd⟩ := hstep
    have hreach := hp.step hm hd
    rcases ih hreach with hleads | hanew
    · by_cases hroot : m.key = key
      · obtain ⟨l, hl, -⟩ := hleads.exists_node
        have hmem : l.key ∈ graph.keysAt dependencies :=
          h.root p m hp hm hroot (mem_keysAt.2 ⟨d, hd, l, hl, rfl⟩)
        obtain ⟨first, hfirst, l', hl', hsame⟩ := mem_keysAt.1 hmem
        exact .inr ⟨first, hfirst,
          hleads.congr h.agrees hreach (.of_mem hfirst) hl hl' hsame.symm⟩
      · exact .inl (.there hm (by simpa using hroot) hd hleads)
    · exact .inr hanew

theorem Coherent.reaches_iff (h : Coherent graph version key dependencies) :
    (∃ p ∈ dependencies, Reaches graph [key] p k) ↔ k ≠ key ∧ graph.ReachableKey dependencies k := by
  constructor
  · rintro ⟨p, hp, hreach⟩
    exact ⟨fun heq => hreach.not_seen (heq ▸ List.mem_singleton_self _),
      hreach.reachableKey (.of_mem hp)⟩
  · rintro ⟨hk, place, node, ⟨d, hd, hpath⟩, hnode, hkey⟩
    rcases h.reaches hk hnode hkey (.of_mem hd) hpath with hleads | hanew
    · exact ⟨d, hd, hleads⟩
    · exact hanew

end Reachability

/-! ## The loop -/

/-- How far the loop is: the places that wait, the keys that count already, and their sum. -/
structure Tally (κ : Type) where
  pending : List Nat
  seen : List κ
  sum : UInt64

section Loop

variable [DecidableEq κ] {hash : κ → UInt64 → UInt64}

def Tally.round (hash : κ → UInt64 → UInt64) (graph : DependencyGraph κ) (t : Tally κ) : Tally κ :=
  match t.pending with
  | [] => t
  | place :: rest =>
    match graph[place]? with
    | none => { t with pending := rest }
    | some node =>
      if node.key ∈ t.seen then { t with pending := rest }
      else ⟨node.dependencies.reverse ++ rest, node.key :: t.seen, t.sum + hash node.key node.version⟩

theorem exists_rounds (hash : κ → UInt64 → UInt64) (graph : DependencyGraph κ) (pending : List Nat)
    (seen : List κ) (sum : UInt64) :
    ∃ n ≤ pending.length + unseen graph seen, ∃ seen',
      (Tally.round hash graph)^[n] ⟨pending, seen, sum⟩ = ⟨[], seen', visit hash graph pending seen sum⟩ := by
  fun_induction visit hash graph pending seen sum with
  | case1 seen sum => exact ⟨0, Nat.zero_le _, seen, rfl⟩
  | case2 seen sum place rest hnone ih =>
    obtain ⟨n, hn, seen', hend⟩ := ih
    refine ⟨n + 1, by simp only [List.length_cons]; omega, seen', ?_⟩
    rw [Function.iterate_succ_apply, ← hend]
    simp only [Tally.round, hnone]
  | case3 seen sum place rest node hnode hseen ih =>
    obtain ⟨n, hn, seen', hend⟩ := ih
    refine ⟨n + 1, by simp only [List.length_cons]; omega, seen', ?_⟩
    rw [Function.iterate_succ_apply, ← hend]
    simp only [Tally.round, hnode, hseen, ↓reduceIte]
  | case4 seen sum place rest node hnode hseen ih =>
    rw [List.unattach_reverse, List.unattach_attach] at ih
    obtain ⟨n, hn, seen', hend⟩ := ih
    have hless := unseen_lt graph seen node (List.mem_of_getElem? hnode) hseen
    refine ⟨n + 1, ?_, seen', ?_⟩
    · simp only [List.length_append, List.length_reverse, List.length_cons] at hn ⊢
      omega
    · rw [Function.iterate_succ_apply, ← hend]
      simp only [Tally.round, hnode, hseen, ↓reduceIte]

end Loop

/-! ## The sum -/

theorem toNat_total (hash : κ → UInt64 → UInt64) (entries : List (κ × UInt64)) :
    (total hash entries).toNat = (entries.map fun e => (hash e.1 e.2).toNat).sum % 2 ^ 64 := by
  induction entries with
  | nil => rfl
  | cons e rest ih =>
    change (hash e.1 e.2 + total hash rest).toNat = _
    rw [UInt64.toNat_add, ih, List.map_cons, List.sum_cons, Nat.add_mod_mod]

section Sums

variable [DecidableEq κ]

theorem Coherent.checksum_eq (h : Coherent graph version key dependencies) (hash : κ → UInt64 → UInt64)
    (rootVersion : UInt64) :
    ∃ keys : List κ, keys.Nodup ∧ (∀ k, k ∈ keys ↔ k ≠ key ∧ graph.ReachableKey dependencies k) ∧
      graph.checksum hash key rootVersion dependencies =
        total hash ((key, rootVersion) :: keys.map fun k => (k, version k)) := by
  obtain ⟨keys, hnodup, hkeys, hsum⟩ := checksum_eq_past hash h.agrees key rootVersion fun _ hd => .of_mem hd
  exact ⟨keys, hnodup, fun k => by rw [hkeys, h.reaches_iff], hsum⟩

theorem Coherent.toNat_checksum (h : Coherent graph version key dependencies)
    (hash : κ → UInt64 → UInt64) :
    ∃ keys : Finset κ, (∀ k, k ∈ keys ↔ k ≠ key ∧ graph.ReachableKey dependencies k) ∧
      (graph.checksum hash key rootVersion dependencies).toNat =
        ((hash key rootVersion).toNat + ∑ k ∈ keys, (hash k (version k)).toNat) % 2 ^ 64 := by
  obtain ⟨keys, hnodup, hkeys, hsum⟩ := h.checksum_eq hash rootVersion
  refine ⟨keys.toFinset, fun k => by rw [List.mem_toFinset, hkeys], ?_⟩
  rw [hsum, toNat_total, List.map_cons, List.sum_cons, List.map_map,
    List.sum_toFinset (fun k => (hash k (version k)).toNat) hnodup]
  rfl

end Sums

/-! ## Other orders -/

/-- Two nodes that differ at most in the order of their dependencies and in how often each is named. -/
def Rearranges (m n : DependencyNode κ) : Prop :=
  m.key = n.key ∧ m.version = n.version ∧ ∀ d, d ∈ m.dependencies ↔ d ∈ n.dependencies

theorem Rearranges.symm {m n : DependencyNode κ} (h : Rearranges m n) : Rearranges n m :=
  ⟨h.1.symm, h.2.1.symm, fun d => (h.2.2 d).symm⟩

theorem rearranges_of_subset {m n : DependencyNode κ} (hkey : m.key = n.key)
    (hversion : m.version = n.version) (h : m.dependencies ⊆ n.dependencies)
    (h' : n.dependencies ⊆ m.dependencies) : Rearranges m n :=
  ⟨hkey, hversion, fun _ => ⟨@h _, @h' _⟩⟩

section Rearranged

variable (hgraph : List.Forall₂ Rearranges graph graph')
  (hdependencies : ∀ d, d ∈ dependencies ↔ d ∈ dependencies')

include hgraph

theorem exists_rearranged {place : Nat} {n : DependencyNode κ} (hn : graph'[place]? = some n) :
    ∃ m, graph[place]? = some m ∧ Rearranges m n := by
  obtain ⟨hlt, rfl⟩ := List.getElem?_eq_some_iff.1 hn
  have hlt' : place < graph.length := hgraph.length_eq ▸ hlt
  exact ⟨graph[place], List.getElem?_eq_getElem hlt', hgraph.get hlt' hlt⟩

theorem rearranges_flip : List.Forall₂ Rearranges graph' graph :=
  hgraph.flip.imp fun _ _ h => Rearranges.symm h

theorem keysAt_rearranged {places places' : List Nat} (hplaces : ∀ d, d ∈ places ↔ d ∈ places') :
    k ∈ graph'.keysAt places' → k ∈ graph.keysAt places := by
  rintro hk
  obtain ⟨place, hplace, n, hn, hkey⟩ := mem_keysAt.1 hk
  obtain ⟨m, hm, hsame, -⟩ := exists_rearranged hgraph hn
  exact mem_keysAt.2 ⟨place, (hplaces place).2 hplace, m, hm, hsame.trans hkey⟩

include hdependencies

theorem reachable_rearranged {place : Nat} (h : graph'.Reachable dependencies' place) :
    graph.Reachable dependencies place := by
  obtain ⟨d, hd, hpath⟩ := h
  refine ⟨d, (hdependencies d).2 hd, ReflTransGen.mono (fun p d hstep => ?_) _ _ hpath⟩
  obtain ⟨n, hn, hmem⟩ := hstep
  obtain ⟨m, hm, -, -, hsame⟩ := exists_rearranged hgraph hn
  exact ⟨m, hm, (hsame d).2 hmem⟩

theorem reachableKey_rearranged (h : graph'.ReachableKey dependencies' k) :
    graph.ReachableKey dependencies k := by
  obtain ⟨place, n, hplace, hn, hkey⟩ := h
  obtain ⟨m, hm, hsame, -⟩ := exists_rearranged hgraph hn
  exact ⟨place, m, reachable_rearranged hgraph hdependencies hplace, hm, hsame.trans hkey⟩

theorem Coherent.rearranged (h : Coherent graph version key dependencies) :
    Coherent graph' version key dependencies' where
  version place n hplace hn := by
    obtain ⟨m, hm, hkey, hversion, -⟩ := exists_rearranged hgraph hn
    rw [← hkey, ← hversion]
    exact h.version place m (reachable_rearranged hgraph hdependencies hplace) hm
  dependencies p q n n' hp hq hn hn' hkeys k hk := by
    obtain ⟨m, hm, hkey, -, hsame⟩ := exists_rearranged hgraph hn
    obtain ⟨m', hm', hkey', -, hsame'⟩ := exists_rearranged hgraph hn'
    have hmem := h.dependencies p q m m' (reachable_rearranged hgraph hdependencies hp)
      (reachable_rearranged hgraph hdependencies hq) hm hm' (hkey.trans (hkeys.trans hkey'.symm))
      (keysAt_rearranged hgraph hsame hk)
    exact keysAt_rearranged (rearranges_flip hgraph) (fun d => (hsame' d).symm) hmem
  root place n hplace hn hkey k hk := by
    obtain ⟨m, hm, hkey', -, hsame⟩ := exists_rearranged hgraph hn
    have hmem := h.root place m (reachable_rearranged hgraph hdependencies hplace) hm
      (hkey'.trans hkey) (keysAt_rearranged hgraph hsame hk)
    exact keysAt_rearranged (rearranges_flip hgraph) (fun d => (hdependencies d).symm) hmem

theorem Coherent.checksum_rearranged [DecidableEq κ] (h : Coherent graph version key dependencies)
    (hash : κ → UInt64 → UInt64) : graph'.checksum hash key rootVersion dependencies' =
      graph.checksum hash key rootVersion dependencies := by
  obtain ⟨keys, hnodup, hkeys, hsum⟩ := h.checksum_eq hash rootVersion
  obtain ⟨keys', hnodup', hkeys', hsum'⟩ :=
    (h.rearranged hgraph hdependencies).checksum_eq hash rootVersion
  have hperm : keys'.Perm keys := (List.perm_ext_iff_of_nodup hnodup' hnodup).2 fun k => by
    rw [hkeys, hkeys']
    exact and_congr_right fun _ => ⟨reachableKey_rearranged hgraph hdependencies,
      reachableKey_rearranged (rearranges_flip hgraph) fun d => (hdependencies d).symm⟩
  rw [hsum, hsum']
  exact total_perm ((hperm.map _).cons _)

end Rearranged

/-- The loop behind a checksum ends, whatever the graph. Where nodes of one key agree, the checksum is modulo
`2 ^ 64` the sum of the hashes of the keys that the root reaches, its own counted once and with the version
given for it; and it stays what it is when dependencies are put in another order or named again. -/
theorem checksum_sums_reachable [DecidableEq κ] (hash : κ → UInt64 → UInt64) (graph : DependencyGraph κ)
    (key : κ) (rootVersion : UInt64) (dependencies : List Nat) :
    (∃ n ≤ dependencies.length + graph.unseen [key], ∃ seen,
      (Tally.round hash graph)^[n] ⟨dependencies.reverse, [key], hash key rootVersion⟩ =
        ⟨[], seen, graph.checksum hash key rootVersion dependencies⟩) ∧
    ∀ version, Coherent graph version key dependencies →
      (∃ keys : Finset κ, (∀ k, k ∈ keys ↔ k ≠ key ∧ graph.ReachableKey dependencies k) ∧
        (graph.checksum hash key rootVersion dependencies).toNat =
          ((hash key rootVersion).toNat + ∑ k ∈ keys, (hash k (version k)).toNat) % 2 ^ 64) ∧
      ∀ (graph' : DependencyGraph κ) (dependencies' : List Nat), List.Forall₂ Rearranges graph graph' →
        (∀ d, d ∈ dependencies ↔ d ∈ dependencies') →
        graph'.checksum hash key rootVersion dependencies' =
          graph.checksum hash key rootVersion dependencies := by
  refine ⟨?_, fun version h => ⟨h.toNat_checksum hash, fun graph' dependencies' hgraph hdependencies =>
    h.checksum_rearranged hgraph hdependencies hash⟩⟩
  have hend := exists_rounds hash graph dependencies.reverse [key] (hash key rootVersion)
  rwa [List.length_reverse] at hend

theorem coherent_of_forall (hversion : ∀ n ∈ graph, n.version = version n.key)
    (hdependencies : ∀ m ∈ graph, ∀ n ∈ graph, m.key = n.key →
      graph.keysAt m.dependencies ⊆ graph.keysAt n.dependencies)
    (hroot : ∀ n ∈ graph, n.key = key → graph.keysAt n.dependencies ⊆ graph.keysAt dependencies) :
    Coherent graph version key dependencies where
  version _ node _ hnode := hversion node (List.mem_of_getElem? hnode)
  dependencies _ _ m n _ _ hm hn := hdependencies m (List.mem_of_getElem? hm) n (List.mem_of_getElem? hn)
  root _ node _ hnode := hroot node (List.mem_of_getElem? hnode)

/-- A unit that reaches itself, with circles, a diamond, two units of one key and dependencies named twice. -/
def tangle : DependencyGraph String :=
  [⟨"a", 5, [2, 1]⟩, ⟨"b", 2, [3, 1, 0, 3]⟩, ⟨"c", 3, [0, 3, 4]⟩, ⟨"d", 4, []⟩, ⟨"b", 2, [4, 0, 3]⟩]

def untangled : DependencyGraph String :=
  [⟨"a", 5, [1, 2]⟩, ⟨"b", 2, [0, 1, 3]⟩, ⟨"c", 3, [0, 4, 3]⟩, ⟨"d", 4, []⟩, ⟨"b", 2, [0, 3, 4]⟩]

def tangleVersion (key : String) : UInt64 :=
  if key = "a" then 5 else if key = "b" then 2 else if key = "c" then 3 else 4

/-- The root counts with the version given for it, though it reaches itself with another one. -/
theorem tangle_checksum_sums :
    Coherent tangle tangleVersion "a" [1, 2, 1] ∧
    (tangle.checksum entryHash "a" 7 [1, 2, 1]).toNat =
      ((entryHash "a" 7).toNat + ((entryHash "b" 2).toNat +
        ((entryHash "c" 3).toNat + (entryHash "d" 4).toNat))) % 2 ^ 64 ∧
    untangled.checksum entryHash "a" 7 [2, 1] = tangle.checksum entryHash "a" 7 [1, 2, 1] := by
  have hcoherent : Coherent tangle tangleVersion "a" [1, 2, 1] :=
    coherent_of_forall (by decide) (by decide) (by decide)
  obtain ⟨-, hsums⟩ := checksum_sums_reachable entryHash tangle "a" 7 [1, 2, 1]
  obtain ⟨⟨keys, hkeys, hsum⟩, hrearranged⟩ := hsums tangleVersion hcoherent
  have hb : tangle.ReachableKey [1, 2, 1] "b" := ⟨1, _, .of_mem (by decide), rfl, rfl⟩
  have hc : tangle.ReachableKey [1, 2, 1] "c" := ⟨2, _, .of_mem (by decide), rfl, rfl⟩
  have hd : tangle.ReachableKey [1, 2, 1] "d" := by
    have htwo : tangle.Reachable [1, 2, 1] 2 := .of_mem (by decide)
    exact ⟨3, _, htwo.step rfl (by decide), rfl, rfl⟩
  have hall : keys = {"b", "c", "d"} := by
    ext k
    simp only [hkeys, Finset.mem_insert, Finset.mem_singleton]
    constructor
    · rintro ⟨hk, place, node, -, hnode, rfl⟩
      have hnodes : ∀ n ∈ tangle, n.key ≠ "a" → n.key = "b" ∨ n.key = "c" ∨ n.key = "d" := by decide
      exact hnodes node (List.mem_of_getElem? hnode) hk
    · rintro (rfl | rfl | rfl)
      · exact ⟨by decide, hb⟩
      · exact ⟨by decide, hc⟩
      · exact ⟨by decide, hd⟩
  refine ⟨hcoherent, ?_, hrearranged untangled [2, 1] ?_ fun d => by simp [or_comm]⟩
  · rw [hsum, hall, Finset.sum_insert (by decide), Finset.sum_insert (by decide), Finset.sum_singleton]
    rfl
  · refine .cons ?_ (.cons ?_ (.cons ?_ (.cons ?_ (.cons ?_ .nil))))
    all_goals exact rearranges_of_subset rfl rfl (by decide) (by decide)

end ScriptWorker.DependencyGraph
