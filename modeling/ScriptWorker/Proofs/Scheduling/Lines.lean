import Mathlib.Data.List.TakeWhile
import ScriptWorker.Proofs.Scheduling.Queues

/-!
# Queues as lines

The top of a heap comes out no later than what is below it. So a delay queue is a line of entries,
those with earlier deadlines ahead and those of one deadline in the order of their pushes: a newcomer
goes behind all that are due no later, and whatever leaves the line leaves the others in their places.
-/

namespace ScriptWorker

open List

namespace SkewHeap

variable {α : Type} {before : α → α → Bool}

def Ordered (before : α → α → Bool) : SkewHeap α → Prop
  | empty => True
  | node left top right => left.Ordered before ∧ right.Ordered before ∧
      ∀ b ∈ left.elements ++ right.elements, before top b

section Ordered

variable (htrans : ∀ a b c, before a b → before b c → before a c)
  (htotal : ∀ a b, before a b ∨ before b a)
include htrans htotal

theorem Ordered.merge {g h : SkewHeap α} (hg : g.Ordered before) (hh : h.Ordered before) :
    (merge before g h).Ordered before := by
  fun_induction SkewHeap.merge before g h with
  | case1 => exact hh
  | case2 => exact hg
  | case3 l a r l' b r' hab ih =>
    obtain ⟨hl, hr, ha⟩ := hg
    refine ⟨ih hr hh, hl, fun c hc => ?_⟩
    rcases mem_append.1 hc with hc | hc
    · rcases mem_append.1 ((perm_merge before r (node l' b r')).mem_iff.1 hc) with hc | hc
      · exact ha c (mem_append_right _ hc)
      · rcases mem_cons.1 hc with rfl | hc
        · exact hab
        · exact htrans a b c hab (hh.2.2 c hc)
    · exact ha c (mem_append_left _ hc)
  | case4 l a r l' b r' hab ih =>
    obtain ⟨hl', hr', hb⟩ := hh
    have hba : before b a := (htotal a b).resolve_left hab
    refine ⟨ih hr' hg, hl', fun c hc => ?_⟩
    rcases mem_append.1 hc with hc | hc
    · rcases mem_append.1 ((perm_merge before r' (node l a r)).mem_iff.1 hc) with hc | hc
      · exact hb c (mem_append_right _ hc)
      · rcases mem_cons.1 hc with rfl | hc
        · exact hba
        · exact htrans b a c hba (hg.2.2 c hc)
    · exact hb c (mem_append_left _ hc)

theorem Ordered.insert {h : SkewHeap α} (hh : h.Ordered before) (a : α) :
    (insert before a h).Ordered before :=
  Ordered.merge htrans htotal ⟨trivial, trivial, fun _ hb => nomatch hb⟩ hh

theorem ordered_ofList (items : List α) : (ofList before items).Ordered before := by
  have hfold : ∀ h : SkewHeap α, h.Ordered before →
      (items.foldl (fun h a => SkewHeap.insert before a h) h).Ordered before := by
    induction items with
    | nil => exact fun h hh => hh
    | cons a rest ih => exact fun h hh => ih _ (hh.insert htrans htotal a)
  exact hfold empty trivial

theorem Ordered.pop? {a : α} {h rest : SkewHeap α} (hh : h.Ordered before)
    (hpop : h.pop? before = some (a, rest)) :
    rest.Ordered before ∧ ∀ b ∈ rest.elements, before a b := by
  cases h with
  | empty => cases hpop
  | node l b r =>
    cases hpop
    exact ⟨Ordered.merge htrans htotal hh.1 hh.2.1,
      fun c hc => hh.2.2 c ((perm_merge before l r).mem_iff.1 hc)⟩

end Ordered

end SkewHeap

namespace QueueEntry

variable {α : Type}

/-- An entry comes out ahead of another one. -/
def Ahead (a b : QueueEntry α) : Prop :=
  a.readyAt < b.readyAt ∨ a.readyAt = b.readyAt ∧ a.order < b.order

theorem before_iff (a b : QueueEntry α) :
    a.before b ↔ a.Ahead b ∨ a.readyAt = b.readyAt ∧ a.order = b.order := by
  simp only [before, Ahead, Bool.or_eq_true, Bool.and_eq_true, decide_eq_true_eq, Instant]
  omega

theorem before_trans (a b c : QueueEntry α) : a.before b → b.before c → a.before c := by
  simp only [before_iff, Ahead, Instant]
  omega

theorem before_total (a b : QueueEntry α) : a.before b ∨ b.before a := by
  simp only [before_iff, Ahead, Instant]
  omega

theorem Ahead.asymm {a b : QueueEntry α} (h : a.Ahead b) : ¬ b.Ahead a := by
  simp only [Ahead, Instant] at h ⊢
  omega

def joining (entry : QueueEntry α) (line : List (QueueEntry α)) : List (QueueEntry α) :=
  line.takeWhile (·.readyAt ≤ entry.readyAt) ++ entry :: line.dropWhile (·.readyAt ≤ entry.readyAt)

theorem perm_joining (entry : QueueEntry α) (line : List (QueueEntry α)) :
    entry.joining line ~ entry :: line :=
  perm_middle.trans (.cons entry (by rw [takeWhile_append_dropWhile]))

theorem pairwise_joining {entry : QueueEntry α} {line : List (QueueEntry α)}
    (hline : line.Pairwise Ahead) (hlater : ∀ e ∈ line, e.order < entry.order) :
    (entry.joining line).Pairwise Ahead := by
  have hsplit : line.takeWhile (·.readyAt ≤ entry.readyAt) ++
      line.dropWhile (·.readyAt ≤ entry.readyAt) = line := takeWhile_append_dropWhile
  have hbehind : ∀ e ∈ line.dropWhile (·.readyAt ≤ entry.readyAt), entry.Ahead e := by
    intro e he
    cases hdrop : line.dropWhile (·.readyAt ≤ entry.readyAt) with
    | nil => rw [hdrop] at he; cases he
    | cons first rest =>
      have hfirst : entry.readyAt < first.readyAt := by
        have := head_dropWhile_not (fun e : QueueEntry α => decide (e.readyAt ≤ entry.readyAt))
          (l := line) (by rw [hdrop]; exact cons_ne_nil _ _)
        simpa only [hdrop, head_cons, decide_eq_false_iff_not, Nat.not_le] using this
      rw [hdrop] at he
      have hsorted : (first :: rest).Pairwise Ahead :=
        hdrop ▸ hline.sublist (dropWhile_sublist _)
      rcases mem_cons.1 he with rfl | he
      · exact .inl hfirst
      · have hahead := (pairwise_cons.1 hsorted).1 e he
        simp only [Ahead, Instant] at hfirst hahead ⊢
        omega
  rw [← hsplit, pairwise_append] at hline
  refine pairwise_append.2 ⟨hline.1, pairwise_cons.2 ⟨hbehind, hline.2.1⟩, fun a ha b hb => ?_⟩
  rcases mem_cons.1 hb with rfl | hb
  · have hdue : a.readyAt ≤ b.readyAt := by simpa using mem_takeWhile_imp ha
    have horder := hlater a ((takeWhile_sublist _).mem ha)
    simp only [Ahead, Instant] at hdue ⊢
    omega
  · exact hline.2.2 a ha b hb

theorem eq_of_perm {line line' : List (QueueEntry α)} (hperm : line ~ line')
    (hline : line.Pairwise Ahead) (hline' : line'.Pairwise Ahead) : line = line' :=
  hperm.eq_of_pairwise (fun _ _ _ _ h h' => (h.asymm h').elim) hline hline'

end QueueEntry

namespace DelayQueue

variable {α : Type}

structure Sound (q : DelayQueue α) : Prop where
  ordered : q.heap.Ordered QueueEntry.before
  distinct : (q.heap.elements.map QueueEntry.order).Nodup
  past : ∀ e ∈ q.heap.elements, e.order < q.pushes

theorem sound_empty : (empty : DelayQueue α).Sound :=
  ⟨trivial, .nil, fun _ he => nomatch he⟩

section Entries

variable {q rest : DelayQueue α}

theorem perm_entries (q : DelayQueue α) : q.entries ~ q.heap.elements :=
  perm_takeEntries (Nat.le_refl _)

theorem mem_of_mem_takeEntries {heap : SkewHeap (QueueEntry α)} {count : Nat} {e : QueueEntry α}
    (he : e ∈ takeEntries count heap) : e ∈ heap.elements := by
  induction count generalizing heap with
  | zero => cases he
  | succ count ih =>
    unfold takeEntries at he
    cases hpop : heap.pop? QueueEntry.before with
    | none => rw [hpop] at he; cases he
    | some popped =>
      obtain ⟨entry, rest⟩ := popped
      rw [hpop] at he
      refine (SkewHeap.perm_pop? _ hpop).mem_iff.2 ?_
      rcases mem_cons.1 he with rfl | he
      · exact mem_cons_self
      · exact mem_cons_of_mem _ (ih he)

theorem pairwise_takeEntries {heap : SkewHeap (QueueEntry α)} (count : Nat)
    (h : heap.Ordered QueueEntry.before) :
    (takeEntries count heap).Pairwise fun a b => a.before b := by
  induction count generalizing heap with
  | zero => exact .nil
  | succ count ih =>
    unfold takeEntries
    cases hpop : heap.pop? QueueEntry.before with
    | none => exact .nil
    | some popped =>
      obtain ⟨entry, rest⟩ := popped
      obtain ⟨hrest, htop⟩ := h.pop? QueueEntry.before_trans QueueEntry.before_total hpop
      refine pairwise_cons.2 ⟨fun e he => htop e ?_, ih hrest⟩
      exact mem_of_mem_takeEntries he

theorem Sound.pairwise (h : q.Sound) : q.entries.Pairwise QueueEntry.Ahead := by
  have hdistinct : (q.entries.map QueueEntry.order).Nodup :=
    ((perm_entries q).map _).nodup_iff.2 h.distinct
  refine ((pairwise_takeEntries _ h.ordered).and (pairwise_map.1 hdistinct)).imp fun ⟨hbefore, hne⟩ => ?_
  exact ((QueueEntry.before_iff _ _).1 hbefore).resolve_right fun hsame => hne hsame.2

theorem Sound.entries_eq (h : q.Sound) {line : List (QueueEntry α)} (hperm : q.heap.elements ~ line)
    (hline : line.Pairwise QueueEntry.Ahead) : q.entries = line :=
  QueueEntry.eq_of_perm ((perm_entries q).trans hperm) h.pairwise hline

theorem Sound.push (h : q.Sound) (readyAt : Instant) (item : α) : (q.push readyAt item).Sound where
  ordered := h.ordered.insert QueueEntry.before_trans QueueEntry.before_total _
  distinct := by
    refine ((SkewHeap.perm_insert _ _ _).map QueueEntry.order).nodup_iff.2 (nodup_cons.2 ⟨?_, h.distinct⟩)
    rintro hmem
    obtain ⟨e, he, horder⟩ := mem_map.1 hmem
    exact Nat.ne_of_lt (h.past e he) horder
  past e he := by
    rcases mem_cons.1 ((SkewHeap.perm_insert _ _ _).mem_iff.1 he) with rfl | he
    · exact Nat.lt_succ_self _
    · exact Nat.lt_succ_of_lt (h.past e he)

theorem Sound.entries_push (h : q.Sound) (readyAt : Instant) (item : α) :
    (q.push readyAt item).entries = QueueEntry.joining ⟨readyAt, q.pushes, item⟩ q.entries :=
  (h.push readyAt item).entries_eq
    ((SkewHeap.perm_insert _ _ _).trans
      (((perm_entries q).symm.cons _).trans (QueueEntry.perm_joining _ _).symm))
    (QueueEntry.pairwise_joining h.pairwise fun e he => h.past e ((perm_entries q).mem_iff.1 he))

theorem entries_of_pop? {entry : QueueEntry α} {heap : SkewHeap (QueueEntry α)}
    (hpop : q.heap.pop? QueueEntry.before = some (entry, heap)) :
    q.entries = entry :: (⟨heap, q.pushes⟩ : DelayQueue α).entries := by
  have hsize : q.size = heap.size + 1 := by
    have hlength := (SkewHeap.perm_pop? _ hpop).length_eq
    rwa [length_cons, SkewHeap.length_elements, SkewHeap.length_elements] at hlength
  change takeEntries q.size q.heap = entry :: takeEntries heap.size heap
  rw [hsize, takeEntries, hpop]

theorem entries_of_pop?_none (hpop : q.heap.pop? QueueEntry.before = none) : q.entries = [] := by
  unfold entries size
  cases hheap : q.heap with
  | empty => rfl
  | node l a r => rw [hheap] at hpop; cases hpop

theorem nextDeadline_eq (q : DelayQueue α) : q.nextDeadline = q.entries.head?.map QueueEntry.readyAt := by
  unfold nextDeadline
  cases hheap : q.heap with
  | empty => rw [entries_of_pop?_none (by rw [hheap]; rfl)]; rfl
  | node l a r =>
    have hpop : q.heap.pop? QueueEntry.before = some (a, SkewHeap.merge QueueEntry.before l r) := by
      rw [hheap]
      rfl
    rw [entries_of_pop? hpop]
    rfl

theorem Sound.popReady_cases (h : q.Sound) (now : Instant) :
    (q.popReady now = none ∧ ∀ e ∈ q.entries.head?, ¬ e.readyAt ≤ now) ∨
      ∃ entry rest, q.popReady now = some (entry.item, rest) ∧ q.entries = entry :: rest.entries ∧
        entry.readyAt ≤ now ∧ rest.Sound ∧ rest.pushes = q.pushes := by
  unfold popReady
  cases hpop : q.heap.pop? QueueEntry.before with
  | none =>
    rw [entries_of_pop?_none hpop]
    exact .inl ⟨rfl, fun _ he => nomatch he⟩
  | some popped =>
    obtain ⟨entry, heap⟩ := popped
    have hperm := SkewHeap.perm_pop? _ hpop
    have hline := entries_of_pop? hpop
    by_cases hdue : entry.readyAt ≤ now
    · refine .inr ⟨entry, ⟨heap, q.pushes⟩, by simp [hdue], hline, hdue, ⟨?_, ?_, fun e he => ?_⟩, rfl⟩
      · exact (h.ordered.pop? QueueEntry.before_trans QueueEntry.before_total hpop).1
      · exact (nodup_cons.1 ((hperm.map QueueEntry.order).nodup_iff.1 h.distinct)).2
      · exact h.past e (hperm.mem_iff.2 (mem_cons_of_mem _ he))
    · refine .inl ⟨by simp [hdue], fun e he => ?_⟩
      rw [hline, head?_cons, Option.mem_some_iff] at he
      exact he ▸ hdue

theorem perm_retain_elements (q : DelayQueue α) (keep : α → Bool) :
    (q.retain keep).2.heap.elements ~ q.heap.elements.filter fun e => keep e.item :=
  SkewHeap.perm_ofList _ _

theorem Sound.retain (h : q.Sound) (keep : α → Bool) : (q.retain keep).2.Sound where
  ordered := SkewHeap.ordered_ofList QueueEntry.before_trans QueueEntry.before_total _
  distinct := ((perm_retain_elements q keep).map _).nodup_iff.2
    (h.distinct.sublist (filter_sublist.map _))
  past e he := h.past e (mem_filter.1 ((perm_retain_elements q keep).mem_iff.1 he)).1

theorem Sound.entries_retain (h : q.Sound) (keep : α → Bool) :
    (q.retain keep).2.entries = q.entries.filter fun e => keep e.item :=
  (h.retain keep).entries_eq
    ((perm_retain_elements q keep).trans ((perm_entries q).symm.filter _))
    (h.pairwise.filter _)

theorem retain_fst (q : DelayQueue α) (keep : α → Bool) :
    (q.retain keep).1 = q.entries.countP fun e => !keep e.item := by
  have hsize : q.size = q.entries.length := by
    rw [(perm_entries q).length_eq, SkewHeap.length_elements]
    rfl
  have hkept : (q.heap.elements.filter fun e => keep e.item).length =
      q.entries.countP fun e => keep e.item := by
    rw [((perm_entries q).symm.filter _).length_eq, countP_eq_length_filter]
  have htotal := length_eq_countP_add_countP (fun e : QueueEntry α => keep e.item) (l := q.entries)
  change q.size - _ = _
  rw [hsize, hkept]
  simp only [Bool.not_eq_true] at htotal
  rw [htotal, Nat.add_sub_cancel_left]
  exact countP_congr fun e _ => by simp

theorem sound_drain (q : DelayQueue α) : q.drain.2.Sound := ⟨trivial, .nil, fun _ he => nomatch he⟩

end Entries

end DelayQueue

/-! ## Queues and lines side by side -/

inductive QueueRequest (α : Type) where
  | push (readyAt : Instant) (item : α)
  | nextDeadline
  | popReady (now : Instant)
  | retain (keep : α → Bool)
  | drain

inductive QueueReply (α : Type) where
  | pushed
  | deadline (time : Option Instant)
  | popped (item : Option α)
  | removed (count : Nat)
  | drained (items : List α)

def QueueRequest.replies {α σ : Type} (serve : σ → QueueRequest α → QueueReply α × σ) :
    List (QueueRequest α) → σ → List (QueueReply α) × σ
  | [], s => ([], s)
  | request :: rest, s =>
    let (reply, s) := serve s request
    let (later, s) := replies serve rest s
    (reply :: later, s)

def DelayQueue.serve {α : Type} (q : DelayQueue α) : QueueRequest α → QueueReply α × DelayQueue α
  | .push readyAt item => (.pushed, q.push readyAt item)
  | .nextDeadline => (.deadline q.nextDeadline, q)
  | .popReady now =>
    match q.popReady now with
    | some (item, rest) => (.popped (some item), rest)
    | none => (.popped none, q)
  | .retain keep => (.removed (q.retain keep).1, (q.retain keep).2)
  | .drain => (.drained q.drain.1, q.drain.2)

/-- A queue as it is meant: the entries that wait, those that were removed, and all that ever came. -/
structure Line (α : Type) where
  /-- By deadline, and those of one deadline in the order in which they came. -/
  waiting : List (QueueEntry α)
  removed : List (QueueEntry α)
  /-- In the order in which they came, each with its place in it. -/
  pushed : List (QueueEntry α)

namespace Line

variable {α : Type}

def empty : Line α := ⟨[], [], []⟩

def dismiss (l : Line α) (leaves : QueueEntry α → Bool) : Line α :=
  { l with
    waiting := l.waiting.filter fun e => !leaves e
    removed := l.removed ++ l.waiting.filter leaves }

def serve (l : Line α) : QueueRequest α → QueueReply α × Line α
  | .push readyAt item =>
    let entry : QueueEntry α := ⟨readyAt, l.pushed.length, item⟩
    (.pushed, { l with waiting := entry.joining l.waiting, pushed := l.pushed ++ [entry] })
  | .nextDeadline => (.deadline (l.waiting.head?.map QueueEntry.readyAt), l)
  | .popReady now =>
    match l.waiting with
    | [] => (.popped none, l)
    | first :: rest =>
      if first.readyAt ≤ now then
        (.popped (some first.item), { l with waiting := rest, removed := l.removed ++ [first] })
      else (.popped none, l)
  | .retain keep =>
    (.removed (l.waiting.countP fun e => !keep e.item), l.dismiss fun e => !keep e.item)
  | .drain =>
    (.drained (l.waiting.map QueueEntry.item),
      { l with waiting := [], removed := l.removed ++ l.waiting })

structure Sound (l : Line α) : Prop where
  pairwise : l.waiting.Pairwise QueueEntry.Ahead
  perm : l.removed ++ l.waiting ~ l.pushed
  numbered : l.pushed.map QueueEntry.order = List.range l.pushed.length

theorem sound_empty : (empty : Line α).Sound := ⟨.nil, .refl _, rfl⟩

theorem Sound.order_lt {l : Line α} (h : l.Sound) {e : QueueEntry α} (he : e ∈ l.waiting) :
    e.order < l.pushed.length := by
  have hpushed : e ∈ l.pushed := h.perm.mem_iff.1 (mem_append_right _ he)
  exact mem_range.1 (h.numbered ▸ mem_map_of_mem hpushed)

theorem Sound.dismiss {l : Line α} (h : l.Sound) (leaves : QueueEntry α → Bool) :
    (l.dismiss leaves).Sound where
  pairwise := h.pairwise.filter _
  perm := by
    refine Perm.trans ?_ h.perm
    change (l.removed ++ l.waiting.filter leaves) ++ l.waiting.filter (fun e => !leaves e) ~ _
    rw [append_assoc]
    exact (filter_append_perm leaves l.waiting).append_left _
  numbered := h.numbered

theorem Sound.serve {l : Line α} (h : l.Sound) (request : QueueRequest α) : (l.serve request).2.Sound := by
  cases request with
  | push readyAt item =>
    refine ⟨QueueEntry.pairwise_joining h.pairwise fun e he => h.order_lt he, ?_, ?_⟩
    · change l.removed ++ QueueEntry.joining _ l.waiting ~ l.pushed ++ [_]
      refine ((QueueEntry.perm_joining _ _).append_left _).trans (perm_middle.trans ?_)
      exact (h.perm.cons _).trans (perm_append_singleton _ _).symm
    · change (l.pushed ++ [_]).map QueueEntry.order = List.range (l.pushed ++ [_]).length
      rw [map_append, h.numbered, length_append, length_singleton, range_succ]
      rfl
  | nextDeadline => exact h
  | popReady now =>
    unfold Line.serve
    cases hline : l.waiting with
    | nil => exact h
    | cons first rest =>
      by_cases hdue : first.readyAt ≤ now
      · simp only [hdue, ↓reduceIte]
        have hpairwise := h.pairwise
        have hperm := h.perm
        rw [hline] at hpairwise hperm
        exact ⟨(pairwise_cons.1 hpairwise).2, by simpa using hperm, h.numbered⟩
      · simpa only [hdue, ↓reduceIte] using h
  | retain keep => exact h.dismiss _
  | drain => exact ⟨.nil, by simpa [Line.serve] using h.perm, h.numbered⟩

end Line

namespace DelayQueue

variable {α : Type}

/-- A queue stands as a line does. -/
structure Stands (q : DelayQueue α) (l : Line α) : Prop where
  sound : q.Sound
  line : l.Sound
  entries : q.entries = l.waiting
  pushes : q.pushes = l.pushed.length

/-- A queue and a line that stand alike answer a request alike, and stand alike after it. -/
theorem Stands.serve {q : DelayQueue α} {l : Line α} (h : q.Stands l) (request : QueueRequest α) :
    (q.serve request).1 = (l.serve request).1 ∧ (q.serve request).2.Stands (l.serve request).2 := by
  have hline := h.line.serve request
  cases request with
  | push readyAt item =>
    refine ⟨rfl, h.sound.push readyAt item, hline, ?_, ?_⟩
    · change (q.push readyAt item).entries = QueueEntry.joining ⟨readyAt, l.pushed.length, item⟩ l.waiting
      rw [h.sound.entries_push, h.entries, h.pushes]
    · change q.pushes + 1 = (l.pushed ++ [_]).length
      rw [length_append, length_singleton, h.pushes]
  | nextDeadline =>
    refine ⟨?_, h⟩
    change QueueReply.deadline q.nextDeadline = .deadline (l.waiting.head?.map QueueEntry.readyAt)
    rw [nextDeadline_eq, h.entries]
  | popReady now =>
    simp only [DelayQueue.serve, Line.serve, ← h.entries] at hline ⊢
    obtain ⟨hnone, hhead⟩ | ⟨entry, rest, hsome, hentries, hdue, hrest, hpushes⟩ :=
      h.sound.popReady_cases now
    · simp only [hnone]
      cases hentries : q.entries with
      | nil => exact ⟨rfl, h⟩
      | cons first rest =>
        have hwaits : ¬ first.readyAt ≤ now := hhead first (by rw [hentries]; rfl)
        simp only [hwaits, ↓reduceIte]
        exact ⟨trivial, h⟩
    · simp only [hentries, hsome, hdue, ↓reduceIte] at hline ⊢
      exact ⟨trivial, hrest, hline, rfl, hpushes.trans h.pushes⟩
  | retain keep =>
    refine ⟨?_, h.sound.retain keep, hline, ?_, h.pushes⟩
    · change QueueReply.removed _ = .removed _
      rw [retain_fst, h.entries]
    · change (q.retain keep).2.entries = l.waiting.filter fun e => !!keep e.item
      simp only [h.sound.entries_retain, h.entries, Bool.not_not]
  | drain =>
    refine ⟨?_, sound_drain q, hline, rfl, h.pushes⟩
    change QueueReply.drained (q.entries.map QueueEntry.item) = .drained _
    rw [h.entries]

theorem Stands.replies {q : DelayQueue α} {l : Line α} (h : q.Stands l)
    (requests : List (QueueRequest α)) :
    (QueueRequest.replies DelayQueue.serve requests q).1 = (QueueRequest.replies Line.serve requests l).1 ∧
      (QueueRequest.replies DelayQueue.serve requests q).2.Stands
        (QueueRequest.replies Line.serve requests l).2 := by
  induction requests generalizing q l with
  | nil => exact ⟨rfl, h⟩
  | cons request rest ih =>
    obtain ⟨hreply, hafter⟩ := h.serve request
    obtain ⟨hlater, hend⟩ := ih hafter
    exact ⟨congrArg₂ List.cons hreply hlater, hend⟩

/-- A delay queue behaves as a line: it answers every sequence of requests as the line does, and holds what
waits in the line, in its order. The line is sorted by deadlines and pushes, and whoever came waits in it or
was removed, and is not there twice. -/
theorem behaves_as_line (requests : List (QueueRequest α)) :
    let queue := QueueRequest.replies DelayQueue.serve requests (empty : DelayQueue α)
    let line := QueueRequest.replies Line.serve requests (Line.empty : Line α)
    queue.1 = line.1 ∧ queue.2.entries = line.2.waiting ∧ line.2.Sound := by
  have hempty : (empty : DelayQueue α).Stands Line.empty := ⟨sound_empty, Line.sound_empty, rfl, rfl⟩
  obtain ⟨hreplies, hend⟩ := hempty.replies requests
  exact ⟨hreplies, hend.entries, hend.line⟩

end DelayQueue

end ScriptWorker
