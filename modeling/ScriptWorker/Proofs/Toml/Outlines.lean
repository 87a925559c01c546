import ScriptWorker.Proofs.Toml.Statements

/-!
# Documents of two levels

An outline is a document with pairs at the top and sections of pairs behind them. Its statements make
the tables that it describes, and deleting keys or sections from the document leaves the document of
a smaller outline.
-/

namespace ScriptWorker.Toml

/-! ## Tables while they are put together -/

namespace Section

variable {key : String} {node : Node} {entries inner : Entries}

theorem find?_of_notMem (h : key ∉ entries.map Prod.fst) : find? key entries = none := by
  simp only [find?, Option.map_eq_none_iff, List.find?_eq_none, decide_eq_true_eq]
  rintro entry hentry rfl
  exact h (List.mem_map_of_mem hentry)

theorem find?_last (h : key ∉ entries.map Prod.fst) :
    find? key (entries ++ [(key, node)]) = some node := by
  have hnone := find?_of_notMem h
  rw [find?, Option.map_eq_none_iff] at hnone
  simp [find?, List.find?_append, hnone]

theorem put_new (h : key ∉ entries.map Prod.fst) :
    put key node entries = entries ++ [(key, node)] := by
  have hany : (entries.any fun entry => entry.1 = key) = false := by
    simp only [List.any_eq_false, decide_eq_true_eq]
    rintro entry hentry rfl
    exact h (List.mem_map_of_mem hentry)
  simp [put, hany]

theorem put_last (h : key ∉ entries.map Prod.fst) (old : Node) :
    put key node (entries ++ [(key, old)]) = entries ++ [(key, node)] := by
  have hsame :
      (entries.map fun entry => if entry.1 = key then (key, node) else entry) = entries := by
    refine List.map_congr_left (fun entry hentry => if_neg ?_) |>.trans (List.map_id entries)
    rintro rfl
    exact h (List.mem_map_of_mem hentry)
  simp [put, hsame]

theorem addLeaf_new (h : key ∉ entries.map Prod.fst) (value : Value) :
    addLeaf key value entries = some (entries ++ [(key, .leaf value)]) := by
  simp [addLeaf, find?_of_notMem h]

theorem atPath_last (h : key ∉ entries.map Prod.fst) (change : Entries → Option Entries)
    (origin : Origin) :
    atPath change [key] (entries ++ [(key, .table origin inner)]) =
      (change inner).map fun inner => entries ++ [(key, .table origin inner)] := by
  simp only [atPath, find?_last h, put_last h]

theorem advance_header (h : key ∉ entries.map Prod.fst) (current : KeyPath) :
    advance ⟨entries, current⟩ (.header [key]) =
      some ⟨entries ++ [(key, .table .header [])], [key]⟩ := by
  simp [advance, advance.enter, atPath, openTable, find?_of_notMem h, put_new h]

/-! ## Pairs of one table -/

def pairs (entries : List (String × Value)) : List Statement :=
  entries.map fun entry => .pair [entry.1] entry.2

def leaves (entries : List (String × Value)) : Entries :=
  entries.map fun entry => (entry.1, .leaf entry.2)

theorem map_fst_leaves (entries : List (String × Value)) :
    (leaves entries).map Prod.fst = entries.map Prod.fst := by
  simp [leaves]

theorem foldlM_pairs (around : Entries → Entries) {current : KeyPath}
    (haround : ∀ change inner, atPath change current (around inner) = (change inner).map around)
    (inner : Entries) {entries : List (String × Value)}
    (h : (inner.map Prod.fst ++ entries.map Prod.fst).Nodup) :
    (pairs entries).foldlM advance ⟨around inner, current⟩ =
      some ⟨around (inner ++ leaves entries), current⟩ := by
  induction entries generalizing inner with
  | nil => simp [pairs, leaves]
  | cons entry entries ih =>
    have hnew : entry.1 ∉ inner.map Prod.fst := fun hmem =>
      (List.nodup_append.1 h).2.2 _ hmem _ List.mem_cons_self rfl
    have hmore :
        ((inner ++ [(entry.1, Node.leaf entry.2)]).map Prod.fst ++ entries.map Prod.fst).Nodup := by
      simpa using h
    have hstep : advance ⟨around inner, current⟩ (.pair [entry.1] entry.2) =
        some ⟨around (inner ++ [(entry.1, .leaf entry.2)]), current⟩ := by
      simp [advance, haround, addDotted, addLeaf_new hnew]
    have hrest := ih _ hmore
    rw [List.append_assoc] at hrest
    simpa [pairs, leaves, hstep] using hrest

end Section

/-! ## Outlines -/

structure Outline where
  pairs : List (String × Value)
  sections : List (String × List (String × Value))

namespace Outline

def statements (o : Outline) : List Statement :=
  Section.pairs o.pairs ++ o.sections.flatMap fun s => .header [s.1] :: Section.pairs s.2

def entries (o : Outline) : List (String × Value) :=
  o.pairs ++ o.sections.map fun s => (s.1, .table s.2)

/-- No key stands twice in one table, and a reader takes every value back. -/
structure Sound (o : Outline) : Prop where
  names : (o.pairs.map Prod.fst ++ o.sections.map Prod.fst).Nodup
  keys : ∀ s ∈ o.sections, (s.2.map Prod.fst).Nodup
  values : ∀ entry ∈ o.pairs, Reads (readValue nestingLimit) entry.2
  sectionValues : ∀ s ∈ o.sections, ∀ entry ∈ s.2, Reads (readValue nestingLimit) entry.2

variable {o : Outline}

def node (s : String × List (String × Value)) : String × Node :=
  (s.1, .table .header (Section.leaves s.2))

theorem foldlM_sections (root : Entries) (current : KeyPath)
    {sections : List (String × List (String × Value))}
    (hnames : (root.map Prod.fst ++ sections.map Prod.fst).Nodup)
    (hkeys : ∀ s ∈ sections, (s.2.map Prod.fst).Nodup) :
    ((sections.flatMap fun s => .header [s.1] :: Section.pairs s.2).foldlM Section.advance
        ⟨root, current⟩).map Section.Progress.root =
      some (root ++ sections.map node) := by
  induction sections generalizing root current with
  | nil => simp
  | cons s sections ih =>
    have hnew : s.1 ∉ root.map Prod.fst := fun hmem =>
      (List.nodup_append.1 hnames).2.2 _ hmem _ List.mem_cons_self rfl
    have hmore : ((root ++ [node s]).map Prod.fst ++ sections.map Prod.fst).Nodup := by
      simpa [node] using hnames
    have hpairs := Section.foldlM_pairs (fun inner => root ++ [(s.1, .table .header inner)])
      (fun change inner => Section.atPath_last hnew change .header) [] (hkeys s List.mem_cons_self)
    have hrest := ih _ [s.1] hmore fun t ht => hkeys t (List.mem_cons_of_mem _ ht)
    rw [List.append_assoc] at hrest
    simpa [Section.advance_header hnew, hpairs, node] using hrest

theorem build_statements (h : o.Sound) :
    Section.build o.statements = some (Section.leaves o.pairs ++ o.sections.map node) := by
  have hroot : (([] : Entries).map Prod.fst ++ o.pairs.map Prod.fst).Nodup :=
    (List.nodup_append.1 h.names).1
  have hpairs : (Section.pairs o.pairs).foldlM Section.advance ⟨[], []⟩ =
      some ⟨Section.leaves o.pairs, []⟩ :=
    Section.foldlM_pairs id (fun change inner => by simp [Section.atPath]) [] hroot
  have hsections := foldlM_sections (Section.leaves o.pairs) []
    (by rw [Section.map_fst_leaves]; exact h.names) h.keys
  rw [Section.build, statements, List.foldlM_append, Section.start, hpairs]
  exact hsections

end Outline

theorem toEntries_append (a b : Entries) : toEntries (a ++ b) = toEntries a ++ toEntries b := by
  induction a with
  | nil => rfl
  | cons entry a ih => simp [toEntries, ih]

theorem toEntries_leaves (entries : List (String × Value)) :
    toEntries (Section.leaves entries) = entries := by
  induction entries with
  | nil => rfl
  | cons entry entries ih => simpa [Section.leaves, toEntries, toValue] using ih

namespace Outline

variable {o : Outline}

theorem toEntries_nodes (sections : List (String × List (String × Value))) :
    toEntries (sections.map node) = sections.map fun s => (s.1, .table s.2) := by
  induction sections with
  | nil => rfl
  | cons s sections ih => simp [toEntries, toValue, node, toEntries_leaves, ih]

theorem fits_key (key : String) : KeyPath.Fits [key] := ⟨by simp, by simp [nestingLimit]⟩

theorem fits_pairs {entries : List (String × Value)}
    (h : ∀ entry ∈ entries, Reads (readValue nestingLimit) entry.2) :
    ∀ st ∈ Section.pairs entries, st.Fits := by
  simp only [Section.pairs, List.mem_map]
  rintro st ⟨entry, hentry, rfl⟩
  exact ⟨fits_key entry.1, h entry hentry⟩

theorem fits_statements (h : o.Sound) : ∀ st ∈ o.statements, st.Fits := by
  simp only [statements, List.mem_append, List.mem_flatMap, List.mem_cons]
  rintro st (hst | ⟨s, hs, rfl | hst⟩)
  · exact fits_pairs h.values st hst
  · exact fits_key s.1
  · exact fits_pairs (h.sectionValues s hs) st hst

/-- The text of an outline is read as the entries that it describes. -/
theorem readDocument_statements (h : o.Sound) :
    readDocument (textOf o.statements) = some o.entries := by
  rw [readDocument_textOf (fits_statements h), build_statements h, Option.map_some,
    toEntries_append, toEntries_leaves, toEntries_nodes]
  rfl

end Outline

/-! ## Deletions -/

def KeyPath.gone (deleted : KeyPath → Bool) (path : KeyPath) : Bool :=
  (List.range path.length).any fun n => deleted (path.take (n + 1))

/-- The statements that deletions leave of some, of which the first stands in a section. -/
def remaining (deleted : KeyPath → Bool) : (inside : KeyPath) → List Statement → List Statement
  | _, [] => []
  | inside, .pair path value :: rest =>
    if KeyPath.gone deleted (inside ++ path) then remaining deleted inside rest
    else .pair path value :: remaining deleted inside rest
  | _, .header path :: rest =>
    if KeyPath.gone deleted path then remaining deleted path rest
    else .header path :: remaining deleted path rest
  | _, .arrayHeader path :: rest =>
    if KeyPath.gone deleted path then remaining deleted path rest
    else .arrayHeader path :: remaining deleted path rest

section Deletions

variable {deleted : KeyPath → Bool}

theorem gone_pair (name key : String) :
    KeyPath.gone deleted [name, key] = (KeyPath.gone deleted [name] || deleted [name, key]) := by
  simp [KeyPath.gone, List.range_succ]

theorem remaining_of_none (inside : KeyPath) (sts : List Statement) :
    remaining (fun _ => false) inside sts = sts := by
  have hnone (path : KeyPath) : KeyPath.gone (fun _ => false) path = false := by simp [KeyPath.gone]
  induction sts generalizing inside with
  | nil => rfl
  | cons st sts ih => cases st <;> simp [remaining, hnone, ih]

def spared (deleted : KeyPath → Bool) (inside : KeyPath) (entries : List (String × Value)) :
    List (String × Value) :=
  entries.filter fun entry => !KeyPath.gone deleted (inside ++ [entry.1])

theorem spared_of_gone {name : String} (h : KeyPath.gone deleted [name] = true)
    (entries : List (String × Value)) : spared deleted [name] entries = [] := by
  simp [spared, gone_pair, h]

theorem remaining_pairs (inside : KeyPath) (entries : List (String × Value))
    (rest : List Statement) :
    remaining deleted inside (Section.pairs entries ++ rest) =
      Section.pairs (spared deleted inside entries) ++ remaining deleted inside rest := by
  induction entries with
  | nil => rfl
  | cons entry entries ih =>
    cases hgone : KeyPath.gone deleted (inside ++ [entry.1]) <;>
      simpa [Section.pairs, spared, remaining, hgone] using ih

namespace Outline

def without (deleted : KeyPath → Bool) (o : Outline) : Outline where
  pairs := spared deleted [] o.pairs
  sections := (o.sections.filter fun s => !KeyPath.gone deleted [s.1]).map fun s =>
    (s.1, spared deleted [s.1] s.2)

theorem remaining_sections (inside : KeyPath) (sections : List (String × List (String × Value))) :
    remaining deleted inside (sections.flatMap fun s => .header [s.1] :: Section.pairs s.2) =
      ((sections.filter fun s => !KeyPath.gone deleted [s.1]).map fun s =>
          (s.1, spared deleted [s.1] s.2)).flatMap fun s => .header [s.1] :: Section.pairs s.2 := by
  induction sections generalizing inside with
  | nil => rfl
  | cons s sections ih =>
    cases hgone : KeyPath.gone deleted [s.1] with
    | false => simp [remaining, hgone, remaining_pairs, ih]
    | true =>
      have hnone : Section.pairs (spared deleted [s.1] s.2) = [] := by
        rw [spared_of_gone hgone]
        rfl
      simp [remaining, hgone, remaining_pairs, hnone, ih]

theorem remaining_statements (o : Outline) :
    remaining deleted [] o.statements = (o.without deleted).statements := by
  rw [statements, remaining_pairs, remaining_sections]
  rfl

theorem Sound.without {o : Outline} (h : o.Sound) : (o.without deleted).Sound where
  names := by
    have hsections :
        ((o.without deleted).sections.map Prod.fst).Sublist (o.sections.map Prod.fst) := by
      simpa [Outline.without, Function.comp_def] using List.filter_sublist.map Prod.fst
    exact h.names.sublist ((List.filter_sublist.map Prod.fst).append hsections)
  keys := by
    simp only [Outline.without, List.mem_map, List.mem_filter]
    rintro _ ⟨s, ⟨hs, -⟩, rfl⟩
    exact (h.keys s hs).sublist (List.filter_sublist.map Prod.fst)
  values := fun entry hentry => h.values entry ((List.mem_filter.1 hentry).1)
  sectionValues := by
    simp only [Outline.without, List.mem_map, List.mem_filter]
    rintro _ ⟨s, ⟨hs, -⟩, rfl⟩ entry hentry
    exact h.sectionValues s hs entry ((List.mem_filter.1 hentry).1)

/-- The entries that deletions leave are those whose keys are not deleted, each section without its
deleted keys. -/
theorem entries_without (o : Outline) :
    (o.without deleted).entries =
      spared deleted []
        (o.pairs ++ o.sections.map fun s => (s.1, .table (spared deleted [s.1] s.2))) := by
  simp [entries, Outline.without, spared, List.filter_map, Function.comp_def]

theorem readDocument_remaining {o : Outline} (h : o.Sound) (deleted : KeyPath → Bool) :
    readDocument (textOf (remaining deleted [] o.statements)) =
      some (spared deleted []
        (o.pairs ++ o.sections.map fun s => (s.1, .table (spared deleted [s.1] s.2)))) := by
  rw [remaining_statements, readDocument_statements h.without, entries_without]

end Outline

end Deletions

end ScriptWorker.Toml
