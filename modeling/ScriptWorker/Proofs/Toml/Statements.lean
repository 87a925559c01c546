import ScriptWorker.Proofs.Toml.Strings
import ScriptWorker.Toml.Reader
import ScriptWorker.Toml.Writer

/-!
# Statements are read back

Each reader of a part of a document takes exactly what its writer wrote and leaves what follows, as
long as that could not belong to the part: no bare character follows a key, no quote a string. The
readers of lines and of arrays count down a bound, which the length of the text covers.
-/

namespace ScriptWorker.Toml

variable {c : Char} {cs rest : List Char}

/-! ## Blanks and ends of lines -/

def isSolid (c : Char) : Bool := !isBlank c && c ≠ '#' && c ≠ '\n' && c ≠ '\r'

theorem isSolid_iff : isSolid c = true ↔ isBlank c = false ∧ c ≠ '#' ∧ c ≠ '\n' ∧ c ≠ '\r' := by
  simp [isSolid, and_assoc]

theorem skipBlanks_solid (h : isSolid c = true) : skipBlanks (c :: cs) = c :: cs := by
  simp [skipBlanks, (isSolid_iff.1 h).1]

theorem skipComment_solid (h : isSolid c = true) : skipComment (c :: cs) = some (c :: cs) := by
  simp [skipComment, (isSolid_iff.1 h).2.1]

theorem lineEnd?_solid (h : isSolid c = true) : lineEnd? (c :: cs) = none := by
  simp [lineEnd?, (isSolid_iff.1 h).2.2.1, (isSolid_iff.1 h).2.2.2]

theorem startsLine_solid (h : isSolid c = true) : startsLine (c :: cs) = false := by
  simp [startsLine, (isSolid_iff.1 h).2.2.1, (isSolid_iff.1 h).2.2.2]

theorem skipLines_solid (h : isSolid c = true) (bound : Nat) (blanks : List Char)
    (hblanks : ∀ b ∈ blanks, isBlank b = true) :
    skipLines (bound + 1) (blanks ++ c :: cs) = c :: cs := by
  have hstart : skipBlanks (blanks ++ c :: cs) = c :: cs := by
    rw [skipBlanks, List.dropWhile_append_of_pos hblanks]
    exact skipBlanks_solid h
  simp [skipLines, hstart, skipComment_solid h, lineEnd?_solid h]

theorem skipLines_newline (bound : Nat) :
    skipLines (bound + 1) ('\n' :: cs) = skipLines bound cs := rfl

theorem finishLine_newline : finishLine ('\n' :: cs) = some cs := rfl

/-! ## Keys -/

def opensKey (c : Char) : Bool := isBare c || c = '"'

theorem isSolid_of_opensKey (h : opensKey c = true) : isSolid c = true := by
  simp only [isSolid_iff, isBlank, Bool.or_eq_false_iff, decide_eq_false_iff_not]
  refine ⟨⟨?_, ?_⟩, ?_, ?_, ?_⟩ <;> · rintro rfl; cases h

theorem ne_of_opensKey {d : Char} (h : opensKey c = true) (hd : opensKey d = false) : c ≠ d := by
  rintro rfl
  exact Bool.false_ne_true (hd.symm.trans h)

theorem head_writeKeyPart (key : String) :
    ∃ c cs, writeKeyPart key = c :: cs ∧ opensKey c = true := by
  unfold writeKeyPart
  dsimp only
  split
  · next hbare =>
    cases hkey : key.toList with
    | nil => simp [hkey] at hbare
    | cons c cs =>
      simp only [hkey, List.isEmpty_cons, Bool.not_false, Bool.true_and, List.all_cons,
        Bool.and_eq_true] at hbare
      exact ⟨c, cs, rfl, by simp [opensKey, isBare, hbare.1]⟩
  · exact ⟨'"', _, rfl, rfl⟩

theorem readKeyPart_bare (h : isBare c = true) :
    readKeyPart (c :: cs) =
      some (String.ofList ((c :: cs).takeWhile isBare), (c :: cs).dropWhile isBare) := by
  have hquote : ¬ (c = '"' ∨ c = '\'') := by rintro (rfl | rfl) <;> cases h
  simp only [readKeyPart, if_neg hquote, h, if_true]

theorem readKeyPart_writeKeyPart (key : String) (hrest : ∀ d ∈ rest.head?, isBare d = false) :
    readKeyPart (writeKeyPart key ++ rest) = some (key, rest) := by
  unfold writeKeyPart
  dsimp only
  split
  · next hbare =>
    simp only [Bool.and_eq_true, Bool.not_eq_true', List.isEmpty_eq_false_iff,
      List.all_eq_true] at hbare
    have hstop : rest.takeWhile isBare = [] ∧ rest.dropWhile isBare = rest := by
      cases rest with
      | nil => exact ⟨rfl, rfl⟩
      | cons d rest => simp [hrest d rfl]
    have hall : ∀ c ∈ key.toList, isBare c = true := hbare.2
    have htake : (key.toList ++ rest).takeWhile isBare = key.toList := by
      rw [List.takeWhile_append_of_pos hall, hstop.1, List.append_nil]
    have hdrop : (key.toList ++ rest).dropWhile isBare = rest := by
      rw [List.dropWhile_append_of_pos hall, hstop.2]
    obtain ⟨c, cs, hcs⟩ := List.exists_cons_of_ne_nil hbare.1
    have hc : isBare c = true := hall c (by rw [hcs]; exact List.mem_cons_self)
    have hread : readKeyPart (c :: (cs ++ rest)) = _ := readKeyPart_bare hc
    rwa [← List.cons_append, ← hcs, htake, hdrop, String.ofList_toList] at hread
  · have hread := readBody_line 0 key.toList rest
    simp [readKeyPart, readLineString, hread, asText]

theorem head_writeKey {path : KeyPath} (h : path ≠ []) :
    ∃ c cs, writeKey path = c :: cs ∧ opensKey c = true := by
  cases path with
  | nil => exact (h rfl).elim
  | cons key path =>
    obtain ⟨c, cs, hkey, hc⟩ := head_writeKeyPart key
    cases path with
    | nil => exact ⟨c, cs, hkey, hc⟩
    | cons next path =>
      rw [writeKey, hkey]
      exact ⟨c, _, rfl, hc⟩

theorem skipBlanks_writeKeyPart (key : String) (rest : List Char) :
    skipBlanks (writeKeyPart key ++ rest) = writeKeyPart key ++ rest := by
  obtain ⟨c, cs, hkey, hc⟩ := head_writeKeyPart key
  rw [hkey]
  exact skipBlanks_solid (isSolid_of_opensKey hc)

theorem readKey_writeKey {path : KeyPath} {parts : Nat} (hpath : path ≠ [])
    (hparts : path.length ≤ parts)
    (hrest : ∀ d ∈ rest.head?, isBare d = false) (hdot : (skipBlanks rest).head? ≠ some '.') :
    readKey parts (writeKey path ++ rest) = some (path, skipBlanks rest) := by
  induction path generalizing parts with
  | nil => exact (hpath rfl).elim
  | cons key path ih =>
    obtain ⟨parts, rfl⟩ : ∃ n, parts = n + 1 := Nat.exists_eq_add_one.2 (by simp at hparts; omega)
    cases path with
    | nil =>
      rw [writeKey, readKey, skipBlanks_writeKeyPart, readKeyPart_writeKeyPart key hrest,
        Option.bind_some]
      dsimp only
      split
      · next heq => exact (hdot (by rw [heq]; rfl)).elim
      · rfl
    | cons next path =>
      have hmore := ih (List.cons_ne_nil next path) (Nat.le_of_succ_le_succ hparts)
      have hbare : ∀ d ∈ ('.' :: (writeKey (next :: path) ++ rest)).head?, isBare d = false := by
        rintro d ⟨⟩
        rfl
      rw [writeKey, List.append_assoc, List.cons_append, readKey, skipBlanks_writeKeyPart,
        readKeyPart_writeKeyPart key hbare, Option.bind_some]
      dsimp only
      rw [skipBlanks_solid (by rfl)]
      simp only [hmore, Option.map_some]

/-! ## Values -/

/-- A reader takes a value from the front of a text, if no further quote follows it. -/
structure Reads (item : List Char → Option (Value × List Char)) (value : Value) : Prop where
  opens : ∃ c cs, writeValue value = c :: cs ∧ isSolid c = true ∧ c ≠ ']'
  back (rest : List Char) (hrest : ∀ f : StringForm, rest.head? ≠ some f.quote) :
    item (writeValue value ++ rest) = some (value, rest)

theorem quote_eq (f : StringForm) : f.quote = '"' ∨ f.quote = '\'' := by
  unfold StringForm.quote
  split
  · exact .inl rfl
  · exact .inr rfl

theorem head?_ne_quote (hdouble : c ≠ '"') (hsingle : c ≠ '\'') (rest : List Char) (f : StringForm) :
    (c :: rest).head? ≠ some f.quote := by
  rcases quote_eq f with h | h <;> rw [h] <;> simpa

theorem head_writeString (s : List Char) :
    ∃ f : StringForm, ∃ cs, writeString s = f.quote :: cs := by
  refine ⟨StringForm.choose s, ?_⟩
  unfold writeString StringForm.delimiter
  dsimp only
  split <;> exact ⟨_, rfl⟩

theorem readValue_quote (depth : Nat) (f : StringForm) (cs : List Char) :
    readValue depth (f.quote :: cs) =
      (readString (f.quote :: cs)).map fun (s, rest) => (.string s, rest) := by
  rcases quote_eq f with h | h <;> rw [h] <;> cases depth <;> simp [readValue, readScalar]

theorem reads_string (depth : Nat) (s : String) : Reads (readValue depth) (.string s) := by
  obtain ⟨f, cs, hs⟩ := head_writeString s.toList
  refine ⟨⟨f.quote, cs, by rw [writeValue, hs], ?_⟩, fun rest hrest => ?_⟩
  · rcases quote_eq f with h | h <;> rw [h] <;> decide
  · have hread := readString_writeString s.toList rest hrest
    rw [hs, List.cons_append, String.ofList_toList] at hread
    rw [writeValue, hs, List.cons_append, readValue_quote, hread]
    rfl

theorem reads_boolean (depth : Nat) (b : Bool) : Reads (readValue depth) (.boolean b) := by
  refine ⟨?_, fun rest _ => ?_⟩
  · cases b <;> exact ⟨_, _, rfl, rfl, by decide⟩
  · cases b <;> cases depth <;> rfl

section Items

variable {item : List Char → Option (Value × List Char)} {value : Value} {items : List Value}
  {bound : Nat}

theorem readItems_last (h : Reads item value)
    (hskip : skipLines cs.length cs = writeValue value ++ ']' :: rest) :
    readItems item (bound + 1) cs = some ([value], rest) := by
  have hback := h.back (']' :: rest) (head?_ne_quote (by decide) (by decide) rest)
  obtain ⟨c, tail, hvalue, -, hclose⟩ := h.opens
  rw [hvalue, List.cons_append] at hskip hback
  have hend : skipLines (rest.length + 1) (']' :: rest) = ']' :: rest :=
    skipLines_solid rfl rest.length [] (by simp)
  simp [readItems, hskip, hclose, hback, hend]

theorem readItems_more (bound : Nat) (h : Reads item value)
    (hskip : skipLines cs.length cs = writeValue value ++ ',' :: rest) :
    readItems item (bound + 1) cs =
      (readItems item bound rest).map fun (more, rest) => (value :: more, rest) := by
  have hback := h.back (',' :: rest) (head?_ne_quote (by decide) (by decide) rest)
  obtain ⟨c, tail, hvalue, -, hclose⟩ := h.opens
  rw [hvalue, List.cons_append] at hskip hback
  have hcomma : skipLines (rest.length + 1) (',' :: rest) = ',' :: rest :=
    skipLines_solid rfl rest.length [] (by simp)
  simp [readItems, hskip, hclose, hback, hcomma]

theorem readItems_writeLines (h : ∀ value ∈ items, Reads item value)
    (hbound : items.length < bound) :
    readItems item bound (writeLines items ++ '\n' :: ']' :: rest) = some (items, rest) := by
  induction items generalizing bound with
  | nil =>
    obtain ⟨bound, rfl⟩ := Nat.exists_eq_add_one.2 hbound
    rfl
  | cons value items ih =>
    obtain ⟨bound, rfl⟩ := Nat.exists_eq_add_one.2 (Nat.zero_lt_of_lt hbound)
    have hfirst := h value List.mem_cons_self
    have hmore := ih (fun v hv => h v (List.mem_cons_of_mem _ hv)) (Nat.lt_of_succ_lt_succ hbound)
    obtain ⟨c, cs, hvalue, hsolid, -⟩ := hfirst.opens
    -- The line end and the four blanks before an item are passed over.
    have hskip (tail : List Char) :
        skipLines ('\n' :: ' ' :: ' ' :: ' ' :: ' ' :: (writeValue value ++ tail)).length
            ('\n' :: ' ' :: ' ' :: ' ' :: ' ' :: (writeValue value ++ tail)) =
          writeValue value ++ tail := by
      rw [List.length_cons, List.length_cons, skipLines_newline, hvalue]
      exact skipLines_solid hsolid _ [' ', ' ', ' ', ' '] (by simp [isBlank])
    have hstep := readItems_more bound hfirst
      (hskip (',' :: (writeLines items ++ '\n' :: ']' :: rest)))
    simpa [writeLines, hmore] using hstep

theorem length_writeLines (items : List Value) : items.length ≤ (writeLines items).length := by
  induction items with
  | nil => exact Nat.le_refl _
  | cons value items ih =>
    simp only [writeLines, List.length_cons, List.length_append]
    omega

theorem readValue_array {depth : Nat}
    (h : readItems (readValue depth) (cs.length + 1) cs = some (items, rest)) :
    readValue (depth + 1) ('[' :: cs) = some (.array items, rest) := by
  simp only [readValue, h, Option.map_some]

theorem reads_array (depth : Nat) (h : ∀ value ∈ items, Reads (readValue depth) value) :
    Reads (readValue (depth + 1)) (.array items) := by
  refine ⟨?_, fun rest _ => ?_⟩
  · rcases items with _ | ⟨first, _ | ⟨second, more⟩⟩
    all_goals exact ⟨'[', _, rfl, by decide, by decide⟩
  · rcases items with _ | ⟨first, _ | ⟨second, more⟩⟩
    · rfl
    · have hfirst := h first List.mem_cons_self
      obtain ⟨c, cs, hvalue, hsolid, -⟩ := hfirst.opens
      have hskip :
          skipLines (writeValue first ++ ']' :: rest).length (writeValue first ++ ']' :: rest) =
            writeValue first ++ ']' :: rest := by
        rw [hvalue]
        exact skipLines_solid hsolid _ [] (by simp)
      simpa [writeValue] using readValue_array (readItems_last hfirst hskip)
    · have hbound : (first :: second :: more).length <
          (writeLines (first :: second :: more) ++ '\n' :: ']' :: rest).length + 1 := by
        have hlines := length_writeLines (first :: second :: more)
        rw [List.length_append]
        omega
      simpa [writeValue] using readValue_array (readItems_writeLines h hbound)

end Items

/-! ## Statements -/

def KeyPath.Fits (path : KeyPath) : Prop := path ≠ [] ∧ path.length ≤ nestingLimit

def Statement.Fits : Statement → Prop
  | .pair path value => path.Fits ∧ Reads (readValue nestingLimit) value
  | .header path => path.Fits
  | .arrayHeader path => path.Fits

theorem readKey_bracket {path : KeyPath} (h : path.Fits) (rest : List Char) :
    readKey nestingLimit (writeKey path ++ ']' :: rest) = some (path, ']' :: rest) := by
  have hbare : ∀ d ∈ (']' :: rest).head?, isBare d = false := by
    rintro d ⟨⟩
    rfl
  have hblanks : skipBlanks (']' :: rest) = ']' :: rest := skipBlanks_solid rfl
  have hread := readKey_writeKey h.1 h.2 hbare (by simp [hblanks])
  rwa [hblanks] at hread

theorem readPair_write {item : List Char → Option (Value × List Char)} {path : KeyPath}
    {value : Value} (hpath : path.Fits) (hvalue : Reads item value)
    (hrest : ∀ f : StringForm, rest.head? ≠ some f.quote) :
    readPair item (writeKey path ++ ' ' :: '=' :: ' ' :: (writeValue value ++ rest)) =
      some ((path, value), rest) := by
  have hback := hvalue.back rest hrest
  obtain ⟨c, cs, hopens, hsolid, -⟩ := hvalue.opens
  rw [hopens, List.cons_append] at hback ⊢
  have hbare : ∀ d ∈ (' ' :: '=' :: ' ' :: c :: (cs ++ rest)).head?, isBare d = false := by
    rintro d ⟨⟩
    rfl
  have hequals :
      skipBlanks (' ' :: '=' :: ' ' :: c :: (cs ++ rest)) = '=' :: ' ' :: c :: (cs ++ rest) := rfl
  have hkey := readKey_writeKey hpath.1 hpath.2 hbare (by simp [hequals])
  have hblank : skipBlanks (' ' :: c :: (cs ++ rest)) = c :: (cs ++ rest) := skipBlanks_solid hsolid
  simp only [readPair, hkey, hequals, hblank, hback, Option.bind_some, Option.map_some]

theorem readHeader_write {path : KeyPath} (h : path.Fits) (close rest : List Char)
    (hclose : close.head? = some ']') :
    readHeader close (writeKey path ++ (close ++ '\n' :: rest)) = some (path, rest) := by
  obtain ⟨tail, rfl⟩ : ∃ tail, close = ']' :: tail := by
    cases close with
    | nil => cases hclose
    | cons c tail => exact ⟨tail, by rw [Option.some.inj hclose]⟩
  have hkey := readKey_bracket h (tail ++ '\n' :: rest)
  simp [readHeader, hkey, finishLine_newline]

theorem readStatement_writeStatement {st : Statement} (h : st.Fits) (rest : List Char) :
    readStatement (writeStatement st ++ rest) = some (st, rest) := by
  cases st with
  | pair path value =>
    have hend := head?_ne_quote (c := '\n') (by decide) (by decide) rest
    have hpair := readPair_write h.1 h.2 hend
    obtain ⟨c, cs, hkey, hc⟩ := head_writeKey h.1.1
    have hopen : c ≠ '[' := ne_of_opensKey hc rfl
    rw [hkey, List.cons_append] at hpair
    simp [writeStatement, readStatement, hkey, hopen, hpair, finishLine_newline]
  | header path =>
    have hheader := readHeader_write h [']'] rest rfl
    obtain ⟨c, cs, hkey, hc⟩ := head_writeKey h.1
    have hopen : c ≠ '[' := ne_of_opensKey hc rfl
    rw [hkey, List.cons_append] at hheader
    simpa [writeStatement, readStatement, hkey, hopen] using hheader
  | arrayHeader path =>
    have hheader := readHeader_write h [']', ']'] rest rfl
    simpa [writeStatement, readStatement] using hheader

/-! ## Documents -/

def Statement.margin : Statement → List Char
  | .pair _ _ => []
  | .header _ => ['\n']
  | .arrayHeader _ => ['\n']

def Statement.lines (st : Statement) : List Char := st.margin ++ writeStatement st

/-- The text of some statements, each of which brings its own lines. -/
def textOf (sts : List Statement) : String := String.ofList (sts.flatMap Statement.lines)

theorem writeFurther_eq (sts : List Statement) : writeFurther sts = sts.flatMap Statement.lines := by
  induction sts with
  | nil => rfl
  | cons st sts ih => cases st <;> simp [writeFurther, Statement.lines, Statement.margin, ih]

theorem writeDocument_eq_textOf (path : KeyPath) (value : Value) (sts : List Statement) :
    writeDocument (.pair path value :: sts) = textOf (.pair path value :: sts) := by
  simp [writeDocument, writeStatements, textOf, writeFurther_eq, Statement.lines, Statement.margin]

theorem head_writeStatement {st : Statement} (h : st.Fits) :
    ∃ c cs, writeStatement st = c :: cs ∧ (c = '[' ∨ opensKey c = true) := by
  cases st with
  | pair path value =>
    obtain ⟨c, cs, hkey, hc⟩ := head_writeKey h.1.1
    exact ⟨c, _, by rw [writeStatement, hkey]; rfl, .inr hc⟩
  | header path => exact ⟨'[', _, rfl, .inl rfl⟩
  | arrayHeader path => exact ⟨'[', _, rfl, .inl rfl⟩

theorem readStatements_first {st : Statement} (h : st.Fits) (bound : Nat) :
    readStatements (bound + 1) (writeStatement st ++ rest) =
      (readStatements bound rest).map fun more => st :: more := by
  have hread := readStatement_writeStatement h rest
  obtain ⟨c, cs, hst, hc⟩ := head_writeStatement h
  have hsolid : isSolid c = true := by
    rcases hc with rfl | hc
    · rfl
    · exact isSolid_of_opensKey hc
  rw [hst, List.cons_append] at hread ⊢
  simp [readStatements, skipBlanks_solid hsolid, (isSolid_iff.1 hsolid).2.1,
    startsLine_solid hsolid, hread]

theorem readStatements_margin (st : Statement) (bound : Nat) :
    readStatements (bound + st.margin.length) (st.margin ++ cs) = readStatements bound cs := by
  cases st <;> rfl

theorem readStatements_cons {st : Statement} (h : st.Fits) {bound : Nat}
    (hbound : (st.lines ++ rest).length < bound) :
    ∃ n, rest.length < n ∧
      readStatements bound (st.lines ++ rest) =
        (readStatements n rest).map fun more => st :: more := by
  obtain ⟨c, cs, hst, -⟩ := head_writeStatement h
  have hlength : (writeStatement st).length = cs.length + 1 := by rw [hst]; rfl
  simp only [Statement.lines, List.append_assoc, List.length_append] at hbound ⊢
  obtain ⟨n, rfl⟩ : ∃ n, bound = (n + 1) + st.margin.length :=
    ⟨bound - st.margin.length - 1, by omega⟩
  exact ⟨n, by omega, by rw [readStatements_margin, readStatements_first h]⟩

theorem readStatements_lines {sts : List Statement} (h : ∀ st ∈ sts, st.Fits) {bound : Nat}
    (hbound : (sts.flatMap Statement.lines).length < bound) :
    readStatements bound (sts.flatMap Statement.lines) = some sts := by
  induction sts generalizing bound with
  | nil =>
    obtain ⟨bound, rfl⟩ := Nat.exists_eq_add_one.2 hbound
    rfl
  | cons st sts ih =>
    rw [List.flatMap_cons] at hbound ⊢
    obtain ⟨n, hn, hread⟩ := readStatements_cons (h st List.mem_cons_self) hbound
    rw [hread, ih (fun st hst => h st (List.mem_cons_of_mem _ hst)) hn]
    rfl

theorem dropMark_lines {sts : List Statement} (h : ∀ st ∈ sts, st.Fits) :
    dropMark (sts.flatMap Statement.lines) = sts.flatMap Statement.lines := by
  cases sts with
  | nil => rfl
  | cons st sts =>
    obtain ⟨c, cs, hst, hc⟩ := head_writeStatement (h st List.mem_cons_self)
    have hmark : c ≠ '\ufeff' := by
      rcases hc with rfl | hc
      · decide
      · exact ne_of_opensKey hc rfl
    rw [List.flatMap_cons, Statement.lines, hst]
    cases st with
    | pair path value => simp [Statement.margin, dropMark, hmark]
    | header path => rfl
    | arrayHeader path => rfl

/-- A document whose statements fit is read as the tables that they make. -/
theorem readDocument_textOf {sts : List Statement} (h : ∀ st ∈ sts, st.Fits) :
    readDocument (textOf sts) = (Section.build sts).map toEntries := by
  have hread := readStatements_lines h (Nat.lt_succ_self _)
  simp only [readDocument, textOf, String.toList_ofList, dropMark_lines h, hread, Option.bind_some]

end ScriptWorker.Toml
