import Mathlib.Tactic.SplitIfs
import ScriptWorker.Toml.Text

/-!
# Strings are read back

Whatever form a string is written in, its reader gives the string back and stops right behind its
closing quotes, as long as no further quote follows them. Over several lines quotes may stand as they
are, two in a row at most, so that the three closing ones can be told from them: a reader that meets a
quote has to count how many come after it.
-/

namespace ScriptWorker.Toml

variable {f : StringForm} {c : Char} {cs rest : List Char}

/-! ## What a quote closes -/

theorem takeWhile_replicate_append {q : Char} (n : Nat) (hrest : rest.head? ≠ some q) :
    (List.replicate n q ++ rest).takeWhile (· = q) = List.replicate n q := by
  induction n with
  | zero =>
    cases rest with
    | nil => rfl
    | cons c rest => simp_all
  | succ n ih => simpa [List.replicate_succ] using ih

theorem closing?_line (h : f.multiline = false) : closing? f rest = some ([], rest) := by
  simp [closing?, h]

theorem closing?_few (h : f.multiline = true) (hfew : (rest.takeWhile (· = f.quote)).length < 2) :
    closing? f rest = none := by
  simp [closing?, h, hfew]

theorem closing?_last (h : f.multiline = true) {n : Nat} (hn : n ≤ 2)
    (hrest : rest.head? ≠ some f.quote) :
    closing? f (List.replicate (n + 2) f.quote ++ rest) = some (List.replicate n f.quote, rest) := by
  have hrun := takeWhile_replicate_append (n + 2) hrest
  have hextra : min 2 n = n := by omega
  simp [closing?, h, hrun, hextra]

/-! ## One step of a reader -/

theorem quote_ne_newline (f : StringForm) : f.quote ≠ '\n' := by
  unfold StringForm.quote
  split <;> decide

theorem readBody_inside (h : closing? f cs = none) :
    readBody f false (f.quote :: cs) = prepend f.quote (readBody f false cs) := by
  rw [readBody.eq_def]
  simp [h]

theorem readBody_close {found : List Char × List Char} (h : closing? f cs = some found) :
    readBody f false (f.quote :: cs) = some found := by
  rw [readBody.eq_def]
  simp [h]

theorem readBody_plain (hquote : c ≠ f.quote) (hescape : f.escapes = true → c ≠ '\\')
    (hline : c ≠ '\n') (hcontrol : isControl c = false) :
    readBody f false (c :: cs) = prepend c (readBody f false cs) := by
  have hreturn : c ≠ '\r' := by
    rintro rfl
    cases hcontrol
  have hslash : ¬ (f.escapes = true ∧ c = '\\') := fun h => hescape h.1 h.2
  rw [readBody.eq_def]
  simp [hquote, hslash, hline, hreturn, hcontrol]

theorem readBody_newline (h : f.multiline = true) :
    readBody f false ('\n' :: cs) = prepend '\n' (readBody f false cs) := by
  have hquote := (quote_ne_newline f).symm
  rw [readBody.eq_def]
  simp [hquote, h]

theorem readBody_escape (m : Bool) {e : Char} (h : namedEscape e = some c) :
    readBody ⟨true, m⟩ false ('\\' :: e :: cs) = prepend c (readBody ⟨true, m⟩ false cs) := by
  rw [readBody.eq_def]
  have hquote : '\\' ≠ StringForm.quote ⟨true, m⟩ := by simp [StringForm.quote]
  simp only [Bool.false_and, Bool.false_eq_true, if_false, if_neg hquote, and_self, if_true]
  split
  · next heq =>
    cases heq
    cases h.symm.trans (by decide : namedEscape 'u' = none)
  · next heq =>
    cases heq
    cases h.symm.trans (by decide : namedEscape 'U' = none)
  · next heq =>
    obtain ⟨rfl, rfl⟩ := List.cons.inj heq
    simp [h]
  · next heq => cases heq

theorem readBody_unicode (m : Bool) {a b d e : Char} (h : codePoint [a, b, d, e] = some c) :
    readBody ⟨true, m⟩ false ('\\' :: 'u' :: a :: b :: d :: e :: cs) =
      prepend c (readBody ⟨true, m⟩ false cs) := by
  rw [readBody.eq_def]
  have hquote : '\\' ≠ StringForm.quote ⟨true, m⟩ := by simp [StringForm.quote]
  simp [hquote, h]

/-! ## Escapes -/

theorem codePoint_hexDigits : ∀ n < 128,
    codePoint ['0', '0', upperHexDigit (n / 16), upperHexDigit (n % 16)] = some (Char.ofNat n) := by
  decide

theorem readBody_controlEscape (m : Bool) (h : c.toNat < 0x20 ∨ c.toNat = 0x7f) :
    readBody ⟨true, m⟩ false (controlEscape c ++ cs) = prepend c (readBody ⟨true, m⟩ false cs) := by
  unfold controlEscape
  split_ifs with hb ht hn hf hr
  · exact readBody_escape m (by rw [hb]; rfl)
  · exact readBody_escape m (by rw [ht]; rfl)
  · exact readBody_escape m (by rw [hn]; rfl)
  · exact readBody_escape m (by rw [hf]; rfl)
  · exact readBody_escape m (by rw [hr]; rfl)
  · refine readBody_unicode m ?_
    rw [codePoint_hexDigits c.toNat (by omega), Char.ofNat_toNat]

/-! ## Strings between double quotes -/

section Escaped

variable {m : Bool} {run : Nat} {s : List Char}

theorem readBody_writeEscaped_cons (h : ¬ (c = '"' ∧ m = true ∧ run < 2)) :
    readBody ⟨true, m⟩ false (writeEscaped m run (c :: s) ++ cs) =
      prepend c (readBody ⟨true, m⟩ false (writeEscaped m 0 s ++ cs)) := by
  rw [writeEscaped]
  split_ifs with hquote hfew hslash hline hcontrol
  · exact (h ⟨hquote, hfew⟩).elim
  · rw [hquote]
    exact readBody_escape m rfl
  · rw [hslash]
    exact readBody_escape m rfl
  · rw [hline.1]
    exact readBody_newline hline.2
  · rw [List.append_assoc]
    exact readBody_controlEscape m hcontrol
  · have hplain : isControl c = false := by
      simp only [isControl, Bool.or_eq_false_iff, Bool.and_eq_false_iff, decide_eq_false_iff_not]
      omega
    refine readBody_plain hquote (fun _ => hslash) ?_ hplain
    rintro rfl
    exact hcontrol (.inl (by decide))

theorem head?_writeEscaped (h : ¬ (c = '"' ∧ m = true ∧ run < 2)) :
    (writeEscaped m run (c :: s) ++ cs).head? ≠ some '"' := by
  rw [writeEscaped]
  split_ifs with hquote hfew hslash hline hcontrol
  · exact (h ⟨hquote, hfew⟩).elim
  · simp
  · simp
  · simp
  · unfold controlEscape
    split_ifs <;> simp
  · simpa using hquote

theorem head?_writeEscaped_line (hc : c ≠ '\n') {e : Char} (he : e = '\n' ∨ e = '\r') :
    (writeEscaped m run (c :: s) ++ cs).head? ≠ some e := by
  have hquote : e ≠ '"' := by rcases he with rfl | rfl <;> decide
  have hslash : e ≠ '\\' := by rcases he with rfl | rfl <;> decide
  have hcontrol : e.toNat < 0x20 := by rcases he with rfl | rfl <;> decide
  rw [writeEscaped]
  split_ifs with hbare hfew hback hline hplain
  · simpa using hquote.symm
  · simpa using hslash.symm
  · simpa using hslash.symm
  · exact (hc hline.1).elim
  · unfold controlEscape
    split_ifs <;> simpa using hslash.symm
  · rintro heq
    obtain rfl := Option.some.inj heq
    exact hplain (.inl hcontrol)

theorem readBody_line (run : Nat) (s rest : List Char) :
    readBody ⟨true, false⟩ false (writeEscaped false run s ++ '"' :: rest) = some (s, rest) := by
  induction s generalizing run with
  | nil => exact readBody_close (closing?_line rfl)
  | cons c s ih =>
    rw [readBody_writeEscaped_cons (by simp), ih]
    rfl

theorem writeEscaped_quotes {n : Nat} (h : n + run ≤ 2) :
    writeEscaped true run (List.replicate n '"') = List.replicate n '"' := by
  induction n generalizing run with
  | zero => rfl
  | succ n ih =>
    have hfew : run < 2 := by omega
    rw [List.replicate_succ]
    rw [writeEscaped]
    rw [if_pos rfl, if_pos ⟨rfl, hfew⟩, ih (by omega)]

end Escaped

/-! ## Quotes over several lines -/

def quotesAhead (q : Char) (cs : List Char) : Nat := (cs.takeWhile (· = q)).length

theorem quotesAhead_cons (q : Char) (cs : List Char) :
    quotesAhead q (q :: cs) = quotesAhead q cs + 1 := by
  simp [quotesAhead]

theorem quotesAhead_of_head? {q : Char} (h : cs.head? ≠ some q) : quotesAhead q cs = 0 := by
  cases cs with
  | nil => rfl
  | cons c cs => simp_all [quotesAhead]

/-- A text after a quote, as it is written: it is at most one more quote, or fewer than two quotes come
before another character. -/
def QuoteApart (q : Char) (s written tail : List Char) : Prop :=
  (∃ n ≤ 1, s = List.replicate n q ∧ written = List.replicate n q) ∨
    quotesAhead q (written ++ tail) < 2

theorem readBody_quote {s written : List Char} (hlines : f.multiline = true)
    (hrest : rest.head? ≠ some f.quote)
    (hapart : QuoteApart f.quote s written (List.replicate 3 f.quote ++ rest))
    (hread : readBody f false (written ++ (List.replicate 3 f.quote ++ rest)) = some (s, rest)) :
    readBody f false (f.quote :: (written ++ (List.replicate 3 f.quote ++ rest))) =
      some (f.quote :: s, rest) := by
  rcases hapart with ⟨n, hn, rfl, rfl⟩ | hfew
  · have hclose := closing?_last hlines (show n + 1 ≤ 2 by omega) hrest
    rw [show n + 1 + 2 = n + 3 by omega, ← List.replicate_append_replicate,
      List.append_assoc] at hclose
    exact readBody_close hclose
  · rw [readBody_inside (closing?_few hlines hfew), hread]
    rfl

theorem readBody_end (hlines : f.multiline = true) (hrest : rest.head? ≠ some f.quote) :
    readBody f false (List.replicate 3 f.quote ++ rest) = some ([], rest) :=
  readBody_close (closing?_last hlines (Nat.zero_le 2) hrest)

/-- Over several lines bare quotes come two in a row at most. -/
theorem quotes_writeEscaped {run : Nat} (s tail : List Char) (hrun : run ≤ 2) :
    (∃ n, n + run ≤ 2 ∧ s = List.replicate n '"') ∨
      quotesAhead '"' (writeEscaped true run s ++ tail) + run ≤ 2 := by
  induction s generalizing run with
  | nil => exact .inl ⟨0, by omega, rfl⟩
  | cons c s ih =>
    by_cases hbare : c = '"' ∧ run < 2
    · obtain ⟨rfl, hfew⟩ := hbare
      rw [writeEscaped, if_pos rfl, if_pos ⟨rfl, hfew⟩, List.cons_append, quotesAhead_cons]
      rcases ih (show run + 1 ≤ 2 by omega) with ⟨n, hn, rfl⟩ | hahead
      · exact .inl ⟨n + 1, by omega, rfl⟩
      · exact .inr (by omega)
    · rw [quotesAhead_of_head? (head?_writeEscaped fun h => hbare ⟨h.1, h.2.2⟩)]
      exact .inr (by omega)

theorem quoteApart_writeEscaped {run : Nat} (s tail : List Char) (hrun : run < 2) :
    QuoteApart '"' s (writeEscaped true (run + 1) s) tail := by
  rcases quotes_writeEscaped s tail (show run + 1 ≤ 2 by omega) with ⟨n, hn, rfl⟩ | hahead
  · exact .inl ⟨n, by omega, rfl, writeEscaped_quotes hn⟩
  · exact .inr (by omega)

theorem readBody_lines {run : Nat} (s : List Char) (hrun : run ≤ 2) (hrest : rest.head? ≠ some '"') :
    readBody ⟨true, true⟩ false (writeEscaped true run s ++ (List.replicate 3 '"' ++ rest)) =
      some (s, rest) := by
  induction s generalizing run with
  | nil => exact readBody_end rfl hrest
  | cons c s ih =>
    by_cases hbare : c = '"' ∧ run < 2
    · obtain ⟨rfl, hfew⟩ := hbare
      rw [writeEscaped, if_pos rfl, if_pos ⟨rfl, hfew⟩]
      exact readBody_quote rfl hrest (quoteApart_writeEscaped s _ hfew) (ih (by omega))
    · rw [readBody_writeEscaped_cons fun h => hbare ⟨h.1, h.2.2⟩, ih (Nat.zero_le 2)]
      rfl

/-! ## Strings as they are -/

section Literal

variable {m : Bool} {run : Nat} {s : List Char}

theorem le_longestRun (q : Char) (run : Nat) (s : List Char) : run ≤ longestRun q run s := by
  induction s generalizing run with
  | nil => exact Nat.le_refl _
  | cons c s ih =>
    unfold longestRun
    split
    · have hmore := ih (run + 1)
      omega
    · exact Nat.le_max_left ..

theorem quotes_literal {q : Char} (s tail : List Char) (hs : longestRun q run s ≤ 2) :
    (∃ n, n + run ≤ 2 ∧ s = List.replicate n q) ∨ quotesAhead q (s ++ tail) + run ≤ 2 := by
  induction s generalizing run with
  | nil => exact .inl ⟨0, by simpa [longestRun] using hs, rfl⟩
  | cons c s ih =>
    have hrun := Nat.le_trans (le_longestRun q run (c :: s)) hs
    unfold longestRun at hs
    split at hs
    · next hc =>
      subst hc
      rw [List.cons_append, quotesAhead_cons]
      rcases ih hs with ⟨n, hn, rfl⟩ | hahead
      · exact .inl ⟨n + 1, by omega, rfl⟩
      · exact .inr (by omega)
    · next hc =>
      rw [quotesAhead_of_head? (by simpa using hc)]
      exact .inr (by omega)

theorem readBody_literal_line (s rest : List Char) (hquote : '\'' ∉ s) (hline : '\n' ∉ s)
    (hplain : ∀ c ∈ s, isControl c = false) :
    readBody ⟨false, false⟩ false (s ++ '\'' :: rest) = some (s, rest) := by
  induction s with
  | nil => exact readBody_close (closing?_line rfl)
  | cons c s ih =>
    simp only [List.mem_cons, not_or, forall_eq_or_imp] at hquote hline hplain
    have hstep : readBody ⟨false, false⟩ false (c :: (s ++ '\'' :: rest)) =
        prepend c (readBody ⟨false, false⟩ false (s ++ '\'' :: rest)) :=
      readBody_plain (Ne.symm hquote.1) (fun h => nomatch h) (Ne.symm hline.1) hplain.1
    rw [List.cons_append, hstep, ih hquote.2 hline.2 hplain.2]
    rfl

theorem readBody_literal_lines (s : List Char) (hs : longestRun '\'' run s ≤ 2)
    (hplain : ∀ c ∈ s, isControl c = true → c = '\n') (hrest : rest.head? ≠ some '\'') :
    readBody ⟨false, true⟩ false (s ++ (List.replicate 3 '\'' ++ rest)) = some (s, rest) := by
  induction s generalizing run with
  | nil => exact readBody_end rfl hrest
  | cons c s ih =>
    have hplain' : ∀ c ∈ s, isControl c = true → c = '\n' := fun c hc =>
      hplain c (List.mem_cons_of_mem _ hc)
    unfold longestRun at hs
    split at hs
    · next hc =>
      subst hc
      have hrun := le_longestRun '\'' (run + 1) s
      have hapart : QuoteApart '\'' s s (List.replicate 3 '\'' ++ rest) := by
        rcases quotes_literal s (List.replicate 3 '\'' ++ rest) hs with ⟨n, hn, hquotes⟩ | hahead
        · exact .inl ⟨n, by omega, hquotes, hquotes⟩
        · exact .inr (by omega)
      exact readBody_quote rfl hrest hapart (ih hs hplain')
    · next hc =>
      have hread := ih (Nat.le_trans (Nat.le_max_right ..) hs) hplain'
      by_cases hline : c = '\n'
      · rw [hline, List.cons_append, readBody_newline rfl, hread]
        rfl
      · have hcontrol : isControl c = false := by
          rw [Bool.eq_false_iff]
          exact fun h => hline (hplain c List.mem_cons_self h)
        have hstep : readBody ⟨false, true⟩ false (c :: (s ++ (List.replicate 3 '\'' ++ rest))) =
            prepend c (readBody ⟨false, true⟩ false (s ++ (List.replicate 3 '\'' ++ rest))) :=
          readBody_plain hc (fun h => nomatch h) hline hcontrol
        rw [List.cons_append, hstep, hread]
        rfl

end Literal

/-! ## The form that is chosen -/

/-- A form can show a string as it is, or escapes what it cannot. -/
def StringForm.Shows (f : StringForm) (s : List Char) : Prop :=
  f.escapes = true ∨
    (f.multiline = false ∧ '\'' ∉ s ∧ '\n' ∉ s ∧ ∀ c ∈ s, isControl c = false) ∨
    f.multiline = true ∧ longestRun '\'' 0 s ≤ 2 ∧ ∀ c ∈ s, isControl c = true → c = '\n'

theorem not_mem_of_longestRun {q : Char} {s : List Char} (h : longestRun q 0 s = 0) : q ∉ s := by
  induction s with
  | nil => exact List.not_mem_nil
  | cons c s ih =>
    unfold longestRun at h
    split at h
    · have hrun := le_longestRun q (0 + 1) s
      omega
    · next hc =>
      have hrest : longestRun q 0 s = 0 := by omega
      rw [List.mem_cons, not_or]
      exact ⟨Ne.symm hc, ih hrest⟩

theorem eq_newline_of_isControl {s : List Char} (h : needsEscapes s = false) (hc : c ∈ s)
    (hcontrol : isControl c = true) : c = '\n' := by
  have hall := List.any_eq_false.1 h c hc
  simpa [hcontrol] using hall

theorem shows_choose (s : List Char) : (StringForm.choose s).Shows s := by
  unfold StringForm.choose
  dsimp only
  split_ifs with hescapes hdouble hsingle hdoubles hsingles
  · exact .inl rfl
  · exact .inl rfl
  · simp only [Bool.and_eq_true, decide_eq_true_eq, Bool.not_eq_true'] at hsingle
    have hline : '\n' ∉ s := by simpa [hasNewline] using hsingle.2
    refine .inr (.inl ⟨rfl, not_mem_of_longestRun hsingle.1, hline, fun c hc => ?_⟩)
    rw [Bool.eq_false_iff]
    rintro hcontrol
    rw [eq_newline_of_isControl (Bool.eq_false_iff.2 hescapes) hc hcontrol] at hc
    exact hline hc
  · exact .inl rfl
  · exact .inr (.inr ⟨rfl, by simpa using hsingles, fun c hc =>
      eq_newline_of_isControl (Bool.eq_false_iff.2 hescapes) hc⟩)
  · exact .inl rfl

/-! ## Whole strings -/

theorem delimiter_lines (h : f.multiline = true) : f.delimiter = List.replicate 3 f.quote := by
  simp [StringForm.delimiter, h, List.replicate_succ]

theorem delimiter_line (h : f.multiline = false) : f.delimiter = [f.quote] := by
  simp [StringForm.delimiter, h]

/-- The body of a string that its form shows is read back up to the closing quotes. -/
theorem readBody_writeBody {s : List Char} (h : f.Shows s) (hrest : rest.head? ≠ some f.quote) :
    readBody f false (writeBody f s ++ (f.delimiter ++ rest)) = some (s, rest) := by
  obtain ⟨escapes, lines⟩ := f
  cases escapes with
  | false =>
    rcases h with h | ⟨rfl, hquote, hline, hplain⟩ | ⟨rfl, hquotes, hplain⟩
    · cases h
    · exact readBody_literal_line s rest hquote hline hplain
    · rw [delimiter_lines rfl]
      exact readBody_literal_lines s hquotes hplain hrest
  | true =>
    cases lines with
    | false => exact readBody_line 0 s rest
    | true =>
      rw [delimiter_lines rfl]
      exact readBody_lines s (Nat.zero_le 2) hrest

theorem readString_line (escapes : Bool) {cs : List Char}
    (h : ∀ rest,
      cs ≠ StringForm.quote ⟨escapes, false⟩ :: StringForm.quote ⟨escapes, false⟩ :: rest) :
    readString (StringForm.quote ⟨escapes, false⟩ :: cs) =
      asText (readBody ⟨escapes, false⟩ false cs) := by
  cases escapes with
  | false =>
    unfold readString
    split
    · next heq => cases heq
    · next heq => exact (h _ (List.cons.inj heq).2).elim
    · rfl
  | true =>
    unfold readString
    split
    · next heq => exact (h _ (List.cons.inj heq).2).elim
    · next heq => cases heq
    · rfl

theorem readString_lines (escapes : Bool) (cs : List Char) :
    readString (List.replicate 3 (StringForm.quote ⟨escapes, true⟩) ++ cs) =
      asText (readBody ⟨escapes, true⟩ false (dropFirstLineEnd cs)) := by
  cases escapes <;> rfl

theorem writeBody_ne_quotes {s : List Char} (hline : f.multiline = false) (h : f.Shows s)
    (hrest : rest.head? ≠ some f.quote) (cs : List Char) :
    writeBody f s ++ (f.quote :: rest) ≠ f.quote :: f.quote :: cs := by
  intro heq
  cases s with
  | nil =>
    have hempty : writeBody f [] = [] := by
      unfold writeBody
      split <;> rfl
    rw [hempty] at heq
    exact hrest (by rw [(List.cons.inj heq).2]; rfl)
  | cons c s =>
    have hhead : (writeBody f (c :: s) ++ (f.quote :: rest)).head? = some f.quote := by
      rw [heq]
      rfl
    obtain ⟨escapes, lines⟩ := f
    cases hline
    cases escapes with
    | true => exact head?_writeEscaped (by simp) hhead
    | false =>
      rcases h with h | ⟨-, hquote, -⟩ | ⟨h, -⟩
      · cases h
      · exact hquote (by rw [Option.some.inj hhead]; exact List.mem_cons_self)
      · cases h

theorem dropFirstLineEnd_of_head? (hline : cs.head? ≠ some '\n') (hreturn : cs.head? ≠ some '\r') :
    dropFirstLineEnd cs = cs := by
  unfold dropFirstLineEnd
  split
  · exact (hline rfl).elim
  · exact (hreturn rfl).elim
  · rfl

theorem head?_writeBody {s : List Char} (h : f.Shows s) (hline : '\n' ∉ s) {e : Char}
    (he : e = '\n' ∨ e = '\r') : (writeBody f s ++ (f.delimiter ++ rest)).head? ≠ some e := by
  obtain ⟨escapes, lines⟩ := f
  cases s with
  | nil =>
    rcases he with rfl | rfl <;> cases escapes <;> cases lines <;>
      simp [writeBody, writeEscaped, StringForm.delimiter, StringForm.quote]
  | cons c s =>
    rw [List.mem_cons, not_or] at hline
    cases escapes with
    | true => exact head?_writeEscaped_line (Ne.symm hline.1) he
    | false =>
      intro heq
      obtain rfl := Option.some.inj heq
      have hcontrol : isControl c = true := by rcases he with rfl | rfl <;> decide
      rcases h with h | ⟨-, -, -, hplain⟩ | ⟨-, -, hplain⟩
      · cases h
      · exact Bool.false_ne_true ((hplain c List.mem_cons_self).symm.trans hcontrol)
      · exact hline.1 (hplain c List.mem_cons_self hcontrol).symm

theorem dropFirstLineEnd_writeBody {s : List Char} (h : f.Shows s) (rest : List Char) :
    dropFirstLineEnd ((if hasNewline s then ['\n'] else []) ++
        (writeBody f s ++ (f.delimiter ++ rest))) =
      writeBody f s ++ (f.delimiter ++ rest) := by
  split
  · rfl
  · next hnone =>
    have hline : '\n' ∉ s := by simpa [hasNewline] using hnone
    exact dropFirstLineEnd_of_head? (head?_writeBody h hline (.inl rfl))
      (head?_writeBody h hline (.inr rfl))

/-- A string is read back from its plainest form, up to the closing quotes. -/
theorem readString_writeString (s rest : List Char)
    (hrest : ∀ f : StringForm, rest.head? ≠ some f.quote) :
    readString (writeString s ++ rest) = some (String.ofList s, rest) := by
  have hshows := shows_choose s
  have hbody := readBody_writeBody hshows (hrest (StringForm.choose s))
  unfold writeString
  generalize StringForm.choose s = f at hshows hbody ⊢
  obtain ⟨escapes, lines⟩ := f
  cases lines with
  | false =>
    rw [delimiter_line rfl] at hbody
    have hopen := readString_line escapes (writeBody_ne_quotes rfl hshows (hrest _))
    simpa [asText, StringForm.delimiter] using hopen.trans (congrArg asText hbody)
  | true =>
    have hread := (dropFirstLineEnd_writeBody hshows rest).symm ▸ hbody
    have hopen := (readString_lines escapes _).trans (congrArg asText hread)
    simpa [asText, delimiter_lines] using hopen

end ScriptWorker.Toml
