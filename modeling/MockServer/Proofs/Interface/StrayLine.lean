import MockServer.Proofs.Interface.Composition
import MockServer.Proofs.Interface.Parts

/-!
Stray lines. A line without a colon declares nothing, and its open brackets reach no other line: if
one of its braces takes the close of the interface, that close is read as one more stray line.
-/
namespace MockServer.Interface

open MockServer.Text

/-- A line that stands alone: it is no field, opens no comment and closes no brace. It may leave any
brackets open. -/
def IsStray (l : List Char) : Prop := ∀ c ∈ ['\n', ':', '/', '\x7d'], c ∉ l

variable {name b c l s t u : List Char}

/-! Texts without a colon -/

/-- There are no declarations in a text without a colon. -/
theorem filterMap_entries_of_not_mem (h : ':' ∉ s) : (entries s).filterMap readPiece? = [] := by
  refine List.filterMap_eq_nil_iff.mpr fun piece hpiece => ?_
  refine Option.eq_none_iff_forall_not_mem.mpr fun d hd => h ?_
  have hcolon : (':' :: d.type).Sublist s :=
    (Declaration.colon_type_sublist hd).trans ((trim_sublist piece).trans
      ((List.sublist_flatten_of_mem hpiece).trans (flatten_entries_sublist s)))
  exact hcolon.subset List.mem_cons_self

private theorem Declaration.opens_of_not_mem (h : ':' ∉ s) : opens s = false := by
  have hafter : afterName? ((trimStart s).dropWhile isWord) = none := by
    refine Option.eq_none_iff_forall_not_mem.mpr fun ⟨o, type⟩ hsome => h ?_
    have hsuffix := (colon_suffix_of_afterName? hsome).trans (List.dropWhile_suffix isWord)
    exact (trimStart_sublist s).subset (hsuffix.subset List.mem_cons_self)
  rw [opens, hafter]
  exact Bool.and_false _

/-- A line without a colon opens no group. -/
theorem scanLines_of_not_mem (hline : '\n' ∉ l) (hcolon : ':' ∉ l) :
    (scanLines (linesOf (l ++ ['\n']))).1.lines = [] := by
  have hopens : Declaration.opens (l ++ ['\n']) = false :=
    Declaration.opens_of_not_mem (List.not_mem_append hcolon (by decide))
  rw [linesOf_append hline]
  show (({} : OpenGroup).add (l ++ ['\n'])).1.lines = []
  rw [OpenGroup.add, hopens]
  simp

/-! Braces that are not closed -/

/-- A close behind a text in which no brace is closed that is not open either closes the brace
around the text, or stays. -/
theorem insideBrace_close (h : ∀ p, p <+: t → p.count '\x7d' ≤ p.count '\x7b') :
    insideBrace (t ++ ['\x7d']) = t ∨ insideBrace (t ++ ['\x7d']) = t ++ ['\x7d'] := by
  have hclose := closeAfter?_append (d := 0) (by simpa using h) [] ['\x7d']
  rw [List.append_nil, closeAfter?, if_neg (by decide), if_pos rfl] at hclose
  rw [insideBrace, hclose]
  split
  · exact .inl (List.reverse_reverse t)
  · exact .inr rfl

/-- A part without a close leaves no brace closed that is not open. -/
theorem count_le_of_insert (hl : '\x7d' ∉ l)
    (h : ∀ p, p <+: b ++ c → p.count '\x7d' ≤ p.count '\x7b') {p : List Char}
    (hp : p <+: b ++ (l ++ c)) : p.count '\x7d' ≤ p.count '\x7b' := by
  obtain ⟨u, hp⟩ := hp
  rcases List.append_eq_append_iff.mp hp with ⟨m, rfl, -⟩ | ⟨m, rfl, hm⟩
  · exact h p ((List.prefix_append p m).trans (List.prefix_append _ c))
  rcases List.append_eq_append_iff.mp hm.symm with ⟨k, rfl, -⟩ | ⟨k, rfl, rfl⟩
  · have hk : m.count '\x7d' = 0 := List.count_eq_zero.mpr fun hk => hl (by simp [hk])
    have hopened := h b (List.prefix_append b c)
    rw [List.count_append, List.count_append, hk]
    omega
  · have hk : l.count '\x7d' = 0 := List.count_eq_zero.mpr hl
    have hopened := h (b ++ k) (by simp)
    simp only [List.count_append] at hopened ⊢
    omega

/-! The interface -/

private theorem not_infix_of_insert {x : Char} (hx : x ≠ '\n') (hl : '/' ∉ l)
    (hb : b = [] ∨ b.getLast? = some '\n') (h : ¬ ['/', x] <:+: b ++ c) :
    ¬ ['/', x] <:+: b ++ (l ++ '\n' :: c) := by
  have hline : '\n' ∉ ['/', x] := by simp [Ne.symm hx]
  rw [infix_append_of_ended hline (by simp) hb] at h ⊢
  rw [infix_append_cons_iff hline]
  rintro (hin | hin | hin)
  · exact h (.inl hin)
  · exact hl (hin.subset List.mem_cons_self)
  · exact h (.inr hin)

/-- What follows the place of the line is finished too. -/
theorem IsCompleteBody.right (h : IsCompleteBody (b ++ c)) (hbound : b = [] ∨ b.getLast? = some '\n')
    (hfinished : (scanLines (linesOf b)).1.lines = []) :
    (c = [] ∨ c.getLast? = some '\n') ∧ (scanLines (linesOf c)).1.lines = [] := by
  constructor
  · refine or_iff_not_imp_left.mpr fun hc => ?_
    rcases h.ended with hnil | hlast
    · exact absurd (List.append_eq_nil_iff.mp hnil).2 hc
    · rwa [List.getLast?_append_of_ne_nil b hc] at hlast
  · rw [← scanLines_append hbound hfinished]
    exact h.finished

/-- Neither the stray line nor a close after the last line declares anything. -/
theorem filterMap_entries_insert (hb : IsCompleteBody (b ++ c))
    (hbound : b = [] ∨ b.getLast? = some '\n')
    (hfinished : (scanLines (linesOf b)).1.lines = []) (hl : IsStray l) (hu : ':' ∉ u) :
    (entries (b ++ (l ++ '\n' :: c) ++ u)).filterMap readPiece? =
      (entries (b ++ c)).filterMap readPiece? := by
  obtain ⟨hended, hgroup⟩ := hb.right hbound hfinished
  have hsplit : b ++ (l ++ '\n' :: c) ++ u = b ++ ((l ++ ['\n']) ++ (c ++ u)) := by simp
  have hstray : (entries (l ++ ['\n'])).filterMap readPiece? = [] :=
    filterMap_entries_of_not_mem (List.not_mem_append (hl ':' (by simp)) (by decide))
  rw [hsplit, entries_append hbound hfinished, entries_append (.inr List.getLast?_concat)
    (scanLines_of_not_mem (hl '\n' (by simp)) (hl ':' (by simp))),
    entries_append hended hgroup, entries_append hbound hfinished c]
  simp only [List.filterMap_append, hstray, filterMap_entries_of_not_mem hu, List.nil_append,
    List.append_nil]

/-- A stray line between two lines where no group is open swallows nothing and adds nothing. -/
theorem parse_insert_line (hn : IsIdentifier name) (hb : IsCompleteBody (b ++ c))
    (hbound : b = [] ∨ b.getLast? = some '\n')
    (hfinished : (scanLines (linesOf b)).1.lines = []) (hl : IsStray l) :
    parse (textOfBody name (b ++ (l ++ '\n' :: c))) = parse (textOfBody name (b ++ c)) := by
  have hopened : ∀ p, p <+: b ++ (l ++ '\n' :: c) → p.count '\x7d' ≤ p.count '\x7b' := by
    have hclose : '\x7d' ∉ l ++ ['\n'] := List.not_mem_append (hl '\x7d' (by simp)) (by decide)
    rw [List.append_cons l]
    exact fun p => count_le_of_insert hclose hb.opened
  rw [parse_textOfBody hn hb, parse_textOfBody_eq hn
    (not_infix_of_insert (by decide) (hl '/' (by simp)) hbound hb.noLineComment)
    (not_infix_of_insert (by decide) (hl '/' (by simp)) hbound hb.noBlockComment), ← List.cons_append]
  -- a brace of the stray line may take the close, which is then one more line of the body
  rcases insideBrace_close (opened_newline hopened) with hbody | hbody
  · have hsame := filterMap_entries_insert hb hbound hfinished hl (u := []) (by simp)
    rw [List.append_nil] at hsame
    rw [hbody, filterMap_entries_newline, hsame]
  · have hsame := filterMap_entries_insert hb hbound hfinished hl (u := ['\x7d']) (by decide)
    rw [hbody, List.cons_append, filterMap_entries_newline, hsame]

/-- A literal on three lines. No group is open at their end. -/
def beforeStray : List Char := "a: \x7b\n  b: number\n\x7d;\n".toList

def afterStray : List Char := "c: Date;\n".toList

theorem parse_insert_open_brace :
    IsCompleteBody (beforeStray ++ afterStray) ∧ IsStray "foo(\x7b [".toList ∧
      parse (textOfBody ['N'] (beforeStray ++ ("foo(\x7b [".toList ++ '\n' :: afterStray))) =
        parse (textOfBody ['N'] (beforeStray ++ afterStray)) := by
  have hbody : IsCompleteBody (beforeStray ++ afterStray) := by
    apply isCompleteBody_of_inits <;> decide +kernel
  have hstray : IsStray "foo(\x7b [".toList := by
    unfold IsStray
    decide
  exact ⟨hbody, hstray,
    parse_insert_line (by decide) hbody (.inr (by decide)) (by decide +kernel) hstray⟩

end MockServer.Interface
