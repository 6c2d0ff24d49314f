import Mathlib.Data.List.Infix
import Mathlib.Data.List.Induction
import MockServer.Proofs.Interface.Header
import MockServer.Proofs.Interface.WellFormed

/-!
Bodies one after the other. Once the lines of a body have left no group open, what follows is read
as if it stood alone, and its fields are laid over those of the body.
-/
namespace MockServer

namespace Fields

variable {fields newer declared : Fields} {name : String} {type : FieldType}

/-- Fields with others laid over them. A name that is there already keeps its place and takes the
type from above, and new names follow in their own order. -/
def overlay (fields newer : Fields) : Fields :=
  fields.map (fun f => (f.1, (newer.lookup f.1).getD f.2)) ++
    newer.filter fun f => f.1 ∉ fields.map (·.1)

theorem ofList_concat (declared : Fields) (d : String × FieldType) :
    ofList (declared ++ [d]) = insert d.1 d.2 (ofList declared) := by
  rw [ofList, List.foldl_append]
  rfl

theorem nodup_names_ofList (declared : Fields) : ((ofList declared).map (·.1)).Nodup := by
  induction declared using List.reverseRecOn with
  | nil => exact List.nodup_nil
  | append_singleton declared d ih =>
    rw [ofList_concat]
    exact nodup_names_insert ih

private theorem lookup_insert_self : (insert name type fields).lookup name = some type := by
  induction fields with
  | nil => exact List.lookup_cons_self
  | cons f fields ih =>
    by_cases h : f.1 = name
    · rw [insert, if_pos h, h, List.lookup_cons_self]
    · rw [insert, if_neg h, List.lookup_cons, beq_false_of_ne (Ne.symm h)]
      exact ih

private theorem lookup_insert_of_ne {other : String} (h : other ≠ name) :
    (insert name type fields).lookup other = fields.lookup other := by
  induction fields with
  | nil => rw [insert, List.lookup_cons, beq_false_of_ne h]
  | cons f fields ih =>
    by_cases hf : f.1 = name
    · rw [insert, if_pos hf, List.lookup_cons, List.lookup_cons, hf]
      rw [beq_false_of_ne h]
    · rw [insert, if_neg hf, List.lookup_cons, List.lookup_cons, ih]

private theorem insert_append_of_not_mem (h : name ∉ fields.map (·.1)) :
    insert name type (fields ++ newer) = fields ++ insert name type newer := by
  induction fields with
  | nil => rfl
  | cons f fields ih =>
    obtain ⟨hne, hmem⟩ := not_or.mp fun hm => h (List.mem_cons.mpr hm)
    rw [List.cons_append, insert, if_neg (Ne.symm hne), ih hmem, List.cons_append]

private theorem insert_append_of_mem (h : name ∈ fields.map (·.1)) :
    insert name type (fields ++ newer) = insert name type fields ++ newer := by
  induction fields with
  | nil => cases h
  | cons f fields ih =>
    by_cases hf : f.1 = name
    · rw [List.cons_append, insert, if_pos hf, insert, if_pos hf, List.cons_append]
    · have hmem := (List.mem_cons.mp h).resolve_left (Ne.symm hf)
      rw [List.cons_append, insert, if_neg hf, ih hmem, insert, if_neg hf, List.cons_append]

/-- In a list of distinct names only the one place changes. -/
theorem insert_eq_map (hd : (fields.map (·.1)).Nodup) (h : name ∈ fields.map (·.1)) :
    insert name type fields = fields.map fun f => if f.1 = name then (f.1, type) else f := by
  induction fields with
  | nil => cases h
  | cons f fields ih =>
    rw [List.map_cons, List.nodup_cons] at hd
    rw [List.map_cons]
    by_cases hf : f.1 = name
    · have hrest : fields.map (fun f => if f.1 = name then (f.1, type) else f) = fields := by
        rw [List.map_congr_left (g := id), List.map_id]
        intro e he
        refine if_neg ?_
        rintro rfl
        exact hd.1 (hf ▸ List.mem_map_of_mem he)
      rw [insert, if_pos hf, if_pos hf, hrest]
    · have hmem := (List.mem_cons.mp h).resolve_left (Ne.symm hf)
      rw [insert, if_neg hf, if_neg hf, ih hd.2 hmem]

private theorem filter_insert_of_not (p : String → Bool) (h : p name = false) :
    (insert name type fields).filter (fun f => p f.1) = fields.filter fun f => p f.1 := by
  induction fields with
  | nil => rw [insert, List.filter_cons_of_neg (by simp [h])]
  | cons f fields ih =>
    by_cases hf : f.1 = name
    · rw [insert, if_pos hf, List.filter_cons_of_neg (by simp [hf, h]),
        List.filter_cons_of_neg (by simp [hf, h])]
    · rw [insert, if_neg hf, List.filter_cons, List.filter_cons, ih]

private theorem filter_insert (p : String → Bool) (h : p name = true) :
    (insert name type fields).filter (fun f => p f.1) =
      insert name type (fields.filter fun f => p f.1) := by
  induction fields with
  | nil => exact List.filter_cons_of_pos h
  | cons f fields ih =>
    by_cases hf : f.1 = name
    · rw [insert, if_pos hf, List.filter_cons_of_pos (by simp [hf, h]),
        List.filter_cons_of_pos (by simp [hf, h]), insert, if_pos hf]
    · rw [insert, if_neg hf, List.filter_cons, List.filter_cons, ih]
      split
      · rw [insert, if_neg hf]
      · rfl

/-- One more declaration above is one more on the whole. -/
theorem overlay_insert (hd : (fields.map (·.1)).Nodup) :
    fields.overlay (insert name type newer) = insert name type (fields.overlay newer) := by
  have hnames : (fields.map fun f => (f.1, (newer.lookup f.1).getD f.2)).map (·.1) =
      fields.map (·.1) := by
    rw [List.map_map]
    rfl
  by_cases h : name ∈ fields.map (·.1)
  · have hin : name ∈ (fields.map fun f => (f.1, (newer.lookup f.1).getD f.2)).map (·.1) :=
      hnames ▸ h
    rw [overlay, overlay, insert_append_of_mem hin, insert_eq_map (hnames ▸ hd) hin, List.map_map,
      filter_insert_of_not (fun n => n ∉ fields.map (·.1)) (by simpa using h)]
    congr 1
    apply List.map_congr_left
    intro f _
    simp only [Function.comp_apply]
    by_cases hf : f.1 = name
    · rw [if_pos hf, hf, lookup_insert_self, Option.getD_some]
    · rw [if_neg hf, lookup_insert_of_ne hf]
  · rw [overlay, overlay, insert_append_of_not_mem (hnames ▸ h),
      filter_insert (fun n => n ∉ fields.map (·.1)) (by simpa using h)]
    congr 1
    apply List.map_congr_left
    intro f hf
    rw [lookup_insert_of_ne]
    rintro rfl
    exact h (List.mem_map_of_mem hf)

/-- Declarations after others are laid over them. -/
theorem ofList_append (declared newer : Fields) :
    ofList (declared ++ newer) = (ofList declared).overlay (ofList newer) := by
  induction newer using List.reverseRecOn with
  | nil => simp [overlay, ofList]
  | append_singleton newer d ih =>
    rw [← List.append_assoc, ofList_concat, ofList_concat, ih,
      overlay_insert (nodup_names_ofList declared)]

end Fields

namespace Interface

open MockServer.Text

variable {name b c : List Char}

/-- A body that can stand before another: no comment opens in it, its last line has ended, every
brace closes in it and none that is not open, and its lines leave no group open. -/
structure IsCompleteBody (b : List Char) : Prop where
  noLineComment : ¬ ['/', '/'] <:+: b
  noBlockComment : ¬ ['/', '*'] <:+: b
  ended : b = [] ∨ b.getLast? = some '\n'
  closed : b.count '\x7b' = b.count '\x7d'
  opened : ∀ p, p <+: b → p.count '\x7d' ≤ p.count '\x7b'
  finished : (scanLines (linesOf b)).1.lines = []

/-- The interface with a body. -/
def textOfBody (name body : List Char) : String :=
  String.ofList (headerText name ++ '\n' :: (body ++ ['\x7d']))

/-! Lines and groups -/

private theorem linesOf_append_of_ended (hb : b = [] ∨ b.getLast? = some '\n') (c : List Char) :
    linesOf (b ++ c) = linesOf b ++ linesOf c := by
  induction hlen : b.length using Nat.strongRecOn generalizing b with | _ len ih
  rcases hb with rfl | hb
  · rfl
  obtain ⟨a, r, rfl, ha⟩ := List.eq_append_cons_of_mem (List.mem_of_getLast? hb)
  have hr : r = [] ∨ r.getLast? = some '\n' := by
    rcases List.eq_nil_or_concat' r with rfl | ⟨init, d, rfl⟩
    · exact .inl rfl
    · rw [← List.cons_append, ← List.append_assoc, List.getLast?_concat] at hb
      exact .inr (by rw [List.getLast?_concat, hb])
  rw [List.append_assoc, List.cons_append, linesOf_append ha, linesOf_append ha,
    ih r.length (by rw [← hlen]; simp; omega) hr rfl, List.cons_append]

private theorem foldl_scanStep_eq (g : OpenGroup) (done : List (List Char))
    (lines : List (List Char)) :
    lines.foldl scanStep (g, done) =
      ((lines.foldl scanStep (g, [])).1, (lines.foldl scanStep (g, [])).2 ++ done) := by
  induction lines generalizing g done with
  | nil => rfl
  | cons line lines ih =>
    rw [List.foldl_cons, List.foldl_cons, scanStep, ih, scanStep, ih _ (_ ++ [])]
    simp

/-- A group without lines is at depth zero. -/
theorem scanLines_eq_empty {lines : List (List Char)} (h : (scanLines lines).1.lines = []) :
    (scanLines lines).1 = {} := by
  induction lines using List.reverseRecOn with
  | nil => rfl
  | append_singleton lines line _ =>
    rw [scanLines_eq, List.foldl_append, List.foldl_cons, List.foldl_nil, scanStep,
      OpenGroup.add] at h ⊢
    split at h
    next => cases h
    next hclosed => rw [if_neg hclosed]

/-- What follows a body without an open group is grouped as if it stood alone. -/
theorem entries_append (hb : b = [] ∨ b.getLast? = some '\n')
    (hfinished : (scanLines (linesOf b)).1.lines = []) (c : List Char) :
    entries (b ++ c) = entries b ++ entries c := by
  have hgroup := scanLines_eq_empty hfinished
  have hleft : OpenGroup.leftover {} = [] := rfl
  rw [entries, entries, entries, linesOf_append_of_ended hb]
  simp only [scanLines_eq] at hgroup ⊢
  rw [List.foldl_append, ← Prod.eta (List.foldl _ _ (linesOf b)), hgroup, foldl_scanStep_eq {}]
  simp [hleft]

/-- The group that a body leaves open is that of its second part. -/
theorem scanLines_append (hb : b = [] ∨ b.getLast? = some '\n')
    (hfinished : (scanLines (linesOf b)).1.lines = []) (c : List Char) :
    (scanLines (linesOf (b ++ c))).1 = (scanLines (linesOf c)).1 := by
  have hgroup := scanLines_eq_empty hfinished
  rw [linesOf_append_of_ended hb]
  simp only [scanLines_eq] at hgroup ⊢
  rw [List.foldl_append, ← Prod.eta (List.foldl _ _ (linesOf b)), hgroup, foldl_scanStep_eq {}]

theorem filterMap_entries_newline (b : List Char) :
    (entries ('\n' :: b)).filterMap readPiece? = (entries b).filterMap readPiece? := by
  have happend : entries (['\n'] ++ b) = [['\n']] ++ entries b := entries_append (.inr rfl) rfl b
  rw [← List.singleton_append, happend, List.singleton_append,
    List.filterMap_cons_none readPiece?_newline]

/-! Braces and comments -/

theorem closeAfter?_append {d : Nat} (h : ∀ p, p <+: b → p.count '\x7d' ≤ d + p.count '\x7b')
    (kept rest : List Char) :
    closeAfter? d kept (b ++ rest) =
      closeAfter? (d + b.count '\x7b' - b.count '\x7d') (b.reverse ++ kept) rest := by
  induction b generalizing d kept with
  | nil => rfl
  | cons e b ih =>
    have htail {k : Nat} (hk : ∀ p, p <+: b → (e :: p).count '\x7d' ≤ d + (e :: p).count '\x7b' →
        p.count '\x7d' ≤ k + p.count '\x7b') : ∀ p, p <+: b → p.count '\x7d' ≤ k + p.count '\x7b' :=
      fun p hp => hk p hp (h (e :: p) (List.cons_prefix_cons.mpr ⟨rfl, hp⟩))
    rw [List.cons_append, closeAfter?, List.reverse_cons, List.append_assoc, List.singleton_append]
    by_cases ho : e = '\x7b'
    · subst ho
      rw [if_pos rfl, ih (htail fun p _ hp => by simp at hp; omega)]
      congr 1
      simp
      omega
    by_cases hc : e = '\x7d'
    · subst hc
      have hd : 1 ≤ d := by simpa using h ['\x7d'] (by simp)
      rw [if_neg ho, if_pos rfl, if_neg (Nat.ne_of_gt hd),
        ih (htail fun p _ hp => by simp at hp; omega)]
      congr 1
      simp
      omega
    · rw [if_neg ho, if_neg hc, ih (htail fun p _ hp => by simpa [ho, hc] using hp),
        List.count_cons_of_ne ho, List.count_cons_of_ne hc]

theorem opened_newline (h : ∀ p, p <+: b → p.count '\x7d' ≤ p.count '\x7b') :
    ∀ p, p <+: '\n' :: b → p.count '\x7d' ≤ p.count '\x7b' := by
  intro p hp
  rcases List.prefix_cons_iff.mp hp with rfl | ⟨q, rfl, hq⟩
  · exact Nat.le_refl 0
  · simpa using h q hq

private theorem insideBrace_of_matched (hclosed : b.count '\x7b' = b.count '\x7d')
    (hopened : ∀ p, p <+: b → p.count '\x7d' ≤ p.count '\x7b') (rest : List Char) :
    insideBrace (b ++ '\x7d' :: rest) = b := by
  rw [insideBrace, closeAfter?_append (by simpa using hopened), hclosed]
  simp [closeAfter?]

private theorem uncommented_of_absent (hl : ¬ ['/', '/'] <:+: b) (hb : ¬ ['/', '*'] <:+: b) :
    Uncommented b := by
  intro u hu
  constructor
  · rw [Bool.eq_false_iff]
    intro ho
    exact hl ((List.isPrefixOf_iff_prefix.mp ho).isInfix.trans hu.isInfix)
  · rw [frontBlock?_eq_none_iff]
    rintro rest rfl
    exact absurd (List.IsInfix.trans ⟨[], rest, rfl⟩ hu.isInfix) hb

theorem infix_append_of_ended {l : List Char} (hl : '\n' ∉ l) (hne : l ≠ [])
    (hb : b = [] ∨ b.getLast? = some '\n') : l <:+: b ++ c ↔ l <:+: b ∨ l <:+: c := by
  rcases hb with rfl | hb
  · simp [hne]
  · obtain ⟨init, rfl⟩ := List.getLast?_eq_some_iff.mp hb
    rw [List.append_assoc, List.singleton_append, infix_append_cons_iff hl,
      infix_append_cons_iff hl, List.infix_nil, or_iff_left hne]

namespace IsCompleteBody

private theorem append (hb : IsCompleteBody b) (hc : IsCompleteBody c) :
    IsCompleteBody (b ++ c) where
  noLineComment := by
    rw [infix_append_of_ended (by decide) (by decide) hb.ended]
    exact not_or.mpr ⟨hb.noLineComment, hc.noLineComment⟩
  noBlockComment := by
    rw [infix_append_of_ended (by decide) (by decide) hb.ended]
    exact not_or.mpr ⟨hb.noBlockComment, hc.noBlockComment⟩
  ended := by
    rcases hc.ended with rfl | hend
    · rw [List.append_nil]
      exact hb.ended
    · exact .inr (by rw [List.getLast?_append, hend]; rfl)
  closed := by rw [List.count_append, List.count_append, hb.closed, hc.closed]
  opened := by
    rintro p ⟨u, hp⟩
    rcases List.append_eq_append_iff.mp hp with ⟨m, rfl, -⟩ | ⟨m, rfl, rfl⟩
    · exact hb.opened p (List.prefix_append p m)
    · have := hc.opened m (List.prefix_append m u)
      rw [List.count_append, List.count_append, hb.closed]
      omega
  finished := by
    rw [scanLines_append hb.ended hb.finished]
    exact hc.finished

end IsCompleteBody

/-- Where no comment opens in a body, none opens in its interface. -/
theorem parse_textOfBody_eq (hn : IsIdentifier name) (hl : ¬ ['/', '/'] <:+: b)
    (hb : ¬ ['/', '*'] <:+: b) :
    parse (textOfBody name b) = ⟨String.ofList name,
      fieldsOf ((entries (insideBrace ('\n' :: (b ++ ['\x7d'])))).filterMap readPiece?)⟩ := by
  have hmark (l : List Char) (hl : '\x7d' ∉ l) (hne : l ≠ []) :
      l <:+: b ++ ['\x7d'] ↔ l <:+: b := by
    rw [infix_append_cons_iff hl, List.infix_nil, or_iff_left hne]
  have hcomments : withoutComments (b ++ ['\x7d']) = b ++ ['\x7d'] := by
    refine withoutComments_eq_self_iff.mpr (uncommented_of_absent ?_ ?_)
    · rwa [hmark _ (by decide) (by decide)]
    · rwa [hmark _ (by decide) (by decide)]
  rw [parse, textOfBody, String.toList_ofList, ofText_headerText hn, hcomments]

/-- The fields of an interface are those that the entries of its body declare. -/
theorem parse_textOfBody (hn : IsIdentifier name) (hb : IsCompleteBody b) :
    parse (textOfBody name b) =
      ⟨String.ofList name, fieldsOf ((entries b).filterMap readPiece?)⟩ := by
  have hbody : insideBrace ('\n' :: (b ++ ['\x7d'])) = '\n' :: b :=
    insideBrace_of_matched (b := '\n' :: b) (by simpa using hb.closed) (opened_newline hb.opened) []
  rw [parse_textOfBody_eq hn hb.noLineComment hb.noBlockComment, hbody, filterMap_entries_newline]

/-- The fields of two bodies, one after the other, are those of the second one laid over those of
the first. -/
theorem fields_parse_append (hn : IsIdentifier name) (hb : IsCompleteBody b)
    (hc : IsCompleteBody c) :
    (parse (textOfBody name (b ++ c))).fields =
      (parse (textOfBody name b)).fields.overlay (parse (textOfBody name c)).fields := by
  rw [parse_textOfBody hn (hb.append hc), parse_textOfBody hn hb, parse_textOfBody hn hc,
    entries_append hb.ended hb.finished, List.filterMap_append]
  simp only [fieldsOf, List.map_append, Fields.ofList_append]

theorem isCompleteBody_of_inits (hl : ¬ ['/', '/'] <:+: b) (hb : ¬ ['/', '*'] <:+: b)
    (hended : b.getLast? = some '\n') (hclosed : b.count '\x7b' = b.count '\x7d')
    (hopened : ∀ p ∈ b.inits, p.count '\x7d' ≤ p.count '\x7b')
    (hfinished : (scanLines (linesOf b)).1.lines = []) : IsCompleteBody b :=
  ⟨hl, hb, .inr hended, hclosed, fun p hp => hopened p ((List.mem_inits p b).mpr hp), hfinished⟩

/-- A literal on three lines, and a bracket that a line which is no field leaves open. -/
def firstBody : List Char := "a: number;\nb: \x7b\n  c: Date;\n\x7d;\nfoo(\n".toList

/-- A new field on the same line as one that is there already. -/
def secondBody : List Char := "d: boolean; a: Date[];\n".toList

theorem fields_parse_secondBody :
    IsCompleteBody firstBody ∧ IsCompleteBody secondBody ∧
      (parse (textOfBody ['N'] (firstBody ++ secondBody))).fields =
        [("a", { kind := .date, isArray := true }),
         ("b", { kind := .object, members := some ([("c", { kind := .date })]) }),
         ("d", { kind := .boolean })] := by
  have hfirst : IsCompleteBody firstBody := by
    apply isCompleteBody_of_inits <;> decide +kernel
  have hsecond : IsCompleteBody secondBody := by
    apply isCompleteBody_of_inits <;> decide +kernel
  let a : Declaration := ⟨['a'], false, "number".toList⟩
  let b : Declaration := ⟨['b'], false, "\x7b\n  c: Date;\n\x7d".toList⟩
  let c : Declaration := ⟨['c'], false, "Date".toList⟩
  let d : Declaration := ⟨['d'], false, "boolean".toList⟩
  let later : Declaration := ⟨['a'], false, "Date[]".toList⟩
  have hc : c.fieldType = { kind := .date } := by
    rw [Declaration.fieldType_eq]
    rfl
  have hb : b.fieldType = { kind := .object, members := some ([("c", { kind := .date })]) } := by
    have hmembers : membersOf b.baseType = [c] := by decide +kernel
    rw [Declaration.fieldType_eq, hmembers, fieldsOf, List.map_singleton, hc]
    rfl
  have ha : a.fieldType = { kind := .number } := by
    rw [Declaration.fieldType_eq]
    rfl
  have hd : d.fieldType = { kind := .boolean } := by
    rw [Declaration.fieldType_eq]
    rfl
  have hlater : later.fieldType = { kind := .date, isArray := true } := by
    rw [Declaration.fieldType_eq]
    rfl
  have hreadFirst : (entries firstBody).filterMap readPiece? = [a, b] := by decide +kernel
  have hreadSecond : (entries secondBody).filterMap readPiece? = [d, later] := by decide +kernel
  refine ⟨hfirst, hsecond, ?_⟩
  rw [fields_parse_append (by decide) hfirst hsecond, parse_textOfBody (by decide) hfirst,
    parse_textOfBody (by decide) hsecond, hreadFirst, hreadSecond]
  simp only [fieldsOf, List.map_cons, List.map_nil, ha, hb, hd, hlater]
  rfl

end Interface
end MockServer
