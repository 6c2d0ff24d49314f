import MockServer.Proofs.Interface.LineSpacing

/-!
The entries of a body are the body cut into pieces. Whatever brackets are open or missing, nothing
but semicolons and ends of lines stands between two pieces, and a semicolon that stays in a piece is
inside a bracket that the piece opens.
-/
namespace MockServer.Interface

/-- A text is its pieces one after the other, each with characters after it that are lost. So the
pieces are parts of the text that do not overlap, in the order in which they stand there. -/
inductive IsCutInto (lost : Char → Bool) : List (List Char) → List Char → Prop where
  | nil : IsCutInto lost [] []
  | cons {g s : List Char} {ps : List (List Char)} (p : List Char)
      (hlost : ∀ c ∈ g, lost c = true) (later : IsCutInto lost ps s) :
      IsCutInto lost (p :: ps) (p ++ (g ++ s))

variable {c : Char} {p s t : List Char} {ps qs : List (List Char)} {lost : Char → Bool}

namespace IsCutInto

private theorem append (hs : IsCutInto lost ps s) (ht : IsCutInto lost qs t) :
    IsCutInto lost (ps ++ qs) (s ++ t) := by
  induction hs with
  | nil => exact ht
  | @cons g s ps p hlost _ ih =>
    rw [List.append_assoc, List.append_assoc]
    exact .cons p hlost ih

/-- More lost characters may follow the last piece. -/
theorem append_gap {g : List Char} (h : IsCutInto lost ps s) (hne : ps ≠ [])
    (hlost : ∀ c ∈ g, lost c = true) : IsCutInto lost ps (s ++ g) := by
  induction h with
  | nil => exact absurd rfl hne
  | @cons before s ps p hbefore later ih =>
    rw [List.append_assoc, List.append_assoc]
    cases later with
    | nil =>
      have hgaps : ∀ c ∈ before ++ g, lost c = true := List.forall_mem_append.mpr ⟨hbefore, hlost⟩
      have h := IsCutInto.cons p hgaps .nil
      rwa [List.append_nil, ← List.nil_append g] at h
    | cons q hlater later => exact .cons p hbefore (ih (List.cons_ne_nil q _))

private theorem cons_head (h : IsCutInto lost (p :: ps) s) :
    IsCutInto lost ((c :: p) :: ps) (c :: s) := by
  cases h with
  | cons p hlost later => exact .cons (c :: p) hlost later

theorem flatten_sublist (h : IsCutInto lost ps s) : ps.flatten.Sublist s := by
  induction h with
  | nil => exact List.Sublist.refl []
  | @cons g s ps p _ _ ih =>
    exact (List.Sublist.refl p).append (ih.trans (List.sublist_append_right g s))

/-- Without the characters that may be lost, the pieces together are the text. -/
theorem filter_flatten (h : IsCutInto lost ps s) :
    ps.flatten.filter (!lost ·) = s.filter (!lost ·) := by
  induction h with
  | nil => rfl
  | @cons g s ps p hlost _ ih =>
    have hgap : g.filter (!lost ·) = [] := by
      rw [List.filter_eq_nil_iff]
      intro c hc
      rw [hlost c hc]
      exact Bool.false_ne_true
    rw [List.flatten_cons, List.filter_append, ih, List.filter_append, List.filter_append, hgap,
      List.nil_append]

end IsCutInto

/-! Cuts outside brackets -/

section separators
variable {isSeparator : Char → Bool}

theorem isCutInto_cutFrom (hsep : ∀ c, isSeparator c = true → lost c = true) (d : Nat)
    (s : List Char) : IsCutInto lost (cutFrom isSeparator d s) s := by
  induction s generalizing d with
  | nil => exact .cons (g := []) [] nofun .nil
  | cons c s ih =>
    rcases separates_or_not isSeparator d c with ⟨rfl, hc⟩ | hc
    · rw [cutFrom_separator hc]
      exact .cons [] (List.forall_mem_singleton.mpr (hsep c hc)) (ih 0)
    · obtain ⟨p, ps, hcut⟩ := exists_cutFrom isSeparator (depthAfter d c) s
      have hrest := ih (depthAfter d c)
      rw [hcut] at hrest
      rw [cutFrom_cons hc, hcut]
      exact hrest.cons_head

/-- A text from some depth on has no separator outside brackets. -/
def SeparatorsInside (isSeparator : Char → Bool) (d : Nat) (p : List Char) : Prop :=
  ∀ a c b, p = a ++ c :: b → isSeparator c = true → 0 < depthOf d a

private theorem SeparatorsInside.nil {d : Nat} : SeparatorsInside isSeparator d [] := by
  intro a c b hp
  cases a <;> cases hp

private theorem SeparatorsInside.cons {d : Nat} (hc : d = 0 → isSeparator c = false)
    (h : SeparatorsInside isSeparator (depthAfter d c) p) :
    SeparatorsInside isSeparator d (c :: p) := by
  rintro (_ | ⟨e, a⟩) x b hp hx
  · obtain ⟨rfl, -⟩ := List.cons.inj hp
    exact Nat.pos_of_ne_zero fun hd => Bool.false_ne_true ((hc hd).symm.trans hx)
  · obtain ⟨rfl, hrest⟩ := List.cons.inj hp
    exact h a x b hrest hx

/-- The first piece goes on from the depth of the text, and the others start outside brackets. -/
theorem separatorsInside_cutFrom {d : Nat} (h : cutFrom isSeparator d s = p :: ps) :
    SeparatorsInside isSeparator d p ∧ ∀ q ∈ ps, SeparatorsInside isSeparator 0 q := by
  induction s generalizing d p ps with
  | nil =>
    obtain ⟨rfl, rfl⟩ := List.cons.inj h
    exact ⟨.nil, nofun⟩
  | cons c s ih =>
    rcases separates_or_not isSeparator d c with ⟨rfl, hc⟩ | hc
    · rw [cutFrom_separator hc] at h
      obtain ⟨rfl, rfl⟩ := List.cons.inj h
      obtain ⟨q, qs, hcut⟩ := exists_cutFrom isSeparator 0 s
      rw [hcut]
      exact ⟨.nil, List.forall_mem_cons.mpr (ih hcut)⟩
    · obtain ⟨q, qs, hcut⟩ := exists_cutFrom isSeparator (depthAfter d c) s
      rw [cutFrom_cons hc, hcut] at h
      obtain ⟨rfl, rfl⟩ := List.cons.inj h
      exact ⟨(ih hcut).1.cons hc, (ih hcut).2⟩

end separators

/-- The characters that may be lost between the entries of a body. -/
def isCut (c : Char) : Bool := c == ';' || c == '\n' || c == '\r'

private theorem isCutInto_cutAtSemicolons (s : List Char) :
    IsCutInto isCut (cutAtSemicolons s) s := by
  refine isCutInto_cutFrom (fun c hc => ?_) 0 s
  rw [isCut, hc, Bool.true_or, Bool.true_or]

private theorem separatorsInside_of_mem (h : p ∈ cutAtSemicolons s) :
    SeparatorsInside (· == ';') 0 p := by
  obtain ⟨q, qs, hcut⟩ := exists_cutFrom (· == ';') 0 s
  have hall := List.forall_mem_cons.mpr (separatorsInside_cutFrom hcut)
  exact hall p (hcut ▸ h)

/-! Lines and groups -/

theorem flatten_linesOf (s : List Char) : (linesOf s).flatten = s := by
  induction s with
  | nil => rfl
  | cons c s ih =>
    by_cases hc : c = '\n'
    · rw [hc, linesOf_newline, List.flatten_cons, ih]
      rfl
    · rw [linesOf_cons hc]
      cases hs : linesOf s with
      | nil => rw [hs] at ih; rw [extendFirst, ← ih]; rfl
      | cons line rest => rw [hs] at ih; rw [extendFirst, ← ih]; rfl

private theorem exists_withoutLineEnd (line : List Char) :
    ∃ gap, line = withoutLineEnd line ++ gap ∧ ∀ c ∈ gap, isCut c = true := by
  have hreverse {r g : List Char} (h : line.reverse = g ++ r) :
      line = r.reverse ++ g.reverse := by
    rw [← List.reverse_append, ← h, List.reverse_reverse]
  unfold withoutLineEnd
  split
  next r h => exact ⟨_, hreverse (g := ['\n', '\r']) h, by decide⟩
  next r _ h => exact ⟨_, hreverse (g := ['\n']) h, by decide⟩
  next => exact ⟨[], (List.append_nil line).symm, nofun⟩

private theorem isCutInto_line (line : List Char) :
    IsCutInto isCut (cutAtSemicolons (withoutLineEnd line)) line := by
  obtain ⟨gap, hline, hlost⟩ := exists_withoutLineEnd line
  obtain ⟨p, ps, hcut⟩ := exists_cutFrom (· == ';') 0 (withoutLineEnd line)
  have hne : cutAtSemicolons (withoutLineEnd line) ≠ [] := by
    rw [show cutAtSemicolons (withoutLineEnd line) = p :: ps from hcut]
    exact List.cons_ne_nil p ps
  have h := (isCutInto_cutAtSemicolons (withoutLineEnd line)).append_gap hne hlost
  rwa [← hline] at h

private theorem isCutInto_leftover (g : OpenGroup) : IsCutInto isCut g.leftover g.text := by
  have hlines (ls : List (List Char)) :
      IsCutInto isCut (ls.flatMap fun line => cutAtSemicolons (withoutLineEnd line))
        ls.flatten := by
    induction ls with
    | nil => exact .nil
    | cons line ls ih => exact (isCutInto_line line).append ih
  have h := hlines (linesOf g.text)
  rwa [flatten_linesOf] at h

/-- The entries that the lines finish after a group. -/
def entriesFrom (g : OpenGroup) : List (List Char) → List (List Char)
  | [] => g.leftover
  | line :: ls => (g.add line).2 ++ entriesFrom (g.add line).1 ls

private theorem foldl_scanStep_entries (g : OpenGroup) (done ls : List (List Char)) :
    (ls.foldl scanStep (g, done)).2.reverse ++ (ls.foldl scanStep (g, done)).1.leftover =
      done.reverse ++ entriesFrom g ls := by
  induction ls generalizing g done with
  | nil => rfl
  | cons line ls ih =>
    rw [List.foldl_cons, scanStep, ih, entriesFrom, List.reverse_append, List.reverse_reverse,
      List.append_assoc]

theorem entries_eq (body : List Char) : entries body = entriesFrom {} (linesOf body) :=
  foldl_scanStep_entries {} [] (linesOf body)

theorem OpenGroup.text_grown (g : OpenGroup) (line : List Char) (depth : Nat) :
    (⟨line :: g.lines, depth⟩ : OpenGroup).text = g.text ++ line := text_cons line g.lines depth

/-- One more line is held, or finishes the group. -/
theorem OpenGroup.add_eq (g : OpenGroup) (line : List Char) :
    g.add line = (⟨line :: g.lines, depthOf g.depth line⟩, []) ∨
      g.add line = ({}, cutAtSemicolons (g.text ++ line)) := by
  rw [add, text_grown]
  split
  · exact .inl rfl
  · exact .inr rfl

/-- What is left of the body is cut up together with the group that is open before it. -/
theorem isCutInto_entriesFrom (g : OpenGroup) (ls : List (List Char)) :
    IsCutInto isCut (entriesFrom g ls) (g.text ++ ls.flatten) := by
  induction ls generalizing g with
  | nil =>
    rw [List.flatten_nil, List.append_nil]
    exact isCutInto_leftover g
  | cons line ls ih =>
    rw [entriesFrom, List.flatten_cons, ← List.append_assoc]
    rcases g.add_eq line with h | h
    · rw [h, ← g.text_grown line (depthOf g.depth line)]
      exact ih _
    · rw [h]
      exact (isCutInto_cutAtSemicolons (g.text ++ line)).append (ih {})

private theorem separatorsInside_entriesFrom (g : OpenGroup) (ls : List (List Char)) :
    ∀ p ∈ entriesFrom g ls, SeparatorsInside (· == ';') 0 p := by
  induction ls generalizing g with
  | nil =>
    intro p hp
    obtain ⟨line, -, hp⟩ := List.mem_flatMap.mp hp
    exact separatorsInside_of_mem hp
  | cons line ls ih =>
    rw [entriesFrom]
    rcases g.add_eq line with h | h
    · rw [h]
      exact ih _
    · rw [h]
      exact List.forall_mem_append.mpr ⟨fun p => separatorsInside_of_mem, ih {}⟩

private theorem isCutInto_entries (body : List Char) : IsCutInto isCut (entries body) body := by
  have h := isCutInto_entriesFrom {} (linesOf body)
  rwa [← entries_eq, flatten_linesOf] at h

theorem flatten_entries_sublist (body : List Char) : (entries body).flatten.Sublist body :=
  (isCutInto_entries body).flatten_sublist

/-- The entries of a body are its pieces in their order, and without semicolons and ends of lines
they are the body. No entry has a semicolon outside the brackets that it opens itself. -/
theorem entries_partition (body : List Char) :
    IsCutInto isCut (entries body) body ∧
      (entries body).flatten.filter (!isCut ·) = body.filter (!isCut ·) ∧
      ∀ p ∈ entries body, ∀ a b, p = a ++ ';' :: b → 0 < depthOf 0 a := by
  have hinside := separatorsInside_entriesFrom {} (linesOf body)
  rw [← entries_eq] at hinside
  exact ⟨isCutInto_entries body, (isCutInto_entries body).filter_flatten,
    fun p hp a b heq => hinside p hp a ';' b heq rfl⟩

end MockServer.Interface
