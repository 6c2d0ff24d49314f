import MockServer.Interface.Entry

/-!
The lines of a body that is made of complete groups: each group is finished where it ends, so the
entries are those of the groups one after the other.
-/
namespace MockServer.Interface

/-- Lines that one declaration keeps together: the first one starts like a field if it is not the
only one, and brackets are open after each line but the last. -/
structure IsGroup (w : List Char) : Prop where
  ended : w.getLast? = some '\n'
  closed : depthOf 0 w = 0
  held : ∀ a b, w = a ++ '\n' :: b → b ≠ [] → 0 < depthOf 0 (a ++ ['\n'])
  opened : ∀ a b, w = a ++ '\n' :: b → b ≠ [] → '\n' ∉ a → Declaration.opens (a ++ ['\n']) = true

theorem linesAfter_eq (line : List Char) (done : List (List Char)) (s : List Char) :
    linesAfter line done s = done.reverse ++ linesAfter line [] s := by
  induction s generalizing line done with
  | nil => simp only [linesAfter]; split <;> simp
  | cons c s ih =>
    rw [linesAfter, linesAfter]
    split
    · rw [ih, ih [] [_]]
      simp
    · exact ih _ _

private theorem linesAfter_append (line : List Char) {a : List Char} (ha : '\n' ∉ a)
    (b : List Char) :
    linesAfter line [] (a ++ '\n' :: b) = (line.reverse ++ a ++ ['\n']) :: linesOf b := by
  induction a generalizing line with
  | nil =>
    rw [List.nil_append, linesAfter, if_pos rfl, linesAfter_eq]
    simp [linesOf]
  | cons c a ih =>
    obtain ⟨hc, ha⟩ := not_or.mp (fun h => ha (List.mem_cons.mpr h))
    rw [List.cons_append, linesAfter, if_neg (Ne.symm hc), ih _ ha]
    simp

theorem linesOf_append {a : List Char} (ha : '\n' ∉ a) (b : List Char) :
    linesOf (a ++ '\n' :: b) = (a ++ ['\n']) :: linesOf b := linesAfter_append [] ha b

/-- The state after one more line. -/
def scanStep (state : OpenGroup × List (List Char)) (line : List Char) :
    OpenGroup × List (List Char) :=
  ((state.1.add line).1, (state.1.add line).2.reverse ++ state.2)

theorem scanLines_eq (lines : List (List Char)) : scanLines lines = lines.foldl scanStep ({}, []) :=
  rfl

variable {g : OpenGroup} {line : List Char}

private theorem scanStep_of_open (done : List (List Char)) (hd : 0 < depthOf g.depth line)
    (ho : g.lines ≠ [] ∨ Declaration.opens line = true) :
    scanStep (g, done) line = (⟨line :: g.lines, depthOf g.depth line⟩, done) := by
  have hg : (!g.lines.isEmpty || Declaration.opens line) = true := by
    simpa using ho
  simp [scanStep, OpenGroup.add, hg, hd]

private theorem scanStep_of_closed (done : List (List Char)) (hd : depthOf g.depth line = 0) :
    scanStep (g, done) line = ({}, (cutAtSemicolons (g.text ++ line)).reverse ++ done) := by
  simp [scanStep, OpenGroup.add, OpenGroup.text, hd]

/-- The rest of a group, from any line on, is read up to its end. -/
theorem foldl_scanStep (w : List Char) {g : OpenGroup} (done : List (List Char))
    (rest : List Char) (ended : w.getLast? = some '\n') (closed : depthOf g.depth w = 0)
    (held : ∀ a b, w = a ++ '\n' :: b → b ≠ [] → 0 < depthOf g.depth (a ++ ['\n']))
    (opened : g.lines ≠ [] ∨ ∀ a b, w = a ++ '\n' :: b → b ≠ [] → '\n' ∉ a →
      Declaration.opens (a ++ ['\n']) = true) :
    (linesOf (w ++ rest)).foldl scanStep (g, done) =
      (linesOf rest).foldl scanStep ({}, (cutAtSemicolons (g.text ++ w)).reverse ++ done) := by
  induction hlen : w.length using Nat.strongRecOn generalizing w g with | _ len ih
  obtain ⟨a, b, rfl, ha⟩ := List.eq_append_cons_of_mem (List.mem_of_getLast? ended)
  rw [List.append_assoc, List.cons_append, linesOf_append ha, List.foldl_cons]
  by_cases hb : b = []
  · subst hb
    rw [scanStep_of_closed done closed]
    rfl
  · rw [scanStep_of_open done (held a b rfl hb) (opened.imp_right fun h => h a b rfl hb ha)]
    have hsplit : a ++ '\n' :: b = (a ++ ['\n']) ++ b := by simp
    rw [ih b.length (by rw [← hlen]; simp; omega) b]
    · simp [OpenGroup.text]
    · rw [hsplit, List.getLast?_append] at ended
      cases hc : b.getLast? with
      | none => exact absurd (List.getLast?_eq_none_iff.mp hc) hb
      | some c => rwa [hc] at ended
    · rw [hsplit] at closed
      exact (List.foldl_append).symm.trans closed
    · rintro a' b' rfl hb'
      have hd := held (a ++ ['\n'] ++ a') b' (by simp) hb'
      rw [List.append_assoc, depthOf, List.foldl_append] at hd
      exact hd
    · exact .inl (List.cons_ne_nil _ _)
    · rfl

private theorem foldl_scanStep_flatten {ws : List (List Char)} (h : ∀ w ∈ ws, IsGroup w)
    (done : List (List Char)) :
    (linesOf ws.flatten).foldl scanStep ({}, done) =
      ({}, (ws.flatMap cutAtSemicolons).reverse ++ done) := by
  induction ws generalizing done with
  | nil => rfl
  | cons w ws ih =>
    obtain ⟨ended, closed, held, opened⟩ := h w List.mem_cons_self
    rw [List.flatten_cons, foldl_scanStep w done _ ended closed held (.inr opened),
      ih (fun v hv => h v (List.mem_cons_of_mem _ hv))]
    simp [OpenGroup.text]

/-- A body of groups has the entries of the groups. -/
theorem entries_flatten {ws : List (List Char)} (h : ∀ w ∈ ws, IsGroup w) :
    entries ws.flatten = ws.flatMap cutAtSemicolons := by
  rw [entries, scanLines_eq, foldl_scanStep_flatten h]
  simp [OpenGroup.leftover, OpenGroup.text, linesOf, linesAfter]

end MockServer.Interface
