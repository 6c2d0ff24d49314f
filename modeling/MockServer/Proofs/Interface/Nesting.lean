import MockServer.Interface.Bracket

/-!
Texts whose brackets are properly nested, and what the bracket scanners do over them: they come out
at the depth they started from, and no cut falls inside a bracket.
-/
namespace MockServer.Interface

variable {plain : Char → Prop} {isSeparator : Char → Bool} {c o : Char} {d : Nat}
  {s t rest piece : List Char}

/-- Each bracket closes in turn, by one of its own kind. The characters outside all brackets are
plain. -/
inductive Nested : (Char → Prop) → List Char → Prop
  | nil {plain : Char → Prop} : Nested plain []
  | char {plain : Char → Prop} {c : Char} {s : List Char} (opens : isOpening c = false)
    (closes : isClosing c = false) (outside : plain c) (rest : Nested plain s) :
    Nested plain (c :: s)
  | group {plain : Char → Prop} {o c : Char} {s t : List Char}
    (pair : (o, c) ∈ [('{', '}'), ('(', ')'), ('[', ']')]) (inside : Nested (fun _ => True) s)
    (rest : Nested plain t) : Nested plain (o :: (s ++ c :: t))

theorem isOpening_of_pair (h : (o, c) ∈ [('{', '}'), ('(', ')'), ('[', ']')]) :
    isOpening o = true ∧ isClosing c = true ∧ isOpening c = false := by
  simp only [List.mem_cons, Prod.mk.injEq, List.not_mem_nil, or_false] at h
  rcases h with ⟨rfl, rfl⟩ | ⟨rfl, rfl⟩ | ⟨rfl, rfl⟩ <;> decide

def brackets : List Char := ['{', '(', '[', '}', ')', ']']

private theorem mem_brackets {c : Char} (h : isOpening c = true ∨ isClosing c = true) :
    c ∈ brackets := by
  simp only [isOpening, isClosing, Bool.or_eq_true, beq_iff_eq] at h
  simp only [brackets, List.mem_cons, List.not_mem_nil, or_false]
  grind

/-- A class of characters without brackets. -/
theorem eq_false_of_bracket {p : Char → Bool} (hp : brackets.all (!p ·) = true) {c : Char}
    (h : isOpening c = true ∨ isClosing c = true) : p c = false := by
  simpa using List.all_eq_true.mp hp c (mem_brackets h)

theorem not_bracket_of {p : Char → Bool} (hp : brackets.all (!p ·) = true) {c : Char}
    (h : p c = true) : isOpening c = false ∧ isClosing c = false := by
  have hc : ¬ (isOpening c = true ∨ isClosing c = true) := by
    intro hb
    rw [eq_false_of_bracket hp hb] at h
    cases h
  obtain ⟨ho, hc⟩ := not_or.mp hc
  exact ⟨Bool.eq_false_iff.mpr ho, Bool.eq_false_iff.mpr hc⟩

theorem depthAfter_opening (h : isOpening c = true) : depthAfter d c = d + 1 := by
  rw [depthAfter, if_pos h]

theorem depthAfter_closing (ho : isOpening c = false) (hc : isClosing c = true) :
    depthAfter (d + 1) c = d := by
  rw [depthAfter, ho, hc]
  rfl

theorem depthAfter_plain (ho : isOpening c = false) (hc : isClosing c = false) :
    depthAfter d c = d := by
  rw [depthAfter, ho, hc]
  rfl

theorem depthOf_append (d : Nat) (s t : List Char) :
    depthOf d (s ++ t) = depthOf (depthOf d s) t := List.foldl_append

theorem nested_of_forall
    (h : ∀ c ∈ s, isOpening c = false ∧ isClosing c = false ∧ plain c) : Nested plain s := by
  induction s with
  | nil => exact .nil
  | cons c s ih =>
    obtain ⟨ho, hc, hp⟩ := h c List.mem_cons_self
    exact .char ho hc hp (ih fun e he => h e (List.mem_cons_of_mem c he))

theorem Nested.mono {q : Char → Prop} (h : Nested plain s) (hq : ∀ c, plain c → q c) :
    Nested q s := by
  induction h with
  | nil => exact .nil
  | char ho hc hp _ ih => exact .char ho hc (hq _ hp) (ih hq)
  | group pair inside _ _ ih => exact .group pair inside (ih hq)

theorem Nested.append (hs : Nested plain s) (ht : Nested plain t) : Nested plain (s ++ t) := by
  induction hs with
  | nil => exact ht
  | char ho hc hp _ ih => exact .char ho hc hp (ih ht)
  | group pair inside _ _ ih =>
    rw [List.cons_append, List.append_assoc, List.cons_append]
    exact .group pair inside (ih ht)

theorem Nested.flatMap {α : Type} {f : α → List Char} {l : List α}
    (h : ∀ a ∈ l, Nested plain (f a)) : Nested plain (l.flatMap f) := by
  induction l with
  | nil => exact .nil
  | cons a l ih =>
    exact (h a List.mem_cons_self).append (ih fun b hb => h b (List.mem_cons_of_mem a hb))

theorem Nested.depthOf_eq (h : Nested plain s) (d : Nat) : depthOf d s = d := by
  induction h generalizing d with
  | nil => rfl
  | char ho hc _ _ ih =>
    rw [depthOf, List.foldl_cons, depthAfter_plain ho hc]
    exact ih d
  | group pair _ _ ihs iht =>
    obtain ⟨ho, hc, hco⟩ := isOpening_of_pair pair
    rw [depthOf, List.foldl_cons, depthAfter_opening ho, List.foldl_append, List.foldl_cons]
    rw [show List.foldl depthAfter (d + 1) _ = d + 1 from ihs (d + 1), depthAfter_closing hco hc]
    exact iht d

/-- A text is cut either inside a bracket or into two parts that are nested themselves. -/
theorem Nested.inside_or_rest {a b : List Char} (h : Nested plain (a ++ b)) (d : Nat) :
    d < depthOf d a ∨ depthOf d a = d ∧ Nested plain b := by
  generalize hs : a ++ b = s at h
  induction h generalizing a b d with
  | nil =>
    obtain ⟨rfl, rfl⟩ := List.append_eq_nil_iff.mp hs
    exact .inr ⟨rfl, .nil⟩
  | @char plain c s ho hc hp hs' ih =>
    cases a with
    | nil =>
      rw [List.nil_append] at hs
      exact .inr ⟨rfl, hs ▸ .char ho hc hp hs'⟩
    | cons e a =>
      obtain ⟨rfl, hab⟩ := List.cons.inj hs
      rw [depthOf, List.foldl_cons, depthAfter_plain ho hc]
      exact ih d hab
  | @group plain o c s t pair inside ht ihs iht =>
    obtain ⟨ho, hc, hco⟩ := isOpening_of_pair pair
    cases a with
    | nil =>
      rw [List.nil_append] at hs
      exact .inr ⟨rfl, hs ▸ .group pair inside ht⟩
    | cons e a =>
      obtain ⟨rfl, hab⟩ := List.cons.inj hs
      rw [depthOf, List.foldl_cons, depthAfter_opening ho]
      rcases List.append_eq_append_iff.mp hab with ⟨m, hsm, -⟩ | ⟨m, rfl, hm⟩
      · -- the cut falls between the brackets
        rcases ihs (d + 1) hsm.symm with hlt | ⟨heq, -⟩
        · exact .inl (Nat.lt_of_succ_lt hlt)
        · exact .inl (Nat.lt_of_lt_of_eq (Nat.lt_succ_self d) heq.symm)
      · rw [List.foldl_append, show List.foldl depthAfter (d + 1) s = d + 1 from
          inside.depthOf_eq (d + 1)]
        cases m with
        | nil => exact .inl (Nat.lt_succ_self d)
        | cons e m =>
          obtain ⟨rfl, rfl⟩ := List.cons.inj hm
          rw [List.foldl_cons, depthAfter_closing hco hc]
          exact iht d rfl

/-- A character that is not plain, and no bracket either, stands inside a bracket. -/
theorem Nested.lt_depthOf {a b : List Char} (h : Nested plain (a ++ c :: b))
    (ho : isOpening c = false) (hp : ¬ plain c) (d : Nat) : d < depthOf d a := by
  rcases h.inside_or_rest d with hlt | ⟨-, hb⟩
  · exact hlt
  · cases hb with
    | char _ _ outside => exact absurd outside hp
    | group pair =>
      rw [(isOpening_of_pair pair).1] at ho
      cases ho

/-- A closing brace right after a nested text closes the brace that was open before it. -/
theorem Nested.closeAfter? (h : Nested plain s) (d : Nat) (kept rest : List Char) :
    closeAfter? d kept (s ++ rest) = Interface.closeAfter? d (s.reverse ++ kept) rest := by
  induction h generalizing d kept rest with
  | nil => rfl
  | @char plain c s ho hc _ _ ih =>
    have hopen : c ≠ '{' := by rintro rfl; cases ho
    have hclose : c ≠ '}' := by rintro rfl; cases hc
    rw [List.cons_append, Interface.closeAfter?, if_neg hopen, if_neg hclose, ih]
    simp
  | @group plain o c s t pair _ _ ihs iht =>
    simp only [List.mem_cons, Prod.mk.injEq, List.not_mem_nil, or_false] at pair
    rw [List.cons_append, List.append_assoc, List.cons_append]
    rcases pair with ⟨rfl, rfl⟩ | ⟨rfl, rfl⟩ | ⟨rfl, rfl⟩
    all_goals simp [Interface.closeAfter?, ihs, iht]

theorem insideBrace_of_nested (h : Nested plain s) : insideBrace (s ++ '}' :: rest) = s := by
  rw [insideBrace, h.closeAfter?, closeAfter?]
  simp

/-- The pieces of a text that starts at some depth. -/
def cutFrom (isSeparator : Char → Bool) (d : Nat) (s : List Char) : List (List Char) :=
  cutAfter isSeparator d [] [] s

theorem modifyHead_nil_append (l : List (List Char)) : l.modifyHead ([] ++ ·) = l := by
  cases l <;> rfl

private theorem cutAfter_eq (isSeparator : Char → Bool) (d : Nat) (piece : List Char)
    (done : List (List Char)) (s : List Char) :
    cutAfter isSeparator d piece done s =
      done.reverse ++ (cutFrom isSeparator d s).modifyHead (piece.reverse ++ ·) := by
  unfold cutFrom
  induction s generalizing d piece done with
  | nil => simp [cutAfter]
  | cons c s ih =>
    rw [cutAfter, cutAfter]
    split
    · rw [ih, ih 0 [] [[].reverse]]
      simp
    · rw [ih, ih _ [c] []]
      simp [Function.comp_def]

theorem cutFrom_nil : cutFrom isSeparator d [] = [[]] := rfl

theorem cutFrom_separator (hc : isSeparator c = true) :
    cutFrom isSeparator 0 (c :: s) = [] :: cutFrom isSeparator 0 s := by
  rw [cutFrom, cutAfter, if_pos ⟨rfl, hc⟩, cutAfter_eq]
  exact congrArg ([] :: ·) (modifyHead_nil_append _)

theorem cutFrom_cons (h : d = 0 → isSeparator c = false) :
    cutFrom isSeparator d (c :: s) =
      (cutFrom isSeparator (depthAfter d c) s).modifyHead (c :: ·) := by
  rw [cutFrom, cutAfter, if_neg, cutAfter_eq]
  · rfl
  · rintro ⟨hd, hc⟩
    rw [h hd] at hc
    cases hc

/-- A nested text without separators outside its brackets stays in one piece. -/
theorem Nested.cutFrom_append (h : Nested plain s)
    (hb : ∀ c, isOpening c = true ∨ isClosing c = true → isSeparator c = false)
    (hp : d = 0 → ∀ c, plain c → isSeparator c = false) (rest : List Char) :
    cutFrom isSeparator d (s ++ rest) = (cutFrom isSeparator d rest).modifyHead (s ++ ·) := by
  induction h generalizing d rest with
  | nil => exact (modifyHead_nil_append _).symm
  | char ho hc outside _ ih =>
    rw [List.cons_append, cutFrom_cons (fun hd => hp hd _ outside), depthAfter_plain ho hc, ih hp]
    simp [Function.comp_def]
  | group pair _ _ ihs iht =>
    obtain ⟨ho, hc, hco⟩ := isOpening_of_pair pair
    rw [List.cons_append, List.append_assoc, List.cons_append,
      cutFrom_cons (fun _ => hb _ (.inl ho)), depthAfter_opening ho, ihs (d := d + 1) nofun,
      cutFrom_cons (fun _ => hb _ (.inr hc)), depthAfter_closing hco hc, iht hp]
    simp [Function.comp_def]

/-- A nested text up to its first separator outside brackets, and what follows that. -/
theorem Nested.first_piece (h : Nested (fun _ => True) s) (isSeparator : Char → Bool) :
    ∃ p, Nested (fun c => isSeparator c = false) p ∧ (s = p ∨ ∃ c r, s = p ++ c :: r ∧
      isSeparator c = true ∧ Nested (fun _ => True) r) := by
  generalize hp : (fun _ : Char => True) = plain at h
  induction h with
  | nil => exact ⟨[], .nil, .inl rfl⟩
  | @char plain c s ho hc _ hs ih =>
    subst hp
    by_cases hsep : isSeparator c = true
    · exact ⟨[], .nil, .inr ⟨c, s, rfl, hsep, hs⟩⟩
    · obtain ⟨p, hp, hrest⟩ := ih rfl
      refine ⟨c :: p, .char ho hc (Bool.eq_false_iff.mpr hsep) hp, ?_⟩
      exact hrest.imp (congrArg (c :: ·)) fun ⟨e, r, hs, h⟩ => ⟨e, r, congrArg (c :: ·) hs, h⟩
  | @group plain o c s t pair inside _ _ ih =>
    subst hp
    obtain ⟨p, hp, hrest⟩ := ih rfl
    refine ⟨o :: (s ++ c :: p), .group pair inside hp, ?_⟩
    refine hrest.imp (fun ht => by rw [ht]) fun ⟨e, r, ht, h⟩ => ⟨e, r, ?_, h⟩
    rw [ht, List.cons_append, List.append_assoc, List.cons_append]

end MockServer.Interface
