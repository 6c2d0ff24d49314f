import MockServer.Proofs.Interface.Spacing

/-!
Line ends and indentation. Whatever white space stands around the newlines of a text, also of one
that is malformed or breaks off, it is read as the same interface.
-/
namespace MockServer.Interface

open MockServer.Text

variable {w : Space} {s t : List Char} {ls ls' : List (List Char)} {g g' : OpenGroup}

/-! Lines -/

/-- One character more in front of the first line. -/
def extendFirst (c : Char) : List (List Char) → List (List Char)
  | [] => [[c]]
  | line :: rest => (c :: line) :: rest

private theorem linesAfter_concat (c : Char) (line s : List Char) :
    linesAfter (line ++ [c]) [] s = extendFirst c (linesAfter line [] s) := by
  induction s generalizing line with
  | nil => cases line <;> simp [linesAfter, extendFirst]
  | cons e s ih =>
    rw [linesAfter, linesAfter]
    split
    · rw [linesAfter_eq, linesAfter_eq [] [_]]
      simp [extendFirst]
    · exact ih (e :: line)

theorem linesOf_cons {c : Char} (hc : c ≠ '\n') (s : List Char) :
    linesOf (c :: s) = extendFirst c (linesOf s) := by
  rw [linesOf, linesAfter, if_neg hc]
  exact linesAfter_concat c [] s

theorem linesOf_newline (s : List Char) : linesOf ('\n' :: s) = ['\n'] :: linesOf s :=
  linesOf_append (a := []) (by simp) s

/-- Lines and the same lines, themselves or with one blank more at the end of one or at the start of
the next one. The blank may be a line of its own at the very end. -/
inductive SpacedLines (w : Space) : List (List Char) → List (List Char) → Prop
  | same (ls : List (List Char)) : SpacedLines w ls ls
  | ended (a : List Char) (ls : List (List Char)) :
    SpacedLines w ((a ++ ['\n']) :: ls) ((a ++ [w.char, '\n']) :: ls)
  | started (a : List Char) (ls : List (List Char)) :
    SpacedLines w ((a ++ ['\n']) :: ls) ((a ++ ['\n']) :: extendFirst w.char ls)
  | cons (line : List Char) {ls ls' : List (List Char)} (rest : SpacedLines w ls ls') :
    SpacedLines w (line :: ls) (line :: ls')

private theorem SpacedLines.extendFirst (h : SpacedLines w ls ls') (c : Char) :
    SpacedLines w (extendFirst c ls) (extendFirst c ls') := by
  cases h with
  | same => exact .same _
  | ended a ls => exact .ended (c :: a) ls
  | started a ls => exact .started (c :: a) ls
  | cons line rest => exact .cons (c :: line) rest

private theorem Spaced.linesOf (h : Spaced w s t) : SpacedLines w (linesOf s) (linesOf t) := by
  induction h using Spaced.induction with
  | same => exact .same _
  | before s =>
    rw [linesOf_cons w.ne_newline, linesOf_newline]
    exact .ended [] _
  | after s =>
    rw [linesOf_newline, linesOf_newline, linesOf_cons w.ne_newline]
    exact .started [] _
  | cons c s t rest ih =>
    by_cases hc : c = '\n'
    · rw [hc, linesOf_newline, linesOf_newline]
      exact .cons ['\n'] ih
    · rw [linesOf_cons hc, linesOf_cons hc]
      exact ih.extendFirst c

/-! Texts of groups -/

/-- A text and the same text with a blank next to a newline or in front. -/
def NearText (w : Space) (s t : List Char) : Prop := Spaced w s t ∨ t = w.char :: s

private theorem NearText.append_right (h : NearText w s t) (u : List Char) :
    NearText w (s ++ u) (t ++ u) := by
  rcases h with h | rfl
  · exact .inl (Inserted.append_right h u)
  · exact .inr rfl

private theorem fieldsIn_append (ps qs : List (List Char)) :
    fieldsIn (ps ++ qs) = fieldsIn ps ++ fieldsIn qs := List.filterMap_append

/-- The fields of a text that is cut at its semicolons. -/
def fieldsOfText (s : List Char) : List (String × FieldType) := fieldsIn (cutAtSemicolons s)

private theorem fieldsOfText_eq (h : NearText w s t) : fieldsOfText s = fieldsOfText t := by
  have hw : (w.char == ';') = false := by simpa using w.ne (c := ';') (by decide)
  rcases h with h | rfl
  · exact fieldsIn_eq (Spaced.cutFrom (· == ';') h hw 0).forall₂
  · exact fieldsIn_eq (forall₂_cutFrom_space (· == ';') hw 0 s)

private theorem fieldsOfText_space (w : Space) : fieldsOfText [w.char] = [] :=
  (fieldsOfText_eq (w := w) (s := []) (.inr rfl)).symm.trans (by decide +kernel)

/-- A blank at the end of a text is in its last piece. -/
theorem exists_cutFrom_concat (isSeparator : Char → Bool) {c : Char}
    (hsep : isSeparator c = false) (d : Nat) (s : List Char) :
    ∃ ps p, cutFrom isSeparator d s = ps ++ [p] ∧
      cutFrom isSeparator d (s ++ [c]) = ps ++ [p ++ [c]] := by
  induction s generalizing d with
  | nil =>
    refine ⟨[], [], rfl, ?_⟩
    rw [List.nil_append, cutFrom_cons fun _ => hsep]
    rfl
  | cons e s ih =>
    rw [List.cons_append]
    rcases separates_or_not isSeparator d e with ⟨rfl, he⟩ | he
    · obtain ⟨ps, p, hs, hc⟩ := ih 0
      rw [cutFrom_separator he, cutFrom_separator he, hs, hc]
      exact ⟨[] :: ps, p, rfl, rfl⟩
    · obtain ⟨ps, p, hs, hc⟩ := ih (depthAfter d e)
      rw [cutFrom_cons he, cutFrom_cons he, hs, hc]
      cases ps with
      | nil => exact ⟨[], e :: p, rfl, rfl⟩
      | cons q ps => exact ⟨(e :: q) :: ps, p, rfl, rfl⟩

private theorem fieldsOfText_concat {c : Char} (hc : isBlank c = true) (s : List Char) :
    fieldsOfText (s ++ [c]) = fieldsOfText s := by
  have hsep : (c == ';') = false := by
    rw [beq_eq_false_iff_ne]
    rintro rfl
    cases hc
  obtain ⟨ps, p, hs, hcut⟩ := exists_cutFrom_concat (· == ';') hsep 0 s
  have hpiece : pieceField? (p ++ [c]) = pieceField? p := by
    rw [pieceField?, readPiece?, trim_append_blanks (by simpa using hc)]
    rfl
  have hcut : cutAtSemicolons (s ++ [c]) = ps ++ [p ++ [c]] := hcut
  have hs : cutAtSemicolons s = ps ++ [p] := hs
  rw [fieldsOfText, fieldsOfText, hs, hcut, fieldsIn_append, fieldsIn_append]
  simp only [fieldsIn, List.filterMap_cons, hpiece, List.filterMap_nil]

/-- A line has the same fields without its end. -/
theorem fieldsOfText_withoutLineEnd (line : List Char) :
    fieldsOfText (withoutLineEnd line) = fieldsOfText line := by
  unfold withoutLineEnd
  split
  next rest hline =>
    rw [← List.reverse_reverse line, hline, List.reverse_cons, List.reverse_cons,
      fieldsOfText_concat (by decide), fieldsOfText_concat (by decide)]
  next rest _ hline =>
    rw [← List.reverse_reverse line, hline, List.reverse_cons, fieldsOfText_concat (by decide)]
  next => rfl

private theorem fieldsIn_leftover (g : OpenGroup) :
    fieldsIn g.leftover = (linesOf g.text).flatMap fieldsOfText := by
  rw [OpenGroup.leftover]
  induction linesOf g.text with
  | nil => rfl
  | cons line ls ih =>
    rw [List.flatMap_cons, List.flatMap_cons, fieldsIn_append, ih]
    exact congrArg (· ++ _) (fieldsOfText_withoutLineEnd line)

private theorem spaced_ended (w : Space) (a s : List Char) :
    Spaced w (a ++ '\n' :: s) (a ++ w.char :: '\n' :: s) :=
  (Inserted.before (σ := w.seam) List.mem_cons_self s).append_left a

private theorem spaced_started (w : Space) (a s : List Char) :
    Spaced w (a ++ '\n' :: s) (a ++ '\n' :: w.char :: s) :=
  (Inserted.after (σ := w.seam) List.mem_cons_self s).append_left a

private theorem flatMap_extendFirst (w : Space) (ls : List (List Char)) :
    (extendFirst w.char ls).flatMap fieldsOfText = ls.flatMap fieldsOfText := by
  cases ls with
  | nil => simp [extendFirst, fieldsOfText_space]
  | cons line ls =>
    rw [extendFirst, List.flatMap_cons, List.flatMap_cons,
      fieldsOfText_eq (w := w) (s := line) (.inr rfl)]

private theorem SpacedLines.flatMap_eq (h : SpacedLines w ls ls') :
    ls.flatMap fieldsOfText = ls'.flatMap fieldsOfText := by
  induction h with
  | same => rfl
  | ended a ls =>
    rw [List.flatMap_cons, List.flatMap_cons, fieldsOfText_eq (.inl (spaced_ended w a []))]
  | started a ls => rw [List.flatMap_cons, List.flatMap_cons, flatMap_extendFirst]
  | cons line _ ih => rw [List.flatMap_cons, List.flatMap_cons, ih]

private theorem fieldsIn_leftover_eq (h : NearText w g.text g'.text) :
    fieldsIn g.leftover = fieldsIn g'.leftover := by
  rw [fieldsIn_leftover, fieldsIn_leftover]
  rcases h with h | h
  · exact (Spaced.linesOf h).flatMap_eq
  · rw [h, linesOf_cons w.ne_newline, flatMap_extendFirst]

/-! Groups of lines -/

theorem OpenGroup.text_cons (line : List Char) (ls : List (List Char)) (d : Nat) :
    OpenGroup.text ⟨line :: ls, d⟩ = OpenGroup.text ⟨ls, d⟩ ++ line := by
  simp [OpenGroup.text]

/-- Groups that read the lines that follow in the same way. -/
structure SameGroup (w : Space) (g g' : OpenGroup) : Prop where
  lines : g.lines = [] ↔ g'.lines = []
  depth : g.depth = g'.depth
  text : NearText w g.text g'.text

/-- The fields of the entries that the lines finish after a group. -/
def fieldsFrom (g : OpenGroup) : List (List Char) → List (String × FieldType)
  | [] => fieldsIn g.leftover
  | line :: ls => fieldsIn (g.add line).2 ++ fieldsFrom (g.add line).1 ls

private theorem fieldsIn_foldl_scanStep (g : OpenGroup) (done ls : List (List Char)) :
    fieldsIn ((ls.foldl scanStep (g, done)).2.reverse ++
      (ls.foldl scanStep (g, done)).1.leftover) = fieldsIn done.reverse ++ fieldsFrom g ls := by
  induction ls generalizing g done with
  | nil => exact fieldsIn_append _ _
  | cons line ls ih =>
    rw [List.foldl_cons, scanStep, ih, fieldsFrom]
    simp [fieldsIn_append]

private theorem fieldsIn_entries (s : List Char) :
    fieldsIn (entries s) = fieldsFrom {} (linesOf s) :=
  fieldsIn_foldl_scanStep {} [] (linesOf s)

/-- One line more in each of two groups, or the entries that it finishes. -/
theorem sameGroup_add {line line' : List Char}
    (htext : NearText w (g.text ++ line) (g'.text ++ line'))
    (hlines : g.lines = [] ↔ g'.lines = [])
    (hdepth : depthOf g.depth line = depthOf g'.depth line')
    (hopens : Declaration.opens line = Declaration.opens line') :
    SameGroup w (g.add line).1 (g'.add line').1 ∧
      fieldsIn (g.add line).2 = fieldsIn (g'.add line').2 := by
  have hempty : g.lines.isEmpty = g'.lines.isEmpty := by
    rw [Bool.eq_iff_iff, List.isEmpty_iff, List.isEmpty_iff, hlines]
  simp only [OpenGroup.add, hdepth, hopens, hempty]
  split
  · refine ⟨⟨by simp, rfl, ?_⟩, rfl⟩
    rw [OpenGroup.text_cons, OpenGroup.text_cons]
    exact htext
  · refine ⟨⟨Iff.rfl, rfl, .inl (.same _)⟩, ?_⟩
    rw [OpenGroup.text_cons, OpenGroup.text_cons]
    exact fieldsOfText_eq htext

private theorem fieldsFrom_eq_of_sameGroup (h : SameGroup w g g') (ls : List (List Char)) :
    fieldsFrom g ls = fieldsFrom g' ls := by
  induction ls generalizing g g' with
  | nil => exact fieldsIn_leftover_eq h.text
  | cons line ls ih =>
    obtain ⟨hgroup, hfields⟩ :=
      sameGroup_add (h.text.append_right line) h.lines (by rw [h.depth]) rfl
    rw [fieldsFrom, fieldsFrom, hfields, ih hgroup]

/-- The group after a line is empty, or it goes on at an open bracket after that line. -/
theorem OpenGroup.add_cases (g : OpenGroup) (line : List Char) :
    (g.add line).1 = {} ∨
      (g.add line).1 = ⟨line :: g.lines, depthOf g.depth line⟩ ∧ 0 < depthOf g.depth line := by
  rw [OpenGroup.add]
  split
  next hopen => exact .inr ⟨rfl, by simpa using (Bool.and_eq_true_iff.mp hopen).1⟩
  next => exact .inl rfl

private theorem depthOf_space (w : Space) (d : Nat) (s : List Char) :
    depthOf d (w.char :: s) = depthOf d s := by
  rw [depthOf, List.foldl_cons, w.depthAfter_char]
  rfl

/-- A blank that starts a line, after one that has ended, changes no field. -/
theorem fieldsFrom_extendFirst (w : Space) (g : OpenGroup) (a : List Char)
    (ls : List (List Char)) :
    fieldsFrom (g.add (a ++ ['\n'])).1 (extendFirst w.char ls) =
      fieldsFrom (g.add (a ++ ['\n'])).1 ls := by
  have hcases := g.add_cases (a ++ ['\n'])
  generalize (g.add (a ++ ['\n'])).1 = g' at hcases ⊢
  have htext (line : List Char) : NearText w (g'.text ++ line) (g'.text ++ w.char :: line) := by
    rcases hcases with rfl | ⟨rfl, -⟩
    · exact .inr rfl
    · have hspaced := spaced_started w (g.text ++ a) line
      exact .inl (by simpa [OpenGroup.text] using hspaced)
  cases ls with
  | nil =>
    -- the blank is a line of its own, which an open group takes in and which else is an entry
    show fieldsIn (g'.add [w.char]).2 ++ fieldsIn (g'.add [w.char]).1.leftover =
      fieldsIn g'.leftover
    rcases hcases with rfl | ⟨hg, hd⟩
    · have hadd : OpenGroup.add {} [w.char] = ({}, cutAtSemicolons [w.char]) := by
        simp [OpenGroup.add, OpenGroup.text, depthOf, w.depthAfter_char]
      have hblank : fieldsIn (cutAtSemicolons [w.char]) = [] := fieldsOfText_space w
      rw [hadd, hblank, List.nil_append]
    · have hdepth : depthOf g'.depth [w.char] = g'.depth := depthOf_space w g'.depth []
      have hadd : g'.add [w.char] = (⟨[w.char] :: g'.lines, g'.depth⟩, []) := by
        rw [OpenGroup.add, hdepth]
        simp [hg, hd]
      have htext := htext []
      rw [List.append_nil] at htext
      rw [hadd]
      refine (fieldsIn_leftover_eq (w := w) ?_).symm
      rw [OpenGroup.text_cons]
      exact htext
  | cons line ls =>
    obtain ⟨hgroup, hfields⟩ := sameGroup_add (htext line) Iff.rfl (depthOf_space w _ _).symm
      (by rw [Declaration.opens, Declaration.opens, trimStart_cons_of_blank w.isBlank_char])
    rw [extendFirst, fieldsFrom, fieldsFrom, ← hfields, fieldsFrom_eq_of_sameGroup hgroup]

/-- The entries of a body declare the same fields on either side of the blank. -/
theorem fieldsFrom_eq (h : SpacedLines w ls ls') (g : OpenGroup) :
    fieldsFrom g ls = fieldsFrom g ls' := by
  induction h generalizing g with
  | same => rfl
  | ended a ls =>
    have hline := spaced_ended w a []
    obtain ⟨hgroup, hfields⟩ := sameGroup_add (.inl (hline.append_left g.text)) Iff.rfl
      (by rw [depthOf_append, depthOf_append, depthOf_space]) hline.opens_eq
    rw [fieldsFrom, fieldsFrom, hfields, fieldsFrom_eq_of_sameGroup hgroup]
  | started a ls => rw [fieldsFrom, fieldsFrom, fieldsFrom_extendFirst]
  | cons line _ ih => rw [fieldsFrom, fieldsFrom, ih]

private theorem fieldsIn_entries_eq (h : Spaced w s t) :
    fieldsIn (entries s) = fieldsIn (entries t) := by
  rw [fieldsIn_entries, fieldsIn_entries, fieldsFrom_eq (Spaced.linesOf h)]

/-! The header -/

/-- The first line may have the blank at its end. What follows it may have it in front. -/
theorem Spaced.firstLine (h : Spaced w s t) :
    trim (s.takeWhile (· != '\n')) = trim (t.takeWhile (· != '\n')) ∧
      NearText w (s.dropWhile (· != '\n')).tail (t.dropWhile (· != '\n')).tail := by
  have hw : (w.char != '\n') = true := bne_iff_ne.mpr w.ne_newline
  suffices h : (t.takeWhile (· != '\n') = s.takeWhile (· != '\n') ∨
      t.takeWhile (· != '\n') = s.takeWhile (· != '\n') ++ [w.char]) ∧
      NearText w (s.dropWhile (· != '\n')).tail (t.dropWhile (· != '\n')).tail by
    refine ⟨?_, h.2⟩
    rcases h.1 with he | he
    · rw [he]
    · rw [he, trim_append_blanks (by simpa using w.isBlank_char)]
  induction h using Spaced.induction with
  | same => exact ⟨.inl rfl, .inl (.same _)⟩
  | before s =>
    have htake : (w.char :: '\n' :: s).takeWhile (· != '\n') = [w.char] := by simp [hw]
    have hdrop : (w.char :: '\n' :: s).dropWhile (· != '\n') = '\n' :: s := by simp [hw]
    rw [htake, hdrop]
    exact ⟨.inr rfl, .inl (.same s)⟩
  | after => exact ⟨.inl rfl, .inr rfl⟩
  | cons c s t rest ih =>
    by_cases hc : c = '\n'
    · subst hc
      exact ⟨.inl rfl, .inl rest⟩
    · have htake (x : List Char) :
          (c :: x).takeWhile (· != '\n') = c :: x.takeWhile (· != '\n') :=
        List.takeWhile_cons_of_pos (bne_iff_ne.mpr hc)
      have hdrop (x : List Char) : (c :: x).dropWhile (· != '\n') = x.dropWhile (· != '\n') :=
        List.dropWhile_cons_of_pos (bne_iff_ne.mpr hc)
      rw [htake, htake, hdrop, hdrop]
      exact ⟨ih.1.imp (congrArg (c :: ·)) (congrArg (c :: ·)), ih.2⟩

private theorem spaced_bodyOf {rest rest' : List Char} (h : NearText w rest rest')
    (header : List Char) :
    Spaced w (bodyOf header rest) (bodyOf header rest') := by
  unfold bodyOf
  split
  next afterBrace _ =>
    refine Spaced.insideBrace ?_
    rcases h with h | rfl
    · exact Inserted.append_left _ (h.cons '\n')
    · exact spaced_started w afterBrace rest
  next =>
    have hstart : Spaced w (trimStart rest) (trimStart rest') := by
      rcases h with h | rfl
      · exact Inserted.trimStart h
      · rw [trimStart_cons_of_blank w.isBlank_char]
        exact .same _
    generalize trimStart rest = x at hstart ⊢
    generalize trimStart rest' = y at hstart ⊢
    rcases hstart.cons_cases (w.not_mem_edges (c := '\x7b') (by decide)) with
      ⟨x, y, rfl, rfl, hxy⟩ | ⟨hx, hy⟩
    · exact Spaced.insideBrace hxy
    · split
      next opened => exact absurd rfl (hx opened)
      next => exact Spaced.insideBrace hstart

/-- One blank next to a newline does not change the interface. -/
theorem ofText_eq (h : Spaced w s t) : ofText s = ofText t := by
  obtain ⟨hheader, hrest⟩ := Spaced.firstLine (Inserted.trimStart (Spaced.withoutComments h))
  have hfields := fieldsIn_entries_eq (spaced_bodyOf hrest
    (trim ((trimStart (withoutComments s)).takeWhile (· != '\n'))))
  rw [← map_field_filterMap, ← map_field_filterMap] at hfields
  rw [ofText, ofText]
  simp only [← hheader]
  exact congrArg (Interface.mk _) (congrArg Fields.ofList hfields)

/-! Any white space -/

/-- White space put around every newline of a text. -/
def respace (u v s : List Char) : List Char :=
  s.flatMap fun c => if c = '\n' then u ++ '\n' :: v else [c]

variable {u v : List Char}

/-- White space before a newline. Each blank is put between those before it and the newline. -/
theorem ofText_before (hu : ∀ c ∈ u, isBlank c = true ∧ c ≠ '\n') (x s : List Char) :
    ofText (x ++ (u ++ '\n' :: s)) = ofText (x ++ '\n' :: s) := by
  induction u generalizing x with
  | nil => rfl
  | cons c u ih =>
    obtain ⟨⟨hblank, hne⟩, hu⟩ := List.forall_mem_cons.mp hu
    have hrest := ih hu (x ++ [c])
    rw [List.append_assoc, List.append_assoc, List.singleton_append, List.singleton_append] at hrest
    rw [List.cons_append, hrest]
    exact (ofText_eq (spaced_ended ⟨c, hblank, hne⟩ x s)).symm

/-- White space after a newline, of which the last blank is put there first. -/
theorem ofText_after (hv : ∀ c ∈ v, isBlank c = true ∧ c ≠ '\n') (x s : List Char) :
    ofText (x ++ '\n' :: (v ++ s)) = ofText (x ++ '\n' :: s) := by
  induction v with
  | nil => rfl
  | cons c v ih =>
    obtain ⟨⟨hblank, hne⟩, hv⟩ := List.forall_mem_cons.mp hv
    rw [← ih hv]
    exact (ofText_eq (spaced_started ⟨c, hblank, hne⟩ x (v ++ s))).symm

private theorem ofText_respace (hu : ∀ c ∈ u, isBlank c = true ∧ c ≠ '\n')
    (hv : ∀ c ∈ v, isBlank c = true ∧ c ≠ '\n') (x s : List Char) :
    ofText (x ++ respace u v s) = ofText (x ++ s) := by
  induction s generalizing x with
  | nil => rfl
  | cons c s ih =>
    rw [respace, List.flatMap_cons, ← respace]
    split
    next hc =>
      have hrest := ih (x ++ u ++ '\n' :: v)
      simp only [List.append_assoc, List.cons_append] at hrest ⊢
      rw [hrest, ofText_before hu, ofText_after hv, hc]
    next =>
      have hrest := ih (x ++ [c])
      rwa [List.append_assoc, List.append_assoc] at hrest

/-- Line ends and indentation do not matter: the interface is the same with any white space before
and any after each newline. -/
theorem parse_respace (hu : ∀ c ∈ u, isBlank c = true ∧ c ≠ '\n')
    (hv : ∀ c ∈ v, isBlank c = true ∧ c ≠ '\n') (source : String) :
    parse (String.ofList (respace u v source.toList)) = parse source := by
  rw [parse, String.toList_ofList]
  exact ofText_respace hu hv [] source.toList

/-- A literal on three lines, with a comment at the end of one. -/
def nestedText : String := "interface N \x7b // text\na: \x7b\nb: number\n\x7d[];\n\x7d"

/-- The same with carriage returns at the ends of its lines and tabs at their starts. -/
def indentedText : String :=
  "interface N \x7b // text\r\n\ta: \x7b\r\n\tb: number\r\n\t\x7d[];\r\n\t\x7d"

theorem parse_indentedText :
    (∀ c ∈ ['\r'], isBlank c = true ∧ c ≠ '\n') ∧ (∀ c ∈ ['\t'], isBlank c = true ∧ c ≠ '\n') ∧
      String.ofList (respace ['\r'] ['\t'] nestedText.toList) = indentedText ∧
      parse indentedText = parse nestedText ∧
      parse nestedText =
        ⟨"N", [("a",
          { kind := .object, isArray := true
            members := some ([("b", { kind := .number })]) })]⟩ := by
  let a : Declaration := ⟨['a'], false, "\x7b\nb: number\n\x7d[]".toList⟩
  let b : Declaration := ⟨['b'], false, "number".toList⟩
  have hb : b.fieldType = { kind := .number } := by
    rw [Declaration.fieldType_eq]
    rfl
  have ha : a.fieldType =
      { kind := .object, isArray := true, members := some ([("b", { kind := .number })]) } := by
    have hmembers : membersOf a.baseType = [b] := by decide +kernel
    rw [Declaration.fieldType_eq, hmembers, fieldsOf, List.map_singleton, hb]
    rfl
  have hspaces : String.ofList (respace ['\r'] ['\t'] nestedText.toList) = indentedText := by
    decide +kernel
  have hparse : ofText nestedText.toList = ⟨"N", fieldsOf [a]⟩ := by
    rw [ofText]
    refine congrArg₂ Interface.mk ?_ (congrArg fieldsOf ?_)
    · decide +kernel
    · decide +kernel
  refine ⟨by decide, by decide, hspaces, ?_, ?_⟩
  · rw [← hspaces, parse_respace (by decide) (by decide)]
  · rw [parse, hparse, fieldsOf, List.map_singleton, ha]
    rfl

end MockServer.Interface
