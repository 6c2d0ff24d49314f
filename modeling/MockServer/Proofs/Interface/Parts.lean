import MockServer.Proofs.Interface.Header
import MockServer.Proofs.Interface.Partition

/-!
What is cut out of a text stands in it, in its order and only once: the body of an interface and of
a literal, and the type of a declaration, which has a colon of its own in front of it.
-/
namespace MockServer.Interface

open MockServer.Text

variable {s t inside : List Char} {d : Declaration}

/-! Blanks and semicolons -/

theorem trimStart_sublist (s : List Char) : (trimStart s).Sublist s := List.dropWhile_sublist isBlank

private theorem trimEnd_sublist (s : List Char) : (trimEnd s).Sublist s := by
  obtain ⟨u, hu, -⟩ := trimEnd_append s
  exact List.IsPrefix.sublist ⟨u, hu⟩

theorem trim_sublist (s : List Char) : (trim s).Sublist s :=
  (trimEnd_sublist _).trans (trimStart_sublist s)

private theorem Declaration.withoutSemicolon_sublist (s : List Char) :
    (withoutSemicolon s).Sublist s := by
  unfold withoutSemicolon
  split
  · exact List.dropLast_sublist s
  · exact List.Sublist.refl s

/-! Braces -/

/-- A brace is closed by the next character after the text inside it. -/
theorem exists_of_closeAfter? {d : Nat} {kept : List Char}
    (h : closeAfter? d kept s = some inside) :
    ∃ front rest, inside = kept.reverse ++ front ∧ s = front ++ '\x7d' :: rest := by
  induction s generalizing d kept with
  | nil => cases h
  | cons c s ih =>
    have hmore {d : Nat} (h : closeAfter? d (c :: kept) s = some inside) :
        ∃ front rest, inside = kept.reverse ++ front ∧ c :: s = front ++ '\x7d' :: rest := by
      obtain ⟨front, rest, rfl, rfl⟩ := ih h
      exact ⟨c :: front, rest, by simp, rfl⟩
    rw [closeAfter?] at h
    split at h
    · exact hmore h
    split at h
    next hc =>
      split at h
      · obtain rfl := Option.some.inj h
        exact ⟨[], s, by simp, by rw [hc]; rfl⟩
      · exact hmore h
    · exact hmore h

private theorem insideBrace_isPrefix (s : List Char) : insideBrace s <+: s := by
  rw [insideBrace]
  cases h : closeAfter? 0 [] s with
  | none => exact List.prefix_refl s
  | some inside =>
    obtain ⟨front, rest, rfl, rfl⟩ := exists_of_closeAfter? h
    exact ⟨'\x7d' :: rest, rfl⟩

/-- A literal has its opening brace in front of its body. -/
theorem brace_literalBody_sublist (h : '\x7b' ∈ s) : ('\x7b' :: literalBody s).Sublist s := by
  have hsuffix : s.dropWhile (· != '\x7b') <:+ s := List.dropWhile_suffix _
  rw [literalBody]
  cases hd : s.dropWhile (· != '\x7b') with
  | nil => exact absurd (List.dropWhile_eq_nil_iff.mp hd _ h) (by decide)
  | cons c r =>
    obtain rfl : c = '\x7b' := by simpa using of_dropWhile_cons hd
    rw [hd] at hsuffix
    exact ((insideBrace_isPrefix r).sublist.cons_cons _).trans hsuffix.sublist

/-! Declarations -/

private theorem arrayElement?_sublist {element : List Char} (h : arrayElement? s = some element) :
    element.Sublist s := by
  unfold arrayElement? at h
  split at h
  next e hs =>
    obtain rfl := Option.some.inj h
    have hs : s = e.reverse ++ ['[', ']'] := by
      rw [← List.reverse_reverse s, hs]
      simp
    rw [hs]
    exact (trimEnd_sublist _).trans (List.sublist_append_left _ _)
  next => cases h

namespace Declaration

/-- A colon stands before the type. -/
theorem colon_type_sublist_of_atStart? (h : atStart? s = some d) : (':' :: d.type).Sublist s := by
  unfold atStart? at h
  split at h
  next o c type hafter =>
    obtain rfl := Option.some.inj h
    have htype : (withoutSemicolon (trimStart (c :: type))).Sublist (c :: type) :=
      (withoutSemicolon_sublist _).trans (trimStart_sublist _)
    have hsuffix := (colon_suffix_of_afterName? hafter).trans (List.dropWhile_suffix isWord)
    exact (htype.cons_cons ':').trans hsuffix.sublist
  next => cases h

theorem colon_type_sublist (h : read? s = some d) : (':' :: d.type).Sublist s := by
  fun_induction read? s with
  | case1 => cases h
  | case2 s c rest hs e he =>
    obtain rfl := Option.some.inj h
    have hsuffix : c :: rest <:+ s := hs ▸ List.dropWhile_suffix (!isWord ·)
    exact (colon_type_sublist_of_atStart? he).trans hsuffix.sublist
  | case3 s c rest hs _ ih =>
    have hsuffix : c :: rest <:+ s := hs ▸ List.dropWhile_suffix (!isWord ·)
    exact (ih h).trans ((List.dropWhile_sublist isWord).trans
      ((List.sublist_cons_self c rest).trans hsuffix.sublist))

theorem baseType_sublist (d : Declaration) : d.baseType.Sublist d.type := by
  have hclean : d.cleanType.Sublist d.type :=
    (trimEnd_sublist _).trans ((withoutSemicolon_sublist _).trans (trim_sublist _))
  rw [baseType]
  cases he : arrayElement? d.cleanType with
  | none => exact hclean
  | some element => exact (arrayElement?_sublist he).trans hclean

end Declaration

/-- The declarations of pieces take up their own colons and types. -/
theorem flatMap_type_sublist (ps : List (List Char)) :
    ((ps.filterMap readPiece?).flatMap fun d => ':' :: d.type).Sublist ps.flatten := by
  induction ps with
  | nil => exact List.Sublist.refl []
  | cons p ps ih =>
    rw [List.flatten_cons]
    cases hp : readPiece? p with
    | none =>
      rw [List.filterMap_cons_none hp]
      exact ih.trans (List.sublist_append_right p _)
    | some d =>
      rw [List.filterMap_cons_some hp, List.flatMap_cons]
      exact ((Declaration.colon_type_sublist hp).trans (trim_sublist p)).append ih

theorem membersOf_sublist (base : List Char) :
    ((membersOf base).flatMap fun d => ':' :: d.type).Sublist (literalBody base) :=
  (flatMap_type_sublist _).trans (isCutInto_cutFrom (fun _ h => h) 0 _).flatten_sublist

/-! The body -/

private theorem headerOf_restOf_sublist (s : List Char) :
    (headerOf s ++ '\n' :: restOf s).Sublist (s ++ ['\n']) := by
  have hline : (headerOf s).Sublist ((trimStart s).takeWhile (· != '\n')) := trim_sublist _
  have hsplit := List.takeWhile_append_dropWhile (p := (· != '\n')) (l := trimStart s)
  rw [restOf]
  cases hd : (trimStart s).dropWhile (· != '\n') with
  | nil =>
    rw [hd, List.append_nil] at hsplit
    rw [hsplit] at hline
    exact (hline.trans (trimStart_sublist s)).append (List.Sublist.refl _)
  | cons c rest =>
    obtain rfl : c = '\n' := by simpa using of_dropWhile_cons hd
    rw [hd] at hsplit
    have hs := hline.append (List.Sublist.refl ('\n' :: rest))
    rw [hsplit] at hs
    exact (hs.trans (trimStart_sublist s)).trans (List.sublist_append_left s _)

private theorem withoutOpening_sublist (s : List Char) : (withoutOpening s).Sublist s := by
  unfold withoutOpening
  split
  · exact List.sublist_cons_self _ _
  · exact List.Sublist.refl _

private theorem openedBy_sublist (header rest : List Char) :
    (openedBy header rest).Sublist (header ++ '\n' :: rest) := by
  have hsuffix : header.dropWhile (· != '\x7b') <:+ header := List.dropWhile_suffix _
  rw [openedBy]
  split
  next c inner hinner =>
    rw [hinner] at hsuffix
    exact ((List.sublist_cons_self c inner).trans hsuffix.sublist).append (List.Sublist.refl _)
  next =>
    exact ((withoutOpening_sublist _).trans (trimStart_sublist rest)).trans
      ((List.sublist_cons_self '\n' rest).trans (List.sublist_append_right header _))

/-- The declarations of a text take up their own colons and types. -/
theorem declarationsOf_sublist (s : List Char) :
    ((declarationsOf s).flatMap fun d => ':' :: d.type).Sublist (s ++ ['\n']) := by
  have hbody : (bodyOf (headerOf s) (restOf s)).Sublist (s ++ ['\n']) := by
    rw [bodyOf_eq]
    exact (insideBrace_isPrefix _).sublist.trans
      ((openedBy_sublist _ _).trans (headerOf_restOf_sublist s))
  exact (flatMap_type_sublist _).trans ((flatten_entries_sublist _).trans hbody)

end MockServer.Interface
