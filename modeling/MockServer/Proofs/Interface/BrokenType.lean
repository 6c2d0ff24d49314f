import MockServer.Proofs.Interface.LineBreak

/-!
Types do not depend on where the lines of their literals break: the keywords are the same, and each
member is in a piece of its own before and after.
-/
namespace MockServer.Interface

open MockServer.Text

/-- Every brace that opens in the text closes in it, and the brackets between the two are nested. -/
def BracesClose (s : List Char) : Prop :=
  ∀ a r, s = a ++ '\x7b' :: r →
    ∃ i rest, r = i ++ '\x7d' :: rest ∧ Nested (fun _ => True) i

variable {s t u i j : List Char}

theorem Nested.bracesClose {plain : Char → Prop} (h : Nested plain s) : BracesClose s := by
  induction h with
  | nil => exact fun a r he => absurd he (by simp)
  | @char plain c s ho _ _ _ ih =>
    intro a r he
    cases a with
    | nil =>
      obtain ⟨rfl, -⟩ := List.cons.inj he
      cases ho
    | cons e a => exact ih a r (List.cons.inj he).2
  | @group plain o c s t pair inside _ ihs iht =>
    obtain ⟨ho, hc, hco⟩ := isOpening_of_pair pair
    intro a r he
    cases a with
    | nil =>
      obtain ⟨rfl, rfl⟩ := List.cons.inj he
      obtain rfl : c = '\x7d' := by simpa using pair
      exact ⟨s, t, rfl, inside⟩
    | cons e a =>
      rcases List.append_eq_append_iff.mp (List.cons.inj he).2 with ⟨m, rfl, hm⟩ | ⟨m, rfl, hm⟩
      · -- the brace opens after the bracket has closed
        cases m with
        | nil =>
          obtain ⟨rfl, -⟩ := List.cons.inj hm
          cases hco
        | cons e m => exact iht m r (List.cons.inj hm).2
      · cases m with
        | nil =>
          obtain ⟨rfl, -⟩ := List.cons.inj hm
          cases hco
        | cons e m =>
          obtain ⟨rfl, rfl⟩ := List.cons.inj hm
          obtain ⟨i, rest, rfl, hi⟩ := ihs a m rfl
          exact ⟨i, rest ++ c :: t, by simp, hi⟩

namespace BracesClose

private theorem of_suffix (h : BracesClose t) (hs : s <:+ t) : BracesClose s := by
  obtain ⟨u, rfl⟩ := hs
  rintro a r rfl
  exact h (u ++ a) r (List.append_assoc u a _).symm

private theorem of_append (h : BracesClose (s ++ u)) (hu : '\x7d' ∉ u) : BracesClose s := by
  rintro a r rfl
  obtain ⟨i, rest, hr, hi⟩ := h a (r ++ u) (by simp)
  rcases List.append_eq_append_iff.mp hr with ⟨m, rfl, hm⟩ | ⟨m, rfl, hm⟩
  · exact absurd (hm ▸ List.mem_append_right m List.mem_cons_self) hu
  · cases m with
    | nil => exact absurd ((List.nil_append u ▸ hm) ▸ List.mem_cons_self) hu
    | cons e m =>
      obtain ⟨rfl, -⟩ := List.cons.inj hm
      exact ⟨i, m, rfl, hi⟩

private theorem trim (h : BracesClose s) : BracesClose (trim s) := by
  obtain ⟨u, hu, hblank⟩ := trimEnd_append (trimStart s)
  refine of_append (u := u) ?_ (not_mem_of_forall hblank (by decide))
  rw [Text.trim, hu]
  exact h.of_suffix (List.dropWhile_suffix isBlank)

private theorem trimEnd (h : BracesClose s) : BracesClose (trimEnd s) := by
  obtain ⟨u, hu, hblank⟩ := trimEnd_append s
  exact of_append (u := u) (hu.symm ▸ h) (not_mem_of_forall hblank (by decide))

private theorem withoutSemicolon (h : BracesClose s) :
    BracesClose (Declaration.withoutSemicolon s) := by
  unfold Declaration.withoutSemicolon
  split
  next hl =>
    obtain ⟨init, rfl⟩ := List.getLast?_eq_some_iff.mp hl
    rw [List.dropLast_concat]
    exact h.of_append (by decide)
  next => exact h

private theorem arrayElement? (h : BracesClose s) (he : arrayElement? s = some t) :
    BracesClose t := by
  by_cases hs : ['[', ']'] <:+ s
  · obtain ⟨e, rfl⟩ := hs
    rw [arrayElement?_append] at he
    obtain rfl := Option.some.inj he
    exact (h.of_append (by decide)).trimEnd
  · rw [arrayElement?_of_not_suffix hs] at he
    cases he

private theorem atStart? {d : Declaration} (h : BracesClose s)
    (hd : Declaration.atStart? s = some d) :
    BracesClose d.type := by
  unfold Declaration.atStart? at hd
  split at hd
  next o c type ha =>
    obtain rfl := Option.some.inj hd
    have htype := (Declaration.suffix_of_afterName? ha).trans (List.dropWhile_suffix isWord)
    exact (h.of_suffix ((List.dropWhile_suffix isBlank).trans htype)).withoutSemicolon
  next => cases hd

private theorem read? {d : Declaration} (h : BracesClose s) (hd : Declaration.read? s = some d) :
    BracesClose d.type := by
  fun_induction Declaration.read? s with
  | case1 => cases hd
  | case2 s c rest hs e he =>
    obtain rfl := Option.some.inj hd
    exact (h.of_suffix (hs ▸ List.dropWhile_suffix _)).atStart? he
  | case3 s c rest hs he ih =>
    have hrest : rest <:+ s := (List.suffix_cons c rest).trans (hs ▸ List.dropWhile_suffix _)
    exact ih (h.of_suffix ((List.dropWhile_suffix isWord).trans hrest)) hd

private theorem baseType {d : Declaration} (h : BracesClose d.type) : BracesClose d.baseType := by
  have hclean : BracesClose d.cleanType := h.trim.withoutSemicolon.trimEnd
  unfold Declaration.baseType
  cases he : Interface.arrayElement? d.cleanType with
  | none => exact hclean
  | some e => exact hclean.arrayElement? he

end BracesClose

/-! The text between the braces of a literal -/

/-- Brackets stay nested, unless a newline falls outside of them where none may be. -/
theorem Nested.broken {plain : Char → Prop} (h : Nested plain s)
    (hp : ∀ c ∈ [';', ','], plain c → plain '\n') (hb : Broken s t) : Nested plain t := by
  induction h generalizing t with
  | nil => rw [hb.eq_nil_iff.mp rfl]; exact .nil
  | @char plain c s ho hc hplain hs ih =>
    cases hb with
    | same => exact .char ho hc hplain hs
    | before edge =>
      obtain rfl := List.mem_singleton.mp edge
      cases hc
    | after edge =>
      have hsep : c ∈ [';', ','] := by
        rcases List.mem_cons.mp edge with rfl | hsep
        · cases ho
        · exact hsep
      exact .char ho hc hplain (.char rfl rfl (hp c hsep hplain) hs)
    | cons _ rest => exact .char ho hc hplain (ih hp rest)
  | @group plain o c s r pair inside rest ihs ihr =>
    obtain ⟨ho, hc, -⟩ := isOpening_of_pair pair
    cases hb with
    | same => exact .group pair inside rest
    | before edge =>
      obtain rfl := List.mem_singleton.mp edge
      cases ho
    | after => exact .group pair (.char rfl rfl trivial inside) rest
    | cons _ hb =>
      rcases hb.of_append with ⟨s', hs', rfl⟩ | ⟨y, hy, rfl⟩
      · exact .group pair (ihs (fun _ _ _ => trivial) hs') rest
      cases hy with
      | same => exact .group pair inside rest
      | before edge =>
        obtain rfl := List.mem_singleton.mp edge
        have hinside := inside.append (.char (c := '\n') rfl rfl trivial .nil)
        have hgroup := Nested.group pair hinside rest
        rwa [List.append_assoc] at hgroup
      | after edge =>
        have hclosing : ∀ c ∈ ['\x7b', ';', ','], isClosing c = false := by decide
        exact absurd hc (by simp [hclosing _ edge])
      | cons _ hr => exact .group pair inside (ihr hp hr)

/-- The inside of a literal with a newline more, which may also stand next to its braces. -/
def Rebroken (i j : List Char) : Prop := Broken i j ∨ j = '\n' :: i ∨ j = i ++ ['\n']

private theorem literalBody_of_dropWhile {r rest : List Char}
    (h : s.dropWhile (· != '\x7b') = '\x7b' :: r) (hr : r = i ++ '\x7d' :: rest)
    (hi : Nested (fun _ => True) i) : literalBody s = i := by
  rw [literalBody, h, List.tail_cons, hr, insideBrace_of_nested hi]

private theorem rebroken_literalBody (h : Broken s t) (hs : BracesClose s) :
    Nested (fun _ => True) (literalBody s) ∧ Rebroken (literalBody s) (literalBody t) := by
  have hd := h.dropWhile (p := (· != '\x7b')) (by decide)
  cases hr : s.dropWhile (· != '\x7b') with
  | nil =>
    have hs : literalBody s = [] := by rw [literalBody, hr]; rfl
    have ht : literalBody t = [] := by
      rw [hr] at hd
      rw [literalBody, hd.eq_nil_iff.mp rfl]
      rfl
    rw [hs, ht]
    exact ⟨.nil, .inl (.same [])⟩
  | cons c r =>
    obtain rfl : c = '\x7b' := by simpa using of_dropWhile_cons hr
    obtain ⟨i, rest, rfl, hi⟩ := hs (s.takeWhile (· != '\x7b')) r (by
      rw [← hr, List.takeWhile_append_dropWhile])
    have htrue : ∀ c ∈ [';', ','], True → True := fun _ _ _ => trivial
    rw [literalBody_of_dropWhile hr rfl hi]
    refine ⟨hi, ?_⟩
    rw [hr] at hd
    generalize hv : t.dropWhile (· != '\x7b') = v at hd
    cases hd with
    | same =>
      rw [literalBody_of_dropWhile hv rfl hi]
      exact .inl (.same i)
    | before edge => exact absurd edge (by decide)
    | after =>
      rw [literalBody_of_dropWhile (i := '\n' :: i) hv rfl (.char rfl rfl trivial hi)]
      exact .inr (.inl rfl)
    | cons _ hd =>
      rcases hd.of_append with ⟨j, hj, rfl⟩ | ⟨y, hy, rfl⟩
      · rw [literalBody_of_dropWhile hv rfl (hi.broken htrue hj)]
        exact .inl hj
      cases hy with
      | same =>
        rw [literalBody_of_dropWhile hv rfl hi]
        exact .inl (.same i)
      | before =>
        have hj : Nested (fun _ => True) (i ++ ['\n']) := hi.append (.char rfl rfl trivial .nil)
        have hrest : i ++ '\n' :: '\x7d' :: rest = (i ++ ['\n']) ++ '\x7d' :: rest := by simp
        rw [literalBody_of_dropWhile hv hrest hj]
        exact .inr (.inr rfl)
      | after edge => exact absurd edge (by decide)
      | cons =>
        rw [literalBody_of_dropWhile hv rfl hi]
        exact .inl (.same i)

/-! Members -/

private theorem membersIn_newline (s : List Char) : membersIn ('\n' :: s) = membersIn s :=
  membersIn_blank (u := ['\n']) (by decide) s

private theorem membersIn_append_newline (hi : Nested (fun _ => True) i) :
    membersIn (i ++ ['\n']) = membersIn i := by
  induction hlen : i.length using Nat.strongRecOn generalizing i with | _ len ih
  obtain ⟨p, hp, rfl | ⟨c, r, rfl, hc, hr⟩⟩ := hi.first_piece endsMember
  · rw [membersIn_cons hp (by decide), membersIn_piece hp, membersIn_nil, List.append_nil]
  · rw [List.append_assoc, List.cons_append, membersIn_cons hp hc, membersIn_cons hp hc,
      ih r.length (by rw [← hlen]; simp; omega) hr rfl]

/-- What is read from every piece alone is read from all members. -/
theorem map_membersIn_of_broken {α : Type} {f : Declaration → α} (hi : Nested (fun _ => True) i)
    (hb : Broken i j)
    (hf : ∀ p q, p.length ≤ i.length → Nested (fun c => endsMember c = false) p → Broken p q →
      (readPiece? p).map f = (readPiece? q).map f) :
    (membersIn i).map f = (membersIn j).map f := by
  induction hlen : i.length using Nat.strongRecOn generalizing i j with | _ len ih
  have hpiece {p q : List Char} (hpi : p.length ≤ i.length)
      (hp : Nested (fun c => endsMember c = false) p) (hpq : Broken p q) :
      (readPiece? p).toList.map f = (readPiece? q).toList.map f := by
    have := hf p q hpi hp hpq
    rw [← Option.toList_map, ← Option.toList_map, this]
  have hplain : ∀ c ∈ [';', ','], endsMember c = false → endsMember '\n' = false := by decide
  obtain ⟨p, hp, rfl | ⟨c, r, rfl, hc, hr⟩⟩ := hi.first_piece endsMember
  · rw [membersIn_piece hp, membersIn_piece (hp.broken hplain hb)]
    exact hpiece (Nat.le_refl _) hp hb
  · have hpi : p.length ≤ (p ++ c :: r).length := by simp
    rcases hb.of_append with ⟨q, hq, rfl⟩ | ⟨y, hy, rfl⟩
    · rw [membersIn_cons hp hc, membersIn_cons (hp.broken hplain hq) hc, List.map_append,
        List.map_append, hpiece hpi hp hq]
    · cases hy with
      | same => rfl
      | before edge =>
        obtain rfl := List.mem_singleton.mp edge
        cases hc
      | after =>
        show _ = (membersIn (p ++ c :: '\n' :: r)).map f
        rw [membersIn_cons hp hc, membersIn_cons hp hc, membersIn_newline]
      | cons _ hy =>
        rw [membersIn_cons hp hc, membersIn_cons hp hc, List.map_append, List.map_append,
          ih r.length (by rw [← hlen]; simp; omega) hr hy ?_ rfl]
        exact fun p' q hp' => hf p' q (by simp; omega)

private theorem map_membersIn_of_rebroken {α : Type} {f : Declaration → α}
    (hi : Nested (fun _ => True) i) (hb : Rebroken i j)
    (hf : ∀ p q, p.length ≤ i.length → Nested (fun c => endsMember c = false) p → Broken p q →
      (readPiece? p).map f = (readPiece? q).map f) :
    (membersIn i).map f = (membersIn j).map f := by
  rcases hb with hb | rfl | rfl
  · exact map_membersIn_of_broken hi hb hf
  · rw [membersIn_newline]
  · rw [membersIn_append_newline hi]

/-! The shape of a field -/

/-- The shape of a field does not depend on where its literals break. -/
theorem fieldType_eq_of_broken {d e : Declaration} (h : Declaration.SameBut lineSeam d e)
    (hd : BracesClose d.type) : d.fieldType = e.fieldType := by
  induction hlen : d.type.length using Nat.strongRecOn generalizing d e with | _ len ih
  refine h.fieldType_eq_of_members ?_
  obtain ⟨hnested, hinside⟩ := rebroken_literalBody h.baseType hd.baseType
  refine congrArg Fields.ofList (map_membersIn_of_rebroken hnested hinside ?_)
  intro p q hlength hp hpq
  refine map_field_eq (hpq.trim.read? (trimEnd_trimEnd _)) fun m m' hm hmm => ?_
  -- a member's type is shorter than the literal
  have hlt : m.type.length < len := by
    have h1 := Declaration.length_type_lt hm
    have h2 := trim_length_le p
    have h3 := length_literalBody_le d.baseType
    have h4 := length_baseType_le d
    omega
  exact ih _ hlt hmm (hp.bracesClose.trim.read? hm) rfl

/-- A piece gives the same field on either side of a line break. -/
theorem Broken.field_eq (h : Broken s t) (hs : BracesClose s) :
    (readPiece? s).map Declaration.field = (readPiece? t).map Declaration.field :=
  map_field_eq (h.trim.read? (trimEnd_trimEnd _)) fun _ _ hd hde =>
    fieldType_eq_of_broken hde (hs.trim.read? hd)

end MockServer.Interface
