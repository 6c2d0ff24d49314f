import MockServer.Proofs.Interface.Reading

/-!
The form of a field, and where reading looks for it: not in the entry as a whole but in its longest
end that has the form, whatever stands before that.
-/
namespace MockServer.Interface

open MockServer.Text

/-- The text as a whole is a field: a name, perhaps a question mark, blanks, a colon, blanks, a type
expression that is not empty, and perhaps a semicolon. -/
inductive IsField (name : List Char) : List Char → Prop
  | intro {mark before after type tail : List Char} (named : IsIdentifier name)
    (marked : mark = [] ∨ mark = ['?']) (spaced : ∀ c ∈ before ++ after, isBlank c = true)
    (typed : type ≠ []) (ended : tail = [] ∨ tail = [';']) :
    IsField name (name ++ (mark ++ (before ++ ':' :: (after ++ (type ++ tail)))))

/-- The longest end of the text that has the form of a field has it with this name. -/
def EndsInField (name text : List Char) : Prop :=
  ∃ part, part <:+ text ∧ IsField name part ∧
    ∀ other n, other <:+ text → IsField n other → other.length ≤ part.length

/-- The name and the shape that an entry adds to a model, if it adds a field at all. -/
def fieldOf? (entry : List Char) : Option (String × FieldType) :=
  (Declaration.read? entry).map Declaration.field

variable {name n s t part : List Char} {d : Declaration}

/-! One place -/

private theorem suffix_dropWhile {p : Char → Bool} {c : Char} (hc : p c = false)
    (h : c :: t <:+ s) : c :: t <:+ s.dropWhile p := by
  obtain ⟨u, rfl⟩ := h
  rw [dropWhile_append_cons hc]
  exact List.suffix_append _ _

namespace Declaration

private theorem exists_afterName? {mark before : List Char} (hm : mark = [] ∨ mark = ['?'])
    (hb : ∀ c ∈ before, isBlank c = true) (type : List Char) :
    ∃ o, afterName? (mark ++ (before ++ ':' :: type)) = some (o, type) := by
  have hstart : trimStart (before ++ ':' :: type) = ':' :: type := by
    rw [trimStart, List.dropWhile_append_of_pos hb]
    exact trimStart_cons_of_not_blank (by decide) type
  rcases hm with rfl | rfl
  · have hmark : optionalMark (before ++ ':' :: type) = (false, before ++ ':' :: type) := by
      refine optionalMark_of_ne fun x hx => ?_
      rcases before with - | ⟨c, before⟩
      · cases hx
      · obtain ⟨rfl, -⟩ := List.cons.inj hx
        exact absurd (hb '?' List.mem_cons_self) (by decide)
    exact ⟨false, (afterName?_of_colon (by rw [List.nil_append, hmark, hstart])).trans
      (by rw [List.nil_append, hmark])⟩
  · exact ⟨true, afterName?_of_colon hstart⟩

/-- A declaration at the start of a text has that text for its field. -/
theorem isField_of_atStart? {c : Char} {rest : List Char} (hc : isWord c = true)
    (h : atStart? (c :: rest) = some d) : IsField d.name (c :: rest) := by
  unfold atStart? at h
  split at h
  next o e type hafter =>
    obtain rfl := Option.some.inj h
    obtain ⟨mark, before, hm, hb, hs⟩ := exists_of_afterName? hafter
    have hnamed : IsIdentifier ((c :: rest).takeWhile isWord) :=
      ⟨by simp [hc], fun e he => List.mem_takeWhile_imp he⟩
    have hfield := @IsField.intro _ mark before [] (e :: type) [] hnamed hm
      (by simpa using hb) (List.cons_ne_nil e type) (.inl rfl)
    rwa [List.nil_append, List.append_nil, ← hs, List.takeWhile_append_dropWhile] at hfield
  next => cases h

end Declaration

namespace IsField

theorem named (h : IsField name s) : IsIdentifier name := by
  cases h
  assumption

private theorem exists_cons (h : IsField name s) : ∃ c rest, s = c :: rest ∧ isWord c = true := by
  cases h with
  | intro named =>
    obtain ⟨hne, hw⟩ := named
    obtain ⟨c, rest, rfl⟩ := List.exists_cons_of_ne_nil hne
    exact ⟨c, _, rfl, hw c List.mem_cons_self⟩

private theorem exists_atStart? (h : IsField name s) :
    ∃ d, Declaration.atStart? s = some d ∧ d.name = name := by
  cases h with
  | @intro mark before after type tail named marked spaced typed _ =>
    obtain ⟨o, hafter⟩ := Declaration.exists_afterName? marked
      (fun c hc => spaced c (List.mem_append_left _ hc)) (after ++ (type ++ tail))
    have hstop : ∃ c rest, mark ++ (before ++ ':' :: (after ++ (type ++ tail))) = c :: rest ∧
        isWord c = false := by
      rcases marked with rfl | rfl
      · rcases before with - | ⟨c, before⟩
        · exact ⟨':', _, rfl, by decide⟩
        · exact ⟨c, _, rfl, not_isWord_of_isBlank (spaced c List.mem_cons_self)⟩
      · exact ⟨'?', _, rfl, by decide⟩
    obtain ⟨c, rest, hc, hw⟩ := hstop
    obtain ⟨e, x, hx⟩ := List.exists_cons_of_ne_nil (l := after ++ (type ++ tail))
      (by simp [typed])
    have htake : (name ++ c :: rest).takeWhile isWord = name := by
      rw [List.takeWhile_append_of_pos named.2, List.takeWhile_cons_of_neg (by simp [hw]),
        List.append_nil]
    have hdrop : (name ++ c :: rest).dropWhile isWord = c :: rest := by
      rw [List.dropWhile_append_of_pos named.2, List.dropWhile_cons_of_neg (by simp [hw])]
    rw [hc, hx] at hafter
    rw [hc]
    exact ⟨_, Declaration.atStart?_of_afterName? (hdrop ▸ hafter), htake⟩

/-- A word before the text only lengthens the name. -/
theorem exists_atStart?_append {w : List Char} (hw : ∀ c ∈ w, isWord c = true)
    (h : IsField name s) : ∃ d, Declaration.atStart? (w ++ s) = some d ∧ d.name = w ++ name := by
  cases h with
  | @intro mark before after type tail named marked spaced typed ended =>
    have hnamed : IsIdentifier (w ++ name) := by
      refine ⟨by simp [named.1], fun c hc => ?_⟩
      exact (List.mem_append.mp hc).elim (hw c) (named.2 c)
    rw [← List.append_assoc]
    exact (intro hnamed marked spaced typed ended).exists_atStart?

/-- A text that is no declaration at its first word has its fields behind that word. -/
theorem suffix_of_atStart?_eq_none {c : Char} {rest : List Char} (hc : isWord c = true)
    (hnone : Declaration.atStart? (c :: rest) = none) (h : IsField name part)
    (hpart : part <:+ c :: rest) : part <:+ rest.dropWhile isWord := by
  have hinside {w : List Char} (hw : ∀ e ∈ w, isWord e = true) : w ++ part ≠ c :: rest := by
    intro he
    obtain ⟨d, hd, -⟩ := h.exists_atStart?_append hw
    rw [he, hnone] at hd
    cases hd
  have hrest : part <:+ rest :=
    (List.suffix_cons_iff.mp hpart).resolve_left (hinside (w := []) (by simp))
  rw [← List.takeWhile_append_dropWhile (p := isWord) (l := rest)] at hrest
  obtain ⟨u, hu⟩ := hrest
  rcases List.append_eq_append_iff.mp hu with ⟨w, hw, -⟩ | ⟨w, hw, hsuffix⟩
  · -- the form would start inside the word
    have hword : ∀ e ∈ c :: u, isWord e = true := by
      rw [List.forall_mem_cons]
      refine ⟨hc, fun e he => List.mem_takeWhile_imp (l := rest) ?_⟩
      rw [hw]
      exact List.mem_append_left w he
    refine absurd ?_ (hinside hword)
    rw [List.cons_append, hu, List.takeWhile_append_dropWhile]
  · exact ⟨w, hsuffix.symm⟩

end IsField

/-! Every place -/

private theorem EndsInField.of_longest (hpart : part <:+ s) (h : IsField name part)
    (hlongest : ∀ other n, other <:+ s → IsField n other → other <:+ part) : EndsInField name s :=
  ⟨part, hpart, h, fun other n hother hn => (hlongest other n hother hn).length_le⟩

/-- Only the name of the longest end counts. -/
theorem EndsInField.name_eq (h : EndsInField n s) (hpart : part <:+ s) (hfield : IsField name part)
    (hlongest : ∀ other n, other <:+ s → IsField n other → other <:+ part) : n = name := by
  obtain ⟨p, hp, hn, hmax⟩ := h
  have heq : p = part :=
    (hlongest p n hp hn).eq_of_length_le (hmax part name hpart hfield)
  obtain ⟨d, hd, rfl⟩ := hn.exists_atStart?
  obtain ⟨e, he, rfl⟩ := hfield.exists_atStart?
  rw [heq, he] at hd
  rw [Option.some.inj hd]

/-- Ends are the same in a text and in what follows its first characters, as far as no form of a
field starts in those. -/
theorem endsInField_congr (hst : t <:+ s)
    (h : ∀ part n, part <:+ s → IsField n part → part <:+ t) :
    EndsInField name s ↔ EndsInField name t := by
  constructor
  · rintro ⟨part, hpart, hn, hmax⟩
    exact ⟨part, h part name hpart hn, hn, fun other n hother => hmax other n (hother.trans hst)⟩
  · rintro ⟨part, hpart, hn, hmax⟩
    exact ⟨part, hpart.trans hst, hn, fun other n hother hf => hmax other n (h other n hother hf) hf⟩

/-- Reading finds the longest end that has the form. -/
theorem read?_iff_endsInField (s name : List Char) :
    (∃ d, Declaration.read? s = some d ∧ d.name = name) ↔ EndsInField name s := by
  induction hlen : s.length using Nat.strongRecOn generalizing s with | _ len ih
  cases hs : s.dropWhile (!isWord ·) with
  | nil =>
    rw [Declaration.read?_of_nil hs]
    refine iff_of_false (by rintro ⟨d, hd, -⟩; cases hd) ?_
    rintro ⟨part, hpart, hn, -⟩
    obtain ⟨c, rest, rfl, hc⟩ := hn.exists_cons
    have hnil := suffix_dropWhile (p := (!isWord ·)) (by simp [hc]) hpart
    rw [hs, List.suffix_nil] at hnil
    cases hnil
  | cons c rest =>
    have hc : isWord c = true := by simpa using of_dropWhile_cons hs
    have hsuffix : c :: rest <:+ s := hs ▸ List.dropWhile_suffix (!isWord ·)
    have hinside : ∀ part n, part <:+ s → IsField n part → part <:+ c :: rest := by
      intro part n hpart hn
      obtain ⟨e, t, rfl, he⟩ := hn.exists_cons
      exact hs ▸ suffix_dropWhile (by simp [he]) hpart
    rw [Declaration.read?_of_cons hs]
    cases hd : Declaration.atStart? (c :: rest) with
    | some d =>
      have hfield := Declaration.isField_of_atStart? hc hd
      constructor
      · rintro ⟨e, he, rfl⟩
        obtain rfl := Option.some.inj he
        exact .of_longest hsuffix hfield hinside
      · intro h
        exact ⟨d, rfl, (h.name_eq hsuffix hfield hinside).symm⟩
    | none =>
      have hdrop : rest.dropWhile isWord <:+ s :=
        (List.dropWhile_suffix isWord).trans ((List.suffix_cons c rest).trans hsuffix)
      have hlt : (rest.dropWhile isWord).length < len := by
        have h1 := (List.dropWhile_sublist isWord (l := rest)).length_le
        have h2 := hsuffix.length_le
        rw [List.length_cons] at h2
        omega
      rw [Option.none_or, ih _ hlt _ rfl]
      exact (endsInField_congr hdrop fun part n hpart hn =>
        hn.suffix_of_atStart?_eq_none hc hd (hinside part n hpart hn)).symm

/-- Where an end has the form, some end is the longest that has it. -/
theorem exists_endsInField (hpart : part <:+ s) (h : IsField n part) :
    ∃ name, EndsInField name s := by
  induction s with
  | nil =>
    obtain ⟨c, rest, rfl, -⟩ := h.exists_cons
    rw [List.suffix_nil] at hpart
    cases hpart
  | cons c s ih =>
    by_cases hwhole : ∃ m, IsField m (c :: s)
    · obtain ⟨m, hm⟩ := hwhole
      exact ⟨m, .of_longest (List.suffix_refl _) hm fun _ _ hother _ => hother⟩
    · have hinside : ∀ part n, part <:+ c :: s → IsField n part → part <:+ s := by
        intro part n hpart hn
        refine (List.suffix_cons_iff.mp hpart).resolve_left ?_
        rintro rfl
        exact hwhole ⟨n, hn⟩
      obtain ⟨m, hm⟩ := ih (hinside part n hpart h)
      exact ⟨m, (endsInField_congr (List.suffix_cons c s) hinside).mpr hm⟩

private theorem fieldOf?_iff_endsInField (entry : List Char) (name : String) :
    (∃ shape, fieldOf? entry = some (name, shape)) ↔ EndsInField name.toList entry := by
  rw [← read?_iff_endsInField]
  constructor
  · rintro ⟨shape, h⟩
    obtain ⟨d, hd, hfield⟩ := Option.map_eq_some_iff.mp h
    obtain ⟨rfl, -⟩ := Prod.mk.inj hfield
    exact ⟨d, hd, String.toList_ofList.symm⟩
  · rintro ⟨d, hd, hname⟩
    refine ⟨d.fieldType, Option.map_eq_some_iff.mpr ⟨d, hd, ?_⟩⟩
    rw [Declaration.field, hname, String.ofList_toList]

/-- A text with the form has it at its longest end, which is all of it. -/
theorem IsField.endsInField_iff (h : IsField n s) (name : List Char) :
    EndsInField name s ↔ IsField name s := by
  constructor
  · rintro ⟨part, hpart, hname, hmax⟩
    rwa [← hpart.eq_of_length_le (hmax s n (List.suffix_refl s) h)]
  · exact fun hname => .of_longest (List.suffix_refl s) hname fun _ _ hother _ => hother

/-- An entry gives the field of its longest end that has the form of one, so the form of the whole
entry decides exactly when it has the form or no end of it does. -/
theorem field_of_longest_end (entry : List Char) :
    (∀ name : String, (∃ shape, fieldOf? entry = some (name, shape)) ↔
      EndsInField name.toList entry) ∧
    ((∀ name : String, (∃ shape, fieldOf? entry = some (name, shape)) ↔
        IsField name.toList entry) ↔
      ∀ part n, part <:+ entry → IsField n part → ∃ name, IsField name entry) := by
  refine ⟨fieldOf?_iff_endsInField entry, ?_⟩
  simp only [fieldOf?_iff_endsInField]
  constructor
  · intro hwhole part n hpart hn
    obtain ⟨name, hname⟩ := exists_endsInField hpart hn
    rw [← String.toList_ofList (l := name)] at hname
    exact ⟨_, (hwhole _).mp hname⟩
  · intro hform name
    constructor
    · intro hends
      obtain ⟨part, hpart, hname, -⟩ := id hends
      obtain ⟨n, hn⟩ := hform part name.toList hpart hname
      exact (hn.endsInField_iff _).mp hends
    · exact fun hname => (hname.endsInField_iff _).mpr hname

/-- A method, which is no field. -/
def signature : List Char := "getName(first: string): string".toList

/-- The parameter of the method is taken for a field. -/
theorem signature_gives_parameter :
    trim signature = signature ∧
      fieldOf? signature = some ("first", { kind := .string }) ∧
      (∀ name, ¬ IsField name signature) ∧
      ¬ ∀ name : String, (∃ shape, fieldOf? signature = some (name, shape)) ↔
        IsField name.toList signature := by
  have hform : ∀ name, ¬ IsField name signature := by
    intro name h
    obtain ⟨d, hd, -⟩ := h.exists_atStart?
    have hnone : Declaration.atStart? signature = none := by decide +kernel
    rw [hnone] at hd
    cases hd
  have hread : Declaration.read? signature = some ⟨"first".toList, false, "string): string".toList⟩ :=
    by decide +kernel
  refine ⟨by decide +kernel, ?_, hform, ?_⟩
  · rw [fieldOf?, hread, Option.map_some, Declaration.field, Declaration.fieldType_eq]
    rfl
  · rw [(field_of_longest_end signature).2]
    intro hwhole
    have hpart : IsField "first".toList "first: string): string".toList :=
      @IsField.intro _ [] [] [' '] "string): string".toList [] (by decide) (.inl rfl) (by decide)
        (by decide) (.inl rfl)
    obtain ⟨name, hname⟩ := hwhole _ _ (by decide) hpart
    exact hform name hname

end MockServer.Interface
