import MockServer.Proofs.Interface.Header
import MockServer.Proofs.Interface.Padding

/-!
What follows the closing brace. A text that ends there is read as the same interface whatever is
put behind it: comments, braces and other interfaces.
-/
namespace MockServer.Interface

open MockServer.Text

/-- A text up to the closing brace of its body: no comment opens in it, its header has a name, the
body has its close, and a closing brace is the last character. -/
structure IsUpToClose (s : List Char) : Prop where
  noLineComment : ¬ ['/', '/'] <:+: s
  noBlockComment : ¬ ['/', '*'] <:+: s
  named : (declaredName? (headerOf s)).isSome
  closed : (closeAfter? 0 [] (openedBy (headerOf s) (restOf s))).isSome
  last : s.getLast? = some '\x7d'

variable {s t u w header rest inside : List Char} {d : Nat}

/-! Comments -/

private theorem ne_mark_of_absent {c x : Char} (h : ¬ ['/', x] <:+: c :: s)
    (hlast : (c :: s).getLast? ≠ some '/') (t rest : List Char) :
    c :: (s ++ t) ≠ '/' :: x :: rest := by
  intro he
  obtain ⟨rfl, hs⟩ := List.cons.inj he
  cases s with
  | nil => exact hlast rfl
  | cons e s => exact h ⟨[], s, by rw [(List.cons.inj hs).1]; rfl⟩

private theorem getLast?_tail_ne {c e : Char} (h : (c :: s).getLast? ≠ some e) :
    s.getLast? ≠ some e := by
  cases s with
  | nil => nofun
  | cons a s => rwa [List.getLast?_cons_cons] at h

/-- A text in which no comment opens, and which does not end in a slash, keeps its characters in
front of any other. -/
theorem withoutComments_append_of_absent (hl : ¬ ['/', '/'] <:+: s) (hb : ¬ ['/', '*'] <:+: s)
    (hlast : s.getLast? ≠ some '/') (t : List Char) :
    withoutComments (s ++ t) = s ++ withoutComments t := by
  have hblocks : withoutBlocks (s ++ t) = s ++ withoutBlocks t := by
    clear hl
    induction s with
    | nil => rfl
    | cons c s ih =>
      have hfront := frontBlock?_of_ne (ne_mark_of_absent hb hlast t)
      rw [List.cons_append, withoutBlocks_cons hfront,
        ih (fun h => hb (h.trans (List.suffix_cons c s).isInfix)) (getLast?_tail_ne hlast),
        List.cons_append]
  have hlines (t : List Char) : withoutLines (s ++ t) = s ++ withoutLines t := by
    clear hb hblocks
    induction s with
    | nil => rfl
    | cons c s ih =>
      have hopen : opensLine (c :: (s ++ t)) = false := by
        rw [Bool.eq_false_iff]
        intro ho
        obtain ⟨hc, rest, hrest⟩ := opensLine_cons_iff.mp ho
        exact ne_mark_of_absent hl hlast t rest (by rw [hc, hrest])
      rw [List.cons_append, withoutLines_cons hopen,
        ih (fun h => hl (h.trans (List.suffix_cons c s).isInfix)) (getLast?_tail_ne hlast),
        List.cons_append]
  rw [withoutComments, hblocks, hlines, withoutComments]

/-! The name -/

private theorem prefix_append_cons_iff {z : List Char} {c : Char} (hc : c ∉ z) :
    z <+: w ++ c :: t ↔ z <+: w := by
  constructor
  · rintro ⟨v, hv⟩
    rcases List.append_eq_append_iff.mp hv with ⟨m, rfl, -⟩ | ⟨m, rfl, hm⟩
    · exact List.prefix_append z m
    · rcases m with - | ⟨e, m⟩
      · exact ⟨[], by simp⟩
      · obtain ⟨rfl, -⟩ := List.cons.inj hm
        exact absurd (by simp) hc
  · exact fun h => h.trans (List.prefix_append w _)

/-- A brace ends a name. -/
theorem nameAfterKeyword?_append (w t : List Char) :
    nameAfterKeyword? (w ++ '\x7d' :: t) = nameAfterKeyword? (w ++ ['\x7d']) := by
  have hpre (t : List Char) :
      "interface".toList.isPrefixOf (w ++ '\x7d' :: t) = "interface".toList.isPrefixOf w := by
    rw [Bool.eq_iff_iff, List.isPrefixOf_iff_prefix, List.isPrefixOf_iff_prefix]
    exact prefix_append_cons_iff (by decide)
  have hblank : isBlank '\x7d' = false := by decide
  have hword : isWord '\x7d' = false := by decide
  rw [nameAfterKeyword?, nameAfterKeyword?, hpre, hpre]
  split
  next h =>
    obtain ⟨v, rfl⟩ := List.isPrefixOf_iff_prefix.mp h
    have hdrop (t : List Char) :
        ("interface".toList ++ v ++ '\x7d' :: t).drop 9 = v ++ '\x7d' :: t := rfl
    rw [hdrop, hdrop]
    rcases v with - | ⟨c, v⟩
    · rfl
    · simp only [List.cons_append, trimStart, dropWhile_append_cons hblank,
        takeWhile_append_cons hword]
  next => rfl

private theorem declaredName?_append (h : (declaredName? (w ++ ['\x7d'])).isSome) (t : List Char) :
    declaredName? (w ++ '\x7d' :: t) = declaredName? (w ++ ['\x7d']) := by
  induction w with
  | nil => exact absurd h (by decide)
  | cons c w ih =>
    have hkey := nameAfterKeyword?_append (c :: w) t
    rw [List.cons_append] at h ⊢
    rw [List.cons_append, List.cons_append] at hkey
    rw [declaredName?] at h
    rw [declaredName?, List.cons_append, declaredName?, hkey]
    cases hname : nameAfterKeyword? (c :: (w ++ ['\x7d'])) with
    | some name => rfl
    | none =>
      rw [hname] at h
      exact ih h

private theorem trimEnd_append_cons {c : Char} (hc : isBlank c = false) (w t : List Char) :
    trimEnd (w ++ c :: t) = w ++ c :: trimEnd t := by
  rw [trimEnd, List.reverse_append, List.reverse_cons, List.append_assoc, List.singleton_append,
    dropWhile_append_cons hc, List.reverse_append, List.reverse_cons, List.reverse_reverse,
    List.append_assoc, List.singleton_append, trimEnd]

/-! The body -/

private theorem closeAfter?_append_of_some {kept : List Char}
    (h : closeAfter? d kept s = some inside)
    (t : List Char) : closeAfter? d kept (s ++ t) = some inside := by
  induction s generalizing d kept with
  | nil => cases h
  | cons c s ih =>
    rw [closeAfter?] at h
    rw [List.cons_append, closeAfter?]
    split at h
    next hc => rw [if_pos hc, ih h]
    next ho =>
      rw [if_neg ho]
      split at h
      next hc =>
        rw [if_pos hc]
        split at h
        next hd => rw [if_pos hd, h]
        next hd => rw [if_neg hd, ih h]
      next hc => rw [if_neg hc, ih h]

private theorem closeAfter?_of_not_mem (hu : '\x7d' ∉ u) (d : Nat) (kept : List Char) :
    closeAfter? d kept u = none := by
  induction u generalizing d kept with
  | nil => rfl
  | cons c u ih =>
    obtain ⟨hc, hu⟩ := not_or.mp fun h => hu (List.mem_cons.mpr h)
    rw [closeAfter?, if_neg (Ne.symm hc), ih hu, ih hu, ite_self]

/-- What has no closing brace does not close a body. -/
theorem closeAfter?_append_of_not_mem (hu : '\x7d' ∉ u) (d : Nat) (kept s : List Char) :
    closeAfter? d kept (s ++ u) = closeAfter? d kept s := by
  induction s generalizing d kept with
  | nil => rw [List.nil_append, closeAfter?_of_not_mem hu, closeAfter?]
  | cons c s ih => rw [List.cons_append, closeAfter?, closeAfter?, ih, ih, ih]

private theorem openedBy_of_brace {c : Char} (h : header.dropWhile (· != '\x7b') = c :: u)
    (rest : List Char) : openedBy header rest = u ++ '\n' :: rest := by
  rw [openedBy, h]

private theorem openedBy_of_nil (h : header.dropWhile (· != '\x7b') = []) (rest : List Char) :
    openedBy header rest = withoutOpening (trimStart rest) := by
  rw [openedBy, h]

private theorem withoutOpening_append (hs : s ≠ []) (t : List Char) :
    withoutOpening (s ++ t) = withoutOpening s ++ t := by
  obtain ⟨c, s, rfl⟩ := List.exists_cons_of_ne_nil hs
  by_cases hc : c = '\x7b'
  · rw [hc]
    rfl
  · rw [withoutOpening.eq_2 (c :: s) (by simp [hc]), List.cons_append,
      withoutOpening.eq_2 _ (by simp [hc])]

/-- Lines after the header that are not blank stay in front of what follows. -/
theorem openedBy_append (header : List Char) (hrest : trimStart rest ≠ []) (t : List Char) :
    openedBy header (rest ++ t) = openedBy header rest ++ t := by
  cases h : header.dropWhile (· != '\x7b') with
  | cons c u =>
    rw [openedBy_of_brace h, openedBy_of_brace h]
    simp
  | nil =>
    rw [openedBy_of_nil h, openedBy_of_nil h, trimStart_append_of_ne_nil hrest,
      withoutOpening_append hrest]

/-! The whole text -/

namespace IsUpToClose

private theorem trimStart_ne_nil (h : IsUpToClose s) : trimStart s ≠ [] := by
  intro hs
  have hblank := List.dropWhile_eq_nil_iff.mp hs _ (List.mem_of_getLast? h.last)
  exact absurd hblank (by decide)

private theorem getLast?_trimStart (h : IsUpToClose s) : (trimStart s).getLast? = some '\x7d' := by
  have hsuffix : trimStart s <:+ s := List.dropWhile_suffix isBlank
  rw [← Declaration.getLast?_of_suffix hsuffix h.trimStart_ne_nil, h.last]

/-- Over several lines, what follows is added to the lines after the header. -/
theorem header_rest_of_lines {a r : List Char} (h : IsUpToClose s)
    (hs : trimStart s = a ++ '\n' :: r) (ha : '\n' ∉ a) (t : List Char) :
    headerOf (s ++ t) = trim a ∧ restOf (s ++ t) = r ++ t := by
  have hline := bne_of_not_mem ha
  have happend : trimStart (s ++ t) = a ++ '\n' :: (r ++ t) := by
    rw [trimStart_append_of_ne_nil h.trimStart_ne_nil, hs]
    simp
  constructor
  · rw [headerOf, happend, List.takeWhile_append_of_pos hline, List.takeWhile_cons_of_neg (by decide),
      List.append_nil]
  · rw [restOf, happend, List.dropWhile_append_of_pos hline, List.dropWhile_cons_of_neg (by decide),
      List.tail_cons]

/-- On a single line, what follows is added to the header up to its first newline. -/
theorem header_of_line (h : IsUpToClose s) (hs : '\n' ∉ trimStart s) (t : List Char) :
    headerOf (s ++ t) = trimStart s ++ trimEnd (t.takeWhile (· != '\n')) := by
  have hline := bne_of_not_mem hs
  have hstart (t : List Char) : trimStart (trimStart s ++ t) = trimStart s ++ t := by
    obtain ⟨c, r, hc⟩ := List.exists_cons_of_ne_nil h.trimStart_ne_nil
    rw [hc]
    exact trimStart_cons_of_not_blank (of_dropWhile_cons hc) (r ++ t)
  obtain ⟨w, hw⟩ := List.getLast?_eq_some_iff.mp h.getLast?_trimStart
  rw [headerOf, trimStart_append_of_ne_nil h.trimStart_ne_nil, List.takeWhile_append_of_pos hline,
    trim, hstart, hw, List.append_assoc, List.append_assoc]
  exact trimEnd_append_cons (by decide) w _

private theorem headerOf_eq (h : IsUpToClose s) (hs : '\n' ∉ trimStart s) :
    headerOf s = trimStart s := by
  have hself := h.header_of_line hs []
  rwa [List.append_nil, List.takeWhile_nil, show trimEnd [] = [] from rfl, List.append_nil] at hself

private theorem restOf_eq_nil (hs : '\n' ∉ trimStart s) : restOf s = [] := by
  rw [restOf, dropWhile_bne_of_not_mem hs, List.tail_nil]

/-- What stands behind the close changes neither the name nor the body. -/
theorem header_body_append (h : IsUpToClose s) (t : List Char) :
    declaredName? (headerOf (s ++ t)) = declaredName? (headerOf s) ∧
      insideBrace (openedBy (headerOf (s ++ t)) (restOf (s ++ t))) =
        insideBrace (openedBy (headerOf s) (restOf s)) := by
  obtain ⟨inside, hinside⟩ := Option.isSome_iff_exists.mp h.closed
  suffices hclose : declaredName? (headerOf (s ++ t)) = declaredName? (headerOf s) ∧
      closeAfter? 0 [] (openedBy (headerOf (s ++ t)) (restOf (s ++ t))) = some inside by
    rw [insideBrace, insideBrace, hclose.2, hinside]
    exact ⟨hclose.1, rfl⟩
  by_cases hs : '\n' ∈ trimStart s
  · obtain ⟨a, r, hr, ha⟩ := List.eq_append_cons_of_mem hs
    have hsome := h.header_rest_of_lines hr ha
    have hself := hsome []
    rw [List.append_nil, List.append_nil] at hself
    have hblank : trimStart r ≠ [] := by
      intro hblank
      have hlast := h.getLast?_trimStart
      rw [hr, List.getLast?_append_of_ne_nil a (List.cons_ne_nil '\n' r)] at hlast
      rcases List.mem_cons.mp (List.mem_of_getLast? hlast) with hc | hc
      · cases hc
      · exact absurd (List.dropWhile_eq_nil_iff.mp hblank _ hc) (by decide)
    rw [(hsome t).1, (hsome t).2, openedBy_append _ hblank, hself.1]
    rw [hself.1, hself.2] at hinside
    exact ⟨rfl, closeAfter?_append_of_some hinside t⟩
  · have hheader := h.headerOf_eq hs
    have hlonger := h.header_of_line hs t
    obtain ⟨w, hw⟩ := List.getLast?_eq_some_iff.mp h.getLast?_trimStart
    have hnamed := h.named
    rw [hheader, restOf_eq_nil hs] at hinside
    rw [hheader, hw] at hnamed
    constructor
    · rw [hlonger, hheader, hw, List.append_assoc]
      exact declaredName?_append hnamed _
    cases hd : (trimStart s).dropWhile (· != '\x7b') with
    | nil =>
      rw [openedBy_of_nil hd] at hinside
      cases hinside
    | cons c u =>
      have hbrace : (headerOf (s ++ t)).dropWhile (· != '\x7b') =
          c :: (u ++ trimEnd (t.takeWhile (· != '\n'))) := by
        rw [hlonger, List.dropWhile_append, hd]
        rfl
      rw [openedBy_of_brace hd, closeAfter?_append_of_not_mem (by decide)] at hinside
      rw [openedBy_of_brace hbrace, List.append_assoc]
      exact closeAfter?_append_of_some hinside _

end IsUpToClose

/-- Text after the closing brace is ignored. -/
theorem parse_append {source : String} (h : IsUpToClose source.toList) (later : String) :
    parse (source ++ later) = parse source := by
  have hlast : source.toList.getLast? ≠ some '/' := by
    rw [h.last]
    decide
  have hcomments := withoutComments_append_of_absent h.noLineComment h.noBlockComment hlast
  have hself := hcomments []
  have hnil : withoutComments [] = [] := withoutComments_eq_self (by decide)
  rw [hnil, List.append_nil] at hself
  obtain ⟨hname, hbody⟩ := h.header_body_append (withoutComments later.toList)
  rw [parse, parse, String.toList_append]
  apply ofText_eq_of_header
  · rw [hcomments, hself, hname]
  · rw [hcomments, hself, hbody]

/-- An interface on a single line, so what follows goes on in its header. -/
def pointText : String := "interface Point \x7b at: \x7b x: number \x7d[] \x7d"

/-- A second interface, a line comment, braces and a block comment that is never closed. -/
def laterText : String := " interface Line \x7b y: Date // \x7b\n\x7d \x7d z: string /*"

theorem parse_pointText_append :
    IsUpToClose pointText.toList ∧ parse (pointText ++ laterText) = parse pointText ∧
      parse pointText =
        ⟨"Point", [("at",
          { kind := .object, isArray := true
            members := some ([("x", { kind := .number })]) })]⟩ := by
  have h : IsUpToClose pointText.toList :=
    ⟨by decide +kernel, by decide +kernel, by decide +kernel, by decide +kernel, by decide +kernel⟩
  let point : Declaration := ⟨"at".toList, false, "\x7b x: number \x7d[]".toList⟩
  let x : Declaration := ⟨['x'], false, "number".toList⟩
  have hx : x.fieldType = { kind := .number } := by
    rw [Declaration.fieldType_eq]
    rfl
  have hpoint : point.fieldType =
      { kind := .object, isArray := true, members := some ([("x", { kind := .number })]) } := by
    have hmembers : membersOf point.baseType = [x] := by decide +kernel
    rw [Declaration.fieldType_eq, hmembers, fieldsOf, List.map_singleton, hx]
    rfl
  have hparse : ofText pointText.toList = ⟨"Point", fieldsOf [point]⟩ := by
    rw [ofText]
    refine congrArg₂ Interface.mk ?_ (congrArg fieldsOf ?_)
    · decide +kernel
    · decide +kernel
  refine ⟨h, parse_append h laterText, ?_⟩
  rw [parse, hparse, fieldsOf, List.map_singleton, hpoint]
  rfl

end MockServer.Interface
