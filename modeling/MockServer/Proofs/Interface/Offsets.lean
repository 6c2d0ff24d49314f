import Mathlib.Data.Nat.PSub
import MockServer.Proofs.Interface.Parts
import MockServer.Proofs.Text.Slice

/-!
Reading by byte offsets, the way of a program that names the parts of a text by where they start and
end. The reader gives up where a part is out of range, a depth would fall below zero, or a type is
read whose text is not shorter than the one around it. None of these happens on any text, and the
interface is the same.
-/
namespace MockServer.Interface

open MockServer.Text

/-! Scanners -/

/-- The offset of the brace that closes `depth + 1` open ones, if there is one. -/
def closeOffset? (depth offset : Nat) : List Char → Option (Option Nat)
  | [] => some none
  | c :: rest =>
    if c = '\x7b' then closeOffset? (depth + 1) (offset + c.utf8Size) rest
    else if c = '\x7d' then
      if depth = 0 then some (some offset)
      else depth.ppred.bind fun d => closeOffset? d (offset + c.utf8Size) rest
    else closeOffset? depth (offset + c.utf8Size) rest

def insideOffsets? (s : List Char) : Option (List Char) := do
  match ← closeOffset? 0 0 s with
  | some stop => slice? 0 stop s
  | none => return s

/-- The pieces of a text from `start` on. The scan has come to `offset`, and `rest` is what follows
there. -/
def cutOffsets? (isSeparator : Char → Bool) (text : List Char) (depth start offset : Nat) :
    List Char → Option (List (List Char))
  | [] => do return [← dropBytes? start text]
  | c :: rest => do
    let next := offset + c.utf8Size
    if isOpening c then cutOffsets? isSeparator text (depth + 1) start next rest
    else if isClosing c then cutOffsets? isSeparator text (depth - 1) start next rest
    else if depth = 0 ∧ isSeparator c then
      let piece ← slice? start offset text
      return piece :: (← cutOffsets? isSeparator text depth next next rest)
    else cutOffsets? isSeparator text depth start next rest

def piecesByOffset? (isSeparator : Char → Bool) (s : List Char) : Option (List (List Char)) :=
  cutOffsets? isSeparator s 0 0 0 s

/-- Whether a group goes on after a line that leaves brackets open. -/
def goesOn? (body : List Char) (first brackets : Nat) : Option Bool :=
  if 0 < brackets then (dropBytes? first body).map Declaration.opens else some false

/-- The entries of a body from its lines from `offset` on, where a group may be open since `start`
with a number of brackets. -/
def entriesOffsets? (body : List Char) (start : Option Nat) (depth offset : Nat) :
    List (List Char) → Option (List (List Char))
  | [] => do
    let some first := start | return []
    let pieces ← (linesOf (← dropBytes? first body)).mapM fun line =>
      piecesByOffset? (· == ';') (withoutLineEnd line)
    return pieces.flatten
  | line :: lines => do
    let first := start.getD offset
    let next := offset + byteSize line
    let brackets := depthOf depth line
    if ← goesOn? body first brackets then entriesOffsets? body (some first) brackets next lines
    else
      let pieces ← piecesByOffset? (· == ';') (← slice? first next body)
      return pieces ++ (← entriesOffsets? body none 0 next lines)

def entriesByOffset? (body : List Char) : Option (List (List Char)) :=
  entriesOffsets? body none 0 0 (linesOf body)

/-! The reader -/

/-- The text after the first brace, if there is a brace. -/
def afterBrace? (s : List Char) : Option (Option (List Char)) :=
  if '\x7b' ∈ s then
    (dropBytes? (byteSize (s.takeWhile (· != '\x7b')) + 1) s).map some
  else some none

def membersByOffset? (base : List Char) : Option (List Declaration) := do
  let some inner ← afterBrace? base | return []
  let pieces ← piecesByOffset? endsMember (← insideOffsets? inner)
  return pieces.filterMap readPiece?

/-- The shape of a field. The types of its members are read only if they are shorter. -/
def Declaration.typeByOffset? (d : Declaration) : Option FieldType :=
  let isArray := (arrayElement? d.cleanType).isSome
  match Kind.classify d.baseType with
  | .object => do
    let members ← (← membersByOffset? d.baseType).mapM fun m =>
      if _h : m.type.length < d.type.length then
        m.typeByOffset?.map fun t => (String.ofList m.name, t)
      else none
    return { kind := .object, isArray, isOptional := d.isOptional,
             members := some (Fields.ofList members) }
  | .string =>
    return { kind := .string, isArray, isOptional := d.isOptional
             format := StringFormat.infer? d.name d.cleanType }
  | kind => return { kind, isArray, isOptional := d.isOptional }
termination_by d.type.length

def bodyByOffset? (header rest : List Char) : Option (List Char) := do
  match ← afterBrace? header with
  | some afterBrace => insideOffsets? (afterBrace ++ '\n' :: rest)
  | none => insideOffsets? (withoutOpening (trimStart rest))

def readByOffset? (source : String) : Option Interface := do
  let cleaned := withoutComments source.toList
  let header := headerOf cleaned
  let pieces ← entriesByOffset? (← bodyByOffset? header (restOf cleaned))
  let fields ← (pieces.filterMap readPiece?).mapM fun d =>
    d.typeByOffset?.map fun t => (String.ofList d.name, t)
  return { name := ((declaredName? header).map String.ofList).getD unknownName
           fields := Fields.ofList fields }

variable {s t : List Char} {isSeparator : Char → Bool} {g : OpenGroup} {d : Declaration}

private theorem closeOffset?_eq (depth offset : Nat) (s : List Char) :
    closeOffset? depth offset s =
      some ((closeAfter? depth [] s).map fun inside => offset + byteSize inside) := by
  induction s generalizing depth offset with
  | nil => rfl
  | cons c s ih =>
    by_cases ho : c = '\x7b'
    · rw [closeOffset?, if_pos ho, ih, ho, closeAfter?_opening, Option.map_map]
      simp [Function.comp_def, byteSize, Nat.add_assoc]
    by_cases hc : c = '\x7d'
    · rw [closeOffset?, if_neg ho, if_pos hc]
      cases depth with
      | zero => rw [if_pos rfl, hc]; rfl
      | succ depth =>
        rw [if_neg (Nat.succ_ne_zero depth), Nat.ppred_succ, Option.bind_some, ih, hc,
          closeAfter?_closing, Option.map_map]
        simp [Function.comp_def, byteSize, Nat.add_assoc]
    · rw [closeOffset?, if_neg ho, if_neg hc, ih, closeAfter?_plain ho hc, Option.map_map]
      simp [Function.comp_def, byteSize, Nat.add_assoc]

private theorem insideOffsets?_eq (s : List Char) : insideOffsets? s = some (insideBrace s) := by
  rw [insideOffsets?, closeOffset?_eq, insideBrace]
  cases h : closeAfter? 0 [] s with
  | none => rfl
  | some inside =>
    obtain ⟨front, rest, hinside, rfl⟩ := exists_of_closeAfter? h
    obtain rfl : inside = front := hinside
    have hslice := slice?_append [] inside ('\x7d' :: rest)
    exact hslice

/-- The scan keeps the current piece between the two offsets. -/
theorem cutOffsets?_eq (hsep : ∀ c, isOpening c = true ∨ isClosing c = true → isSeparator c = false)
    (depth : Nat) (x piece s : List Char) :
    cutOffsets? isSeparator (x ++ (piece ++ s)) depth (byteSize x) (byteSize x + byteSize piece) s =
      some ((cutFrom isSeparator depth s).modifyHead (piece ++ ·)) := by
  induction s generalizing depth x piece with
  | nil =>
    rw [cutOffsets?, dropBytes?_append]
    rfl
  | cons c s ih =>
    have hmore (depth : Nat) : cutOffsets? isSeparator (x ++ (piece ++ c :: s)) depth (byteSize x)
        (byteSize x + byteSize piece + c.utf8Size) s =
          some ((cutFrom isSeparator depth s).modifyHead (piece ++ [c] ++ ·)) := by
      rw [← ih depth x (piece ++ [c])]
      simp [byteSize, Nat.add_assoc]
    by_cases ho : isOpening c = true
    · rw [cutOffsets?, if_pos ho, hmore, cutFrom_cons fun _ => hsep c (.inl ho),
        depthAfter_opening ho]
      simp [Function.comp_def]
    by_cases hc : isClosing c = true
    · rw [cutOffsets?, if_neg ho, if_pos hc, hmore, cutFrom_cons fun _ => hsep c (.inr hc),
        depthAfter, if_neg ho, if_pos hc]
      simp [Function.comp_def]
    have hplain : depthAfter depth c = depth :=
      depthAfter_plain (Bool.eq_false_iff.mpr ho) (Bool.eq_false_iff.mpr hc)
    by_cases hs : depth = 0 ∧ isSeparator c = true
    · obtain ⟨rfl, hs⟩ := hs
      have hnext := ih 0 (x ++ (piece ++ [c])) []
      rw [modifyHead_nil_append] at hnext
      simp only [byteSize_append, byteSize, List.append_assoc, List.nil_append,
        List.singleton_append, Nat.add_zero, ← Nat.add_assoc] at hnext
      rw [cutOffsets?, if_neg ho, if_neg hc, if_pos ⟨rfl, hs⟩, slice?_append]
      simp only [Option.bind_eq_bind, Option.bind_some, hnext, cutFrom_separator hs]
      simp
    · rw [cutOffsets?, if_neg ho, if_neg hc, if_neg hs, hmore,
        cutFrom_cons fun hd => Bool.eq_false_iff.mpr fun h => hs ⟨hd, h⟩, hplain]
      simp [Function.comp_def]

private theorem piecesByOffset?_eq (h : brackets.all (!isSeparator ·) = true) (s : List Char) :
    piecesByOffset? isSeparator s = some (cutOutsideBrackets isSeparator s) := by
  have hcut := cutOffsets?_eq (fun _ => eq_false_of_bracket h) 0 [] [] s
  rw [modifyHead_nil_append] at hcut
  exact hcut

/-! Groups -/

/-- A group is empty, or it starts like a field and has brackets open. -/
def IsHeld (g : OpenGroup) : Prop :=
  g = {} ∨ g.lines ≠ [] ∧ g.depth = depthOf 0 g.text ∧ 0 < g.depth ∧ Declaration.opens g.text = true

/-- A text with an open bracket starts like a field, or does not, whatever follows. -/
theorem opens_append_of_depth (h : 0 < depthOf 0 s) (t : List Char) :
    Declaration.opens (s ++ t) = Declaration.opens s := by
  obtain ⟨o, ho, hopen⟩ := exists_opening_of_lt_depthOf h
  obtain ⟨x, y, rfl⟩ := List.append_of_mem ho
  rw [List.append_assoc, List.cons_append]
  exact Declaration.opens_append_cons hopen x _ _

private theorem IsHeld.depth_eq (h : IsHeld g) : g.depth = depthOf 0 g.text := by
  rcases h with rfl | ⟨-, hdepth, -, -⟩
  · rfl
  · exact hdepth

/-- While brackets are open, the body tells of a group whether it goes on. -/
theorem IsHeld.opens_eq (h : IsHeld g) {line : List Char} (hd : 0 < depthOf g.depth line)
    (rest : List Char) :
    Declaration.opens (g.text ++ (line ++ rest)) =
      (!g.lines.isEmpty || Declaration.opens line) := by
  rcases h with rfl | ⟨hlines, hdepth, hpos, hopens⟩
  · exact opens_append_of_depth hd rest
  · rw [opens_append_of_depth (hdepth ▸ hpos), hopens]
    simp [hlines]

private theorem IsHeld.add (h : IsHeld g) (line : List Char) : IsHeld (g.add line).1 := by
  rw [OpenGroup.add]
  split
  next hheld =>
    obtain ⟨hd, hgoes⟩ := Bool.and_eq_true_iff.mp hheld
    have hd : 0 < depthOf g.depth line := by simpa using hd
    refine .inr ⟨List.cons_ne_nil line g.lines, ?_, hd, ?_⟩
    · rw [g.text_grown, depthOf_append, ← h.depth_eq]
    · rw [g.text_grown, ← hgoes, ← h.opens_eq hd [], List.append_nil]
  next => exact .inl rfl

/-- A line is held where brackets are open and the body starts like a field at the start of the
group. -/
theorem IsHeld.add_eq (h : IsHeld g) (line rest : List Char) :
    g.add line =
      if 0 < depthOf g.depth line ∧ Declaration.opens (g.text ++ (line ++ rest)) = true then
        (⟨line :: g.lines, depthOf g.depth line⟩, [])
      else ({}, cutAtSemicolons (g.text ++ line)) := by
  rw [OpenGroup.add, g.text_grown]
  by_cases hd : 0 < depthOf g.depth line
  · simp [hd, h.opens_eq hd rest]
  · simp [hd]

private theorem goesOn?_eq (x body : List Char) (brackets : Nat) :
    goesOn? (x ++ body) (byteSize x) brackets =
      some (decide (0 < brackets ∧ Declaration.opens body = true)) := by
  rw [goesOn?, dropBytes?_append]
  by_cases h : 0 < brackets <;> simp [h]

private theorem mapM_eq_some {α β : Type} {g : α → Option β} {f : α → β} {l : List α}
    (h : ∀ a ∈ l, g a = some (f a)) : l.mapM g = some (l.map f) := by
  induction l with
  | nil => rfl
  | cons a l ih =>
    rw [List.mapM_cons, h a List.mem_cons_self, ih fun b hb => h b (List.mem_cons_of_mem a hb)]
    rfl

private theorem linesByOffset?_eq (s : List Char) :
    ((linesOf s).mapM fun line => piecesByOffset? (· == ';') (withoutLineEnd line)) =
      some ((linesOf s).map fun line => cutAtSemicolons (withoutLineEnd line)) :=
  mapM_eq_some fun line _ => piecesByOffset?_eq (by decide) (withoutLineEnd line)

/-- Where the group that is open starts. -/
def OpenGroup.start? (g : OpenGroup) (offset : Nat) : Option Nat :=
  if g.lines = [] then none else some offset

private theorem IsHeld.start?_getD (h : IsHeld g) (x : List Char) :
    (g.start? (byteSize x)).getD (byteSize x + byteSize g.text) = byteSize x := by
  rcases h with rfl | ⟨hlines, -⟩
  · rfl
  · rw [OpenGroup.start?, if_neg hlines, Option.getD_some]

/-- The group that is open stands between its start and the offset. -/
theorem entriesOffsets?_eq (h : IsHeld g) (x : List Char) (ls : List (List Char)) :
    entriesOffsets? (x ++ (g.text ++ ls.flatten)) (g.start? (byteSize x)) g.depth
      (byteSize x + byteSize g.text) ls = some (entriesFrom g ls) := by
  induction ls generalizing g x with
  | nil =>
    rcases h with rfl | ⟨hlines, -⟩
    · rfl
    · rw [OpenGroup.start?, if_neg hlines, entriesOffsets?, List.flatten_nil, List.append_nil,
        dropBytes?_append]
      simp only [Option.bind_eq_bind, Option.bind_some, linesByOffset?_eq]
      rfl
  | cons line ls ih =>
    have hgroup : g.text ++ (line ++ ls.flatten) = (g.text ++ line) ++ ls.flatten :=
      (List.append_assoc _ _ _).symm
    have hsize : byteSize x + byteSize g.text + byteSize line =
        byteSize x + byteSize (g.text ++ line) := by
      rw [byteSize_append, Nat.add_assoc]
    have hadd := h.add line
    rw [entriesOffsets?, h.start?_getD, List.flatten_cons, goesOn?_eq, entriesFrom, hsize]
    rw [h.add_eq line ls.flatten, hgroup] at hadd ⊢
    split at hadd
    next hgoes =>
      have hrest := ih hadd x
      rw [g.text_grown] at hrest
      rw [decide_eq_true hgoes, if_pos hgoes]
      exact hrest
    next hgoes =>
      have hrest := ih hadd (x ++ (g.text ++ line))
      simp only [byteSize_append x, List.append_assoc x] at hrest
      rw [decide_eq_false hgoes, if_neg hgoes]
      simp only [Option.bind_eq_bind, Option.bind_some, Bool.false_eq_true, if_false,
        slice?_append, @piecesByOffset?_eq (· == ';') (by decide)]
      exact congrArg (Option.bind · fun entries => some (_ ++ entries)) hrest

private theorem entriesByOffset?_eq (body : List Char) :
    entriesByOffset? body = some (entries body) := by
  have h := entriesOffsets?_eq (g := {}) (.inl rfl) [] (linesOf body)
  rw [List.nil_append, flatten_linesOf] at h
  rw [entriesByOffset?, entries_eq]
  exact h

/-! The reader -/

private theorem afterBrace?_of_not_mem (h : '\x7b' ∉ s) : afterBrace? s = some none := if_neg h

private theorem afterBrace?_of_mem (h : '\x7b' ∈ s) :
    ∃ inner, s.dropWhile (· != '\x7b') = '\x7b' :: inner ∧ afterBrace? s = some (some inner) := by
  obtain ⟨before, inner, rfl, hbefore⟩ := List.eq_append_cons_of_mem h
  have hfront := bne_of_not_mem hbefore
  have hdrop := dropBytes?_append (before ++ ['\x7b']) inner
  rw [List.append_assoc, List.singleton_append, byteSize_append] at hdrop
  refine ⟨inner, ?_, ?_⟩
  · rw [List.dropWhile_append_of_pos hfront, List.dropWhile_cons_of_neg (by decide)]
  · rw [afterBrace?, if_pos h, List.takeWhile_append_of_pos hfront,
      List.takeWhile_cons_of_neg (by decide), List.append_nil]
    exact congrArg (Option.map some) hdrop

private theorem membersByOffset?_eq (base : List Char) :
    membersByOffset? base = some (membersOf base) := by
  by_cases h : '\x7b' ∈ base
  · obtain ⟨inner, hinner, hafter⟩ := afterBrace?_of_mem h
    have hbody : literalBody base = insideBrace inner := by rw [literalBody, hinner, List.tail_cons]
    rw [membersByOffset?, hafter, membersOf, hbody]
    simp only [Option.bind_eq_bind, Option.bind_some, insideOffsets?_eq,
      @piecesByOffset?_eq endsMember (by decide)]
    rfl
  · have hbody : literalBody base = [] := by
      rw [literalBody, dropWhile_bne_of_not_mem h]
      rfl
    have hmembers : membersOf base = membersIn [] := by
      rw [membersOf, hbody]
      rfl
    rw [membersByOffset?, afterBrace?_of_not_mem h, hmembers, membersIn_nil]
    rfl

private theorem Declaration.typeByOffset?_eq (d : Declaration) :
    d.typeByOffset? = some d.fieldType := by
  induction d using Declaration.induction with
  | h d ih =>
    have hmembers : ((membersOf d.baseType).mapM fun m =>
        if _h : m.type.length < d.type.length then
          m.typeByOffset?.map fun t => (String.ofList m.name, t)
        else none) = some ((membersOf d.baseType).map field) := by
      refine mapM_eq_some fun m hm => ?_
      have hlt := Nat.lt_of_lt_of_le (length_type_of_mem_members hm) (length_baseType_le d)
      rw [dif_pos hlt, ih m hm]
      rfl
    rw [typeByOffset?, fieldType_eq, membersByOffset?_eq]
    cases Kind.classify d.baseType with
    | object =>
      simp only [Option.bind_eq_bind, Option.bind_some, hmembers]
      rfl
    | _ => rfl

private theorem bodyByOffset?_eq (header rest : List Char) :
    bodyByOffset? header rest = some (bodyOf header rest) := by
  rw [bodyOf_eq, openedBy]
  by_cases h : '\x7b' ∈ header
  · obtain ⟨inner, hinner, hafter⟩ := afterBrace?_of_mem h
    rw [bodyByOffset?, hafter, hinner]
    exact insideOffsets?_eq _
  · rw [bodyByOffset?, afterBrace?_of_not_mem h, dropWhile_bne_of_not_mem h]
    exact insideOffsets?_eq _

theorem readByOffset?_eq (source : String) : readByOffset? source = some (parse source) := by
  have hfields (ds : List Declaration) :
      (ds.mapM fun d => d.typeByOffset?.map fun t => (String.ofList d.name, t)) =
        some (ds.map Declaration.field) :=
    mapM_eq_some fun d _ => by rw [d.typeByOffset?_eq]; rfl
  rw [readByOffset?, parse, ofText]
  simp only [bodyByOffset?_eq, entriesByOffset?_eq, hfields, Option.bind_eq_bind, Option.bind_some]
  rfl

end MockServer.Interface
