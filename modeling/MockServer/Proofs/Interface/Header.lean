import MockServer.Proofs.Interface.CommentScanner
import MockServer.Proofs.Interface.Reading

/-!
The parts of an interface text: its header line, the lines after it and what its opening brace
opens. In a text with the usual header line the name is the one after the keyword, and the body is
what the brace of the header encloses.
-/
namespace MockServer.Interface

open MockServer.Text

/-- The first line that is not blank, without the blanks around it. -/
def headerOf (s : List Char) : List Char := trim ((trimStart s).takeWhile (· != '\n'))

/-- The lines after the header. -/
def restOf (s : List Char) : List Char := ((trimStart s).dropWhile (· != '\n')).tail

def withoutOpening : List Char → List Char
  | '\x7b' :: opened => opened
  | s => s

/-- The text right after the brace that opens the body, or the lines after the header if there is no
such brace. -/
def openedBy (header rest : List Char) : List Char :=
  match header.dropWhile (· != '\x7b') with
  | _ :: afterBrace => afterBrace ++ '\n' :: rest
  | [] => withoutOpening (trimStart rest)

/-- The declarations of a text from which the comments are gone. -/
def declarationsOf (s : List Char) : List Declaration :=
  (entries (bodyOf (headerOf s) (restOf s))).filterMap readPiece?

variable {name : List Char}

theorem fields_ofText (s : List Char) :
    (ofText s).fields = fieldsOf (declarationsOf (withoutComments s)) := rfl

theorem bodyOf_eq (header rest : List Char) :
    bodyOf header rest = insideBrace (openedBy header rest) := by
  rw [bodyOf, openedBy]
  cases header.dropWhile (· != '\x7b') with
  | cons => rfl
  | nil =>
    simp only
    split
    next h => rw [h, withoutOpening]
    next hne => rw [withoutOpening.eq_2 _ hne]

/-- What the readers of a text see of it: its first line that is not blank, and the lines after. -/
theorem ofText_eq_of_header {s t : List Char}
    (hname : declaredName? (headerOf (withoutComments s)) =
      declaredName? (headerOf (withoutComments t)))
    (hbody : insideBrace (openedBy (headerOf (withoutComments s)) (restOf (withoutComments s))) =
      insideBrace (openedBy (headerOf (withoutComments t)) (restOf (withoutComments t)))) :
    ofText s = ofText t := by
  rw [← bodyOf_eq, ← bodyOf_eq] at hbody
  simp only [headerOf, restOf] at hname hbody
  simp only [ofText, hname, hbody]

private theorem beforeBrace_eq (name : List Char) :
    beforeBrace name = ['i', 'n', 't', 'e', 'r', 'f', 'a', 'c', 'e'] ++ ' ' :: (name ++ [' ']) :=
  rfl

private theorem not_mem_beforeBrace (hn : IsIdentifier name) {c : Char} (hw : isWord c = false)
    (hb : c ≠ ' ') : c ∉ beforeBrace name := by
  have hkeyword : IsIdentifier ['i', 'n', 't', 'e', 'r', 'f', 'a', 'c', 'e'] := by decide
  rw [beforeBrace_eq]
  refine List.not_mem_append (not_mem_of_forall hkeyword.2 hw)
    (List.not_mem_cons_of_ne_of_not_mem hb ?_)
  exact List.not_mem_append (not_mem_of_forall hn.2 hw) (by simpa using hb)

private theorem not_mem_headerText (hn : IsIdentifier name) {c : Char} (hw : isWord c = false)
    (hb : c ≠ ' ') (ho : c ≠ '\x7b') : c ∉ headerText name :=
  List.not_mem_append (not_mem_beforeBrace hn hw hb) (by simpa using ho)

private theorem isTight_headerText (name : List Char) : IsTight (headerText name) := by
  refine ⟨?_, beforeBrace name, '\x7b', rfl, by decide⟩
  rw [headerText, beforeBrace_eq]
  exact ⟨'i', _, rfl, by decide⟩

private theorem declaredName?_headerText (hn : IsIdentifier name) :
    declaredName? (headerText name) = some name := by
  obtain ⟨c, rest, rfl⟩ := List.exists_cons_of_ne_nil hn.1
  have hw : isWord ' ' = false := by decide
  have hblank : isBlank ' ' = true := by decide
  have hc := isBlank_of_isWord (hn.2 c List.mem_cons_self)
  have htake : (c :: rest ++ [' '] ++ ['\x7b']).takeWhile isWord = c :: rest := by
    rw [List.append_assoc, List.takeWhile_append_of_pos hn.2]
    simp [hw]
  have hpre : "interface".toList.isPrefixOf (headerText (c :: rest)) = true := rfl
  have hdrop : (headerText (c :: rest)).drop 9 = ' ' :: (c :: rest ++ [' '] ++ ['\x7b']) := rfl
  have hkey : nameAfterKeyword? (headerText (c :: rest)) = some (c :: rest) := by
    rw [nameAfterKeyword?, if_pos hpre, hdrop]
    simp only [hblank, if_true]
    rw [List.cons_append, List.cons_append, trimStart_cons_of_not_blank hc, ← List.cons_append,
      ← List.cons_append, htake]
  rw [headerText, beforeBrace_eq, List.cons_append, List.cons_append] at hkey ⊢
  rw [declaredName?, hkey]

private theorem bodyOf_headerText (hn : IsIdentifier name) (rest : List Char) :
    bodyOf (headerText name) rest = insideBrace ('\n' :: rest) := by
  have hbefore := bne_of_not_mem (not_mem_beforeBrace hn (c := '\x7b') (by decide) (by decide))
  have hdrop : (headerText name).dropWhile (· != '\x7b') = ['\x7b'] := by
    rw [headerText, List.dropWhile_append_of_pos hbefore]
    rfl
  rw [bodyOf, hdrop]
  rfl

/-- The model of a text with such a header. -/
theorem ofText_headerText (hn : IsIdentifier name) (rest : List Char) :
    ofText (headerText name ++ '\n' :: rest) =
      ⟨String.ofList name, fieldsOf
        ((entries (insideBrace ('\n' :: withoutComments rest))).filterMap readPiece?)⟩ := by
  have hline := bne_of_not_mem
    (not_mem_headerText hn (c := '\n') (by decide) (by decide) (by decide))
  have hslash : '/' ∉ headerText name ++ ['\n'] :=
    List.not_mem_append (not_mem_headerText hn (by decide) (by decide) (by decide)) (by decide)
  have hcleaned : trimStart (withoutComments (headerText name ++ '\n' :: rest)) =
      headerText name ++ '\n' :: withoutComments rest := by
    have happend : headerText name ++ '\n' :: rest = (headerText name ++ ['\n']) ++ rest := by simp
    obtain ⟨⟨c, later, hc, hb⟩, -⟩ := isTight_headerText name
    rw [happend, withoutComments_append hslash, hc]
    simpa using trimStart_cons_of_not_blank hb _
  have htake : (headerText name ++ '\n' :: withoutComments rest).takeWhile (· != '\n') =
      headerText name := by
    rw [List.takeWhile_append_of_pos hline, List.takeWhile_cons_of_neg (by decide), List.append_nil]
  have hdrop : (headerText name ++ '\n' :: withoutComments rest).dropWhile (· != '\n') =
      '\n' :: withoutComments rest := by
    rw [List.dropWhile_append_of_pos hline, List.dropWhile_cons_of_neg (by decide)]
  rw [ofText]
  simp only [hcleaned, htake, hdrop, (isTight_headerText name).trim_eq, declaredName?_headerText hn,
    bodyOf_headerText hn, List.tail_cons]
  rfl

end MockServer.Interface
