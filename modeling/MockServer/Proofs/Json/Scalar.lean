import Mathlib.Tactic.SplitIfs
import MockServer.Json.Read
import MockServer.Json.Value

/-!
Strings and numbers that were written are read as they were: every character comes back as itself
or as the unit that its escape names, and every digit as itself.
-/
namespace MockServer.Json

open MockServer.Number

/-! Strings -/

/-- How a written character is read. Controls without a letter of their own come back as units. -/
def Piece.ofChar (c : Char) : Piece :=
  if c.toNat < 0x20 ∧ c ∉ ['\x08', '\x0c', '\n', '\r', '\t'] then .unit c.toNat else .char c

/-- A text as it is read in quotes. -/
def Quoted.ofText (s : List Char) : Quoted := s.map Piece.ofChar

private theorem hexDigit?_hexChar {d : Nat} (h : d < 16) : hexDigit? (hexChar d) = some d := by
  have hall : ∀ d : Fin 16, hexDigit? (hexChar d) = some d.val := by decide
  exact hall ⟨d, h⟩

namespace Quoted

private theorem textAfter?_ofChar (done : List Char) (c : Char) (rest : Quoted) :
    textAfter? done (Piece.ofChar c :: rest) = textAfter? (c :: done) rest := by
  rw [Piece.ofChar]
  split
  next h =>
    -- a control is no surrogate
    have hhigh : isHighSurrogate c.toNat = false := by simp [isHighSurrogate]; omega
    have hlow : isLowSurrogate c.toNat = false := by simp [isLowSurrogate]; omega
    have hsame : Char.ofNat c.toNat = c := Char.ofNat_toNat c
    cases rest with
    | nil => simp [textAfter?, hhigh, hlow, hsame]
    | cons p rest => cases p <;> simp [textAfter?, hhigh, hlow, hsame]
  next => rw [textAfter?]

private theorem textAfter?_ofText (done s : List Char) :
    textAfter? done (ofText s) = some (done.reverse ++ s) := by
  induction s generalizing done with
  | nil => rw [ofText, List.map_nil, textAfter?, List.append_nil]
  | cons c s ih =>
    rw [ofText, List.map_cons, textAfter?_ofChar, ← ofText, ih, List.reverse_cons,
      List.append_assoc, List.singleton_append]

/-- A text in quotes is that text. -/
@[simp] theorem text?_ofText (s : List Char) : (ofText s).text? = some (String.ofList s) := by
  rw [text?, textAfter?_ofText]
  rfl

end Quoted

namespace Reader

/-- A reader after some characters. -/
def feed (r : Reader) (s : List Char) : Reader := s.foldl stepChar r

variable {stack : List Frame} {keyAfter : Option (List (Quoted × Tree))} {pieces : Quoted}

theorem feed_nil (r : Reader) : r.feed [] = r := rfl

theorem feed_cons (r : Reader) (c : Char) (s : List Char) :
    r.feed (c :: s) = (r.stepChar c).feed s := rfl

theorem feed_append (r : Reader) (s t : List Char) : r.feed (s ++ t) = (r.feed s).feed t :=
  List.foldl_append

private theorem stepChar_code {left unit d : Nat} {c : Char} (hd : hexDigit? c = some d) :
    stepChar ⟨stack, .code keyAfter pieces left unit⟩ c =
      if left ≤ 1 then ⟨stack, .quoted keyAfter (.unit (unit * 16 + d) :: pieces)⟩
      else ⟨stack, .code keyAfter pieces (left - 1) (unit * 16 + d)⟩ := by
  simp only [stepChar, hd]

private theorem feed_code {u : Nat} (hu : u < 0x20) :
    feed ⟨stack, .quoted keyAfter pieces⟩
        ['\\', 'u', '0', '0', hexChar (u / 16), hexChar (u % 16)] =
      ⟨stack, .quoted keyAfter (.unit u :: pieces)⟩ := by
  have hhigh : hexDigit? (hexChar (u / 16)) = some (u / 16) := hexDigit?_hexChar (by omega)
  have hlow : hexDigit? (hexChar (u % 16)) = some (u % 16) := hexDigit?_hexChar (by omega)
  have hzero : hexDigit? '0' = some 0 := rfl
  have hunit : ((0 * 16 + 0) * 16 + 0) * 16 + u / 16 = u / 16 := by omega
  have hopen : stepChar (stepChar ⟨stack, .quoted keyAfter pieces⟩ '\\') 'u' =
      ⟨stack, .code keyAfter pieces 4 0⟩ := rfl
  rw [feed_cons, feed_cons, hopen, feed_cons, stepChar_code hzero, feed_cons]
  simp only [Nat.reduceLeDiff, if_false, Nat.reduceSub, stepChar_code hzero, feed_cons,
    stepChar_code hhigh, stepChar_code hlow, hunit, feed_nil, Nat.div_add_mod']
  rfl

private theorem feed_escape (c : Char) :
    feed ⟨stack, .quoted keyAfter pieces⟩ (escape c) =
      ⟨stack, .quoted keyAfter (Piece.ofChar c :: pieces)⟩ := by
  unfold escape
  split_ifs with h h h h h h h h
  all_goals try subst h
  any_goals rfl
  · have hpiece : Piece.ofChar c = .unit c.toNat := if_pos ⟨h, by simp_all⟩
    rw [hpiece, feed_code h]
  · have hpiece : Piece.ofChar c = .char c := if_neg fun hc => h hc.1
    simp only [hpiece, feed_cons, feed_nil, stepChar]
    rw [if_neg ‹_›, if_neg ‹_›, if_neg h]

private theorem feed_escaped (s : List Char) :
    feed ⟨stack, .quoted keyAfter pieces⟩ (s.flatMap escape) =
      ⟨stack, .quoted keyAfter ((Quoted.ofText s).reverse ++ pieces)⟩ := by
  induction s generalizing pieces with
  | nil => rfl
  | cons c s ih =>
    rw [List.flatMap_cons, feed_append, feed_escape, ih, Quoted.ofText, Quoted.ofText,
      List.map_cons, List.reverse_cons, List.append_assoc, List.singleton_append]

/-- A text in quotes, after its opening quote. -/
theorem feed_quoted (s : List Char) :
    feed ⟨stack, .quoted keyAfter []⟩ (s.flatMap escape ++ ['"']) =
      finishQuoted stack keyAfter (Quoted.ofText s).reverse := by
  rw [feed_append, feed_escaped, List.append_nil]
  rfl

end Reader

/-! Numbers -/

/-- An integer as it is read. -/
def Numeral.ofInt (n : Int) : Numeral where
  negative := decide (n < 0)
  whole := digitsOf 10 n.natAbs

theorem digit?_digitChar {d : Nat} (h : d < 10) : digit? (digitChar d) = some d := by
  have hall : ∀ d : Fin 10, digit? (digitChar d) = some d.val := by decide
  exact hall ⟨d, h⟩

/-- Digits in front of others: none is left out, and the first is zero for zero alone. -/
theorem exists_digitsBefore (later : List Nat) (n : Nat) :
    ∃ d rest, digitsBefore 10 later n = d :: (rest ++ later) ∧ d < 10 ∧ (∀ e ∈ rest, e < 10) ∧
      (d = 0 → n = 0 ∧ rest = []) := by
  fun_induction digitsBefore 10 later n with
  | case1 => contradiction
  | case2 later n _ hn => exact ⟨n, [], rfl, hn, nofun, fun hzero => ⟨hzero, rfl⟩⟩
  | case3 later n _ hn ih =>
    obtain ⟨d, rest, heq, hd, hrest, hzero⟩ := ih
    refine ⟨d, rest ++ [n % 10], by simpa using heq, hd, ?_, ?_⟩
    · intro e he
      rcases List.mem_append.mp he with he | he
      · exact hrest e he
      · rw [List.mem_singleton.mp he]
        exact Nat.mod_lt _ (by decide)
    · intro hd
      have hn : n / 10 = 0 := (hzero hd).1
      omega

namespace Reader

variable {stack : List Frame}

/-- What a reader is like when it has read a value to its end. A number may still go on. -/
inductive Ends (stack : List Frame) (t : Tree) : Reader → Prop where
  | finished : Ends stack t (finish stack t)
  | number {part : NumberPart} {n : Numeral} (complete : part.complete = true)
      (same : t = .number n.finished) : Ends stack t ⟨stack, .number part n⟩

/-- Separators and closing brackets do not belong to a value. -/
theorem Ends.stepChar_eq {t : Tree} {r : Reader} (h : Ends stack t r) {c : Char}
    (hc : c = ',' ∨ c = ']' ∨ c = '\x7d') : r.stepChar c = afterValue (finish stack t) c := by
  cases h with
  | finished => cases stack with
    | nil => rfl
    | cons f stack => cases f <;> rfl
  | @number part n complete same =>
    subst same
    have hextend : n.extend? part c = none := by
      rcases hc with rfl | rfl | rfl <;> cases part <;> rfl
    simp only [stepChar, hextend, if_pos complete]

theorem Ends.close_eq {t : Tree} {r : Reader} (h : Ends stack t r) : r.close = finish stack t := by
  cases h with
  | finished => cases stack with
    | nil => rfl
    | cons f stack => cases f <;> rfl
  | number complete same =>
    subst same
    exact if_pos complete

/-- The digits of the whole part after the first one. -/
theorem feed_digits (n : Numeral) {digits : List Nat} (h : ∀ d ∈ digits, d < 10) :
    feed ⟨stack, .number .whole n⟩ (digits.map digitChar) =
      ⟨stack, .number .whole { n with whole := digits.reverse ++ n.whole }⟩ := by
  induction digits generalizing n with
  | nil => rfl
  | cons d digits ih =>
    rw [List.forall_mem_cons] at h
    have hd := digit?_digitChar h.1
    have hstep : stepChar ⟨stack, .number .whole n⟩ (digitChar d) =
        ⟨stack, .number .whole { n with whole := d :: n.whole }⟩ := by
      simp only [stepChar, Numeral.extend?, hd]
      rfl
    rw [List.map_cons, feed_cons, hstep, ih _ h.2, List.reverse_cons, List.append_assoc,
      List.singleton_append]

/-- What the first digit of a number leads to. -/
theorem ends_natText {r : Reader} {negative : Bool}
    (hstart : ∀ d < 10, r.stepChar (digitChar d) =
      ⟨stack, .number (if d = 0 then .zero else .whole) { negative, whole := [d] }⟩) (m : Nat) :
    Ends stack (.number { negative, whole := digitsOf 10 m }) (r.feed (natText m)) := by
  obtain ⟨d, rest, heq, hd, hrest, hzero⟩ := exists_digitsBefore [] m
  rw [List.append_nil] at heq
  rw [natText, digitsOf, heq, List.map_cons, feed_cons, hstart d hd]
  by_cases hd : d = 0
  · obtain ⟨-, rfl⟩ := hzero hd
    rw [if_pos hd]
    exact .number rfl rfl
  · rw [if_neg hd, feed_digits _ hrest]
    refine .number rfl ?_
    simp [Numeral.finished]

private theorem stepChar_digit {d : Nat} (h : d < 10) :
    stepChar ⟨stack, .value⟩ (digitChar d) =
      ⟨stack, .number (if d = 0 then .zero else .whole) { whole := [d] }⟩ := by
  have hall : ∀ d : Fin 10, isBlank (digitChar d) = false ∧
      digitChar d ∉ ['\x7b', '[', '"', '-', 't', 'f', 'n'] := by decide
  obtain ⟨hblank, hother⟩ := hall ⟨d, h⟩
  simp only [List.mem_cons, List.not_mem_nil, or_false, not_or] at hother
  simp only [stepChar, hblank, startValue, hother, if_false, digit?_digitChar h]
  rfl

theorem ends_intText (n : Int) :
    Ends stack (.number (.ofInt n)) (feed ⟨stack, .value⟩ (intText n)) := by
  rw [intText, Numeral.ofInt]
  split
  next h =>
    rw [decide_eq_true h, feed_cons]
    refine ends_natText (fun d hd => ?_) n.natAbs
    change stepChar ⟨stack, .number .sign { negative := true }⟩ (digitChar d) = _
    simp only [stepChar, Numeral.extend?, digit?_digitChar hd]
    rfl
  next h =>
    rw [decide_eq_false h]
    exact ends_natText (fun d hd => stepChar_digit hd) n.natAbs

end Reader

end MockServer.Json
