import MockServer.Proofs.Mock.Conformance
import MockServer.Proofs.Random.Completion

/-!
Generation never gets stuck, for any model, if made-up texts do not. What it comes to is a record,
or a list of as many records as were asked for.
-/
namespace MockServer.Mock

open MockServer.Random MockServer.Time

/-- A source of texts that always come to an end. -/
structure Phrasebook.Completes (book : Phrasebook) : Prop where
  word : Random.Completes book.word
  text : ∀ f, Random.Completes (book.text f)

variable {s : GeneratorSettings} {now : Instant}

private theorem completes_repeated {element : Draw Value} (he : Random.Completes element) :
    Random.Completes (repeated s element) :=
  (completes_between 1 s.arrayLimit).bind fun _ => (completes_times he).map _

section

variable [book : Phrasebook]

private theorem completes_text (hb : book.Completes) (format : Option StringFormat) :
    Random.Completes (text format) := by
  cases format with
  | none => exact (completes_between 1 5).bind fun n => (completes_times hb.word).map _
  | some f =>
    by_cases hf : f = .uuid
    · subst hf
      exact Uuid.completes_draw.map _
    · rw [text_of_ne_uuid hf]
      exact (hb.text f).map _

private theorem completes_scalar (hb : book.Completes) (now : Instant) (kind : Kind)
    (format : Option StringFormat) :
    Random.Completes (scalar now kind format) := by
  cases kind with
  | string => exact completes_text hb format
  | number => exact (completes_between 1 1000).map _
  | boolean => exact (completes_chance _).map _
  | date => exact (completes_below _).map _
  | object => exact completes_pure _

private theorem completes_value {t : FieldType} (ht : Random.Completes (element s now t)) :
    Random.Completes (value s now t) := by
  unfold value
  split
  · exact completes_repeated ht
  · exact ht

mutual

private theorem completes_element (hb : book.Completes) (t : FieldType) :
    Random.Completes (element s now t) := by
  match t with
  | ⟨.object, _, _, _, some fields⟩ =>
    rw [element]
    exact (completes_members hb fields).map _
  | ⟨.object, _, _, format, none⟩ => exact completes_scalar hb now .object format
  | ⟨.string, _, _, format, _⟩ => exact completes_scalar hb now .string format
  | ⟨.number, _, _, format, _⟩ => exact completes_scalar hb now .number format
  | ⟨.boolean, _, _, format, _⟩ => exact completes_scalar hb now .boolean format
  | ⟨.date, _, _, format, _⟩ => exact completes_scalar hb now .date format

private theorem completes_members (hb : book.Completes) (fields : List (String × FieldType)) :
    Random.Completes (members s now fields) := by
  match fields with
  | [] => exact completes_pure []
  | (name, t) :: fields =>
    have hfields := completes_members hb fields
    rw [members_cons]
    refine .bind ?_ fun omitted => ?_
    · split
      · exact completes_chance _
      · exact completes_pure false
    · split
      · exact hfields
      · exact (completes_value (completes_element hb t)).bind fun v => hfields.map _

end

theorem completes_record (hb : book.Completes) (i : Interface) :
    Random.Completes (record s now i) :=
  (completes_members hb i.fields).map _

/-- Generation always comes to an end. -/
theorem completes_data (hb : book.Completes) (i : Interface) (count : Option Nat) :
    Random.Completes (data s now i count) := by
  have hrecord : Random.Completes (record s now i) := completes_record hb i
  unfold data
  split
  · exact hrecord.map _
  · split
    · exact (completes_times hrecord).map _
    · exact hrecord.map _

variable (s now) in
/-- An object that generation can give for a model. -/
def IsRecord (i : Interface) (v : Value) : Prop :=
  (∃ ms, v = .object ms) ∧ IsResult (record s now i) v

private theorem isRecord_of_isResult {i : Interface} {v : Value} (h : IsResult (record s now i) v) :
    IsRecord s now i v := by
  obtain ⟨ms, -, hv⟩ := isResult_return h
  exact ⟨⟨ms, hv⟩, h⟩

variable (s now) in
/-- What is given for a count: one record without a count or for a count up to one, else a list of
as many as were asked for. -/
inductive IsAnswer (i : Interface) : Option Nat → Data → Prop
  | one {count : Option Nat} {v : Value} (few : count.getD 1 ≤ 1) (record : IsRecord s now i v) :
    IsAnswer i count (.one v)
  | many {n : Nat} {vs : List Value} (several : 1 < n) (length : vs.length = n)
    (records : ∀ v ∈ vs, IsRecord s now i v) : IsAnswer i (some n) (.many vs)

theorem isAnswer_of_isResult {i : Interface} {count : Option Nat} {d : Data}
    (h : IsResult (data s now i count) d) : IsAnswer s now i count d := by
  unfold data at h
  split at h
  · obtain ⟨v, hv, rfl⟩ := isResult_return h
    exact .one (Nat.le_refl 1) (isRecord_of_isResult hv)
  next n =>
    split at h
    next hn =>
      obtain ⟨vs, hvs, rfl⟩ := isResult_return h
      obtain ⟨hlength, hvs⟩ := isResult_times hvs
      exact .many hn hlength fun v hv => isRecord_of_isResult (hvs v hv)
    next hn =>
      obtain ⟨v, hv, rfl⟩ := isResult_return h
      exact .one (Nat.le_of_not_lt hn) (isRecord_of_isResult hv)

end

/-! The samples -/

private theorem completes_phoneDigits (n : Nat) : Random.Completes (phoneDigits n) :=
  (completes_times ((completes_topBits 3).map _)).map _

private theorem completes_sampleText (f : StringFormat) : Random.Completes (sampleText f) := by
  have hword : Random.Completes loremWord := completes_pick _ _ _
  have hlast : Random.Completes lastName := completes_pick _ _ _
  cases f with
  | email => exact hword.bind fun _ => (completes_pick _ _ _).map _
  | url => exact hword.bind fun _ => (completes_pick _ _ _).map _
  | phone =>
    exact (completes_phoneDigits 3).bind fun _ => (completes_phoneDigits 3).bind fun _ =>
      (completes_phoneDigits 4).map _
  | name => exact (completes_pick _ _ _).bind fun _ => hlast.map _
  | address =>
    exact (completes_topBits 12).bind fun _ => hlast.bind fun _ => (completes_pick _ _ _).map _
  | company => exact hlast.bind fun _ => (completes_pick _ _ _).map _
  | uuid => exact hword

theorem completes_samples : samples.Completes := ⟨completes_pick _ _ _, completes_sampleText⟩

end MockServer.Mock
