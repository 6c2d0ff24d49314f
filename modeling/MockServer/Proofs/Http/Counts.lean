import MockServer.Proofs.Http.Envelope
import MockServer.Proofs.Json.Number
import MockServer.Proofs.Json.Written
import MockServer.Proofs.Number.DecimalText

/-!
Counts in a query and in a body are judged alike: a number is taken if its exact value is an integer
from 1 to 100, however it is written, and the reply has as many records.
-/
namespace MockServer.Http

open MockServer.Number MockServer.Random MockServer.Text

namespace Count

/-- What a JSON value asks for: nothing if it is null, or the integer from 1 to 100 that it is. -/
inductive Asks : Json.Tree → Option Nat → Prop
  | nothing : Asks .null none
  | number {numeral : Json.Numeral} {v : Json.NumberValue} {n : Nat}
    (kept : numeral.value? = some v) (value : v.Is n) (low : 1 ≤ n) (high : n ≤ 100) :
    Asks (.number numeral) (some n)

variable {numeral : Json.Numeral} {n : Int} {k : Nat} {count : Option Nat}

private theorem check?_eq_some_iff : check? n = some k ↔ n = k ∧ 1 ≤ k ∧ k ≤ 100 := by
  unfold check? maxCount
  split
  · rw [Option.some.injEq]
    omega
  · refine iff_of_false nofun ?_
    omega

/-- A number without sign that is too large for one with sign does not become another one. -/
theorem integer?_ne_of_large {m : Nat} (hm : numeral.natural? = some m)
    (hlow : 0x8000000000000000 ≤ m) (hword : m < 0x10000000000000000)
    (hint : numeral.int64? = none) (hn : n < 0x7FFFFFFFFFFFFFFF) : integer? numeral ≠ some n := by
  simp only [integer?, hint]
  split
  next x hx =>
    have htruncate := Json.Numeral.le_truncate_of_natural hm hlow hword hx
    split
    · rw [Ne, Option.some.injEq]
      omega
    · nofun
  next => nofun

/-- Between the ends of the integers of 64 bits with sign, a number is read as its exact value. -/
theorem integer?_eq_some_iff (hlow : -0x8000000000000000 < n) (hhigh : n < 0x7FFFFFFFFFFFFFFF) :
    integer? numeral = some n ↔ ∃ v, numeral.value? = some v ∧ v.Is n := by
  cases hint : numeral.int64? with
  | some i =>
    rw [Json.Numeral.value?_of_int64? hint]
    simp [integer?, hint, Json.NumberValue.Is]
  | none =>
    cases hnatural : numeral.natural?.filter (· < 0x10000000000000000) with
    | some m =>
      obtain ⟨hm, hword⟩ := Option.filter_eq_some_iff.mp hnatural
      have hword : m < 0x10000000000000000 := of_decide_eq_true hword
      have hlarge : 0x8000000000000000 ≤ m := by
        rw [Json.Numeral.int64?_of_natural hm] at hint
        by_contra hsmall
        rw [if_pos (by omega)] at hint
        cases hint
      refine iff_of_false (integer?_ne_of_large hm hlarge hword hint hhigh) ?_
      rintro ⟨v, hkept, hv⟩
      rw [Json.Numeral.value?_of_natural hm hword] at hkept
      cases hkept
      have heq : (m : Int) = n := hv
      omega
    | none =>
      rw [Json.Numeral.value?_of_none hnatural hint]
      cases hbinary : numeral.binary64? with
      | none => simp [integer?, hint, hbinary]
      | some x =>
        simp only [integer?, hint, hbinary, Option.map_some, Option.some.injEq, exists_eq_left',
          Json.NumberValue.Is, Binary64.rational_eq_int_iff]
        split
        next hx =>
          rw [Option.some.injEq, and_iff_right hx]
          omega
        next hx => exact iff_of_false nofun fun h => hx h.1

private theorem ofJson?_eq_some_iff {t : Json.Tree} :
    ofJson? (some t) = some count ↔ Asks t count := by
  cases t with
  | null =>
    constructor
    · intro h
      cases h
      exact .nothing
    · rintro ⟨⟩
      rfl
  | number numeral =>
    rw [ofJson?]
    simp only [Option.map_eq_some_iff, Option.bind_eq_some_iff, check?_eq_some_iff]
    constructor
    · rintro ⟨k, ⟨n, hn, rfl, hlow, hhigh⟩, rfl⟩
      obtain ⟨v, hkept, hv⟩ := (integer?_eq_some_iff (by omega) (by omega)).mp hn
      exact .number hkept hv hlow hhigh
    · intro h
      cases h with
      | @number _ v k kept value low high =>
        have hn := (integer?_eq_some_iff (by omega) (by omega)).mpr ⟨v, kept, value⟩
        exact ⟨k, ⟨k, hn, rfl, low, high⟩, rfl⟩
  | bool | string | array | object =>
    refine iff_of_false nofun ?_
    rintro ⟨⟩

/-- A decimal text asks for what it reads as, with or without blanks around it. -/
theorem ofText?_intText {before after : List Char} (hbefore : ∀ c ∈ before, isBlank c = true)
    (hafter : ∀ c ∈ after, isBlank c = true) (n : Int) :
    ofText? (some (before ++ intText n ++ after)) = (check? n).map some := by
  obtain ⟨⟨c, rest, hcons, -⟩, -⟩ := isTight_intText n
  have hread : ofText? (some (before ++ intText n ++ after)) =
      ((int64? (intText n)).bind check?).map some := by
    rw [ofText?, Option.map_some, trim_intText hbefore hafter, hcons]
  rw [hread, int64?_intText]
  split
  next => rw [Option.bind_some]
  next hrange =>
    have hrefused : check? n = none := if_neg (by unfold maxCount; omega)
    rw [Option.bind_none, hrefused]

private theorem ofJson?_ofInt (hlow : -0x8000000000000000 ≤ n) (hhigh : n < 0x10000000000000000) :
    ofJson? (some (.number (.ofInt n))) = (check? n).map some := by
  have hkept := Json.Numeral.value?_ofInt hlow hhigh
  apply Option.ext
  intro count
  rw [ofJson?_eq_some_iff, Option.map_eq_some_iff]
  constructor
  · intro h
    cases h with
    | @number _ v k kept value low high =>
      rw [hkept] at kept
      cases kept
      exact ⟨k, check?_eq_some_iff.mpr ⟨value, low, high⟩, rfl⟩
  · rintro ⟨k, hk, rfl⟩
    obtain ⟨hn, low, high⟩ := check?_eq_some_iff.mp hk
    exact .number hkept hn low high

end Count

/-- A body that is more than blanks is judged by the count of its record. -/
theorem countOfBody_eq {body : List UInt8} {raw : Option Json.Tree}
    (hbody : ∃ b ∈ body, b ∉ ([0x20, 0x09, 0x0A, 0x0D, 0x0C] : List UInt8))
    (hdecode : Json.decode Count.bodyDecoder (Utf8.marked body) = .ok raw) :
    countOfBody body = (Count.ofJson? raw).elim (.error .count) .ok := by
  have hblank : (body.all fun b =>
      b == 0x20 || b == 0x09 || b == 0x0A || b == 0x0D || b == 0x0C) = false := by
    obtain ⟨b, hb, hother⟩ := hbody
    rw [List.all_eq_false]
    refine ⟨b, hb, ?_⟩
    simpa [and_assoc] using hother
  simp only [countOfBody, hblank, hdecode, Bool.false_eq_true, if_false]
  cases Count.ofJson? raw <;> rfl

/-- The count of a body is refused just where its value asks for nothing that can be given. -/
theorem countOfBody_iff {body : List UInt8} {t : Json.Tree} {count : Option Nat}
    (hbody : ∃ b ∈ body, b ∉ ([0x20, 0x09, 0x0A, 0x0D, 0x0C] : List UInt8))
    (hdecode : Json.decode Count.bodyDecoder (Utf8.marked body) = .ok (some t)) :
    (countOfBody body = .ok count ↔ Count.Asks t count) ∧
      (countOfBody body = .error .count ↔ ∀ count, ¬ Count.Asks t count) := by
  simp only [countOfBody_eq hbody hdecode, ← Count.ofJson?_eq_some_iff]
  cases Count.ofJson? (some t) with
  | some c => simp
  | none => simp

/-! Replies -/

/-- One object without a count or for one, else a list of as many objects. -/
inductive IsRecords : Option Nat → Json.Value → Prop
  | one {count : Option Nat} (few : count.getD 1 = 1) (ms : List (String × Json.Value)) :
    IsRecords count (.object ms)
  | many {n : Nat} {vs : List Json.Value} (several : 1 < n) (length : vs.length = n)
    (objects : ∀ v ∈ vs, ∃ ms, v = .object ms) : IsRecords (some n) (.array vs)

/-- A reply of success with the records of a count and, beside them, how many they are. -/
def Response.Carries (reply : Response) (id : String) (count : Option Nat) : Prop :=
  reply.status = 200 ∧ ∃ members data,
    reply.body.json? = some (.object members) ∧
    members.lookup "data" = some data ∧ IsRecords count data ∧
    members.lookup "metadata" =
      some (.object [("project_id", .string id), ("generated_count", .int (count.getD 1))])

section

variable {s : GeneratorSettings} {now : Time.Instant} {count : Option Nat}

/-- What is given for a count has the form that the count asks for, and as many records. -/
theorem isRecords_of_isAnswer [Mock.Phrasebook] {i : Interface} {data : Mock.Data}
    (hcount : ∀ n ∈ count, 1 ≤ n) (h : Mock.IsAnswer s now i count data) :
    IsRecords count data.json ∧ data.count = count.getD 1 := by
  cases h with
  | one few record =>
    obtain ⟨⟨ms, rfl⟩, -⟩ := record
    have hone : count.getD 1 = 1 := by
      cases count with
      | none => rfl
      | some n => exact Nat.le_antisymm few (hcount n rfl)
    exact ⟨.one hone _, hone.symm⟩
  | @many n vs several length records =>
    refine ⟨?_, length⟩
    rw [Mock.Data.json, Mock.jsonItems_eq_map]
    refine .many several (by rw [List.length_map, length]) ?_
    intro v hv
    obtain ⟨w, hw, rfl⟩ := List.mem_map.mp hv
    obtain ⟨⟨ms, rfl⟩, -⟩ := records w hw
    exact ⟨_, rfl⟩

end

namespace Service

variable [book : Mock.Phrasebook] {s : Service} {m : Moment} {reg : Registry} {id : String}
variable {p : Project} {count : Option Nat}

/-- The mock reply about a live project carries what was asked for. -/
theorem carries_mockReply (hp : reg.get? m.now id = some p) (hcount : ∀ n ∈ count, 1 ≤ n)
    {reply : Response} (h : IsResult (s.mockReply m reg id (.ok count)) reply) :
    reply.Carries id count := by
  obtain ⟨result, hresult, hreply⟩ := isResult_bind h
  rw [Registry.mockData, Registry.parsedInterface, hp] at hresult
  obtain ⟨data, hdata, rfl⟩ := isResult_return hresult
  rw [isResult_pure hreply]
  obtain ⟨hrecords, hlength⟩ := isRecords_of_isAnswer hcount (Mock.isAnswer_of_isResult hdata)
  refine ⟨rfl, _, data.json, rfl, rfl, hrecords, ?_⟩
  rw [← hlength]
  rfl

end Service

/-- A JSON value is a count exactly when it is null or a number whose exact value is an integer
from 1 to 100, and a body with any other value is refused for its count. A decimal text in a query
gives what the JSON integer gives. What is accepted for a live project is what the reply carries. -/
theorem counts_agree [book : Mock.Phrasebook] (hb : book.Completes) :
    (∀ t count, Count.ofJson? (some t) = some count ↔ Count.Asks t count) ∧
    (∀ body t count, (∃ b ∈ body, b ∉ ([0x20, 0x09, 0x0A, 0x0D, 0x0C] : List UInt8)) →
      Json.decode Count.bodyDecoder (Utf8.marked body) = .ok (some t) →
        (countOfBody body = .ok count ↔ Count.Asks t count) ∧
        (countOfBody body = .error .count ↔ ∀ count, ¬ Count.Asks t count)) ∧
    (∀ n : Int, -0x8000000000000000 ≤ n → n < 0x10000000000000000 →
      ∀ before after : List Char, (∀ c ∈ before ++ after, isBlank c = true) →
        Count.ofText? (some (before ++ intText n ++ after)) =
          Count.ofJson? (some (Json.Value.int n).tree)) ∧
    (∀ (s : Service) (m : Moment) (reg : Registry) (id : String) (count : Option Nat),
      (reg.get? m.now id).isSome → (∀ n ∈ count, 1 ≤ n) →
        Completes (s.mockReply m reg id (.ok count)) ∧
        ∀ reply, IsResult (s.mockReply m reg id (.ok count)) reply → reply.Carries id count) := by
  refine ⟨fun t count => Count.ofJson?_eq_some_iff, fun body t count => countOfBody_iff, ?_, ?_⟩
  · intro n hlow hhigh before after hblank
    rw [List.forall_mem_append] at hblank
    rw [Count.ofText?_intText hblank.1 hblank.2, Json.Value.tree, Count.ofJson?_ofInt hlow hhigh]
  · intro s m reg id count hp hcount
    obtain ⟨p, hp⟩ := Option.isSome_iff_exists.mp hp
    exact ⟨Service.completes_mockReply hb id _, fun reply h =>
      Service.carries_mockReply hp hcount h⟩

/-- A number with an exponent, and a body that gives it as the count. -/
def writtenThree : Json.Numeral := { whole := [3], exponent := some (false, [0]) }

def bodyOfThree : List UInt8 := Utf8.encode "\x7b\"count\": 3e0\x7d".toList

private theorem decode_bodyOfThree :
    Json.decode Count.bodyDecoder (Utf8.marked bodyOfThree) =
      .ok (some (.number writtenThree)) := by
  have hmarked :
      Utf8.marked bodyOfThree = Json.Input.ofText "\x7b\"count\": 3e0\x7d".toList := by decide
  have hread : Json.Tree.read? (Json.Input.ofText "\x7b\"count\": 3e0\x7d".toList) =
      some (.object [(.ofText "count".toList, .number writtenThree)]) := rfl
  have hkeep : writtenThree.binary64?.isSome = true := by decide
  rw [hmarked, Json.decode, hread]
  simp [Count.bodyDecoder, Json.Record.read, Json.Record.pick, Json.Record.optional,
    Json.Record.withDefault, Json.Decoder.enter, Json.Decoder.text, Json.Decoder.optional,
    Json.Decoder.any, Json.keep, Json.maxDepth, hkeep, bind, Except.bind, Except.map, List.lookup]

def registryOfOne : Registry :=
  Registry.run {} {} [⟨⟨0, 0⟩, .create "a" { name := "A", interfaceCode := "a: number" }⟩]

theorem three_counted :
    Count.ofText? (some " 3\t".toList) = Count.ofJson? (some (Json.Value.int 3).tree) ∧
    countOfBody bodyOfThree = .ok (some 3) ∧
    ∃ words reply rest,
      Service.mockReply {} ⟨⟨1, 0⟩, 0, "b"⟩ registryOfOne "a" (.ok (some 3)) words =
        some (reply, rest) ∧ reply.Carries "a" (some 3) := by
  obtain ⟨-, hbody, htext, hreply⟩ := counts_agree Mock.completes_samples
  refine ⟨?_, ?_, ?_⟩
  · have hblank : ∀ c ∈ [' '] ++ ['\t'], isBlank c = true := by simp [isBlank]
    have hpadded : " 3\t".toList = [' '] ++ intText 3 ++ ['\t'] := by decide +kernel
    rw [hpadded]
    exact htext 3 (by decide) (by decide) [' '] ['\t'] hblank
  · have hvalue : writtenThree.value? =
        some (.binary ((Binary64.ofNat 3).mul (Json.Numeral.powerOfTen 0))) := by decide
    have hjudged := hbody bodyOfThree _ (some 3) (by decide) decode_bodyOfThree
    refine hjudged.1.mpr (.number hvalue ?_ ?_ ?_)
    · exact Binary64.rational_eq_int_iff.mpr (by decide)
    · decide
    · decide
  · obtain ⟨hcompletes, hcarries⟩ :=
      hreply {} ⟨⟨1, 0⟩, 0, "b"⟩ registryOfOne "a" (some 3) (by decide) (by decide)
    obtain ⟨more, reply, rest, hresult⟩ := hcompletes.ends []
    exact ⟨more, reply, rest, hresult, hcarries reply ⟨more, rest, hresult⟩⟩

end MockServer.Http
