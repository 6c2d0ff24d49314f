import MockServer.Mock.Generate
import MockServer.Proofs.Random.Results

/-!
Generated JSON conforms to the model it is generated from, at every level of nesting.
-/
namespace MockServer.Mock

open MockServer.Random MockServer.Time

mutual

/-- A single value of a field type, whether the field is an array or not. Texts of formats other
than identifiers are those of the phrasebook. -/
inductive FitsElement [Phrasebook] (limit : Nat) (now : Instant) : FieldType → Json.Value → Prop
  | number {t : FieldType} {n : Int} (kind : t.kind = .number) (low : 1 ≤ n) (high : n ≤ 1000) :
    FitsElement limit now t (.int n)
  | boolean {t : FieldType} (kind : t.kind = .boolean) (b : Bool) :
    FitsElement limit now t (.bool b)
  | date {t : FieldType} {s : Nat} (kind : t.kind = .date) (recent : s < 365 * 24 * 60 * 60) :
    FitsElement limit now t
      (.string (String.ofList (Rfc3339.writeMillis (now.addSeconds (-s)))))
  | uuid {t : FieldType} {text : List Char} (kind : t.kind = .string)
    (format : t.format = some .uuid) (version : Uuid.IsVersion4 text) :
    FitsElement limit now t (.string (String.ofList text))
  | words {t : FieldType} {ws : List String} (kind : t.kind = .string) (format : t.format = none)
    (low : 1 ≤ ws.length) (high : ws.length ≤ 5) (known : ∀ w ∈ ws, IsResult Phrasebook.word w) :
    FitsElement limit now t (.string (" ".intercalate ws))
  | sample {t : FieldType} {f : StringFormat} {text : String} (kind : t.kind = .string)
    (format : t.format = some f) (other : f ≠ .uuid)
    (known : IsResult (Phrasebook.text f) text) : FitsElement limit now t (.string text)
  | bare {t : FieldType} (kind : t.kind = .object) (members : t.members = none) :
    FitsElement limit now t (.object [])
  | object {t : FieldType} {fields : List (String × FieldType)}
    {ms : List (String × Json.Value)} (kind : t.kind = .object) (members : t.members = some fields)
    (fits : FitsFields limit now fields ms) : FitsElement limit now t (.object ms)

/-- The value of a field. -/
inductive Fits [Phrasebook] (limit : Nat) (now : Instant) : FieldType → Json.Value → Prop
  | single {t : FieldType} {v : Json.Value} (one : t.isArray = false)
    (fits : FitsElement limit now t v) : Fits limit now t v
  | array {t : FieldType} {vs : List Json.Value} (many : t.isArray = true) (low : 1 ≤ vs.length)
    (high : vs.length ≤ limit) (fits : ∀ v ∈ vs, FitsElement limit now t v) :
    Fits limit now t (.array vs)

/-- The members of an object: those of some of the declared fields in declared order, among them
all that are not optional. -/
inductive FitsFields [Phrasebook] (limit : Nat) (now : Instant) :
    List (String × FieldType) → List (String × Json.Value) → Prop
  | intro {fields kept : List (String × FieldType)} {ms : List (String × Json.Value)}
    (declared : kept.Sublist fields)
    (required : ∀ f ∈ fields, f.2.isOptional = false → f ∈ kept)
    (named : ms.map (·.1) = kept.map (·.1))
    (once : (fields.map (·.1)).Nodup → (ms.map (·.1)).Nodup)
    (fits : ∀ p ∈ kept.zip ms, Fits limit now p.1.2 p.2.2) : FitsFields limit now fields ms

end

variable {s : GeneratorSettings} {now : Instant}

theorem jsonItems_eq_map (vs : List Value) : jsonItems vs = vs.map Value.json := by
  induction vs with
  | nil => rfl
  | cons v vs ih => rw [jsonItems, ih, List.map_cons]

/-- The length of an array is drawn within the limit, its values one by one. -/
theorem isResult_repeated {draw : Draw Value} {v : Value} (h : IsResult (repeated s draw) v) :
    ∃ vs, v = .array vs ∧ 1 ≤ vs.length ∧ vs.length ≤ max s.maxArraySize.toNat 1 ∧
      ∀ w ∈ vs, IsResult draw w := by
  obtain ⟨n, hn, h⟩ := isResult_bind h
  obtain ⟨vs, hvs, rfl⟩ := isResult_return h
  obtain ⟨hlen, hvs⟩ := isResult_times hvs
  have hn := bounds_of_isResult_between (Nat.le_max_right _ _) hn
  exact ⟨vs, rfl, hlen ▸ hn.1, hlen ▸ hn.2, hvs⟩

section

variable [Phrasebook]

theorem text_of_ne_uuid {f : StringFormat} (hf : f ≠ .uuid) :
    text (some f) = Phrasebook.text f >>= fun s => pure (.sample f s) := by
  cases f with
  | uuid => exact absurd rfl hf
  | _ => rfl

private theorem fitsElement_text {limit : Nat} {t : FieldType} {v : Value} (hk : t.kind = .string)
    (h : IsResult (text t.format) v) : FitsElement limit now t v.json := by
  cases hf : t.format with
  | none =>
    rw [hf] at h
    obtain ⟨n, hn, h⟩ := isResult_bind h
    obtain ⟨ws, hws, rfl⟩ := isResult_return h
    obtain ⟨hlen, hws⟩ := isResult_times hws
    have hn := bounds_of_isResult_between (by decide) hn
    exact .words hk hf (hlen ▸ hn.1) (hlen ▸ hn.2) hws
  | some f =>
    rw [hf] at h
    by_cases hu : f = .uuid
    · subst hu
      obtain ⟨u, hu, rfl⟩ := isResult_return h
      exact .uuid hk hf (Uuid.isVersion4_of_isResult hu)
    · rw [text_of_ne_uuid hu] at h
      obtain ⟨s, hs, rfl⟩ := isResult_return h
      exact .sample hk hf hu hs

private theorem fitsElement_scalar {limit : Nat} {t : FieldType} {v : Value}
    (hm : t.kind = .object → t.members = none) (h : IsResult (scalar now t.kind t.format) v) :
    FitsElement limit now t v.json := by
  cases hk : t.kind with
  | string =>
    rw [hk] at h
    exact fitsElement_text hk h
  | number =>
    rw [hk] at h
    obtain ⟨n, hn, rfl⟩ := isResult_return h
    have hn := bounds_of_isResult_between (by decide) hn
    exact .number hk (Int.ofNat_le.mpr hn.1) (Int.ofNat_le.mpr hn.2)
  | boolean =>
    rw [hk] at h
    obtain ⟨b, _, rfl⟩ := isResult_return h
    exact .boolean hk b
  | date =>
    rw [hk] at h
    obtain ⟨n, hn, rfl⟩ := isResult_return h
    exact .date hk (lt_of_isResult_below (by decide) hn)
  | object =>
    rw [hk] at h
    rw [isResult_pure h]
    exact .bare hk (hm hk)

theorem fitsFields_nil {limit : Nat} : FitsFields limit now [] [] :=
  .intro (List.Sublist.refl []) (by simp) rfl (fun h => h) (by simp)

theorem fitsFields_omitted {limit : Nat} {f : String × FieldType}
    {fields : List (String × FieldType)} {ms : List (String × Json.Value)}
    (ho : f.2.isOptional = true) (h : FitsFields limit now fields ms) :
    FitsFields limit now (f :: fields) ms := by
  obtain ⟨declared, required, named, once, fits⟩ := h
  refine .intro (declared.cons f) ?_ named (fun hd => once (List.nodup_cons.mp hd).2) fits
  intro g hg hreq
  rcases List.mem_cons.mp hg with rfl | hg
  · rw [ho] at hreq
    cases hreq
  · exact required g hg hreq

theorem fitsFields_present {limit : Nat} {f : String × FieldType}
    {fields : List (String × FieldType)} {ms : List (String × Json.Value)} {v : Json.Value}
    (hv : Fits limit now f.2 v)
    (h : FitsFields limit now fields ms) : FitsFields limit now (f :: fields) ((f.1, v) :: ms) := by
  obtain ⟨declared, required, named, once, fits⟩ := h
  refine .intro (declared.cons_cons f) ?_ (by simp [named]) ?_ ?_
  · intro g hg hreq
    rcases List.mem_cons.mp hg with rfl | hg
    · exact List.mem_cons_self
    · exact List.mem_cons_of_mem _ (required g hg hreq)
  · intro hd
    rw [List.map_cons, List.nodup_cons] at hd
    rw [List.map_cons, List.nodup_cons]
    refine ⟨fun hm => hd.1 ?_, once hd.2⟩
    rw [named] at hm
    exact (declared.map _).subset hm
  · intro p hp
    rcases List.mem_cons.mp hp with rfl | hp
    · exact hv
    · exact fits p hp

private theorem fits_value {limit : Nat} (hl : limit = max s.maxArraySize.toNat 1) {t : FieldType}
    {v : Value} (ht : ∀ w, IsResult (element s now t) w → FitsElement limit now t w.json)
    (h : IsResult (value s now t) v) : Fits limit now t v.json := by
  cases ha : t.isArray with
  | true =>
    rw [value, if_pos ha] at h
    obtain ⟨vs, rfl, low, high, hvs⟩ := isResult_repeated h
    rw [Value.json, jsonItems_eq_map]
    refine .array ha (by rwa [List.length_map]) (by rwa [List.length_map, hl]) ?_
    intro w hw
    obtain ⟨u, hu, rfl⟩ := List.mem_map.mp hw
    exact ht u (hvs u hu)
  | false =>
    rw [value, ha] at h
    exact .single ha (ht v h)

theorem members_cons (name : String) (t : FieldType) (fields : List (String × FieldType)) :
    members s now ((name, t) :: fields) =
      (if t.isOptional then chance s.omitProbability else pure false) >>= fun omitted =>
        if omitted then members s now fields
        else value s now t >>= fun v => members s now fields >>= fun later =>
          pure ((name, v) :: later) := by
  rw [members]
  unfold value
  split <;> split <;> rfl

/-- A field is left out, which only an optional one can be, or has a value. -/
theorem isResult_members_cons {name : String} {t : FieldType} {fields : List (String × FieldType)}
    {ms : List (String × Value)} (h : IsResult (members s now ((name, t) :: fields)) ms) :
    (t.isOptional = true ∧ IsResult (members s now fields) ms) ∨
      ∃ v later, ms = (name, v) :: later ∧ IsResult (value s now t) v ∧
        IsResult (members s now fields) later := by
  rw [members_cons] at h
  obtain ⟨omitted, ho, h⟩ := isResult_bind h
  cases omitted with
  | true =>
    cases hreq : t.isOptional with
    | true => exact .inl ⟨rfl, h⟩
    | false =>
      rw [hreq] at ho
      cases isResult_pure ho
  | false =>
    obtain ⟨v, hv, h⟩ := isResult_bind h
    obtain ⟨later, hlater, rfl⟩ := isResult_return h
    exact .inr ⟨v, later, rfl, hv, hlater⟩

mutual

theorem fitsElement_of_isResult {t : FieldType} {v : Value} (h : IsResult (element s now t) v) :
    FitsElement (max s.maxArraySize.toNat 1) now t v.json := by
  match t, h with
  | ⟨.object, _, _, _, some fields⟩, h =>
    rw [element] at h
    obtain ⟨ms, hms, rfl⟩ := isResult_return h
    exact .object rfl rfl (fitsFields_of_isResult hms)
  | ⟨.object, _, _, _, none⟩, h => exact fitsElement_scalar (fun _ => rfl) h
  | ⟨.string, _, _, _, _⟩, h => exact fitsElement_scalar nofun h
  | ⟨.number, _, _, _, _⟩, h => exact fitsElement_scalar nofun h
  | ⟨.boolean, _, _, _, _⟩, h => exact fitsElement_scalar nofun h
  | ⟨.date, _, _, _, _⟩, h => exact fitsElement_scalar nofun h

private theorem fitsFields_of_isResult {fields : List (String × FieldType)}
    {ms : List (String × Value)}
    (h : IsResult (members s now fields) ms) :
    FitsFields (max s.maxArraySize.toNat 1) now fields (jsonMembers ms) := by
  match fields, h with
  | [], h =>
    rw [isResult_pure h]
    exact fitsFields_nil
  | (name, t) :: fields, h =>
    rcases isResult_members_cons h with ⟨ho, h⟩ | ⟨v, later, rfl, hv, h⟩
    · exact fitsFields_omitted ho (fitsFields_of_isResult h)
    · exact fitsFields_present (fits_value rfl (fun _ hw => fitsElement_of_isResult hw) hv)
        (fitsFields_of_isResult h)

end

end

/-- Objects in a list, a date, and fields that may be left out at two levels. -/
def orders : Interface :=
  ⟨"Orders",
    [("items", { kind := .object, isArray := true, members := some (
      [("id", { kind := .string, format := some .uuid }),
       ("note", { kind := .string, isOptional := true })]) }),
     ("at", { kind := .date }),
     ("count", { kind := .number, isOptional := true })]⟩

end MockServer.Mock
