import MockServer.Proofs.Interface.ModelJson
import MockServer.Proofs.Mock.Conformance
import MockServer.Proofs.Number.Order
import MockServer.Proofs.Random.Reach

/-!
The converse of conformance: where no texts are made up, each record that conforms to its interface
is generated from some words, also when every place of it is chosen on its own.
-/
namespace MockServer.Mock

open MockServer.Random MockServer.Time MockServer.Number

/-- Fields without strings, at every level of nesting. -/
inductive TextFree : Fields → Prop
  | intro {fields : Fields} (each : ∀ f ∈ fields, f.2.kind ≠ .string)
    (inner : ∀ f ∈ fields, f.2.kind = .object → ∀ members, f.2.members = some members →
      TextFree members) : TextFree fields

private theorem TextFree.tail {f : String × FieldType} {fields : Fields}
    (h : TextFree (f :: fields)) :
    TextFree fields := by
  obtain ⟨each, inner⟩ := h
  exact .intro (fun g hg => each g (List.mem_cons_of_mem f hg))
    fun g hg => inner g (List.mem_cons_of_mem f hg)

private theorem distinct_tail {f : String × FieldType} {fields : Fields}
    (h : Fields.Distinct (f :: fields)) : fields.Distinct := by
  obtain ⟨names, inner⟩ := h
  exact .intro (List.nodup_cons.mp names).2 fun g hg => inner g (List.mem_cons_of_mem f hg)

variable {s : GeneratorSettings} {now : Instant} {limit : Nat}

private theorem arrayLimit_sub_lt (s : GeneratorSettings) : s.arrayLimit - 1 < wordCount := by
  have := s.maxArraySize.toNat_lt
  unfold GeneratorSettings.arrayLimit wordCount
  omega

/-- Both ways of a field are open when its omission is neither certain nor impossible. -/
theorem reaches_omission (hlt : s.omitProbability.lt .one = true)
    (hpos : 1 ≤ s.omitProbability.scaledFloor 64) (b : Bool) :
    Reaches (chance s.omitProbability) b := by
  have hplace := (Binary64.lt_iff.mp hlt).2.2
  have hmagnitude := Binary64.magnitude_eq_place s.omitProbability_bounds.1
  have hone := Binary64.place_one
  refine reaches_chance hpos (Binary64.scaledFloor_lt (by omega)) ?_ b
  intro heq
  rw [heq] at hplace
  exact Int.lt_irrefl _ hplace

private theorem reaches_half (b : Bool) : Reaches (chance Binary64.half) b :=
  reaches_chance (by decide) (by decide) (by decide) b

/-- Some words give a value of this JSON form, and are all taken. -/
def Produces (draw : Draw Value) (j : Json.Value) : Prop :=
  ∃ v : Value, v.json = j ∧ Reaches draw v

/-- Values one by one make a list of them. -/
theorem exists_items_reached {draw : Draw Value} {js : List Json.Value}
    (h : ∀ j ∈ js, Produces draw j) :
    ∃ vs, jsonItems vs = js ∧ Reaches (times js.length draw) vs := by
  have hlist : ∃ vs : List Value, vs.map Value.json = js ∧ ∀ v ∈ vs, Reaches draw v := by
    induction js with
    | nil => exact ⟨[], rfl, by simp⟩
    | cons j js ih =>
      rw [List.forall_mem_cons] at h
      obtain ⟨v, hj, hv⟩ := h.1
      obtain ⟨vs, hjs, hvs⟩ := ih h.2
      refine ⟨v :: vs, ?_, List.forall_mem_cons.mpr ⟨hv, hvs⟩⟩
      rw [List.map_cons, hj, hjs]
  obtain ⟨vs, hjs, hvs⟩ := hlist
  refine ⟨vs, (jsonItems_eq_map vs).trans hjs, ?_⟩
  rw [← hjs, List.length_map]
  exact reaches_times hvs

section

variable [Phrasebook]

private theorem fitsElement_object {t : FieldType} {j : Json.Value} {fields : Fields}
    (h : FitsElement limit now t j) (hk : t.kind = .object) (hm : t.members = some fields) :
    ∃ ms, j = .object ms ∧ FitsFields limit now fields ms := by
  cases h with
  | number kind | boolean kind | date kind | uuid kind | words kind | sample kind =>
    rw [hk] at kind
    cases kind
  | bare kind members =>
    rw [hm] at members
    cases members
  | object kind members fits =>
    rw [hm] at members
    cases members
    exact ⟨_, rfl, fits⟩

/-- What conforms to a field that is declared once either leaves it out or begins with it. -/
theorem fitsFields_cons {name : String} {t : FieldType} {fields : Fields}
    {ms : List (String × Json.Value)} (hnames : (((name, t) :: fields).map (·.1)).Nodup)
    (h : FitsFields limit now ((name, t) :: fields) ms) :
    (t.isOptional = true ∧ FitsFields limit now fields ms) ∨
      ∃ j later, ms = (name, j) :: later ∧ Fits limit now t j ∧
        FitsFields limit now fields later := by
  rw [List.map_cons, List.nodup_cons] at hnames
  have hfresh : (name, t) ∉ fields := fun hmem => hnames.1 (List.mem_map_of_mem hmem)
  obtain ⟨declared, required, named, -, fits⟩ := h
  -- The names of the object are those of the kept fields, so they are distinct as well.
  have honce {kept : Fields} {ms : List (String × Json.Value)} (hkept : kept.Sublist fields)
      (hms : ms.map (·.1) = kept.map (·.1)) : (ms.map (·.1)).Nodup :=
    hms ▸ (hkept.map _).nodup hnames.2
  cases declared with
  | cons _ declared =>
    refine .inl ⟨?_, .intro declared (fun g hg => required g (List.mem_cons_of_mem _ hg)) named
      (fun _ => honce declared named) fits⟩
    cases hoptional : t.isOptional with
    | true => rfl
    | false =>
      have hkept := required (name, t) List.mem_cons_self hoptional
      exact absurd (declared.subset hkept) hfresh
  | cons_cons _ declared =>
    cases ms with
    | nil => cases named
    | cons m later =>
      obtain ⟨key, j⟩ := m
      rw [List.map_cons, List.map_cons, List.cons.injEq] at named
      obtain ⟨rfl, hlater⟩ := named
      rw [List.zip_cons_cons, List.forall_mem_cons] at fits
      refine .inr ⟨j, later, rfl, fits.1, .intro declared ?_ hlater
        (fun _ => honce declared hlater) fits.2⟩
      intro g hg hrequired
      rcases List.mem_cons.mp (required g (List.mem_cons_of_mem _ hg) hrequired) with rfl | hkept
      · exact absurd hg hfresh
      · exact hkept

private theorem produces_scalar {t : FieldType} {j : Json.Value} (hk : t.kind ≠ .string)
    (hm : t.kind = .object → t.members = none) (h : FitsElement limit now t j) :
    Produces (scalar now t.kind t.format) j := by
  cases h with
  | @number _ n kind low high =>
    have hn : (n.toNat : Int) = n := Int.toNat_of_nonneg (by omega)
    rw [kind]
    refine ⟨.number n.toNat, by rw [Value.json, hn], ?_⟩
    exact (reaches_between (by omega) (by omega) (by decide)).map Value.number
  | boolean kind b =>
    rw [kind]
    exact ⟨.boolean b, rfl, (reaches_half b).map Value.boolean⟩
  | @date _ seconds kind recent =>
    rw [kind]
    refine ⟨.date (now.addSeconds (-seconds)), rfl, ?_⟩
    exact (reaches_below recent (by decide)).map fun n => Value.date (now.addSeconds (-n))
  | uuid kind | words kind | sample kind => exact absurd kind hk
  | bare kind =>
    rw [kind]
    exact ⟨.object [], rfl, reaches_pure _⟩
  | object kind members =>
    rw [hm kind] at members
    cases members

private theorem produces_value {t : FieldType} {j : Json.Value}
    (ht : ∀ j, FitsElement s.arrayLimit now t j → Produces (element s now t) j)
    (h : Fits s.arrayLimit now t j) : Produces (value s now t) j := by
  cases h with
  | single one fits =>
    rw [value, one]
    exact ht j fits
  | @array _ js many low high fits =>
    obtain ⟨vs, hjs, hvs⟩ := exists_items_reached fun j hj => ht j (fits j hj)
    refine ⟨.array vs, by rw [Value.json, hjs], ?_⟩
    rw [value, if_pos many]
    exact (reaches_between low high (arrayLimit_sub_lt s)).bind (hvs.map Value.array)

private theorem reaches_members_omitted {name : String} {t : FieldType} {fields : Fields}
    {ms : List (String × Value)} (ho : ∀ b, Reaches (chance s.omitProbability) b)
    (ht : t.isOptional = true) (h : Reaches (members s now fields) ms) :
    Reaches (members s now ((name, t) :: fields)) ms := by
  rw [members_cons, if_pos ht]
  exact (ho true).bind h

private theorem reaches_members_present {name : String} {t : FieldType} {fields : Fields}
    {v : Value}
    {ms : List (String × Value)} (ho : ∀ b, Reaches (chance s.omitProbability) b)
    (hv : Reaches (value s now t) v) (h : Reaches (members s now fields) ms) :
    Reaches (members s now ((name, t) :: fields)) ((name, v) :: ms) := by
  have homitted :
      Reaches (if t.isOptional then chance s.omitProbability else pure false) false := by
    split
    · exact ho false
    · exact reaches_pure false
  rw [members_cons]
  exact homitted.bind (hv.bind (h.map _))

mutual

private theorem produces_element (ho : ∀ b, Reaches (chance s.omitProbability) b) {t : FieldType}
    {j : Json.Value} (hk : t.kind ≠ .string)
    (hfree : t.kind = .object → ∀ members, t.members = some members → TextFree members)
    (hdistinct : ∀ members, t.members = some members → Fields.Distinct members)
    (h : FitsElement s.arrayLimit now t j) : Produces (element s now t) j := by
  match t with
  | ⟨.object, _, _, _, some fields⟩ =>
    obtain ⟨ms, rfl, hms⟩ := fitsElement_object h rfl rfl
    obtain ⟨vs, rfl, hvs⟩ :=
      exists_members_reached ho (hfree rfl fields rfl) (hdistinct fields rfl) hms
    refine ⟨.object vs, rfl, ?_⟩
    rw [element]
    exact hvs.map Value.object
  | ⟨.object, _, _, _, none⟩ => exact produces_scalar hk (fun _ => rfl) h
  | ⟨.string, _, _, _, _⟩ => exact absurd rfl hk
  | ⟨.number, _, _, _, _⟩ => exact produces_scalar hk nofun h
  | ⟨.boolean, _, _, _, _⟩ => exact produces_scalar hk nofun h
  | ⟨.date, _, _, _, _⟩ => exact produces_scalar hk nofun h

private theorem exists_members_reached (ho : ∀ b, Reaches (chance s.omitProbability) b)
    {fields : Fields}
    {ms : List (String × Json.Value)} (hfree : TextFree fields) (hdistinct : fields.Distinct)
    (h : FitsFields s.arrayLimit now fields ms) :
    ∃ vs, jsonMembers vs = ms ∧ Reaches (members s now fields) vs := by
  match fields with
  | [] =>
    obtain ⟨declared, -, named, -, -⟩ := h
    rw [List.sublist_nil.mp declared, List.map_nil, List.map_eq_nil_iff] at named
    exact ⟨[], named.symm, reaches_pure []⟩
  | (name, t) :: fields =>
    have hfields {ms : List (String × Json.Value)} (h : FitsFields s.arrayLimit now fields ms) :
        ∃ vs, jsonMembers vs = ms ∧ Reaches (members s now fields) vs :=
      exists_members_reached ho hfree.tail (distinct_tail hdistinct) h
    obtain ⟨each, innerFree⟩ := hfree
    obtain ⟨names, innerDistinct⟩ := hdistinct
    rcases fitsFields_cons names h with ⟨hoptional, h⟩ | ⟨j, later, rfl, hj, hlater⟩
    · obtain ⟨vs, hms, hvs⟩ := hfields h
      exact ⟨vs, hms, reaches_members_omitted ho hoptional hvs⟩
    · obtain ⟨vs, rfl, hvs⟩ := hfields hlater
      obtain ⟨v, rfl, hv⟩ := produces_value (fun _ hw => produces_element ho
        (each _ List.mem_cons_self) (innerFree _ List.mem_cons_self)
        (innerDistinct _ List.mem_cons_self) hw) hj
      exact ⟨(name, v) :: vs, rfl, reaches_members_present ho hv hvs⟩

end

/-- Every object that conforms to an interface without strings is the record of some words, which
are all taken and the only ones that are looked at. -/
theorem conforming_record_reached {i : Interface} (hdistinct : i.fields.Distinct)
    (hfree : TextFree i.fields) (hlt : s.omitProbability.lt .one = true)
    (hpos : 1 ≤ s.omitProbability.scaledFloor 64) {ms : List (String × Json.Value)}
    (h : FitsFields (max s.maxArraySize.toNat 1) now i.fields ms) :
    ∃ words v, (∀ more, record s now i (words ++ more) = some (v, more)) ∧ v.json = .object ms := by
  obtain ⟨vs, rfl, hvs⟩ := exists_members_reached (reaches_omission hlt hpos) hfree hdistinct h
  obtain ⟨words, hwords⟩ := hvs.map Value.object
  exact ⟨words, .object vs, hwords, rfl⟩

end

/-- A stop of a tour, with a list of visits that may be missing. -/
def stop : Fields :=
  [("rank", { kind := .number }), ("open", { kind := .boolean, isOptional := true }),
   ("visits", { kind := .date, isArray := true, isOptional := true })]

def tour : Interface :=
  ⟨"Tour", [("stops", { kind := .object, isArray := true, members := some stop }),
    ("total", { kind := .number, isOptional := true })]⟩

/-- The oldest date of a generated record. -/
def oldest (now : Instant) : Json.Value :=
  .string (String.ofList (Rfc3339.writeMillis (now.addSeconds (-(31535999 : Nat)))))

/-- Stops that leave out different fields. -/
def stops (now : Instant) : List Json.Value :=
  [.object [("rank", .int 1000), ("open", .bool false)],
   .object [("rank", .int 1), ("visits", .array [oldest now])]]

private theorem tour_distinct : tour.fields.Distinct := by
  refine .intro (by decide) fun f hf members hmembers => ?_
  rcases List.mem_pair.mp hf with rfl | rfl
  · cases hmembers
    exact .intro (by decide) (by simp [stop])
  · cases hmembers

private theorem tour_textFree : TextFree tour.fields := by
  refine .intro (by decide) fun f hf hobject members hmembers => ?_
  rcases List.mem_pair.mp hf with rfl | rfl
  · cases hmembers
    exact .intro (by decide) (by simp [stop])
  · cases hobject

private theorem fitsFields_stops [Phrasebook] (now : Instant) :
    FitsFields 3 now tour.fields [("stops", .array (stops now))] := by
  have hfirst : FitsFields 3 now stop [("rank", .int 1000), ("open", .bool false)] := by
    refine fitsFields_present (.single rfl (.number rfl (by decide) (by decide))) ?_
    refine fitsFields_present (.single rfl (.boolean rfl false)) ?_
    exact fitsFields_omitted rfl fitsFields_nil
  have hsecond : FitsFields 3 now stop [("rank", .int 1), ("visits", .array [oldest now])] := by
    refine fitsFields_present (.single rfl (.number rfl (by decide) (by decide))) ?_
    refine fitsFields_omitted rfl (fitsFields_present (.array rfl (by simp) (by simp) ?_) ?_)
    · exact List.forall_mem_singleton.mpr (.date rfl (by decide))
    · exact fitsFields_nil
  refine fitsFields_present (.array rfl (by simp [stops]) (by simp [stops]) ?_) ?_
  · exact List.forall_mem_cons.mpr ⟨.object rfl rfl hfirst,
      List.forall_mem_singleton.mpr (.object rfl rfl hsecond)⟩
  · exact fitsFields_omitted rfl fitsFields_nil

/-- A tour under the settings that hold where none are given. -/
theorem tour_reached :
    ∃ words v, (∀ more, record {} ⟨0, 0⟩ tour (words ++ more) = some (v, more)) ∧
      v.json = .object [("stops", .array (stops ⟨0, 0⟩))] :=
  conforming_record_reached tour_distinct tour_textFree (by decide) (by decide)
    (fitsFields_stops ⟨0, 0⟩)

end MockServer.Mock
