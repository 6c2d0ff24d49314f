import MockServer.Project.Json
import MockServer.Proofs.Json.Record
import MockServer.Proofs.Time.Rfc3339

/-!
Projects, drafts and revisions as JSON: each is read back from its text, whatever strings, numbers
and given or missing values it has. A missing value may be written as null or left out.
-/
namespace MockServer

open MockServer.Json

/-! Values -/

private theorem Method.find?_name (m : Method) :
    Method.names.find? (·.1 == m.name) = some (m.name, m) := by
  cases m <;> rfl

section

variable (room : Nat)

private theorem method_tree (m : Method) :
    Decoder.name Method.names room (jsonMethod m).tree = .ok m :=
  Decoder.name_tree m.find?_name room

private theorem statusCodes_tree (codes : List UInt16) :
    Decoder.list Decoder.uint16 (room + 1) (jsonStatusCodes codes).tree = .ok codes :=
  Decoder.list_tree (Decoder.uint16_tree room) codes

private theorem hours_tree (hours : UInt64) :
    Decoder.uint64 room (jsonHours hours).tree = .ok hours :=
  Decoder.uint64_tree room hours

private theorem instant_tree {t : Time.Instant} (h : t.IsPlain) :
    Time.Instant.decoder room t.json.tree = .ok t := by
  simp only [Time.Instant.decoder, Time.Instant.json, Decoder.string_tree, String.toList_ofList,
    Time.Rfc3339.read?_write h, bind, Except.bind]
  rfl

end

/-! Drafts and revisions -/

/-- The members of a request: the texts in whatever form they are given, and what a draft and a
revision write in the same way. -/
def requestMembers (name description interfaceCode : Option Json.Value) (method : Option Method)
    (codes : Option (List UInt16)) (hours : Option UInt64) : List (String × Option Json.Value) :=
  [("name", name), ("description", description), ("interface_code", interfaceCode),
   ("method", some (.orNull (method.map jsonMethod))),
   ("expected_status_codes", some (.orNull (codes.map jsonStatusCodes))),
   ("expiration_hours", some (.orNull (hours.map jsonHours)))]

section

variable (name description interfaceCode : Option Json.Value) (method : Option Method)
variable (codes : Option (List UInt16)) (hours : Option UInt64) (room : Nat)

private theorem nodup_requestMembers :
    ((requestMembers name description interfaceCode method codes hours).map (·.1)).Nodup := by
  simp [requestMembers]

/-- The record that a request is read as. -/
def requestRecord : Record :=
  ⟨room, Record.present (requestMembers name description interfaceCode method codes hours)⟩

private theorem read_requestMembers :
    Record.read requestKeys (room + 1) (Json.Value.ofMembers
      (requestMembers name description interfaceCode method codes hours)).tree =
        .ok (requestRecord name description interfaceCode method codes hours room) :=
  Record.read_ofMembers
    (nodup_requestMembers name description interfaceCode method codes hours) room

private theorem requestRecord_method :
    (requestRecord name description interfaceCode method codes hours room).optional "method"
      (Decoder.name Method.names) = .ok method :=
  Record.optional_of_writes (nodup_requestMembers _ _ _ _ _ _) (by simp [requestMembers])
    (writes_orNull jsonMethod method) nofun (method_tree room)

private theorem requestRecord_codes :
    (requestRecord name description interfaceCode method codes hours (room + 1)).optional
      "expected_status_codes" (Decoder.list Decoder.uint16) = .ok codes :=
  Record.optional_of_writes (nodup_requestMembers _ _ _ _ _ _) (by simp [requestMembers])
    (writes_orNull jsonStatusCodes codes) nofun (statusCodes_tree room)

private theorem requestRecord_hours :
    (requestRecord name description interfaceCode method codes hours room).optional
      "expiration_hours" Decoder.uint64 = .ok hours :=
  Record.optional_of_writes (nodup_requestMembers _ _ _ _ _ _) (by simp [requestMembers])
    (writes_orNull jsonHours hours) nofun (hours_tree room)

variable {name description interfaceCode}

/-- A text that may be missing. -/
theorem requestRecord_text (key : String) {s : Option String} {w : Option Json.Value}
    (hw : Writes .string s w)
    (hm : (key, w) ∈ requestMembers name description interfaceCode method codes hours) :
    (requestRecord name description interfaceCode method codes hours room).optional key
      Decoder.string = .ok s :=
  Record.optional_of_writes (nodup_requestMembers _ _ _ _ _ _) hm hw nofun
    (Decoder.string_tree room)

end

namespace Draft

/-- The members of the JSON form around one form of the description. -/
def jsonMembers (d : Draft) (description : Option Json.Value) : List (String × Option Json.Value) :=
  requestMembers (some (.string d.name)) description (some (.string d.interfaceCode)) d.method
    d.expectedStatusCodes d.expirationHours

private theorem json_eq (d : Draft) :
    d.json = .ofMembers (d.jsonMembers (some (.orNull (d.description.map .string)))) := rfl

private theorem nodup_jsonMembers (d : Draft) (description : Option Json.Value) :
    ((d.jsonMembers description).map (·.1)).Nodup :=
  nodup_requestMembers _ _ _ _ _ _

/-- A text of a draft is always written. -/
theorem record_text (d : Draft) {description : Option Json.Value} {key s : String}
    (hm : (key, some (.string s)) ∈ d.jsonMembers description) (room : Nat) :
    (⟨room, Record.present (d.jsonMembers description)⟩ : Record).withDefault key
      Decoder.string "" = .ok s := by
  rw [Record.withDefault_present (d.nodup_jsonMembers description) hm, Decoder.string_tree]

private theorem decoder_members (d : Draft) {description : Option Json.Value}
    (h : Writes .string d.description description) (room : Nat) :
    decoder (room + 2) (Json.Value.ofMembers (d.jsonMembers description)).tree = .ok d := by
  have hnameMember : ("name", some (.string d.name)) ∈ d.jsonMembers description := by
    simp [jsonMembers, requestMembers]
  have hcodeMember : ("interface_code", some (.string d.interfaceCode)) ∈
      d.jsonMembers description := by
    simp [jsonMembers, requestMembers]
  have hname := d.record_text hnameMember (room + 1)
  have hcode := d.record_text hcodeMember (room + 1)
  rw [jsonMembers] at hname hcode ⊢
  rw [← requestRecord] at hname hcode
  simp only [decoder, read_requestMembers, hname, hcode, requestRecord_method,
    requestRecord_codes, requestRecord_hours, bind, Except.bind]
  rw [requestRecord_text _ _ _ _ "description" h (by simp [requestMembers])]
  rfl

end Draft

namespace Revision

/-- The members of the JSON form around one form of the description. -/
def jsonMembers (u : Revision) (description : Option Json.Value) :
    List (String × Option Json.Value) :=
  requestMembers (some (.orNull (u.name.map .string))) description
    (some (.orNull (u.interfaceCode.map .string))) u.method u.expectedStatusCodes u.expirationHours

private theorem json_eq (u : Revision) :
    u.json = .ofMembers (u.jsonMembers (some (.orNull (u.description.map .string)))) := rfl

private theorem decoder_members (u : Revision) {description : Option Json.Value}
    (h : Writes .string u.description description) (room : Nat) :
    decoder (room + 2) (Json.Value.ofMembers (u.jsonMembers description)).tree = .ok u := by
  have hname := writes_orNull Json.Value.string u.name
  have hcode := writes_orNull Json.Value.string u.interfaceCode
  simp only [decoder, jsonMembers, read_requestMembers, requestRecord_method,
    requestRecord_codes, requestRecord_hours, bind, Except.bind]
  rw [requestRecord_text _ _ _ _ "name" hname (by simp [requestMembers]),
    requestRecord_text _ _ _ _ "description" h (by simp [requestMembers]),
    requestRecord_text _ _ _ _ "interface_code" hcode (by simp [requestMembers])]
  rfl

end Revision

/-! Projects -/

namespace Project

/-- All instants of the project are plain. -/
structure IsPlain (p : Project) : Prop where
  expiresAt : p.expiresAt.IsPlain
  createdAt : p.createdAt.IsPlain
  updatedAt : p.updatedAt.IsPlain

/-- The members of the JSON form around one form of the description. -/
def jsonMembers (p : Project) (description : Option Json.Value) :
    List (String × Option Json.Value) :=
  [("id", some (.string p.id)), ("name", some (.string p.name)), ("description", description),
   ("interface_code", some (.string p.interfaceCode)), ("endpoint", some (.string p.endpoint)),
   ("url", some (.string p.url)), ("method", some (jsonMethod p.method)),
   ("expected_status_codes", some (jsonStatusCodes p.expectedStatusCodes)),
   ("expires_at", some p.expiresAt.json), ("created_at", some p.createdAt.json),
   ("updated_at", some p.updatedAt.json), ("is_active", some (.bool p.isActive))]

private theorem json_eq (p : Project) :
    p.json = .ofMembers (p.jsonMembers (p.description.map .string)) := rfl

private theorem nodup_jsonMembers (p : Project) (description : Option Json.Value) :
    ((p.jsonMembers description).map (·.1)).Nodup := by
  simp [jsonMembers]

/-- The record that the JSON form of a project is read as. -/
def record (p : Project) (description : Option Json.Value) (room : Nat) : Record :=
  ⟨room, Record.present (p.jsonMembers description)⟩

section

variable (p : Project) {description : Option Json.Value} (room : Nat)

/-- A member that is always written is read by its own decoder. -/
theorem record_required {α : Type} {key : String} {v : Json.Value} {d : Decoder α} {a : α}
    (hm : (key, some v) ∈ p.jsonMembers description) (hread : d room v.tree = .ok a) :
    (p.record description room).required key d = .ok a := by
  rw [record, Record.required_present (p.nodup_jsonMembers description) hm, hread]

private theorem record_description (h : Writes .string p.description description) :
    (p.record description room).optional "description" Decoder.string = .ok p.description :=
  Record.optional_of_writes (p.nodup_jsonMembers description) (by simp [jsonMembers]) h nofun
    (Decoder.string_tree room)

end

private theorem decoder_members (p : Project) (hplain : p.IsPlain) {description : Option Json.Value}
    (h : Writes .string p.description description) (room : Nat) :
    decoder (room + 2) (Json.Value.ofMembers (p.jsonMembers description)).tree = .ok p := by
  have hread : Record.read
      ["id", "name", "description", "interface_code", "endpoint", "url", "method",
        "expected_status_codes", "expires_at", "created_at", "updated_at", "is_active"] (room + 2)
      (Json.Value.ofMembers (p.jsonMembers description)).tree =
        .ok (p.record description (room + 1)) :=
    Record.read_ofMembers (p.nodup_jsonMembers description) (room + 1)
  have htext (key s : String) (hm : (key, some (.string s)) ∈ p.jsonMembers description) :
      (p.record description (room + 1)).required key Decoder.string = .ok s :=
    p.record_required (room + 1) hm (Decoder.string_tree (room + 1) s)
  have hinstant (key : String) {t : Time.Instant} (ht : t.IsPlain)
      (hm : (key, some t.json) ∈ p.jsonMembers description) :
      (p.record description (room + 1)).required key Time.Instant.decoder = .ok t :=
    p.record_required (room + 1) hm (instant_tree (room + 1) ht)
  have hmethod : (p.record description (room + 1)).required "method" (Decoder.name Method.names) =
      .ok p.method :=
    p.record_required (room + 1) (by simp [jsonMembers]) (method_tree (room + 1) p.method)
  have hcodes : (p.record description (room + 1)).required "expected_status_codes"
      (Decoder.list Decoder.uint16) = .ok p.expectedStatusCodes :=
    p.record_required (room + 1) (by simp [jsonMembers])
      (statusCodes_tree room p.expectedStatusCodes)
  have hactive : (p.record description (room + 1)).required "is_active" Decoder.bool =
      .ok p.isActive :=
    p.record_required (room + 1) (v := .bool p.isActive) (by simp [jsonMembers]) rfl
  simp only [decoder, hread, p.record_description (room + 1) h, hmethod, hcodes, hactive,
    htext "id" p.id (by simp [jsonMembers]), htext "name" p.name (by simp [jsonMembers]),
    htext "interface_code" p.interfaceCode (by simp [jsonMembers]),
    htext "endpoint" p.endpoint (by simp [jsonMembers]), htext "url" p.url (by simp [jsonMembers]),
    hinstant "expires_at" hplain.expiresAt (by simp [jsonMembers]),
    hinstant "created_at" hplain.createdAt (by simp [jsonMembers]),
    hinstant "updated_at" hplain.updatedAt (by simp [jsonMembers]), bind, Except.bind]
  rfl

end Project

/-! Texts -/

/-- The text of a JSON form is decoded as a value. -/
def ReadsBack {α : Type} (decoder : Decoder α) (form : Json.Value) (a : α) : Prop :=
  decode decoder (.ofText form.text.toList) = .ok a

private theorem readsBack_of_tree {α : Type} {decoder : Decoder α} {form : Json.Value} {a : α}
    (h : decoder maxDepth form.tree = .ok a) : ReadsBack decoder form a := by
  rw [ReadsBack, Json.Value.text, String.toList_ofList, decode, Tree.read?_write]
  exact h

private theorem Draft.readsBack (d : Draft) {description : Option Json.Value}
    (h : Writes .string d.description description) :
    ReadsBack Draft.decoder (.ofMembers (d.jsonMembers description)) d :=
  readsBack_of_tree (d.decoder_members h 125)

private theorem Revision.readsBack (u : Revision) {description : Option Json.Value}
    (h : Writes .string u.description description) :
    ReadsBack Revision.decoder (.ofMembers (u.jsonMembers description)) u :=
  readsBack_of_tree (u.decoder_members h 125)

private theorem Project.readsBack (p : Project) (hplain : p.IsPlain)
    {description : Option Json.Value}
    (h : Writes .string p.description description) :
    ReadsBack Project.decoder (.ofMembers (p.jsonMembers description)) p :=
  readsBack_of_tree (p.decoder_members hplain h 125)

/-- Every draft and every revision is read back from its text, and every project whose instants lie
in the years 0 to 9999. A description that is left out and one that is null are no description. -/
theorem records_read_back :
    (∀ d : Draft, ReadsBack Draft.decoder d.json d) ∧
      (∀ u : Revision, ReadsBack Revision.decoder u.json u) ∧
      (∀ p : Project, p.IsPlain → ReadsBack Project.decoder p.json p) ∧
      ∀ unset ∈ [none, some Json.Value.null],
        (∀ d : Draft, ReadsBack Draft.decoder (.ofMembers (d.jsonMembers unset))
          { d with description := none }) ∧
        (∀ u : Revision, ReadsBack Revision.decoder (.ofMembers (u.jsonMembers unset))
          { u with description := none }) ∧
        (∀ p : Project, p.IsPlain → ReadsBack Project.decoder (.ofMembers (p.jsonMembers unset))
          { p with description := none }) := by
  refine ⟨fun d => ?_, fun u => ?_, fun p hplain => ?_, fun unset hunset => ?_⟩
  · rw [d.json_eq]
    exact d.readsBack (writes_orNull _ d.description)
  · rw [u.json_eq]
    exact u.readsBack (writes_orNull _ u.description)
  · rw [p.json_eq]
    exact p.readsBack hplain (writes_map _ p.description)
  · have hwrites : Writes Json.Value.string none unset := by
      rcases List.mem_pair.mp hunset with rfl | rfl
      · exact .absent
      · exact .null
    refine ⟨fun d => ?_, fun u => ?_, fun p hplain => ?_⟩
    · exact Draft.readsBack { d with description := none } hwrites
    · exact Revision.readsBack { u with description := none } hwrites
    · exact Project.readsBack { p with description := none }
        ⟨hplain.expiresAt, hplain.createdAt, hplain.updatedAt⟩ hwrites

/-- A project from the first second of the year 0 to the last nanosecond of the year 9999, changed
on a leap day, with texts that need every kind of escape. -/
def endsOfTime : Project where
  id := ""
  name := "\"\\/\x01\t\x7f"
  description := some "é\u2028😀"
  interfaceCode := "interface A \x7b\r\n\x7d"
  endpoint := "/api/mock/"
  url := "http://localhost:3000/api/mock/"
  method := .patch
  expectedStatusCodes := [0, 200, 65535]
  expiresAt := ⟨253402300799, 999999999⟩
  createdAt := ⟨-62167219200, 0⟩
  updatedAt := ⟨951868799, 1000000⟩
  isActive := false

theorem endsOfTime_reads_back :
    endsOfTime.IsPlain ∧
      [endsOfTime.createdAt, endsOfTime.updatedAt, endsOfTime.expiresAt].map
          (String.ofList <| Time.Rfc3339.write ·) =
        ["0000-01-01T00:00:00Z", "2000-02-29T23:59:59.001Z", "9999-12-31T23:59:59.999999999Z"] ∧
      ReadsBack Project.decoder endsOfTime.json endsOfTime ∧
      ReadsBack Project.decoder (.ofMembers (endsOfTime.jsonMembers (some .null)))
        { endsOfTime with description := none } := by
  have hplain : endsOfTime.IsPlain := by
    refine ⟨?_, ?_, ?_⟩ <;> exact ⟨by decide, by decide⟩
  obtain ⟨-, -, hproject, hunset⟩ := records_read_back
  refine ⟨hplain, by decide +kernel, hproject endsOfTime hplain, ?_⟩
  exact (hunset (some .null) (by simp)).2.2 endsOfTime hplain

end MockServer
