import MockServer.Proofs.Mock.Completion
import MockServer.Proofs.Project.Run

/-!
What is stored of a project is what was written last. A field that a revision does not give keeps
the value of an earlier call, and mock data has the shape of the last interface text.
-/
namespace MockServer

open MockServer.Time

/-- The values that a call gives to the fields of a project, if it gives them. -/
structure Written where
  name : Option String
  description : Option (Option String)
  interfaceCode : Option String
  method : Option Method
  expectedStatusCodes : Option (List UInt16)

/-- A draft gives every field, with a default for what the client leaves out. -/
def Draft.written (d : Draft) : Written where
  name := some d.name
  description := some d.description
  interfaceCode := some d.interfaceCode
  method := some (d.method.getD .get)
  expectedStatusCodes := some (d.expectedStatusCodes.getD [200])

/-- A revision gives the fields that the client gives. -/
def Revision.written (u : Revision) : Written where
  name := u.name
  description := u.description.map some
  interfaceCode := u.interfaceCode
  method := u.method
  expectedStatusCodes := u.expectedStatusCodes

/-- What an operation writes to the project of an id. Only a successful one writes. -/
def writtenBy (id : String) : Operation → Answer → Option Written
  | .create key draft, .created (.ok _) => if key = id then some draft.written else none
  | .update key revision, .updated (.ok (some _)) =>
    if key = id then some revision.written else none
  | _, _ => none

/-- The last value of a field. -/
def latest {α : Type} (ws : List Written) (field : Written → Option α) : Option α :=
  (ws.filterMap field).getLast?

/-- The project has the last value of every field. -/
structure Shows (ws : List Written) (p : Project) : Prop where
  name : latest ws (·.name) = some p.name
  description : latest ws (·.description) = some p.description
  interfaceCode : latest ws (·.interfaceCode) = some p.interfaceCode
  method : latest ws (·.method) = some p.method
  expectedStatusCodes : latest ws (·.expectedStatusCodes) = some p.expectedStatusCodes

private theorem writtenBy_of_quiet {answer : Answer} (h : answer.isChange = false) (id : String)
    (op : Operation) : writtenBy id op answer = none := by
  cases answer with
  | created result =>
    cases result with
    | error => cases op <;> rfl
    | ok => cases h
  | updated result =>
    cases result with
    | error => cases op <;> rfl
    | ok found =>
      cases found with
      | none => cases op <;> rfl
      | some => cases h
  | _ => cases op <;> rfl

private theorem latest_concat {α : Type} (ws : List Written) (w : Written)
    (field : Written → Option α) :
    latest (ws ++ [w]) field = (field w).or (latest ws field) := by
  rw [latest, List.filterMap_append, List.getLast?_append, latest]
  cases h : field w <;> simp [h]

private theorem shows_concat_draft (ws : List Written) (d : Draft) (settings : ProjectSettings)
    (now : Instant) (id : String) : Shows (ws ++ [d.written]) (d.project settings now id) := by
  constructor
  all_goals
    rw [latest_concat]
    rfl

private theorem Shows.concat_revision {ws : List Written} {p : Project} (h : Shows ws p)
    (u : Revision)
    (now : Instant) : Shows (ws ++ [u.written]) (u.apply now p) := by
  constructor
  · rw [latest_concat, h.name]
    cases hu : u.name <;> simp [Revision.written, Revision.apply, hu]
  · rw [latest_concat, h.description]
    cases hu : u.description <;> simp [Revision.written, Revision.apply, hu]
  · rw [latest_concat, h.interfaceCode]
    cases hu : u.interfaceCode <;> simp [Revision.written, Revision.apply, hu]
  · rw [latest_concat, h.method]
    cases hu : u.method <;> simp [Revision.written, Revision.apply, hu]
  · rw [latest_concat, h.expectedStatusCodes]
    cases hu : u.expectedStatusCodes <;> simp [Revision.written, Revision.apply, hu]

namespace Registry

variable {settings : ProjectSettings} {generator : GeneratorSettings}

/-- A call that changes a project writes what the project then shows. -/
theorem shows_of_change {r r' : Registry} {c : Call} {answer : Answer} {ws : String → List Written}
    (h : ∀ e ∈ r.entries, Shows (ws e.1) e.2) (hc : Change settings r c answer r') :
    ∀ e ∈ r'.entries, Shows (ws e.1 ++ (writtenBy e.1 c.operation answer).toList) e.2 := by
  intro e he
  cases hc with
  | none quiet =>
    rw [writtenBy_of_quiet quiet, Option.toList_none, List.append_nil]
    exact h e he
  | @created id draft p call prepared =>
    obtain ⟨-, rfl⟩ := Draft.prepare_eq_ok prepared
    rw [call]
    rcases mem_insert he with ⟨hne, he⟩ | rfl
    · rw [writtenBy, if_neg (Ne.symm hne), Option.toList_none, List.append_nil]
      exact h e he
    · rw [writtenBy, if_pos rfl]
      exact shows_concat_draft _ draft settings c.now id
  | @updated id revision p call =>
    rw [call]
    rcases mem_modify he with ⟨hne, he⟩ | ⟨q, hq, rfl⟩
    · rw [writtenBy, if_neg (Ne.symm hne), Option.toList_none, List.append_nil]
      exact h e he
    · rw [writtenBy, if_pos rfl]
      exact (h _ hq).concat_revision revision c.now
  | @deactivated id p call =>
    have hnone : writtenBy e.1 (.deactivate id) (.deactivated true) = none := rfl
    rw [call, hnone, Option.toList_none, List.append_nil]
    rcases mem_modify he with ⟨-, he⟩ | ⟨q, hq, rfl⟩
    · exact h e he
    · -- deactivation leaves the written fields alone
      obtain ⟨hname, hdescription, hcode, hmethod, hstatus⟩ := h _ hq
      exact ⟨hname, hdescription, hcode, hmethod, hstatus⟩
  | cleaned call =>
    have hnone (count : Nat) : writtenBy e.1 .cleanup (.removed count) = none := rfl
    rw [call, hnone, Option.toList_none, List.append_nil]
    exact h e (mem_cleanup he)

section

variable [book : Mock.Phrasebook] (settings generator)

/-- What calls write to the project of an id, in their order, from a registry on. -/
def writesFrom (id : String) : Registry → List Call → List Written
  | _, [] => []
  | r, c :: later =>
    (writtenBy id c.operation (r.perform settings generator c).1).toList ++
      writesFrom id (r.after settings generator c) later

def writes (calls : List Call) (id : String) : List Written :=
  writesFrom settings generator id {} calls

variable {settings generator}

private theorem writesFrom_concat (id : String) (r : Registry) (calls : List Call) (c : Call) :
    writesFrom settings generator id r (calls ++ [c]) =
      writesFrom settings generator id r calls ++ (writtenBy id c.operation
        ((calls.foldl (after settings generator) r).perform settings generator c).1).toList := by
  induction calls generalizing r with
  | nil => rw [List.nil_append, writesFrom, writesFrom, writesFrom, List.append_nil]; rfl
  | cons d calls ih =>
    rw [List.cons_append, writesFrom, writesFrom, ih, List.append_assoc, List.foldl_cons]

private theorem shows_run (calls : List Call) :
    ∀ e ∈ (run settings generator calls).entries,
      Shows (writes settings generator calls e.1) e.2 := by
  induction calls using List.reverseRecOn with
  | nil => exact fun e he => absurd he List.not_mem_nil
  | append_singleton past c ih =>
    intro e he
    rw [run_concat] at he
    rw [writes, writesFrom_concat]
    exact shows_of_change ih (change_after settings generator _ c) e he

/-- A live project has the last value of every field that was written to it, and what is generated
for it comes from the last interface text. -/
theorem last_write_wins (hb : book.Completes) {calls : List Call} {now : Instant} {id : String}
    {p : Project} (h : (run settings generator calls).get? now id = some p) :
    Shows (writes settings generator calls id) p ∧
    ∃ code, latest (writes settings generator calls id) (·.interfaceCode) = some code ∧
      (run settings generator calls).parsedInterface now id = .ok (Interface.parse code) ∧
      ∀ count,
        let drawn := (run settings generator calls).mockData generator now id count
        drawn = Mock.data generator now (Interface.parse code) count >>= (fun d => pure (.ok d)) ∧
        Random.Completes drawn ∧
        ∀ result, Random.IsResult drawn result → ∃ d, result = .ok d ∧
          Mock.IsAnswer generator now (Interface.parse code) count d := by
  have hfound : (run settings generator calls).find? id = some p :=
    (Option.filter_eq_some_iff.mp h).1
  have hshows : Shows (writes settings generator calls id) p :=
    shows_run calls _ (mem_of_find? hfound)
  have hparsed : (run settings generator calls).parsedInterface now id =
      .ok (Interface.parse p.interfaceCode) := by rw [parsedInterface, h]
  refine ⟨hshows, p.interfaceCode, hshows.interfaceCode, hparsed, fun count => ?_⟩
  have hdrawn : (run settings generator calls).mockData generator now id count =
      Mock.data generator now (Interface.parse p.interfaceCode) count >>=
        fun d => pure (.ok d) := by
    rw [mockData, hparsed]
  refine ⟨hdrawn, ?_, ?_⟩
  · rw [hdrawn]
    exact (Mock.completes_data hb _ count).map _
  · intro result hresult
    rw [hdrawn] at hresult
    obtain ⟨d, hd, rfl⟩ := Random.isResult_return hresult
    exact ⟨d, rfl, Mock.isAnswer_of_isResult hd⟩

end

/-- Two projects, of which one is revised three times. The second revision is refused for its
name. -/
def revisedRun : List Call :=
  [⟨⟨0, 0⟩, .create "a" { name := "A", description := some "first", interfaceCode := "a: number" }⟩,
   ⟨⟨1, 0⟩, .create "b" { name := "B", interfaceCode := "b: Date" }⟩,
   ⟨⟨2, 0⟩, .update "a" { interfaceCode := some "c: Date", method := some .post }⟩,
   ⟨⟨3, 0⟩, .update "a" { name := some " ", interfaceCode := some "d: email" }⟩,
   ⟨⟨4, 0⟩, .update "a" { name := some "Z" }⟩,
   ⟨⟨5, 0⟩, .deactivate "b"⟩,
   ⟨⟨6, 0⟩, .cleanup⟩]

theorem revisedRun_shows_last :
    ∃ p, (run {} {} revisedRun).get? ⟨7, 0⟩ "a" = some p ∧
      p.name = "Z" ∧ p.description = some "first" ∧ p.interfaceCode = "c: Date" ∧ p.method = .post ∧
      Shows (writes {} {} revisedRun "a") p ∧
      (run {} {} revisedRun).parsedInterface ⟨7, 0⟩ "a" = .ok (Interface.parse "c: Date") ∧
      ∀ count, Random.Completes ((run {} {} revisedRun).mockData {} ⟨7, 0⟩ "a" count) := by
  obtain ⟨p, hp, hname, hdescription, hcode, hmethod⟩ :
      ∃ p, (run {} {} revisedRun).get? ⟨7, 0⟩ "a" = some p ∧ p.name = "Z" ∧
        p.description = some "first" ∧ p.interfaceCode = "c: Date" ∧ p.method = .post :=
    ⟨_, rfl, rfl, rfl, rfl, rfl⟩
  obtain ⟨hshows, code, hlatest, hparsed, hdrawn⟩ := last_write_wins Mock.completes_samples hp
  obtain rfl : code = "c: Date" := by
    rw [hshows.interfaceCode, hcode] at hlatest
    exact (Option.some.inj hlatest).symm
  exact ⟨p, hp, hname, hdescription, hcode, hmethod, hshows, hparsed,
    fun count => (hdrawn count).2.1⟩

end Registry
end MockServer
