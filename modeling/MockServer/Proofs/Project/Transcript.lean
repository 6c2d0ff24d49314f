import Mathlib.Data.List.Pairwise
import MockServer.Proofs.Project.Run

/-!
What a run shows: its calls with their answers, and the ids that they concern. Entries are stored
under the id of their project, which is one that a call has brought.
-/
namespace MockServer

namespace Operation

/-- The id of the project that an operation is about. Cleanups, lists and counts are about all. -/
def id? : Operation → Option String
  | .create id _ | .update id _ | .deactivate id => some id
  | .get id | .parsedInterface id | .mockData id _ _ => some id
  | .cleanup | .list | .stats => none

/-- The id that a new project is to have. -/
def newId? : Operation → Option String
  | .create id _ => some id
  | _ => none

/-- The id of a project that an operation is to make or change. -/
def writtenId? : Operation → Option String
  | .create id _ | .update id _ | .deactivate id => some id
  | _ => none

theorem writtenId?_of_newId? {op : Operation} {id : String} (h : op.newId? = some id) :
    op.writtenId? = some id := by
  cases op with
  | create => exact h
  | _ => cases h

theorem id?_of_writtenId? {op : Operation} {id : String} (h : op.writtenId? = some id) :
    op.id? = some id := by
  cases op with
  | create | update | deactivate => exact h
  | _ => cases h

theorem writtenId?_of_id? {op : Operation} (h : op.id? = none) : op.writtenId? = none := by
  cases op with
  | create | update | deactivate => cases h
  | _ => rfl

end Operation

namespace Registry

/-- The ids for new projects, in the order of the calls. -/
def newIds (calls : List Call) : List String := calls.filterMap fun c => c.operation.newId?

/-- No id is brought twice. -/
def Fresh (calls : List Call) : Prop := (newIds calls).Nodup

variable {settings : ProjectSettings} {generator : GeneratorSettings}

/-- Every entry is stored under the id of its project. -/
def Labelled (r : Registry) : Prop := ∀ e ∈ r.entries, e.2.id = e.1

/-- Where an entry after a call is from: it was there before, the call has brought it, or the call
has revised or deactivated the one that was there. -/
inductive Origin (r : Registry) (c : Call) (e : String × Project) : Prop where
  | kept (before : e ∈ r.entries)
  | made (new : c.operation.newId? = some e.1) (labelled : e.2.id = e.1)
  | changed {p : Project} (written : c.operation.writtenId? = some e.1)
      (before : (e.1, p) ∈ r.entries) (same : e.2.id = p.id)
      (active : e.2.isActive = true → p.isActive = true)

theorem Change.origin {r r' : Registry} {c : Call} {answer : Answer} {e : String × Project}
    (hc : Change settings r c answer r') (he : e ∈ r'.entries) : Origin r c e := by
  cases hc with
  | none => exact .kept he
  | created call prepared =>
    obtain ⟨-, rfl⟩ := Draft.prepare_eq_ok prepared
    rcases mem_insert he with ⟨-, he⟩ | rfl
    · exact .kept he
    · exact .made (by rw [call]; rfl) rfl
  | updated call =>
    rcases mem_modify he with ⟨-, he⟩ | ⟨p, hp, rfl⟩
    · exact .kept he
    · exact .changed (by rw [call]; rfl) hp rfl fun h => h
  | deactivated call =>
    rcases mem_modify he with ⟨-, he⟩ | ⟨p, hp, rfl⟩
    · exact .kept he
    · exact .changed (by rw [call]; rfl) hp rfl nofun
  | cleaned => exact .kept (mem_cleanup he)

theorem Labelled.change {r r' : Registry} {c : Call} {answer : Answer} (h : r.Labelled)
    (hc : Change settings r c answer r') : r'.Labelled := by
  intro e he
  cases hc.origin he with
  | kept before => exact h e before
  | made _ labelled => exact labelled
  | changed _ before same => exact same.trans (h _ before)

/-- A change stores under no id but those that were there or that the call has brought. -/
theorem key_of_change {r r' : Registry} {c : Call} {answer : Answer} {id : String}
    (hc : Change settings r c answer r') (h : id ∈ r'.entries.map (·.1)) :
    id ∈ r.entries.map (·.1) ∨ c.operation.newId? = some id := by
  obtain ⟨e, he, rfl⟩ := List.mem_map.mp h
  cases hc.origin he with
  | kept before => exact .inl (List.mem_map_of_mem before)
  | made new => exact .inr new
  | changed _ before => exact .inl (List.mem_map_of_mem (f := (·.1)) before)

private theorem newIds_concat (calls : List Call) (c : Call) :
    newIds (calls ++ [c]) = newIds calls ++ c.operation.newId?.toList := by
  rw [newIds, List.filterMap_append, newIds]
  cases h : c.operation.newId? <;> simp [h]

section

variable [Mock.Phrasebook]

theorem labelled_run (calls : List Call) : (run settings generator calls).Labelled :=
  run_induction (motive := fun _ r => r.Labelled) (fun _ he => absurd he List.not_mem_nil)
    Labelled.change calls

private theorem mem_newIds_of_mem_run {calls : List Call} {id : String}
    (h : id ∈ (run settings generator calls).entries.map (·.1)) : id ∈ newIds calls := by
  refine run_induction (motive := fun calls r => id ∈ r.entries.map (·.1) → id ∈ newIds calls)
    (fun h => absurd h List.not_mem_nil) ?_ calls h
  intro past r c answer r' ih hc h
  rw [newIds_concat, List.mem_append]
  exact (key_of_change hc h).imp ih Option.mem_toList.mpr

/-- An id that is stored is not brought again. -/
theorem Fresh.newId?_ne {past later : List Call} (h : Fresh (past ++ later)) {id : String}
    (hid : ((run settings generator past).find? id).isSome) {c : Call} (hc : c ∈ later) :
    c.operation.newId? ≠ some id := by
  intro hnew
  obtain ⟨p, hp⟩ := Option.isSome_iff_exists.mp hid
  have hpast : id ∈ newIds past :=
    mem_newIds_of_mem_run (List.mem_map_of_mem (f := (·.1)) (mem_of_find? hp))
  have hlater : id ∈ newIds later := List.mem_filterMap.mpr ⟨c, hc, hnew⟩
  rw [Fresh, newIds, List.filterMap_append] at h
  exact (List.nodup_append.mp h).2.2 id hpast id hlater rfl

variable (settings generator)

/-- Calls from a registry on, each with its answer. -/
def transcript : Registry → List Call → List (Call × Answer)
  | _, [] => []
  | r, c :: later =>
    (c, (r.perform settings generator c).1) :: transcript (r.after settings generator c) later

private theorem map_transcript (r : Registry) (calls : List Call) :
    (transcript settings generator r calls).map (·.1) = calls := by
  induction calls generalizing r with
  | nil => rfl
  | cons c later ih => rw [transcript, List.map_cons, ih]

variable {settings generator}

/-- A fresh id is brought by one call only. -/
theorem Fresh.eq_of_newId? {calls : List Call} (h : Fresh calls) {r : Registry}
    {e f : Call × Answer} (he : e ∈ transcript settings generator r calls)
    (hf : f ∈ transcript settings generator r calls) {id : String}
    (heid : e.1.operation.newId? = some id) (hfid : f.1.operation.newId? = some id) : e = f := by
  rw [Fresh, newIds, ← map_transcript settings generator r calls, List.filterMap_map, List.Nodup,
    List.pairwise_filterMap] at h
  simp only [Function.comp_apply] at h
  have hsymm : Std.Symm fun a b : Call × Answer => ∀ i, a.1.operation.newId? = some i →
      ∀ j, b.1.operation.newId? = some j → i ≠ j :=
    ⟨fun _ _ hab i hi j hj hij => hab j hj i hi hij.symm⟩
  by_contra hne
  exact List.Pairwise.forall h he hf hne id heid id hfid rfl

end

end Registry
end MockServer
