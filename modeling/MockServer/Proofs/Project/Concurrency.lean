import Mathlib.Data.List.Perm.Subperm
import MockServer.Proofs.Project.Transcript
import MockServer.Proofs.Time.Order

/-!
Calls that are made at the same time. A new project is prepared before its call has the lock and
stored once it has it, and any steps of other calls may come in between. No project is lost or
stored twice.
-/
namespace MockServer.Concurrent

open MockServer.Registry MockServer.Time

/-- A step of a call. A new project takes two, and its id tells to which call the second one
belongs; every other call is one step under the lock. Clock readings may go in any direction. -/
inductive Step where
  | prepare (now : Instant) (id : String) (draft : Draft)
  | store (id : String)
  | whole (call : Call) (notNew : call.operation.newId? = none)

/-- The registry, and the prepared projects whose calls wait for the lock. -/
structure State where
  registry : Registry := {}
  waiting : List Project := []

/-- The id that a step brings. -/
def Step.newId? : Step → Option String
  | .prepare _ id _ => some id
  | _ => none

/-- The id of the new project that a step is about. -/
def Step.createdId? : Step → Option String
  | .prepare _ id _ | .store id => some id
  | .whole _ _ => none

def newIds (steps : List Step) : List String := steps.filterMap Step.newId?

/-- No id is brought twice. -/
def Fresh (steps : List Step) : Prop := (newIds steps).Nodup

section

variable [Mock.Phrasebook] (settings : ProjectSettings) (generator : GeneratorSettings)

/-- The answer of a call that returns with a step, and the state after it. Without a waiting project
there is nothing to store. -/
def perform (s : State) : Step → Option Answer × State
  | .prepare now id draft =>
    match draft.prepare settings now id with
    | .error e => (some (.created (.error e)), s)
    | .ok p => (none, { s with waiting := s.waiting ++ [p] })
  | .store id =>
    match s.waiting.find? (·.id = id) with
    | none => (none, s)
    | some p =>
      let waiting := s.waiting.eraseP (·.id = id)
      match s.registry.accept settings p with
      | .error e => (some (.created (.error e)), { s with waiting })
      | .ok registry => (some (.created (.ok p)), { registry, waiting })
  | .whole call _ =>
    let (answer, registry) := s.registry.perform settings generator call
    (some answer, { s with registry })

def after (s : State) (step : Step) : State := (perform settings generator s step).2

/-- The state after some steps from a given one. -/
def runFrom (s : State) (steps : List Step) : State := steps.foldl (after settings generator) s

/-- The state after some steps from the empty registry. -/
def run (steps : List Step) : State := runFrom settings generator {} steps

/-- The answers of the calls that have returned. -/
def answersFrom : State → List Step → List Answer
  | _, [] => []
  | s, step :: later =>
    (perform settings generator s step).1.toList ++
      answersFrom (after settings generator s step) later

def answers (steps : List Step) : List Answer := answersFrom settings generator {} steps

end

/-- What a step can do. A call that stores a project is a creation at the moment it has the lock,
with the clock reading of its first step. -/
inductive Move (settings : ProjectSettings) (s : State) : Step → Option Answer → State → Prop where
  | refused {now : Instant} {id : String} {draft : Draft} {e : ProjectError} :
      Move settings s (.prepare now id draft) (some (.created (.error e))) s
  | prepared {now : Instant} {id : String} {draft : Draft} {p : Project}
      (ready : draft.prepare settings now id = .ok p) :
      Move settings s (.prepare now id draft) none { s with waiting := s.waiting ++ [p] }
  | idle {id : String} (absent : ∀ p ∈ s.waiting, p.id ≠ id) :
      Move settings s (.store id) none s
  | full {id : String} {e : ProjectError} {before later : List Project} {p : Project}
      (found : s.waiting = before ++ p :: later) (same : p.id = id) :
      Move settings s (.store id) (some (.created (.error e)))
        { s with waiting := before ++ later }
  | stored {id : String} {before later : List Project} {p : Project}
      (found : s.waiting = before ++ p :: later) (same : p.id = id)
      (room : (s.registry.live p.createdAt).length < settings.maxProjects.toNat) :
      Move settings s (.store id) (some (.created (.ok p)))
        { registry := s.registry.insert p.id p, waiting := before ++ later }
  | cleaned {now : Instant} :
      Move settings s (.whole ⟨now, .cleanup⟩ rfl) (some (.removed (s.registry.cleanup now).1))
        { s with registry := (s.registry.cleanup now).2 }
  | whole {call : Call} {notNew : call.operation.newId? = none} {answer : Answer} {r : Registry}
      (other : call.operation ≠ .cleanup) (change : Change settings s.registry call answer r) :
      Move settings s (.whole call notNew) (some answer) { s with registry := r }

variable {settings : ProjectSettings} {generator : GeneratorSettings}
variable {s s' : State} {step : Step} {steps : List Step} {answer : Option Answer} {id : String}

/-- The first project with an id, and what waits without it. -/
theorem exists_waiting {waiting : List Project} {p : Project}
    (h : waiting.find? (·.id = id) = some p) :
    ∃ before later, waiting = before ++ p :: later ∧ p.id = id ∧
      waiting.eraseP (·.id = id) = before ++ later := by
  obtain ⟨hid, before, later, rfl, hbefore⟩ := List.find?_eq_some_iff_append.mp h
  refine ⟨before, later, rfl, by simpa using hid, ?_⟩
  rw [List.eraseP_append_right _ (by simpa using hbefore),
    List.eraseP_cons_of_pos (by simpa using hid)]

variable (settings generator s step) in
/-- Every step does one of these. -/
theorem move_after [Mock.Phrasebook] :
    Move settings s step (perform settings generator s step).1
      (after settings generator s step) := by
  unfold after perform
  cases step with
  | prepare now id draft =>
    cases h : draft.prepare settings now id with
    | error e => simpa only [h] using .refused
    | ok p => simpa only [h] using .prepared h
  | store id =>
    cases h : s.waiting.find? (·.id = id) with
    | none => simpa only [h] using .idle (by simpa using h)
    | some p =>
      obtain ⟨before, later, found, same, rest⟩ := exists_waiting h
      by_cases hfull : settings.maxProjects.toNat ≤ (s.registry.live p.createdAt).length
      · simpa only [h, rest, accept, if_pos hfull] using .full found same
      · simpa only [h, rest, accept, if_neg hfull] using
          .stored found same (Nat.lt_of_not_le hfull)
  | whole call notNew =>
    by_cases hop : call.operation = .cleanup
    · obtain ⟨now, operation⟩ := call
      cases hop
      exact .cleaned
    · exact .whole hop (change_after settings generator s.registry call)

/-- Two steps that come together are a single call. -/
theorem after_prepare_store [Mock.Phrasebook] (s : State) (now : Instant) (draft : Draft)
    (hid : ∀ p ∈ s.waiting, p.id ≠ id) :
    after settings generator (after settings generator s (.prepare now id draft)) (.store id) =
      { s with registry := s.registry.after settings generator ⟨now, .create id draft⟩ } := by
  have hnone : s.waiting.find? (·.id = id) = none := by simpa using hid
  simp only [after, perform, Registry.after, Registry.perform, create]
  cases hprepare : draft.prepare settings now id with
  | error e => simp only [hnone]; rfl
  | ok p =>
    obtain ⟨-, rfl⟩ := Draft.prepare_eq_ok hprepare
    have hfound : (s.waiting ++ [draft.project settings now id]).find? (·.id = id) =
        some (draft.project settings now id) := by
      rw [List.find?_append, hnone, List.find?_cons_of_pos (by simp [Draft.project])]
      rfl
    have hrest : (s.waiting ++ [draft.project settings now id]).eraseP (·.id = id) = s.waiting := by
      rw [List.eraseP_append_right _ (by simpa using hid),
        List.eraseP_cons_of_pos (by simp [Draft.project]), List.append_nil]
    simp only [hfound, hrest]
    cases haccept : s.registry.accept settings (draft.project settings now id) with
    | error e => simp only [bind, Except.bind, haccept]
    | ok r => simp only [bind, Except.bind, haccept]; rfl

section

variable [Mock.Phrasebook]

theorem run_append (past later : List Step) :
    run settings generator (past ++ later) =
      runFrom settings generator (run settings generator past) later :=
  List.foldl_append

theorem answersFrom_append (s : State) (past later : List Step) :
    answersFrom settings generator s (past ++ later) =
      answersFrom settings generator s past ++
        answersFrom settings generator (runFrom settings generator s past) later := by
  induction past generalizing s with
  | nil => rfl
  | cons step past ih =>
    rw [List.cons_append, answersFrom, answersFrom, ih, List.append_assoc]
    rfl

end

/-! Ids -/

theorem newIds_append (past later : List Step) :
    newIds (past ++ later) = newIds past ++ newIds later := List.filterMap_append

theorem Fresh.of_prefix {past : List Step} (h : Fresh steps) (hp : past <+: steps) : Fresh past :=
  h.sublist (hp.sublist.filterMap _)

theorem Fresh.not_mem_newIds {past later : List Step} (h : Fresh (past ++ step :: later))
    (hid : step.newId? = some id) : id ∉ newIds past := by
  rw [Fresh, newIds_append, newIds, newIds, List.filterMap_cons_some hid] at h
  exact fun hm => (List.nodup_append.mp h).2.2 id hm id List.mem_cons_self rfl

/-- The ids of the entries and of the projects that wait. -/
def State.ids (s : State) : List String :=
  s.registry.entries.map (·.1) ++ s.waiting.map (·.id)

/-- A step has prepared the project. -/
def Prepared (settings : ProjectSettings) (past : List Step) (p : Project) : Prop :=
  ∃ now draft, .prepare now p.id draft ∈ past ∧ draft.prepare settings now p.id = .ok p

/-- What holds in every state: steps have prepared the waiting projects, each id is that of one
entry or of one waiting project, and a step has brought it. -/
structure Sound (settings : ProjectSettings) (past : List Step) (s : State) : Prop where
  ready : ∀ p ∈ s.waiting, Prepared settings past p
  distinct : s.ids.Nodup
  known : s.ids ⊆ newIds past

private theorem nodup_of_subperm {l l' : List String} (h : l.Subperm l') (hl' : l'.Nodup) :
    l.Nodup := by
  obtain ⟨m, hperm, hsub⟩ := h
  exact hperm.nodup_iff.mp (hl'.sublist hsub)

private theorem keys_change_sublist {r r' : Registry} {c : Call} {a : Answer}
    (hc : Change settings r c a r') (hnew : c.operation.newId? = none) :
    (r'.entries.map (·.1)).Sublist (r.entries.map (·.1)) := by
  cases hc with
  | none => exact List.Sublist.refl _
  | created call =>
    rw [call] at hnew
    cases hnew
  | updated | deactivated =>
    rw [keys_modify]
  | cleaned => exact List.filter_sublist.map _

theorem Sound.entries_insert (h : Sound settings steps s) {p : Project} (hp : p ∈ s.waiting) :
    (s.registry.insert p.id p).entries = s.registry.entries ++ [(p.id, p)] := by
  have hid : p.id ∉ s.registry.entries.map (·.1) := fun hm =>
    (List.nodup_append.mp h.distinct).2.2 _ hm _ (List.mem_map_of_mem hp) rfl
  rw [insert_of_none (find?_eq_none_iff.mpr hid)]

/-- A step that brings no id leaves each where it is, moves it to the entries, or drops it. -/
theorem Sound.ids_subperm (h : Sound settings steps s) (hm : Move settings s step answer s')
    (hnew : step.newId? = none ∨ answer ≠ none) : s'.ids.Subperm s.ids := by
  cases hm with
  | refused | idle => exact List.Subperm.refl _
  | prepared => exact absurd hnew (by simp [Step.newId?])
  | @full id e before later p found same =>
    refine List.Sublist.subperm ((List.Sublist.refl _).append ?_)
    rw [found]
    exact ((List.Sublist.refl before).append (List.sublist_cons_self p later)).map _
  | @stored id before later p found same room =>
    have hp : p ∈ s.waiting := by rw [found]; simp
    refine List.Perm.subperm ?_
    rw [State.ids, State.ids, h.entries_insert hp, found]
    simp only [List.map_append, List.map_cons, List.map_nil, List.append_assoc,
      List.singleton_append]
    exact List.Perm.append_left _ List.perm_middle.symm
  | cleaned =>
    exact (List.Sublist.append (List.filter_sublist.map _) (List.Sublist.refl _)).subperm
  | @whole call notNew a r other change =>
    exact ((keys_change_sublist change notNew).append (List.Sublist.refl _)).subperm

/-- A prepared project waits with the fresh id that its step has brought. -/
theorem ids_prepared {now : Instant} {draft : Draft} {p : Project}
    (ready : draft.prepare settings now id = .ok p) :
    p.id = id ∧ ({ s with waiting := s.waiting ++ [p] } : State).ids = s.ids ++ [id] := by
  obtain ⟨-, rfl⟩ := Draft.prepare_eq_ok ready
  refine ⟨rfl, ?_⟩
  rw [State.ids, State.ids, List.map_append, List.append_assoc]
  rfl

private theorem Sound.move (h : Sound settings steps s) (hm : Move settings s step answer s')
    (hfresh : ∀ id, step.newId? = some id → id ∉ newIds steps) :
    Sound settings (steps ++ [step]) s' := by
  have hknown {t : State} (ht : t.ids.Subperm s.ids) : t.ids ⊆ newIds (steps ++ [step]) := by
    rw [newIds_append]
    exact fun id hid => List.mem_append_left _ (h.known (ht.subset hid))
  have hready : ∀ p ∈ s.waiting, Prepared settings (steps ++ [step]) p := fun p hp =>
    let ⟨now, draft, hstep, hprepare⟩ := h.ready p hp
    ⟨now, draft, List.mem_append_left _ hstep, hprepare⟩
  have hsub := h.ids_subperm hm
  cases hm with
  | refused | idle => exact ⟨hready, h.distinct, hknown (List.Subperm.refl _)⟩
  | @prepared now id draft p ready =>
    obtain ⟨rfl, hids⟩ := ids_prepared (s := s) ready
    have hnew := hfresh p.id rfl
    refine ⟨?_, ?_, ?_⟩
    · intro w hw
      rcases List.mem_append.mp hw with hw | hw
      · exact hready w hw
      · obtain rfl := List.mem_singleton.mp hw
        exact ⟨now, draft, by simp, ready⟩
    · rw [hids, List.nodup_append]
      refine ⟨h.distinct, List.nodup_singleton _, ?_⟩
      rintro a ha b hb rfl
      exact hnew (List.mem_singleton.mp hb ▸ h.known ha)
    · rw [hids, newIds_append]
      exact List.append_subset.mpr ⟨fun a ha => List.mem_append_left _ (h.known ha),
        List.subset_append_right _ _⟩
  | full found | stored found =>
    have hs := hsub (.inr nofun)
    refine ⟨fun w hw => hready w ?_, nodup_of_subperm hs h.distinct, hknown hs⟩
    rw [found]
    exact ((List.sublist_cons_self _ _).append_left _).subset hw
  | cleaned | whole =>
    have hs := hsub (.inr nofun)
    exact ⟨hready, nodup_of_subperm hs h.distinct, hknown hs⟩

variable (settings generator) in
/-- What holds in every state is kept by the steps of a run in which no id comes twice. -/
theorem sound_run [Mock.Phrasebook] (h : Fresh steps) :
    Sound settings steps (run settings generator steps) := by
  induction steps using List.reverseRecOn with
  | nil => exact ⟨fun _ hp => absurd hp List.not_mem_nil, List.nodup_nil, List.nil_subset _⟩
  | append_singleton past step ih =>
    rw [run_append]
    have hpast := ih (h.of_prefix (List.prefix_append past [step]))
    exact hpast.move (move_after settings generator _ _) fun id hid => h.not_mem_newIds hid

end MockServer.Concurrent
