import MockServer.Proofs.Project.Concurrency

/-!
The registries that calls lead to, also when they are made at the same time and bring ids that are
not fresh. Every project is stored once, under its own id, so looking up ids and going through the
entries find the same live projects.
-/
namespace MockServer.Registry

open MockServer.Time

variable {settings : ProjectSettings} {generator : GeneratorSettings}
variable {r r' : Registry} {now : Instant} {id : String} {p : Project}

/-- Every project is stored once and under its own id. -/
structure Indexed (r : Registry) : Prop where
  keyed : r.Keyed
  labelled : r.Labelled

private theorem Indexed.change {c : Call} {answer : Answer} (h : r.Indexed)
    (hc : Change settings r c answer r') : r'.Indexed :=
  ⟨h.keyed.change hc, h.labelled.change hc⟩

private theorem Indexed.insert (h : r.Indexed) (p : Project) : (r.insert p.id p).Indexed := by
  refine ⟨h.keyed.insert p.id p, fun e he => ?_⟩
  rcases mem_insert he with ⟨-, he⟩ | rfl
  · exact h.labelled e he
  · rfl

private theorem Indexed.move {s s' : Concurrent.State} {step : Concurrent.Step}
    {answer : Option Answer}
    (h : s.registry.Indexed) (hm : Concurrent.Move settings s step answer s') :
    s'.registry.Indexed := by
  cases hm with
  | refused | prepared | idle | full => exact h
  | stored => exact h.insert _
  | @cleaned now =>
    have hc : Change settings s.registry ⟨now, .cleanup⟩ _ _ := .cleaned rfl
    exact h.change hc
  | whole _ change => exact h.change change

section

variable [Mock.Phrasebook]

variable (settings generator) in
/-- Some steps of calls lead from the empty registry to this one. -/
def Reachable (r : Registry) : Prop :=
  ∃ steps, (Concurrent.run settings generator steps).registry = r

theorem Reachable.indexed (h : Reachable settings generator r) : r.Indexed := by
  obtain ⟨steps, rfl⟩ := h
  induction steps using List.reverseRecOn with
  | nil => exact ⟨List.nodup_nil, fun _ he => absurd he List.not_mem_nil⟩
  | append_singleton past step ih =>
    rw [Concurrent.run_append]
    exact ih.move (Concurrent.move_after settings generator _ step)

variable (settings generator) in
/-- The steps of a call that is made alone. -/
theorem exists_steps (r : Registry) (c : Call) :
    ∃ steps, Concurrent.runFrom settings generator { registry := r } steps =
      { registry := r.after settings generator c } := by
  cases hnew : c.operation.newId? with
  | none => exact ⟨[.whole c hnew], rfl⟩
  | some id =>
    obtain ⟨now, operation⟩ := c
    cases operation with
    | create key draft =>
      exact ⟨[.prepare now key draft, .store key],
        Concurrent.after_prepare_store { registry := r } now draft nofun⟩
    | _ => cases hnew

/-- Calls that are made one after the other are among those that are made at any time. -/
theorem reachable_run (calls : List Call) :
    Reachable settings generator (run settings generator calls) := by
  -- between the calls no project waits, so the steps of the next one start from the registry alone
  suffices h : ∃ steps, Concurrent.run settings generator steps =
      { registry := run settings generator calls } by
    obtain ⟨steps, hsteps⟩ := h
    exact ⟨steps, congrArg Concurrent.State.registry hsteps⟩
  induction calls using List.reverseRecOn with
  | nil => exact ⟨[], rfl⟩
  | append_singleton past c ih =>
    obtain ⟨steps, hsteps⟩ := ih
    obtain ⟨further, hfurther⟩ := exists_steps settings generator (run settings generator past) c
    exact ⟨steps ++ further, by rw [Concurrent.run_append, hsteps, hfurther, run_concat]⟩

end

/-! What is live -/

private theorem Keyed.find?_eq_some_iff (h : r.Keyed) :
    r.find? id = some p ↔ (id, p) ∈ r.entries := by
  refine ⟨mem_of_find?, fun hmem => ?_⟩
  cases hfind : r.find? id with
  | none => exact absurd (List.mem_map_of_mem (f := (·.1)) hmem) (find?_eq_none_iff.mp hfind)
  | some q => rw [(Prod.mk.inj (h.eq_of_mem (mem_of_find? hfind) hmem rfl)).2]

theorem Keyed.get?_eq_some_iff (h : r.Keyed) :
    r.get? now id = some p ↔ (id, p) ∈ r.entries ∧ p.isLive now = true := by
  rw [get?, Option.filter_eq_some_iff, h.find?_eq_some_iff]

/-- Going through the entries finds the projects that looking up ids finds. -/
theorem Keyed.mem_live_iff (h : r.Keyed) : p ∈ r.live now ↔ ∃ id, r.get? now id = some p := by
  rw [live, List.mem_filter, List.mem_map]
  constructor
  · rintro ⟨⟨⟨id, _⟩, he, rfl⟩, hlive⟩
    exact ⟨id, h.get?_eq_some_iff.mpr ⟨he, hlive⟩⟩
  · rintro ⟨id, hget⟩
    obtain ⟨he, hlive⟩ := h.get?_eq_some_iff.mp hget
    exact ⟨⟨(id, p), he, rfl⟩, hlive⟩

private theorem Indexed.id_of_get? (h : r.Indexed) (hget : r.get? now id = some p) : p.id = id :=
  h.labelled _ (h.keyed.get?_eq_some_iff.mp hget).1

/-- The ids of the live projects are those under which a live project is found. -/
theorem Indexed.mem_liveIds_iff (h : r.Indexed) :
    id ∈ (r.live now).map (·.id) ↔ (r.get? now id).isSome := by
  rw [List.mem_map, Option.isSome_iff_exists]
  constructor
  · rintro ⟨p, hp, rfl⟩
    obtain ⟨key, hget⟩ := h.keyed.mem_live_iff.mp hp
    rw [h.id_of_get? hget]
    exact ⟨p, hget⟩
  · rintro ⟨p, hget⟩
    exact ⟨p, h.keyed.mem_live_iff.mpr ⟨id, hget⟩, h.id_of_get? hget⟩

theorem Indexed.nodup_liveIds (h : r.Indexed) (now : Instant) :
    ((r.live now).map (·.id)).Nodup := by
  have hids : (r.entries.map (·.2)).map (·.id) = r.entries.map (·.1) := by
    rw [List.map_map]
    exact List.map_congr_left h.labelled
  have hsub : ((r.live now).map (·.id)).Sublist (r.entries.map (·.1)) := by
    rw [← hids]
    exact List.filter_sublist.map _
  exact h.keyed.sublist hsub

end MockServer.Registry
