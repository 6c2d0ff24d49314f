import MockServer.Proofs.Project.Part

/-!
Deactivation is final. No call makes an inactive project active again, so clients never reach it
from then on, at any clock reading, and it takes no room from others.
-/
namespace MockServer.Registry

open MockServer.Time

variable {settings : ProjectSettings} {generator : GeneratorSettings}
variable {r r' : Registry} {c : Call} {id : String}

/-- There is no active entry of an id. -/
def Inactive (id : String) (r : Registry) : Prop :=
  ∀ e ∈ r.entries, e.1 = id → e.2.isActive = false

private theorem inactive_deactivate (r : Registry) (now : Instant) (id : String) :
    Inactive id (r.deactivate now id).2 := by
  rintro e he rfl
  unfold deactivate at he
  split at he
  next =>
    rcases mem_modify he with ⟨hne, -⟩ | ⟨p, -, heq⟩
    · exact absurd rfl hne
    · rw [heq]
  next hnone =>
    rw [Option.not_isSome_iff_eq_none, find?_eq_none_iff] at hnone
    exact absurd (List.mem_map_of_mem he) hnone

/-- No change makes an inactive project active again. -/
theorem Inactive.change {answer : Answer} (h : Inactive id r) (hc : Change settings r c answer r')
    (hnew : c.operation.newId? ≠ some id) : Inactive id r' := by
  intro e he hid
  cases hc.origin he with
  | kept before => exact h e before hid
  | made new => exact absurd (hid ▸ new) hnew
  | changed _ before _ active =>
    rw [Bool.eq_false_iff]
    intro ha
    exact absurd (active ha) (Bool.eq_false_iff.mp (h _ before hid))

private theorem Inactive.not_live (h : Inactive id r) {e : String × Project} (he : e ∈ r.entries)
    (hid : e.1 = id) (now : Instant) : e.2.isLive now = false := by
  rw [Project.isLive, h e he hid, Bool.false_and]

private theorem Inactive.get?_eq_none (h : Inactive id r) (now : Instant) :
    r.get? now id = none := by
  rw [get?, Option.filter_eq_none_iff]
  intro p hp
  rw [h.not_live (mem_of_find? hp) rfl]
  exact Bool.false_ne_true

/-- A revision of an inactive project finds nothing to change. -/
theorem Inactive.update_eq (h : Inactive id r) (now : Instant) {u : Revision}
    (hu : u.check = .ok ()) : r.update now id u = .ok (none, r) := by
  have hnone : (r.find? id).filter (·.isActive) = none := by
    rw [Option.filter_eq_none_iff]
    intro p hp
    rw [h _ (mem_of_find? hp) rfl]
    exact Bool.false_ne_true
  rw [update, hu, hnone]
  rfl

/-- The registry without one project. -/
def without (r : Registry) (id : String) : Registry := r.part (· != id)

private theorem Inactive.live_without (h : Inactive id r) (now : Instant) :
    (r.without id).live now = r.live now := by
  apply live_part
  intro e he hk
  exact h.not_live he (by simpa using hk) now

/-- A project that clients do not reach, at any clock reading, and that no count of live projects
includes. -/
structure IsOut [Mock.Phrasebook] (settings : ProjectSettings) (generator : GeneratorSettings)
    (r : Registry) (id : String) : Prop where
  hidden : ∀ now, r.get? now id = none
  fixed : ∀ now u, u.check = .ok () → r.update now id u = .ok (none, r)
  interface : ∀ now, r.parsedInterface now id = .error .notFound
  mockData : ∀ now count, r.mockData generator now id count = pure (.error .notFound)
  unlisted : ∀ now, ∀ p ∈ r.list now, p.id ≠ id
  uncounted : ∀ now, (r.stats now).active = ((r.without id).stats now).active
  /-- New projects find as much room as without it. -/
  roomless : ∀ now new d, (r.create settings now new d).map (·.1) =
    ((r.without id).create settings now new d).map (·.1)

private theorem Inactive.isOut [Mock.Phrasebook] (h : Inactive id r) (hr : r.Labelled) :
    IsOut settings generator r id where
  hidden := h.get?_eq_none
  fixed now u hu := h.update_eq now hu
  interface now := by rw [parsedInterface, h.get?_eq_none]
  mockData now count := by rw [Registry.mockData, parsedInterface, h.get?_eq_none]
  unlisted now p hp hid := by
    rw [list, List.mem_mergeSort, live, List.mem_filter] at hp
    obtain ⟨e, he, rfl⟩ := List.mem_map.mp hp.1
    have hlive := h.not_live he ((hr e he).symm.trans hid) now
    rw [hlive] at hp
    exact Bool.false_ne_true hp.2
  uncounted now := by rw [stats, stats, h.live_without]
  roomless now new d := by
    rw [create_eq, create_eq, h.live_without]
    cases d.prepare settings now new with
    | error e => rfl
    | ok p =>
      dsimp only
      split <;> rfl

/-- A project that was found and deactivated stays out, whatever calls come later. Ids of new
projects are fresh; clock readings may go in any direction. -/
theorem deactivation_is_final [Mock.Phrasebook] {past later : List Call} {now : Instant}
    (hfresh : Fresh (past ++ ⟨now, .deactivate id⟩ :: later))
    (hfound : ((run settings generator past).deactivate now id).1 = true) :
    IsOut settings generator
      (run settings generator (past ++ ⟨now, .deactivate id⟩ :: later)) id := by
  have hstored : ((run settings generator past).find? id).isSome := by
    unfold deactivate at hfound
    split at hfound
    · assumption
    · cases hfound
  refine Inactive.isOut ?_ (labelled_run _)
  have hnew : ∀ c ∈ later, c.operation.newId? ≠ some id := fun c hc =>
    hfresh.newId?_ne hstored (List.mem_cons_of_mem _ hc)
  clear hfresh
  induction later using List.reverseRecOn with
  | nil =>
    rw [run_concat]
    exact inactive_deactivate _ now id
  | append_singleton later c ih =>
    rw [← List.cons_append, ← List.append_assoc, run_concat]
    refine (ih fun d hd => hnew d (List.mem_append_left _ hd)).change
      (change_after settings generator _ c) (hnew c (by simp))

/-- A project that is deactivated, and everything that could bring it back. -/
def insistentRun : List Call :=
  [⟨⟨2, 0⟩, .update "a" { name := some "Z", expirationHours := some 0xFFFFFFFFFFFFFFFF }⟩,
   ⟨⟨3, 0⟩, .create "b" { name := "A", interfaceCode := "a: Date" }⟩,
   ⟨⟨4, 0⟩, .deactivate "a"⟩,
   ⟨⟨1, 0⟩, .cleanup⟩,
   ⟨⟨5, 0⟩, .update "a" { expirationHours := some 1 }⟩]

theorem insistentRun_stays_out :
    let past : List Call := [⟨⟨0, 0⟩, .create "a" { name := "A", interfaceCode := "a: Date" }⟩]
    let calls := past ++ ⟨⟨1, 0⟩, .deactivate "a"⟩ :: insistentRun
    Fresh calls ∧ ((run {} {} past).deactivate ⟨1, 0⟩ "a").1 = true ∧
      ((run {} {} calls).find? "a").isSome ∧ IsOut {} {} (run {} {} calls) "a" := by
  intro past calls
  have hfresh : Fresh calls := by unfold Fresh; decide
  have hfound : ((run {} {} past).deactivate ⟨1, 0⟩ "a").1 = true := by decide
  exact ⟨hfresh, hfound, by decide, deactivation_is_final hfresh hfound⟩

end MockServer.Registry
