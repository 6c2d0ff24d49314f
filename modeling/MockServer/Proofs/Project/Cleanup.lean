import Mathlib.Data.List.Forall2
import MockServer.Proofs.Project.Part
import MockServer.Proofs.Time.Order

/-!
Cleanup does not show. What it removes has expired and stays so as long as no one revises it, so
later calls get the same answers with the cleanup as without it. Only counts of stored entries tell
the difference.
-/
namespace MockServer

open MockServer.Time

/-- Answers that say the same of live projects. How many others are stored or removed may differ. -/
inductive Alike : Answer → Answer → Prop
  | same (a : Answer) : Alike a a
  | removed (m n : Nat) : Alike (.removed m) (.removed n)
  | stats {s t : Stats} (active : s.active = t.active) : Alike (.stats s) (.stats t)

namespace Registry

variable {settings : ProjectSettings} {generator : GeneratorSettings}
variable {r r' : Registry} {keep : String → Bool} {c : Call} {cutoff now : Instant}

/-- All that a part leaves out expired before an instant. -/
def ExpiredOutside (keep : String → Bool) (cutoff : Instant) (r : Registry) : Prop :=
  ∀ e ∈ r.entries, keep e.1 = false → e.2.expiresAt.before cutoff = true

private theorem ExpiredOutside.not_live (h : ExpiredOutside keep cutoff r)
    (hnow : cutoff.le now = true) :
    ∀ e ∈ r.entries, keep e.1 = false → e.2.isLive now = false := by
  intro e he hk
  have hpast : e.2.expiresAt.le now = true :=
    Instant.le_trans (Instant.le_of_before (h e he hk)) hnow
  rw [Project.isLive, Instant.before_eq_false_iff.mpr hpast, Bool.and_false]

/-- Calls that write inside the part leave what is outside alone. -/
theorem ExpiredOutside.change {answer : Answer} (h : ExpiredOutside keep cutoff r)
    (hc : Change settings r c answer r')
    (hwritten : ∀ id ∈ c.operation.writtenId?, keep id = true) : ExpiredOutside keep cutoff r' := by
  intro e he hk
  have hunwritten : c.operation.writtenId? ≠ some e.1 := by
    intro hw
    exact absurd (hwritten e.1 hw) (by simp [hk])
  cases hc.origin he with
  | kept before => exact h e before hk
  | made new => exact absurd (Operation.writtenId?_of_newId? new) hunwritten
  | changed written => exact absurd written hunwritten

section

variable [Mock.Phrasebook]

/-- Reads say the same of a part in which all live projects are. -/
theorem alike_part (hw : c.operation.writtenId? = none)
    (hlive : (r.part keep).live c.now = r.live c.now)
    (hget : ∀ id, (r.part keep).get? c.now id = r.get? c.now id) :
    Alike ((r.part keep).perform settings generator c).1 (r.perform settings generator c).1 := by
  unfold perform
  cases hop : c.operation with
  | create | update | deactivate =>
    rw [hop] at hw
    cases hw
  | cleanup => exact .removed _ _
  | get id =>
    dsimp only
    rw [hget]
    exact .same _
  | parsedInterface id =>
    simp only [parsedInterface, hget]
    exact .same _
  | mockData id count words =>
    simp only [mockData, parsedInterface, hget]
    exact .same _
  | list =>
    simp only [list, hlive]
    exact .same _
  | stats => exact .stats (congrArg List.length hlive)

/-- From an instant on, expired projects that are not revised make no difference. -/
theorem transcript_part_alike {later : List Call} {r : Registry}
    (h : ExpiredOutside keep cutoff r) (hlater : ∀ c ∈ later, cutoff.le c.now = true)
    (hwritten : ∀ c ∈ later, ∀ id ∈ c.operation.writtenId?, keep id = true) :
    List.Forall₂ (fun a b => Alike a.2 b.2) (transcript settings generator (r.part keep) later)
      (transcript settings generator r later) := by
  induction later generalizing r with
  | nil => exact .nil
  | cons c later ih =>
    rw [List.forall_mem_cons] at hlater hwritten
    have hdead := h.not_live hlater.1
    have hrest := ih (h.change (change_after settings generator r c) hwritten.1) hlater.2 hwritten.2
    rw [transcript, transcript]
    cases hw : c.operation.writtenId? with
    | none =>
      refine .cons (alike_part hw (live_part hdead) (get?_part_of_not_live hdead)) ?_
      rw [after_part hw]
      exact hrest
    | some id =>
      have hk : keep id = true := hwritten.1 id hw
      have hperform : (r.part keep).perform settings generator c =
          ((r.perform settings generator c).1, (r.after settings generator c).part keep) := by
        apply perform_part (Operation.id?_of_writtenId? hw) hk
        exact fun d _ => create_part_of_live hk (live_part hdead) d
      rw [after, hperform]
      exact .cons (.same _) hrest

end

/-- The ids that are no longer stored after a cleanup. -/
def removedIds (r : Registry) (now : Instant) : List String :=
  (r.entries.map (·.1)).filter fun id => ((r.cleanup now).2.find? id).isNone

/-- They are those of the projects strictly past their expiry. -/
theorem Keyed.isNone_find?_cleanup (hk : r.Keyed) {e : String × Project} (he : e ∈ r.entries)
    (now : Instant) : ((r.cleanup now).2.find? e.1).isNone = e.2.expiresAt.before now := by
  rw [Bool.eq_iff_iff, Option.isNone_iff_eq_none, find?_eq_none_iff]
  constructor
  · intro hgone
    by_contra hlasting
    have hkept : now.le e.2.expiresAt = true :=
      Instant.before_eq_false_iff.mp (Bool.eq_false_iff.mpr hlasting)
    exact hgone (List.mem_map_of_mem (mem_cleanup_iff.mpr ⟨he, hkept⟩))
  · intro hbefore hstored
    obtain ⟨f, hf, hid⟩ := List.mem_map.mp hstored
    obtain ⟨hf, hkept⟩ := mem_cleanup_iff.mp hf
    rw [hk.eq_of_mem hf he hid, Instant.le, hbefore] at hkept
    cases hkept

private theorem Keyed.mem_removedIds_iff (hk : r.Keyed) {e : String × Project}
    (he : e ∈ r.entries) :
    e.1 ∈ r.removedIds now ↔ e.2.expiresAt.before now = true := by
  rw [removedIds, List.mem_filter, hk.isNone_find?_cleanup he]
  exact and_iff_right (List.mem_map_of_mem he)

/-- A cleanup leaves the part with the other ids. -/
theorem Keyed.cleanup_eq_part (hk : r.Keyed) (now : Instant) :
    (r.cleanup now).2 = r.part fun id => decide (id ∉ r.removedIds now) := by
  rw [cleanup, part]
  dsimp only
  congr 1
  apply List.filter_congr
  intro e he
  rw [Bool.eq_iff_iff, decide_eq_true_iff, hk.mem_removedIds_iff he, Instant.le,
    Bool.not_eq_true', Bool.not_eq_true]

private theorem Keyed.cleanup_count (hk : r.Keyed) (now : Instant) :
    (r.cleanup now).1 = (r.removedIds now).length := by
  have hremoved : (r.removedIds now).length =
      (r.entries.filter fun e => !now.le e.2.expiresAt).length := by
    rw [removedIds, List.filter_map, List.length_map]
    congr 1
    apply List.filter_congr
    intro e he
    rw [Function.comp_apply, hk.isNone_find?_cleanup he, Instant.le, Bool.not_not]
  have hsplit := List.length_eq_length_filter_add (fun e => now.le e.2.expiresAt) (l := r.entries)
  rw [hremoved, cleanup]
  dsimp only
  omega

private theorem cleanup_cleanup (r : Registry) (now : Instant) :
    (r.cleanup now).2.cleanup now = (0, (r.cleanup now).2) := by
  simp only [cleanup, List.filter_filter, Bool.and_self, Nat.sub_self]

/-- Later calls cannot tell that a cleanup was made, unless they write to a project that it removed;
ids of new projects are not among those, being fresh. Lists come in the same order. The cleanup
tells how many entries have vanished, and another one at once finds nothing more to remove. No
registry that calls lead to stores an id twice. -/
theorem cleanup_invisible [Mock.Phrasebook] (hk : r.Keyed) {later : List Call}
    (hlater : ∀ c ∈ later, now.le c.now = true)
    (hspared : ∀ c ∈ later, ∀ id ∈ c.operation.writtenId?, id ∉ r.removedIds now) :
    List.Forall₂ (fun a b => Alike a.2 b.2)
        (transcript settings generator (r.cleanup now).2 later)
        (transcript settings generator r later) ∧
      (r.cleanup now).1 = (r.removedIds now).length ∧
      (r.cleanup now).2.cleanup now = (0, (r.cleanup now).2) := by
  have hexpired : ExpiredOutside (fun id => decide (id ∉ r.removedIds now)) now r := by
    intro e he hremoved
    rw [decide_eq_false_iff_not, not_not] at hremoved
    exact (hk.mem_removedIds_iff he).mp hremoved
  refine ⟨?_, hk.cleanup_count now, cleanup_cleanup r now⟩
  rw [hk.cleanup_eq_part now]
  refine transcript_part_alike hexpired hlater fun c hc id hid => ?_
  exact decide_eq_true (hspared c hc id hid)

/-- A project of an hour and one of a day. -/
def twoTerms : List Call :=
  [⟨⟨0, 0⟩, .create "a" { name := "A", interfaceCode := "a: Date", expirationHours := some 1 }⟩,
   ⟨⟨1, 0⟩, .create "b" { name := "B", interfaceCode := "b: number" }⟩]

/-- Calls after the hour, when there is room for one project more. -/
def afterHour : List Call :=
  [⟨⟨3601, 0⟩, .get "a"⟩,
   ⟨⟨3602, 0⟩, .create "c" { name := "C", interfaceCode := "c: email" }⟩,
   ⟨⟨3603, 0⟩, .create "d" { name := "D", interfaceCode := "d: string" }⟩,
   ⟨⟨3604, 0⟩, .update "b" { name := some "Z" }⟩,
   ⟨⟨3604, 0⟩, .cleanup⟩,
   ⟨⟨3605, 0⟩, .stats⟩,
   ⟨⟨3606, 0⟩, .list⟩]

theorem afterHour_alike :
    let settings : ProjectSettings := { maxProjects := 2 }
    let r := run settings {} twoTerms
    r.Keyed ∧ r.removedIds ⟨3601, 0⟩ = ["a"] ∧
      List.Forall₂ (fun a b => Alike a.2 b.2)
        (transcript settings {} (r.cleanup ⟨3601, 0⟩).2 afterHour)
        (transcript settings {} r afterHour) := by
  intro settings r
  have hlater : ∀ c ∈ afterHour, Instant.le ⟨3601, 0⟩ c.now = true := by decide
  have hspared : ∀ c ∈ afterHour, ∀ id ∈ c.operation.writtenId?,
      id ∉ r.removedIds ⟨3601, 0⟩ := by decide
  exact ⟨keyed_run _, by decide, (cleanup_invisible (keyed_run _) hlater hspared).1⟩

end Registry
end MockServer
