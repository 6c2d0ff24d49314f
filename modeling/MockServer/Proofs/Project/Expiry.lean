import MockServer.Proofs.Project.LiveLimit

/-!
The moment of expiry. Reads hide a project from this moment on and a cleanup removes it only later,
so the two agree as long as no project expires at the very instant of the cleanup.
-/
namespace MockServer

open MockServer.Time

/-- The expiry has come: even if the project is active, it is not live. -/
def Project.HasExpired (p : Project) (now : Instant) : Prop :=
  ({ p with isActive := true } : Project).isLive now = false

private theorem Project.hasExpired_iff {p : Project} {now : Instant} :
    p.HasExpired now ↔ p.expiresAt.le now = true := by
  rw [HasExpired, isLive, Bool.true_and, Instant.before_eq_false_iff]

namespace Registry

variable (r : Registry) (now : Instant)

/-- Every active project that a cleanup leaves is live. -/
def LeavesLive : Prop :=
  ∀ e ∈ (r.cleanup now).2.entries, e.2.isActive = true → e.2.isLive now = true

/-- After a cleanup the projects that are counted but not live are the inactive ones. -/
def CountsInactive : Prop :=
  let counts := (r.cleanup now).2.stats now
  counts.total - counts.active = (r.cleanup now).2.entries.countP fun e => !e.2.isActive

/-- A cleanup removes the projects whose expiry has come and no others. -/
def RemovesExpired : Prop :=
  ∀ e ∈ r.entries, e ∉ (r.cleanup now).2.entries ↔ e.2.HasExpired now

variable {r now} {e : String × Project}

/-- What is left expires later, or just then. -/
theorem isLive_of_mem_cleanup (he : e ∈ (r.cleanup now).2.entries) :
    e.2.isLive now = (e.2.isActive && decide (e.2.expiresAt ≠ now)) := by
  have hle := (mem_cleanup_iff.mp he).2
  rw [Project.isLive]
  congr 1
  by_cases hdue : e.2.expiresAt = now
  · rw [hdue, decide_eq_false (not_not.mpr rfl), Instant.before_eq_false_iff]
    exact Instant.le_refl now
  · rw [decide_eq_true hdue, Instant.before_of_le_of_ne hle hdue]

variable (r now) in
/-- After a cleanup those that are counted but not live are inactive or expire just then. -/
theorem stats_cleanup :
    ((r.cleanup now).2.stats now).total - ((r.cleanup now).2.stats now).active =
      ((r.cleanup now).2.entries.countP fun e => !e.2.isActive) +
        (r.cleanup now).2.entries.countP fun e => e.2.isActive && decide (e.2.expiresAt = now) := by
  have hcounts : ((r.cleanup now).2.stats now).active = (r.cleanup now).2.liveCount now := rfl
  have htotal : ((r.cleanup now).2.stats now).total = (r.cleanup now).2.entries.length := rfl
  rw [hcounts, htotal, liveCount_eq_countP]
  generalize hkept : (r.cleanup now).2.entries = kept
  -- what is not live is inactive, or it is active and due
  have hlive := List.length_eq_countP_add_countP (fun e => e.2.isLive now) (l := kept)
  have hsplit := List.countP_eq_countP_filter_add kept (fun e => decide ¬e.2.isLive now = true)
    fun e => !e.2.isActive
  have hinactive : (kept.filter fun e => !e.2.isActive).countP
      (fun e => decide ¬e.2.isLive now = true) = kept.countP fun e => !e.2.isActive := by
    rw [List.countP_filter]
    refine List.countP_congr fun e _ => ?_
    cases hactive : e.2.isActive <;> simp [Project.isLive, hactive]
  have hdue : (kept.filter fun e => !!e.2.isActive).countP
      (fun e => decide ¬e.2.isLive now = true) =
        kept.countP fun e => e.2.isActive && decide (e.2.expiresAt = now) := by
    rw [List.countP_filter]
    refine List.countP_congr fun e he => ?_
    rw [isLive_of_mem_cleanup (hkept ▸ he)]
    cases e.2.isActive <;> simp
  omega

/-- A project that expires just then is left, so it is to be inactive already. -/
theorem noneDue_iff :
    (∀ e ∈ (r.cleanup now).2.entries, e.2.isActive = true → e.2.expiresAt ≠ now) ↔
      ∀ e ∈ r.entries, e.2.expiresAt = now → e.2.isActive = false := by
  constructor
  · intro h e he hdue
    have hkept : e ∈ (r.cleanup now).2.entries :=
      mem_cleanup_iff.mpr ⟨he, hdue ▸ Instant.le_refl _⟩
    exact Bool.eq_false_iff.mpr fun hactive => h e hkept hactive hdue
  · intro h e he hactive hdue
    exact Bool.eq_false_iff.mp (h e (mem_cleanup he) hdue) hactive

private theorem leavesLive_iff :
    r.LeavesLive now ↔ ∀ e ∈ r.entries, e.2.expiresAt = now → e.2.isActive = false := by
  rw [← noneDue_iff]
  refine forall₂_congr fun e he => forall_congr' fun hactive => ?_
  rw [isLive_of_mem_cleanup he, hactive, Bool.true_and, decide_eq_true_iff]

private theorem countsInactive_iff :
    r.CountsInactive now ↔ ∀ e ∈ r.entries, e.2.expiresAt = now → e.2.isActive = false := by
  rw [← noneDue_iff, CountsInactive, stats_cleanup, Nat.add_eq_left, List.countP_eq_zero]
  refine forall₂_congr fun e he => ?_
  rw [Bool.and_eq_true, decide_eq_true_iff, not_and]

private theorem removesExpired_iff :
    r.RemovesExpired now ↔ ∀ e ∈ r.entries, e.2.expiresAt ≠ now := by
  refine forall₂_congr fun e he => ?_
  rw [mem_cleanup_iff, and_iff_right he, Project.hasExpired_iff]
  constructor
  · intro h hdue
    have hsame : e.2.expiresAt.le now = true := hdue ▸ Instant.le_refl _
    exact h.mpr hsame (hdue ▸ Instant.le_refl _)
  · intro hne
    constructor
    · exact (Instant.le_total _ _).resolve_left
    · exact fun hpast hleft => hne (Instant.le_antisymm hpast hleft)

variable (r now) in
/-- A cleanup leaves live projects and inactive ones, and counts them so, exactly when no active
project expires at its instant; it removes all that have expired exactly when no project at all
does. This is so in every registry, whatever calls lead to it. -/
theorem cleanup_agrees_iff_none_due :
    (r.LeavesLive now ∧ r.CountsInactive now ↔
      ∀ e ∈ r.entries, e.2.expiresAt = now → e.2.isActive = false) ∧
    (r.RemovesExpired now ↔ ∀ e ∈ r.entries, e.2.expiresAt ≠ now) :=
  ⟨by rw [leavesLive_iff, countsInactive_iff, and_self], removesExpired_iff⟩

/-- A project of an hour. -/
def hourRun : List Call :=
  [⟨⟨0, 0⟩, .create "a" { name := "A", interfaceCode := "a: Date", expirationHours := some 1 }⟩]

/-- Right at the end of the hour a cleanup leaves the project, which is not live any more and counts
as expired. A nanosecond later it removes it. -/
theorem cleanup_spares_due_project :
    let r := run {} {} hourRun
    (r.cleanup ⟨3600, 0⟩).1 = 0 ∧
      ((r.cleanup ⟨3600, 0⟩).2.stats ⟨3600, 0⟩) = { total := 1, active := 0, expired := 1 } ∧
      ¬ (r.LeavesLive ⟨3600, 0⟩ ∧ r.CountsInactive ⟨3600, 0⟩) ∧ ¬ r.RemovesExpired ⟨3600, 0⟩ ∧
      r.LeavesLive ⟨3600, 1⟩ ∧ r.CountsInactive ⟨3600, 1⟩ ∧ r.RemovesExpired ⟨3600, 1⟩ := by
  intro r
  obtain ⟨hleft, hremoved⟩ := cleanup_agrees_iff_none_due r ⟨3600, 0⟩
  obtain ⟨hleft', hremoved'⟩ := cleanup_agrees_iff_none_due r ⟨3600, 1⟩
  obtain ⟨hlive, hcounts⟩ := hleft'.mpr (by decide)
  refine ⟨by decide, by decide, ?_, ?_, hlive, hcounts, hremoved'.mpr (by decide)⟩
  · rw [hleft]
    decide
  · rw [hremoved]
    decide

end Registry
end MockServer
