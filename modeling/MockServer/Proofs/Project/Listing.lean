import Mathlib.Data.List.Sort
import MockServer.Proofs.Project.Reachable
import MockServer.Proofs.Time.Order

/-!
The list of live projects. In whatever order the entries are gone through, it has each live project
once and the oldest first, and only projects of the same age can change places.
-/
namespace MockServer.Registry

open MockServer.Time

variable {settings : ProjectSettings} {generator : GeneratorSettings}
variable {r : Registry} {now : Instant} {p : Project} {order : List (String × Project)}

theorem list_perm_live (r : Registry) (now : Instant) : (r.list now).Perm (r.live now) :=
  List.mergeSort_perm _ _

private theorem pairwise_list (r : Registry) (now : Instant) :
    (r.list now).Pairwise fun p q => p.createdAt.le q.createdAt = true := by
  apply List.pairwise_mergeSort
  · exact fun _ _ _ => Instant.le_trans
  · intro p q
    rw [Bool.or_eq_true]
    exact Instant.le_total _ _

private theorem live_perm (h : order.Perm r.entries) (now : Instant) :
    ((⟨order⟩ : Registry).live now).Perm (r.live now) := (h.map _).filter _

/-- Projects that were created at different instants have one order. -/
theorem eq_list_of_perm {listed : List Project} (hp : listed.Perm (r.live now))
    (hsorted : listed.Pairwise fun p q => p.createdAt.le q.createdAt = true)
    (hdistinct : ((r.live now).map (·.createdAt)).Nodup) : listed = r.list now := by
  refine List.Perm.eq_of_pairwise ?_ hsorted (pairwise_list r now)
    (hp.trans (list_perm_live r now).symm)
  intro p q hmem hmem' hle hle'
  have hp : p ∈ r.live now := hp.subset hmem
  have hq : q ∈ r.live now := (list_perm_live r now).subset hmem'
  exact List.inj_on_of_nodup_map hdistinct hp hq (Instant.le_antisymm hle hle')

/-- In every registry that calls lead to, and in whatever order its entries are gone through, the
list has each live project once and nothing else, the oldest first. If no two live projects were
created at the same instant, the list is the same for all orders. -/
theorem list_sorted_in_every_order [Mock.Phrasebook] (hr : Reachable settings generator r)
    (horder : order.Perm r.entries) (now : Instant) :
    let listed := (⟨order⟩ : Registry).list now
    (∀ p, p ∈ listed ↔ ∃ id, r.get? now id = some p) ∧
    (listed.map (·.id)).Nodup ∧
    (listed.Pairwise fun p q => p.createdAt.le q.createdAt = true) ∧
    (((r.live now).map (·.createdAt)).Nodup → listed = r.list now) := by
  intro listed
  have hlive : listed.Perm (r.live now) := (list_perm_live _ now).trans (live_perm horder now)
  have hsorted := pairwise_list ⟨order⟩ now
  refine ⟨fun p => ?_, ?_, hsorted, eq_list_of_perm hlive hsorted⟩
  · rw [hlive.mem_iff, hr.indexed.keyed.mem_live_iff]
  · exact (hlive.map _).nodup_iff.mpr (hr.indexed.nodup_liveIds now)

/-- The later of two clock readings is stored first, and a third project is deactivated. -/
def crossed : List Concurrent.Step :=
  [.prepare ⟨2, 0⟩ "a" { name := "A", interfaceCode := "a: Date" },
   .prepare ⟨1, 0⟩ "b" { name := "B", interfaceCode := "b: number" },
   .store "a",
   .store "b",
   .prepare ⟨3, 0⟩ "c" { name := "C", interfaceCode := "c: email" },
   .store "c",
   .whole ⟨⟨4, 0⟩, .deactivate "c"⟩ rfl]

theorem crossed_listed :
    let r := (Concurrent.run {} {} crossed).registry
    r.entries.map (·.1) = ["a", "b", "c"] ∧ (r.list ⟨5, 0⟩).map (·.id) = ["b", "a"] ∧
      (∀ p, p ∈ (⟨r.entries.reverse⟩ : Registry).list ⟨5, 0⟩ ↔
        ∃ id, r.get? ⟨5, 0⟩ id = some p) ∧
      (⟨r.entries.reverse⟩ : Registry).list ⟨5, 0⟩ = r.list ⟨5, 0⟩ := by
  intro r
  have hr : Reachable {} {} r := ⟨crossed, rfl⟩
  obtain ⟨hmem, -, -, hsame⟩ :=
    list_sorted_in_every_order hr r.entries.reverse_perm ⟨5, 0⟩
  have hlist : (r.live ⟨5, 0⟩).reverse = r.list ⟨5, 0⟩ :=
    eq_list_of_perm (List.reverse_perm _) (by decide) (by decide)
  refine ⟨by decide, ?_, hmem, hsame (by decide)⟩
  rw [← hlist]
  decide

end MockServer.Registry
