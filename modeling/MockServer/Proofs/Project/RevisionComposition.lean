import Mathlib.Data.List.Forall2
import MockServer.Proofs.Project.Conservation

/-!
Revisions at the same instant act as one. Each field has the value of the last revision that gives
it, so revisions that give different fields can come in any order.
-/
namespace MockServer

open MockServer.Time

namespace Revision

/-- What a revision and an earlier one give together. A field that both give is that of the later
one. -/
def overlay (later earlier : Revision) : Revision where
  name := later.name.or earlier.name
  description := later.description.or earlier.description
  interfaceCode := later.interfaceCode.or earlier.interfaceCode
  method := later.method.or earlier.method
  expectedStatusCodes := later.expectedStatusCodes.or earlier.expectedStatusCodes
  expirationHours := later.expirationHours.or earlier.expirationHours

/-- No field is given by both. -/
structure Apart (u v : Revision) : Prop where
  name : u.name = none ∨ v.name = none
  description : u.description = none ∨ v.description = none
  interfaceCode : u.interfaceCode = none ∨ v.interfaceCode = none
  method : u.method = none ∨ v.method = none
  expectedStatusCodes : u.expectedStatusCodes = none ∨ v.expectedStatusCodes = none
  expirationHours : u.expirationHours = none ∨ v.expirationHours = none

variable {u v : Revision} {now : Instant}

private theorem overlay_self (u : Revision) : u.overlay u = u := by
  simp only [overlay, Option.or_self]

private theorem or_comm_of_none {α : Type} {a b : Option α} (h : a = none ∨ b = none) :
    a.or b = b.or a := by
  rcases h with rfl | rfl <;> simp

private theorem Apart.overlay_comm (h : u.Apart v) : u.overlay v = v.overlay u := by
  rw [overlay, overlay, or_comm_of_none h.name, or_comm_of_none h.description,
    or_comm_of_none h.interfaceCode, or_comm_of_none h.method,
    or_comm_of_none h.expectedStatusCodes, or_comm_of_none h.expirationHours]

/-- A revision passes if each of its fields does. -/
theorem check_of_fields (hname : ∀ name, u.name = some name → checkText name = .ok ())
    (hcode : ∀ code, u.interfaceCode = some code → checkText code = .ok ())
    (hhours : checkHours u.expirationHours = .ok ()) : u.check = .ok () := by
  unfold check
  cases hn : u.name <;> cases hc : u.interfaceCode
  case none.none => exact hhours
  case none.some code =>
    change (checkText code >>= fun _ => checkHours u.expirationHours) = .ok ()
    rw [hcode code hc]
    exact hhours
  case some.none name =>
    change (checkText name >>= fun _ => checkHours u.expirationHours) = .ok ()
    rw [hname name hn]
    exact hhours
  case some.some name code =>
    change (checkText name >>= fun _ => checkText code >>= fun _ =>
      checkHours u.expirationHours) = .ok ()
    rw [hname name hn, hcode code hc]
    exact hhours

private theorem check_overlay (hu : u.check = .ok ()) (hv : v.check = .ok ()) :
    (v.overlay u).check = .ok () := by
  obtain ⟨hname, hcode, hhours⟩ := check_eq_ok hu
  obtain ⟨hname', hcode', hhours'⟩ := check_eq_ok hv
  refine check_of_fields ?_ ?_ ?_
  · intro name h
    rcases Option.or_eq_some_iff.mp h with h | ⟨-, h⟩
    · exact hname' name h
    · exact hname name h
  · intro code h
    rcases Option.or_eq_some_iff.mp h with h | ⟨-, h⟩
    · exact hcode' code h
    · exact hcode code h
  · change checkHours (v.expirationHours.or u.expirationHours) = .ok ()
    cases hh : v.expirationHours with
    | none => exact hhours
    | some hours =>
      rw [hh] at hhours'
      exact hhours'

private theorem apply_apply (u v : Revision) (now : Instant) (p : Project) :
    v.apply now (u.apply now p) = (v.overlay u).apply now p := by
  simp only [apply, overlay, Option.getD_or, Option.map_or, Option.or_assoc]

end Revision

namespace Registry

variable {r : Registry} {now : Instant} {id : String} {p : Project} {u v : Revision}

private theorem modify_modify (r : Registry) (id : String) (f g : Project → Project) :
    (r.modify id f).modify id g = r.modify id fun p => g (f p) := by
  simp only [modify, List.map_map]
  congr 1
  apply List.map_congr_left
  intro e _
  by_cases he : e.1 = id <;> simp [he]

/-- An active project is revised by any revision that passes. -/
theorem update_of_active (hu : u.check = .ok ()) (found : r.find? id = some p)
    (active : p.isActive = true) :
    r.update now id u = .ok (some (u.apply now p), r.modify id (u.apply now)) := by
  have hfilter : (r.find? id).filter (·.isActive) = some p :=
    Option.filter_eq_some_iff.mpr ⟨found, active⟩
  rw [update, hu, hfilter]
  rfl

/-- Nothing differs but the project of an id, which stays the same project and as active as it
was. -/
def RevisesOnly (id : String) (r r' : Registry) : Prop :=
  List.Forall₂ (fun e e' =>
    if e.1 = id then e'.1 = id ∧ Concurrent.SameProject e.2 e'.2 ∧ e'.2.isActive = e.2.isActive
    else e' = e) r.entries r'.entries

/-- Every update is confined to the project of its id, also one that finds nothing to change. -/
theorem revisesOnly_update {r' : Registry} {q : Option Project}
    (h : r.update now id u = .ok (q, r')) : RevisesOnly id r r' := by
  obtain ⟨-, ⟨p, -, -, -, rfl⟩ | ⟨-, -, rfl⟩⟩ := update_eq_ok h
  · rw [RevisesOnly, modify, List.forall₂_map_right_iff, List.forall₂_same]
    intro e _
    by_cases he : e.1 = id
    · simp only [if_pos he]
      exact ⟨he, ⟨rfl, rfl, rfl, rfl⟩, rfl⟩
    · simp only [if_neg he]
  · rw [RevisesOnly, List.forall₂_same]
    intro e _
    by_cases he : e.1 = id
    · rw [if_pos he]
      exact ⟨he, .refl _, rfl⟩
    · rw [if_neg he]

/-- A revision and, at the same instant, another one of what it leaves. -/
def updateTwice (r : Registry) (now : Instant) (id : String) (u v : Revision) :
    Except ProjectError (Option Project × Registry) := do
  let (_, after) ← r.update now id u
  after.update now id v

private theorem updateTwice_eq (found : r.find? id = some p) (active : p.isActive = true)
    (hu : u.check = .ok ()) (hv : v.check = .ok ()) :
    r.updateTwice now id u v = r.update now id (v.overlay u) := by
  have hfound : (r.modify id (u.apply now)).find? id = some (u.apply now p) := by
    rw [find?_modify, found, Option.map_some]
  rw [updateTwice, update_of_active hu found active,
    update_of_active (Revision.check_overlay hu hv) found active]
  dsimp only [bind, Except.bind]
  rw [update_of_active hv hfound active, modify_modify]
  simp only [Revision.apply_apply]

variable (now) in
/-- Two revisions of an active project at one instant have the effect of a single one, in which the
later one has precedence. Without a field in common their order does not matter, and a revision that
is repeated changes nothing more. None is refused, and no revision goes beyond its project and what
can be revised of it. -/
theorem revisions_compose (found : r.find? id = some p) (active : p.isActive = true)
    (hu : u.check = .ok ()) (hv : v.check = .ok ()) :
    r.updateTwice now id u v = r.update now id (v.overlay u) ∧
    (∃ q after, r.update now id (v.overlay u) = .ok (some q, after)) ∧
    (u.Apart v → r.updateTwice now id u v = r.updateTwice now id v u) ∧
    r.updateTwice now id u u = r.update now id u ∧
    ∀ w q after, r.update now id w = .ok (q, after) → RevisesOnly id r after := by
  refine ⟨updateTwice_eq found active hu hv, ?_, ?_, ?_, fun w q after => revisesOnly_update⟩
  · exact ⟨_, _, update_of_active (Revision.check_overlay hu hv) found active⟩
  · intro hapart
    rw [updateTwice_eq found active hu hv, updateTwice_eq found active hv hu, hapart.overlay_comm]
  · rw [updateTwice_eq found active hu hu, Revision.overlay_self]

/-- A project of an hour and another one. -/
def neighbours : Registry :=
  run {} {}
    [⟨⟨0, 0⟩, .create "a" { name := "A", interfaceCode := "a: Date", expirationHours := some 1 }⟩,
     ⟨⟨1, 0⟩, .create "b" { name := "B", interfaceCode := "b: number" }⟩]

def renewal : Revision := { name := some "Z", expirationHours := some 2 }

def relabelling : Revision := { description := some "kept", method := some .post }

theorem renewal_and_relabelling :
    ∃ q after, neighbours.updateTwice ⟨3600, 0⟩ "a" renewal relabelling = .ok (some q, after) ∧
      neighbours.updateTwice ⟨3600, 0⟩ "a" relabelling renewal = .ok (some q, after) ∧
      q.name = "Z" ∧ q.description = some "kept" ∧ q.interfaceCode = "a: Date" ∧
      q.method = .post ∧ q.expiresAt = ⟨10800, 0⟩ ∧
      neighbours.updateTwice ⟨3600, 0⟩ "a" renewal renewal =
        neighbours.update ⟨3600, 0⟩ "a" renewal ∧
      RevisesOnly "a" neighbours after := by
  obtain ⟨p, hp, hactive⟩ : ∃ p, neighbours.find? "a" = some p ∧ p.isActive = true :=
    ⟨_, rfl, rfl⟩
  have hu : renewal.check = .ok () := by decide
  have hv : relabelling.check = .ok () := by decide
  have hapart : renewal.Apart relabelling :=
    ⟨.inr rfl, .inl rfl, .inl rfl, .inl rfl, .inl rfl, .inr rfl⟩
  obtain ⟨hone, -, horder, hrepeated, hrest⟩ :=
    revisions_compose ⟨3600, 0⟩ hp hactive hu hv
  obtain ⟨q, after, hq, hname, hdescription, hcode, hmethod, hexpiry⟩ :
      ∃ q after, neighbours.update ⟨3600, 0⟩ "a" (relabelling.overlay renewal) =
          .ok (some q, after) ∧ q.name = "Z" ∧ q.description = some "kept" ∧
        q.interfaceCode = "a: Date" ∧ q.method = .post ∧ q.expiresAt = ⟨10800, 0⟩ :=
    ⟨_, _, rfl, by decide, by decide, by decide, by decide, by decide⟩
  have htwice := hone.trans hq
  exact ⟨q, after, htwice, (horder hapart).symm.trans htwice, hname, hdescription, hcode, hmethod,
    hexpiry, hrepeated, hrest _ _ _ hq⟩

end Registry
end MockServer
