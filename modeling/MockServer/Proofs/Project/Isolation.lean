import MockServer.Proofs.Project.Part

/-!
Projects do not disturb each other. Once a project has been made, all that is answered about it can
be had from the calls about it and the cleanups alone.
-/
namespace MockServer.Registry

open MockServer.Time

variable {settings : ProjectSettings} {generator : GeneratorSettings}
variable {r : Registry} {c : Call} {calls : List Call} {id : String}

/-- The test that keeps a single id. -/
def only (id key : String) : Bool := key == id

private theorem only_self (id : String) : only id id = true := beq_self_eq_true id

private theorem only_of_ne {key : String} (h : key ≠ id) : only id key = false := beq_false_of_ne h

/-- The calls about a project and those about none in particular, without the calls about other
projects. -/
def concerning (id : String) (calls : List Call) : List Call :=
  calls.filter fun c => c.operation.id?.all (· == id)

/-- What a transcript tells about a project. -/
def about (id : String) (t : List (Call × Answer)) : List (Call × Answer) :=
  t.filter fun e => e.1.operation.id? == some id

private theorem concerning_cons (h : c.operation.id?.all (· == id)) :
    concerning id (c :: calls) = c :: concerning id calls := List.filter_cons_of_pos h

private theorem concerning_cons_of_other (h : ¬ c.operation.id?.all (· == id)) :
    concerning id (c :: calls) = concerning id calls := List.filter_cons_of_neg h

variable {e : Call × Answer} {t : List (Call × Answer)}

private theorem about_cons (h : e.1.operation.id? = some id) :
    about id (e :: t) = e :: about id t :=
  List.filter_cons_of_pos (beq_iff_eq.mpr h)

private theorem about_cons_of_other (h : e.1.operation.id? ≠ some id) :
    about id (e :: t) = about id t :=
  List.filter_cons_of_neg (mt beq_iff_eq.mp h)

section

variable [Mock.Phrasebook]

/-- A call about a project does the same where there is no other, unless it is to make the project
and finds the limit reached. -/
theorem perform_alone (hid : c.operation.id? = some id)
    (hroom : c.operation.newId? = some id →
      ∀ n, (r.perform settings generator c).1 ≠ .created (.error (.limitReached n))) :
    (r.part (only id)).perform settings generator c =
      ((r.perform settings generator c).1, (r.after settings generator c).part (only id)) := by
  apply perform_part hid (only_self id)
  intro d hop
  apply create_part_of_room (only_self id)
  intro n hfull
  refine hroom (by rw [hop]; rfl) n ?_
  rw [perform, hop]
  dsimp only
  rw [hfull]

/-- The entry of a project changes by the calls concerning it as it does by all calls, if no call to
make it finds the limit reached. -/
theorem about_transcript_part {calls : List Call} {r : Registry}
    (hroom : ∀ e ∈ transcript settings generator r calls, e.1.operation.newId? = some id →
      ∀ n, e.2 ≠ .created (.error (.limitReached n))) :
    about id (transcript settings generator (r.part (only id)) (concerning id calls)) =
      about id (transcript settings generator r calls) := by
  induction calls generalizing r with
  | nil => rfl
  | cons c later ih =>
    rw [transcript, List.forall_mem_cons] at hroom
    have hrest := ih hroom.2
    rw [transcript]
    cases hid : c.operation.id? with
    | none =>
      have hother : c.operation.id? ≠ some id := by simp [hid]
      rw [concerning_cons (by simp [hid]), transcript, about_cons_of_other hother,
        about_cons_of_other hother, after_part (Operation.writtenId?_of_id? hid)]
      exact hrest
    | some key =>
      by_cases hkey : key = id
      · subst hkey
        have hperform := perform_alone hid hroom.1
        rw [concerning_cons (by simp [hid]), transcript, about_cons hid, about_cons hid, after,
          hperform]
        exact congrArg _ hrest
      · have hother : c.operation.id? ≠ some id := by simp [hid, hkey]
        have hpart : (r.after settings generator c).part (only id) = r.part (only id) :=
          part_after hid (only_of_ne hkey)
        rw [concerning_cons_of_other (by simp [hid, hkey]), about_cons_of_other hother, ← hpart]
        exact hrest

/-- Once a project has been made with a fresh id, the calls about other projects make no difference
to it: without them it is made as well, and every call about it gets the same answer. Clock readings
may go in any direction. -/
theorem projects_isolated (hfresh : Fresh calls) {d : Draft} {p : Project}
    (hcall : c.operation = .create id d)
    (hcreated : (c, .created (.ok p)) ∈ transcript settings generator {} calls) :
    (c, .created (.ok p)) ∈ transcript settings generator {} (concerning id calls) ∧
      about id (transcript settings generator {} (concerning id calls)) =
        about id (transcript settings generator {} calls) := by
  have hroom : ∀ e ∈ transcript settings generator {} calls, e.1.operation.newId? = some id →
      ∀ n, e.2 ≠ .created (.error (.limitReached n)) := by
    rintro e he heid n hfull
    have hsame := hfresh.eq_of_newId? he hcreated heid (by rw [hcall]; rfl)
    rw [hsame] at hfull
    cases hfull
  have habout := about_transcript_part hroom
  have hin : (c, .created (.ok p)) ∈ about id (transcript settings generator {} calls) :=
    List.mem_filter.mpr ⟨hcreated, by rw [hcall]; exact beq_self_eq_true _⟩
  refine ⟨?_, habout⟩
  rw [← habout] at hin
  exact (List.mem_filter.mp hin).1

end

/-- A project that fills the registry up, so that a later one is refused, and what becomes of it
among calls about others. -/
def sharedRun : List Call :=
  [⟨⟨0, 0⟩, .create "b" { name := "B", interfaceCode := "b: Date" }⟩,
   ⟨⟨1, 0⟩, .create "a" { name := "A", interfaceCode := "a: number", expirationHours := some 1 }⟩,
   ⟨⟨2, 0⟩, .create "c" { name := "C", interfaceCode := "c: email" }⟩,
   ⟨⟨3, 0⟩, .update "b" { name := some "Z" }⟩,
   ⟨⟨4, 0⟩, .mockData "a" (some 2) [1, 2]⟩,
   ⟨⟨5, 0⟩, .deactivate "b"⟩,
   ⟨⟨6, 0⟩, .update "a" { method := some .post }⟩,
   ⟨⟨3602, 0⟩, .cleanup⟩,
   ⟨⟨3603, 0⟩, .get "a"⟩]

theorem sharedRun_isolated :
    Fresh sharedRun ∧ (concerning "a" sharedRun).map (·.now.seconds) = [1, 4, 6, 3602, 3603] ∧
      about "a" (transcript { maxProjects := 2 } {} {} (concerning "a" sharedRun)) =
        about "a" (transcript { maxProjects := 2 } {} {} sharedRun) := by
  have hfresh : Fresh sharedRun := by unfold Fresh; decide
  obtain ⟨p, hp⟩ : ∃ p, (transcript { maxProjects := 2 } {} {} sharedRun)[1]? =
      some (⟨⟨1, 0⟩, .create "a"
        { name := "A", interfaceCode := "a: number", expirationHours := some 1 }⟩,
        .created (.ok p)) := ⟨_, rfl⟩
  exact ⟨hfresh, by decide, (projects_isolated hfresh rfl (List.mem_of_getElem? hp)).2⟩

end MockServer.Registry
