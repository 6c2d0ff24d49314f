import MockServer.Proofs.Project.Consistency
import MockServer.Proofs.Project.Reachable
import MockServer.Proofs.Time.Hours

/-!
The time for which a project is there. Its expiry is the exact sum of a clock reading and the hours,
or the last instant of all; until then, and no longer, clients find the project as it was made.
-/
namespace MockServer.Registry

open MockServer.Time

variable {settings : ProjectSettings} {generator : GeneratorSettings}
variable {r r' : Registry} {c : Call} {answer : Answer} {id : String} {p : Project}

/-- No call of a transcript makes or changes the project of an id. Refused calls and cleanups are
no such calls. -/
def Untouched (id : String) (t : List (Call × Answer)) : Prop :=
  ∀ e ∈ t, e.2.isChange = true → e.1.operation.writtenId? ≠ some id

/-- A change to other projects brings no entry of this one. -/
theorem Change.mem_of_mem (hc : Change settings r c answer r')
    (hw : answer.isChange = true → c.operation.writtenId? ≠ some id)
    (he : (id, p) ∈ r'.entries) : (id, p) ∈ r.entries := by
  cases hc with
  | none => exact he
  | created call =>
    rcases mem_insert he with ⟨-, he⟩ | heq
    · exact he
    · exact absurd (by rw [call, (Prod.mk.inj heq).1]; rfl) (hw rfl)
  | updated call | deactivated call =>
    rcases mem_modify he with ⟨-, he⟩ | ⟨q, -, heq⟩
    · exact he
    · exact absurd (by rw [call, (Prod.mk.inj heq).1]; rfl) (hw rfl)
  | cleaned => exact mem_cleanup he

/-- A change to other projects keeps the entry of this one, unless it is a cleanup that comes after
its expiry. -/
theorem Change.mem_of_untouched (hc : Change settings r c answer r')
    (hw : answer.isChange = true → c.operation.writtenId? ≠ some id)
    (hdue : c.now.le p.expiresAt = true) (he : (id, p) ∈ r.entries) : (id, p) ∈ r'.entries := by
  have hmodify {key : String} (hkey : key ≠ id) (f : Project → Project) :
      (id, p) ∈ (r.modify key f).entries :=
    List.mem_map.mpr ⟨(id, p), he, if_neg (Ne.symm hkey)⟩
  have hother {key : String} (hchange : answer.isChange = true)
      (hkey : c.operation.writtenId? = some key) : key ≠ id := by
    rintro rfl
    exact hw hchange hkey
  cases hc with
  | none => exact he
  | @created key draft q call =>
    cases hfind : r.find? key with
    | none =>
      rw [insert_of_none hfind]
      exact List.mem_append_left _ he
    | some q' =>
      rw [insert_of_isSome (by rw [hfind]; rfl)]
      exact hmodify (hother rfl (by rw [call]; rfl)) _
  | updated call | deactivated call => exact hmodify (hother rfl (by rw [call]; rfl)) _
  | cleaned => exact mem_cleanup_iff.mpr ⟨he, hdue⟩

section

variable [Mock.Phrasebook]

private theorem run_append_cons (past later : List Call) (c : Call) :
    run settings generator (past ++ c :: later) =
      later.foldl (after settings generator)
        ((run settings generator past).after settings generator c) := by
  rw [run, List.foldl_append]
  rfl

private theorem mem_of_mem_later {later : List Call}
    (ht : Untouched id (transcript settings generator r later))
    (he : (id, p) ∈ (later.foldl (after settings generator) r).entries) : (id, p) ∈ r.entries := by
  induction later generalizing r with
  | nil => exact he
  | cons c later ih =>
    rw [Untouched, transcript, List.forall_mem_cons] at ht
    exact (change_after settings generator r c).mem_of_mem ht.1 (ih ht.2 he)

private theorem mem_later {later : List Call}
    (ht : Untouched id (transcript settings generator r later))
    (hdue : ∀ c ∈ later, c.now.le p.expiresAt = true) (he : (id, p) ∈ r.entries) :
    (id, p) ∈ (later.foldl (after settings generator) r).entries := by
  induction later generalizing r with
  | nil => exact he
  | cons c later ih =>
    rw [Untouched, transcript, List.forall_mem_cons] at ht
    rw [List.forall_mem_cons] at hdue
    exact ih ht.2 hdue.2 ((change_after settings generator r c).mem_of_untouched ht.1 hdue.1 he)

/-- What has been made is stored as the draft has it, and nothing else is under its id. -/
theorem entry_of_created {now : Instant} {d : Draft}
    (h : (r.perform settings generator ⟨now, .create id d⟩).1 = .created (.ok p)) :
    checkHours d.expirationHours = .ok () ∧ p = d.project settings now id ∧
      ∀ q, (id, q) ∈ (r.after settings generator ⟨now, .create id d⟩).entries ↔ q = p := by
  have hc := change_after settings generator r ⟨now, .create id d⟩
  rw [h] at hc
  generalize r.after settings generator ⟨now, .create id d⟩ = r' at hc
  cases hc with
  | none quiet => cases quiet
  | created call prepared =>
    obtain ⟨rfl, rfl⟩ := Operation.create.inj call
    obtain ⟨⟨-, -, hhours⟩, hp⟩ := Draft.prepare_eq_ok prepared
    refine ⟨hhours, hp, fun q => ⟨fun hq => ?_, ?_⟩⟩
    · rcases mem_insert hq with ⟨hne, -⟩ | heq
      · exact absurd rfl hne
      · exact (Prod.mk.inj heq).2
    · rintro rfl
      cases hfind : r.find? id with
      | none =>
        rw [insert_of_none hfind]
        exact List.mem_append_right _ (List.mem_singleton_self _)
      | some old =>
        rw [insert_of_isSome (by rw [hfind]; rfl)]
        exact List.mem_map.mpr ⟨(id, old), mem_of_find? hfind, if_pos rfl⟩

/-- Hours after a clock reading are exact up to the last instant, lead to a later one and keep the
order; hence a project that no later call makes or changes is found, as it was made, at every time
before its expiry and at none from then on. -/
theorem lasts_until_expiry {s : Settings} (hs : s.violations = []) :
    (∀ now : Instant, now.IsReading → ∀ hours : UInt64, hours ≠ 0 →
      now.addHours hours =
          Instant.earlier (now.addSeconds (hours.toNat * 3600)) Instant.max ∧
        now.before (now.addHours hours) = true) ∧
    (∀ a b : Instant, a.IsReading → b.IsReading → a.le b = true → ∀ h k : UInt64, h ≤ k →
      (a.addHours h).le (b.addHours k) = true) ∧
    ∀ (past later : List Call) (now : Instant) (id : String) (d : Draft) (p : Project),
      now.IsReading →
      let made : Call := ⟨now, .create id d⟩
      let before := run s.projects s.generator past
      (before.perform s.projects s.generator made).1 = .created (.ok p) →
      Untouched id (transcript s.projects s.generator
        (before.after s.projects s.generator made) later) →
      let hours := d.expirationHours.getD s.projects.defaultExpirationHours
      let r := run s.projects s.generator (past ++ made :: later)
      hours ≠ 0 ∧ p.expiresAt = now.addHours hours ∧
        (∀ t, now.le t = true → t.before p.expiresAt = true →
          (∀ c ∈ later, c.now.le t = true) → r.get? t id = some p) ∧
        ∀ t, p.expiresAt.le t = true → r.get? t id = none := by
  refine ⟨fun now hnow hours hne => ?_, fun a b ha _ hab h k hhk => ?_, ?_⟩
  · exact ⟨Instant.addHours_eq_earlier hnow.inRange hours,
      Instant.before_addHours hne hnow.notLast⟩
  · exact Instant.addHours_mono ha.inRange hab hhk
  intro past later now id d p _ made before hmade htouch hours r
  obtain ⟨hhours, rfl, hentry⟩ := entry_of_created hmade
  have hkeyed : r.Keyed := keyed_run _
  have hr : r = later.foldl (after s.projects s.generator)
      (before.after s.projects s.generator made) := run_append_cons past later made
  refine ⟨ne_zero_of_draft hhours (defaultExpirationHours_ne_zero hs), rfl, ?_, ?_⟩
  · intro t _ hlive hclock
    refine hkeyed.get?_eq_some_iff.mpr ⟨?_, hlive⟩
    have hdue : ∀ c ∈ later, c.now.le (d.project s.projects now id).expiresAt = true :=
      fun c hc => Instant.le_trans (hclock c hc) (Instant.le_of_before hlive)
    rw [hr]
    exact mem_later htouch hdue ((hentry _).mpr rfl)
  · intro t hover
    rw [Option.eq_none_iff_forall_ne_some]
    intro q hq
    obtain ⟨hmem, hlive⟩ := hkeyed.get?_eq_some_iff.mp hq
    rw [hr] at hmem
    obtain rfl := (hentry q).mp (mem_of_mem_later htouch hmem)
    have hbefore := (Bool.and_eq_true_iff.mp hlive).2
    rw [Instant.before_eq_false_iff.mpr hover] at hbefore
    cases hbefore

end

/-- A draft with the most hours that fit a word. -/
def endlessDraft : Draft :=
  { name := "A", interfaceCode := "a: Date", expirationHours := some 0xFFFFFFFFFFFFFFFF }

def otherProject : List Call :=
  [⟨⟨0, 0⟩, .create "b" { name := "B", interfaceCode := "b: Date" }⟩]

/-- What happens after the first project has been made from the draft: a revision of it is refused,
and the other one is changed, deactivated and removed. -/
def eventfulRun : List Call :=
  [⟨⟨2, 0⟩, .update "a" { name := some " ", expirationHours := some 1 }⟩,
   ⟨⟨3, 0⟩, .update "b" { name := some "Z", expirationHours := some 2 }⟩,
   ⟨⟨4, 0⟩, .deactivate "b"⟩,
   ⟨⟨7205, 0⟩, .cleanup⟩]

/-- The project is found until the last nanosecond but one. -/
theorem endless_project_lasts :
    let r := run {} {} (otherProject ++ ⟨⟨1, 0⟩, .create "a" endlessDraft⟩ :: eventfulRun)
    r.entries.map (·.1) = ["a"] ∧
      r.get? ⟨8210266876799, 999999998⟩ "a" = some (endlessDraft.project {} ⟨1, 0⟩ "a") ∧
      r.get? ⟨8210266876799, 999999999⟩ "a" = none := by
  intro r
  have hs : ({} : Settings).violations = [] := by decide
  have hreading : Instant.IsReading ⟨1, 0⟩ := ⟨by decide, by decide⟩
  have hmade : ((run {} {} otherProject).perform {} {} ⟨⟨1, 0⟩, .create "a" endlessDraft⟩).1 =
      .created (.ok (endlessDraft.project {} ⟨1, 0⟩ "a")) := rfl
  have htouch : Untouched "a" (transcript {} {}
      ((run {} {} otherProject).after {} {} ⟨⟨1, 0⟩, .create "a" endlessDraft⟩) eventfulRun) := by
    unfold Untouched
    decide
  obtain ⟨-, -, hlasts⟩ := lasts_until_expiry hs
  obtain ⟨-, -, hfound, hgone⟩ := hlasts otherProject eventfulRun _ _ _ _ hreading hmade htouch
  exact ⟨by decide, hfound _ (by decide) (by decide) (by decide), hgone _ (by decide)⟩

end MockServer.Registry
