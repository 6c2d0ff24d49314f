import Mathlib.Data.List.Infix
import MockServer.Proofs.Project.Cleanup
import MockServer.Proofs.Project.Concurrency

/-!
No project is lost or stored twice, whatever the order in which the steps of concurrent calls come.
A stored project is one that a creation has told of and that no cleanup has counted yet.
-/
namespace MockServer

namespace Answer

/-- How many new projects an answer tells of. -/
def made : Answer → Nat
  | .created (.ok _) => 1
  | _ => 0

/-- How many removed projects an answer tells of. -/
def gone : Answer → Nat
  | .removed count => count
  | _ => 0

private theorem made_and_gone_of_quiet {answer : Answer} (h : answer.isChange = false) :
    answer.made = 0 ∧ answer.gone = 0 := by
  cases answer with
  | created result =>
    cases result with
    | error => exact ⟨rfl, rfl⟩
    | ok => cases h
  | removed count =>
    refine ⟨rfl, ?_⟩
    simpa [isChange, gone] using h
  | _ => exact ⟨rfl, rfl⟩

end Answer

namespace Concurrent

open MockServer.Registry MockServer.Time

variable {settings : ProjectSettings} {generator : GeneratorSettings}
variable {s s' : State} {step : Step} {steps past later : List Step} {answer : Option Answer}
variable {id : String} {p q : Project}

/-- The sum of a count over answers. -/
def total (count : Answer → Nat) : List Answer → Nat
  | [] => 0
  | a :: later => count a + total count later

private theorem total_append (count : Answer → Nat) (l l' : List Answer) :
    total count (l ++ l') = total count l + total count l' := by
  induction l with
  | nil => exact (Nat.zero_add _).symm
  | cons a l ih => rw [List.cons_append, total, total, ih, Nat.add_assoc]

/-- A step changes the number of entries by what its answer tells. -/
theorem Sound.length_move (h : Sound settings steps s) (hm : Move settings s step answer s') :
    s'.registry.entries.length + total Answer.gone answer.toList =
      s.registry.entries.length + total Answer.made answer.toList := by
  cases hm with
  | refused | prepared | idle | full => rfl
  | @stored id before later p found =>
    have hp : p ∈ s.waiting := by rw [found]; simp
    rw [h.entries_insert hp, List.length_append]
    rfl
  | @cleaned now =>
    have hle : (s.registry.cleanup now).2.entries.length ≤ s.registry.entries.length :=
      List.length_filter_le _ _
    change (s.registry.cleanup now).2.entries.length +
      (s.registry.entries.length - (s.registry.cleanup now).2.entries.length + 0) = _
    rw [Nat.add_zero, Nat.add_sub_of_le hle]
    rfl
  | @whole call notNew a r other change =>
    cases change with
    | none quiet =>
      obtain ⟨hmade, hgone⟩ := Answer.made_and_gone_of_quiet quiet
      simp [total, hmade, hgone]
    | created call =>
      rw [call] at notNew
      cases notNew
    | updated | deactivated =>
      rw [← List.length_map (·.1), keys_modify, List.length_map]
      rfl
    | cleaned call => exact absurd call other

/-- At every point there are as many entries as projects that were made and not yet removed. -/
theorem length_run [Mock.Phrasebook] (h : Fresh steps) :
    (run settings generator steps).registry.entries.length +
        total Answer.gone (answers settings generator steps) =
      total Answer.made (answers settings generator steps) := by
  induction steps using List.reverseRecOn with
  | nil => rfl
  | append_singleton past step ih =>
    have hpast := h.of_prefix (List.prefix_append past [step])
    have hmove := (sound_run settings generator hpast).length_move
      (move_after settings generator (run settings generator past) step)
    have hanswers : answers settings generator (past ++ [step]) = answers settings generator past ++
        (perform settings generator (run settings generator past) step).1.toList := by
      rw [answers, answersFrom_append, answersFrom, answersFrom, List.append_nil]
      rfl
    have := ih hpast
    rw [hanswers, total_append, total_append, run_append]
    change (after settings generator (run settings generator past) step).registry.entries.length +
      _ = _
    omega

/-! One project -/

/-- What no call changes of a stored project. -/
structure SameProject (p q : Project) : Prop where
  id : q.id = p.id
  endpoint : q.endpoint = p.endpoint
  url : q.url = p.url
  createdAt : q.createdAt = p.createdAt

theorem SameProject.refl (p : Project) : SameProject p p := ⟨rfl, rfl, rfl, rfl⟩

private theorem SameProject.trans {o : Project} (h : SameProject o p) (h' : SameProject p q) :
    SameProject o q :=
  ⟨h'.id.trans h.id, h'.endpoint.trans h.endpoint, h'.url.trans h.url,
    h'.createdAt.trans h.createdAt⟩

/-- A step that is a cleanup past the expiry that is stored under an id. -/
def Ends (s : State) (step : Step) (id : String) : Prop :=
  ∃ now q, step = .whole ⟨now, .cleanup⟩ rfl ∧ (id, q) ∈ s.registry.entries ∧
    q.expiresAt.before now = true

private theorem mem_modify_of_mem {r : Registry} (key : String) (f : Project → Project)
    (h : (id, p) ∈ r.entries) (hf : SameProject p (f p)) :
    ∃ q, (id, q) ∈ (r.modify key f).entries ∧ SameProject p q := by
  by_cases hid : id = key
  · exact ⟨f p, List.mem_map.mpr ⟨(id, p), h, if_pos hid⟩, hf⟩
  · exact ⟨p, List.mem_map.mpr ⟨(id, p), h, if_neg hid⟩, .refl p⟩

private theorem Sound.keyed (h : Sound settings steps s) : s.registry.Keyed :=
  (List.nodup_append.mp h.distinct).1

/-- A stored project stays through every step but a cleanup past its expiry, which removes it. -/
theorem Sound.entry_move (h : Sound settings steps s) (hm : Move settings s step answer s')
    (hp : (id, p) ∈ s.registry.entries) :
    (Ends s step id ∧ id ∉ s'.ids) ∨
      (¬ Ends s step id ∧ ∃ q, (id, q) ∈ s'.registry.entries ∧ SameProject p q) := by
  cases hm with
  | refused | prepared | idle | full =>
    exact .inr ⟨fun ⟨_, _, hstep, _⟩ => Step.noConfusion hstep, p, hp, .refl p⟩
  | @stored _ before later w found =>
    have hw : w ∈ s.waiting := by rw [found]; simp
    refine .inr ⟨fun ⟨_, _, hstep, _⟩ => Step.noConfusion hstep, p, ?_, .refl p⟩
    rw [h.entries_insert hw]
    exact List.mem_append_left _ hp
  | @cleaned now =>
    by_cases hexpired : p.expiresAt.before now = true
    · refine .inl ⟨⟨now, p, rfl, hp, hexpired⟩, fun hid => ?_⟩
      rcases List.mem_append.mp hid with hid | hid
      · -- an entry that is left under the id would be the expired one
        have hgone := h.keyed.isNone_find?_cleanup hp now
        rw [hexpired, Option.isNone_iff_eq_none, find?_eq_none_iff] at hgone
        exact hgone hid
      · exact (List.nodup_append.mp h.distinct).2.2 id (List.mem_map_of_mem (f := (·.1)) hp) id hid
          rfl
    · refine .inr ⟨?_, p, mem_cleanup_iff.mpr ⟨hp, ?_⟩, .refl p⟩
      · rintro ⟨_, q, hstep, hq, hbefore⟩
        cases hstep
        cases h.keyed.eq_of_mem hq hp rfl
        exact hexpired hbefore
      · exact Instant.before_eq_false_iff.mp (Bool.eq_false_iff.mpr hexpired)
  | @whole call notNew a r other change =>
    refine .inr ⟨?_, ?_⟩
    · rintro ⟨_, _, hstep, _⟩
      cases hstep
      exact other rfl
    · cases change with
      | none => exact ⟨p, hp, .refl p⟩
      | created call =>
        rw [call] at notNew
        cases notNew
      | updated | deactivated => exact mem_modify_of_mem _ _ hp ⟨rfl, rfl, rfl, rfl⟩
      | cleaned call => exact absurd call other

/-- An id whose project is neither stored nor waiting does not come back. -/
theorem Sound.not_mem_ids (h : Sound settings steps s) (hm : Move settings s step answer s')
    (hfresh : ∀ id, step.newId? = some id → id ∉ newIds steps) (hknown : id ∈ newIds steps)
    (hid : id ∉ s.ids) : id ∉ s'.ids := by
  by_cases hnew : step.newId? = none ∨ answer ≠ none
  · exact fun hmem => hid ((h.ids_subperm hm hnew).subset hmem)
  · cases hm with
    | @prepared now key draft p ready =>
      obtain ⟨-, hids⟩ := ids_prepared (s := s) ready
      rw [hids, List.mem_append, List.mem_singleton]
      rintro (hmem | rfl)
      · exact hid hmem
      · exact hfresh id rfl hknown
    | idle => exact absurd (.inl rfl) hnew
    | refused | full | stored | cleaned | whole => exact absurd (.inr nofun) hnew

/-- A creation is refused when it is prepared, or it has waited and then is dropped. -/
theorem Sound.refused_move (h : Sound settings steps s) {e : ProjectError}
    (hm : Move settings s step (some (.created (.error e))) s')
    (hid : step.createdId? = some id) :
    (step.newId? = some id ∧ s' = s) ∨
      (∃ p ∈ s.waiting, p.id = id) ∧ id ∈ newIds steps ∧ id ∉ s'.ids := by
  cases hm with
  | refused => exact .inl ⟨hid, rfl⟩
  | @full key e before later p found same =>
    obtain rfl : key = id := Option.some.inj hid
    have hdistinct := h.distinct
    have hknown := h.known
    rw [State.ids, found, List.map_append, List.map_cons, same,
      ← List.append_assoc] at hdistinct hknown
    refine .inr ⟨⟨p, by simp [found], same⟩, hknown (by simp), fun hmem => ?_⟩
    refine (List.nodup_middle.mp hdistinct).notMem ?_
    rwa [State.ids, List.map_append, ← List.append_assoc] at hmem
  | whole => cases hid

/-- A creation that succeeds stores the project that it has prepared under the id that it has
brought. -/
theorem Sound.stored_move (h : Sound settings steps s)
    (hm : Move settings s (.store id) (some (.created (.ok p))) s') :
    p.id = id ∧ Prepared settings steps p ∧ (id, p) ∈ s'.registry.entries := by
  cases hm with
  | stored found same =>
    subst same
    have hp : p ∈ s.waiting := by rw [found]; simp
    rw [h.entries_insert hp]
    exact ⟨rfl, h.ready p hp, List.mem_append_right _ (List.mem_singleton_self _)⟩

/-- An id is that of one entry, which holds a given project. -/
structure StoredOnce (r : Registry) (id : String) (p : Project) : Prop where
  stored : (id, p) ∈ r.entries
  once : (r.entries.map (·.1)).count id = 1

private theorem Sound.storedOnce (h : Sound settings steps s) (hp : (id, p) ∈ s.registry.entries) :
    StoredOnce s.registry id p :=
  ⟨hp, List.count_eq_one_of_mem h.keyed (List.mem_map_of_mem (f := (·.1)) hp)⟩

section

variable [Mock.Phrasebook] (settings generator)

/-- One of the steps after some others is a cleanup past the expiry that an id then has. -/
def Outlived (past later : List Step) (id : String) : Prop :=
  ∃ before step rest, later = before ++ step :: rest ∧
    Ends (run settings generator (past ++ before)) step id

variable {settings generator}

private theorem outlived_concat : Outlived settings generator past (later ++ [step]) id ↔
    Outlived settings generator past later id ∨
      Ends (run settings generator (past ++ later)) step id := by
  constructor
  · rintro ⟨before, ending, rest, heq, hends⟩
    rcases List.eq_nil_or_concat rest with rfl | ⟨rest, last, rfl⟩
    · obtain ⟨rfl, hlast⟩ := List.append_inj' heq rfl
      cases hlast
      exact .inr hends
    · rw [List.concat_eq_append, ← List.cons_append, ← List.append_assoc] at heq
      exact .inl ⟨before, ending, rest, (List.append_inj' heq rfl).1, hends⟩
  · rintro (⟨before, ending, rest, rfl, hends⟩ | hends)
    · exact ⟨before, ending, rest ++ [step], by rw [List.append_assoc]; rfl, hends⟩
    · exact ⟨later, step, [], rfl, hends⟩

/-- An entry stays, for the same project, until a cleanup past its expiry. Then the id is gone. -/
theorem entry_run (h : Fresh (past ++ later))
    (hp : (id, p) ∈ (run settings generator past).registry.entries) :
    (Outlived settings generator past later id ∧ id ∈ newIds (past ++ later) ∧
        id ∉ (run settings generator (past ++ later)).ids) ∨
      (¬ Outlived settings generator past later id ∧
        ∃ q, (id, q) ∈ (run settings generator (past ++ later)).registry.entries ∧
          SameProject p q) := by
  induction later using List.reverseRecOn with
  | nil =>
    rw [List.append_nil]
    exact .inr ⟨fun ⟨_, _, _, heq, _⟩ => by simp at heq, p, hp, .refl p⟩
  | append_singleton later step ih =>
    rw [← List.append_assoc] at h ⊢
    have hbefore := h.of_prefix (List.prefix_append _ [step])
    have hsound := sound_run settings generator hbefore
    have hmove := move_after settings generator (run settings generator (past ++ later)) step
    rw [run_append, outlived_concat, newIds_append]
    rcases ih hbefore with ⟨hout, hknown, hid⟩ | ⟨hin, q, hq, hsame⟩
    · refine .inl ⟨.inl hout, List.mem_append_left _ hknown, ?_⟩
      exact hsound.not_mem_ids hmove (fun _ => h.not_mem_newIds) hknown hid
    · have hknown : id ∈ newIds (past ++ later) :=
        hsound.known (List.mem_append_left _ (List.mem_map_of_mem (f := (·.1)) hq))
      rcases hsound.entry_move hmove hq with ⟨hends, hid⟩ | ⟨hlasts, w, hw, hw'⟩
      · exact .inl ⟨.inr hends, List.mem_append_left _ hknown, hid⟩
      · refine .inr ⟨?_, w, hw, hsame.trans hw'⟩
        rintro (hout | hends)
        · exact hin hout
        · exact hlasts hends

variable (settings generator) in
/-- An id whose project is neither stored nor waiting never comes back. -/
theorem not_mem_ids_run (h : Fresh (past ++ later)) (hknown : id ∈ newIds past)
    (hid : id ∉ (run settings generator past).ids) :
    id ∉ (run settings generator (past ++ later)).ids := by
  induction later using List.reverseRecOn with
  | nil => rwa [List.append_nil]
  | append_singleton later step ih =>
    rw [← List.append_assoc] at h ⊢
    have hbefore := h.of_prefix (List.prefix_append _ [step])
    rw [run_append]
    refine (sound_run settings generator hbefore).not_mem_ids (move_after settings generator _ step)
      (fun _ => h.not_mem_newIds) ?_ (ih hbefore)
    rw [newIds_append]
    exact List.mem_append_left _ hknown

/-- A project that waits was not stored before. -/
theorem not_stored_of_waiting (h : Fresh (past ++ later))
    (hp : p ∈ (run settings generator (past ++ later)).waiting) :
    p.id ∉ (run settings generator past).registry.entries.map (·.1) := by
  intro hkey
  obtain ⟨⟨_, q⟩, hq, rfl⟩ := List.mem_map.mp hkey
  have hdistinct := (List.nodup_append.mp (sound_run settings generator h).distinct).2.2
  rcases entry_run h hq with ⟨-, -, hgone⟩ | ⟨-, w, hw, -⟩
  · exact hgone (List.mem_append_right _ (List.mem_map_of_mem hp))
  · exact hdistinct _ (List.mem_map_of_mem (f := (·.1)) hw) _ (List.mem_map_of_mem hp) rfl

/-- A creation that is refused has no entry at any point, be it refused when it is prepared or when
it is to be stored. -/
theorem refused_not_stored (h : Fresh (past ++ step :: later)) (hid : step.createdId? = some id)
    {e : ProjectError}
    (hrefused : (perform settings generator (run settings generator past) step).1 =
      some (.created (.error e)))
    {point : List Step} (hpoint : point <+: past ++ step :: later) :
    id ∉ (run settings generator point).registry.entries.map (·.1) := by
  have hpast : Fresh past := h.of_prefix (List.prefix_append past _)
  have hsound := sound_run settings generator hpast
  have hmove := move_after settings generator (run settings generator past) step
  rw [hrefused] at hmove
  have hcases := hsound.refused_move hmove hid
  have hbefore : ∀ early, early <+: past →
      id ∉ (run settings generator early).registry.entries.map (·.1) := by
    rintro early ⟨rest, rfl⟩ hkey
    rcases hcases with ⟨hnew, -⟩ | ⟨⟨p, hp, rfl⟩, -⟩
    · have hknown := (sound_run settings generator
        (hpast.of_prefix (List.prefix_append early rest))).known (List.mem_append_left _ hkey)
      refine h.not_mem_newIds hnew ?_
      rw [newIds_append]
      exact List.mem_append_left _ hknown
    · exact not_stored_of_waiting hpast hp hkey
  have hafter : id ∈ newIds (past ++ [step]) ∧
      id ∉ (run settings generator (past ++ [step])).ids := by
    rw [run_append, newIds_append]
    rcases hcases with ⟨hnew, hsame⟩ | ⟨-, hknown, hgone⟩
    · refine ⟨List.mem_append_right _ (List.mem_filterMap.mpr ⟨step, by simp, hnew⟩), ?_⟩
      change id ∉ (after settings generator (run settings generator past) step).ids
      rw [hsame]
      exact fun hmem => h.not_mem_newIds hnew (hsound.known hmem)
    · exact ⟨List.mem_append_left _ hknown, hgone⟩
  have hsplit : past ++ [step] <+: past ++ step :: later :=
    (List.prefix_append_right_inj past).mpr ⟨later, rfl⟩
  rcases List.prefix_or_prefix_of_prefix hpoint hsplit with hearly | ⟨rest, rfl⟩
  · rcases List.prefix_concat_iff.mp hearly with rfl | hearly
    · exact fun hkey => hafter.2 (List.mem_append_left _ hkey)
    · exact hbefore point hearly
  · have hgone := not_mem_ids_run settings generator
      (h.of_prefix hpoint) hafter.1 hafter.2
    exact fun hkey => hgone (List.mem_append_left _ hkey)

variable (settings generator) in
/-- Whatever the order of the steps and the clock readings: at every point as many projects are
stored as creations have told of and cleanups have not counted; a created project is stored once,
from its creation until a cleanup past the expiry that it then has; and a creation that was refused
is stored at no point. -/
theorem projects_conserved (h : Fresh steps) :
    (∀ past, past <+: steps →
      (run settings generator past).registry.entries.length +
          total Answer.gone (answers settings generator past) =
        total Answer.made (answers settings generator past)) ∧
    (∀ past id later p, past ++ .store id :: later <+: steps →
      (perform settings generator (run settings generator past) (.store id)).1 =
        some (.created (.ok p)) →
      p.id = id ∧ Prepared settings past p ∧
      StoredOnce (run settings generator (past ++ [.store id])).registry id p ∧
      (¬ Outlived settings generator (past ++ [.store id]) later id → ∃ q, SameProject p q ∧
        StoredOnce (run settings generator (past ++ .store id :: later)).registry id q) ∧
      (Outlived settings generator (past ++ [.store id]) later id →
        id ∉ (run settings generator (past ++ .store id :: later)).registry.entries.map (·.1))) ∧
    (∀ past step later id e, steps = past ++ step :: later → step.createdId? = some id →
      (perform settings generator (run settings generator past) step).1 =
        some (.created (.error e)) →
      ∀ point, point <+: steps →
        id ∉ (run settings generator point).registry.entries.map (·.1)) := by
  refine ⟨fun past hp => length_run (h.of_prefix hp), ?_, ?_⟩
  · intro past id later p hp hanswer
    have hfresh : Fresh (past ++ [.store id] ++ later) := by
      rw [List.append_assoc]
      exact h.of_prefix hp
    have hafter : Fresh (past ++ [.store id]) := hfresh.of_prefix (List.prefix_append _ later)
    have hmove := move_after settings generator (run settings generator past) (.store id)
    rw [hanswer] at hmove
    obtain ⟨hid, hprepared, hstored⟩ := (sound_run settings generator
      (hafter.of_prefix (List.prefix_append past _))).stored_move hmove
    have hstored : (id, p) ∈ (run settings generator (past ++ [.store id])).registry.entries := by
      rw [run_append]
      exact hstored
    have hsplit : past ++ .store id :: later = past ++ [.store id] ++ later := by
      rw [List.append_assoc]
      rfl
    rw [hsplit]
    refine ⟨hid, hprepared, (sound_run settings generator hafter).storedOnce hstored, ?_, ?_⟩
    all_goals intro hout
    · rcases entry_run hfresh hstored with ⟨hin, -⟩ | ⟨-, q, hq, hsame⟩
      · exact absurd hin hout
      · exact ⟨q, hsame, (sound_run settings generator hfresh).storedOnce hq⟩
    · rcases entry_run hfresh hstored with ⟨-, -, hgone⟩ | ⟨hin, -⟩
      · exact fun hkey => hgone (List.mem_append_left _ hkey)
      · exact absurd hout hin
  · rintro past step later id e rfl hid hrefused point hpoint
    exact refused_not_stored h hid hrefused hpoint

end

def oneProject : ProjectSettings := { maxProjects := 1 }

/-- Two clients want the only room at the same time, and a third one gives a blank name. Clocks go
back and forth, and the hour of the first project ends between the two cleanups. -/
def contest : List Step :=
  [.prepare ⟨1, 0⟩ "a" { name := "A", interfaceCode := "a: Date", expirationHours := some 1 },
   .prepare ⟨0, 0⟩ "b" { name := "B", interfaceCode := "b: number" },
   .store "a",
   .store "b",
   .prepare ⟨2, 0⟩ "c" { name := " ", interfaceCode := "c: email" },
   .whole ⟨⟨3600, 0⟩, .cleanup⟩ rfl,
   .whole ⟨⟨3, 0⟩, .deactivate "a"⟩ rfl,
   .whole ⟨⟨3602, 0⟩, .cleanup⟩ rfl]

/-- The first client's project is stored until the second cleanup; the others are never stored. -/
theorem contest_conserved :
    Fresh contest ∧
      (∃ p, StoredOnce (run oneProject {} (contest.take 3)).registry "a" p ∧
        ∃ q, q.isActive = false ∧ SameProject p q ∧
          StoredOnce (run oneProject {} (contest.take 7)).registry "a" q) ∧
      "a" ∉ (run oneProject {} contest).registry.entries.map (·.1) ∧
      (run oneProject {} contest).registry.entries.length +
          total Answer.gone (answers oneProject {} contest) =
        total Answer.made (answers oneProject {} contest) ∧
      total Answer.made (answers oneProject {} contest) = 1 ∧
      ∀ point, point <+: contest →
        "b" ∉ (run oneProject {} point).registry.entries.map (·.1) ∧
        "c" ∉ (run oneProject {} point).registry.entries.map (·.1) := by
  have hfresh : Fresh contest := by
    unfold Fresh
    decide
  obtain ⟨hcount, hstored, hrefused⟩ :=
    projects_conserved oneProject {} hfresh
  obtain ⟨p, hp⟩ : ∃ p, (perform oneProject {} (run oneProject {} (contest.take 2))
      (.store "a")).1 = some (.created (.ok p)) := ⟨_, rfl⟩
  have hexpiry : ∀ point ∈ contest.inits, ∀ e ∈ (run oneProject {} point).registry.entries,
      e.2.expiresAt = ⟨3601, 0⟩ := by decide
  have hinactive : ∀ e ∈ (run oneProject {} (contest.take 7)).registry.entries,
      e.2.isActive = false := by decide
  have hearly : ¬ Outlived oneProject {} (contest.take 3) ((contest.drop 3).take 4) "a" := by
    rintro ⟨before, step, rest, heq, now, q, rfl, hq, hbefore⟩
    have hinit : contest.take 3 ++ before <+: contest :=
      ⟨.whole ⟨now, .cleanup⟩ rfl :: rest ++ contest.drop 7, by
        rw [List.append_assoc, ← List.append_assoc before, ← heq]
        rfl⟩
    rw [hexpiry _ ((List.mem_inits _ _).mpr hinit) _ hq] at hbefore
    rcases before with _ | ⟨_, _ | ⟨_, _ | ⟨_, _ | ⟨_, _ | ⟨_, _⟩⟩⟩⟩⟩ <;> cases heq
    exact absurd hbefore (by decide)
  obtain ⟨-, -, honce, hkept, -⟩ := hstored (contest.take 2) "a" ((contest.drop 3).take 4) p
    ⟨contest.drop 7, rfl⟩ hp
  obtain ⟨q, hsame, hq⟩ := hkept hearly
  have hseven : contest.take 2 ++ .store "a" :: (contest.drop 3).take 4 = contest.take 7 := rfl
  rw [hseven] at hq
  have hlate : Outlived oneProject {} (contest.take 3) (contest.drop 3) "a" := by
    have hthree : contest.take 3 ++ (contest.drop 3).take 4 = contest.take 7 := rfl
    refine ⟨(contest.drop 3).take 4, _, [], rfl, ⟨3602, 0⟩, q, rfl, ?_, ?_⟩
    · rw [hthree]
      exact hq.stored
    · rw [hexpiry _ ((List.mem_inits _ _).mpr (List.take_prefix 7 contest)) _ hq.stored]
      decide
  obtain ⟨-, -, -, -, hgone⟩ := hstored (contest.take 2) "a" (contest.drop 3) p ⟨[], rfl⟩ hp
  refine ⟨hfresh, ⟨p, honce, q, hinactive _ hq.stored, hsame, hq⟩, hgone hlate,
    hcount contest ⟨[], rfl⟩, by decide, fun point hpoint => ⟨?_, ?_⟩⟩
  · exact hrefused (contest.take 3) (.store "b") (contest.drop 4) "b" (.limitReached 1) rfl rfl rfl
      point hpoint
  · have hblank : checkText " " = .error .blankText := by decide
    refine hrefused (contest.take 4) _ (contest.drop 5) "c" .blankText rfl rfl ?_ point hpoint
    rw [perform, Draft.prepare, hblank]
    rfl

end Concurrent
end MockServer
