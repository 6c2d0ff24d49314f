import MockServer.Proofs.Project.Run
import MockServer.Proofs.Time.Order

/-!
The limit on live projects. It is checked for new projects alone, so the runs that keep it are those
in which no revision brings back an expired project while the limit is reached.
-/
namespace MockServer.Registry

open MockServer.Time

variable {settings : ProjectSettings} {generator : GeneratorSettings}

/-- How many stored projects are live. -/
def liveCount (r : Registry) (now : Instant) : Nat := (r.live now).length

theorem liveCount_eq_countP (r : Registry) (now : Instant) :
    r.liveCount now = r.entries.countP (fun e => e.2.isLive now) := by
  rw [liveCount, live, ← List.countP_eq_length_filter, List.countP_map]
  rfl

/-- Time alone makes no project live. -/
theorem liveCount_antitone (r : Registry) {a b : Instant} (hab : a.le b = true) :
    r.liveCount b ≤ r.liveCount a := by
  simp only [liveCount_eq_countP]
  apply List.countP_mono_left
  intro e _ he
  simp only [Project.isLive, Bool.and_eq_true] at he ⊢
  exact ⟨he.1, Instant.before_of_le_of_before hab he.2⟩

/-- A change of one entry moves a count by what it does to that entry. -/
theorem countP_modify {l : List (String × Project)} (hk : (l.map (·.1)).Nodup) {id : String}
    {p : Project} (hp : l.lookup id = some p) (f : Project → Project) (q : Project → Bool) :
    (l.map fun e => if e.1 = id then (e.1, f e.2) else e).countP (fun e => q e.2) +
        (if q p then 1 else 0) =
      l.countP (fun e => q e.2) + if q (f p) then 1 else 0 := by
  induction l with
  | nil => simp at hp
  | cons e l ih =>
    obtain ⟨key, s⟩ := e
    rw [List.map_cons, List.nodup_cons] at hk
    by_cases hkey : key = id
    · subst hkey
      rw [List.lookup_cons_self, Option.some.injEq] at hp
      subst hp
      rw [List.map_cons, map_eq_self_of_not_mem hk.1]
      simp only [if_true, List.countP_cons]
      omega
    · rw [List.lookup_cons, beq_false_of_ne (Ne.symm hkey)] at hp
      have := ih hk.2 hp
      simp only [List.map_cons, if_neg hkey, List.countP_cons]
      omega

private theorem liveCount_modify {r : Registry} (hk : r.Keyed) {id : String} {p : Project}
    (hp : r.find? id = some p) (f : Project → Project) (now : Instant) :
    (r.modify id f).liveCount now + (if p.isLive now then 1 else 0) =
      r.liveCount now + if (f p).isLive now then 1 else 0 := by
  simp only [liveCount_eq_countP]
  exact countP_modify hk hp f (·.isLive now)

private theorem liveCount_insert_le {r : Registry} (hk : r.Keyed) (id : String) (p : Project)
    (now : Instant) : (r.insert id p).liveCount now ≤ r.liveCount now + 1 := by
  cases hf : r.find? id with
  | some q =>
    rw [insert_of_isSome (by rw [hf]; rfl)]
    have h := liveCount_modify hk hf (fun _ => p) now
    have hone : (if p.isLive now then 1 else 0) ≤ 1 := by split <;> omega
    omega
  | none =>
    rw [insert_of_none hf, liveCount_eq_countP, liveCount_eq_countP, List.countP_append]
    have hone := List.countP_le_length (p := fun e : String × Project => e.2.isLive now)
      (l := [(id, p)])
    simp only [List.length_singleton] at hone
    omega

private theorem Clocked.le_of_prefix {calls past : List Call} {c : Call} (hc : Clocked calls)
    (hp : past ++ [c] <+: calls) {d : Call} (hd : d ∈ past) : d.now.le c.now = true :=
  (List.pairwise_append.mp (List.Pairwise.sublist hp.sublist hc)).2.2 d hd c
    (List.mem_singleton_self c)

section

variable [Mock.Phrasebook] (settings generator)

/-- A revision that makes a project live which was not. -/
def Revives (r : Registry) (c : Call) : Prop :=
  ∃ id u, c.operation = .update id u ∧ r.get? c.now id = none ∧
    ((r.after settings generator c).get? c.now id).isSome

variable {settings generator}

/-- All other calls keep the count or stay within the limit. -/
theorem liveCount_after_le {r : Registry} (hk : r.Keyed) {c : Call}
    (hc : ¬ Revives settings generator r c) :
    (r.after settings generator c).liveCount c.now ≤
      max (r.liveCount c.now) settings.maxProjects.toNat := by
  have hchange := change_after settings generator r c
  generalize (r.perform settings generator c).1 = answer at hchange
  generalize hr : r.after settings generator c = r' at hchange ⊢
  cases hchange with
  | none => exact Nat.le_max_left _ _
  | @created id draft p call prepared room =>
    have h := liveCount_insert_le hk id p c.now
    exact Nat.le_trans (Nat.le_trans h room) (Nat.le_max_right _ _)
  | @updated id u p call checked found active =>
    refine Nat.le_trans ?_ (Nat.le_max_left _ _)
    have h := liveCount_modify hk found (u.apply c.now) c.now
    by_cases hp : p.isLive c.now = true
    · rw [if_pos hp] at h
      have hone : (if (u.apply c.now p).isLive c.now then 1 else 0) ≤ 1 := by split <;> omega
      omega
    · rw [if_neg hp] at h
      by_cases hq : (u.apply c.now p).isLive c.now = true
      · refine absurd ⟨id, u, call, ?_, ?_⟩ hc
        · rw [get?, found]
          simp [hp]
        · rw [hr, get?, find?_modify, found]
          simp [hq]
      · rw [if_neg hq] at h
        omega
  | @deactivated id p call found =>
    refine Nat.le_trans ?_ (Nat.le_max_left _ _)
    have h := liveCount_modify hk found
      (fun p => { p with isActive := false, updatedAt := c.now }) c.now
    simp only [Project.isLive, Bool.false_and, Bool.false_eq_true, if_false] at h
    omega
  | cleaned call =>
    refine Nat.le_trans ?_ (Nat.le_max_left _ _)
    rw [liveCount_eq_countP, liveCount_eq_countP]
    exact List.filter_sublist.countP_le

/-- A revival raises the count by one, whatever the limit is. -/
theorem liveCount_after_of_revives {r : Registry} (hk : r.Keyed) {c : Call}
    (hc : Revives settings generator r c) :
    (r.after settings generator c).liveCount c.now = r.liveCount c.now + 1 := by
  obtain ⟨id, u, hop, hbefore, hafter⟩ := hc
  have hchange := change_after settings generator r c
  generalize (r.perform settings generator c).1 = answer at hchange
  generalize r.after settings generator c = r' at hchange hafter ⊢
  cases hchange with
  | none => rw [hbefore] at hafter; cases hafter
  | created call => rw [hop] at call; cases call
  | deactivated call => rw [hop] at call; cases call
  | cleaned call => rw [hop] at call; cases call
  | @updated id u p call checked found active =>
    rw [hop] at call
    cases call
    have h := liveCount_modify hk found (u.apply c.now) c.now
    rw [get?, found] at hbefore
    rw [get?, find?_modify, found] at hafter
    have hp : p.isLive c.now = false := by simpa using hbefore
    have hq : (u.apply c.now p).isLive c.now = true := by simpa using hafter
    rw [hp, hq] at h
    simpa using h

/-- The limit holds at every point of a run, and from then on until the next call, exactly when
each revival happens below the limit. Fresh ids are not needed for it. -/
theorem limit_kept_iff_revivals_below_limit {calls : List Call} (hc : Clocked calls) :
    (∀ past now, past <+: calls → (∀ c ∈ past, c.now.le now = true) →
      (run settings generator past).liveCount now ≤ settings.maxProjects.toNat) ↔
    ∀ past c, past ++ [c] <+: calls →
      Revives settings generator (run settings generator past) c →
      (run settings generator past).liveCount c.now < settings.maxProjects.toNat := by
  constructor
  · intro h past c hp hrev
    have hle := h (past ++ [c]) c.now hp (by
      intro d hd
      rcases List.mem_append.mp hd with hd | hd
      · exact hc.le_of_prefix hp hd
      · rw [List.mem_singleton.mp hd]
        exact Instant.le_refl _)
    rw [run_concat, liveCount_after_of_revives (keyed_run past) hrev] at hle
    exact hle
  · intro h past
    -- the bound at the last clock reading carries over to every later instant
    induction past using List.reverseRecOn with
    | nil =>
      intro now _ _
      exact Nat.zero_le _
    | append_singleton past c ih =>
      intro now hp hnow
      have hbefore := ih c.now ((List.prefix_append past [c]).trans hp)
        (fun d hd => hc.le_of_prefix hp hd)
      refine Nat.le_trans (liveCount_antitone _ (hnow c (by simp))) ?_
      rw [run_concat]
      by_cases hrev : Revives settings generator (run settings generator past) c
      · rw [liveCount_after_of_revives (keyed_run past) hrev]
        exact h past c hp hrev
      · have hle := liveCount_after_le (keyed_run past) hrev
        omega

end

private def oneHour : Draft :=
  { name := "A", interfaceCode := "interface A {}", expirationHours := some 1 }

/-- A second project takes the place of an expired one, and a revision brings that one back. -/
def revivalRun : List Call :=
  [⟨⟨0, 0⟩, .create "a" oneHour⟩, ⟨⟨3600, 0⟩, .create "b" oneHour⟩,
   ⟨⟨3600, 0⟩, .update "a" { expirationHours := some 1 }⟩]

/-- With a limit of one, two projects are live after it. -/
theorem limit_exceeded_by_revival :
    Clocked revivalRun ∧
    ¬ ∀ past now, past <+: revivalRun → (∀ c ∈ past, c.now.le now = true) →
      (run { maxProjects := 1 } {} past).liveCount now ≤ 1 := by
  have hc : Clocked revivalRun := by unfold Clocked; decide
  refine ⟨hc, fun h => ?_⟩
  have hrev : Revives { maxProjects := 1 } {} (run { maxProjects := 1 } {} (revivalRun.take 2))
      ⟨⟨3600, 0⟩, .update "a" { expirationHours := some 1 }⟩ :=
    ⟨"a", { expirationHours := some 1 }, rfl, by decide, by decide⟩
  have hlt := (limit_kept_iff_revivals_below_limit hc).mp h (revivalRun.take 2) _
    (List.prefix_refl _) hrev
  exact absurd hlt (by decide)

end MockServer.Registry
