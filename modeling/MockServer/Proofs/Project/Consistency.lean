import MockServer.Proofs.Project.Run
import MockServer.Proofs.Text.Identifier
import MockServer.Proofs.Time.Order
import MockServer.Settings.Check

/-!
What holds of every stored project, whatever calls have made and changed it: its id, endpoint and
URL belong together, its texts are not blank, and its times are in order.
-/
namespace MockServer

open MockServer.Text MockServer.Time

private theorem trim_ne_nil_of_checkText {s : String} (h : checkText s = .ok ()) :
    trim s.toList ≠ [] := by
  intro hs
  have hblank : isBlankText s = true := List.all_eq_true.mpr (trim_eq_nil_iff.mp hs)
  rw [checkText, if_pos hblank] at h
  cases h

private theorem ne_zero_of_checkHours {hours : Option UInt64} (h : checkHours hours = .ok ()) :
    hours ≠ some 0 := by
  rintro rfl
  cases h

/-- The hours that a project is made with: a draft may not give zero, and the default is not zero
either. -/
theorem ne_zero_of_draft {d : Draft} {settings : ProjectSettings}
    (hd : checkHours d.expirationHours = .ok ()) (hdefault : settings.defaultExpirationHours ≠ 0) :
    d.expirationHours.getD settings.defaultExpirationHours ≠ 0 := by
  have hne := ne_zero_of_checkHours hd
  cases hours : d.expirationHours with
  | none => exact hdefault
  | some given =>
    rw [hours] at hne
    exact fun h => hne (congrArg some h)

/-- A base without slashes at its end is what is left of a text without them. -/
theorem exists_base (s : List Char) :
    ∃ base n, s = base ++ List.replicate n '/' ∧ base.getLast? ≠ some '/' ∧
      (s.reverse.dropWhile (· == '/')).reverse = base := by
  refine ⟨(s.reverse.dropWhile (· == '/')).reverse, (s.reverse.takeWhile (· == '/')).length, ?_, ?_,
    rfl⟩
  · have hslashes : s.reverse.takeWhile (· == '/') =
        List.replicate (s.reverse.takeWhile (· == '/')).length '/' := by
      refine List.eq_replicate_of_mem fun c hc => ?_
      simpa using List.mem_takeWhile_imp hc
    rw [← List.reverse_replicate, ← hslashes, ← List.reverse_append,
      List.takeWhile_append_dropWhile, List.reverse_reverse]
  · intro hlast
    have hhead := List.head?_dropWhile_not (· == '/') s.reverse
    rw [List.getLast?_reverse] at hlast
    simp [hlast] at hhead

/-- What holds of a project that is stored under a key, at a clock reading. -/
structure IsConsistent (baseUrl : String) (now : Instant) (key : String) (p : Project) : Prop where
  key : key = p.id
  endpoint : p.endpoint = "/api/mock/" ++ p.id
  url : ∃ base n, baseUrl.toList = base ++ List.replicate n '/' ∧ base.getLast? ≠ some '/' ∧
    p.url.toList = base ++ p.endpoint.toList
  named : trim p.name.toList ≠ []
  coded : trim p.interfaceCode.toList ≠ []
  ordered : p.createdAt.le p.updatedAt = true
  past : p.updatedAt.le now = true
  lasting : p.createdAt.before p.expiresAt = true

private theorem IsConsistent.later {baseUrl key : String} {a b : Instant} {p : Project}
    (h : IsConsistent baseUrl a key p) (hab : a.le b = true) : IsConsistent baseUrl b key p :=
  { h with past := Instant.le_trans h.past hab }

variable {settings : ProjectSettings} {generator : GeneratorSettings}

private theorem isConsistent_project {d : Draft} {now : Instant} (hname : checkText d.name = .ok ())
    (hcode : checkText d.interfaceCode = .ok ()) (hhours : checkHours d.expirationHours = .ok ())
    (hdefault : settings.defaultExpirationHours ≠ 0) (hmax : now.before Instant.max = true)
    (id : String) :
    IsConsistent settings.baseUrl now id (d.project settings now id) where
  key := rfl
  endpoint := rfl
  url := by
    obtain ⟨base, n, hs, hlast, hbase⟩ := exists_base settings.baseUrl.toList
    refine ⟨base, n, hs, hlast, ?_⟩
    rw [Draft.project, String.toList_append, String.toList_ofList, hbase]
  named := trim_ne_nil_of_checkText hname
  coded := trim_ne_nil_of_checkText hcode
  ordered := Instant.le_refl now
  past := Instant.le_refl now
  lasting := Instant.before_addHours (ne_zero_of_draft hhours hdefault) hmax

private theorem IsConsistent.apply {baseUrl key : String} {now : Instant} {p : Project}
    {u : Revision}
    (h : IsConsistent baseUrl now key p) (hu : u.check = .ok ())
    (hmax : now.before Instant.max = true) : IsConsistent baseUrl now key (u.apply now p) := by
  obtain ⟨hname, hcode, hhours⟩ := Revision.check_eq_ok hu
  have hsince : p.createdAt.le now = true := Instant.le_trans h.ordered h.past
  refine ⟨h.key, h.endpoint, h.url, ?_, ?_, hsince, Instant.le_refl now, ?_⟩
  · cases hn : u.name with
    | none => simpa [Revision.apply, hn] using h.named
    | some name => simpa [Revision.apply, hn] using trim_ne_nil_of_checkText (hname name hn)
  · cases hc : u.interfaceCode with
    | none => simpa [Revision.apply, hc] using h.coded
    | some code => simpa [Revision.apply, hc] using trim_ne_nil_of_checkText (hcode code hc)
  · have hne := ne_zero_of_checkHours hhours
    cases hh : u.expirationHours with
    | none => simpa [Revision.apply, hh] using h.lasting
    | some hours =>
      have hpos : hours ≠ 0 := by
        rintro rfl
        exact hne hh
      have hbefore := Instant.before_of_le_of_before hsince (Instant.before_addHours hpos hmax)
      simpa [Revision.apply, hh] using hbefore

namespace Registry

/-- What is stored stays consistent, whatever a call does to it. -/
theorem isConsistent_of_change {r r' : Registry} {c : Call} {answer : Answer}
    (h : ∀ e ∈ r.entries, IsConsistent settings.baseUrl c.now e.1 e.2)
    (hdefault : settings.defaultExpirationHours ≠ 0) (hmax : c.now.before Instant.max = true)
    (hc : Change settings r c answer r') :
    ∀ e ∈ r'.entries, IsConsistent settings.baseUrl c.now e.1 e.2 := by
  intro e he
  cases hc with
  | none => exact h e he
  | created call prepared =>
    obtain ⟨⟨hname, hcode, hhours⟩, rfl⟩ := Draft.prepare_eq_ok prepared
    rcases mem_insert he with ⟨-, he⟩ | rfl
    · exact h e he
    · exact isConsistent_project hname hcode hhours hdefault hmax _
  | updated call checked =>
    rcases mem_modify he with ⟨-, he⟩ | ⟨p, hp, rfl⟩
    · exact h e he
    · exact (h _ hp).apply checked hmax
  | deactivated =>
    rcases mem_modify he with ⟨-, he⟩ | ⟨p, hp, rfl⟩
    · exact h e he
    · have hp := h _ hp
      exact ⟨hp.key, hp.endpoint, hp.url, hp.named, hp.coded, Instant.le_trans hp.ordered hp.past,
        Instant.le_refl _, hp.lasting⟩
  | cleaned => exact h e (mem_cleanup he)

theorem defaultExpirationHours_ne_zero {s : Settings} (h : s.violations = []) :
    s.projects.defaultExpirationHours ≠ 0 := by
  intro hzero
  have hin : Violation.invalid "projects.default_expiration_hours" "Must be greater than 0" ∈
      s.violations := by
    simp [Settings.violations, Violation.when, hzero]
  rw [h] at hin
  exact List.not_mem_nil hin

/-- Every stored project is consistent at the last clock reading. Fresh ids are not needed for
it. -/
theorem stored_isConsistent [Mock.Phrasebook] {s : Settings} (hs : s.violations = [])
    {calls : List Call} (hc : Clocked calls)
    (hmax : ∀ c ∈ calls, c.now.before Instant.max = true) :
    ∀ e ∈ (run s.projects s.generator calls).entries,
      ∃ last, calls.getLast? = some last ∧ IsConsistent s.projects.baseUrl last.now e.1 e.2 := by
  induction calls using List.reverseRecOn with
  | nil => exact fun e he => absurd he List.not_mem_nil
  | append_singleton past c ih =>
    have hpast : ∀ d ∈ past, d.now.le c.now = true := fun d hd =>
      (List.pairwise_append.mp hc).2.2 d hd c (List.mem_singleton_self c)
    have hbefore := ih (List.pairwise_append.mp hc).1 fun d hd => hmax d (List.mem_append_left _ hd)
    have hstored : ∀ e ∈ (run s.projects s.generator past).entries,
        IsConsistent s.projects.baseUrl c.now e.1 e.2 := by
      intro e he
      obtain ⟨last, hlast, hcons⟩ := hbefore e he
      exact hcons.later (hpast last (List.mem_of_getLast? hlast))
    rw [run_concat]
    intro e he
    refine ⟨c, List.getLast?_concat, ?_⟩
    exact isConsistent_of_change hstored (defaultExpirationHours_ne_zero hs) (hmax c (by simp))
      (change_after s.projects s.generator _ c) e he

/-- A project that is revised to last for ever, and deactivated. -/
def endlessRun : List Call :=
  [⟨⟨0, 0⟩, .create "a" { name := "A", interfaceCode := "a: Date", expirationHours := some 1 }⟩,
   ⟨⟨1, 0⟩, .update "a" { name := some "Z", expirationHours := some 0xFFFFFFFFFFFFFFFF }⟩,
   ⟨⟨2, 0⟩, .deactivate "a"⟩]

theorem endlessRun_isConsistent :
    let s : Settings := { projects := { baseUrl := "http://host//" } }
    s.violations = [] ∧ Clocked endlessRun ∧
      (∀ c ∈ endlessRun, c.now.before Instant.max = true) ∧
      ∃ p, (run s.projects s.generator endlessRun).entries = [("a", p)] ∧
        p.url = "http://host/api/mock/a" ∧ p.expiresAt = Instant.max ∧
        IsConsistent "http://host//" ⟨2, 0⟩ "a" p := by
  intro s
  have hs : s.violations = [] := by decide
  have hc : Clocked endlessRun := by
    unfold Clocked
    decide
  have hmax : ∀ c ∈ endlessRun, c.now.before Instant.max = true := by
    unfold endlessRun
    decide
  obtain ⟨p, hp, hurl, hexpiry⟩ :
      ∃ p, (run s.projects s.generator endlessRun).entries = [("a", p)] ∧
        p.url = "http://host/api/mock/a" ∧ p.expiresAt = Instant.max :=
    ⟨_, rfl, by decide, by decide⟩
  have hstored : ("a", p) ∈ (run s.projects s.generator endlessRun).entries :=
    hp ▸ List.mem_singleton_self _
  obtain ⟨last, hlast, hcons⟩ := stored_isConsistent hs hc hmax _ hstored
  obtain rfl : last = ⟨⟨2, 0⟩, .deactivate "a"⟩ := (Option.some.inj hlast).symm
  exact ⟨hs, hc, hmax, p, hp, hurl, hexpiry, hcons⟩

end Registry
end MockServer
