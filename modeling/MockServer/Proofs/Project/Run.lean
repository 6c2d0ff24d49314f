import Mathlib.Data.List.Induction
import Mathlib.Data.List.Nodup
import MockServer.Project.Registry
import MockServer.Proofs.Outcome

/-!
Runs of the registry: calls made one after the other, each with its clock reading, from the empty
registry on. What a single call can do to the stored entries is said here once.
-/
namespace MockServer

open MockServer.Time

/-- A call with what it is given, among it the fresh id of a new project and the random words of
mock data. -/
inductive Operation where
  | create (id : String) (draft : Draft)
  | update (id : String) (revision : Revision)
  | deactivate (id : String)
  | cleanup
  | get (id : String)
  | parsedInterface (id : String)
  | mockData (id : String) (count : Option Nat) (words : List UInt64)
  | list
  | stats

/-- An operation and the clock at the moment it runs. -/
structure Call where
  now : Instant
  operation : Operation

inductive Answer where
  | created (result : Except ProjectError Project)
  | updated (result : Except ProjectError (Option Project))
  | deactivated (found : Bool)
  | removed (count : Nat)
  | project (found : Option Project)
  | interface (result : Except ProjectError Interface)
  | mock (drawn : Option (Except ProjectError Mock.Data × List UInt64))
  | projects (live : List Project)
  | stats (counts : Stats)

/-- Whether an answer tells of a change. -/
def Answer.isChange : Answer → Bool
  | .created (.ok _) => true
  | .updated (.ok (some _)) => true
  | .deactivated found => found
  | .removed count => 0 < count
  | _ => false

namespace Draft

/-- The project that a draft gives once it has passed its checks. -/
def project (d : Draft) (settings : ProjectSettings) (now : Instant) (id : String) : Project where
  id
  name := d.name
  description := d.description
  interfaceCode := d.interfaceCode
  endpoint := "/api/mock/" ++ id
  url := String.ofList (settings.baseUrl.toList.reverse.dropWhile (· == '/')).reverse ++
    ("/api/mock/" ++ id)
  method := d.method.getD .get
  expectedStatusCodes := d.expectedStatusCodes.getD [200]
  expiresAt := now.addHours (d.expirationHours.getD settings.defaultExpirationHours)
  createdAt := now
  updatedAt := now
  isActive := true

/-- A draft is refused for a blank text or for zero hours, and for nothing else. -/
theorem prepare_eq_ok {d : Draft} {settings : ProjectSettings} {now : Instant} {id : String}
    {p : Project} (h : d.prepare settings now id = .ok p) :
    (checkText d.name = .ok () ∧ checkText d.interfaceCode = .ok () ∧
      checkHours d.expirationHours = .ok ()) ∧ p = d.project settings now id := by
  unfold prepare at h
  obtain ⟨_, hname, h⟩ := eq_ok_of_bind h
  obtain ⟨_, hcode, h⟩ := eq_ok_of_bind h
  obtain ⟨_, hhours, h⟩ := eq_ok_of_bind h
  cases h
  exact ⟨⟨hname, hcode, hhours⟩, rfl⟩

end Draft

/-- A revision is refused for a text that it makes blank or for zero hours. -/
theorem Revision.check_eq_ok {u : Revision} (h : u.check = .ok ()) :
    (∀ name, u.name = some name → checkText name = .ok ()) ∧
      (∀ code, u.interfaceCode = some code → checkText code = .ok ()) ∧
      checkHours u.expirationHours = .ok () := by
  unfold check at h
  cases hname : u.name <;> cases hcode : u.interfaceCode <;> rw [hname, hcode] at h
  · exact ⟨nofun, nofun, h⟩
  · obtain ⟨_, hc, h⟩ := eq_ok_of_bind h
    exact ⟨nofun, by rintro _ ⟨⟩; exact hc, h⟩
  · obtain ⟨_, hn, h⟩ := eq_ok_of_bind h
    exact ⟨by rintro _ ⟨⟩; exact hn, nofun, h⟩
  · obtain ⟨_, hn, h⟩ := eq_ok_of_bind h
    obtain ⟨_, hc, h⟩ := eq_ok_of_bind h
    exact ⟨by rintro _ ⟨⟩; exact hn, by rintro _ ⟨⟩; exact hc, h⟩

namespace Registry

variable (settings : ProjectSettings) (generator : GeneratorSettings)

/-- The answer to a call and the registry after it. A refused call changes nothing. -/
def perform [Mock.Phrasebook] (r : Registry) (c : Call) : Answer × Registry :=
  match c.operation with
  | .create id draft =>
    match r.create settings c.now id draft with
    | .error e => (.created (.error e), r)
    | .ok (p, r) => (.created (.ok p), r)
  | .update id revision =>
    match r.update c.now id revision with
    | .error e => (.updated (.error e), r)
    | .ok (p, r) => (.updated (.ok p), r)
  | .deactivate id => let (found, r) := r.deactivate c.now id; (.deactivated found, r)
  | .cleanup => let (count, r) := r.cleanup c.now; (.removed count, r)
  | .get id => (.project (r.get? c.now id), r)
  | .parsedInterface id => (.interface (r.parsedInterface c.now id), r)
  | .mockData id count words => (.mock (r.mockData generator c.now id count words), r)
  | .list => (.projects (r.list c.now), r)
  | .stats => (.stats (r.stats c.now), r)

def after [Mock.Phrasebook] (r : Registry) (c : Call) : Registry :=
  (r.perform settings generator c).2

/-- The registry after calls from the empty one. -/
def run [Mock.Phrasebook] (calls : List Call) : Registry :=
  calls.foldl (after settings generator) {}

/-- Clock readings that never go back. -/
def Clocked (calls : List Call) : Prop := calls.Pairwise fun a b => a.now.le b.now = true

/-- No two entries have the same id. -/
def Keyed (r : Registry) : Prop := (r.entries.map (·.1)).Nodup

/-- What a call can answer and do to the entries. Guards are those under which the call does it. -/
inductive Change (r : Registry) (c : Call) : Answer → Registry → Prop where
  | none {answer : Answer} (quiet : answer.isChange = false) : Change r c answer r
  | created {id : String} {draft : Draft} {p : Project} (call : c.operation = .create id draft)
      (prepared : draft.prepare settings c.now id = .ok p)
      (room : (r.live c.now).length < settings.maxProjects.toNat) :
      Change r c (.created (.ok p)) (r.insert id p)
  | updated {id : String} {revision : Revision} {p : Project}
      (call : c.operation = .update id revision) (checked : revision.check = .ok ())
      (found : r.find? id = some p) (active : p.isActive = true) :
      Change r c (.updated (.ok (some (revision.apply c.now p))))
        (r.modify id (revision.apply c.now))
  | deactivated {id : String} {p : Project} (call : c.operation = .deactivate id)
      (found : r.find? id = some p) :
      Change r c (.deactivated true)
        (r.modify id fun p => { p with isActive := false, updatedAt := c.now })
  | cleaned (call : c.operation = .cleanup) :
      Change r c (.removed (r.cleanup c.now).1) (r.cleanup c.now).2

variable {settings generator}

private theorem create_eq_ok {r r' : Registry} {now : Instant} {id : String} {d : Draft}
    {p : Project}
    (h : r.create settings now id d = .ok (p, r')) :
    d.prepare settings now id = .ok p ∧
      (r.live p.createdAt).length < settings.maxProjects.toNat ∧ r' = r.insert p.id p := by
  unfold create at h
  obtain ⟨q, hq, h⟩ := eq_ok_of_bind h
  obtain ⟨s, hs, h⟩ := eq_ok_of_bind h
  cases h
  simp only [accept] at hs
  split at hs
  · cases hs
  · rename_i hroom
    cases hs
    exact ⟨hq, Nat.lt_of_not_le hroom, rfl⟩

theorem update_eq_ok {r r' : Registry} {now : Instant} {id : String} {u : Revision}
    {q : Option Project} (h : r.update now id u = .ok (q, r')) :
    u.check = .ok () ∧
      ((∃ p, r.find? id = some p ∧ p.isActive = true ∧ q = some (u.apply now p) ∧
        r' = r.modify id (u.apply now)) ∨
      ((r.find? id).filter (·.isActive) = none ∧ q = none ∧ r' = r)) := by
  unfold update at h
  obtain ⟨_, hc, h⟩ := eq_ok_of_bind h
  refine ⟨hc, ?_⟩
  cases hf : (r.find? id).filter (·.isActive) with
  | none =>
    rw [hf] at h
    cases h
    exact Or.inr ⟨rfl, rfl, rfl⟩
  | some p =>
    rw [hf] at h
    cases h
    obtain ⟨hp, ha⟩ := Option.filter_eq_some_iff.mp hf
    exact Or.inl ⟨p, hp, ha, rfl, rfl⟩

variable (settings generator) in
/-- Every call does one of these. -/
theorem change_after [Mock.Phrasebook] (r : Registry) (c : Call) :
    Change settings r c (r.perform settings generator c).1 (r.after settings generator c) := by
  unfold after perform
  cases hop : c.operation with
  | create id draft =>
    cases hc : r.create settings c.now id draft with
    | error e => simpa only [hc] using .none rfl
    | ok out =>
      obtain ⟨p, r'⟩ := out
      simp only [hc]
      obtain ⟨hp, hroom, rfl⟩ := create_eq_ok hc
      obtain ⟨-, rfl⟩ := Draft.prepare_eq_ok hp
      exact .created hop hp hroom
  | update id revision =>
    cases hu : r.update c.now id revision with
    | error e => simpa only [hu] using .none rfl
    | ok out =>
      obtain ⟨q, r'⟩ := out
      simp only [hu]
      obtain ⟨hc, ⟨p, hp, ha, rfl, rfl⟩ | ⟨_, rfl, rfl⟩⟩ := update_eq_ok hu
      · exact .updated hop hc hp ha
      · exact .none rfl
  | deactivate id =>
    simp only [deactivate]
    split
    · rename_i hsome
      obtain ⟨p, hp⟩ := Option.isSome_iff_exists.mp hsome
      exact .deactivated hop hp
    · exact .none rfl
  | cleanup => exact .cleaned hop
  | get | parsedInterface | mockData | list | stats => exact .none rfl

/-! Ids of entries -/

theorem insert_of_isSome {r : Registry} {id : String} (h : (r.find? id).isSome) (p : Project) :
    r.insert id p = r.modify id fun _ => p := by
  rw [insert, if_pos h, modify]
  congr 1
  apply List.map_congr_left
  intro e _
  split
  · rename_i he
    rw [he]
  · rfl

theorem insert_of_none {r : Registry} {id : String} (h : r.find? id = none) (p : Project) :
    r.insert id p = ⟨r.entries ++ [(id, p)]⟩ := by
  rw [insert, h]
  rfl

theorem find?_eq_none_iff {r : Registry} {id : String} :
    r.find? id = none ↔ id ∉ r.entries.map (·.1) := by
  rw [find?, List.lookup_eq_none_iff, List.mem_map]
  constructor
  · rintro h ⟨e, he, rfl⟩
    simpa using h e he
  · intro h e he
    rw [bne_iff_ne]
    rintro rfl
    exact h ⟨e, he, rfl⟩

@[simp] theorem keys_modify (r : Registry) (id : String) (f : Project → Project) :
    (r.modify id f).entries.map (·.1) = r.entries.map (·.1) := by
  rw [modify, List.map_map]
  apply List.map_congr_left
  intro e _
  simp only [Function.comp_apply]
  split <;> rfl

theorem map_eq_self_of_not_mem {l : List (String × Project)} {id : String}
    (h : id ∉ l.map (·.1)) (f : Project → Project) :
    (l.map fun e => if e.1 = id then (e.1, f e.2) else e) = l := by
  rw [List.map_congr_left (g := fun e => e), List.map_id']
  intro e he
  rw [if_neg]
  rintro rfl
  exact h (List.mem_map_of_mem he)

theorem modify_of_not_mem {r : Registry} {id : String} (h : id ∉ r.entries.map (·.1))
    (f : Project → Project) : r.modify id f = r := by
  rw [modify, map_eq_self_of_not_mem h]

theorem find?_modify (r : Registry) (id : String) (f : Project → Project) :
    (r.modify id f).find? id = (r.find? id).map f := by
  rw [modify, find?, find?]
  induction r.entries with
  | nil => rfl
  | cons e l ih =>
    obtain ⟨key, p⟩ := e
    by_cases he : key = id
    · subst he
      rw [List.map_cons, if_pos rfl, List.lookup_cons_self, List.lookup_cons_self]
      rfl
    · rw [List.map_cons, if_neg he, List.lookup_cons, List.lookup_cons,
        beq_false_of_ne (Ne.symm he)]
      exact ih

theorem Keyed.insert {r : Registry} (h : r.Keyed) (id : String) (p : Project) :
    (r.insert id p).Keyed := by
  cases hf : r.find? id with
  | some q =>
    rw [insert_of_isSome (by rw [hf]; rfl), Keyed, keys_modify]
    exact h
  | none =>
    rw [insert_of_none hf, Keyed, List.map_append, List.nodup_append]
    refine ⟨h, List.nodup_singleton id, ?_⟩
    rintro a ha b hb rfl
    rw [List.map_singleton, List.mem_singleton] at hb
    rw [hb] at ha
    exact find?_eq_none_iff.mp hf ha

theorem Keyed.change {r r' : Registry} {c : Call} {a : Answer} (h : r.Keyed)
    (hc : Change settings r c a r') : r'.Keyed := by
  cases hc with
  | none => exact h
  | created => exact h.insert _ _
  | updated | deactivated =>
    rw [Keyed, keys_modify]
    exact h
  | cleaned => exact h.sublist (List.filter_sublist.map _)

theorem Keyed.eq_of_mem {r : Registry} (h : r.Keyed) {e f : String × Project}
    (he : e ∈ r.entries) (hf : f ∈ r.entries) (hid : e.1 = f.1) : e = f :=
  List.inj_on_of_nodup_map h he hf hid

/-! Entries after a change -/

theorem mem_of_find? {r : Registry} {id : String} {p : Project} (h : r.find? id = some p) :
    (id, p) ∈ r.entries := by
  obtain ⟨before, later, he, -⟩ := List.lookup_eq_some_iff.mp h
  rw [he]
  exact List.mem_append_right before List.mem_cons_self

theorem mem_modify {r : Registry} {id : String} {f : Project → Project} {e : String × Project}
    (h : e ∈ (r.modify id f).entries) :
    (e.1 ≠ id ∧ e ∈ r.entries) ∨ ∃ p, (id, p) ∈ r.entries ∧ e = (id, f p) := by
  obtain ⟨⟨key, p⟩, hp, rfl⟩ := List.mem_map.mp h
  by_cases hkey : key = id
  · subst hkey
    exact .inr ⟨p, hp, if_pos rfl⟩
  · rw [if_neg hkey]
    exact .inl ⟨hkey, hp⟩

theorem mem_insert {r : Registry} {id : String} {p : Project} {e : String × Project}
    (h : e ∈ (r.insert id p).entries) : (e.1 ≠ id ∧ e ∈ r.entries) ∨ e = (id, p) := by
  cases hf : r.find? id with
  | some q =>
    rw [insert_of_isSome (by rw [hf]; rfl)] at h
    exact (mem_modify h).imp_right fun ⟨_, _, he⟩ => he
  | none =>
    rw [insert_of_none hf] at h
    rcases List.mem_append.mp h with he | he
    · refine .inl ⟨?_, he⟩
      rintro rfl
      exact find?_eq_none_iff.mp hf (List.mem_map_of_mem he)
    · exact .inr (List.mem_singleton.mp he)

theorem mem_cleanup_iff {r : Registry} {now : Instant} {e : String × Project} :
    e ∈ (r.cleanup now).2.entries ↔ e ∈ r.entries ∧ now.le e.2.expiresAt = true :=
  List.mem_filter

theorem mem_cleanup {r : Registry} {now : Instant} {e : String × Project}
    (h : e ∈ (r.cleanup now).2.entries) : e ∈ r.entries :=
  (mem_cleanup_iff.mp h).1

theorem run_concat [Mock.Phrasebook] (calls : List Call) (c : Call) :
    run settings generator (calls ++ [c]) =
      (run settings generator calls).after settings generator c := by
  rw [run, List.foldl_append]
  rfl

/-- What holds at first and is kept by every change holds after every run. -/
theorem run_induction [Mock.Phrasebook] {motive : List Call → Registry → Prop}
    (empty : motive [] {})
    (change : ∀ {past r c answer r'}, motive past r → Change settings r c answer r' →
      motive (past ++ [c]) r')
    (calls : List Call) : motive calls (run settings generator calls) := by
  induction calls using List.reverseRecOn with
  | nil => exact empty
  | append_singleton past c ih =>
    rw [run_concat]
    exact change ih (change_after settings generator _ c)

theorem keyed_run [Mock.Phrasebook] (calls : List Call) : (run settings generator calls).Keyed :=
  run_induction (motive := fun _ r => r.Keyed) List.nodup_nil Keyed.change calls

end Registry
end MockServer
