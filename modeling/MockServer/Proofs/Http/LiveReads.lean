import Mathlib.Data.Finset.Card
import MockServer.Proofs.Http.Envelope
import MockServer.Proofs.Project.Listing
import MockServer.Proofs.Project.Part

/-!
All that is told at one instant about live projects agrees: lists, look-ups, interfaces, mock data,
counts, the health check and the limit for new projects go by the same set of ids.
-/
namespace MockServer

open MockServer.Http MockServer.Random MockServer.Time

/-- Texts are given, and hours are not zero. -/
structure Draft.IsValid (d : Draft) : Prop where
  named : Text.isBlankText d.name = false
  coded : Text.isBlankText d.interfaceCode = false
  lasting : d.expirationHours ≠ some 0

private theorem Draft.IsValid.prepare_eq {d : Draft} (h : d.IsValid) (settings : ProjectSettings)
    (now : Instant) (id : String) :
    d.prepare settings now id = .ok (d.project settings now id) := by
  have hname : checkText d.name = .ok () := by rw [checkText, h.named]; rfl
  have hcode : checkText d.interfaceCode = .ok () := by rw [checkText, h.coded]; rfl
  have hhours : checkHours d.expirationHours = .ok () := by rw [checkHours, if_neg h.lasting]
  rw [prepare, hname, hcode, hhours]
  rfl

/-- The health check counts the live projects and leaves everything as it is. -/
theorem Http.Service.handle_health [Mock.Phrasebook] {s : Service} {m : Moment} {request : Request}
    {r : Registry} (he : request.endpoint? = some .health) (hget : request.method = "GET") :
    ∃ reply, s.handle m request r = pure (reply, r) ∧ reply.status = 200 ∧
      reply.body = .health ⟨version, m.uptimeSeconds, (r.live m.now).length⟩ := by
  have hmethod : request.method ≠ "HEAD" := by
    rw [hget]
    decide
  rw [handle_eq_serve he]
  refine ⟨_, rfl, ?_⟩
  rw [sent, if_neg hmethod]
  exact ⟨rfl, rfl⟩

namespace Registry

variable {r : Registry} {now : Instant} {id : String}

private theorem parsedInterface_eq_notFound_iff :
    r.parsedInterface now id = .error .notFound ↔ r.get? now id = none := by
  unfold parsedInterface
  split
  next p hp => simp [hp]
  next hnone => simp [hnone]

/-- Generation comes to a result, and it finds no project just where there is no live one. -/
theorem isResult_mockData [book : Mock.Phrasebook] (hb : book.Completes)
    (generator : GeneratorSettings) (r : Registry) (now : Instant) (id : String)
    (count : Option Nat) :
    Completes (r.mockData generator now id count) ∧
      ∀ result, IsResult (r.mockData generator now id count) result →
        (result = .error .notFound ↔ r.get? now id = none) := by
  unfold mockData
  cases hparsed : r.parsedInterface now id with
  | error e =>
    have he : e = .notFound := by
      unfold parsedInterface at hparsed
      split at hparsed <;> cases hparsed
      rfl
    subst he
    refine ⟨completes_pure _, fun result hresult => ?_⟩
    rw [isResult_pure hresult]
    exact iff_of_true rfl (parsedInterface_eq_notFound_iff.mp hparsed)
  | ok i =>
    refine ⟨(Mock.completes_data hb i count).map _, fun result hresult => ?_⟩
    obtain ⟨data, -, rfl⟩ := isResult_return hresult
    refine iff_of_false nofun fun hnone => ?_
    rw [parsedInterface_eq_notFound_iff.mpr hnone] at hparsed
    cases hparsed

/-- A valid draft is refused for the limit exactly when as many projects are live. -/
theorem create_eq_limitReached_iff {d : Draft} (hd : d.IsValid) (settings : ProjectSettings)
    (n : Nat) :
    r.create settings now id d = .error (.limitReached n) ↔
      n = (r.live now).length ∧ settings.maxProjects.toNat ≤ n := by
  rw [create_eq, hd.prepare_eq settings now id]
  dsimp only
  split
  next hfull =>
    rw [Except.error.injEq, ProjectError.limitReached.injEq]
    exact ⟨fun h => ⟨h.symm, h ▸ hfull⟩, fun h => h.1.symm⟩
  next hroom => exact iff_of_false nofun fun h => hroom (h.1 ▸ h.2)

variable (r now) in
/-- The ids of the live projects. -/
def liveIds : Finset String := ((r.live now).map (·.id)).toFinset

private theorem Indexed.mem_liveIds_iff_get? (h : r.Indexed) :
    id ∈ r.liveIds now ↔ (r.get? now id).isSome := by
  rw [liveIds, List.mem_toFinset, h.mem_liveIds_iff]

private theorem Indexed.card_liveIds (h : r.Indexed) (now : Instant) :
    (r.liveIds now).card = (r.live now).length := by
  rw [liveIds, List.toFinset_card_of_nodup (h.nodup_liveIds now), List.length_map]

section

variable [book : Mock.Phrasebook] {s : Service}

/-- What is told at an instant about the live projects goes by the ids of a set. -/
structure GoesBy (s : Service) (r : Registry) (now : Instant) (ids : Finset String) : Prop where
  listed : ∀ id, id ∈ (r.list now).map (·.id) ↔ id ∈ ids
  got : ∀ id, (r.get? now id).isSome ↔ id ∈ ids
  parsed : ∀ id, r.parsedInterface now id ≠ .error .notFound ↔ id ∈ ids
  /-- Generation comes to a result, whether there is a project or not. -/
  mocked : ∀ id count, Completes (r.mockData s.generator now id count) ∧
    ∀ result, IsResult (r.mockData s.generator now id count) result →
      (result ≠ .error .notFound ↔ id ∈ ids)
  active : (r.stats now).active = ids.card
  expired : ids.card ≤ (r.stats now).total ∧
    (r.stats now).expired = (r.stats now).total - ids.card
  health : ∀ m request, m.now = now → request.endpoint? = some .health → request.method = "GET" →
    ∃ reply, s.handle m request r = pure (reply, r) ∧ reply.status = 200 ∧
      reply.body = .health ⟨version, m.uptimeSeconds, ids.card⟩
  limit : ∀ id d n, d.IsValid →
    (r.create s.projects now id d = .error (.limitReached n) ↔
      n = ids.card ∧ s.projects.maxProjects.toNat ≤ n)

/-- In every registry that calls lead to, at every instant, all reads go by the same live projects,
and so does the limit for new ones. -/
theorem reads_agree_on_live (hb : book.Completes) (hr : Reachable s.projects s.generator r)
    (now : Instant) : GoesBy s r now (r.liveIds now) := by
  have hmem (id : String) : (r.get? now id).isSome ↔ id ∈ r.liveIds now :=
    hr.indexed.mem_liveIds_iff_get?.symm
  have hnone (id : String) : ¬ r.get? now id = none ↔ id ∈ r.liveIds now := by
    rw [← hmem, Option.isSome_iff_ne_none]
  have hcard := hr.indexed.card_liveIds now
  constructor
  case listed =>
    intro id
    rw [liveIds, List.mem_toFinset]
    exact ((list_perm_live r now).map _).mem_iff
  case got => exact hmem
  case parsed =>
    intro id
    rw [← hnone, ne_eq, parsedInterface_eq_notFound_iff]
  case mocked =>
    intro id count
    obtain ⟨hcompletes, hresult⟩ := isResult_mockData hb s.generator r now id count
    refine ⟨hcompletes, fun result h => ?_⟩
    rw [← hnone, ne_eq, hresult result h]
  case active => exact hcard.symm
  case expired =>
    rw [hcard]
    exact ⟨(List.length_filter_le _ _).trans (List.length_map _).le, rfl⟩
  case health =>
    rintro m request rfl he hget
    rw [hcard]
    exact Service.handle_health he hget
  case limit =>
    intro id d n hd
    rw [hcard]
    exact create_eq_limitReached_iff hd s.projects n

end

/-- Of four projects one expires and one is deactivated, and the other two fill the registry up. -/
def crowdedRun : List Call :=
  [⟨⟨0, 0⟩, .create "a" { name := "A", interfaceCode := "a: Date", expirationHours := some 1 }⟩,
   ⟨⟨1, 0⟩, .create "b" { name := "B", interfaceCode := "b: number" }⟩,
   ⟨⟨3600, 0⟩, .create "c" { name := "C", interfaceCode := "c: email" }⟩,
   ⟨⟨3601, 0⟩, .deactivate "c"⟩,
   ⟨⟨3602, 0⟩, .create "d" { name := "D", interfaceCode := "d: string" }⟩]

def serviceOfTwo : Service := { projects := { maxProjects := 2 } }

def crowded : Registry := run serviceOfTwo.projects serviceOfTwo.generator crowdedRun

theorem crowded_goesBy :
    GoesBy serviceOfTwo crowded ⟨3603, 0⟩ {"b", "d"} ∧
      crowded.stats ⟨3603, 0⟩ = { total := 4, active := 2, expired := 2 } ∧
      crowded.create serviceOfTwo.projects ⟨3603, 0⟩ "e"
        { name := "E", interfaceCode := "e: Date" } = .error (.limitReached 2) := by
  have hreachable : Reachable serviceOfTwo.projects serviceOfTwo.generator crowded :=
    reachable_run crowdedRun
  have hids : crowded.liveIds ⟨3603, 0⟩ = {"b", "d"} := by decide
  have hgoes := reads_agree_on_live Mock.completes_samples hreachable ⟨3603, 0⟩
  rw [hids] at hgoes
  have hvalid : ({ name := "E", interfaceCode := "e: Date" } : Draft).IsValid :=
    ⟨by decide, by decide, nofun⟩
  exact ⟨hgoes, by decide, (hgoes.limit "e" _ 2 hvalid).mpr ⟨rfl, Nat.le_refl 2⟩⟩

end Registry
end MockServer
