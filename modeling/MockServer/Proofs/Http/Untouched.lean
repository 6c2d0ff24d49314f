import MockServer.Http.Service
import MockServer.Proofs.Http.Routing
import MockServer.Proofs.Project.Run
import MockServer.Proofs.Random.Results

/-!
Which requests leave the registry as it is: those that are refused, whatever they ask for, and those
that only read.
-/
namespace MockServer.Http

open MockServer.Random

/-- A reply that tells of success. -/
def Response.IsSuccess (r : Response) : Prop := 200 ≤ r.status ∧ r.status < 300

/-- A request that makes, changes or deletes a project. -/
def Request.IsWrite (r : Request) : Prop :=
  (r.method = "POST" ∧ (splitTarget r.target).1 = "/api/projects".toList) ∨
    (r.method = "PATCH" ∨ r.method = "DELETE") ∧
      ∃ id, id ≠ [] ∧ '/' ∉ id ∧ (splitTarget r.target).1 = "/api/projects/".toList ++ id

/-- The registry stays as it is. -/
def Keeps (reg : Registry) (draw : Draw (Response × Registry)) : Prop :=
  ∀ out, IsResult draw out → out.2 = reg

/-- The registry stays as it is, unless the reply tells of success. -/
def KeepsOnFailure (reg : Registry) (draw : Draw (Response × Registry)) : Prop :=
  ∀ out, IsResult draw out → out.1.IsSuccess ∨ out.2 = reg

variable {reg : Registry} {r : Request} {s : Service} {m : Moment}

private theorem Keeps.onFailure {draw : Draw (Response × Registry)} (h : Keeps reg draw) :
    KeepsOnFailure reg draw := fun out hout => .inr (h out hout)

private theorem keeps_pure (reply : Response) : Keeps reg (pure (reply, reg)) := by
  intro out hout
  rw [isResult_pure hout]

private theorem keeps_return (reply : Draw Response) :
    Keeps reg (reply >>= fun x => pure (x, reg)) := by
  intro out hout
  obtain ⟨x, -, rfl⟩ := isResult_return hout
  rfl

namespace Service

private theorem keeps_withId {raw : List Char} {next : String → Draw (Response × Registry)}
    (h : ∀ id, Keeps reg (next id)) : Keeps reg (withId raw reg next) := by
  unfold withId
  split
  · exact h _
  · exact keeps_pure _

private theorem keepsOnFailure_withId {raw : List Char} {next : String → Draw (Response × Registry)}
    (h : ∀ id, KeepsOnFailure reg (next id)) : KeepsOnFailure reg (withId raw reg next) := by
  unfold withId
  split
  · exact h _
  · exact (keeps_pure _).onFailure

private theorem keeps_withBody {next : List UInt8 → Draw (Response × Registry)}
    (h : ∀ body, Keeps reg (next body)) : Keeps reg (withBody r reg next) := by
  unfold withBody
  split
  · exact keeps_pure _
  · exact h _

/-- Reading endpoints keep the registry. -/
theorem keeps_serve [Mock.Phrasebook] {e : Endpoint} (he : e.isWrite = false) :
    Keeps reg (s.serve m r reg e) := by
  unfold serve
  cases e with
  | createProject | updateProject | deleteProject => cases he
  | health | liveness | listProjects | stats => exact keeps_pure _
  | getProject raw =>
    refine keeps_withId fun id => ?_
    split <;> exact keeps_pure _
  | projectInterface raw =>
    refine keeps_withId fun id => ?_
    split <;> exact keeps_pure _
  | parse =>
    refine keeps_withBody fun body => ?_
    split <;> exact keeps_pure _
  | mockByQuery raw =>
    refine keeps_withId fun id => ?_
    dsimp only
    split
    · exact keeps_pure _
    · exact keeps_return _
  | mockByBody raw => exact keeps_withId fun id => keeps_withBody fun body => keeps_return _

private theorem isSuccess_ofResult {time : Time.Instant} {status : Nat}
    (h : 200 ≤ status ∧ status < 300)
    (payload : Payload) : (Response.ofResult time status (.ok payload)).IsSuccess := h

private theorem createProject_keeps (s : Service) (m : Moment) (r : Request) (reg : Registry) :
    (s.createProject m r reg).1.IsSuccess ∨ (s.createProject m r reg).2 = reg := by
  unfold createProject
  split
  · exact .inr rfl
  · split
    · exact .inr rfl
    · exact .inl (isSuccess_ofResult (by decide) _)

private theorem updateProject_keeps (m : Moment) (r : Request) (reg : Registry) (id : String) :
    (updateProject m r reg id).1.IsSuccess ∨ (updateProject m r reg id).2 = reg := by
  unfold updateProject
  split
  · exact .inr rfl
  next revision _ =>
    cases hu : reg.update m.now id revision with
    | error e => exact .inr rfl
    | ok out =>
      obtain ⟨found, after⟩ := out
      cases found with
      | some p => exact .inl (isSuccess_ofResult (by decide) _)
      | none =>
        obtain ⟨-, ⟨p, -, -, hp, -⟩ | ⟨-, -, rfl⟩⟩ := Registry.update_eq_ok hu
        · cases hp
        · exact .inr rfl

private theorem deleteProject_keeps (m : Moment) (reg : Registry) (id : String) :
    (deleteProject m reg id).1.IsSuccess ∨ (deleteProject m reg id).2 = reg := by
  unfold deleteProject Registry.deactivate
  split_ifs
  · exact .inl (isSuccess_ofResult (by decide) _)
  · exact .inr rfl

/-- Every endpoint keeps the registry on failure. -/
theorem keepsOnFailure_serve [Mock.Phrasebook] (e : Endpoint) :
    KeepsOnFailure reg (s.serve m r reg e) := by
  cases he : e.isWrite with
  | false => exact (keeps_serve he).onFailure
  | true =>
    unfold serve
    cases e with
    | createProject =>
      intro out hout
      rw [isResult_pure hout]
      exact createProject_keeps s m r reg
    | updateProject raw =>
      refine keepsOnFailure_withId fun id out hout => ?_
      rw [isResult_pure hout]
      exact updateProject_keeps m r reg id
    | deleteProject raw =>
      refine keepsOnFailure_withId fun id out hout => ?_
      rw [isResult_pure hout]
      exact deleteProject_keeps m reg id
    | _ => cases he

private theorem isSuccess_openToOrigins {reply : Response} (h : reply.IsSuccess) (method : String) :
    (openToOrigins (if method = "HEAD" then reply.withoutBody else reply)).IsSuccess := by
  split <;> exact h

private theorem isWrite_of_endpoint {route : Route} {e : Endpoint}
    (hroute : Route.ofPath? (splitTarget r.target).1 = some route)
    (hendpoint : route.endpoint? r.method = some e) (he : e.isWrite = true) : r.IsWrite := by
  rcases Route.endpoint?_isWrite hendpoint he with ⟨hm, rfl⟩ | ⟨hm, id, rfl⟩
  · refine .inl ⟨hm, ?_⟩
    rw [Route.ofPath?_eq hroute]
    rfl
  · obtain ⟨hne, hslash⟩ := Route.ofPath?_project hroute
    refine .inr ⟨hm, id, hne, hslash, ?_⟩
    rw [Route.ofPath?_eq hroute, Route.path_project]

/-- A request that fails leaves the registry as it was, and so does every request that is no
write. -/
theorem registry_untouched [Mock.Phrasebook] {reply : Response} {after : Registry}
    {words rest : List UInt64} (h : s.handle m r reg words = some ((reply, after), rest)) :
    (¬ reply.IsSuccess → after = reg) ∧ (¬ r.IsWrite → after = reg) := by
  have hresult : IsResult (s.handle m r reg) (reply, after) := ⟨words, rest, h⟩
  unfold handle at hresult
  dsimp only at hresult
  split at hresult
  · cases isResult_pure hresult
    exact ⟨fun _ => rfl, fun _ => rfl⟩
  · split at hresult
    · cases isResult_pure hresult
      exact ⟨fun _ => rfl, fun _ => rfl⟩
    next route hroute =>
      split at hresult
      · cases isResult_pure hresult
        exact ⟨fun _ => rfl, fun _ => rfl⟩
      next e he =>
        obtain ⟨⟨served, reg'⟩, hserved, hout⟩ := isResult_return hresult
        obtain ⟨rfl, rfl⟩ := Prod.mk.inj hout
        constructor
        · intro hfail
          exact (keepsOnFailure_serve e _ hserved).resolve_left fun hs =>
            hfail (isSuccess_openToOrigins hs r.method)
        · intro hread
          refine keeps_serve ?_ _ hserved
          exact Bool.eq_false_iff.mpr fun hw => hread (isWrite_of_endpoint hroute he hw)

/-- A registry with one project. -/
def soleRegistry : Registry :=
  ⟨[("a", { (({ name := "A", interfaceCode := "a: Date" } : Draft).project {} ⟨0, 0⟩ "a") with
    description := some "kept" })]⟩

/-- A revision with a blank name. -/
def blankRevision : Request where
  method := "PATCH"
  target := "/api/projects/a"
  headers := [("Content-Type", "application/json")]
  body := "\x7b\"name\": \" \", \"method\": \"POST\"\x7d".toUTF8.toList

theorem blankRevision_untouched :
    ∃ reply after rest,
      handle {} ⟨⟨1, 0⟩, 0, "b"⟩ blankRevision soleRegistry [] = some ((reply, after), rest) ∧
      blankRevision.IsWrite ∧ reply.status = 400 ∧ after = soleRegistry := by
  have hstatus : (handle {} ⟨⟨1, 0⟩, 0, "b"⟩ blankRevision soleRegistry []).map
      (fun out => out.1.1.status) = some 400 := by decide +kernel
  obtain ⟨⟨⟨reply, after⟩, rest⟩, hout, hreply⟩ := Option.map_eq_some_iff.mp hstatus
  have hwrite : blankRevision.IsWrite :=
    .inr ⟨.inl rfl, ['a'], by decide, by decide, by decide⟩
  have hfail : ¬ reply.IsSuccess := by
    rintro ⟨-, hlt⟩
    have hreply : reply.status = 400 := hreply
    omega
  exact ⟨reply, after, rest, hout, hwrite, hreply, (registry_untouched hout).1 hfail⟩

end Service
end MockServer.Http
