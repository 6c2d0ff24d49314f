import MockServer.Proofs.Http.Untouched
import MockServer.Proofs.Mock.Completion

/-!
Which replies about projects come in the envelope: all but those to requests whose id, query or raw
body cannot be read. These are refused before anything else with a plain text.
-/
namespace MockServer.Http

open MockServer.Random MockServer.Text

/-! The envelope -/

/-- The members of an envelope at a clock reading, under a status. -/
structure IsEnvelope (now : Time.Instant) (status : Nat) (members : List (String × Json.Value)) :
    Prop where
  keys : (members.map (·.1)).Sublist ["success", "data", "error", "timestamp", "metadata"]
  success : members.lookup "success" = some (.bool (decide (200 ≤ status ∧ status < 300)))
  error : (∃ text, members.lookup "error" = some (.string text)) ↔
    members.lookup "success" = some (.bool false)
  timestamp : members.lookup "timestamp" =
    some (.string (String.ofList (Time.Rfc3339.writeMillis now)))

/-- The reply is an envelope, and its type says so. -/
def Response.HasEnvelope (reply : Response) (now : Time.Instant) : Prop :=
  reply.header? "content-type" = some "application/json" ∧
    ∃ members, IsEnvelope now reply.status members ∧
      reply.body.text = (Json.Value.object members).text

/-- The reply is a refusal in plain text. -/
def Response.IsPlainRefusal (reply : Response) : Prop :=
  (400 ≤ reply.status ∧ reply.status < 500) ∧
    reply.header? "content-type" = some "text/plain; charset=utf-8"

private theorem Response.IsPlainRefusal.not_hasEnvelope {reply : Response}
    (h : reply.IsPlainRefusal)
    (now : Time.Instant) : ¬ reply.HasEnvelope now := by
  rintro ⟨htype, -⟩
  rw [h.2] at htype
  exact absurd htype (by decide)

private theorem objectText_ne_empty (members : List (String × Json.Value)) :
    (Json.Value.object members).text ≠ "" := by
  cases members <;> simp [Json.Value.text, Json.Value.write]

private theorem not_isSuccess_status (e : RequestError) : ¬ (200 ≤ e.status ∧ e.status < 300) := by
  have hproject (e : ProjectError) : 400 ≤ e.status := by
    cases e <;> simp [ProjectError.status]
  have hrequest : 400 ≤ e.status := by
    cases e with
    | project e => exact hproject e
    | count | contentType | bodyLength | body => exact Nat.le_refl 400
  omega

private theorem isEnvelope_ok (now : Time.Instant) {status : Nat} (hs : 200 ≤ status ∧ status < 300)
    (payload : Payload) :
    ∃ members, IsEnvelope now status members ∧
      (Envelope.mk (.ok payload) now).json = .object members := by
  refine ⟨_, ?_, rfl⟩
  constructor
  all_goals
    cases hd : payload.json? <;> cases hm : payload.metadata? <;>
      simp [hs, List.lookup_cons]

private theorem isEnvelope_error (now : Time.Instant) (e : RequestError) :
    ∃ members, IsEnvelope now e.status members ∧
      (Envelope.mk (.error e) now).json = .object members := by
  refine ⟨_, ?_, rfl⟩
  constructor
  all_goals simp [not_isSuccess_status, List.lookup_cons]

private theorem hasEnvelope_ofResult (now : Time.Instant) {status : Nat}
    (hs : 200 ≤ status ∧ status < 300)
    (result : Except RequestError Payload) :
    (Response.ofResult now status result).HasEnvelope now := by
  cases result with
  | ok payload =>
    obtain ⟨members, hmembers, hjson⟩ := isEnvelope_ok now hs payload
    exact ⟨rfl, members, hmembers, congrArg Json.Value.text hjson⟩
  | error e =>
    obtain ⟨members, hmembers, hjson⟩ := isEnvelope_error now e
    exact ⟨rfl, members, hmembers, congrArg Json.Value.text hjson⟩

/-! What an endpoint reads of a request -/

/-- The endpoints about projects. The others tell how the service itself is. -/
def Endpoint.isApi : Endpoint → Bool
  | .health | .liveness => false
  | _ => true

/-- The endpoint whose path and method a request has. -/
def Request.endpoint? (r : Request) : Option Endpoint :=
  (Route.ofPath? (splitTarget r.target).1).bind fun route => route.endpoint? r.method

/-- A segment that is UTF-8 once its percent escapes are resolved. -/
def IsTextId (raw : List Char) : Prop := ∃ id, Utf8.decode (Percent.decode raw) = .ok id

/-- What the endpoint takes from the request is there to be read: the id is text, the query gives at
most one count, and a raw body is not too long. -/
def Request.IsReadable (r : Request) : Endpoint → Prop
  | .getProject id | .updateProject id | .deleteProject id | .projectInterface id => IsTextId id
  | .parse => r.body.length ≤ maxBodyLength
  | .mockByQuery id => IsTextId id ∧ (countsOfQuery (splitTarget r.target).2).length ≤ 1
  | .mockByBody id => IsTextId id ∧ r.body.length ≤ maxBodyLength
  | .health | .liveness | .listProjects | .createProject | .stats => True

/-- A computation that comes to a reply, in the envelope if a condition holds, else a refusal in
plain text. -/
structure Answers (now : Time.Instant) (readable : Prop) (draw : Draw (Response × Registry)) :
    Prop where
  completes : Completes draw
  envelope : ∀ out, IsResult draw out → readable → out.1.HasEnvelope now
  refusal : ∀ out, IsResult draw out → ¬ readable → out.1.IsPlainRefusal

section

variable {now : Time.Instant} {p q : Prop} {draw : Draw (Response × Registry)}
variable {reg : Registry} {r : Request} {s : Service} {m : Moment}

private theorem Answers.congr (h : Answers now p draw) (hpq : p ↔ q) : Answers now q draw :=
  propext hpq ▸ h

private theorem answers_pure {reply : Response} (h : reply.HasEnvelope now) :
    Answers now True (pure (reply, reg)) where
  completes := completes_pure _
  envelope out hout _ := by
    rw [isResult_pure hout]
    exact h
  refusal _ _ h := absurd trivial h

private theorem answers_ofResult {status : Nat} (hs : 200 ≤ status ∧ status < 300)
    (result : Except RequestError Payload) :
    Answers now True (pure (.ofResult now status result, reg)) :=
  answers_pure (hasEnvelope_ofResult now hs result)

private theorem answers_refusal {reply : Response} (h : reply.IsPlainRefusal) (hp : ¬ p) :
    Answers now p (pure (reply, reg)) where
  completes := completes_pure _
  envelope _ _ h := absurd h hp
  refusal out hout _ := by
    rw [isResult_pure hout]
    exact h

/-- A condition that holds need not be looked at. -/
theorem Answers.and_left (h : Answers now p draw) (hq : q) : Answers now (q ∧ p) draw :=
  h.congr (and_iff_right hq).symm

namespace Service

private theorem answers_withId {raw : List Char} {next : String → Draw (Response × Registry)}
    (h : ∀ id, Answers now p (next id)) : Answers now (IsTextId raw ∧ p) (withId raw reg next) := by
  unfold withId
  split
  next id hid => exact (h _).and_left ⟨id, hid⟩
  next fault hfault =>
    refine answers_refusal ⟨by decide, rfl⟩ ?_
    rintro ⟨⟨id, hid⟩, -⟩
    rw [hid] at hfault
    cases hfault

private theorem answers_withBody {next : List UInt8 → Draw (Response × Registry)}
    (h : ∀ body, Answers now p (next body)) :
    Answers now (r.body.length ≤ maxBodyLength ∧ p) (withBody r reg next) := by
  unfold withBody
  split
  next hlong => exact answers_refusal ⟨by decide, rfl⟩ fun hp => absurd hp.1 (Nat.not_le.mpr hlong)
  next hfits => exact (h _).and_left (Nat.not_lt.mp hfits)

private theorem answers_createProject (s : Service) (m : Moment) (r : Request) (reg : Registry) :
    Answers m.now True (pure (s.createProject m r reg)) := by
  unfold createProject
  split
  · exact answers_ofResult (by decide) _
  · split <;> exact answers_ofResult (by decide) _

private theorem answers_updateProject (m : Moment) (r : Request) (reg : Registry) (id : String) :
    Answers m.now True (pure (updateProject m r reg id)) := by
  unfold updateProject
  split
  · exact answers_ofResult (by decide) _
  · split <;> exact answers_ofResult (by decide) _

private theorem answers_deleteProject (m : Moment) (reg : Registry) (id : String) :
    Answers m.now True (pure (deleteProject m reg id)) := by
  unfold deleteProject
  split <;> exact answers_ofResult (by decide) _

/-! The reply as it is sent -/

private theorem not_options_of_endpoint {e : Endpoint} (he : r.endpoint? = some e) :
    r.method ≠ "OPTIONS" := by
  intro hm
  obtain ⟨route, -, he⟩ := Option.bind_eq_some_iff.mp he
  rw [hm] at he
  cases route <;> cases he

/-- The reply as it is sent: for `HEAD` the body is left out, and the origins are told at last. -/
def sent (r : Request) (reply : Response) : Response :=
  openToOrigins (if r.method = "HEAD" then reply.withoutBody else reply)

private theorem header?_sent (r : Request) (reply : Response) :
    (sent r reply).header? "content-type" = reply.header? "content-type" := by
  unfold sent
  split <;>
    simp [openToOrigins, Response.header?, Response.withHeader, Response.withoutBody,
      List.lookup_append, List.lookup_cons]

private theorem isPlainRefusal_sent {reply : Response} (h : reply.IsPlainRefusal) :
    (sent r reply).IsPlainRefusal := by
  refine ⟨?_, (header?_sent r reply).trans h.2⟩
  unfold sent
  split <;> exact h.1

private theorem hasEnvelope_sent {reply : Response} (h : reply.HasEnvelope now) :
    (sent r reply).HasEnvelope now ↔ r.method ≠ "HEAD" := by
  constructor
  · -- An envelope is never the empty text.
    rintro ⟨-, members, -, htext⟩ hm
    rw [sent, if_pos hm] at htext
    exact objectText_ne_empty members htext.symm
  · intro hm
    refine ⟨(header?_sent r reply).trans h.1, ?_⟩
    rw [sent, if_neg hm]
    exact h.2

variable [book : Mock.Phrasebook]

theorem completes_mockReply (hb : book.Completes) (id : String)
    (count : Except RequestError (Option Nat)) : Completes (s.mockReply m reg id count) := by
  unfold mockReply Registry.mockData
  cases count with
  | error e => exact completes_pure _
  | ok count =>
    dsimp only
    refine .bind ?_ fun result => by cases result <;> exact completes_pure _
    split
    · exact completes_pure _
    · exact (Mock.completes_data hb _ _).map _

private theorem isResult_mockReply {id : String} {count : Except RequestError (Option Nat)}
    {reply : Response} (h : IsResult (s.mockReply m reg id count) reply) :
    ∃ result, reply = .ofResult m.now 200 result := by
  unfold mockReply at h
  cases count with
  | error e => exact ⟨_, isResult_pure h⟩
  | ok count =>
    obtain ⟨result, -, h⟩ := isResult_bind h
    cases result with
    | error e => exact ⟨_, isResult_pure h⟩
    | ok data => exact ⟨_, isResult_pure h⟩

private theorem answers_mockReply (hb : book.Completes) (id : String)
    (count : Except RequestError (Option Nat)) :
    Answers m.now True (s.mockReply m reg id count >>= fun reply => pure (reply, reg)) where
  completes := (completes_mockReply hb id count).map _
  envelope out hout _ := by
    obtain ⟨reply, hreply, rfl⟩ := isResult_return hout
    obtain ⟨result, rfl⟩ := isResult_mockReply hreply
    exact hasEnvelope_ofResult m.now (by decide) result
  refusal _ _ h := absurd trivial h

/-- Every endpoint about projects answers in the envelope what it can read. -/
theorem answers_serve (hb : book.Completes) {e : Endpoint} (he : e.isApi = true) :
    Answers m.now (r.IsReadable e) (s.serve m r reg e) := by
  unfold serve
  have hwithId {raw : List Char} {next : String → Draw (Response × Registry)}
      (h : ∀ id, Answers m.now True (next id)) :
      Answers m.now (IsTextId raw) (withId raw reg next) :=
    (answers_withId h).congr (and_iff_left trivial)
  have hwithBody {next : List UInt8 → Draw (Response × Registry)}
      (h : ∀ body, Answers m.now True (next body)) :
      Answers m.now (r.body.length ≤ maxBodyLength) (withBody r reg next) :=
    (answers_withBody h).congr (and_iff_left trivial)
  cases e with
  | health | liveness => cases he
  | listProjects | stats => exact answers_ofResult (by decide) _
  | createProject => exact answers_createProject s m r reg
  | getProject raw =>
    refine hwithId fun id => ?_
    split <;> exact answers_ofResult (by decide) _
  | updateProject raw => exact hwithId fun id => answers_updateProject m r reg id
  | deleteProject raw => exact hwithId fun id => answers_deleteProject m reg id
  | projectInterface raw =>
    refine hwithId fun id => ?_
    split <;> exact answers_ofResult (by decide) _
  | parse =>
    refine hwithBody fun body => ?_
    split <;> exact answers_ofResult (by decide) _
  | mockByQuery raw =>
    refine answers_withId fun id => ?_
    dsimp only
    split
    next hcounts =>
      refine answers_refusal ⟨by decide, rfl⟩ ?_
      rw [hcounts]
      simp
    next counts hcounts =>
      refine (answers_mockReply hb id _).congr (iff_of_true trivial ?_)
      rcases hc : countsOfQuery (splitTarget r.target).2 with _ | ⟨first, _ | ⟨second, others⟩⟩
      · exact Nat.zero_le 1
      · exact Nat.le_refl 1
      · exact absurd hc (hcounts _ _ _)
  | mockByBody raw =>
    exact answers_withId fun id => hwithBody fun body => answers_mockReply hb id _

theorem handle_eq_serve {e : Endpoint} (he : r.endpoint? = some e) :
    s.handle m r reg = s.serve m r reg e >>= fun out => pure (sent r out.1, out.2) := by
  obtain ⟨route, hroute, hendpoint⟩ := Option.bind_eq_some_iff.mp he
  unfold handle
  simp only [if_neg (not_options_of_endpoint he), hroute, hendpoint]
  rfl

/-- A request about projects is answered. The reply is an envelope if what the endpoint takes from
the request can be read, and a refusal in plain text if not; `HEAD` gets no body. -/
theorem envelope_iff_readable (hb : book.Completes) {e : Endpoint} (he : r.endpoint? = some e)
    (hapi : e.isApi = true) :
    Completes (s.handle m r reg) ∧
      ∀ reply after, IsResult (s.handle m r reg) (reply, after) →
        (reply.HasEnvelope m.now ↔ r.IsReadable e ∧ r.method ≠ "HEAD") ∧
        (¬ r.IsReadable e → reply.IsPlainRefusal) := by
  have hserve : Answers m.now (r.IsReadable e) (s.serve m r reg e) := answers_serve hb hapi
  rw [handle_eq_serve he]
  refine ⟨hserve.completes.map _, fun reply after hresult => ?_⟩
  obtain ⟨served, hserved, hout⟩ := isResult_return hresult
  obtain ⟨rfl, rfl⟩ := Prod.mk.inj hout
  by_cases hr : r.IsReadable e
  · have henvelope := hasEnvelope_sent (r := r) (hserve.envelope served hserved hr)
    exact ⟨henvelope.trans (and_iff_right hr).symm, fun h => absurd hr h⟩
  · have hrefusal : (sent r served.1).IsPlainRefusal :=
      isPlainRefusal_sent (hserve.refusal served hserved hr)
    exact ⟨iff_of_false (hrefusal.not_hasEnvelope m.now) fun h => hr h.1, fun _ => hrefusal⟩

end Service
end

namespace Service

/-- A request for mock data that gives its count twice. -/
def countTwice : Request where
  method := "GET"
  target := "/api/mock/a?count=1&count=2"

theorem countTwice_isPlainRefusal :
    ∃ reply after,
      countTwice.endpoint? = some (.mockByQuery ['a']) ∧
      IsResult (handle {} ⟨⟨1, 0⟩, 0, "b"⟩ countTwice soleRegistry) (reply, after) ∧
      ¬ reply.HasEnvelope ⟨1, 0⟩ ∧ reply.IsPlainRefusal := by
  have he : countTwice.endpoint? = some (.mockByQuery ['a']) := by decide +kernel
  have hr : ¬ countTwice.IsReadable (.mockByQuery ['a']) := fun h =>
    absurd h.2 (by decide +kernel)
  have hdraw :
      Completes (handle {} ⟨⟨1, 0⟩, 0, "b"⟩ countTwice soleRegistry) ∧ _ :=
    envelope_iff_readable Mock.completes_samples he rfl
  obtain ⟨more, ⟨reply, after⟩, rest, hout⟩ := hdraw.1.ends []
  have hresult : IsResult _ (reply, after) := ⟨_, rest, hout⟩
  obtain ⟨henvelope, hrefusal⟩ := hdraw.2 reply after hresult
  exact ⟨reply, after, he, hresult, fun h => hr (henvelope.mp h).1, hrefusal hr⟩

end Service

end MockServer.Http
