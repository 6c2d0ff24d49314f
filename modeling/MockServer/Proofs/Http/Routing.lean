import MockServer.Http.Route

/-!
The paths and methods of the endpoints that may change projects.
-/
namespace MockServer.Text.Percent

variable {c separator : Char} {s piece : List Char}

private theorem cutAt_nil : cutAt separator [] = [[]] := rfl

private theorem cutAt_separator (s : List Char) :
    cutAt separator (separator :: s) = [] :: cutAt separator s := by
  simp only [cutAt, List.foldr_cons, if_true]

private theorem cutAt_cons (h : c ≠ separator) (s : List Char) :
    cutAt separator (c :: s) = (cutAt separator s).modifyHead (c :: ·) := by
  simp only [cutAt, List.foldr_cons, if_neg h, List.modifyHead_cons]

private theorem cutAt_ne_nil (separator : Char) (s : List Char) : cutAt separator s ≠ [] :=
  List.cons_ne_nil _ _

private theorem cutAt_eq_splitOn (separator : Char) (s : List Char) :
    cutAt separator s = s.splitOn separator := by
  induction s with
  | nil => rw [cutAt_nil, List.splitOn_nil]
  | cons c s ih =>
    rw [List.splitOn_cons_eq_if_modifyHead, ← ih]
    by_cases hc : c = separator
    · rw [if_pos (beq_iff_eq.mpr hc), hc, cutAt_separator]
    · rw [if_neg (mt beq_iff_eq.mp hc), cutAt_cons hc]

/-- The pieces with separators between them are the text. -/
theorem intercalate_cutAt (separator : Char) (s : List Char) :
    [separator].intercalate (cutAt separator s) = s := by
  rw [cutAt_eq_splitOn, List.intercalate_splitOn]

private theorem not_mem_of_mem_cutAt (h : piece ∈ cutAt separator s) : separator ∉ piece := by
  induction s generalizing piece with
  | nil =>
    rw [cutAt_nil, List.mem_singleton] at h
    rw [h]
    exact List.not_mem_nil
  | cons c s ih =>
    by_cases hc : c = separator
    · rw [hc, cutAt_separator] at h
      rcases List.mem_cons.mp h with rfl | h
      · exact List.not_mem_nil
      · exact ih h
    · obtain ⟨p, ps, hcut⟩ := List.exists_cons_of_ne_nil (cutAt_ne_nil separator s)
      rw [cutAt_cons hc, hcut, List.modifyHead_cons] at h
      rcases List.mem_cons.mp h with rfl | h
      · intro hm
        rcases List.mem_cons.mp hm with he | hm
        · exact hc he.symm
        · exact ih (hcut ▸ List.mem_cons_self) hm
      · exact ih (hcut ▸ List.mem_cons_of_mem p h)

end MockServer.Text.Percent

namespace MockServer.Http.Route

open MockServer.Text.Percent

variable {s id : List Char} {route : Route}

/-- The segments of the path of a route. -/
def segments : Route → List (List Char)
  | .health => ["health".toList]
  | .liveness => ["health".toList, "live".toList]
  | .projects => ["api".toList, "projects".toList]
  | .project id => ["api".toList, "projects".toList, id]
  | .projectInterface id => ["api".toList, "projects".toList, id, "interface".toList]
  | .stats => ["api".toList, "stats".toList]
  | .parse => ["api".toList, "interfaces".toList, "parse".toList]
  | .mock id => ["api".toList, "mock".toList, id]

private theorem eq_of_map_ofList {l : List (List Char)} {texts : List String}
    (h : l.map String.ofList = texts) : l = texts.map String.toList := by
  rw [← h, List.map_map]
  simp [Function.comp_def]

private theorem ofSegments?_eq {l : List (List Char)} (h : ofSegments? l = some route) :
    l = route.segments := by
  unfold ofSegments? at h
  split at h
  case h_6 hl | h_7 hl =>
    have hl := eq_of_map_ofList hl
    simp only [List.map_cons, List.cons.injEq] at hl
    obtain ⟨-, h⟩ := Option.ite_none_left_eq_some.mp h
    obtain rfl := Option.some.inj h
    simp only [segments, hl]
  case h_8 hl =>
    have hl := eq_of_map_ofList hl
    simp only [List.map_cons, List.cons.injEq] at hl
    obtain rfl := Option.some.inj h
    simp only [segments, hl]
  case h_9 => cases h
  all_goals
    obtain rfl := Option.some.inj h
    exact eq_of_map_ofList ‹_›

def path (route : Route) : List Char := '/' :: ['/'].intercalate route.segments

theorem path_project (id : List Char) :
    (Route.project id).path = "/api/projects/".toList ++ id := by
  rw [path, segments, List.intercalate_cons_cons, List.intercalate_cons_cons,
    List.intercalate_singleton]
  rfl

/-- A path is known only as the path of its route. -/
theorem ofPath?_eq (h : ofPath? s = some route) : s = route.path := by
  unfold ofPath? at h
  split at h
  next rest => rw [path, ← ofSegments?_eq h, intercalate_cutAt]
  next => cases h

/-- The id of a project's path is one segment. -/
theorem ofPath?_project (h : ofPath? s = some (.project id)) : id ≠ [] ∧ '/' ∉ id := by
  unfold ofPath? at h
  split at h
  next rest =>
    have hsegments := ofSegments?_eq h
    constructor
    · rintro rfl
      rw [hsegments] at h
      exact absurd h (by decide)
    · refine not_mem_of_mem_cutAt (s := rest) ?_
      rw [hsegments]
      simp [segments]
  next => cases h

end MockServer.Http.Route

namespace MockServer.Http

/-- Whether an endpoint may change projects. -/
def Endpoint.isWrite : Endpoint → Bool
  | .createProject | .updateProject _ | .deleteProject _ => true
  | _ => false

theorem Route.endpoint?_isWrite {route : Route} {method : String} {e : Endpoint}
    (h : route.endpoint? method = some e) (he : e.isWrite = true) :
    (method = "POST" ∧ route = .projects) ∨
      (method = "PATCH" ∨ method = "DELETE") ∧ ∃ id, route = .project id := by
  obtain ⟨before, later, hl, -⟩ := List.lookup_eq_some_iff.mp h
  have hmem : ((if method = "HEAD" then "GET" else method), e) ∈ route.endpoints := by
    rw [hl]
    simp
  have hmethod {m : String} (hm : (if method = "HEAD" then "GET" else method) = m)
      (hget : m ≠ "GET") : method = m := by
    split at hm
    · exact absurd hm.symm hget
    · exact hm
  cases route with
  | projects =>
    simp only [Route.endpoints, List.mem_cons, Prod.mk.injEq, List.not_mem_nil, or_false] at hmem
    rcases hmem with ⟨-, rfl⟩ | ⟨hm, rfl⟩
    · cases he
    · exact .inl ⟨hmethod hm (by decide), rfl⟩
  | project id =>
    simp only [Route.endpoints, List.mem_cons, Prod.mk.injEq, List.not_mem_nil, or_false] at hmem
    rcases hmem with ⟨-, rfl⟩ | ⟨hm, rfl⟩ | ⟨hm, rfl⟩
    · cases he
    · exact .inr ⟨.inl (hmethod hm (by decide)), id, rfl⟩
    · exact .inr ⟨.inr (hmethod hm (by decide)), id, rfl⟩
  | mock id =>
    simp only [Route.endpoints, List.mem_cons, Prod.mk.injEq, List.not_mem_nil, or_false] at hmem
    rcases hmem with ⟨-, rfl⟩ | ⟨-, rfl⟩ <;> cases he
  | health | liveness | projectInterface | stats | parse =>
    simp only [Route.endpoints, List.mem_singleton, Prod.mk.injEq] at hmem
    obtain ⟨-, rfl⟩ := hmem
    cases he

end MockServer.Http
