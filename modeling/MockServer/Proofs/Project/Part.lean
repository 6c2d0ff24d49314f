import MockServer.Proofs.Project.Transcript

/-!
Parts of a registry: the entries of some ids without the others. Calls about an id of the part do
the same to the part as to the whole; calls about another id leave the part alone. Only the limit
for new projects looks at all entries at once.
-/
namespace MockServer.Registry

open MockServer.Time

/-- The entries of the ids that a test keeps. -/
def part (r : Registry) (keep : String → Bool) : Registry :=
  ⟨r.entries.filter fun e => keep e.1⟩

variable {settings : ProjectSettings} {generator : GeneratorSettings}
variable {r : Registry} {keep : String → Bool} {id : String} {now : Instant} {c : Call}

private theorem mem_part {e : String × Project} :
    e ∈ (r.part keep).entries ↔ e ∈ r.entries ∧ keep e.1 = true := List.mem_filter

private theorem find?_part (r : Registry) (keep : String → Bool) (id : String) :
    (r.part keep).find? id = if keep id then r.find? id else none := by
  simp only [find?, part]
  induction r.entries with
  | nil => simp
  | cons e l ih =>
    obtain ⟨key, p⟩ := e
    by_cases hkey : key = id
    · subst hkey
      cases hk : keep key
      · rw [hk, if_neg Bool.false_ne_true] at ih
        rw [List.filter_cons, hk, if_neg Bool.false_ne_true, if_neg Bool.false_ne_true, ih]
      · rw [List.filter_cons, hk, if_pos rfl, if_pos rfl, List.lookup_cons_self,
          List.lookup_cons_self]
    · rw [List.lookup_cons, beq_false_of_ne (Ne.symm hkey), ← ih, List.filter_cons]
      split
      · rw [List.lookup_cons, beq_false_of_ne (Ne.symm hkey)]
      · rfl

private theorem find?_part_of_keep (hk : keep id = true) : (r.part keep).find? id = r.find? id := by
  rw [find?_part, if_pos hk]

private theorem part_modify (r : Registry) (keep : String → Bool) (id : String)
    (f : Project → Project) :
    (r.modify id f).part keep = (r.part keep).modify id f := by
  rw [modify, modify, part, part, List.filter_map]
  congr 2
  apply List.filter_congr
  intro e _
  rw [Function.comp_apply]
  split <;> rfl

private theorem part_modify_of_not_keep (hk : keep id = false) (f : Project → Project) :
    (r.modify id f).part keep = r.part keep := by
  rw [part_modify, modify_of_not_mem]
  intro hid
  obtain ⟨e, he, rfl⟩ := List.mem_map.mp hid
  rw [(mem_part.mp he).2] at hk
  cases hk

private theorem part_insert (hk : keep id = true) (p : Project) :
    (r.insert id p).part keep = (r.part keep).insert id p := by
  have hfind : (r.part keep).find? id = r.find? id := find?_part_of_keep hk
  cases hf : r.find? id with
  | some q =>
    rw [insert_of_isSome (by rw [hf]; rfl), insert_of_isSome (by rw [hfind, hf]; rfl), part_modify]
  | none =>
    have hone : [(id, p)].filter (fun e => keep e.1) = [(id, p)] := by simp [hk]
    rw [insert_of_none hf, insert_of_none (hfind.trans hf), part, List.filter_append, hone]
    rfl

private theorem part_insert_of_not_keep (hk : keep id = false) (p : Project) :
    (r.insert id p).part keep = r.part keep := by
  cases hf : r.find? id with
  | some q => rw [insert_of_isSome (by rw [hf]; rfl), part_modify_of_not_keep hk]
  | none =>
    have hnone : [(id, p)].filter (fun e => keep e.1) = [] := by simp [hk]
    rw [insert_of_none hf, part, List.filter_append, hnone, List.append_nil]
    rfl

private theorem part_cleanup (r : Registry) (keep : String → Bool) (now : Instant) :
    (r.cleanup now).2.part keep = ((r.part keep).cleanup now).2 := by
  simp only [cleanup, part, List.filter_filter, Bool.and_comm]

private theorem live_part_sublist (r : Registry) (keep : String → Bool) (now : Instant) :
    ((r.part keep).live now).Sublist (r.live now) :=
  (List.filter_sublist.map _).filter _

/-- What is left out does not count if it is not live. -/
theorem live_part (h : ∀ e ∈ r.entries, keep e.1 = false → e.2.isLive now = false) :
    (r.part keep).live now = r.live now := by
  rw [live, live, part, List.filter_map, List.filter_map, List.filter_filter]
  congr 1
  apply List.filter_congr
  intro e he
  cases hk : keep e.1 with
  | true => rw [Bool.and_true]
  | false => rw [Function.comp_apply, h e he hk, Bool.false_and]

/-! Operations on a part -/

private theorem get?_part (hk : keep id = true) : (r.part keep).get? now id = r.get? now id := by
  rw [get?, get?, find?_part_of_keep hk]

/-- An id outside the part is not found there, which is all the same if it is not live. -/
theorem get?_part_of_not_live
    (h : ∀ e ∈ r.entries, keep e.1 = false → e.2.isLive now = false) (id : String) :
    (r.part keep).get? now id = r.get? now id := by
  cases hk : keep id with
  | true => exact get?_part hk
  | false =>
    rw [get?, get?, find?_part, hk, if_neg Bool.false_ne_true]
    cases hf : r.find? id with
    | none => rfl
    | some p =>
      have hp : p.isLive now = false := h _ (mem_of_find? hf) hk
      rw [Option.filter_some, hp, if_neg Bool.false_ne_true, Option.filter_none]

private theorem update_part (hk : keep id = true) (u : Revision) :
    (r.part keep).update now id u =
      (r.update now id u).map fun out => (out.1, out.2.part keep) := by
  rw [update, update, find?_part_of_keep hk]
  cases u.check with
  | error e => rfl
  | ok =>
    cases (r.find? id).filter (·.isActive) with
    | none => rfl
    | some p =>
      change Except.ok (_, _) = Except.ok (_, _)
      rw [part_modify]

private theorem deactivate_part (hk : keep id = true) :
    (r.part keep).deactivate now id =
      ((r.deactivate now id).1, (r.deactivate now id).2.part keep) := by
  rw [deactivate, deactivate, find?_part_of_keep hk]
  split
  · rw [part_modify]
  · rfl

/-- A draft that passes its checks is stored unless the limit is reached. -/
theorem create_eq (r : Registry) (settings : ProjectSettings) (now : Instant) (id : String)
    (d : Draft) :
    r.create settings now id d = match d.prepare settings now id with
      | .error e => .error e
      | .ok p =>
        if settings.maxProjects.toNat ≤ (r.live now).length then
          .error (.limitReached (r.live now).length)
        else .ok (p, r.insert id p) := by
  cases hp : d.prepare settings now id with
  | error e => rw [create, hp]; rfl
  | ok p =>
    obtain ⟨-, hproject⟩ := Draft.prepare_eq_ok hp
    have hid : p.id = id := by rw [hproject]; rfl
    have hnow : p.createdAt = now := by rw [hproject]; rfl
    rw [create, hp]
    change (r.accept settings p >>= fun r => pure (p, r)) = _
    by_cases hfull : settings.maxProjects.toNat ≤ (r.live now).length
    · simp only [accept, hnow, if_pos hfull]
      rfl
    · simp only [accept, hnow, hid, if_neg hfull]
      rfl

/-- The limit sees the live projects only. -/
theorem create_part_of_live (hk : keep id = true) (hlive : (r.part keep).live now = r.live now)
    (d : Draft) :
    (r.part keep).create settings now id d =
      (r.create settings now id d).map fun out => (out.1, out.2.part keep) := by
  rw [create_eq, create_eq, hlive]
  cases d.prepare settings now id with
  | error e => rfl
  | ok p =>
    dsimp only
    split
    · rfl
    · rw [← part_insert hk]
      rfl

/-- Where there is room in the whole, there is room in the part. -/
theorem create_part_of_room (hk : keep id = true) {d : Draft}
    (hroom : ∀ n, r.create settings now id d ≠ .error (.limitReached n)) :
    (r.part keep).create settings now id d =
      (r.create settings now id d).map fun out => (out.1, out.2.part keep) := by
  rw [create_eq] at hroom
  rw [create_eq, create_eq]
  cases hp : d.prepare settings now id with
  | error e => rfl
  | ok p =>
    rw [hp] at hroom
    dsimp only at hroom ⊢
    have hlt : ¬ settings.maxProjects.toNat ≤ (r.live now).length := fun hle =>
      hroom _ (if_pos hle)
    have hpart := (live_part_sublist r keep now).length_le
    rw [if_neg hlt, if_neg (by omega), ← part_insert hk]
    rfl

section

variable [Mock.Phrasebook]

/-- A call about an id of the part gets the same answer there and does the same. For a new project
this is to be known of the limit. -/
theorem perform_part (hid : c.operation.id? = some id) (hk : keep id = true)
    (hcreate : ∀ d, c.operation = .create id d →
      (r.part keep).create settings c.now id d =
        (r.create settings c.now id d).map fun out => (out.1, out.2.part keep)) :
    (r.part keep).perform settings generator c =
      ((r.perform settings generator c).1, (r.after settings generator c).part keep) := by
  unfold after perform
  cases hop : c.operation <;> rw [hop] at hid <;> cases hid <;> dsimp only
  case create d =>
    rw [hcreate d hop]
    cases r.create settings c.now id d <;> rfl
  case update u =>
    rw [update_part hk]
    cases r.update c.now id u <;> rfl
  case deactivate => rw [deactivate_part hk]
  case get => rw [get?_part hk]
  case parsedInterface => simp only [parsedInterface, get?_part hk]
  case mockData count words => simp only [mockData, parsedInterface, get?_part hk]

/-- A call that writes to no project in particular does the same to the part as to the whole. -/
theorem after_part (hw : c.operation.writtenId? = none) :
    (r.part keep).after settings generator c = (r.after settings generator c).part keep := by
  unfold after perform
  cases hop : c.operation with
  | cleanup => exact (part_cleanup ..).symm
  | get | parsedInterface | mockData | list | stats => rfl
  | create | update | deactivate =>
    rw [hop] at hw
    cases hw

/-- A call about another id leaves the part alone. -/
theorem part_after (hid : c.operation.id? = some id) (hk : keep id = false) :
    (r.after settings generator c).part keep = r.part keep := by
  have hc := change_after settings generator r c
  generalize (r.perform settings generator c).1 = answer at hc
  generalize r.after settings generator c = r' at hc ⊢
  cases hc with
  | none => rfl
  | created call =>
    rw [call] at hid
    cases hid
    exact part_insert_of_not_keep hk _
  | updated call | deactivated call =>
    rw [call] at hid
    cases hid
    exact part_modify_of_not_keep hk _
  | cleaned call =>
    rw [call] at hid
    cases hid

end

end MockServer.Registry
