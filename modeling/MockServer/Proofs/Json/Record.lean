import MockServer.Json.Decode
import MockServer.Proofs.Json.Number
import MockServer.Proofs.Json.Written

/-!
Records that were written are decoded member by member. A member that was left out is one that may
be missing, and how deep containers nest is all that can be refused.
-/
namespace MockServer.Json

/-! Depth -/

mutual

/-- How deep the containers of a value nest. -/
def Value.depth : Value → Nat
  | .array items => itemsDepth items + 1
  | .object members => membersDepth members + 1
  | _ => 0

def itemsDepth : List Value → Nat
  | [] => 0
  | v :: rest => max v.depth (itemsDepth rest)

def membersDepth : List (String × Value) → Nat
  | [] => 0
  | (_, v) :: rest => max v.depth (membersDepth rest)

end

private theorem membersDepth_le_iff {members : List (String × Value)} {n : Nat} :
    membersDepth members ≤ n ↔ ∀ m ∈ members, m.2.depth ≤ n := by
  induction members with
  | nil => simp [membersDepth]
  | cons m rest ih => rw [membersDepth, Nat.max_le, ih, List.forall_mem_cons]

theorem depth_object_le_iff {members : List (String × Value)} {n : Nat} :
    (Value.object members).depth ≤ n + 1 ↔ ∀ m ∈ members, m.2.depth ≤ n := by
  rw [Value.depth, Nat.add_le_add_iff_right, membersDepth_le_iff]

theorem depth_ofMembers_le_iff {members : List (String × Option Value)} {n : Nat} :
    (Value.ofMembers members).depth ≤ n + 1 ↔ ∀ m ∈ members, ∀ v ∈ m.2, v.depth ≤ n := by
  rw [Value.ofMembers, depth_object_le_iff]
  constructor
  · intro h m hm v hv
    exact h (m.1, v) (List.mem_filterMap.mpr ⟨m, hm, by simp [Option.mem_def.mp hv]⟩)
  · intro h m hm
    obtain ⟨⟨key, v⟩, hkey, hv⟩ := List.mem_filterMap.mp hm
    obtain ⟨v, rfl, rfl⟩ := Option.map_eq_some_iff.mp hv
    exact h _ hkey v rfl

/-! Scalars -/

namespace Decoder

@[simp] theorem text_ofText (s : String) : text (.ofText s.toList) = .ok s := by
  rw [text, Quoted.text?_ofText, String.ofList_toList]

@[simp] theorem string_tree (room : Nat) (s : String) :
    string room (Value.string s).tree = .ok s := text_ofText s

/-- A name stands for the first value that has it. -/
theorem name_tree {α : Type} {names : List (String × α)} {s key : String} {a : α}
    (h : names.find? (·.1 == s) = some (key, a)) (room : Nat) :
    name names room (Value.string s).tree = .ok a := by
  simp only [name, Value.tree, text_ofText, bind, Except.bind, h]

/-- A natural number without a fraction is read up to any bound above it. -/
theorem natBelow_tree {bound n : Nat} (h : n < bound) (room : Nat) :
    natBelow bound room (Value.int n).tree = .ok n := by
  have hsign : (Numeral.ofInt n).negative = false :=
    decide_eq_false (Int.not_lt.mpr (Int.natCast_nonneg n))
  have hdigits : Number.ofDigits 10 (Numeral.ofInt n).whole = n :=
    Number.ofDigits_digitsOf (by decide) n
  have hnatural := Numeral.natural?_eq_some_iff.mpr ⟨rfl, rfl, hsign, hdigits⟩
  simp only [natBelow, Value.tree, hnatural, if_pos h]

theorem uint16_tree (room : Nat) (n : UInt16) : uint16 room (Value.int n.toNat).tree = .ok n := by
  rw [uint16, natBelow_tree n.toNat_lt]
  exact congrArg Except.ok UInt16.ofNat_toNat

theorem uint64_tree (room : Nat) (n : UInt64) : uint64 room (Value.int n.toNat).tree = .ok n := by
  rw [uint64, natBelow_tree n.toNat_lt]
  exact congrArg Except.ok UInt64.ofNat_toNat

/-- A list is read item by item, if one more container may open. -/
theorem list_tree {α : Type} {d : Decoder α} {f : α → Value} {room : Nat}
    (h : ∀ a, d room (f a).tree = .ok a) (l : List α) :
    list d (room + 1) (Value.array (l.map f)).tree = .ok l := by
  have hitems : (itemTrees (l.map f)).mapM (d room) = .ok l := by
    induction l with
    | nil => rfl
    | cons a l ih =>
      rw [List.map_cons, itemTrees, List.mapM_cons, h, ih]
      rfl
  simp only [list, Value.tree, enter, bind, Except.bind, hitems]

/-- Only null is read as a missing value. -/
theorem optional_tree {α : Type} (d : Decoder α) (room : Nat) {v : Value} (h : v ≠ .null) :
    optional d room v.tree = (d room v.tree).map some := by
  cases v with
  | null => exact absurd rfl h
  | _ => rfl

end Decoder

/-! Members -/

/-- The forms that a value which may be missing can take as a member: without one, the member is
left out or null. -/
inductive Writes {α : Type} (f : α → Value) : Option α → Option Value → Prop where
  | absent : Writes f none none
  | null : Writes f none (some .null)
  | value (a : α) : Writes f (some a) (some (f a))

theorem writes_orNull {α : Type} (f : α → Value) (o : Option α) :
    Writes f o (some (.orNull (o.map f))) := by
  cases o with
  | none => exact .null
  | some a => exact .value a

theorem writes_map {α : Type} (f : α → Value) (o : Option α) : Writes f o (o.map f) := by
  cases o with
  | none => exact .absent
  | some a => exact .value a

namespace Record

/-- Members as they are read, where they are there. -/
def present (members : List (String × Option Value)) : List (String × Tree) :=
  members.filterMap fun m => m.2.map fun v => (m.1, v.tree)

private theorem present_cons (key : String) (v : Option Value)
    (members : List (String × Option Value)) :
    present ((key, v) :: members) =
      (v.map fun v => (key, v.tree)).toList ++ present members := by
  cases v <;> rfl

private theorem lookup_present_of_not_mem {members : List (String × Option Value)} {key : String}
    (h : key ∉ members.map (·.1)) : (present members).lookup key = none := by
  rw [List.lookup_eq_none_iff]
  intro entry hentry
  obtain ⟨m, hm, hv⟩ := List.mem_filterMap.mp hentry
  obtain ⟨v, -, rfl⟩ := Option.map_eq_some_iff.mp hv
  rw [bne_iff_ne]
  rintro rfl
  exact h (List.mem_map_of_mem hm)

/-- A member that is there is found under its key. -/
theorem lookup_present {members : List (String × Option Value)}
    (hkeys : (members.map (·.1)).Nodup) {key : String} {v : Option Value}
    (hm : (key, v) ∈ members) : (present members).lookup key = v.map Value.tree := by
  induction members with
  | nil => exact absurd hm List.not_mem_nil
  | cons m members ih =>
    obtain ⟨first, w⟩ := m
    rw [List.map_cons, List.nodup_cons] at hkeys
    rw [present_cons]
    rcases List.mem_cons.mp hm with heq | hlater
    · obtain ⟨rfl, rfl⟩ := Prod.mk.inj heq
      cases v with
      | none => exact lookup_present_of_not_mem hkeys.1
      | some v => exact List.lookup_cons_self
    · have hne : (key == first) = false := by
        rw [beq_eq_false_iff_ne]
        rintro rfl
        exact hkeys.1 (List.mem_map_of_mem (f := (·.1)) hlater)
      cases w with
      | none => exact ih hkeys.2 hlater
      | some w =>
        rw [Option.map_some, Option.toList_some, List.singleton_append, List.lookup_cons, hne]
        exact ih hkeys.2 hlater

private theorem pick_memberTrees {keys : List String} {members : List (String × Value)}
    (hkeys : (members.map (·.1)).Nodup) (hknown : members.map (·.1) ⊆ keys) :
    pick keys (memberTrees members) = .ok (members.map fun m => (m.1, m.2.tree)) := by
  induction members with
  | nil => rfl
  | cons m members ih =>
    obtain ⟨key, v⟩ := m
    rw [List.map_cons, List.nodup_cons] at hkeys
    rw [List.map_cons, List.cons_subset] at hknown
    have hlater : (members.map fun m => (m.1, m.2.tree)).lookup key = none := by
      rw [List.lookup_eq_none_iff]
      intro entry hentry
      obtain ⟨m, hm, rfl⟩ := List.mem_map.mp hentry
      rw [bne_iff_ne]
      rintro rfl
      exact hkeys.1 (List.mem_map_of_mem (f := (·.1)) hm)
    simp only [memberTrees, pick, Decoder.text_ofText, ih hkeys.2 hknown.2, bind, Except.bind,
      if_pos hknown.1, hlater]
    rfl

/-- A written record is read with the members that are there, if a container may still open. -/
theorem read_ofMembers {members : List (String × Option Value)}
    (hkeys : (members.map (·.1)).Nodup) (room : Nat) :
    read (members.map (·.1)) (room + 1) (Value.ofMembers members).tree =
      .ok ⟨room, present members⟩ := by
  let written := members.filterMap fun m => m.2.map (m.1, ·)
  have hnames : written.map (·.1) = (members.filter (·.2.isSome)).map (·.1) := by
    induction members with
    | nil => rfl
    | cons m members ih =>
      obtain ⟨key, v⟩ := m
      have := ih (List.nodup_cons.mp hkeys).2
      cases v <;> simpa [written] using this
  have hknown : written.map (·.1) ⊆ members.map (·.1) :=
    hnames ▸ (List.filter_sublist.map _).subset
  have hpicked := pick_memberTrees (hnames ▸ hkeys.sublist (List.filter_sublist.map _)) hknown
  have hpresent : written.map (fun m => (m.1, m.2.tree)) = present members := by
    rw [List.map_filterMap, present]
    congr 1
    funext m
    rw [Option.map_map]
    rfl
  have hwritten : (Value.ofMembers members).tree = .object (memberTrees written) := rfl
  rw [hpresent] at hpicked
  simp only [hwritten, read, Decoder.enter, hpicked, bind, Except.bind]

section

variable {α : Type} {members : List (String × Option Value)} {room : Nat} {key : String}
variable {v : Value}

theorem required_present (hkeys : (members.map (·.1)).Nodup) (hm : (key, some v) ∈ members)
    (d : Decoder α) : (⟨room, present members⟩ : Record).required key d = d room v.tree := by
  simp only [required, lookup_present hkeys hm, Option.map_some]

theorem withDefault_present (hkeys : (members.map (·.1)).Nodup) (hm : (key, some v) ∈ members)
    (d : Decoder α) (default : α) :
    (⟨room, present members⟩ : Record).withDefault key d default = d room v.tree := by
  simp only [withDefault, lookup_present hkeys hm, Option.map_some]

theorem optional_present (hkeys : (members.map (·.1)).Nodup) (hm : (key, some v) ∈ members)
    (hv : v ≠ .null) (d : Decoder α) :
    (⟨room, present members⟩ : Record).optional key d = (d room v.tree).map some := by
  rw [optional, withDefault_present hkeys hm, Decoder.optional_tree d room hv]

theorem optional_absent (hkeys : (members.map (·.1)).Nodup) (hm : (key, none) ∈ members)
    (d : Decoder α) : (⟨room, present members⟩ : Record).optional key d = .ok none := by
  simp only [optional, withDefault, lookup_present hkeys hm, Option.map_none]

/-- A value that may be missing is read from each of its forms. -/
theorem optional_of_writes {f : α → Value} {o : Option α} {w : Option Value}
    (hkeys : (members.map (·.1)).Nodup) (hm : (key, w) ∈ members) (hw : Writes f o w)
    (hvalue : ∀ a, f a ≠ .null) {d : Decoder α} (hread : ∀ a, d room (f a).tree = .ok a) :
    (⟨room, present members⟩ : Record).optional key d = .ok o := by
  cases hw with
  | absent => exact optional_absent hkeys hm d
  | null =>
    rw [optional, withDefault_present hkeys hm]
    rfl
  | value a =>
    rw [optional_present hkeys hm (hvalue a), hread]
    rfl

end

end Record

/-- A list is decoded if each of its items is, and refused for the one reason there is. -/
theorem mapM_eq_ite {α β : Type} {l : List α} {f : α → Except Fault β} {g : α → β}
    {p : α → Prop} [DecidablePred p] {e : Fault}
    (h : ∀ x ∈ l, f x = if p x then .ok (g x) else .error e) :
    l.mapM f = if ∀ x ∈ l, p x then .ok (l.map g) else .error e := by
  induction l with
  | nil => rw [if_pos (by simp)]; rfl
  | cons x l ih =>
    rw [List.forall_mem_cons] at h
    rw [List.mapM_cons, h.1, ih h.2]
    by_cases hx : p x
    · by_cases hl : ∀ y ∈ l, p y
      · rw [if_pos hx, if_pos hl, if_pos (List.forall_mem_cons.mpr ⟨hx, hl⟩)]
        rfl
      · rw [if_pos hx, if_neg hl, if_neg fun hall => hl (List.forall_mem_cons.mp hall).2]
        rfl
    · rw [if_neg hx, if_neg fun hall => hx (List.forall_mem_cons.mp hall).1]
      rfl

end MockServer.Json
