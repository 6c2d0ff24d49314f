/-!
Parts of a text named by byte offsets. A part is missing when an offset is out of range or inside a
character, or when the two are the wrong way round.
-/
namespace MockServer.Text

/-- The bytes that a text takes in UTF-8. -/
def byteSize : List Char → Nat
  | [] => 0
  | c :: s => c.utf8Size + byteSize s

def dropBytes? : Nat → List Char → Option (List Char)
  | 0, s => some s
  | _ + 1, [] => none
  | offset + 1, c :: s =>
    if c.utf8Size ≤ offset + 1 then dropBytes? (offset + 1 - c.utf8Size) s else none

def takeBytes? : Nat → List Char → Option (List Char)
  | 0, _ => some []
  | _ + 1, [] => none
  | offset + 1, c :: s =>
    if c.utf8Size ≤ offset + 1 then (takeBytes? (offset + 1 - c.utf8Size) s).map (c :: ·) else none

def slice? (start stop : Nat) (s : List Char) : Option (List Char) :=
  if start ≤ stop then (dropBytes? start s).bind (takeBytes? (stop - start)) else none

variable {c : Char} {s t u : List Char}

@[simp] theorem byteSize_append (s t : List Char) :
    byteSize (s ++ t) = byteSize s + byteSize t := by
  induction s with
  | nil => simp [byteSize]
  | cons c s ih => rw [List.cons_append, byteSize, ih, byteSize, Nat.add_assoc]

private theorem dropBytes?_cons (c : Char) (s : List Char) (offset : Nat) :
    dropBytes? (c.utf8Size + offset) (c :: s) = dropBytes? offset s := by
  obtain ⟨n, hn⟩ := Nat.exists_eq_add_one_of_ne_zero (Nat.ne_of_gt c.utf8Size_pos)
  have hsum : c.utf8Size + offset = (n + offset) + 1 := by omega
  rw [hsum, dropBytes?, if_pos (by omega)]
  congr 1
  omega

private theorem takeBytes?_cons (c : Char) (s : List Char) (offset : Nat) :
    takeBytes? (c.utf8Size + offset) (c :: s) = (takeBytes? offset s).map (c :: ·) := by
  obtain ⟨n, hn⟩ := Nat.exists_eq_add_one_of_ne_zero (Nat.ne_of_gt c.utf8Size_pos)
  have hsum : c.utf8Size + offset = (n + offset) + 1 := by omega
  rw [hsum, takeBytes?, if_pos (by omega)]
  congr 2
  omega

theorem dropBytes?_append (s t : List Char) : dropBytes? (byteSize s) (s ++ t) = some t := by
  induction s with
  | nil => rw [byteSize, List.nil_append, dropBytes?]
  | cons c s ih => rw [byteSize, List.cons_append, dropBytes?_cons, ih]

private theorem takeBytes?_append (s t : List Char) :
    takeBytes? (byteSize s) (s ++ t) = some s := by
  induction s with
  | nil => rw [byteSize, takeBytes?]
  | cons c s ih => rw [byteSize, List.cons_append, takeBytes?_cons, ih, Option.map_some]

/-- What stands between two parts of a text is found by the sizes of the parts. -/
theorem slice?_append (s t u : List Char) :
    slice? (byteSize s) (byteSize s + byteSize t) (s ++ (t ++ u)) = some t := by
  rw [slice?, if_pos (Nat.le_add_right _ _), dropBytes?_append, Option.bind_some,
    Nat.add_sub_cancel_left, takeBytes?_append]

end MockServer.Text
