import MockServer.Proofs.Json.Scalar

/-!
A value that was written is read as it was: the reader, which sees one character at a time and keeps
the open containers on a stack, comes out with the same tree.
-/
namespace MockServer.Json

mutual

/-- A value as it is read. -/
def Value.tree : Value → Tree
  | .null => .null
  | .bool b => .bool b
  | .int n => .number (.ofInt n)
  | .string s => .string (.ofText s.toList)
  | .array items => .array (itemTrees items)
  | .object members => .object (memberTrees members)

def itemTrees : List Value → List Tree
  | [] => []
  | v :: rest => v.tree :: itemTrees rest

def memberTrees : List (String × Value) → List (Quoted × Tree)
  | [] => []
  | (key, v) :: rest => (.ofText key.toList, v.tree) :: memberTrees rest

end

theorem memberTrees_eq (members : List (String × Value)) :
    memberTrees members = members.map fun m => (.ofText m.1.toList, m.2.tree) := by
  induction members with
  | nil => rfl
  | cons m rest ih => rw [memberTrees, List.map_cons, ih]

namespace Reader

variable {stack : List Frame}

/-- No value starts with a blank or with a bracket that closes. -/
theorem exists_write_cons (v : Value) :
    ∃ c rest, v.write = c :: rest ∧ isBlank c = false ∧ c ≠ ']' := by
  match v with
  | .null | .bool true | .bool false | .string _ | .array [] | .array (_ :: _) | .object []
  | .object (_ :: _) =>
    simp only [Value.write]
    exact ⟨_, _, rfl, by decide, by decide⟩
  | .int n =>
    rw [Value.write, Number.intText]
    split
    · exact ⟨_, _, rfl, by decide, by decide⟩
    · obtain ⟨d, rest, heq, hd, -⟩ := exists_digitsBefore [] n.natAbs
      have hdigit : ∀ d : Fin 10,
          isBlank (Number.digitChar d) = false ∧ Number.digitChar d ≠ ']' := by decide
      rw [Number.natText, Number.digitsOf, heq, List.map_cons]
      exact ⟨_, _, rfl, hdigit ⟨d, hd⟩⟩

/-- The first item of an array is read like any other value. -/
theorem feed_firstItem (v : Value) :
    feed ⟨stack, .firstItem⟩ v.write = feed ⟨.items [] :: stack, .value⟩ v.write := by
  obtain ⟨c, rest, hv, hblank, hclose⟩ := exists_write_cons v
  have hstep : stepChar ⟨stack, .firstItem⟩ c = stepChar ⟨.items [] :: stack, .value⟩ c := by
    simp only [stepChar, hblank, if_neg hclose]
    rfl
  rw [hv, feed_cons, feed_cons, hstep]

private theorem feed_quote (s : List Char) :
    feed ⟨stack, .value⟩ (quote s) = finish stack (.string (.ofText s)) := by
  have hquote : stepChar ⟨stack, .value⟩ '"' = ⟨stack, .quoted none []⟩ := rfl
  rw [quote, feed_cons, hquote, feed_quoted, finishQuoted, List.reverse_reverse]

/-- Where a key may come, a quoted text is one. -/
theorem feed_key {r : Reader} {done : List (Quoted × Tree)}
    (hquote : r.stepChar '"' = ⟨stack, .quoted (some done) []⟩) (s : List Char) :
    r.feed (quote s) = ⟨stack, .colon done (.ofText s)⟩ := by
  rw [quote, feed_cons, hquote, feed_quoted, finishQuoted, List.reverse_reverse]

mutual

/-- A value is read to its end, whatever containers are open around it. -/
theorem ends_write (stack : List Frame) (v : Value) :
    Ends stack v.tree (feed ⟨stack, .value⟩ v.write) := by
  match v with
  | .null | .bool true | .bool false => exact .finished
  | .int n => exact ends_intText n
  | .string s =>
    rw [Value.write, feed_quote]
    exact .finished
  | .array [] => exact .finished
  | .array (v :: rest) =>
    have hv := ends_write (.items [] :: stack) v
    have hopen : stepChar ⟨stack, .value⟩ '[' = ⟨stack, .firstItem⟩ := rfl
    rw [Value.write, feed_cons, hopen, feed_append, feed_firstItem,
      feed_writeItems stack [] v.tree _ hv rest]
    exact .finished
  | .object [] => exact .finished
  | .object ((key, v) :: rest) =>
    have hv := ends_write (.member [] (.ofText key.toList) :: stack) v
    have hopen : stepChar ⟨stack, .value⟩ '\x7b' = ⟨stack, .firstKey⟩ := rfl
    have hcolon : stepChar ⟨stack, .colon [] (.ofText key.toList)⟩ ':' =
        ⟨.member [] (.ofText key.toList) :: stack, .value⟩ := rfl
    have hquote : stepChar ⟨stack, .firstKey⟩ '"' = ⟨stack, .quoted (some []) []⟩ := rfl
    rw [Value.write, feed_cons, hopen, feed_append, feed_key hquote, feed_cons, hcolon, feed_append,
      feed_writeMembers stack [] _ v.tree _ hv rest]
    exact .finished

/-- The items after the first one are read up to the end of their array. -/
theorem feed_writeItems (stack : List Frame) (done : List Tree) (t : Tree) (r : Reader)
    (h : Ends (.items done :: stack) t r) (rest : List Value) :
    r.feed (writeItems rest) = finish stack (.array ((t :: done).reverse ++ itemTrees rest)) := by
  match rest with
  | [] =>
    rw [writeItems, feed_cons, h.stepChar_eq (by decide), itemTrees, List.append_nil]
    rfl
  | v :: rest =>
    have hv := ends_write (.items (t :: done) :: stack) v
    have hcomma : afterValue (finish (.items done :: stack) t) ',' =
        ⟨.items (t :: done) :: stack, .value⟩ := rfl
    rw [writeItems, feed_cons, h.stepChar_eq (by decide), hcomma, feed_append,
      feed_writeItems stack (t :: done) v.tree _ hv rest, itemTrees, List.reverse_cons,
      List.append_assoc, List.singleton_append]

/-- The members after the first one are read up to the end of their object. -/
theorem feed_writeMembers (stack : List Frame) (done : List (Quoted × Tree)) (key : Quoted)
    (t : Tree) (r : Reader) (h : Ends (.member done key :: stack) t r)
    (rest : List (String × Value)) :
    r.feed (writeMembers rest) =
      finish stack (.object (((key, t) :: done).reverse ++ memberTrees rest)) := by
  match rest with
  | [] =>
    rw [writeMembers, feed_cons, h.stepChar_eq (by decide), memberTrees, List.append_nil]
    rfl
  | (next, v) :: rest =>
    have hv := ends_write (.member ((key, t) :: done) (.ofText next.toList) :: stack) v
    have hcomma : afterValue (finish (.member done key :: stack) t) ',' =
        ⟨stack, .nextKey ((key, t) :: done)⟩ := rfl
    have hquote : stepChar ⟨stack, .nextKey ((key, t) :: done)⟩ '"' =
        ⟨stack, .quoted (some ((key, t) :: done)) []⟩ := rfl
    have hcolon : stepChar ⟨stack, .colon ((key, t) :: done) (.ofText next.toList)⟩ ':' =
        ⟨.member ((key, t) :: done) (.ofText next.toList) :: stack, .value⟩ := rfl
    rw [writeMembers, feed_cons, h.stepChar_eq (by decide), hcomma, feed_append, feed_key hquote,
      feed_cons, hcolon, feed_append,
      feed_writeMembers stack ((key, t) :: done) _ v.tree _ hv rest, memberTrees,
      List.reverse_cons, List.append_assoc, List.singleton_append]

end

end Reader

/-- The text of a value reads as that value. -/
theorem Tree.read?_write (v : Value) : Tree.read? (.ofText v.write) = some v.tree := by
  have hfeed : (Input.ofText v.write).foldl Reader.step {} = Reader.feed {} v.write := by
    rw [Input.ofText, List.foldl_map]
    rfl
  rw [Tree.read?, run, hfeed, (Reader.ends_write [] v).close_eq]
  rfl

end MockServer.Json
