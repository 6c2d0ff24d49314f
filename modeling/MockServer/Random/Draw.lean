import MockServer.Number.Binary64

/-!
Computations that draw 64-bit random words. A computation runs on a finite list of words and gives
none when they run out, so its words can be counted and no stream is endless.
-/
namespace MockServer.Random

open MockServer.Number

/-- A computation that takes words from the front of a list. -/
abbrev Draw := StateT (List UInt64) Option

def word : Draw UInt64 := fun
  | [] => none
  | w :: rest => some (w, rest)

/-- How many words there are: `2 ^ 64`. -/
def wordCount : Nat := 0x10000000000000000

/-- The greatest low half of a product that is accepted for a range: one less than the range
shifted up to the top of a word. -/
def zone (range : Nat) : Nat := range * Nat.pow 2 (63 - Nat.log2 range) - 1

/-- The high half of word times range, for the first word whose low half lies in the zone. -/
def scaled (range : Nat) : List UInt64 → Option (Nat × List UInt64)
  | [] => none
  | w :: rest =>
    let product := w.toNat * range
    if product % wordCount ≤ zone range then some (product / wordCount, rest)
    else scaled range rest

/-- A number below `range`, which is positive and fits a word. A range of one also takes a word. -/
def below (range : Nat) : Draw Nat := scaled range

/-- A number from `low` to `high`, both included. -/
def between (low high : Nat) : Draw Nat := do return low + (← below (high - low + 1))

/-- True with a probability from `[0, 1]`. Only the certain case takes no word. -/
def chance (p : Binary64) : Draw Bool :=
  if p = Binary64.one then pure true
  else do return (← word).toNat < p.scaledFloor 64

/-- A number below `2 ^ bits`, from the top bits of a single word. -/
def topBits (bits : Nat) : Draw Nat := do return (← word).toNat / Nat.pow 2 (64 - bits)

/-- One of `2 ^ bits` items, by position; positions after the last item stand for the first one. -/
def pick {α : Type} (bits : Nat) (first : α) (others : List α) : Draw α := do
  let i ← topBits bits
  return (first :: others).getD i first

/-- Results of `n` runs after `done` (in reverse). -/
def timesAfter {α : Type} (draw : Draw α) (done : List α) : Nat → Draw (List α)
  | 0 => pure done.reverse
  | n + 1 => do timesAfter draw ((← draw) :: done) n

def times {α : Type} (n : Nat) (draw : Draw α) : Draw (List α) := timesAfter draw [] n

theorem scaled_lt {range n : Nat} {ws rest : List UInt64} (hr : 0 < range)
    (h : scaled range ws = some (n, rest)) : n < range := by
  induction ws with
  | nil => simp [scaled] at h
  | cons w ws ih =>
    rw [scaled] at h
    split at h
    · simp only [Option.some.injEq, Prod.mk.injEq] at h
      rw [← h.1, Nat.div_lt_iff_lt_mul (by decide), Nat.mul_comm]
      exact Nat.mul_lt_mul_of_pos_left w.toNat_lt hr
    · exact ih h

end MockServer.Random
