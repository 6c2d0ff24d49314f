/-!
Computations that give a value or a fault: what it takes for one to give a value.
-/
namespace MockServer

variable {ε α β : Type} {x : Except ε α} {a : α} {b : β}

/-- Each part of a computation that gives a value gives one itself. -/
theorem eq_ok_of_bind {f : α → Except ε β} (h : x >>= f = .ok b) : ∃ a, x = .ok a ∧ f a = .ok b := by
  cases x with
  | error e => cases h
  | ok a => exact ⟨a, rfl, h⟩

theorem eq_ok_of_toOption (h : x.toOption = some a) : x = .ok a := by
  cases x with
  | error e => cases h
  | ok b => exact congrArg _ (Option.some.inj h)

end MockServer
