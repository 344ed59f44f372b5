import Mathlib.Data.List.Basic

/-! # Computations that can fail

A computation ends with a value or with the first error on its way.

* `bind_eq_ok_iff`, `map_eq_ok_iff`: how it comes to a value;
* `failure?`: the error that it ends with, and how that of two computations in a row is found. -/

namespace ContentAssist

section Failure

variable {ε α β : Type}

/-! ### Values -/

theorem bind_eq_ok_iff {x : Except ε α} {f : α → Except ε β} {b : β} :
    x >>= f = .ok b ↔ ∃ a, x = .ok a ∧ f a = .ok b := by
  cases x <;> simp [bind, Except.bind]

theorem map_eq_ok_iff {x : Except ε α} {f : α → β} {b : β} :
    x.map f = .ok b ↔ ∃ a, x = .ok a ∧ f a = b := by
  cases x <;> simp [Except.map]

/-! ### Errors -/

/-- The error that a computation ends with. -/
def failure? : Except ε α → Option ε
  | .ok _ => none
  | .error e => some e

@[simp] theorem failure?_ok (a : α) : failure? (.ok a : Except ε α) = none := rfl

@[simp] theorem failure?_error (e : ε) : failure? (.error e : Except ε α) = some e := rfl

theorem failure?_eq_some_iff {x : Except ε α} {e : ε} : failure? x = some e ↔ x = .error e := by
  cases x <;> simp

@[simp] theorem failure?_map (f : α → β) (x : Except ε α) : failure? (x.map f) = failure? x := by
  cases x <;> rfl

/-- Of two computations in a row, the second can fail only after the first has succeeded. -/
theorem failure?_bind {x : Except ε α} {f : α → Except ε β} {second : Option ε}
    (h : ∀ a, failure? (f a) = second) : failure? (x >>= f) = (failure? x).or second := by
  cases x with
  | ok a => exact h a
  | error e => rfl

theorem failure?_bind_ok {x : Except ε α} {f : α → Except ε β} (h : ∀ a, failure? (f a) = none) :
    failure? (x >>= f) = failure? x := by
  rw [failure?_bind h, Option.or_none]

/-- What is found first is found behind elements that give nothing. -/
theorem findSome?_eq_some_split {f : α → Option β} {xs : List α} {b : β} :
    xs.findSome? f = some b ↔
      ∃ before a after, xs = before ++ a :: after ∧ f a = some b ∧ before.findSome? f = none := by
  rw [List.findSome?_eq_some_iff]
  simp only [List.findSome?_eq_none_iff]

end Failure

end ContentAssist
