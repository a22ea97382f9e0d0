import Mathlib.Tactic.Common

/-! What a chain of checks that returns has found. -/
namespace Checks

variable {ε α β : Type} {x y : Except ε α} {f : α → Except ε β} {e : ε} {a : α} {b : β} {c : Prop}

theorem bind_ok : (x >>= f) = .ok b ↔ ∃ a, x = .ok a ∧ f a = .ok b := by
  cases x with
  | error e => simp [Bind.bind, Except.bind]
  | ok a => simp [Bind.bind, Except.bind]

theorem pure_ok {a b : α} : (pure a : Except ε α) = .ok b ↔ a = b := by
  simp [pure, Except.pure]

theorem throw_ok : (throw e : Except ε α) = .ok a ↔ False := by
  simp [throw, throwThe, MonadExceptOf.throw]

theorem map_ok {g : α → β} : x.map g = .ok b ↔ ∃ a, x = .ok a ∧ g a = b := by
  cases x with
  | error e => simp [Except.map]
  | ok a => simp [Except.map]

theorem bind_throw_ok : ((throw e : Except ε α) >>= f) = .ok b ↔ False := by
  simp [bind_ok, throw_ok]

/-- A check that raises when its condition holds. -/
theorem unless_ok [Decidable c] {z : Except ε β} :
    (if c then (throw e : Except ε α) >>= f else z) = .ok b ↔ ¬ c ∧ z = .ok b := by
  by_cases hc : c
  · simp [hc, bind_throw_ok]
  · simp [hc]

theorem unless_throw_ok [Decidable c] :
    (if c then throw e else y) = .ok a ↔ ¬ c ∧ y = .ok a := by
  by_cases hc : c
  · simp [hc, throw_ok]
  · simp [hc]

theorem unless_error_ok [Decidable c] :
    (if c then .error e else y) = .ok a ↔ ¬ c ∧ y = .ok a := by
  by_cases hc : c
  · simp [hc]
  · simp [hc]

theorem ite_ok [Decidable c] : (if c then x else y) = .ok a ↔ (c ∧ x = .ok a) ∨ (¬ c ∧ y = .ok a) := by
  by_cases hc : c
  · simp [hc]
  · simp [hc]

/-- A result that is decided without its error. -/
theorem ok_of_toOption (h : x.toOption = some a) : x = .ok a := by
  cases x with
  | error e => cases h
  | ok b => exact congrArg Except.ok (Option.some.inj h)

end Checks
