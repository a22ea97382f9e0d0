import Mathlib.Data.List.Basic

/-! Transactions over a state: a body either raises or returns with the state it leaves, and a
raise rolls the whole body back. Bodies are reasoned about through `wp`. -/
namespace Transaction

/-- A transaction body over states `σ`, raising `ε`. -/
def Tx (σ ε α : Type) : Type := σ → Except ε (α × σ)

variable {σ ε α β : Type}

namespace Tx

instance : Monad (Tx σ ε) where
  pure a := fun s => .ok (a, s)
  bind x f := fun s => match x s with
    | .ok (a, t) => f a t
    | .error e => .error e

/-- The state the transaction currently sees. -/
def read : Tx σ ε σ := fun s => .ok (s, s)

def raise (e : ε) : Tx σ ε α := fun _ => .error e

/-- Raise unless the condition holds. -/
def ensure (c : Prop) [Decidable c] (e : ε) : Tx σ ε Unit :=
  fun s => if c then .ok ((), s) else .error e

/-- The fetched row, or a raise where there is none. -/
def fetched (o : Option α) (e : ε) : Tx σ ε α :=
  fun s => match o with
    | some a => .ok (a, s)
    | none => .error e

/-- A pure check run inside a transaction. -/
def check (x : Except ε α) : Tx σ ε α :=
  fun s => match x with
    | .ok a => .ok (a, s)
    | .error e => .error e

/-- Run the body only under the condition. -/
def when (c : Prop) [Decidable c] (x : Tx σ ε Unit) : Tx σ ε Unit :=
  fun s => if c then x s else .ok ((), s)

/-- Commit a body that returned, roll back one that raised. -/
def run (x : Tx σ ε α) (s : σ) : Except ε α × σ :=
  match x s with
  | .ok (a, t) => (.ok a, t)
  | .error e => (.error e, s)

/-- Commit a body that returned, and raise only then what it returned. -/
def runThen (x : Tx σ ε (Except ε α)) (s : σ) : Except ε α × σ :=
  match x s with
  | .ok (r, t) => (r, t)
  | .error e => (.error e, s)

/-- From `s` the body returns only into `Q` and raises only within `E`. -/
def wp (x : Tx σ ε α) (Q : α → σ → Prop) (E : ε → Prop) (s : σ) : Prop :=
  match x s with
  | .ok (a, t) => Q a t
  | .error e => E e

section Rules
variable {x : Tx σ ε α} {f : α → Tx σ ε β} {s : σ} {e : ε} {a : α} {E E' : ε → Prop}
  {Q Q' : α → σ → Prop} {R : β → σ → Prop}

@[simp] theorem wp_bind : wp (x >>= f) R E s ↔ wp x (fun a t => wp (f a) R E t) E s := by
  change (match (match x s with | .ok (a, t) => f a t | .error e => .error e) with
    | .ok (a, t) => R a t | .error e => E e) ↔ _
  unfold wp
  cases x s <;> simp

@[simp] theorem wp_pure : wp (pure a : Tx σ ε α) Q E s ↔ Q a s := Iff.rfl

@[simp] theorem wp_read {Q : σ → σ → Prop} : wp (read : Tx σ ε σ) Q E s ↔ Q s s := Iff.rfl

@[simp] theorem wp_raise : wp (raise e : Tx σ ε α) Q E s ↔ E e := Iff.rfl

@[simp] theorem wp_ensure {c : Prop} [Decidable c] {Q : Unit → σ → Prop} :
    wp (ensure c e : Tx σ ε Unit) Q E s ↔ (c → Q () s) ∧ (¬ c → E e) := by
  unfold wp ensure
  by_cases hc : c <;> simp [hc]

@[simp] theorem wp_fetched {o : Option α} :
    wp (fetched o e : Tx σ ε α) Q E s ↔ (∀ a, o = some a → Q a s) ∧ (o = none → E e) := by
  cases o <;> simp [wp, fetched]

@[simp] theorem wp_check {y : Except ε α} :
    wp (check y : Tx σ ε α) Q E s ↔ (∀ a, y = .ok a → Q a s) ∧ (∀ e, y = .error e → E e) := by
  cases y <;> simp [wp, check]

@[simp] theorem wp_when {c : Prop} [Decidable c] {x : Tx σ ε Unit} {Q : Unit → σ → Prop} :
    wp (when c x) Q E s ↔ (c → wp x Q E s) ∧ (¬ c → Q () s) := by
  unfold wp when
  by_cases hc : c <;> simp [hc]

@[simp] theorem wp_ite {c : Prop} [Decidable c] {y : Tx σ ε α} :
    wp (if c then x else y) Q E s ↔ (c → wp x Q E s) ∧ (¬ c → wp y Q E s) := by
  by_cases hc : c <;> simp [hc]

theorem wp_mono (h : wp x Q E s) (hQ : ∀ a t, Q a t → Q' a t) (hE : ∀ e, E e → E' e) :
    wp x Q' E' s := by
  unfold wp at h ⊢
  cases hx : x s with
  | ok p =>
    rw [hx] at h
    exact hQ _ _ h
  | error e =>
    rw [hx] at h
    exact hE _ h

theorem wp_always (hQ : ∀ a t, Q a t) (hE : ∀ e, E e) : wp x Q E s := by
  unfold wp
  cases x s with
  | ok p => exact hQ _ _
  | error e => exact hE _

/-- The committed outcome of a run. -/
theorem wp_run (h : wp x Q E s) :
    (∃ a t, x.run s = (.ok a, t) ∧ Q a t) ∨ ∃ e, x.run s = (.error e, s) ∧ E e := by
  unfold wp at h
  unfold run
  cases hx : x s with
  | ok p =>
    rw [hx] at h
    exact .inl ⟨p.1, p.2, rfl, h⟩
  | error e =>
    rw [hx] at h
    exact .inr ⟨e, rfl, h⟩

theorem wp_runThen {x : Tx σ ε (Except ε α)} {Q : Except ε α → σ → Prop} (h : wp x Q E s) :
    (∃ r t, x.runThen s = (r, t) ∧ Q r t) ∨ ∃ e, x.runThen s = (.error e, s) ∧ E e := by
  unfold wp at h
  unfold runThen
  cases hx : x s with
  | ok p =>
    rw [hx] at h
    exact .inl ⟨p.1, p.2, rfl, h⟩
  | error e =>
    rw [hx] at h
    exact .inr ⟨e, rfl, h⟩

end Rules

section Constrained
variable {τ : Type} {P : τ → Prop} [DecidablePred P]

/-- One write statement: the new contents must pass the schema, else the statement raises. -/
def write (f : τ → τ) (e : ε) : Tx {t : τ // P t} ε Unit :=
  fun s => if h : P (f s.1) then .ok ((), ⟨f s.1, h⟩) else .error e

@[simp] theorem wp_write {f : τ → τ} {e : ε} {s : {t : τ // P t}} {E : ε → Prop}
    {Q : Unit → {t : τ // P t} → Prop} :
    wp (write f e) Q E s ↔ (∀ h : P (f s.1), Q () ⟨f s.1, h⟩) ∧ (¬ P (f s.1) → E e) := by
  unfold wp write
  by_cases hP : P (f s.1) <;> simp [hP]

end Constrained

end Tx
end Transaction
