import Mathlib.Data.List.Basic

/-! Machines that take one labelled step after another, their histories, and invariants of runs
whose steps all meet a condition. -/
namespace Machines

/-- A labelled transition system with its starting states. -/
structure Machine (σ ι : Type) where
  start : σ → Prop
  step : σ → ι → σ → Prop

variable {σ ι : Type} {m : Machine σ ι}

/-- The states a run has visited, newest first; `ok` is asked of every step, about the states
visited so far and the label taken. -/
inductive Machine.History (m : Machine σ ι) (ok : List σ → ι → Prop) : List σ → Prop where
  | start {s : σ} : m.start s → History m ok [s]
  | step {s t : σ} {past : List σ} {i : ι} : History m ok (s :: past) → ok (s :: past) i →
      m.step s i t → History m ok (t :: s :: past)

/-- The states of runs whose steps all meet `ok`. -/
def Machine.Reaches (m : Machine σ ι) (ok : List σ → ι → Prop) (s : σ) : Prop :=
  ∃ past, m.History ok (s :: past)

/-- The states of all runs. -/
def Machine.Reachable (m : Machine σ ι) (s : σ) : Prop := m.Reaches (fun _ _ => True) s

variable {ok ok' : List σ → ι → Prop} {s t : σ} {l past : List σ}

theorem Machine.History.weaken (hw : ∀ l i, ok l i → ok' l i) (h : m.History ok l) :
    m.History ok' l := by
  induction h with
  | start hs => exact .start hs
  | step _ ho hs ih => exact .step ih (hw _ _ ho) hs

theorem Machine.History.reachable (h : m.History ok (s :: past)) : m.Reachable s :=
  ⟨past, h.weaken fun _ _ _ => trivial⟩

theorem Machine.History.head_reachable (h : m.History ok l) (hs : s ∈ l.head?) :
    m.Reachable s := by
  cases l with
  | nil => cases hs
  | cons t past =>
    cases hs
    exact h.reachable

theorem Machine.Reaches.reachable (h : m.Reaches ok s) : m.Reachable s := by
  obtain ⟨past, hp⟩ := h
  exact hp.reachable

theorem Machine.reachable_start (h : m.start s) : m.Reachable s := ⟨[], .start h⟩

theorem Machine.Reachable.next {i : ι} (h : m.Reachable s) (hs : m.step s i t) :
    m.Reachable t := by
  obtain ⟨past, hp⟩ := h
  exact ⟨s :: past, .step hp trivial hs⟩

/-- Where a function takes the steps, a run goes on along any labels. -/
theorem Machine.Reachable.foldl {f : σ → ι → σ} (h : m.Reachable s) (hf : ∀ s i, m.step s i (f s i))
    (labels : List ι) : m.Reachable (labels.foldl f s) := by
  induction labels generalizing s with
  | nil => exact h
  | cons i labels ih => exact ih (h.next (hf s i))

/-- A run goes on along labels that are admitted after any past. -/
theorem Machine.Reaches.foldl {f : σ → ι → σ} (h : m.Reaches ok s) (hf : ∀ s i, m.step s i (f s i))
    (labels : List ι) (hok : ∀ i ∈ labels, ∀ l, ok l i) : m.Reaches ok (labels.foldl f s) := by
  induction labels generalizing s with
  | nil => exact h
  | cons i labels ih =>
    obtain ⟨past, hp⟩ := h
    exact ih ⟨s :: past, hp.step (hok i List.mem_cons_self _) (hf s i)⟩
      fun j hj => hok j (List.mem_cons_of_mem _ hj)

/-- What holds at the start and is kept by every admitted step holds along the whole run. -/
theorem Machine.History.invariant {I : List σ → Prop} (h0 : ∀ s, m.start s → I [s])
    (hstep : ∀ s past i t, m.History ok (s :: past) → I (s :: past) → ok (s :: past) i →
      m.step s i t → I (t :: s :: past)) (h : m.History ok l) : I l := by
  induction h with
  | start hs => exact h0 _ hs
  | step hp ho hs ih => exact hstep _ _ _ _ hp ih ho hs

theorem Machine.Reaches.invariant {I : σ → Prop} (h0 : ∀ s, m.start s → I s)
    (hstep : ∀ s past i t, I s → ok (s :: past) i → m.step s i t → I t)
    (h : m.Reaches ok s) : I s := by
  obtain ⟨past, hp⟩ := h
  have key : ∀ l, m.History ok l → ∀ u v, l = u :: v → I u := by
    intro l hl
    induction hl with
    | start hs => intro u v he; cases he; exact h0 _ hs
    | step _ ho hs ih => intro u v he; cases he; exact hstep _ _ _ _ (ih _ _ rfl) ho hs
  exact key _ hp _ _ rfl

theorem Machine.Reachable.invariant {I : σ → Prop} (h0 : ∀ s, m.start s → I s)
    (hstep : ∀ s i t, I s → m.step s i t → I t) (h : m.Reachable s) : I s :=
  Machine.Reaches.invariant h0 (fun s _ i t hs _ ht => hstep s i t hs ht) h

/-- Every state of a history is itself the head of a history. -/
theorem Machine.History.tail (h : m.History ok (s :: t :: past)) : m.History ok (t :: past) := by
  cases h with
  | step hp _ _ => exact hp

end Machines
