import Mathlib.Data.List.Basic
import Mathlib.Data.List.Nodup

/-! Tables as lists of rows: `UPDATE … WHERE`, `SELECT … WHERE`, and primary keys. -/
namespace Rows

variable {α κ : Type} {rows : List α} {p : α → Bool} {f : α → α} {a b r : α} {key : α → κ}

/-- `UPDATE … SET … WHERE` -/
def update (p : α → Bool) (f : α → α) (rows : List α) : List α :=
  rows.map fun r => if p r then f r else r

theorem mem_update : r ∈ update p f rows ↔ ∃ a ∈ rows, r = if p a then f a else a := by
  unfold update
  constructor
  · intro h
    obtain ⟨a, ha, he⟩ := List.mem_map.mp h
    exact ⟨a, ha, he.symm⟩
  · rintro ⟨a, ha, he⟩
    exact List.mem_map.mpr ⟨a, ha, he.symm⟩

theorem mem_update_cases (h : r ∈ update p f rows) :
    (r ∈ rows ∧ p r = false) ∨ ∃ a ∈ rows, p a = true ∧ r = f a := by
  obtain ⟨a, ha, rfl⟩ := mem_update.mp h
  cases hp : p a with
  | true => exact .inr ⟨a, ha, hp, by simp⟩
  | false => exact .inl ⟨by simpa using ha, by simpa using hp⟩

theorem mem_update_of_hit (ha : a ∈ rows) (hp : p a = true) : f a ∈ update p f rows :=
  mem_update.mpr ⟨a, ha, by simp [hp]⟩

theorem mem_update_of_miss (ha : a ∈ rows) (hp : p a = false) : a ∈ update p f rows :=
  mem_update.mpr ⟨a, ha, by simp [hp]⟩

theorem map_update {g : α → κ} (h : ∀ a, p a = true → g (f a) = g a) :
    (update p f rows).map g = rows.map g := by
  rw [update, List.map_map]
  apply List.map_congr_left
  intro a _
  cases hp : p a with
  | true => simp [hp, h a hp]
  | false => simp [hp]

/-- A statement without hits changes nothing. -/
theorem update_of_miss (h : ∀ a ∈ rows, p a = false) : update p f rows = rows := by
  rw [update, List.map_congr_left (g := id) fun a ha => by simp [h a ha], List.map_id]

/-- Two rows of one key are the same row. -/
theorem eq_of_key (hn : (rows.map key).Nodup) (ha : a ∈ rows) (hb : b ∈ rows)
    (h : key a = key b) : a = b := List.inj_on_of_nodup_map hn ha hb h

theorem key_ne_of_notMem {k : κ} (h : k ∉ rows.map key) (ha : a ∈ rows) : key a ≠ k := by
  rintro rfl
  exact h (List.mem_map_of_mem ha)

variable [DecidableEq κ] {k : κ}

theorem mem_of_find (h : rows.find? p = some r) : r ∈ rows ∧ p r = true :=
  ⟨List.mem_of_find?_eq_some h, List.find?_some h⟩

/-- The row a primary-key lookup finds. -/
theorem find_key (hn : (rows.map key).Nodup) :
    rows.find? (fun a => key a = k) = some r ↔ r ∈ rows ∧ key r = k := by
  constructor
  · intro h
    simpa using mem_of_find h
  · rintro ⟨hr, hk⟩
    cases hf : rows.find? (fun a => key a = k) with
    | none =>
      rw [List.find?_eq_none] at hf
      exact (hf r hr (by simpa using hk)).elim
    | some b =>
      have hb := mem_of_find hf
      rw [eq_of_key hn hb.1 hr (by simpa using (of_decide_eq_true hb.2).trans hk.symm)]

theorem find_none : rows.find? p = none ↔ ∀ a ∈ rows, p a = false := by
  simp [List.find?_eq_none]

omit [DecidableEq κ] in
/-- A statement whose hits all have one row's key hits that row only. -/
theorem count_one (hn : (rows.map key).Nodup) (hr : r ∈ rows) (hp : p r = true)
    (hk : ∀ a ∈ rows, p a = true → key a = key r) : rows.countP p = 1 := by
  induction rows with
  | nil => cases hr
  | cons a rows ih =>
    rw [List.map_cons, List.nodup_cons] at hn
    have hk' : ∀ b ∈ rows, p b = true → key b = key r :=
      fun b hb => hk b (List.mem_cons_of_mem _ hb)
    rcases List.mem_cons.mp hr with rfl | hm
    · have hz : rows.countP p = 0 := by
        rw [List.countP_eq_zero]
        intro b hb hpb
        exact hn.1 (List.mem_map.mpr ⟨b, hb, hk' b hb hpb⟩)
      simp [hz, hp]
    · have ha : p a = false := by
        cases hpa : p a with
        | false => rfl
        | true => exact (hn.1 (List.mem_map.mpr ⟨r, hm, (hk a List.mem_cons_self hpa).symm⟩)).elim
      simp [ih hn.2 hm hk', ha]

/-- The rows with the one of `new`'s key replaced. -/
def set (key : α → κ) (new : α) (rows : List α) : List α :=
  update (fun a => decide (key a = key new)) (fun _ => new) rows

variable {new : α}

theorem mem_set_cases (h : a ∈ set key new rows) : a = new ∨ (a ∈ rows ∧ key a ≠ key new) := by
  rcases mem_update_cases h with ⟨ha, hk⟩ | ⟨_, _, _, rfl⟩
  · exact .inr ⟨ha, by simpa using hk⟩
  · exact .inl rfl

theorem mem_set_self (hr : r ∈ rows) (hk : key r = key new) : new ∈ set key new rows :=
  mem_update_of_hit (f := fun _ => new) hr (by simp [hk])

theorem mem_set_of_ne (ha : a ∈ rows) (hk : key a ≠ key new) : a ∈ set key new rows :=
  mem_update_of_miss ha (by simp [hk])

theorem map_key_set : (set key new rows).map key = rows.map key :=
  map_update fun _ h => (of_decide_eq_true h).symm

/-- Replacing one row relates the old and the new rows as it relates that row to its successor. -/
theorem exists_set_of_mem {R : α → α → Prop} (hn : (rows.map key).Nodup) (hr : r ∈ rows)
    (hk : key r = key new) (hrefl : ∀ a, R a a) (h : R r new) (ha : a ∈ rows) :
    ∃ b ∈ set key new rows, R a b := by
  by_cases he : key a = key new
  · have har : a = r := eq_of_key hn ha hr (he.trans hk.symm)
    subst har
    exact ⟨new, mem_set_self hr hk, h⟩
  · exact ⟨a, mem_set_of_ne ha he, hrefl a⟩

theorem exists_of_mem_set {R : α → α → Prop} (hr : r ∈ rows) (hrefl : ∀ a, R a a) (h : R r new)
    (hb : b ∈ set key new rows) : ∃ a ∈ rows, R a b := by
  rcases mem_set_cases hb with rfl | ⟨hb, _⟩
  · exact ⟨r, hr, h⟩
  · exact ⟨b, hb, hrefl b⟩

/-- A guarded update that hits one row is a replacement of that row. -/
theorem update_eq_set (hn : (rows.map key).Nodup) (hr : r ∈ rows) (hp : p r = true)
    (hk : ∀ a ∈ rows, p a = true → key a = key r) (hf : key (f r) = key r) :
    update p f rows = set key (f r) rows := by
  unfold set update
  apply List.map_congr_left
  intro a ha
  by_cases he : key a = key r
  · have har : a = r := eq_of_key hn ha hr he
    subst har
    simp [hp, hf]
  · have hpa : p a = false := by
      cases hpa : p a with
      | false => rfl
      | true => exact (he (hk a ha hpa)).elim
    simp [hpa, hf, he]

end Rows
