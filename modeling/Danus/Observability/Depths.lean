import Danus.Lib.Chains
import Danus.Observability.App

/-! The depth of a fact is the length of a longest chain of predecessors. -/
namespace Danus.Observability
open Python Chains

section Dictionary
variable {α : Type} {k key : PyStr} {v : α} {d : List (PyStr × α)}

theorem lookup_replaced (d : List (PyStr × α)) {k key : PyStr} (hk : key ≠ k) (v : α) :
    (d.map fun kv => if kv.1 == k then (k, v) else kv).lookup key = d.lookup key := by
  induction d with
  | nil => rfl
  | cons kv d ih =>
    obtain ⟨k', v'⟩ := kv
    rw [List.map_cons]
    by_cases hkk : k' = k
    · rw [if_pos (beq_iff_eq.mpr hkk), lookup_cons_of_ne hk, lookup_cons_of_ne (hkk ▸ hk), ih]
    · rw [if_neg fun he => hkk (beq_iff_eq.mp he)]
      by_cases hkey : key = k'
      · rw [hkey, lookup_cons_self, lookup_cons_self]
      · rw [lookup_cons_of_ne hkey, lookup_cons_of_ne hkey, ih]

theorem lookup_setEntry (d : List (PyStr × α)) (k key : PyStr) (v : α) :
    (setEntry d (k, v)).lookup key = if key = k then some v else d.lookup key := by
  induction d with
  | nil =>
    by_cases hk : key = k
    · rw [if_pos hk, hk]
      exact lookup_cons_self
    · rw [if_neg hk]
      exact lookup_cons_of_ne hk
  | cons kv d ih =>
    obtain ⟨k', v'⟩ := kv
    by_cases hkk : k' = k
    · subst hkk
      have hset : setEntry ((k', v') :: d) (k', v) = (k', v) :: d.map fun kv =>
          if kv.1 == k' then (k', v) else kv := by
        rw [setEntry, if_pos (by simp), List.map_cons, if_pos (beq_self_eq_true k')]
      rw [hset]
      by_cases hk : key = k'
      · rw [if_pos hk, hk, lookup_cons_self]
      · rw [if_neg hk, lookup_cons_of_ne hk, lookup_cons_of_ne hk, lookup_replaced d hk]
    · have hset : setEntry ((k', v') :: d) (k, v) = (k', v') :: setEntry d (k, v) := by
        unfold setEntry
        have hany : ((k', v') :: d).any (·.1 == k) = d.any (·.1 == k) := by
          rw [List.any_cons, beq_false_of_ne hkk, Bool.false_or]
        rw [hany]
        split_ifs
        · rw [List.map_cons, if_neg (by simp [hkk])]
        · rfl
      rw [hset]
      by_cases hk : key = k'
      · rw [hk, lookup_cons_self, lookup_cons_self, if_neg hkk]
      · rw [lookup_cons_of_ne hk, ih, lookup_cons_of_ne hk]

/-- Setting new keys one after another lists them. -/
theorem setEntries {items more : List (PyStr × α)} (hn : ((items ++ more).map Prod.fst).Nodup) :
    more.foldl setEntry items = items ++ more := by
  induction more generalizing items with
  | nil => simp
  | cons kv more ih =>
    have hnew : items.any (·.1 == kv.1) = false := by
      rw [List.any_eq_false]
      intro p hp he
      rw [List.map_append, List.nodup_append] at hn
      exact hn.2.2 p.1 (List.mem_map_of_mem hp) kv.1 List.mem_cons_self (beq_iff_eq.mp he)
    have hset : setEntry items kv = items ++ [kv] := by
      rw [setEntry, if_neg (by simp [hnew])]
    have happ : items ++ kv :: more = (items ++ [kv]) ++ more := by simp
    rw [List.foldl_cons, hset, happ]
    exact ih (happ ▸ hn)

end Dictionary

variable {deps : List (PyStr × List PyStr)} {rank : PyStr → Nat} {fid : PyStr}
  {memo : List (PyStr × Nat)}

/-- What the memo holds is right. -/
def Sound (deps : List (PyStr × List PyStr)) (memo : List (PyStr × Nat)) : Prop :=
  ∀ k d, memo.lookup k = some d → Longest (predecessorsIn deps) k d

/-- The memo holds what it held, and all of it is right. -/
structure Filled (deps : List (PyStr × List PyStr)) (memo memo' : List (PyStr × Nat)) : Prop where
  sound : Sound deps memo'
  keeps : ∀ k, (memo.lookup k).isSome → (memo'.lookup k).isSome

theorem Filled.trans {memo' memo'' : List (PyStr × Nat)} (h : Filled deps memo memo')
    (h' : Filled deps memo' memo'') : Filled deps memo memo'' :=
  ⟨h'.sound, fun k hk => h'.keeps k (h.keeps k hk)⟩

theorem Sound.filled (h : Sound deps memo) : Filled deps memo memo := ⟨h, fun _ hk => hk⟩

theorem Sound.set (h : Sound deps memo) {d : Nat} (hd : Longest (predecessorsIn deps) fid d) :
    Filled deps memo (setEntry memo (fid, d)) := by
  refine ⟨fun k e he => ?_, fun k hk => ?_⟩
  · rw [lookup_setEntry] at he
    split_ifs at he with hk
    · cases he
      rw [hk]
      exact hd
    · exact h k e he
  · rw [lookup_setEntry]
    split_ifs
    · rfl
    · exact hk

/-- A call of `get` that the stack holds gives the longest chain's length. -/
def Right (deps : List (PyStr × List PyStr)) (rank : PyStr → Nat) (n : Nat) : Prop :=
  ∀ fid stack memo, Sound deps memo → (∀ s ∈ stack, rank fid < rank s) →
    (∀ m, Chain (predecessorsIn deps) m fid → m < n) →
    ∃ d memo', getDepth deps n fid stack memo = .ok (d, memo') ∧
      Longest (predecessorsIn deps) fid d ∧ Filled deps memo memo' ∧ (memo'.lookup fid).isSome

/-- The calls for the predecessors, one after another. -/
theorem foldlM_right {n : Nat} (hn : Right deps rank n) {stack ps : List PyStr}
    (hstack : ∀ p ∈ ps, ∀ s ∈ stack, rank p < rank s)
    (hfit : ∀ p ∈ ps, ∀ m, Chain (predecessorsIn deps) m p → m < n) (hs : Sound deps memo) (k : Nat) :
    ∃ m memo', ps.foldlM (fun acc p =>
        (getDepth deps n p stack acc.2).map fun r => (max acc.1 r.1, r.2)) (k, memo) =
        .ok (m, memo') ∧ Filled deps memo memo' ∧
      k ≤ m ∧ (∀ p ∈ ps, ∃ d, Longest (predecessorsIn deps) p d ∧ d ≤ m) ∧
      (m = k ∨ ∃ p ∈ ps, Longest (predecessorsIn deps) p m) := by
  induction ps generalizing k memo with
  | nil => exact ⟨k, memo, rfl, hs.filled, le_refl k, by rintro p ⟨⟩, .inl rfl⟩
  | cons p ps ih =>
    obtain ⟨d, memo₁, hget, hd, hfill, _⟩ :=
      hn p stack memo hs (hstack p List.mem_cons_self) (hfit p List.mem_cons_self)
    obtain ⟨m, memo₂, hfold, hfill₂, hle, hall, hm⟩ :=
      ih (fun q hq => hstack q (List.mem_cons_of_mem _ hq)) (fun q hq => hfit q (List.mem_cons_of_mem _ hq))
        hfill.sound (max k d)
    refine ⟨m, memo₂, ?_, hfill.trans hfill₂, (le_max_left k d).trans hle, fun q hq => ?_, ?_⟩
    · rw [List.foldlM_cons, hget]
      exact hfold
    · rcases List.mem_cons.mp hq with rfl | hq
      · exact ⟨d, hd, (le_max_right k d).trans hle⟩
      · exact hall q hq
    · rcases hm with hm | ⟨q, hq, hlong⟩
      · rcases le_total d k with hdk | hkd
        · exact .inl (hm.trans (max_eq_left hdk))
        · rw [hm, max_eq_right hkd]
          exact .inr ⟨p, List.mem_cons_self, hd⟩
      · exact .inr ⟨q, List.mem_cons_of_mem _ hq, hlong⟩

/-- Every call is right, where the predecessors are below a fact in some order. -/
theorem getDepth_right (hr : ∀ f, ∀ p ∈ predecessorsIn deps f, rank p < rank f) (n : Nat) :
    Right deps rank n := by
  induction n with
  | zero => exact fun fid _ _ _ _ hfit => absurd (hfit 0 (.leaf fid)) (Nat.lt_irrefl 0)
  | succ n ih =>
    intro fid stack memo hs hstack hfit
    cases hl : memo.lookup fid with
    | some d => exact ⟨d, memo, by rw [getDepth, hl], hs fid d hl, hs.filled, by rw [hl]; rfl⟩
    | none =>
      have hnot : fid ∉ stack := fun hm => Nat.lt_irrefl _ (hstack fid hm)
      by_cases hnil : predecessorsIn deps fid = []
      · have hleaf := longest_leaf hnil
        refine ⟨0, setEntry memo (fid, 0), ?_, hleaf, hs.set hleaf, ?_⟩
        · rw [getDepth, hl]
          simp only [if_neg hnot, if_pos hnil]
        · rw [lookup_setEntry, if_pos rfl]
          rfl
      · have hbelow : ∀ p ∈ predecessorsIn deps fid, ∀ s ∈ fid :: stack, rank p < rank s := by
          intro p hp s hm
          have hlt := hr fid p hp
          rcases List.mem_cons.mp hm with rfl | hm
          · exact hlt
          · exact hlt.trans (hstack s hm)
        have hfits : ∀ p ∈ predecessorsIn deps fid, ∀ m, Chain (predecessorsIn deps) m p → m < n :=
          fun p hp k hk => Nat.lt_of_succ_lt_succ (hfit (k + 1) (.step hp hk))
        obtain ⟨m, memo', hfold, hfill, _, hall, hm⟩ := foldlM_right ih hbelow hfits hs 0
        have hlong := longest_step hnil hall hm
        refine ⟨1 + m, setEntry memo' (fid, 1 + m), ?_, hlong, hfill.trans (hfill.sound.set hlong), ?_⟩
        · rw [getDepth, hl]
          simp only [if_neg hnot, if_neg hnil, hfold]
          rfl
        · rw [lookup_setEntry, if_pos rfl]
          rfl

/-- `_depths` gives every fact the length of a longest chain, where the stack holds the longest. -/
theorem depths_longest (hr : ∀ f, ∀ p ∈ predecessorsIn deps f, rank p < rank f) {callDepth : Nat}
    (hfit : ∀ f m, Chain (predecessorsIn deps) m f → m < callDepth) :
    ∃ memo, depths callDepth deps = .ok memo ∧ Sound deps memo ∧
      ∀ kv ∈ deps, (memo.lookup kv.1).isSome := by
  have hfold : ∀ (kvs : List (PyStr × List PyStr)) (memo : List (PyStr × Nat)), Sound deps memo →
      ∃ memo', kvs.foldlM (fun depth kv => (getDepth deps callDepth kv.1 [] depth).map Prod.snd) memo =
        .ok memo' ∧ Filled deps memo memo' ∧ ∀ kv ∈ kvs, (memo'.lookup kv.1).isSome := by
    intro kvs
    induction kvs with
    | nil => exact fun memo hs => ⟨memo, rfl, hs.filled, by rintro kv ⟨⟩⟩
    | cons kv kvs ih =>
      intro memo hs
      obtain ⟨d, memo₁, hget, _, hfill, hknown⟩ :=
        getDepth_right hr callDepth kv.1 [] memo hs (by rintro s ⟨⟩) (hfit kv.1)
      obtain ⟨memo₂, hrest, hfill₂, hall⟩ := ih memo₁ hfill.sound
      refine ⟨memo₂, ?_, hfill.trans hfill₂, fun kv' hkv' => ?_⟩
      · rw [List.foldlM_cons, hget]
        exact hrest
      · rcases List.mem_cons.mp hkv' with rfl | hkv'
        · exact hfill₂.keeps _ hknown
        · exact hall kv' hkv'
  obtain ⟨memo, hmemo, hfill, hall⟩ := hfold deps [] (by rintro k d ⟨⟩)
  exact ⟨memo, hmemo, hfill.sound, hall⟩

end Danus.Observability
