import Mathlib.Data.List.Basic
import Mathlib.Data.List.DropRight

/-! Lists of entries whose keys may repeat: the first entry of a key is set, or its last one updated, and
the others stay. -/
namespace Entries
variable {κ ν : Type} [DecidableEq κ]

/-- The entries of one key, in order. -/
def ofKey (a : κ) (l : List (κ × ν)) : List (κ × ν) := l.filter fun p => decide (p.1 = a)

def keys (l : List (κ × ν)) : List κ := l.map Prod.fst

/-- The first entry of the key gets the value, or a new one at the end. -/
def setFirst (k : κ) (v : ν) : List (κ × ν) → List (κ × ν)
  | [] => [(k, v)]
  | (a, w) :: l => if a = k then (k, v) :: l else (a, w) :: setFirst k v l

def setAll (us : List (κ × ν)) (l : List (κ × ν)) : List (κ × ν) :=
  us.foldl (fun l u => setFirst u.1 u.2 l) l

/-- The value of the key's last entry. -/
def lastOf (a : κ) (l : List (κ × ν)) : Option ν := ((ofKey a l).getLast?).map Prod.snd

def updateLast (k : κ) (f : ν → ν) : List (κ × ν) → List (κ × ν)
  | [] => []
  | (a, w) :: l => if a = k ∧ k ∉ keys l then (a, f w) :: l else (a, w) :: updateLast k f l

/-- The last entry of the key is updated, or made at the end from the value that stands for none. -/
def upsert (zero : ν) (l : List (κ × ν)) (o : κ × (ν → ν)) : List (κ × ν) :=
  if o.1 ∈ keys l then updateLast o.1 o.2 l else l ++ [(o.1, o.2 zero)]

def upsertAll (zero : ν) (ops : List (κ × (ν → ν))) (l : List (κ × ν)) : List (κ × ν) :=
  ops.foldl (upsert zero) l

section Keys
variable {l m : List (κ × ν)} {a k : κ} {v : ν} {p : κ × ν}

theorem ofKey_cons : ofKey a (p :: l) = if p.1 = a then p :: ofKey a l else ofKey a l := by
  unfold ofKey
  split_ifs with h
  · exact List.filter_cons_of_pos (by simpa using h)
  · exact List.filter_cons_of_neg (by simpa using h)

theorem ofKey_append : ofKey a (l ++ m) = ofKey a l ++ ofKey a m := List.filter_append _ _

theorem ofKey_of_notMem (h : a ∉ keys l) : ofKey a l = [] := by
  refine List.filter_eq_nil_iff.mpr fun q hq hk => h ?_
  rw [← of_decide_eq_true hk]
  exact List.mem_map_of_mem hq

theorem mem_ofKey : p ∈ ofKey a l ↔ p ∈ l ∧ p.1 = a := by
  simp [ofKey, List.mem_filter]

/-- Entries are determined by the order of the keys and by what each key has. -/
theorem ext_ofKey (hk : keys l = keys m) (h : ∀ a, ofKey a l = ofKey a m) : l = m := by
  induction l generalizing m with
  | nil =>
    cases m with
    | nil => rfl
    | cons q m => cases hk
  | cons p l ih =>
    cases m with
    | nil => cases hk
    | cons q m =>
      obtain ⟨hpq, hrest⟩ := List.cons.inj hk
      have hhead := h p.1
      rw [ofKey_cons, ofKey_cons, if_pos rfl, if_pos hpq.symm] at hhead
      obtain ⟨hsame, htail⟩ := List.cons.inj hhead
      subst hsame
      refine congrArg _ (ih hrest fun a => ?_)
      by_cases ha : p.1 = a
      · subst ha
        exact htail
      · have hother := h a
        rwa [ofKey_cons, ofKey_cons, if_neg ha, if_neg ha] at hother

end Keys

section SetFirst
variable {l us : List (κ × ν)} {a k : κ} {v : ν} {p : κ × ν → Bool}

theorem ofKey_setFirst (a k : κ) (v : ν) (l : List (κ × ν)) :
    ofKey a (setFirst k v l) = if a = k then (k, v) :: (ofKey k l).tail else ofKey a l := by
  induction l with
  | nil =>
    rw [setFirst, ofKey_cons]
    by_cases h : a = k
    · rw [if_pos h, if_pos h.symm, h]
      rfl
    · rw [if_neg h, if_neg (Ne.symm h)]
  | cons q l ih =>
    obtain ⟨b, w⟩ := q
    rw [setFirst]
    by_cases hb : b = k
    · subst hb
      rw [if_pos rfl, ofKey_cons, ofKey_cons, ofKey_cons, if_pos rfl]
      by_cases ha : a = b
      · subst ha
        rw [if_pos rfl, if_pos rfl]
        rfl
      · rw [if_neg (Ne.symm ha), if_neg ha, if_neg (Ne.symm ha)]
    · rw [if_neg hb, ofKey_cons, ofKey_cons, ofKey_cons, ih, if_neg hb]
      by_cases ha : a = k
      · subst ha
        rw [if_pos rfl, if_pos rfl, if_neg hb]
      · rw [if_neg ha, if_neg ha]

theorem keys_setFirst (k : κ) (v : ν) (l : List (κ × ν)) :
    keys (setFirst k v l) = if k ∈ keys l then keys l else keys l ++ [k] := by
  induction l with
  | nil => rfl
  | cons q l ih =>
    obtain ⟨b, w⟩ := q
    rw [setFirst]
    by_cases hb : b = k
    · subst hb
      rw [if_pos rfl, if_pos (by simp [keys])]
      rfl
    · have hmem : k ∈ keys ((b, w) :: l) ↔ k ∈ keys l := by
        rw [keys, List.map_cons, List.mem_cons]
        exact or_iff_right (Ne.symm hb)
      have hcons : keys ((b, w) :: setFirst k v l) = b :: keys (setFirst k v l) := rfl
      rw [if_neg hb, hcons, ih]
      by_cases hk : k ∈ keys l
      · rw [if_pos hk, if_pos (hmem.mpr hk)]
        rfl
      · rw [if_neg hk, if_neg (mt hmem.mp hk)]
        rfl

theorem setFirst_filter (hp : ∀ w, p (k, w) = true) (l : List (κ × ν)) :
    (setFirst k v l).filter p = setFirst k v (l.filter p) := by
  induction l with
  | nil =>
    rw [setFirst, List.filter_cons_of_pos (hp v)]
    rfl
  | cons q l ih =>
    obtain ⟨b, w⟩ := q
    rw [setFirst]
    by_cases hb : b = k
    · subst hb
      rw [if_pos rfl, List.filter_cons_of_pos (hp v), List.filter_cons_of_pos (hp w), setFirst, if_pos rfl]
    · rw [if_neg hb]
      by_cases hq : p (b, w) = true
      · rw [List.filter_cons_of_pos hq, List.filter_cons_of_pos hq, ih, setFirst, if_neg hb]
      · rw [List.filter_cons_of_neg hq, List.filter_cons_of_neg hq, ih]

theorem lastOf_concat (a : κ) (us : List (κ × ν)) (u : κ × ν) :
    lastOf a (us ++ [u]) = if u.1 = a then some u.2 else lastOf a us := by
  rw [lastOf, ofKey_append, ofKey_cons]
  split_ifs with h
  · simp [ofKey]
  · simp [ofKey, lastOf]

theorem lastOf_mem (h : lastOf a us = some v) : (a, v) ∈ us := by
  obtain ⟨p, hp, rfl⟩ := Option.map_eq_some_iff.mp h
  obtain ⟨hmem, rfl⟩ := mem_ofKey.mp (List.mem_of_getLast? hp)
  exact hmem

theorem lastOf_eq_none : lastOf a us = none ↔ a ∉ keys us := by
  rw [lastOf, Option.map_eq_none_iff, List.getLast?_eq_none_iff]
  constructor
  · intro h hk
    obtain ⟨p, hp, rfl⟩ := List.mem_map.mp hk
    have hmem := mem_ofKey.mpr ⟨hp, rfl⟩
    rw [h] at hmem
    cases hmem
  · exact ofKey_of_notMem

theorem setAll_concat (us : List (κ × ν)) (u : κ × ν) (l : List (κ × ν)) :
    setAll (us ++ [u]) l = setFirst u.1 u.2 (setAll us l) := by
  rw [setAll, List.foldl_append]
  rfl

/-- The first entry of a key that is set holds the value that was set last. -/
theorem ofKey_setAll (a : κ) (us l : List (κ × ν)) : ofKey a (setAll us l) =
    match lastOf a us with
    | some v => (a, v) :: (ofKey a l).tail
    | none => ofKey a l := by
  induction us using List.reverseRecOn with
  | nil => rfl
  | append_singleton us u ih =>
    rw [setAll_concat, ofKey_setFirst, lastOf_concat]
    by_cases h : a = u.1
    · subst h
      rw [if_pos rfl, if_pos rfl, ih]
      cases lastOf u.1 us <;> rfl
    · rw [if_neg h, if_neg (Ne.symm h), ih]

theorem keys_setAll (us l : List (κ × ν)) : (∀ u ∈ us, u.1 ∈ keys (setAll us l)) ∧
    (∀ b ∈ keys l, b ∈ keys (setAll us l)) ∧
    ((∀ u ∈ us, u.1 ∈ keys l) → keys (setAll us l) = keys l) := by
  induction us using List.reverseRecOn with
  | nil => exact ⟨by simp, fun _ hb => hb, fun _ => rfl⟩
  | append_singleton us u ih =>
    obtain ⟨hset, hold, hsame⟩ := ih
    have hmem (b : κ) (hb : b ∈ keys (setAll us l) ∨ b = u.1) : b ∈ keys (setAll (us ++ [u]) l) := by
      rw [setAll_concat, keys_setFirst]
      split_ifs with hu
      · rcases hb with hb | rfl
        · exact hb
        · exact hu
      · rcases hb with hb | rfl
        · exact List.mem_append_left _ hb
        · exact List.mem_append_right _ (List.mem_singleton_self _)
    refine ⟨fun w hw => ?_, fun b hb => hmem b (.inl (hold b hb)), fun hall => ?_⟩
    · rcases List.mem_append.mp hw with hw | hw
      · exact hmem w.1 (.inl (hset w hw))
      · exact hmem w.1 (.inr (congrArg Prod.fst (List.mem_singleton.mp hw)))
    · have hkeys := hsame fun w hw => hall w (List.mem_append_left _ hw)
      have hu := hall u (List.mem_append_right _ (List.mem_singleton_self _))
      rw [setAll_concat, keys_setFirst, hkeys, if_pos hu]

/-- Setting the same once more changes nothing. -/
theorem setAll_setAll (us l : List (κ × ν)) : setAll us (setAll us l) = setAll us l := by
  obtain ⟨hset, _, _⟩ := keys_setAll us l
  refine ext_ofKey ((keys_setAll us (setAll us l)).2.2 hset) fun a => ?_
  rw [ofKey_setAll a us (setAll us l), ofKey_setAll]
  cases lastOf a us <;> rfl

theorem setAll_filter (hp : ∀ u ∈ us, ∀ w, p (u.1, w) = true) (l : List (κ × ν)) :
    (setAll us l).filter p = setAll us (l.filter p) := by
  induction us using List.reverseRecOn with
  | nil => rfl
  | append_singleton us u ih =>
    have hu := hp u (List.mem_append_right _ (List.mem_singleton_self _))
    rw [setAll_concat, setAll_concat, setFirst_filter hu, ih fun w hw => hp w (List.mem_append_left _ hw)]

theorem setAll_append (us vs l : List (κ × ν)) : setAll (us ++ vs) l = setAll vs (setAll us l) :=
  List.foldl_append

end SetFirst

section Upsert
variable {zero : ν} {l : List (κ × ν)} {a k : κ} {f : ν → ν} {o : κ × (ν → ν)} {ops : List (κ × (ν → ν))}

theorem keys_updateLast (k : κ) (f : ν → ν) (l : List (κ × ν)) : keys (updateLast k f l) = keys l := by
  induction l with
  | nil => rfl
  | cons q l ih =>
    obtain ⟨b, w⟩ := q
    rw [updateLast]
    split_ifs
    · rfl
    · exact congrArg (b :: ·) ih

theorem keys_upsert (zero : ν) (l : List (κ × ν)) (o : κ × (ν → ν)) :
    keys (upsert zero l o) = if o.1 ∈ keys l then keys l else keys l ++ [o.1] := by
  unfold upsert
  split_ifs
  · exact keys_updateLast _ _ _
  · simp [keys]

/-- The last value of a key, or the one that stands for none. -/
def lastOr (zero : ν) (a : κ) (l : List (κ × ν)) : ν := (lastOf a l).getD zero

theorem ofKey_updateLast (a k : κ) (f : ν → ν) {l : List (κ × ν)} (hk : k ∈ keys l) :
    ofKey a (updateLast k f l) =
      if a = k then (ofKey k l).dropLast ++ [(k, f (lastOr zero k l))] else ofKey a l := by
  induction l with
  | nil => cases hk
  | cons q l ih =>
    obtain ⟨b, w⟩ := q
    rw [updateLast]
    by_cases hb : b = k ∧ k ∉ keys l
    · obtain ⟨rfl, hnot⟩ := hb
      rw [if_pos ⟨rfl, hnot⟩, ofKey_cons, ofKey_cons, ofKey_cons, if_pos rfl, ofKey_of_notMem hnot]
      by_cases ha : a = b
      · subst ha
        rw [if_pos rfl, if_pos rfl, lastOr, lastOf, ofKey_cons, if_pos rfl, ofKey_of_notMem hnot]
        rfl
      · rw [if_neg (Ne.symm ha), if_neg ha, if_neg (Ne.symm ha)]
    · have hmem : k ∈ keys l := by
        by_contra hnot
        rw [keys, List.map_cons, List.mem_cons] at hk
        rcases hk with hk | hk
        · exact hb ⟨hk.symm, hnot⟩
        · exact hnot hk
      obtain ⟨p, hp, hpk⟩ := List.mem_map.mp hmem
      have hne : ofKey k l ≠ [] := List.ne_nil_of_mem (mem_ofKey.mpr ⟨hp, hpk⟩)
      rw [if_neg hb, ofKey_cons, ofKey_cons, ofKey_cons, ih hmem]
      by_cases ha : a = k
      · subst ha
        rw [if_pos rfl, if_pos rfl]
        by_cases hba : b = a
        · subst hba
          rw [if_pos rfl, if_pos rfl, List.dropLast_cons_of_ne_nil hne, lastOr, lastOr, lastOf, lastOf,
            ofKey_cons, if_pos rfl, List.getLast?_cons_of_ne_nil hne]
          rfl
        · rw [if_neg hba, if_neg hba, lastOr, lastOr, lastOf, lastOf, ofKey_cons, if_neg hba]
      · rw [if_neg ha, if_neg ha]

theorem ofKey_upsert (zero : ν) (a : κ) (l : List (κ × ν)) (o : κ × (ν → ν)) :
    ofKey a (upsert zero l o) = if a = o.1 then
      (ofKey a l).dropLast ++ [(a, o.2 (lastOr zero a l))] else ofKey a l := by
  unfold upsert
  by_cases hk : o.1 ∈ keys l
  · rw [if_pos hk, @ofKey_updateLast _ _ _ zero _ _ _ _ hk]
    split_ifs with ha
    · rw [ha]
    · rfl
  · rw [if_neg hk, ofKey_append, ofKey_cons]
    by_cases ha : a = o.1
    · subst ha
      rw [if_pos rfl, if_pos rfl, lastOr, lastOf, ofKey_of_notMem hk]
      rfl
    · rw [if_neg (Ne.symm ha), if_neg ha]
      exact List.append_nil _

/-- All that is done to one key's value. -/
def effect (a : κ) (ops : List (κ × (ν → ν))) (v : ν) : ν :=
  (ofKey a ops).foldl (fun v o => o.2 v) v

theorem upsertAll_concat (zero : ν) (ops : List (κ × (ν → ν))) (o : κ × (ν → ν)) (l : List (κ × ν)) :
    upsertAll zero (ops ++ [o]) l = upsert zero (upsertAll zero ops l) o := by
  rw [upsertAll, List.foldl_append]
  rfl

/-- The last entry of a key takes all that is done to it; its other entries and the other keys stay. -/
theorem ofKey_upsertAll (zero : ν) (a : κ) (ops : List (κ × (ν → ν))) (l : List (κ × ν)) :
    ofKey a (upsertAll zero ops l) = if a ∈ ops.map Prod.fst then
      (ofKey a l).dropLast ++ [(a, effect a ops (lastOr zero a l))] else ofKey a l := by
  induction ops using List.reverseRecOn with
  | nil => rfl
  | append_singleton ops o ih =>
    have hstep : effect a (ops ++ [o]) = fun v =>
        if o.1 = a then o.2 (effect a ops v) else effect a ops v := by
      funext v
      rw [effect, ofKey_append, ofKey_cons, List.foldl_append]
      split_ifs <;> rfl
    rw [upsertAll_concat, ofKey_upsert, List.map_append, hstep]
    by_cases ha : a = o.1
    · subst ha
      rw [if_pos rfl, if_pos (by simp), lastOr, lastOf, ih]
      by_cases hm : o.1 ∈ ops.map Prod.fst
      · rw [if_pos hm]
        simp
      · have hnone : ofKey o.1 ops = [] := ofKey_of_notMem hm
        have hsame (v : ν) : effect o.1 ops v = v := by
          unfold effect
          rw [hnone]
          rfl
        rw [if_neg hm]
        simp [hsame, lastOr, lastOf]
    · have hmem : a ∈ ops.map Prod.fst ++ [o].map Prod.fst ↔ a ∈ ops.map Prod.fst := by
        rw [List.mem_append]
        refine or_iff_left fun hm => ha ?_
        simpa using hm
      rw [if_neg ha, ih]
      simp only [hmem, if_neg (Ne.symm ha)]

theorem keys_upsertAll (zero : ν) (ops : List (κ × (ν → ν))) (l : List (κ × ν)) :
    (∀ o ∈ ops, o.1 ∈ keys (upsertAll zero ops l)) ∧ (∀ b ∈ keys l, b ∈ keys (upsertAll zero ops l)) ∧
    ((∀ o ∈ ops, o.1 ∈ keys l) → keys (upsertAll zero ops l) = keys l) := by
  induction ops using List.reverseRecOn with
  | nil => exact ⟨by simp, fun _ hb => hb, fun _ => rfl⟩
  | append_singleton ops o ih =>
    obtain ⟨hset, hold, hsame⟩ := ih
    have hmem (b : κ) (hb : b ∈ keys (upsertAll zero ops l) ∨ b = o.1) :
        b ∈ keys (upsertAll zero (ops ++ [o]) l) := by
      rw [upsertAll_concat, keys_upsert]
      split_ifs with hu
      · rcases hb with hb | rfl
        · exact hb
        · exact hu
      · rcases hb with hb | rfl
        · exact List.mem_append_left _ hb
        · exact List.mem_append_right _ (List.mem_singleton_self _)
    refine ⟨fun w hw => ?_, fun b hb => hmem b (.inl (hold b hb)), fun hall => ?_⟩
    · rcases List.mem_append.mp hw with hw | hw
      · exact hmem w.1 (.inl (hset w hw))
      · exact hmem w.1 (.inr (congrArg Prod.fst (List.mem_singleton.mp hw)))
    · have hkeys := hsame fun w hw => hall w (List.mem_append_left _ hw)
      have hu := hall o (List.mem_append_right _ (List.mem_singleton_self _))
      rw [upsertAll_concat, keys_upsert, hkeys, if_pos hu]

/-- Where the effect on each key is done once and for all, so are all updates. -/
theorem upsertAll_upsertAll (h : ∀ a v, effect a ops (effect a ops v) = effect a ops v) (zero : ν)
    (l : List (κ × ν)) : upsertAll zero ops (upsertAll zero ops l) = upsertAll zero ops l := by
  obtain ⟨hset, _, _⟩ := keys_upsertAll zero ops l
  refine ext_ofKey ((keys_upsertAll zero ops (upsertAll zero ops l)).2.2 hset) fun a => ?_
  rw [ofKey_upsertAll zero a ops (upsertAll zero ops l)]
  split_ifs with ha
  · rw [lastOr, lastOf, ofKey_upsertAll, if_pos ha]
    simp [h]
  · rfl

/-- Updates commute with what is done to every value. -/
theorem upsertAll_map {g : ν → ν} (hg : ∀ o ∈ ops, ∀ v, g (o.2 v) = o.2 (g v)) (hzero : g zero = zero)
    (l : List (κ × ν)) : (upsertAll zero ops l).map (fun p => (p.1, g p.2)) =
      upsertAll zero ops (l.map fun p => (p.1, g p.2)) := by
  have hkeys (l : List (κ × ν)) : keys (l.map fun p => (p.1, g p.2)) = keys l := by
    rw [keys, List.map_map]
    rfl
  induction ops using List.reverseRecOn with
  | nil => rfl
  | append_singleton ops o ih =>
    have ho := hg o (List.mem_append_right _ (List.mem_singleton_self _))
    have hupdate (l : List (κ × ν)) : (updateLast o.1 o.2 l).map (fun p => (p.1, g p.2)) =
        updateLast o.1 o.2 (l.map fun p => (p.1, g p.2)) := by
      induction l with
      | nil => rfl
      | cons q l ihl =>
        obtain ⟨b, w⟩ := q
        rw [List.map_cons, updateLast, updateLast, hkeys]
        split_ifs
        · rw [List.map_cons, ho]
        · rw [List.map_cons, ihl]
    rw [upsertAll_concat, upsertAll_concat, ← ih fun w hw => hg w (List.mem_append_left _ hw), upsert,
      upsert, hkeys]
    split_ifs
    · exact hupdate _
    · rw [List.map_append, List.map_singleton, ho, hzero]

end Upsert
end Entries
