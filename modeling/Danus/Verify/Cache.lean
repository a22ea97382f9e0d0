import Danus.Verify.Scheduler

/-! The bounded cache of results: what its byte count says, and that it stays within its limits. -/
namespace Danus.Verify
open Python

variable {V : Type} {limits : SchedulerLimits}

/-- The bytes that the entries take. -/
def cacheSize (cache : List (PyStr × CacheEntry)) : Int :=
  (cache.map fun p => (p.2.encoded.length : Int)).sum

/-- The count is the sum of the sizes, no key is there twice, and both limits hold. -/
structure CacheFits (limits : SchedulerLimits) (cache : List (PyStr × CacheEntry)) (bytes : Int) :
    Prop where
  count : bytes = cacheSize cache
  keys : (cache.map Prod.fst).Nodup
  entries : cache.length ≤ limits.cacheMaxEntries
  size : bytes ≤ limits.cacheMaxBytes

section Sizes
variable {cache rest : List (PyStr × CacheEntry)} {p : PyStr × CacheEntry} {key : PyStr}

theorem cacheSize_cons : cacheSize (p :: cache) = p.2.encoded.length + cacheSize cache := rfl

theorem cacheSize_append : cacheSize (cache ++ rest) = cacheSize cache + cacheSize rest := by
  rw [cacheSize, List.map_append, List.sum_append]
  rfl

theorem cacheSize_nonneg (cache : List (PyStr × CacheEntry)) : 0 ≤ cacheSize cache := by
  induction cache with
  | nil => exact Int.le_refl 0
  | cons p cache ih =>
    rw [cacheSize_cons]
    omega

/-- Entries are in one of two halves. -/
theorem cacheSize_filter (q : PyStr × CacheEntry → Bool) (cache : List (PyStr × CacheEntry)) :
    cacheSize cache = cacheSize (cache.filter q) + cacheSize (cache.filter fun p => !q p) := by
  induction cache with
  | nil => rfl
  | cons p cache ih =>
    cases hp : q p with
    | true =>
      rw [List.filter_cons_of_pos hp, List.filter_cons_of_neg (by simp [hp]), cacheSize_cons,
        cacheSize_cons, ih]
      omega
    | false =>
      rw [List.filter_cons_of_neg (by simp [hp]), List.filter_cons_of_pos (by simp [hp]),
        cacheSize_cons, cacheSize_cons, ih]
      omega

theorem eraseKey_of_absent (h : cache.lookup key = none) : eraseKey key cache = cache := by
  refine List.filter_eq_self.mpr fun p hp => ?_
  rw [bne_iff_ne]
  rintro rfl
  exact notMem_of_lookup_eq_none h hp

/-- Taking a key out frees the bytes of its entry. -/
theorem cacheSize_eraseKey (hn : (cache.map Prod.fst).Nodup) {entry : CacheEntry}
    (h : cache.lookup key = some entry) :
    cacheSize (eraseKey key cache) = cacheSize cache - entry.encoded.length ∧
      (eraseKey key cache).length + 1 = cache.length := by
  induction cache with
  | nil => cases h
  | cons p cache ih =>
    obtain ⟨k, e⟩ := p
    rw [List.map_cons, List.nodup_cons] at hn
    by_cases hk : key = k
    · subst hk
      rw [lookup_cons_self] at h
      cases h
      have habsent : cache.lookup key = none := by
        cases hl : cache.lookup key with
        | none => rfl
        | some e' => exact (hn.1 (List.mem_map.mpr ⟨_, mem_of_lookup_eq_some hl, rfl⟩)).elim
      have herase : eraseKey key ((key, entry) :: cache) = cache := by
        rw [eraseKey, List.filter_cons_of_neg (by simp)]
        exact eraseKey_of_absent habsent
      rw [herase, cacheSize_cons]
      refine ⟨?_, rfl⟩
      change cacheSize cache = (entry.encoded.length : Int) + cacheSize cache - entry.encoded.length
      omega
    · rw [lookup_cons_of_ne hk] at h
      have herase : eraseKey key ((k, e) :: cache) = (k, e) :: eraseKey key cache := by
        rw [eraseKey, List.filter_cons_of_pos (by simpa using Ne.symm hk)]
        rfl
      obtain ⟨h1, h2⟩ := ih hn.2 h
      rw [herase, cacheSize_cons, cacheSize_cons, h1]
      refine ⟨by omega, ?_⟩
      rw [List.length_cons, List.length_cons, h2]

theorem keys_eraseKey (hn : (cache.map Prod.fst).Nodup) :
    ((eraseKey key cache).map Prod.fst).Nodup :=
  hn.sublist (List.filter_sublist.map _)

/-- A key that was taken out may come back at the end. -/
theorem keys_moved (hn : (cache.map Prod.fst).Nodup) (entry : CacheEntry) :
    ((eraseKey key cache ++ [(key, entry)]).map Prod.fst).Nodup := by
  rw [List.map_append, List.nodup_append]
  refine ⟨keys_eraseKey hn, by simp, ?_⟩
  rintro k hk _ hk' rfl
  obtain ⟨q, hq, rfl⟩ := List.mem_map.mp hk
  rw [List.map_cons, List.map_nil, List.mem_singleton] at hk'
  exact (mem_eraseKey.mp hq).2 hk'

end Sizes

section Regions
variable {s : Scheduler V} {cache : List (PyStr × CacheEntry)} {bytes : Int} {key : PyStr}

theorem CacheFits.purged (h : CacheFits limits s.cache s.cacheBytes) (now : Int) :
    CacheFits limits (s.purgeExpired now).cache (s.purgeExpired now).cacheBytes := by
  have hsplit := cacheSize_filter (fun p => decide (p.2.expiresAt ≤ now)) s.cache
  have hbytes : (s.purgeExpired now).cacheBytes = cacheSize (s.purgeExpired now).cache := by
    change s.cacheBytes - cacheSize (s.cache.filter fun p => decide (p.2.expiresAt ≤ now)) =
      cacheSize (s.cache.filter fun p => !decide (p.2.expiresAt ≤ now))
    rw [h.count]
    omega
  refine ⟨hbytes, h.keys.sublist (List.filter_sublist.map _), ?_, ?_⟩
  · exact List.filter_sublist.length_le.trans h.entries
  · have hgone := cacheSize_nonneg (s.cache.filter fun p => decide (p.2.expiresAt ≤ now))
    have hsize := h.size
    have hcount := h.count
    have hnow : (s.purgeExpired now).cacheBytes =
      s.cacheBytes - cacheSize (s.cache.filter fun p => decide (p.2.expiresAt ≤ now)) := rfl
    omega

/-- The entries that outlive a purge have not expired. -/
theorem purgeExpired_fresh {now : Int} {p : PyStr × CacheEntry}
    (h : p ∈ (s.purgeExpired now).cache) : now < p.2.expiresAt := by
  have hf := (List.mem_filter.mp h).2
  rw [Bool.not_eq_true', decide_eq_false_iff_not] at hf
  omega

/-- `move_to_end` -/
theorem CacheFits.moved (h : CacheFits limits cache bytes) {entry : CacheEntry}
    (hk : cache.lookup key = some entry) :
    CacheFits limits (eraseKey key cache ++ [(key, entry)]) bytes := by
  obtain ⟨hsize, hlen⟩ := cacheSize_eraseKey h.keys hk
  refine ⟨?_, keys_moved h.keys entry, ?_, h.size⟩
  · rw [cacheSize_append, hsize, h.count, cacheSize_cons]
    change _ = _ - _ + ((entry.encoded.length : Int) + 0)
    omega
  · rw [List.length_append, List.length_singleton, hlen]
    exact h.entries

/-- The loop ends with both limits met, and its count still right. -/
theorem CacheFits.evicted (hn : (cache.map Prod.fst).Nodup) (hb : bytes = cacheSize cache) (n : Nat) :
    CacheFits limits (Scheduler.evict limits cache bytes n).1
      (Scheduler.evict limits cache bytes n).2.1 := by
  induction cache generalizing bytes n with
  | nil =>
    rw [Scheduler.evict]
    refine ⟨hb, List.nodup_nil, Nat.zero_le _, ?_⟩
    rw [hb]
    exact Int.natCast_nonneg _
  | cons p rest ih =>
    rw [List.map_cons, List.nodup_cons] at hn
    rw [cacheSize_cons] at hb
    rw [Scheduler.evict]
    split_ifs with hover
    · exact ih hn.2 (by omega) _
    · rw [not_or, Nat.not_lt, Int.not_lt] at hover
      refine ⟨?_, List.nodup_cons.mpr hn, hover.1, hover.2⟩
      rw [cacheSize_cons]
      exact hb

theorem CacheFits.cached (h : CacheFits limits s.cache s.cacheBytes) (key : PyStr)
    (encoded : List Nat) (now : Int) :
    CacheFits limits (s.cacheResult limits key encoded now).cache
      (s.cacheResult limits key encoded now).cacheBytes := by
  rw [Scheduler.cacheResult]
  split_ifs with hbig
  · exact h
  · refine CacheFits.evicted (keys_moved h.keys _) ?_ _
    rw [cacheSize_append, cacheSize_cons]
    cases hk : s.cache.lookup key with
    | none =>
      simp only
      rw [eraseKey_of_absent hk, h.count]
      change _ = _ + ((encoded.length : Int) + 0)
      omega
    | some entry =>
      simp only
      rw [(cacheSize_eraseKey h.keys hk).1, h.count]
      change _ = _ + ((encoded.length : Int) + 0)
      omega

end Regions
end Danus.Verify
