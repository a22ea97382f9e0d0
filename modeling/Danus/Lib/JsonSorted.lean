import Danus.Lib.JsonRoundTrip
import Danus.Lib.Sorting
import Danus.Lib.Utf8

/-! JSON text with sorted keys: what it says, and that equal texts come from values that are equal up to the
order of keys. -/
namespace Python.Json

mutual
/-- The value with the items of every object in the order of their keys. -/
def sorted : Json → Json
  | .arr items => .arr (sortedItems items)
  | .obj items => .obj (sortByKey (sortedFields items))
  | v => v

def sortedItems : List Json → List Json
  | [] => []
  | v :: vs => sorted v :: sortedItems vs

def sortedFields : List (PyStr × Json) → List (PyStr × Json)
  | [] => []
  | (k, v) :: kvs => (k, sorted v) :: sortedFields kvs
end

section Sorted
variable {α β : Type} {items items' : List (PyStr × Json)} {k : PyStr}

theorem sortByKey_map (f : α → β) (items : List (PyStr × α)) :
    sortByKey (items.map fun kv => (kv.1, f kv.2)) = (sortByKey items).map fun kv => (kv.1, f kv.2) := by
  exact (List.map_insertionSort (fun a b : PyStr × α => strLe a.1 b.1 = true)
    (fun a b : PyStr × β => strLe a.1 b.1 = true) (fun kv => (kv.1, f kv.2)) items fun a _ b _ => Iff.rfl).symm

theorem sortedFields_eq (kvs : List (PyStr × Json)) :
    sortedFields kvs = kvs.map fun kv => (kv.1, sorted kv.2) := by
  induction kvs with
  | nil => rfl
  | cons kv kvs ih => rw [sortedFields, ih, List.map_cons]

theorem dumpsFields_eq (style : Style) (kvs : List (PyStr × Json)) :
    dumpsFields style kvs = kvs.map fun kv => (kv.1, dumps style kv.2) := by
  induction kvs with
  | nil => rfl
  | cons kv kvs ih => rw [dumpsFields_cons, ih, List.map_cons]

mutual
/-- Sorting the keys while writing is writing the sorted value. -/
theorem dumps_sorted (a : Bool) : ∀ v : Json, dumps (compact a true) v = dumps (compact a false) (sorted v)
  | .null => rfl
  | .bool true => rfl
  | .bool false => rfl
  | .int _ => rfl
  | .float _ => rfl
  | .str _ => rfl
  | .arr items => by rw [dumps, sorted, dumps, dumpsItems_sorted a items]; rfl
  | .obj items => by
    have hfields := dumpsFields_sorted a items
    have hordered : sortByKey (dumpsFields (compact a true) items) =
        dumpsFields (compact a false) (sortByKey (sortedFields items)) := by
      rw [hfields, dumpsFields_eq, dumpsFields_eq, sortByKey_map]
    rw [dumps, sorted, dumps]
    simp only [compact, if_true, Bool.false_eq_true, if_false]
    exact congrArg (fun l => '\x7b' :: joinWith [','] (List.map (fun kv => quote a kv.1 ++ [':'] ++ kv.2) l) ++
      ['\x7d']) hordered

theorem dumpsItems_sorted (a : Bool) : ∀ vs : List Json,
    dumpsItems (compact a true) vs = dumpsItems (compact a false) (sortedItems vs)
  | [] => rfl
  | v :: vs => by rw [dumpsItems, sortedItems, dumpsItems, dumps_sorted a v, dumpsItems_sorted a vs]

theorem dumpsFields_sorted (a : Bool) : ∀ kvs : List (PyStr × Json),
    dumpsFields (compact a true) kvs = dumpsFields (compact a false) (sortedFields kvs)
  | [] => rfl
  | (k, v) :: kvs => by
    rw [dumpsFields_cons, sortedFields, dumpsFields_cons, dumps_sorted a v, dumpsFields_sorted a kvs]
end

theorem distinctFields_iff (kvs : List (PyStr × Json)) :
    distinctFields kvs = true ↔ ∀ kv ∈ kvs, distinctKeys kv.2 = true := by
  induction kvs with
  | nil => simp [distinctFields]
  | cons kv kvs ih => rw [distinctFields, Bool.and_eq_true, ih, List.forall_mem_cons]

theorem distinct_obj (items : List (PyStr × Json)) : distinctKeys (.obj items) = true ↔
    (items.map Prod.fst).Nodup ∧ ∀ kv ∈ items, distinctKeys kv.2 = true := by
  rw [distinctKeys, Bool.and_eq_true, decide_eq_true_iff, distinctFields_iff]

theorem keys_sortedFields (kvs : List (PyStr × Json)) : (sortedFields kvs).map Prod.fst = kvs.map Prod.fst := by
  rw [sortedFields_eq, List.map_map]
  rfl

mutual
theorem distinct_sorted : ∀ v : Json, distinctKeys v = true → distinctKeys (sorted v) = true
  | .null, _ => rfl
  | .bool _, _ => rfl
  | .int _, _ => rfl
  | .float _, _ => rfl
  | .str _, _ => rfl
  | .arr items, h => by
    rw [distinctKeys] at h
    rw [sorted, distinctKeys]
    exact distinctItems_sorted items h
  | .obj items, h => by
    rw [distinctKeys, Bool.and_eq_true, decide_eq_true_iff] at h
    have hfields := (distinctFields_iff _).mp (distinctFields_sorted items h.2)
    have hperm := sortByKey_perm (sortedFields items)
    rw [sorted, distinct_obj, (hperm.map Prod.fst).nodup_iff, keys_sortedFields]
    exact ⟨h.1, fun kv hkv => hfields kv (hperm.mem_iff.mp hkv)⟩

theorem distinctItems_sorted : ∀ vs : List Json, distinctItems vs = true → distinctItems (sortedItems vs) = true
  | [], _ => rfl
  | v :: vs, h => by
    rw [distinctItems, Bool.and_eq_true] at h
    rw [sortedItems, distinctItems, distinct_sorted v h.1, distinctItems_sorted vs h.2]
    rfl

theorem distinctFields_sorted : ∀ kvs : List (PyStr × Json), distinctFields kvs = true →
    distinctFields (sortedFields kvs) = true
  | [], _ => rfl
  | (k, v) :: kvs, h => by
    rw [distinctFields, Bool.and_eq_true] at h
    rw [sortedFields, distinctFields, distinct_sorted v h.1, distinctFields_sorted kvs h.2]
    rfl
end

theorem compact_spaced (a : Bool) : (compact a false).Spaced :=
  ⟨⟨[], rfl, List.forall_mem_nil _⟩, ⟨[], rfl, List.forall_mem_nil _⟩⟩

/-- The compact text of a value with sorted keys is read back with its keys sorted. -/
theorem parse_canonical (a : Bool) {v : Json} (hv : distinctKeys v = true) :
    parse (dumps (compact a true) v) = some (sorted v) := by
  have hload := loads_dumps plainHooks rfl (compact_spaced a) (dumps (compact a false) (sorted v)).length (sorted v)
    (List.forall_mem_nil fun c => isJsonSpace c = true)
  rw [List.append_nil, if_pos (nesting_le rfl (sorted v)), hooked_plain _ (distinct_sorted v hv)] at hload
  rw [dumps_sorted, parse]
  exact hload

/-- Equal texts say equal values. -/
theorem sorted_of_preimage (a : Bool) {v w : Json} (hv : distinctKeys v = true) (hw : distinctKeys w = true)
    (h : preimage (compact a true) v = preimage (compact a true) w) : sorted v = sorted w := by
  have htext := congrArg parse (encodeUtf8_inj h)
  rw [parse_canonical a hv, parse_canonical a hw] at htext
  exact Option.some.inj htext

theorem lookup_perm {items items' : List (PyStr × α)} (hp : items.Perm items') (hn : (items.map Prod.fst).Nodup)
    (k : PyStr) : items.lookup k = items'.lookup k := by
  induction hp with
  | nil => rfl
  | cons kv _ ih =>
    rw [List.map_cons, List.nodup_cons] at hn
    rw [List.lookup_cons, List.lookup_cons, ih hn.2]
  | swap kv kv' items =>
    rw [List.map_cons, List.map_cons, List.nodup_cons] at hn
    have hne : kv'.1 ≠ kv.1 := fun he => hn.1 (he ▸ List.mem_cons_self)
    rw [List.lookup_cons, List.lookup_cons, List.lookup_cons, List.lookup_cons]
    by_cases hk : k = kv.1
    · subst hk
      rw [beq_self_eq_true, beq_eq_false_iff_ne.mpr hne.symm]
    · rw [beq_eq_false_iff_ne.mpr hk]
  | trans h₁ _ ih₁ ih₂ => rw [ih₁ hn, ih₂ (((h₁.map Prod.fst).nodup_iff).mp hn)]

theorem lookup_map (f : α → β) (items : List (PyStr × α)) (k : PyStr) :
    (items.map fun kv => (kv.1, f kv.2)).lookup k = (items.lookup k).map f := by
  induction items with
  | nil => rfl
  | cons kv items ih =>
    rw [List.map_cons, List.lookup_cons, List.lookup_cons, ih]
    cases k == kv.1 <;> rfl

/-- The value of a key in a sorted object. -/
theorem lookup_sorted (hn : (items.map Prod.fst).Nodup) (k : PyStr) :
    (sortByKey (sortedFields items)).lookup k = (items.lookup k).map sorted := by
  have hkeys : ((sortByKey (sortedFields items)).map Prod.fst).Nodup := by
    rw [((sortByKey_perm _).map Prod.fst).nodup_iff, keys_sortedFields]
    exact hn
  rw [lookup_perm (sortByKey_perm (sortedFields items)) hkeys k, sortedFields_eq, lookup_map]

/-- Objects that are equal up to the order of keys have equal values, up to the order of keys. -/
theorem lookup_congr (hn : (items.map Prod.fst).Nodup) (hn' : (items'.map Prod.fst).Nodup)
    (h : sorted (.obj items) = sorted (.obj items')) (k : PyStr) :
    (items.lookup k).map sorted = (items'.lookup k).map sorted := by
  rw [sorted, sorted] at h
  rw [← lookup_sorted hn, ← lookup_sorted hn', Json.obj.inj h]

end Sorted
end Python.Json
