import Danus.Core.GlobalMemory
import Danus.Lib.JsonRoundTrip
import Danus.Lib.JsonText

/-! What the strict reader makes of the lines that `append` writes. -/
namespace Danus.Core
open Python

/-- The strict reader reads the record: it nests no deeper than `json.loads` can, has no key twice
and no number that is not finite, and its canonical bytes are within the limit. -/
structure Legible (py : Interpreter) (record : Json) : Prop where
  nesting : record.nesting ≤ py.loadsDepth
  keys : record.distinctKeys = true
  numbers : record.finiteNumbers = true
  size : (record.preimage (Json.compact false true)).length ≤ maxSerializedBytes

/-- A record that `json.dumps` could write: an object, nested no deeper than it can. -/
structure Writable (py : Interpreter) (record : Json) : Prop where
  object : ∃ items, record = .obj items
  nesting : record.nesting ≤ py.dumpsDepth

section Lines
variable {body rest : List Nat}

theorem readline_line (hb : 10 ∉ body) (n : Nat) (hn : body.length < n) :
    readline n (body ++ 10 :: rest) = (body ++ [10], rest) := by
  induction body generalizing n with
  | nil =>
    obtain ⟨m, rfl⟩ : ∃ m, n = m + 1 := ⟨n - 1, by simp only [List.length_nil] at hn; omega⟩
    simp [readline]
  | cons b body ih =>
    obtain ⟨m, rfl⟩ : ∃ m, n = m + 1 := ⟨n - 1, by omega⟩
    rw [List.mem_cons, not_or] at hb
    have h := ih hb.2 m (by simp only [List.length_cons] at hn; omega)
    rw [List.cons_append, readline, if_neg (Ne.symm hb.1), h]
    rfl

theorem readline_long (hb : 10 ∉ body) (n : Nat) (hn : n ≤ body.length) :
    (readline n (body ++ rest)).1.length = n := by
  induction n generalizing body with
  | zero => rfl
  | succ n ih =>
    cases body with
    | nil => simp at hn
    | cons b body =>
      rw [List.mem_cons, not_or] at hb
      rw [List.cons_append, readline, if_neg (Ne.symm hb.1), List.length_cons,
        ih hb.2 (by simpa using hn)]

/-- A line of text ends where it was ended. -/
theorem entryLine_split (record : Json) : ∃ body, entryLine record = body ++ [10] ∧ 10 ∉ body ∧
    body = encodeUtf8 (record.dumps (Json.spaced false false)) := by
  refine ⟨_, encodeUtf8_append _ _, fun hm => ?_, rfl⟩
  have hc := mem_encodeUtf8 (by decide) hm
  have hprint : Json.Printable (record.dumps (Json.spaced false false)) :=
    Json.printable_dumps (by decide) (by decide) record
  have hp := hprint _ hc
  revert hp
  decide

theorem entryLine_length (record : Json) : (entryLine record).length ≤
    2 * (record.preimage (Json.compact false true)).length + 1 := by
  have h := Json.spaced_le false true record
  rw [entryLine, encodeUtf8_append, List.length_append]
  exact Nat.add_le_add_right h 1

end Lines

section Entries
variable {py : Interpreter} {record : Json}

/-- The reader reads the line of a legible record back, and refuses any other. -/
theorem readEntry_entryLine (hw : Writable py record) (k : Nat) :
    (Legible py record → readEntry py k (entryLine record) = .ok record) ∧
      (¬ Legible py record → ∃ e, readEntry py k (entryLine record) = .error e) := by
  obtain ⟨⟨items, rfl⟩, hd⟩ := hw
  have hloads : Json.loads Json.strictHooks py.loadsDepth
      ((Json.obj items).dumps (Json.spaced false false) ++ ['\n']) = if (Json.obj items).nesting ≤
        py.loadsDepth then (if (Json.obj items).distinctKeys && (Json.obj items).finiteNumbers
          then some (.obj items) else none) else none := by
    rw [← Json.hooked_strict]
    refine Json.loads_dumps _ rfl ⟨⟨[' '], rfl, by decide⟩, ⟨[' '], rfl, by decide⟩⟩ _ _ (by decide)
  have hcanon : (Json.obj items).finiteNumbers = true → canonicalRecord py (.obj items) =
      if maxSerializedBytes < ((Json.obj items).preimage (Json.compact false true)).length then
        .error .tooLarge else .ok ((Json.obj items).preimage (Json.compact false true)) := by
    intro hf
    simp [canonicalRecord, Nat.not_lt.mpr hd, hf]
  simp only [readEntry, entryLine, decodeUtf8_encodeUtf8, hloads]
  constructor
  · intro hl
    simp only [if_pos hl.nesting, hl.keys, hl.numbers, Bool.and_true, if_true]
    rw [hcanon hl.numbers, if_neg (Nat.not_lt.mpr hl.size)]
    rfl
  · intro hl
    split_ifs with hn hs
    · rw [Bool.and_eq_true] at hs
      simp only
      rw [hcanon hs.2, if_pos (Nat.lt_of_not_le fun hle => hl ⟨hn, hs.1, hs.2, hle⟩)]
      exact ⟨_, rfl⟩
    · exact ⟨_, rfl⟩
    · exact ⟨_, rfl⟩

/-- The reader's turn over the line of one record. -/
theorem iterJsonlStrict_entryLine (hw : Writable py record) (n seen : Nat) (rest : List Nat) :
    (Legible py record → iterJsonlStrict py (n + 1) seen (entryLine record ++ rest) =
      (record :: (iterJsonlStrict py n (seen + 1) rest).1, (iterJsonlStrict py n (seen + 1) rest).2)) ∧
      (¬ Legible py record →
        ∃ e, (iterJsonlStrict py (n + 1) seen (entryLine record ++ rest)).2 = some e) := by
  obtain ⟨hok, herr⟩ := readEntry_entryLine hw (seen + 1)
  obtain ⟨body, hline, hb, hbody⟩ := entryLine_split record
  have htext : entryLine record ++ rest = body ++ 10 :: rest := by
    rw [hline, List.append_assoc]
    rfl
  have hblank : (entryLine record).all isByteSpace = false := by
    obtain ⟨items, rfl⟩ := hw.object
    have hhead : ∃ tail, entryLine (.obj items) = 0x7b :: tail := by
      rw [hline, hbody, Json.dumps]
      exact ⟨_, rfl⟩
    obtain ⟨tail, ht⟩ := hhead
    rw [ht]
    rfl
  rw [htext, iterJsonlStrict]
  by_cases hlen : body.length < maxPhysicalLineBytes
  · have hread : readline (maxPhysicalLineBytes + 1) (body ++ 10 :: rest) = (entryLine record, rest) := by
      rw [hline]
      exact readline_line hb _ (by omega)
    have hne : entryLine record ≠ [] := by simp [hline]
    have hfits : ¬ maxPhysicalLineBytes < (entryLine record).length := by
      rw [hline, List.length_append, List.length_singleton]
      omega
    have hends : ¬ (entryLine record).getLast? ≠ some 10 := by simp [hline]
    simp only [hread, if_neg hne, if_neg hfits, if_neg hends, hblank, Bool.false_eq_true, if_false]
    constructor
    · intro hl
      rw [hok hl]
    · intro hl
      obtain ⟨e, he⟩ := herr hl
      rw [he]
      exact ⟨e, rfl⟩
  · -- a line beyond the limit is the line of a record beyond its own
    have hlong : maxPhysicalLineBytes < (readline (maxPhysicalLineBytes + 1) (body ++ 10 :: rest)).1.length := by
      have hlen' : body.length = maxPhysicalLineBytes ∨ maxPhysicalLineBytes + 1 ≤ body.length := by
        omega
      rcases hlen' with he | hle
      · rw [readline_line hb _ (by omega), List.length_append, List.length_singleton]
        omega
      · rw [readline_long hb _ hle]
        omega
    constructor
    · intro hl
      have h1 := entryLine_length record
      have h2 := hl.size
      rw [hline, List.length_append, List.length_singleton] at h1
      unfold maxPhysicalLineBytes at hlen
      omega
    · intro _
      have hne : (readline (maxPhysicalLineBytes + 1) (body ++ 10 :: rest)).1 ≠ [] := by
        intro he
        simp [he] at hlong
      simp only [if_neg hne, if_pos hlong]
      exact ⟨_, rfl⟩

end Entries
end Danus.Core
